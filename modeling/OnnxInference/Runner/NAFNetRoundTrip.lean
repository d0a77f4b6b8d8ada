import OnnxInference.Runner.NAFNet

/-!
# NAFNet and the identity

With a model that returns its input, `restoration` undoes in `postprocess` what `preprocess` has done.  Sizes, offsets
and values come back exactly.  The channels do if `convert_and_normalize` does not swap what `cvtColor` has swapped
before (`round_trip_iff`).
-/

namespace OnnxInference.NAFNet

variable (N : NAFNet)

/-- `preprocess(img)` of the CPU build: `cpu` is the storage of `tensorBuffer()`. -/
def preprocessCpu (cpu : Ptr) (mem : Memory) (img : Mat) : Except Error (Memory × TensorBuffer N.net.batch) := do
  let buf := TensorBuffer.wrap N.net.batch cpu
  let (params, values) ← N.prepare img
  let buf := { buf with letterboxParams := Function.update buf.letterboxParams N.net.slot0 params }
  return (mem.store buf.data 0 values, buf)

/-- `Restorer::restoration` of the CPU build. -/
def restorationCpu (model : SlotModel) (cpu : Ptr) (mem : Memory) (img : Mat) : Except Error Mat := do
  let (mem, buf) ← N.preprocessCpu cpu mem img
  return (postprocess (N.infer model mem buf)).at 0 N.batch_pos

/-- The model is the identity on tensors of the network. -/
structure SlotModel.Identity (model : SlotModel) (net : Net) : Prop where
  outH : model.outH = net.height
  outW : model.outW = net.width
  run : ∀ slot, slot.length = net.planeSize → model.run slot = slot

/-- The index of the float that `postprocess` reads from a plane of a slot for a pixel. -/
def readIndex {batch : Nat} (out : ModelOutput batch) (i : Fin batch) (k : Fin 3) (h w : Nat) : Int :=
  let outH := out.shape.getD 2 0
  let outW := out.shape.getD 3 0
  let channelSize := outH * outW
  let params := out.letterboxParams i
  i * out.planeSize + (k * channelSize + ((h + params.padTop) * outW + params.padLeft + w))

/-- All reads are inside the tensor. -/
def ReadsInside {batch : Nat} (out : ModelOutput batch) : Prop :=
  ∀ (i : Fin batch) (k : Fin 3) (h w : Nat), h < (out.letterboxParams i).origH → w < (out.letterboxParams i).origW →
    0 ≤ readIndex out i k h w ∧ readIndex out i k h w < out.data.length

/-- Both builds return the image, and read only floats of the tensor. -/
structure RoundTrip (model : SlotModel) (cpu gpu : Ptr) (mem : Memory) (img : Mat) : Prop where
  image_cuda : N.restoration model cpu gpu mem img = .ok img
  image_cpu : N.restorationCpu model cpu mem img = .ok img
  reads_cuda : ∀ mem' buf, N.preprocess cpu gpu mem img = .ok (mem', buf) → ReadsInside (N.infer model mem' buf)
  reads_cpu : ∀ mem' buf, N.preprocessCpu cpu mem img = .ok (mem', buf) → ReadsInside (N.infer model mem' buf)

/-- What comes back of a pixel. -/
def back (v : Vec3b) : Vec3b := if N.bgr2rgb then ⟨v.c2, v.c1, v.c0⟩ else v

variable {N}

/-! ### A pixel -/

/-- What has been normalized is restored exactly. -/
theorem clamp_normalized (v : UInt8) : clamp (v.toNat * normScale) = v := by
  have hv : (v.toNat : ℚ) ≤ 255 := by
    have := v.toNat_lt
    exact_mod_cast Nat.le_of_lt_succ this
  have h0 : (0 : ℚ) ≤ v.toNat * normScale := by
    unfold normScale
    positivity
  have h1 : v.toNat * normScale ≤ 1 := by
    unfold normScale
    linarith
  -- the product with 255 is a whole number, and the half that is added is cut off
  have hfloor : ⌊(v.toNat * normScale) * 255 + 1 / 2⌋ = (v.toNat : Int) := by
    rw [Int.floor_eq_iff]
    unfold normScale
    constructor <;> push_cast <;> linarith
  rw [clamp, min_eq_right h1, max_eq_right h0, hfloor, Int.toNat_natCast, UInt8.ofNat_toNat]

/-- Where the image is in the planes, and what they hold of it. -/
theorem prepare_pixel {img : Mat} {params : LetterboxParams} {values : List ℚ}
    (h : N.prepare img = .ok (params, values)) :
    ∃ top left : Nat, params = ⟨0, left, top, img.cols, img.rows⟩ ∧ top + img.rows ≤ N.net.height ∧
      left + img.cols ≤ N.net.width ∧ ∀ (k : Fin 3) i j, i < img.rows → j < img.cols →
        planeAt N.net.size values k (top + i) (left + j) =
          ((img.at_ i j).channel (if N.bgr2rgb then k else k.rev)).toNat * normScale := by
  simp only [NAFNet.prepare, bind, Except.bind] at h
  split at h
  · cases h
  · rename_i rgb hrgb
    split at h
    · cases h
    · rename_i x hpad
      split at h
      · cases h
      · rename_i values' hv
        cases h
        obtain ⟨hr0, hc0, hr, hc, hswap⟩ := OpenCv.cvtColor_ok hrgb
        have hsize := (padToSize_ok (hr ▸ hr0) (hc ▸ hc0) hpad).1
        obtain ⟨top, left, hparams, htop, hleft, hat⟩ := padToSize_at (hr ▸ hr0) (hc ▸ hc0) hpad
        rw [hr] at htop
        rw [hc] at hleft
        refine ⟨top, left, by rw [hparams, hr, hc], htop, hleft, fun k i j hi hj => ?_⟩
        have hy : top + i < N.net.size.height := by omega
        have hx : left + j < N.net.size.width := by omega
        rw [planeAt_convertAndNormalize hv hsize k hy hx, hat i j (hr ▸ hi) (hc ▸ hj), hswap i hi j hj]
        cases N.bgr2rgb with
        | false => rfl
        | true => rw [if_pos rfl, if_pos rfl, Fin.rev_rev]

/-! ### The tensor -/

section Restore

variable {model : SlotModel} {mem : Memory} {buf : TensorBuffer N.net.batch} {img : Mat} {params : LetterboxParams}
  {values : List ℚ}

/-- The floats of the first slot. -/
private theorem getD_flatten_ofFn {n : Nat} (hn : 0 < n) (f : Fin n → List ℚ) {i : Nat}
    (hi : i < (f ⟨0, hn⟩).length) :
    (List.ofFn f).flatten.getD i 0 = (f ⟨0, hn⟩).getD i 0 := by
  cases n with
  | zero => exact absurd hn (Nat.lt_irrefl 0)
  | succ n =>
    have hi' : i < (f 0).length := hi
    rw [List.ofFn_succ, List.flatten_cons, List.getD_eq_getElem?_getD, List.getElem?_append_left hi',
      ← List.getD_eq_getElem?_getD]
    rfl

theorem infer_getD (hm : model.Identity N.net) (hslot : N.slot mem buf N.net.slot0 = values)
    (hlen : values.length = N.net.planeSize) {i : Nat} (hi : i < N.net.planeSize) :
    (N.infer model mem buf).data.getD i 0 = values.getD i 0 := by
  have hrun : model.run (N.slot mem buf N.net.slot0) = values := (hm.run _ (hslot ▸ hlen)).trans hslot
  rw [← hrun]
  refine getD_flatten_ofFn N.net.batch_pos _ ?_
  show i < (model.run (N.slot mem buf N.net.slot0)).length
  rw [hrun, hlen]
  exact hi

/-- The image that comes back in the first slot. -/
theorem postprocess_eq (hm : model.Identity N.net) (hp : N.prepare img = .ok (params, values))
    (hslot : N.slot mem buf N.net.slot0 = values) (hparams : buf.letterboxParams N.net.slot0 = params) :
    (postprocess (N.infer model mem buf)).at 0 N.net.batch_pos =
      .ofFn img.rows img.cols fun i j => N.back (img.at_ i j) := by
  have hlen := length_prepare hp
  obtain ⟨top, left, rfl, htop, hleft, hpixel⟩ := prepare_pixel hp
  have hplane : ∀ (k : Fin 3) i j, i < img.rows → j < img.cols →
      clamp ((N.infer model mem buf).data.getD (k * (N.net.height * N.net.width) +
        (((i : Int) + top) * N.net.width + left + j).toNat) 0) =
      (img.at_ i j).channel (if N.bgr2rgb then k else k.rev) := by
    intro k i j hi hj
    have hidx : (((i : Int) + top) * N.net.width + left + j).toNat = (top + i) * N.net.width + (left + j) := by
      rw [Int.add_comm (i : Int), Int.add_assoc]
      exact Int.toNat_natCast ((top + i) * N.net.width + (left + j))
    have hlt : k * (N.net.height * N.net.width) + ((top + i) * N.net.width + (left + j)) < N.net.planeSize :=
      plane_index_lt k (by omega) (by omega)
    rw [hidx, infer_getD hm hslot hlen hlt]
    have h := hpixel k i j hi hj
    rw [planeAt] at h
    exact (congrArg clamp h).trans (clamp_normalized _)
  -- the planes are read the other way round
  have hrestored : (postprocess (N.infer model mem buf)).at N.net.slot0 N.net.slot0.isLt =
      .ofFn img.rows img.cols fun h w =>
        let srcIdx := (((h : Int) + top) * N.net.width + left + w).toNat
        ⟨clamp ((N.infer model mem buf).data.getD (2 * (N.net.height * N.net.width) + srcIdx) 0),
          clamp ((N.infer model mem buf).data.getD (N.net.height * N.net.width + srcIdx) 0),
          clamp ((N.infer model mem buf).data.getD srcIdx 0)⟩ := by
    have hH : (N.infer model mem buf).shape.getD 2 0 = N.net.height := hm.outH
    have hW : (N.infer model mem buf).shape.getD 3 0 = N.net.width := hm.outW
    have hp : (N.infer model mem buf).letterboxParams N.net.slot0 = ⟨0, left, top, img.cols, img.rows⟩ := hparams
    simp only [postprocess, Outputs.at, List.get_eq_getElem, List.getElem_ofFn, Fin.eta, hH, hW, hp,
      Int.toNat_natCast]
    simp only [show N.net.slot0.val = 0 from rfl, Nat.zero_mul, List.drop_zero]
  refine hrestored.trans (Mat.ext_at rfl rfl fun i j hi hj => ?_)
  rw [Mat.rows_ofFn] at hi
  rw [Mat.cols_ofFn] at hj
  rw [Mat.at_ofFn _ hi hj, Mat.at_ofFn _ hi hj]
  have h2 := hplane 2 i j hi hj
  have h1 := hplane 1 i j hi hj
  have h0 := hplane 0 i j hi hj
  rw [show (1 : Fin 3).val = 1 from rfl, Nat.one_mul] at h1
  rw [show (0 : Fin 3).val = 0 from rfl, Nat.zero_mul, Nat.zero_add] at h0
  refine (congr (congr (congrArg Vec3b.mk h2) h1) h0).trans ?_
  unfold back
  cases N.bgr2rgb with
  | false => rfl
  | true => rfl

private theorem length_flatten_ofFn {n len : Nat} (f : Fin n → List ℚ) (h : ∀ i, (f i).length = len) :
    (List.ofFn f).flatten.length = n * len := by
  induction n with
  | zero => rw [List.ofFn_zero, List.flatten_nil, List.length_nil, Nat.zero_mul]
  | succ n ih =>
    rw [List.ofFn_succ, List.flatten_cons, List.length_append, h, ih _ fun i => h i.succ, Nat.succ_mul, Nat.add_comm]

/-- The slots without an image have the size zero, and nothing is read for them. -/
theorem reads_inside (hm : model.Identity N.net) (hp : N.prepare img = .ok (params, values))
    (hparams : buf.letterboxParams =
      Function.update (TensorBuffer.wrap N.net.batch buf.data).letterboxParams N.net.slot0 params) :
    ReadsInside (N.infer model mem buf) := by
  obtain ⟨top, left, rfl, htop, hleft, -⟩ := prepare_pixel hp
  intro i k h w hh hw
  have hlen : (N.infer model mem buf).data.length = N.net.batch * N.net.planeSize := by
    rw [Net.planeSize, ← hm.outH, ← hm.outW]
    exact length_flatten_ofFn _ fun i => model.length_run _
  have hbuf : (N.infer model mem buf).letterboxParams = buf.letterboxParams := rfl
  by_cases hi : i = N.net.slot0
  · subst hi
    have hH : (N.infer model mem buf).shape.getD 2 0 = N.net.height := hm.outH
    have hW : (N.infer model mem buf).shape.getD 3 0 = N.net.width := hm.outW
    rw [hbuf, hparams, Function.update_self] at hh hw
    have hh' : (h : Int) < img.rows := hh
    have hw' : (w : Int) < img.cols := hw
    have hlt : k * (N.net.height * N.net.width) + ((top + h) * N.net.width + (left + w)) < N.net.planeSize :=
      plane_index_lt k (by omega) (by omega)
    have hle : 1 * N.net.planeSize ≤ N.net.batch * N.net.planeSize := Nat.mul_le_mul_right _ N.net.batch_pos
    have hidx : readIndex (N.infer model mem buf) N.net.slot0 k h w =
        ((k * (N.net.height * N.net.width) + ((top + h) * N.net.width + (left + w)) : Nat) : Int) := by
      simp only [readIndex, hbuf, hparams, Function.update_self, hH, hW, show N.net.slot0.val = 0 from rfl]
      push_cast
      ring
    rw [hidx, hlen]
    omega
  · -- the loops over the rows of another slot are empty
    rw [hbuf, hparams, Function.update_of_ne hi] at hh
    simp only [TensorBuffer.wrap, LetterboxParams.zero] at hh
    omega

end Restore

/-! ### The round trip -/

theorem preprocessCpu_ok {img : Mat} {params : LetterboxParams} {values : List ℚ} {cpu : Ptr} (mem : Memory)
    (hp : N.prepare img = .ok (params, values)) (hcpu : (mem cpu).length = N.net.numElements) :
    ∃ mem' buf, N.preprocessCpu cpu mem img = .ok (mem', buf) ∧ N.slot mem' buf N.net.slot0 = values ∧
      buf.letterboxParams N.net.slot0 = params := by
  have hl := length_prepare hp
  refine ⟨_, _, by simp only [preprocessCpu, hp]; rfl, ?_, ?_⟩
  · have hle : 0 + values.length ≤ (mem cpu).length := by
      rw [hl, hcpu]
      have := N.net.slot_le N.net.slot0
      omega
    simp only [slot, TensorBuffer.wrap, Net.slot0, Nat.zero_mul, Memory.store_same]
    exact segment_overlay_same hl hle
  · simp

/-- An image comes back if and only if all its pixels do. -/
theorem ofFn_back_iff (img : Mat) : (Mat.ofFn img.rows img.cols fun i j => N.back (img.at_ i j)) = img ↔
    (N.bgr2rgb = true → ∀ i j, i < img.rows → j < img.cols → (img.at_ i j).c0 = (img.at_ i j).c2) := by
  have hpixel : ∀ v : Vec3b, N.back v = v ↔ (N.bgr2rgb = true → v.c0 = v.c2) := by
    rintro ⟨c0, c1, c2⟩
    cases hb : N.bgr2rgb with
    | false => simp [back, hb]
    | true =>
      simp only [back, hb, if_true, Vec3b.mk.injEq, true_and, true_imp_iff]
      exact ⟨fun h => h.2, fun h => ⟨h.symm, h⟩⟩
  constructor
  · intro h hb i j hi hj
    have hat := Mat.at_ofFn (fun i j => N.back (img.at_ i j)) hi hj
    rw [h] at hat
    exact (hpixel _).1 hat.symm hb
  · intro h
    refine Mat.ext_at rfl rfl fun i j hi hj => ?_
    rw [Mat.rows_ofFn] at hi
    rw [Mat.cols_ofFn] at hj
    rw [Mat.at_ofFn _ hi hj]
    exact (hpixel _).2 fun hb => h hb i j hi hj

section Identity

variable {model : SlotModel} (hm : model.Identity N.net) {cpu gpu : Ptr} {mem : Memory}
  (hcpu : (mem cpu).length = N.net.numElements) {img : Mat} (hfit : N.Fits img)
include hm hcpu hfit

theorem restoration_eq (hne : gpu ≠ cpu) (hgpu : (mem gpu).length = N.net.numElements) :
    N.restoration model cpu gpu mem img = .ok (.ofFn img.rows img.cols fun i j => N.back (img.at_ i j)) := by
  obtain ⟨params, values, hp, hl, -, -⟩ := hfit.prepare
  obtain ⟨m, b, hpre, hslot, hparams⟩ := preprocess_ok mem hp hl hcpu hgpu hne
  rw [← postprocess_eq hm hp hslot hparams, restoration, hpre]
  rfl

theorem restorationCpu_eq :
    N.restorationCpu model cpu mem img = .ok (.ofFn img.rows img.cols fun i j => N.back (img.at_ i j)) := by
  obtain ⟨params, values, hp, -, -, -⟩ := hfit.prepare
  obtain ⟨m, b, hpre, hslot, hparams⟩ := preprocessCpu_ok mem hp hcpu
  rw [← postprocess_eq hm hp hslot hparams, restorationCpu, hpre]
  rfl

end Identity

/-- The image comes back unless it is swapped twice; then it does if the channels that are swapped are equal. -/
theorem round_trip_iff (N : NAFNet) (model : SlotModel) (hm : model.Identity N.net) (cpu gpu : Ptr) (hne : gpu ≠ cpu)
    (mem : Memory) (hcpu : (mem cpu).length = N.net.numElements) (hgpu : (mem gpu).length = N.net.numElements)
    (img : Mat) (hfit : N.Fits img) : N.RoundTrip model cpu gpu mem img ↔
      (N.bgr2rgb = true → ∀ i j, i < img.rows → j < img.cols → (img.at_ i j).c0 = (img.at_ i j).c2) := by
  rw [← ofFn_back_iff]
  constructor
  · intro h
    exact Except.ok.inj ((restoration_eq hm hcpu hfit hne hgpu).symm.trans h.image_cuda)
  · intro h
    obtain ⟨params, values, hp, -, -, -⟩ := hfit.prepare
    refine ⟨by rw [restoration_eq hm hcpu hfit hne hgpu, h], by rw [restorationCpu_eq hm hcpu hfit, h],
      fun mem' buf hbuf => ?_, fun mem' buf hbuf => ?_⟩
    · simp only [preprocess, hp, bind, Except.bind, pure, Except.pure] at hbuf
      cases hbuf
      exact reads_inside hm hp rfl
    · simp only [preprocessCpu, hp, bind, Except.bind, pure, Except.pure] at hbuf
      cases hbuf
      exact reads_inside hm hp rfl

theorem identity_identityModel (net : Net) : (identityModel net).Identity net where
  outH := rfl
  outW := rfl
  run slot h := by
    show (slot ++ List.replicate net.planeSize 0).take net.planeSize = slot
    rw [List.take_append_of_le_length h.ge, List.take_of_length_le h.le]

theorem greyImage_at {rows cols i j : Nat} (hi : i < rows) (hj : j < cols) :
    ((greyImage rows cols).at_ i j).c0 = ((greyImage rows cols).at_ i j).c2 := by
  rw [greyImage, Mat.at_ofFn _ hi hj]

/-- An image of any colours with a border comes back if it is swapped once, and one of greys also if it is swapped
twice. -/
theorem round_trip_iff_border :
    { twoSlots with bgr2rgb := false }.RoundTrip (identityModel twoSlots.net) 0 1 slotMemory
      (.ofFn 2 3 fun i j => ⟨.ofNat i, .ofNat j, 7⟩) ∧
    twoSlots.RoundTrip (identityModel twoSlots.net) 0 1 slotMemory (greyImage 2 3) :=
  ⟨(round_trip_iff _ _ (identity_identityModel _) 0 1 (by decide) slotMemory rfl rfl _
      ⟨by decide, by decide, by decide, by decide⟩).2 (fun h => absurd h Bool.false_ne_true),
    (round_trip_iff _ _ (identity_identityModel _) 0 1 (by decide) slotMemory rfl rfl _
      (fits_greyImage (by decide) (by decide) (by decide) (by decide))).2 fun _ _ _ hi hj => greyImage_at hi hj⟩

/-- A pixel with three different channels. -/
def colorPixel : Mat := ⟨1, 1, [⟨1, 2, 3⟩], rfl⟩

/-- With the default configuration blue and red are exchanged. -/
theorem colorPixel_not_round_trip :
    ¬onePixel.RoundTrip (identityModel onePixel.net) 0 1 (fun _ => [0, 0, 0]) colorPixel := by
  intro h
  have hfit : onePixel.Fits colorPixel := by constructor <;> decide
  have hback : onePixel.restorationCpu (identityModel onePixel.net) 0 (fun _ => [0, 0, 0]) colorPixel = _ :=
    restorationCpu_eq (identity_identityModel _) rfl hfit
  exact absurd (Except.ok.inj (hback.symm.trans h.image_cpu)) (by decide)

end OnnxInference.NAFNet
