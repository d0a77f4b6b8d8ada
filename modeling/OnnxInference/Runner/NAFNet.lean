import OnnxInference.Scheduler.Stage
import OnnxInference.Tensor

/-!
# NAFNet (`src/runner/image_restoration/NAFNet.cpp`, CUDA build)

`preprocess` has two overloads with the same image operations: one for a single image, which fills the first slot
of a buffer of its own, and one for a slot of a batch.  The second leaves the letterbox parameters of the batch's
buffer as they are (`batch_agrees_iff`).
-/

namespace OnnxInference

structure NAFNet where
  cv : OpenCv
  net : Net
  bgr2rgb : Bool

namespace NAFNet

variable (N : NAFNet)

theorem batch_pos : 0 < N.net.batch := N.net.batch_pos

def normScale : ℚ := 1 / 255

/-- The default argument of `pad_to_size`; `pad_color_` is never passed. -/
def padColor : Vec3b := ⟨114, 114, 114⟩

/-- The operations of both overloads on the image: `letterbox_params[0]` and the floats stored in `buf.data` of
their local buffer. -/
def prepare (img : Mat) : Except Error (LetterboxParams × List ℚ) := do
  let rgbImg ← N.cv.cvtColor img
  let (params, rgbImg) ← padToSize N.cv rgbImg N.net.size padColor
  let values ← convertAndNormalize N.cv rgbImg N.net.size normScale N.bgr2rgb
  return (params, values)

/-- `preprocess(img)`: `cpu` is the storage of `tensorBuffer()` and `gpu` what `GetTensorBuffer()` acquires. -/
def preprocess (cpu gpu : Ptr) (mem : Memory) (img : Mat) : Except Error (Memory × TensorBuffer N.net.batch) := do
  let buf := TensorBuffer.wrap N.net.batch cpu
  let (params, values) ← N.prepare img
  let buf := { buf with letterboxParams := Function.update buf.letterboxParams N.net.slot0 params }
  let mem := mem.store buf.data 0 values
  let mem := mem.store gpu 0 (segment 0 N.net.numElements (mem buf.data))
  return (mem, { buf with data := gpu })

/-- `preprocess(img, tenbuf, offset)`: the parameters stay in the local buffer. -/
def preprocessAt (mem : Memory) (img : Mat) (tenbuf : TensorBuffer N.net.batch) (offset : Fin N.net.batch) :
    Except Error (Memory × TensorBuffer N.net.batch) := do
  if N.net.numElements = 0 then .error (.runtimeError "benbuf is invalid!")
  let (_, values) ← N.prepare img
  return (mem.store tenbuf.data (offset * N.net.planeSize) values, tenbuf)

/-- The preprocess tasks of a batch in the order in which they run. -/
def preprocessAll (mem : Memory) (tenbuf : TensorBuffer N.net.batch) (tasks : List (Mat × Fin N.net.batch)) :
    Except Error (Memory × TensorBuffer N.net.batch) :=
  tasks.foldlM (fun s t => N.preprocessAt s.1 t.1 s.2 t.2) (mem, tenbuf)

/-- A model that acts slot by slot, with its output shape. -/
structure SlotModel where
  outH : Nat
  outW : Nat
  run : List ℚ → List ℚ
  length_run : ∀ slot, (run slot).length = 3 * (outH * outW)

/-- The contents of a slot of the tensor. -/
def slot (mem : Memory) (tenbuf : TensorBuffer N.net.batch) (k : Fin N.net.batch) : List ℚ :=
  segment (k * N.net.planeSize) N.net.planeSize (mem tenbuf.data)

variable (model : SlotModel)

def infer (mem : Memory) (tenbuf : TensorBuffer N.net.batch) : ModelOutput N.net.batch where
  data := (List.ofFn fun k => model.run (N.slot mem tenbuf k)).flatten
  shape := [N.net.batch, 3, model.outH, model.outW]
  letterboxParams := tenbuf.letterboxParams

/-- The lambda `clamp` of `postprocess`. -/
def clamp (v : ℚ) : UInt8 := .ofNat ⌊max 0 (min 1 v) * 255 + 1 / 2⌋.toNat

def postprocess {batch : Nat} (out : ModelOutput batch) : Outputs batch Mat :=
  let outH := out.shape.getD 2 0
  let outW := out.shape.getD 3 0
  let channelSize := outH * outW
  let restore (i : Fin batch) : Mat :=
    let pdata := out.data.drop (i * out.planeSize)
    let params := out.letterboxParams i
    .ofFn params.origH.toNat params.origW.toNat fun h w =>
      let srcIdx := ((h + params.padTop) * outW + params.padLeft + w).toNat
      ⟨clamp (pdata.getD (2 * channelSize + srcIdx) 0), clamp (pdata.getD (channelSize + srcIdx) 0),
        clamp (pdata.getD srcIdx 0)⟩
  ⟨List.ofFn restore, by simp⟩

/-- `Restorer::restoration`. -/
def restoration (cpu gpu : Ptr) (mem : Memory) (img : Mat) : Except Error Mat := do
  let (mem, buf) ← N.preprocess cpu gpu mem img
  return (postprocess (N.infer model mem buf)).at 0 N.net.batch_pos

/-! ### The image operations -/

/-- The image is not empty and fits the network size. -/
structure Fits (img : Mat) : Prop where
  rows_pos : 0 < img.rows
  cols_pos : 0 < img.cols
  rows_le : img.rows ≤ N.net.height
  cols_le : img.cols ≤ N.net.width

variable {N}

theorem length_prepare {img : Mat} {params : LetterboxParams} {values : List ℚ}
    (h : N.prepare img = .ok (params, values)) : values.length = N.net.planeSize := by
  simp only [NAFNet.prepare, bind, Except.bind] at h
  split at h
  · cases h
  · rename_i rgb hrgb
    split at h
    · cases h
    · rename_i x hx
      split at h
      · cases h
      · rename_i values' hv
        cases h
        obtain ⟨hr, hc, hrows, hcols, -⟩ := OpenCv.cvtColor_ok hrgb
        exact convertAndNormalize_length hv (padToSize_ok (hrows ▸ hr) (hcols ▸ hc) hx).1

theorem Fits.prepare {img : Mat} (h : N.Fits img) : ∃ params values, N.prepare img = .ok (params, values) ∧
    values.length = N.net.planeSize ∧ params.origH = img.rows ∧ params.origW = img.cols := by
  obtain ⟨hr, hc, hrl, hcl⟩ := h
  obtain ⟨rgb, hrgb⟩ := N.cv.cvtColor_of_pos hr hc
  obtain ⟨-, -, hrows, hcols, -⟩ := OpenCv.cvtColor_ok hrgb
  obtain ⟨⟨params, padded⟩, hpad⟩ : ∃ x, padToSize N.cv rgb N.net.size padColor = .ok x :=
    padToSize_of_le N.cv (hrows ▸ hr) (hcols ▸ hc) (hrows ▸ hrl) (hcols ▸ hcl)
  obtain ⟨hsize, horigH, horigW⟩ := padToSize_ok (hrows ▸ hr) (hcols ▸ hc) hpad
  obtain ⟨values, hvalues⟩ : ∃ values, convertAndNormalize N.cv padded N.net.size normScale N.bgr2rgb = .ok values :=
    convertAndNormalize_of_pos N.cv (by rw [hsize.2]; exact hr.trans_le hrl) (by rw [hsize.1]; exact hc.trans_le hcl)
  refine ⟨params, values, ?_, convertAndNormalize_length hvalues hsize, hrows ▸ horigH, hcols ▸ horigW⟩
  simp only [NAFNet.prepare, hrgb, hpad, hvalues, bind, Except.bind, pure, Except.pure]

private theorem Fits.planeSize_pos {img : Mat} (h : N.Fits img) : 0 < N.net.planeSize := by
  have := Nat.mul_pos (h.rows_pos.trans_le h.rows_le) (h.cols_pos.trans_le h.cols_le)
  unfold Net.planeSize
  omega

/-! ### A batch -/

theorem Fits.preprocessAt {img : Mat} (h : N.Fits img) (mem : Memory) (tenbuf : TensorBuffer N.net.batch)
    (k : Fin N.net.batch) : ∃ params values, N.prepare img = .ok (params, values) ∧
      values.length = N.net.planeSize ∧
      N.preprocessAt mem img tenbuf k = .ok (mem.store tenbuf.data (k * N.net.planeSize) values, tenbuf) := by
  obtain ⟨params, values, hp, hl, -, -⟩ := h.prepare
  refine ⟨params, values, hp, hl, ?_⟩
  have hne : N.net.numElements ≠ 0 := (Nat.mul_pos N.net.batch_pos h.planeSize_pos).ne'
  simp only [NAFNet.preprocessAt, hp, if_neg hne]
  rfl

/-- The preprocess tasks of a batch, in any order: each slot given to an image holds its floats, the other slots and
the letterbox parameters are as before. -/
theorem preprocessAll_ok {tasks : List (Mat × Fin N.net.batch)} (hslots : (tasks.map Prod.snd).Nodup)
    (hfit : ∀ t ∈ tasks, N.Fits t.1) (mem : Memory) (tenbuf : TensorBuffer N.net.batch)
    (hlen : (mem tenbuf.data).length = N.net.numElements) :
    ∃ mem', N.preprocessAll mem tenbuf tasks = .ok (mem', tenbuf) ∧
      (∀ k, k ∉ tasks.map Prod.snd → N.slot mem' tenbuf k = N.slot mem tenbuf k) ∧
      ∀ t ∈ tasks, ∀ params values, N.prepare t.1 = .ok (params, values) → N.slot mem' tenbuf t.2 = values := by
  induction tasks generalizing mem with
  | nil => exact ⟨mem, rfl, fun _ _ => rfl, nofun⟩
  | cons t ts ih =>
    rw [List.map_cons, List.nodup_cons] at hslots
    obtain ⟨params, values, hp, hl, hstep⟩ := (hfit t List.mem_cons_self).preprocessAt mem tenbuf t.2
    have hle : t.2 * N.net.planeSize + values.length ≤ (mem tenbuf.data).length := by
      rw [hl, hlen]
      exact N.net.slot_le t.2
    obtain ⟨mem', hrun, hother, hown⟩ := ih hslots.2 (fun t' ht' => hfit t' (List.mem_cons_of_mem _ ht'))
      (mem.store tenbuf.data (t.2 * N.net.planeSize) values) (by rw [Memory.store_same, length_overlay hle, hlen])
    refine ⟨mem', ?_, ?_, ?_⟩
    · rw [preprocessAll, List.foldlM_cons, hstep]
      exact hrun
    · intro k hk
      rw [List.map_cons, List.mem_cons, not_or] at hk
      rw [hother k hk.2]
      unfold slot
      rw [Memory.store_same]
      refine segment_overlay_disjoint hle ?_
      rw [hl]
      exact N.net.slot_disjoint hk.1
    · intro t' ht' params' values' hp'
      rcases List.mem_cons.1 ht' with rfl | ht'
      · rw [hp] at hp'
        cases hp'
        rw [hother _ hslots.1]
        unfold slot
        rw [Memory.store_same]
        exact segment_overlay_same hl hle
      · exact hown t' ht' params' values' hp'

/-! ### A single image -/

theorem preprocess_ok {img : Mat} {params : LetterboxParams} {values : List ℚ} {cpu gpu : Ptr} (mem : Memory)
    (hp : N.prepare img = .ok (params, values)) (hl : values.length = N.net.planeSize)
    (hcpu : (mem cpu).length = N.net.numElements) (hgpu : (mem gpu).length = N.net.numElements) (hne : gpu ≠ cpu) :
    ∃ mem' buf, N.preprocess cpu gpu mem img = .ok (mem', buf) ∧ N.slot mem' buf N.net.slot0 = values ∧
      buf.letterboxParams N.net.slot0 = params := by
  refine ⟨_, _, by simp only [preprocess, hp]; rfl, ?_, ?_⟩
  · have hle : 0 + values.length ≤ (mem cpu).length := by
      rw [hl, hcpu]
      have := N.net.slot_le N.net.slot0
      omega
    have hcpu' : (overlay 0 values (mem cpu)).length = N.net.numElements := by rw [length_overlay hle, hcpu]
    simp only [slot, TensorBuffer.wrap, Net.slot0, Nat.zero_mul, Memory.store_same, Memory.store_of_ne mem hne]
    rw [segment_all hcpu', overlay_all (by rw [hcpu', hgpu]), segment_overlay_same hl hle]
  · simp

/-! ### The batch and its images -/

/-- The height of the image of a slot is the one its letterbox parameters give. -/
theorem rows_postprocess {batch : Nat} (out : ModelOutput batch) (k : Fin batch) :
    ((postprocess out).at k k.isLt).rows = (out.letterboxParams k).origH.toNat := by
  simp [postprocess, Outputs.at]

theorem rows_restoration {img : Mat} {model : SlotModel} {cpu gpu : Ptr} {mem mem' : Memory}
    {buf : TensorBuffer N.net.batch} (hpre : N.preprocess cpu gpu mem img = .ok (mem', buf)) {m : Mat}
    (hm : N.restoration model cpu gpu mem img = .ok m) :
    m.rows = (buf.letterboxParams N.net.slot0).origH.toNat := by
  simp only [restoration, hpre] at hm
  cases hm
  exact rows_postprocess (N.infer model mem' buf) N.net.slot0

/-- After a batch has been preprocessed the floats of a slot are those of its image alone, but neither the letterbox
parameters nor the image returned are. -/
theorem preprocessAll_differs (model : SlotModel) (cpu gpu p : Ptr) (mem : Memory)
    {tasks : List (Mat × Fin N.net.batch)} (hne : gpu ≠ cpu) (hcpu : (mem cpu).length = N.net.numElements)
    (hgpu : (mem gpu).length = N.net.numElements) (hp : (mem p).length = N.net.numElements)
    (hslots : (tasks.map Prod.snd).Nodup) (hfit : ∀ t ∈ tasks, N.Fits t.1) :
    ∃ mem' tenbuf', N.preprocessAll mem (.wrap N.net.batch p) tasks = .ok (mem', tenbuf') ∧
      ∀ t ∈ tasks, ∃ m b, N.preprocess cpu gpu mem t.1 = .ok (m, b) ∧
        N.slot mem' tenbuf' t.2 = N.slot m b N.net.slot0 ∧
        tenbuf'.letterboxParams t.2 ≠ b.letterboxParams N.net.slot0 ∧
        N.restoration model cpu gpu mem t.1 ≠
          .ok ((postprocess (N.infer model mem' tenbuf')).at t.2 t.2.isLt) := by
  obtain ⟨mem', hrun, -, hown⟩ := preprocessAll_ok hslots hfit mem (.wrap N.net.batch p) hp
  refine ⟨mem', _, hrun, ?_⟩
  intro t ht
  obtain ⟨params, values, hprep, hl, horigH, -⟩ := (hfit t ht).prepare
  have hrows := (hfit t ht).rows_pos
  obtain ⟨m, b, hpre, hslot, hparams⟩ := preprocess_ok mem hprep hl hcpu hgpu hne
  refine ⟨m, b, hpre, (hown t ht params values hprep).trans hslot.symm, ?_, ?_⟩
  · rw [hparams]
    rintro rfl
    simp only [TensorBuffer.wrap, LetterboxParams.zero] at horigH
    omega
  · intro himg
    have h := rows_restoration hpre himg
    rw [rows_postprocess, hparams, horigH] at h
    simp only [infer, TensorBuffer.wrap, LetterboxParams.zero] at h
    omega

/-- What a batch of preprocessed images left in its buffer, and what is made of it, agree with the images taken
alone. -/
structure Agrees (N : NAFNet) (model : SlotModel) (cpu gpu : Ptr) (mem : Memory)
    (tasks : List (Mat × Fin N.net.batch)) (mem' : Memory) (tenbuf' : TensorBuffer N.net.batch) : Prop where
  slots : ∀ t ∈ tasks, ∀ m b, N.preprocess cpu gpu mem t.1 = .ok (m, b) →
    N.slot mem' tenbuf' t.2 = N.slot m b N.net.slot0
  params : ∀ t ∈ tasks, ∀ m b, N.preprocess cpu gpu mem t.1 = .ok (m, b) →
    tenbuf'.letterboxParams t.2 = b.letterboxParams N.net.slot0
  images : ∀ t ∈ tasks, N.restoration model cpu gpu mem t.1 =
    .ok ((postprocess (N.infer model mem' tenbuf')).at t.2 t.2.isLt)

/-- The batch agrees with its images taken alone only if it has none. -/
theorem batch_agrees_iff (N : NAFNet) (model : SlotModel) (cpu gpu p : Ptr) (mem : Memory)
    {tasks : List (Mat × Fin N.net.batch)} (hne : gpu ≠ cpu) (hcpu : (mem cpu).length = N.net.numElements)
    (hgpu : (mem gpu).length = N.net.numElements) (hp : (mem p).length = N.net.numElements)
    (hslots : (tasks.map Prod.snd).Nodup) (hfit : ∀ t ∈ tasks, N.Fits t.1) :
    ∃ mem' tenbuf', N.preprocessAll mem (.wrap N.net.batch p) tasks = .ok (mem', tenbuf') ∧
      (N.Agrees model cpu gpu mem tasks mem' tenbuf' ↔ tasks = []) := by
  obtain ⟨mem', tenbuf', hrun, hdiff⟩ := preprocessAll_differs model cpu gpu p mem hne hcpu hgpu hp hslots hfit
  refine ⟨mem', tenbuf', hrun, fun h => ?_, fun h => ?_⟩
  · rw [List.eq_nil_iff_forall_not_mem]
    intro t ht
    obtain ⟨m, b, hpre, -, hparams, -⟩ := hdiff t ht
    exact hparams (h.params t ht m b hpre)
  · subst h
    exact ⟨nofun, nofun, nofun⟩

/-! ### Small networks -/

/-- A model that returns its input. -/
def identityModel (net : Net) : SlotModel where
  outH := net.height
  outW := net.width
  run slot := (slot ++ List.replicate net.planeSize 0).take net.planeSize
  length_run slot := by simp [Net.planeSize]

/-- A network for two images of up to 4 x 4 pixels. -/
def twoSlots : NAFNet := ⟨.reference OpenCv.nearest, ⟨2, 4, 4, Nat.two_pos⟩, true⟩

/-- An image whose pixels have different greys. -/
def greyImage (rows cols : Nat) : Mat :=
  .ofFn rows cols fun i j => ⟨.ofNat (i * cols + j), .ofNat (i * cols + j), .ofNat (i * cols + j)⟩

theorem fits_greyImage {rows cols : Nat} (hr : 0 < rows) (hc : 0 < cols) (hrows : rows ≤ 4) (hcols : cols ≤ 4) :
    twoSlots.Fits (greyImage rows cols) := ⟨hr, hc, hrows, hcols⟩

/-- Two images with borders; the first of them is for the second slot. -/
def greyTasks : List (Mat × Fin twoSlots.net.batch) :=
  [(greyImage 2 3, ⟨1, by decide⟩), (greyImage 1 2, ⟨0, by decide⟩)]

/-- The tensors of the network. -/
abbrev slotMemory : Memory := fun _ => List.replicate twoSlots.net.numElements 0

theorem batch_agrees_iff_greyTasks : ∃ mem' tenbuf',
    twoSlots.preprocessAll slotMemory (.wrap 2 2) greyTasks = .ok (mem', tenbuf') ∧
      (twoSlots.Agrees (identityModel twoSlots.net) 0 1 slotMemory greyTasks mem' tenbuf' ↔ greyTasks = []) :=
  batch_agrees_iff twoSlots (identityModel twoSlots.net) 0 1 2 slotMemory (by decide) rfl rfl rfl (by decide)
    (by simp [greyTasks, fits_greyImage])

def onePixel : NAFNet := ⟨.reference OpenCv.nearest, ⟨1, 1, 1, Nat.one_pos⟩, true⟩

def greyPixel : Mat := ⟨1, 1, [⟨100, 100, 100⟩], rfl⟩

theorem fits_greyPixel : onePixel.Fits greyPixel := by
  constructor <;> decide

/-- The task of the first slot. -/
def greyTask : List (Mat × Fin onePixel.net.batch) := [(greyPixel, onePixel.net.slot0)]

/-- A batch of one image is returned as an image of height zero. -/
theorem greyPixel_disagrees : ¬∀ tasks : List (Mat × Fin onePixel.net.batch), (tasks.map Prod.snd).Nodup →
    (∀ t ∈ tasks, onePixel.Fits t.1) → ∀ mem' tenbuf',
      onePixel.preprocessAll (fun _ => [0, 0, 0]) (.wrap 1 2) tasks = .ok (mem', tenbuf') →
        onePixel.Agrees (identityModel onePixel.net) 0 1 (fun _ => [0, 0, 0]) tasks mem' tenbuf' := by
  intro h
  have hslots : (greyTask.map Prod.snd).Nodup := by decide
  have hfit : ∀ t ∈ greyTask, onePixel.Fits t.1 := by simp [greyTask, fits_greyPixel]
  obtain ⟨mem', tenbuf', hrun, hdiff⟩ := preprocessAll_differs (identityModel onePixel.net) 0 1 2 (fun _ => [0, 0, 0])
    (by decide) rfl rfl rfl hslots hfit
  obtain ⟨m, b, hpre, -, hparams, -⟩ := hdiff _ List.mem_cons_self
  exact hparams ((h _ hslots hfit mem' tenbuf' hrun).params _ List.mem_cons_self m b hpre)

end NAFNet

end OnnxInference
