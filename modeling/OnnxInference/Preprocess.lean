import OnnxInference.OpenCv

/-!
# The preparation of images (`include/preprocess/utils.h`, `src/preprocess/utils.cpp`)
-/

namespace OnnxInference

structure LetterboxParams where
  scale : ℚ
  padLeft : Int
  padTop : Int
  origW : Int
  origH : Int
  deriving DecidableEq

/-- What `letterbox_params.resize` fills the vector with. -/
def LetterboxParams.zero : LetterboxParams := ⟨0, 0, 0, 0, 0⟩

/-- `std::round`: half away from zero. -/
def cRound (x : ℚ) : Int := if 0 ≤ x then ⌊x + 1 / 2⌋ else -⌊-x + 1 / 2⌋

/-! ### The functions of `utils.cpp` -/

section Utils

variable (cv : OpenCv)

def letterboxScale (img : Mat) (targetSize : Size) (autoAspectRatio : Bool) : ℚ :=
  let xFactor : ℚ := targetSize.width / img.cols
  let yFactor : ℚ := targetSize.height / img.rows
  let scale := min xFactor yFactor
  if autoAspectRatio then
    let newW := cRound (img.cols * scale)
    let newH := cRound (img.rows * scale)
    let newW := newW - newW.tmod 32
    let newH := newH - newH.tmod 32
    min (newW / img.cols) (newH / img.rows)
  else scale

def letterboxResize (img : Mat) (targetSize : Size) (autoAspectRatio : Bool) (padColor : Vec3b) :
    Except Error (LetterboxParams × Mat) := do
  let scale := letterboxScale img targetSize autoAspectRatio
  let newW := cRound (img.cols * scale)
  let newH := cRound (img.rows * scale)
  let resized ← cv.resize img newW newH
  let padLeft := (targetSize.width - newW).tdiv 2
  let padTop := (targetSize.height - newH).tdiv 2
  let padRight := targetSize.width - newW - padLeft
  let padBottom := targetSize.height - newH - padTop
  let resized ←
    if padLeft > 0 ∨ padTop > 0 ∨ padRight > 0 ∨ padBottom > 0 then
      cv.copyMakeBorder resized padTop padBottom padLeft padRight padColor
    else .ok resized
  return (⟨scale, padLeft, padTop, img.cols, img.rows⟩, resized)

/-- The floats that `convert_and_normalize` stores from `dst` on.  A plane of another size than the matrix header
over `dst` goes to memory of its own, and nothing is stored. -/
def convertAndNormalize (src : Mat) (size : Size) (normScale : ℚ) (bgr2rgb : Bool) : Except Error (List ℚ) := do
  let rgb ← (if bgr2rgb then cv.cvtColor src else .ok src)
  return (List.finRange 3).flatMap fun k => cv.convertTo rgb k size normScale

def padToSizeMessage (img : Mat) (size : Size) : String :=
  s!"pad_to_size: target size ({size.width}x{size.height}) is smaller than input ({img.cols}x{img.rows})"

def padToSize (img : Mat) (size : Size) (padColor : Vec3b) : Except Error (LetterboxParams × Mat) :=
  if size.width < img.cols ∨ size.height < img.rows then .error (.invalidArgument (padToSizeMessage img size))
  else if size.width = img.cols ∧ size.height = img.rows then .ok (⟨0, 0, 0, img.cols, img.rows⟩, img)
  else do
    let top := (size.height - img.rows) / 2
    let bottom := size.height - img.rows - top
    let left := (size.width - img.cols) / 2
    let right := size.width - img.cols - left
    let padded ← cv.copyMakeBorder img top bottom left right padColor
    return (⟨0, left, top, img.cols, img.rows⟩, padded)

end Utils

/-! ### Sizes -/

variable {cv : OpenCv}

theorem convertAndNormalize_length {src : Mat} {size : Size} {normScale : ℚ} {bgr2rgb : Bool} {values : List ℚ}
    (h : convertAndNormalize cv src size normScale bgr2rgb = .ok values) (hs : src.HasSize size) :
    values.length = 3 * (size.height * size.width) := by
  simp only [convertAndNormalize, bind, Except.bind, pure, Except.pure] at h
  split at h
  · cases h
  · rename_i rgb hrgb
    have hsize : rgb.HasSize size := by
      cases bgr2rgb with
      | false => cases hrgb; exact hs
      | true =>
        obtain ⟨-, -, hr, hc, -⟩ := OpenCv.cvtColor_ok hrgb
        exact ⟨hc.trans hs.1, hr.trans hs.2⟩
    have hplane := fun k => (cv.convertTo_of_size rgb k size normScale hsize).1
    cases h
    rw [List.length_flatMap, List.map_congr_left fun k _ => hplane k, List.map_const', List.sum_replicate,
      List.length_finRange, smul_eq_mul]

theorem padToSize_ok {img img' : Mat} {size : Size} {padColor : Vec3b} {params : LetterboxParams}
    (hr : 0 < img.rows) (hc : 0 < img.cols) (h : padToSize cv img size padColor = .ok (params, img')) :
    img'.HasSize size ∧ params.origH = img.rows ∧ params.origW = img.cols := by
  unfold padToSize at h
  split at h
  · cases h
  · split at h
    · rename_i heq
      cases h
      exact ⟨⟨heq.1.symm, heq.2.symm⟩, rfl, rfl⟩
    · simp only [bind, Except.bind] at h
      split at h
      · cases h
      · rename_i hlt hne padded hb
        cases h
        obtain ⟨hrows, hcols, -⟩ := OpenCv.copyMakeBorder_ok hr hc hb
        refine ⟨⟨?_, ?_⟩, rfl, rfl⟩ <;> omega

theorem padToSize_of_le (cv : OpenCv) {img : Mat} {size : Size} {padColor : Vec3b} (hr : 0 < img.rows)
    (hc : 0 < img.cols) (hrows : img.rows ≤ size.height) (hcols : img.cols ≤ size.width) :
    ∃ x, padToSize cv img size padColor = .ok x := by
  unfold padToSize
  rw [if_neg (by omega)]
  split
  · exact ⟨_, rfl⟩
  · obtain ⟨m', hm⟩ := cv.copyMakeBorder_of_nonneg hr hc ((size.height - img.rows) / 2)
      (size.height - img.rows - (size.height - img.rows) / 2) ((size.width - img.cols) / 2)
      (size.width - img.cols - (size.width - img.cols) / 2) padColor
    simp only [hm]
    exact ⟨_, rfl⟩

theorem convertAndNormalize_of_pos (cv : OpenCv) {src : Mat} {size : Size} {normScale : ℚ} {bgr2rgb : Bool}
    (hr : 0 < src.rows) (hc : 0 < src.cols) :
    ∃ values, convertAndNormalize cv src size normScale bgr2rgb = .ok values := by
  cases bgr2rgb with
  | false => exact ⟨_, rfl⟩
  | true =>
    obtain ⟨rgb, hrgb⟩ := cv.cvtColor_of_pos hr hc
    exact ⟨_, by simp only [convertAndNormalize, hrgb, if_true]; rfl⟩

theorem cRound_le {x : ℚ} {n : Int} (hn : 0 ≤ n) (h : x ≤ n) : cRound x ≤ n := by
  unfold cRound
  split
  · rw [← Int.lt_add_one_iff, Int.floor_lt]
    push_cast
    linarith
  · rename_i hx
    have : 0 ≤ ⌊-x + 1 / 2⌋ := by
      rw [Int.floor_nonneg]
      linarith
    omega

theorem cRound_nonneg {x : ℚ} (h : 0 ≤ x) : 0 ≤ cRound x := by
  unfold cRound
  rw [if_pos h, Int.floor_nonneg]
  linarith

/-- A rounded size is no larger than what the scale was computed from. -/
theorem cRound_scale_le {n t : Nat} {scale : ℚ} (hn : 0 < n) (h : scale ≤ t / n) :
    cRound (n * scale) ≤ t := by
  have hpos : (0 : ℚ) < n := by exact_mod_cast hn
  refine cRound_le (Int.natCast_nonneg t) ?_
  rw [mul_comm, Int.cast_natCast]
  exact (le_div_iff₀ hpos).1 h

private theorem aligned_le {n t : Nat} {scale : ℚ} (hn : 0 < n) (h0 : 0 ≤ scale) (h : scale ≤ t / n) :
    ((cRound (n * scale) - (cRound (n * scale)).tmod 32 : Int) : ℚ) / n ≤ t / n := by
  have hpos : (0 : ℚ) < n := by exact_mod_cast hn
  have hle : cRound (n * scale) ≤ (t : Int) := cRound_scale_le hn h
  have hnonneg : 0 ≤ cRound (n * scale) := cRound_nonneg (mul_nonneg hpos.le h0)
  have hmod : 0 ≤ (cRound (n * scale)).tmod 32 := Int.tmod_nonneg _ hnonneg
  have : cRound (n * scale) - (cRound (n * scale)).tmod 32 ≤ (t : Int) := by omega
  refine div_le_div_of_nonneg_right ?_ hpos.le
  exact_mod_cast this

theorem letterboxScale_le {img : Mat} (size : Size) (auto : Bool) (hr : 0 < img.rows) (hc : 0 < img.cols) :
    letterboxScale img size auto ≤ size.width / img.cols ∧ letterboxScale img size auto ≤ size.height / img.rows := by
  have h0 : 0 ≤ min ((size.width : ℚ) / img.cols) (size.height / img.rows) := by positivity
  unfold letterboxScale
  cases auto with
  | false => exact ⟨min_le_left _ _, min_le_right _ _⟩
  | true =>
    refine ⟨(min_le_left _ _).trans ?_, (min_le_right _ _).trans ?_⟩
    · exact aligned_le hc h0 (min_le_left _ _)
    · exact aligned_le hr h0 (min_le_right _ _)

/-- The scaled image fits the target size. -/
theorem scaledSize_le {img : Mat} (size : Size) (auto : Bool) (hr : 0 < img.rows) (hc : 0 < img.cols) :
    cRound (img.cols * letterboxScale img size auto) ≤ size.width ∧
      cRound (img.rows * letterboxScale img size auto) ≤ size.height := by
  obtain ⟨hsw, hsh⟩ := letterboxScale_le size auto hr hc
  exact ⟨cRound_scale_le hc hsw, cRound_scale_le hr hsh⟩

/-! ### Pixels -/

/-- The float of a plane at a row and a column. -/
def planeAt (size : Size) (values : List ℚ) (k : Fin 3) (y x : Nat) : ℚ :=
  values.getD (k * (size.height * size.width) + (y * size.width + x)) 0

theorem planeAt_flatMap {size : Size} (planes : Fin 3 → List ℚ)
    (hlen : ∀ k, (planes k).length = size.height * size.width)
    (k : Fin 3) {y x : Nat} (hy : y < size.height) (hx : x < size.width) :
    planeAt size ((List.finRange 3).flatMap planes) k y x = ((planes k)[y * size.width + x]?).getD 0 := by
  have hlt := index_lt hy hx
  have hthree : (List.finRange 3).flatMap planes = planes 0 ++ (planes 1 ++ planes 2) := by simp [List.finRange_succ]
  rw [planeAt, List.getD_eq_getElem?_getD, hthree]
  match k with
  | 0 =>
    rw [show (0 : Fin 3).val = 0 from rfl, Nat.zero_mul, Nat.zero_add,
      List.getElem?_append_left (by rw [hlen]; exact hlt)]
  | 1 =>
    rw [show (1 : Fin 3).val = 1 from rfl, Nat.one_mul, List.getElem?_append_right (by rw [hlen]; omega), hlen,
      Nat.add_sub_cancel_left, List.getElem?_append_left (by rw [hlen]; exact hlt)]
  | 2 =>
    rw [show (2 : Fin 3).val = 2 from rfl, Nat.two_mul, Nat.add_assoc,
      List.getElem?_append_right (by rw [hlen]; omega), hlen, Nat.add_sub_cancel_left,
      List.getElem?_append_right (by rw [hlen]; omega), hlen, Nat.add_sub_cancel_left]

/-- What `convertTo` stores of the three channels. -/
theorem planeAt_convertTo {rgb : Mat} {size : Size} (h : rgb.HasSize size) (normScale : ℚ) (k : Fin 3) {y x : Nat}
    (hy : y < size.height) (hx : x < size.width) :
    planeAt size ((List.finRange 3).flatMap fun k => cv.convertTo rgb k size normScale) k y x =
      ((rgb.at_ y x).channel k).toNat * normScale := by
  have hplane := fun k => cv.convertTo_of_size rgb k size normScale h
  rw [planeAt_flatMap _ (fun k => (hplane k).1) k hy hx, (hplane k).2 y hy x hx, Option.getD_some]

/-- What `convert_and_normalize` stores, plane by plane. -/
theorem planeAt_convertAndNormalize {src : Mat} {size : Size} {normScale : ℚ} {bgr2rgb : Bool} {values : List ℚ}
    (h : convertAndNormalize cv src size normScale bgr2rgb = .ok values) (hs : src.HasSize size) (k : Fin 3) {y x : Nat}
    (hy : y < size.height) (hx : x < size.width) :
    planeAt size values k y x = ((src.at_ y x).channel (if bgr2rgb then k.rev else k)).toNat * normScale := by
  simp only [convertAndNormalize, bind, Except.bind, pure, Except.pure] at h
  cases bgr2rgb with
  | false =>
    cases h
    exact planeAt_convertTo hs normScale k hy hx
  | true =>
    simp only [if_true] at h
    split at h
    · cases h
    · rename_i rgb hrgb
      cases h
      obtain ⟨-, -, hr, hc, hat⟩ := OpenCv.cvtColor_ok hrgb
      rw [planeAt_convertTo ⟨hc.trans hs.1, hr.trans hs.2⟩ normScale k hy hx, hat y (hs.2 ▸ hy) x (hs.1 ▸ hx)]
      rfl

/-- The parameters that belong to a scale. -/
def LetterboxParams.ofScale (size : Size) (cols rows : Nat) (scale : ℚ) : LetterboxParams :=
  ⟨scale, (size.width - cRound (cols * scale)).tdiv 2, (size.height - cRound (rows * scale)).tdiv 2, cols, rows⟩

/-- The position is inside the scaled image. -/
def LetterboxParams.Inside (params : LetterboxParams) (y x : Nat) : Prop :=
  params.padTop ≤ y ∧ y < params.padTop + cRound (params.origH * params.scale) ∧
    params.padLeft ≤ x ∧ x < params.padLeft + cRound (params.origW * params.scale)

instance (params : LetterboxParams) (y x : Nat) : Decidable (params.Inside y x) := inferInstanceAs (Decidable (_ ∧ _))

/-- What `letterbox_resize` makes of an image whose scaled size is positive. -/
structure Letterboxed (cv : OpenCv) (img : Mat) (size : Size) (padColor : Vec3b) (params : LetterboxParams)
    (resized : Mat) : Prop where
  width_pos : 0 < cRound (params.origW * params.scale)
  height_pos : 0 < cRound (params.origH * params.scale)
  hasSize : resized.HasSize size
  at_eq : ∀ {y x : Nat}, y < size.height → x < size.width → resized.at_ y x =
    if params.Inside y x then
      cv.interpolate img (cRound (params.origW * params.scale)).toNat (cRound (params.origH * params.scale)).toNat
        (y - params.padTop).toNat (x - params.padLeft).toNat
    else padColor

private theorem tdiv_two {n : Int} (h : 0 ≤ n) : 0 ≤ n.tdiv 2 ∧ n.tdiv 2 ≤ n ∧ (n.tdiv 2 = 0 → n ≤ 1) := by
  rw [Int.tdiv_eq_ediv_of_nonneg h]
  omega

theorem letterboxResize_spec {img resized : Mat} {size : Size} {auto : Bool} {padColor : Vec3b}
    {params : LetterboxParams} (h : letterboxResize cv img size auto padColor = .ok (params, resized)) :
    params = .ofScale size img.cols img.rows (letterboxScale img size auto) ∧
      Letterboxed cv img size padColor params resized := by
  unfold letterboxResize at h
  simp only [bind, Except.bind] at h
  split at h
  · cases h
  · rename_i m hm
    obtain ⟨hr, hc, hw0, hh0, hh, hw, hat⟩ := OpenCv.resize_ok hm
    obtain ⟨hwle, hhle⟩ := scaledSize_le size auto hr hc
    generalize hnewW : cRound (img.cols * letterboxScale img size auto) = newW at *
    generalize hnewH : cRound (img.rows * letterboxScale img size auto) = newH at *
    have hnewW' : cRound (((img.cols : Int) : ℚ) * letterboxScale img size auto) = newW := by
      rw [Int.cast_natCast, hnewW]
    have hnewH' : cRound (((img.rows : Int) : ℚ) * letterboxScale img size auto) = newH := by
      rw [Int.cast_natCast, hnewH]
    obtain ⟨hl, hl', hl''⟩ := tdiv_two (n := size.width - newW) (by omega)
    obtain ⟨ht, ht', ht''⟩ := tdiv_two (n := size.height - newH) (by omega)
    split at h
    · split at h
      · cases h
      · rename_i padded hp
        cases h
        obtain ⟨hr', hc', hat'⟩ := OpenCv.copyMakeBorder_ok (by omega) (by omega) hp
        refine ⟨by rw [LetterboxParams.ofScale, hnewW, hnewH], by rwa [hnewW'], by rwa [hnewH'],
          by constructor <;> omega, ?_⟩
        intro y x hy hx
        simp only [LetterboxParams.Inside, hnewW', hnewH']
        rw [hat' y (by omega) x (by omega), hh, hw]
        split
        · exact hat _ (by omega) _ (by omega)
        · rfl
    -- nothing is added: the borders are empty
    · cases h
      refine ⟨by rw [LetterboxParams.ofScale, hnewW, hnewH], by rwa [hnewW'], by rwa [hnewH'],
        by constructor <;> omega, ?_⟩
      intro y x hy hx
      simp only [LetterboxParams.Inside, hnewW', hnewH']
      rw [if_pos (by omega), hat y (by omega) x (by omega),
        show ((y : Int) - (size.height - newH).tdiv 2).toNat = y by omega,
        show ((x : Int) - (size.width - newW).tdiv 2).toNat = x by omega]

/-- Where it returns, `letterbox_resize` returns an image of the target size. -/
theorem letterboxResize_ok {img resized : Mat} {size : Size} {auto : Bool} {padColor : Vec3b}
    {params : LetterboxParams} (h : letterboxResize cv img size auto padColor = .ok (params, resized)) :
    resized.HasSize size :=
  (letterboxResize_spec h).2.hasSize

theorem letterboxResize_of_pos (cv : OpenCv) {img : Mat} {size : Size} {auto : Bool} (padColor : Vec3b)
    (hr : 0 < img.rows) (hc : 0 < img.cols) (hw : 0 < cRound (img.cols * letterboxScale img size auto))
    (hh : 0 < cRound (img.rows * letterboxScale img size auto)) :
    ∃ x, letterboxResize cv img size auto padColor = .ok x := by
  obtain ⟨m, hm⟩ := cv.resize_of_pos hr hc hw hh
  obtain ⟨-, -, -, -, hrows, hcols, -⟩ := OpenCv.resize_ok hm
  obtain ⟨hwle, hhle⟩ := scaledSize_le size auto hr hc
  unfold letterboxResize
  simp only [hm, bind, Except.bind]
  generalize cRound (img.cols * letterboxScale img size auto) = newW at *
  generalize cRound (img.rows * letterboxScale img size auto) = newH at *
  obtain ⟨hl, hl', -⟩ := tdiv_two (n := size.width - newW) (by omega)
  obtain ⟨ht, ht', -⟩ := tdiv_two (n := size.height - newH) (by omega)
  split
  · obtain ⟨m', hm'⟩ := cv.copyMakeBorder_of_nonneg (m := m) (by omega) (by omega) ((size.height - newH).tdiv 2).toNat
      (size.height - newH - (size.height - newH).tdiv 2).toNat ((size.width - newW).tdiv 2).toNat
      (size.width - newW - (size.width - newW).tdiv 2).toNat padColor
    rw [Int.toNat_of_nonneg ht, Int.toNat_of_nonneg hl, Int.toNat_of_nonneg (by omega),
      Int.toNat_of_nonneg (by omega)] at hm'
    rw [hm']
    exact ⟨_, rfl⟩
  · exact ⟨_, rfl⟩

/-- The image is where `pad_to_size` says. -/
theorem padToSize_at {img img' : Mat} {size : Size} {padColor : Vec3b} {params : LetterboxParams} (hr : 0 < img.rows)
    (hc : 0 < img.cols) (h : padToSize cv img size padColor = .ok (params, img')) :
    ∃ top left : Nat, params = ⟨0, left, top, img.cols, img.rows⟩ ∧ top + img.rows ≤ size.height ∧
      left + img.cols ≤ size.width ∧
      ∀ i j, i < img.rows → j < img.cols → img'.at_ (top + i) (left + j) = img.at_ i j := by
  have hsize := (padToSize_ok hr hc h).1
  unfold padToSize at h
  split at h
  · cases h
  · split at h
    · rename_i heq
      cases h
      exact ⟨0, 0, rfl, by omega, by omega, fun i j _ _ => by rw [Nat.zero_add, Nat.zero_add]⟩
    · simp only [bind, Except.bind] at h
      split at h
      · cases h
      · rename_i hlt hne padded hb
        cases h
        refine ⟨(size.height - img.rows) / 2, (size.width - img.cols) / 2, rfl, by omega, by omega,
          fun i j hi hj => ?_⟩
        rw [(OpenCv.copyMakeBorder_ok hr hc hb).2.2 _ (by rw [hsize.2]; omega) _ (by rw [hsize.1]; omega),
          if_pos (by omega)]
        congr 1 <;> omega

end OnnxInference
