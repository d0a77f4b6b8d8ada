import OnnxInference.Preprocess

/-!
# The scale of the letterbox

An image is scaled so that it fits the target size.  With `auto_aspect_ratio` the sizes are aligned to the stride first,
and the scale is computed again from the aligned ones: it is positive if and only if both sizes reach the stride
(`alignedScale_pos_iff`), and it is the scale of the fit if and only if the alignment changes nothing
(`alignedScale_eq_fitScale_iff`).
-/

namespace OnnxInference

/-! ### Rounding -/

@[simp] theorem cRound_intCast (n : Int) : cRound n = n := by
  have hfloor : ∀ k : Int, ⌊(k : ℚ) + 1 / 2⌋ = k := by
    intro k
    rw [Int.floor_eq_iff]
    constructor <;> linarith
  unfold cRound
  split
  · exact hfloor n
  · have hneg := hfloor (-n)
    push_cast at hneg
    rw [hneg, neg_neg]

theorem le_cRound_iff {x : ℚ} {n : Int} (hn : 0 < n) : n ≤ cRound x ↔ (n : ℚ) - 1 / 2 ≤ x := by
  have hn' : (1 : ℚ) ≤ n := by exact_mod_cast hn
  unfold cRound
  split
  · rw [Int.le_floor, sub_le_iff_le_add]
  -- a negative number rounds to no positive one
  · rename_i hx
    have h0 : 0 ≤ ⌊-x + 1 / 2⌋ := by
      rw [Int.floor_nonneg]
      linarith
    constructor
    · intro h
      omega
    · intro h
      linarith

theorem cRound_pos_iff {x : ℚ} : 0 < cRound x ↔ 1 / 2 ≤ x := by
  have h := le_cRound_iff (x := x) Int.one_pos
  norm_num at h
  exact h

theorem cRound_le_add {x : ℚ} (h : 0 ≤ x) : (cRound x : ℚ) ≤ x + 1 / 2 := by
  rw [cRound, if_pos h]
  exact Int.floor_le _

theorem sub_lt_cRound {x : ℚ} (h : 0 ≤ x) : x - 1 / 2 < cRound x := by
  rw [cRound, if_pos h]
  have := Int.sub_one_lt_floor (x + 1 / 2)
  linarith

/-! ### Alignment -/

/-- `n - n % stride`. -/
def alignDown (n : Int) : Int := n - n.tmod 32

theorem alignDown_of_nonneg {n : Int} (h : 0 ≤ n) : alignDown n = n - n % 32 := by
  rw [alignDown, Int.tmod_eq_emod_of_nonneg h]

theorem alignDown_nonneg {n : Int} (h : 0 ≤ n) : 0 ≤ alignDown n := by
  rw [alignDown_of_nonneg h]
  omega

theorem alignDown_le {n : Int} (h : 0 ≤ n) : alignDown n ≤ n := by
  rw [alignDown_of_nonneg h]
  omega

theorem lt_alignDown {n : Int} (h : 0 ≤ n) : n < alignDown n + 32 := by
  rw [alignDown_of_nonneg h]
  omega

theorem alignDown_pos_iff {n : Int} (h : 0 ≤ n) : 0 < alignDown n ↔ 32 ≤ n := by
  rw [alignDown_of_nonneg h]
  omega

theorem alignDown_eq_iff {n : Int} (h : 0 ≤ n) : alignDown n = n ↔ 32 ∣ n := by
  rw [alignDown_of_nonneg h]
  omega

/-! ### Scale -/

/-- The scale at which an image of this size fits the target size. -/
def fitScale (size : Size) (cols rows : Nat) : ℚ := min ((size.width : ℚ) / cols) (size.height / rows)

/-- The width of the image at this scale. -/
def fitWidth (size : Size) (cols rows : Nat) : Int := cRound (cols * fitScale size cols rows)

/-- The height of the image at this scale. -/
def fitHeight (size : Size) (cols rows : Nat) : Int := cRound (rows * fitScale size cols rows)

/-- The scale of the aligned sizes. -/
def alignedScale (size : Size) (cols rows : Nat) : ℚ :=
  min ((alignDown (fitWidth size cols rows) : ℚ) / cols) (alignDown (fitHeight size cols rows) / rows)

theorem letterboxScale_eq (img : Mat) (size : Size) (auto : Bool) : letterboxScale img size auto =
    if auto then alignedScale size img.cols img.rows else fitScale size img.cols img.rows := by
  cases auto <;> rfl

variable {size : Size} {cols rows : Nat}

theorem fitScale_nonneg : 0 ≤ fitScale size cols rows := by
  unfold fitScale
  positivity

theorem fitWidth_nonneg : 0 ≤ fitWidth size cols rows :=
  cRound_nonneg (mul_nonneg (Nat.cast_nonneg _) fitScale_nonneg)

theorem fitHeight_nonneg : 0 ≤ fitHeight size cols rows :=
  cRound_nonneg (mul_nonneg (Nat.cast_nonneg _) fitScale_nonneg)

theorem alignedScale_nonneg : 0 ≤ alignedScale size cols rows := by
  have hw : 0 ≤ alignDown (fitWidth size cols rows) := alignDown_nonneg fitWidth_nonneg
  have hh : 0 ≤ alignDown (fitHeight size cols rows) := alignDown_nonneg fitHeight_nonneg
  refine le_min (div_nonneg ?_ (Nat.cast_nonneg _)) (div_nonneg ?_ (Nat.cast_nonneg _))
  · exact_mod_cast hw
  · exact_mod_cast hh

/-- A size is at most doubled by what the alignment takes from it. -/
private theorem half_le_alignDown {x : ℚ} (hx : 0 ≤ x) (h : 32 ≤ cRound x) : x / 2 ≤ alignDown (cRound x) := by
  have h0 : 0 ≤ cRound x := by omega
  have hle : 32 ≤ alignDown (cRound x) := by
    rw [alignDown_of_nonneg h0]
    omega
  have hlt := lt_alignDown h0
  have hle' : (32 : ℚ) ≤ alignDown (cRound x) := by exact_mod_cast hle
  have hlt' : (cRound x : ℚ) + 1 ≤ alignDown (cRound x) + 32 := by exact_mod_cast hlt
  have := sub_lt_cRound hx
  linarith

section Positive

variable (hc : 0 < cols) (hr : 0 < rows)
include hc hr

theorem alignedScale_pos_iff :
    0 < alignedScale size cols rows ↔ 32 ≤ fitWidth size cols rows ∧ 32 ≤ fitHeight size cols rows := by
  have hc' : (0 : ℚ) < cols := by exact_mod_cast hc
  have hr' : (0 : ℚ) < rows := by exact_mod_cast hr
  rw [alignedScale, lt_min_iff, div_pos_iff_of_pos_right hc', div_pos_iff_of_pos_right hr', Int.cast_pos,
    Int.cast_pos, alignDown_pos_iff fitWidth_nonneg, alignDown_pos_iff fitHeight_nonneg]

theorem half_fitScale_le (hw : 32 ≤ fitWidth size cols rows) (hh : 32 ≤ fitHeight size cols rows) :
    fitScale size cols rows / 2 ≤ alignedScale size cols rows := by
  have hc' : (0 : ℚ) < cols := by exact_mod_cast hc
  have hr' : (0 : ℚ) < rows := by exact_mod_cast hr
  refine le_min ?_ ?_
  · rw [le_div_iff₀ hc']
    have := half_le_alignDown (mul_nonneg hc'.le fitScale_nonneg) hw
    rw [fitWidth]
    linarith
  · rw [le_div_iff₀ hr']
    have := half_le_alignDown (mul_nonneg hr'.le fitScale_nonneg) hh
    rw [fitHeight]
    linarith

/-- The scaled image has at least one pixel if and only if both sizes reach the stride. -/
theorem aligned_size_pos_iff :
    0 < cRound (cols * alignedScale size cols rows) ∧ 0 < cRound (rows * alignedScale size cols rows) ↔
      32 ≤ fitWidth size cols rows ∧ 32 ≤ fitHeight size cols rows := by
  have hc' : (0 : ℚ) < cols := by exact_mod_cast hc
  have hr' : (0 : ℚ) < rows := by exact_mod_cast hr
  rw [cRound_pos_iff, cRound_pos_iff]
  constructor
  · rintro ⟨h, -⟩
    refine (alignedScale_pos_iff hc hr).1 (pos_of_mul_pos_right (?_ : 0 < (cols : ℚ) * _) hc'.le)
    linarith
  · rintro ⟨hw, hh⟩
    have hle := half_fitScale_le hc hr hw hh
    have hw' := (le_cRound_iff (by decide)).1 hw
    have hh' := (le_cRound_iff (by decide)).1 hh
    have := mul_le_mul_of_nonneg_left hle hc'.le
    have := mul_le_mul_of_nonneg_left hle hr'.le
    norm_num at hw' hh'
    constructor <;> linarith

/-- The alignment keeps a size if and only if it is a multiple of the stride; it keeps the scale if no size is rounded
down either. -/
theorem alignedScale_eq_fitScale_iff : alignedScale size cols rows = fitScale size cols rows ↔
    (32 ∣ fitWidth size cols rows ∧ cols * fitScale size cols rows ≤ fitWidth size cols rows) ∧
      (32 ∣ fitHeight size cols rows ∧ rows * fitScale size cols rows ≤ fitHeight size cols rows) := by
  have hc' : (0 : ℚ) < cols := by exact_mod_cast hc
  have hr' : (0 : ℚ) < rows := by exact_mod_cast hr
  -- a size that is no less than what was rounded is the rounded size
  have hkeep : ∀ x : ℚ, 0 ≤ x → x ≤ alignDown (cRound x) → 32 ∣ cRound x ∧ x ≤ cRound x := by
    intro x hx h
    have h0 := cRound_nonneg hx
    have hle := alignDown_le h0
    have hge : cRound x < alignDown (cRound x) + 1 := by
      have := cRound_le_add hx
      have : (cRound x : ℚ) < (alignDown (cRound x) + 1 : Int) := by
        push_cast
        linarith
      exact_mod_cast this
    have heq : alignDown (cRound x) = cRound x := by omega
    exact ⟨(alignDown_eq_iff h0).1 heq, heq ▸ h⟩
  constructor
  · intro h
    have hw : fitScale size cols rows ≤ alignDown (fitWidth size cols rows) / cols := h ▸ min_le_left _ _
    have hh : fitScale size cols rows ≤ alignDown (fitHeight size cols rows) / rows := h ▸ min_le_right _ _
    rw [le_div_iff₀ hc', mul_comm] at hw
    rw [le_div_iff₀ hr', mul_comm] at hh
    exact ⟨hkeep _ (mul_nonneg hc'.le fitScale_nonneg) hw, hkeep _ (mul_nonneg hr'.le fitScale_nonneg) hh⟩
  · rintro ⟨⟨hw, hw'⟩, hh, hh'⟩
    rw [alignedScale, (alignDown_eq_iff fitWidth_nonneg).2 hw, (alignDown_eq_iff fitHeight_nonneg).2 hh]
    refine le_antisymm ?_ (le_min ((le_div_iff₀ hc').2 (by rwa [mul_comm])) ((le_div_iff₀ hr').2 (by rwa [mul_comm])))
    refine min_le_min (div_le_div_of_nonneg_right ?_ hc'.le) (div_le_div_of_nonneg_right ?_ hr'.le)
    · exact_mod_cast cRound_scale_le hc (min_le_left _ _)
    · exact_mod_cast cRound_scale_le hr (min_le_right _ _)

/-- The scaled image fits the target size. -/
theorem aligned_size_le (size : Size) :
    cRound (cols * alignedScale size cols rows) ≤ size.width ∧
      cRound (rows * alignedScale size cols rows) ≤ size.height :=
  @scaledSize_le (.ofFn rows cols fun _ _ => ⟨0, 0, 0⟩) size true hr hc

end Positive

end OnnxInference
