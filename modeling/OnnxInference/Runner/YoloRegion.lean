import OnnxInference.LetterboxGeometry
import OnnxInference.Runner.YoloAgreement
import OnnxInference.Runner.YoloGeometry

/-!
# The valid region of the kernel

The kernel is not told the size of the scaled image: it takes for it what two paddings of `pad_left` and of `pad_top`
leave of the network input.  This is the image if an even number of columns and of rows is left to pad; otherwise it
is one column or row more.  The alignment to the stride leaves the short side even, but the other side is computed
again from it (`region_iff`).
-/

namespace OnnxInference

/-! ### Parity of the aligned sizes -/

theorem cRound_natCast_div {a b : Nat} (hb : 0 < b) : cRound ((a : ℚ) / b) = ((2 * a + b) / (2 * b) : Nat) := by
  have hb' : (b : ℚ) ≠ 0 := by exact_mod_cast hb.ne'
  have hsum : (a : ℚ) / b + 1 / 2 = ((2 * a + b : Nat) : ℚ) / (2 * b : Nat) := by
    push_cast
    field_simp
  rw [cRound, if_pos (by positivity), hsum, Rat.floor_natCast_div_natCast]
  rfl

theorem mod_lt_iff_even_div {n m : Nat} (hm : 0 < m) : n % (2 * m) < m ↔ 2 ∣ n / m := by
  have hmod : n % (2 * m) = n % m + m * (n / m % 2) := by rw [mul_comm, Nat.mod_mul]
  have hlt := Nat.mod_lt n hm
  rcases Nat.mod_two_eq_zero_or_one (n / m) with h | h
  · rw [h] at hmod
    omega
  · rw [h] at hmod
    omega

/-- An image that fills a frame of this length with its sides `along` leaves an even rest: its sides `across`, rounded
and aligned to the stride, either reach what they were before, or give the sides `along` an even length again. -/
def EvenRest (length along across : Nat) : Prop :=
  let aligned := 32 * ((2 * across * length + along) / (64 * along))
  across * length < along * aligned ∨ (2 * along * aligned + across) % (4 * across) < 2 * across

instance (length along across : Nat) : Decidable (EvenRest length along across) := inferInstanceAs (Decidable (_ ∨ _))

/-- The sides of the image that fill the frame leave an even rest. -/
def EvenPadding (size : Size) (cols rows : Nat) : Prop :=
  if rows * size.width ≤ cols * size.height then EvenRest size.width cols rows else EvenRest size.height rows cols

instance (size : Size) (cols rows : Nat) : Decidable (EvenPadding size cols rows) := by
  unfold EvenPadding
  infer_instance

variable {size : Size} {cols rows : Nat}

theorem fitScale_swap : fitScale ⟨size.height, size.width⟩ rows cols = fitScale size cols rows := min_comm _ _

theorem alignedScale_swap : alignedScale ⟨size.height, size.width⟩ rows cols = alignedScale size cols rows := by
  rw [alignedScale, min_comm, alignedScale, fitHeight, fitWidth, fitScale_swap]
  rfl

section Wide

variable (hc : 0 < cols) (hr : 0 < rows) (hwide : rows * size.width ≤ cols * size.height)
include hc hr hwide

theorem fitScale_of_wide : fitScale size cols rows = size.width / cols := by
  have hc' : (0 : ℚ) < cols := by exact_mod_cast hc
  have hr' : (0 : ℚ) < rows := by exact_mod_cast hr
  refine min_eq_left ((div_le_div_iff₀ hc' hr').2 ?_)
  rw [mul_comm (size.width : ℚ), mul_comm (size.height : ℚ)]
  exact_mod_cast hwide

theorem fitWidth_of_wide : fitWidth size cols rows = size.width := by
  have hc' : (cols : ℚ) ≠ 0 := by exact_mod_cast hc.ne'
  rw [fitWidth, fitScale_of_wide hc hr hwide, mul_div_cancel₀ _ hc']
  exact cRound_intCast size.width

theorem alignDown_fitHeight_of_wide : alignDown (fitHeight size cols rows) =
    (32 * ((2 * rows * size.width + cols) / (64 * cols)) : Nat) := by
  have hround : fitHeight size cols rows = ((2 * (rows * size.width) + cols) / (2 * cols) : Nat) := by
    rw [fitHeight, fitScale_of_wide hc hr hwide, mul_div_assoc', ← Nat.cast_mul]
    exact cRound_natCast_div hc
  have hdiv : (2 * rows * size.width + cols) / (64 * cols) = (2 * (rows * size.width) + cols) / (2 * cols) / 32 := by
    rw [Nat.div_div_eq_div_mul]
    congr 1 <;> ring
  rw [alignDown_of_nonneg fitHeight_nonneg, hround, hdiv]
  omega

/-- The sizes of a wide image after the alignment. -/
theorem aligned_even_iff_of_wide (hw : 32 ∣ size.width) :
    (2 ∣ cRound (cols * alignedScale size cols rows) ∧ 2 ∣ cRound (rows * alignedScale size cols rows)) ↔
      EvenRest size.width cols rows := by
  have hc' : (0 : ℚ) < cols := by exact_mod_cast hc
  have hr' : (0 : ℚ) < rows := by exact_mod_cast hr
  obtain ⟨aligned, haligned⟩ : ∃ aligned, aligned = 32 * ((2 * rows * size.width + cols) / (64 * cols)) := ⟨_, rfl⟩
  have hheight : alignDown (fitHeight size cols rows) = (aligned : Int) := by
    rw [haligned]
    exact alignDown_fitHeight_of_wide hc hr hwide
  have hwidth : alignDown (fitWidth size cols rows) = size.width := by
    rw [fitWidth_of_wide hc hr hwide, alignDown_eq_iff (Int.natCast_nonneg _)]
    omega
  have hscale : alignedScale size cols rows = min ((size.width : ℚ) / cols) (aligned / rows) := by
    rw [alignedScale, hheight, hwidth]
    push_cast
    rfl
  rw [EvenRest, ← haligned]
  by_cases hup : rows * size.width < cols * aligned
  · -- the alignment takes nothing, and the short side was rounded up
    have hfit : alignedScale size cols rows = fitScale size cols rows := by
      rw [hscale, fitScale_of_wide hc hr hwide]
      refine min_eq_left ((div_le_div_iff₀ hc' hr').2 ?_)
      rw [mul_comm (size.width : ℚ), mul_comm (aligned : ℚ)]
      exact_mod_cast hup.le
    have hnonneg : 0 ≤ fitHeight size cols rows := fitHeight_nonneg
    have hle := alignDown_le hnonneg
    have hround : (fitHeight size cols rows : ℚ) ≤ rows * fitScale size cols rows + 1 / 2 :=
      cRound_le_add (mul_nonneg hr'.le fitScale_nonneg)
    have hlt : rows * fitScale size cols rows < aligned := by
      rw [fitScale_of_wide hc hr hwide, mul_div_assoc', div_lt_iff₀ hc', mul_comm (aligned : ℚ)]
      exact_mod_cast hup
    have hsame : fitHeight size cols rows < aligned + 1 := by
      have : (fitHeight size cols rows : ℚ) < (aligned + 1 : Int) := by
        push_cast
        linarith
      exact_mod_cast this
    rw [hfit]
    refine ⟨fun _ => .inl hup, fun _ => ⟨?_, ?_⟩⟩
    · show 2 ∣ fitWidth size cols rows
      rw [fitWidth_of_wide hc hr hwide]
      omega
    · show 2 ∣ fitHeight size cols rows
      omega
  · -- the short side is the aligned one, and the long side is computed from it
    have hfit : alignedScale size cols rows = aligned / rows := by
      rw [hscale]
      refine min_eq_right ((div_le_div_iff₀ hr' hc').2 ?_)
      rw [mul_comm (size.width : ℚ), mul_comm (aligned : ℚ)]
      exact_mod_cast not_lt.1 hup
    have hnewH : cRound (rows * alignedScale size cols rows) = (aligned : Int) := by
      rw [hfit, mul_div_cancel₀ _ hr'.ne']
      exact cRound_intCast aligned
    have hnewW : cRound (cols * alignedScale size cols rows) =
      ((2 * (cols * aligned) + rows) / (2 * rows) : Nat) := by
      rw [hfit, mul_div_assoc', ← Nat.cast_mul]
      exact cRound_natCast_div hr
    have hparity : (2 * cols * aligned + rows) % (4 * rows) < 2 * rows ↔
        2 ∣ (2 * (cols * aligned) + rows) / (2 * rows) := by
      have hfour : 4 * rows = 2 * (2 * rows) := by omega
      rw [mul_assoc 2 cols, hfour]
      exact mod_lt_iff_even_div (by omega)
    rw [hnewH, hnewW, hparity]
    have : 2 ∣ (aligned : Int) := by omega
    simp only [hup, false_or, this, and_true]
    omega

end Wide

/-- The alignment leaves two even sizes, or one that the other spoils. -/
theorem aligned_even_iff (hc : 0 < cols) (hr : 0 < rows) (hw : 32 ∣ size.width) (hh : 32 ∣ size.height) :
    (2 ∣ cRound (cols * alignedScale size cols rows) ∧ 2 ∣ cRound (rows * alignedScale size cols rows)) ↔
      EvenPadding size cols rows := by
  unfold EvenPadding
  split
  · rename_i hwide
    exact aligned_even_iff_of_wide hc hr hwide hw
  · rename_i htall
    -- the axes change places
    have h : (2 ∣ cRound (rows * alignedScale ⟨size.height, size.width⟩ rows cols) ∧
        2 ∣ cRound (cols * alignedScale ⟨size.height, size.width⟩ rows cols)) ↔ EvenRest size.height rows cols :=
      aligned_even_iff_of_wide hr hc (not_le.1 htall).le hh
    rw [alignedScale_swap, and_comm] at h
    exact h

/-! ### The region -/

/-- The CUDA build computes the geometry with `auto_aspect_ratio` by itself. -/
theorem YoloCuda.letterbox_eq_geometry :
    YoloCuda.letterbox size cols rows = (letterboxGeometry size true cols rows).params cols rows := rfl

namespace LetterboxGeometry

/-- A pixel of the frame lies in the picture. -/
def Contains (g : LetterboxGeometry) (x y : Nat) : Prop :=
  g.padLeft ≤ x ∧ x < g.padLeft + g.newW ∧ g.padTop ≤ y ∧ y < g.padTop + g.newH

/-- `letterbox_resize` has the scaled image in the picture, and the border around it. -/
theorem inside_iff {auto : Bool} {x y : Nat} :
    (LetterboxParams.ofScale size cols rows (letterboxGeometry size auto cols rows).scale).Inside y x ↔
      (letterboxGeometry size auto cols rows).Contains x y := by
  simp only [LetterboxParams.Inside, LetterboxParams.ofScale, Contains]
  constructor
  · rintro ⟨h1, h2, h3, h4⟩
    exact ⟨h3, h4, h1, h2⟩
  · rintro ⟨h1, h2, h3, h4⟩
    exact ⟨h3, h4, h1, h2⟩

end LetterboxGeometry

namespace YoloCuda

/-- The kernel takes for image content the pixels of the picture and no others. -/
def RegionExact (D : YoloCuda) (size : Size) (img : Image) : Prop :=
  ∀ x y : Nat, x < size.width → y < size.height → ((D.kernelArgs size img).Valid size x y ↔
    (letterboxGeometry size true img.cols img.rows).Contains x y)

/-- The size that the kernel works out is the size of the scaled image. -/
def SizeExact (size : Size) (cols rows : Nat) : Prop :=
  let g := letterboxGeometry size true cols rows
  size.width - 2 * g.padLeft = g.newW ∧ size.height - 2 * g.padTop = g.newH

theorem sizeExact_iff (hc : 0 < cols) (hr : 0 < rows) (hw : 32 ∣ size.width) (hh : 32 ∣ size.height) :
    SizeExact size cols rows ↔ EvenPadding size cols rows := by
  obtain ⟨hnewW, hnewH⟩ : (letterboxGeometry size true cols rows).newW ≤ size.width ∧
    (letterboxGeometry size true cols rows).newH ≤ size.height := letterboxGeometry_le hc hr
  have hleft : (letterboxGeometry size true cols rows).padLeft =
      (size.width - (letterboxGeometry size true cols rows).newW) / 2 :=
    Int.tdiv_eq_ediv_of_nonneg (Int.sub_nonneg.2 hnewW)
  have htop : (letterboxGeometry size true cols rows).padTop =
      (size.height - (letterboxGeometry size true cols rows).newH) / 2 :=
    Int.tdiv_eq_ediv_of_nonneg (Int.sub_nonneg.2 hnewH)
  have heven : SizeExact size cols rows ↔ 2 ∣ (letterboxGeometry size true cols rows).newW ∧
      2 ∣ (letterboxGeometry size true cols rows).newH := by
    simp only [SizeExact, hleft, htop]
    omega
  rw [heven, ← aligned_even_iff hc hr hw hh]
  rfl

/-- If the size is wrong then so is the region: the column or row after the picture is in it. -/
theorem regionExact_iff_sizeExact (D : YoloCuda) (img : Image)
    (hw : 1 ≤ (letterboxGeometry size true img.cols img.rows).newW)
    (hh : 1 ≤ (letterboxGeometry size true img.cols img.rows).newH) :
    D.RegionExact size img ↔ SizeExact size img.cols img.rows := by
  have hvalid := (letterboxGeometry_valid_iff_size img.cols_pos img.rows_pos).2 ⟨hw, hh⟩
  obtain ⟨g, hg⟩ : ∃ g, g = letterboxGeometry size true img.cols img.rows := ⟨_, rfl⟩
  have hleft : (D.kernelArgs size img).padLeft = g.padLeft := by rw [hg]; rfl
  have htop : (D.kernelArgs size img).padTop = g.padTop := by rw [hg]; rfl
  have hpadL : g.padLeft = (size.width - g.newW).tdiv 2 := by rw [hg]; rfl
  have hpadT : g.padTop = (size.height - g.newH).tdiv 2 := by rw [hg]; rfl
  rw [← hg] at hw hh hvalid
  rw [RegionExact, SizeExact, ← hg]
  obtain ⟨-, ⟨hw1, hw2⟩, ⟨hh1, hh2⟩, hl, ht, -, -, -, -⟩ := hvalid
  rw [Int.tdiv_eq_ediv_of_nonneg (by omega)] at hpadL hpadT
  simp only [GpuPreprocess.Args.Valid, LetterboxGeometry.Contains, hleft, htop]
  constructor
  · intro h
    -- the pixel to the right of the first row, and the pixel below the first column
    have hright := h (g.padLeft + g.newW).toNat g.padTop.toNat
    have hbelow := h g.padLeft.toNat (g.padTop + g.newH).toNat
    omega
  · rintro ⟨hw', hh'⟩ x y hx hy
    omega

end YoloCuda

end OnnxInference
