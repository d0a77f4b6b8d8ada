import OnnxInference.LetterboxGeometry
import OnnxInference.Runner.YoloAgreement

/-!
# Coordinates there and back

The letterbox scales each side of the image to a whole number of pixels and puts a padding before it; `postprocess`
subtracts the padding and divides by the common scale, which is not rounded.  Each coordinate comes back up to half a
pixel of the network input (`letterbox_restores`).
-/

namespace OnnxInference

/-! ### `std::clamp` -/

namespace YoloDetector

variable {lo hi u v x : ℚ}

theorem clamp_eq (h : lo ≤ hi) : clamp v lo hi = max lo (min v hi) := by
  unfold clamp
  split
  · rename_i hv
    rw [min_eq_left (hv.le.trans h), max_eq_left hv.le]
  · rename_i hv
    split
    · rename_i hv'
      rw [min_eq_right hv'.le, max_eq_right h]
    · rename_i hv'
      rw [min_eq_left (not_lt.1 hv'), max_eq_right (not_lt.1 hv)]

theorem le_clamp (h : lo ≤ hi) : lo ≤ clamp v lo hi := by
  rw [clamp_eq h]
  exact le_max_left _ _

theorem clamp_le (h : lo ≤ hi) : clamp v lo hi ≤ hi := by
  rw [clamp_eq h]
  exact max_le h (min_le_right _ _)

theorem clamp_mono (h : lo ≤ hi) (huv : u ≤ v) : clamp u lo hi ≤ clamp v lo hi := by
  rw [clamp_eq h, clamp_eq h]
  exact max_le_max le_rfl (min_le_min huv le_rfl)

/-- A number between the bounds is no further from the clamped number than from the number. -/
theorem abs_clamp_sub_le (hlo : lo ≤ x) (hhi : x ≤ hi) : |clamp v lo hi - x| ≤ |v - x| := by
  calc |clamp v lo hi - x| = |max (min v hi) lo - max (min x hi) lo| := by
        rw [clamp_eq (hlo.trans hhi), min_eq_left hhi, max_eq_left hlo, max_comm]
    _ ≤ |min v hi - min x hi| := abs_max_sub_max_le_abs _ _ _
    _ ≤ max |v - x| |hi - hi| := abs_min_sub_min_le_max _ _ _ _
    _ = |v - x| := by rw [sub_self, abs_zero, max_eq_left (abs_nonneg _)]

end YoloDetector

/-! ### One axis -/

/-- Where the letterbox puts a coordinate of the image. -/
def project (orig : Nat) (newSize pad : Int) (x : ℚ) : ℚ := x * newSize / orig + pad

/-- Where `postprocess` takes a coordinate of the network input to. -/
def restore (scale : ℚ) (pad orig : Int) (u : ℚ) : ℚ := YoloDetector.clamp ((u - pad) / scale) 0 orig

/-- The restored coordinates of an axis: they lie in the image, off by half a pixel of the network input at most, not at
all if the side is not rounded, and in the same order. -/
structure Restores (scale : ℚ) (orig : Nat) (newSize pad : Int) : Prop where
  mem : ∀ u : ℚ, 0 ≤ restore scale pad orig u ∧ restore scale pad orig u ≤ orig
  near : ∀ x : ℚ, 0 ≤ x → x ≤ orig → |restore scale pad orig (project orig newSize pad x) - x| ≤ 1 / (2 * scale)
  exact : ∀ n : Int, orig * scale = n → ∀ x : ℚ, 0 ≤ x → x ≤ orig →
    restore scale pad orig (project orig newSize pad x) = x
  mono : ∀ u v : ℚ, u ≤ v → restore scale pad orig u ≤ restore scale pad orig v

variable {scale : ℚ} {orig : Nat} {pad : Int}

theorem abs_cRound_sub_le {x : ℚ} (hx : 0 ≤ x) : |(cRound x : ℚ) - x| ≤ 1 / 2 := by
  rw [abs_le]
  have h1 := sub_lt_cRound hx
  have h2 := cRound_le_add hx
  constructor <;> linarith

theorem restore_nonneg (u : ℚ) : 0 ≤ restore scale pad orig u :=
  YoloDetector.le_clamp (by exact_mod_cast Nat.zero_le orig)

theorem restore_le (u : ℚ) : restore scale pad orig u ≤ orig :=
  YoloDetector.clamp_le (by exact_mod_cast Nat.zero_le orig)

theorem restore_mono (hscale : 0 < scale) {u v : ℚ} (h : u ≤ v) :
    restore scale pad orig u ≤ restore scale pad orig v :=
  YoloDetector.clamp_mono (by exact_mod_cast Nat.zero_le orig) (div_le_div_of_nonneg_right (by linarith) hscale.le)

/-- The padding cancels, and a coordinate changes by the ratio of the rounded side to the side. -/
theorem project_sub_div (newSize : Int) (x : ℚ) :
    (project orig newSize pad x - pad) / scale = x * newSize / (orig * scale) := by
  rw [project, add_sub_cancel_right, div_div]

/-- Between there and back a coordinate is off by the rounding of its side. -/
theorem abs_restore_project_sub_le (hscale : 0 < scale) (ho : 0 < orig) (newSize : Int) {x : ℚ} (h0 : 0 ≤ x)
    (hx : x ≤ orig) :
    |restore scale pad orig (project orig newSize pad x) - x| ≤ |newSize - orig * scale| / scale := by
  have ho' : (0 : ℚ) < orig := by exact_mod_cast ho
  have hside : 0 < orig * scale := mul_pos ho' hscale
  have hdiff : x * newSize / (orig * scale) - x = x / orig * ((newSize - orig * scale) / scale) := by
    field_simp
  calc |restore scale pad orig (project orig newSize pad x) - x|
      ≤ |(project orig newSize pad x - pad) / scale - x| :=
        YoloDetector.abs_clamp_sub_le h0 (by exact_mod_cast hx)
    _ = x / orig * (|newSize - orig * scale| / scale) := by
        rw [project_sub_div, hdiff, abs_mul, abs_div, abs_div, abs_of_nonneg h0, abs_of_pos ho', abs_of_pos hscale]
    _ ≤ 1 * (|newSize - orig * scale| / scale) :=
        mul_le_mul_of_nonneg_right ((div_le_one ho').2 hx) (div_nonneg (abs_nonneg _) hscale.le)
    _ = |newSize - orig * scale| / scale := one_mul _

/-- An axis comes back if its side is the rounded scaled one. -/
theorem restores_cRound (hscale : 0 < scale) (ho : 0 < orig) (pad : Int) :
    Restores scale orig (cRound (orig * scale)) pad where
  mem u := ⟨restore_nonneg u, restore_le u⟩
  near x h0 hx := by
    have hside : 0 ≤ orig * scale := mul_nonneg (Nat.cast_nonneg _) hscale.le
    refine (abs_restore_project_sub_le hscale ho _ h0 hx).trans ?_
    rw [← div_div]
    exact div_le_div_of_nonneg_right (abs_cRound_sub_le hside) hscale.le
  exact n hn x h0 hx := by
    have hoff : |restore scale pad orig (project orig (cRound (orig * scale)) pad x) - x| ≤
        |(cRound (orig * scale) : ℚ) - orig * scale| / scale := abs_restore_project_sub_le hscale ho _ h0 hx
    rw [hn, cRound_intCast, sub_self, abs_zero, zero_div] at hoff
    rw [hn, cRound_intCast]
    exact sub_eq_zero.1 (abs_eq_zero.1 (le_antisymm hoff (abs_nonneg _)))
  mono _ _ := restore_mono hscale

/-! ### Boxes -/

namespace Corners

theorem of_eq (lp : LetterboxParams) (cx cy w h : ℚ) : of lp cx cy w h =
    ⟨restore lp.scale lp.padLeft lp.origW (cx - 1 / 2 * w), restore lp.scale lp.padTop lp.origH (cy - 1 / 2 * h),
      restore lp.scale lp.padLeft lp.origW (cx + 1 / 2 * w), restore lp.scale lp.padTop lp.origH
    (cy + 1 / 2 * h)⟩ := rfl

end Corners

/-- The CUDA build restores the corners of a record as the CPU build does those of a prediction (`decode_corners`). -/
theorem YoloCuda.decodeRecord_corners (lp : LetterboxParams) (det : Fin 6 → ℚ) :
    decodeRecord lp det = ((Corners.of lp (det 0) (det 1) (det 2) (det 3)).truncated, det 4, cTrunc (det 5)) := rfl

variable {size : Size} {auto : Bool} {cols rows : Nat}

/-- Without columns or rows there is no scale. -/
theorem pos_of_letterboxGeometry_scale_pos (h : 0 < (letterboxGeometry size auto cols rows).scale) :
    0 < cols ∧ 0 < rows := by
  rw [letterboxGeometry_scale] at h
  constructor
  · rcases Nat.eq_zero_or_pos cols with rfl | hc
    · split at h <;> exact absurd ((lt_min_iff.1 h).1) (by simp)
    · exact hc
  · rcases Nat.eq_zero_or_pos rows with rfl | hr
    · split at h <;> exact absurd ((lt_min_iff.1 h).2) (by simp)
    · exact hr

/-- Both axes come back, and the corners of a box with a size are in order. -/
theorem letterbox_restores (size : Size) (auto : Bool) (cols rows : Nat)
    (hscale : 0 < (letterboxGeometry size auto cols rows).scale) :
    let g := letterboxGeometry size auto cols rows
    Restores g.scale cols g.newW g.padLeft ∧ Restores g.scale rows g.newH g.padTop ∧
      ∀ cx cy w h : ℚ, 0 ≤ w → 0 ≤ h →
        (Corners.of (g.params cols rows) cx cy w h).x1 ≤ (Corners.of (g.params cols rows) cx cy w h).x2 ∧
          (Corners.of (g.params cols rows) cx cy w h).y1 ≤ (Corners.of (g.params cols rows) cx cy w h).y2 := by
  obtain ⟨hc, hr⟩ := pos_of_letterboxGeometry_scale_pos hscale
  refine ⟨restores_cRound hscale hc _, restores_cRound hscale hr _, fun cx cy w h hw hh => ?_⟩
  rw [Corners.of_eq]
  exact ⟨restore_mono hscale (by linarith), restore_mono hscale (by linarith)⟩

theorem letterbox_restores_photo :
    let g := letterboxGeometry ⟨640, 640⟩ true 601 400
    Restores g.scale 601 g.newW g.padLeft ∧ Restores g.scale 400 g.newH g.padTop ∧
      ∀ cx cy w h : ℚ, 0 ≤ w → 0 ≤ h →
        (Corners.of (g.params 601 400) cx cy w h).x1 ≤ (Corners.of (g.params 601 400) cx cy w h).x2 ∧
          (Corners.of (g.params 601 400) cx cy w h).y1 ≤ (Corners.of (g.params 601 400) cx cy w h).y2 :=
  letterbox_restores ⟨640, 640⟩ true 601 400 (by decide +kernel)

end OnnxInference
