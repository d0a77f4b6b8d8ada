import OnnxInference.Letterbox
import OnnxInference.Runner.ResNet

/-!
# The sizes of the classifier (`src/runner/classify/ResNet.cc`)

`resize_256` rounds the factor of the two sizes, and not the sizes.  So the shorter side of the resized image has 256
pixels if and only if it divides 256 (`crop_possible_iff`).  With a shorter side of more than 512 pixels the factor is
zero and `cv::resize` throws, and where the factor is rounded down the crop may not fit.
-/

namespace OnnxInference.ResNet

/-- The height that `resize_256` asks for. -/
def newH (img : Mat) : Int := scale256 img * img.rows

/-- The width that `resize_256` asks for. -/
def newW (img : Mat) : Int := scale256 img * img.cols

/-- The resized image is as it should be, and the crop lies inside it. -/
structure CropPossible (img : Mat) : Prop where
  newH_pos : 1 ≤ newH img
  newW_pos : 1 ≤ newW img
  short : min (newH img) (newW img) = 256
  ratio : |((max (newH img) (newW img) : Int) : ℚ) -
    256 * (max img.rows img.cols : Nat) / (min img.rows img.cols : Nat)| ≤ 1
  inside : 0 ≤ (newW img - 224).tdiv 2 ∧ (newW img - 224).tdiv 2 + 224 ≤ newW img ∧
    0 ≤ (newH img - 224).tdiv 2 ∧ (newH img - 224).tdiv 2 + 224 ≤ newH img
  accepted : ∀ R : ResNet, ∃ blob, R.prepare img = .ok blob

variable {img : Mat}

theorem scale256_nonneg (img : Mat) : 0 ≤ scale256 img := cRound_nonneg (by positivity)

theorem min_new (img : Mat) : min (newH img) (newW img) = scale256 img * (min img.rows img.cols : Nat) := by
  rw [newH, newW, ← mul_min_of_nonneg _ _ (scale256_nonneg img), Nat.cast_min]

theorem max_new (img : Mat) : max (newH img) (newW img) = scale256 img * (max img.rows img.cols : Nat) := by
  rw [newH, newW, ← mul_max_of_nonneg _ _ (scale256_nonneg img), Nat.cast_max]

/-- The factor is not rounded when the shorter side divides 256. -/
theorem scale256_of_eq {k : Nat} (hpos : 0 < min img.rows img.cols) (hk : 256 = min img.rows img.cols * k) :
    scale256 img = k := by
  have hpos' : ((min img.rows img.cols : Nat) : ℚ) ≠ 0 := by exact_mod_cast hpos.ne'
  have hk' : (256 : ℚ) = (min img.rows img.cols : Nat) * k := by exact_mod_cast hk
  have hquot : (256 : ℚ) / (min img.rows img.cols : Nat) = ((k : Int) : ℚ) := by
    rw [hk', mul_div_cancel_left₀ _ hpos', Int.cast_natCast]
  rw [scale256, hquot, cRound_intCast]

/-- The resized image has a shorter side of 256 pixels, and can be cropped, exactly when the shorter side of the image
divides 256. -/
theorem crop_possible_iff (img : Mat) (hr : 1 ≤ img.rows) (hc : 1 ≤ img.cols) :
    CropPossible img ↔ min img.rows img.cols ∣ 256 := by
  have hpos : 0 < min img.rows img.cols := lt_min hr hc
  constructor
  · intro h
    have hshort := h.short
    rw [min_new] at hshort
    have hdvd : ((min img.rows img.cols : Nat) : Int) ∣ 256 := ⟨scale256 img, by rw [mul_comm]; exact hshort.symm⟩
    exact_mod_cast hdvd
  · rintro ⟨k, hk⟩
    have hscale := scale256_of_eq hpos hk
    have hshort : min (newH img) (newW img) = 256 := by
      rw [min_new, hscale, mul_comm]
      exact_mod_cast hk.symm
    have hnewH : 256 ≤ newH img := hshort ▸ min_le_left _ _
    have hnewW : 256 ≤ newW img := hshort ▸ min_le_right _ _
    refine ⟨by omega, by omega, hshort, ?_, ?_, fun R => ?_⟩
    · have hpos' : ((min img.rows img.cols : Nat) : ℚ) ≠ 0 := by exact_mod_cast hpos.ne'
      have hk' : (256 : ℚ) = (min img.rows img.cols : Nat) * k := by exact_mod_cast hk
      have hlong : (256 : ℚ) * (max img.rows img.cols : Nat) / (min img.rows img.cols : Nat) =
          k * (max img.rows img.cols : Nat) := by
        rw [hk', mul_assoc, mul_div_cancel_left₀ _ hpos']
      rw [max_new, hscale, hlong, Int.cast_mul, Int.cast_natCast, Int.cast_natCast, sub_self, abs_zero]
      exact zero_le_one
    · rw [Int.tdiv_eq_ediv_of_nonneg (by omega), Int.tdiv_eq_ediv_of_nonneg (by omega)]
      omega
    · rw [prepare_ok_iff]
      exact ⟨hr, hc, le_trans (by decide) hnewH, le_trans (by decide) hnewW⟩

/-- An image of 96 x 64 pixels is scaled by four. -/
def smallImage : Mat := .ofFn 64 96 fun _ _ => ⟨114, 114, 114⟩

theorem crop_possible_iff_small : CropPossible smallImage ∧ min smallImage.rows smallImage.cols = 64 :=
  ⟨(crop_possible_iff smallImage (by decide) (by decide)).2 (by decide), by decide⟩

/-- The factor of an image of 640 x 480 pixels is rounded to one. -/
theorem photo_not_crop_possible : ¬∀ img : Mat, 1 ≤ img.rows → 1 ≤ img.cols → CropPossible img := by
  intro h
  have hphoto := h (.ofFn 480 640 fun _ _ => ⟨0, 0, 0⟩) (by decide) (by decide)
  exact absurd ((crop_possible_iff _ (by decide) (by decide)).1 hphoto) (by decide)

end OnnxInference.ResNet
