import OnnxInference.Letterbox

/-!
# The geometry of the letterbox

The numbers that `letterbox_resize` computes before it touches the image: the scale, the size of the scaled image and
the four paddings.  They describe a picture inside a frame unless the image is so elongated that its short side is
lost (`letterboxGeometry_valid_iff`): with `auto_aspect_ratio` a side of less than 32 pixels is aligned to none.
-/

namespace OnnxInference

structure LetterboxGeometry where
  scale : ℚ
  newW : Int
  newH : Int
  padLeft : Int
  padTop : Int
  padRight : Int
  padBottom : Int

/-- The arithmetic of `letterbox_resize`. -/
def letterboxGeometry (targetSize : Size) (autoAspectRatio : Bool) (cols rows : Nat) : LetterboxGeometry :=
  let xFactor : ℚ := targetSize.width / cols
  let yFactor : ℚ := targetSize.height / rows
  let scale := min xFactor yFactor
  let scale :=
    if autoAspectRatio then
      let newW := cRound (cols * scale)
      let newH := cRound (rows * scale)
      let newW := newW - newW.tmod 32
      let newH := newH - newH.tmod 32
      min ((newW : ℚ) / cols) (newH / rows)
    else scale
  let newW := cRound (cols * scale)
  let newH := cRound (rows * scale)
  let padLeft := (targetSize.width - newW).tdiv 2
  let padTop := (targetSize.height - newH).tdiv 2
  let padRight := targetSize.width - newW - padLeft
  let padBottom := targetSize.height - newH - padTop
  ⟨scale, newW, newH, padLeft, padTop, padRight, padBottom⟩

/-- The parameters that `letterbox_resize` returns. -/
def LetterboxGeometry.params (g : LetterboxGeometry) (cols rows : Nat) : LetterboxParams :=
  ⟨g.scale, g.padLeft, g.padTop, cols, rows⟩

/-- `letterbox_resize` draws an image of this geometry. -/
theorem letterboxResize_eq (cv : OpenCv) (img : Mat) (size : Size) (auto : Bool) (padColor : Vec3b) :
    letterboxResize cv img size auto padColor =
      let g := letterboxGeometry size auto img.cols img.rows
      do
        let resized ← cv.resize img g.newW g.newH
        let resized ←
          if g.padLeft > 0 ∨ g.padTop > 0 ∨ g.padRight > 0 ∨ g.padBottom > 0 then
            cv.copyMakeBorder resized g.padTop g.padBottom g.padLeft g.padRight padColor
          else .ok resized
        return (g.params img.cols img.rows, resized) := rfl

namespace LetterboxGeometry

/-- The geometry is that of a non-empty picture in a frame of this size. -/
structure Valid (g : LetterboxGeometry) (size : Size) : Prop where
  scale_pos : 0 < g.scale
  width : 1 ≤ g.newW ∧ g.newW ≤ size.width
  height : 1 ≤ g.newH ∧ g.newH ≤ size.height
  padLeft : 0 ≤ g.padLeft
  padTop : 0 ≤ g.padTop
  padRight : 0 ≤ g.padRight
  padBottom : 0 ≤ g.padBottom
  columns : g.padLeft + g.newW + g.padRight = size.width
  rows : g.padTop + g.newH + g.padBottom = size.height

end LetterboxGeometry

variable {size : Size} {auto : Bool} {cols rows : Nat}

theorem letterboxGeometry_newW : (letterboxGeometry size auto cols rows).newW =
    cRound (cols * (letterboxGeometry size auto cols rows).scale) := rfl

theorem letterboxGeometry_newH : (letterboxGeometry size auto cols rows).newH =
    cRound (rows * (letterboxGeometry size auto cols rows).scale) := rfl

theorem letterboxGeometry_scale : (letterboxGeometry size auto cols rows).scale =
    if auto then alignedScale size cols rows else fitScale size cols rows := by
  cases auto <;> rfl

/-- The sides of the image fit the frame with at least this many pixels each. -/
def SidesReach (least : Nat) (size : Size) (cols rows : Nat) : Prop :=
  (2 * least - 1) * rows ≤ 2 * cols * size.height ∧ (2 * least - 1) * cols ≤ 2 * rows * size.width

instance (least : Nat) : Decidable (SidesReach least size cols rows) := inferInstanceAs (Decidable (_ ∧ _))

/-- The pixels that a side must have: below the stride the alignment leaves none. -/
def leastSide (autoAspectRatio : Bool) : Nat := if autoAspectRatio then 32 else 1

/-- A side scaled by the smaller of two factors is rounded to at least `n` pixels. -/
private theorem le_cRound_min_iff {side x y : ℚ} (hside : 0 < side) {n : Int} (hn : 0 < n) :
    n ≤ cRound (side * min x y) ↔ 2 * (n : ℚ) - 1 ≤ 2 * (side * x) ∧ 2 * (n : ℚ) - 1 ≤ 2 * (side * y) := by
  rw [le_cRound_iff hn, mul_min_of_nonneg _ _ hside.le, le_min_iff]
  constructor
  · rintro ⟨hx, hy⟩
    constructor <;> linarith
  · rintro ⟨hx, hy⟩
    constructor <;> linarith

section Positive

variable (hc : 0 < cols) (hr : 0 < rows)
include hc hr

/-- The scaled image fits the frame. -/
theorem letterboxGeometry_le : (letterboxGeometry size auto cols rows).newW ≤ size.width ∧
    (letterboxGeometry size auto cols rows).newH ≤ size.height :=
  @scaledSize_le (.ofFn rows cols fun _ _ => ⟨0, 0, 0⟩) size auto hr hc

/-- All is as it should be as soon as the scaled image is not empty. -/
theorem letterboxGeometry_valid_iff_size : (letterboxGeometry size auto cols rows).Valid size ↔
    0 < (letterboxGeometry size auto cols rows).newW ∧ 0 < (letterboxGeometry size auto cols rows).newH := by
  obtain ⟨hw, hh⟩ := letterboxGeometry_le hc hr
  constructor
  · intro h
    exact ⟨h.width.1, h.height.1⟩
  · rintro ⟨hw', hh'⟩
    have hscale : 0 < (letterboxGeometry size auto cols rows).scale := by
      have hc' : (0 : ℚ) < cols := by exact_mod_cast hc
      have hhalf := cRound_pos_iff.1 (letterboxGeometry_newW ▸ hw')
      exact pos_of_mul_pos_right (by linarith) hc'.le
    have hleft : (letterboxGeometry size auto cols rows).padLeft =
        (size.width - (letterboxGeometry size auto cols rows).newW) / 2 :=
      Int.tdiv_eq_ediv_of_nonneg (Int.sub_nonneg.2 hw)
    have htop : (letterboxGeometry size auto cols rows).padTop =
        (size.height - (letterboxGeometry size auto cols rows).newH) / 2 :=
      Int.tdiv_eq_ediv_of_nonneg (Int.sub_nonneg.2 hh)
    have hright : (letterboxGeometry size auto cols rows).padRight =
        size.width - (letterboxGeometry size auto cols rows).newW -
          (letterboxGeometry size auto cols rows).padLeft := rfl
    have hbottom : (letterboxGeometry size auto cols rows).padBottom =
        size.height - (letterboxGeometry size auto cols rows).newH -
          (letterboxGeometry size auto cols rows).padTop := rfl
    constructor <;> first | assumption | omega

theorem le_fitWidth_iff {n : Nat} (hn : 0 < n) :
    (n : Int) ≤ fitWidth size cols rows ↔ n ≤ size.width ∧ (2 * n - 1) * rows ≤ 2 * cols * size.height := by
  have hc' : (0 : ℚ) < cols := by exact_mod_cast hc
  have hr' : (0 : ℚ) < rows := by exact_mod_cast hr
  obtain ⟨m, rfl⟩ : ∃ m, n = m + 1 := ⟨n - 1, by omega⟩
  have hm : 2 * (m + 1) - 1 = 2 * m + 1 := by omega
  have hwidth : (2 : ℚ) * ((m + 1 : Nat) : Int) - 1 ≤ 2 * (cols * (size.width / cols)) ↔ m + 1 ≤ size.width := by
    rw [mul_div_cancel₀ _ hc'.ne']
    constructor
    · intro h
      have : ((2 * m + 1 : Nat) : ℚ) ≤ (2 * size.width : Nat) := by
        push_cast at h ⊢
        linarith
      have := Nat.cast_le.1 this
      omega
    · intro h
      have : ((2 * m + 1 : Nat) : ℚ) ≤ (2 * size.width : Nat) := Nat.cast_le.2 (by omega)
      push_cast at this ⊢
      linarith
  have hheight : (2 : ℚ) * ((m + 1 : Nat) : Int) - 1 ≤ 2 * (cols * (size.height / rows)) ↔
      (2 * m + 1) * rows ≤ 2 * cols * size.height := by
    rw [mul_div_assoc', mul_div_assoc', le_div_iff₀ hr', ← Nat.cast_le (α := ℚ)]
    push_cast
    constructor <;> intro h <;> linarith
  rw [hm, fitWidth, fitScale, le_cRound_min_iff hc' (by omega), hwidth, hheight]

theorem le_fitHeight_iff {n : Nat} (hn : 0 < n) :
    (n : Int) ≤ fitHeight size cols rows ↔ n ≤ size.height ∧ (2 * n - 1) * cols ≤ 2 * rows * size.width := by
  have h : (n : Int) ≤ fitWidth ⟨size.height, size.width⟩ rows cols ↔
      n ≤ size.height ∧ (2 * n - 1) * cols ≤ 2 * rows * size.width := le_fitWidth_iff hr hc hn
  rw [fitWidth, fitScale, min_comm] at h
  exact h

end Positive

/-- The geometry is valid if and only if the short side of the image is not lost: its size in the frame has to reach
half a pixel, or 31.5 pixels if it is aligned to the stride. -/
theorem letterboxGeometry_valid_iff (size : Size) (auto : Bool) (cols rows : Nat) (hc : 1 ≤ cols) (hr : 1 ≤ rows)
    (hw : 0 < size.width ∧ 32 ∣ size.width) (hh : 0 < size.height ∧ 32 ∣ size.height) :
    (letterboxGeometry size auto cols rows).Valid size ↔ SidesReach (leastSide auto) size cols rows := by
  have hleast : 0 < leastSide auto ∧ leastSide auto ≤ 32 := by cases auto <;> decide
  have hw32 : 32 ≤ size.width := Nat.le_of_dvd hw.1 hw.2
  have hh32 : 32 ≤ size.height := Nat.le_of_dvd hh.1 hh.2
  have hsides : SidesReach (leastSide auto) size cols rows ↔
      (leastSide auto : Int) ≤ fitWidth size cols rows ∧ (leastSide auto : Int) ≤ fitHeight size cols rows := by
    rw [le_fitWidth_iff hc hr hleast.1, le_fitHeight_iff hc hr hleast.1]
    exact ⟨fun h => ⟨⟨by omega, h.1⟩, by omega, h.2⟩, fun h => ⟨h.1.2, h.2.2⟩⟩
  rw [letterboxGeometry_valid_iff_size hc hr, letterboxGeometry_newW, letterboxGeometry_newH, letterboxGeometry_scale,
    hsides]
  cases auto with
  | false => exact Iff.rfl
  | true => exact aligned_size_pos_iff hc hr

/-- A photo of 640 by 480 pixels. -/
theorem letterboxGeometry_valid_iff_photo : (letterboxGeometry ⟨640, 640⟩ true 640 480).Valid ⟨640, 640⟩ ↔
    SidesReach (leastSide true) ⟨640, 640⟩ 640 480 :=
  letterboxGeometry_valid_iff ⟨640, 640⟩ true 640 480 (by decide) (by decide) (by decide) (by decide)

/-- Of a panorama of 4000 by 150 pixels 24 rows would be left, and the alignment takes them. -/
theorem letterboxGeometry_panorama_not_valid : ¬(letterboxGeometry ⟨640, 640⟩ true 4000 150).Valid ⟨640, 640⟩ := by
  intro h
  have hscale : (letterboxGeometry ⟨640, 640⟩ true 4000 150).scale = 0 := by decide +kernel
  exact absurd h.scale_pos (by rw [hscale]; exact lt_irrefl 0)

/-- `letterbox_resize` returns exactly for the valid geometries; for the others `cv::resize` throws. -/
theorem letterboxResize_ok_iff (cv : OpenCv) (padColor : Vec3b) {img : Mat} (hc : 0 < img.cols)
    (hr : 0 < img.rows) : (∃ x, letterboxResize cv img size auto padColor = .ok x) ↔
      (letterboxGeometry size auto img.cols img.rows).Valid size := by
  rw [letterboxGeometry_valid_iff_size hc hr]
  constructor
  · rintro ⟨x, hx⟩
    have hbox := (letterboxResize_spec hx).2
    rw [(letterboxResize_spec hx).1] at hbox
    rw [letterboxGeometry_newW, letterboxGeometry_newH, letterboxGeometry_scale, ← letterboxScale_eq]
    exact ⟨hbox.width_pos, hbox.height_pos⟩
  · rintro ⟨hw, hh⟩
    rw [letterboxGeometry_newW, letterboxGeometry_newH, letterboxGeometry_scale, ← letterboxScale_eq] at *
    exact letterboxResize_of_pos cv padColor hr hc hw hh

end OnnxInference
