import Mathlib

/-!
# Images and the functions of OpenCV

Images are `CV_8UC3` matrices; a `float` is a rational number, since nothing here depends on rounding.  The functions
of OpenCV that the source calls are a parameter with what is documented of them: they throw on empty images, on
negative borders and outside of an image, and `convertTo` into a matrix header of another size leaves the memory behind
the header as it was.  `OpenCv.reference` has them all, for a given interpolation.
-/

namespace OnnxInference

/-- The exceptions of the runners; a message is the text after the source location. -/
inductive Error
  | cvException
  | invalidArgument (msg : String)
  | runtimeError (msg : String)
  deriving DecidableEq

structure Vec3b where
  c0 : UInt8
  c1 : UInt8
  c2 : UInt8
  deriving DecidableEq

/-- A channel of a pixel. -/
def Vec3b.channel (v : Vec3b) : Fin 3 → UInt8
  | 0 => v.c0
  | 1 => v.c1
  | 2 => v.c2

structure Mat where
  rows : Nat
  cols : Nat
  data : List Vec3b
  length_data : data.length = rows * cols
  deriving DecidableEq

structure Size where
  width : Nat
  height : Nat

namespace Mat

def ofFn (rows cols : Nat) (f : Nat → Nat → Vec3b) : Mat :=
  ⟨rows, cols, (List.range (rows * cols)).map fun k => f (k / cols) (k % cols), by simp⟩

def at_ (m : Mat) (i j : Nat) : Vec3b := m.data.getD (i * m.cols + j) ⟨0, 0, 0⟩

def isEmpty (m : Mat) : Bool := m.rows == 0 || m.cols == 0

/-- The image has this size. -/
def HasSize (m : Mat) (size : Size) : Prop := m.cols = size.width ∧ m.rows = size.height

instance (m : Mat) (size : Size) : Decidable (m.HasSize size) := inferInstanceAs (Decidable (_ ∧ _))

/-- The image has this size and these pixels. -/
structure Is (m : Mat) (rows cols : Nat) (f : Nat → Nat → Vec3b) : Prop where
  rows_eq : m.rows = rows
  cols_eq : m.cols = cols
  at_eq : ∀ i < rows, ∀ j < cols, m.at_ i j = f i j

end Mat

/-! ### Pixels -/

theorem index_lt {rows cols i j : Nat} (hi : i < rows) (hj : j < cols) : i * cols + j < rows * cols := by
  have hle : (i + 1) * cols ≤ rows * cols := Nat.mul_le_mul_right _ hi
  rw [Nat.add_mul, Nat.one_mul] at hle
  omega

theorem plane_index_lt {rows cols i j : Nat} (k : Fin 3) (hi : i < rows) (hj : j < cols) :
    k * (rows * cols) + (i * cols + j) < 3 * (rows * cols) := index_lt k.isLt (index_lt hi hj)

namespace Mat

@[simp] theorem rows_ofFn (rows cols : Nat) (f : Nat → Nat → Vec3b) : (ofFn rows cols f).rows = rows := rfl

@[simp] theorem cols_ofFn (rows cols : Nat) (f : Nat → Nat → Vec3b) : (ofFn rows cols f).cols = cols := rfl

theorem at_ofFn {rows cols i j : Nat} (f : Nat → Nat → Vec3b) (hi : i < rows) (hj : j < cols) :
    (ofFn rows cols f).at_ i j = f i j := by
  have hlt := index_lt hi hj
  have hdiv : (i * cols + j) / cols = i := by
    rw [Nat.add_comm, Nat.add_mul_div_right _ _ (Nat.zero_lt_of_lt hj), Nat.div_eq_of_lt hj, Nat.zero_add]
  have hmod : (i * cols + j) % cols = j := Nat.mul_add_mod_of_lt hj
  rw [at_, ofFn, List.getD_eq_getElem?_getD, List.getElem?_map, List.getElem?_range hlt, Option.map_some,
    Option.getD_some, hdiv, hmod]

theorem is_ofFn (rows cols : Nat) (f : Nat → Nat → Vec3b) : (ofFn rows cols f).Is rows cols f :=
  ⟨rfl, rfl, fun _ hi _ hj => at_ofFn f hi hj⟩

/-- An image is given by its size and its pixels. -/
theorem ext_at {m m' : Mat} (hr : m.rows = m'.rows) (hc : m.cols = m'.cols)
    (h : ∀ i j, i < m.rows → j < m.cols → m.at_ i j = m'.at_ i j) : m = m' := by
  obtain ⟨rows, cols, data, hlen⟩ := m
  obtain ⟨rows', cols', data', hlen'⟩ := m'
  obtain rfl : rows = rows' := hr
  obtain rfl : cols = cols' := hc
  have hdata : data = data' := by
    refine List.ext_getElem (hlen.trans hlen'.symm) fun n hn hn' => ?_
    have hlt : n < rows * cols := hlen ▸ hn
    have hcols : 0 < cols := Nat.pos_of_ne_zero fun h0 => by simp [h0] at hlt
    have hat := h (n / cols) (n % cols) (Nat.div_lt_of_lt_mul (by rwa [Nat.mul_comm])) (Nat.mod_lt _ hcols)
    simpa only [at_, Nat.div_add_mod', List.getD_eq_getElem?_getD, List.getElem?_eq_getElem hn,
      List.getElem?_eq_getElem hn', Option.getD_some] using hat
  subst hdata
  rfl

theorem isEmpty_iff {m : Mat} : m.isEmpty = true ↔ m.rows = 0 ∨ m.cols = 0 := by
  simp [isEmpty]

theorem isEmpty_eq_false_iff {m : Mat} : m.isEmpty = false ↔ 0 < m.rows ∧ 0 < m.cols := by
  rw [← Bool.not_eq_true, isEmpty_iff]
  omega

/-- The channels of all pixels in the opposite order. -/
def swap (m : Mat) : Mat :=
  { m with data := m.data.map fun v => ⟨v.c2, v.c1, v.c0⟩, length_data := by simpa using m.length_data }

theorem at_swap (m : Mat) (i j : Nat) : m.swap.at_ i j = ⟨(m.at_ i j).c2, (m.at_ i j).c1, (m.at_ i j).c0⟩ := by
  simp only [at_, swap, List.getD_eq_getElem?_getD, List.getElem?_map]
  cases m.data[i * m.cols + j]? with
  | none => rfl
  | some v => rfl

end Mat

/-! ### OpenCV -/

/-- The pixel of a resized image of the given width and height at a row and a column. -/
abbrev Interpolation := Mat → Nat → Nat → Nat → Nat → Vec3b

/-- The functions of OpenCV that are called, with what is documented of them. -/
structure OpenCv where
  /-- with `cv::COLOR_BGR2RGB` -/
  cvtColor : Mat → Except Error Mat
  /-- above, below, on the left and on the right, with a constant colour -/
  copyMakeBorder : Mat → Int → Int → Int → Int → Vec3b → Except Error Mat
  /-- of `cv::INTER_LINEAR` -/
  interpolate : Interpolation
  /-- to a width and a height -/
  resize : Mat → Int → Int → Except Error Mat
  /-- what `convertTo` with a factor stores of a channel into a matrix header of the given size -/
  convertTo : Mat → Fin 3 → Size → ℚ → List ℚ
  /-- `img(cv::Rect(x, y, ..))` -/
  roi : Mat → Int → Int → Size → Except Error Mat
  cvtColor_of_empty : ∀ m, m.isEmpty = true → cvtColor m = .error .cvException
  cvtColor_of_image : ∀ m, m.isEmpty = false → ∃ m', cvtColor m = .ok m' ∧ m'.Is m.rows m.cols fun i j =>
    ⟨(m.at_ i j).c2, (m.at_ i j).c1, (m.at_ i j).c0⟩
  copyMakeBorder_of_neg : ∀ m (top bottom left right : Int) color,
    top < 0 ∨ bottom < 0 ∨ left < 0 ∨ right < 0 → copyMakeBorder m top bottom left right color = .error .cvException
  copyMakeBorder_of_image : ∀ m (top bottom left right : Nat) color, m.isEmpty = false →
    ∃ m', copyMakeBorder m top bottom left right color = .ok m' ∧
      m'.Is (top + m.rows + bottom) (left + m.cols + right) fun i j =>
        if top ≤ i ∧ i < top + m.rows ∧ left ≤ j ∧ j < left + m.cols then m.at_ (i - top) (j - left) else color
  resize_of_empty : ∀ m (width height : Int), m.isEmpty = true ∨ width ≤ 0 ∨ height ≤ 0 →
    resize m width height = .error .cvException
  resize_of_image : ∀ m (width height : Nat), m.isEmpty = false → 0 < width → 0 < height →
    ∃ m', resize m width height = .ok m' ∧ m'.Is height width (interpolate m width height)
  convertTo_of_size : ∀ m k size alpha, m.HasSize size → (convertTo m k size alpha).length = size.height * size.width ∧
    ∀ y < size.height, ∀ x < size.width,
      (convertTo m k size alpha)[y * size.width + x]? = some (((m.at_ y x).channel k).toNat * alpha)
  convertTo_of_other : ∀ m k size alpha, ¬m.HasSize size → convertTo m k size alpha = []
  roi_of_outside : ∀ m (x y : Int) size,
    ¬(0 ≤ x ∧ x + size.width ≤ m.cols ∧ 0 ≤ y ∧ y + size.height ≤ m.rows) → roi m x y size = .error .cvException
  roi_of_inside : ∀ m (x y : Nat) size, x + size.width ≤ m.cols → y + size.height ≤ m.rows →
    ∃ m', roi m x y size = .ok m' ∧ m'.Is size.height size.width fun i j => m.at_ (y + i) (x + j)

namespace OpenCv

variable (cv : OpenCv)

theorem cvtColor_of_pos {m : Mat} (hr : 0 < m.rows) (hc : 0 < m.cols) : ∃ m', cv.cvtColor m = .ok m' := by
  obtain ⟨m', hm, -⟩ := cv.cvtColor_of_image m (Mat.isEmpty_eq_false_iff.2 ⟨hr, hc⟩)
  exact ⟨m', hm⟩

theorem copyMakeBorder_of_nonneg {m : Mat} (hr : 0 < m.rows) (hc : 0 < m.cols) (top bottom left right : Nat)
    (color : Vec3b) : ∃ m', cv.copyMakeBorder m top bottom left right color = .ok m' := by
  obtain ⟨m', hm, -⟩ :=
    cv.copyMakeBorder_of_image m top bottom left right color (Mat.isEmpty_eq_false_iff.2 ⟨hr, hc⟩)
  exact ⟨m', hm⟩

theorem resize_of_pos {m : Mat} {width height : Int} (hr : 0 < m.rows) (hc : 0 < m.cols) (hw : 0 < width)
    (hh : 0 < height) : ∃ m', cv.resize m width height = .ok m' := by
  lift width to Nat using hw.le
  lift height to Nat using hh.le
  obtain ⟨m', hm, -⟩ := cv.resize_of_image m width height (Mat.isEmpty_eq_false_iff.2 ⟨hr, hc⟩)
    (Int.natCast_pos.1 hw) (Int.natCast_pos.1 hh)
  exact ⟨m', hm⟩

variable {cv} {m m' : Mat}

theorem cvtColor_ok (h : cv.cvtColor m = .ok m') :
    0 < m.rows ∧ 0 < m.cols ∧ m'.rows = m.rows ∧ m'.cols = m.cols ∧
      ∀ i < m.rows, ∀ j < m.cols, ∀ k, (m'.at_ i j).channel k = (m.at_ i j).channel k.rev := by
  cases hempty : m.isEmpty with
  | true =>
    rw [cv.cvtColor_of_empty m hempty] at h
    cases h
  | false =>
    obtain ⟨_, hm, his⟩ := cv.cvtColor_of_image m hempty
    rw [h, Except.ok.injEq] at hm
    subst hm
    obtain ⟨hr, hc⟩ := Mat.isEmpty_eq_false_iff.1 hempty
    refine ⟨hr, hc, his.rows_eq, his.cols_eq, fun i hi j hj k => ?_⟩
    rw [his.at_eq i hi j hj]
    match k with | 0 | 1 | 2 => rfl

theorem copyMakeBorder_ok {top bottom left right : Int} {color : Vec3b} (hr : 0 < m.rows) (hc : 0 < m.cols)
    (h : cv.copyMakeBorder m top bottom left right color = .ok m') :
    (m'.rows : Int) = top + m.rows + bottom ∧ (m'.cols : Int) = left + m.cols + right ∧
      ∀ i < m'.rows, ∀ j < m'.cols, m'.at_ i j =
        if top ≤ i ∧ i < top + m.rows ∧ left ≤ j ∧ j < left + m.cols then
          m.at_ (i - top).toNat (j - left).toNat else color := by
  by_cases hneg : top < 0 ∨ bottom < 0 ∨ left < 0 ∨ right < 0
  · rw [cv.copyMakeBorder_of_neg m top bottom left right color hneg] at h
    cases h
  · simp only [not_or, not_lt] at hneg
    obtain ⟨htop, hbottom, hleft, hright⟩ := hneg
    lift top to Nat using htop
    lift bottom to Nat using hbottom
    lift left to Nat using hleft
    lift right to Nat using hright
    obtain ⟨_, hm, his⟩ :=
      cv.copyMakeBorder_of_image m top bottom left right color (Mat.isEmpty_eq_false_iff.2 ⟨hr, hc⟩)
    rw [h, Except.ok.injEq] at hm
    subst hm
    refine ⟨by rw [his.rows_eq]; push_cast; rfl, by rw [his.cols_eq]; push_cast; rfl, fun i hi j hj => ?_⟩
    rw [his.at_eq i (his.rows_eq ▸ hi) j (his.cols_eq ▸ hj), show ((i : Int) - top).toNat = i - top by omega,
      show ((j : Int) - left).toNat = j - left by omega]
    refine if_congr ?_ rfl rfl
    omega

theorem resize_ok {width height : Int} (h : cv.resize m width height = .ok m') :
    0 < m.rows ∧ 0 < m.cols ∧ 0 < width ∧ 0 < height ∧ (m'.rows : Int) = height ∧ (m'.cols : Int) = width ∧
      ∀ i < m'.rows, ∀ j < m'.cols, m'.at_ i j = cv.interpolate m width.toNat height.toNat i j := by
  by_cases hneg : m.isEmpty = true ∨ width ≤ 0 ∨ height ≤ 0
  · rw [cv.resize_of_empty m width height hneg] at h
    cases h
  · simp only [not_or, not_le, Bool.not_eq_true] at hneg
    obtain ⟨hempty, hw, hh⟩ := hneg
    obtain ⟨hr, hc⟩ := Mat.isEmpty_eq_false_iff.1 hempty
    lift width to Nat using hw.le
    lift height to Nat using hh.le
    obtain ⟨_, hm, his⟩ := cv.resize_of_image m width height hempty (Int.natCast_pos.1 hw) (Int.natCast_pos.1 hh)
    rw [h, Except.ok.injEq] at hm
    subst hm
    exact ⟨hr, hc, hw, hh, congrArg _ his.rows_eq, congrArg _ his.cols_eq, fun i hi j hj =>
      his.at_eq i (his.rows_eq ▸ hi) j (his.cols_eq ▸ hj)⟩

/-- A region is taken exactly if it lies inside of the image. -/
theorem roi_ok_iff {x y : Int} {size : Size} : (∃ m', cv.roi m x y size = .ok m') ↔
    0 ≤ x ∧ x + size.width ≤ m.cols ∧ 0 ≤ y ∧ y + size.height ≤ m.rows := by
  constructor
  · rintro ⟨m', h⟩
    by_contra hout
    rw [cv.roi_of_outside m x y size hout] at h
    cases h
  · rintro ⟨hx, hw, hy, hh⟩
    lift x to Nat using hx
    lift y to Nat using hy
    obtain ⟨m', hm, -⟩ := cv.roi_of_inside m x y size (by omega) (by omega)
    exact ⟨m', hm⟩

/-- The functions as they are documented, with an interpolation. -/
def reference (interpolate : Interpolation) : OpenCv where
  cvtColor m := if m.isEmpty then .error .cvException else .ok m.swap
  copyMakeBorder m top bottom left right color :=
    if top < 0 ∨ bottom < 0 ∨ left < 0 ∨ right < 0 then .error .cvException
    else .ok (.ofFn (top.toNat + m.rows + bottom.toNat) (left.toNat + m.cols + right.toNat) fun i j =>
      if top.toNat ≤ i ∧ i < top.toNat + m.rows ∧ left.toNat ≤ j ∧ j < left.toNat + m.cols then
        m.at_ (i - top.toNat) (j - left.toNat)
      else color)
  interpolate := interpolate
  resize m width height :=
    if m.isEmpty = true ∨ width ≤ 0 ∨ height ≤ 0 then .error .cvException
    else .ok (.ofFn height.toNat width.toNat (interpolate m width.toNat height.toNat))
  convertTo m k size alpha := if m.HasSize size then m.data.map fun v => (v.channel k).toNat * alpha else []
  roi m x y size :=
    if 0 ≤ x ∧ x + size.width ≤ m.cols ∧ 0 ≤ y ∧ y + size.height ≤ m.rows then
      .ok (.ofFn size.height size.width fun i j => m.at_ (y.toNat + i) (x.toNat + j))
    else .error .cvException
  cvtColor_of_empty _ h := if_pos h
  cvtColor_of_image m h := ⟨m.swap, by rw [h, if_neg Bool.false_ne_true], rfl, rfl, fun i _ j _ => m.at_swap i j⟩
  copyMakeBorder_of_neg _ _ _ _ _ _ h := if_pos h
  copyMakeBorder_of_image m top bottom left right color _ := ⟨_, if_neg (by omega), Mat.is_ofFn _ _ _⟩
  resize_of_empty _ _ _ h := if_pos h
  resize_of_image m width height h hw hh := ⟨_, if_neg (by simp [h]; omega), Mat.is_ofFn _ _ _⟩
  convertTo_of_size m k size alpha h := by
    have hlen : m.data.length = size.height * size.width := by rw [m.length_data, h.1, h.2]
    rw [if_pos h]
    refine ⟨by rw [List.length_map, hlen], fun y hy x hx => ?_⟩
    have hlt : y * size.width + x < m.data.length := hlen ▸ index_lt hy hx
    rw [List.getElem?_map, Mat.at_, h.1, List.getD_eq_getElem?_getD, List.getElem?_eq_getElem hlt]
    rfl
  convertTo_of_other _ _ _ _ h := if_neg h
  roi_of_outside _ _ _ _ h := if_neg h
  roi_of_inside m x y size hw hh := ⟨_, if_pos (by omega), Mat.is_ofFn _ _ _⟩

/-- The next pixel; for an image that keeps its size this is the linear interpolation. -/
def nearest : Interpolation := fun m width height y x => m.at_ (y * m.rows / height) (x * m.cols / width)

end OpenCv

end OnnxInference
