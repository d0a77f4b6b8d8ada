import OnnxInference.Preprocess

/-!
# The shape of the input (`src/backend/OrtSessionWrapper.cpp`)

A model declares the shape of its input, with -1 for a dimension that is dynamic.  The test before the configured
height and width are written into the shape is whether the height is not zero.  This is so for dynamic and for fixed
dimensions alike, so fixed ones are lost unless they are those configured (`respects_iff`).
-/

namespace OnnxInference.InputShape

def isChannels (d : Int) : Bool := d == 1 || d == 3 || d == 4

/-- The two entries of `img_shape`. -/
structure ImgShape where
  height : Int
  width : Int

def parseInputMeta (shape : List Int) (imgShape : ImgShape) : Except Error (List Int) :=
  match shape with
  | [d0, d1, d2, d3] => do
    let (n, c, h, w) ←
      if isChannels d1 then .ok (d0, d1, d2, d3)
      else if isChannels d3 then .ok (d0, d3, d1, d2)
      else .error (.runtimeError ("Cannot determine layout: no dimension equals 1/3/4. Shape: [" ++ toString d0 ++
        ", " ++ toString d1 ++ ", " ++ toString d2 ++ ", " ++ toString d3 ++ "]"))
    if h ≠ 0 then return [n, c, imgShape.height, imgShape.width] else return [n, c, h, w]
  | _ => .error (.runtimeError ("Expected 4D input, got " ++ toString shape.length ++ "D"))

/-- `input_shapes_` after the constructor has set the batch. -/
def inputShapes (shape : List Int) (imgShape : ImgShape) (batch : Nat) : Except Error (List Int) :=
  (parseInputMeta shape imgShape).map fun inferShape => inferShape.set 0 batch

/-- The `num_elements` of `TensorBuffer::create`, in `size_t`. -/
def numElements (shape : List Int) : Int := shape.foldl (fun count d => count * d % 2 ^ 64) 1

/-! ### What the shape is for -/

/-- A shape that a model may declare. -/
structure Declared (d0 d1 d2 d3 : Int) : Prop where
  dims : ∀ d ∈ [d0, d1, d2, d3], 0 < d ∨ d = -1
  layout : isChannels d1 ≠ isChannels d3

def channels (d1 d3 : Int) : Int := if isChannels d1 then d1 else d3

/-- The height and the width that are declared. -/
def spatial (d1 d2 d3 : Int) : Int × Int := if isChannels d1 then (d2, d3) else (d1, d2)

def replaceDynamic (d configured : Int) : Int := if d = -1 then configured else d

/-- The declared shape as NCHW, with the dynamic spatial dimensions replaced. -/
def resolved (d0 d1 d2 d3 : Int) (imgShape : ImgShape) : List Int :=
  [d0, channels d1 d3, replaceDynamic (spatial d1 d2 d3).1 imgShape.height,
    replaceDynamic (spatial d1 d2 d3).2 imgShape.width]

/-- The shape of the input respects the model, and an input tensor has as many elements as the shape says. -/
structure Respects (d0 d1 d2 d3 : Int) (imgShape : ImgShape) (batch : Nat) : Prop where
  parse : parseInputMeta [d0, d1, d2, d3] imgShape = .ok (resolved d0 d1 d2 d3 imgShape)
  positive : ∀ shape, parseInputMeta [d0, d1, d2, d3] imgShape = .ok shape → ∀ d ∈ shape.tail, 0 < d
  count : ∀ shape, inputShapes [d0, d1, d2, d3] imgShape batch = .ok shape → numElements shape = shape.prod

/-- The fixed spatial dimensions are those configured. -/
def FixedAsConfigured (d1 d2 d3 : Int) (imgShape : ImgShape) : Prop :=
  ((spatial d1 d2 d3).1 = -1 ∨ (spatial d1 d2 d3).1 = imgShape.height) ∧
    ((spatial d1 d2 d3).2 = -1 ∨ (spatial d1 d2 d3).2 = imgShape.width)

/-! ### The element count -/

/-- The count is the product in the arithmetic of `size_t`. -/
theorem foldl_count (shape : List Int) (count : Int) :
    shape.foldl (fun count d => count * d % 2 ^ 64) count % 2 ^ 64 = count * shape.prod % 2 ^ 64 := by
  induction shape generalizing count with
  | nil => rw [List.foldl_nil, List.prod_nil, mul_one]
  | cons d shape ih =>
    rw [List.foldl_cons, ih, List.prod_cons, ← mul_assoc, Int.mul_emod, Int.emod_emod_of_dvd _ dvd_rfl,
      ← Int.mul_emod]

theorem numElements_eq {shape : List Int} (hne : shape ≠ []) : numElements shape = shape.prod % 2 ^ 64 := by
  have hmod : numElements shape % 2 ^ 64 = shape.prod % 2 ^ 64 := by rw [numElements, foldl_count, one_mul]
  rw [← hmod]
  obtain ⟨shape, d, rfl⟩ := (List.eq_nil_or_concat shape).resolve_left hne
  rw [numElements, List.concat_eq_append, List.foldl_append, List.foldl_cons, List.foldl_nil,
    Int.emod_emod_of_dvd _ dvd_rfl]

theorem numElements_eq_prod_iff (shape : List Int) (hne : shape ≠ []) (h0 : 0 ≤ shape.prod) :
    numElements shape = shape.prod ↔ shape.prod < 2 ^ 64 := by
  rw [numElements_eq hne]
  constructor
  · intro h
    rw [← h]
    exact Int.emod_lt_of_pos _ (by norm_num)
  · exact Int.emod_eq_of_lt h0

/-! ### Resolution -/

section Resolution

variable {d0 d1 d2 d3 : Int} {imgShape : ImgShape}

/-- What `parse_input_meta` returns for a declared shape does not depend on the spatial dimensions. -/
theorem Declared.parse_eq (h : Declared d0 d1 d2 d3) (imgShape : ImgShape) :
    parseInputMeta [d0, d1, d2, d3] imgShape = .ok [d0, channels d1 d3, imgShape.height, imgShape.width] := by
  have hne : ∀ d ∈ [d0, d1, d2, d3], d ≠ 0 := by
    intro d hd
    have := h.dims d hd
    omega
  have h1 := hne d1 (by simp)
  have h2 := hne d2 (by simp)
  cases hc : isChannels d1 with
  | true => simp [parseInputMeta, channels, hc, h2, bind, Except.bind, pure, Except.pure]
  | false =>
    have hc3 : isChannels d3 = true := by
      have := h.layout
      rw [hc] at this
      simpa using this
    simp [parseInputMeta, channels, hc, hc3, h1, bind, Except.bind, pure, Except.pure]

theorem Declared.channels_pos (h : Declared d0 d1 d2 d3) : 0 < channels d1 d3 := by
  have hpos : ∀ d, isChannels d = true → 0 < d := by
    intro d hd
    simp only [isChannels, Bool.or_eq_true, beq_iff_eq] at hd
    omega
  unfold channels
  cases hc : isChannels d1 with
  | true => exact hpos d1 hc
  | false =>
    have := h.layout
    rw [hc] at this
    exact hpos d3 (by simpa using this)

theorem replaceDynamic_eq_iff {d configured : Int} :
    configured = replaceDynamic d configured ↔ d = -1 ∨ d = configured := by
  unfold replaceDynamic
  split
  · simp [*]
  · rename_i hne
    rw [eq_comm]
    exact (or_iff_right hne).symm

theorem Declared.inputShapes_eq (h : Declared d0 d1 d2 d3) (imgShape : ImgShape) (batch : Nat) :
    inputShapes [d0, d1, d2, d3] imgShape batch =
      .ok [(batch : Int), channels d1 d3, imgShape.height, imgShape.width] := by
  rw [inputShapes, h.parse_eq imgShape]
  rfl

theorem fixedAsConfigured_iff : [d0, channels d1 d3, imgShape.height, imgShape.width] = resolved d0 d1 d2 d3 imgShape ↔
    FixedAsConfigured d1 d2 d3 imgShape := by
  simp only [resolved, List.cons.injEq, true_and, and_true, replaceDynamic_eq_iff, FixedAsConfigured]

/-- The element count is the product exactly when it fits `size_t`. -/
theorem Declared.count_iff (h : Declared d0 d1 d2 d3) (hh : 0 < imgShape.height) (hw : 0 < imgShape.width)
    (batch : Nat) :
    (∀ shape, inputShapes [d0, d1, d2, d3] imgShape batch = .ok shape → numElements shape = shape.prod) ↔
      batch * channels d1 d3 * imgShape.height * imgShape.width < 2 ^ 64 := by
  have hchannels := h.channels_pos
  have hprod : ([(batch : Int), channels d1 d3, imgShape.height, imgShape.width]).prod =
      batch * channels d1 d3 * imgShape.height * imgShape.width := by
    simp only [List.prod_cons, List.prod_nil, mul_one, mul_assoc]
  rw [h.inputShapes_eq, ← hprod, ← numElements_eq_prod_iff _ (by simp) (by rw [hprod]; positivity)]
  constructor
  · intro hcount
    exact hcount _ rfl
  · rintro hcount _ ⟨⟩
    exact hcount

/-- A shape that is not 4-D or has no channels is refused. -/
theorem refused {shape : List Int} (imgShape : ImgShape) (h : shape.length ≠ 4 ∨
    ∃ d0 d1 d2 d3, shape = [d0, d1, d2, d3] ∧ isChannels d1 = false ∧ isChannels d3 = false) :
    ∃ msg, parseInputMeta shape imgShape = .error (.runtimeError msg) := by
  rcases h with hlen | ⟨d0, d1, d2, d3, rfl, hc1, hc3⟩
  · unfold parseInputMeta
    split
    · exact absurd rfl hlen
    · exact ⟨_, rfl⟩
  · simp only [parseInputMeta, hc1, hc3, Bool.false_eq_true, if_false]
    exact ⟨_, rfl⟩

/-- The shape of the input respects the model exactly when the fixed spatial dimensions are those configured and the
number of elements fits `size_t`; a shape of another form is refused. -/
theorem respects_iff (imgShape : ImgShape) (batch : Nat) (hh : 0 < imgShape.height) (hw : 0 < imgShape.width) :
    (∀ d0 d1 d2 d3, Declared d0 d1 d2 d3 → (Respects d0 d1 d2 d3 imgShape batch ↔ FixedAsConfigured d1 d2 d3 imgShape ∧
      batch * channels d1 d3 * imgShape.height * imgShape.width < 2 ^ 64)) ∧
    (∀ shape : List Int, shape.length ≠ 4 ∨ (∃ d0 d1 d2 d3, shape = [d0, d1, d2, d3] ∧ isChannels d1 = false ∧
      isChannels d3 = false) → ∃ msg, parseInputMeta shape imgShape = .error (.runtimeError msg)) := by
  refine ⟨fun d0 d1 d2 d3 h => ?_, fun shape => refused imgShape⟩
  have hparse := h.parse_eq imgShape
  constructor
  · intro hres
    have heq := hres.parse
    rw [hparse, Except.ok.injEq] at heq
    exact ⟨fixedAsConfigured_iff.1 heq, (h.count_iff hh hw batch).1 hres.count⟩
  · rintro ⟨hfix, hlt⟩
    refine ⟨hparse.trans (congrArg Except.ok (fixedAsConfigured_iff.2 hfix)), fun shape hshape d hd => ?_,
      (h.count_iff hh hw batch).2 hlt⟩
    rw [hparse, Except.ok.injEq] at hshape
    subst hshape
    simp only [List.tail_cons, List.mem_cons, List.not_mem_nil, or_false] at hd
    rcases hd with rfl | rfl | rfl
    · exact h.channels_pos
    · exact hh
    · exact hw

end Resolution

/-- A model with dynamic dimensions. -/
theorem respects_iff_dynamic : Respects (-1) 3 (-1) (-1) ⟨640, 640⟩ 1 :=
  (((respects_iff ⟨640, 640⟩ 1 (by decide) (by decide)).1 (-1) 3 (-1) (-1) ⟨by decide, by decide⟩)).2
    ⟨⟨.inl rfl, .inl rfl⟩, by decide⟩

/-- A model for images of 640 x 640 gets the input shape of images of 576 x 576. -/
theorem fixed_not_respected : ¬∀ (imgShape : ImgShape) (batch : Nat), 0 < imgShape.height → 0 < imgShape.width →
    ∀ d0 d1 d2 d3, Declared d0 d1 d2 d3 → Respects d0 d1 d2 d3 imgShape batch := by
  intro h
  have hres := h ⟨576, 576⟩ 1 (by decide) (by decide) 1 3 640 640 ⟨by decide, by decide⟩
  exact absurd hres.parse (by decide)

end OnnxInference.InputShape
