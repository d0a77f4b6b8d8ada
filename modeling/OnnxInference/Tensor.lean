import OnnxInference.Preprocess

/-!
# Tensor buffers (`include/TensorBuffer.h`, `include/backend/InferenceBackend.h`)

A tensor buffer is a pointer to the floats and one record of letterbox parameters for each slot of the batch; a
copy of it points to the same floats.  The memory is a list of floats for each pointer.
-/

namespace OnnxInference

abbrev Ptr := Nat

abbrev Memory := Ptr → List ℚ

/-- The input shape `[batch, 3, height, width]` of a network. -/
structure Net where
  batch : Nat
  height : Nat
  width : Nat
  batch_pos : 0 < batch

namespace Net

variable (net : Net)

def size : Size := ⟨net.width, net.height⟩

def planeSize : Nat := 3 * (net.height * net.width)

def numElements : Nat := net.batch * net.planeSize

def slot0 : Fin net.batch := ⟨0, net.batch_pos⟩

theorem slot_le (k : Fin net.batch) : k * net.planeSize + net.planeSize ≤ net.numElements := by
  have h : (k + 1) * net.planeSize ≤ net.batch * net.planeSize := Nat.mul_le_mul_right _ k.isLt
  rw [Nat.add_mul, Nat.one_mul] at h
  exact h

/-- Different slots do not meet. -/
theorem slot_disjoint {j k : Fin net.batch} (h : j ≠ k) :
    j * net.planeSize + net.planeSize ≤ k * net.planeSize ∨
      k * net.planeSize + net.planeSize ≤ j * net.planeSize := by
  rcases Nat.lt_or_gt_of_ne (Fin.val_ne_of_ne h) with hlt | hlt
  · left
    have := Nat.mul_le_mul_right net.planeSize (Nat.succ_le_of_lt hlt)
    rwa [Nat.succ_mul] at this
  · right
    have := Nat.mul_le_mul_right net.planeSize (Nat.succ_le_of_lt hlt)
    rwa [Nat.succ_mul] at this

end Net

structure TensorBuffer (batch : Nat) where
  data : Ptr
  letterboxParams : Fin batch → LetterboxParams

def TensorBuffer.wrap (batch : Nat) (data : Ptr) : TensorBuffer batch := ⟨data, fun _ => .zero⟩

/-- The one tensor of a `ModelOutput` with the floats it owns. -/
structure ModelOutput (batch : Nat) where
  data : List ℚ
  shape : List Nat
  letterboxParams : Fin batch → LetterboxParams

namespace ModelOutput

variable {batch : Nat} (out : ModelOutput batch)

def numElements : Nat := out.shape.prod

def planeSize : Nat := out.numElements / out.shape.headD 1

def valid : Bool := 0 < out.numElements

variable {out}

theorem planeSize_eq {m n : Nat} (h : out.shape = [batch, m, n]) (b : Fin batch) : out.planeSize = m * n := by
  simp only [planeSize, numElements, h, List.prod_cons, List.prod_nil, List.headD_cons, mul_one]
  exact Nat.mul_div_cancel_left _ b.pos

end ModelOutput

/-! ### Memory -/

/-- The contents after a copy of `values` to the offset. -/
def overlay (offset : Nat) (values contents : List ℚ) : List ℚ :=
  contents.take offset ++ values ++ contents.drop (offset + values.length)

/-- `n` floats from the offset on. -/
def segment (offset n : Nat) (contents : List ℚ) : List ℚ := (contents.drop offset).take n

@[simp] theorem length_overlay {offset : Nat} {values contents : List ℚ}
    (h : offset + values.length ≤ contents.length) : (overlay offset values contents).length = contents.length := by
  simp only [overlay, List.length_append, List.length_take, List.length_drop]
  omega

theorem getElem?_overlay {offset : Nat} {values contents : List ℚ} (h : offset + values.length ≤ contents.length)
    (i : Nat) : (overlay offset values contents)[i]? =
      if offset ≤ i ∧ i < offset + values.length then values[i - offset]? else contents[i]? := by
  have hoff : (contents.take offset).length = offset := by
    rw [List.length_take]
    omega
  unfold overlay
  by_cases h1 : i < offset
  · rw [List.append_assoc, List.getElem?_append_left (by omega), List.getElem?_take_of_lt h1, if_neg (by omega)]
  · by_cases h2 : i < offset + values.length
    · rw [List.append_assoc, List.getElem?_append_right (by omega), hoff, List.getElem?_append_left (by omega),
        if_pos ⟨by omega, h2⟩]
    · rw [List.getElem?_append_right (by simp only [List.length_append]; omega), List.length_append, hoff,
        List.getElem?_drop, if_neg (by omega)]
      congr 1
      omega

theorem getElem?_segment (offset n i : Nat) (contents : List ℚ) :
    (segment offset n contents)[i]? = if i < n then contents[offset + i]? else none := by
  unfold segment
  rw [List.getElem?_take]
  split
  · rw [List.getElem?_drop]
  · rfl

/-- What has been copied to an offset is found there. -/
theorem segment_overlay_same {offset n : Nat} {values contents : List ℚ} (hn : values.length = n)
    (h : offset + values.length ≤ contents.length) : segment offset n (overlay offset values contents) = values := by
  refine List.ext_getElem? fun i => ?_
  rw [getElem?_segment, getElem?_overlay h]
  split
  · rw [if_pos (by omega)]
    congr 1
    omega
  · exact (List.getElem?_eq_none (by omega)).symm

theorem segment_all {n : Nat} {contents : List ℚ} (h : contents.length = n) : segment 0 n contents = contents := by
  rw [segment, List.drop_zero, List.take_of_length_le h.le]

theorem overlay_all {values contents : List ℚ} (h : values.length = contents.length) :
    overlay 0 values contents = values := by
  rw [overlay, List.take_zero, List.nil_append, Nat.zero_add, List.drop_of_length_le h.ge, List.append_nil]

/-- A copy does not change a segment it does not meet. -/
theorem segment_overlay_disjoint {offset offset' n : Nat} {values contents : List ℚ}
    (h : offset + values.length ≤ contents.length) (hd : offset' + n ≤ offset ∨ offset + values.length ≤ offset') :
    segment offset' n (overlay offset values contents) = segment offset' n contents := by
  refine List.ext_getElem? fun i => ?_
  rw [getElem?_segment, getElem?_segment, getElem?_overlay h]
  split
  · rw [if_neg (by omega)]
  · rfl

namespace Memory

def store (mem : Memory) (p : Ptr) (offset : Nat) (values : List ℚ) : Memory :=
  Function.update mem p (overlay offset values (mem p))

@[simp] theorem store_same (mem : Memory) (p : Ptr) (offset : Nat) (values : List ℚ) :
    mem.store p offset values p = overlay offset values (mem p) := Function.update_self ..

theorem store_of_ne (mem : Memory) {p q : Ptr} (h : q ≠ p) (offset : Nat) (values : List ℚ) :
    mem.store p offset values q = mem q := Function.update_of_ne h ..

/-- One float stored through the pointer. -/
def set (mem : Memory) (p : Ptr) (i : Nat) (value : ℚ) : Memory := Function.update mem p ((mem p).set i value)

end Memory

end OnnxInference
