import Mathlib

/-!
# Interpolated sequences

A sequence is extended to the nonnegative numbers by linear interpolation between neighbours.  The interpolation lies
between the values at the floor and at the ceiling (`interpolate_mem_Icc`), and if the sequence is monotone up to `m`,
so is the interpolation (`interpolate_le_interpolate`).  A sorted list is determined by what it is a permutation of.
-/

namespace Quantile

variable {K : Type*} [Field K] [LinearOrder K] [FloorSemiring K] {x y : K}

/-- Between two neighbours the interpolation is linear. -/
def interpolate (f : Nat → K) (x : K) : K :=
  if ⌊x⌋₊ = ⌈x⌉₊ then f ⌊x⌋₊ else f ⌊x⌋₊ * (1 - (x - ⌊x⌋₊)) + f ⌈x⌉₊ * (x - ⌊x⌋₊)

theorem eq_floor_of_eq (hx : 0 ≤ x) (h : ⌊x⌋₊ = ⌈x⌉₊) : x = ⌊x⌋₊ := by
  refine le_antisymm ?_ (Nat.floor_le hx)
  rw [h]
  exact Nat.le_ceil x

theorem ceil_le_floor_add_one (x : K) : ⌈x⌉₊ ≤ ⌊x⌋₊ + 1 := by
  rw [Nat.ceil_le, Nat.cast_add, Nat.cast_one]
  exact (Nat.lt_floor_add_one x).le

variable [IsStrictOrderedRing K] {f : Nat → K} {m : Nat}

theorem ceil_of_ne (h : ⌊x⌋₊ ≠ ⌈x⌉₊) : ⌈x⌉₊ = ⌊x⌋₊ + 1 := by
  have h1 := ceil_le_floor_add_one x
  have h2 := Nat.floor_le_ceil x
  omega

/-- One formula for both cases: at a number of the sequence the next value does not count. -/
theorem interpolate_eq (f : Nat → K) (hx : 0 ≤ x) :
    interpolate f x = f ⌊x⌋₊ + (f (⌊x⌋₊ + 1) - f ⌊x⌋₊) * (x - ⌊x⌋₊) := by
  unfold interpolate
  split
  · rename_i h
    have hzero : x - ⌊x⌋₊ = 0 := sub_eq_zero.2 (eq_floor_of_eq hx h)
    rw [hzero, mul_zero, add_zero]
  · rename_i h
    rw [ceil_of_ne h]
    ring

theorem interpolate_natCast (f : Nat → K) (n : Nat) : interpolate f n = f n := by
  rw [interpolate, Nat.floor_natCast, Nat.ceil_natCast, if_pos rfl]

/-- The interpolation lies between the two neighbours. -/
theorem interpolate_mem_Icc (hf : f ⌊x⌋₊ ≤ f ⌈x⌉₊) (hx : 0 ≤ x) :
    f ⌊x⌋₊ ≤ interpolate f x ∧ interpolate f x ≤ f ⌈x⌉₊ := by
  by_cases h : ⌊x⌋₊ = ⌈x⌉₊
  · rw [interpolate, if_pos h, ← h]
    exact ⟨le_rfl, le_rfl⟩
  · have hfrac : 0 ≤ x - ⌊x⌋₊ := sub_nonneg.2 (Nat.floor_le hx)
    have hfrac' : x - ⌊x⌋₊ ≤ 1 := by
      have := Nat.lt_floor_add_one x
      linarith
    have hstep : 0 ≤ f (⌊x⌋₊ + 1) - f ⌊x⌋₊ := by
      rw [← ceil_of_ne h]
      exact sub_nonneg.2 hf
    rw [interpolate_eq f hx, ceil_of_ne h]
    constructor
    · have := mul_nonneg hstep hfrac
      linarith
    · have := mul_le_mul_of_nonneg_left hfrac' hstep
      linarith

/-- The interpolation of a sequence that is monotone up to `m` is monotone up to `m`. -/
theorem interpolate_le_interpolate (hf : ∀ i j, i ≤ j → j ≤ m → f i ≤ f j) (hx : 0 ≤ x) (hxy : x ≤ y) (hy : y ≤ m) :
    interpolate f x ≤ interpolate f y := by
  have hceil : ⌈y⌉₊ ≤ m := Nat.ceil_le.2 hy
  have hfloor : ⌊x⌋₊ ≤ ⌊y⌋₊ := Nat.floor_mono hxy
  have hbetween : ∀ z, z ≤ y → f ⌊z⌋₊ ≤ f ⌈z⌉₊ := fun z hz =>
    hf _ _ (Nat.floor_le_ceil z) ((Nat.ceil_mono hz).trans hceil)
  by_cases hcell : ⌈x⌉₊ ≤ ⌊y⌋₊
  · -- a value of the sequence lies between the two
    calc interpolate f x ≤ f ⌈x⌉₊ := (interpolate_mem_Icc (hbetween x hxy) hx).2
      _ ≤ f ⌊y⌋₊ := hf _ _ hcell ((Nat.floor_le_ceil y).trans hceil)
      _ ≤ interpolate f y := (interpolate_mem_Icc (hbetween y le_rfl) (hx.trans hxy)).1
  · -- both are in one cell
    have hsame : ⌊x⌋₊ = ⌊y⌋₊ := by
      have := ceil_le_floor_add_one x
      omega
    have hne : ⌊y⌋₊ ≠ ⌈y⌉₊ := by
      have := Nat.ceil_mono hxy
      omega
    have hstep : 0 ≤ f (⌊y⌋₊ + 1) - f ⌊y⌋₊ := by
      rw [← ceil_of_ne hne]
      exact sub_nonneg.2 (hbetween y le_rfl)
    rw [interpolate_eq f hx, interpolate_eq f (hx.trans hxy), hsame]
    have := mul_le_mul_of_nonneg_left (sub_le_sub_right hxy (⌊y⌋₊ : K)) hstep
    linarith

/-! ### Order statistics -/

section Sorted

variable {α : Type*} [LinearOrder α]

/-- The list sorted does not depend on its order. -/
theorem insertionSort_eq_of_perm {l l' : List α} (h : l.Perm l') :
    l.insertionSort (· ≤ ·) = l'.insertionSort (· ≤ ·) := by
  refine List.Perm.eq_of_pairwise (fun _ _ _ _ => le_antisymm) (List.pairwise_insertionSort (· ≤ ·) l)
    (List.pairwise_insertionSort (· ≤ ·) l') ?_
  exact (List.perm_insertionSort _ l).trans (h.trans (List.perm_insertionSort _ l').symm)

/-- The entries of a sorted list are monotone in their index. -/
theorem getD_insertionSort_le (l : List α) (d : α) {i j : Nat} (hij : i ≤ j) (hj : j < l.length) :
    (l.insertionSort (· ≤ ·)).getD i d ≤ (l.insertionSort (· ≤ ·)).getD j d := by
  have hlen : (l.insertionSort (· ≤ ·)).length = l.length := List.length_insertionSort _ l
  rw [List.getD_eq_getElem _ _ (by omega), List.getD_eq_getElem _ _ (by omega)]
  rcases Nat.eq_or_lt_of_le hij with rfl | hlt
  · exact le_rfl
  · exact List.pairwise_iff_getElem.1 (List.pairwise_insertionSort (· ≤ ·) l) i j _ _ hlt

/-- The first entry of the sorted list is the least. -/
theorem head_insertionSort_le (l : List α) (d : α) {a : α} (ha : a ∈ l) : (l.insertionSort (· ≤ ·)).getD 0 d ≤ a := by
  obtain ⟨i, hi, rfl⟩ := List.getElem_of_mem ((List.mem_insertionSort (· ≤ ·)).2 ha)
  rw [← List.getD_eq_getElem _ d hi]
  exact getD_insertionSort_le l d (Nat.zero_le i) (by rwa [List.length_insertionSort] at hi)

/-- The last entry of the sorted list is the greatest. -/
theorem le_last_insertionSort (l : List α) (d : α) {a : α} (ha : a ∈ l) :
    a ≤ (l.insertionSort (· ≤ ·)).getD (l.length - 1) d := by
  obtain ⟨i, hi, rfl⟩ := List.getElem_of_mem ((List.mem_insertionSort (· ≤ ·)).2 ha)
  rw [← List.getD_eq_getElem _ d hi]
  rw [List.length_insertionSort] at hi
  exact getD_insertionSort_le l d (by omega) (by omega)

theorem getD_insertionSort_mem (l : List α) (d : α) {i : Nat} (hi : i < l.length) :
    (l.insertionSort (· ≤ ·)).getD i d ∈ l := by
  have hi' : i < (l.insertionSort (· ≤ ·)).length := by rwa [List.length_insertionSort]
  rw [List.getD_eq_getElem _ _ hi']
  exact (List.mem_insertionSort (· ≤ ·)).1 (List.getElem_mem hi')

end Sorted

end Quantile
