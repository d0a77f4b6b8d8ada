import Mathlib

/-!
# Blocks of one size

The intervals `[base + i * size, base + (i + 1) * size)` for `i < n` partition the interval of `n * size` from `base`
on: they are disjoint (`disjoint_block`), and nothing is left (`biUnion_block`).  In the arithmetic modulo `m` their
first addresses are distinct if and only if `n` is at most `m / gcd size m` (`wrapped_injOn_iff`).
-/

namespace Blocks

def block (base size : Int) (i : Nat) : Set Int := Set.Ico (base + i * size) (base + (i + 1) * size)

variable {base size a : Int} {i j n : Nat}

/-- A later block begins where an earlier one has ended. -/
theorem block_le (hsize : 0 ≤ size) (hij : i < j) : base + ((i : Int) + 1) * size ≤ base + j * size := by
  have hle : (i : Int) + 1 ≤ j := by omega
  have := mul_le_mul_of_nonneg_right hle hsize
  omega

theorem disjoint_block_of_lt (hsize : 0 ≤ size) (hij : i < j) : Disjoint (block base size i) (block base size j) := by
  rw [Set.disjoint_left]
  rintro a ⟨-, hlt⟩ ⟨hle, -⟩
  exact absurd (hlt.trans_le ((block_le hsize hij).trans hle)) (lt_irrefl a)

theorem disjoint_block (hsize : 0 ≤ size) (hij : i ≠ j) : Disjoint (block base size i) (block base size j) := by
  rcases Nat.lt_or_gt_of_ne hij with hlt | hlt
  · exact disjoint_block_of_lt hsize hlt
  · exact (disjoint_block_of_lt hsize hlt).symm

theorem block_subset (hsize : 0 ≤ size) (hi : i < n) : block base size i ⊆ Set.Ico base (base + n * size) := by
  have hlow : 0 ≤ (i : Int) * size := mul_nonneg (Int.natCast_nonneg i) hsize
  exact Set.Ico_subset_Ico (by omega) (block_le hsize hi)

/-- The number of the block of an address is its distance from `base` by the size. -/
theorem exists_mem_block (hsize : 0 < size) (ha : a ∈ Set.Ico base (base + n * size)) :
    ∃ i < n, a ∈ block base size i := by
  obtain ⟨hle, hlt⟩ := ha
  have hnonneg : 0 ≤ (a - base) / size := Int.ediv_nonneg (by omega) hsize.le
  have hquot : (((a - base) / size).toNat : Int) = (a - base) / size := Int.toNat_of_nonneg hnonneg
  have hmod := Int.mul_ediv_add_emod (a - base) size
  have hpos := Int.emod_nonneg (a - base) hsize.ne'
  have hrest := Int.emod_lt_of_pos (a - base) hsize
  refine ⟨((a - base) / size).toNat, ?_, ?_, ?_⟩
  · have : (a - base) / size < n := Int.ediv_lt_of_lt_mul hsize (by omega)
    omega
  · rw [hquot, mul_comm]
    omega
  · rw [hquot, add_mul, one_mul, mul_comm]
    omega

theorem biUnion_block (hsize : 0 < size) :
    ⋃ i ∈ {i : Nat | i < n}, block base size i = Set.Ico base (base + n * size) := by
  refine subset_antisymm (Set.iUnion₂_subset fun i hi => block_subset hsize.le hi) fun a ha => ?_
  obtain ⟨i, hi, hmem⟩ := exists_mem_block hsize ha
  exact Set.mem_biUnion hi hmem

/-! ### Addresses that wrap around -/

/-- The first address of a block in the arithmetic modulo `m`. -/
def wrapped (m base size i : Nat) : Nat := (base + i * size) % m

/-- Two blocks begin at one address exactly if their numbers agree modulo `m / gcd m size`. -/
theorem wrapped_eq_iff {m base size i j : Nat} (hm : 0 < m) :
    wrapped m base size i = wrapped m base size j ↔ i ≡ j [MOD m / Nat.gcd m size] := by
  constructor
  · intro h
    exact Nat.ModEq.cancel_right_div_gcd hm (Nat.ModEq.add_left_cancel' base h)
  · intro h
    have hmul := h.mul_right' size
    have hdvd : m ∣ m / Nat.gcd m size * size := by
      rw [Nat.div_mul_right_comm (Nat.gcd_dvd_left m size), Nat.mul_div_assoc _ (Nat.gcd_dvd_right m size)]
      exact Nat.dvd_mul_right _ _
    exact Nat.ModEq.add_left base (hmul.of_dvd hdvd)

theorem wrapped_injOn_iff {m base size n : Nat} (hm : 0 < m) :
    (∀ i < n, ∀ j < n, wrapped m base size i = wrapped m base size j → i = j) ↔ n * Nat.gcd m size ≤ m := by
  have hgcd : 0 < Nat.gcd m size := Nat.gcd_pos_of_pos_left size hm
  rw [← Nat.le_div_iff_mul_le hgcd]
  have hperiod : 0 < m / Nat.gcd m size := Nat.div_pos (Nat.gcd_le_left size hm) hgcd
  constructor
  · intro h
    by_contra hlt
    -- the block that begins where the first one does
    have heq := h 0 (by omega) (m / Nat.gcd m size) (by omega)
      ((wrapped_eq_iff hm).2 (by rw [Nat.ModEq, Nat.mod_self, Nat.zero_mod]))
    omega
  · intro hle i hi j hj h
    exact ((wrapped_eq_iff hm).1 h).eq_of_lt_of_lt (by omega) (by omega)

end Blocks
