import OnnxInference.Blocks
import OnnxInference.BufferPool

/-!
# The addresses of a buffer pool (`src/BufferPool.cpp`)

The constructor computes the size of the allocation in `size_t`, but the offsets of the elements in `int`, and takes
the size of an element as `int`.  The elements partition the allocation exactly when neither the last offset nor the
size of an element exceeds `int` (`partitions_iff`).
-/

namespace OnnxInference.BufferPool

open Blocks

/-- The product of two numbers of type `int`; an overflow is undefined. -/
def mulInt (a b : Int) : Option Int := if -2 ^ 31 ≤ a * b ∧ a * b < 2 ^ 31 then some (a * b) else none

/-- The conversion of a `size_t` to `int`. -/
def toInt (bytes : Nat) : Int := (bytes : Int).bmod (2 ^ 32)

/-- `total_bytes_`, where both factors are converted to `size_t`. -/
def totalBytes (bufferSize elementBytesSize : Int) : Int :=
  bufferSize % 2 ^ 64 * (elementBytesSize % 2 ^ 64) % 2 ^ 64

/-- The queue after the first rounds of the loop, for memory from `data` on. -/
def pushed (data elementBytesSize : Int) : Nat → Option (List Int)
  | 0 => some []
  | i + 1 => do
    let que ← pushed data elementBytesSize i
    let offset ← mulInt i elementBytesSize
    return que ++ [data + offset]

/-- The queue of a new pool has the addresses of its elements, which partition the memory. -/
structure Partitions (data bufferSize elementBytesSize : Int) (que : List Int) : Prop where
  length_eq : que.length = bufferSize
  address : ∀ (i : Nat) p, que[i]? = some p → p = data + i * elementBytesSize
  disjoint : ∀ (i j : Nat) p q, i ≠ j → que[i]? = some p → que[j]? = some q →
    Disjoint (Set.Ico p (p + elementBytesSize)) (Set.Ico q (q + elementBytesSize))
  cover : ⋃ p ∈ {p | p ∈ que}, Set.Ico p (p + elementBytesSize) =
    Set.Ico data (data + totalBytes bufferSize elementBytesSize)

/-- A caller that passes a number of bytes as `size_t` gets elements of this size, which partition the memory. -/
def Sound (data : Int) (bufferSize bytes : Nat) : Prop :=
  toInt bytes = bytes ∧
    ∃ que, pushed data (toInt bytes) bufferSize = some que ∧ Partitions data bufferSize (toInt bytes) que

variable {data e : Int} {n bytes : Nat}

/-! ### The loop -/

theorem mulInt_of_lt {a b : Int} (h0 : 0 ≤ a * b) (hlt : a * b < 2 ^ 31) : mulInt a b = some (a * b) :=
  if_pos ⟨by omega, hlt⟩

theorem mulInt_of_le {a b : Int} (hle : 2 ^ 31 ≤ a * b) : mulInt a b = none := if_neg (by omega)

theorem totalBytes_eq (hn : n < 2 ^ 31) (he : 0 ≤ e) (he' : e < 2 ^ 31) : totalBytes n e = n * e := by
  have hle : (n : Int) * e ≤ 2 ^ 31 * 2 ^ 31 := mul_le_mul (by omega) he'.le he (by norm_num)
  have h0 : 0 ≤ (n : Int) * e := mul_nonneg (by omega) he
  have hn' : (n : Int) % 2 ^ 64 = n := Int.emod_eq_of_lt (by omega) (by omega)
  have he'' : e % 2 ^ 64 = e := Int.emod_eq_of_lt he (by omega)
  rw [totalBytes, hn', he'', Int.emod_eq_of_lt h0 (by omega)]

/-- Without an overflow the queue has the addresses in order: those of the elements of the pool without addresses. -/
theorem pushed_eq (he : 0 ≤ e) (h : ∀ i < n, (i : Int) * e < 2 ^ 31) :
    pushed data e n = some ((BufferPool.create n).que.map fun i : Nat => data + i * e) := by
  induction n with
  | zero => rfl
  | succ n ih =>
    rw [pushed, ih fun i hi => h i (Nat.lt_succ_of_lt hi),
      mulInt_of_lt (mul_nonneg (Int.natCast_nonneg n) he) (h n (Nat.lt_succ_self n))]
    simp [BufferPool.create, List.range_succ]

/-- The rounds up to an overflow are all that is defined. -/
theorem pushed_eq_none {i : Nat} (hi : i < n) (h : 2 ^ 31 ≤ (i : Int) * e) : pushed data e n = none := by
  induction n with
  | zero => omega
  | succ n ih =>
    rw [pushed]
    by_cases heq : i = n
    · subst heq
      rw [mulInt_of_le h]
      cases pushed data e i <;> rfl
    · rw [ih (by omega)]
      rfl

/-! ### The partition -/

/-- The ranges of the elements are the blocks of the memory. -/
theorem partitions_map (hn : n < 2 ^ 31) (he : 0 < e) (he' : e < 2 ^ 31) :
    Partitions data n e ((BufferPool.create n).que.map fun i : Nat => data + i * e) := by
  have hrange : ∀ i : Nat, Set.Ico (data + i * e) (data + i * e + e) = block data e i := by
    intro i
    rw [block, add_mul, one_mul, add_assoc]
  have hget : ∀ (i : Nat) p, ((BufferPool.create n).que.map fun i : Nat => data + (i : Int) * e)[i]? = some p →
      p = data + i * e := by
    intro i p hp
    rw [BufferPool.create, List.getElem?_map, Option.map_eq_some_iff] at hp
    obtain ⟨j, hj, rfl⟩ := hp
    obtain ⟨-, rfl⟩ := List.getElem?_eq_some_iff.1 hj
    rw [List.getElem_range]
  refine ⟨by simp [BufferPool.create], hget, fun i j p q hij hp hq => ?_, ?_⟩
  · rw [hget i p hp, hget j q hq, hrange, hrange]
    exact disjoint_block he.le hij
  · rw [totalBytes_eq hn he.le he', ← biUnion_block he]
    refine subset_antisymm (Set.iUnion₂_subset fun p hp => ?_) (Set.iUnion₂_subset fun i hi => ?_)
    · obtain ⟨i, hi, rfl⟩ := List.mem_map.1 hp
      rw [hrange]
      exact Set.subset_biUnion_of_mem (u := fun i : Nat => block data e i) (List.mem_range.1 hi)
    · rw [← hrange]
      exact Set.subset_biUnion_of_mem (u := fun p : Int => Set.Ico p (p + e))
        (List.mem_map_of_mem (f := fun i : Nat => data + (i : Int) * e) (List.mem_range.2 hi))

theorem toInt_eq_iff : toInt bytes = bytes ↔ bytes < 2 ^ 31 := by
  unfold toInt
  constructor
  · intro h
    have := Int.bmod_lt (x := (bytes : Int)) (m := 2 ^ 32) (by norm_num)
    omega
  · intro h
    exact Int.bmod_eq_of_le (by omega) (by omega)

/-- A caller gets elements of the size it passes, and these partition the memory, exactly when the size fits `int` and
the offset of the last element does. -/
theorem sound_iff (data : Int) (bufferSize bytes : Nat) (hn : 1 ≤ bufferSize) (hn' : bufferSize < 2 ^ 31)
    (hbytes : 1 ≤ bytes) :
    Sound data bufferSize bytes ↔ bytes < 2 ^ 31 ∧ (bufferSize - 1) * bytes < 2 ^ 31 := by
  constructor
  · rintro ⟨hrecv, que, hque, -⟩
    rw [hrecv] at hque
    refine ⟨toInt_eq_iff.1 hrecv, ?_⟩
    by_contra hge
    have hnone : pushed data bytes bufferSize = none :=
      pushed_eq_none (i := bufferSize - 1) (by omega) (by exact_mod_cast Nat.le_of_not_lt hge)
    rw [hnone] at hque
    cases hque
  · rintro ⟨hlt, hlast⟩
    rw [Sound, toInt_eq_iff.2 hlt]
    refine ⟨rfl, _, pushed_eq (Int.natCast_nonneg bytes) fun i hi => ?_,
      partitions_map hn' (by exact_mod_cast hbytes) (by exact_mod_cast hlt)⟩
    have hle : i * bytes ≤ (bufferSize - 1) * bytes := Nat.mul_le_mul_right bytes (by omega)
    exact_mod_cast hle.trans_lt hlast

theorem sound_iff_four : Sound 4096 4 4 ∧ (1 : Nat) ≤ 4 :=
  ⟨(sound_iff 4096 4 4 (by decide) (by decide) (by decide)).2 (by decide), by decide⟩

/-- Three elements of a gibibyte each: the offset of the last one is not an `int`. -/
theorem gibibytes_not_sound : ¬∀ (data : Int) (bufferSize bytes : Nat), 1 ≤ bufferSize → bufferSize < 2 ^ 31 →
    1 ≤ bytes → bytes < 2 ^ 31 → ∃ que, pushed data bytes bufferSize = some que ∧
      Partitions data bufferSize bytes que := by
  intro h
  obtain ⟨que, hque, -⟩ := h 0 3 (2 ^ 30) (by decide) (by decide) (by decide) (by decide)
  rw [pushed_eq_none (i := 2) (by decide) (by decide)] at hque
  cases hque

end OnnxInference.BufferPool
