import OnnxInference.SPSCQueue

/-!
# The capacity of the queue (`include/queue/SPSCQueue.h`)

The constructor rounds the capacity up to a power of two, by a loop that doubles a machine word.  The loop ends up to
`2 ^ 63`, which no vector exceeds (`loop_ends_iff`).  But the test for a power of two takes zero for one, so a queue of
capacity zero has no slots and the first push writes out of range; for all other capacities no access ever is
(`established_iff`).
-/

namespace OnnxInference.SPSCQueue

open Transition

/-! ### The loop -/

/-- The rounds of `while (new_capacity < capacity) new_capacity <<= 1`. -/
def loop (capacity : UInt64) : System UInt64 Unit where
  init := 1
  step newCapacity _ := if newCapacity < capacity then some (newCapacity <<< 1) else none

/-- The loop ends after at most 63 rounds, with this value. -/
structure EndsWith (capacity newCapacity : UInt64) : Prop where
  rounds : ∀ ls n, (loop capacity).run 1 ls = some n → ls.length ≤ 63
  reached : (loop capacity).Reachable newCapacity
  exit : (loop capacity).step newCapacity () = none

section Loop

variable {capacity n n' : UInt64}

theorem loop_step_eq_some_iff : (loop capacity).step n () = some n' ↔ n < capacity ∧ n <<< 1 = n' := by
  simp only [loop, Option.ite_none_right_eq_some, Option.some.injEq]

theorem loop_step_eq_none_iff : (loop capacity).step n () = none ↔ capacity ≤ n := by
  simp only [loop, ite_eq_right_iff, reduceCtorEq, imp_false, UInt64.not_lt]

/-- A round leads from a power of two to the next one, as long as the capacity is none too large. -/
theorem loop_round (hcap : capacity.toNat ≤ 2 ^ 63) {i : Nat} (hn : n.toNat = 2 ^ i)
    (hs : (loop capacity).step n () = some n') : i < 63 ∧ n'.toNat = 2 ^ (i + 1) := by
  obtain ⟨hlt, rfl⟩ := loop_step_eq_some_iff.1 hs
  rw [UInt64.lt_iff_toNat_lt, hn] at hlt
  have hi : i < 63 := by
    by_contra hge
    have := Nat.pow_le_pow_right (n := 2) (by decide) (Nat.le_of_not_lt hge)
    omega
  have hbound : 2 ^ (i + 1) < 2 ^ 64 := Nat.pow_lt_pow_right (by decide) (by omega)
  rw [RingIndex.toNat_shiftLeft_one, hn, ← Nat.pow_succ', Nat.mod_eq_of_lt hbound]
  exact ⟨hi, rfl⟩

theorem loop_length_le (hcap : capacity.toNat ≤ 2 ^ 63) {ls : List Unit} (hr : (loop capacity).run 1 ls = some n) :
    ls.length ≤ 63 := by
  -- a round takes the logarithm up by one
  have hle := System.run_length_le (M := loop capacity) (I := fun n => ∃ i, n.toNat = 2 ^ i) (A := fun _ => True)
    (μ := fun n => 63 - Nat.log 2 n.toNat) (fun {n l n'} ⟨i, hi⟩ _ hs => ?_) ⟨0, UInt64.toNat_one⟩
    (fun _ _ => trivial) hr
  · exact hle.trans (Nat.sub_le _ _)
  · obtain ⟨hlt, hn'⟩ := loop_round hcap hi hs
    refine ⟨⟨i + 1, hn'⟩, ?_⟩
    rw [hi, hn', Nat.log_pow (by decide), Nat.log_pow (by decide)]
    omega

/-- The model of the loop with fuel makes rounds of the loop. -/
theorem reachable_roundUp (fuel : Nat) (h : (loop capacity).Reachable n) :
    (loop capacity).Reachable (roundUp capacity fuel n) := by
  induction fuel generalizing n with
  | zero => exact h
  | succ fuel ih =>
    rw [roundUp]
    split
    · rename_i hlt
      exact ih (.step h trivial (loop_step_eq_some_iff.2 ⟨hlt, rfl⟩))
    · exact h

theorem endsWith_roundUp (hcap : capacity.toNat ≤ 2 ^ 63) : EndsWith capacity (roundUp capacity 64 1) where
  rounds _ _ hr := loop_length_le hcap hr
  reached := reachable_roundUp 64 .init
  exit := loop_step_eq_none_iff.2 (roundUp_spec hcap 64 0 UInt64.toNat_one (by decide) (by decide)).1

/-- The values of the loop do not exceed the highest bit. -/
theorem le_of_loop_reachable (h : (loop capacity).Reachable n) : n.toNat ≤ 2 ^ 63 := by
  have hpow : ∃ i, n.toNat = 2 ^ i % 2 ^ 64 := by
    refine h.invariant (P := fun n => ∃ i, n.toNat = 2 ^ i % 2 ^ 64) ⟨0, rfl⟩ fun {n l n'} ⟨i, hi⟩ _ hs => ?_
    obtain ⟨-, rfl⟩ := loop_step_eq_some_iff.1 hs
    exact ⟨i + 1, by rw [RingIndex.toNat_shiftLeft_one, hi, Nat.mul_mod_mod, ← Nat.pow_succ']⟩
  obtain ⟨i, hi⟩ := hpow
  rw [hi]
  rcases Nat.lt_or_ge i 64 with hlt | hge
  · exact (Nat.mod_le _ _).trans (Nat.pow_le_pow_right (by decide) (by omega))
  · rw [Nat.mod_eq_zero_of_dvd (Nat.pow_dvd_pow 2 hge)]
    exact Nat.zero_le _

/-- The loop ends exactly for the capacities that have a power of two above them in the machine word. -/
theorem loop_ends_iff (capacity : UInt64) : (∃ newCapacity, EndsWith capacity newCapacity) ↔
    capacity.toNat ≤ 2 ^ 63 := by
  constructor
  · rintro ⟨newCapacity, h⟩
    have hle := loop_step_eq_none_iff.1 h.exit
    rw [UInt64.le_iff_toNat_le] at hle
    exact hle.trans (le_of_loop_reachable h.reached)
  · intro hcap
    exact ⟨_, endsWith_roundUp hcap⟩

end Loop

/-! ### The ring -/

variable {α : Type}

/-- The indices, and the slots that the parties are about to access, are slots of the ring. -/
structure InRange (s : State α) : Prop where
  head : s.q.head.toNat < s.q.buffer.length
  tail : s.q.tail.toNat < s.q.buffer.length
  write : ∀ p item tail nextTail, s.at_ p = .pushWrite item tail nextTail → tail.toNat < s.q.buffer.length
  read : ∀ p head, s.at_ p = .popRead head → head.toNat < s.q.buffer.length

/-- What the constructor is to leave for a requested capacity. -/
structure Established (default : α) (capacity : UInt64) (q : Queue α) : Prop where
  rounded : ∃ newCapacity, EndsWith capacity newCapacity ∧
    q.capacity = if capacity &&& (capacity - 1) ≠ 0 then newCapacity else capacity
  length : q.capacity.toNat = q.buffer.length
  power : ∃ k, q.buffer.length = 2 ^ k
  enough : capacity ≤ q.capacity
  inRange : ∀ s, (system default q).Reachable s → s.q.buffer.length = q.buffer.length ∧ InRange s

section Established

variable {default : α} {capacity : UInt64} {q : Queue α} {k : Nat} {s : State α}

theorem Inv.inRange (hi : Inv k s) : InRange s := by
  have hring := hi.ring
  have hhead : s.q.head.toNat < s.q.buffer.length := hring.length ▸ hring.head.lt
  have htail : s.q.tail.toNat < s.q.buffer.length := hring.length ▸ hring.tail.lt
  refine ⟨hhead, htail, fun p item tail nextTail hat => ?_, fun p head hat => ?_⟩
  · have hk := hi.knows p
    rw [hat] at hk
    obtain rfl := hk.party_eq rfl
    obtain ⟨rfl, -, -⟩ := hk
    exact htail
  · have hk := hi.knows p
    rw [hat] at hk
    obtain rfl := hk.party_eq rfl
    obtain ⟨rfl, -⟩ := hk
    exact hhead

/-- A vector of the capacity is small enough for the loop. -/
theorem capacity_le (hq : create default capacity = some q) : capacity.toNat ≤ 2 ^ 63 := by
  unfold create at hq
  split at hq
  · cases hq
  · rename_i hle
    rw [UInt64.not_lt, UInt64.le_iff_toNat_le] at hle
    exact hle.trans maxSize_le

theorem create_capacity (hq : create default capacity = some q) :
    q.capacity = if capacity &&& (capacity - 1) ≠ 0 then roundUp capacity 64 1 else capacity := by
  unfold create at hq
  split at hq
  · cases hq
  · split at hq
    · rename_i hne
      rw [if_pos hne]
      simp only at hq
      split at hq <;> cases hq
      rfl
    · rename_i hzero
      rw [if_neg hzero]
      cases hq
      rfl

theorem create_zero (default : α) : create default 0 = some ⟨[], 0, 0, 0⟩ := by
  rw [create, if_neg (UInt64.not_lt.2 UInt64.zero_le), if_neg (by decide)]
  rfl

/-- A push into the queue without slots does not find it full, and writes out of range. -/
theorem exists_write_out_of_range (default item : α) : ∃ s, (system default ⟨[], 0, 0, 0⟩).Reachable s ∧
    s.at_ .producer = .pushWrite item 0 1 ∧ s.q.buffer = [] := by
  have hcall : (system default (⟨[], 0, 0, 0⟩ : Queue α)).Reachable _ :=
    .step .init trivial (l := .call .producer (.pushTail item)) rfl
  have htail : (system default (⟨[], 0, 0, 0⟩ : Queue α)).Reachable _ :=
    hcall.step trivial (l := .advance .producer) rfl
  obtain ⟨s, hs, hat, hq⟩ : ∃ s, (system default (⟨[], 0, 0, 0⟩ : Queue α)).Reachable s ∧
      s.at_ .producer = .pushHead item 0 ∧ s.q = ⟨[], 0, 0, 0⟩ := ⟨_, htail, rfl, rfl⟩
  -- the mask of capacity zero keeps all bits
  have hnext : ((0 : UInt64) + 1) &&& (0 - 1) = 1 := by decide
  have hhead : (system default (⟨[], 0, 0, 0⟩ : Queue α)).step s (.advance .producer) =
      some (s.goto .producer (.pushWrite item 0 1)).record := by
    simp only [system, step, advance, hat, hq, hnext]
    rfl
  have hwrite : (s.goto .producer (.pushWrite item 0 1)).at_ .producer = .pushWrite item 0 1 := State.goto_self _
  exact ⟨_, .step hs trivial hhead, hwrite, congrArg Queue.buffer hq⟩

/-- The constructor leaves what it is to leave for every capacity but zero. -/
theorem established_iff (hq : create default capacity = some q) : Established default capacity q ↔ 1 ≤ capacity := by
  constructor
  · intro h
    by_contra hpos
    obtain rfl : capacity = 0 := by
      rw [UInt64.le_iff_toNat_le, UInt64.toNat_one] at hpos
      exact UInt64.toNat_inj.1 (by rw [UInt64.toNat_zero]; omega)
    rw [create_zero, Option.some.injEq] at hq
    subst hq
    obtain ⟨s, hs, hat, hbuffer⟩ := exists_write_out_of_range default default
    have hlt := (h.inRange s hs).2.write _ _ _ _ hat
    rw [hbuffer] at hlt
    exact absurd hlt (Nat.not_lt_zero _)
  · intro hpos
    obtain ⟨henough, k, hring⟩ := create_spec hpos hq
    refine ⟨⟨_, endsWith_roundUp (capacity_le hq), create_capacity hq⟩, hring.size.trans hring.length.symm,
      ⟨k, hring.length⟩, henough, fun s hs => ?_⟩
    have hi := inv_of_reachable hring hs
    exact ⟨hi.ring.length.trans hring.length.symm, hi.inRange⟩

end Established

/-- The capacity 5 is rounded up to 8. -/
theorem established_iff_five : create 0 5 = some (⟨List.replicate 8 0, 8, 0, 0⟩ : Queue Nat) ∧
    Established 0 5 (⟨List.replicate 8 0, 8, 0, 0⟩ : Queue Nat) := by
  have hq : create 0 5 = some (⟨List.replicate 8 0, 8, 0, 0⟩ : Queue Nat) := by decide +kernel
  exact ⟨hq, (established_iff hq).2 (by decide)⟩

/-- The capacity 0 is not rounded up. -/
theorem zero_not_established : ¬∀ (capacity : UInt64) (q : Queue Nat), create 0 capacity = some q →
    Established 0 capacity q := by
  intro h
  obtain ⟨s, hs, hat, hbuffer⟩ := exists_write_out_of_range (0 : Nat) 5
  have hlt := ((h 0 _ (create_zero 0)).inRange s hs).2.write _ _ _ _ hat
  rw [hbuffer] at hlt
  exact absurd hlt (Nat.not_lt_zero _)

end OnnxInference.SPSCQueue
