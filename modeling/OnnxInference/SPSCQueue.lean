import OnnxInference.RingIndex
import OnnxInference.Transition

/-!
# The queue of one producer and one consumer (`include/queue/SPSCQueue.h`)

The two parties step through their calls one access at a time: a load or a store of an index, or an access to a slot.  A
slot holds the element with a counter modulo the size of the ring; the counters, the lists of the elements pushed and
popped, do not exist in the program.  The queue is a bounded FIFO (`queue_linearizable`).
-/

namespace OnnxInference.SPSCQueue

open Transition

/-! ### The model -/

structure Queue (α : Type) where
  buffer : List α
  capacity : UInt64
  head : UInt64
  tail : UInt64
  deriving DecidableEq

/-- What `std::vector::max_size` is at most. -/
def maxSize : UInt64 := 2 ^ 63 - 1

/-- `while (new_capacity < capacity) new_capacity <<= 1`. -/
def roundUp (capacity : UInt64) : Nat → UInt64 → UInt64
  | 0, newCapacity => newCapacity
  | fuel + 1, newCapacity =>
    if newCapacity < capacity then roundUp capacity fuel (newCapacity <<< 1) else newCapacity

variable {α : Type}

/-- The constructor, unless a vector of this size throws `std::length_error`. -/
def create (default : α) (capacity : UInt64) : Option (Queue α) :=
  if maxSize < capacity then none
  else if capacity &&& (capacity - 1) ≠ 0 then
    let newCapacity := roundUp capacity 64 1
    if maxSize < newCapacity then none
    else some ⟨List.replicate newCapacity.toNat default, newCapacity, 0, 0⟩
  else some ⟨List.replicate capacity.toNat default, capacity, 0, 0⟩

/-- `capacity()`. -/
def Queue.usable (q : Queue α) : UInt64 := q.capacity - 1

inductive Party
  | producer
  | consumer
  deriving DecidableEq

inductive Ret (α : Type)
  | push (ok : Bool)
  | pop (item : Option α)
  | empty (b : Bool)
  | size (n : UInt64)
  deriving DecidableEq

/-- Where a party stands: before the access that is named, with what the call has read so far. -/
inductive At (α : Type)
  | idle
  | pushTail (item : α)
  | pushHead (item : α) (tail : UInt64)
  | pushWrite (item : α) (tail nextTail : UInt64)
  | pushStore (item : α) (nextTail : UInt64)
  | popHead
  | popTail (head : UInt64)
  | popRead (head : UInt64)
  | popStore (head : UInt64) (item : α)
  | emptyHead
  | emptyTail (head : UInt64)
  | sizeHead
  | sizeTail (head : UInt64)
  | returned (r : Ret α)
  deriving DecidableEq

/-- The party is in a call. -/
def At.busy : At α → Bool
  | .idle | .returned _ => false
  | _ => true

/-- The party whose call stands there, where only one can. -/
def At.party : At α → Option Party
  | .pushTail _ | .pushHead _ _ | .pushWrite _ _ _ | .pushStore _ _ => some .producer
  | .popHead | .popTail _ | .popRead _ | .popStore _ _ => some .consumer
  | _ => none

/-- A call of the party begins. -/
def At.entry : Party → At α → Bool
  | .producer, .pushTail _ => true
  | .consumer, .popHead => true
  | _, .emptyHead => true
  | _, .sizeHead => true
  | _, _ => false

/-- The queue and the two parties, with the elements pushed and popped so far, and with the numbers of elements that
were in the queue in the states of the call that a party is in or was in last. -/
structure State (α : Type) where
  q : Queue α
  at_ : Party → At α
  pushed : List α
  popped : List α
  moments : Party → List Nat

def State.count (s : State α) : Nat := s.pushed.length - s.popped.length

/-- The calls in progress see the number of elements. -/
def State.record (s : State α) : State α :=
  { s with moments := fun p => if (s.at_ p).busy then s.moments p ++ [s.count] else s.moments p }

def State.goto (s : State α) (p : Party) (l : At α) : State α := { s with at_ := Function.update s.at_ p l }

inductive Label (α : Type)
  | call (p : Party) (l : At α)
  | advance (p : Party)

/-- A call begins. -/
def call (s : State α) (p : Party) (l : At α) : Option (State α) :=
  if !(s.at_ p).busy && l.entry p then some { s.goto p l with moments := Function.update s.moments p [] } else none

/-- A party makes its next access. -/
def advance (default : α) (s : State α) (p : Party) : Option (State α) :=
  match s.at_ p with
  | .pushTail item => some (s.goto p (.pushHead item s.q.tail))
  | .pushHead item tail =>
    let nextTail := (tail + 1) &&& (s.q.capacity - 1)
    some (s.goto p (if nextTail = s.q.head then .returned (.push false) else .pushWrite item tail nextTail))
  | .pushWrite item tail nextTail =>
    some { s.goto p (.pushStore item nextTail) with q := { s.q with buffer := s.q.buffer.set tail.toNat item } }
  | .pushStore item nextTail =>
    some { s.goto p (.returned (.push true)) with q := { s.q with tail := nextTail }, pushed := s.pushed ++ [item] }
  | .popHead => some (s.goto p (.popTail s.q.head))
  | .popTail head => some (s.goto p (if head = s.q.tail then .returned (.pop none) else .popRead head))
  | .popRead head => some (s.goto p (.popStore head (s.q.buffer.getD head.toNat default)))
  | .popStore head item =>
    some { s.goto p (.returned (.pop (some item))) with
      q := { s.q with head := (head + 1) &&& (s.q.capacity - 1) }, popped := s.popped ++ [item] }
  -- the order of the two loads of `empty` is the compiler's choice, here that of `size`
  | .emptyHead => some (s.goto p (.emptyTail s.q.head))
  | .emptyTail head => some (s.goto p (.returned (.empty (head == s.q.tail))))
  | .sizeHead => some (s.goto p (.sizeTail s.q.head))
  | .sizeTail head => some (s.goto p (.returned (.size ((s.q.tail - head) &&& (s.q.capacity - 1)))))
  | .idle | .returned _ => none

def step (default : α) (s : State α) : Label α → Option (State α)
  | .call p l => (call s p l).map State.record
  | .advance p => (advance default s p).map State.record

/-- A queue and its two parties. -/
def system (default : α) (q : Queue α) : System (State α) (Label α) where
  init := ⟨q, fun _ => .idle, [], [], fun _ => []⟩
  step := step default

/-! ### The ring -/

/-- The slots hold the elements that are pushed and not yet popped. -/
structure Ring (k : Nat) (q : Queue α) (pushed popped : List α) : Prop where
  size : q.capacity.toNat = 2 ^ k
  length : q.buffer.length = 2 ^ k
  tail : RingIndex.Is (2 ^ k) q.tail pushed.length
  head : RingIndex.Is (2 ^ k) q.head popped.length
  room : pushed.length < popped.length + 2 ^ k
  fifo : popped <+: pushed
  slots : ∀ j, popped.length ≤ j → j < pushed.length → q.buffer[j % 2 ^ k]? = pushed[j]?

section Create

variable {capacity : UInt64}

theorem maxSize_le : maxSize.toNat ≤ 2 ^ 63 := by decide +kernel

/-- The loop ends with a power of two that is no less than the capacity. -/
theorem roundUp_spec (hcap : capacity.toNat ≤ 2 ^ 63) (fuel i : Nat) {newCapacity : UInt64}
    (hnew : newCapacity.toNat = 2 ^ i) (hi : i ≤ 63) (hfuel : 63 ≤ i + fuel) :
    capacity ≤ roundUp capacity fuel newCapacity ∧ ∃ j, (roundUp capacity fuel newCapacity).toNat = 2 ^ j := by
  induction fuel generalizing i newCapacity with
  | zero =>
    obtain rfl : i = 63 := by omega
    refine ⟨?_, 63, hnew⟩
    rw [UInt64.le_iff_toNat_le, roundUp, hnew]
    exact hcap
  | succ fuel ih =>
    rw [roundUp]
    split
    · rename_i hlt
      rw [UInt64.lt_iff_toNat_lt, hnew] at hlt
      have hi' : i < 63 := by
        by_contra hge
        obtain rfl : i = 63 := by omega
        omega
      have hshift : (newCapacity <<< 1).toNat = 2 ^ (i + 1) := by
        have hbound : 2 ^ (i + 1) < 2 ^ 64 := Nat.pow_lt_pow_right (by decide) (by omega)
        rw [RingIndex.toNat_shiftLeft_one, hnew, ← Nat.pow_succ', Nat.mod_eq_of_lt hbound]
      exact ih (i + 1) hshift (by omega) (by omega)
    · rename_i hge
      exact ⟨UInt64.not_lt.1 hge, i, hnew⟩

/-- A new queue is empty, and its size is a power of two that is no less than what was requested. -/
theorem create_spec {default : α} {q : Queue α} (hpos : 1 ≤ capacity) (h : create default capacity = some q) :
    capacity ≤ q.capacity ∧ ∃ k, Ring k q [] [] := by
  have hring : ∀ {size : UInt64} {k : Nat}, size.toNat = 2 ^ k →
      Ring k ⟨List.replicate size.toNat default, size, 0, 0⟩ [] [] := by
    intro size k hsize
    have hzero : RingIndex.Is (2 ^ k) 0 0 := by rw [RingIndex.Is, Nat.zero_mod]; rfl
    refine ⟨hsize, by rw [List.length_replicate, hsize], hzero, hzero, ?_, List.prefix_refl _, fun _ _ hj => by
      simp at hj⟩
    rw [List.length_nil, Nat.zero_add]
    exact Nat.two_pow_pos k
  unfold create at h
  split at h
  · cases h
  · rename_i hle
    split at h
    · have hcap : capacity.toNat ≤ 2 ^ 63 := by
        rw [UInt64.not_lt, UInt64.le_iff_toNat_le] at hle
        exact hle.trans maxSize_le
      obtain ⟨hround, j, hj⟩ := roundUp_spec hcap 64 0 UInt64.toNat_one (by decide) (by decide)
      simp only at h
      split at h
      · cases h
      · cases h
        exact ⟨hround, j, hring hj⟩
    · rename_i hpow
      cases h
      obtain rfl | ⟨k, hk⟩ := (RingIndex.and_pred_eq_zero_iff capacity).1 (not_not.1 hpow)
      · exact absurd hpos (by decide)
      · exact ⟨UInt64.le_refl _, k, hring hk⟩

end Create

namespace Ring

variable {k : Nat} {q : Queue α} {pushed popped : List α}

theorem le (h : Ring k q pushed popped) : popped.length ≤ pushed.length := h.fifo.length_le

/-- The slot of the next element is none of those that hold one. -/
theorem tail_ne (h : Ring k q pushed popped) {j : Nat} (hj : popped.length ≤ j) (hlt : j < pushed.length) :
    q.tail.toNat ≠ j % 2 ^ k := by
  intro heq
  have hroom := h.room
  have := RingIndex.eq_of_mod_eq (m := j) (n := pushed.length) hlt.le (by omega) (h.tail.symm.trans heq)
  omega

/-- The producer writes the next element. -/
theorem write (h : Ring k q pushed popped) (item : α) :
    Ring k { q with buffer := q.buffer.set q.tail.toNat item } pushed popped ∧
      (q.buffer.set q.tail.toNat item)[pushed.length % 2 ^ k]? = some item := by
  have hlt : q.tail.toNat < q.buffer.length := h.length ▸ h.tail.lt
  refine ⟨⟨h.size, by rw [List.length_set, h.length], h.tail, h.head, h.room, h.fifo, fun j hj hj' => ?_⟩, ?_⟩
  · rw [List.getElem?_set_ne (h.tail_ne hj hj')]
    exact h.slots j hj hj'
  · rw [← h.tail, List.getElem?_set_self hlt]

/-- The producer publishes it. -/
theorem store (h : Ring k q pushed popped) {item : α} (hroom : pushed.length + 1 < popped.length + 2 ^ k)
    (hslot : q.buffer[pushed.length % 2 ^ k]? = some item) :
    Ring k { q with tail := RingIndex.mask q.capacity (q.tail + 1) } (pushed ++ [item]) popped := by
  have hlen : (pushed ++ [item]).length = pushed.length + 1 := by simp
  refine ⟨h.size, h.length, ?_, h.head, hlen ▸ hroom, h.fifo.trans (List.prefix_append _ _), fun j hj hj' => ?_⟩
  · rw [hlen]
    exact h.tail.succ h.size
  · rcases Nat.lt_or_ge j pushed.length with hlt | hge
    · rw [List.getElem?_append_left hlt]
      exact h.slots j hj hlt
    · obtain rfl : j = pushed.length := by omega
      rw [List.getElem?_concat_length]
      exact hslot

/-- The consumer takes an element. -/
theorem take (h : Ring k q pushed popped) {item : α} (hitem : pushed[popped.length]? = some item) :
    Ring k { q with head := RingIndex.mask q.capacity (q.head + 1) } pushed (popped ++ [item]) := by
  obtain ⟨hlt, hget⟩ := List.getElem?_eq_some_iff.1 hitem
  have hlen : (popped ++ [item]).length = popped.length + 1 := by simp
  have hroom := h.room
  refine ⟨h.size, h.length, h.tail, ?_, by omega, ?_, fun j hj hj' => h.slots j (by omega) hj'⟩
  · rw [hlen]
    exact h.head.succ h.size
  · obtain ⟨rest, hrest⟩ := h.fifo
    cases rest with
    | nil =>
      rw [List.append_nil] at hrest
      rw [hrest] at hlt
      omega
    | cons x rest =>
      have hx : x = item := by
        subst hrest
        simpa using hitem
      exact ⟨rest, by rw [← hrest, hx, List.append_assoc, List.singleton_append]⟩

/-- The check of the producer: the next index meets the head if and only if all slots but one are in use. -/
theorem full_iff (h : Ring k q pushed popped) :
    RingIndex.mask q.capacity (q.tail + 1) = q.head ↔ pushed.length + 1 = popped.length + 2 ^ k :=
  h.tail.succ_eq_iff h.size h.head h.le h.room

/-- The check of the consumer. -/
theorem empty_iff (h : Ring k q pushed popped) : q.head = q.tail ↔ pushed.length = popped.length :=
  h.tail.eq_iff h.head h.le h.room

theorem toNat_size (h : Ring k q pushed popped) :
    (RingIndex.mask q.capacity (q.tail - q.head)).toNat = pushed.length - popped.length :=
  h.tail.sub h.size h.head h.le h.room

theorem toNat_usable (h : Ring k q pushed popped) : q.usable.toNat = 2 ^ k - 1 := by
  have hpos := Nat.two_pow_pos k
  have hlt := q.capacity.toNat_lt
  have hsize := h.size
  rw [Queue.usable, UInt64.toNat_sub, UInt64.toNat_one, hsize]
  omega

/-- The element that the consumer finds at the head. -/
theorem getD_head (h : Ring k q pushed popped) (hlt : popped.length < pushed.length) (default : α) :
    pushed[popped.length]? = some (q.buffer.getD q.head.toNat default) := by
  have hslot := h.slots popped.length le_rfl hlt
  rw [List.getElem?_eq_getElem hlt] at hslot ⊢
  rw [h.head, List.getD_eq_getElem?_getD, hslot, Option.getD_some]

end Ring

/-! ### The invariant -/

/-- What an answer says about the numbers of elements that were in the queue during the call. -/
def Ret.Seen (moments : List Nat) : Ret α → Prop
  | .size v => v.toNat ∈ moments
  | .empty b => ∃ c ∈ moments, b = (c == 0)
  | _ => True

/-- What a party knows where it stands.  Of the index that the other party writes it knows what it was. -/
def Knows (k : Nat) (q : Queue α) (pushed popped : List α) (moments : List Nat) : Party → At α → Prop
  | .producer, .pushHead _ tail => tail = q.tail
  | .producer, .pushWrite _ tail nextTail =>
    tail = q.tail ∧ nextTail = RingIndex.mask q.capacity (q.tail + 1) ∧ pushed.length + 1 < popped.length + 2 ^ k
  | .producer, .pushStore item nextTail =>
    nextTail = RingIndex.mask q.capacity (q.tail + 1) ∧ pushed.length + 1 < popped.length + 2 ^ k ∧
      q.buffer[pushed.length % 2 ^ k]? = some item
  | .consumer, .popTail head => head = q.head
  | .consumer, .popRead head => head = q.head ∧ popped.length < pushed.length
  | .consumer, .popStore head item => head = q.head ∧ pushed[popped.length]? = some item
  | .producer, .emptyTail head => ∃ c ∈ moments, (head == q.tail) = (c == 0)
  | .consumer, .emptyTail head => head = q.head
  | .producer, .sizeTail head => (RingIndex.mask q.capacity (q.tail - head)).toNat ∈ moments
  | .consumer, .sizeTail head => head = q.head
  | .producer, .popHead | .producer, .popTail _ | .producer, .popRead _ | .producer, .popStore _ _ => False
  | .consumer, .pushTail _ | .consumer, .pushHead _ _ | .consumer, .pushWrite _ _ _ | .consumer,
    .pushStore _ _ => False
  | _, .returned r => r.Seen moments
  | _, .idle | .producer, .pushTail _ | .consumer, .popHead | _, .emptyHead | _, .sizeHead => True

structure Inv (k : Nat) (s : State α) : Prop where
  ring : Ring k s.q s.pushed s.popped
  knows : ∀ p, Knows k s.q s.pushed s.popped (s.moments p) p (s.at_ p)
  now : ∀ p, (s.at_ p).busy = true → s.count ∈ s.moments p

section Knows

variable {k : Nat} {q : Queue α} {pushed popped : List α} {moments moments' : List Nat} {p : Party} {l : At α}

theorem Ret.Seen.mono (hsub : moments ⊆ moments') {r : Ret α} (h : r.Seen moments) : r.Seen moments' := by
  cases r with
  | push _ | pop _ => trivial
  | empty b =>
    obtain ⟨c, hc, hb⟩ := h
    exact ⟨c, hsub hc, hb⟩
  | size v => exact hsub h

theorem Knows.mono (hsub : moments ⊆ moments') (h : Knows k q pushed popped moments p l) :
    Knows k q pushed popped moments' p l := by
  cases l with
  | returned r => cases p <;> exact Ret.Seen.mono hsub h
  | emptyTail head =>
    cases p with
    | producer =>
      obtain ⟨c, hc, hb⟩ := h
      exact ⟨c, hsub hc, hb⟩
    | consumer => exact h
  | sizeTail head =>
    cases p with
    | producer => exact hsub h
    | consumer => exact h
  | _ => cases p <;> exact h

/-- What the producer writes into a slot is nothing to the consumer. -/
theorem Knows.consumer_write (h : Knows k q pushed popped moments .consumer l) (buffer : List α) :
    Knows k { q with buffer := buffer } pushed popped moments .consumer l := by
  cases l <;> exact h

/-- What the producer publishes leaves what the consumer has found. -/
theorem Knows.consumer_store (h : Knows k q pushed popped moments .consumer l) (tail : UInt64) (item : α) :
    Knows k { q with tail := tail } (pushed ++ [item]) popped moments .consumer l := by
  cases l with
  | popRead head => exact ⟨h.1, by rw [List.length_append]; exact Nat.lt_add_right _ h.2⟩
  | popStore head x =>
    refine ⟨h.1, ?_⟩
    rw [List.getElem?_append_left (List.getElem?_eq_some_iff.1 h.2).1]
    exact h.2
  | _ => exact h

/-- What the consumer takes leaves the producer the room that it has found. -/
theorem Knows.producer_take (h : Knows k q pushed popped moments .producer l) (head : UInt64) (item : α) :
    Knows k { q with head := head } pushed (popped ++ [item]) moments .producer l := by
  have hlen : (popped ++ [item]).length = popped.length + 1 := by simp
  cases l with
  | pushWrite x tail nextTail => exact ⟨h.1, h.2.1, by rw [hlen]; have := h.2.2; omega⟩
  | pushStore x nextTail => exact ⟨h.1, by rw [hlen]; have := h.2.1; omega, h.2.2⟩
  | _ => exact h

theorem Knows.party_eq (h : Knows k q pushed popped moments p l) {p' : Party} (hl : l.party = some p') : p = p' := by
  cases l <;> cases hl <;> cases p <;> first | rfl | exact h.elim

/-- At the start of a call nothing is known. -/
theorem Knows.entry (h : l.entry p = true) : Knows k q pushed popped moments p l := by
  cases p <;> cases l <;> trivial

end Knows

section Steps

variable {k : Nat} {default : α} {s s' : State α} {p : Party}

theorem Ring.count_beq (h : Ring k s.q s.pushed s.popped) : (s.q.head == s.q.tail) = (s.count == 0) := by
  have hle := h.le
  rw [Bool.eq_iff_iff, beq_iff_eq, beq_iff_eq, h.empty_iff, State.count]
  omega

/-- What an access does: the party only reads, or the producer writes a slot, or publishes it, or the consumer takes. -/
theorem Inv.advance_cases (hi : Inv k s) (h : advance default s p = some s') :
    (∃ l, s' = s.goto p l ∧ Knows k s.q s.pushed s.popped (s.moments p) p l) ∨
    (∃ item nextTail, p = .producer ∧ nextTail = RingIndex.mask s.q.capacity (s.q.tail + 1) ∧
      s.pushed.length + 1 < s.popped.length + 2 ^ k ∧ s' = { s.goto p (.pushStore item nextTail) with
        q := { s.q with buffer := s.q.buffer.set s.q.tail.toNat item } }) ∨
    (∃ item, p = .producer ∧ s.pushed.length + 1 < s.popped.length + 2 ^ k ∧
      s.q.buffer[s.pushed.length % 2 ^ k]? = some item ∧ s' = { s.goto p (.returned (.push true)) with
        q := { s.q with tail := RingIndex.mask s.q.capacity (s.q.tail + 1) }, pushed := s.pushed ++ [item] }) ∨
    (∃ item, p = .consumer ∧ s.pushed[s.popped.length]? = some item ∧
      s' = { s.goto p (.returned (.pop (some item))) with
        q := { s.q with head := RingIndex.mask s.q.capacity (s.q.head + 1) }, popped := s.popped ++ [item] }) := by
  have hk := hi.knows p
  have hnow := hi.now p
  have hring := hi.ring
  unfold advance at h
  cases hat : s.at_ p with
  | idle | returned _ =>
    rw [hat] at h
    cases h
  | pushTail item =>
    rw [hat] at h hk
    obtain rfl := hk.party_eq rfl
    exact .inl ⟨_, (Option.some.inj h).symm, rfl⟩
  | pushHead item tail =>
    rw [hat] at h hk
    obtain rfl := hk.party_eq rfl
    obtain rfl : tail = s.q.tail := hk
    refine .inl ⟨_, (Option.some.inj h).symm, ?_⟩
    split
    · trivial
    · rename_i hne
      have hroom := hring.room
      have hfull := mt hring.full_iff.2 hne
      exact ⟨rfl, rfl, by omega⟩
  | pushWrite item tail nextTail =>
    rw [hat] at h hk
    obtain rfl := hk.party_eq rfl
    obtain ⟨rfl, hnext, hroom⟩ := hk
    exact .inr (.inl ⟨item, nextTail, rfl, hnext, hroom, (Option.some.inj h).symm⟩)
  | pushStore item nextTail =>
    rw [hat] at h hk
    obtain rfl := hk.party_eq rfl
    obtain ⟨rfl, hroom, hslot⟩ := hk
    exact .inr (.inr (.inl ⟨item, rfl, hroom, hslot, (Option.some.inj h).symm⟩))
  | popHead =>
    rw [hat] at h hk
    obtain rfl := hk.party_eq rfl
    exact .inl ⟨_, (Option.some.inj h).symm, rfl⟩
  | popTail head =>
    rw [hat] at h hk
    obtain rfl := hk.party_eq rfl
    obtain rfl : head = s.q.head := hk
    refine .inl ⟨_, (Option.some.inj h).symm, ?_⟩
    split
    · trivial
    · rename_i hne
      have hle := hring.le
      have hempty := mt hring.empty_iff.2 hne
      exact ⟨rfl, by omega⟩
  | popRead head =>
    rw [hat] at h hk
    obtain rfl := hk.party_eq rfl
    obtain ⟨rfl, hlt⟩ := hk
    exact .inl ⟨_, (Option.some.inj h).symm, rfl, hring.getD_head hlt default⟩
  | popStore head item =>
    rw [hat] at h hk
    obtain rfl := hk.party_eq rfl
    obtain ⟨rfl, hitem⟩ := hk
    exact .inr (.inr (.inr ⟨item, rfl, hitem, (Option.some.inj h).symm⟩))
  | emptyHead =>
    rw [hat] at h hnow
    refine .inl ⟨_, (Option.some.inj h).symm, ?_⟩
    cases p with
    | producer => exact ⟨s.count, hnow rfl, hring.count_beq⟩
    | consumer => rfl
  | emptyTail head =>
    rw [hat] at h hk hnow
    refine .inl ⟨_, (Option.some.inj h).symm, ?_⟩
    cases p with
    | producer => exact hk
    | consumer =>
      obtain rfl : head = s.q.head := hk
      exact ⟨s.count, hnow rfl, hring.count_beq⟩
  | sizeHead =>
    rw [hat] at h hnow
    refine .inl ⟨_, (Option.some.inj h).symm, ?_⟩
    cases p with
    | producer =>
      change _ ∈ s.moments .producer
      rw [hring.toNat_size]
      exact hnow rfl
    | consumer => rfl
  | sizeTail head =>
    rw [hat] at h hk hnow
    refine .inl ⟨_, (Option.some.inj h).symm, ?_⟩
    cases p with
    | producer => exact hk
    | consumer =>
      obtain rfl : head = s.q.head := hk
      change (RingIndex.mask s.q.capacity (s.q.tail - s.q.head)).toNat ∈ s.moments .consumer
      rw [hring.toNat_size]
      exact hnow rfl

@[simp] theorem State.goto_self (l : At α) : (s.goto p l).at_ p = l := Function.update_self _ _ _

@[simp] theorem State.goto_of_ne {p' : Party} (h : p' ≠ p) (l : At α) : (s.goto p l).at_ p' = s.at_ p' :=
  Function.update_of_ne h _ _

theorem State.record_moments (s : State α) (p : Party) :
    s.record.moments p = if (s.at_ p).busy then s.moments p ++ [s.count] else s.moments p := rfl

/-- The calls in progress see the state that a step leads to. -/
theorem Inv.record (ring : Ring k s.q s.pushed s.popped)
    (knows : ∀ p, Knows k s.q s.pushed s.popped (s.moments p) p (s.at_ p)) : Inv k s.record := by
  refine ⟨ring, fun p => (knows p).mono ?_, fun p hp => ?_⟩
  · intro c hc
    rw [State.record_moments]
    split
    · exact List.mem_append_left _ hc
    · exact hc
  · have hbusy : (s.at_ p).busy = true := hp
    rw [State.record_moments, if_pos hbusy]
    exact List.mem_append_right _ (List.mem_singleton_self _)

theorem Inv.of_call {l : At α} (hi : Inv k s) (h : call s p l = some s') : Inv k s'.record := by
  unfold call at h
  split at h
  · rename_i hentry
    cases h
    refine .record hi.ring fun p' => ?_
    by_cases hp : p' = p
    · subst hp
      simp only [State.goto_self, Function.update_self]
      exact .entry (Bool.and_eq_true_iff.1 hentry).2
    · simp only [State.goto_of_ne hp, Function.update_of_ne hp]
      exact hi.knows p'
  · cases h

theorem Inv.of_advance (hi : Inv k s) (h : advance default s p = some s') : Inv k s'.record := by
  have hring := hi.ring
  obtain ⟨l, rfl, hl⟩ | ⟨item, next, rfl, hnext, hroom, rfl⟩ | ⟨item, rfl, hroom, hslot, rfl⟩ |
    ⟨item, rfl, hitem, rfl⟩ := hi.advance_cases h
  · refine .record hring fun p' => ?_
    by_cases hp : p' = p
    · subst hp
      rw [State.goto_self]
      exact hl
    · rw [State.goto_of_ne hp]
      exact hi.knows p'
  · obtain ⟨hring', hslot⟩ := hring.write item
    refine .record hring' fun p' => ?_
    cases p' with
    | producer => exact ⟨hnext, hroom, hslot⟩
    | consumer => exact (hi.knows .consumer).consumer_write _
  · refine .record (hring.store hroom hslot) fun p' => ?_
    cases p' with
    | producer => trivial
    | consumer => exact (hi.knows .consumer).consumer_store _ item
  · refine .record (hring.take hitem) fun p' => ?_
    cases p' with
    | producer => exact (hi.knows .producer).producer_take _ item
    | consumer => trivial

theorem Inv.of_step {l : Label α} (hi : Inv k s) (h : step default s l = some s') : Inv k s' := by
  cases l with
  | call p l =>
    obtain ⟨s₁, hcall, rfl⟩ := Option.map_eq_some_iff.1 h
    exact hi.of_call hcall
  | advance p =>
    obtain ⟨s₁, hadv, rfl⟩ := Option.map_eq_some_iff.1 h
    exact hi.of_advance hadv

theorem inv_of_reachable {q : Queue α} (hq : Ring k q [] []) (h : (system default q).Reachable s) : Inv k s := by
  have hinit : Inv k (system default q).init := ⟨hq, fun p => by cases p <;> trivial, fun _ hp => by cases hp⟩
  exact h.invariant hinit fun hi _ hs => hi.of_step hs

/-- A push fails at its load of the head, and only if the queue is full then. -/
theorem Inv.push_false (hi : Inv k s) (h : advance default s p = some s')
    (hret : s'.at_ p = .returned (.push false)) :
    (∃ item tail, s.at_ p = .pushHead item tail) ∧ s.count = s.q.usable.toNat := by
  have hk := hi.knows p
  unfold advance at h
  cases hat : s.at_ p with
  | pushHead item tail =>
    refine ⟨⟨item, tail, rfl⟩, ?_⟩
    rw [hat] at h hk
    obtain rfl := hk.party_eq rfl
    obtain rfl : tail = s.q.tail := hk
    cases h
    rw [State.goto_self] at hret
    split at hret
    · rename_i hfull
      have hfull := hi.ring.full_iff.1 hfull
      rw [hi.ring.toNat_usable, State.count]
      omega
    · cases hret
  | popTail head =>
    rw [hat] at h
    cases h
    rw [State.goto_self] at hret
    split at hret <;> cases hret
  | _ =>
    rw [hat] at h
    cases h <;> simp at hret

/-- A pop fails at its load of the tail, and only if the queue is empty then. -/
theorem Inv.pop_none (hi : Inv k s) (h : advance default s p = some s') (hret : s'.at_ p = .returned (.pop none)) :
    (∃ head, s.at_ p = .popTail head) ∧ s.count = 0 := by
  have hk := hi.knows p
  unfold advance at h
  cases hat : s.at_ p with
  | popTail head =>
    refine ⟨⟨head, rfl⟩, ?_⟩
    rw [hat] at h hk
    obtain rfl := hk.party_eq rfl
    obtain rfl : head = s.q.head := hk
    cases h
    rw [State.goto_self] at hret
    split at hret
    · rename_i hempty
      have hempty := hi.ring.empty_iff.1 hempty
      rw [State.count]
      omega
    · cases hret
  | pushHead item tail =>
    rw [hat] at h
    cases h
    rw [State.goto_self] at hret
    split at hret <;> cases hret
  | _ =>
    rw [hat] at h
    cases h <;> simp at hret

end Steps

/-! ### The result -/

/-- What a state of the queue promises.  The elements popped are the first of those that were pushed, in their order;
the others are in their slots, and a slot that the producer is about to write holds none of them, nor is it the one
that the consumer is about to read. -/
structure FIFO (s : State α) : Prop where
  fifo : s.popped <+: s.pushed
  bounded : s.count ≤ s.q.usable.toNat
  kept : ∀ j, s.popped.length ≤ j → j < s.pushed.length → s.q.buffer[j % s.q.capacity.toNat]? = s.pushed[j]?
  unread : ∀ item tail nextTail, s.at_ .producer = .pushWrite item tail nextTail →
    (∀ j, s.popped.length ≤ j → j < s.pushed.length → tail.toNat ≠ j % s.q.capacity.toNat) ∧
      ∀ head, s.at_ .consumer = .popRead head → tail ≠ head

theorem Inv.fifo {k : Nat} {s : State α} (hi : Inv k s) : FIFO s := by
  have hring := hi.ring
  have hroom := hring.room
  refine ⟨hring.fifo, ?_, ?_, fun item tail nextTail hat => ?_⟩
  · rw [hring.toNat_usable, State.count]
    omega
  · rw [hring.size]
    exact hring.slots
  · have hk := hi.knows .producer
    rw [hat] at hk
    obtain ⟨rfl, -, -⟩ := hk
    rw [hring.size]
    refine ⟨fun j => hring.tail_ne, fun head hhead => ?_⟩
    have hk' := hi.knows .consumer
    rw [hhead] at hk'
    obtain ⟨rfl, hlt⟩ := hk'
    intro heq
    have hne := hring.tail_ne le_rfl hlt
    rw [heq, ← hring.head] at hne
    exact hne rfl

/-- What a step does to the two lists: a pop that succeeds appends the very element that it returns, a push that
succeeds the one of its call, and no other step changes them. -/
def Logged (s s' : State α) : Label α → Prop
  | .call _ _ => s'.pushed = s.pushed ∧ s'.popped = s.popped
  | .advance p =>
    match s'.at_ p with
    | .returned (.pop (some item)) => s'.pushed = s.pushed ∧ s'.popped = s.popped ++ [item]
    | .returned (.push true) => ∃ item, (∃ nextTail, s.at_ p = .pushStore item nextTail) ∧
        s'.pushed = s.pushed ++ [item] ∧ s'.popped = s.popped
    | _ => s'.pushed = s.pushed ∧ s'.popped = s.popped

theorem logged_of_advance {default : α} {s s' : State α} {p : Party} (h : advance default s p = some s') :
    Logged s s'.record (.advance p) := by
  unfold advance at h
  cases hat : s.at_ p with
  | pushHead item tail =>
    rw [hat] at h
    cases h
    by_cases hfull : (tail + 1) &&& (s.q.capacity - 1) = s.q.head <;> simp [Logged, State.record, State.goto, hfull]
  | popTail head =>
    rw [hat] at h
    cases h
    by_cases hempty : head = s.q.tail <;> simp [Logged, State.record, State.goto, hempty]
  | _ =>
    rw [hat] at h
    cases h <;> simp [Logged, State.record, State.goto, hat]

theorem logged_of_step {default : α} {s s' : State α} {l : Label α} (h : step default s l = some s') :
    Logged s s' l := by
  cases l with
  | call p l =>
    obtain ⟨s₁, hcall, rfl⟩ := Option.map_eq_some_iff.1 h
    unfold call at hcall
    split at hcall <;> cases hcall
    exact ⟨rfl, rfl⟩
  | advance p =>
    obtain ⟨s₁, hadv, rfl⟩ := Option.map_eq_some_iff.1 h
    exact logged_of_advance hadv

/-- The queue is a bounded FIFO, whatever capacity was requested and however the accesses of the two parties
interleave. -/
theorem queue_linearizable {default : α} {capacity : UInt64} {q : Queue α} {s : State α} (hpos : 1 ≤ capacity)
    (hq : create default capacity = some q) (hs : (system default q).Reachable s) :
    FIFO s ∧
    (∀ l s', (system default q).step s l = some s' → Logged s s' l) ∧
    (∀ p s', (system default q).step s (.advance p) = some s' →
      (s'.at_ p = .returned (.push false) →
        (∃ item tail, s.at_ p = .pushHead item tail) ∧ s.count = s.q.usable.toNat) ∧
      (s'.at_ p = .returned (.pop none) → (∃ head, s.at_ p = .popTail head) ∧ s.count = 0)) ∧
    ∀ p v, s.at_ p = .returned (.size v) → v.toNat ∈ s.moments p := by
  obtain ⟨k, hring⟩ := (create_spec hpos hq).2
  have hi := inv_of_reachable hring hs
  refine ⟨hi.fifo, fun l s' h => logged_of_step h, fun p s' h => ?_, fun p v hat => ?_⟩
  · obtain ⟨s₁, hadv, rfl⟩ := Option.map_eq_some_iff.1 h
    exact ⟨fun hret => hi.push_false hadv hret, fun hret => hi.pop_none hadv hret⟩
  · have hk := hi.knows p
    rw [hat] at hk
    cases p <;> exact hk

/-- Three elements are pushed.  The consumer reads the first one, and the producer starts to push a fourth. -/
def fill : List (Label Nat) :=
  [5, 6, 7].flatMap (fun item => .call .producer (.pushTail item) :: List.replicate 4 (.advance .producer)) ++
    .call .consumer .popHead :: List.replicate 3 (.advance .consumer) ++
    [.call .producer (.pushTail 8), .advance .producer]

/-- The capacity 3 is rounded up to a ring of 4 slots that holds 3 elements, so the fourth push fails while the
consumer has not yet moved the head. -/
theorem queue_linearizable_fill : ∃ q s s', create 0 3 = some q ∧ (system 0 q).Reachable s ∧
    (system 0 q).step s (.advance .producer) = some s' ∧ s'.at_ .producer = .returned (.push false) ∧
    FIFO s ∧ s.count = s.q.usable.toNat := by
  have hq : create 0 3 = some (⟨[0, 0, 0, 0], 4, 0, 0⟩ : Queue Nat) := by decide +kernel
  obtain ⟨s, hs, hp⟩ := System.exists_reachable_of_run (system 0 ⟨[0, 0, 0, 0], 4, 0, 0⟩) fill (fun s =>
    (step 0 s (.advance .producer)).any fun s' => s'.at_ .producer == .returned (.push false)) (by decide +kernel)
  obtain ⟨s', hs', hret⟩ := (Option.any_eq_true _ _).1 hp
  have hret := beq_iff_eq.1 hret
  obtain ⟨hfifo, -, hdecided, -⟩ := queue_linearizable (by decide) hq hs
  exact ⟨_, s, s', hq, hs, hs', hret, hfifo, ((hdecided .producer s' hs').1 hret).2⟩

end OnnxInference.SPSCQueue
