import OnnxInference.Blocks
import OnnxInference.BufferPool
import OnnxInference.Monitor

/-!
# The pool of device buffers under misuse (`include/device/InferTensorBufferPool.h`)

The calls of `Acquire`, `Release` and `close` are the threads of a monitor, and a pointer that is released is any
number.  The addresses of the elements are computed modulo `2^64`.  `held` are the pointers that were handed out and
have not been released; the program does not have it.  `Release` checks that a pointer is the address of an element,
but not that this element is not free: an element is never at two places exactly while no free one is released
(`pool_safe_iff`).  Until it is closed it refines the pool of numbers that the runners are modelled with
(`refines_numbers`).
-/

namespace OnnxInference.ElementPool

open Blocks Concurrency Transition

/-! ### The model -/

/-- The arguments of the constructor, and the pointer that `cudaMalloc` has returned. -/
structure Params where
  data : Nat
  eleSize : Nat
  eleBytesSize : Nat

/-- A pool; `data` is null when `close` has freed the memory. -/
structure Pool where
  data : Nat
  buffer : List Nat
  isClosed : Bool
  held : List Nat

/-- Where a call stands. -/
inductive Local
  | acquire
  /-- `Acquire` has returned a pointer, null when the pool was closed -/
  | acquired (p : Nat)
  | release (p : Nat)
  | releaseNotify
  /-- `Release` has returned or has thrown -/
  | released (threw : Bool)
  | close
  | closeNotify
  | closeFree
  | closed
  deriving DecidableEq

namespace Params

variable (P : Params)

def totalBytes : Nat := P.eleSize * P.eleBytesSize % 2 ^ 64

/-- The address of an element. -/
def address (i : Nat) : Nat := wrapped (2 ^ 64) P.data P.eleBytesSize i

def owns (b : Pool) (p : Nat) : Bool :=
  if p < b.data || (b.data + P.totalBytes) % 2 ^ 64 ≤ p then false else (p - b.data) % P.eleBytesSize == 0

def create : Pool := ⟨P.data, (List.range P.eleSize).map P.address, false, []⟩

/-- The next step of a call. -/
def act (b : Pool) : Local → Option (Act Pool Unit Local)
  | .acquire =>
    if !b.buffer.isEmpty || b.isClosed then
      if b.isClosed then some (.goto b (.acquired 0))
      else
        match b.buffer with
        | [] => none
        | p :: rest => some (.goto { b with buffer := rest, held := b.held ++ [p] } (.acquired p))
    else some (.sleep b () .acquire)
  | .release p =>
    if p = 0 then some (.goto b (.released false))
    else if b.isClosed then some (.goto b (.released false))
    else if !P.owns b p then some (.goto b (.released true))
    else some (.goto { b with buffer := b.buffer ++ [p], held := b.held.erase p } .releaseNotify)
  | .releaseNotify => some (.notifyOne b () (.released false))
  | .close =>
    if b.isClosed then some (.goto b .closed) else some (.goto { b with isClosed := true } .closeNotify)
  | .closeNotify => some (.notifyAll b () .closeFree)
  | .closeFree => some (.goto { b with data := 0 } .closed)
  | .acquired _ | .released _ | .closed => none

/-- A call begins. -/
def entry : Local → Bool
  | .acquire | .release _ | .close => true
  | _ => false

def monitor : Monitor Unit Pool Unit Local := ⟨entry, fun _ => P.act⟩

def system : System (Monitor.State Pool Unit Local) (Monitor.Label Unit Local) := P.monitor.system P.create []

end Params

/-- What a state of the pool promises. -/
structure Safe (P : Params) (s : Monitor.State Pool Unit Local) : Prop where
  free_nodup : s.shared.buffer.Nodup
  held_nodup : s.shared.held.Nodup
  apart : ∀ p ∈ s.shared.buffer, p ∉ s.shared.held
  element : ∀ p, p ∈ s.shared.buffer ∨ p ∈ s.shared.held → ∃ i < P.eleSize, p = P.address i
  available : s.shared.buffer.length ≤ P.eleSize
  rejected : ∀ p a, P.act s.shared (.release p) = some a → a.next = .released true → a.shared = s.shared
  null : s.shared.isClosed = true → ∀ a, P.act s.shared .acquire = some a → a.wait = none ∧ a.next = .acquired 0

/-- No call of `Release` puts a pointer into the queue that is in there. -/
def NoneReleasedTwice (P : Params) (s : Monitor.State Pool Unit Local) (lb : Monitor.Label Unit Local) : Prop :=
  ∀ k c sleeper p, lb = .act k c sleeper → s.locs[k]? = some (.release p) → p ≠ 0 → s.shared.isClosed = false →
    P.owns s.shared p = true → p ∉ s.shared.buffer

/-! ### What a call does -/

/-- The steps of the calls on a pool. -/
inductive Moves (P : Params) (b : Pool) : Local → Act Pool Unit Local → Prop
  | take {p rest} (hopen : b.isClosed = false) (hbuffer : b.buffer = p :: rest) :
    Moves P b .acquire (.goto { b with buffer := rest, held := b.held ++ [p] } (.acquired p))
  | null (hclosed : b.isClosed = true) : Moves P b .acquire (.goto b (.acquired 0))
  | wait (hopen : b.isClosed = false) (hbuffer : b.buffer = []) : Moves P b .acquire (.sleep b () .acquire)
  | ignore (p) (h : p = 0 ∨ b.isClosed = true) : Moves P b (.release p) (.goto b (.released false))
  | reject (p) (hopen : b.isClosed = false) (howns : P.owns b p = false) :
    Moves P b (.release p) (.goto b (.released true))
  | put (p) (hne : p ≠ 0) (hopen : b.isClosed = false) (howns : P.owns b p = true) : Moves P b (.release p)
      (.goto { b with buffer := b.buffer ++ [p], held := b.held.erase p } .releaseNotify)
  | releaseNotify : Moves P b .releaseNotify (.notifyOne b () (.released false))
  | again (hclosed : b.isClosed = true) : Moves P b .close (.goto b .closed)
  | close : Moves P b .close (.goto { b with isClosed := true } .closeNotify)
  | closeNotify : Moves P b .closeNotify (.notifyAll b () .closeFree)
  | closeFree : Moves P b .closeFree (.goto { b with data := 0 } .closed)

section Moves

variable {P : Params} {b : Pool} {l : Local} {a : Act Pool Unit Local} {s : Monitor.State Pool Unit Local}

theorem moves_of_act (h : P.act b l = some a) : Moves P b l a := by
  cases l with
  | acquire =>
    simp only [Params.act] at h
    split at h
    · split at h
      · rename_i hclosed
        cases h
        exact .null hclosed
      · rename_i hopen
        split at h
        · cases h
        · rename_i hbuffer
          cases h
          exact .take (Bool.eq_false_iff.2 hopen) hbuffer
    · rename_i hpred
      cases h
      obtain ⟨hbuffer, hopen⟩ := eq_nil_and_open hpred
      exact .wait hopen hbuffer
  | release p =>
    simp only [Params.act] at h
    split at h
    · rename_i hzero
      cases h
      exact .ignore p (.inl hzero)
    · rename_i hne
      split at h
      · rename_i hclosed
        cases h
        exact .ignore p (.inr hclosed)
      · rename_i hopen
        split at h
        · rename_i howns
          cases h
          exact .reject p (Bool.eq_false_iff.2 hopen) (by simpa using howns)
        · rename_i howns
          cases h
          exact .put p hne (Bool.eq_false_iff.2 hopen) (by simpa using howns)
  | close =>
    simp only [Params.act] at h
    split at h
    · rename_i hclosed
      cases h
      exact .again hclosed
    · cases h
      exact .close
  | releaseNotify =>
    cases h
    exact .releaseNotify
  | closeNotify =>
    cases h
    exact .closeNotify
  | closeFree =>
    cases h
    exact .closeFree
  | acquired _ | released _ | closed => cases h

/-- A thread that is about to free the memory has closed the pool. -/
def Closes (b : Pool) (l : Local) : Prop := l = .closeNotify ∨ l = .closeFree → b.isClosed = true

theorem Moves.isClosed (hm : Moves P b l a) (h : b.isClosed = true) : a.shared.isClosed = true := by
  cases hm with
  | close => rfl
  | take | null | wait | ignore | reject | put | releaseNotify | again | closeNotify | closeFree => exact h

/-- The memory of an open pool is not freed. -/
theorem data_of_reachable (h : P.system.Reachable s) :
    (s.shared.isClosed = false → s.shared.data = P.data) ∧ ∀ l ∈ s.locs, Closes s.shared l := by
  refine Monitor.invariant (K := fun b : Pool => b.isClosed = false → b.data = P.data) (fun _ => rfl)
    (fun l hl => by cases hl) (fun _ hl => ?_) (fun {_ b l a} hK hJ ha => ?_) h
  · rintro (rfl | rfl) <;> cases hl
  · have hm := moves_of_act ha
    refine ⟨fun hopen => ?_, ?_, fun l' hl' hclose => hm.isClosed (hl' hclose)⟩
    · cases hm with
      | close => cases hopen
      | closeFree => exact absurd (hJ (.inr rfl)) (Bool.eq_false_iff.1 hopen)
      | take | null | wait | ignore | reject | put | releaseNotify | again | closeNotify => exact hK hopen
    · cases hm with
      | close => exact fun _ => rfl
      | closeNotify => exact fun _ => hJ (.inl rfl)
      | take | null | wait | ignore | reject | put | releaseNotify | again | closeFree => rintro (⟨⟨⟩⟩ | ⟨⟨⟩⟩)

end Moves

/-! ### Elements -/

section Elements

variable {P : Params} {s : Monitor.State Pool Unit Local}

theorem address_injOn_iff : (∀ i < P.eleSize, ∀ j < P.eleSize, P.address i = P.address j → i = j) ↔
    P.eleSize * Nat.gcd (2 ^ 64) P.eleBytesSize ≤ 2 ^ 64 :=
  wrapped_injOn_iff (by decide)

/-- A pointer that passes the check is the address of an element. -/
theorem exists_of_owns {b : Pool} {p : Nat} (hdata : b.data = P.data) (h : P.owns b p = true) :
    ∃ i < P.eleSize, p = P.address i := by
  unfold Params.owns at h
  split at h
  · cases h
  · rename_i hrange
    rw [Bool.or_eq_true, decide_eq_true_eq, decide_eq_true_eq, not_or, Nat.not_lt, Nat.not_le, hdata] at hrange
    obtain ⟨hle, hlt⟩ := hrange
    rw [beq_iff_eq, hdata] at h
    obtain ⟨i, hi⟩ := Nat.dvd_of_mod_eq_zero h
    have hp : p = P.data + i * P.eleBytesSize := by rw [Nat.mul_comm, ← hi]; omega
    have hend : (P.data + P.totalBytes) % 2 ^ 64 ≤ P.data + P.totalBytes := Nat.mod_le _ _
    have htotal : P.totalBytes ≤ P.eleSize * P.eleBytesSize := Nat.mod_le _ _
    have hwrap : (P.data + P.totalBytes) % 2 ^ 64 < 2 ^ 64 := Nat.mod_lt _ (by decide)
    refine ⟨i, ?_, ?_⟩
    · have : i * P.eleBytesSize < P.eleSize * P.eleBytesSize := by omega
      exact Nat.lt_of_mul_lt_mul_right this
    · rw [Params.address, wrapped, Nat.mod_eq_of_lt (by omega)]
      exact hp

/-- All elements are free or held. -/
def Conserved (P : Params) (b : Pool) : Prop :=
  (b.buffer : Multiset Nat) + b.held = (Multiset.range P.eleSize).map P.address

/-- Every pointer of a conserved pool is the address of an element. -/
theorem Conserved.mem_iff {b : Pool} (h : Conserved P b) {p : Nat} :
    p ∈ b.buffer ∨ p ∈ b.held ↔ ∃ i < P.eleSize, p = P.address i := by
  rw [← Multiset.mem_coe, ← Multiset.mem_coe (l := b.held), ← Multiset.mem_add, h, Multiset.mem_map]
  constructor
  · rintro ⟨i, hi, rfl⟩
    exact ⟨i, Multiset.mem_range.1 hi, rfl⟩
  · rintro ⟨i, hi, rfl⟩
    exact ⟨i, Multiset.mem_range.2 hi, rfl⟩

theorem Conserved.move {b : Pool} {l : Local} {a : Act Pool Unit Local} (h : Conserved P b) (hm : Moves P b l a)
    (hdata : b.isClosed = false → b.data = P.data)
    (hfree : ∀ p, l = .release p → p ≠ 0 → b.isClosed = false → P.owns b p = true → p ∉ b.buffer) :
    Conserved P a.shared := by
  cases hm with
  | @take p rest hopen hbuffer =>
    rw [Conserved, hbuffer, ← Multiset.cons_coe, ← Multiset.singleton_add] at h
    show (rest : Multiset Nat) + ((b.held ++ [p] : List Nat) : Multiset Nat) = _
    rw [← h, ← Multiset.coe_add, Multiset.coe_singleton]
    abel
  | put p hne hopen howns =>
    -- an element that is not free is held
    have hmem : p ∈ b.buffer ∨ p ∈ b.held := h.mem_iff.2 (exists_of_owns (hdata hopen) howns)
    have hheld : p ∈ b.held := hmem.resolve_left (hfree p rfl hne hopen howns)
    show ((b.buffer ++ [p] : List Nat) : Multiset Nat) + ((b.held.erase p : List Nat) : Multiset Nat) = _
    rw [← h, ← Multiset.coe_add, ← Multiset.coe_erase, Multiset.coe_singleton, add_assoc, Multiset.singleton_add,
      Multiset.cons_erase (Multiset.mem_coe.2 hheld)]
  | null | wait | ignore | reject | releaseNotify | again | close | closeNotify | closeFree => exact h

theorem conserved_of_reachBy (h : P.system.ReachBy (NoneReleasedTwice P) s) : Conserved P s.shared := by
  refine Monitor.invariant_of_reachBy ?_ (fun {s k c sleeper l a} hreach hfree hl hK ha => ?_) h
  · show ((((List.range P.eleSize).map P.address : List Nat) : Multiset Nat) + ([] : List Nat)) = _
    rw [Multiset.coe_nil, add_zero, ← Multiset.map_coe, Multiset.coe_range]
  · exact hK.move (moves_of_act ha) (data_of_reachable hreach.reachable).1 fun p hp => hfree k c sleeper p rfl (hp ▸ hl)

end Elements

/-! ### The pool by numbers -/

section Numbers

variable {P : Params} {b : Pool} {pool : InferTensorBufferPool}

/-- The memory lies below the end of the address space. -/
structure Params.Allocated (P : Params) : Prop where
  data_pos : 0 < P.data
  bytes_pos : 0 < P.eleBytesSize
  end_lt : P.data + P.eleSize * P.eleBytesSize < 2 ^ 64

/-- An open pool is one of numbers, with the addresses of its elements. -/
structure Numbered (P : Params) (b : Pool) (pool : InferTensorBufferPool) : Prop where
  isOpen : b.isClosed = false
  data_eq : b.data = P.data
  capacity_eq : pool.capacity = P.eleSize
  buffer_eq : b.buffer = pool.buffer.map P.address

theorem numbered_create (P : Params) : Numbered P P.create (.create P.eleSize) := ⟨rfl, rfl, rfl, rfl⟩

theorem Params.Allocated.address_eq (h : P.Allocated) {i : Nat} (hi : i < P.eleSize) :
    P.address i = P.data + i * P.eleBytesSize := by
  have hle := Nat.mul_le_mul_right P.eleBytesSize hi.le
  have hend := h.end_lt
  exact Nat.mod_eq_of_lt (by omega)

theorem Params.Allocated.owns_address (h : P.Allocated) (hdata : b.data = P.data) {i : Nat} (hi : i < P.eleSize) :
    P.owns b (P.address i) = true := by
  have hend := h.end_lt
  have hlt := Nat.mul_lt_mul_of_pos_right hi h.bytes_pos
  have htotal : P.totalBytes = P.eleSize * P.eleBytesSize := Nat.mod_eq_of_lt (by omega)
  rw [Params.owns, hdata, h.address_eq hi, htotal, Nat.mod_eq_of_lt hend, if_neg]
  · simp
  · rw [Bool.or_eq_true, decide_eq_true_eq, decide_eq_true_eq]
    omega

/-- `Acquire` is that of the pool of numbers. -/
theorem Numbered.acquire (h : Numbered P b pool) :
    (pool.acquire = none → P.act b .acquire = some (.sleep b () .acquire)) ∧
    ∀ i pool', pool.acquire = some (i, pool') → ∃ b', P.act b .acquire = some (.goto b' (.acquired (P.address i))) ∧
      Numbered P b' pool' := by
  obtain ⟨hopen, hdata, hcap, hbuffer⟩ := h
  constructor
  · intro hnone
    have hnil : pool.buffer = [] := by
      by_contra hne
      obtain ⟨x, hx⟩ := InferTensorBufferPool.acquire_of_ne_nil hne
      cases hnone.symm.trans hx
    rw [hnil] at hbuffer
    simp [Params.act, hopen, hbuffer]
  · intro i pool' hsome
    obtain ⟨hpool, hcap'⟩ := InferTensorBufferPool.acquire_some hsome
    rw [hpool] at hbuffer
    refine ⟨{ b with buffer := pool'.buffer.map P.address, held := b.held ++ [P.address i] }, ?_,
      hopen, hdata, hcap'.trans hcap, rfl⟩
    simp [Params.act, hopen, hbuffer]

/-- `Release` of an element is that of the pool of numbers. -/
theorem Numbered.release (h : Numbered P b pool) (halloc : P.Allocated) {i : Nat} {pool' : InferTensorBufferPool}
    (hrel : pool.release i = .ok pool') :
    ∃ b', P.act b (.release (P.address i)) = some (.goto b' .releaseNotify) ∧ Numbered P b' pool' := by
  obtain ⟨hopen, hdata, hcap, hbuffer⟩ := h
  unfold InferTensorBufferPool.release at hrel
  split at hrel
  · rename_i howns
    cases hrel
    have hi : i < P.eleSize := by simpa [InferTensorBufferPool.owns, hcap] using howns
    have hpos := halloc.data_pos
    have hne : P.address i ≠ 0 := by
      rw [halloc.address_eq hi]
      omega
    refine ⟨{ b with buffer := b.buffer ++ [P.address i], held := b.held.erase (P.address i) }, ?_, hopen, hdata, hcap,
      ?_⟩
    · simp [Params.act, hopen, hne, halloc.owns_address hdata hi]
    · show b.buffer ++ [P.address i] = (pool.buffer ++ [i]).map P.address
      rw [hbuffer, List.map_append, List.map_singleton]
  · cases hrel

/-- `Release` throws for a pointer that is not the address of an element. -/
theorem Numbered.reject (h : Numbered P b pool) {p : Nat} (hne : p ≠ 0) (hp : ∀ i < P.eleSize, p ≠ P.address i) :
    P.act b (.release p) = some (.goto b (.released true)) := by
  have howns : P.owns b p = false := by
    by_contra htrue
    obtain ⟨i, hi, heq⟩ := exists_of_owns h.data_eq (Bool.not_eq_false _ ▸ htrue)
    exact hp i hi heq
  simp [Params.act, h.isOpen, hne, howns]

/-- The pools that `Acquire` and `Release` make of a new one. -/
inductive Obtained (n : Nat) : InferTensorBufferPool → Prop
  | create : Obtained n (.create n)
  | acquire {pool pool' : InferTensorBufferPool} {i : Ptr} (h : Obtained n pool) (hi : pool.acquire = some (i, pool')) :
    Obtained n pool'
  | release {pool pool' : InferTensorBufferPool} {i : Ptr} (h : Obtained n pool) (hi : pool.release i = .ok pool') :
    Obtained n pool'

/-- A step on an open pool is a call on its pool of numbers, or changes nothing. -/
theorem Numbered.move (h : Numbered P b pool) (ho : Obtained P.eleSize pool) {l : Local} {a : Act Pool Unit Local}
    (hm : Moves P b l a) (hopen : a.shared.isClosed = false) (hcloses : Closes b l) :
    ∃ pool', Obtained P.eleSize pool' ∧ Numbered P a.shared pool' := by
  obtain ⟨hb, hdata, hcap, hbuffer⟩ := h
  cases hm with
  | @take p rest _ hfront =>
    rw [hfront, eq_comm, List.map_eq_cons_iff] at hbuffer
    obtain ⟨i, numbers, hnumbers, -, hrest⟩ := hbuffer
    have hacquire : pool.acquire = some (i, { pool with buffer := numbers }) := by
      rw [InferTensorBufferPool.acquire, hnumbers]
    exact ⟨_, ho.acquire hacquire, hb, hdata, hcap, hrest.symm⟩
  | put p hne _ howns =>
    obtain ⟨i, hi, rfl⟩ := exists_of_owns hdata howns
    refine ⟨_, ho.release (InferTensorBufferPool.release_of_lt (hcap.symm ▸ hi)), hb, hdata, hcap, ?_⟩
    show b.buffer ++ [P.address i] = (pool.buffer ++ [i]).map P.address
    rw [hbuffer, List.map_append, List.map_singleton]
  | close => cases hopen
  | closeFree => exact absurd (hcloses (.inr rfl)) (Bool.eq_false_iff.1 hb)
  | null | wait | ignore | reject | releaseNotify | again | closeNotify => exact ⟨pool, ho, hb, hdata, hcap, hbuffer⟩

theorem numbered_of_reachable {s : Monitor.State Pool Unit Local} (hs : P.system.Reachable s) :
    s.shared.isClosed = false → ∃ pool, Obtained P.eleSize pool ∧ Numbered P s.shared pool := by
  refine (Monitor.invariant_of_reachable
    (K := fun b : Pool => b.isClosed = false → ∃ pool, Obtained P.eleSize pool ∧ Numbered P b pool)
    (J := fun _ _ => True) (fun _ => ⟨_, .create, numbered_create P⟩) (fun _ _ => trivial) (fun _ _ => trivial)
    (fun {s k l c a} hreach hl hK _ ha => ⟨fun hopen' => ?_, trivial, fun _ _ _ _ _ => trivial⟩) hs).1
  have hm := moves_of_act ha
  have hcloses := (data_of_reachable hreach).2 l (List.mem_of_getElem? hl)
  have hopen : s.shared.isClosed = false := by
    by_contra hclosed
    exact absurd (hm.isClosed (by simpa using hclosed)) (Bool.eq_false_iff.1 hopen')
  obtain ⟨pool, ho, hn⟩ := hK hopen
  exact hn.move ho hm hopen' hcloses

/-- The calls do to the pool what they do to the pool of numbers. -/
structure Refines (P : Params) (b : Pool) (pool : InferTensorBufferPool) : Prop where
  numbered : Numbered P b pool
  waits : pool.acquire = none → P.act b .acquire = some (.sleep b () .acquire)
  acquires : ∀ i pool', pool.acquire = some (i, pool') → ∃ b',
    P.act b .acquire = some (.goto b' (.acquired (P.address i))) ∧ Numbered P b' pool'
  releases : ∀ i pool', pool.release i = .ok pool' → ∃ b',
    P.act b (.release (P.address i)) = some (.goto b' .releaseNotify) ∧ Numbered P b' pool'
  rejects : ∀ p ≠ 0, (∀ i < P.eleSize, p ≠ P.address i) → P.act b (.release p) = some (.goto b (.released true))

/-- In every run, whatever is released, a pool that has not been closed is one of numbers, made by calls on it. -/
theorem refines_numbers (P : Params) (h : P.Allocated) (s : Monitor.State Pool Unit Local) (hs : P.system.Reachable s)
    (hopen : s.shared.isClosed = false) : ∃ pool, Obtained P.eleSize pool ∧ Refines P s.shared pool := by
  obtain ⟨pool, ho, hn⟩ := numbered_of_reachable hs hopen
  exact ⟨pool, ho, hn, hn.acquire.1, hn.acquire.2, fun i pool' => hn.release h, fun p hne hp => hn.reject hne hp⟩

/-- Three elements of 16 bytes. -/
def threeElements : Params := ⟨4096, 3, 16⟩

/-- After the first of them has been acquired. -/
theorem refines_numbers_three : ∃ s, threeElements.system.Reachable s ∧ s.shared.held = [4096] ∧
    ∃ pool, Obtained threeElements.eleSize pool ∧ Refines threeElements s.shared pool := by
  obtain ⟨s, hs, hp⟩ := System.exists_reachable_of_run threeElements.system
    [.start .acquire, .act 0 () none] (fun s => s.shared.held == [4096] && !s.shared.isClosed) (by decide +kernel)
  simp only [Bool.and_eq_true, beq_iff_eq, Bool.not_eq_true'] at hp
  exact ⟨s, hs, hp.1, refines_numbers threeElements ⟨by decide, by decide, by decide⟩ s hs hp.2⟩

end Numbers

/-! ### The result -/

section Result

variable {P : Params} {s : Monitor.State Pool Unit Local}

theorem Conserved.safe (h : Conserved P s.shared)
    (hinj : ∀ i < P.eleSize, ∀ j < P.eleSize, P.address i = P.address j → i = j) : Safe P s := by
  have hnodup : ((s.shared.buffer : Multiset Nat) + s.shared.held).Nodup := by
    rw [h]
    exact (Multiset.nodup_range _).map_on fun i hi j hj =>
      hinj i (Multiset.mem_range.1 hi) j (Multiset.mem_range.1 hj)
  obtain ⟨hbuffer, hheld, hdisj⟩ := Multiset.nodup_add.1 hnodup
  have hcard := congrArg Multiset.card h
  rw [Multiset.card_add, Multiset.coe_card, Multiset.card_map, Multiset.card_range] at hcard
  refine ⟨Multiset.coe_nodup.1 hbuffer, Multiset.coe_nodup.1 hheld, fun p hp hp' => ?_, fun p => h.mem_iff.1, by omega,
    fun p a ha hthrew => ?_, fun hclosed a ha => ?_⟩
  · exact Multiset.disjoint_left.1 hdisj (Multiset.mem_coe.2 hp) (Multiset.mem_coe.2 hp')
  · cases moves_of_act ha with
    | reject => rfl
    | ignore => rfl
    | put => cases hthrew
  · cases moves_of_act ha with
    | null => exact ⟨rfl, rfl⟩
    | take hopen | wait hopen => cases hclosed.symm.trans hopen

/-- A call of `Release` that puts a free pointer into the queue has it in there twice. -/
theorem not_safe_of_twice {s' : Monitor.State Pool Unit Local} {k : Nat} {c : Unit} {sleeper : Option Nat} {p : Nat}
    (hk : s.locs[k]? = some (.release p)) (hne : p ≠ 0) (hopen : s.shared.isClosed = false)
    (howns : P.owns s.shared p = true) (hfree : p ∈ s.shared.buffer)
    (hs : P.monitor.step s (.act k c sleeper) = some s') : ¬Safe P s' := by
  intro hsafe
  obtain ⟨l, a, hl, ha, hshared⟩ := Monitor.act_of_step hs
  obtain rfl : .release p = l := Option.some.inj (hk.symm.trans hl)
  have hact : P.act s.shared (.release p) = some a := ha
  have hnodup := hsafe.free_nodup
  rw [hshared] at hnodup
  cases moves_of_act hact with
  | ignore _ h =>
    rcases h with hzero | hclosed
    · exact hne hzero
    · cases hclosed.symm.trans hopen
  | reject _ _ hno => cases howns.symm.trans hno
  | put => exact List.disjoint_of_nodup_append hnodup hfree (List.mem_singleton_self p)

/-- No element is ever at two places, in all runs in which no free pointer is released, exactly when the addresses of
the elements are distinct; and a call that releases a free pointer breaks this. -/
theorem pool_safe_iff (P : Params) :
    ((∀ s, P.system.ReachBy (NoneReleasedTwice P) s → Safe P s) ↔
      P.eleSize * Nat.gcd (2 ^ 64) P.eleBytesSize ≤ 2 ^ 64) ∧
    ∀ s k c sleeper s', ¬NoneReleasedTwice P s (.act k c sleeper) → P.system.step s (.act k c sleeper) = some s' →
      ¬Safe P s' := by
  refine ⟨⟨fun h => ?_, fun hle s hs => ?_⟩, fun s k c sleeper s' htwice hs => ?_⟩
  · have hnodup : ((List.range P.eleSize).map P.address).Nodup := (h _ .init).free_nodup
    refine address_injOn_iff.1 fun i hi j hj heq => ?_
    exact List.inj_on_of_nodup_map hnodup (List.mem_range.2 hi) (List.mem_range.2 hj) heq
  · exact (conserved_of_reachBy hs).safe (address_injOn_iff.2 hle)
  · unfold NoneReleasedTwice at htwice
    push Not at htwice
    obtain ⟨_, _, _, p, ⟨⟩, hk, hne, hopen, howns, hfree⟩ := htwice
    exact not_safe_of_twice hk hne hopen howns hfree hs

end Result

/-- A pool of one element of four bytes. -/
def onePool : Params := ⟨4096, 1, 4⟩

/-- The element of this pool is acquired and released. -/
theorem pool_safe_iff_one : ∃ s, onePool.system.ReachBy (NoneReleasedTwice onePool) s ∧
    s.locs = [.acquired 4096, .releaseNotify] ∧ Safe onePool s := by
  have hstart : ∀ s l, NoneReleasedTwice onePool s (.start l) := by
    intro s l k c sleeper p hlb
    cases hlb
  have hacquire : onePool.system.ReachBy (NoneReleasedTwice onePool) ⟨onePool.create, [.awake .acquire]⟩ :=
    .step .init (hstart _ .acquire) rfl
  have hacquired : onePool.system.ReachBy (NoneReleasedTwice onePool)
      ⟨⟨4096, [], false, [4096]⟩, [.awake (.acquired 4096)]⟩ := by
    refine .step hacquire (l := .act 0 () none) ?_ rfl
    intro k c sleeper p hlb hk
    cases hlb
    cases hk
  have hrelease : onePool.system.ReachBy (NoneReleasedTwice onePool)
      ⟨⟨4096, [], false, [4096]⟩, [.awake (.acquired 4096), .awake (.release 4096)]⟩ :=
    .step hacquired (hstart _ (.release 4096)) rfl
  have hreleased : onePool.system.ReachBy (NoneReleasedTwice onePool)
      ⟨⟨4096, [4096], false, []⟩, [.awake (.acquired 4096), .awake .releaseNotify]⟩ := by
    refine .step hrelease (l := .act 1 () none) ?_ rfl
    intro k c sleeper p _ _ _ _ _ hfree
    cases hfree
  exact ⟨_, hreleased, rfl, (pool_safe_iff onePool).1.2 (by decide) _ hreleased⟩

/-- The element is acquired once and released twice; then two calls of `Acquire` get it. -/
theorem released_twice : ¬∀ P : Params, 1 ≤ P.eleSize → 1 ≤ P.eleBytesSize → ∀ s, P.system.Reachable s → Safe P s := by
  intro h
  obtain ⟨s, hs, hheld⟩ := System.exists_reachable_of_run onePool.system
    [.start .acquire, .act 0 () none, .start (.release 4096), .act 1 () none, .start (.release 4096), .act 2 () none,
      .start .acquire, .act 3 () none, .start .acquire, .act 4 () none]
    (fun s => s.shared.held == [4096, 4096]) (by decide +kernel)
  have hnodup := (h onePool (by decide) (by decide) s hs).held_nodup
  rw [beq_iff_eq.1 hheld] at hnodup
  exact absurd hnodup (by decide)

end OnnxInference.ElementPool
