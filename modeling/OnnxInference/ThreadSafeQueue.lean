import OnnxInference.Monitor

/-!
# The blocking queue (`include/thread/ThreadSafeQueue.h`)

The calls of `Push`, `Pop`, `TryPop` and `Close` are the threads of a monitor: any number of them is under way at any
time. `pushed` and `popped` are the values of the successful calls in the order of their critical sections; the
program does not have them.  The queue is a bounded FIFO that can be closed and loses no wake-up (`queue_sound`,
`calls_decide`).
-/

namespace OnnxInference.ThreadSafeQueue

open Concurrency Transition

/-! ### The model -/

inductive Condition
  | notFull
  | notEmpty
  deriving DecidableEq

structure Queue (α : Type) where
  queue : List α
  capacity : Nat
  isClose : Bool
  pushed : List α
  popped : List α

/-- What a call returns; `none` is the `false` of `Pop` and `TryPop`. -/
inductive Ret (α : Type)
  | push (value : α) (ok : Bool)
  | pop (value : Option α)
  | tryPop (value : Option α)
  | close
  deriving DecidableEq

/-- Where a call stands.  The two overloads of `Push` have one body. -/
inductive Local (α : Type)
  | push (value : α)
  | pushWait (value : α)
  | pushNotify (value : α)
  | pop
  | popWait
  | popNotify (value : α)
  | tryPop
  | tryPopNotify (value : α)
  | close
  | closeNotEmpty
  | closeNotFull
  | returned (r : Ret α)
  deriving DecidableEq

def kUnbounded : Nat := 0

variable {α : Type}

def create (capacity : Nat) : Queue α := ⟨[], capacity, false, [], []⟩

/-- The end of the critical section of `Push`. -/
def add (q : Queue α) (value : α) : Act (Queue α) Condition (Local α) :=
  if q.isClose then .goto q (.returned (.push value false))
  else .goto { q with queue := q.queue ++ [value], pushed := q.pushed ++ [value] } (.pushNotify value)

/-- `not_full_.wait` with its predicate, and what follows. -/
def addWait (q : Queue α) (value : α) : Act (Queue α) Condition (Local α) :=
  if q.queue.length < q.capacity || q.isClose then add q value else .sleep q .notFull (.pushWait value)

/-- The end of the critical sections of `Pop` and `TryPop`: `front` of an empty queue is undefined. -/
def remove (q : Queue α) (next : α → Local α) : Option (Act (Queue α) Condition (Local α)) :=
  match q.queue with
  | [] => none
  | value :: rest => some (.goto { q with queue := rest, popped := q.popped ++ [value] } (next value))

/-- `not_empty_.wait` with its predicate, and what follows. -/
def removeWait (q : Queue α) : Option (Act (Queue α) Condition (Local α)) :=
  if !q.queue.isEmpty || q.isClose then
    if q.queue.isEmpty && q.isClose then some (.goto q (.returned (.pop none))) else remove q .popNotify
  else some (.sleep q .notEmpty .popWait)

def act (q : Queue α) : Local α → Option (Act (Queue α) Condition (Local α))
  | .push value =>
    some (if q.capacity ≠ kUnbounded ∧ q.queue.length = q.capacity then addWait q value else add q value)
  | .pushWait value => some (addWait q value)
  | .pushNotify value => some (.notifyOne q .notEmpty (.returned (.push value true)))
  | .pop => if q.queue.isEmpty then removeWait q else remove q .popNotify
  | .popWait => removeWait q
  | .popNotify value => some (.notifyOne q .notFull (.returned (.pop (some value))))
  | .tryPop => if q.queue.isEmpty then some (.goto q (.returned (.tryPop none))) else remove q .tryPopNotify
  | .tryPopNotify value => some (.notifyOne q .notFull (.returned (.tryPop (some value))))
  | .close => some (.goto { q with isClose := true } .closeNotEmpty)
  | .closeNotEmpty => some (.notifyAll q .notEmpty .closeNotFull)
  | .closeNotFull => some (.notifyAll q .notFull (.returned .close))
  | .returned _ => none

/-- A call begins. -/
def entry : Local α → Bool
  | .push _ | .pop | .tryPop | .close => true
  | _ => false

def monitor (α : Type) : Monitor Unit (Queue α) Condition (Local α) := ⟨entry, fun _ => act⟩

/-- A queue and the calls of its methods. -/
def system (α : Type) (capacity : Nat) :
    System (Monitor.State (Queue α) Condition (Local α)) (Monitor.Label Unit (Local α)) :=
  (monitor α).system (create capacity) []

/-- The call is about to notify one that sleeps. -/
def notifies : Condition → Local α → Bool
  | .notEmpty, .pushNotify _ => true
  | .notFull, .popNotify _ | .notFull, .tryPopNotify _ => true
  | _, _ => false

/-- The call is about to notify all that sleep, if only after the others. -/
def notifiesAll : Condition → Local α → Bool
  | _, .closeNotEmpty => true
  | .notFull, .closeNotFull => true
  | _, _ => false

/-- The call goes on from here when it has been woken. -/
def waits : Condition → Local α → Bool
  | .notEmpty, .popWait => true
  | .notFull, .pushWait _ => true
  | _, _ => false

/-! ### What a call does -/

/-- The steps of the calls on a queue. -/
inductive Moves (q : Queue α) : Local α → Act (Queue α) Condition (Local α) → Prop
  | refuse {l value} (hl : l = .push value ∨ l = .pushWait value) (hclose : q.isClose = true) :
    Moves q l (.goto q (.returned (.push value false)))
  | add {l value} (hl : l = .push value ∧ ¬(q.capacity ≠ kUnbounded ∧ q.queue.length = q.capacity) ∨
      (l = .push value ∨ l = .pushWait value) ∧ q.queue.length < q.capacity) (hopen : q.isClose = false) :
    Moves q l (.goto { q with queue := q.queue ++ [value], pushed := q.pushed ++ [value] } (.pushNotify value))
  | waitNotFull {l value} (hl : l = .push value ∧ q.capacity ≠ kUnbounded ∨ l = .pushWait value)
      (hfull : q.capacity ≤ q.queue.length) (hopen : q.isClose = false) :
    Moves q l (.sleep q .notFull (.pushWait value))
  | remove {l value rest next}
      (hl : (l = .pop ∨ l = .popWait) ∧ next = Local.popNotify value ∨ l = .tryPop ∧ next = Local.tryPopNotify value)
      (hqueue : q.queue = value :: rest) :
    Moves q l (.goto { q with queue := rest, popped := q.popped ++ [value] } next)
  | end_ {l} (hl : l = .pop ∨ l = .popWait) (hqueue : q.queue = []) (hclose : q.isClose = true) :
    Moves q l (.goto q (.returned (.pop none)))
  | waitNotEmpty {l} (hl : l = .pop ∨ l = .popWait) (hqueue : q.queue = []) (hopen : q.isClose = false) :
    Moves q l (.sleep q .notEmpty .popWait)
  | nothing (hqueue : q.queue = []) : Moves q .tryPop (.goto q (.returned (.tryPop none)))
  | pushNotify (value) : Moves q (.pushNotify value) (.notifyOne q .notEmpty (.returned (.push value true)))
  | popNotify (value) : Moves q (.popNotify value) (.notifyOne q .notFull (.returned (.pop (some value))))
  | tryPopNotify (value) : Moves q (.tryPopNotify value) (.notifyOne q .notFull (.returned (.tryPop (some value))))
  | close : Moves q .close (.goto { q with isClose := true } .closeNotEmpty)
  | closeNotEmpty : Moves q .closeNotEmpty (.notifyAll q .notEmpty .closeNotFull)
  | closeNotFull : Moves q .closeNotFull (.notifyAll q .notFull (.returned .close))

section Moves

variable {q : Queue α} {l : Local α} {a : Act (Queue α) Condition (Local α)}

theorem moves_add {value : α} (hl : l = .push value ∧ ¬(q.capacity ≠ kUnbounded ∧ q.queue.length = q.capacity) ∨
    (l = .push value ∨ l = .pushWait value) ∧ (q.queue.length < q.capacity ∨ q.isClose = true)) :
    Moves q l (add q value) := by
  rw [add]
  split
  · rename_i hclose
    exact .refuse (hl.elim (fun h => .inl h.1) fun h => h.1) hclose
  · rename_i hopen
    exact .add (hl.imp_right fun h => ⟨h.1, h.2.resolve_right hopen⟩) (Bool.eq_false_iff.2 hopen)

theorem moves_addWait {value : α} (hl : l = .push value ∧ q.capacity ≠ kUnbounded ∨ l = .pushWait value) :
    Moves q l (addWait q value) := by
  have hloop : l = .push value ∨ l = .pushWait value := hl.imp_left And.left
  rw [addWait]
  split
  · rename_i hpred
    rw [Bool.or_eq_true, decide_eq_true_eq] at hpred
    exact moves_add (.inr ⟨hloop, hpred⟩)
  · rename_i hpred
    rw [Bool.or_eq_true, decide_eq_true_eq, not_or, Nat.not_lt] at hpred
    exact .waitNotFull hl hpred.1 (Bool.eq_false_iff.2 hpred.2)

theorem moves_remove {next : α → Local α}
    (hl : (l = .pop ∨ l = .popWait) ∧ next = Local.popNotify ∨ l = .tryPop ∧ next = Local.tryPopNotify)
    (h : remove q next = some a) : Moves q l a := by
  unfold remove at h
  split at h
  · cases h
  · rename_i hqueue
    cases h
    refine .remove (hl.imp (fun h => ⟨h.1, ?_⟩) fun h => ⟨h.1, ?_⟩) hqueue <;> rw [h.2]

theorem moves_removeWait (hl : l = .pop ∨ l = .popWait) (h : removeWait q = some a) : Moves q l a := by
  unfold removeWait at h
  split at h
  · split at h
    · rename_i hend
      cases h
      rw [Bool.and_eq_true, List.isEmpty_iff] at hend
      exact .end_ hl hend.1 hend.2
    · exact moves_remove (.inl ⟨hl, rfl⟩) h
  · rename_i hpred
    cases h
    obtain ⟨hqueue, hopen⟩ := eq_nil_and_open hpred
    exact .waitNotEmpty hl hqueue hopen

theorem moves_of_act (h : act q l = some a) : Moves q l a := by
  cases l with
  | push value =>
    cases h
    split
    · rename_i hfull
      exact moves_addWait (.inl ⟨rfl, hfull.1⟩)
    · rename_i hroom
      exact moves_add (.inl ⟨rfl, hroom⟩)
  | pushWait value =>
    cases h
    exact moves_addWait (.inr rfl)
  | pop =>
    simp only [act] at h
    split at h
    · exact moves_removeWait (.inl rfl) h
    · exact moves_remove (.inl ⟨.inl rfl, rfl⟩) h
  | popWait => exact moves_removeWait (.inr rfl) h
  | tryPop =>
    simp only [act] at h
    split at h
    · rename_i hempty
      cases h
      exact .nothing (List.isEmpty_iff.1 hempty)
    · exact moves_remove (.inr ⟨rfl, rfl⟩) h
  | pushNotify value => cases h; exact .pushNotify value
  | popNotify value => cases h; exact .popNotify value
  | tryPopNotify value => cases h; exact .tryPopNotify value
  | close => cases h; exact .close
  | closeNotEmpty => cases h; exact .closeNotEmpty
  | closeNotFull => cases h; exact .closeNotFull
  | returned _ => cases h

end Moves

/-! ### The contents -/

section Contents

variable {capacity : Nat} {q : Queue α} {l : Local α} {a : Act (Queue α) Condition (Local α)}
  {s : Monitor.State (Queue α) Condition (Local α)}

/-- The values in the queue are those that were pushed and not yet popped. -/
structure Holds (capacity : Nat) (q : Queue α) : Prop where
  capacity_eq : q.capacity = capacity
  bounded : capacity ≠ kUnbounded → q.queue.length ≤ capacity
  fifo : q.pushed = q.popped ++ q.queue

theorem Holds.move (h : Holds capacity q) (hm : Moves q l a) : Holds capacity a.shared := by
  cases hm with
  | add hl hopen =>
    refine ⟨h.capacity_eq, fun hcap => ?_, ?_⟩
    · have hle := h.bounded hcap
      have heq := h.capacity_eq
      have hlt : q.queue.length < capacity := by
        rcases hl with ⟨-, hroom⟩ | ⟨-, hlt⟩
        · rw [heq] at hroom
          have hne := fun hfull => hroom ⟨hcap, hfull⟩
          omega
        · rwa [heq] at hlt
      show (q.queue ++ [_]).length ≤ capacity
      rw [List.length_append, List.length_singleton]
      exact hlt
    · show q.pushed ++ [_] = q.popped ++ (q.queue ++ [_])
      rw [h.fifo, List.append_assoc]
  | @remove _ value rest _ _ hqueue =>
    refine ⟨h.capacity_eq, fun hcap => ?_, ?_⟩
    · have hle := h.bounded hcap
      rw [hqueue, List.length_cons] at hle
      exact Nat.le_of_succ_le hle
    · show q.pushed = q.popped ++ [value] ++ rest
      rw [h.fifo, hqueue, List.append_assoc, List.singleton_append]
  | close => exact ⟨h.capacity_eq, h.bounded, h.fifo⟩
  | refuse | waitNotFull | end_ | waitNotEmpty | nothing | pushNotify | popNotify | tryPopNotify | closeNotEmpty |
    closeNotFull => exact h

/-- A call of `Push` waits only at a bounded queue. -/
def Bounded (q : Queue α) (l : Local α) : Prop := (∃ value, l = .pushWait value) → q.capacity ≠ kUnbounded

theorem Moves.capacity_eq (hm : Moves q l a) : a.shared.capacity = q.capacity := by
  cases hm <;> rfl

theorem Bounded.move (h : Bounded q l) (hm : Moves q l a) : Bounded a.shared a.next := by
  rintro ⟨value, hnext⟩
  rw [hm.capacity_eq]
  cases hm with
  | waitNotFull hl =>
    rcases hl with ⟨-, hcap⟩ | rfl
    · exact hcap
    · exact h ⟨_, rfl⟩
  | remove hl => rcases hl with ⟨-, rfl⟩ | ⟨-, rfl⟩ <;> cases hnext
  | refuse | add | end_ | waitNotEmpty | nothing | pushNotify | popNotify | tryPopNotify | close | closeNotEmpty |
    closeNotFull => cases hnext

theorem holds_of_reachable (h : (system α capacity).Reachable s) :
    Holds capacity s.shared ∧ ∀ l ∈ s.locs, Bounded s.shared l := by
  refine Monitor.invariant (K := Holds capacity) ⟨rfl, fun _ => Nat.zero_le _, rfl⟩ (fun l hl => by cases hl)
    (fun _ hl => ?_) (fun {_ q l a} hK hJ ha => ?_) h
  · rintro ⟨value, rfl⟩
    cases hl
  · have hm := moves_of_act ha
    refine ⟨hK.move hm, hJ.move hm, fun l' hl' hex => ?_⟩
    rw [hm.capacity_eq]
    exact hl' hex

/-- The value of a call of `Push` that returns or will return `true`. -/
def Local.pushed : Local α → Multiset α
  | .pushNotify value | .returned (.push value true) => {value}
  | _ => 0

/-- The value of a call of `Pop` or `TryPop` that returns or will return `true`. -/
def Local.popped : Local α → Multiset α
  | .popNotify value | .returned (.pop (some value)) | .tryPopNotify value | .returned (.tryPop (some value)) => {value}
  | _ => 0

theorem Moves.pushed (hm : Moves q l a) :
    (a.shared.pushed : Multiset α) + l.pushed = q.pushed + a.next.pushed := by
  cases hm with
  | @add _ value hl hopen =>
    have hzero : l.pushed = 0 := by rcases hl with ⟨rfl, -⟩ | ⟨rfl | rfl, -⟩ <;> rfl
    rw [hzero, add_zero]
    exact (Multiset.coe_add _ _).symm
  | refuse hl | end_ hl | waitNotEmpty hl => rcases hl with rfl | rfl <;> rfl
  | waitNotFull hl => rcases hl with ⟨rfl, -⟩ | rfl <;> rfl
  | remove hl => rcases hl with ⟨rfl | rfl, rfl⟩ | ⟨rfl, rfl⟩ <;> rfl
  | nothing | pushNotify | popNotify | tryPopNotify | close | closeNotEmpty | closeNotFull => rfl

theorem Moves.popped (hm : Moves q l a) :
    (a.shared.popped : Multiset α) + l.popped = q.popped + a.next.popped := by
  cases hm with
  | @remove _ value rest next hl hqueue =>
    have hzero : l.popped = 0 := by rcases hl with ⟨rfl | rfl, -⟩ | ⟨rfl, -⟩ <;> rfl
    have hnext : next.popped = {value} := by rcases hl with ⟨-, rfl⟩ | ⟨-, rfl⟩ <;> rfl
    show ((q.popped ++ [value] : List α) : Multiset α) + l.popped = q.popped + next.popped
    rw [hzero, hnext, add_zero]
    exact (Multiset.coe_add _ _).symm
  | refuse hl | end_ hl | waitNotEmpty hl => rcases hl with rfl | rfl <;> rfl
  | waitNotFull hl => rcases hl with ⟨rfl, -⟩ | rfl <;> rfl
  | add hl => rcases hl with ⟨rfl, -⟩ | ⟨rfl | rfl, -⟩ <;> rfl
  | nothing | pushNotify | popNotify | tryPopNotify | close | closeNotEmpty | closeNotFull => rfl

/-- A history of the values that some calls return is made of what these calls have returned. -/
theorem history_eq_sum {g : Queue α → Multiset α} {w : Local α → Multiset α} (hg : g (create capacity) = 0)
    (hentry : ∀ l, entry l = true → w l = 0)
    (hmove : ∀ {q l a}, Moves q l a → g a.shared + w l = g q + w a.next) (h : (system α capacity).Reachable s) :
    g s.shared = (s.locs.map w).sum := by
  have hinit : 0 + (([] : List (Local α)).map w).sum = g (create capacity) := by rw [hg]; rfl
  have hbal := Monitor.balance (fun _ => 0) g w hinit hentry (fun {s l c a x} _ _ ha hx => ?_) h
  · rw [← hbal, zero_add]
  · have hstep := hmove (moves_of_act ha)
    rw [zero_add] at hx ⊢
    rw [← hx, add_assoc, add_comm x, add_comm] at hstep
    exact (add_left_cancel hstep).symm

end Contents

/-! ### Wake-ups -/

section Wakeups

variable {capacity : Nat}

variable {q : Queue α} {l : Local α} {a : Act (Queue α) Condition (Local α)}

/-- Where a call of `Push` stands in its critical section it owes no notification, and `Pop` and `TryPop` likewise. -/
theorem Moves.units_notEmpty (hm : Moves q l a) (hwait : a.wait ≠ some .notEmpty) :
    a.shared.queue.length = 0 ∨
      a.shared.queue.length + (notifies .notEmpty l || waits .notEmpty l).toNat ≤
        q.queue.length + (a.wait.isNone && notifies .notEmpty a.next).toNat +
          (if a.signal = .one .notEmpty then 1 else 0) := by
  cases hm with
  | @add _ value hl =>
    have hzero : (notifies .notEmpty l || waits .notEmpty l) = false := by
      rcases hl with ⟨rfl, -⟩ | ⟨rfl | rfl, -⟩ <;> rfl
    refine .inr ?_
    rw [hzero]
    simp [Act.goto, notifies]
  | @remove _ value rest next hl hqueue =>
    refine .inr ?_
    have hle : (notifies .notEmpty l || waits .notEmpty l).toNat ≤ 1 := Bool.toNat_le _
    simp only [Act.goto, hqueue, List.length_cons]
    omega
  | end_ _ hqueue | nothing hqueue => exact .inl (by rw [Act.goto, hqueue, List.length_nil])
  | waitNotEmpty => exact absurd rfl hwait
  | refuse hl => rcases hl with rfl | rfl <;> exact .inr (Nat.le_add_right_of_le le_rfl)
  | waitNotFull hl => rcases hl with ⟨rfl, -⟩ | rfl <;> exact .inr (Nat.le_add_right_of_le le_rfl)
  | pushNotify | popNotify | tryPopNotify | close | closeNotEmpty | closeNotFull => exact .inr le_rfl

/-- The free slots that a producer can still use. -/
def free (q : Queue α) : Nat := if q.isClose then 0 else q.capacity - q.queue.length

theorem Moves.units_notFull (hm : Moves q l a) (hwait : a.wait ≠ some .notFull) :
    free a.shared = 0 ∨
      free a.shared + (notifies .notFull l || waits .notFull l).toNat ≤
        free q + (a.wait.isNone && notifies .notFull a.next).toNat + (if a.signal = .one .notFull then 1 else 0) := by
  cases hm with
  | @add _ value hl hopen =>
    refine .inr ?_
    simp only [free, Act.goto, hopen, List.length_append, List.length_singleton]
    rcases hl with ⟨rfl, -⟩ | ⟨rfl | rfl, hlt⟩ <;> simp [notifies, waits] <;> omega
  | @remove _ value rest next hl hqueue =>
    refine .inr ?_
    have hnext : notifies .notFull next = true := by rcases hl with ⟨-, rfl⟩ | ⟨-, rfl⟩ <;> rfl
    have hzero : (notifies .notFull l || waits .notFull l) = false := by
      rcases hl with ⟨rfl | rfl, -⟩ | ⟨rfl, -⟩ <;> rfl
    rw [hzero]
    by_cases hclose : q.isClose = true
    · simp [free, Act.goto, hclose]
    · simp only [free, Act.goto, hclose, hqueue, hnext, List.length_cons]
      simp
      omega
  | refuse _ hclose => exact .inl (if_pos hclose)
  | close => exact .inl rfl
  | waitNotFull => exact absurd rfl hwait
  | end_ hl | waitNotEmpty hl => rcases hl with rfl | rfl <;> exact .inr (Nat.le_add_right_of_le le_rfl)
  | nothing | pushNotify | popNotify | tryPopNotify | closeNotEmpty | closeNotFull => exact .inr le_rfl

theorem Moves.wait_notEmpty (hm : Moves q l a) (hwait : a.wait = some .notEmpty) :
    a.shared.queue.length = 0 ∧ waits .notEmpty a.next = true ∧ a.shared.isClose = false := by
  cases hm with
  | waitNotEmpty _ hqueue hopen => exact ⟨by rw [Act.sleep, hqueue, List.length_nil], rfl, hopen⟩
  | refuse | add | waitNotFull | remove | end_ | nothing | pushNotify | popNotify | tryPopNotify | close |
    closeNotEmpty | closeNotFull => cases hwait

theorem Moves.wait_notFull (hm : Moves q l a) (hwait : a.wait = some .notFull) :
    free a.shared = 0 ∧ waits .notFull a.next = true ∧ a.shared.isClose = false := by
  cases hm with
  | waitNotFull _ hfull hopen =>
    refine ⟨?_, rfl, hopen⟩
    rw [Act.sleep, free, Nat.sub_eq_zero_of_le hfull, ite_self]
  | refuse | add | waitNotEmpty | remove | end_ | nothing | pushNotify | popNotify | tryPopNotify | close |
    closeNotEmpty | closeNotFull => cases hwait

theorem Moves.isClose_eq (hm : Moves q l a) : l = .close ∨ a.shared.isClose = q.isClose := by
  cases hm with
  | close => exact .inl rfl
  | _ => exact .inr rfl

/-- A call of `Close` that has closed the queue goes on to both notifications. -/
theorem owe_of_act (ha : act q l = some a) (hclose : a.shared.isClose = true) {v : Condition}
    (howe : q.isClose = false ∨ notifiesAll v l = true) :
    a.signal = .all v ∨ (a.wait = none ∧ notifiesAll v a.next = true) := by
  have hl : l = .close ∨ notifiesAll v l = true := howe.imp_left fun hopen =>
    (moves_of_act ha).isClose_eq.resolve_right fun heq => by rw [heq, hopen] at hclose; cases hclose
  cases l with
  | close =>
    cases ha
    exact .inr ⟨rfl, by cases v <;> rfl⟩
  | closeNotEmpty =>
    cases ha
    cases v with
    | notEmpty => exact .inl rfl
    | notFull => exact .inr ⟨rfl, rfl⟩
  | closeNotFull =>
    cases ha
    cases v with
    | notEmpty => exact hl.elim nofun nofun
    | notFull => exact .inl rfl
  | _ => cases v <;> exact hl.elim nofun nofun

/-- What the consumers wait for are the values in the queue. -/
def consumers (α : Type) (capacity : Nat) : Monitor.Discipline (monitor α) (create capacity) [] .notEmpty where
  units q := q.queue.length
  owes := notifies .notEmpty
  waits := waits .notEmpty
  wait _ _ ha hwait := ((moves_of_act ha).wait_notEmpty hwait).imp_right And.left
  move _ _ ha hwait := (moves_of_act ha).units_notEmpty hwait

/-- What the producers wait for are the free slots. -/
def producers (α : Type) (capacity : Nat) : Monitor.Discipline (monitor α) (create capacity) [] .notFull where
  units := free
  owes := notifies .notFull
  waits := waits .notFull
  wait _ _ ha hwait := ((moves_of_act ha).wait_notFull hwait).imp_right And.left
  move _ _ ha hwait := (moves_of_act ha).units_notFull hwait

def closing (α : Type) (capacity : Nat) (v : Condition) : Monitor.Closing (monitor α) (create capacity) [] v where
  closed q := q.isClose
  owesAll := notifiesAll v
  wait _ _ ha hwait := by
    cases v with
    | notEmpty => exact ((moves_of_act ha).wait_notEmpty hwait).2.2
    | notFull => exact ((moves_of_act ha).wait_notFull hwait).2.2
  owe _ _ ha hclose howe := owe_of_act ha hclose howe

end Wakeups

/-! ### The result -/

/-- What a state of the queue promises.  The histories are made of the values of the calls that have returned or will
return `true`.  While a call sleeps there is no more to have than there are calls that have been woken or are about to
notify one; with a notification of all to come every sleeper is notified. -/
structure Sound (capacity : Nat) (s : Monitor.State (Queue α) Condition (Local α)) : Prop where
  bounded : capacity ≠ kUnbounded → s.shared.queue.length ≤ capacity
  fifo : s.shared.pushed = s.shared.popped ++ s.shared.queue
  pushed : (s.shared.pushed : Multiset α) = (s.locs.map Local.pushed).sum
  popped : (s.shared.popped : Multiset α) = (s.locs.map Local.popped).sum
  consumers : ∀ l, .asleep .notEmpty l ∈ s.threads →
    s.shared.queue.length ≤ s.threads.countP (Thread.alerted .notEmpty (notifies .notEmpty))
  producers : ∀ l, .asleep .notFull l ∈ s.threads → capacity ≠ kUnbounded ∧
    (capacity - s.shared.queue.length ≤ s.threads.countP (Thread.alerted .notFull (notifies .notFull)) ∨
      ∃ l', .awake l' ∈ s.threads ∧ notifiesAll .notFull l' = true)
  closed : s.shared.isClose = true → ∀ v l, .asleep v l ∈ s.threads →
    ∃ l', .awake l' ∈ s.threads ∧ notifiesAll v l' = true

theorem sound_of_reachable {capacity : Nat} {s : Monitor.State (Queue α) Condition (Local α)}
    (h : (system α capacity).Reachable s) : Sound capacity s := by
  obtain ⟨hholds, hbounded⟩ := holds_of_reachable h
  have hclosed : s.shared.isClose = true → ∀ v l, .asleep v l ∈ s.threads →
      ∃ l', .awake l' ∈ s.threads ∧ notifiesAll v l' = true := fun hclose v _ hl =>
    (closing α capacity v).announced h hclose hl
  refine ⟨hholds.bounded, hholds.fifo, ?_, ?_, fun l hl => ?_, fun l hl => ⟨?_, ?_⟩, hclosed⟩
  · exact history_eq_sum (g := fun q => (q.pushed : Multiset α)) rfl
      (fun l hl => by cases l <;> first | rfl | cases hl) Moves.pushed h
  · exact history_eq_sum (g := fun q => (q.popped : Multiset α)) rfl
      (fun l hl => by cases l <;> first | rfl | cases hl) Moves.popped h
  · exact (ThreadSafeQueue.consumers α capacity).covered h hl
  · have hwaits := (Monitor.Discipline.Covered.of_reachable (D := ThreadSafeQueue.producers α capacity) h).asleep l hl
    have hJ := hbounded l (Monitor.State.mem_locs hl)
    rw [Bounded, hholds.capacity_eq] at hJ
    cases l with
    | pushWait value => exact hJ ⟨value, rfl⟩
    | _ => cases hwaits
  · by_cases hclose : s.shared.isClose = true
    · exact .inr (hclosed hclose .notFull l hl)
    · have hle := (ThreadSafeQueue.producers α capacity).covered h hl
      have hfree : free s.shared = capacity - s.shared.queue.length := by
        rw [free, if_neg hclose, hholds.capacity_eq]
      exact .inl (hfree ▸ hle)

/-- A critical section of `Push` that does not end asleep decides by the flag. -/
theorem push_decides {q : Queue α} {l : Local α} {a : Act (Queue α) Condition (Local α)} {value : α}
    (hl : l = .push value ∨ l = .pushWait value) (ha : act q l = some a) (hwait : a.wait = none) :
    (q.isClose = true ∧ a.next = .returned (.push value false) ∧ a.shared = q) ∨
      (q.isClose = false ∧ a.next = .pushNotify value ∧
        a.shared = { q with queue := q.queue ++ [value], pushed := q.pushed ++ [value] }) := by
  have hadd : ∀ {a}, add q value = a → (q.isClose = true ∧ a.next = .returned (.push value false) ∧ a.shared = q) ∨
      (q.isClose = false ∧ a.next = .pushNotify value ∧
        a.shared = { q with queue := q.queue ++ [value], pushed := q.pushed ++ [value] }) := by
    rintro a rfl
    rw [add]
    split
    · rename_i hclose
      exact .inl ⟨hclose, rfl, rfl⟩
    · rename_i hopen
      exact .inr ⟨Bool.eq_false_iff.2 hopen, rfl, rfl⟩
  have haddWait : addWait q value = a → add q value = a := by
    intro h
    rw [addWait] at h
    split at h
    · exact h
    · subst h
      cases hwait
  rcases hl with rfl | rfl
  · have ha := Option.some.inj ha
    split at ha
    · exact hadd (haddWait ha)
    · exact hadd ha
  · exact hadd (haddWait (Option.some.inj ha))

/-- `Pop` returns `false` only from a closed and empty queue. -/
theorem pop_decides {q : Queue α} {l : Local α} {a : Act (Queue α) Condition (Local α)} (ha : act q l = some a)
    (hnext : a.next = .returned (.pop none)) : q.isClose = true ∧ q.queue = [] := by
  cases moves_of_act ha with
  | end_ _ hqueue hclose => exact ⟨hclose, hqueue⟩
  | remove hl => rcases hl with ⟨-, rfl⟩ | ⟨-, rfl⟩ <;> cases hnext
  | _ => cases hnext

/-- The queue is a bounded FIFO that can be closed and loses no wake-up, whatever the calls and however they
interleave. -/
theorem queue_sound {capacity : Nat} {s : Monitor.State (Queue α) Condition (Local α)}
    (h : (system α capacity).Reachable s) :
    Sound capacity s ∧
    (∀ value l a, (l = .push value ∨ l = .pushWait value) → act s.shared l = some a → a.wait = none →
      (a.next = .returned (.push value false) ↔ s.shared.isClose = true) ∧
      (a.next = .returned (.push value false) → a.shared = s.shared) ∧
      (a.next ≠ .returned (.push value false) → a.next = .pushNotify value ∧
        a.shared.queue = s.shared.queue ++ [value] ∧ a.shared.pushed = s.shared.pushed ++ [value])) ∧
    ∀ l a, act s.shared l = some a → a.next = .returned (.pop none) →
      s.shared.isClose = true ∧ s.shared.queue = [] ∧ s.shared.popped = s.shared.pushed := by
  have hsound := sound_of_reachable h
  refine ⟨hsound, fun value l a hl ha hwait => ?_, fun l a ha hnext => ?_⟩
  · obtain ⟨hclose, hnext, hshared⟩ | ⟨hopen, hnext, hshared⟩ := push_decides hl ha hwait
    · exact ⟨by simp [hnext, hclose], fun _ => hshared, fun hne => absurd hnext hne⟩
    · rw [hnext, hshared]
      exact ⟨by simp [hopen], nofun, fun _ => ⟨rfl, rfl, rfl⟩⟩
  · obtain ⟨hclose, hqueue⟩ := pop_decides ha hnext
    exact ⟨hclose, hqueue, by rw [hsound.fifo, hqueue, List.append_nil]⟩

/-- The second value finds the queue full.  The slot that the consumer has freed is the one that its notification,
still to come, lets the producer have. -/
theorem queue_sound_full : ∃ s, (system Nat 1).Reachable s ∧ s.shared.queue = [] ∧
    .asleep .notFull (.pushWait 6) ∈ s.threads ∧ Sound 1 s := by
  obtain ⟨s, hs, hp⟩ := System.exists_reachable_of_run (system Nat 1)
    [.start (.push 5), .act 0 () none, .act 0 () none, .start (.push 6), .act 1 () none, .start .pop, .act 2 () none]
    (fun s => s.shared.queue.isEmpty && s.threads.contains (.asleep .notFull (.pushWait 6))) (by decide +kernel)
  rw [Bool.and_eq_true, List.isEmpty_iff, List.contains_iff_mem] at hp
  exact ⟨s, hs, hp.1, hp.2, (queue_sound hs).1⟩

end OnnxInference.ThreadSafeQueue
