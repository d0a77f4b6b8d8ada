import Mathlib

/-!
# Procedures and tasks of threads

A procedure that threads run is a program in small steps on a state `B` all threads share: `step` takes one step
from a local state, is `none` where the thread has to wait, and ends with a result or an exception.  What the
outside decides (whether a device call fails) is the choice `C`.  A pure function is the procedure that returns
in one step.

A task is one call of such a procedure on its way through a queue and a thread: `returned` is the moment after
the call, `ending` the moment after the thread has dealt with the result, `finished` when the thread has left it.
-/

namespace Concurrency

/-- A procedure with arguments `I` and results `O` that may throw `ε`. -/
structure Prog (B C I O ε : Type) where
  Local : Type
  start : I → Local
  step : C → B → Local → Option (B × (Local ⊕ Except ε O))

namespace Prog

variable {B C I O ε : Type}

/-- A pure function, run in one step. -/
def ofFn (f : I → Except ε O) : Prog B C I O ε where
  Local := I
  start := id
  step _ b i := some (b, .inr (f i))

/-- The step from `l` with the choice `c` throws. -/
def Throws (P : Prog B C I O ε) (c : C) (b : B) (l : P.Local) : Prop :=
  ∃ b' e, P.step c b l = some (b', .inr (.error e))

/-- The local states of the calls with argument `i`, under any behaviour of the other threads. -/
inductive Reaches (P : Prog B C I O ε) (i : I) : P.Local → Prop
  | start : Reaches P i (P.start i)
  | step {c : C} {b b' : B} {l l' : P.Local} : Reaches P i l → P.step c b l = some (b', .inl l') → Reaches P i l'

/-- Some call with argument `i` ends with `r`. -/
def Ends (P : Prog B C I O ε) (i : I) (r : Except ε O) : Prop :=
  ∃ c b b' l, P.Reaches i l ∧ P.step c b l = some (b', .inr r)

theorem ends_ofFn {f : I → Except ε O} {i : I} {r : Except ε O} (h : (ofFn (B := B) (C := C) f).Ends i r) :
    r = f i := by
  obtain ⟨c, b, b', l, hl, hs⟩ := h
  have hli : l = i := by
    cases hl with
    | start => rfl
    | step _ hs => cases hs
  cases hs
  rw [hli]

/-- The steps of a call while no other thread changes the shared state. -/
inductive Alone (P : Prog B C I O ε) : B → P.Local → B → P.Local → Prop
  | refl {b : B} {l : P.Local} : Alone P b l b l
  | step {c : C} {b b₁ b' : B} {l l₁ l' : P.Local} : Alone P b l b₁ l₁ → P.step c b₁ l₁ = some (b', .inl l') →
      Alone P b l b' l'

/-- A whole call with argument `i` while no other thread changes the shared state. -/
def RunsAlone (P : Prog B C I O ε) (b : B) (i : I) (r : Except ε O) (b' : B) : Prop :=
  ∃ c b₁ l, P.Alone b (P.start i) b₁ l ∧ P.step c b₁ l = some (b', .inr r)

/-- Some execution from `l`, under any behaviour of the other threads, returns a result. -/
inductive CanReturn (P : Prog B C I O ε) : P.Local → Prop
  | now {c : C} {b b' : B} {l : P.Local} {o : O} : P.step c b l = some (b', .inr (.ok o)) → CanReturn P l
  | later {c : C} {b b' : B} {l l' : P.Local} : P.step c b l = some (b', .inl l') → CanReturn P l' →
      CanReturn P l

/-- Every step of a call that does not end it lowers a rank, so no call runs for ever. -/
structure StepBound (P : Prog B C I O ε) where
  rank : P.Local → Nat
  lt : ∀ {c b b' l l'}, P.step c b l = some (b', .inl l') → rank l' < rank l

/-- A pure function takes one step. -/
def StepBound.ofFn {f : I → Except ε O} : (Prog.ofFn (B := B) (C := C) f).StepBound where
  rank _ := 0
  lt h := by cases h

end Prog

/-- Where a call with argument `I` and local states `L` stands. -/
inductive Task (I L O ε : Type)
  | absent
  | queued (i : I)
  | start (i : I)
  | execute (l : L)
  | returned (r : Except ε O)
  | ending (r : Except ε O)
  | finished (r : Except ε O)

/-- What a thread pool sees of a task. -/
inductive Status
  | idle
  | queued
  | running
  | done
  deriving DecidableEq

namespace Task

variable {I L O ε : Type}

def status : Task I L O ε → Status
  | .absent => .idle
  | .queued _ => .queued
  | .start _ | .execute _ | .returned _ | .ending _ => .running
  | .finished _ => .done

/-- The task after a step of its procedure. -/
def ofStep : L ⊕ Except ε O → Task I L O ε
  | .inl l => .execute l
  | .inr r => .returned r

/-- The task is queued or running. -/
def Pending (t : Task I L O ε) : Prop := t.status = .queued ∨ t.status = .running

instance (t : Task I L O ε) : Decidable t.Pending := inferInstanceAs (Decidable (_ ∨ _))

/-- The task is absent or a call of `P` with argument `i`. -/
def Of {B C : Type} (P : Prog B C I O ε) (i : I) : Task I P.Local O ε → Prop
  | .absent => True
  | .queued i' | .start i' => i' = i
  | .execute l => P.Reaches i l
  | .returned r | .ending r | .finished r => P.Ends i r

/-- The result or exception of a call its thread has dealt with. -/
def outcome : Task I L O ε → Option (Except ε O)
  | .ending r | .finished r => some r
  | _ => none

/-- The result of a call that has returned normally. -/
def output (t : Task I L O ε) : Option O :=
  match t.outcome with
  | some (.ok o) => some o
  | _ => none

@[simp] theorem status_absent : (absent : Task I L O ε).status = .idle := rfl
@[simp] theorem status_queued (i : I) : (queued i : Task I L O ε).status = .queued := rfl
@[simp] theorem status_start (i : I) : (start i : Task I L O ε).status = .running := rfl
@[simp] theorem status_execute (l : L) : (execute l : Task I L O ε).status = .running := rfl
@[simp] theorem status_returned (r : Except ε O) : (returned r : Task I L O ε).status = .running := rfl
@[simp] theorem status_ending (r : Except ε O) : (ending r : Task I L O ε).status = .running := rfl
@[simp] theorem status_finished (r : Except ε O) : (finished r : Task I L O ε).status = .done := rfl

@[simp] theorem outcome_absent : (absent : Task I L O ε).outcome = none := rfl
@[simp] theorem outcome_queued (i : I) : (queued i : Task I L O ε).outcome = none := rfl
@[simp] theorem outcome_start (i : I) : (start i : Task I L O ε).outcome = none := rfl
@[simp] theorem outcome_execute (l : L) : (execute l : Task I L O ε).outcome = none := rfl
@[simp] theorem outcome_returned (r : Except ε O) : (returned r : Task I L O ε).outcome = none := rfl
@[simp] theorem outcome_ending (r : Except ε O) : (ending r : Task I L O ε).outcome = some r := rfl
@[simp] theorem outcome_finished (r : Except ε O) : (finished r : Task I L O ε).outcome = some r := rfl

@[simp] theorem status_ofStep (x : L ⊕ Except ε O) : (ofStep x : Task I L O ε).status = .running := by
  cases x <;> rfl

@[simp] theorem outcome_ofStep (x : L ⊕ Except ε O) : (ofStep x : Task I L O ε).outcome = none := by
  cases x <;> rfl

theorem ofStep_ne_absent (x : L ⊕ Except ε O) : (ofStep x : Task I L O ε) ≠ .absent := by
  cases x <;> exact nofun

theorem Of.ofStep {B C : Type} {P : Prog B C I O ε} {i : I} {c : C} {b : B} {l : P.Local}
    {x : B × (P.Local ⊕ Except ε O)} (h : P.Reaches i l) (hs : P.step c b l = some x) : Of P i (ofStep x.2) := by
  obtain ⟨b', x⟩ := x
  cases x with
  | inl l' => exact .step h hs
  | inr r => exact ⟨c, b, b', l, h, hs⟩

/-- A bound on the steps of a task that are still to come. -/
def left {B C : Type} {P : Prog B C I O ε} (h : P.StepBound) : Task I P.Local O ε → Nat
  | .absent | .finished _ => 0
  | .queued i => h.rank (P.start i) + 5
  | .start i => h.rank (P.start i) + 4
  | .execute l => h.rank l + 3
  | .returned _ => 2
  | .ending _ => 1

theorem left_ofStep_lt {B C : Type} {P : Prog B C I O ε} (h : P.StepBound) {c : C} {b : B} {l : P.Local}
    {x : B × (P.Local ⊕ Except ε O)} (hs : P.step c b l = some x) : left h (ofStep x.2) < left h (.execute l) := by
  obtain ⟨b', l' | r⟩ := x
  · exact Nat.add_lt_add_right (h.lt hs) 3
  · exact Nat.lt_of_lt_of_le (Nat.lt_succ_self 2) (Nat.le_add_left 3 _)

/-- With the `w` steps of the task that it enqueues when it has returned. -/
def leftThen {B C : Type} {P : Prog B C I O ε} (h : P.StepBound) (w : Nat) : Task I P.Local O ε → Nat
  | .absent => 0
  | .queued i => h.rank (P.start i) + w + 5
  | .start i => h.rank (P.start i) + w + 4
  | .execute l => h.rank l + w + 3
  | .returned _ => w + 2
  | .ending _ => 1
  | .finished _ => 0

theorem leftThen_ofStep_lt {B C : Type} {P : Prog B C I O ε} (h : P.StepBound) (w : Nat) {c : C} {b : B} {l : P.Local}
    {x : B × (P.Local ⊕ Except ε O)} (hs : P.step c b l = some x) :
    leftThen h w (ofStep x.2) < leftThen h w (.execute l) := by
  obtain ⟨b', l' | r⟩ := x
  · have hlt := h.lt hs
    simp only [ofStep, leftThen]
    omega
  · simp only [ofStep, leftThen]
    omega

theorem Of.of_idle {B C : Type} {P : Prog B C I O ε} {i : I} {t : Task I P.Local O ε} (h : t.status = .idle) :
    Of P i t := by
  cases t <;> trivial

theorem Of.outcome {B C : Type} {P : Prog B C I O ε} {i : I} {t : Task I P.Local O ε} {r : Except ε O}
    (h : Of P i t) (hr : t.outcome = some r) : P.Ends i r := by
  cases t <;> cases hr <;> exact h

theorem outcome_of_idle {t : Task I L O ε} (h : t.status = .idle) : t.outcome = none := by
  cases t <;> first | rfl | cases h

theorem pending_of_outcome_none {t : Task I L O ε} (h : t.outcome = none) (hne : t ≠ .absent) : t.Pending := by
  cases t with
  | absent => exact absurd rfl hne
  | queued => exact .inl rfl
  | start | execute | returned => exact .inr rfl
  | ending | finished => cases h

/-- A task that is not pending was never queued or is finished. -/
theorem not_pending_iff {t : Task I L O ε} : ¬t.Pending ↔ t = .absent ∨ ∃ r, t = .finished r := by
  cases t <;> simp [Pending, status]

end Task

end Concurrency
