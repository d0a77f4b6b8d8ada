import OnnxInference.Monitor
import OnnxInference.Scheduler.AsyncScheduler

/-!
# The synchronous scheduler (`include/scheduler/SyncScheduler.h`)

The worker, the calls of `submit` and the thread that shuts the scheduler down are the threads of a monitor.  A
request is one procedure, its three stages one after the other, and the worker executes it in small steps.  `accepted`
are the images submitted, `started` is the number of requests that the worker has taken; the program has neither.  The
requests are executed one after the other in the order of their submission (`scheduler_sound`).
-/

namespace OnnxInference.SyncScheduler

open Concurrency Transition

variable {B C Img T M O ε : Type}

/-! ### The model -/

section Model

variable (R : Runner B C Img T M O ε)

/-- Where the task of a request stands; `infer_out` lives until the task ends. -/
inductive Request
  | pre (l : R.preprocess.Local)
  | infer (l : R.infer.Local)
  | post (inferOut : M) (l : R.postprocess.Local)

/-- The `packaged_task` of `submit`. -/
def task : Prog B C Img O ε where
  Local := Request R
  start input := .pre (R.preprocess.start input)
  step c b
    | .pre l => (R.preprocess.step c b l).map fun
      | (b', .inl l') => (b', .inl (.pre l'))
      | (b', .inr (.ok preOut)) => (b', .inl (.infer (R.infer.start preOut)))
      | (b', .inr (.error e)) => (b', .inr (.error e))
    | .infer l => (R.infer.step c b l).map fun
      | (b', .inl l') => (b', .inl (.infer l'))
      | (b', .inr (.ok inferOut)) => (b', .inl (.post inferOut (R.postprocess.start inferOut)))
      | (b', .inr (.error e)) => (b', .inr (.error e))
    | .post inferOut l => (R.postprocess.step c b l).map fun
      | (b', .inl l') => (b', .inl (.post inferOut l'))
      | (b', .inr r) => (R.destroyOutput inferOut b', .inr (r.map fun outs => outs.at 0 Nat.one_pos))

structure Shared (B Img O ε : Type) where
  backend : B
  /-- the jobs: the image of a request and its number -/
  tasks : List (Img × Nat)
  isClose : Bool
  /-- the thread of the worker has ended -/
  exited : Bool
  joinable : Bool
  accepted : List Img
  started : Nat
  /-- the calls that set a future, in order: the number of the request and what its task ended with -/
  results : List (Nat × Except ε O)

inductive Local
  | worker
  | job (r : Nat) (input : Img) (l : Request R)
  | exited
  | submit (input : Img)
  /-- `submit` has returned the future of a request or has thrown -/
  | submitted (r : Option Nat)
  | shutdown
  | shutdownNotify
  | shutdownJoin
  | shutdownReturned

variable {R}

/-- The critical section of `run`: the wait with its predicate, and a job or the `break`. -/
def work (s : Shared B Img O ε) : Act (Shared B Img O ε) Unit (Local R) :=
  if !s.tasks.isEmpty || s.isClose then
    match s.tasks with
    | (input, r) :: tasks =>
      .goto { s with tasks := tasks, started := s.started + 1 } (.job r input ((task R).start input))
    | [] => .goto { s with exited := true } .exited
  else .sleep s () .worker

/-- The critical section of `submit`, which also notifies. -/
def submit (s : Shared B Img O ε) (input : Img) : Act (Shared B Img O ε) Unit (Local R) :=
  if s.isClose then .goto s (.submitted none)
  else
    let r := s.accepted.length
    .notifyOne { s with tasks := s.tasks ++ [(input, r)], accepted := s.accepted ++ [input] } () (.submitted (some r))

/-- A step of `job()`; what the task ends with, value or exception, goes into its future. -/
def execute (c : C) (s : Shared B Img O ε) (r : Nat) (input : Img) (l : Request R) :
    Option (Act (Shared B Img O ε) Unit (Local R)) :=
  ((task R).step c s.backend l).map fun
    | (b, .inl l') => .goto { s with backend := b } (.job r input l')
    | (b, .inr x) => .goto { s with backend := b, results := s.results ++ [(r, x)] } .worker

def act (c : C) (s : Shared B Img O ε) : Local R → Option (Act (Shared B Img O ε) Unit (Local R))
  | .worker => some (work s)
  | .job r input l => execute c s r input l
  | .submit input => some (submit s input)
  | .shutdown => some (.goto { s with isClose := true } .shutdownNotify)
  | .shutdownNotify => some (.notifyAll s () .shutdownJoin)
  | .shutdownJoin =>
    if s.joinable then (if s.exited then some (.goto { s with joinable := false } .shutdownReturned) else none)
    else some (.goto s .shutdownReturned)
  -- the destructor shuts down again
  | .shutdownReturned => some (.goto s .shutdown)
  | .exited | .submitted _ => none

def entry : Local R → Bool
  | .submit _ => true
  | _ => false

variable (R)

def monitor : Monitor C (Shared B Img O ε) Unit (Local R) := ⟨entry, act⟩

def create (b : B) : Shared B Img O ε := ⟨b, [], false, false, true, [], 0, []⟩

/-- The worker, and the thread that will shut the scheduler down. -/
def threads : List (Local R) := [.worker, .shutdown]

def system (b : B) : System (Monitor.State (Shared B Img O ε) Unit (Local R)) (Monitor.Label C (Local R)) :=
  (monitor R).system (create b) (threads R)

end Model

/-! ### What a request is -/

/-- The three stages of a request, one after the other, with no other request in between. -/
inductive Executes (R : Runner B C Img T M O ε) (b : B) (input : Img) : Except ε O → B → Prop
  | preFails {e b'} (hpre : R.preprocess.RunsAlone b input (.error e) b') : Executes R b input (.error e) b'
  | inferFails {preOut e b₁ b'} (hpre : R.preprocess.RunsAlone b input (.ok preOut) b₁)
      (hinfer : R.infer.RunsAlone b₁ preOut (.error e) b') : Executes R b input (.error e) b'
  | ends {preOut inferOut r b₁ b₂ b'} (hpre : R.preprocess.RunsAlone b input (.ok preOut) b₁)
      (hinfer : R.infer.RunsAlone b₁ preOut (.ok inferOut) b₂) (hpost : R.postprocess.RunsAlone b₂ inferOut r b') :
      Executes R b input (r.map fun outs => outs.at 0 Nat.one_pos) (R.destroyOutput inferOut b')

/-- The stages that a request has behind it, and the steps of the one that it is in. -/
inductive Stands (R : Runner B C Img T M O ε) (b : B) (input : Img) : Request R → B → Prop
  | pre {l b'} (hpre : R.preprocess.Alone b (R.preprocess.start input) b' l) : Stands R b input (.pre l) b'
  | infer {preOut l b₁ b'} (hpre : R.preprocess.RunsAlone b input (.ok preOut) b₁)
      (hinfer : R.infer.Alone b₁ (R.infer.start preOut) b' l) : Stands R b input (.infer l) b'
  | post {preOut inferOut l b₁ b₂ b'} (hpre : R.preprocess.RunsAlone b input (.ok preOut) b₁)
      (hinfer : R.infer.RunsAlone b₁ preOut (.ok inferOut) b₂)
      (hpost : R.postprocess.Alone b₂ (R.postprocess.start inferOut) b' l) : Stands R b input (.post inferOut l) b'

section Request

variable {R : Runner B C Img T M O ε} {b b₁ b' : B} {input : Img} {l : Request R} {c : C}

theorem Stands.start : Stands R b input ((task R).start input) b := .pre .refl

/-- A step of a request leads on in its stages or ends it. -/
theorem Stands.step (h : Stands R b input l b₁) {x : Request R ⊕ Except ε O}
    (hs : (task R).step c b₁ l = some (b', x)) :
    (∃ l', x = .inl l' ∧ Stands R b input l' b') ∨ ∃ r, x = .inr r ∧ Executes R b input r b' := by
  cases h with
  | pre hpre =>
    obtain ⟨⟨b₂, y⟩, hy, heq⟩ := Option.map_eq_some_iff.1 hs
    rcases y with l' | e | preOut
    · cases heq
      exact .inl ⟨_, rfl, .pre (.step hpre hy)⟩
    · cases heq
      exact .inr ⟨_, rfl, .preFails ⟨c, _, _, hpre, hy⟩⟩
    · cases heq
      exact .inl ⟨_, rfl, .infer ⟨c, _, _, hpre, hy⟩ .refl⟩
  | infer hpre hinfer =>
    obtain ⟨⟨b₂, y⟩, hy, heq⟩ := Option.map_eq_some_iff.1 hs
    rcases y with l' | e | inferOut
    · cases heq
      exact .inl ⟨_, rfl, .infer hpre (.step hinfer hy)⟩
    · cases heq
      exact .inr ⟨_, rfl, .inferFails hpre ⟨c, _, _, hinfer, hy⟩⟩
    · cases heq
      exact .inl ⟨_, rfl, .post hpre ⟨c, _, _, hinfer, hy⟩ .refl⟩
  | post hpre hinfer hpost =>
    obtain ⟨⟨b₂, y⟩, hy, heq⟩ := Option.map_eq_some_iff.1 hs
    rcases y with l' | r
    · cases heq
      exact .inl ⟨_, rfl, .post hpre hinfer (.step hpost hy)⟩
    · cases heq
      exact .inr ⟨_, rfl, .ends hpre hinfer ⟨c, _, _, hpost, hy⟩⟩

end Request

/-- The requests for these images, one after the other, and what they ended with. -/
inductive Serial (R : Runner B C Img T M O ε) (b : B) : List Img → List (Except ε O) → B → Prop
  | nil : Serial R b [] [] b
  | snoc {inputs results input r b₁ b'} (h : Serial R b inputs results b₁) (hlast : Executes R b₁ input r b') :
    Serial R b (inputs ++ [input]) (results ++ [r]) b'

/-! ### What a thread does -/

inductive Moves {R : Runner B C Img T M O ε} (s : Shared B Img O ε) :
    Local R → Act (Shared B Img O ε) Unit (Local R) → Prop
  | take {input r tasks} (htasks : s.tasks = (input, r) :: tasks) : Moves s .worker
      (.goto { s with tasks := tasks, started := s.started + 1 } (.job r input ((task R).start input)))
  | exit (htasks : s.tasks = []) (hclose : s.isClose = true) :
    Moves s .worker (.goto { s with exited := true } .exited)
  | wait (htasks : s.tasks = []) (hopen : s.isClose = false) : Moves s .worker (.sleep s () .worker)
  | execute {c r input l b l'} (hs : (task R).step c s.backend l = some (b, .inl l')) :
    Moves s (.job r input l) (.goto { s with backend := b } (.job r input l'))
  | finish {c r input l b x} (hs : (task R).step c s.backend l = some (b, .inr x)) :
    Moves s (.job r input l) (.goto { s with backend := b, results := s.results ++ [(r, x)] } .worker)
  | refuse (input) (hclose : s.isClose = true) : Moves s (.submit input) (.goto s (.submitted none))
  | accept (input) (hopen : s.isClose = false) : Moves s (.submit input)
      (.notifyOne { s with tasks := s.tasks ++ [(input, s.accepted.length)], accepted := s.accepted ++ [input] } ()
        (.submitted (some s.accepted.length)))
  | shutdown : Moves s .shutdown (.goto { s with isClose := true } .shutdownNotify)
  | shutdownNotify : Moves s .shutdownNotify (.notifyAll s () .shutdownJoin)
  | join (hexited : s.exited = true) :
    Moves s .shutdownJoin (.goto { s with joinable := false } .shutdownReturned)
  | skip (hjoined : s.joinable = false) : Moves s .shutdownJoin (.goto s .shutdownReturned)
  | again : Moves s .shutdownReturned (.goto s .shutdown)

section Moves

variable {R : Runner B C Img T M O ε} {s : Shared B Img O ε} {l : Local R}
  {a : Act (Shared B Img O ε) Unit (Local R)} {c : C}

theorem moves_work : Moves s (.worker : Local R) (work s) := by
  unfold work
  split
  · rename_i hpred
    split
    · rename_i htasks
      exact .take htasks
    · rename_i htasks
      have hclose : s.isClose = true := by simpa [htasks] using hpred
      exact .exit htasks hclose
  · rename_i hpred
    obtain ⟨htasks, hopen⟩ := eq_nil_and_open hpred
    exact .wait htasks hopen

theorem moves_submit (input : Img) : Moves s (.submit input : Local R) (submit s input) := by
  unfold submit
  split
  · rename_i hclose
    exact .refuse input hclose
  · rename_i hopen
    exact .accept input (Bool.eq_false_iff.2 hopen)

theorem moves_execute {r : Nat} {input : Img} {l : Request R} (h : execute c s r input l = some a) :
    Moves s (.job r input l) a := by
  obtain ⟨⟨b, l' | x⟩, hs, heq⟩ := Option.map_eq_some_iff.1 h
  · cases heq
    exact .execute hs
  · cases heq
    exact .finish hs

theorem moves_of_act (h : act c s l = some a) : Moves s l a := by
  cases l with
  | worker => cases h; exact moves_work
  | job r input l => exact moves_execute h
  | submit input => cases h; exact moves_submit input
  | shutdown => cases h; exact .shutdown
  | shutdownNotify => cases h; exact .shutdownNotify
  | shutdownJoin =>
    simp only [act] at h
    split at h
    · split at h
      · rename_i hexited
        cases h
        exact .join hexited
      · cases h
    · rename_i hjoined
      cases h
      exact .skip (Bool.eq_false_iff.2 hjoined)
  | shutdownReturned => cases h; exact .again
  | exited | submitted _ => cases h

end Moves

/-! ### The requests -/

/-- The thread is the worker's. -/
def Local.isWorker {R : Runner B C Img T M O ε} : Local R → Bool
  | .worker | .job _ _ _ | .exited => true
  | _ => false

/-- What the shared state says of the requests: they are taken in order and answered in order, and the worker leaves
when all are. -/
structure Ordered (s : Shared B Img O ε) : Prop where
  tasks : s.tasks = s.accepted.zipIdx.drop s.started
  started : s.started ≤ s.accepted.length
  results : s.results.map Prod.fst = List.range s.results.length
  left : s.exited = true → s.isClose = true ∧ s.tasks = [] ∧ s.results.length = s.accepted.length
  joined : s.joinable = false → s.exited = true

/-- What a thread knows where it stands. -/
def Knows (R : Runner B C Img T M O ε) (b : B) (s : Shared B Img O ε) : Local R → Prop
  | .worker => s.exited = false ∧ s.started = s.results.length ∧
    Serial R b (s.accepted.take s.results.length) (s.results.map Prod.snd) s.backend
  | .job r input l => s.exited = false ∧ s.started = s.results.length + 1 ∧ r = s.results.length ∧
    s.accepted[r]? = some input ∧
    ∃ b₁, Serial R b (s.accepted.take s.results.length) (s.results.map Prod.snd) b₁ ∧ Stands R b₁ input l s.backend
  | .exited => s.started = s.results.length ∧
    Serial R b (s.accepted.take s.results.length) (s.results.map Prod.snd) s.backend
  | .shutdownReturned => s.joinable = false
  | _ => True

section Requests

variable {R : Runner B C Img T M O ε} {b : B} {s : Shared B Img O ε} {l : Local R}
  {a : Act (Shared B Img O ε) Unit (Local R)}

/-- The front of the queue is the next request. -/
theorem Ordered.front (h : Ordered s) {input : Img} {r : Nat} {tasks : List (Img × Nat)}
    (htasks : s.tasks = (input, r) :: tasks) : s.accepted[s.started]? = some input ∧ r = s.started ∧
      s.started < s.accepted.length ∧ tasks = s.accepted.zipIdx.drop (s.started + 1) := by
  rw [h.tasks] at htasks
  have hlt : s.started < s.accepted.zipIdx.length := by
    by_contra hge
    rw [List.drop_of_length_le (Nat.not_lt.1 hge)] at htasks
    cases htasks
  rw [List.drop_eq_getElem_cons hlt, List.cons.injEq, List.getElem_zipIdx, Prod.mk.injEq, Nat.zero_add] at htasks
  obtain ⟨⟨hinput, hr⟩, hrest⟩ := htasks
  rw [List.length_zipIdx] at hlt
  exact ⟨List.getElem?_eq_some_iff.2 ⟨hlt, hinput⟩, hr.symm, hlt, hrest.symm⟩

theorem Ordered.move (h : Ordered s) (hk : Knows R b s l) (hm : Moves s l a) : Ordered a.shared := by
  cases hm with
  | take htasks =>
    obtain ⟨-, -, hlt, hrest⟩ := h.front htasks
    exact ⟨hrest, hlt, h.results, fun hex => absurd (hk.1.symm.trans hex) nofun, h.joined⟩
  | exit htasks hclose =>
    have hlen : s.accepted.length ≤ s.started := by
      have hdrop := h.tasks.symm.trans htasks
      rwa [List.drop_eq_nil_iff, List.length_zipIdx] at hdrop
    refine ⟨h.tasks, h.started, h.results, fun _ => ⟨hclose, htasks, ?_⟩, fun _ => rfl⟩
    exact hk.2.1.symm.trans (Nat.le_antisymm h.started hlen)
  | @finish c r input l b x hs =>
    refine ⟨h.tasks, h.started, ?_, fun hex => absurd (hk.1.symm.trans hex) nofun, h.joined⟩
    show (s.results ++ [(r, x)]).map Prod.fst = List.range (s.results ++ [(r, x)]).length
    rw [List.map_append, h.results, List.map_singleton, List.length_append, List.length_singleton,
      List.range_succ, hk.2.2.1]
  | accept input hopen =>
    refine ⟨?_, ?_, h.results, fun hex => absurd (hopen.symm.trans (h.left hex).1) nofun, h.joined⟩
    · show s.tasks ++ [(input, s.accepted.length)] = (s.accepted ++ [input]).zipIdx.drop s.started
      have hle : s.started ≤ s.accepted.zipIdx.length := by
        rw [List.length_zipIdx]
        exact h.started
      rw [List.zipIdx_append, List.drop_append_of_le_length hle, h.tasks, List.zipIdx_singleton, Nat.zero_add]
    · show s.started ≤ (s.accepted ++ [input]).length
      rw [List.length_append]
      exact Nat.le_add_right_of_le h.started
  | shutdown => exact ⟨h.tasks, h.started, h.results, fun hex => ⟨rfl, (h.left hex).2⟩, h.joined⟩
  | join hexited => exact ⟨h.tasks, h.started, h.results, h.left, fun _ => hexited⟩
  | execute => exact ⟨h.tasks, h.started, h.results, h.left, h.joined⟩
  | wait | refuse | shutdownNotify | skip | again => exact h

/-- With one more result there is one more request behind. -/
theorem Serial.finish {r : Nat} {input : Img} {x : Except ε O} {b₁ b' : B} (hr : s.accepted[r]? = some input)
    (h : Serial R b (s.accepted.take r) (s.results.map Prod.snd) b₁) (hlast : Executes R b₁ input x b') :
    Serial R b (s.accepted.take (r + 1)) ((s.results ++ [(r, x)]).map Prod.snd) b' := by
  have htake : s.accepted.take (r + 1) = s.accepted.take r ++ [input] := by
    rw [List.take_add_one, hr]
    rfl
  rw [htake, List.map_append]
  exact .snoc h hlast

theorem Knows.move (h : Knows R b s l) (ho : Ordered s) (hm : Moves s l a) : Knows R b a.shared a.next := by
  cases hm with
  | take htasks =>
    obtain ⟨hinput, rfl, -, -⟩ := ho.front htasks
    obtain ⟨hexited, hstarted, hserial⟩ := h
    exact ⟨hexited, congrArg (· + 1) hstarted, hstarted, hinput, _, hserial, .start⟩
  | exit => exact h.2
  | wait => exact h
  | execute hs =>
    obtain ⟨hexited, hstarted, hr, hinput, b₁, hserial, hstands⟩ := h
    rcases hstands.step hs with ⟨l', heq, hstands'⟩ | ⟨x, heq, -⟩
    · cases heq
      exact ⟨hexited, hstarted, hr, hinput, b₁, hserial, hstands'⟩
    · cases heq
  | finish hs =>
    obtain ⟨hexited, hstarted, rfl, hinput, b₁, hserial, hstands⟩ := h
    rcases hstands.step hs with ⟨l', heq, -⟩ | ⟨x, heq, hexecutes⟩
    · cases heq
    · cases heq
      have hfinish := hserial.finish hinput hexecutes
      refine ⟨hexited, ?_, ?_⟩
      · show s.started = (s.results ++ [_]).length
        rw [List.length_append, List.length_singleton]
        exact hstarted
      · show Serial R b (s.accepted.take (s.results ++ [_]).length) _ _
        rw [List.length_append, List.length_singleton]
        exact hfinish
  | join => rfl
  | skip hjoined => exact hjoined
  | refuse | accept | shutdown | shutdownNotify | again => trivial

/-- A step of a thread that is not the worker's leaves the requests that have been taken. -/
theorem Moves.taken_eq (hm : Moves s l a) (hl : l.isWorker = false) : a.shared.backend = s.backend ∧
    a.shared.results = s.results ∧ a.shared.started = s.started ∧ a.shared.exited = s.exited ∧
    ∃ rest, a.shared.accepted = s.accepted ++ rest := by
  cases hm with
  | accept input => exact ⟨rfl, rfl, rfl, rfl, [input], rfl⟩
  | refuse | shutdown | shutdownNotify | join | skip | again =>
    exact ⟨rfl, rfl, rfl, rfl, [], (List.append_nil _).symm⟩
  | take | exit | wait | execute | finish => cases hl

theorem Moves.joinable (hm : Moves s l a) (hj : s.joinable = false) : a.shared.joinable = false := by
  cases hm with
  | join => rfl
  | _ => exact hj

theorem Knows.other {l' : Local R} (h : Knows R b s l') (ho : Ordered s) (hm : Moves s l a)
    (hne : l'.isWorker = true → l.isWorker = false) : Knows R b a.shared l' := by
  have htake : ∀ {n : Nat} {rest : List Img}, n ≤ s.accepted.length →
    (s.accepted ++ rest).take n = s.accepted.take n :=
    fun hn => List.take_append_of_le_length hn
  have hstarted := ho.started
  cases l' with
  | worker =>
    obtain ⟨hb, hr, hst, hex, rest, hacc⟩ := hm.taken_eq (hne rfl)
    obtain ⟨h1, h2, h3⟩ := h
    rw [Knows, hb, hr, hst, hex, hacc, htake (by omega)]
    exact ⟨h1, h2, h3⟩
  | job r input l₁ =>
    obtain ⟨hb, hr, hst, hex, rest, hacc⟩ := hm.taken_eq (hne rfl)
    obtain ⟨h1, h2, h3, h4, h5⟩ := h
    have hlt := (List.getElem?_eq_some_iff.1 h4).1
    rw [Knows, hb, hr, hst, hex, hacc, htake (by omega), List.getElem?_append_left hlt]
    exact ⟨h1, h2, h3, h4, h5⟩
  | exited =>
    obtain ⟨hb, hr, hst, hex, rest, hacc⟩ := hm.taken_eq (hne rfl)
    obtain ⟨h1, h2⟩ := h
    rw [Knows, hb, hr, hst, hacc, htake (by omega)]
    exact ⟨h1, h2⟩
  | shutdownReturned => exact hm.joinable h
  | submit | submitted | shutdown | shutdownNotify | shutdownJoin => trivial

/-- What a thread has of the worker. -/
def Local.workers (l : Local R) : Multiset Unit := if l.isWorker then {()} else 0

theorem Moves.isWorker_eq (hm : Moves s l a) : a.next.isWorker = l.isWorker := by
  cases hm <;> rfl

end Requests

section Reachable

variable {R : Runner B C Img T M O ε} {b : B} {s : Monitor.State (Shared B Img O ε) Unit (Local R)}

theorem workers_eq (h : (system R b).Reachable s) : (s.locs.map Local.workers).sum = {()} := by
  have hbal := Monitor.balance (fun _ => 0) (fun _ => {()}) Local.workers (by rfl) (fun l hl => ?_)
    (fun {_ l _ a x} _ _ ha hx => ?_) h
  · rw [← hbal, zero_add]
  · cases l with
    | submit => rfl
    | _ => cases hl
  · rw [Local.workers, (moves_of_act ha).isWorker_eq]
    exact hx

/-- There is one worker. -/
theorem worker_unique (h : (system R b).Reachable s) {k k' : Nat} {l l' : Local R} (hk : s.locs[k]? = some l)
    (hk' : s.locs[k']? = some l') (hl : l.isWorker = true) (hl' : l'.isWorker = true) : k = k' := by
  have hnodup : ((s.locs.map Local.workers).sum).Nodup := by
    rw [workers_eq h]
    exact Multiset.nodup_singleton ()
  have hmem : ∀ {l : Local R}, l.isWorker = true → () ∈ l.workers := fun hl => by
    rw [Local.workers, if_pos hl]
    exact Multiset.mem_singleton_self ()
  exact Ledger.index_eq_of_nodup_sum hnodup hk hk' (hmem hl) (hmem hl')

theorem exists_worker (h : (system R b).Reachable s) : ∃ l ∈ s.locs, l.isWorker = true := by
  have hmem : () ∈ (s.locs.map Local.workers).sum := by
    rw [workers_eq h]
    exact Multiset.mem_singleton_self ()
  obtain ⟨l, hl, hw⟩ := Ledger.mem_sum_map.1 hmem
  refine ⟨l, hl, ?_⟩
  by_contra hno
  rw [Local.workers, if_neg hno] at hw
  exact Multiset.notMem_zero _ hw

theorem knows_of_reachable (h : (system R b).Reachable s) :
    Ordered s.shared ∧ ∀ l ∈ s.locs, Knows R b s.shared l := by
  have hcreate : Ordered (create b : Shared B Img O ε) :=
    ⟨rfl, le_rfl, rfl, fun hexited => (by cases hexited), fun hjoined => (by cases hjoined)⟩
  refine Monitor.invariant_of_reachable hcreate (fun l hl => ?_) (fun {_ l} _ hl => ?_)
    (fun {s k l c a} hreach hk hK hJ ha => ?_) h
  · rcases List.mem_pair.1 hl with rfl | rfl
    · exact ⟨rfl, rfl, .nil⟩
    · trivial
  · cases l with
    | submit => trivial
    | _ => cases hl
  · have hm := moves_of_act ha
    refine ⟨hK.move hJ hm, hJ.move hK hm, fun k' l' hne hk' hl' => hl'.other hK hm fun hw => ?_⟩
    by_contra hw'
    exact hne (worker_unique hreach hk' hk hw (Bool.not_eq_false _ ▸ hw'))

end Reachable

/-! ### Wake-ups -/

/-- The thread is about to notify all that sleep. -/
def notifiesAll {R : Runner B C Img T M O ε} : Local R → Bool
  | .shutdownNotify => true
  | _ => false

def waits {R : Runner B C Img T M O ε} : Local R → Bool
  | .worker => true
  | _ => false

section Wakeups

variable {R : Runner B C Img T M O ε} {b : B} {s : Shared B Img O ε} {l : Local R}
  {a : Act (Shared B Img O ε) Unit (Local R)}

theorem Moves.units (hm : Moves s l a) (hwait : a.wait ≠ some ()) :
    a.shared.tasks.length = 0 ∨ a.shared.tasks.length + (false || waits l).toNat ≤
      s.tasks.length + (a.wait.isNone && false).toNat + (if a.signal = .one () then 1 else 0) := by
  cases hm with
  | take htasks => exact .inr (by simp [Act.goto, waits, htasks])
  | exit htasks => exact .inl (by rw [Act.goto, htasks, List.length_nil])
  | wait => exact absurd rfl hwait
  | accept => exact .inr (by simp [Act.notifyOne, waits])
  | execute | finish | refuse | shutdown | shutdownNotify | join | skip | again => exact .inr le_rfl

theorem Moves.wait_units (hm : Moves s l a) (hwait : a.wait = some ()) :
    a.shared.tasks.length = 0 ∧ waits a.next = true ∧ a.shared.isClose = false := by
  cases hm with
  | wait htasks hopen => exact ⟨by rw [Act.sleep, htasks, List.length_nil], rfl, hopen⟩
  | take | exit | execute | finish | refuse | accept | shutdown | shutdownNotify | join | skip | again => cases hwait

theorem Moves.owe (hm : Moves s l a) (hclose : a.shared.isClose = true)
    (howe : s.isClose = false ∨ notifiesAll l = true) :
    a.signal = .all () ∨ (a.wait = none ∧ notifiesAll a.next = true) := by
  cases hm with
  | shutdown => exact .inr ⟨rfl, rfl⟩
  | shutdownNotify => exact .inl rfl
  | take | exit | wait | execute | finish | refuse | accept | join | skip | again =>
    rcases howe with hopen | howe
    · cases hopen.symm.trans hclose
    · cases howe

variable (R b)

/-- What the worker waits for are the tasks; `submit` notifies in its critical section and owes nothing afterwards. -/
def condition : Monitor.Discipline (monitor R) (create b) (threads R) () where
  units s := s.tasks.length
  owes _ := false
  waits := waits
  wait _ _ ha hwait := ((moves_of_act ha).wait_units hwait).imp_right And.left
  move _ _ ha hwait := (moves_of_act ha).units hwait

def closing : Monitor.Closing (monitor R) (create b) (threads R) () where
  closed s := s.isClose
  owesAll := notifiesAll
  wait _ _ ha hwait := ((moves_of_act ha).wait_units hwait).2.2
  owe _ _ ha hclose howe := (moves_of_act ha).owe hclose howe

variable {R b}

/-- The worker does not sleep while there is a task. -/
theorem tasks_eq_nil_of_asleep {s : Monitor.State (Shared B Img O ε) Unit (Local R)} (h : (system R b).Reachable s)
    {l : Local R} (hl : .asleep () l ∈ s.threads) : s.shared.tasks = [] := by
  have hle := (condition R b).covered h hl
  have hcov := Monitor.Discipline.Covered.of_reachable (D := condition R b) h
  have hworker : ∀ {l : Local R}, waits l = true → l.isWorker = true := fun {l} hw => by
    cases l with
    | worker => rfl
    | _ => cases hw
  by_contra hne
  have hlen : 0 < s.shared.tasks.length := List.length_pos_iff.2 hne
  obtain ⟨t, ht, halerted⟩ := List.countP_pos_iff.1 (hlen.trans_le hle)
  cases t with
  | awake _ | asleep _ _ => cases halerted
  | woken v l' =>
    -- the worker would be asleep and woken
    obtain ⟨k, hk⟩ := List.mem_iff_getElem?.1 hl
    obtain ⟨k', hk'⟩ := List.mem_iff_getElem?.1 ht
    have hloc : s.locs[k]? = some l := by rw [Monitor.State.locs, List.getElem?_map, hk]; rfl
    have hloc' : s.locs[k']? = some l' := by rw [Monitor.State.locs, List.getElem?_map, hk']; rfl
    have heq := worker_unique h hloc hloc' (hworker (hcov.asleep l hl)) (hworker (hcov.woken l' ht))
    subst heq
    rw [hk] at hk'
    cases hk'

end Wakeups

/-! ### The result -/

/-- What a state of the scheduler promises.  The requests that are answered were executed one after the other, and so is
the one that the worker is executing, from the state that they have left. -/
structure Sound (R : Runner B C Img T M O ε) (b : B) (s : Monitor.State (Shared B Img O ε) Unit (Local R)) : Prop where
  order : s.shared.results.map Prod.fst = List.range s.shared.results.length
  queue : s.shared.tasks = s.shared.accepted.zipIdx.drop s.shared.started
  serial : ∃ b₁, Serial R b (s.shared.accepted.take s.shared.results.length) (s.shared.results.map Prod.snd) b₁ ∧
    (s.shared.started = s.shared.results.length ∧ s.shared.backend = b₁ ∨
      ∃ r input l, .job r input l ∈ s.locs ∧ r = s.shared.results.length ∧ s.shared.started = r + 1 ∧
        s.shared.accepted[r]? = some input ∧ Stands R b₁ input l s.shared.backend)
  left : s.shared.exited = true →
    s.shared.isClose = true ∧ s.shared.tasks = [] ∧ s.shared.results.length = s.shared.accepted.length
  drained : .shutdownReturned ∈ s.locs →
    s.shared.tasks = [] ∧ s.shared.results.length = s.shared.accepted.length
  asleep : ∀ l, .asleep () l ∈ s.threads → s.shared.tasks = []
  closed : s.shared.isClose = true → ∀ l, .asleep () l ∈ s.threads →
    ∃ l', .awake l' ∈ s.threads ∧ notifiesAll l' = true

variable {R : Runner B C Img T M O ε} {b : B}

theorem sound_of_reachable {s : Monitor.State (Shared B Img O ε) Unit (Local R)} (h : (system R b).Reachable s) :
    Sound R b s := by
  obtain ⟨hordered, hknows⟩ := knows_of_reachable h
  refine ⟨hordered.results, hordered.tasks, ?_, hordered.left, fun hl => ?_, fun l hl => tasks_eq_nil_of_asleep h hl,
    fun hclose l hl => (closing R b).announced h hclose hl⟩
  · obtain ⟨l, hl, hw⟩ := exists_worker h
    have hk := hknows l hl
    cases l with
    | worker => exact ⟨_, hk.2.2, .inl ⟨hk.2.1, rfl⟩⟩
    | job r input l =>
      obtain ⟨-, hstarted, hr, hinput, b₁, hserial, hstands⟩ := hk
      exact ⟨b₁, hserial, .inr ⟨r, input, l, hl, hr, hr ▸ hstarted, hinput, hstands⟩⟩
    | exited => exact ⟨_, hk.2, .inl ⟨hk.1, rfl⟩⟩
    | _ => cases hw
  · exact (hordered.left (hordered.joined (hknows _ hl))).2

/-- Every accepted request is executed once, in order and by itself, whatever the threads do and however they
interleave.  A call of `submit` on a closed scheduler throws and adds nothing, and whatever a request ends with, value
or exception, the worker goes back to its loop. -/
theorem scheduler_sound {s : Monitor.State (Shared B Img O ε) Unit (Local R)} (h : (system R b).Reachable s) :
    Sound R b s ∧
    (∀ c input a, act c s.shared (.submit input : Local R) = some a →
      (s.shared.isClose = true → a = .goto s.shared (.submitted none)) ∧
      (s.shared.isClose = false → a.next = .submitted (some s.shared.accepted.length) ∧
        a.shared.accepted = s.shared.accepted ++ [input])) ∧
    ∀ c r input l a, act c s.shared (.job r input l : Local R) = some a →
      (∃ l', a.next = .job r input l' ∧ a.shared.results = s.shared.results) ∨
        (a.next = .worker ∧ a.wait = none ∧ ∃ x, a.shared.results = s.shared.results ++ [(r, x)]) := by
  refine ⟨sound_of_reachable h, fun c input a ha => ?_, fun c r input l a ha => ?_⟩
  · cases moves_of_act ha with
    | refuse _ hclose => exact ⟨fun _ => rfl, fun hopen => absurd (hclose.symm.trans hopen) nofun⟩
    | accept _ hopen => exact ⟨fun hclose => absurd (hopen.symm.trans hclose) nofun, fun _ => ⟨rfl, rfl⟩⟩
  · cases moves_of_act ha with
    | execute _ => exact .inl ⟨_, rfl, rfl⟩
    | finish _ => exact .inr ⟨rfl, rfl, _, rfl⟩

theorem one_le_length_single (n : Nat) : 1 ≤ [n].length := Nat.le_refl 1

/-- A runner that does not take the image 0. -/
def pickyRunner : Runner Unit Unit Nat Nat Nat Nat String where
  bufferSize := 1
  preprocess := .ofFn fun n => if n = 0 then .error "empty" else .ok n
  infer := .ofFn .ok
  postprocess := .ofFn fun n => .ok ⟨[n], one_le_length_single n⟩
  destroyOutput _ b := b

/-- The worker is woken for the images 0 and 5; the scheduler is shut down before it has taken them. -/
def pickyRun : List (Monitor.Label Unit (Local pickyRunner)) :=
  .act 0 () none :: .start (.submit 0) :: .act 2 () (some 0) :: .start (.submit 5) :: .act 3 () none ::
    .act 1 () none :: List.replicate 7 (.act 0 () none) ++ List.replicate 2 (.act 1 () none)

theorem scheduler_sound_picky : ∃ s, (system pickyRunner ()).Reachable s ∧ .shutdownReturned ∈ s.locs ∧
    s.shared.results = [(0, .error "empty"), (1, .ok 5)] ∧ Sound pickyRunner () s := by
  obtain ⟨s, hs, hp⟩ := System.exists_reachable_of_run (system pickyRunner ()) pickyRun
    (fun s => decide (s.shared.results = [(0, .error "empty"), (1, .ok 5)]) && s.locs.any fun l => match l with
      | .shutdownReturned => true
      | _ => false) (by decide +kernel)
  rw [Bool.and_eq_true, decide_eq_true_eq, List.any_eq_true] at hp
  obtain ⟨hresults, l, hl, hat⟩ := hp
  have hreturned : l = .shutdownReturned := by
    split at hat
    · rfl
    · cases hat
  exact ⟨s, hs, hreturned ▸ hl, hresults, (scheduler_sound hs).1⟩

end OnnxInference.SyncScheduler
