import OnnxInference.Scheduler.Stage
import OnnxInference.ThreadPool
import OnnxInference.Transition

/-!
# The asynchronous scheduler (`include/scheduler/AsyncScheduler.h`)

A request passes through three thread pools: its preprocess task enqueues its inference task, which enqueues its
postprocess task, which sets its promise.  The stages are procedures in small steps on a state all threads share
(the backend), so the model has every interleaving of the workers, also inside a stage.  The destructor is part
of the model: it destroys the members in reverse order of declaration.
-/

namespace OnnxInference

open Concurrency Transition

/-- What `submit` uses of a runner: `getBufferSize`, its three stages, and the destructor of the `ModelOutput`, which
the closure of the postprocess task owns. -/
structure Runner (B C Img T M O ε : Type) where
  bufferSize : Nat
  preprocess : Prog B C Img T ε
  infer : Prog B C T M ε
  postprocess : Prog B C M (Outputs 1 O) ε
  destroyOutput : M → B → B

namespace AsyncScheduler

/-- The data members, without the plain integer `buffer_size_`. -/
inductive Member
  | executor (k : StageId)
  | stage (k : StageId)

/-- The order of declaration. -/
def members : List Member :=
  [.executor .pre, .executor .infer, .executor .post, .stage .pre, .stage .infer, .stage .post]

inductive Teardown
  | stop (k : StageId)
  | join (k : StageId)
  | destroyStage (k : StageId)

/-- The destructor of a member: that of an executor stops it and joins its workers. -/
def Member.teardown : Member → List Teardown
  | .executor k => [.stop k, .join k]
  | .stage k => [.destroyStage k]

/-- `~AsyncScheduler`: members are destroyed in reverse order of declaration. -/
def destructor : List Teardown := members.reverse.flatMap Member.teardown

/-- A task used a member after its lifetime, or called `enqueue` on a stopped executor. -/
inductive Fault
  | execute (k : StageId) (r : Nat)
  | enqueue (k : StageId) (r : Nat)

section Model

variable {B C Img T M O ε : Type} (R : Runner B C Img T M O ε)

/-- The three tasks of a request and its promise. -/
structure Request where
  pre : Task Img R.preprocess.Local T ε
  infer : Task T R.infer.Local M ε
  post : Task M R.postprocess.Local (Outputs 1 O) ε
  promise : Promise O ε

structure State where
  backend : B
  /-- the images submitted so far; request `r` is that of `images[r]` -/
  images : List Img
  request : Nat → Request R
  executor : StageId → ThreadPool Nat
  /-- the stage object is alive -/
  stage : StageId → Bool
  /-- what the destructor has still to do, once it has started -/
  teardown : Option (List Teardown)
  faults : List Fault
  /-- a task has used a destroyed object: nothing is known of what follows -/
  undefined : Bool

inductive Label (Img C : Type)
  | submit (img : Img)
  | take (k : StageId)
  | advance (k : StageId) (r : Nat) (c : C)
  | destroy

def init (b : B) : State R where
  backend := b
  images := []
  request _ := ⟨.absent, .absent, .absent, []⟩
  executor _ := ThreadPool.create R.bufferSize
  stage _ := true
  teardown := none
  faults := []
  undefined := false

variable {R}

namespace State

def setRequest (s : State R) (r : Nat) (q : Request R) : State R :=
  { s with request := Function.update s.request r q }

def setExecutor (s : State R) (k : StageId) (p : ThreadPool Nat) : State R :=
  { s with executor := Function.update s.executor k p }

def fault (s : State R) (f : Fault) : State R := { s with faults := s.faults ++ [f] }

def undefinedBy (s : State R) (f : Fault) : State R := { s.fault f with undefined := true }

@[simp] theorem setExecutor_request (s : State R) (k : StageId) (p : ThreadPool Nat) :
    (s.setExecutor k p).request = s.request := rfl

@[simp] theorem fault_request (s : State R) (f : Fault) : (s.fault f).request = s.request := rfl

end State

/-- `submit`: the critical section of `pre_executor_.enqueue`. -/
def submit (s : State R) (img : Img) : Option (State R) :=
  match s.executor .pre |>.enqueue s.images.length with
  | .accepted p =>
    let q := s.request s.images.length
    some { (s.setExecutor .pre p).setRequest s.images.length { q with pre := .queued img } with
      images := s.images ++ [img] }
  | _ => none

/-- A worker of an executor takes the front of its queue. -/
def take (s : State R) (k : StageId) : Option (State R) := do
  let (r, p) ← (s.executor k).take
  let q := s.request r
  match k with
  | .pre =>
    match q.pre with
    | .queued img => some ((s.setExecutor k p).setRequest r { q with pre := .start img })
    | _ => none
  | .infer =>
    match q.infer with
    | .queued tenbuf => some ((s.setExecutor k p).setRequest r { q with infer := .start tenbuf })
    | _ => none
  | .post =>
    match q.post with
    | .queued out => some ((s.setExecutor k p).setRequest r { q with post := .start out })
    | _ => none

/-- The task enqueued by `submit`. -/
def advancePre (s : State R) (r : Nat) (c : C) : Option (State R) :=
  let q := s.request r
  match q.pre with
  | .start img =>
    if s.stage .pre then some (s.setRequest r { q with pre := .execute (R.preprocess.start img) })
    else some (s.undefinedBy (.execute .pre r))
  | .execute l =>
    (R.preprocess.step c s.backend l).map fun x =>
      { s.setRequest r { q with pre := .ofStep x.2 } with backend := x.1 }
  | .returned (.ok tenbuf) =>
    match (s.executor .infer).enqueue r with
    | .accepted p =>
      some ((s.setExecutor .infer p).setRequest r { q with pre := .ending (.ok tenbuf), infer := .queued tenbuf })
    | .threw =>
      some ((s.setRequest r { q with
        pre := .ending (.ok tenbuf), promise := q.promise ++ [.error .enqueueStoped] }).fault (.enqueue .infer r))
    | .undefined => some (s.undefinedBy (.enqueue .infer r))
  | .returned (.error e) =>
    some (s.setRequest r { q with pre := .ending (.error e), promise := q.promise ++ [.error (.stage e)] })
  | .ending o =>
    some ((s.setExecutor .pre ((s.executor .pre).finish r)).setRequest r { q with pre := .finished o })
  | _ => none

/-- The task enqueued by the preprocess task. -/
def advanceInfer (s : State R) (r : Nat) (c : C) : Option (State R) :=
  let q := s.request r
  match q.infer with
  | .start tenbuf =>
    if s.stage .infer then some (s.setRequest r { q with infer := .execute (R.infer.start tenbuf) })
    else some (s.undefinedBy (.execute .infer r))
  | .execute l =>
    (R.infer.step c s.backend l).map fun x =>
      { s.setRequest r { q with infer := .ofStep x.2 } with backend := x.1 }
  | .returned (.ok out) =>
    match (s.executor .post).enqueue r with
    | .accepted p =>
      some ((s.setExecutor .post p).setRequest r { q with infer := .ending (.ok out), post := .queued out })
    | .threw =>
      some { (s.setRequest r { q with
        infer := .ending (.ok out), promise := q.promise ++ [.error .enqueueStoped] }).fault (.enqueue .post r) with
          backend := R.destroyOutput out s.backend }
    | .undefined => some (s.undefinedBy (.enqueue .post r))
  | .returned (.error e) =>
    some (s.setRequest r { q with infer := .ending (.error e), promise := q.promise ++ [.error (.stage e)] })
  | .ending o =>
    some ((s.setExecutor .infer ((s.executor .infer).finish r)).setRequest r { q with infer := .finished o })
  | _ => none

/-- The task enqueued by the inference task.  It has no `try`: what `execute` throws goes into the future that
`enqueue` returned, which the inference task has discarded. -/
def advancePost (s : State R) (r : Nat) (c : C) : Option (State R) :=
  let q := s.request r
  match q.post with
  | .start out =>
    if s.stage .post then some (s.setRequest r { q with post := .execute (R.postprocess.start out) })
    else some (s.undefinedBy (.execute .post r))
  | .execute l =>
    (R.postprocess.step c s.backend l).map fun x =>
      { s.setRequest r { q with post := .ofStep x.2 } with backend := x.1 }
  | .returned (.ok outs) =>
    some (s.setRequest r { q with
      post := .ending (.ok outs), promise := q.promise ++ [.ok (outs.at 0 Nat.one_pos)] })
  | .returned (.error e) => some (s.setRequest r { q with post := .ending (.error e) })
  | .ending o =>
    some { (s.setExecutor .post ((s.executor .post).finish r)).setRequest r { q with post := .finished o } with
      backend := q.infer.output.elim s.backend fun out => R.destroyOutput out s.backend }
  | _ => none

/-- The next action of the destructor; the first starts it. -/
def destroy (s : State R) : Option (State R) :=
  match s.teardown with
  | none => some { s with teardown := some destructor }
  | some [] => none
  | some (.stop k :: rest) => some { s.setExecutor k (s.executor k).stop with teardown := some rest }
  | some (.join k :: rest) => (s.executor k).join.map fun p => { s.setExecutor k p with teardown := some rest }
  | some (.destroyStage k :: rest) =>
    some { s with stage := Function.update s.stage k false, teardown := some rest }

def step (s : State R) (l : Label Img C) : Option (State R) :=
  if s.undefined then none
  else
    match l with
    | .submit img => if s.teardown.isNone then submit s img else none
    | .take k => take s k
    | .advance .pre r c => advancePre s r c
    | .advance .infer r c => advanceInfer s r c
    | .advance .post r c => advancePost s r c
    | .destroy => destroy s

variable (R) in
def system (b : B) : System (State R) (Label Img C) := ⟨init R b, step⟩

end Model

end AsyncScheduler

end OnnxInference
