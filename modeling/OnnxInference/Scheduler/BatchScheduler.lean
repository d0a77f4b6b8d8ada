import OnnxInference.Scheduler.Stage
import OnnxInference.ThreadPool
import OnnxInference.Transition

/-!
# The batch scheduler (`include/scheduler/BatchScheduler.h`)

`submit` pushes an image and a promise to two queues; one worker takes batches from them, holding the mutex from the
moment it wakes up until it waits again.  A batch has one tensor buffer, one preprocess task for each image, which
writes the slot of the image, one inference task, which waits for the preprocess tasks, and one postprocess task,
which sets the promises.  The stages are procedures in small steps, so the model has every interleaving of the
submitters, the worker and the threads of the executors.  A timeout is a wake-up of the worker at any time.  The
tensor buffer of a batch is kept for as long as the run; its lifetime is not part of the model.
-/

namespace OnnxInference

open Concurrency Transition

/-- What the scheduler uses of a runner.  A preprocess task works on the backend and on the tensor buffer of its batch.
The pools of the backend refuse a size of zero, and their buffers are valid as long as they are open. -/
structure BatchRunner (B C Img T M O ε : Type) where
  bufferSize : Nat
  bufferSize_pos : 0 < bufferSize
  batchSize : Nat
  batchSize_pos : 0 < batchSize
  /-- `none` while the caller waits -/
  getTensorBuffer : B → Option (T × B)
  valid : T → Bool
  valid_of_getTensorBuffer : ∀ {b tenbuf b'}, getTensorBuffer b = some (tenbuf, b') → valid tenbuf = true
  preprocess : Prog (B × T) C (Img × Nat) Unit ε
  infer : Prog B C T M ε
  postprocess : Prog B C M (Outputs batchSize O) ε
  /-- the destructor of the `ModelOutput`, which the closure of the postprocess task owns -/
  destroyOutput : M → B → B

namespace BatchScheduler

/-- The data members that a destructor acts on: the two queues and the executors. -/
inductive Member
  | queues
  | executor (k : StageId)

/-- The order of declaration. -/
def members : List Member := [.queues, .executor .pre, .executor .infer, .executor .post]

inductive Teardown
  | close
  | joinWorker
  | stop (k : StageId)
  | join (k : StageId)
  | destroyQueues
  deriving DecidableEq

def Member.teardown : Member → List Teardown
  | .queues => [.destroyQueues]
  | .executor k => [.stop k, .join k]

/-- `~BatchScheduler`: its body, then the members in reverse order of declaration. -/
def destructor : List Teardown := [.close, .joinWorker] ++ members.reverse.flatMap Member.teardown

/-- Where the worker is in `run`; it holds the mutex unless it waits or has exited. -/
inductive Worker
  | wait
  | getTensorBuffer
  /-- the loop over the images of batch `b` -/
  | fill (b size i : Nat)
  | enqueueInfer (b : Nat)
  /-- the condition of the `do` loop -/
  | again
  /-- the check of `is_close_` -/
  | checkClose
  | exited
  deriving DecidableEq

section Model

variable {B C Img T M O ε : Type} (R : BatchRunner B C Img T M O ε)

/-- A batch: what the closures of its tasks share.  The inference task waits for the future of the preprocess task `i`
at `.inl i`. -/
structure Batch where
  tenbuf : T
  prms : List Nat
  pre : List (Task (Img × Nat) R.preprocess.Local Unit ε)
  infer : Task Unit (Nat ⊕ R.infer.Local) M ε
  post : Task M R.postprocess.Local (Outputs R.batchSize O) ε

structure State where
  backend : B
  /-- the images submitted so far; request `r` is that of `images[r]` -/
  images : List Img
  inputs : List Img
  promises : List Nat
  promise : Nat → Promise O ε
  isClose : Bool
  worker : Worker
  batches : List (Batch R)
  /-- the job of batch `b` and slot `i` is `(b, i)` -/
  preExecutor : ThreadPool (Nat × Nat)
  inferExecutor : ThreadPool Nat
  postExecutor : ThreadPool Nat
  /-- what the destructor has still to do, once it has started -/
  teardown : Option (List Teardown)
  /-- a task has used a destroyed executor: nothing is known of what follows -/
  undefined : Bool

inductive Label (Img C : Type)
  | submit (img : Img)
  | work
  | take (k : StageId)
  | advancePre (b i : Nat) (c : C)
  | advanceInfer (b : Nat) (c : C)
  | advancePost (b : Nat) (c : C)
  | destroy

def init (b : B) : State R where
  backend := b
  images := []
  inputs := []
  promises := []
  promise _ := []
  isClose := false
  worker := .wait
  batches := []
  preExecutor := .create R.bufferSize
  inferExecutor := .create R.bufferSize
  postExecutor := .create R.bufferSize
  teardown := none
  undefined := false

variable {R}

namespace State

def setBatch (s : State R) (b : Nat) (x : Batch R) : State R := { s with batches := s.batches.set b x }

def turn (s : State R) (w : Worker) : State R := { s with worker := w }

/-- No thread holds the mutex. -/
def MutexFree (s : State R) : Prop := s.worker = .wait ∨ s.worker = .exited

instance (s : State R) : Decidable s.MutexFree := inferInstanceAs (Decidable (_ ∨ _))

end State

/-- The calls of `set_value` or `set_exception` of a loop over promises. -/
def setEach (promise : Nat → Promise O ε) (calls : List (Nat × Except (Exn ε) O)) : Nat → Promise O ε :=
  calls.foldl (fun promise x => Function.update promise x.1 (promise x.1 ++ [x.2])) promise

/-- `submit`; it throws when the scheduler is closed, and then the request is not accepted. -/
def submit (s : State R) (img : Img) : Option (State R) :=
  if s.MutexFree ∧ s.isClose = false then
    some { s with
      images := s.images ++ [img], inputs := s.inputs ++ [img], promises := s.promises ++ [s.images.length] }
  else none

/-- The worker gets the mutex back from `wait_for`; the predicate is false only after a timeout. -/
def wake (s : State R) : State R :=
  let conditionMet : Bool := R.batchSize ≤ s.inputs.length || s.isClose
  let batchReady : Bool := R.batchSize ≤ s.inputs.length
  let timedOutWithData : Bool := !conditionMet && !s.inputs.isEmpty
  s.turn (if batchReady || timedOutWithData then .getTensorBuffer else .checkClose)

/-- The next step of `run`.  The executors outlive the worker, so they accept what it enqueues. -/
def work (s : State R) : Option (State R) :=
  match s.worker with
  | .wait => some (wake s)
  | .getTensorBuffer =>
    (R.getTensorBuffer s.backend).map fun x =>
      let size := min R.batchSize s.inputs.length
      if !R.valid x.1 || size == 0 || s.promises.length < size then { s.turn .checkClose with backend := x.2 }
      else
        { s.turn (.fill s.batches.length size 0) with
          backend := x.2, batches := s.batches ++ [⟨x.1, [], [], .absent, .absent⟩] }
  | .fill b size i =>
    if i < size then
      match s.batches[b]?, s.inputs, s.promises, s.preExecutor.enqueue (b, i) with
      | some x, img :: inputs, p :: promises, .accepted pool =>
        some { (s.setBatch b { x with prms := x.prms ++ [p], pre := x.pre ++ [.queued (img, i)] }).turn
          (.fill b size (i + 1)) with inputs := inputs, promises := promises, preExecutor := pool }
      | _, _, _, _ => none
    else some (s.turn (.enqueueInfer b))
  | .enqueueInfer b =>
    match s.batches[b]?, s.inferExecutor.enqueue b with
    | some x, .accepted pool =>
      some { (s.setBatch b { x with infer := .queued () }).turn .again with inferExecutor := pool }
    | _, _ => none
  | .again => some (s.turn (if R.batchSize ≤ s.inputs.length then .getTensorBuffer else .checkClose))
  | .checkClose => some (s.turn (if s.isClose then .exited else .wait))
  | .exited => none

/-- A worker of an executor takes the front of its queue. -/
def take (s : State R) (k : StageId) : Option (State R) :=
  match k with
  | .pre => do
    let (j, pool) ← s.preExecutor.take
    let x ← s.batches[j.1]?
    match x.pre[j.2]? with
    | some (.queued a) =>
      some { s.setBatch j.1 { x with pre := x.pre.set j.2 (.start a) } with preExecutor := pool }
    | _ => none
  | .infer => do
    let (b, pool) ← s.inferExecutor.take
    let x ← s.batches[b]?
    match x.infer with
    | .queued a => some { s.setBatch b { x with infer := .start a } with inferExecutor := pool }
    | _ => none
  | .post => do
    let (b, pool) ← s.postExecutor.take
    let x ← s.batches[b]?
    match x.post with
    | .queued out => some { s.setBatch b { x with post := .start out } with postExecutor := pool }
    | _ => none

/-- The task of an image; what it throws goes to its future. -/
def advancePre (s : State R) (b i : Nat) (c : C) : Option (State R) := do
  let x ← s.batches[b]?
  match x.pre[i]? with
  | some (.start a) => some (s.setBatch b { x with pre := x.pre.set i (.execute (R.preprocess.start a)) })
  | some (.execute l) =>
    (R.preprocess.step c (s.backend, x.tenbuf) l).map fun y =>
      { s.setBatch b { x with tenbuf := y.1.2, pre := x.pre.set i (.ofStep y.2) } with backend := y.1.1 }
  | some (.returned r) => some (s.setBatch b { x with pre := x.pre.set i (.ending r) })
  | some (.ending r) =>
    some { s.setBatch b { x with pre := x.pre.set i (.finished r) } with
      preExecutor := s.preExecutor.finish (b, i) }
  | _ => none

/-- The inference task of a batch.  The closure of the postprocess task owns the promises before `enqueue` is called,
so that the `catch` finds none if `enqueue` throws. -/
def advanceInfer (s : State R) (b : Nat) (c : C) : Option (State R) := do
  let x ← s.batches[b]?
  match x.infer with
  | .start _ => some (s.setBatch b { x with infer := .execute (.inl 0) })
  | .execute (.inl i) =>
    match x.pre[i]? with
    | some t =>
      match t.outcome with
      | some (.ok _) => some (s.setBatch b { x with infer := .execute (.inl (i + 1)) })
      | some (.error e) => some (s.setBatch b { x with infer := .returned (.error e) })
      | none => none
    | none => some (s.setBatch b { x with infer := .execute (.inr (R.infer.start x.tenbuf)) })
  | .execute (.inr l) =>
    (R.infer.step c s.backend l).map fun y =>
      { s.setBatch b { x with infer := .ofStep (y.2.map .inr id) } with backend := y.1 }
  | .returned (.ok out) =>
    match s.postExecutor.enqueue b with
    | .accepted pool =>
      some { s.setBatch b { x with infer := .ending (.ok out), post := .queued out } with postExecutor := pool }
    | .threw =>
      some { s.setBatch b { x with infer := .ending (.ok out) } with backend := R.destroyOutput out s.backend }
    | .undefined => some { s with undefined := true }
  | .returned (.error e) =>
    some { s.setBatch b { x with infer := .ending (.error e) } with
      promise := setEach s.promise (x.prms.map (·, .error (.stage e))) }
  | .ending r =>
    some { s.setBatch b { x with infer := .finished r } with inferExecutor := s.inferExecutor.finish b }
  | _ => none

/-- The postprocess task of a batch. -/
def advancePost (s : State R) (b : Nat) (c : C) : Option (State R) := do
  let x ← s.batches[b]?
  match x.post with
  | .start out => some (s.setBatch b { x with post := .execute (R.postprocess.start out) })
  | .execute l =>
    (R.postprocess.step c s.backend l).map fun y =>
      { s.setBatch b { x with post := .ofStep y.2 } with backend := y.1 }
  | .returned (.ok outs) =>
    some { s.setBatch b { x with post := .ending (.ok outs) } with
      promise := setEach s.promise (x.prms.zip (outs.1.map .ok)) }
  | .returned (.error e) =>
    some { s.setBatch b { x with post := .ending (.error e) } with
      promise := setEach s.promise (x.prms.map (·, .error (.stage e))) }
  | .ending r =>
    some { s.setBatch b { x with post := .finished r } with
      postExecutor := s.postExecutor.finish b
      backend := x.infer.output.elim s.backend fun out => R.destroyOutput out s.backend }
  | _ => none

/-- The next action of the destructor; the first starts it. -/
def destroy (s : State R) : Option (State R) :=
  match s.teardown with
  | none => some { s with teardown := some destructor }
  | some [] => none
  | some (.close :: rest) => if s.MutexFree then some { s with isClose := true, teardown := some rest } else none
  | some (.joinWorker :: rest) => if s.worker = .exited then some { s with teardown := some rest } else none
  | some (.stop .pre :: rest) => some { s with preExecutor := s.preExecutor.stop, teardown := some rest }
  | some (.stop .infer :: rest) => some { s with inferExecutor := s.inferExecutor.stop, teardown := some rest }
  | some (.stop .post :: rest) => some { s with postExecutor := s.postExecutor.stop, teardown := some rest }
  | some (.join .pre :: rest) =>
    s.preExecutor.join.map fun pool => { s with preExecutor := pool, teardown := some rest }
  | some (.join .infer :: rest) =>
    s.inferExecutor.join.map fun pool => { s with inferExecutor := pool, teardown := some rest }
  | some (.join .post :: rest) =>
    s.postExecutor.join.map fun pool => { s with postExecutor := pool, teardown := some rest }
  | some (.destroyQueues :: rest) => some { s with inputs := [], promises := [], teardown := some rest }

def step (s : State R) (l : Label Img C) : Option (State R) :=
  if s.undefined then none
  else
    match l with
    | .submit img => submit s img
    | .work => work s
    | .take k => take s k
    | .advancePre b i c => advancePre s b i c
    | .advanceInfer b c => advanceInfer s b c
    | .advancePost b c => advancePost s b c
    | .destroy => destroy s

variable (R) in
def system (b : B) : System (State R) (Label Img C) := ⟨init R b, step⟩

end Model

end BatchScheduler

end OnnxInference
