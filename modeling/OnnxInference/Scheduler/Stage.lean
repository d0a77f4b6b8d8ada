import OnnxInference.Task

/-!
# What the schedulers share (`include/scheduler/stage/Stage.h`, `include/scheduler/InferenceScheduler.h`)

The stages, the result of a postprocess stage and the promise of a request.
-/

namespace OnnxInference

/-- The three stages, each with its executor. -/
inductive StageId
  | pre
  | infer
  | post
  deriving DecidableEq

/-- At least `n` outputs: a runner returns one output for each slot of its batch. -/
abbrev Outputs (n : Nat) (O : Type) := { outs : List O // n ≤ outs.length }

def Outputs.at {n : Nat} {O : Type} (outs : Outputs n O) (i : Nat) (h : i < n) : O :=
  outs.1.get ⟨i, Nat.lt_of_lt_of_le h outs.2⟩

/-- What a promise can be given: `std::current_exception()` is what a stage threw or the `runtime_error` of
`ThreadPool::enqueue`. -/
inductive Exn (ε : Type)
  | stage (e : ε)
  | enqueueStoped
  deriving DecidableEq

/-- The calls of `set_value` and `set_exception` made on a promise; its future gets the first. -/
abbrev Promise (O ε : Type) := List (Except (Exn ε) O)

end OnnxInference
