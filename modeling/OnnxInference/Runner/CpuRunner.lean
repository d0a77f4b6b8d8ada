import OnnxInference.Scheduler.AsyncScheduler
import OnnxInference.Tensor

/-!
# Runners of the CPU build (`include/backend/`, `src/runner/`)

In the CPU build there is one input tensor: `GetTensorBuffer` wraps the pointer `data()`, and `tensorBuffer()` owns
the storage that pointer points to, so every tensor buffer a `preprocess` returns shares its floats.  A `preprocess`
computes on the image alone until `convert_and_normalize` stores the floats, one step for each.  `session_->Run`
is a function of the contents of the tensor at the moment it runs.
-/

namespace OnnxInference

open Concurrency

structure CpuBackend where
  net : Net
  bufferSize : Nat
  pdata : Ptr
  /-- `session_->Run` with the shape of its output -/
  session : List ℚ → Except Error (List Nat × List ℚ)

namespace CpuBackend

variable (be : CpuBackend)

def getTensorBuffer : TensorBuffer be.net.batch := .wrap be.net.batch be.pdata

/-- `tensorBuffer()`, whose storage `pdata_` points to; its letterbox parameters are never assigned. -/
def tensorBuffer : TensorBuffer be.net.batch := ⟨be.pdata, fun _ => .zero⟩

def infer (mem : Memory) (tenbuf : TensorBuffer be.net.batch) : Except Error (ModelOutput be.net.batch) := do
  if tenbuf.data ≠ be.pdata then .error (.runtimeError "not found")
  let (shape, data) ← be.session (mem tenbuf.data)
  return ⟨data, shape, tenbuf.letterboxParams⟩

end CpuBackend

/-- What the CPU builds of the runners have in common. -/
structure CpuRunner (O : Type) where
  backend : CpuBackend
  /-- the tensor buffer that `preprocess` starts from -/
  buffer : TensorBuffer backend.net.batch
  data_buffer : buffer.data = backend.pdata
  /-- what `preprocess` computes of the image: `letterbox_params[0]` and the floats it stores -/
  prepare : Mat → Except Error (LetterboxParams × List ℚ)
  length_prepare : ∀ {img params values}, prepare img = .ok (params, values) →
    values.length = backend.net.planeSize
  postprocess : ModelOutput backend.net.batch → Except Error (Outputs 1 O)

namespace CpuRunner

variable {O : Type} (R : CpuRunner O)

abbrev Tensor := TensorBuffer R.backend.net.batch

abbrev Output := ModelOutput R.backend.net.batch

/-- The buffer that `preprocess` returns. -/
def bufferWith (params : LetterboxParams) : R.Tensor :=
  { R.buffer with letterboxParams := Function.update R.buffer.letterboxParams R.backend.net.slot0 params }

/-! ### One image alone -/

def preprocess (mem : Memory) (img : Mat) : Except Error (Memory × R.Tensor) := do
  let (params, values) ← R.prepare img
  let buf := R.bufferWith params
  return (mem.store buf.data 0 values, buf)

/-- `Detector::detect` and `Restorer::restoration`. -/
def detect (mem : Memory) (img : Mat) : Except Error O := do
  let (mem, preOut) ← R.preprocess mem img
  let inferOut ← R.backend.infer mem preOut
  let outs ← R.postprocess inferOut
  return outs.at 0 Nat.one_pos

/-! ### The stages of the scheduler -/

/-- Where a thread stands in `preprocess`. -/
inductive Storing (T : Type)
  | begin (img : Mat)
  | store (buf : T) (values : List ℚ) (i : Nat)

@[reducible] def preprocessProg : Prog Memory Unit Mat R.Tensor Error where
  Local := Storing R.Tensor
  start := .begin
  step _ mem
    | .begin img =>
      match R.prepare img with
      | .error e => some (mem, .inr (.error e))
      | .ok (params, values) => some (mem, .inl (.store (R.bufferWith params) values 0))
    | .store buf values i =>
      if h : i < values.length then some (mem.set buf.data i values[i], .inl (.store buf values (i + 1)))
      else some (mem, .inr (.ok buf))

@[reducible] def inferProg : Prog Memory Unit R.Tensor R.Output Error where
  Local := R.Tensor
  start := id
  step _ mem tenbuf := some (mem, .inr (R.backend.infer mem tenbuf))

@[reducible] def toRunner : Runner Memory Unit Mat R.Tensor R.Output O Error where
  bufferSize := R.backend.bufferSize
  preprocess := R.preprocessProg
  infer := R.inferProg
  postprocess := .ofFn R.postprocess
  destroyOutput _ mem := mem

theorem elim_destroyOutput (o : Option R.Output) (mem : Memory) :
    (o.elim mem fun out => R.toRunner.destroyOutput out mem) = mem := by
  cases o <;> rfl

end CpuRunner

end OnnxInference
