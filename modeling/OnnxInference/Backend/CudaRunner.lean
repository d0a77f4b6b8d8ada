import OnnxInference.BufferPool
import OnnxInference.Scheduler.AsyncScheduler
import OnnxInference.Scheduler.BatchScheduler

/-!
# Runners of the CUDA build (`include/backend/`, `src/runner/`)

The backend has a pool of input buffers and one of twice as many output buffers.  `GetTensorBuffer` acquires an input
buffer, and `infer` gives it back after `session_->Run`.  `infer` also acquires an output buffer, which the tensor of
the `ModelOutput` and its copy in `postprocess` both give back in their destructors; so it is in YoloDetector and
NAFNet, while `ResNet::postprocess` takes a reference and makes no copy.  What preprocess, `session_->Run` and
postprocess do besides is a parameter; `NAFNet.cudaRunner` and `YoloCuda.cudaRunner` are the two runners.  A GPU
provider is active: without one the warm-up of the constructor throws, since `input_tensors_` has no tensor for a buffer
of the pool.
-/

namespace OnnxInference

open Concurrency

/-- The two pools, the keys of `input_tensors_` and `output_tensors_` that are buffers of these, and the state of
everything else that the runner works on. -/
structure CudaBackend (D : Type) where
  pool : InferTensorBufferPool
  gpuOutputBuffer : InferTensorBufferPool
  inputTensors : List Ptr
  outputTensors : List Ptr
  device : D

/-- The tensor of a `ModelOutput`: the output buffer that its `call_back` releases, and what is known of it besides. -/
structure DeviceOutput (X : Type) where
  callBack : Ptr
  info : X

/-- What the CUDA builds of the runners do apart from the two pools.  The steps of preprocess and postprocess may depend
on a choice, and may wait. -/
structure CudaRunner (D C V X Img O : Type) where
  bufferSize : Nat
  bufferSize_pos : 0 < bufferSize
  batch : Nat
  batch_pos : 0 < batch
  /-- `preprocess(img, tenbuf, offset)` -/
  preprocessAt : Prog (D × TensorBuffer batch) C (Img × Nat) Unit Error
  data_preprocessAt : ∀ {c s l s' x}, preprocessAt.step c s l = some (s', x) → s'.2.data = s.2.data
  preprocessBound : preprocessAt.StepBound
  /-- `preprocess(img)` before `GetTensorBuffer` -/
  prepare : Prog D C Img V Error
  /-- `preprocess(img)` after `GetTensorBuffer`, which throws nothing -/
  upload : Prog D C (V × Ptr) (Fin batch → LetterboxParams) Empty
  /-- `session_->Run` -/
  run : C → D → TensorBuffer batch → Ptr → D × Except Error X
  postprocess : Prog D C (DeviceOutput X) (Outputs batch O) Error
  postprocessBound : postprocess.StepBound
  postSteps : Nat
  postSteps_le : ∀ out, postprocessBound.rank (postprocess.start out) ≤ postSteps

namespace CudaRunner

variable {D C V X Img O : Type} (R : CudaRunner D C V X Img O)

abbrev Tensor := TensorBuffer R.batch

/-- The loops of `input_tensor_init` and `output_tensor_init`: `i` times a buffer is acquired, gets a tensor, and is
released.  `none` if the pool makes the loop wait or throws. -/
def initTensors : Nat → InferTensorBufferPool → Option (List Ptr × InferTensorBufferPool)
  | 0, pool => some ([], pool)
  | i + 1, pool => do
    let (data, pool) ← pool.acquire
    let pool ← (pool.release data).toOption
    let (tensors, pool) ← initTensors i pool
    return (data :: tensors, pool)

/-- The backend when its constructor has made the tensors.  The warm-up at the end of the constructor takes buffers of
both pools and gives them back, so it changes nothing but the order of the two queues. -/
def backend (device : D) : CudaBackend D :=
  let pool := InferTensorBufferPool.create R.bufferSize
  let gpuOutputBuffer := InferTensorBufferPool.create (R.bufferSize * 2)
  let inputs := (initTensors pool.capacity pool).getD ([], pool)
  let outputs := (initTensors gpuOutputBuffer.capacity gpuOutputBuffer).getD ([], gpuOutputBuffer)
  ⟨inputs.2, outputs.2, inputs.1, outputs.1, device⟩

/-- `none` while the caller waits. -/
def getTensorBuffer (be : CudaBackend D) : Option (R.Tensor × CudaBackend D) :=
  be.pool.acquire.map fun x => (.wrap R.batch x.1, { be with pool := x.2 })

/-- Where a thread stands in `preprocess(img)`. -/
inductive PreAt (L L' V : Type)
  | prepare (l : L)
  | acquire (v : V)
  | upload (data : Ptr) (l : L')

@[reducible] def preprocessProg : Prog (CudaBackend D) C Img R.Tensor Error where
  Local := PreAt R.prepare.Local R.upload.Local V
  start img := .prepare (R.prepare.start img)
  step c be
    | .prepare l =>
      (R.prepare.step c be.device l).map fun y =>
        ({ be with device := y.1 },
          match y.2 with
          | .inl l' => .inl (.prepare l')
          | .inr (.ok v) => .inl (.acquire v)
          | .inr (.error e) => .inr (.error e))
    | .acquire v =>
      (R.getTensorBuffer be).map fun y => (y.2, .inl (.upload y.1.data (R.upload.start (v, y.1.data))))
    | .upload data l =>
      (R.upload.step c be.device l).map fun y =>
        ({ be with device := y.1 },
          match y.2 with
          | .inl l' => .inl (.upload data l')
          | .inr (.ok params) => .inr (.ok ⟨data, params⟩)
          | .inr (.error e) => e.elim)

/-- `preprocess(img, tenbuf, offset)` does not touch the pools of the backend. -/
@[reducible] def preprocessAtProg : Prog (CudaBackend D × R.Tensor) C (Img × Nat) Unit Error where
  Local := R.preprocessAt.Local
  start := R.preprocessAt.start
  step c s l :=
    (R.preprocessAt.step c (s.1.device, s.2) l).map fun y => (({ s.1 with device := y.1.1 }, y.1.2), y.2)

/-- Where a thread stands in `infer(tenbuf)`. -/
inductive InferAt (T X : Type)
  | find (tenbuf : T)
  | acquire (tenbuf : T)
  | run (tenbuf : T) (outputBufferPtr : Ptr)
  | release (tenbuf : T) (outputBufferPtr : Ptr) (info : X)
  | done (outputBufferPtr : Ptr) (info : X)

/-- `OrtSessionWrapper::infer`. -/
@[reducible] def inferProg : Prog (CudaBackend D) C R.Tensor (DeviceOutput X) Error where
  Local := InferAt R.Tensor X
  start := .find
  step c be
    | .find tenbuf =>
      some (be,
        if be.inputTensors.contains tenbuf.data then .inl (.acquire tenbuf)
        else .inr (.error (.runtimeError "not found")))
    | .acquire tenbuf =>
      be.gpuOutputBuffer.acquire.map fun x =>
        ({ be with gpuOutputBuffer := x.2 },
          if be.outputTensors.contains x.1 then .inl (.run tenbuf x.1)
          else .inr (.error (.runtimeError "output buffer not found!")))
    | .run tenbuf out =>
      let (device, r) := R.run c be.device tenbuf out
      some ({ be with device := device },
        match r with
        | .ok info => .inl (.release tenbuf out info)
        | .error e => .inr (.error e))
    | .release tenbuf out info =>
      match be.pool.release tenbuf.data with
      | .ok pool => some ({ be with pool := pool }, .inl (.done out info))
      | .error e => some (be, .inr (.error e))
    | .done out info => some (be, .inr (.ok ⟨out, info⟩))

/-- `~TensorBuffer` of a tensor with a call back; `none` is a destructor that throws, which ends the process. -/
def destroyTensor (callBack : Ptr) (be : CudaBackend D) : Option (CudaBackend D) :=
  (be.gpuOutputBuffer.release callBack).toOption.map fun pool => { be with gpuOutputBuffer := pool }

/-- Where a thread stands in `postprocess`. -/
inductive PostAt (L O' : Type)
  | body (callBack : Ptr) (l : L)
  /-- the destructor of the local tensor, whether the body has returned or thrown -/
  | destroy (callBack : Ptr) (r : Except Error O')

/-- `postprocess`, of whose outputs the scheduler keeps `f`. -/
@[reducible] def postprocessProg {O' : Type} (f : Outputs R.batch O → O') :
    Prog (CudaBackend D) C (DeviceOutput X) O' Error where
  Local := PostAt R.postprocess.Local (Outputs R.batch O)
  start out := .body out.callBack (R.postprocess.start out)
  step c be
    | .body callBack l =>
      (R.postprocess.step c be.device l).map fun y =>
        ({ be with device := y.1 },
          match y.2 with
          | .inl l' => .inl (.body callBack l')
          | .inr r => .inl (.destroy callBack r))
    | .destroy callBack r => (destroyTensor callBack be).map fun be' => (be', .inr (r.map f))

/-- `~ModelOutput`; the pool owns the buffer, so its destructor does not throw. -/
def destroyOutput (out : DeviceOutput X) (be : CudaBackend D) : CudaBackend D :=
  (destroyTensor out.callBack be).getD be

@[reducible] def toBatchRunner : BatchRunner (CudaBackend D) C Img R.Tensor (DeviceOutput X) O Error where
  bufferSize := R.bufferSize
  bufferSize_pos := R.bufferSize_pos
  batchSize := R.batch
  batchSize_pos := R.batch_pos
  getTensorBuffer := R.getTensorBuffer
  valid _ := true
  valid_of_getTensorBuffer _ := rfl
  preprocess := R.preprocessAtProg
  infer := R.inferProg
  postprocess := R.postprocessProg id
  destroyOutput := destroyOutput

@[reducible] def toRunner : Runner (CudaBackend D) C Img R.Tensor (DeviceOutput X) O Error where
  bufferSize := R.bufferSize
  preprocess := R.preprocessProg
  infer := R.inferProg
  postprocess := R.postprocessProg fun outs => ⟨outs.1, Nat.le_trans R.batch_pos outs.2⟩
  destroyOutput := destroyOutput

end CudaRunner

end OnnxInference
