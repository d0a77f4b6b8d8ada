import OnnxInference.Backend.CudaRunner
import OnnxInference.Ledger

/-!
# What the stages do to the pools of the backend

`infer` releases the input buffer of its tensor in the step to `done`, on no other path, and what it throws before
leaves the pool as it was.  Preprocess and postprocess do not touch the input buffers after `GetTensorBuffer`.
-/

namespace OnnxInference

open Concurrency

/-- Pools of `n` input buffers and twice as many output buffers, with a tensor for each. -/
structure CudaBackend.Of {D : Type} (n : Nat) (be : CudaBackend D) : Prop where
  pool : be.pool.Of n
  gpuOutputBuffer : be.gpuOutputBuffer.Of (n * 2)
  inputTensors : ∀ p < n, p ∈ be.inputTensors
  outputTensors : ∀ p < n * 2, p ∈ be.outputTensors

theorem CudaBackend.Of.of_pools {D : Type} {n : Nat} {be be' : CudaBackend D} (h : be.Of n) (hpool : be'.pool.Of n)
    (hout : be'.gpuOutputBuffer.Of (n * 2)) (hin : be'.inputTensors = be.inputTensors)
    (houts : be'.outputTensors = be.outputTensors) : be'.Of n :=
  ⟨hpool, hout, hin ▸ h.inputTensors, houts ▸ h.outputTensors⟩

namespace CudaRunner

variable {D C V X Img O : Type} {R : CudaRunner D C V X Img O}

/-! ### The constructor -/

/-- As many rounds as there are buffers in front go through them all, and put them behind the others. -/
theorem initTensors_append {pool : InferTensorBufferPool} {front rest : List Ptr} (hb : pool.buffer = front ++ rest)
    (howns : ∀ p ∈ front, p < pool.capacity) :
    initTensors front.length pool = some (front, { pool with buffer := rest ++ front }) := by
  induction front generalizing pool rest with
  | nil =>
    rw [List.nil_append] at hb
    rw [List.append_nil, ← hb]
    rfl
  | cons p front ih =>
    have hlt : p < pool.capacity := howns p List.mem_cons_self
    have hacq : pool.acquire = some (p, { pool with buffer := front ++ rest }) := by
      rw [InferTensorBufferPool.acquire, hb]
      rfl
    have hrel : InferTensorBufferPool.release { pool with buffer := front ++ rest } p =
        .ok { pool with buffer := front ++ (rest ++ [p]) } := by
      rw [InferTensorBufferPool.release_of_lt (by exact hlt), List.append_assoc]
    have hnext : initTensors front.length { pool with buffer := front ++ (rest ++ [p]) } =
        some (front, { pool with buffer := rest ++ [p] ++ front }) :=
      ih rfl fun q hq => howns q (List.mem_cons_of_mem p hq)
    rw [List.length_cons, initTensors, hacq]
    simp only [Option.bind_eq_bind, Option.bind_some, hrel, Except.toOption, hnext, List.append_assoc]
    rfl

/-- Every buffer of a new pool gets a tensor, and is free again. -/
theorem initTensors_create (n : Nat) : initTensors n (.create n) = some (List.range n, .create n) := by
  have h : initTensors (List.range n).length (.create n) = some (List.range n, ⟨n, [] ++ List.range n⟩) :=
    initTensors_append (List.append_nil _).symm fun p hp => List.mem_range.1 hp
  rw [List.length_range] at h
  exact h

theorem backend_eq (device : D) : R.backend device =
    ⟨.create R.bufferSize, .create (R.bufferSize * 2), List.range R.bufferSize, List.range (R.bufferSize * 2),
      device⟩ := by
  simp only [backend, InferTensorBufferPool.create]
  rw [show initTensors R.bufferSize ⟨R.bufferSize, List.range R.bufferSize⟩ = _ from initTensors_create R.bufferSize,
    show initTensors (R.bufferSize * 2) ⟨R.bufferSize * 2, List.range (R.bufferSize * 2)⟩ = _ from
      initTensors_create (R.bufferSize * 2)]
  rfl

theorem backend_pool (device : D) : (R.backend device).pool = .create R.bufferSize := by rw [backend_eq]

theorem backend_gpuOutputBuffer (device : D) : (R.backend device).gpuOutputBuffer = .create (R.bufferSize * 2) := by
  rw [backend_eq]

theorem backend_of (device : D) : (R.backend device).Of R.bufferSize := by
  rw [backend_eq]
  exact ⟨.create _, .create _, fun p hp => List.mem_range.2 hp, fun p hp => List.mem_range.2 hp⟩

/-! ### The destructors -/

theorem destroyTensor_some {callBack : Ptr} {be be' : CudaBackend D} (h : destroyTensor callBack be = some be') :
    ∃ pool, be.gpuOutputBuffer.release callBack = .ok pool ∧ be' = { be with gpuOutputBuffer := pool } := by
  simp only [destroyTensor] at h
  cases hr : be.gpuOutputBuffer.release callBack with
  | error e => simp [hr, Except.toOption] at h
  | ok pool =>
    rw [hr] at h
    cases h
    exact ⟨pool, rfl, rfl⟩

theorem destroyTensor_of {n : Nat} {callBack : Ptr} {be be' : CudaBackend D} (hbe : be.Of n)
    (h : destroyTensor callBack be = some be') : be'.Of n := by
  obtain ⟨pool, hrel, rfl⟩ := destroyTensor_some h
  exact hbe.of_pools hbe.pool (hbe.gpuOutputBuffer.release hrel) rfl rfl

theorem buffer_of_destroyTensor {callBack : Ptr} {be be' : CudaBackend D} (h : destroyTensor callBack be = some be') :
    (be'.gpuOutputBuffer.buffer : Multiset Ptr) = be.gpuOutputBuffer.buffer + {callBack} := by
  obtain ⟨pool, hrel, rfl⟩ := destroyTensor_some h
  exact InferTensorBufferPool.buffer_of_release hrel

theorem exists_destroyTensor {n : Nat} {be : CudaBackend D} (hbe : be.Of n) {callBack : Ptr}
    (hlt : callBack < n * 2) :
    ∃ be', destroyTensor callBack be = some be' := by
  have hrel := hbe.gpuOutputBuffer.release_eq hlt
  exact ⟨_, by rw [destroyTensor, hrel]; rfl⟩

theorem buffer_destroyOutput {n : Nat} {be : CudaBackend D} (hbe : be.Of n) {out : DeviceOutput X}
    (hlt : out.callBack < n * 2) :
    ((destroyOutput out be).gpuOutputBuffer.buffer : Multiset Ptr) = be.gpuOutputBuffer.buffer + {out.callBack} := by
  obtain ⟨be', h⟩ := exists_destroyTensor hbe hlt
  rw [destroyOutput, h, Option.getD_some]
  exact buffer_of_destroyTensor h

@[simp] theorem destroyOutput_pool (out : DeviceOutput X) (be : CudaBackend D) :
    (destroyOutput out be).pool = be.pool := by
  unfold destroyOutput
  cases h : destroyTensor out.callBack be with
  | none => rfl
  | some be' =>
    obtain ⟨pool, -, rfl⟩ := destroyTensor_some h
    rfl

theorem elim_destroyOutput_pool (o : Option (DeviceOutput X)) (be : CudaBackend D) :
    (o.elim be fun out => destroyOutput out be).pool = be.pool := by
  cases o with
  | none => rfl
  | some out => exact destroyOutput_pool out be

theorem destroyOutput_of {n : Nat} {be : CudaBackend D} (hbe : be.Of n) (out : DeviceOutput X) :
    (destroyOutput out be).Of n := by
  unfold destroyOutput
  cases h : destroyTensor out.callBack be with
  | none => exact hbe
  | some be' => exact destroyTensor_of hbe h

theorem elim_destroyOutput_of {n : Nat} {be : CudaBackend D} (hbe : be.Of n) (o : Option (DeviceOutput X)) :
    (o.elim be fun out => destroyOutput out be).Of n := by
  cases o with
  | none => exact hbe
  | some out => exact destroyOutput_of hbe out

/-! ### `infer` -/

/-- The thread has released the input buffer. -/
def InferAt.released {T : Type} : InferAt T X → Bool
  | .done _ _ => true
  | _ => false

/-- The thread is in the call of `infer` with this tensor. -/
def InferAt.Of {T : Type} (tenbuf : T) : InferAt T X → Prop
  | .find t | .acquire t | .run t _ | .release t _ _ => t = tenbuf
  | .done _ _ => True

/-- The buffer of `gpu_output_buffer_` that the call has acquired. -/
def InferAt.out {T : Type} : InferAt T X → Option Ptr
  | .find _ | .acquire _ => none
  | .run _ out | .release _ out _ | .done out _ => some out

/-- A step of `infer` with the guards it has passed. -/
inductive InferMove (R : CudaRunner D C V X Img O) (c : C) (be : CudaBackend D) :
    InferAt R.Tensor X → CudaBackend D × (InferAt R.Tensor X ⊕ Except Error (DeviceOutput X)) → Prop
  | find {t : R.Tensor} (found : t.data ∈ be.inputTensors) : InferMove R c be (.find t) (be, .inl (.acquire t))
  | notFound {t : R.Tensor} {e : Error} (not : t.data ∉ be.inputTensors) :
      InferMove R c be (.find t) (be, .inr (.error e))
  | acquire {t : R.Tensor} {p : Ptr} {pool : InferTensorBufferPool}
      (got : be.gpuOutputBuffer.acquire = some (p, pool)) :
      InferMove R c be (.acquire t) ({ be with gpuOutputBuffer := pool }, .inl (.run t p))
  | outputNotFound {t : R.Tensor} {p : Ptr} {pool : InferTensorBufferPool} {e : Error}
      (got : be.gpuOutputBuffer.acquire = some (p, pool)) (not : p ∉ be.outputTensors) :
      InferMove R c be (.acquire t) ({ be with gpuOutputBuffer := pool }, .inr (.error e))
  | run {t : R.Tensor} {out : Ptr} {info : X} (ok : (R.run c be.device t out).2 = .ok info) :
      InferMove R c be (.run t out) ({ be with device := (R.run c be.device t out).1 }, .inl (.release t out info))
  | runThrows {t : R.Tensor} {out : Ptr} {e : Error} (throws : (R.run c be.device t out).2 = .error e) :
      InferMove R c be (.run t out) ({ be with device := (R.run c be.device t out).1 }, .inr (.error e))
  | release {t : R.Tensor} {out : Ptr} {info : X} {pool : InferTensorBufferPool}
      (released : be.pool.release t.data = .ok pool) :
      InferMove R c be (.release t out info) ({ be with pool := pool }, .inl (.done out info))
  | releaseThrows {t : R.Tensor} {out : Ptr} {info : X} {e : Error}
      (throws : be.pool.release t.data = .error e) : InferMove R c be (.release t out info) (be, .inr (.error e))
  | done {out : Ptr} {info : X} : InferMove R c be (.done out info) (be, .inr (.ok ⟨out, info⟩))

theorem InferMove.of_step {c : C} {be : CudaBackend D} {l : InferAt R.Tensor X}
    {y : CudaBackend D × (InferAt R.Tensor X ⊕ Except Error (DeviceOutput X))}
    (h : R.inferProg.step c be l = some y) :
    InferMove R c be l y := by
  cases l with
  | find t =>
    simp only [inferProg, Option.some.injEq] at h
    subst h
    by_cases hf : t.data ∈ be.inputTensors
    · rw [if_pos (List.contains_iff_mem.2 hf)]
      exact .find hf
    · rw [if_neg (by rwa [List.contains_iff_mem])]
      exact .notFound hf
  | acquire t =>
    simp only [inferProg, Option.map_eq_some_iff] at h
    obtain ⟨⟨p, pool⟩, hgot, rfl⟩ := h
    by_cases hf : p ∈ be.outputTensors
    · rw [if_pos (List.contains_iff_mem.2 hf)]
      exact .acquire hgot
    · rw [if_neg (by rwa [List.contains_iff_mem])]
      exact .outputNotFound hgot hf
  | run t out =>
    simp only [inferProg, Option.some.injEq] at h
    subst h
    rcases hr : (R.run c be.device t out).2 with e | info
    · exact .runThrows hr
    · exact .run hr
  | release t out info =>
    simp only [inferProg] at h
    cases hr : be.pool.release t.data with
    | error e =>
      simp only [hr, Option.some.injEq] at h
      exact h ▸ .releaseThrows hr
    | ok pool =>
      simp only [hr, Option.some.injEq] at h
      exact h ▸ .release hr
  | done out info =>
    simp only [inferProg, Option.some.injEq] at h
    exact h ▸ .done

theorem InferMove.next {c : C} {be be' : CudaBackend D} {l l' : InferAt R.Tensor X}
    (h : InferMove R c be l (be', .inl l')) {t : R.Tensor} (hl : l.Of t) : l'.Of t := by
  cases h with
  | find | acquire | run => exact hl
  | release => trivial

theorem inferAt_of {t : R.Tensor} {l : R.inferProg.Local} (h : R.inferProg.Reaches t l) : InferAt.Of t l := by
  induction h with
  | start => rfl
  | step _ hs ih => exact (InferMove.of_step hs).next ih

/-- What the call returns is what `session_->Run` has made of its tensor. -/
def InferAt.Ran (R : CudaRunner D C V X Img O) (t : R.Tensor) : InferAt R.Tensor X → Prop
  | .release _ out info | .done out info => ∃ c device, (R.run c device t out).2 = .ok info
  | _ => True

theorem ran_of_reaches {t : R.Tensor} {l : R.inferProg.Local} (h : R.inferProg.Reaches t l) : InferAt.Ran R t l := by
  induction h with
  | start => trivial
  | @step c be be' l l' hl hs ih =>
    have hof := inferAt_of hl
    cases InferMove.of_step hs with
    | find | acquire => trivial
    | run ok =>
      cases hof
      exact ⟨c, be.device, ok⟩
    | release => exact ih

theorem exists_run_of_ends {t : R.Tensor} {out : DeviceOutput X} (h : R.inferProg.Ends t (.ok out)) :
    ∃ c device, (R.run c device t out.callBack).2 = .ok out.info := by
  obtain ⟨c, be, be', l, hl, hs⟩ := h
  have hran := ran_of_reaches hl
  cases InferMove.of_step hs with
  | done => exact hran

/-- `infer` waits for an output buffer only. -/
theorem infer_waits {c : C} {be : CudaBackend D} {l : InferAt R.Tensor X} (h : R.inferProg.step c be l = none) :
    ∃ t, l = .acquire t ∧ be.gpuOutputBuffer.buffer = [] := by
  cases l with
  | acquire t =>
    refine ⟨t, rfl, ?_⟩
    by_contra hne
    obtain ⟨x, hx⟩ := InferTensorBufferPool.acquire_of_ne_nil hne
    simp [inferProg, hx] at h
  | find | run | done => cases h
  | release t out info =>
    simp only [inferProg] at h
    split at h <;> cases h

/-! ### Input buffers -/

/-- The inference task has not released its input buffer, and has not ended with an exception. -/
def Keeps {I L : Type} (released : L → Bool) : Task I L (DeviceOutput X) Error → Bool
  | .queued _ | .start _ | .returned (.error _) => true
  | .execute l => !released l
  | _ => false

/-- The inference task has ended with an exception. -/
def Fails {I L : Type} : Task I L (DeviceOutput X) Error → Bool
  | .ending (.error _) | .finished (.error _) => true
  | _ => false

/-- The buffer, if the condition holds. -/
def unit (p : Ptr) (b : Bool) : Multiset Ptr := if b then {p} else 0

@[simp] theorem unit_true (p : Ptr) : unit p true = {p} := rfl
@[simp] theorem unit_false (p : Ptr) : unit p false = 0 := rfl

/-- What a step of `infer` does to the input buffers: what leaves the call is in the pool. -/
theorem InferMove.pool_eq {c : C} {be : CudaBackend D} {l : InferAt R.Tensor X}
    {y : CudaBackend D × (InferAt R.Tensor X ⊕ Except Error (DeviceOutput X))} (h : InferMove R c be l y)
    {t : R.Tensor}
    (hl : l.Of t) :
    (y.1.pool.buffer : Multiset Ptr) + unit t.data (Keeps InferAt.released (.ofStep y.2 : Task Unit _ _ _)) =
      be.pool.buffer + unit t.data !l.released := by
  cases h with
  | release released =>
    cases hl
    exact (add_zero _).trans (InferTensorBufferPool.buffer_of_release released)
  | _ => rfl

/-- The output buffer that a task of the inference stage has acquired, until it ends. -/
def outOf {I L : Type} (out : L → Option Ptr) : Task I L (DeviceOutput X) Error → Option Ptr
  | .execute l => out l
  | .returned (.ok o) => some o.callBack
  | _ => none

/-- What a step of `infer` that throws nothing does to the output buffers. -/
theorem InferMove.out_eq {c : C} {be : CudaBackend D} {l : InferAt R.Tensor X}
    {y : CudaBackend D × (InferAt R.Tensor X ⊕ Except Error (DeviceOutput X))} (h : InferMove R c be l y)
    (hok : ∀ e, y.2 ≠ .inr (.error e)) :
    (y.1.gpuOutputBuffer.buffer : Multiset Ptr) +
    ((outOf InferAt.out (.ofStep y.2 : Task Unit _ _ _)).toList : Multiset Ptr) =
      be.gpuOutputBuffer.buffer + (l.out.toList : Multiset Ptr) := by
  cases h with
  | acquire got => exact (InferTensorBufferPool.buffer_of_acquire got).symm.trans (add_zero _).symm
  | notFound | outputNotFound | runThrows | releaseThrows => exact absurd rfl (hok _)
  | _ => rfl

theorem InferMove.backend_of {c : C} {be : CudaBackend D} {l : InferAt R.Tensor X}
    {y : CudaBackend D × (InferAt R.Tensor X ⊕ Except Error (DeviceOutput X))} (h : InferMove R c be l y) {n : Nat}
    (hbe : be.Of n) : y.1.Of n := by
  cases h with
  | release released => exact hbe.of_pools (hbe.pool.release released) hbe.gpuOutputBuffer rfl rfl
  | acquire got | outputNotFound got => exact hbe.of_pools hbe.pool (hbe.gpuOutputBuffer.acquire got).2 rfl rfl
  | _ => exact hbe.of_pools hbe.pool hbe.gpuOutputBuffer rfl rfl

theorem InferMove.not_released {c : C} {be be' : CudaBackend D} {l : InferAt R.Tensor X} {e : Error}
    (h : InferMove R c be l (be', .inr (.error e))) : l.released = false := by
  cases h <;> rfl

/-- `infer` throws only what `session_->Run` throws, when the pools own what they gave out. -/
theorem InferMove.throws {c : C} {be be' : CudaBackend D} {l : InferAt R.Tensor X} {e : Error}
    (h : InferMove R c be l (be', .inr (.error e))) {t : R.Tensor} (hl : l.Of t) {n : Nat} (hbe : be.Of n)
    (ht : t.data < n) : ∃ out, l = .run t out ∧ (R.run c be.device t out).2 = .error e := by
  cases h with
  | notFound not =>
    cases hl
    exact absurd (hbe.inputTensors _ ht) not
  | outputNotFound got not => exact absurd (hbe.outputTensors _ (hbe.gpuOutputBuffer.acquire got).1) not
  | runThrows throws =>
    cases hl
    exact ⟨_, rfl, throws⟩
  | releaseThrows throws =>
    cases hl
    rw [hbe.pool.release_eq ht] at throws
    cases throws

theorem InferMove.not_error {c : C} {be : CudaBackend D} {l : InferAt R.Tensor X}
    {y : CudaBackend D × (InferAt R.Tensor X ⊕ Except Error (DeviceOutput X))} (h : InferMove R c be l y)
    {t : R.Tensor} (hl : l.Of t) {n : Nat} (hbe : be.Of n) (ht : l.released = false → t.data < n)
    (hrun : ∀ out e, l = .run t out → (R.run c be.device t out).2 ≠ .error e) (e : Error) :
    y.2 ≠ .inr (.error e) := by
  intro he
  obtain ⟨be', z⟩ := y
  cases he
  obtain ⟨out, hat, hthrow⟩ := h.throws hl hbe (ht h.not_released)
  exact hrun out e hat hthrow

/-! ### The other stages -/

theorem preprocessAt_keeps {c : C} {s : CudaBackend D × R.Tensor} {l : R.preprocessAt.Local}
    {y : (CudaBackend D × R.Tensor) × (R.preprocessAt.Local ⊕ Except Error Unit)}
    (h : R.preprocessAtProg.step c s l = some y) :
    (∃ device, y.1.1 = { s.1 with device := device }) ∧ y.1.2.data = s.2.data := by
  simp only [preprocessAtProg, Option.map_eq_some_iff] at h
  obtain ⟨z, hz, rfl⟩ := h
  exact ⟨⟨z.1.1, rfl⟩, R.data_preprocessAt hz⟩

theorem device_of {n : Nat} {be : CudaBackend D} (hbe : be.Of n) (device : D) :
    CudaBackend.Of n { be with device := device } := hbe.of_pools hbe.pool hbe.gpuOutputBuffer rfl rfl

/-- The input buffer that a preprocess task has acquired, until it ends. -/
def preHeld {I L L' : Type} : Task I (PreAt L L' V) R.Tensor Error → Option Ptr
  | .execute (.upload data _) => some data
  | .returned (.ok tenbuf) => some tenbuf.data
  | _ => none

/-- What a step of preprocess does to the input buffers: what leaves the pool is with the task. -/
theorem preprocess_keeps {c : C} {be : CudaBackend D} {l : PreAt R.prepare.Local R.upload.Local V}
    {y : CudaBackend D × (PreAt R.prepare.Local R.upload.Local V ⊕ Except Error R.Tensor)}
    (h : R.preprocessProg.step c be l = some y) {n : Nat} (hbe : be.Of n) :
    y.1.Of n ∧ (y.1.pool.buffer : Multiset Ptr) +
        ((preHeld (R := R) (.ofStep y.2 : Task Img _ _ _)).toList : Multiset Ptr) =
      be.pool.buffer + ((preHeld (R := R) (.execute l : Task Img _ _ _)).toList : Multiset Ptr) := by
  cases l with
  | prepare l =>
    simp only [preprocessProg, Option.map_eq_some_iff] at h
    obtain ⟨⟨device, l' | e | v⟩, -, rfl⟩ := h <;> exact ⟨device_of hbe _, rfl⟩
  | acquire v =>
    simp only [preprocessProg, getTensorBuffer, Option.map_map, Option.map_eq_some_iff] at h
    obtain ⟨⟨p, pool⟩, hacq, rfl⟩ := h
    refine ⟨hbe.of_pools (hbe.pool.acquire hacq).2 hbe.gpuOutputBuffer rfl rfl, ?_⟩
    exact (InferTensorBufferPool.buffer_of_acquire hacq).symm.trans (add_zero _).symm
  | upload data l =>
    simp only [preprocessProg, Option.map_eq_some_iff] at h
    obtain ⟨⟨device, l' | e | params⟩, -, rfl⟩ := h
    · exact ⟨device_of hbe _, rfl⟩
    · exact e.elim
    · exact ⟨device_of hbe _, rfl⟩

section Postprocess

variable {O' : Type} {f : Outputs R.batch O → O'}

def PostAt.callBack {L : Type} : PostAt L O' → Ptr
  | .body callBack _ | .destroy callBack _ => callBack

/-- A step of the body of `postprocess`, or the destructor of its local tensor. -/
inductive PostMove {L : Type} (be : CudaBackend D) (l : PostAt L (Outputs R.batch O)) :
    CudaBackend D × (PostAt L (Outputs R.batch O) ⊕ Except Error O') → Prop
  | body {device : D} {l' : PostAt L (Outputs R.batch O)} (same : l'.callBack = l.callBack) :
      PostMove be l ({ be with device := device }, .inl l')
  | destroy {be' : CudaBackend D} {r : Except Error O'} (destroyed : destroyTensor l.callBack be = some be') :
      PostMove be l (be', .inr r)

theorem PostMove.of_step {c : C} {be : CudaBackend D} {l : PostAt R.postprocess.Local (Outputs R.batch O)}
    {y : CudaBackend D × (PostAt R.postprocess.Local (Outputs R.batch O) ⊕ Except Error O')}
    (h : (R.postprocessProg f).step c be l = some y) : PostMove be l y := by
  cases l with
  | body callBack l =>
    simp only [postprocessProg, Option.map_eq_some_iff] at h
    obtain ⟨⟨device, l' | r⟩, -, rfl⟩ := h
    · exact .body rfl
    · exact .body rfl
  | destroy callBack r =>
    simp only [postprocessProg, Option.map_eq_some_iff] at h
    obtain ⟨be', hbe, rfl⟩ := h
    exact .destroy hbe

variable {L : Type} {be : CudaBackend D} {l : PostAt L (Outputs R.batch O)}
  {y : CudaBackend D × (PostAt L (Outputs R.batch O) ⊕ Except Error O')}

theorem PostMove.pool_eq (h : PostMove be l y) : y.1.pool = be.pool := by
  cases h with
  | body => rfl
  | destroy destroyed =>
    obtain ⟨pool, -, heq⟩ := destroyTensor_some destroyed
    rw [heq]

theorem PostMove.buffer_eq (h : PostMove be l y) :
    (y.1.gpuOutputBuffer.buffer : Multiset Ptr) = be.gpuOutputBuffer.buffer ∨
      (y.1.gpuOutputBuffer.buffer : Multiset Ptr) = be.gpuOutputBuffer.buffer + {l.callBack} := by
  cases h with
  | body => exact .inl rfl
  | destroy destroyed => exact .inr (buffer_of_destroyTensor destroyed)

theorem PostMove.backend_of (h : PostMove be l y) {n : Nat} (hbe : be.Of n) : y.1.Of n := by
  cases h with
  | body => exact device_of hbe _
  | destroy destroyed => exact destroyTensor_of hbe destroyed

theorem postAt_callBack {out : DeviceOutput X} {l : (R.postprocessProg f).Local}
    (h : (R.postprocessProg f).Reaches out l) : PostAt.callBack l = out.callBack := by
  induction h with
  | start => rfl
  | step _ hs ih =>
    cases PostMove.of_step hs with
    | body same => exact same.trans ih

end Postprocess

end CudaRunner

end OnnxInference
