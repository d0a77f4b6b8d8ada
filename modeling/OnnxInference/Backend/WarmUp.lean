import OnnxInference.Backend.CudaPools

/-!
# The warm-up of the backend (`src/backend/InferenceBackend.cpp`, `include/backend/OrtSessionWrapper.h`)

The constructor makes the input tensors and runs the network `cnt` times on empty buffers; the shape of the first
output is what the buffers of later outputs and the runners are made for.  Without a run there is no output, and in
the CUDA build the buffers of the pool have input tensors only if a GPU provider is active (`warm_up_usable_iff`).
-/

namespace OnnxInference.WarmUp

/-- In the CPU build no GPU provider is registered. -/
inductive Build
  | cpu
  | cuda (gpuActive : Bool)
  deriving DecidableEq

/-- The keys of `input_tensors_`: an element of the pool, the storage of `tensorBuffer()`, or what the allocator
gave. -/
inductive Data
  | element (p : Ptr)
  | storage
  | allocated
  deriving DecidableEq

/-- How a call fails: it throws, waits for ever, or what it does is undefined. -/
inductive Failure
  | threw (e : Error)
  | blocked
  | undefined

/-- The backend while its constructor runs; `runs` are the calls of `session_->Run`. -/
structure Backend where
  pool : InferTensorBufferPool
  inputTensors : List Data
  pdata : Data
  runs : Nat
  outputShapes : List Int

/-- The shapes of the tensors of a `ModelOutput`. -/
abbrev Output := List (List Int)

/-- `input_tensor_init`, with a pool of `n` elements in the CUDA build. -/
def inputTensorInit (build : Build) (n : Nat) : Except Failure Backend :=
  match build with
  | .cpu => .ok ⟨.create 0, [.storage], .storage, 0, []⟩
  | .cuda false => .ok ⟨.create n, [.storage], .storage, 0, []⟩
  | .cuda true =>
    match CudaRunner.initTensors n (.create n) with
    | none => .error .blocked
    | some (elements, pool) => .ok ⟨pool, .allocated :: elements.map .element, .allocated, 0, []⟩

section Calls

variable (outputShape : Nat → List Int) (build : Build)

/-- `infer` during the warm-up, where run `i` of the network has an output of the shape `outputShape i`. -/
def infer (be : Backend) (data : Data) : Except Failure (Output × Backend) :=
  if be.inputTensors.contains data then
    let output := [outputShape be.runs]
    let be := { be with runs := be.runs + 1 }
    match build, data with
    | .cuda _, .element p =>
      match be.pool.release p with
      | .ok pool => .ok (output, { be with pool := pool })
      | .error e => .error (.threw e)
    | .cuda _, _ => .error (.threw (.runtimeError "Release not owned py this poll!"))
    | .cpu, _ => .ok (output, be)
  else .error (.threw (.runtimeError "not found"))

/-- The buffer of an iteration. -/
def buffer (i : Nat) (be : Backend) : Except Failure (Data × Backend) :=
  match build with
  | .cuda _ =>
    match be.pool.acquire with
    | none => .error .blocked
    | some (p, pool) => .ok (.element p, { be with pool := pool })
  | .cpu => .ok (if i = 0 then be.pdata else .storage, be)

def iteration (i : Nat) (modelOutput : Output) (be : Backend) : Except Failure (Output × Backend) := do
  let (data, be) ← buffer build i be
  let (output, be) ← infer outputShape build be data
  return (if i = 0 then output else modelOutput, be)

/-- The iterations from `i` on; `++i` of the greatest `int` is undefined. -/
def loop : Nat → Nat → Output → Backend → Except Failure (Output × Backend)
  | 0, _, modelOutput, be => .ok (modelOutput, be)
  | left + 1, i, modelOutput, be => do
    let (modelOutput, be) ← iteration outputShape build i modelOutput be
    if i + 1 < 2 ^ 31 then loop left (i + 1) modelOutput be else .error .undefined

def warmUp (cnt : Nat) (be : Backend) : Except Failure Backend := do
  let (modelOutput, be) ← loop outputShape build cnt 0 [] be
  match modelOutput with
  -- `primary()` of a `ModelOutput` without tensors
  | [] => .error .undefined
  | shape :: _ => return { be with outputShapes := shape }

/-- The part of the constructor up to the warm-up. -/
def construct (n cnt : Nat) : Except Failure Backend := do
  let be ← inputTensorInit build n
  warmUp outputShape build cnt be

/-- The warm-up comes to its end, every element of the pool is free again, and the shape of the output is known. -/
def Usable (n cnt : Nat) : Prop :=
  ∃ be, construct outputShape build n cnt = .ok be ∧ be.outputShapes = outputShape 0 ∧
    ((∃ gpuActive, build = .cuda gpuActive) → be.pool.buffer.Perm (List.range n))

end Calls

/-! ### Iterations -/

section Iterations

variable {outputShape : Nat → List Int} {build : Build} {n i left : Nat} {modelOutput : Output} {be be' : Backend}

/-- All elements of the pool are free, and the buffers of the iterations have input tensors. -/
structure Ready (build : Build) (n : Nat) (be : Backend) : Prop where
  capacity : be.pool.capacity = n
  free : be.pool.buffer.Perm (List.range n)
  tensors : match build with
    | .cpu => be.inputTensors = [.storage] ∧ be.pdata = .storage
    | .cuda _ => ∀ p < n, .element p ∈ be.inputTensors

/-- An iteration runs the network once and leaves the elements free. -/
theorem Ready.iteration (outputShape : Nat → List Int) (h : Ready build n be) (hn : build = .cpu ∨ 1 ≤ n) (i : Nat)
    (modelOutput : Output) :
    ∃ be', WarmUp.iteration outputShape build i modelOutput be =
        .ok (if i = 0 then [outputShape be.runs] else modelOutput, be') ∧
      Ready build n be' ∧ be'.runs = be.runs + 1 := by
  obtain ⟨hcapacity, hfree, htensors⟩ := h
  cases build with
  | cpu =>
    obtain ⟨hinputs, hpdata⟩ := htensors
    refine ⟨{ be with runs := be.runs + 1 }, ?_, ⟨hcapacity, hfree, hinputs, hpdata⟩, rfl⟩
    simp [WarmUp.iteration, buffer, infer, hinputs, hpdata, bind, Except.bind, pure, Except.pure]
  | cuda gpuActive =>
    replace hn : 1 ≤ n := hn.resolve_left (by simp)
    have hne : be.pool.buffer ≠ [] := by
      intro hnil
      rw [hnil, List.nil_perm] at hfree
      have := congrArg List.length hfree
      rw [List.length_range, List.length_nil] at this
      omega
    obtain ⟨⟨p, pool⟩, hp⟩ := InferTensorBufferPool.acquire_of_ne_nil hne
    obtain ⟨hbuffer, hcap⟩ := InferTensorBufferPool.acquire_some hp
    have hlt : p < n := List.mem_range.1 (hfree.subset (hbuffer ▸ List.mem_cons_self))
    have hrel : pool.release p = .ok { pool with buffer := pool.buffer ++ [p] } :=
      InferTensorBufferPool.release_of_lt (by rw [hcap, hcapacity]; exact hlt)
    refine ⟨{ be with pool := { pool with buffer := pool.buffer ++ [p] }, runs := be.runs + 1 }, ?_,
      ⟨hcap.trans hcapacity, ?_, htensors⟩, rfl⟩
    · simp [WarmUp.iteration, buffer, infer, hp, hrel, htensors p hlt, bind, Except.bind, pure, Except.pure]
    · exact (List.perm_append_singleton p pool.buffer).trans (hbuffer ▸ hfree)

theorem loop_succ {modelOutput' : Output}
    (h : WarmUp.iteration outputShape build i modelOutput be = .ok (modelOutput', be')) :
    WarmUp.loop outputShape build (left + 1) i modelOutput be =
      if i + 1 < 2 ^ 31 then WarmUp.loop outputShape build left (i + 1) modelOutput' be' else .error .undefined := by
  rw [WarmUp.loop, h]
  rfl

/-- The iterations come to their end unless there are too many of them. -/
theorem Ready.loop (outputShape : Nat → List Int) (h : Ready build n be) (hn : build = .cpu ∨ 1 ≤ n) (left i : Nat)
    (modelOutput : Output) (hlt : i + left < 2 ^ 31) :
    ∃ be', WarmUp.loop outputShape build left i modelOutput be =
        .ok (if i = 0 ∧ 0 < left then [outputShape be.runs] else modelOutput, be') ∧ Ready build n be' := by
  induction left generalizing i modelOutput be with
  | zero => exact ⟨be, by simp [WarmUp.loop], h⟩
  | succ left ih =>
    obtain ⟨be₁, hstep, hready, -⟩ := h.iteration outputShape hn i modelOutput
    obtain ⟨be₂, hloop, hready'⟩ := ih hready (i + 1) (if i = 0 then [outputShape be.runs] else modelOutput)
      (by omega)
    refine ⟨be₂, ?_, hready'⟩
    rw [loop_succ hstep, if_pos (by omega), hloop, if_neg (by omega)]
    by_cases hi : i = 0 <;> simp [hi]

/-- With too many iterations the counter overflows. -/
theorem Ready.loop_overflow (outputShape : Nat → List Int) (h : Ready build n be) (hn : build = .cpu ∨ 1 ≤ n)
    (left i : Nat) (modelOutput : Output) (hi : i < 2 ^ 31) (hge : 2 ^ 31 ≤ i + left) :
    WarmUp.loop outputShape build left i modelOutput be = .error .undefined := by
  induction left generalizing i modelOutput be with
  | zero => omega
  | succ left ih =>
    obtain ⟨be₁, hstep, hready, -⟩ := h.iteration outputShape hn i modelOutput
    rw [loop_succ hstep]
    split
    · rename_i hnext
      exact ih hready (i + 1) _ hnext (by omega)
    · rfl

/-- Without a GPU provider the elements of the pool have no input tensors. -/
theorem iteration_not_found (htensors : ∀ p, .element p ∉ be.inputTensors) (gpuActive : Bool) (i : Nat)
    (modelOutput : Output) (r : Output × Backend) :
    WarmUp.iteration outputShape (.cuda gpuActive) i modelOutput be ≠ .ok r := by
  intro h
  simp only [WarmUp.iteration, buffer] at h
  cases hp : be.pool.acquire with
  | none =>
    rw [hp] at h
    cases h
  | some x =>
    simp [hp, infer, htensors, bind, Except.bind] at h

end Iterations

/-! ### The constructor -/

section Constructor

variable {outputShape : Nat → List Int} {build : Build} {n cnt : Nat}

/-- The backend has a tensor for every buffer that the warm-up uses, unless no GPU provider is active in the CUDA
build. -/
theorem inputTensorInit_ready (hbuild : build ≠ .cuda false) :
    ∃ be m, inputTensorInit build n = .ok be ∧ Ready build m be ∧ be.runs = 0 ∧ (build = .cpu ∨ m = n) := by
  cases build with
  | cpu => exact ⟨_, 0, rfl, ⟨rfl, by simp [InferTensorBufferPool.create], rfl, rfl⟩, rfl, .inl rfl⟩
  | cuda gpuActive =>
    cases gpuActive with
    | false => exact absurd rfl hbuild
    | true =>
      refine ⟨_, n, by rw [inputTensorInit, CudaRunner.initTensors_create], ⟨rfl, .refl _, ?_⟩, rfl, .inr rfl⟩
      intro p hp
      exact List.mem_cons_of_mem _ (List.mem_map_of_mem (List.mem_range.2 hp))

/-- The warm-up reads the output of its first iteration, which has the elements free again. -/
theorem usable_of_ready {be : Backend} {m : Nat} (hinit : inputTensorInit build n = .ok be)
    (hready : Ready build m be) (hruns : be.runs = 0) (hm : build = .cpu ∨ m = n) (hn : 1 ≤ n)
    (hpos : 1 ≤ cnt) (hlt : cnt < 2 ^ 31) :
    Usable outputShape build n cnt := by
  obtain ⟨be', hloop, hready'⟩ := hready.loop outputShape (hm.imp_right fun (h : m = n) => h ▸ hn) cnt 0 [] (by omega)
  rw [if_pos ⟨rfl, hpos⟩, hruns] at hloop
  refine ⟨{ be' with outputShapes := outputShape 0 }, ?_, rfl, ?_⟩
  · simp [construct, hinit, warmUp, hloop, bind, Except.bind, pure, Except.pure]
  · rintro ⟨gpuActive, rfl⟩
    exact hm.resolve_left (by simp) ▸ hready'.free

/-- Whatever the runs of the network return, the constructor leaves a usable backend exactly if there is an iteration,
the counter of the loop does not overflow, and in the CUDA build a GPU provider is active. -/
theorem warm_up_usable_iff (outputShape : Nat → List Int) (build : Build) (n cnt : Nat) (hn : 1 ≤ n) :
    Usable outputShape build n cnt ↔ 1 ≤ cnt ∧ cnt < 2 ^ 31 ∧ build ≠ .cuda false := by
  by_cases hbuild : build = .cuda false
  · subst hbuild
    refine iff_of_false ?_ fun h => h.2.2 rfl
    rintro ⟨be, hconstruct, -, -⟩
    -- the pool has elements, but none of them is a key of `input_tensors_`
    cases cnt with
    | zero => simp [construct, inputTensorInit, warmUp, WarmUp.loop, bind, Except.bind] at hconstruct
    | succ left =>
      cases hstep : WarmUp.iteration outputShape (.cuda false) 0 [] ⟨.create n, [.storage], .storage, 0, []⟩ with
      | ok r => exact iteration_not_found (by simp) false 0 [] r hstep
      | error e =>
        simp [construct, inputTensorInit, warmUp, WarmUp.loop, hstep, bind, Except.bind] at hconstruct
  · obtain ⟨be, m, hinit, hready, hruns, hm⟩ := inputTensorInit_ready (n := n) hbuild
    have hn' : build = .cpu ∨ 1 ≤ m := hm.imp_right fun (h : m = n) => h ▸ hn
    constructor
    · rintro ⟨be', hconstruct, -, -⟩
      refine ⟨?_, ?_, hbuild⟩
      · by_contra hzero
        obtain rfl : cnt = 0 := by omega
        simp [construct, hinit, warmUp, WarmUp.loop, bind, Except.bind] at hconstruct
      · by_contra hge
        have hloop := hready.loop_overflow outputShape hn' cnt 0 [] (by omega) (by omega)
        simp [construct, hinit, warmUp, hloop, bind, Except.bind] at hconstruct
    · rintro ⟨hpos, hlt, -⟩
      exact usable_of_ready hinit hready hruns hm hn hpos hlt

theorem warm_up_usable_iff_three : (1 : Nat) ≤ 2 ∧ Usable (fun _ => [1, 84, 8400]) (.cuda true) 2 3 :=
  ⟨by decide, (warm_up_usable_iff (fun _ => [1, 84, 8400]) (.cuda true) 2 3 (by decide)).2 (by decide)⟩

/-- By default there is no iteration. -/
theorem default_not_usable : ¬ Usable (fun _ => [1, 84, 8400]) (.cuda true) 2 0 := by
  rintro ⟨be, hconstruct, -, -⟩
  cases hconstruct

end Constructor

end OnnxInference.WarmUp
