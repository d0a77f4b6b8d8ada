import OnnxInference.Backend.CudaPools
import OnnxInference.Runner.YoloCuda
import OnnxInference.Runner.YoloSlots

/-!
# YOLO as a runner of the CUDA build

`preprocess`, `postprocess` and the copy of the letterbox parameters in `infer`, put together for the schedulers.  A
single call of `preprocess` is cut at `GetTensorBuffer`, which belongs to the backend.  What `session_->Run` makes of
the floats of an input buffer is a parameter; what the filter leaves on the device is a choice of `postprocess`.
-/

namespace OnnxInference

open Concurrency

variable {net : Net} {n : Nat}

/-- What a detector with `n` staging elements works on besides the pools of its backend. -/
structure YoloDevice (net : Net) (n : Nat) where
  staging : { pool : InferTensorBufferPool // pool.Of n }
  streams : StreamMap
  bytes : Nat → UInt8
  mem : Memory
  pools : YoloPostprocess.Pools

namespace YoloDevice

/-- The preprocessing with a tensor buffer; its steps besides `GetTensorBuffer` do not look at the input buffers that
are free. -/
def gpu (device : YoloDevice net n) (tenbuf : TensorBuffer net.batch) : Gpu net :=
  ⟨device.staging, device.streams, device.bytes, .create 0, device.mem, tenbuf⟩

def update (device : YoloDevice net n) (g : Gpu net) (h : g.staging.Of n) : YoloDevice net n :=
  { device with staging := ⟨g.staging, h⟩, streams := g.streams, bytes := g.bytes, mem := g.mem }

end YoloDevice

namespace YoloCuda

variable (D : YoloCuda)

/-! ### Preprocessing -/

/-- The element that a call holds is one of the pool. -/
def PreAt.Owned (n : Nat) (l : PreAt net) : Prop := ∀ p, l.staged = some p → p < n

/-- The part of `preprocess(img)` after `GetTensorBuffer`. -/
def PreAt.Uploads : PreAt net → Prop
  | .copy _ (.own _) _ _ | .kernel _ (.own _) _ _ | .release _ (.own _) _ | .store _ (.own _) => True
  | _ => False

variable {D}

/-- It ends with a buffer and throws nothing: the pool owns the element. -/
theorem PreMove.uploads {g g' : Gpu net} {l : PreAt net}
    {x : PreAt net ⊕ Except Error (Option (TensorBuffer net.batch))} (h : PreMove D g l g' x) (hof : g.staging.Of n)
    (hl : l.Uploads) (hown : l.Owned n) :
    (∃ l', x = .inl l' ∧ l'.Uploads) ∨ ∃ buf, x = .inr (.ok (some buf)) := by
  cases h with
  | acquire | access | own | slot | reject => exact hl.elim
  | @byte _ target | @launch _ target | @thread _ target | @synchronize _ target | @release _ target =>
    cases target with
    | own => exact .inl ⟨_, rfl, trivial⟩
    | slot => exact hl.elim
  | @foreign _ _ p e h =>
    rw [hof.release_eq (hown p rfl)] at h
    cases h
  | storeOwn => exact .inr ⟨_, rfl⟩
  | storeSlot => exact hl.elim

variable (D)

/-- Where a call stands on the device. -/
abbrev DeviceAt (net : Net) (n : Nat) := { l : PreAt net // l.Owned n }

/-- A step of a call on the device, which keeps what is known of the pool and of the element. -/
def deviceStep (c : Option (GpuPreprocess.Thread net.size)) (device : YoloDevice net n)
    (tenbuf : TensorBuffer net.batch) (l : DeviceAt net n) :
    Option ((YoloDevice net n × TensorBuffer net.batch) ×
      (DeviceAt net n ⊕ Except Error (Option (TensorBuffer net.batch)))) :=
  match h : D.preStep c (device.gpu tenbuf) l.1 with
  | none => none
  | some (g, x) =>
    have hof := (PreMove.of_step h).staging_of device.staging.2 l.2
    some ((device.update g hof.1, g.tenbuf),
      match x, hof.2 with
      | .inl l', hown => .inl ⟨l', hown l' rfl⟩
      | .inr r, _ => .inr r)

variable {D}

theorem deviceStep_move {c : Option (GpuPreprocess.Thread net.size)} {device : YoloDevice net n}
    {tenbuf : TensorBuffer net.batch} {l : DeviceAt net n}
    {s : YoloDevice net n × TensorBuffer net.batch}
    {x : DeviceAt net n ⊕ Except Error (Option (TensorBuffer net.batch))}
    (h : D.deviceStep c device tenbuf l = some (s, x)) :
    ∃ g, PreMove D (device.gpu tenbuf) l.1 g (x.map Subtype.val id) ∧ s.2 = g.tenbuf := by
  unfold deviceStep at h
  split at h
  · cases h
  · rename_i g y hy
    cases h
    refine ⟨g, ?_, rfl⟩
    rcases y with l' | r
    · exact PreMove.of_step hy
    · exact PreMove.of_step hy

/-- A step of an upload has a step or a buffer after it. -/
theorem deviceStep_uploads {c : Option (GpuPreprocess.Thread net.size)} {device : YoloDevice net n}
    {tenbuf : TensorBuffer net.batch} {l : DeviceAt net n} (hl : l.1.Uploads)
    {s : YoloDevice net n × TensorBuffer net.batch}
    {x : DeviceAt net n ⊕ Except Error (Option (TensorBuffer net.batch))}
    (h : D.deviceStep c device tenbuf l = some (s, x)) :
    (∃ l', x = .inl l' ∧ l'.1.Uploads) ∨ ∃ buf, x = .inr (.ok (some buf)) := by
  obtain ⟨g, hm, -⟩ := deviceStep_move h
  rcases x with l' | r
  · obtain ⟨l₁, heq, hup⟩ | ⟨_, heq⟩ := hm.uploads device.staging.2 hl l.2
    · cases heq
      exact .inl ⟨l', rfl, hup⟩
    · cases heq
  · obtain ⟨_, heq, -⟩ | ⟨buf, heq⟩ := hm.uploads device.staging.2 hl l.2
    · cases heq
    · cases heq
      exact .inr ⟨buf, rfl⟩

/-! ### The runner -/

variable (D)

/-- What is decided outside of a call: the thread of its kernel that moves, what its synchronizations return and what
the filter has left. -/
structure Choice (net : Net) where
  thread : Option (GpuPreprocess.Thread net.size)
  device : YoloPostprocess.Device net.batch
  cpuFiltered : Fin net.batch → Nat → Fin 6 → ℚ

/-- `preprocess(img, tenbuf, offset)`; the slots of the tasks are those of the batch. -/
def preprocessAtProg (net : Net) (n : Nat) :
    Prog (YoloDevice net n × TensorBuffer net.batch) (Choice net) (Image × Nat) Unit Error where
  Local := Option (DeviceAt net n)
  start i := if h : i.2 < net.batch then some ⟨.acquire i.1 (.batched ⟨i.2, h⟩), nofun⟩ else none
  step c s l := do
    let (s', x) ← D.deviceStep c.thread s.1 s.2 (← l)
    return (s', x.map some (Except.map fun _ => ()))

/-- `preprocess(img)` before `GetTensorBuffer`. -/
def prepareProg (net : Net) (n : Nat) : Prog (YoloDevice net n) (Choice net) Image (Image × Fin n) Error where
  Local := DeviceAt net n
  start img := ⟨.acquire img .single, nofun⟩
  step c device l :=
    match D.deviceStep c.thread device (.wrap net.batch 0) l with
    | some (s, .inl ⟨.prepare img _ p, h⟩) => some (s.1, .inr (.ok (img, ⟨p, h p rfl⟩)))
    | some (s, .inl l') => some (s.1, .inl l')
    -- it does not end before
    | some (_, .inr _) | none => none

/-- `preprocess(img)` after `GetTensorBuffer`. -/
def uploadProg (net : Net) (n : Nat) :
    Prog (YoloDevice net n) (Choice net) ((Image × Fin n) × Ptr) (Fin net.batch → LetterboxParams) Empty where
  Local := { l : DeviceAt net n // l.1.Uploads }
  start i := ⟨⟨.copy i.1.1 (.own i.2) i.1.2 0, by rintro _ ⟨⟩; exact i.1.2.isLt⟩, trivial⟩
  step c device l :=
    match h : D.deviceStep c.thread device (.wrap net.batch 0) l.1 with
    | none => none
    | some (s, x) =>
      match x, deviceStep_uploads l.2 h with
      | .inl l', hx => some (s.1, .inl ⟨l', by simpa using hx⟩)
      | .inr (.ok (some buf)), _ => some (s.1, .inr (.ok buf.letterboxParams))
      | .inr (.ok none), hx => by simp at hx
      | .inr (.error e), hx => by simp at hx

/-- Where a call of `postprocess` stands; what is decided at its first step holds for all of it. -/
structure PostAt (net : Net) where
  at_ : YoloPostprocess.Local net.batch
  out : ModelOutput net.batch
  choice : Option (Choice net)

/-- The results for an image of each slot. -/
def results (c : Choice net) (out : ModelOutput net.batch) :
    YoloPostprocess.Exit → Outputs net.batch (List Candidate)
  | .empty => ⟨List.replicate net.batch [], by simp⟩
  | .detections => ⟨List.ofFn fun b => D.suppress
      (D.candidates (c.device.hostCounts b) (c.cpuFiltered b) (out.letterboxParams b)), by simp⟩

def postprocessProg (net : Net) (n : Nat) : Prog (YoloDevice net n) (Choice net) (DeviceOutput (ModelOutput net.batch))
    (Outputs net.batch (List Candidate)) Error where
  Local := PostAt net
  start out := ⟨.enter out.info, out.info, none⟩
  step c device l :=
    let c := l.choice.getD c
    (YoloPostprocess.step D.maxDetections c.device device.pools l.at_).map fun y =>
      ({ device with pools := y.1 },
        match y.2 with
        | .inl l' => .inl ⟨l', l.out, some c⟩
        | .inr r => .inr (r.map (D.results c l.out)))

/-- YOLO with what `session_->Run` makes of the floats of an input buffer: a shape, and floats. -/
def cudaRunner (net : Net) (n bufferSize : Nat) (pos : 0 < bufferSize)
    (session : List ℚ → Except Error (List Nat × List ℚ)) :
    CudaRunner (YoloDevice net n) (Choice net) (Image × Fin n) (ModelOutput net.batch) Image (List Candidate) where
  bufferSize := bufferSize
  bufferSize_pos := pos
  batch := net.batch
  batch_pos := net.batch_pos
  preprocessAt := D.preprocessAtProg net n
  data_preprocessAt := by
    intro c s l s' x h
    obtain ⟨l, -, h⟩ := Option.bind_eq_some_iff.1 h
    obtain ⟨⟨s₁, y⟩, hy, heq⟩ := Option.bind_eq_some_iff.1 h
    cases heq
    obtain ⟨g, hm, heq⟩ := deviceStep_move hy
    rw [heq]
    exact hm.data_eq
  preprocessBound := ⟨fun l => l.elim 0 fun l => l.1.rank, by
    intro c s s' l l' h
    obtain ⟨l, rfl, h⟩ := Option.bind_eq_some_iff.1 h
    obtain ⟨⟨s₁, y⟩, hy, heq⟩ := Option.bind_eq_some_iff.1 h
    obtain ⟨g, hm, -⟩ := deviceStep_move hy
    rcases y with l₁ | r
    · cases heq
      exact hm.rank_lt
    · cases heq⟩
  prepare := D.prepareProg net n
  upload := D.uploadProg net n
  -- `letterbox_params` of the tensor buffer is copied to that of the output
  run := fun _ device tenbuf _ =>
    (device, (session (device.mem tenbuf.data)).map fun y => ⟨y.2, y.1, tenbuf.letterboxParams⟩)
  postprocess := D.postprocessProg net n
  postprocessBound := ⟨fun l => l.at_.stepsLeft, by
    intro c device device' l l' h
    simp only [postprocessProg, Option.map_eq_some_iff] at h
    obtain ⟨⟨pools, y⟩, hy, heq⟩ := h
    have hlt := (YoloPostprocess.Move.of_step hy).stepsLeft_lt
    rcases y with l₁ | r
    · cases heq
      exact hlt
    · cases heq⟩
  postSteps := 9
  postSteps_le _ := Nat.le_refl 9

/-- `infer` returns the letterbox parameters that it is given, whatever the other threads do meanwhile. -/
theorem letterboxParams_of_infer {bufferSize : Nat} {pos : 0 < bufferSize}
    {session : List ℚ → Except Error (List Nat × List ℚ)} {tenbuf : TensorBuffer net.batch}
    {out : DeviceOutput (ModelOutput net.batch)}
    (h : (D.cudaRunner net n bufferSize pos session).inferProg.Ends tenbuf (.ok out)) :
    out.info.letterboxParams = tenbuf.letterboxParams := by
  obtain ⟨c, device, hrun⟩ := CudaRunner.exists_run_of_ends h
  have hrun' : (session (device.mem tenbuf.data)).map (fun y => (⟨y.2, y.1, tenbuf.letterboxParams⟩ : ModelOutput _)) =
      .ok out.info := hrun
  rcases hs : session (device.mem tenbuf.data) with e | y
  · rw [hs] at hrun'
    cases hrun'
  · rw [hs] at hrun'
    exact congrArg ModelOutput.letterboxParams (Except.ok.inj hrun').symm

/-- A call of `infer` can return what `session_->Run` makes of all floats. -/
theorem ends_infer {bufferSize : Nat} (n : Nat) (pos : 0 < bufferSize) (tenbuf : TensorBuffer net.batch)
    (shape : List Nat) (data : List ℚ) :
    (D.cudaRunner net n bufferSize pos fun _ => .ok (shape, data)).inferProg.Ends tenbuf
      (.ok ⟨0, data, shape, tenbuf.letterboxParams⟩) := by
  let R := D.cudaRunner net n bufferSize pos fun _ => .ok (shape, data)
  let c : Choice net := ⟨none, ⟨true, fun _ => 0, true, false⟩, fun _ _ _ => 0⟩
  -- the only input buffer is that of the call
  let be : CudaBackend (YoloDevice net n) := ⟨⟨tenbuf.data + 1, []⟩, ⟨1, [0]⟩, [tenbuf.data], [0],
    ⟨⟨.create n, .create n⟩, fun _ => none, fun _ => 0, fun _ => [], .create 1⟩⟩
  have hfind : R.inferProg.step c be (.find tenbuf) = some (be, .inl (.acquire tenbuf)) := by
    simp [CudaRunner.inferProg, be]
  have hacquire : R.inferProg.step c be (.acquire tenbuf) =
      some ({ be with gpuOutputBuffer := ⟨1, []⟩ }, .inl (.run tenbuf 0)) := rfl
  have hrun : R.inferProg.step c be (.run tenbuf 0) =
      some (be, .inl (.release tenbuf 0 ⟨data, shape, tenbuf.letterboxParams⟩)) := rfl
  have hrelease : R.inferProg.step c be (.release tenbuf 0 ⟨data, shape, tenbuf.letterboxParams⟩) =
      some ({ be with pool := ⟨tenbuf.data + 1, [tenbuf.data]⟩ },
        .inl (.done 0 ⟨data, shape, tenbuf.letterboxParams⟩)) := by
    simp [CudaRunner.inferProg, be, InferTensorBufferPool.release, InferTensorBufferPool.owns]
  exact ⟨c, be, be, _, .step (.step (.step (.step .start hfind) hacquire) hrun) hrelease, rfl⟩

end YoloCuda

end OnnxInference
