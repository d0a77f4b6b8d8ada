import OnnxInference.BufferPool
import OnnxInference.Calls

/-!
# The pools of `YoloDetector::postprocess` (`src/runner/detect/YoloDetector.cpp`, CUDA build)

A call takes a buffer for the filtered detections, one for the counts and one in host memory.  The first two go back
by hand, after the second synchronization; the third goes back wherever the shared pointer ends.  The early exits
come before the releases by hand.  What the device and OpenCV do in a call is its `Device` choice.
-/

namespace OnnxInference.YoloPostprocess

open Concurrency Transition

structure Pools where
  dFiltered : InferTensorBufferPool
  dCount : InferTensorBufferPool
  cpu : BufferPool

def Pools.create (bufSize : Nat) : Pools := ⟨.create bufSize, .create bufSize, .create bufSize⟩

/-- What the two calls of `cudaStreamSynchronize` return, the counts read back, and whether `NMSBoxes` throws. -/
structure Device (batch : Nat) where
  sync1 : Bool
  hostCounts : Fin batch → Int
  sync2 : Bool
  nmsThrows : Bool

/-- The two kinds of results: a vector of `batch` empty lists, or what is left after the suppression of boxes. -/
inductive Exit
  | empty
  | detections

/-- Where a call stands, with the buffers it holds. -/
inductive Local (batch : Nat)
  | enter (out : ModelOutput batch)
  | acquireFiltered
  | acquireCount (dFiltered : Ptr)
  | filter (dFiltered dCount : Ptr)
  | acquireCpu (dFiltered dCount : Ptr)
  | copy (dFiltered dCount cpuFiltered : Ptr)
  | releaseFiltered (dFiltered dCount cpuFiltered : Ptr)
  | releaseCount (dCount cpuFiltered : Ptr)
  | decode (cpuFiltered : Ptr)

variable {batch : Nat}

/-- The counts clamped to the buffer and added up. -/
def Device.totalDets (o : Device batch) (maxDetections : Nat) : Int :=
  (List.ofFn fun b => max 0 (min (o.hostCounts b) maxDetections)).sum

/-- The model output passes the check at the start. -/
def Accepted (out : ModelOutput batch) : Bool := out.valid && out.shape.length == 3

/-- One step of a call; the end of the scope of `cpu_filtered` is the last one. -/
def step (maxDetections : Nat) (o : Device batch) (pools : Pools) :
    Local batch → Option (Pools × (Local batch ⊕ Except Error Exit))
  | .enter out =>
    if Accepted out then some (pools, .inl .acquireFiltered)
    else some (pools, .inr (.error (.runtimeError "Model output is invalid.")))
  | .acquireFiltered =>
    pools.dFiltered.acquire.map fun x => ({ pools with dFiltered := x.2 }, .inl (.acquireCount x.1))
  | .acquireCount dFiltered =>
    pools.dCount.acquire.map fun x => ({ pools with dCount := x.2 }, .inl (.filter dFiltered x.1))
  | .filter dFiltered dCount =>
    if !o.sync1 then some (pools, .inr (.ok .empty))
    else if o.totalDets maxDetections = 0 then some (pools, .inr (.ok .empty))
    else some (pools, .inl (.acquireCpu dFiltered dCount))
  | .acquireCpu dFiltered dCount =>
    pools.cpu.acquire.map fun x => ({ pools with cpu := x.2 }, .inl (.copy dFiltered dCount x.1))
  | .copy dFiltered dCount cpuFiltered =>
    if !o.sync2 then some ({ pools with cpu := pools.cpu.delete cpuFiltered }, .inr (.ok .empty))
    else some (pools, .inl (.releaseFiltered dFiltered dCount cpuFiltered))
  | .releaseFiltered dFiltered dCount cpuFiltered =>
    match pools.dFiltered.release dFiltered with
    | .ok pool => some ({ pools with dFiltered := pool }, .inl (.releaseCount dCount cpuFiltered))
    | .error e => some ({ pools with cpu := pools.cpu.delete cpuFiltered }, .inr (.error e))
  | .releaseCount dCount cpuFiltered =>
    match pools.dCount.release dCount with
    | .ok pool => some ({ pools with dCount := pool }, .inl (.decode cpuFiltered))
    | .error e => some ({ pools with cpu := pools.cpu.delete cpuFiltered }, .inr (.error e))
  | .decode cpuFiltered =>
    some ({ pools with cpu := pools.cpu.delete cpuFiltered },
      .inr (if o.nmsThrows then .error .cvException else .ok .detections))

def postprocess (batch maxDetections : Nat) : Prog Pools (Device batch) (ModelOutput batch) Exit Error where
  Local := Local batch
  start := .enter
  step o pools l := step maxDetections o pools l

/-- One call, without other threads; it takes at most nine steps. -/
def call (maxDetections : Nat) (o : Device batch) (pools : Pools) (out : ModelOutput batch) :
    Option (Pools × Except Error Exit) :=
  (postprocess batch maxDetections).exec o 9 pools (.enter out)

/-- The pools have the same free elements. -/
structure Conserved (pools pools' : Pools) : Prop where
  dFiltered : pools'.dFiltered.buffer.Perm pools.dFiltered.buffer
  dCount : pools'.dCount.buffer.Perm pools.dCount.buffer
  cpu : pools'.cpu.que.Perm pools.cpu.que

/-- The read-back counts have a detection that is kept. -/
def Device.Detects (o : Device batch) (maxDetections : Nat) : Prop := 0 < maxDetections ∧ ∃ b, 0 < o.hostCounts b

/-- Every free buffer is one of its pool. -/
structure Pools.Valid (pools : Pools) : Prop where
  dFiltered : ∀ p ∈ pools.dFiltered.buffer, p < pools.dFiltered.capacity
  dCount : ∀ p ∈ pools.dCount.buffer, p < pools.dCount.capacity

theorem Device.totalDets_eq_zero_iff (o : Device batch) (maxDetections : Nat) :
    o.totalDets maxDetections = 0 ↔ ¬o.Detects maxDetections := by
  have hterm : ∀ b ∈ Finset.univ, 0 ≤ max 0 (min (o.hostCounts b) (maxDetections : Int)) := fun _ _ => le_max_left _ _
  rw [totalDets, List.sum_ofFn, Finset.sum_eq_zero_iff_of_nonneg hterm]
  constructor
  · rintro h ⟨hmax, b, hb⟩
    have := h b (Finset.mem_univ b)
    omega
  · intro h b _
    by_contra hne
    exact h ⟨by omega, b, by omega⟩

/-! ### One call -/

/-- The first synchronization succeeds and something is detected, so the call goes on to the host buffer. -/
def Device.Filters (o : Device batch) (maxDetections : Nat) : Prop := o.sync1 ∧ o.Detects maxDetections

theorem step_filter_of {maxDetections : Nat} {o : Device batch} (h : o.Filters maxDetections) (pools : Pools)
    (p q : Ptr) : step maxDetections o pools (.filter p q) = some (pools, .inl (.acquireCpu p q)) := by
  have hne : o.totalDets maxDetections ≠ 0 := fun h0 => (o.totalDets_eq_zero_iff maxDetections).1 h0 h.2
  simp [step, h.1, hne]

theorem step_filter_of_not {maxDetections : Nat} {o : Device batch} (h : ¬o.Filters maxDetections) (pools : Pools)
    (p q : Ptr) : step maxDetections o pools (.filter p q) = some (pools, .inr (.ok .empty)) := by
  by_cases hs : o.sync1 = true
  · have h0 : o.totalDets maxDetections = 0 := (o.totalDets_eq_zero_iff maxDetections).2 fun hd => h ⟨hs, hd⟩
    simp [step, hs, h0]
  · simp [step, hs]

/-- A call that passes the check and finds its two device buffers arrives at the filter. -/
theorem call_of_acquire {maxDetections : Nat} {o : Device batch} {pools : Pools} {out : ModelOutput batch} {p q : Ptr}
    {dFiltered dCount : InferTensorBufferPool} (hout : Accepted out = true)
    (hp : pools.dFiltered.acquire = some (p, dFiltered)) (hq : pools.dCount.acquire = some (q, dCount)) :
    call maxDetections o pools out =
      (postprocess batch maxDetections).exec o 6 ⟨dFiltered, dCount, pools.cpu⟩ (.filter p q) := by
  have h1 : step maxDetections o pools (.enter out) = some (pools, .inl .acquireFiltered) := by simp [step, hout]
  have h2 : step maxDetections o pools .acquireFiltered =
      some (⟨dFiltered, pools.dCount, pools.cpu⟩, .inl (.acquireCount p)) := by simp [step, hp]
  have h3 : step maxDetections o ⟨dFiltered, pools.dCount, pools.cpu⟩ (.acquireCount p) =
      some (⟨dFiltered, dCount, pools.cpu⟩, .inl (.filter p q)) := by simp [step, hq]
  exact (Prog.exec_of_inl _ h1 8).trans ((Prog.exec_of_inl _ h2 7).trans (Prog.exec_of_inl _ h3 6))

/-- An exit at the filter leaves both device buffers behind. -/
theorem call_of_not_filters {maxDetections : Nat} {o : Device batch} {pools : Pools} {out : ModelOutput batch}
    {p q : Ptr} {dFiltered dCount : InferTensorBufferPool} (hout : Accepted out = true)
    (hp : pools.dFiltered.acquire = some (p, dFiltered)) (hq : pools.dCount.acquire = some (q, dCount))
    (hf : ¬o.Filters maxDetections) :
    call maxDetections o pools out = some (⟨dFiltered, dCount, pools.cpu⟩, .ok .empty) :=
  (call_of_acquire hout hp hq).trans (Prog.exec_of_inr _ (step_filter_of_not hf _ p q) 5)

/-- After the filter the call takes a host buffer. -/
theorem call_of_filters {maxDetections : Nat} {o : Device batch} {pools : Pools} {out : ModelOutput batch}
    {p q c : Ptr} {dFiltered dCount : InferTensorBufferPool} {cpu : BufferPool} (hout : Accepted out = true)
    (hp : pools.dFiltered.acquire = some (p, dFiltered)) (hq : pools.dCount.acquire = some (q, dCount))
    (hf : o.Filters maxDetections) (hc : pools.cpu.acquire = some (c, cpu)) :
    call maxDetections o pools out =
      (postprocess batch maxDetections).exec o 4 ⟨dFiltered, dCount, cpu⟩ (.copy p q c) := by
  have h : step maxDetections o ⟨dFiltered, dCount, pools.cpu⟩ (.acquireCpu p q) =
      some (⟨dFiltered, dCount, cpu⟩, .inl (.copy p q c)) := by simp [step, hc]
  exact (call_of_acquire hout hp hq).trans
    ((Prog.exec_of_inl _ (step_filter_of hf _ p q) 5).trans (Prog.exec_of_inl _ h 4))

/-- An exit at the second synchronization gives back the host buffer only. -/
theorem call_of_not_sync2 {maxDetections : Nat} {o : Device batch} {pools : Pools} {out : ModelOutput batch}
    {p q c : Ptr} {dFiltered dCount : InferTensorBufferPool} {cpu : BufferPool} (hout : Accepted out = true)
    (hp : pools.dFiltered.acquire = some (p, dFiltered)) (hq : pools.dCount.acquire = some (q, dCount))
    (hf : o.Filters maxDetections) (hc : pools.cpu.acquire = some (c, cpu)) (h2 : ¬o.sync2 = true) :
    call maxDetections o pools out = some (⟨dFiltered, dCount, cpu.delete c⟩, .ok .empty) := by
  have h : step maxDetections o ⟨dFiltered, dCount, cpu⟩ (.copy p q c) =
      some (⟨dFiltered, dCount, cpu.delete c⟩, .inr (.ok .empty)) := by simp [step, h2]
  exact (call_of_filters hout hp hq hf hc).trans (Prog.exec_of_inr _ h 3)

/-- A call that gets to the releases gives every buffer back. -/
theorem call_of_sync2 {maxDetections : Nat} {o : Device batch} {pools : Pools} {out : ModelOutput batch}
    {p q c : Ptr} {dFiltered dCount : InferTensorBufferPool} {cpu : BufferPool} (hout : Accepted out = true)
    (hp : pools.dFiltered.acquire = some (p, dFiltered)) (hq : pools.dCount.acquire = some (q, dCount))
    (hf : o.Filters maxDetections) (hc : pools.cpu.acquire = some (c, cpu)) (h2 : o.sync2 = true)
    (hlp : p < dFiltered.capacity) (hlq : q < dCount.capacity) :
    ∃ r, call maxDetections o pools out =
      some (⟨{ dFiltered with buffer := dFiltered.buffer ++ [p] }, { dCount with buffer := dCount.buffer ++ [q] },
        cpu.delete c⟩, r) := by
  have h3 : step maxDetections o ⟨dFiltered, dCount, cpu⟩ (.copy p q c) =
      some (⟨dFiltered, dCount, cpu⟩, .inl (.releaseFiltered p q c)) := by simp [step, h2]
  have h4 : step maxDetections o ⟨dFiltered, dCount, cpu⟩ (.releaseFiltered p q c) =
      some (⟨{ dFiltered with buffer := dFiltered.buffer ++ [p] }, dCount, cpu⟩, .inl (.releaseCount q c)) := by
    simp [step, InferTensorBufferPool.release_of_lt hlp]
  have h5 : step maxDetections o ⟨{ dFiltered with buffer := dFiltered.buffer ++ [p] }, dCount, cpu⟩
      (.releaseCount q c) = some (⟨{ dFiltered with buffer := dFiltered.buffer ++ [p] },
        { dCount with buffer := dCount.buffer ++ [q] }, cpu⟩, .inl (.decode c)) := by
    simp [step, InferTensorBufferPool.release_of_lt hlq]
  exact ⟨_, (call_of_filters hout hp hq hf hc).trans ((Prog.exec_of_inl _ h3 3).trans
    ((Prog.exec_of_inl _ h4 2).trans ((Prog.exec_of_inl _ h5 1).trans (Prog.exec_of_inr _ rfl 0))))⟩

/-- A call that ends has found the buffers it asked for. -/
theorem acquire_of_call {maxDetections : Nat} {o : Device batch} {pools pools' : Pools} {out : ModelOutput batch}
    {r : Except Error Exit} (hout : Accepted out = true) (h : call maxDetections o pools out = some (pools', r)) :
    ∃ p q dFiltered dCount,
      pools.dFiltered.acquire = some (p, dFiltered) ∧ pools.dCount.acquire = some (q, dCount) := by
  have h1 : step maxDetections o pools (.enter out) = some (pools, .inl .acquireFiltered) := by simp [step, hout]
  have hcall : call maxDetections o pools out = (postprocess batch maxDetections).exec o 8 pools .acquireFiltered :=
    Prog.exec_of_inl _ h1 8
  rcases hp : pools.dFiltered.acquire with _ | ⟨p, dFiltered⟩
  · have hnone := Prog.exec_of_none (postprocess batch maxDetections) (c := o) (b := pools) (l := .acquireFiltered)
      (by simp [postprocess, step, hp]) 8
    rw [hcall, hnone] at h
    cases h
  · have h2 : step maxDetections o pools .acquireFiltered =
        some (⟨dFiltered, pools.dCount, pools.cpu⟩, .inl (.acquireCount p)) := by simp [step, hp]
    rcases hq : pools.dCount.acquire with _ | ⟨q, dCount⟩
    · have hnone := Prog.exec_of_none (postprocess batch maxDetections) (c := o)
        (b := ⟨dFiltered, pools.dCount, pools.cpu⟩) (l := .acquireCount p) (by simp [postprocess, step, hq]) 7
      rw [hcall.trans (Prog.exec_of_inl _ h2 7), hnone] at h
      cases h
    · exact ⟨p, q, dFiltered, dCount, rfl, rfl⟩

theorem acquireCpu_of_call {maxDetections : Nat} {o : Device batch} {pools pools' : Pools} {out : ModelOutput batch}
    {r : Except Error Exit} {p q : Ptr} {dFiltered dCount : InferTensorBufferPool} (hout : Accepted out = true)
    (hp : pools.dFiltered.acquire = some (p, dFiltered)) (hq : pools.dCount.acquire = some (q, dCount))
    (hf : o.Filters maxDetections) (h : call maxDetections o pools out = some (pools', r)) :
    ∃ c cpu, pools.cpu.acquire = some (c, cpu) := by
  rcases hc : pools.cpu.acquire with _ | ⟨c, cpu⟩
  · have hnone := Prog.exec_of_none (postprocess batch maxDetections) (c := o) (b := ⟨dFiltered, dCount, pools.cpu⟩)
      (l := .acquireCpu p q) (by simp [postprocess, step, hc]) 5
    rw [(call_of_acquire hout hp hq).trans (Prog.exec_of_inl _ (step_filter_of hf _ p q) 5), hnone] at h
    cases h
  · exact ⟨c, cpu, rfl⟩

/-- The condition under which one call gives back what it took. -/
def Returns (maxDetections : Nat) (o : Device batch) (out : ModelOutput batch) : Prop :=
  Accepted out = true → o.Filters maxDetections ∧ o.sync2 = true

theorem call_conserved_iff {maxDetections : Nat} {o : Device batch} {pools pools' : Pools} {out : ModelOutput batch}
    {r : Except Error Exit} (hv : pools.Valid) (h : call maxDetections o pools out = some (pools', r)) :
    Conserved pools pools' ↔ Returns maxDetections o out := by
  by_cases hout : Accepted out = true
  swap
  · have h1 : step maxDetections o pools (.enter out) =
        some (pools, .inr (.error (.runtimeError "Model output is invalid."))) := by simp [step, hout]
    have hcall : call maxDetections o pools out = _ := Prog.exec_of_inr _ h1 8
    rw [hcall] at h
    cases h
    exact ⟨fun _ hacc => absurd hacc hout, fun _ => ⟨.refl _, .refl _, .refl _⟩⟩
  obtain ⟨p, q, dFiltered, dCount, hp, hq⟩ := acquire_of_call hout h
  obtain ⟨hbp, hcp⟩ := InferTensorBufferPool.acquire_some hp
  obtain ⟨hbq, hcq⟩ := InferTensorBufferPool.acquire_some hq
  -- the early exits leave the queue of the filtered detections shorter
  have hleak : pools'.dFiltered = dFiltered → ¬Conserved pools pools' := by
    intro heq hcons
    have hlen := hcons.dFiltered.length_eq
    rw [heq, hbp, List.length_cons] at hlen
    omega
  by_cases hf : o.Filters maxDetections
  swap
  · rw [call_of_not_filters hout hp hq hf] at h
    cases h
    exact ⟨fun hcons => absurd hcons (hleak rfl), fun hret => absurd (hret hout).1 hf⟩
  obtain ⟨c, cpu, hc⟩ := acquireCpu_of_call hout hp hq hf h
  by_cases h2 : o.sync2 = true
  swap
  · rw [call_of_not_sync2 hout hp hq hf hc h2] at h
    cases h
    exact ⟨fun hcons => absurd hcons (hleak rfl), fun hret => absurd (hret hout).2 h2⟩
  obtain ⟨r', hr'⟩ := call_of_sync2 hout hp hq hf hc h2 (hcp ▸ hv.dFiltered p (hbp ▸ List.mem_cons_self))
    (hcq ▸ hv.dCount q (hbq ▸ List.mem_cons_self))
  rw [hr'] at h
  cases h
  refine ⟨fun _ _ => ⟨hf, h2⟩, fun _ => ⟨?_, ?_, ?_⟩⟩
  · rw [hbp]
    exact List.perm_append_singleton p dFiltered.buffer
  · rw [hbq]
    exact List.perm_append_singleton q dCount.buffer
  · rw [BufferPool.acquire_some hc]
    exact List.perm_append_singleton c cpu.que

theorem call_ends {maxDetections : Nat} {o : Device batch} {pools : Pools} {out : ModelOutput batch}
    (hv : pools.Valid) (hF : pools.dFiltered.buffer ≠ []) (hC : pools.dCount.buffer ≠ [])
    (hcpu : pools.cpu.que ≠ []) :
    ∃ x, call maxDetections o pools out = some x := by
  by_cases hout : Accepted out = true
  swap
  · have h1 : step maxDetections o pools (.enter out) =
        some (pools, .inr (.error (.runtimeError "Model output is invalid."))) := by simp [step, hout]
    exact ⟨_, Prog.exec_of_inr _ h1 8⟩
  obtain ⟨⟨p, dFiltered⟩, hp⟩ := InferTensorBufferPool.acquire_of_ne_nil hF
  obtain ⟨⟨q, dCount⟩, hq⟩ := InferTensorBufferPool.acquire_of_ne_nil hC
  obtain ⟨⟨c, cpu⟩, hc⟩ := BufferPool.acquire_of_ne_nil hcpu
  by_cases hf : o.Filters maxDetections
  swap
  · exact ⟨_, call_of_not_filters hout hp hq hf⟩
  by_cases h2 : o.sync2 = true
  swap
  · exact ⟨_, call_of_not_sync2 hout hp hq hf hc h2⟩
  obtain ⟨hbp, hcp⟩ := InferTensorBufferPool.acquire_some hp
  obtain ⟨hbq, hcq⟩ := InferTensorBufferPool.acquire_some hq
  obtain ⟨r, hr⟩ := call_of_sync2 hout hp hq hf hc h2 (hcp ▸ hv.dFiltered p (hbp ▸ List.mem_cons_self))
    (hcq ▸ hv.dCount q (hbq ▸ List.mem_cons_self))
  exact ⟨_, hr⟩

/-! ### Concurrent calls -/

namespace Local

def heldFiltered : Local batch → Multiset Ptr
  | .acquireCount p | .filter p _ | .acquireCpu p _ | .copy p _ _ | .releaseFiltered p _ _ => {p}
  | _ => 0

def heldCount : Local batch → Multiset Ptr
  | .filter _ q | .acquireCpu _ q | .copy _ q _ | .releaseFiltered _ q _ | .releaseCount q _ => {q}
  | _ => 0

def heldCpu : Local batch → Multiset Ptr
  | .copy _ _ c | .releaseFiltered _ _ c | .releaseCount _ c | .decode c => {c}
  | _ => 0

/-- The most steps the call still takes. -/
def stepsLeft : Local batch → Nat
  | .enter _ => 9
  | .acquireFiltered => 8
  | .acquireCount _ => 7
  | .filter _ _ => 6
  | .acquireCpu _ _ => 5
  | .copy _ _ _ => 4
  | .releaseFiltered _ _ _ => 3
  | .releaseCount _ _ => 2
  | .decode _ => 1

theorem stepsLeft_le (l : Local batch) : l.stepsLeft ≤ 9 := by
  cases l <;> simp [stepsLeft]

end Local

/-- The device lets the call pass its two early exits. -/
def Device.Passes (maxDetections : Nat) (o : Device batch) : Local batch → Prop
  | .filter _ _ => o.Filters maxDetections
  | .copy _ _ _ => o.sync2 = true
  | _ => True

/-- The steps of a call, by what they do to the pools. -/
inductive Move (maxDetections : Nat) (o : Device batch) (pools : Pools) :
    Local batch → Pools → Local batch ⊕ Except Error Exit → Prop
  | accept {out : ModelOutput batch} : Move maxDetections o pools (.enter out) pools (.inl .acquireFiltered)
  | reject {out : ModelOutput batch} {e : Error} : Move maxDetections o pools (.enter out) pools (.inr (.error e))
  | acquireFiltered {p : Ptr} {pool : InferTensorBufferPool} (h : pools.dFiltered.acquire = some (p, pool)) :
      Move maxDetections o pools .acquireFiltered { pools with dFiltered := pool } (.inl (.acquireCount p))
  | acquireCount {p q : Ptr} {pool : InferTensorBufferPool} (h : pools.dCount.acquire = some (q, pool)) :
      Move maxDetections o pools (.acquireCount p) { pools with dCount := pool } (.inl (.filter p q))
  | filter {p q : Ptr} (h : o.Filters maxDetections) :
      Move maxDetections o pools (.filter p q) pools (.inl (.acquireCpu p q))
  | exitFilter {p q : Ptr} (h : ¬o.Filters maxDetections) :
      Move maxDetections o pools (.filter p q) pools (.inr (.ok .empty))
  | acquireCpu {p q c : Ptr} {pool : BufferPool} (h : pools.cpu.acquire = some (c, pool)) :
      Move maxDetections o pools (.acquireCpu p q) { pools with cpu := pool } (.inl (.copy p q c))
  | copy {p q c : Ptr} (h : o.sync2 = true) :
      Move maxDetections o pools (.copy p q c) pools (.inl (.releaseFiltered p q c))
  | exitCopy {p q c : Ptr} (h : ¬o.sync2 = true) :
      Move maxDetections o pools (.copy p q c) { pools with cpu := pools.cpu.delete c } (.inr (.ok .empty))
  | releaseFiltered {p q c : Ptr} {pool : InferTensorBufferPool} (h : pools.dFiltered.release p = .ok pool) :
      Move maxDetections o pools (.releaseFiltered p q c) { pools with dFiltered := pool } (.inl (.releaseCount q c))
  | throwFiltered {p q c : Ptr} {e : Error} (h : pools.dFiltered.release p = .error e) :
      Move maxDetections o pools (.releaseFiltered p q c) { pools with cpu := pools.cpu.delete c } (.inr (.error e))
  | releaseCount {q c : Ptr} {pool : InferTensorBufferPool} (h : pools.dCount.release q = .ok pool) :
      Move maxDetections o pools (.releaseCount q c) { pools with dCount := pool } (.inl (.decode c))
  | throwCount {q c : Ptr} {e : Error} (h : pools.dCount.release q = .error e) :
      Move maxDetections o pools (.releaseCount q c) { pools with cpu := pools.cpu.delete c } (.inr (.error e))
  | decode {c : Ptr} {r : Except Error Exit} :
      Move maxDetections o pools (.decode c) { pools with cpu := pools.cpu.delete c } (.inr r)

theorem Move.of_step {maxDetections : Nat} {o : Device batch} {pools pools' : Pools} {l : Local batch}
    {x : Local batch ⊕ Except Error Exit} (h : step maxDetections o pools l = some (pools', x)) :
    Move maxDetections o pools l pools' x := by
  cases l with
  | enter out =>
    simp only [step] at h
    split at h <;> cases h
    · exact .accept
    · exact .reject
  | acquireFiltered =>
    obtain ⟨y, hy, hx⟩ := Option.map_eq_some_iff.1 h
    cases hx
    exact .acquireFiltered hy
  | acquireCount p =>
    obtain ⟨y, hy, hx⟩ := Option.map_eq_some_iff.1 h
    cases hx
    exact .acquireCount hy
  | filter p q =>
    by_cases hf : o.Filters maxDetections
    · rw [step_filter_of hf] at h
      cases h
      exact .filter hf
    · rw [step_filter_of_not hf] at h
      cases h
      exact .exitFilter hf
  | acquireCpu p q =>
    obtain ⟨y, hy, hx⟩ := Option.map_eq_some_iff.1 h
    cases hx
    exact .acquireCpu hy
  | copy p q c =>
    simp only [step] at h
    split at h <;> cases h
    · exact .exitCopy (by simp_all)
    · exact .copy (by simp_all)
  | releaseFiltered p q c =>
    simp only [step] at h
    split at h <;> cases h
    · exact .releaseFiltered ‹_›
    · exact .throwFiltered ‹_›
  | releaseCount q c =>
    simp only [step] at h
    split at h <;> cases h
    · exact .releaseCount ‹_›
    · exact .throwCount ‹_›
  | decode c =>
    cases h
    exact .decode

theorem Move.stepsLeft_lt {maxDetections : Nat} {o : Device batch} {pools pools' : Pools} {l : Local batch}
    {x : Local batch ⊕ Except Error Exit} (h : Move maxDetections o pools l pools' x) :
    weight Local.stepsLeft x < l.stepsLeft := by
  cases h <;> simp [Local.stepsLeft]

/-- Device pools of `n` buffers each. -/
structure Pools.Of (n : Nat) (pools : Pools) : Prop where
  dFiltered : pools.dFiltered.Of n
  dCount : pools.dCount.Of n

/-- The device buffers a call holds are of pools of `n`. -/
structure Local.Of (n : Nat) (l : Local batch) : Prop where
  filtered : ∀ p ∈ l.heldFiltered, p < n
  count : ∀ q ∈ l.heldCount, q < n

theorem Move.of {n maxDetections : Nat} {o : Device batch} {pools pools' : Pools} {l : Local batch}
    {x : Local batch ⊕ Except Error Exit} (h : Move maxDetections o pools l pools' x) (hpools : pools.Of n)
    (hl : l.Of n) : pools'.Of n ∧ ∀ l', x = .inl l' → l'.Of n := by
  obtain ⟨hF, hC⟩ := hpools
  obtain ⟨hlF, hlC⟩ := hl
  cases h with
  | accept => exact ⟨⟨hF, hC⟩, by rintro l' ⟨⟩; exact ⟨by simp [Local.heldFiltered], by simp [Local.heldCount]⟩⟩
  | acquireFiltered h =>
    obtain ⟨hp, hF'⟩ := hF.acquire h
    exact ⟨⟨hF', hC⟩, by rintro l' ⟨⟩; exact ⟨by simpa [Local.heldFiltered], by simp [Local.heldCount]⟩⟩
  | acquireCount h =>
    obtain ⟨hq, hC'⟩ := hC.acquire h
    exact ⟨⟨hF, hC'⟩, by rintro l' ⟨⟩; exact ⟨hlF, by simpa [Local.heldCount]⟩⟩
  | filter | acquireCpu | copy => exact ⟨⟨hF, hC⟩, by rintro l' ⟨⟩; exact ⟨hlF, hlC⟩⟩
  | releaseFiltered h =>
    have hF' := hF.release h
    exact ⟨⟨hF', hC⟩, by rintro l' ⟨⟩; exact ⟨by simp [Local.heldFiltered], hlC⟩⟩
  | releaseCount h =>
    have hC' := hC.release h
    exact ⟨⟨hF, hC'⟩, by rintro l' ⟨⟩; exact ⟨by simp [Local.heldFiltered], by simp [Local.heldCount]⟩⟩
  | reject | exitFilter | exitCopy | throwFiltered | throwCount | decode => exact ⟨⟨hF, hC⟩, nofun⟩

/-- A step that the device lets pass moves buffers between a pool and the call only. -/
theorem Move.filtered_eq {n maxDetections : Nat} {o : Device batch} {pools pools' : Pools} {l : Local batch}
    {x : Local batch ⊕ Except Error Exit} (h : Move maxDetections o pools l pools' x) (hpools : pools.Of n)
    (hl : l.Of n) (ho : o.Passes maxDetections l) :
    (pools'.dFiltered.buffer : Multiset Ptr) + weight Local.heldFiltered x =
      pools.dFiltered.buffer + l.heldFiltered := by
  cases h with
  | acquireFiltered h => exact (InferTensorBufferPool.buffer_of_acquire h).symm.trans (add_zero _).symm
  | releaseFiltered h => exact (add_zero _).trans (InferTensorBufferPool.buffer_of_release h)
  | exitFilter h => exact absurd ho h
  | exitCopy h => exact absurd ho h
  | throwFiltered h =>
    rw [hpools.dFiltered.release_eq (hl.filtered _ (Multiset.mem_singleton_self _))] at h
    cases h
  | _ => rfl

theorem Move.count_eq {n maxDetections : Nat} {o : Device batch} {pools pools' : Pools} {l : Local batch}
    {x : Local batch ⊕ Except Error Exit} (h : Move maxDetections o pools l pools' x) (hpools : pools.Of n)
    (hl : l.Of n) (ho : o.Passes maxDetections l) :
    (pools'.dCount.buffer : Multiset Ptr) + weight Local.heldCount x = pools.dCount.buffer + l.heldCount := by
  cases h with
  | acquireCount h => exact (InferTensorBufferPool.buffer_of_acquire h).symm.trans (add_zero _).symm
  | releaseCount h => exact (add_zero _).trans (InferTensorBufferPool.buffer_of_release h)
  | exitFilter h => exact absurd ho h
  | exitCopy h => exact absurd ho h
  | throwFiltered h =>
    rw [hpools.dFiltered.release_eq (hl.filtered _ (Multiset.mem_singleton_self _))] at h
    cases h
  | throwCount h =>
    rw [hpools.dCount.release_eq (hl.count _ (Multiset.mem_singleton_self _))] at h
    cases h
  | _ => rfl

/-- The host buffers come back on every exit. -/
theorem Move.cpu_eq {maxDetections : Nat} {o : Device batch} {pools pools' : Pools} {l : Local batch}
    {x : Local batch ⊕ Except Error Exit} (h : Move maxDetections o pools l pools' x) :
    (pools'.cpu.que : Multiset Ptr) + weight Local.heldCpu x = pools.cpu.que + l.heldCpu := by
  cases h with
  | acquireCpu h => exact (BufferPool.que_of_acquire h).symm.trans (add_zero _).symm
  | exitCopy | throwFiltered | throwCount | decode => exact (add_zero _).trans (BufferPool.que_delete _ _)
  | _ => rfl

/-! #### Runs -/

/-- The steps that the device lets pass. -/
def Passing (batch maxDetections : Nat) (s : Calls Pools (postprocess batch maxDetections).Local Exit Error) :
    CallLabel (ModelOutput batch) (Device batch) → Prop
  | .call _ => True
  | .step k o => ∀ l, s.calls[k]? = some (.inl l) → o.Passes maxDetections l

/-- The states of concurrent calls on pools of `n` buffers that the device lets pass. -/
abbrev Reached (batch maxDetections n : Nat) (s : Calls Pools (postprocess batch maxDetections).Local Exit Error) :
    Prop :=
  ((postprocess batch maxDetections).calls (.create n)).ReachBy (Passing batch maxDetections) s

variable {maxDetections n : Nat} {s : Calls Pools (postprocess batch maxDetections).Local Exit Error}

theorem Reached.of (h : Reached batch maxDetections n s) :
    s.shared.Of n ∧ ∀ (k : Nat) l, s.calls[k]? = some (.inl l) → Local.Of n l := by
  refine Prog.calls_invariant (K := Pools.Of n) (J := Local.Of n) ⟨.create n, .create n⟩ ?_ ?_ h
  · exact fun _ => ⟨by simp [postprocess, Local.heldFiltered], by simp [postprocess, Local.heldCount]⟩
  · exact fun hpools hl hs => (Move.of_step hs).of hpools hl

theorem Reached.filtered_eq (h : Reached batch maxDetections n s) :
    (s.shared.dFiltered.buffer : Multiset Ptr) + total Local.heldFiltered s.calls = Multiset.range n := by
  refine Prog.weight_eq (fun pools : Pools => (pools.dFiltered.buffer : Multiset Ptr)) Local.heldFiltered ?_ ?_ h
  · exact fun _ => rfl
  · intro s k o l pools' x hs hG hk hstep
    exact (Move.of_step hstep).filtered_eq (Reached.of hs).1 ((Reached.of hs).2 k l hk) (hG l hk)

theorem Reached.count_eq (h : Reached batch maxDetections n s) :
    (s.shared.dCount.buffer : Multiset Ptr) + total Local.heldCount s.calls = Multiset.range n := by
  refine Prog.weight_eq (fun pools : Pools => (pools.dCount.buffer : Multiset Ptr)) Local.heldCount ?_ ?_ h
  · exact fun _ => rfl
  · intro s k o l pools' x hs hG hk hstep
    exact (Move.of_step hstep).count_eq (Reached.of hs).1 ((Reached.of hs).2 k l hk) (hG l hk)

theorem Reached.cpu_eq (h : Reached batch maxDetections n s) :
    (s.shared.cpu.que : Multiset Ptr) + total Local.heldCpu s.calls = Multiset.range n := by
  refine Prog.weight_eq (fun pools : Pools => (pools.cpu.que : Multiset Ptr)) Local.heldCpu ?_ ?_ h
  · exact fun _ => rfl
  · intro s k o l pools' x _ _ _ hstep
    exact (Move.of_step hstep).cpu_eq

/-- All calls have ended. -/
def Quiet (s : Calls Pools (postprocess batch maxDetections).Local Exit Error) : Prop :=
  ∀ x ∈ s.calls, ∃ r, x = .inr r

/-- The call at `l` does not wait, whatever the device does. -/
def Ready (maxDetections : Nat) (pools : Pools) (l : Local batch) : Prop :=
  ∀ o, (step maxDetections o pools l).isSome

/-- Some call does not wait. -/
def SomeReady (s : Calls Pools (postprocess batch maxDetections).Local Exit Error) : Prop :=
  ∃ (k : Nat) (l : Local batch), s.calls[k]? = some (.inl l) ∧ Ready maxDetections s.shared l

theorem ready_filter {pools : Pools} {p q : Ptr} : Ready maxDetections pools (.filter p q : Local batch) := by
  intro o
  by_cases hf : o.Filters maxDetections
  · rw [step_filter_of hf]
    rfl
  · rw [step_filter_of_not hf]
    rfl

/-- A call with a host buffer does not wait any more. -/
theorem ready_of_heldCpu {pools : Pools} {l : Local batch} (h : l.heldCpu ≠ 0) : Ready maxDetections pools l := by
  intro o
  cases l with
  | copy p q c => by_cases h2 : o.sync2 = true <;> simp [step, h2]
  | releaseFiltered p q c => rcases hr : pools.dFiltered.release p with e | pool <;> simp [step, hr]
  | releaseCount q c => rcases hr : pools.dCount.release q with e | pool <;> simp [step, hr]
  | decode c => rfl
  | _ => exact absurd rfl h

theorem range_ne_zero (hn : 0 < n) : Multiset.range n ≠ 0 := by
  intro h
  have := congrArg Multiset.card h
  rw [Multiset.card_range, Multiset.card_zero] at this
  omega

/-- The pools are taken in one order, so a call that waits for the last one waits for a call that does not wait. -/
theorem Reached.ready_of_acquireCpu (h : Reached batch maxDetections n s) (hn : 0 < n) {k : Nat} {p q : Ptr}
    (hk : s.calls[k]? = some (.inl (.acquireCpu p q))) : SomeReady s := by
  by_cases hque : s.shared.cpu.que = []
  · have heq := h.cpu_eq
    rw [hque, Multiset.coe_nil, zero_add] at heq
    obtain ⟨k', l', hk', hl'⟩ := exists_of_total_ne_zero Local.heldCpu (heq ▸ range_ne_zero hn)
    exact ⟨k', l', hk', ready_of_heldCpu hl'⟩
  · obtain ⟨x, hx⟩ := BufferPool.acquire_of_ne_nil hque
    exact ⟨k, _, hk, fun o => by simp [step, hx]⟩

theorem Reached.ready_of_heldCount (h : Reached batch maxDetections n s) (hn : 0 < n) {k : Nat} {l : Local batch}
    (hk : s.calls[k]? = some (.inl l)) (hl : l.heldCount ≠ 0) : SomeReady s := by
  cases l with
  | filter p q => exact ⟨k, _, hk, ready_filter⟩
  | acquireCpu p q => exact h.ready_of_acquireCpu hn hk
  | copy p q c | releaseFiltered p q c | releaseCount q c =>
    exact ⟨k, _, hk, ready_of_heldCpu (Multiset.singleton_ne_zero c)⟩
  | _ => exact absurd rfl hl

theorem Reached.ready_of_acquireCount (h : Reached batch maxDetections n s) (hn : 0 < n) {k : Nat} {p : Ptr}
    (hk : s.calls[k]? = some (.inl (.acquireCount p))) : SomeReady s := by
  by_cases hbuf : s.shared.dCount.buffer = []
  · have heq := h.count_eq
    rw [hbuf, Multiset.coe_nil, zero_add] at heq
    obtain ⟨k', l', hk', hl'⟩ := exists_of_total_ne_zero Local.heldCount (heq ▸ range_ne_zero hn)
    exact h.ready_of_heldCount hn hk' hl'
  · obtain ⟨x, hx⟩ := InferTensorBufferPool.acquire_of_ne_nil hbuf
    exact ⟨k, _, hk, fun o => by simp [step, hx]⟩

theorem Reached.ready_of_heldFiltered (h : Reached batch maxDetections n s) (hn : 0 < n) {k : Nat} {l : Local batch}
    (hk : s.calls[k]? = some (.inl l)) (hl : l.heldFiltered ≠ 0) : SomeReady s := by
  cases l with
  | acquireCount p => exact h.ready_of_acquireCount hn hk
  | filter p q | acquireCpu p q | copy p q c | releaseFiltered p q c =>
    exact h.ready_of_heldCount hn hk (Multiset.singleton_ne_zero q)
  | _ => exact absurd rfl hl

theorem Reached.ready (h : Reached batch maxDetections n s) (hn : 0 < n) {k : Nat} {l : Local batch}
    (hk : s.calls[k]? = some (.inl l)) : SomeReady s := by
  cases l with
  | enter out =>
    refine ⟨k, _, hk, fun o => ?_⟩
    by_cases hout : Accepted out = true <;> simp [step, hout]
  | acquireFiltered =>
    by_cases hbuf : s.shared.dFiltered.buffer = []
    · have heq := h.filtered_eq
      rw [hbuf, Multiset.coe_nil, zero_add] at heq
      obtain ⟨k', l', hk', hl'⟩ := exists_of_total_ne_zero Local.heldFiltered (heq ▸ range_ne_zero hn)
      exact h.ready_of_heldFiltered hn hk' hl'
    · obtain ⟨x, hx⟩ := InferTensorBufferPool.acquire_of_ne_nil hbuf
      exact ⟨k, _, hk, fun o => by simp [step, hx]⟩
  | acquireCount p => exact h.ready_of_acquireCount hn hk
  | filter p q => exact ⟨k, _, hk, ready_filter⟩
  | acquireCpu p q => exact h.ready_of_acquireCpu hn hk
  | copy p q c | releaseFiltered p q c | releaseCount q c | decode c =>
    exact ⟨k, _, hk, ready_of_heldCpu (Multiset.singleton_ne_zero c)⟩

theorem Reached.conserved (h : Reached batch maxDetections n s) (hq : Quiet s) : Conserved (.create n) s.shared := by
  have hF : total Local.heldFiltered s.calls = 0 := total_eq_zero_of_ended _ hq
  have hC : total Local.heldCount s.calls = 0 := total_eq_zero_of_ended _ hq
  have hcpu : total Local.heldCpu s.calls = 0 := total_eq_zero_of_ended _ hq
  refine ⟨Multiset.coe_eq_coe.1 ?_, Multiset.coe_eq_coe.1 ?_, Multiset.coe_eq_coe.1 ?_⟩
  · have heq := h.filtered_eq
    rwa [hF, add_zero] at heq
  · have heq := h.count_eq
    rwa [hC, add_zero] at heq
  · have heq := h.cpu_eq
    rwa [hcpu, add_zero] at heq

/-- No call waits for ever: while one has not ended some call can go on, and the calls made so far end after at most
nine steps each. -/
structure NeverBlocked (n : Nat) (s : Calls Pools (postprocess batch maxDetections).Local Exit Error) : Prop where
  ready : ¬Quiet s → SomeReady s
  length_le : ∀ ls s', (∀ x ∈ ls, ∃ k o, x = CallLabel.step k o) →
    ((postprocess batch maxDetections).calls (.create n)).run s ls = some s' → ls.length ≤ s.calls.length * 9

theorem Reached.neverBlocked (h : Reached batch maxDetections n s) (hn : 0 < n) : NeverBlocked n s := by
  constructor
  · intro hq
    have hcall : ∃ x ∈ s.calls, ∀ r, x ≠ .inr r := by
      by_contra hno
      push Not at hno
      exact hq hno
    obtain ⟨l | r, hx, hne⟩ := hcall
    · obtain ⟨k, hk⟩ := List.mem_iff_getElem?.1 hx
      exact h.ready hn hk
    · exact absurd rfl (hne r)
  · intro ls s' hls hr
    have hrank : ls.length ≤ total Local.stepsLeft s.calls :=
      Prog.calls_length_le (fun hs => (Move.of_step hs).stepsLeft_lt) hls hr
    exact hrank.trans (total_le Local.stepsLeft_le s.calls)

/-- A call gives back what it took exactly when the model output fails the check at the start, or both synchronizations
succeed and something is detected; and if all calls that get so far are of that kind, then any number of concurrent
calls on new pools leaves them as they were, and no call waits for ever. -/
theorem conserved_iff (batch maxDetections : Nat) :
    (∀ (o : Device batch) (out : ModelOutput batch) (pools : Pools), pools.Valid →
      (∀ pools' r, call maxDetections o pools out = some (pools', r) →
        (Conserved pools pools' ↔ Returns maxDetections o out)) ∧
      (call maxDetections o pools out = none →
        pools.dFiltered.buffer = [] ∨ pools.dCount.buffer = [] ∨ pools.cpu.que = [])) ∧
    ∀ (n : Nat) (s : Calls Pools (postprocess batch maxDetections).Local Exit Error), 0 < n →
      Reached batch maxDetections n s → (Quiet s → Conserved (.create n) s.shared) ∧ NeverBlocked n s := by
  refine ⟨fun o out pools hv => ⟨fun pools' r => call_conserved_iff hv, fun hnone => ?_⟩, fun n s hn h =>
    ⟨h.conserved, h.neverBlocked hn⟩⟩
  by_contra hne
  push Not at hne
  obtain ⟨x, hx⟩ := call_ends hv hne.1 hne.2.1 hne.2.2
  rw [hnone] at hx
  cases hx

/-! ### Runs -/

/-- A model output of the shape `[1, 84, 8400]`, as `infer` returns it. -/
def output : ModelOutput 1 := ⟨[], [1, 84, 8400], fun _ => .zero⟩

/-- An output of two dimensions, which is refused. -/
def flatOutput : ModelOutput 1 := ⟨[], [84, 8400], fun _ => .zero⟩

/-- A device that does not fail and counts `c` detections. -/
def device (c : Int) : Device 1 := ⟨true, fun _ => c, true, false⟩

/-- A check for `Passing`: nothing fails, and something is detected. -/
def passingCheck : CallLabel (ModelOutput 1) (Device 1) → Bool
  | .call _ => true
  | .step _ o => o.sync1 && o.sync2 && decide (0 < o.hostCounts 0)

private theorem passing_of_check {s : Calls Pools (postprocess 1 300).Local Exit Error}
    {l : CallLabel (ModelOutput 1) (Device 1)} (h : passingCheck l = true) : Passing 1 300 s l := by
  cases l with
  | call => trivial
  | step k o =>
    simp only [passingCheck, Bool.and_eq_true, decide_eq_true_eq] at h
    obtain ⟨⟨h1, h2⟩, hpos⟩ := h
    intro l _
    cases l with
    | filter => exact ⟨h1, by decide, 0, hpos⟩
    | copy => exact h2
    | enter | acquireFiltered | acquireCount | acquireCpu | releaseFiltered | releaseCount | decode => trivial

/-- A call alone, and three calls on pools of one buffer: the second one waits for what the first one holds, and the
third one throws. -/
theorem conserved_iff_three : (∃ pools' r, call 300 (device 1) (.create 1) output = some (pools', r) ∧
      (Conserved (.create 1) pools' ↔ Returns 300 (device 1) output)) ∧
    ∃ s s' : Calls Pools (postprocess 1 300).Local Exit Error, Reached 1 300 1 s ∧ s.shared.dFiltered.buffer = [] ∧
      NeverBlocked 1 s ∧ (∃ ls, ((postprocess 1 300).calls (.create 1)).run s ls = some s') ∧ s'.calls.length = 3 ∧
      Quiet s' ∧ Conserved (.create 1) s'.shared := by
  have hv : (Pools.create 1).Valid := ⟨fun _ hp => List.mem_range.1 hp, fun _ hp => List.mem_range.1 hp⟩
  refine ⟨⟨_, _, rfl, ((conserved_iff 1 300).1 (device 1) output (.create 1) hv).1 _ _ rfl⟩, ?_⟩
  obtain ⟨s, s', hs, hp, hr, hq⟩ := System.exists_run_through
    (((postprocess 1 300).calls (.create 1)).restrict fun _ => passingCheck)
    [.call output, .call output, .call flatOutput, .step 0 (device 1), .step 1 (device 1), .step 0 (device 1),
      .step 0 (device 1)]
    [[.step 2 (device 1)], List.replicate 4 (.step 0 (device 1)), [.step 1 (device 1)],
      List.replicate 2 (.step 0 (device 1)), List.replicate 7 (.step 1 (device 1))].flatten
    (fun s => s.shared.dFiltered.buffer.isEmpty) (fun s => s.calls.length == 3 && s.calls.all (·.isRight))
    (by decide +kernel) (by decide +kernel)
  simp only [Bool.and_eq_true, beq_iff_eq, List.all_eq_true] at hq
  have hreached : ∀ {s}, (((postprocess 1 300).calls (.create 1)).restrict fun _ => passingCheck).Reachable s →
      Reached 1 300 1 s := fun h => h.of_restrict fun _ _ _ h => passing_of_check h
  have hquiet : Quiet s' := fun x hx => Sum.isRight_iff.1 (hq.2 x hx)
  exact ⟨s, s', hreached hs, List.isEmpty_iff.1 hp, ((conserved_iff 1 300).2 1 s Nat.one_pos (hreached hs)).2,
    ⟨_, System.run_of_restrict hr⟩, hq.1, hquiet,
    ((conserved_iff 1 300).2 1 s' Nat.one_pos (hreached (hs.of_run hr))).1 hquiet⟩

/-- An image in which nothing is found leaves both pools of device buffers short of one. -/
theorem empty_not_conserved : ¬∀ (batch maxDetections : Nat) (o : Device batch) (out : ModelOutput batch)
    (pools pools' : Pools) (r : Except Error Exit), pools.Valid →
    call maxDetections o pools out = some (pools', r) → Conserved pools pools' := by
  intro h
  have hv : (Pools.create 1).Valid := ⟨fun _ hp => List.mem_range.1 hp, fun _ hp => List.mem_range.1 hp⟩
  have hlen := (h 1 300 (device 0) output (.create 1) _ _ hv rfl).dFiltered.length_eq
  exact absurd hlen (by decide)

end OnnxInference.YoloPostprocess
