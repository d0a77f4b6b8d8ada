import OnnxInference.Backend.CudaPools
import OnnxInference.Scheduler.BatchExecutors

/-!
# The input buffers of a batch scheduler

A batch owns its input buffer from `getTensorBuffer` until `infer` releases it.  A batch whose inference task ends with
an exception, its own or that of a preprocess task, never releases it: with these the buffers are conserved in every
run (`Stocked`), and without them in the runs of `Unfailing` (`reachable_stocked`).
-/

namespace OnnxInference.BatchScheduler

open Concurrency Transition CudaRunner

variable {D C V X Img O : Type} {R : CudaRunner D C V X Img O}

/-- `getTensorBuffer` is called when there are requests. -/
def Called {B C Img T M O ε : Type} {R : BatchRunner B C Img T M O ε} (s : State R) : Prop :=
  s.worker = .getTensorBuffer → s.inputs ≠ []

theorem Called.step {B C Img T M O ε : Type} {R : BatchRunner B C Img T M O ε} {s s' : State R} {l : Label Img C}
    (h : Called s) (hp : Phase s) (hm : Move s l s') : Called s' := by
  have hpos := R.batchSize_pos
  cases hm with
  | submit free =>
    intro hw
    rcases free with hf | hf <;> rw [hf] at hw <;> cases hw
  | turn ht =>
    intro hw
    cases ht with
    | ready at_ ready =>
      rcases ready with hready | hready
      · exact List.length_pos_iff.1 (Nat.lt_of_lt_of_le hpos hready)
      · exact hready.2
    | again at_ ready => exact List.length_pos_iff.1 (Nat.lt_of_lt_of_le hpos ready)
    | idle | filled | leave | loop | exit => cases hw
  | acquire | breakOut | fill | enqueueInfer => exact nofun
  | destroyQueues todo =>
    intro hw
    have hexit := (hp.of_destroyQueues todo).2
    rw [hexit] at hw
    cases hw
  | _ => exact h

/-- The worker does not leave `run` with a tensor buffer. -/
theorem Called.not_short {B C Img T M O ε : Type} {R : BatchRunner B C Img T M O ε} {s : State R} (h : Called s)
    (hl : Lined s) (at_ : s.worker = .getTensorBuffer) :
    ¬(min R.batchSize s.inputs.length = 0 ∨ s.promises.length < min R.batchSize s.inputs.length) := by
  have hpos := R.batchSize_pos
  have hlen := hl.length_eq
  have hne := List.length_pos_iff.2 (h at_)
  omega

/-! ### Who owns an input buffer -/

/-- The thread that runs the inference task has released the input buffer. -/
def released : Nat ⊕ InferAt R.Tensor X → Bool := Sum.elim (fun _ => false) InferAt.released

namespace Batch

variable (x : Batch R.toBatchRunner)

/-- The batch is in flight and has not released its input buffer. -/
def owns : Bool := decide (x.infer.status = .idle) || Keeps released x.infer

/-- The input buffers the batch owns. -/
def owned : Multiset Ptr := unit x.tenbuf.data x.owns

/-- The input buffers the batch will never release. -/
def lost : Multiset Ptr := unit x.tenbuf.data (Fails x.infer)

def stock : Multiset Ptr := x.owned + x.lost

variable {x}

theorem stock_congr {y : Batch R.toBatchRunner} (hdata : y.tenbuf.data = x.tenbuf.data) (h : y.infer = x.infer) :
    y.stock = x.stock := by
  simp only [stock, owned, lost, owns, hdata, h]

/-- Before and after a step of the call of `infer`. -/
theorem stock_execute {l : InferAt R.Tensor X} (at_ : x.infer = .execute (.inr l)) :
    x.stock = unit x.tenbuf.data !l.released := by
  rw [stock, owned, lost, owns, at_]
  exact add_zero _

theorem stock_ofStep (y : InferAt R.Tensor X ⊕ Except Error (DeviceOutput X)) :
    ({ x with infer := .ofStep (y.map .inr id) } : Batch R.toBatchRunner).stock =
      unit x.tenbuf.data (Keeps InferAt.released (.ofStep y : Task Unit _ _ _)) := by
  rw [stock, owned, lost, owns, Task.status_ofStep]
  rcases y with l | e | out <;> exact add_zero _

end Batch

/-- The input buffers are in the pool, owned by a batch in flight, or lost. -/
structure Stocked (s : State R.toBatchRunner) : Prop where
  backend : s.backend.Of R.bufferSize
  balance : (s.backend.pool.buffer : Multiset Ptr) + (s.batches.map Batch.stock).sum =
    Multiset.range R.bufferSize

theorem Stocked.congr {s s' : State R.toBatchRunner} (h : Stocked s) (hb : s'.batches = s.batches)
    (hbe : s'.backend = s.backend) : Stocked s' := by
  refine ⟨hbe ▸ h.backend, ?_⟩
  rw [hb, hbe]
  exact h.balance

theorem Stocked.setBatch {s s' : State R.toBatchRunner} (h : Stocked s) {b : Nat} {x y : Batch R.toBatchRunner}
    (hx : s.batches[b]? = some x) (hb : s'.batches = s.batches.set b y) (hbe : s'.backend.Of R.bufferSize)
    (hmove : (s'.backend.pool.buffer : Multiset Ptr) + y.stock = s.backend.pool.buffer + x.stock) : Stocked s' := by
  refine ⟨hbe, ?_⟩
  rw [hb, Ledger.total_set _ hx hmove]
  exact h.balance

/-- A change of a batch that leaves the pool of input buffers and what it owns as they are. -/
theorem Stocked.keep {s s' : State R.toBatchRunner} (h : Stocked s) {b : Nat} {x y : Batch R.toBatchRunner}
    (hx : s.batches[b]? = some x) (hb : s'.batches = s.batches.set b y) (hbe : s'.backend.Of R.bufferSize)
    (hpool : s'.backend.pool = s.backend.pool) (hstock : y.stock = x.stock) : Stocked s' :=
  h.setBatch hx hb hbe (by rw [hpool, hstock])

/-- The tensor of the call of `infer` is that of the batch. -/
theorem inferAt_of_sound {images : List Img} {x : Batch R.toBatchRunner} (h : x.Sound images) {l : InferAt R.Tensor X}
    (at_ : x.infer = .execute (.inr l)) : l.Of x.tenbuf := by
  have hi := h.infer
  rw [at_] at hi
  exact inferAt_of hi.2

theorem Stocked.step {s s' : State R.toBatchRunner} {l : Label Img C} (h : Stocked s) (hk : Kept s) (hc : Called s)
    (hm : Move s l s') : Stocked s' := by
  have hbe := h.backend
  cases hm with
  | submit | turn | misuse | destroyStart | close | joinWorker | stopPre | stopInfer | stopPost | joinPre | joinInfer
  | joinPost | destroyQueues => exact h.congr rfl rfl
  | breakOut at_ _ short => exact absurd short (hc.not_short hk.lined at_)
  | @acquire tenbuf backend at_ got =>
    simp only [getTensorBuffer, Option.map_eq_some_iff] at got
    obtain ⟨⟨p, pool⟩, hacq, heq⟩ := got
    cases heq
    refine ⟨hbe.of_pools (hbe.pool.acquire hacq).2 hbe.gpuOutputBuffer rfl rfl, ?_⟩
    refine (Ledger.total_append _ ?_).trans h.balance
    exact (InferTensorBufferPool.buffer_of_acquire hacq).symm
  | fill _ _ hx | takePre _ hx | startPre hx | returnPre hx | endPre hx | takePost _ hx | startPost hx | deliver hx
  | throwPost hx => exact h.keep hx rfl hbe rfl (Batch.stock_congr rfl rfl)
  | runPre hx at_ stepped =>
    obtain ⟨⟨device, hdevice⟩, hdata⟩ := preprocessAt_keeps stepped
    exact h.keep hx rfl (hdevice ▸ device_of hbe device) (by rw [hdevice]) (Batch.stock_congr hdata rfl)
  | enqueueInfer at_ hx =>
    obtain ⟨size, hf⟩ := hk.worked.filled _ at_
    obtain ⟨z, hz, -, -, hnone, -⟩ := hf.members
    rw [hx, Option.some.injEq] at hz
    subst hz
    refine h.keep hx rfl hbe rfl ?_
    simp [Batch.stock, Batch.owned, Batch.lost, Batch.owns, hnone, Keeps, Fails]
  | takeInfer _ hx at_ | startInfer hx at_ | get hx at_ | rethrow hx at_ | callInfer hx at_ | hop hx at_
  | throwInfer hx at_ =>
    refine h.keep hx rfl hbe rfl ?_
    simp [Batch.stock, Batch.owned, Batch.lost, Batch.owns, at_, Keeps, Fails, released, InferAt.released]
  | drop hx at_ =>
    refine h.keep hx rfl (destroyOutput_of hbe _) (destroyOutput_pool _ _) ?_
    simp [Batch.stock, Batch.owned, Batch.lost, Batch.owns, at_, Keeps, Fails]
  | @endInfer b c x r hx at_ =>
    refine h.keep hx rfl hbe rfl ?_
    rcases r with e | out <;> simp [Batch.stock, Batch.owned, Batch.lost, Batch.owns, at_, Keeps, Fails]
  | @runInfer b c x l y hx at_ stepped =>
    have hmove := InferMove.of_step stepped
    refine h.setBatch hx rfl (hmove.backend_of hbe) ?_
    rw [Batch.stock_ofStep, Batch.stock_execute at_]
    exact hmove.pool_eq (inferAt_of_sound (hk.served.sound _ _ hx) at_)
  | runPost hx at_ stepped =>
    have hmove := PostMove.of_step stepped
    exact h.keep hx rfl (hmove.backend_of hbe) hmove.pool_eq (Batch.stock_congr rfl rfl)
  | endPost hx at_ =>
    exact h.keep hx rfl (elim_destroyOutput_of hbe _) (elim_destroyOutput_pool _ _) (Batch.stock_congr rfl rfl)

theorem Stocked.init (device : D) : Stocked (init R.toBatchRunner (R.backend device)) := by
  refine ⟨CudaRunner.backend_of device, (add_zero _).trans ?_⟩
  rw [BatchScheduler.init, backend_pool]
  rfl

/-- What every run keeps. -/
structure StockInv (s : State R.toBatchRunner) : Prop where
  inv : Inv s
  called : Called s
  stocked : Stocked s

theorem reachable_stocked {device : D} {s : State R.toBatchRunner}
    (h : (system R.toBatchRunner (R.backend device)).Reachable s) : StockInv s := by
  refine h.invariant ⟨Inv.init _, nofun, Stocked.init device⟩ ?_
  rintro s l s' ⟨hi, hc, hs⟩ - hstep
  have hm := (Move.of_step hstep).2
  exact ⟨hi.step hm, hc.step hi.phase hm, hs.step hi.kept hc hm⟩

/-- What a batch owns or has lost is a buffer of the pool. -/
theorem Stocked.data_lt {s : State R.toBatchRunner} (h : Stocked s) {x : Batch R.toBatchRunner} (hx : x ∈ s.batches)
    {p : Ptr} (hp : p ∈ x.stock) : p < R.bufferSize := by
  have hsum : p ∈ (s.batches.map Batch.stock).sum := Ledger.mem_sum_map.2 ⟨x, hx, hp⟩
  have hmem : p ∈ (s.backend.pool.buffer : Multiset Ptr) + (s.batches.map Batch.stock).sum :=
    Multiset.mem_add.2 (.inr hsum)
  rw [h.balance] at hmem
  exact Multiset.mem_range.1 hmem

/-! ### Runs without a failure -/

/-- In this step no inference task gets an exception from a preprocess task or from `session_->Run`. -/
structure Unfailing (s : State R.toBatchRunner) (l : Label Img C) : Prop where
  get : ∀ (b : Nat) (c : C) (x : Batch R.toBatchRunner) (i : Nat) (t : _) (e : Error), l = .advanceInfer b c →
    s.batches[b]? = some x → x.infer = .execute (.inl i) → x.pre[i]? = some t → t.outcome ≠ some (.error e)
  run : ∀ (b : Nat) (c : C) (x : Batch R.toBatchRunner) (tenbuf : R.Tensor) (out : Ptr) (e : Error),
    l = .advanceInfer b c → s.batches[b]? = some x → x.infer = .execute (.inr (.run tenbuf out)) →
      (R.run c s.backend.device tenbuf out).2 ≠ .error e

namespace Batch

/-- The inference task has not failed. -/
def Fine (x : Batch R.toBatchRunner) : Prop :=
  ∀ e, x.infer ≠ .returned (.error e) ∧ x.infer.outcome ≠ some (.error e)

theorem Fine.of_infer {x y : Batch R.toBatchRunner} (hx : x.Fine) (h : y.infer = x.infer) : y.Fine := by
  intro e
  rw [h]
  exact hx e

/-- The output buffers that the batch has not given back: that of the call of `infer`, and that of the `ModelOutput`. -/
def outs (x : Batch R.toBatchRunner) : Multiset Ptr :=
  ((outOf (Sum.elim (fun _ => none) InferAt.out) x.infer).toList : Multiset Ptr) +
    if x.post.Pending then ((x.infer.output.map DeviceOutput.callBack).toList : Multiset Ptr) else 0

theorem outs_execute {x : Batch R.toBatchRunner} {l : InferAt R.Tensor X} (at_ : x.infer = .execute (.inr l)) :
    x.outs = (l.out.toList : Multiset Ptr) := by
  simp [outs, at_, outOf, Task.output]

theorem outs_ofStep (x : Batch R.toBatchRunner) (y : InferAt R.Tensor X ⊕ Except Error (DeviceOutput X)) :
    ({ x with infer := .ofStep (y.map .inr id) } : Batch R.toBatchRunner).outs =
      ((outOf InferAt.out (.ofStep y : Task Unit _ _ _)).toList : Multiset Ptr) := by
  rcases y with l | e | out <;> simp [outs, outOf, Task.output, Task.ofStep]

/-- Between the two tasks and in the postprocess task a batch holds the buffer of its `ModelOutput`. -/
theorem outs_of_pending {x : Batch R.toBatchRunner} {out : DeviceOutput X} (hout : x.infer.outcome = some (.ok out))
    (hpost : x.post.Pending) : x.outs = {out.callBack} := by
  rcases hi : x.infer with _ | _ | _ | _ | _ | r | r <;> rw [hi] at hout <;> cases hout <;>
    simp [outs, hi, outOf, Task.output, hpost]

theorem outs_congr {x y : Batch R.toBatchRunner} (h : y.infer = x.infer) (hpost : y.post.Pending ↔ x.post.Pending) :
    y.outs = x.outs := by
  simp only [outs, h, hpost]

end Batch

/-- The numbers below `N`, some of them more than once. -/
structure Spread (N : Nat) (m : Multiset Ptr) : Prop where
  le : Multiset.range N ≤ m
  lt : ∀ p ∈ m, p < N

theorem Spread.add {N : Nat} {m q : Multiset Ptr} (h : Spread N m) (hq : ∀ p ∈ q, p < N) : Spread N (m + q) := by
  refine ⟨h.le.trans (Multiset.le_add_right m q), fun p hp => ?_⟩
  rcases Multiset.mem_add.1 hp with hp | hp
  · exact h.lt p hp
  · exact hq p hp

/-- No inference task has failed, and the output buffers are in the pool or with a batch. -/
structure Lent (s : State R.toBatchRunner) : Prop where
  fine : ∀ x ∈ s.batches, x.Fine
  outs : Spread (R.bufferSize * 2) (s.backend.gpuOutputBuffer.buffer + (s.batches.map Batch.outs).sum)

theorem Lent.congr {s s' : State R.toBatchRunner} (h : Lent s) (hb : s'.batches = s.batches)
    (hbe : s'.backend = s.backend) : Lent s' := by
  refine ⟨hb ▸ h.fine, ?_⟩
  rw [hb, hbe]
  exact h.outs

/-- A change of a batch; the destructor of a copy of a tensor adds to the output buffers. -/
theorem Lent.setBatch {s s' : State R.toBatchRunner} (h : Lent s) {b : Nat} {x y : Batch R.toBatchRunner}
    (hx : s.batches[b]? = some x) (hb : s'.batches = s.batches.set b y) (hfine : x.Fine → y.Fine) {q : Multiset Ptr}
    (hq : ∀ p ∈ q, p < R.bufferSize * 2)
    (hmove : (s'.backend.gpuOutputBuffer.buffer : Multiset Ptr) + y.outs =
      s.backend.gpuOutputBuffer.buffer + q + x.outs) : Lent s' := by
  refine ⟨fun z hz => ?_, ?_⟩
  · rw [hb] at hz
    rcases List.mem_or_eq_of_mem_set hz with hz | rfl
    · exact h.fine z hz
    · exact hfine (h.fine x (List.mem_of_getElem? hx))
  · rw [hb, Ledger.total_set _ hx hmove, add_right_comm]
    exact h.outs.add hq

theorem Lent.keep {s s' : State R.toBatchRunner} (h : Lent s) {b : Nat} {x y : Batch R.toBatchRunner}
    (hx : s.batches[b]? = some x) (hb : s'.batches = s.batches.set b y) (hfine : x.Fine → y.Fine)
    (hout : s'.backend.gpuOutputBuffer = s.backend.gpuOutputBuffer) (houts : y.outs = x.outs) : Lent s' := by
  refine h.setBatch hx hb hfine (q := 0) (by simp) ?_
  rw [hout, houts, add_zero]

/-- The output buffers a batch has not given back are of the pool. -/
theorem Lent.out_lt {s : State R.toBatchRunner} (h : Lent s) {x : Batch R.toBatchRunner} (hx : x ∈ s.batches)
    {p : Ptr} (hp : p ∈ x.outs) : p < R.bufferSize * 2 :=
  h.outs.lt p (Multiset.mem_add.2 (.inr (Ledger.mem_sum_map.2 ⟨x, hx, hp⟩)))

theorem Lent.step {s s' : State R.toBatchRunner} {l : Label Img C} (h : Lent s) (hi : StockInv s) (hG : Unfailing s l)
    (hm : Move s l s') : Lent s' := by
  have hk := hi.inv.kept
  have hbe := hi.stocked.backend
  cases hm with
  | submit | turn | misuse | destroyStart | close | joinWorker | stopPre | stopInfer | stopPost | joinPre | joinInfer
  | joinPost | destroyQueues => exact h.congr rfl rfl
  | breakOut at_ _ short => exact absurd short (hi.called.not_short hk.lined at_)
  | @acquire tenbuf backend at_ got =>
    simp only [getTensorBuffer, Option.map_eq_some_iff] at got
    obtain ⟨⟨p, pool⟩, -, heq⟩ := got
    cases heq
    refine ⟨fun x hx => ?_, ?_⟩
    · rcases List.mem_append.1 hx with hx | hx
      · exact h.fine x hx
      · have hnew : x.infer = .absent := by rw [List.mem_singleton.1 hx]
        intro e
        rw [hnew]
        exact ⟨by simp, by simp⟩
    · have hsame : (s.backend.gpuOutputBuffer.buffer : Multiset Ptr) +
          ((s.batches ++ [(⟨.wrap R.batch p, [], [], .absent, .absent⟩ : Batch R.toBatchRunner)]).map Batch.outs).sum =
            s.backend.gpuOutputBuffer.buffer + (s.batches.map Batch.outs).sum :=
        Ledger.total_append _ (add_zero _)
      exact hsame ▸ h.outs
  | fill _ _ hx | takePre _ hx | startPre hx | returnPre hx | endPre hx =>
    exact h.keep hx rfl (fun hf => hf.of_infer rfl) rfl (Batch.outs_congr rfl Iff.rfl)
  | takePost _ hx at_ | startPost hx at_ | deliver hx at_ | throwPost hx at_ =>
    refine h.keep hx rfl (fun hf => hf.of_infer rfl) rfl (Batch.outs_congr rfl ?_)
    simp [at_, Task.Pending]
  | runPre hx at_ stepped =>
    obtain ⟨⟨device, hdevice⟩, -⟩ := preprocessAt_keeps stepped
    exact h.keep hx rfl (fun hf => hf.of_infer rfl) (by rw [hdevice]) (Batch.outs_congr rfl Iff.rfl)
  | enqueueInfer at_ hx =>
    obtain ⟨size, hf⟩ := hk.worked.filled _ at_
    obtain ⟨z, hz, -, -, hnone, -⟩ := hf.members
    rw [hx, Option.some.injEq] at hz
    subst hz
    refine h.keep hx rfl (fun _ e => ⟨by simp, by simp⟩) rfl ?_
    simp [Batch.outs, hnone, outOf, Task.output]
  | rethrow hx at_ ht error => exact absurd error (hG.get _ _ _ _ _ _ rfl hx at_ ht)
  | takeInfer _ hx at_ | startInfer hx at_ | get hx at_ | callInfer hx at_ =>
    refine h.keep hx rfl (fun _ e => ⟨by simp, by simp⟩) rfl ?_
    simp [Batch.outs, at_, outOf, Task.output, InferAt.out, inferProg]
  | throwInfer hx at_ => exact absurd at_ (h.fine _ (List.mem_of_getElem? hx) _).1
  | hop hx at_ =>
    refine h.keep hx rfl (fun _ e => ⟨by simp, by simp⟩) rfl ?_
    simp [Batch.outs, at_, outOf, Task.output, Task.Pending]
  | @drop b c x out hx at_ =>
    have hpost := (hk.served.sound _ _ hx).post_absent (by rw [at_, Task.outcome_returned])
    have houts : x.outs = {out.callBack} := by
      simp [Batch.outs, at_, hpost, outOf, Task.Pending]
    have hlt : out.callBack < R.bufferSize * 2 :=
      h.out_lt (List.mem_of_getElem? hx) (houts ▸ Multiset.mem_singleton_self _)
    refine h.setBatch hx rfl (fun _ e => ⟨by simp, by simp⟩) (q := 0) (by simp) ?_
    have hbuf := buffer_destroyOutput hbe hlt
    rw [houts, add_zero]
    refine Eq.trans ?_ hbuf
    simp [Batch.outs, outOf, hpost, Task.Pending]
  | @endInfer b c x r hx at_ =>
    refine h.keep hx rfl (fun hf e => ⟨by simp, ?_⟩) rfl ?_
    · have hne := (hf e).2
      rwa [at_] at hne
    · simp [Batch.outs, at_, outOf, Task.output]
  | @runInfer b c x l y hx at_ stepped =>
    have hmove := InferMove.of_step stepped
    have hl := inferAt_of_sound (hk.served.sound _ _ hx) at_
    have hdata : l.released = false → x.tenbuf.data < R.bufferSize := by
      intro hrel
      refine hi.stocked.data_lt (List.mem_of_getElem? hx) ?_
      rw [Batch.stock_execute at_, hrel]
      exact Multiset.mem_singleton_self _
    have hok := hmove.not_error hl hbe hdata fun out e hat => hG.run b c x _ out e rfl hx (hat ▸ at_)
    refine h.setBatch hx rfl (fun _ e => ⟨?_, ?_⟩) (q := 0) (by simp) ?_
    · obtain ⟨be', l' | e' | o⟩ := y
      · simp [Task.ofStep]
      · exact absurd rfl (hok e')
      · simp [Task.ofStep]
    · simp
    · rw [Batch.outs_ofStep, Batch.outs_execute at_, add_zero]
      exact hmove.out_eq hok
  | @runPost b c x l y hx at_ stepped =>
    have hmove := PostMove.of_step stepped
    obtain ⟨out, hout, hof⟩ := (hk.served.sound _ _ hx).post (by simp [at_])
    rw [at_] at hof
    have hcall : PostAt.callBack l = out.callBack := postAt_callBack hof
    have hsame : x.outs = {out.callBack} := Batch.outs_of_pending hout (.inr (by rw [at_]; rfl))
    have houts : ({ x with post := .ofStep y.2 } : Batch R.toBatchRunner).outs = x.outs :=
      Batch.outs_congr rfl (by simp [at_, Task.Pending])
    rcases hmove.buffer_eq with hbuf | hbuf
    · refine h.setBatch hx rfl (fun hf => hf.of_infer rfl) (q := 0) (by simp) ?_
      rw [houts, add_zero]
      exact congrArg (· + x.outs) hbuf
    · refine h.setBatch hx rfl (fun hf => hf.of_infer rfl) (q := {out.callBack}) (fun p hp => ?_) ?_
      · exact h.out_lt (List.mem_of_getElem? hx) (hsame ▸ hp)
      · rw [houts]
        rw [hcall] at hbuf
        exact congrArg (· + x.outs) hbuf
  | @endPost b c x r hx at_ =>
    obtain ⟨out, hout, -⟩ := (hk.served.sound _ _ hx).post (by simp [at_])
    have houts : x.outs = {out.callBack} := Batch.outs_of_pending hout (.inr (by rw [at_]; rfl))
    have hlt : out.callBack < R.bufferSize * 2 :=
      h.out_lt (List.mem_of_getElem? hx) (houts ▸ Multiset.mem_singleton_self _)
    have hnone : ({ x with post := .finished r } : Batch R.toBatchRunner).outs = 0 := by
      rcases hi : x.infer with _ | _ | _ | _ | _ | r | r <;> rw [hi] at hout <;> cases hout <;>
        simp [Batch.outs, outOf, Task.Pending]
    refine h.setBatch hx rfl (fun hf => hf.of_infer rfl) (q := 0) (by simp) ?_
    rw [hnone, houts, add_zero, add_zero]
    refine Eq.trans ?_ (buffer_destroyOutput hbe hlt)
    rw [show x.infer.output = some out by rw [Task.output, hout], Option.elim_some]

theorem Lent.init (device : D) : Lent (init R.toBatchRunner (R.backend device)) := by
  have hout :
      ((BatchScheduler.init R.toBatchRunner (R.backend device)).backend.gpuOutputBuffer.buffer : Multiset Ptr) =
      Multiset.range (R.bufferSize * 2) := by
    rw [BatchScheduler.init, backend_gpuOutputBuffer]
    rfl
  refine ⟨fun x hx => absurd hx List.not_mem_nil, ?_⟩
  rw [hout, show ((BatchScheduler.init R.toBatchRunner (R.backend device)).batches.map Batch.outs).sum = 0 from rfl,
    add_zero]
  exact ⟨le_rfl, fun p hp => Multiset.mem_range.1 hp⟩

theorem unfailing_lent {device : D} {s : State R.toBatchRunner}
    (h : (system R.toBatchRunner (R.backend device)).ReachBy Unfailing s) : Lent s := by
  induction h with
  | init => exact Lent.init device
  | step hr hG hs ih => exact ih.step (reachable_stocked hr.reachable) hG (Move.of_step hs).2

/-! ### Conservation -/

section Finished

variable {B T M ε : Type} {Q : BatchRunner B C Img T M O ε} {s : State Q}

/-- The future of the request is ready: its promise has been set, or has been destroyed with the queues or with the
closure of its batch. -/
def State.Finished (s : State Q) (r : Nat) : Prop :=
  s.promise r ≠ [] ∨ r ∉ s.promises ∧ ∀ x ∈ s.batches, r ∈ x.prms → x.infer.outcome ≠ none ∧ x.post = .absent

theorem Lined.lt_of_mem (h : Lined s) {r : Nat} (hr : r ∈ s.requests) : r < s.images.length :=
  List.mem_range.1 (h.order.subset hr)

/-- When the future of a member is ready its batch has got past inference. -/
theorem Kept.outcome_of_finished (h : Kept s) {b i r : Nat} {x : Batch Q} (hx : s.batches[b]? = some x)
    (hi : x.prms[i]? = some r) (hr : s.Finished r) : x.infer.outcome ≠ none := by
  rcases hr with hr | ⟨-, hall⟩
  · rw [h.served.member b x i r hx hi] at hr
    intro hnone
    simp [Batch.result, hnone] at hr
  · exact (hall x (List.mem_of_getElem? hx) (List.mem_of_getElem? hi)).1

theorem Kept.outcome_of_all_finished (h : Kept s) (hall : ∀ r < s.images.length, s.Finished r) {b : Nat} {x : Batch Q}
    (hx : s.batches[b]? = some x) : x.infer.outcome ≠ none := by
  have hmember : 0 < x.prms.length → x.infer.outcome ≠ none := by
    intro hpos
    have hi : x.prms[0]? = some x.prms[0] := List.getElem?_eq_getElem hpos
    refine h.outcome_of_finished hx hi (hall _ (h.lined.lt_of_mem ?_))
    exact List.mem_append_left _ (List.mem_flatMap.2 ⟨x, List.mem_of_getElem? hx, List.getElem_mem hpos⟩)
  by_cases hc : Current s b
  · obtain ⟨size, i, hf⟩ := h.worked.filling_of_current hc
    obtain ⟨z, hz, hlen, -⟩ := hf.members
    rw [hx, Option.some.injEq] at hz
    subst hz
    rcases Nat.eq_or_lt_of_le hf.le with heq | hlt
    · exact hmember (by have := hf.pos; omega)
    · -- the next member is still in the queue
      have hpos : 0 < s.promises.length := by
        have := hf.enough
        omega
      have hmem : s.promises[0] ∈ s.promises := List.getElem_mem hpos
      rcases hall _ (h.lined.lt_of_mem (List.mem_append_right _ hmem)) with hr | ⟨hr, -⟩
      · exact absurd (h.served.other _ fun y hy => h.lined.not_mem_of_queued hmem hy) hr
      · exact absurd hmem hr
  · exact hmember (h.worked.dispatched b x hx hc).2.1

end Finished

theorem Batch.owns_of_outcome {x : Batch R.toBatchRunner} (h : x.infer.outcome ≠ none) : x.owns = false := by
  rcases hi : x.infer with _ | _ | _ | _ | _ | r | r <;> simp [hi, owns, Keeps] at h ⊢

/-- The failed inference task of a batch. -/
def Batch.failed (x : Batch R.toBatchRunner) : Bool := Fails x.infer

theorem card_stock (l : List (Batch R.toBatchRunner)) :
    (l.map Batch.stock).sum.card = l.countP Batch.owns + l.countP Batch.failed := by
  induction l with
  | nil => rfl
  | cons x l ih =>
    have hx : x.stock.card = (if x.owns then 1 else 0) + if x.failed then 1 else 0 := by
      unfold Batch.stock Batch.owned Batch.lost Batch.failed
      cases x.owns <;> cases Fails x.infer <;> rfl
    rw [List.map_cons, List.sum_cons, Multiset.card_add, ih, hx, List.countP_cons, List.countP_cons]
    omega

/-- In every run an input buffer is free, owned by a batch in flight, or lost with a batch whose inference task has
ended with an exception. -/
theorem Stocked.count {s : State R.toBatchRunner} (h : Stocked s) :
    s.backend.pool.available + s.batches.countP Batch.owns + s.batches.countP Batch.failed = R.bufferSize := by
  have hcard := congrArg Multiset.card h.balance
  rw [Multiset.card_add, Multiset.coe_card, Multiset.card_range, card_stock] at hcard
  rw [InferTensorBufferPool.available]
  omega

theorem Lent.not_failed {s : State R.toBatchRunner} (h : Lent s) {x : Batch R.toBatchRunner} (hx : x ∈ s.batches) :
    x.failed = false := by
  have hne := fun e => (h.fine x hx e).2
  unfold Batch.failed
  rcases hi : x.infer with _ | _ | _ | _ | _ | (e | out) | (e | out) <;> try rfl
  · exact absurd (by rw [hi]; rfl) (hne e)
  · exact absurd (by rw [hi]; rfl) (hne e)

/-- The free input buffers and the batches in flight that own one are as many as there are buffers, and all buffers are
free once every accepted request has finished. -/
structure Conserved (s : State R.toBatchRunner) : Prop where
  balance : s.backend.pool.available + s.batches.countP Batch.owns = R.bufferSize
  all_free : (∀ r < s.images.length, s.Finished r) → s.backend.pool.available = R.bufferSize

theorem Lent.conserved {s : State R.toBatchRunner} (h : Lent s) (hi : StockInv s) : Conserved s := by
  have hnone : s.batches.countP Batch.failed = 0 := by
    refine List.countP_eq_zero.2 fun x hx => ?_
    rw [h.not_failed hx]
    exact Bool.false_ne_true
  have hcount := hi.stocked.count
  refine ⟨by omega, fun hall => ?_⟩
  have howns : s.batches.countP Batch.owns = 0 := by
    refine List.countP_eq_zero.2 fun x hx => ?_
    obtain ⟨b, hb⟩ := List.mem_iff_getElem?.1 hx
    rw [Batch.owns_of_outcome (hi.inv.kept.outcome_of_all_finished hall hb)]
    exact Bool.false_ne_true
  omega

end OnnxInference.BatchScheduler
