import OnnxInference.Scheduler.BatchBuffers

/-!
# The batch worker and the input buffers

While the worker waits in `getTensorBuffer` it holds the mutex, and the other threads can take a bounded number of
steps only (`steps_le`).  As long as the pool stays empty and no inference task has failed, one of them can take a
step, unless it waits in the runner's own preprocess or postprocess (`goes_on`).  Where none of them waits there for
ever, the worker is not blocked for ever (`unblocked`).
-/

namespace OnnxInference.BatchScheduler

open Concurrency Transition CudaRunner

variable {D C V X Img O : Type} {R : CudaRunner D C V X Img O}

/-! ### A bound on the other threads -/

def preprocessBound : R.preprocessAtProg.StepBound where
  rank := R.preprocessBound.rank
  lt := by
    rintro c s s' l l' h
    simp only [preprocessAtProg, Option.map_eq_some_iff, Prod.mk.injEq] at h
    obtain ⟨⟨z, w⟩, hz, -, rfl⟩ := h
    exact R.preprocessBound.lt hz

def postprocessBound : (R.postprocessProg (id : Outputs R.batch O → _)).StepBound where
  rank
    | .body _ l => R.postprocessBound.rank l + 1
    | .destroy _ _ => 0
  lt := by
    rintro c be be' (⟨callBack, l⟩ | ⟨callBack, r⟩) l' h
    · simp only [postprocessProg, Option.map_eq_some_iff, Prod.mk.injEq] at h
      obtain ⟨⟨device, l'' | r⟩, hz, -, heq⟩ := h
      · cases heq
        exact Nat.succ_lt_succ (R.postprocessBound.lt hz)
      · cases heq
        exact Nat.succ_pos _
    · simp [postprocessProg] at h

def inferRank {T : Type} : InferAt T X → Nat
  | .find _ => 4
  | .acquire _ => 3
  | .run _ _ => 2
  | .release _ _ _ => 1
  | .done _ _ => 0

theorem inferRank_lt {c : C} {be be' : CudaBackend D} {l l' : InferAt R.Tensor X}
    (h : InferMove R c be l (be', .inl l')) : inferRank l' < inferRank l := by
  cases h <;> simp [inferRank]

/-- The steps of the inference task that are still to come, with those of the postprocess task that it will enqueue. -/
def Batch.inferLeft (x : Batch R.toBatchRunner) : Nat :=
  match x.infer with
  | .absent | .finished _ => 0
  | .queued _ => R.postSteps + x.pre.length + 17
  | .start _ => R.postSteps + x.pre.length + 16
  | .execute (.inl i) => R.postSteps + (x.pre.length - i) + 15
  | .execute (.inr l) => R.postSteps + inferRank l + 10
  | .returned _ => R.postSteps + 9
  | .ending _ => 1

def Batch.left (x : Batch R.toBatchRunner) : Nat :=
  (x.pre.map (Task.left preprocessBound)).sum + x.inferLeft + x.post.left postprocessBound

/-- A bound on the steps that the threads other than the worker can take while it waits. -/
def State.left (s : State R.toBatchRunner) : Nat :=
  (s.batches.map Batch.left).sum + (s.teardown.elim (destructor.length + 1) List.length) +
    if s.undefined then 0 else 1

theorem left_setBatch {s s' : State R.toBatchRunner} {b : Nat} {x y : Batch R.toBatchRunner}
    (hx : s.batches[b]? = some x) (hb : s'.batches = s.batches.set b y) (ht : s'.teardown = s.teardown)
    (hu : s'.undefined = s.undefined) (hlt : y.left < x.left) : s'.left < s.left := by
  have hsum := Ledger.sum_map_set Batch.left hx y
  simp only [State.left, hb, ht, hu]
  omega

theorem left_setPre {x : Batch R.toBatchRunner} {i : Nat} {tenbuf : R.Tensor}
    {t t' : Task (Img × Nat) R.preprocessAt.Local Unit Error} (ht : x.pre[i]? = some t)
    (hlt : Task.left preprocessBound t' < Task.left preprocessBound t) :
    ({ x with tenbuf := tenbuf, pre := x.pre.set i t' } : Batch R.toBatchRunner).left < x.left := by
  have hsum := Ledger.sum_map_set (Task.left preprocessBound) ht t'
  have hinfer :
      ({ x with tenbuf := tenbuf, pre := x.pre.set i t' } : Batch R.toBatchRunner).inferLeft = x.inferLeft := by
    simp only [Batch.inferLeft, List.length_set]
  simp only [Batch.left, hinfer]
  omega

theorem left_setInfer {x y : Batch R.toBatchRunner} (hpre : y.pre = x.pre) (hpost : y.post = x.post)
    (hlt : y.inferLeft < x.inferLeft) : y.left < x.left := by
  simp only [Batch.left, hpre, hpost]
  omega

theorem left_setPost {x y : Batch R.toBatchRunner} (hpre : y.pre = x.pre) (hinfer : y.infer = x.infer)
    (hlt : y.post.left postprocessBound < x.post.left postprocessBound) : y.left < x.left := by
  have hsame : y.inferLeft = x.inferLeft := by simp only [Batch.inferLeft, hpre, hinfer]
  simp only [Batch.left, hpre, hsame]
  omega

/-- The inference task hands the rest of its steps over to the postprocess task. -/
theorem left_hop {x : Batch R.toBatchRunner} {out : DeviceOutput X} (at_ : x.infer = .returned (.ok out)) :
    ({ x with infer := .ending (.ok out), post := .queued out } : Batch R.toBatchRunner).left < x.left := by
  have hsteps := R.postSteps_le out
  simp only [Batch.left, Batch.inferLeft, at_, Task.left, postprocessBound, postprocessProg]
  omega

/-- While the worker waits in `getTensorBuffer` every step of another thread lowers the bound. -/
theorem left_lt_of_move {s s' : State R.toBatchRunner} {l : Label Img C} (hu : s.undefined = false)
    (hw : s.worker = .getTensorBuffer) (hl : l ≠ .work) (hm : Move s l s') :
    s'.worker = .getTensorBuffer ∧ s'.left < s.left := by
  have todo : ∀ {a : Teardown} {rest : List Teardown}, s.teardown = some (a :: rest) →
      ∀ z : State R.toBatchRunner, z.batches = s.batches → z.teardown = some rest → z.undefined = s.undefined →
        z.left < s.left := by
    intro a rest ht z hb ht' hu'
    simp [State.left, hb, ht, ht', hu']
  cases hm with
  | turn | acquire | breakOut | fill | enqueueInfer => exact absurd rfl hl
  | submit free => rcases free with hf | hf <;> rw [hw] at hf <;> cases hf
  | takePre _ hx at_ | startPre hx at_ | returnPre hx at_ | endPre hx at_ =>
    exact ⟨hw, left_setBatch hx rfl rfl rfl (left_setPre at_ (by simp [Task.left]))⟩
  | runPre hx at_ stepped =>
    exact ⟨hw, left_setBatch hx rfl rfl rfl (left_setPre at_ (Task.left_ofStep_lt preprocessBound stepped))⟩
  | takeInfer _ hx at_ | startInfer hx at_ | rethrow hx at_ | throwInfer hx at_ | drop hx at_ | endInfer hx at_ =>
    refine ⟨hw, left_setBatch hx rfl rfl rfl (left_setInfer rfl rfl ?_)⟩
    simp [Batch.inferLeft, at_]
    try omega
  | get hx at_ ht =>
    refine ⟨hw, left_setBatch hx rfl rfl rfl (left_setInfer rfl rfl ?_)⟩
    have hlt := (List.getElem?_eq_some_iff.1 ht).1
    simp only [Batch.inferLeft, at_]
    omega
  | callInfer hx at_ all =>
    refine ⟨hw, left_setBatch hx rfl rfl rfl (left_setInfer rfl rfl ?_)⟩
    simp only [Batch.inferLeft, at_, inferRank]
    omega
  | @runInfer b c x l y hx at_ stepped =>
    refine ⟨hw, left_setBatch hx rfl rfl rfl (left_setInfer rfl rfl ?_)⟩
    obtain ⟨be', l' | r⟩ := y
    · have hlt := inferRank_lt (InferMove.of_step stepped)
      simp only [Batch.inferLeft, at_, Sum.map_inl, Task.ofStep]
      omega
    · simp only [Batch.inferLeft, at_, Sum.map_inr, Task.ofStep]
      omega
  | hop hx at_ => exact ⟨hw, left_setBatch hx rfl rfl rfl (left_hop at_)⟩
  | takePost _ hx at_ | startPost hx at_ | deliver hx at_ | throwPost hx at_ | endPost hx at_ =>
    refine ⟨hw, left_setBatch hx rfl rfl rfl (left_setPost rfl rfl ?_)⟩
    simp [at_, Task.left]
  | runPost hx at_ stepped =>
    refine ⟨hw, left_setBatch hx rfl rfl rfl (left_setPost rfl rfl ?_)⟩
    rw [at_]
    exact Task.left_ofStep_lt postprocessBound stepped
  | misuse => exact ⟨hw, by simp [State.left, hu]⟩
  | destroyStart alive => exact ⟨hw, by simp [State.left, alive]⟩
  | close ht | joinWorker ht | stopPre ht | stopInfer ht | stopPost ht | joinPre ht | joinInfer ht | joinPost ht
  | destroyQueues ht => exact ⟨hw, todo ht _ rfl rfl rfl⟩

theorem steps_le {b : CudaBackend D} {s s' : State R.toBatchRunner} (hw : s.worker = .getTensorBuffer)
    {ls : List (Label Img C)} (hl : ∀ l ∈ ls, l ≠ .work) (hr : (system R.toBatchRunner b).run s ls = some s') :
    ls.length ≤ s.left := by
  refine System.run_length_le (I := fun s => s.worker = .getTensorBuffer) (A := fun l => l ≠ .work) ?_ hw hl hr
  intro s l s' hw hl hs
  obtain ⟨hu, hm⟩ := Move.of_step hs
  exact left_lt_of_move hu hw hl hm

/-! ### One of them can go on -/

/-- The steps of the threads of the executors when what the outside decides is `c`. -/
def OfExecutor (c : C) : Label Img C → Prop
  | .take _ => True
  | .advancePre _ _ c' | .advanceInfer _ c' | .advancePost _ c' => c' = c
  | .submit _ | .work | .destroy => False

/-- A thread waits in the runner's own preprocess or postprocess. -/
def State.WaitsInStage (s : State R.toBatchRunner) (c : C) : Prop :=
  (∃ (b i : Nat) (x : Batch R.toBatchRunner) (l : R.preprocessAt.Local), s.batches[b]? = some x ∧
    x.pre[i]? = some (.execute l) ∧ R.preprocessAt.step c (s.backend.device, x.tenbuf) l = none) ∨
  ∃ (b : Nat) (x : Batch R.toBatchRunner) (callBack : Ptr) (l : R.postprocess.Local), s.batches[b]? = some x ∧
    x.post = .execute (.body callBack l) ∧ R.postprocess.step c s.backend.device l = none

/-- A thread of the executors can take a step, or waits in a stage of the runner. -/
def State.GoesOn (s : State R.toBatchRunner) (c : C) : Prop :=
  (∃ (l : Label Img C) (s' : State R.toBatchRunner), OfExecutor c l ∧ step s l = some s') ∨ s.WaitsInStage c

/-- A thread waits in a stage of the runner for ever: no thread of the executors can take a step. -/
def State.Hangs (s : State R.toBatchRunner) (c : C) : Prop :=
  s.WaitsInStage c ∧ ∀ (l : Label Img C) (s' : State R.toBatchRunner), OfExecutor c l → step s l ≠ some s'

/-- Only a destroyed postprocess executor makes the behaviour undefined. -/
theorem not_open_of_undefined {B T M ε : Type} {Q : BatchRunner B C Img T M O ε} {b : B} {s : State Q}
    (h : (system Q b).Reachable s) (hu : s.undefined = true) : ¬s.Open .post := by
  cases h with
  | init => cases hu
  | step hr _ hs =>
    obtain ⟨hu', hm⟩ := Move.of_step hs
    cases hm with
    | misuse hx at_ dead => exact fun ho => (ho.enqueue_ne _).2 dead
    | _ =>
      have := hu'.symm.trans hu
      cases this

section Progress

variable {s : State R.toBatchRunner} {c : C}

/-- A preprocess task that has not returned goes on, or another one does. -/
theorem goes_on_pre (hi : Inv s) (hu : s.undefined = false) {b i : Nat} {x : Batch R.toBatchRunner}
    {t : Task (Img × Nat) R.preprocessAt.Local Unit Error} (hx : s.batches[b]? = some x) (ht : x.pre[i]? = some t)
    (hnone : t.outcome = none) : s.GoesOn c := by
  obtain ⟨-, -, -, hne⟩ := (hi.kept.served.sound b x hx).pre i t ht
  have hst : s.preStatus (b, i) = t.status := by rw [State.preStatus_of hx, statusAt_of ht]
  have hpending := Task.pending_of_outcome_none hnone hne
  have hjobs := hi.tracked.pre.ne_nil_of_pending (j := (b, i)) (by rwa [hst])
  rcases hi.tracked.pre_goes (C := C) hi.manned hu hjobs with ⟨s', hs⟩ | ⟨b', i', x', t', hx', ht', hrun⟩
  · exact .inl ⟨.take .pre, s', trivial, hs⟩
  · cases hs : step s (.advancePre b' i' c) with
    | some s' => exact .inl ⟨.advancePre b' i' c, s', rfl, hs⟩
    | none =>
      obtain ⟨l, rfl, hl⟩ := waits_of_advancePre_none hu hx' ht' hrun hs
      exact .inr (.inl ⟨b', i', x', l, hx', ht', Option.map_eq_none_iff.1 hl⟩)

/-- A postprocess task that has not ended goes on, or another one does. -/
theorem goes_on_post (hi : StockInv s) (hlent : Lent s) (hu : s.undefined = false) {b : Nat}
    {x : Batch R.toBatchRunner} (hx : s.batches[b]? = some x) (hp : x.post.Pending) : s.GoesOn c := by
  have hjobs := hi.inv.tracked.post.ne_nil_of_pending (j := b) (by rwa [State.postStatus_of hx])
  rcases hi.inv.tracked.post_goes (C := C) hi.inv.manned hu hjobs with ⟨s', hs⟩ | ⟨b', x', hx', hrun⟩
  · exact .inl ⟨.take .post, s', trivial, hs⟩
  · cases hs : step s (.advancePost b' c) with
    | some s' => exact .inl ⟨.advancePost b' c, s', rfl, hs⟩
    | none =>
      obtain ⟨l, at_, hl⟩ := waits_of_advancePost_none hu hx' hrun hs
      rcases l with ⟨callBack, l⟩ | ⟨callBack, r⟩
      · exact .inr (.inr ⟨b', x', callBack, l, hx', at_, Option.map_eq_none_iff.1 hl⟩)
      · -- the pool takes the buffer back
        obtain ⟨out, hout, hof⟩ := (hi.inv.kept.served.sound b' x' hx').post (by rw [at_]; exact nofun)
        rw [at_] at hof
        have hcall : callBack = out.callBack := postAt_callBack hof
        have hlt : callBack < R.bufferSize * 2 := by
          refine hlent.out_lt (List.mem_of_getElem? hx') ?_
          rw [Batch.outs_of_pending hout (.inr hrun), ← hcall]
          exact Multiset.mem_singleton_self _
        obtain ⟨be', hbe⟩ := exists_destroyTensor hi.stocked.backend hlt
        simp [postprocessProg, hbe] at hl

/-- If no output buffer is free, the batch that has one goes on. -/
theorem goes_on_out (hi : StockInv s) (hlent : Lent s) (hu : s.undefined = false)
    (hempty : s.backend.gpuOutputBuffer.buffer = []) : s.GoesOn c := by
  have hne : (s.batches.map Batch.outs).sum ≠ 0 := by
    intro h0
    have hle := hlent.outs.le
    rw [hempty, h0, add_zero] at hle
    have hcard := Multiset.card_le_card hle
    rw [Multiset.card_range, Multiset.coe_card, List.length_nil] at hcard
    have := R.bufferSize_pos
    omega
  obtain ⟨b, x, hx, hout⟩ := Ledger.exists_of_sum_ne_zero Batch.outs hne
  by_cases hp : x.post.Pending
  · exact goes_on_post hi hlent hu hx hp
  · have hinfer : x.infer.status = .running ∧ ∀ j, x.infer ≠ .execute (.inl j) := by
      rcases hinf : x.infer with _ | _ | _ | (j | l) | (e | o) | r | r <;> simp [Batch.outs, hinf, hp, outOf] at hout ⊢
    cases hs : step s (.advanceInfer b c) with
    | some s' => exact .inl ⟨.advanceInfer b c, s', rfl, hs⟩
    | none =>
      rcases waits_of_advanceInfer_none hu hx hinfer.1 hs with ⟨l, at_, hl⟩ | ⟨j, -, at_, -⟩
      · obtain ⟨t, rfl, -⟩ := infer_waits hl
        rw [Batch.outs_execute at_] at hout
        exact absurd rfl hout
      · exact absurd at_ (hinfer.2 j)

/-- An inference task that has not ended goes on, or a task it waits for does. -/
theorem goes_on_infer (hi : StockInv s) (hlent : Lent s) (hu : s.undefined = false) {b : Nat}
    {x : Batch R.toBatchRunner} (hx : s.batches[b]? = some x) (hp : x.infer.Pending) : s.GoesOn c := by
  have hjobs := hi.inv.tracked.infer.ne_nil_of_pending (j := b) (by rwa [State.inferStatus_of hx])
  rcases hi.inv.tracked.infer_goes (C := C) hi.inv.manned hu hjobs with ⟨s', hs⟩ | ⟨b', x', hx', hrun⟩
  · exact .inl ⟨.take .infer, s', trivial, hs⟩
  · cases hs : step s (.advanceInfer b' c) with
    | some s' => exact .inl ⟨.advanceInfer b' c, s', rfl, hs⟩
    | none =>
      rcases waits_of_advanceInfer_none hu hx' hrun hs with ⟨l, -, hl⟩ | ⟨j, t, -, ht, hnone⟩
      · obtain ⟨-, -, hempty⟩ := infer_waits hl
        exact goes_on_out hi hlent hu hempty
      · exact goes_on_pre hi.inv hu hx' ht hnone

/-- If no input buffer is free while the worker waits for one, a batch that owns one goes on. -/
theorem goes_on (hi : StockInv s) (hlent : Lent s) (hu : s.undefined = false) (hw : s.worker = .getTensorBuffer)
    (hempty : s.backend.pool.buffer = []) : s.GoesOn c := by
  have hbalance := (hlent.conserved hi).balance
  rw [InferTensorBufferPool.available, hempty, List.length_nil, Nat.zero_add] at hbalance
  have hpos : 0 < s.batches.countP Batch.owns := hbalance ▸ R.bufferSize_pos
  obtain ⟨x, hx, howns⟩ := List.countP_pos_iff.1 hpos
  obtain ⟨b, hb⟩ := List.mem_iff_getElem?.1 hx
  have hcur : ¬Current s b := by
    rintro (⟨_, _, hc⟩ | hc) <;> rw [hw] at hc <;> cases hc
  refine goes_on_infer hi hlent hu hb ?_
  have hne := (hi.inv.kept.worked.dispatched b x hb hcur).1
  by_contra hpend
  rcases Task.not_pending_iff.1 hpend with habs | ⟨r, hfin⟩
  · exact hne habs
  · simp [Batch.owns, hfin, Keeps] at howns

end Progress

/-- The worker, which holds the mutex, is not blocked in `getTensorBuffer` for ever: the other threads take finitely
many steps before its next one, and as long as no input buffer is free one of them can take a step. -/
structure Unblocked (s : State R.toBatchRunner) : Prop where
  steps_le : ∃ n : Nat, ∀ (b : CudaBackend D) (ls : List (Label Img C)) (s' : State R.toBatchRunner),
    (∀ l ∈ ls, l ≠ .work) → (system R.toBatchRunner b).run s ls = some s' → ls.length ≤ n
  goes_on : R.getTensorBuffer s.backend = none → ∀ c : C,
    ∃ (l : Label Img C) (s' : State R.toBatchRunner), OfExecutor c l ∧ step s l = some s'

theorem unblocked {device : D} {s : State R.toBatchRunner}
    (h : (system R.toBatchRunner (R.backend device)).ReachBy Unfailing s) (hw : s.worker = .getTensorBuffer)
    (hlive : ∀ c, ¬s.Hangs c) : Unblocked s := by
  have hi := reachable_stocked h.reachable
  have hu : s.undefined = false := by
    by_contra hu
    refine not_open_of_undefined h.reachable (by simpa using hu) ?_
    exact hi.inv.phase.open_of_worker (by rw [hw]; exact nofun) .post
  refine ⟨⟨s.left, fun b ls s' hl hr => steps_le hw hl hr⟩, fun hnone c => ?_⟩
  have hempty : s.backend.pool.buffer = [] := by
    by_contra hne
    obtain ⟨x, hx⟩ := InferTensorBufferPool.acquire_of_ne_nil hne
    simp [getTensorBuffer, hx] at hnone
  rcases goes_on hi (unfailing_lent h) hu hw hempty with hstep | hwaits
  · exact hstep
  · by_contra hnot
    push Not at hnot
    exact hlive c ⟨hwaits, fun l s' hl => hnot l s' hl⟩

end OnnxInference.BatchScheduler
