import OnnxInference.Scheduler.AsyncCompletion

/-!
# A batch scheduler without input buffers

Each batch whose inference task ends with an exception loses its input buffer, and after `bufferSize` of them none is
left.  The worker then waits in `getTensorBuffer` with the mutex: no submission returns, no batch is made any more, and
the destructor cannot set `is_close_` (`worker_starves`).
-/

namespace OnnxInference.BatchScheduler

open Concurrency Transition CudaRunner
open AsyncScheduler (fallibleRunner)

variable {D C V X Img O : Type} {R : CudaRunner D C V X Img O} {s s' : State R.toBatchRunner} {l : Label Img C}

/-- The batches whose inference task has ended with an exception. -/
def State.failures (s : State R.toBatchRunner) : Nat := s.batches.countP Batch.failed

theorem countP_failed_set {b : Nat} {x y : Batch R.toBatchRunner} (hx : s.batches[b]? = some x)
    (h : x.failed = true → y.failed = true) :
    s.batches.countP Batch.failed ≤ (s.batches.set b y).countP Batch.failed := by
  obtain ⟨hlt, rfl⟩ := List.getElem?_eq_some_iff.1 hx
  have hle := List.boole_getElem_le_countP (p := Batch.failed) hlt
  rw [List.countP_set hlt]
  by_cases hf : s.batches[b].failed = true
  · simp [hf, h hf] at hle ⊢
    omega
  · simp [hf]

/-- A failure is for ever. -/
theorem Move.failures_le (hw : Worked s) (hm : Move s l s') : s.failures ≤ s'.failures := by
  unfold State.failures
  cases hm with
  | submit | turn | breakOut | misuse | destroyStart | close | joinWorker | stopPre | stopInfer | stopPost | joinPre
  | joinInfer | joinPost | destroyQueues => exact Nat.le_refl _
  | acquire => simp
  | fill _ _ hx | takePre _ hx | startPre hx | runPre hx | returnPre hx | endPre hx | takePost _ hx | startPost hx
  | runPost hx | deliver hx | throwPost hx | endPost hx => exact countP_failed_set hx fun h => h
  | @enqueueInfer b x pool at_ hx =>
    obtain ⟨size, hf⟩ := hw.filled b at_
    obtain ⟨z, hz, -, -, habs, -⟩ := hf.members
    rw [hx, Option.some.injEq] at hz
    subst hz
    exact countP_failed_set hx fun h => by simp [Batch.failed, Fails, habs] at h
  | takeInfer _ hx at_ | startInfer hx at_ | get hx at_ | rethrow hx at_ | callInfer hx at_ | runInfer hx at_
  | hop hx at_ | drop hx at_ | throwInfer hx at_ =>
    exact countP_failed_set hx fun h => by simp [Batch.failed, Fails, at_] at h
  | @endInfer b c x r hx at_ =>
    refine countP_failed_set hx fun h => ?_
    rw [Batch.failed, at_] at h
    rcases r with e | out <;> exact h

/-! ### The worker -/

/-- The worker does not exit before the scheduler is closed. -/
theorem Move.exited {B C Img T M O ε : Type} {R : BatchRunner B C Img T M O ε} {s s' : State R} {l : Label Img C}
    (hm : Move s l s') (h : s.worker = .exited → s.isClose = true) : s'.worker = .exited → s'.isClose = true := by
  intro hw
  cases hm with
  | turn ht =>
    cases ht with
    | exit _ closed => exact closed
    | ready | idle | filled | again | leave | loop => cases hw
  | acquire | breakOut | fill | enqueueInfer => cases hw
  | close => rfl
  | _ => exact h hw

theorem isClose_of_exited {B C Img T M O ε : Type} {R : BatchRunner B C Img T M O ε} {b : B} {s : State R}
    (h : (system R b).Reachable s) (hw : s.worker = .exited) : s.isClose = true := by
  have hinv : s.worker = .exited → s.isClose = true := by
    refine h.invariant (P := fun s => s.worker = .exited → s.isClose = true) (fun hw => by cases hw) ?_
    intro s l s' hs _ hstep
    exact (Move.of_step hstep).2.exited hs
  exact hinv hw

/-- When every input buffer is lost none is free, no batch owns one, and the worker is not filling a batch. -/
structure Exhausted (s : State R.toBatchRunner) : Prop where
  failures_eq : s.failures = R.bufferSize
  empty : s.backend.pool.buffer = []
  not_owns : ∀ x ∈ s.batches, x.owns = false
  not_current : ∀ b, ¬Current s b

theorem StockInv.exhausted (h : StockInv s) (hlost : s.failures = R.bufferSize) : Exhausted s := by
  have hcount := h.stocked.count
  rw [← State.failures, hlost, InferTensorBufferPool.available] at hcount
  have howns : s.batches.countP Batch.owns = 0 := by omega
  have hnone : ∀ x ∈ s.batches, x.owns = false := by
    intro x hx
    have := List.countP_eq_zero.1 howns x hx
    simpa using this
  refine ⟨hlost, List.eq_nil_of_length_eq_zero (by omega), hnone, fun b hcur => ?_⟩
  obtain ⟨size, i, hf⟩ := h.inv.kept.worked.filling_of_current hcur
  obtain ⟨x, hx, -, -, habs, -⟩ := hf.members
  have := hnone x (List.mem_of_getElem? hx)
  simp [Batch.owns, habs] at this

theorem Exhausted.no_buffer (h : Exhausted s) : R.toBatchRunner.getTensorBuffer s.backend = none := by
  simp [getTensorBuffer, InferTensorBufferPool.acquire, h.empty]

theorem Exhausted.next {device : D} (hs : (system R.toBatchRunner (R.backend device)).Reachable s) (h : Exhausted s)
    (hstep : step s l = some s') : Exhausted s' := by
  obtain ⟨-, hm⟩ := Move.of_step hstep
  have hle := hm.failures_le (reachable_stocked hs).inv.kept.worked
  have hi := reachable_stocked (.step hs trivial hstep)
  have hcount := hi.stocked.count
  refine hi.exhausted ?_
  have := h.failures_eq
  unfold State.failures at this hle ⊢
  omega

/-- No batch is made, and none gets another member. -/
theorem Exhausted.prms_eq (h : Exhausted s) (hm : Move s l s') :
    s'.batches.map Batch.prms = s.batches.map Batch.prms := by
  have keep : ∀ {b : Nat} {x y : Batch R.toBatchRunner}, s.batches[b]? = some x → y.prms = x.prms →
      (s.batches.set b y).map Batch.prms = s.batches.map Batch.prms := by
    intro b x y hx hy
    obtain ⟨hlt, rfl⟩ := List.getElem?_eq_some_iff.1 hx
    rw [List.map_set, hy]
    have hlt' : b < (s.batches.map Batch.prms).length := by simpa using hlt
    have hget : s.batches[b].prms = (s.batches.map Batch.prms)[b] := by simp
    rw [hget, List.set_getElem_self]
  cases hm with
  | submit | turn | breakOut | misuse | destroyStart | close | joinWorker | stopPre | stopInfer | stopPost | joinPre
  | joinInfer | joinPost | destroyQueues => rfl
  | acquire _ got =>
    rw [h.no_buffer] at got
    cases got
  | fill at_ => exact absurd (.inl ⟨_, _, at_⟩) (h.not_current _)
  | enqueueInfer at_ => exact absurd (.inr at_) (h.not_current _)
  | takePre _ hx | startPre hx | runPre hx | returnPre hx | endPre hx | takeInfer _ hx | startInfer hx | get hx
  | rethrow hx | callInfer hx | runInfer hx | hop hx | drop hx | throwInfer hx | endInfer hx | takePost _ hx
  | startPost hx | runPost hx | deliver hx | throwPost hx | endPost hx => exact keep hx rfl

/-- While the scheduler is open and a request is queued, the worker comes to `getTensorBuffer`. -/
theorem Exhausted.comes (b : CudaBackend D) (h : Exhausted s) (hu : s.undefined = false) (alive : s.isClose = false)
    (hne : s.inputs ≠ []) (hexit : s.worker ≠ .exited) : ∃ n ≤ 3, ∃ t,
      (system R.toBatchRunner b).run s (List.replicate n (.work : Label Img C)) = some t ∧
        t.worker = .getTensorBuffer := by
  have hemp : s.inputs.isEmpty = false := List.isEmpty_eq_false_iff.2 hne
  have hwake : ∀ w : Worker, w = .wait → step (s.turn w) (.work : Label Img C) = some (s.turn .getTensorBuffer) := by
    rintro w rfl
    simp only [step, State.turn, hu, Bool.false_eq_true, if_false, work, wake, alive, hemp, Bool.or_false,
      Bool.not_false, Bool.and_true]
    cases decide (R.toBatchRunner.batchSize ≤ s.inputs.length) <;> rfl
  have hcheck : ∀ w : Worker, w = .checkClose →
      step (s.turn w) (.work : Label Img C) = some (s.turn .wait) := by
    rintro w rfl
    simp [step, State.turn, hu, work, alive]
  have hsame : s = s.turn s.worker := rfl
  have hrun : ∀ (t : State R.toBatchRunner) (n : Nat), (system R.toBatchRunner b).run t
      (List.replicate (n + 1) (.work : Label Img C)) =
        (step t .work).bind fun t' => (system R.toBatchRunner b).run t' (List.replicate n .work) := by
    intro t n
    rw [List.replicate_succ, System.run_cons]
    rfl
  have hend : ∀ t : State R.toBatchRunner,
      (system R.toBatchRunner b).run t (List.replicate 0 (.work : Label Img C)) = some t := fun t => rfl
  cases hw : s.worker with
  | wait =>
    refine ⟨1, by omega, s.turn .getTensorBuffer, ?_, rfl⟩
    rw [hrun, hsame, hwake _ hw, Option.bind_some, hend]
    rfl
  | checkClose =>
    refine ⟨2, by omega, s.turn .getTensorBuffer, ?_, rfl⟩
    rw [hrun, hsame, hcheck _ hw, Option.bind_some, hrun]
    exact (congrArg (Option.bind · _) (hwake .wait rfl)).trans (hend _)
  | again =>
    by_cases hfull : R.toBatchRunner.batchSize ≤ s.inputs.length
    · refine ⟨1, by omega, s.turn .getTensorBuffer, ?_, rfl⟩
      have hready : step s (.work : Label Img C) = some (s.turn .getTensorBuffer) := by
        simp [step, hu, work, hw, hfull]
      rw [hrun, hready, Option.bind_some, hend]
    · refine ⟨3, by omega, s.turn .getTensorBuffer, ?_, rfl⟩
      have hleave : step s (.work : Label Img C) = some (s.turn .checkClose) := by simp [step, hu, work, hw, hfull]
      rw [hrun, hleave, Option.bind_some, hrun, hcheck _ rfl, Option.bind_some, hrun]
      exact (congrArg (Option.bind · _) (hwake .wait rfl)).trans (hend _)
  | getTensorBuffer => exact ⟨0, by omega, s, rfl, hw⟩
  | fill b' size i => exact absurd (.inl ⟨size, i, hw⟩) (h.not_current b')
  | enqueueInfer b' => exact absurd (.inr hw) (h.not_current b')
  | exited => exact absurd hw hexit

/-- The worker waits for a buffer with the mutex: no submission returns, and `is_close_` stays as it is. -/
theorem Exhausted.stays (h : Exhausted s) (hw : s.worker = .getTensorBuffer)
    (hm : Move s l s') : l ≠ .work ∧ s'.images = s.images ∧ s'.isClose = s.isClose := by
  have hbusy : ¬s.MutexFree := by
    intro hfree
    rcases hfree with hf | hf <;> rw [hw] at hf <;> cases hf
  cases hm with
  | submit free | close _ free => exact absurd free hbusy
  | turn ht => cases ht <;> simp_all
  | acquire _ got | breakOut _ got =>
    rw [h.no_buffer] at got
    cases got
  | fill at_ | enqueueInfer at_ =>
    rw [hw] at at_
    cases at_
  | _ => exact ⟨by simp, rfl, rfl⟩

/-! ### For ever -/

/-- The worker waits in `getTensorBuffer` for ever: it keeps the mutex, so that no submission and not the destructor
returns, and the other threads stop after a while. -/
structure Blocked (s : State R.toBatchRunner) (ls : List (Label Img C)) (s' : State R.toBatchRunner) : Prop where
  worker : s'.worker = .getTensorBuffer
  images : s'.images = s.images
  isClose : s'.isClose = s.isClose
  destructor : s'.teardown ≠ some []
  steps_le : ls.length ≤ s.left

/-- What becomes of the scheduler from a state on in which every input buffer is lost.  No batch is made any more, and
no request that is not in one is answered; the next one brings the worker to `getTensorBuffer`, where it stays. -/
structure Starved (b : CudaBackend D) (s : State R.toBatchRunner) (ls : List (Label Img C))
    (s' : State R.toBatchRunner) : Prop where
  lost : s'.failures = R.bufferSize ∧ s'.backend.pool.buffer = []
  batches : s'.batches.map Batch.prms = s.batches.map Batch.prms
  unanswered : ∀ r, (∀ x ∈ s.batches, r ∉ x.prms) → s'.promise r = []
  comes : s'.isClose = false → s'.inputs ≠ [] → ∃ n ≤ 3, ∃ t,
    (system R.toBatchRunner b).run s' (List.replicate n (.work : Label Img C)) = some t ∧ t.worker = .getTensorBuffer
  blocked : s.worker = .getTensorBuffer → Blocked s ls s'

theorem not_undefined {device : D} (h : (system R.toBatchRunner (R.backend device)).Reachable s)
    (hne : s.worker ≠ .exited) : s.undefined = false := by
  by_contra hu
  refine not_open_of_undefined h (by simpa using hu) ?_
  exact (reachable_stocked h).inv.phase.open_of_worker hne .post

/-- The worker waits for a buffer and there will be none. -/
structure Waiting (device : D) (s : State R.toBatchRunner) : Prop where
  reachable : (system R.toBatchRunner (R.backend device)).Reachable s
  exhausted : Exhausted s
  worker : s.worker = .getTensorBuffer

theorem Waiting.next {device : D} (h : Waiting device s) (hs : step s l = some s') :
    Waiting device s' ∧ s'.images = s.images ∧ s'.isClose = s.isClose ∧ s'.left < s.left := by
  obtain ⟨hu, hm⟩ := Move.of_step hs
  obtain ⟨hl, himg, hcl⟩ := h.exhausted.stays h.worker hm
  obtain ⟨hw, hlt⟩ := left_lt_of_move hu h.worker hl hm
  exact ⟨⟨.step h.reachable trivial hs, h.exhausted.next h.reachable hs, hw⟩, himg, hcl, hlt⟩

theorem Waiting.blocked {device : D} (h : Waiting device s) {ls : List (Label Img C)}
    (hr : (system R.toBatchRunner (R.backend device)).run s ls = some s') : Blocked s ls s' := by
  obtain ⟨h', himg, hcl⟩ := System.run_invariant
    (P := fun t => Waiting device t ∧ t.images = s.images ∧ t.isClose = s.isClose) (fun ht hs => by
      obtain ⟨ht', himg, hcl, -⟩ := ht.1.next hs
      exact ⟨ht', himg.trans ht.2.1, hcl.trans ht.2.2⟩) ⟨h, rfl, rfl⟩ hr
  have hlen : ls.length ≤ s.left := by
    refine System.run_length_le (I := Waiting device) (A := fun _ => True) ?_ h (fun _ _ => trivial) hr
    intro t l t' ht _ hs
    obtain ⟨ht', -, -, hlt⟩ := ht.next hs
    exact ⟨ht', hlt⟩
  refine ⟨h'.worker, himg, hcl, fun hend => ?_, hlen⟩
  have hexit := (reachable_stocked h'.reachable).inv.phase.exited (by simp [State.todo, hend])
  rw [h'.worker] at hexit
  cases hexit

theorem worker_starves {device : D} (h : (system R.toBatchRunner (R.backend device)).Reachable s)
    (hlost : s.failures = R.bufferSize) {ls : List (Label Img C)}
    (hr : (system R.toBatchRunner (R.backend device)).run s ls = some s') : Starved (R.backend device) s ls s' := by
  have hx := (reachable_stocked h).exhausted hlost
  obtain ⟨hs', hx', hprms⟩ := System.run_invariant (P := fun t =>
    (system R.toBatchRunner (R.backend device)).Reachable t ∧ Exhausted t ∧
      t.batches.map Batch.prms = s.batches.map Batch.prms)
    (fun ht hs => ⟨.step ht.1 trivial hs, ht.2.1.next ht.1 hs,
      (ht.2.1.prms_eq (Move.of_step hs).2).trans ht.2.2⟩) ⟨h, hx, rfl⟩ hr
  refine ⟨⟨hx'.failures_eq, hx'.empty⟩, hprms, fun r hr => ?_, fun alive hne => ?_, fun hw => ?_⟩
  · refine (reachable_stocked hs').inv.kept.served.other r fun x hxm hmem => ?_
    have hin : x.prms ∈ s.batches.map Batch.prms := hprms ▸ List.mem_map_of_mem hxm
    obtain ⟨y, hy, heq⟩ := List.mem_map.1 hin
    exact hr y hy (heq ▸ hmem)
  · have hexit : s'.worker ≠ .exited := by
      intro hw
      rw [isClose_of_exited hs' hw] at alive
      cases alive
    exact hx'.comes _ (not_undefined hs' hexit) alive hne hexit
  · exact Waiting.blocked ⟨h, hx, hw⟩ hr

/-- The call of `session_->Run` for the first image throws; the worker waits for the buffer of the first when the
destructor starts. -/
theorem worker_starves_queued : ∃ s s' : State fallibleRunner.toBatchRunner, s.images = [5, 6] ∧ s'.teardown ≠ none ∧
    s.worker = .getTensorBuffer ∧ Starved (fallibleRunner.backend ()) s [.destroy] s' := by
  let turns (n : Nat) : List (Label Nat Bool) := List.replicate n .work
  obtain ⟨s, hs, hp⟩ := System.exists_reachable_of_run (system fallibleRunner.toBatchRunner (fallibleRunner.backend ()))
    (.submit 5 :: turns 7 ++ .take .pre :: List.replicate 4 (.advancePre 0 0 true) ++ .take .infer ::
      List.replicate 8 (.advanceInfer 0 false) ++ .submit 6 :: turns 1)
    (fun s => s.images == [5, 6] && s.failures == 1 && s.worker == .getTensorBuffer &&
      ((system fallibleRunner.toBatchRunner (fallibleRunner.backend ())).run s [.destroy]).any
        fun s' => s'.teardown.isSome)
    (by decide +kernel)
  simp only [Bool.and_eq_true, beq_iff_eq, Option.any_eq_true] at hp
  obtain ⟨⟨⟨himg, hlost⟩, hw⟩, s', hr, hdown⟩ := hp
  exact ⟨s, s', himg, Option.isSome_iff_ne_none.1 hdown, hw, worker_starves hs hlost hr⟩

end OnnxInference.BatchScheduler
