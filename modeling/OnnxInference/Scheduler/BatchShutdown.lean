import OnnxInference.Scheduler.BatchSlots

/-!
# Destruction of the batch scheduler

Once `is_close_` is set the worker takes full batches only, and the destructor stops and joins the postprocess
executor before the executor that enqueues into it.  So a request can be left in the queues or between two stages;
the runs in which neither happens are those of `CleanStep`, and in these the destructor drains the scheduler
(`drained_of_clean`).
-/

namespace OnnxInference.BatchScheduler

open Concurrency Transition

variable {B C Img T M O ε : Type} {R : BatchRunner B C Img T M O ε}

/-! ### What becomes of a request -/

/-- What the stages make of the member `i` of a batch: the output at its slot, or the exception that one of them threw
for the batch. -/
inductive Batch.Made (x : Batch R) (i : Nat) : Except (Exn ε) O → Prop
  | output {out : M} {outs : Outputs R.batchSize O} {o : O} (inferred : x.Result (.ok out))
      (postprocessed : R.postprocess.Ends out (.ok outs)) (at_ : outs.1[i]? = some o) : Made x i (.ok o)
  | threw {e : ε} (h : x.Result (.error e)) : Made x i (.error (.stage e))
  | threwPost {out : M} {e : ε} (inferred : x.Result (.ok out)) (h : R.postprocess.Ends out (.error e)) :
      Made x i (.error (.stage e))

private theorem Batch.Sound.made_of_mem {images : List Img} {x : Batch R} (h : x.Sound images) {i : Nat}
    {v : Except (Exn ε) O} (hv : v ∈ x.result i) : x.Made i v := by
  have hpost : ∀ {out r}, x.infer.outcome = some (.ok out) → x.post.outcome = some r → R.postprocess.Ends out r := by
    intro out r hout hr
    obtain ⟨out', hout', hof⟩ := h.post fun habs => by rw [habs] at hr; cases hr
    rw [hout, Option.some.injEq, Except.ok.injEq] at hout'
    exact hout' ▸ hof.outcome hr
  unfold Batch.result at hv
  rcases hi : x.infer.outcome with _ | e | out <;> simp only [hi] at hv
  · cases hv
  · rw [List.mem_singleton] at hv
    exact hv ▸ .threw (h.result_of_outcome hi)
  · rcases hp : x.post.outcome with _ | e | outs <;> simp only [hp] at hv
    · cases hv
    · rw [List.mem_singleton] at hv
      exact hv ▸ .threwPost (h.result_of_outcome hi) (hpost hi hp)
    · obtain ⟨o, ho, rfl⟩ := List.mem_map.1 hv
      exact .output (h.result_of_outcome hi) (hpost hi hp) (by simpa using ho)

/-- A batch all of whose stages have ended gives each member something. -/
private theorem Batch.result_ne_nil {x : Batch R} {i : Nat} (hi : i < R.batchSize) {r : Except ε M}
    (hr : x.infer.outcome = some r) (hpost : ∀ out, r = .ok out → ∃ r', x.post.outcome = some r') :
    x.result i ≠ [] := by
  rcases r with e | out
  · simp [Batch.result, hr]
  · obtain ⟨e | outs, hp⟩ := hpost out rfl
    · simp [Batch.result, hr, hp]
    · have hlt : i < outs.1.length := Nat.lt_of_lt_of_le hi outs.2
      simp [Batch.result, hr, hp, List.getElem?_eq_getElem hlt]

/-- Request `r` was written to a slot of a batch, and `v` is what the stages made of it. -/
def MadeFor (s : State R) (r : Nat) (v : Except (Exn ε) O) : Prop :=
  ∃ (b i : Nat) (x : Batch R) (img : Img) (t : _), s.batches[b]? = some x ∧ x.prms[i]? = some r ∧
    s.images[r]? = some img ∧ x.pre[i]? = some t ∧ t.Of R.preprocess (img, i) ∧ t ≠ .absent ∧ x.Made i v

theorem Kept.madeFor {s : State R} (h : Kept s) {r : Nat} {v : Except (Exn ε) O} (hv : v ∈ s.promise r) :
    MadeFor s r v := by
  by_cases hmem : ∃ x ∈ s.batches, r ∈ x.prms
  · obtain ⟨x, hx, hr⟩ := hmem
    obtain ⟨b, hb⟩ := List.mem_iff_getElem?.1 hx
    obtain ⟨i, hi⟩ := List.mem_iff_getElem?.1 hr
    rw [h.served.member b x i r hb hi] at hv
    have hsound := h.served.sound b x hb
    have hinfer : x.infer ≠ .absent := by
      intro habs
      simp [Batch.result, habs] at hv
    obtain ⟨-, -, hlen⟩ := h.worked.sizes hb hinfer
    have hlt := (List.getElem?_eq_some_iff.1 hi).1
    have ht := List.getElem?_eq_getElem (hlen.symm ▸ hlt)
    obtain ⟨img, himg, hof, hne⟩ := hsound.pre i _ ht
    rw [Batch.imageAt, hi, Option.bind_some] at himg
    exact ⟨b, i, x, img, _, hb, hi, himg, ht, hof, hne, hsound.made_of_mem hv⟩
  · rw [h.served.other r fun x hx hr => hmem ⟨x, hx, hr⟩] at hv
    cases hv

/-! ### The runs in which nothing is left behind -/

/-- When `is_close_` is set the number of queued requests is a multiple of `batch_`, and the postprocess executor is
open when an inference task comes to enqueue into it. -/
structure CleanStep (s : State R) (l : Label Img C) : Prop where
  close : l = .destroy → ∀ rest, s.teardown = some (.close :: rest) → R.batchSize ∣ s.inputs.length
  hop : ∀ b c x out, l = .advanceInfer b c → s.batches[b]? = some x → x.infer = .returned (.ok out) →
    s.postExecutor.Open

/-- The requests that the worker will still move to the batch it is filling. -/
def State.toFill (s : State R) : Nat :=
  match s.worker with
  | .fill _ size i => size - i
  | _ => 0

/-- What the worker leaves in the queues once `is_close_` is set. -/
structure Closing (s : State R) : Prop where
  even : s.isClose = true → R.batchSize ∣ s.inputs.length - s.toFill
  done : s.isClose = true → s.worker = .checkClose → s.inputs = []
  exited : s.worker = .exited → s.isClose = true ∧ s.inputs = []

private theorem Closing.congr {s s' : State R} (h : Closing s) (hw : s'.worker = s.worker) (hc : s'.isClose = s.isClose)
    (hi : s'.inputs = s.inputs) : Closing s' := by
  refine ⟨fun hc' => ?_, fun hc' hw' => ?_, fun hw' => ?_⟩
  · rw [State.toFill, hw, hi]
    exact h.even (hc ▸ hc')
  · rw [hi]
    exact h.done (hc ▸ hc') (hw ▸ hw')
  · rw [hc, hi]
    exact h.exited (hw ▸ hw')

/-- Fewer than `batch_` requests are none. -/
private theorem Closing.eq_nil {s : State R} (h : Closing s) (hc : s.isClose = true) (hfill : s.toFill = 0)
    (hlt : s.inputs.length < R.batchSize) : s.inputs = [] := by
  have hdvd := h.even hc
  rw [hfill, Nat.sub_zero] at hdvd
  exact List.length_eq_zero_iff.1 (Nat.eq_zero_of_dvd_of_lt hdvd hlt)

private theorem Closing.turn {s : State R} {w : Worker} (h : Closing s) (ht : Turn s w) : Closing (s.turn w) := by
  cases ht with
  | ready at_ | again at_ =>
    have hfill : s.toFill = 0 := by simp [State.toFill, at_]
    refine ⟨fun hc => ?_, nofun, nofun⟩
    have hdvd := h.even hc
    rwa [hfill] at hdvd
  | idle at_ less | leave at_ less =>
    have hfill : s.toFill = 0 := by simp [State.toFill, at_]
    refine ⟨fun hc => ?_, fun hc _ => h.eq_nil hc hfill less, nofun⟩
    have hdvd := h.even hc
    rwa [hfill] at hdvd
  | filled at_ done =>
    have hfill : s.toFill = 0 := by
      rw [State.toFill, at_]
      exact Nat.sub_eq_zero_of_le done
    refine ⟨fun hc => ?_, nofun, nofun⟩
    have hdvd := h.even hc
    rwa [hfill] at hdvd
  | loop at_ alive =>
    refine ⟨fun hc => ?_, nofun, nofun⟩
    cases alive.symm.trans hc
  | exit at_ closed =>
    have hnil := h.done closed at_
    refine ⟨fun _ => ?_, nofun, fun _ => ⟨closed, hnil⟩⟩
    show R.batchSize ∣ s.inputs.length - 0
    rw [hnil]
    exact Nat.dvd_zero _

private theorem Closing.step {s s' : State R} {l : Label Img C} (h : Closing s) (hl : Lined s) (hG : CleanStep s l)
    (hm : Move s l s') : Closing s' := by
  cases hm with
  | submit _ alive =>
    refine ⟨fun hc => ?_, fun hc => ?_, fun hw => ?_⟩
    · cases alive.symm.trans hc
    · cases alive.symm.trans hc
    · cases alive.symm.trans (h.exited hw).1
  | turn ht => exact h.turn ht
  | acquire at_ _ pos =>
    have hfill : s.toFill = 0 := by simp [State.toFill, at_]
    refine ⟨fun hc => ?_, nofun, nofun⟩
    have hdvd := h.even hc
    rw [hfill, Nat.sub_zero] at hdvd
    have hle : R.batchSize ≤ s.inputs.length := Nat.le_of_dvd (by omega) hdvd
    show R.batchSize ∣ s.inputs.length - (min R.batchSize s.inputs.length - 0)
    rw [Nat.min_eq_left hle, Nat.sub_zero]
    exact Nat.dvd_sub hdvd (Nat.dvd_refl _)
  | breakOut at_ _ short =>
    have hlen := hl.length_eq
    have hnil : s.inputs = [] := by
      have hpos := R.batchSize_pos
      exact List.length_eq_zero_iff.1 (by omega)
    refine ⟨fun _ => ?_, fun _ _ => hnil, nofun⟩
    show R.batchSize ∣ s.inputs.length - 0
    rw [hnil]
    exact Nat.dvd_zero _
  | @fill b size i x img inputs p promises pool at_ lt hx front =>
    refine ⟨fun hc => ?_, nofun, nofun⟩
    have hdvd := h.even hc
    rw [State.toFill, at_, front, List.length_cons] at hdvd
    have hsame : inputs.length - (size - (i + 1)) = inputs.length + 1 - (size - i) := by omega
    show R.batchSize ∣ inputs.length - (size - (i + 1))
    rw [hsame]
    exact hdvd
  | enqueueInfer at_ =>
    refine ⟨fun hc => ?_, nofun, nofun⟩
    have hdvd := h.even hc
    rw [State.toFill, at_] at hdvd
    exact hdvd
  | close todo free =>
    have hfill : s.toFill = 0 := by rcases free with hw | hw <;> simp [State.toFill, hw]
    refine ⟨fun _ => ?_, fun _ hw => ?_, fun hw => ⟨rfl, (h.exited hw).2⟩⟩
    · show R.batchSize ∣ s.inputs.length - s.toFill
      rw [hfill]
      exact hG.close rfl _ todo
    · rcases free with hw' | hw' <;> cases hw'.symm.trans hw
  | destroyQueues =>
    refine ⟨fun _ => ?_, fun _ _ => rfl, fun hw => ⟨(h.exited hw).1, rfl⟩⟩
    show R.batchSize ∣ 0 - s.toFill
    rw [Nat.zero_sub]
    exact Nat.dvd_zero _
  | _ => exact h.congr rfl rfl rfl

/-- Every result of an inference task has been passed on. -/
def Hopped (s : State R) : Prop :=
  ∀ (b : Nat) (x : Batch R) out, s.batches[b]? = some x → x.infer.outcome = some (.ok out) → x.post ≠ .absent

private theorem Hopped.setBatch {s s' : State R} (h : Hopped s) {b : Nat} {x y : Batch R} (hx : s.batches[b]? = some x)
    (hb : s'.batches = s.batches.set b y) (hy : ∀ out, y.infer.outcome = some (.ok out) → y.post ≠ .absent) :
    Hopped s' := by
  intro b' z out hz hout
  rw [hb, show (s.batches.set b y)[b']? = _ from getElem?_setBatch hx y b'] at hz
  split at hz
  · cases hz
    exact hy out hout
  · exact h b' z out hz hout

private theorem Hopped.step {s s' : State R} {l : Label Img C} (h : Hopped s) (hG : CleanStep s l) (hm : Move s l s') :
    Hopped s' := by
  cases hm with
  | submit | turn | breakOut | misuse | destroyStart | close | joinWorker | stopPre | stopInfer | stopPost
  | joinPre | joinInfer | joinPost | destroyQueues => exact h
  | acquire =>
    intro b x out hx hout
    rw [List.getElem?_append] at hx
    split at hx
    · exact h b x out hx hout
    · rw [List.getElem?_singleton] at hx
      split at hx <;> cases hx
      cases hout
  | fill _ _ hx | takePre _ hx | startPre hx | runPre hx | returnPre hx | endPre hx =>
    have hold := fun out => h _ _ out hx
    exact h.setBatch hx rfl hold
  | enqueueInfer _ hx | takeInfer _ hx | startInfer hx | get hx | rethrow hx | callInfer hx | runInfer hx
  | throwInfer hx => exact h.setBatch hx rfl fun out hout => by simp at hout
  | endInfer hx at_ =>
    have hold := fun out => h _ _ out hx
    rw [at_] at hold
    exact h.setBatch hx rfl hold
  | drop hx at_ threw => exact absurd threw ((hG.hop _ _ _ _ rfl hx at_).enqueue_ne _).1
  | runPost hx => exact h.setBatch hx rfl fun _ _ => Task.ofStep_ne_absent _
  | hop hx | takePost _ hx | startPost hx | deliver hx | throwPost hx | endPost hx =>
    exact h.setBatch hx rfl fun _ _ => nofun

/-- The invariant of the clean runs. -/
structure Clean (s : State R) : Prop extends Inv s where
  whole : Whole s
  closing : Closing s
  hopped : Hopped s
  undefined : s.undefined = false

private theorem Clean.init (b : B) : Clean (init R b) :=
  ⟨Inv.init b, Whole.init b, ⟨nofun, nofun, nofun⟩, fun b x out hx => by simp [BatchScheduler.init] at hx, rfl⟩

/-- The worker leaves the queues empty. -/
private theorem Clean.queues_eq_nil {s : State R} (h : Clean s) (hw : s.worker = .exited) :
    s.inputs = [] ∧ s.promises = [] := by
  have hi := (h.closing.exited hw).2
  have hlen := h.kept.lined.length_eq
  rw [hi] at hlen
  exact ⟨hi, List.length_eq_zero_iff.1 hlen.symm⟩

private theorem Clean.step {s s' : State R} {l : Label Img C} (h : Clean s) (hG : CleanStep s l) (hm : Move s l s') :
    Clean s' := by
  have hq : l = .destroy → ∀ rest, s.teardown = some (.destroyQueues :: rest) → s.promises = [] :=
    fun _ _ todo => (h.queues_eq_nil (h.phase.of_destroyQueues todo).2).2
  have hu : s'.undefined = false := by
    cases hm with
    | misuse hx at_ dead => exact absurd dead ((hG.hop _ _ _ _ rfl hx at_).enqueue_ne _).2
    | _ => exact h.undefined
  exact ⟨h.toInv.step hm, h.whole.step h.kept.worked hm hq, h.closing.step h.kept.lined hG hm,
    h.hopped.step hG hm, hu⟩

/-! ### The end -/

/-- When everything has been joined all tasks have finished. -/
private theorem Clean.promise_ne_nil {s : State R} (h : Clean s) (hend : s.todo = []) {r : Nat}
    (hr : r < s.images.length) :
    s.promise r ≠ [] := by
  have hj : ∀ k, s.Joined k := fun k => h.phase.joined k (by rw [hend]; exact List.not_mem_nil)
  have hw : s.worker = .exited := h.phase.exited (by rw [hend]; exact List.not_mem_nil)
  obtain hq | ⟨b, i, x, hx, hi⟩ := h.whole.queued_or_mem hr
  · rw [(h.queues_eq_nil hw).2] at hq
    cases hq
  have hcur : ¬Current s b := by
    rintro (⟨_, _, hc⟩ | hc) <;> rw [hw] at hc <;> cases hc
  obtain ⟨hinfer, -, hle, -⟩ := h.kept.worked.dispatched b x hx hcur
  have hlt := (List.getElem?_eq_some_iff.1 hi).1
  -- the joined executors hold no task
  have hinfer' : ¬x.infer.Pending := by
    obtain ⟨hq, hb⟩ := h.manned.infer.empty (hj .infer)
    intro hs
    have hne := h.tracked.infer.ne_nil_of_pending (j := b) (by rwa [State.inferStatus_of hx])
    simp [hq, hb] at hne
  have hpost' : ¬x.post.Pending := by
    obtain ⟨hq, hb⟩ := h.manned.post.empty (hj .post)
    intro hs
    have hne := h.tracked.post.ne_nil_of_pending (j := b) (by rwa [State.postStatus_of hx])
    simp [hq, hb] at hne
  obtain ⟨ri, hri⟩ := (Task.not_pending_iff.1 hinfer').resolve_left hinfer
  rw [h.kept.served.member b x i r hx hi]
  refine Batch.result_ne_nil (by omega) (by rw [hri, Task.outcome_finished]) ?_
  rintro out rfl
  have hpost := h.hopped b x out hx (by rw [hri, Task.outcome_finished])
  obtain ⟨rp, hrp⟩ := (Task.not_pending_iff.1 hpost').resolve_left hpost
  exact ⟨rp, by rw [hrp, Task.outcome_finished]⟩

/-! ### Progress -/

/-- Some thread can go on, or waits for the runner: the worker for a tensor buffer, or a task inside its stage. -/
inductive GoesOn (s : State R) : Prop
  | destroy {s' : State R} (h : step s .destroy = some s')
  | work {s' : State R} (down : ¬s.MutexFree ∨ s.isClose = true) (h : step s .work = some s')
  | acquire (at_ : s.worker = .getTensorBuffer) (waits : R.getTensorBuffer s.backend = none)
  | take {k : StageId} {s' : State R} (h : step s (.take k) = some s')
  | pre {b i : Nat} {x : Batch R} {t : Task (Img × Nat) R.preprocess.Local Unit ε} (hx : s.batches[b]? = some x)
      (ht : x.pre[i]? = some t) (running : t.status = .running)
      (waits : ∀ c, step s (.advancePre b i c) = none →
        ∃ l, t = .execute l ∧ R.preprocess.step c (s.backend, x.tenbuf) l = none)
  | infer {b : Nat} {x : Batch R} (hx : s.batches[b]? = some x) (running : x.infer.status = .running)
      (waits : ∀ c, step s (.advanceInfer b c) = none →
        ∃ l, x.infer = .execute (.inr l) ∧ R.infer.step c s.backend l = none)
  | post {b : Nat} {x : Batch R} (hx : s.batches[b]? = some x) (running : x.post.status = .running)
      (waits : ∀ c, step s (.advancePost b c) = none →
        ∃ l, x.post = .execute l ∧ R.postprocess.step c s.backend l = none)

private theorem Clean.goesOn_pre {s : State R} (h : Clean s) (hne : s.preExecutor.que ≠ [] ∨ s.preExecutor.busy ≠ []) :
    GoesOn s := by
  obtain ⟨s', hs⟩ | ⟨b, i, x, t, hx, ht, running⟩ := h.tracked.pre_goes h.manned h.undefined hne
  · exact .take hs
  · exact .pre hx ht running fun c hc => waits_of_advancePre_none h.undefined hx ht running hc

/-- An inference task that waits for a future waits for a preprocess task. -/
private theorem Clean.goesOn_infer {s : State R} (h : Clean s)
    (hne : s.inferExecutor.que ≠ [] ∨ s.inferExecutor.busy ≠ []) :
    GoesOn s := by
  obtain ⟨s', hs⟩ | ⟨b, x, hx, running⟩ := h.tracked.infer_goes h.manned h.undefined hne
  · exact .take hs
  by_cases hpre : ∃ (j : Nat) (t : _), x.pre[j]? = some t ∧ t.outcome = none
  · obtain ⟨j, t, ht, hout⟩ := hpre
    obtain ⟨-, -, -, hne⟩ := (h.kept.served.sound b x hx).pre j t ht
    have hpending := Task.pending_of_outcome_none hout hne
    exact h.goesOn_pre (h.tracked.pre.ne_nil_of_pending (j := (b, j)) (by rwa [State.preStatus_of hx, statusAt_of ht]))
  · exact .infer hx running fun c hc => (waits_of_advanceInfer_none h.undefined hx running hc).resolve_right
      fun ⟨j, t, _, ht, hnone⟩ => hpre ⟨j, t, ht, hnone⟩

private theorem Clean.goesOn_post {s : State R} (h : Clean s)
    (hne : s.postExecutor.que ≠ [] ∨ s.postExecutor.busy ≠ []) :
    GoesOn s := by
  obtain ⟨s', hs⟩ | ⟨b, x, hx, running⟩ := h.tracked.post_goes h.manned h.undefined hne
  · exact .take hs
  · exact .post hx running fun c hc => waits_of_advancePost_none h.undefined hx running hc

private theorem Clean.goesOn {s : State R} (h : Clean s) {a : Teardown} {rest : List Teardown}
    (todo : s.teardown = some (a :: rest)) : GoesOn s := by
  have hstep : BatchScheduler.step s (.destroy : Label Img C) = BatchScheduler.destroy s := by
    simp [BatchScheduler.step, h.undefined]
  have hdestroy : (BatchScheduler.destroy s).isSome → GoesOn s := by
    intro hs
    obtain ⟨s', hs⟩ := Option.isSome_iff_exists.1 hs
    exact .destroy (hstep.trans hs)
  have hwork : ¬s.MutexFree → GoesOn s := by
    intro hfree
    obtain ⟨s', hs⟩ | ⟨hw, hgot⟩ := work_of_not_free h.kept h.phase h.undefined hfree
    · exact .work (.inl hfree) hs
    · exact .acquire hw hgot
  cases a with
  | close =>
    by_cases hfree : s.MutexFree
    · exact hdestroy (by simp [BatchScheduler.destroy, todo, hfree])
    · exact hwork hfree
  | joinWorker =>
    cases hw : s.worker with
    | exited => exact hdestroy (by simp [BatchScheduler.destroy, todo, hw])
    | wait =>
      have htodo : s.todo = .joinWorker :: rest := by rw [State.todo, todo, Option.getD_some]
      have hc : s.isClose = true := by
        refine h.phase.closed ?_
        rw [htodo]
        exact close_not_mem (htodo ▸ h.phase.suffix) (by decide)
      have hwake : BatchScheduler.step s (.work : Label Img C) = some (wake s) := by
        simp [BatchScheduler.step, h.undefined, work, hw]
      exact .work (.inr hc) hwake
    | _ => exact hwork (by rintro (hw' | hw') <;> cases hw.symm.trans hw')
  | stop k => cases k <;> exact hdestroy (by simp [BatchScheduler.destroy, todo])
  | destroyQueues => exact hdestroy (by simp [BatchScheduler.destroy, todo])
  | join k =>
    cases k with
    | pre =>
      cases hj : s.preExecutor.join with
      | some pool => exact hdestroy (by simp [BatchScheduler.destroy, todo, hj])
      | none => exact h.goesOn_pre (ThreadPool.ne_nil_of_join_none hj)
    | infer =>
      cases hj : s.inferExecutor.join with
      | some pool => exact hdestroy (by simp [BatchScheduler.destroy, todo, hj])
      | none => exact h.goesOn_infer (ThreadPool.ne_nil_of_join_none hj)
    | post =>
      cases hj : s.postExecutor.join with
      | some pool => exact hdestroy (by simp [BatchScheduler.destroy, todo, hj])
      | none => exact h.goesOn_post (ThreadPool.ne_nil_of_join_none hj)

/-! ### The destructor drains -/

/-- What the destructor owes the accepted requests: nothing undefined happens, a promise is given one thing only, which
the stages made of its request, no request is left in the queues, and when the destructor has returned every request
has ended; until then some thread can go on, or waits for the runner. -/
structure Drained (s : State R) : Prop where
  defined : s.undefined = false
  made : ∀ r v, v ∈ s.promise r → MadeFor s r v
  once : ∀ r, (s.promise r).length ≤ 1
  queues : ∀ rest, s.teardown = some (.destroyQueues :: rest) → s.inputs = [] ∧ s.promises = []
  ended : s.teardown = some [] → ∀ r < s.images.length, ∃ v, s.promise r = [v]
  progress : ∀ a rest, s.teardown = some (a :: rest) → GoesOn s

private theorem Clean.drains {s : State R} (h : Clean s) : Drained s := by
  refine ⟨h.undefined, fun r v => h.kept.madeFor, h.kept.served.length_le, ?_, ?_, fun a rest => h.goesOn⟩
  · exact fun rest todo => h.queues_eq_nil (h.phase.of_destroyQueues todo).2
  · intro hend r hr
    have hne := h.promise_ne_nil (by rw [State.todo, hend, Option.getD_some]) hr
    have hle := h.kept.served.length_le r
    rcases hp : s.promise r with _ | ⟨v, _ | ⟨w, rest⟩⟩
    · exact absurd hp hne
    · exact ⟨v, rfl⟩
    · simp [hp] at hle

/-- In the runs all of whose steps are clean. -/
theorem drained_of_clean (R : BatchRunner B C Img T M O ε) (b : B) {s : State R}
    (h : (system R b).ReachBy CleanStep s) : Drained s := by
  have hinv : Clean s := h.invariant (Clean.init b) fun hs hG hl => hs.step hG (Move.of_step hl).2
  exact hinv.drains

/-! ### Runs with the destructor -/

/-- A check for `CleanStep`. -/
def cleanCheck (s : State R) : Label Img C → Bool
  | .destroy =>
    match s.teardown with
    | some (.close :: _) => s.inputs.length % R.batchSize == 0
    | _ => true
  | .advanceInfer _ _ => s.postExecutor.isRunning && !s.postExecutor.joined
  | _ => true

private theorem cleanStep_of_check {s : State R} {l : Label Img C} (h : cleanCheck s l = true) : CleanStep s l := by
  constructor
  · rintro rfl rest todo
    simp only [cleanCheck, todo, beq_iff_eq] at h
    exact Nat.dvd_of_mod_eq_zero h
  · rintro b c x out rfl - -
    simp only [cleanCheck, Bool.and_eq_true, Bool.not_eq_true'] at h
    exact h

/-- The destructor closes the scheduler while the tasks of a batch are queued and two more requests wait for a batch,
and the postprocess executor is stopped while it has the last task in its queue. -/
theorem drained_of_clean_pairs : ∃ s s', (system slotRunner ()).Reachable s ∧ s.isClose = true ∧ s.inputs = [9, 11] ∧
    s.preExecutor.que = [(0, 0), (0, 1)] ∧ (∃ ls, (system slotRunner ()).run s ls = some s') ∧
    s'.teardown = some [] ∧ s'.images = [5, 7, 9, 11] ∧ Drained s' ∧ ∀ r < 4, ∃ v, s'.promise r = [v] := by
  obtain ⟨s, s', hs, hp, hr, hq⟩ := System.exists_run_through ((system slotRunner ()).restrict cleanCheck)
    [[.submit 5, .submit 7], List.replicate 8 .work, [.submit 9, .submit 11], List.replicate 2 .destroy].flatten
    [List.replicate 8 .work, batchTrip 0 2, (batchTrip 1 2).take 18, List.replicate 2 .destroy, (batchTrip 1 2).drop 18,
      List.replicate 6 .destroy].flatten
    (fun s => s.isClose && s.inputs == [9, 11] && s.preExecutor.que == [(0, 0), (0, 1)])
    (fun s => s.images == [5, 7, 9, 11] && s.teardown.any (·.isEmpty)) (by decide +kernel)
    (by decide +kernel)
  simp only [Bool.and_eq_true, beq_iff_eq] at hp hq
  obtain ⟨⟨closed, inputs⟩, que⟩ := hp
  obtain ⟨himg, rest, hrest, hnil⟩ := hq.imp id (Option.any_eq_true _ _).1
  have hc : ∀ {s}, ((system slotRunner ()).restrict cleanCheck).Reachable s →
      (system slotRunner ()).ReachBy CleanStep s := fun h => h.of_restrict fun _ _ _ h => cleanStep_of_check h
  have hd := drained_of_clean slotRunner () (hc (hs.of_run hr))
  rw [List.isEmpty_iff.1 hnil] at hrest
  refine ⟨s, s', (hc hs).reachable, closed, inputs, que, ⟨_, System.run_of_restrict hr⟩, hrest, himg, hd,
    fun r hlt => ?_⟩
  exact hd.ended hrest r (by rw [himg]; exact hlt)

/-- The destructor starts with one request queued in a scheduler with batches of two: the worker leaves, and the
promise is destroyed with the queue. -/
theorem leftover_not_drained : ¬∀ s, (system slotRunner ()).Reachable s → Drained s := by
  intro h
  obtain ⟨s, hs, hp⟩ := System.exists_reachable_of_run (system slotRunner ())
    [[.submit 5], List.replicate 2 .destroy, List.replicate 2 .work, List.replicate 8 .destroy].flatten
    (fun s => s.images == [5] && s.teardown.any (·.isEmpty) && (s.promise 0).isEmpty) (by decide +kernel)
  simp only [Bool.and_eq_true, beq_iff_eq, Option.any_eq_true, List.isEmpty_iff] at hp
  obtain ⟨⟨himg, rest, hrest, rfl⟩, hnil⟩ := hp
  obtain ⟨v, hv⟩ := (h s hs).ended hrest 0 (by rw [himg]; exact Nat.one_pos)
  rw [hnil] at hv
  cases hv

end OnnxInference.BatchScheduler
