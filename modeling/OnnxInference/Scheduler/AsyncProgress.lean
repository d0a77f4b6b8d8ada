import OnnxInference.Ledger
import OnnxInference.Scheduler.AsyncShutdown

/-!
# Progress of the asynchronous scheduler

When no stage runs for ever, the workers and the destructor take a bounded number of steps between two calls of
`submit` (`steps_le`).  While the scheduler is alive and a task is queued or running at an executor, a worker can take a
step or a task of this executor waits inside its stage (`goes_on_at`).
-/

namespace OnnxInference.AsyncScheduler

open Concurrency Transition

variable {B C Img T M O ε : Type} {R : Runner B C Img T M O ε}

/-! ### A bound on the steps -/

/-- No stage runs for ever, and what one stage returns does not make the next one longer than this. -/
structure Bounds (R : Runner B C Img T M O ε) where
  pre : R.preprocess.StepBound
  infer : R.infer.StepBound
  post : R.postprocess.StepBound
  inferSteps : Nat
  inferSteps_le : ∀ tenbuf, infer.rank (R.infer.start tenbuf) ≤ inferSteps
  postSteps : Nat
  postSteps_le : ∀ out, post.rank (R.postprocess.start out) ≤ postSteps

variable (h : Bounds R)

def Bounds.postLeft : Nat := h.postSteps + 5

def Bounds.inferLeft : Nat := h.inferSteps + h.postLeft + 5

/-- The steps of the tasks of a request that are still to come. -/
def Request.left (q : Request R) : Nat :=
  q.pre.leftThen h.pre h.inferLeft + q.infer.leftThen h.infer h.postLeft + q.post.left h.post

/-- A bound on the steps of the workers and of the destructor. -/
def State.left (s : State R) : Nat :=
  (∑ r ∈ Finset.range s.images.length, (s.request r).left h) +
    s.teardown.elim (destructor.length + 1) List.length + if s.undefined then 0 else 1

variable {h}

/-- A request whose task is at an executor has been submitted. -/
theorem Inv.lt_of_status {s : State R} (hi : Inv s) {r : Nat} {k : StageId} (hk : (s.request r).status k ≠ .idle) :
    r < s.images.length := by
  have hpre : ∀ {tenbuf : T}, (s.request r).pre.outcome = some (.ok tenbuf) → r < s.images.length := by
    intro tenbuf ht
    refine (hi.submitted r).2 fun hidle => ?_
    rw [Task.outcome_of_idle hidle] at ht
    cases ht
  have hinfer : (s.request r).infer.status ≠ .idle → r < s.images.length := by
    intro hne
    by_contra hge
    exact hne ((hi.sound r).infer_idle fun tenbuf ht => hge (hpre ht))
  cases k with
  | pre => exact (hi.submitted r).2 hk
  | infer => exact hinfer hk
  | post =>
    by_contra hge
    refine hk ((hi.sound r).post_idle fun out ho => hge (hinfer fun hidle => ?_))
    rw [Task.outcome_of_idle hidle] at ho
    cases ho

theorem left_setRequest {s s' : State R} {r : Nat} {q : Request R} (hr : r < s.images.length)
    (hreq : s'.request = Function.update s.request r q) (himg : s'.images = s.images)
    (ht : s'.teardown = s.teardown) (hu : s'.undefined = s.undefined) (hlt : q.left h < (s.request r).left h) :
    s'.left h < s.left h := by
  have hsum := Ledger.sum_update (Request.left h) (f := s.request) hr q
  simp only [State.left, hreq, himg, ht, hu]
  omega

theorem left_setPre {q : Request R} {t : Task Img R.preprocess.Local T ε} {promise : Promise O ε}
    (hlt : t.leftThen h.pre h.inferLeft < q.pre.leftThen h.pre h.inferLeft) :
    Request.left h { q with pre := t, promise := promise } < q.left h := by
  simp only [Request.left]
  omega

theorem left_setInfer {q : Request R} {t : Task T R.infer.Local M ε} {promise : Promise O ε}
    (hlt : t.leftThen h.infer h.postLeft < q.infer.leftThen h.infer h.postLeft) :
    Request.left h { q with infer := t, promise := promise } < q.left h := by
  simp only [Request.left]
  omega

theorem left_setPost {q : Request R} {t : Task M R.postprocess.Local (Outputs 1 O) ε} {promise : Promise O ε}
    (hlt : t.left h.post < q.post.left h.post) :
    Request.left h { q with post := t, promise := promise } < q.left h := by
  simp only [Request.left]
  omega

/-- A task hands the rest of the steps over to the task that it enqueues. -/
theorem left_hopPre {q : Request R} {tenbuf : T} (at_ : q.pre = .returned (.ok tenbuf)) :
    Request.left h { q with pre := .ending (.ok tenbuf), infer := .queued tenbuf } < q.left h := by
  have hsteps := h.inferSteps_le tenbuf
  simp only [Request.left, at_, Task.leftThen, Bounds.inferLeft]
  omega

theorem left_hopInfer {q : Request R} {out : M} (at_ : q.infer = .returned (.ok out)) :
    Request.left h { q with infer := .ending (.ok out), post := .queued out } < q.left h := by
  have hsteps := h.postSteps_le out
  simp only [Request.left, at_, Task.leftThen, Task.left, Bounds.postLeft]
  omega

/-- Every step but a call of `submit` lowers the bound. -/
theorem Move.left_lt {s s' : State R} {l : Label Img C} (hi : Inv s) (hu : s.undefined = false)
    (hl : ∀ img, l ≠ .submit img) (m : Move s l s') : s'.left h < s.left h := by
  have todo : ∀ {a : Teardown} {rest : List Teardown}, s.teardown = some (a :: rest) →
      ∀ z : State R, z.images = s.images → z.request = s.request → z.teardown = some rest →
        z.undefined = s.undefined → z.left h < s.left h := by
    intro a rest ht z himg hreq ht' hu'
    simp [State.left, himg, hreq, ht, ht', hu']
  cases m with
  | submit => exact absurd rfl (hl _)
  | takePre _ at_ | startPre at_ | throwPre at_ | stoppedPre at_ | endPre at_ =>
    refine left_setRequest (hi.lt_of_status (k := .pre) (by simp [Request.status, at_])) rfl rfl rfl rfl
      (left_setPre ?_)
    simp [at_, Task.leftThen]
  | runPre at_ stepped =>
    refine left_setRequest (hi.lt_of_status (k := .pre) (by simp [Request.status, at_])) rfl rfl rfl rfl
      (left_setPre ?_)
    rw [at_]
    exact Task.leftThen_ofStep_lt h.pre _ stepped
  | hopPre at_ =>
    exact left_setRequest (hi.lt_of_status (k := .pre) (by simp [Request.status, at_])) rfl rfl rfl rfl
      (left_hopPre at_)
  | takeInfer _ at_ | startInfer at_ | throwInfer at_ | stoppedInfer at_ | endInfer at_ =>
    refine left_setRequest (hi.lt_of_status (k := .infer) (by simp [Request.status, at_])) rfl rfl rfl rfl
      (left_setInfer ?_)
    simp [at_, Task.leftThen]
  | runInfer at_ stepped =>
    refine left_setRequest (hi.lt_of_status (k := .infer) (by simp [Request.status, at_])) rfl rfl rfl rfl
      (left_setInfer ?_)
    rw [at_]
    exact Task.leftThen_ofStep_lt h.infer _ stepped
  | hopInfer at_ =>
    exact left_setRequest (hi.lt_of_status (k := .infer) (by simp [Request.status, at_])) rfl rfl rfl rfl
      (left_hopInfer at_)
  | takePost _ at_ | startPost at_ | throwPost at_ | deliver at_ | endPost at_ =>
    refine left_setRequest (hi.lt_of_status (k := .post) (by simp [Request.status, at_])) rfl rfl rfl rfl
      (left_setPost ?_)
    simp [at_, Task.left]
  | runPost at_ stepped =>
    refine left_setRequest (hi.lt_of_status (k := .post) (by simp [Request.status, at_])) rfl rfl rfl rfl
      (left_setPost ?_)
    rw [at_]
    exact Task.left_ofStep_lt h.post stepped
  | misuse => simp [State.left, State.undefinedBy, State.fault, hu]
  | destroyStart alive => simp [State.left, alive]
  | stop ht | join ht | destroyStage ht => exact todo ht _ rfl rfl rfl rfl

/-- A run without a call of `submit` is no longer than the bound. -/
theorem steps_le (h : Bounds R) {b : B} {s s' : State R} (hs : (system R b).Reachable s) {ls : List (Label Img C)}
    (hl : ∀ l ∈ ls, ∀ img, l ≠ .submit img) (hr : (system R b).run s ls = some s') : ls.length ≤ s.left h := by
  refine System.run_length_le (I := (system R b).Reachable) (A := fun l => ∀ img, l ≠ .submit img) ?_ hs hl hr
  intro s l s' hs hl hstep
  obtain ⟨hu, m⟩ := Move.of_step hstep
  exact ⟨.step hs trivial hstep, m.left_lt (reachable_inv hs) hu hl⟩

/-! ### A worker can go on -/

/-- The executors keep their workers, and have no job left when they have been joined. -/
theorem reachable_manned {b : B} (hpos : 0 < R.bufferSize) {s : State R} (hs : (system R b).Reachable s) :
    ∀ k, (s.executor k).Manned := by
  have update : ∀ {s : State R} {k₀ : StageId} {p : ThreadPool Nat}, (∀ k, (s.executor k).Manned) → p.Manned →
      ∀ k, (Function.update s.executor k₀ p k).Manned := by
    intro s k₀ p h hp k
    rw [Function.update_apply]
    split
    · exact hp
    · exact h k
  refine hs.invariant (P := fun s => ∀ k, (s.executor k).Manned) (fun _ => .create hpos) ?_
  intro s l s' hm _ hstep
  obtain ⟨-, m⟩ := Move.of_step hstep
  cases m with
  | submit _ accepted | hopPre _ accepted | hopInfer _ accepted => exact update hm ((hm _).enqueue accepted)
  | takePre taken | takeInfer taken | takePost taken => exact update hm ((hm _).take taken)
  | endPre | endInfer | endPost => exact update hm ((hm _).finish _)
  | stop => exact update hm (hm _).stop
  | join _ joined => exact update hm ((hm _).join joined)
  | startPre | startInfer | startPost | runPre | runInfer | runPost | stoppedPre | stoppedInfer | throwPre | throwInfer
  | throwPost | deliver | misuse | destroyStart | destroyStage => exact hm

/-- The steps of the workers when what the outside decides is `c`. -/
def OfWorker (c : C) : Label Img C → Prop
  | .take _ => True
  | .advance _ _ c' => c' = c
  | .submit _ | .destroy => False

theorem exists_take {s : State R} (hu : s.undefined = false) {k : StageId} {r : Nat} {p : ThreadPool Nat}
    (taken : (s.executor k).take = some (r, p)) (hq : (s.request r).status k = .queued) :
    ∃ s', step s (.take k : Label Img C) = some s' := by
  cases k with
  | pre =>
    cases at_ : (s.request r).pre with
    | queued => simp [step, hu, take, taken, at_]
    | _ => simp [Request.status, at_] at hq
  | infer =>
    cases at_ : (s.request r).infer with
    | queued => simp [step, hu, take, taken, at_]
    | _ => simp [Request.status, at_] at hq
  | post =>
    cases at_ : (s.request r).post with
    | queued => simp [step, hu, take, taken, at_]
    | _ => simp [Request.status, at_] at hq

/-- While an executor has a task a worker can take a step, or a task of the executor waits inside its stage. -/
theorem goes_on_at {b : B} (hpos : 0 < R.bufferSize) {s : State R} (hs : (system R b).Reachable s)
    (hu : s.undefined = false) {k : StageId} {r : Nat}
    (hk : (s.request r).status k = .queued ∨ (s.request r).status k = .running) (c : C) :
    (∃ (l : Label Img C) (s' : State R), OfWorker c l ∧ step s l = some s') ∨
      ∃ r', (s.request r').status k = .running ∧ (s.request r').Waits c s.backend k := by
  have ht := reachable_tracked hs k
  rcases ht.take_or_running (reachable_manned hpos hs k) (ht.ne_nil_of_pending hk) with ⟨j, p, taken, hq⟩ | ⟨j, hrun⟩
  · obtain ⟨s', hstep⟩ := exists_take (C := C) hu taken hq
    exact .inl ⟨.take k, s', trivial, hstep⟩
  · cases hstep : step s (.advance k j c) with
    | some s' => exact .inl ⟨.advance k j c, s', rfl, hstep⟩
    | none => exact .inr ⟨j, hrun, waits_of_step_none hu hrun hstep⟩

end OnnxInference.AsyncScheduler
