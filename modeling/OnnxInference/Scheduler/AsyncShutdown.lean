import OnnxInference.Scheduler.AsyncDelivery

/-!
# Destruction of the asynchronous scheduler

The stages are declared after the executors, so the destructor destroys them before it stops and joins the
executors, and it stops the postprocess executor before the two that enqueue into it.  It is therefore safe only
from states in which no task is queued and none that runs will call `execute` or `enqueue` again; from these it
drains the pipeline (`drained`).
-/

namespace OnnxInference.AsyncScheduler

open Concurrency Transition

variable {B C Img T M O ε : Type} {R : Runner B C Img T M O ε}

/-! ### The queues and the tasks -/

def Request.status (q : Request R) : StageId → Status
  | .pre => q.pre.status
  | .infer => q.infer.status
  | .post => q.post.status

/-- Each executor holds the tasks of its stage that are queued or running. -/
def Tracked (s : State R) : Prop := ∀ k, (s.executor k).Tracks fun r => (s.request r).status k

private theorem Tracked.setRequest {s : State R} (h : Tracked s) {r₀ : Nat} {q : Request R}
    (hq : ∀ k, q.status k = (s.request r₀).status k) : Tracked (s.setRequest r₀ q) := by
  intro k
  refine (h k).congr rfl rfl fun r => ?_
  simp only [State.setRequest, Function.update_apply]
  split
  · subst_vars; exact hq k
  · rfl

/-- One executor and the status of one task at it change together. -/
private theorem Tracked.setBoth {s : State R} (h : Tracked s) {r₀ : Nat} {q : Request R} {k₀ : StageId}
    {p : ThreadPool Nat} (hq : ∀ k, k ≠ k₀ → q.status k = (s.request r₀).status k)
    (hp : ∀ status', status' r₀ = q.status k₀ → (∀ r, r ≠ r₀ → status' r = (s.request r).status k₀) →
      p.Tracks status') : Tracked ((s.setExecutor k₀ p).setRequest r₀ q) := by
  intro k
  by_cases hk : k = k₀
  · subst hk
    simp only [State.setRequest, State.setExecutor, Function.update_self]
    refine hp _ (by simp) fun r hr => ?_
    simp [hr]
  · simp only [State.setRequest, State.setExecutor, Function.update_of_ne hk]
    refine (h k).congr rfl rfl fun r => ?_
    rw [Function.update_apply]
    split
    · subst_vars; exact hq k hk
    · rfl

private theorem Tracked.setExecutor {s : State R} (h : Tracked s) {k₀ : StageId} {p : ThreadPool Nat}
    (hq : p.que = (s.executor k₀).que) (hb : p.busy = (s.executor k₀).busy) : Tracked (s.setExecutor k₀ p) := by
  intro k
  by_cases hk : k = k₀
  · subst hk
    simp only [State.setExecutor, Function.update_self]
    exact (h k).congr hq hb fun _ => rfl
  · simp only [State.setExecutor, Function.update_of_ne hk]
    exact h k

private theorem Move.tracked {s s' : State R} {l : Label Img C} (hi : Inv s) (h : Tracked s) (m : Move s l s') :
    Tracked s' := by
  cases m with
  | submit alive accepted =>
    have hidle : (s.request s.images.length).pre.status = .idle := by
      by_contra hne
      exact Nat.lt_irrefl _ ((hi.submitted _).2 hne)
    refine h.setBoth (fun k hk => ?_) fun status' h0 hr => ?_
    · cases k <;> first | exact absurd rfl hk | rfl
    · exact (h .pre).enqueue accepted hidle h0 hr
  | takePre taken at_ | takeInfer taken at_ | takePost taken at_ =>
    refine h.setBoth (fun k hk => ?_) fun status' h0 hr => ?_
    · cases k <;> first | exact absurd rfl hk | rfl
    · exact (h _).take taken h0 hr
  | startPre at_ | startInfer at_ | startPost at_ | runPre at_ _ | runInfer at_ _ | runPost at_ _
  | stoppedPre at_ _ | stoppedInfer at_ _ | throwPre at_ | throwInfer at_ | throwPost at_ | deliver at_ =>
    refine Tracked.setRequest h fun k => ?_
    cases k <;> simp [Request.status, at_]
  | hopPre at_ accepted =>
    refine h.setBoth (fun k hk => ?_) fun status' h0 hr => ?_
    · cases k <;> first | exact absurd rfl hk | simp [Request.status, at_]
    · exact (h _).enqueue accepted ((hi.sound _).infer_idle (by simp [at_])) h0 hr
  | hopInfer at_ accepted =>
    refine h.setBoth (fun k hk => ?_) fun status' h0 hr => ?_
    · cases k <;> first | exact absurd rfl hk | simp [Request.status, at_]
    · exact (h _).enqueue accepted ((hi.sound _).post_idle (by simp [at_])) h0 hr
  | endPre at_ | endInfer at_ | endPost at_ =>
    refine h.setBoth (fun k hk => ?_) fun status' h0 hr => ?_
    · cases k <;> first | exact absurd rfl hk | rfl
    · exact (h _).finish (by simp [Request.status, at_]) h0 hr
  | misuse | destroyStart | destroyStage => exact h
  | stop todo => exact h.setExecutor rfl rfl
  | join todo joined =>
    obtain ⟨-, -, rfl⟩ := ThreadPool.join_some joined
    exact h.setExecutor rfl rfl

theorem reachable_tracked {b : B} {s : State R} (h : (system R b).Reachable s) : Tracked s := by
  induction h with
  | init => exact fun k => ThreadPool.Tracks.create _ |>.congr rfl rfl fun r => by cases k <;> rfl
  | step hs _ hl ih => exact (Move.of_step hl).2.tracked (reachable_inv hs) ih

/-! ### Requests that the destructor cannot hurt -/

/-- The call will not come back with a result its task has still to pass on to the next executor. -/
def Past {I O' : Type} (P : Prog B C I O' ε) : Task I P.Local O' ε → Prop
  | .queued _ | .start _ => False
  | .execute l => ¬P.CanReturn l
  | .returned (.ok _) => False
  | .absent | .returned (.error _) | .ending _ | .finished _ => True

/-- The task has called `execute` if it is there at all. -/
def Entered {I L O' : Type} : Task I L O' ε → Prop
  | .queued _ | .start _ => False
  | .absent | .execute _ | .returned _ | .ending _ | .finished _ => True

/-- No task of the request will use a stage or the next executor any more. -/
structure Request.Clear (q : Request R) : Prop where
  pre : Past R.preprocess q.pre
  infer : Past R.infer q.infer
  post : Entered q.post

private theorem Past.ofStep {I O' : Type} {P : Prog B C I O' ε} {c : C} {b : B} {l : P.Local}
    {x : B × (P.Local ⊕ Except ε O')} (h : ¬P.CanReturn l) (hs : P.step c b l = some x) : Past P (.ofStep x.2) := by
  obtain ⟨b', x⟩ := x
  cases x with
  | inl l' => exact fun hr => h (.later hs hr)
  | inr r =>
    cases r with
    | ok o => exact absurd (.now hs) h
    | error e => trivial

private theorem Entered.ofStep {I L O' : Type} (x : L ⊕ Except ε O') : Entered (.ofStep x : Task I L O' ε) := by
  cases x <;> trivial

private theorem Request.Clear.not_queued {q : Request R} (h : q.Clear) (k : StageId) : q.status k ≠ .queued := by
  obtain ⟨h1, h2, h3⟩ := h
  cases k with
  | pre => cases hq : q.pre <;> simp_all [Request.status, Past]
  | infer => cases hq : q.infer <;> simp_all [Request.status, Past]
  | post => cases hq : q.post <;> simp_all [Request.status, Entered]

private theorem Request.Clear.not_uses {q : Request R} (h : q.Clear) (k : StageId) : ¬q.Uses k := by
  obtain ⟨h1, h2, h3⟩ := h
  cases k with
  | pre => rintro (⟨img, hq⟩ | ⟨tenbuf, hq⟩) <;> simp [hq, Past] at h1
  | infer => rintro (⟨tenbuf, hq⟩ | ⟨out, hq⟩) <;> simp [hq, Past] at h2
  | post => rintro ⟨out, hq⟩; simp [hq, Entered] at h3

private theorem clear_update {s : State R} {r₀ : Nat} {q : Request R} (h : ∀ r, (s.request r).Clear)
    (hq : (s.request r₀).Clear → q.Clear) (r : Nat) : (Function.update s.request r₀ q r).Clear := by
  rw [Function.update_apply]
  split
  · exact hq (h r₀)
  · exact h r

/-- Once the destructor runs, clear requests stay clear and no step is a fault. -/
private theorem Move.clear {s s' : State R} {l : Label Img C} (m : Move s l s') (h : ∀ r, (s.request r).Clear)
    (down : s.teardown ≠ none) :
    (∀ r, (s'.request r).Clear) ∧ s'.faults = s.faults ∧ s'.undefined = s.undefined := by
  cases m with
  | submit alive | destroyStart alive => exact absurd alive down
  | misuse uses => exact absurd uses ((h _).not_uses _)
  | takePre _ at_ => exact ((h _).not_queued .pre (congrArg Task.status at_)).elim
  | takeInfer _ at_ => exact ((h _).not_queued .infer (congrArg Task.status at_)).elim
  | takePost _ at_ => exact ((h _).not_queued .post (congrArg Task.status at_)).elim
  | startPre at_ => exact ((h _).not_uses .pre (.inl ⟨_, at_⟩)).elim
  | startInfer at_ => exact ((h _).not_uses .infer (.inl ⟨_, at_⟩)).elim
  | startPost at_ => exact ((h _).not_uses .post ⟨_, at_⟩).elim
  | hopPre at_ | stoppedPre at_ => exact ((h _).not_uses .pre (.inr ⟨_, at_⟩)).elim
  | hopInfer at_ | stoppedInfer at_ => exact ((h _).not_uses .infer (.inr ⟨_, at_⟩)).elim
  | runPre at_ stepped =>
    refine ⟨clear_update h fun h => ⟨?_, h.infer, h.post⟩, rfl, rfl⟩
    have hp := h.pre
    rw [at_] at hp
    exact Past.ofStep hp stepped
  | runInfer at_ stepped =>
    refine ⟨clear_update h fun h => ⟨h.pre, ?_, h.post⟩, rfl, rfl⟩
    have hp := h.infer
    rw [at_] at hp
    exact Past.ofStep hp stepped
  | runPost => exact ⟨clear_update h fun h => ⟨h.pre, h.infer, Entered.ofStep _⟩, rfl, rfl⟩
  | throwPre | endPre => exact ⟨clear_update h fun h => ⟨trivial, h.infer, h.post⟩, rfl, rfl⟩
  | throwInfer | endInfer => exact ⟨clear_update h fun h => ⟨h.pre, trivial, h.post⟩, rfl, rfl⟩
  | throwPost | deliver | endPost => exact ⟨clear_update h fun h => ⟨h.pre, h.infer, trivial⟩, rfl, rfl⟩
  | stop | join | destroyStage => exact ⟨h, rfl, rfl⟩

/-- No task of the executor starts to run again. -/
private theorem Move.not_running {s s' : State R} {l : Label Img C} (m : Move s l s') (h : ∀ r, (s.request r).Clear)
    (down : s.teardown ≠ none) {k : StageId} (hk : ∀ r, (s.request r).status k ≠ .running) (r : Nat) :
    (s'.request r).status k ≠ .running := by
  have hr := hk r
  cases m with
  | submit alive | destroyStart alive => exact absurd alive down
  | takePre _ at_ => exact ((h _).not_queued .pre (congrArg Task.status at_)).elim
  | takeInfer _ at_ => exact ((h _).not_queued .infer (congrArg Task.status at_)).elim
  | takePost _ at_ => exact ((h _).not_queued .post (congrArg Task.status at_)).elim
  | misuse | stop | join | destroyStage => exact hr
  | startPre | startInfer | startPost | runPre | runInfer | runPost | hopPre | hopInfer | stoppedPre | stoppedInfer
  | throwPre | throwInfer | throwPost | deliver | endPre | endInfer | endPost =>
    simp only [State.setRequest, State.setExecutor, State.fault, Function.update_apply]
    split
    · subst_vars
      cases k <;> simp_all [Request.status]
    · exact hr

/-! ### Draining -/

/-- A running task waits inside its stage. -/
def Request.Waits (q : Request R) (c : C) (b : B) : StageId → Prop
  | .pre => ∃ l, q.pre = .execute l ∧ R.preprocess.step c b l = none
  | .infer => ∃ l, q.infer = .execute l ∧ R.infer.step c b l = none
  | .post => ∃ l, q.post = .execute l ∧ R.postprocess.step c b l = none

/-- What the destructor owes: no member is used after its lifetime, no stopped executor is enqueued into, requests
end with their own results, none is left when the destructor has returned, and it waits for running tasks only. -/
structure Drained (s : State R) : Prop where
  faults : s.faults = []
  delivered : ∀ r img, s.images[r]? = some img → (s.request r).Idle → (s.request r).Delivered img
  ended : s.teardown = some [] → ∀ r, (s.request r).Idle
  progress : ∀ a rest, s.teardown = some (a :: rest) → (∃ s', step s (.destroy : Label Img C) = some s') ∨
    ∃ k r, (s.request r).status k = .running ∧
      ∀ c, step s (.advance k r c) = none → (s.request r).Waits c s.backend k

/-- Postprocess does not throw, and if the step starts the destructor then every request is clear. -/
def ClearDestroy (s : State R) (l : Label Img C) : Prop :=
  PostReturns s l ∧ (l = .destroy → s.teardown = none → ∀ r, (s.request r).Clear)

/-- What holds in the runs whose destructor starts with clear requests only. -/
private structure Draining (s : State R) : Prop where
  faults : s.faults = []
  undefined : s.undefined = false
  hopped : ∀ r, (s.request r).Hopped
  clear : s.teardown ≠ none → ∀ r, (s.request r).Clear
  joined : ∀ rest, s.teardown = some rest → ∀ k, .join k ∉ rest → ∀ r, (s.request r).status k ≠ .running

private theorem Draining.move {s s' : State R} {l : Label Img C} (hi : Inv s) (ht : Tracked s)
    (ho : s.teardown = none → Open s) (hG : ClearDestroy s l) (h : Draining s) (m : Move s l s') : Draining s' := by
  have hf : s'.faults = s.faults ∧ s'.undefined = s.undefined := by
    by_cases alive : s.teardown = none
    · exact m.safe_of_open (ho alive)
    · exact (m.clear (h.clear alive) alive).2
  have hc : s'.teardown ≠ none → ∀ r, (s'.request r).Clear := by
    intro down
    by_cases alive : s.teardown = none
    · cases m with
      | destroyStart => exact hG.2 rfl alive
      | stop todo | join todo | destroyStage todo => simp [alive] at todo
      | _ => exact absurd alive down
    · exact (m.clear (h.clear alive) alive).1
  refine ⟨hf.1.trans h.faults, hf.2.trans h.undefined, m.hopped hi hf.1 h.hopped, hc, ?_⟩
  intro rest hrest k hk
  by_cases alive : s.teardown = none
  · cases m with
    | destroyStart =>
      cases hrest
      cases k <;> simp [destructor, members, Member.teardown] at hk
    | stop todo | join todo | destroyStage todo => simp [alive] at todo
    | _ => cases alive.symm.trans hrest
  · have old : ∀ rest', s.teardown = some rest' → .join k ∉ rest' → ∀ r, (s'.request r).status k ≠ .running :=
      fun rest' hr' hk' => m.not_running (h.clear alive) alive (h.joined rest' hr' k hk')
    cases m with
    | destroyStart alive' => exact absurd alive' alive
    | stop todo | destroyStage todo =>
      cases hrest
      exact old _ todo (by simpa using hk)
    | join todo joined =>
      rename_i k₀ rest' p
      cases hrest
      by_cases hkk : k = k₀
      · subst hkk
        intro r hr
        have := ((ht k).mem_busy r).2 hr
        rw [(ThreadPool.join_some joined).1] at this
        cases this
      · exact old _ todo (by simpa [hkk] using hk)
    | _ => exact old rest hrest hk

private theorem reachable_draining {b : B} {s : State R} (h : (system R b).ReachBy ClearDestroy s) :
    Draining s := by
  induction h with
  | init => exact ⟨rfl, rfl, fun _ => ⟨nofun, nofun⟩, fun hd => absurd rfl hd, nofun⟩
  | step hs hG hl ih =>
    have hr := hs.reachable
    exact ih.move (reachable_inv hr) (reachable_tracked hr) (reachable_open hr) hG (Move.of_step hl).2

/-- A running task can take a step unless it waits inside its stage. -/
theorem waits_of_step_none {s : State R} (hu : s.undefined = false) {k : StageId} {r : Nat} {c : C}
    (hk : (s.request r).status k = .running) (h : step s (.advance k r c) = none) :
    (s.request r).Waits c s.backend k := by
  cases k with
  | pre =>
    simp only [step, hu, Bool.false_eq_true, if_false] at h
    cases hq : (s.request r).pre with
    | absent | queued | finished => simp [Request.status, hq] at hk
    | start | ending => simp only [advancePre, hq] at h; first | cases h | (split at h <;> cases h)
    | execute l => exact ⟨l, hq, by simpa [advancePre, hq] using h⟩
    | returned o => cases o <;> simp only [advancePre, hq] at h <;> first | cases h | (split at h <;> cases h)
  | infer =>
    simp only [step, hu, Bool.false_eq_true, if_false] at h
    cases hq : (s.request r).infer with
    | absent | queued | finished => simp [Request.status, hq] at hk
    | start | ending => simp only [advanceInfer, hq] at h; first | cases h | (split at h <;> cases h)
    | execute l => exact ⟨l, hq, by simpa [advanceInfer, hq] using h⟩
    | returned o => cases o <;> simp only [advanceInfer, hq] at h <;> first | cases h | (split at h <;> cases h)
  | post =>
    simp only [step, hu, Bool.false_eq_true, if_false] at h
    cases hq : (s.request r).post with
    | absent | queued | finished => simp [Request.status, hq] at hk
    | start | ending => simp only [advancePost, hq] at h; first | cases h | (split at h <;> cases h)
    | execute l => exact ⟨l, hq, by simpa [advancePost, hq] using h⟩
    | returned o => cases o <;> simp only [advancePost, hq] at h <;> cases h

/-- The destructor waits for running tasks only. -/
private theorem Draining.progress {s : State R} (ht : Tracked s) (h : Draining s) {a : Teardown}
    {rest : List Teardown} (todo : s.teardown = some (a :: rest)) :
    (∃ s', step s (.destroy : Label Img C) = some s') ∨ ∃ k r, (s.request r).status k = .running ∧
      ∀ c, step s (.advance k r c) = none → (s.request r).Waits c s.backend k := by
  have hstep : step s (.destroy : Label Img C) = destroy s := by simp [step, h.undefined]
  cases a with
  | stop k => exact .inl ⟨_, by rw [hstep]; simp only [destroy, todo]; rfl⟩
  | destroyStage k => exact .inl ⟨_, by rw [hstep]; simp only [destroy, todo]; rfl⟩
  | join k =>
    have hque : (s.executor k).que = [] := by
      rw [List.eq_nil_iff_forall_not_mem]
      intro r hr
      exact (h.clear (by simp [todo]) r).not_queued k (((ht k).mem_que r).1 hr)
    cases hb : (s.executor k).busy with
    | nil => exact .inl ⟨_, by rw [hstep]; simp only [destroy, todo, ThreadPool.join, hque, hb]; rfl⟩
    | cons r rs =>
      refine .inr ⟨k, r, ((ht k).mem_busy r).1 (by simp [hb]), fun c hn => ?_⟩
      exact waits_of_step_none h.undefined (((ht k).mem_busy r).1 (by simp [hb])) hn

/-- If the destructor starts in a state in which no task is queued and none will come back to use a stage or an
executor, then it drains the scheduler safely under every interleaving. -/
theorem drained (R : Runner B C Img T M O ε) (b : B) {s : State R} (h : (system R b).ReachBy ClearDestroy s) :
    Drained s := by
  have hs := h.reachable
  have hd := reachable_draining h
  refine ⟨hd.faults, ?_, ?_, fun a rest => hd.progress (reachable_tracked hs)⟩
  · intro r img hr idle
    have hi := reachable_inv hs
    have hlt := (List.getElem?_eq_some_iff.1 hr).1
    refine ((hi.sound r).delivered_iff_not_postThrew (reachable_own hs r img hr) (hd.hopped r)
      ((hi.submitted r).1 hlt) idle).2 ?_
    exact not_postThrew (h.mono fun _ _ hG => hG.1) r
  · intro hend r
    have hnq := (hd.clear (by simp [hend]) r).not_queued
    have hnr := fun k => hd.joined [] hend k List.not_mem_nil r
    exact ⟨fun hp => hp.elim (hnq .pre) (hnr .pre), fun hp => hp.elim (hnq .infer) (hnr .infer),
      fun hp => hp.elim (hnq .post) (hnr .post)⟩

/-! ### Runs with the destructor -/

/-- A check for `Past` and, for the postprocess task, `Entered`. -/
def Request.clearCheck (q : Request R) : Bool :=
  past q.pre && past q.infer && match q.post with
    | .queued _ | .start _ => false
    | _ => true
where
  past {I L O' : Type} : Task I L O' ε → Bool
    | .absent | .ending _ | .finished _ => true
    | _ => false

/-- A check for `ClearDestroy` where postprocess cannot throw. -/
def clearCheck (s : State R) : Label Img C → Bool
  | .destroy => s.teardown.isSome || (List.range s.images.length).all fun r => (s.request r).clearCheck
  | _ => true

private theorem past_of_check {I O' : Type} {P : Prog B C I O' ε} {t : Task I P.Local O' ε}
    (h : Request.clearCheck.past t = true) : Past P t := by
  cases t <;> trivial

private theorem Request.clear_of_check {q : Request R} (h : q.clearCheck = true) : q.Clear := by
  simp only [clearCheck, Bool.and_eq_true] at h
  obtain ⟨⟨hpre, hinfer⟩, hpost⟩ := h
  refine ⟨past_of_check hpre, past_of_check hinfer, ?_⟩
  cases hq : q.post <;> first | trivial | (rw [hq] at hpost; cases hpost)

private theorem clearDestroy_of_check {b : B} {s : State R} {l : Label Img C} (hs : (system R b).Reachable s)
    (hp : PostReturns s l) (h : clearCheck s l = true) : ClearDestroy s l := by
  refine ⟨hp, ?_⟩
  rintro rfl alive r
  simp only [clearCheck, alive, Option.isSome_none, Bool.false_or, List.all_eq_true, List.mem_range] at h
  by_cases hr : r < s.images.length
  · exact Request.clear_of_check (h r hr)
  · have hi := reachable_inv hs
    have h1 : (s.request r).pre.status = .idle := by
      by_contra hne
      exact hr ((hi.submitted r).2 hne)
    have h2 := (hi.sound r).infer_idle (by simp [Task.outcome_of_idle h1])
    have h3 := (hi.sound r).post_idle (by simp [Task.outcome_of_idle h2])
    refine ⟨?_, ?_, ?_⟩
    · cases hq : (s.request r).pre <;> simp_all [Past]
    · cases hq : (s.request r).infer <;> simp_all [Past]
    · cases hq : (s.request r).post <;> simp_all [Entered]

private theorem length_singleton_le (y : Nat) : [y].length ≤ 1 := Nat.le_refl 1

/-- `succRunner` with two threads for each stage. -/
def pairRunner : Runner Unit Unit Nat Nat Nat Nat String :=
  pureRunner 2 .ok (fun x => .ok (x + 1)) fun y => .ok ⟨[y], length_singleton_le y⟩

/-- The destructor starts while the postprocess tasks of two requests are running, and waits for them. -/
theorem drained_pair : ∃ s s', (system pairRunner ()).Reachable s ∧ s.teardown ≠ none ∧
    (s.request 0).post.status = .running ∧ (s.request 1).post.status = .running ∧
    (∃ ls, (system pairRunner ()).run s ls = some s') ∧ (system pairRunner ()).ReachBy ClearDestroy s' ∧
    s'.teardown = some [] ∧ s'.images = [5, 7] ∧ Drained s' := by
  obtain ⟨s, s', hs, hp, hr, hq⟩ := System.exists_run_through ((system pairRunner ()).restrict clearCheck)
    [trip 0 5 [.pre, .infer], trip 1 7 [.pre, .infer],
      [.take .post, .take .post, .advance .post 0 (), .advance .post 1 (), .advance .post 1 (), .destroy]].flatten
    [List.replicate 4 .destroy, List.replicate 3 (.advance .post 0 ()), List.replicate 2 (.advance .post 1 ()),
      List.replicate 5 .destroy].flatten
    (fun s => s.teardown.isSome && (s.request 0).post.status == .running && (s.request 1).post.status == .running)
    (fun s => s.images == [5, 7] && s.teardown.any (·.isEmpty)) (by decide +kernel)
    (by decide +kernel)
  simp only [Bool.and_eq_true, beq_iff_eq] at hp hq
  obtain ⟨⟨started, h0⟩, h1⟩ := hp
  obtain ⟨himg, rest, hrest, hnil⟩ := hq.imp id (Option.any_eq_true _ _).1
  have hc : ∀ {s}, ((system pairRunner ()).restrict clearCheck).Reachable s →
      (system pairRunner ()).ReachBy ClearDestroy s := fun h =>
    h.of_restrict fun s l hs h => clearDestroy_of_check hs (postReturns_of_total s l) h
  refine ⟨s, s', (hc hs).reachable, Option.isSome_iff_ne_none.1 started, h0, h1, ⟨_, System.run_of_restrict hr⟩,
    hc (hs.of_run hr), ?_, himg, drained pairRunner () (hc (hs.of_run hr))⟩
  rw [hrest, List.isEmpty_iff.1 hnil]

/-- The destructor starts while one image is queued: the preprocess stage is destroyed before its executor is
joined, and the task calls `execute` on it. -/
theorem queued_not_drained : ¬∀ s, (system succRunner ()).Reachable s → Drained s := by
  intro h
  obtain ⟨s, hs, hp⟩ := System.exists_reachable_of_run (system succRunner ())
    (.submit 5 :: List.replicate 4 .destroy ++ [.take .pre, .advance .pre 0 ()]) (fun s => !s.faults.isEmpty)
    (by decide)
  rw [(h s hs).faults] at hp
  cases hp

end OnnxInference.AsyncScheduler
