import OnnxInference.Scheduler.AsyncMoves

/-!
# Error delivery in the asynchronous scheduler

In every run the calls made on a request's promise are a function of where its three tasks stand
(`reachable_inv`): while they are under way there is none, and a request ends with the first output of its
postprocess stage or with the exception of the stage that threw, unless that stage is postprocess, whose task has
no `try` block.
-/

namespace OnnxInference.AsyncScheduler

open Concurrency Transition

variable {B C Img T M O ε : Type} {R : Runner B C Img T M O ε}

/-- What the three stages can make of an image when each is given what the one before it returned. -/
inductive Pipeline (R : Runner B C Img T M O ε) (img : Img) : Except (Exn ε) O → Prop
  | pre {e : ε} (pre : R.preprocess.Ends img (.error e)) : Pipeline R img (.error (.stage e))
  | infer {tenbuf : T} {e : ε} (pre : R.preprocess.Ends img (.ok tenbuf)) (infer : R.infer.Ends tenbuf (.error e)) :
      Pipeline R img (.error (.stage e))
  | post {tenbuf : T} {out : M} {e : ε} (pre : R.preprocess.Ends img (.ok tenbuf))
      (infer : R.infer.Ends tenbuf (.ok out)) (post : R.postprocess.Ends out (.error e)) :
      Pipeline R img (.error (.stage e))
  | value {tenbuf : T} {out : M} {outs : Outputs 1 O} (pre : R.preprocess.Ends img (.ok tenbuf))
      (infer : R.infer.Ends tenbuf (.ok out)) (post : R.postprocess.Ends out (.ok outs)) :
      Pipeline R img (.ok (outs.at 0 Nat.one_pos))

namespace Request

/-- What the pipeline of the request ended with, as its stages returned it. -/
def result (q : Request R) : Option (Except (Exn ε) O) :=
  match q.pre.outcome, q.infer.outcome, q.post.outcome with
  | some (.error e), _, _ => some (.error (.stage e))
  | some (.ok _), some (.error e), _ => some (.error (.stage e))
  | some (.ok _), some (.ok _), some (.error e) => some (.error (.stage e))
  | some (.ok _), some (.ok _), some (.ok outs) => some (.ok (outs.at 0 Nat.one_pos))
  | _, _, _ => none

/-- No task of the request is queued or running. -/
def Idle (q : Request R) : Prop := ¬q.pre.Pending ∧ ¬q.infer.Pending ∧ ¬q.post.Pending

instance (q : Request R) : Decidable q.Idle := inferInstanceAs (Decidable (_ ∧ _))

/-- The postprocess stage has thrown. -/
def PostThrew (q : Request R) : Prop := ∃ e, q.post.outcome = some (.error e)

/-- The calls made on the promise, by where the tasks stand.  A task that has ended normally without the next
task being there was refused by a stopped executor. -/
def calls (q : Request R) : Promise O ε :=
  match q.pre.outcome with
  | none => []
  | some (.error e) => [.error (.stage e)]
  | some (.ok _) =>
    if q.infer.status = .idle then [.error .enqueueStoped]
    else
      match q.infer.outcome with
      | none => []
      | some (.error e) => [.error (.stage e)]
      | some (.ok _) =>
        if q.post.status = .idle then [.error .enqueueStoped]
        else
          match q.post.outcome with
          | some (.ok outs) => [.ok (outs.at 0 Nat.one_pos)]
          | _ => []

/-- The tasks of a request are created in order, and its promise has been given what they account for. -/
structure Sound (q : Request R) : Prop where
  infer_idle : (∀ tenbuf, q.pre.outcome ≠ some (.ok tenbuf)) → q.infer.status = .idle
  post_idle : (∀ out, q.infer.outcome ≠ some (.ok out)) → q.post.status = .idle
  promise_eq : q.promise = q.calls

/-- The tasks of the request are calls on its image and on what its earlier stages returned. -/
structure Own (img : Img) (q : Request R) : Prop where
  pre : q.pre.Of R.preprocess img
  infer : ∀ tenbuf, q.pre.outcome = some (.ok tenbuf) → q.infer.Of R.infer tenbuf
  post : ∀ out, q.infer.outcome = some (.ok out) → q.post.Of R.postprocess out

/-- Both tasks that ended normally have found the next executor running. -/
structure Hopped (q : Request R) : Prop where
  infer_present : ∀ tenbuf, q.pre.outcome = some (.ok tenbuf) → q.infer.status ≠ .idle
  post_present : ∀ out, q.infer.outcome = some (.ok out) → q.post.status ≠ .idle

/-- Two requests that have come equally far: the steps of a task on its way keep this. -/
structure Alike (q q' : Request R) : Prop where
  pre : q'.pre.outcome = q.pre.outcome
  infer : q'.infer.outcome = q.infer.outcome
  post : q'.post.outcome = q.post.outcome
  inferIdle : q'.infer.status = .idle ↔ q.infer.status = .idle
  postIdle : q'.post.status = .idle ↔ q.post.status = .idle
  promise : q'.promise = q.promise

theorem Alike.calls {q q' : Request R} (h : Alike q q') : q'.calls = q.calls := by
  simp only [Request.calls, h.pre, h.infer, h.post, h.inferIdle, h.postIdle]

theorem Sound.congr {q q' : Request R} (hq : q.Sound) (h : Alike q q') : q'.Sound := by
  refine ⟨?_, ?_, ?_⟩
  · rw [h.pre, h.inferIdle]; exact hq.infer_idle
  · rw [h.infer, h.postIdle]; exact hq.post_idle
  · rw [h.promise, h.calls]; exact hq.promise_eq

theorem Hopped.congr {q q' : Request R} (hq : q.Hopped) (h : Alike q q') : q'.Hopped := by
  refine ⟨?_, ?_⟩
  · rw [h.pre, ne_eq, h.inferIdle]; exact hq.infer_present
  · rw [h.infer, ne_eq, h.postIdle]; exact hq.post_present

end Request

/-- How a step changes a request: not visibly, or by one of the events of its life. -/
inductive Request.Event (q : Request R) : Request R → Prop
  | alike {q' : Request R} (h : q.Alike q') : Event q q'
  | hopPre {tenbuf : T} (at_ : q.pre = .returned (.ok tenbuf)) :
      Event q { q with pre := .ending (.ok tenbuf), infer := .queued tenbuf }
  | hopInfer {out : M} (at_ : q.infer = .returned (.ok out)) :
      Event q { q with infer := .ending (.ok out), post := .queued out }
  | stoppedPre {tenbuf : T} (at_ : q.pre = .returned (.ok tenbuf)) :
      Event q { q with pre := .ending (.ok tenbuf), promise := q.promise ++ [.error .enqueueStoped] }
  | stoppedInfer {out : M} (at_ : q.infer = .returned (.ok out)) :
      Event q { q with infer := .ending (.ok out), promise := q.promise ++ [.error .enqueueStoped] }
  | throwPre {e : ε} (at_ : q.pre = .returned (.error e)) :
      Event q { q with pre := .ending (.error e), promise := q.promise ++ [.error (.stage e)] }
  | throwInfer {e : ε} (at_ : q.infer = .returned (.error e)) :
      Event q { q with infer := .ending (.error e), promise := q.promise ++ [.error (.stage e)] }
  | throwPost {e : ε} (at_ : q.post = .returned (.error e)) : Event q { q with post := .ending (.error e) }
  | deliver {outs : Outputs 1 O} (at_ : q.post = .returned (.ok outs)) :
      Event q { q with post := .ending (.ok outs), promise := q.promise ++ [.ok (outs.at 0 Nat.one_pos)] }

theorem Request.Event.sound {q q' : Request R} (e : q.Event q') (hq : q.Sound) : q'.Sound := by
  obtain ⟨h1, h2, h3⟩ := hq
  cases e with
  | alike h => exact Sound.congr ⟨h1, h2, h3⟩ h
  | hopPre at_ | stoppedPre at_ | throwPre at_ =>
    have hi : q.infer.status = .idle := h1 (by simp [at_])
    have hp : q.post.status = .idle := h2 (by cases hq : q.infer <;> simp_all)
    refine ⟨?_, ?_, ?_⟩ <;> simp_all [calls]
  | hopInfer at_ | stoppedInfer at_ | throwInfer at_ =>
    have hp : q.post.status = .idle := h2 (by simp [at_])
    have ho : ∃ tenbuf, q.pre.outcome = some (.ok tenbuf) := by
      by_contra hne
      have := h1 (fun t ht => hne ⟨t, ht⟩)
      simp [at_] at this
    obtain ⟨tenbuf, ho⟩ := ho
    refine ⟨?_, ?_, ?_⟩ <;> simp_all [calls]
  | throwPost at_ | deliver at_ =>
    have ho : ∃ out, q.infer.outcome = some (.ok out) := by
      by_contra hne
      have := h2 (fun m hm => hne ⟨m, hm⟩)
      simp [at_] at this
    obtain ⟨out, ho⟩ := ho
    have hi : q.infer.status ≠ .idle := by cases hq : q.infer <;> simp_all
    have ho' : ∃ tenbuf, q.pre.outcome = some (.ok tenbuf) := by
      by_contra hne
      exact hi (h1 (fun t ht => hne ⟨t, ht⟩))
    obtain ⟨tenbuf, ho'⟩ := ho'
    refine ⟨?_, ?_, ?_⟩ <;> simp_all [calls]

/-! ### Every run -/

/-- What every step keeps of every request. -/
structure Inv (s : State R) : Prop where
  sound : ∀ r, (s.request r).Sound
  submitted : ∀ r, r < s.images.length ↔ (s.request r).pre.status ≠ .idle

private theorem event_update {s : State R} {r₀ : Nat} {q : Request R} (h : (s.request r₀).Event q) (r : Nat) :
    (s.request r).Event (Function.update s.request r₀ q r) := by
  rw [Function.update_apply]
  split
  · subst_vars; exact h
  · exact .alike ⟨rfl, rfl, rfl, Iff.rfl, Iff.rfl, rfl⟩

/-- A step is an event, or nothing visible, for each request. -/
theorem Move.event {s s' : State R} {l : Label Img C} (h : Inv s) (m : Move s l s') (r : Nat) :
    (s.request r).Event (s'.request r) := by
  cases m with
  | submit =>
    refine event_update ?_ r
    refine .alike ⟨?_, rfl, rfl, Iff.rfl, Iff.rfl, rfl⟩
    have hidle : (s.request s.images.length).pre.status = .idle := by
      by_contra hne
      exact Nat.lt_irrefl _ ((h.submitted _).2 hne)
    cases hq : (s.request s.images.length).pre <;> simp_all
  | takePre _ at_ | startPre at_ | runPre at_ _ | endPre at_
  | takeInfer _ at_ | startInfer at_ | runInfer at_ _ | endInfer at_
  | takePost _ at_ | startPost at_ | runPost at_ _ | endPost at_ =>
    refine event_update ?_ r
    refine .alike ⟨?_, ?_, ?_, ?_, ?_, rfl⟩ <;> simp [at_]
  | hopPre at_ accepted => exact event_update (.hopPre at_) r
  | hopInfer at_ accepted => exact event_update (.hopInfer at_) r
  | stoppedPre at_ threw => exact event_update (.stoppedPre at_) r
  | stoppedInfer at_ threw => exact event_update (.stoppedInfer at_) r
  | throwPre at_ => exact event_update (.throwPre at_) r
  | throwInfer at_ => exact event_update (.throwInfer at_) r
  | throwPost at_ => exact event_update (.throwPost at_) r
  | deliver at_ => exact event_update (.deliver at_) r
  | misuse | destroyStart | stop | join | destroyStage =>
    exact .alike ⟨rfl, rfl, rfl, Iff.rfl, Iff.rfl, rfl⟩

/-- Only `submit` changes which requests have a preprocess task. -/
theorem Move.submitted {s s' : State R} {l : Label Img C} (h : Inv s) (m : Move s l s') (r : Nat) :
    r < s'.images.length ↔ (s'.request r).pre.status ≠ .idle := by
  cases m with
  | submit alive accepted =>
    simp only [State.setRequest, State.setExecutor, Function.update_apply, List.length_append,
      List.length_singleton]
    split
    · subst_vars; simp
    · rw [← h.submitted r]; omega
  | takePre _ at_ | startPre at_ | runPre at_ _ | endPre at_ | hopPre at_ _ | stoppedPre at_ _ | throwPre at_ =>
    have := h.submitted r
    simp only [State.setRequest, State.setExecutor, State.fault, Function.update_apply]
    split
    · subst_vars; rw [this]; simp [at_]
    · exact this
  | takeInfer | startInfer | runInfer | endInfer | hopInfer | stoppedInfer | throwInfer
  | takePost | startPost | runPost | endPost | throwPost | deliver =>
    have := h.submitted r
    simp only [State.setRequest, State.setExecutor, State.fault, Function.update_apply]
    split
    · subst_vars; exact this
    · exact this
  | misuse | destroyStart | stop | join | destroyStage => exact h.submitted r

theorem reachable_inv {b : B} {s : State R} (h : (system R b).Reachable s) : Inv s := by
  refine h.invariant ?_ ?_
  · exact ⟨fun _ => ⟨fun _ => rfl, fun _ => rfl, rfl⟩, fun _ => by simp [system, init]⟩
  · intro s l s' hi _ hs
    obtain ⟨-, m⟩ := Move.of_step hs
    exact ⟨fun r => (m.event hi r).sound (hi.sound r), fun r => m.submitted hi r⟩

theorem Move.images_of_lt {s s' : State R} {l : Label Img C} (m : Move s l s') {r : Nat} (hr : r < s.images.length) :
    s'.images[r]? = s.images[r]? := by
  cases m with
  | submit => exact List.getElem?_append_left hr
  | _ => rfl

private theorem own_update {s : State R} {r₀ : Nat} {q : Request R} {img : Img} {r : Nat}
    (h : (s.request r).Own img) (hq : r = r₀ → (s.request r₀).Own img → q.Own img) :
    (Function.update s.request r₀ q r).Own img := by
  rw [Function.update_apply]
  split
  · subst_vars; exact hq rfl h
  · exact h

/-- A step keeps every request on its own image. -/
theorem Move.own {s s' : State R} {l : Label Img C} (hi : Inv s) (m : Move s l s')
    (hs : ∀ r img, s.images[r]? = some img → (s.request r).Own img) {r : Nat} {img : Img}
    (hr : s'.images[r]? = some img) : (s'.request r).Own img := by
  have h : s'.images = s.images → (s.request r).Own img := fun heq => hs r img (heq ▸ hr)
  cases m with
  | submit =>
    simp only [State.setRequest, State.setExecutor, Function.update_apply] at hr ⊢
    split
    · subst_vars
      rw [List.getElem?_concat_length, Option.some.injEq] at hr
      have hinfer : (s.request s.images.length).infer.status = .idle := by
        refine (hi.sound _).infer_idle ?_
        have hidle : (s.request s.images.length).pre.status = .idle := by
          by_contra hne
          exact Nat.lt_irrefl _ ((hi.submitted _).2 hne)
        simp [Task.outcome_of_idle hidle]
      have hpost := (hi.sound s.images.length).post_idle (by simp [Task.outcome_of_idle hinfer])
      exact ⟨hr, fun _ _ => .of_idle hinfer, fun _ _ => .of_idle hpost⟩
    · rename_i hne
      have hlt : r < s.images.length := by
        have := (List.getElem?_eq_some_iff.1 hr).1
        rw [List.length_append, List.length_singleton] at this
        omega
      rw [List.getElem?_append_left hlt] at hr
      exact hs r img hr
  | takePre _ at_ =>
    refine own_update (h rfl) fun _ h => ⟨?_, nofun, h.post⟩
    simpa [at_, Task.Of] using h.pre
  | startPre at_ =>
    refine own_update (h rfl) fun _ h => ⟨?_, nofun, h.post⟩
    have himg := h.pre
    rw [at_] at himg
    exact himg ▸ .start
  | runPre at_ stepped =>
    refine own_update (h rfl) fun _ h => ⟨?_, by simp, h.post⟩
    have hl := h.pre
    rw [at_] at hl
    exact Task.Of.ofStep hl stepped
  | endPre at_ =>
    refine own_update (h rfl) fun _ h => ⟨?_, ?_, h.post⟩
    · simpa [at_, Task.Of] using h.pre
    · simpa [at_] using h.infer
  | throwPre at_ =>
    refine own_update (h rfl) fun _ h => ⟨?_, nofun, h.post⟩
    simpa [at_, Task.Of] using h.pre
  | stoppedPre at_ threw =>
    refine own_update (h rfl) fun hr h => ⟨?_, fun tenbuf _ => ?_, h.post⟩
    · simpa [at_, Task.Of] using h.pre
    · exact Task.Of.of_idle ((hi.sound _).infer_idle (by simp [at_]))
  | hopPre at_ accepted =>
    refine own_update (h rfl) fun _ h => ⟨?_, ?_, nofun⟩
    · simpa [at_, Task.Of] using h.pre
    · simp [Task.Of]
  | takeInfer _ at_ =>
    refine own_update (h rfl) fun _ h => ⟨h.pre, fun tenbuf ht => ?_, nofun⟩
    simpa [at_, Task.Of] using h.infer tenbuf ht
  | startInfer at_ =>
    refine own_update (h rfl) fun _ h => ⟨h.pre, fun tenbuf ht => ?_, nofun⟩
    have htenbuf := h.infer tenbuf ht
    rw [at_] at htenbuf
    exact htenbuf ▸ .start
  | runInfer at_ stepped =>
    refine own_update (h rfl) fun _ h => ⟨h.pre, fun tenbuf ht => ?_, by simp⟩
    have hl := h.infer tenbuf ht
    rw [at_] at hl
    exact Task.Of.ofStep hl stepped
  | endInfer at_ =>
    refine own_update (h rfl) fun _ h => ⟨h.pre, fun tenbuf ht => ?_, ?_⟩
    · simpa [at_, Task.Of] using h.infer tenbuf ht
    · simpa [at_] using h.post
  | throwInfer at_ =>
    refine own_update (h rfl) fun _ h => ⟨h.pre, fun tenbuf ht => ?_, nofun⟩
    simpa [at_, Task.Of] using h.infer tenbuf ht
  | stoppedInfer at_ threw =>
    refine own_update (h rfl) fun _ h => ⟨h.pre, fun tenbuf ht => ?_, fun out _ => ?_⟩
    · simpa [at_, Task.Of] using h.infer tenbuf ht
    · exact Task.Of.of_idle ((hi.sound _).post_idle (by simp [at_]))
  | hopInfer at_ accepted =>
    refine own_update (h rfl) fun _ h => ⟨h.pre, fun tenbuf ht => ?_, ?_⟩
    · simpa [at_, Task.Of] using h.infer tenbuf ht
    · simp [Task.Of]
  | takePost _ at_ | endPost at_ | throwPost at_ | deliver at_ =>
    refine own_update (h rfl) fun _ h => ⟨h.pre, h.infer, fun out ho => ?_⟩
    simpa [at_, Task.Of] using h.post out ho
  | startPost at_ =>
    refine own_update (h rfl) fun _ h => ⟨h.pre, h.infer, fun out ho => ?_⟩
    have hout := h.post out ho
    rw [at_] at hout
    exact hout ▸ .start
  | runPost at_ stepped =>
    refine own_update (h rfl) fun _ h => ⟨h.pre, h.infer, fun out ho => ?_⟩
    have hl := h.post out ho
    rw [at_] at hl
    exact Task.Of.ofStep hl stepped
  | misuse | destroyStart | stop | join | destroyStage => exact h rfl

theorem reachable_own {b : B} {s : State R} (h : (system R b).Reachable s) :
    ∀ r img, s.images[r]? = some img → (s.request r).Own img := by
  induction h with
  | init => exact nofun
  | step hs _ hl ih => exact fun r img hr => (Move.of_step hl).2.own (reachable_inv hs) ih hr

/-! ### While the scheduler is alive -/

/-- Before its destructor starts, the executors run, the stages are there and no task has been refused. -/
structure Open (s : State R) : Prop where
  executor : ∀ k, (s.executor k).Open
  stage : ∀ k, s.stage k = true
  hopped : ∀ r, (s.request r).Hopped

theorem Request.Event.hopped {q q' : Request R} (e : q.Event q')
    (hs : q'.promise ≠ q.promise ++ [.error .enqueueStoped]) (hq : q.Hopped) : q'.Hopped := by
  obtain ⟨h1, h2⟩ := hq
  cases e with
  | alike h => exact Hopped.congr ⟨h1, h2⟩ h
  | stoppedPre at_ | stoppedInfer at_ => exact absurd rfl hs
  | hopPre at_ | hopInfer at_ | throwPre at_ | throwInfer at_ | throwPost at_ | deliver at_ =>
    refine ⟨?_, ?_⟩ <;> simp_all

/-- In a step without a fault no task is refused. -/
theorem Move.hopped {s s' : State R} {l : Label Img C} (hi : Inv s) (m : Move s l s') (hf : s'.faults = s.faults)
    (h : ∀ r, (s.request r).Hopped) (r : Nat) : (s'.request r).Hopped := by
  refine (m.event hi r).hopped ?_ (h r)
  cases m with
  | stoppedPre | stoppedInfer | misuse => simp [State.undefinedBy, State.fault, State.setRequest] at hf
  | destroyStart | stop | join | destroyStage => simp
  | submit | takePre | takeInfer | takePost | startPre | startInfer | startPost | runPre | runInfer | runPost
  | hopPre | hopInfer | throwPre | throwInfer | throwPost | deliver | endPre | endInfer | endPost =>
    simp only [State.setRequest, State.setExecutor, Function.update_apply]
    split <;> simp_all

theorem Move.safe_of_open {s s' : State R} {l : Label Img C} (h : Open s) (m : Move s l s') :
    s'.faults = s.faults ∧ s'.undefined = s.undefined := by
  cases m with
  | stoppedPre at_ threw => exact absurd threw ((h.executor .infer).enqueue_ne _).1
  | stoppedInfer at_ threw => exact absurd threw ((h.executor .post).enqueue_ne _).1
  | misuse uses dead =>
    obtain hs | ⟨k, hk⟩ := dead
    · simp [h.stage] at hs
    · exact absurd hk ((h.executor k).enqueue_ne _).2
  | _ => exact ⟨rfl, rfl⟩

private theorem executor_update {s : State R} {k₀ : StageId} {p : ThreadPool Nat}
    (h : ∀ k, (s.executor k).Open) (hp : p.Open) (k : StageId) : (Function.update s.executor k₀ p k).Open := by
  rw [Function.update_apply]
  split
  · exact hp
  · exact h k

theorem Move.open {s s' : State R} {l : Label Img C} (hi : Inv s) (h : Open s) (m : Move s l s')
    (alive : s'.teardown = none) : Open s' := by
  have hopped : ∀ r, (s'.request r).Hopped := m.hopped hi (m.safe_of_open h).1 h.hopped
  cases m with
  | destroyStart | stop | join | destroyStage => cases alive
  | submit _ accepted | hopPre _ accepted | hopInfer _ accepted =>
    exact ⟨executor_update h.executor ((h.executor _).enqueue accepted), h.stage, hopped⟩
  | takePre taken | takeInfer taken | takePost taken =>
    exact ⟨executor_update h.executor ((h.executor _).take taken), h.stage, hopped⟩
  | endPre | endInfer | endPost =>
    exact ⟨executor_update h.executor ((h.executor _).finish _), h.stage, hopped⟩
  | startPre | startInfer | startPost | runPre | runInfer | runPost | stoppedPre | stoppedInfer | throwPre
  | throwInfer | throwPost | deliver | misuse => exact ⟨h.executor, h.stage, hopped⟩

theorem Move.teardown_isSome {s s' : State R} {l : Label Img C} (m : Move s l s') (alive : s'.teardown = none) :
    s.teardown = none := by
  cases m <;> first | exact alive | cases alive

theorem reachable_open {b : B} {s : State R} (h : (system R b).Reachable s) (alive : s.teardown = none) :
    Open s := by
  induction h with
  | init =>
    refine ⟨fun _ => ⟨rfl, rfl⟩, fun _ => rfl, fun _ => ⟨nofun, nofun⟩⟩
  | step hr _ hs ih =>
    obtain ⟨-, m⟩ := Move.of_step hs
    exact m.open (reachable_inv hr) (ih (m.teardown_isSome alive)) alive

/-! ### What a request ends with -/

/-- The promise has been satisfied exactly once, with what the stages of the request ended with, which is a result
of the pipeline for its image. -/
def Request.Delivered (img : Img) (q : Request R) : Prop :=
  ∃ x, Pipeline R img x ∧ q.result = some x ∧ q.promise = [x]

/-- What the stages of a request ended with is a result of the pipeline for its image. -/
theorem Request.Own.pipeline {img : Img} {q : Request R} (h : q.Own img) {x : Except (Exn ε) O}
    (hx : q.result = some x) : Pipeline R img x := by
  unfold result at hx
  split at hx <;> cases hx
  · rename_i hp
    exact .pre (h.pre.outcome hp)
  · rename_i hp hi
    exact .infer (h.pre.outcome hp) ((h.infer _ hp).outcome hi)
  · rename_i hp hi ho
    exact .post (h.pre.outcome hp) ((h.infer _ hp).outcome hi) ((h.post _ hi).outcome ho)
  · rename_i hp hi ho
    exact .value (h.pre.outcome hp) ((h.infer _ hp).outcome hi) ((h.post _ hi).outcome ho)

/-- A request with no task queued or running has ended as it should, unless its postprocess stage threw. -/
theorem Request.Sound.delivered_iff_not_postThrew {img : Img} {q : Request R} (h : q.Sound) (hown : q.Own img)
    (hop : q.Hopped) (hs : q.pre.status ≠ .idle) (idle : q.Idle) : q.Delivered img ↔ ¬q.PostThrew := by
  have hpipe : q.Delivered img ↔ ∃ x, q.result = some x ∧ q.promise = [x] :=
    ⟨fun ⟨x, _, hx⟩ => ⟨x, hx⟩, fun ⟨x, hx⟩ => ⟨x, hown.pipeline hx.1, hx⟩⟩
  rw [hpipe]
  obtain ⟨hi, hp, heq⟩ := h
  obtain ⟨hopi, hopp⟩ := hop
  obtain ⟨i1, i2, i3⟩ := idle
  rw [Task.not_pending_iff] at i1 i2 i3
  unfold PostThrew
  rw [heq]
  rcases i1 with i1 | ⟨o, i1⟩
  · simp [i1] at hs
  cases o with
  | error e =>
    have h2 := hi (by simp [i1])
    have h3 := hp (by simp [Task.outcome_of_idle h2])
    simp [result, calls, i1, Task.outcome_of_idle h3]
  | ok tenbuf =>
    have h2 := hopi tenbuf (by simp [i1])
    rcases i2 with i2 | ⟨o, i2⟩
    · simp [i2] at h2
    cases o with
    | error e =>
      have h3 := hp (by simp [i2])
      simp [result, calls, i1, i2, Task.outcome_of_idle h3]
    | ok out =>
      have h3 := hopp out (by simp [i2])
      rcases i3 with i3 | ⟨o, i3⟩
      · simp [i3] at h3
      cases o with
      | error e => simp [result, calls, i1, i2, i3]
      | ok outs => simp [result, calls, i1, i2, i3]

/-- While no task has been refused, a promise is given only what the stages of its request ended with. -/
theorem Request.Sound.result_of_mem {q : Request R} (h : q.Sound) (hop : q.Hopped) {x : Except (Exn ε) O}
    (hx : x ∈ q.promise) : q.result = some x := by
  rw [h.promise_eq] at hx
  unfold calls at hx
  split at hx
  · cases hx
  · rename_i e hp
    rw [List.mem_singleton] at hx
    rw [hx, result, hp]
  · rename_i tenbuf hp
    rw [if_neg (hop.infer_present tenbuf hp)] at hx
    split at hx
    · cases hx
    · rename_i e hi
      rw [List.mem_singleton] at hx
      rw [hx, result, hp, hi]
    · rename_i out hi
      rw [if_neg (hop.post_present out hi)] at hx
      split at hx
      · rename_i outs ho
        rw [List.mem_singleton] at hx
        rw [hx, result, hp, hi, ho]
      · cases hx

/-- The step is not one in which the postprocess stage throws. -/
def PostReturns (s : State R) (l : Label Img C) : Prop :=
  ∀ r c lp, l = .advance .post r c → (s.request r).post = .execute lp → ¬R.postprocess.Throws c s.backend lp

private theorem postFine_move {s s' : State R} {l : Label Img C} (hG : PostReturns s l) (m : Move s l s')
    (h : ∀ r e, (s.request r).post ≠ .returned (.error e) ∧ (s.request r).post.outcome ≠ some (.error e)) :
    ∀ r e, (s'.request r).post ≠ .returned (.error e) ∧ (s'.request r).post.outcome ≠ some (.error e) := by
  intro r e
  have hr := h r e
  cases m with
  | runPost at_ stepped =>
    rename_i r₀ c lp x
    simp only [State.setRequest, Function.update_apply]
    split
    · subst_vars
      refine ⟨fun hx => ?_, by simp⟩
      obtain ⟨b', x⟩ := x
      cases x with
      | inl _ => cases hx
      | inr o => cases hx; exact hG _ c lp rfl at_ ⟨_, _, stepped⟩
    · exact hr
  | throwPost at_ => exact absurd at_ (h _ _).1
  | submit | takePre | takeInfer | takePost | startPre | startInfer | startPost | runPre | runInfer | hopPre
  | hopInfer | stoppedPre | stoppedInfer | throwPre | throwInfer | deliver | endPre | endInfer | endPost =>
    simp only [State.setRequest, State.setExecutor, State.fault, Function.update_apply]
    split <;> simp_all
  | misuse | destroyStart | stop | join | destroyStage => exact hr

/-- In a run in which the postprocess stage never throws, it has thrown for no request. -/
theorem not_postThrew {b : B} {s : State R} (h : (system R b).ReachBy PostReturns s) (r : Nat) :
    ¬(s.request r).PostThrew := by
  have key : ∀ r e, (s.request r).post ≠ .returned (.error e) ∧ (s.request r).post.outcome ≠ some (.error e) := by
    induction h with
    | init => exact fun _ _ => ⟨nofun, nofun⟩
    | step _ hG hs ih => exact postFine_move hG (Move.of_step hs).2 ih
  rintro ⟨e, he⟩
  exact (key r e).2 he

/-- While the scheduler is alive, every request none of whose tasks is queued or running has its promise satisfied
exactly once, as its stages ended, in the runs in which postprocess never throws; and in any run this fails for
exactly the requests whose postprocess threw. -/
theorem delivered_iff (R : Runner B C Img T M O ε) (b : B) :
    (∀ s, (system R b).ReachBy PostReturns s → s.teardown = none →
      ∀ r img, s.images[r]? = some img → (s.request r).Idle → (s.request r).Delivered img) ∧
    ∀ s, (system R b).Reachable s → s.teardown = none →
      ∀ r img, s.images[r]? = some img → (s.request r).Idle →
        ((s.request r).Delivered img ↔ ¬(s.request r).PostThrew) := by
  have key : ∀ s, (system R b).Reachable s → s.teardown = none →
      ∀ r img, s.images[r]? = some img → (s.request r).Idle →
        ((s.request r).Delivered img ↔ ¬(s.request r).PostThrew) := by
    intro s hs alive r img hr idle
    have hi := reachable_inv hs
    have hlt := (List.getElem?_eq_some_iff.1 hr).1
    exact (hi.sound r).delivered_iff_not_postThrew (reachable_own hs r img hr) ((reachable_open hs alive).hopped r)
      ((hi.submitted r).1 hlt) idle
  refine ⟨?_, key⟩
  intro s hs alive r img hr idle
  exact (key s hs.reachable alive r img hr idle).2 (not_postThrew hs r)

/-! ### Runs on one image -/

/-- A runner whose stages are pure functions. -/
def pureRunner (bufferSize : Nat) (preprocess : Img → Except ε T) (infer : T → Except ε M)
    (postprocess : M → Except ε (Outputs 1 O)) : Runner Unit Unit Img T M O ε :=
  ⟨bufferSize, .ofFn preprocess, .ofFn infer, .ofFn postprocess, fun _ b => b⟩

theorem postReturns_of_total {bufferSize : Nat} {preprocess : Img → Except ε T} {infer : T → Except ε M}
    {postprocess : M → Outputs 1 O}
    (s : State (pureRunner bufferSize preprocess infer fun out => .ok (postprocess out)))
    (l : Label Img Unit) : PostReturns s l := by
  rintro r c lp - - ⟨b', e, h⟩
  cases h

/-- Submit request `r` and run its tasks at these stages to their ends. -/
def trip (r : Nat) (img : Img) (stages : List StageId) : List (Label Img Unit) :=
  .submit img :: stages.flatMap fun k => .take k :: List.replicate 4 (.advance k r ())

/-- Submit one image and run its three tasks to their ends. -/
def oneTrip (img : Img) : List (Label Img Unit) := trip 0 img [.pre, .infer, .post]

/-- The scheduler is alive and the three tasks of its first request have finished. -/
def tripDone [BEq Img] (img : Img) (s : State R) : Bool :=
  s.teardown.isNone && s.images == [img] && (s.request 0).pre.status == .done &&
    (s.request 0).infer.status == .done && (s.request 0).post.status == .done

private theorem of_tripDone [DecidableEq Img] {img : Img} {s : State R} (h : tripDone img s = true) :
    s.teardown = none ∧ s.images[0]? = some img ∧ (s.request 0).Idle := by
  simp only [tripDone, Bool.and_eq_true, Option.isNone_iff_eq_none, beq_iff_eq] at h
  obtain ⟨⟨⟨⟨ha, hl⟩, h1⟩, h2⟩, h3⟩ := h
  exact ⟨ha, by simp [hl], by simp [Task.Pending, h1], by simp [Task.Pending, h2], by simp [Task.Pending, h3]⟩

/-- Numbers as images; the model adds one. -/
def succRunner : Runner Unit Unit Nat Nat Nat Nat String :=
  pureRunner 1 .ok (fun x => .ok (x + 1)) fun y => .ok ⟨[y], Nat.le_refl 1⟩

/-- A preprocess and a model that throw for some numbers. -/
def fussyRunner : Runner Unit Unit Nat Nat Nat Nat String :=
  pureRunner 1 (fun x => if x = 0 then .error "empty image" else .ok x)
    (fun x => if 9 < x then .error "inference failed" else .ok (x + 1)) fun y => .ok ⟨[y], Nat.le_refl 1⟩

/-- A request whose preprocess throws, one whose inference throws, and one that gets its value. -/
theorem delivered_iff_fussy : ∃ s, (system fussyRunner ()).Reachable s ∧ s.images = [0, 10, 5] ∧
    (List.range 3).map (fun r => (s.request r).promise) =
      [[.error (.stage "empty image")], [.error (.stage "inference failed")], [.ok 6]] ∧
    (∀ r img, s.images[r]? = some img → (s.request r).Delivered img) ∧
    ((s.request 1).Delivered 10 ↔ ¬(s.request 1).PostThrew) := by
  obtain ⟨s, hs, hp⟩ := System.exists_reachable_of_run (system fussyRunner ())
    (trip 0 0 [.pre] ++ trip 1 10 [.pre, .infer] ++ trip 2 5 [.pre, .infer, .post])
    (fun s => s.teardown.isNone && s.images == [0, 10, 5] &&
      (List.range 3).map (fun r => (s.request r).promise) ==
        [[.error (.stage "empty image")], [.error (.stage "inference failed")], [.ok 6]] &&
      (List.range 3).all fun r => decide (s.request r).Idle) (by decide)
  simp only [Bool.and_eq_true, Option.isNone_iff_eq_none, beq_iff_eq, List.all_eq_true, List.mem_range,
    decide_eq_true_eq] at hp
  obtain ⟨⟨⟨alive, images⟩, promises⟩, idle⟩ := hp
  have returns : (system fussyRunner ()).ReachBy PostReturns s := hs.mono fun s l _ => postReturns_of_total s l
  refine ⟨s, hs, images, promises, fun r img hr => ?_, ?_⟩
  · have hlt : r < 3 := by simpa [images] using (List.getElem?_eq_some_iff.1 hr).1
    exact (delivered_iff fussyRunner ()).1 s returns alive r img hr (idle r hlt)
  · exact (delivered_iff fussyRunner ()).2 s hs alive 1 10 (by rw [images]; rfl) (idle 1 (by omega))

/-- `succRunner` with a postprocess that refuses the model's output, as `YoloDetector::postprocess` does when it is not
three-dimensional. -/
def refusingRunner : Runner Unit Unit Nat Nat Nat Nat String :=
  pureRunner 1 .ok (fun x => .ok (x + 1)) fun _ => .error "Model output is invalid."

theorem refused_not_delivered : ¬∀ s, (system refusingRunner ()).Reachable s → s.teardown = none →
    ∀ r img, s.images[r]? = some img → (s.request r).Idle → (s.request r).Delivered img := by
  intro h
  obtain ⟨s, hs, hp⟩ := System.exists_reachable_of_run (system refusingRunner ()) (oneTrip 5)
    (fun s => tripDone 5 s && (s.request 0).promise.isEmpty) (by decide)
  simp only [Bool.and_eq_true, List.isEmpty_iff] at hp
  obtain ⟨alive, hl, idle⟩ := of_tripDone hp.1
  obtain ⟨x, -, -, hx⟩ := h s hs alive 0 5 hl idle
  rw [hp.2] at hx
  cases hx

end OnnxInference.AsyncScheduler
