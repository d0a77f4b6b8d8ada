import OnnxInference.Scheduler.AsyncScheduler

/-!
# What a step of the asynchronous scheduler can do

`Move` lists the steps of `AsyncScheduler.step`, one constructor for each branch of the source, with the guard the
branch has passed; `Move.of_step` is the only proof that unfolds `step`.  Everything about runs of the scheduler is
proved by cases on `Move`.
-/

namespace OnnxInference.AsyncScheduler

open Concurrency Transition

variable {B C Img T M O ε : Type} {R : Runner B C Img T M O ε}

/-- The next step of the task uses a stage or an executor of the scheduler. -/
def Request.Uses (q : Request R) : StageId → Prop
  | .pre => (∃ img, q.pre = .start img) ∨ ∃ tenbuf, q.pre = .returned (.ok tenbuf)
  | .infer => (∃ tenbuf, q.infer = .start tenbuf) ∨ ∃ out, q.infer = .returned (.ok out)
  | .post => ∃ out, q.post = .start out

/-- A step from `s` with its label and result. -/
inductive Move (s : State R) : Label Img C → State R → Prop
  | submit {img : Img} {p : ThreadPool Nat} (alive : s.teardown = none)
      (accepted : (s.executor .pre).enqueue s.images.length = .accepted p) :
      Move s (.submit img)
        { (s.setExecutor .pre p).setRequest s.images.length
            { s.request s.images.length with pre := .queued img } with images := s.images ++ [img] }
  | takePre {r : Nat} {p : ThreadPool Nat} {img : Img} (taken : (s.executor .pre).take = some (r, p))
      (at_ : (s.request r).pre = .queued img) :
      Move s (.take .pre) ((s.setExecutor .pre p).setRequest r { s.request r with pre := .start img })
  | takeInfer {r : Nat} {p : ThreadPool Nat} {tenbuf : T} (taken : (s.executor .infer).take = some (r, p))
      (at_ : (s.request r).infer = .queued tenbuf) :
      Move s (.take .infer) ((s.setExecutor .infer p).setRequest r { s.request r with infer := .start tenbuf })
  | takePost {r : Nat} {p : ThreadPool Nat} {out : M} (taken : (s.executor .post).take = some (r, p))
      (at_ : (s.request r).post = .queued out) :
      Move s (.take .post) ((s.setExecutor .post p).setRequest r { s.request r with post := .start out })
  | startPre {r : Nat} {c : C} {img : Img} (at_ : (s.request r).pre = .start img) :
      Move s (.advance .pre r c)
        (s.setRequest r { s.request r with pre := .execute (R.preprocess.start img) })
  | startInfer {r : Nat} {c : C} {tenbuf : T} (at_ : (s.request r).infer = .start tenbuf) :
      Move s (.advance .infer r c)
        (s.setRequest r { s.request r with infer := .execute (R.infer.start tenbuf) })
  | startPost {r : Nat} {c : C} {out : M} (at_ : (s.request r).post = .start out) :
      Move s (.advance .post r c)
        (s.setRequest r { s.request r with post := .execute (R.postprocess.start out) })
  | runPre {r : Nat} {c : C} {l : R.preprocess.Local} {x : B × (R.preprocess.Local ⊕ Except ε T)}
      (at_ : (s.request r).pre = .execute l) (stepped : R.preprocess.step c s.backend l = some x) :
      Move s (.advance .pre r c)
        { s.setRequest r { s.request r with pre := .ofStep x.2 } with backend := x.1 }
  | runInfer {r : Nat} {c : C} {l : R.infer.Local} {x : B × (R.infer.Local ⊕ Except ε M)}
      (at_ : (s.request r).infer = .execute l) (stepped : R.infer.step c s.backend l = some x) :
      Move s (.advance .infer r c)
        { s.setRequest r { s.request r with infer := .ofStep x.2 } with backend := x.1 }
  | runPost {r : Nat} {c : C} {l : R.postprocess.Local} {x : B × (R.postprocess.Local ⊕ Except ε (Outputs 1 O))}
      (at_ : (s.request r).post = .execute l) (stepped : R.postprocess.step c s.backend l = some x) :
      Move s (.advance .post r c)
        { s.setRequest r { s.request r with post := .ofStep x.2 } with backend := x.1 }
  | hopPre {r : Nat} {c : C} {tenbuf : T} {p : ThreadPool Nat}
      (at_ : (s.request r).pre = .returned (.ok tenbuf))
      (accepted : (s.executor .infer).enqueue r = .accepted p) :
      Move s (.advance .pre r c) ((s.setExecutor .infer p).setRequest r
        { s.request r with pre := .ending (.ok tenbuf), infer := .queued tenbuf })
  | hopInfer {r : Nat} {c : C} {out : M} {p : ThreadPool Nat}
      (at_ : (s.request r).infer = .returned (.ok out))
      (accepted : (s.executor .post).enqueue r = .accepted p) :
      Move s (.advance .infer r c) ((s.setExecutor .post p).setRequest r
        { s.request r with infer := .ending (.ok out), post := .queued out })
  | stoppedPre {r : Nat} {c : C} {tenbuf : T} (at_ : (s.request r).pre = .returned (.ok tenbuf))
      (threw : (s.executor .infer).enqueue r = .threw) :
      Move s (.advance .pre r c) ((s.setRequest r { s.request r with
        pre := .ending (.ok tenbuf),
        promise := (s.request r).promise ++ [.error .enqueueStoped] }).fault (.enqueue .infer r))
  | stoppedInfer {r : Nat} {c : C} {out : M} (at_ : (s.request r).infer = .returned (.ok out))
      (threw : (s.executor .post).enqueue r = .threw) :
      Move s (.advance .infer r c) { (s.setRequest r { s.request r with
        infer := .ending (.ok out),
        promise := (s.request r).promise ++ [.error .enqueueStoped] }).fault (.enqueue .post r) with
          backend := R.destroyOutput out s.backend }
  | throwPre {r : Nat} {c : C} {e : ε} (at_ : (s.request r).pre = .returned (.error e)) :
      Move s (.advance .pre r c) (s.setRequest r { s.request r with
        pre := .ending (.error e), promise := (s.request r).promise ++ [.error (.stage e)] })
  | throwInfer {r : Nat} {c : C} {e : ε} (at_ : (s.request r).infer = .returned (.error e)) :
      Move s (.advance .infer r c) (s.setRequest r { s.request r with
        infer := .ending (.error e), promise := (s.request r).promise ++ [.error (.stage e)] })
  | throwPost {r : Nat} {c : C} {e : ε} (at_ : (s.request r).post = .returned (.error e)) :
      Move s (.advance .post r c) (s.setRequest r { s.request r with post := .ending (.error e) })
  | deliver {r : Nat} {c : C} {outs : Outputs 1 O} (at_ : (s.request r).post = .returned (.ok outs)) :
      Move s (.advance .post r c) (s.setRequest r { s.request r with
        post := .ending (.ok outs), promise := (s.request r).promise ++ [.ok (outs.at 0 Nat.one_pos)] })
  | endPre {r : Nat} {c : C} {o : Except ε T} (at_ : (s.request r).pre = .ending o) :
      Move s (.advance .pre r c)
        ((s.setExecutor .pre ((s.executor .pre).finish r)).setRequest r { s.request r with pre := .finished o })
  | endInfer {r : Nat} {c : C} {o : Except ε M} (at_ : (s.request r).infer = .ending o) :
      Move s (.advance .infer r c)
        ((s.setExecutor .infer ((s.executor .infer).finish r)).setRequest r
          { s.request r with infer := .finished o })
  | endPost {r : Nat} {c : C} {o : Except ε (Outputs 1 O)} (at_ : (s.request r).post = .ending o) :
      Move s (.advance .post r c)
        { (s.setExecutor .post ((s.executor .post).finish r)).setRequest r { s.request r with post := .finished o } with
          backend := (s.request r).infer.output.elim s.backend fun out => R.destroyOutput out s.backend }
  | misuse {k : StageId} {r : Nat} {c : C} {f : Fault} (uses : (s.request r).Uses k)
      (dead : s.stage k = false ∨ ∃ k', (s.executor k').enqueue r = .undefined) :
      Move s (.advance k r c) (s.undefinedBy f)
  | destroyStart (alive : s.teardown = none) : Move s .destroy { s with teardown := some destructor }
  | stop {k : StageId} {rest : List Teardown} (todo : s.teardown = some (.stop k :: rest)) :
      Move s .destroy { s.setExecutor k (s.executor k).stop with teardown := some rest }
  | join {k : StageId} {rest : List Teardown} {p : ThreadPool Nat} (todo : s.teardown = some (.join k :: rest))
      (joined : (s.executor k).join = some p) :
      Move s .destroy { s.setExecutor k p with teardown := some rest }
  | destroyStage {k : StageId} {rest : List Teardown} (todo : s.teardown = some (.destroyStage k :: rest)) :
      Move s .destroy { s with stage := Function.update s.stage k false, teardown := some rest }

private theorem move_of_take {s s' : State R} {k : StageId} (h : take s k = some s') :
    Move s (.take k) s' := by
  unfold take at h
  rw [Option.bind_eq_bind, Option.bind_eq_some_iff] at h
  obtain ⟨⟨r, p⟩, ht, h⟩ := h
  cases k <;> dsimp only at h <;> split at h <;> cases h
  · exact .takePre ht ‹_›
  · exact .takeInfer ht ‹_›
  · exact .takePost ht ‹_›

private theorem move_of_advancePre {s s' : State R} {r : Nat} {c : C} (h : advancePre s r c = some s') :
    Move s (.advance .pre r c) s' := by
  cases hq : (s.request r).pre with
  | absent | queued _ | finished _ => simp [advancePre, hq] at h
  | start img =>
    simp only [advancePre, hq] at h
    split at h <;> cases h
    · exact .startPre hq
    · exact .misuse (.inl ⟨img, hq⟩) (.inl (Bool.eq_false_iff.2 ‹_›))
  | execute l =>
    simp only [advancePre, hq, Option.map_eq_some_iff] at h
    obtain ⟨x, hx, rfl⟩ := h
    exact .runPre hq hx
  | returned o =>
    cases o with
    | error e => simp only [advancePre, hq] at h; cases h; exact .throwPre hq
    | ok tenbuf =>
      simp only [advancePre, hq] at h
      split at h <;> cases h
      · exact .hopPre hq ‹_›
      · exact .stoppedPre hq ‹_›
      · exact .misuse (.inr ⟨tenbuf, hq⟩) (.inr ⟨_, ‹_›⟩)
  | ending o => simp only [advancePre, hq] at h; cases h; exact .endPre hq

private theorem move_of_advanceInfer {s s' : State R} {r : Nat} {c : C} (h : advanceInfer s r c = some s') :
    Move s (.advance .infer r c) s' := by
  cases hq : (s.request r).infer with
  | absent | queued _ | finished _ => simp [advanceInfer, hq] at h
  | start tenbuf =>
    simp only [advanceInfer, hq] at h
    split at h <;> cases h
    · exact .startInfer hq
    · exact .misuse (.inl ⟨tenbuf, hq⟩) (.inl (Bool.eq_false_iff.2 ‹_›))
  | execute l =>
    simp only [advanceInfer, hq, Option.map_eq_some_iff] at h
    obtain ⟨x, hx, rfl⟩ := h
    exact .runInfer hq hx
  | returned o =>
    cases o with
    | error e => simp only [advanceInfer, hq] at h; cases h; exact .throwInfer hq
    | ok out =>
      simp only [advanceInfer, hq] at h
      split at h <;> cases h
      · exact .hopInfer hq ‹_›
      · exact .stoppedInfer hq ‹_›
      · exact .misuse (.inr ⟨out, hq⟩) (.inr ⟨_, ‹_›⟩)
  | ending o => simp only [advanceInfer, hq] at h; cases h; exact .endInfer hq

private theorem move_of_advancePost {s s' : State R} {r : Nat} {c : C} (h : advancePost s r c = some s') :
    Move s (.advance .post r c) s' := by
  cases hq : (s.request r).post with
  | absent | queued _ | finished _ => simp [advancePost, hq] at h
  | start out =>
    simp only [advancePost, hq] at h
    split at h <;> cases h
    · exact .startPost hq
    · exact .misuse ⟨out, hq⟩ (.inl (Bool.eq_false_iff.2 ‹_›))
  | execute l =>
    simp only [advancePost, hq, Option.map_eq_some_iff] at h
    obtain ⟨x, hx, rfl⟩ := h
    exact .runPost hq hx
  | returned o =>
    cases o with
    | error e => simp only [advancePost, hq] at h; cases h; exact .throwPost hq
    | ok outs => simp only [advancePost, hq] at h; cases h; exact .deliver hq
  | ending o => simp only [advancePost, hq] at h; cases h; exact .endPost hq

private theorem move_of_destroy {s s' : State R} (h : destroy s = some s') : Move s .destroy s' := by
  unfold destroy at h
  split at h
  · cases h; exact .destroyStart ‹_›
  · cases h
  · cases h; exact .stop ‹_›
  · rename_i k rest ht
    rw [Option.map_eq_some_iff] at h
    obtain ⟨p, hp, rfl⟩ := h
    exact .join ht hp
  · cases h; exact .destroyStage ‹_›

/-- Every step is one of the moves. -/
theorem Move.of_step {s s' : State R} {l : Label Img C} (h : step s l = some s') :
    s.undefined = false ∧ Move s l s' := by
  unfold step at h
  split at h
  · cases h
  · rename_i hu
    refine ⟨by simpa using hu, ?_⟩
    split at h
    · split at h
      · rename_i ha
        unfold AsyncScheduler.submit at h
        split at h <;> cases h
        exact .submit (by simpa using ha) ‹_›
      · cases h
    · exact move_of_take h
    · exact move_of_advancePre h
    · exact move_of_advanceInfer h
    · exact move_of_advancePost h
    · exact move_of_destroy h

end OnnxInference.AsyncScheduler
