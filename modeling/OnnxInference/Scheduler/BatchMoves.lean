import OnnxInference.Scheduler.BatchScheduler

/-!
# What a step of the batch scheduler can do

`Move` lists the steps of `BatchScheduler.step` with the guards they have passed; the steps of the worker that only
change its place are in `Turn`.  `Move.of_step` is the only proof that unfolds `step`.
-/

namespace OnnxInference.BatchScheduler

open Concurrency Transition

variable {B C Img T M O ε : Type} {R : BatchRunner B C Img T M O ε}

/-- The worker goes to `w` and does nothing else. -/
inductive Turn (s : State R) : Worker → Prop
  | ready (at_ : s.worker = .wait) (ready : R.batchSize ≤ s.inputs.length ∨ s.isClose = false ∧ s.inputs ≠ []) :
      Turn s .getTensorBuffer
  | idle (at_ : s.worker = .wait) (less : s.inputs.length < R.batchSize) : Turn s .checkClose
  | filled {b size i : Nat} (at_ : s.worker = .fill b size i) (done : size ≤ i) : Turn s (.enqueueInfer b)
  | again (at_ : s.worker = .again) (ready : R.batchSize ≤ s.inputs.length) : Turn s .getTensorBuffer
  | leave (at_ : s.worker = .again) (less : s.inputs.length < R.batchSize) : Turn s .checkClose
  | loop (at_ : s.worker = .checkClose) (alive : s.isClose = false) : Turn s .wait
  | exit (at_ : s.worker = .checkClose) (closed : s.isClose = true) : Turn s .exited

/-- A step from `s` with its label and result. -/
inductive Move (s : State R) : Label Img C → State R → Prop
  | submit {img : Img} (free : s.MutexFree) (alive : s.isClose = false) :
      Move s (.submit img) { s with
        images := s.images ++ [img], inputs := s.inputs ++ [img], promises := s.promises ++ [s.images.length] }
  | turn {w : Worker} (h : Turn s w) : Move s .work (s.turn w)
  | acquire {tenbuf : T} {backend : B} (at_ : s.worker = .getTensorBuffer)
      (got : R.getTensorBuffer s.backend = some (tenbuf, backend)) (pos : 0 < min R.batchSize s.inputs.length)
      (enough : min R.batchSize s.inputs.length ≤ s.promises.length) :
      Move s .work { s.turn (.fill s.batches.length (min R.batchSize s.inputs.length) 0) with
        backend := backend, batches := s.batches ++ [⟨tenbuf, [], [], .absent, .absent⟩] }
  | breakOut {tenbuf : T} {backend : B} (at_ : s.worker = .getTensorBuffer)
      (got : R.getTensorBuffer s.backend = some (tenbuf, backend))
      (short : min R.batchSize s.inputs.length = 0 ∨ s.promises.length < min R.batchSize s.inputs.length) :
      Move s .work { s.turn .checkClose with backend := backend }
  | fill {b size i : Nat} {x : Batch R} {img : Img} {inputs : List Img} {p : Nat} {promises : List Nat}
      {pool : ThreadPool (Nat × Nat)} (at_ : s.worker = .fill b size i) (lt : i < size) (hx : s.batches[b]? = some x)
      (front : s.inputs = img :: inputs) (front' : s.promises = p :: promises)
      (accepted : s.preExecutor.enqueue (b, i) = .accepted pool) :
      Move s .work { (s.setBatch b { x with prms := x.prms ++ [p], pre := x.pre ++ [.queued (img, i)] }).turn
        (.fill b size (i + 1)) with inputs := inputs, promises := promises, preExecutor := pool }
  | enqueueInfer {b : Nat} {x : Batch R} {pool : ThreadPool Nat} (at_ : s.worker = .enqueueInfer b)
      (hx : s.batches[b]? = some x) (accepted : s.inferExecutor.enqueue b = .accepted pool) :
      Move s .work { (s.setBatch b { x with infer := .queued () }).turn .again with inferExecutor := pool }
  | takePre {b i : Nat} {x : Batch R} {a : Img × Nat} {pool : ThreadPool (Nat × Nat)}
      (taken : s.preExecutor.take = some ((b, i), pool)) (hx : s.batches[b]? = some x)
      (at_ : x.pre[i]? = some (.queued a)) :
      Move s (.take .pre) { s.setBatch b { x with pre := x.pre.set i (.start a) } with preExecutor := pool }
  | takeInfer {b : Nat} {x : Batch R} {pool : ThreadPool Nat} (taken : s.inferExecutor.take = some (b, pool))
      (hx : s.batches[b]? = some x) (at_ : x.infer = .queued ()) :
      Move s (.take .infer) { s.setBatch b { x with infer := .start () } with inferExecutor := pool }
  | takePost {b : Nat} {x : Batch R} {out : M} {pool : ThreadPool Nat} (taken : s.postExecutor.take = some (b, pool))
      (hx : s.batches[b]? = some x) (at_ : x.post = .queued out) :
      Move s (.take .post) { s.setBatch b { x with post := .start out } with postExecutor := pool }
  | startPre {b i : Nat} {c : C} {x : Batch R} {a : Img × Nat} (hx : s.batches[b]? = some x)
      (at_ : x.pre[i]? = some (.start a)) :
      Move s (.advancePre b i c) (s.setBatch b { x with pre := x.pre.set i (.execute (R.preprocess.start a)) })
  | runPre {b i : Nat} {c : C} {x : Batch R} {l : R.preprocess.Local}
      {y : (B × T) × (R.preprocess.Local ⊕ Except ε Unit)} (hx : s.batches[b]? = some x)
      (at_ : x.pre[i]? = some (.execute l)) (stepped : R.preprocess.step c (s.backend, x.tenbuf) l = some y) :
      Move s (.advancePre b i c)
        { s.setBatch b { x with tenbuf := y.1.2, pre := x.pre.set i (.ofStep y.2) } with backend := y.1.1 }
  | returnPre {b i : Nat} {c : C} {x : Batch R} {r : Except ε Unit} (hx : s.batches[b]? = some x)
      (at_ : x.pre[i]? = some (.returned r)) :
      Move s (.advancePre b i c) (s.setBatch b { x with pre := x.pre.set i (.ending r) })
  | endPre {b i : Nat} {c : C} {x : Batch R} {r : Except ε Unit} (hx : s.batches[b]? = some x)
      (at_ : x.pre[i]? = some (.ending r)) :
      Move s (.advancePre b i c) { s.setBatch b { x with pre := x.pre.set i (.finished r) } with
        preExecutor := s.preExecutor.finish (b, i) }
  | startInfer {b : Nat} {c : C} {x : Batch R} (hx : s.batches[b]? = some x) (at_ : x.infer = .start ()) :
      Move s (.advanceInfer b c) (s.setBatch b { x with infer := .execute (.inl 0) })
  | get {b i : Nat} {c : C} {x : Batch R} {t : Task (Img × Nat) R.preprocess.Local Unit ε}
      (hx : s.batches[b]? = some x) (at_ : x.infer = .execute (.inl i)) (ht : x.pre[i]? = some t)
      (ok : t.outcome = some (.ok ())) :
      Move s (.advanceInfer b c) (s.setBatch b { x with infer := .execute (.inl (i + 1)) })
  | rethrow {b i : Nat} {c : C} {x : Batch R} {t : Task (Img × Nat) R.preprocess.Local Unit ε} {e : ε}
      (hx : s.batches[b]? = some x) (at_ : x.infer = .execute (.inl i)) (ht : x.pre[i]? = some t)
      (error : t.outcome = some (.error e)) :
      Move s (.advanceInfer b c) (s.setBatch b { x with infer := .returned (.error e) })
  | callInfer {b i : Nat} {c : C} {x : Batch R} (hx : s.batches[b]? = some x) (at_ : x.infer = .execute (.inl i))
      (all : x.pre[i]? = none) :
      Move s (.advanceInfer b c) (s.setBatch b { x with infer := .execute (.inr (R.infer.start x.tenbuf)) })
  | runInfer {b : Nat} {c : C} {x : Batch R} {l : R.infer.Local} {y : B × (R.infer.Local ⊕ Except ε M)}
      (hx : s.batches[b]? = some x) (at_ : x.infer = .execute (.inr l))
      (stepped : R.infer.step c s.backend l = some y) :
      Move s (.advanceInfer b c)
        { s.setBatch b { x with infer := .ofStep (y.2.map .inr id) } with backend := y.1 }
  | hop {b : Nat} {c : C} {x : Batch R} {out : M} {pool : ThreadPool Nat} (hx : s.batches[b]? = some x)
      (at_ : x.infer = .returned (.ok out)) (accepted : s.postExecutor.enqueue b = .accepted pool) :
      Move s (.advanceInfer b c)
        { s.setBatch b { x with infer := .ending (.ok out), post := .queued out } with postExecutor := pool }
  | drop {b : Nat} {c : C} {x : Batch R} {out : M} (hx : s.batches[b]? = some x)
      (at_ : x.infer = .returned (.ok out)) (threw : s.postExecutor.enqueue b = .threw) :
      Move s (.advanceInfer b c)
        { s.setBatch b { x with infer := .ending (.ok out) } with backend := R.destroyOutput out s.backend }
  | misuse {b : Nat} {c : C} {x : Batch R} {out : M} (hx : s.batches[b]? = some x)
      (at_ : x.infer = .returned (.ok out)) (dead : s.postExecutor.enqueue b = .undefined) :
      Move s (.advanceInfer b c) { s with undefined := true }
  | throwInfer {b : Nat} {c : C} {x : Batch R} {e : ε} (hx : s.batches[b]? = some x)
      (at_ : x.infer = .returned (.error e)) :
      Move s (.advanceInfer b c) { s.setBatch b { x with infer := .ending (.error e) } with
        promise := setEach s.promise (x.prms.map (·, .error (.stage e))) }
  | endInfer {b : Nat} {c : C} {x : Batch R} {r : Except ε M} (hx : s.batches[b]? = some x)
      (at_ : x.infer = .ending r) :
      Move s (.advanceInfer b c) { s.setBatch b { x with infer := .finished r } with
        inferExecutor := s.inferExecutor.finish b }
  | startPost {b : Nat} {c : C} {x : Batch R} {out : M} (hx : s.batches[b]? = some x) (at_ : x.post = .start out) :
      Move s (.advancePost b c) (s.setBatch b { x with post := .execute (R.postprocess.start out) })
  | runPost {b : Nat} {c : C} {x : Batch R} {l : R.postprocess.Local}
      {y : B × (R.postprocess.Local ⊕ Except ε (Outputs R.batchSize O))} (hx : s.batches[b]? = some x)
      (at_ : x.post = .execute l) (stepped : R.postprocess.step c s.backend l = some y) :
      Move s (.advancePost b c) { s.setBatch b { x with post := .ofStep y.2 } with backend := y.1 }
  | deliver {b : Nat} {c : C} {x : Batch R} {outs : Outputs R.batchSize O} (hx : s.batches[b]? = some x)
      (at_ : x.post = .returned (.ok outs)) :
      Move s (.advancePost b c) { s.setBatch b { x with post := .ending (.ok outs) } with
        promise := setEach s.promise (x.prms.zip (outs.1.map .ok)) }
  | throwPost {b : Nat} {c : C} {x : Batch R} {e : ε} (hx : s.batches[b]? = some x)
      (at_ : x.post = .returned (.error e)) :
      Move s (.advancePost b c) { s.setBatch b { x with post := .ending (.error e) } with
        promise := setEach s.promise (x.prms.map (·, .error (.stage e))) }
  | endPost {b : Nat} {c : C} {x : Batch R} {r : Except ε (Outputs R.batchSize O)} (hx : s.batches[b]? = some x)
      (at_ : x.post = .ending r) :
      Move s (.advancePost b c) { s.setBatch b { x with post := .finished r } with
        postExecutor := s.postExecutor.finish b
        backend := x.infer.output.elim s.backend fun out => R.destroyOutput out s.backend }
  | destroyStart (alive : s.teardown = none) : Move s .destroy { s with teardown := some destructor }
  | close {rest : List Teardown} (todo : s.teardown = some (.close :: rest)) (free : s.MutexFree) :
      Move s .destroy { s with isClose := true, teardown := some rest }
  | joinWorker {rest : List Teardown} (todo : s.teardown = some (.joinWorker :: rest)) (exited : s.worker = .exited) :
      Move s .destroy { s with teardown := some rest }
  | stopPre {rest : List Teardown} (todo : s.teardown = some (.stop .pre :: rest)) :
      Move s .destroy { s with preExecutor := s.preExecutor.stop, teardown := some rest }
  | stopInfer {rest : List Teardown} (todo : s.teardown = some (.stop .infer :: rest)) :
      Move s .destroy { s with inferExecutor := s.inferExecutor.stop, teardown := some rest }
  | stopPost {rest : List Teardown} (todo : s.teardown = some (.stop .post :: rest)) :
      Move s .destroy { s with postExecutor := s.postExecutor.stop, teardown := some rest }
  | joinPre {rest : List Teardown} {pool : ThreadPool (Nat × Nat)} (todo : s.teardown = some (.join .pre :: rest))
      (joined : s.preExecutor.join = some pool) :
      Move s .destroy { s with preExecutor := pool, teardown := some rest }
  | joinInfer {rest : List Teardown} {pool : ThreadPool Nat} (todo : s.teardown = some (.join .infer :: rest))
      (joined : s.inferExecutor.join = some pool) :
      Move s .destroy { s with inferExecutor := pool, teardown := some rest }
  | joinPost {rest : List Teardown} {pool : ThreadPool Nat} (todo : s.teardown = some (.join .post :: rest))
      (joined : s.postExecutor.join = some pool) :
      Move s .destroy { s with postExecutor := pool, teardown := some rest }
  | destroyQueues {rest : List Teardown} (todo : s.teardown = some (.destroyQueues :: rest)) :
      Move s .destroy { s with inputs := [], promises := [], teardown := some rest }

private theorem wake_turn (s : State R) (at_ : s.worker = .wait) : ∃ w, wake s = s.turn w ∧ Turn s w := by
  unfold wake
  refine ⟨_, rfl, ?_⟩
  by_cases hready : R.batchSize ≤ s.inputs.length
  · simp only [hready, decide_true, Bool.true_or, if_true]
    exact .ready at_ (.inl hready)
  · by_cases hc : s.isClose = false ∧ s.inputs ≠ []
    · simp only [hready, hc.1, List.isEmpty_eq_false_iff.2 hc.2, decide_false, Bool.or_false, Bool.not_false,
        Bool.and_true, Bool.or_true, if_true]
      exact .ready at_ (.inr hc)
    · have hidle : (!s.isClose && !s.inputs.isEmpty) = false := by
        rcases Bool.eq_false_or_eq_true s.isClose with hcl | hcl
        · simp [hcl]
        · have : s.inputs = [] := by
            by_contra hne
            exact hc ⟨hcl, hne⟩
          simp [this]
      simp only [hready, decide_false, Bool.false_or, hidle, Bool.false_eq_true, if_false]
      exact .idle at_ (Nat.lt_of_not_le hready)

private theorem move_of_work {s s' : State R} (h : work s = some s') : Move s .work s' := by
  unfold work at h
  split at h
  · cases h
    obtain ⟨w, hw, ht⟩ := wake_turn s ‹_›
    rw [hw]
    exact .turn ht
  · rename_i hw
    rw [Option.map_eq_some_iff] at h
    obtain ⟨⟨tenbuf, backend⟩, hgot, rfl⟩ := h
    have hv := R.valid_of_getTensorBuffer hgot
    by_cases hshort : min R.batchSize s.inputs.length = 0 ∨ s.promises.length < min R.batchSize s.inputs.length
    · rw [if_pos (by simpa [hv] using hshort)]
      exact .breakOut hw hgot hshort
    · rw [if_neg (by simpa [hv] using hshort)]
      exact .acquire hw hgot (Nat.pos_of_ne_zero fun h0 => hshort (.inl h0))
        (Nat.le_of_not_lt fun hlt => hshort (.inr hlt))
  · rename_i b size i hw
    split at h
    · split at h <;> cases h
      exact .fill hw ‹_› ‹_› ‹_› ‹_› ‹_›
    · cases h
      exact .turn (.filled hw (Nat.le_of_not_lt ‹_›))
  · rename_i b hw
    split at h <;> cases h
    exact .enqueueInfer hw ‹_› ‹_›
  · rename_i hw
    cases h
    split
    · exact .turn (.again hw ‹_›)
    · exact .turn (.leave hw (Nat.lt_of_not_le ‹_›))
  · rename_i hw
    cases h
    split
    · exact .turn (.exit hw ‹_›)
    · exact .turn (.loop hw (Bool.eq_false_iff.2 ‹_›))
  · cases h

private theorem move_of_take {s s' : State R} {k : StageId} (h : take s k = some s') : Move s (.take k) s' := by
  cases k with
  | pre =>
    simp only [take, Option.bind_eq_bind, Option.bind_eq_some_iff] at h
    obtain ⟨⟨⟨b, i⟩, pool⟩, ht, x, hx, h⟩ := h
    split at h <;> cases h
    exact .takePre ht hx ‹_›
  | infer =>
    simp only [take, Option.bind_eq_bind, Option.bind_eq_some_iff] at h
    obtain ⟨⟨b, pool⟩, ht, x, hx, h⟩ := h
    split at h <;> cases h
    exact .takeInfer ht hx ‹_›
  | post =>
    simp only [take, Option.bind_eq_bind, Option.bind_eq_some_iff] at h
    obtain ⟨⟨b, pool⟩, ht, x, hx, h⟩ := h
    split at h <;> cases h
    exact .takePost ht hx ‹_›

private theorem move_of_advancePre {s s' : State R} {b i : Nat} {c : C} (h : advancePre s b i c = some s') :
    Move s (.advancePre b i c) s' := by
  simp only [advancePre, Option.bind_eq_bind, Option.bind_eq_some_iff] at h
  obtain ⟨x, hx, h⟩ := h
  split at h
  · cases h
    exact .startPre hx ‹_›
  · rw [Option.map_eq_some_iff] at h
    obtain ⟨y, hy, rfl⟩ := h
    exact .runPre hx ‹_› hy
  · cases h
    exact .returnPre hx ‹_›
  · cases h
    exact .endPre hx ‹_›
  · cases h

private theorem move_of_advanceInfer {s s' : State R} {b : Nat} {c : C} (h : advanceInfer s b c = some s') :
    Move s (.advanceInfer b c) s' := by
  simp only [advanceInfer, Option.bind_eq_bind, Option.bind_eq_some_iff] at h
  obtain ⟨x, hx, h⟩ := h
  split at h
  · cases h
    exact .startInfer hx ‹_›
  · split at h
    · split at h <;> cases h
      · exact .get hx ‹_› ‹_› ‹_›
      · exact .rethrow hx ‹_› ‹_› ‹_›
    · cases h
      exact .callInfer hx ‹_› ‹_›
  · rw [Option.map_eq_some_iff] at h
    obtain ⟨y, hy, rfl⟩ := h
    exact .runInfer hx ‹_› hy
  · split at h <;> cases h
    · exact .hop hx ‹_› ‹_›
    · exact .drop hx ‹_› ‹_›
    · exact .misuse hx ‹_› ‹_›
  · cases h
    exact .throwInfer hx ‹_›
  · cases h
    exact .endInfer hx ‹_›
  · cases h

private theorem move_of_advancePost {s s' : State R} {b : Nat} {c : C} (h : advancePost s b c = some s') :
    Move s (.advancePost b c) s' := by
  simp only [advancePost, Option.bind_eq_bind, Option.bind_eq_some_iff] at h
  obtain ⟨x, hx, h⟩ := h
  split at h
  · cases h
    exact .startPost hx ‹_›
  · rw [Option.map_eq_some_iff] at h
    obtain ⟨y, hy, rfl⟩ := h
    exact .runPost hx ‹_› hy
  · cases h
    exact .deliver hx ‹_›
  · cases h
    exact .throwPost hx ‹_›
  · cases h
    exact .endPost hx ‹_›
  · cases h

private theorem move_of_destroy {s s' : State R} (h : destroy s = some s') : Move s .destroy s' := by
  unfold destroy at h
  split at h
  · cases h
    exact .destroyStart ‹_›
  · cases h
  · split at h <;> cases h
    exact .close ‹_› ‹_›
  · split at h <;> cases h
    exact .joinWorker ‹_› ‹_›
  · cases h
    exact .stopPre ‹_›
  · cases h
    exact .stopInfer ‹_›
  · cases h
    exact .stopPost ‹_›
  · rw [Option.map_eq_some_iff] at h
    obtain ⟨pool, hpool, rfl⟩ := h
    exact .joinPre ‹_› hpool
  · rw [Option.map_eq_some_iff] at h
    obtain ⟨pool, hpool, rfl⟩ := h
    exact .joinInfer ‹_› hpool
  · rw [Option.map_eq_some_iff] at h
    obtain ⟨pool, hpool, rfl⟩ := h
    exact .joinPost ‹_› hpool
  · cases h
    exact .destroyQueues ‹_›

/-- Every step is one of the moves. -/
theorem Move.of_step {s s' : State R} {l : Label Img C} (h : step s l = some s') :
    s.undefined = false ∧ Move s l s' := by
  unfold step at h
  split at h
  · cases h
  · rename_i hu
    refine ⟨by simpa using hu, ?_⟩
    split at h
    · unfold BatchScheduler.submit at h
      split at h <;> cases h
      rename_i hfree
      exact .submit hfree.1 hfree.2
    · exact move_of_work h
    · exact move_of_take h
    · exact move_of_advancePre h
    · exact move_of_advanceInfer h
    · exact move_of_advancePost h
    · exact move_of_destroy h

end OnnxInference.BatchScheduler
