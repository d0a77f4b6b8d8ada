import OnnxInference.Backend.CudaPools
import OnnxInference.Scheduler.AsyncDelivery

/-!
# The input buffers of an asynchronous scheduler

A request owns an input buffer from `GetTensorBuffer` in its preprocess task until `infer` releases it.  The buffer is
lost if the inference task is refused by its executor or ends with an exception.
-/

namespace OnnxInference.AsyncScheduler

open Concurrency Transition CudaRunner

variable {D C V X Img O : Type} {R : CudaRunner D C V X Img O}

/-! ### Who owns an input buffer -/

namespace Request

variable (q : Request R.toRunner)

/-- The input buffers the request owns: that of its preprocess task, then that of its inference task. -/
def owned : Multiset Ptr :=
  ((preHeld q.pre).toList : Multiset Ptr) +
    q.pre.output.elim 0 fun tenbuf => unit tenbuf.data (Keeps InferAt.released q.infer)

/-- The input buffers the request will never release. -/
def lost : Multiset Ptr :=
  q.pre.output.elim 0 fun tenbuf => unit tenbuf.data (decide (q.infer.status = .idle) || Fails q.infer)

def stock : Multiset Ptr := q.owned + q.lost

variable {q}

theorem stock_congr {q' : Request R.toRunner} (hpre : q'.pre = q.pre) (hinfer : q'.infer = q.infer) :
    q'.stock = q.stock := by
  simp only [stock, owned, lost, hpre, hinfer]

/-- While preprocess is under way the request has what its task holds. -/
theorem stock_of_outcome (h : q.pre.outcome = none) : q.stock = ((preHeld q.pre).toList : Multiset Ptr) := by
  have hout : q.pre.output = none := by rw [Task.output, h]
  simp [stock, owned, lost, hout]

/-- When preprocess has returned a tensor the request has its buffer until the inference task releases it. -/
theorem stock_of_tensor {tenbuf : R.Tensor} (hpre : q.pre.outcome = some (.ok tenbuf)) :
    q.stock = unit tenbuf.data (Keeps InferAt.released q.infer) +
      unit tenbuf.data (decide (q.infer.status = .idle) || Fails q.infer) := by
  have hheld : preHeld q.pre = none := by
    rcases hp : q.pre with _ | _ | _ | _ | r | r | r <;> rw [hp] at hpre <;> first | rfl | cases hpre
  have hout : q.pre.output = some tenbuf := by rw [Task.output, hpre]
  simp [stock, owned, lost, hheld, hout]

/-- Before and after a step of the call of `infer`. -/
theorem stock_execute {tenbuf : R.Tensor} (hpre : q.pre.outcome = some (.ok tenbuf)) {l : InferAt R.Tensor X}
    (at_ : q.infer = .execute l) : q.stock = unit tenbuf.data !l.released := by
  rw [stock_of_tensor hpre, at_]
  exact add_zero _

theorem stock_ofStep {tenbuf : R.Tensor} (hpre : q.pre.outcome = some (.ok tenbuf))
    (y : InferAt R.Tensor X ⊕ Except Error (DeviceOutput X)) :
    ({ q with infer := .ofStep y } : Request R.toRunner).stock =
      unit tenbuf.data (Keeps InferAt.released (.ofStep y : Task Unit _ _ _)) := by
  rw [stock_of_tensor (by exact hpre)]
  rcases y with l | e | out <;> exact add_zero _

end Request

/-- The input buffers are in the pool, owned by a request, or lost. -/
structure Stocked (s : State R.toRunner) : Prop where
  backend : s.backend.Of R.bufferSize
  balance : (s.backend.pool.buffer : Multiset Ptr) + ∑ r ∈ Finset.range s.images.length, (s.request r).stock =
    Multiset.range R.bufferSize

theorem Stocked.setRequest {s s' : State R.toRunner} (h : Stocked s) (hi : Inv s) {r : Nat} {q : Request R.toRunner}
    (hr : (s.request r).pre.status ≠ .idle) (hreq : s'.request = Function.update s.request r q)
    (himg : s'.images = s.images) (hbe : s'.backend.Of R.bufferSize)
    (hmove : (s'.backend.pool.buffer : Multiset Ptr) + q.stock = s.backend.pool.buffer + (s.request r).stock) :
    Stocked s' := by
  refine ⟨hbe, ?_⟩
  rw [hreq, himg, Ledger.total_update Request.stock ((hi.submitted r).2 hr) hmove]
  exact h.balance

/-- A change of a request that leaves the pool of input buffers and what it owns as they are. -/
theorem Stocked.keep {s s' : State R.toRunner} (h : Stocked s) (hi : Inv s) {r : Nat} {q : Request R.toRunner}
    (hr : (s.request r).pre.status ≠ .idle) (hreq : s'.request = Function.update s.request r q)
    (himg : s'.images = s.images) (hbe : s'.backend.Of R.bufferSize) (hpool : s'.backend.pool = s.backend.pool)
    (hstock : q.stock = (s.request r).stock) : Stocked s' :=
  h.setRequest hi hr hreq himg hbe (by rw [hpool, hstock])

theorem Stocked.congr {s s' : State R.toRunner} (h : Stocked s) (hreq : s'.request = s.request)
    (himg : s'.images = s.images) (hbe : s'.backend = s.backend) : Stocked s' := by
  refine ⟨hbe ▸ h.backend, ?_⟩
  rw [hreq, himg, hbe]
  exact h.balance

/-- The preprocess task of a request whose inference task exists has returned a tensor. -/
theorem Request.Sound.exists_tensor {q : Request R.toRunner} (h : q.Sound) (hne : q.infer.status ≠ .idle) :
    ∃ tenbuf, q.pre.outcome = some (.ok tenbuf) := by
  by_contra hno
  exact hne (h.infer_idle fun tenbuf ht => hno ⟨tenbuf, ht⟩)

theorem Request.Sound.exists_output {q : Request R.toRunner} (h : q.Sound) (hne : q.post.status ≠ .idle) :
    ∃ out, q.infer.outcome = some (.ok out) := by
  by_contra hno
  exact hne (h.post_idle fun out ho => hno ⟨out, ho⟩)

theorem status_ne_idle_of_outcome {I L O' : Type} {t : Task I L O' Error} {r : Except Error O'}
    (h : t.outcome = some r) : t.status ≠ .idle := by
  intro hidle
  rw [Task.outcome_of_idle hidle] at h
  cases h

/-- The tensor of the call of `infer` is that which preprocess has returned. -/
theorem Request.Own.inferAt_of {q : Request R.toRunner} {img : Img} (h : q.Own img) {tenbuf : R.Tensor}
    (hpre : q.pre.outcome = some (.ok tenbuf)) {l : InferAt R.Tensor X} (at_ : q.infer = .execute l) :
    l.Of tenbuf := by
  have hi := h.infer tenbuf hpre
  rw [at_] at hi
  exact CudaRunner.inferAt_of hi

theorem Stocked.step {s s' : State R.toRunner} {l : Label Img C} (h : Stocked s) (hi : Inv s)
    (hown : ∀ r img, s.images[r]? = some img → (s.request r).Own img) (hm : Move s l s') : Stocked s' := by
  have hbe := h.backend
  have hpre_of_infer : ∀ r, (s.request r).infer.status ≠ .idle → (s.request r).pre.status ≠ .idle := by
    intro r hne
    obtain ⟨tenbuf, ht⟩ := (hi.sound r).exists_tensor hne
    exact status_ne_idle_of_outcome ht
  have hpre_of_post : ∀ r, (s.request r).post.status ≠ .idle → (s.request r).pre.status ≠ .idle := by
    intro r hne
    obtain ⟨out, ho⟩ := (hi.sound r).exists_output hne
    exact hpre_of_infer r (status_ne_idle_of_outcome ho)
  cases hm with
  | misuse | destroyStart | stop | join | destroyStage => exact h.congr rfl rfl rfl
  | @submit img p =>
    refine ⟨hbe, ?_⟩
    have hsame : ∀ r ∈ Finset.range s.images.length, (Function.update s.request s.images.length
        { s.request s.images.length with pre := .queued img } r).stock = (s.request r).stock := by
      intro r hr
      rw [Function.update_of_ne (Nat.ne_of_lt (Finset.mem_range.1 hr))]
    have hnew : ({ s.request s.images.length with pre := .queued img } : Request R.toRunner).stock = 0 :=
      Request.stock_of_outcome rfl
    rw [List.length_append, List.length_singleton, Finset.sum_range_succ]
    simp only [State.setRequest, State.setExecutor]
    rw [Finset.sum_congr rfl hsame, Function.update_self, hnew, add_zero]
    exact h.balance
  | takePre _ at_ | startPre at_ | throwPre at_ | endPre at_ | hopPre at_ =>
    refine h.keep hi (by simp [at_]) rfl rfl hbe rfl ?_
    simp [Request.stock, Request.owned, Request.lost, at_, preHeld, Task.output, Keeps, Fails]
  | @stoppedPre r c tenbuf at_ =>
    have hidle : (s.request r).infer.status = .idle := (hi.sound r).infer_idle (by simp [at_])
    have hkeeps : Keeps InferAt.released (s.request r).infer = false := by
      rcases hq : (s.request r).infer <;> rw [hq] at hidle <;> first | rfl | cases hidle
    refine h.keep hi (by simp [at_]) rfl rfl hbe rfl ?_
    simp [Request.stock, Request.owned, Request.lost, at_, preHeld, Task.output, hidle, hkeeps]
  | @runPre r c l x at_ stepped =>
    obtain ⟨hbe', hmove⟩ := preprocess_keeps stepped hbe
    refine h.setRequest hi (by simp [at_]) rfl rfl hbe' ?_
    have hbefore : (s.request r).pre.outcome = none := by rw [at_, Task.outcome_execute]
    rw [Request.stock_of_outcome hbefore, at_, Request.stock_of_outcome (Task.outcome_ofStep x.2)]
    exact hmove
  | takeInfer _ at_ | startInfer at_ | hopInfer at_ | throwInfer at_ =>
    obtain ⟨tenbuf, ht⟩ := (hi.sound _).exists_tensor (by rw [at_]; simp)
    refine h.keep hi (status_ne_idle_of_outcome ht) rfl rfl hbe rfl ?_
    rw [Request.stock_of_tensor ht, Request.stock_of_tensor (by exact ht)]
    simp [at_, Keeps, Fails, InferAt.released]
  | @endInfer r c o at_ =>
    obtain ⟨tenbuf, ht⟩ := (hi.sound r).exists_tensor (by simp [at_])
    refine h.keep hi (status_ne_idle_of_outcome ht) rfl rfl hbe rfl ?_
    rw [Request.stock_of_tensor ht, Request.stock_of_tensor (by exact ht)]
    rcases o with e | out <;> simp [at_, Keeps, Fails]
  | @stoppedInfer r c out at_ =>
    obtain ⟨tenbuf, ht⟩ := (hi.sound r).exists_tensor (by simp [at_])
    refine h.keep hi (status_ne_idle_of_outcome ht) rfl rfl (destroyOutput_of hbe _) (destroyOutput_pool _ _) ?_
    rw [Request.stock_of_tensor ht, Request.stock_of_tensor (by exact ht)]
    simp [at_, Keeps, Fails]
  | @runInfer r c l x at_ stepped =>
    obtain ⟨tenbuf, ht⟩ := (hi.sound r).exists_tensor (by simp [at_])
    have hr := status_ne_idle_of_outcome ht
    have hlt := (hi.submitted r).2 hr
    have hmove := InferMove.of_step stepped
    refine h.setRequest hi hr rfl rfl (hmove.backend_of hbe) ?_
    rw [Request.stock_execute ht at_, Request.stock_ofStep ht]
    exact hmove.pool_eq ((hown r _ (List.getElem?_eq_getElem hlt)).inferAt_of ht at_)
  | takePost _ at_ | startPost at_ | throwPost at_ | deliver at_ =>
    exact h.keep hi (hpre_of_post _ (by simp [at_])) rfl rfl hbe rfl (Request.stock_congr rfl rfl)
  | runPost at_ stepped =>
    have hmove := PostMove.of_step stepped
    exact h.keep hi (hpre_of_post _ (by simp [at_])) rfl rfl (hmove.backend_of hbe) hmove.pool_eq
      (Request.stock_congr rfl rfl)
  | endPost at_ =>
    exact h.keep hi (hpre_of_post _ (by simp [at_])) rfl rfl (elim_destroyOutput_of hbe _) (elim_destroyOutput_pool _ _)
      (Request.stock_congr rfl rfl)

theorem Stocked.init (device : D) : Stocked (init R.toRunner (R.backend device)) := by
  refine ⟨CudaRunner.backend_of device, (add_zero _).trans ?_⟩
  rw [AsyncScheduler.init, backend_pool]
  rfl

theorem reachable_stocked {device : D} {s : State R.toRunner}
    (h : (system R.toRunner (R.backend device)).Reachable s) : Stocked s := by
  induction h with
  | init => exact Stocked.init device
  | step hr _ hs ih => exact ih.step (reachable_inv hr) (reachable_own hr) (Move.of_step hs).2

/-- What a request owns or has lost is a buffer of the pool. -/
theorem Stocked.data_lt {s : State R.toRunner} (h : Stocked s) {r : Nat} (hr : r < s.images.length) {p : Ptr}
    (hp : p ∈ (s.request r).stock) : p < R.bufferSize := by
  have hsum : p ∈ ∑ r ∈ Finset.range s.images.length, (s.request r).stock :=
    Multiset.mem_sum.2 ⟨r, Finset.mem_range.2 hr, hp⟩
  have hmem : p ∈ (s.backend.pool.buffer : Multiset Ptr) + ∑ r ∈ Finset.range s.images.length, (s.request r).stock :=
    Multiset.mem_add.2 (.inr hsum)
  rw [h.balance] at hmem
  exact Multiset.mem_range.1 hmem

/-! ### Runs without a failure -/

/-- In this step `session_->Run` does not throw, and no preprocess task finds the inference executor stopped. -/
structure Unfailing (s : State R.toRunner) (l : Label Img C) : Prop where
  run : ∀ (r : Nat) (c : C) (tenbuf : R.Tensor) (out : Ptr) (e : Error), l = .advance .infer r c →
    (s.request r).infer = .execute (.run tenbuf out) → (R.run c s.backend.device tenbuf out).2 ≠ .error e
  enqueue : ∀ (r : Nat) (c : C) (tenbuf : R.Tensor), l = .advance .pre r c →
    (s.request r).pre = .returned (.ok tenbuf) → (s.executor .infer).enqueue r ≠ .threw

/-- The inference task was not refused and has not failed. -/
structure Request.Fine (q : Request R.toRunner) : Prop where
  hopped : ∀ tenbuf, q.pre.outcome = some (.ok tenbuf) → q.infer.status ≠ .idle
  ran : ∀ e, q.infer ≠ .returned (.error e) ∧ q.infer.outcome ≠ some (.error e)

private theorem fine_update {s : State R.toRunner} {r₀ : Nat} {q : Request R.toRunner} (h : ∀ r, (s.request r).Fine)
    (hq : (s.request r₀).Fine → q.Fine) (r : Nat) : (Function.update s.request r₀ q r).Fine := by
  rw [Function.update_apply]
  split
  · exact hq (h r₀)
  · exact h r

theorem Move.fine {s s' : State R.toRunner} {l : Label Img C} (hm : Move s l s') (h : ∀ r, (s.request r).Fine)
    (hi : Inv s) (hown : ∀ r img, s.images[r]? = some img → (s.request r).Own img) (hs : Stocked s)
    (hG : Unfailing s l) : ∀ r, (s'.request r).Fine := by
  cases hm with
  | misuse | destroyStart | stop | join | destroyStage => exact h
  | submit | takePre _ at_ | startPre at_ | throwPre at_ => exact fine_update h fun hq => ⟨nofun, hq.ran⟩
  | runPre => exact fine_update h fun hq => ⟨by simp, hq.ran⟩
  | @endPre r c o at_ =>
    exact fine_update h fun _ => ⟨fun tenbuf ht => (h r).hopped tenbuf (by rw [at_]; exact ht), (h r).ran⟩
  | stoppedPre at_ threw => exact absurd threw (hG.enqueue _ _ _ rfl at_)
  | hopPre => exact fine_update h fun hq => ⟨fun _ _ => nofun, fun e => ⟨nofun, nofun⟩⟩
  | takeInfer | startInfer | hopInfer | stoppedInfer =>
    exact fine_update h fun hq => ⟨fun _ _ => nofun, fun e => ⟨nofun, nofun⟩⟩
  | throwInfer at_ => exact absurd at_ ((h _).ran _).1
  | @endInfer r c o at_ =>
    refine fine_update h fun _ => ⟨fun _ _ => nofun, fun e => ⟨nofun, ?_⟩⟩
    have hne := ((h r).ran e).2
    rwa [at_] at hne
  | @runInfer r c l x at_ stepped =>
    obtain ⟨tenbuf, ht⟩ := (hi.sound r).exists_tensor (by rw [at_]; exact nofun)
    have hlt := (hi.submitted r).2 (status_ne_idle_of_outcome ht)
    have hl := (hown r _ (List.getElem?_eq_getElem hlt)).inferAt_of ht at_
    have hmove := InferMove.of_step stepped
    have hdata : l.released = false → tenbuf.data < R.bufferSize := by
      intro hrel
      refine hs.data_lt hlt ?_
      rw [Request.stock_execute ht at_, hrel]
      exact Multiset.mem_singleton_self _
    have hok := hmove.not_error hl hs.backend hdata fun out e hat => hG.run r c _ out e rfl (hat ▸ at_)
    refine fine_update h fun hq => ⟨fun _ _ => by simp, fun e => ⟨?_, by simp⟩⟩
    obtain ⟨be', l' | e' | o⟩ := x
    · exact nofun
    · exact absurd rfl (hok e')
    · exact nofun
  | takePost | startPost | runPost | throwPost | deliver | endPost =>
    exact fine_update h fun hq => ⟨hq.hopped, hq.ran⟩

theorem unfailing_fine {device : D} {s : State R.toRunner}
    (h : (system R.toRunner (R.backend device)).ReachBy Unfailing s) : ∀ r, (s.request r).Fine := by
  induction h with
  | init => exact fun r => ⟨nofun, fun e => ⟨nofun, nofun⟩⟩
  | step hr hG hs ih =>
    exact (Move.of_step hs).2.fine ih (reachable_inv hr.reachable) (reachable_own hr.reachable)
      (reachable_stocked hr.reachable) hG

/-! ### Conservation -/

namespace Request

variable (q : Request R.toRunner)

/-- The request is in flight and owns an input buffer. -/
def owns : Bool := (preHeld q.pre).isSome || q.pre.output.isSome && Keeps InferAt.released q.infer

/-- The inference task was refused or has ended with an exception. -/
def failed : Bool := q.pre.output.isSome && (decide (q.infer.status = .idle) || Fails q.infer)

/-- The future of the request is ready: its promise has been set, or destroyed with its last task. -/
def Finished : Prop := q.promise ≠ [] ∨ q.Idle

variable {q}

theorem card_stock : q.stock.card = (if q.owns then 1 else 0) + if q.failed then 1 else 0 := by
  have hunit : ∀ (p : Ptr) (b : Bool), (unit p b).card = if b then 1 else 0 := fun p b => by cases b <;> rfl
  rcases hq : q.pre with _ | _ | _ | (_ | _ | _) | (_ | _) | (_ | _) | (_ | _) <;>
    simp [stock, owned, lost, owns, failed, hq, preHeld, Task.output, hunit]

theorem Fine.not_failed (h : q.Fine) : q.failed = false := by
  have hrefused : ∀ tenbuf, q.pre.output = some tenbuf → q.infer.status ≠ .idle := by
    intro tenbuf hout
    refine h.hopped tenbuf ?_
    rcases hq : q.pre with _ | _ | _ | _ | _ | (_ | _) | (_ | _) <;> rw [hq] at hout <;> cases hout <;> rfl
  have hfails : Fails q.infer = false := by
    rcases hq : q.infer with _ | _ | _ | _ | _ | (e | _) | (e | _) <;> try rfl
    · exact absurd (by rw [hq]; rfl) (h.ran e).2
    · exact absurd (by rw [hq]; rfl) (h.ran e).2
  rw [failed, Bool.and_eq_false_iff]
  rcases hout : q.pre.output with _ | tenbuf
  · exact .inl rfl
  · exact .inr (by simp [hrefused tenbuf hout, hfails])

theorem Sound.not_owns (h : q.Sound) (hfin : q.Finished) : q.owns = false := by
  have hkeeps : ∀ {t : Task R.Tensor (InferAt R.Tensor X) (DeviceOutput X) Error}, Keeps InferAt.released t = true →
      t.Pending ∧ t.outcome = none := by
    rintro (_ | _ | _ | _ | (_ | _) | _ | _) hk <;>
      first | exact ⟨.inl rfl, rfl⟩ | exact ⟨.inr rfl, rfl⟩ | simp [Keeps] at hk
  have hheld : ∀ {p : Ptr}, preHeld q.pre = some p → q.pre.Pending ∧ q.pre.outcome = none := by
    intro p hp
    rcases hq : q.pre with _ | _ | _ | (_ | _ | _) | (_ | _) | _ | _ <;> rw [hq] at hp <;>
      first | exact ⟨.inr rfl, rfl⟩ | cases hp
  have hprom : q.promise ≠ [] ∨ q.Idle := hfin
  rw [h.promise_eq] at hprom
  rw [owns, Bool.or_eq_false_iff, Bool.and_eq_false_iff]
  refine ⟨?_, ?_⟩
  · by_contra hsome
    obtain ⟨p, hp⟩ := Option.isSome_iff_exists.1 (Bool.not_eq_false _ ▸ hsome)
    obtain ⟨hpend, hnone⟩ := hheld hp
    rcases hprom with hne | hidle
    · exact hne (by simp [calls, hnone])
    · exact hidle.1 hpend
  · by_contra hno
    rw [not_or, Bool.not_eq_false, Bool.not_eq_false] at hno
    obtain ⟨hpend, hnone⟩ := hkeeps hno.2
    have hstatus : q.infer.status ≠ .idle := by
      rcases hpend with hs | hs <;> rw [hs] <;> decide
    obtain ⟨tenbuf, ht⟩ := h.exists_tensor hstatus
    rcases hprom with hne | hidle
    · exact hne (by simp [calls, ht, hstatus, hnone])
    · exact hidle.2.1 hpend

end Request

/-- In every run an input buffer is free, owned by a request in flight, or lost. -/
theorem Stocked.count {s : State R.toRunner} (h : Stocked s) :
    s.backend.pool.available + ((Finset.range s.images.length).filter fun r => (s.request r).owns).card +
      ((Finset.range s.images.length).filter fun r => (s.request r).failed).card = R.bufferSize := by
  have hcard := congrArg Multiset.card h.balance
  rw [Multiset.card_add, Multiset.coe_card, Multiset.card_range, Multiset.card_sum,
    Finset.sum_congr rfl fun r _ => Request.card_stock, Finset.sum_add_distrib, ← Finset.card_filter,
    ← Finset.card_filter] at hcard
  rw [InferTensorBufferPool.available]
  omega

/-- The free input buffers and the requests in flight that own one are as many as there are buffers, and all buffers are
free once every request has finished. -/
structure Conserved (s : State R.toRunner) : Prop where
  balance : s.backend.pool.available + ((Finset.range s.images.length).filter fun r => (s.request r).owns).card =
    R.bufferSize
  all_free : (∀ r < s.images.length, (s.request r).Finished) → s.backend.pool.available = R.bufferSize

theorem conserved {device : D} {s : State R.toRunner}
    (h : (system R.toRunner (R.backend device)).ReachBy Unfailing s) : Conserved s := by
  have hcount := (reachable_stocked h.reachable).count
  have hnone : ((Finset.range s.images.length).filter fun r => (s.request r).failed) = ∅ := by
    refine Finset.filter_eq_empty_iff.2 fun r _ => ?_
    rw [(unfailing_fine h r).not_failed]
    exact Bool.false_ne_true
  rw [hnone, Finset.card_empty, Nat.add_zero] at hcount
  refine ⟨hcount, fun hall => ?_⟩
  have howns : ((Finset.range s.images.length).filter fun r => (s.request r).owns) = ∅ := by
    refine Finset.filter_eq_empty_iff.2 fun r hr => ?_
    rw [((reachable_inv h.reachable).sound r).not_owns (hall r (Finset.mem_range.1 hr))]
    exact Bool.false_ne_true
  rw [howns, Finset.card_empty, Nat.add_zero] at hcount
  exact hcount

end OnnxInference.AsyncScheduler
