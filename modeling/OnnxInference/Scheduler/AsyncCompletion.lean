import OnnxInference.Scheduler.AsyncOutputs
import OnnxInference.Scheduler.BatchProgress

/-!
# Requests that are answered, and requests that never are

Every inference task that ends with an exception loses an input buffer.  As long as one is left, and no thread waits
for ever in a stage of the runner, the scheduler answers every request: between two calls of `submit` it takes a
bounded number of steps, and it stands still only when no task is under way (`completes`).  When the last one is lost,
no request that has not got a buffer before will ever get one, and the destructor waits for ever for its preprocess
task (`starves`).
-/

namespace OnnxInference.AsyncScheduler

open Concurrency Transition CudaRunner

variable {D C V X Img O : Type} {R : CudaRunner D C V X Img O}

/-! ### A bound on the steps -/

/-- No call of the runner's own preprocess runs for ever. -/
structure PreBounds (R : CudaRunner D C V X Img O) where
  prepare : R.prepare.StepBound
  upload : R.upload.StepBound
  uploadSteps : Nat
  uploadSteps_le : ∀ v data, upload.rank (R.upload.start (v, data)) ≤ uploadSteps

def PreBounds.rank (h : PreBounds R) : PreAt R.prepare.Local R.upload.Local V → Nat
  | .prepare l => h.prepare.rank l + h.uploadSteps + 2
  | .acquire _ => h.uploadSteps + 1
  | .upload _ l => h.upload.rank l

theorem PreBounds.rank_lt (h : PreBounds R) {c : C} {be be' : CudaBackend D}
    {l l' : PreAt R.prepare.Local R.upload.Local V} (hs : R.preprocessProg.step c be l = some (be', .inl l')) :
    h.rank l' < h.rank l := by
  cases l with
  | prepare l =>
    simp only [preprocessProg, Option.map_eq_some_iff, Prod.mk.injEq] at hs
    obtain ⟨⟨device, l'' | e | v⟩, hstep, -, heq⟩ := hs <;> cases heq
    · have hlt := h.prepare.lt hstep
      simp only [rank]
      omega
    · simp only [rank]
      omega
  | acquire v =>
    simp only [preprocessProg, getTensorBuffer, Option.map_map, Option.map_eq_some_iff, Function.comp,
      Prod.mk.injEq] at hs
    obtain ⟨⟨data, pool⟩, -, -, heq⟩ := hs
    cases heq
    have hle := h.uploadSteps_le v data
    simp only [rank]
    exact Nat.lt_succ_of_le hle
  | upload data l =>
    simp only [preprocessProg, Option.map_eq_some_iff, Prod.mk.injEq] at hs
    obtain ⟨⟨device, l'' | e | params⟩, hstep, -, heq⟩ := hs
    · cases heq
      exact h.upload.lt hstep
    · exact e.elim
    · cases heq

def postprocessBound {O' : Type} (f : Outputs R.batch O → O') : (R.postprocessProg f).StepBound where
  rank
    | .body _ l => R.postprocessBound.rank l + 1
    | .destroy _ _ => 0
  lt := by
    rintro c be be' (⟨callBack, l⟩ | ⟨callBack, r⟩) l' h
    · simp only [postprocessProg, Option.map_eq_some_iff, Prod.mk.injEq] at h
      obtain ⟨⟨device, l'' | r⟩, hz, -, heq⟩ := h
      · cases heq
        exact Nat.succ_lt_succ (R.postprocessBound.lt hz)
      · cases heq
        exact Nat.succ_pos _
    · simp [postprocessProg] at h

/-- The bounds of the stages of the CUDA build. -/
def PreBounds.bounds (h : PreBounds R) : Bounds R.toRunner where
  pre := ⟨h.rank, h.rank_lt⟩
  infer := ⟨BatchScheduler.inferRank, fun hs => BatchScheduler.inferRank_lt (InferMove.of_step hs)⟩
  post := postprocessBound _
  inferSteps := 4
  inferSteps_le _ := Nat.le_refl _
  postSteps := R.postSteps + 1
  postSteps_le out := Nat.succ_le_succ (R.postSteps_le out)

/-! ### A worker can go on -/

/-- The inference tasks that were refused or have ended with an exception. -/
def State.failures (s : State R.toRunner) : Nat :=
  ((Finset.range s.images.length).filter fun r => (s.request r).failed).card

/-- A thread waits in the runner's own preprocess or postprocess. -/
def State.WaitsInStage (s : State R.toRunner) (c : C) : Prop :=
  (∃ r l, (s.request r).pre = .execute (.prepare l) ∧ R.prepare.step c s.backend.device l = none) ∨
  (∃ r data l, (s.request r).pre = .execute (.upload data l) ∧ R.upload.step c s.backend.device l = none) ∨
  ∃ r callBack l, (s.request r).post = .execute (.body callBack l) ∧ R.postprocess.step c s.backend.device l = none

/-- A worker can take a step, or waits in a stage of the runner. -/
def State.GoesOn (s : State R.toRunner) (c : C) : Prop :=
  (∃ (l : Label Img C) (s' : State R.toRunner), OfWorker c l ∧ AsyncScheduler.step s l = some s') ∨ s.WaitsInStage c

section Progress

variable {device : D} {s : State R.toRunner} {c : C}

theorem goes_on_of_step {k : StageId} {r : Nat} {s' : State R.toRunner}
    (hs : step s (.advance k r c : Label Img C) = some s') : s.GoesOn c := .inl ⟨.advance k r c, s', rfl, hs⟩

/-- A postprocess task goes on, or another one does. -/
theorem goes_on_post (hs : (system R.toRunner (R.backend device)).Reachable s) (hu : s.undefined = false) {r : Nat}
    (hp : (s.request r).post.Pending) : s.GoesOn c := by
  rcases goes_on_at R.bufferSize_pos hs hu (k := .post) hp c with hstep | ⟨r', hrun, l, at_, hl⟩
  · exact .inl hstep
  · rcases l with ⟨callBack, l⟩ | ⟨callBack, o⟩
    · exact .inr (.inr (.inr ⟨r', callBack, l, at_, Option.map_eq_none_iff.1 hl⟩))
    · -- the pool takes the buffer back
      have hi := reachable_inv hs
      have hr : r' < s.images.length := hi.lt_of_status (k := .post) (by rw [hrun]; decide)
      obtain ⟨out, hout⟩ := (hi.sound r').exists_output (by simp [at_])
      have hof := (reachable_own hs r' _ (List.getElem?_eq_getElem hr)).post out hout
      rw [at_] at hof
      have hcall : callBack = out.callBack := postAt_callBack hof
      have hlt : callBack < R.bufferSize * 2 := by
        refine (reachable_lent hs).out_lt hr ?_
        rw [Request.outs_of_pending hout (.inr hrun), ← hcall]
        exact Multiset.mem_singleton_self _
      obtain ⟨be', hbe⟩ := exists_destroyTensor (reachable_stocked hs).backend hlt
      simp [postprocessProg, hbe] at hl

/-- A request whose inference task has thrown has an input buffer, or has lost it. -/
theorem threw_le_card_stock {q : Request R.toRunner} (h : q.Sound) : (threw q.infer).toNat ≤ q.stock.card := by
  by_cases hthrew : threw q.infer = true
  · have hne : q.infer.status ≠ .idle := by
      rcases hq : q.infer <;> simp [hq, threw] at hthrew ⊢
    obtain ⟨tenbuf, ht⟩ := h.exists_tensor hne
    rw [Request.stock_of_tensor ht, hthrew]
    rcases hq : q.infer with _ | _ | _ | _ | (e | o) | (e | o) | (e | o) <;>
      simp [hq, threw] at hthrew ⊢ <;> simp [Keeps, Fails]
  · simp [hthrew]

/-- If no output buffer is free, the request that has one goes on. -/
theorem goes_on_out (hs : (system R.toRunner (R.backend device)).Reachable s) (hu : s.undefined = false)
    (hempty : s.backend.gpuOutputBuffer.buffer = []) : s.GoesOn c := by
  have hi := reachable_inv hs
  have hne : (∑ r ∈ Finset.range s.images.length, (s.request r).outs) ≠ 0 := by
    intro h0
    obtain ⟨lost, hcard, hspread⟩ := reachable_lent hs
    rw [hempty, h0, Multiset.coe_nil, add_zero, zero_add] at hspread
    have hle : R.bufferSize * 2 ≤ lost.card := by simpa using Multiset.card_le_card hspread.le
    have hstock := congrArg Multiset.card (reachable_stocked hs).balance
    rw [Multiset.card_add, Multiset.card_sum, Multiset.card_range] at hstock
    have hthrew : (∑ r ∈ Finset.range s.images.length, (threw (s.request r).infer).toNat) ≤
        ∑ r ∈ Finset.range s.images.length, (s.request r).stock.card :=
      Finset.sum_le_sum fun r _ => threw_le_card_stock (hi.sound r)
    have hpos := R.bufferSize_pos
    omega
  obtain ⟨r, -, hout⟩ := Finset.exists_ne_zero_of_sum_ne_zero hne
  by_cases hp : (s.request r).post.Pending
  · exact goes_on_post hs hu hp
  · have hrun : (s.request r).status .infer = .running := by
      rcases hq : (s.request r).infer with _ | _ | _ | _ | (e | o) | _ | _ <;>
        simp [Request.outs, Request.status, hq, hp, outOf] at hout ⊢
    cases hstep : step s (.advance .infer r c : Label Img C) with
    | some s' => exact goes_on_of_step hstep
    | none =>
      obtain ⟨l, at_, hl⟩ := waits_of_step_none hu hrun hstep
      obtain ⟨t, rfl, -⟩ := infer_waits hl
      rw [Request.outs_execute at_] at hout
      exact absurd rfl hout

/-- An inference task goes on, or a task that holds the buffer it waits for does. -/
theorem goes_on_infer (hs : (system R.toRunner (R.backend device)).Reachable s) (hu : s.undefined = false) {r : Nat}
    (hp : (s.request r).infer.Pending) : s.GoesOn c := by
  rcases goes_on_at R.bufferSize_pos hs hu (k := .infer) hp c with hstep | ⟨r', -, l, -, hl⟩
  · exact .inl hstep
  · obtain ⟨-, -, hempty⟩ := infer_waits hl
    exact goes_on_out hs hu hempty

/-- A request that owns an input buffer goes on, or another one does. -/
theorem goes_on_of_owns (hs : (system R.toRunner (R.backend device)).Reachable s) (hu : s.undefined = false) {r : Nat}
    (howns : (s.request r).owns = true) : s.GoesOn c := by
  rw [Request.owns, Bool.or_eq_true, Bool.and_eq_true] at howns
  rcases howns with hheld | ⟨-, hkeeps⟩
  · have hrun : (s.request r).status .pre = .running := by
      rcases hq : (s.request r).pre with _ | _ | _ | _ | _ | _ | _ <;> simp [hq, preHeld, Request.status] at hheld ⊢
    cases hstep : step s (.advance .pre r c : Label Img C) with
    | some s' => exact goes_on_of_step hstep
    | none =>
      obtain ⟨l, at_, hl⟩ := waits_of_step_none hu hrun hstep
      rcases l with l | v | ⟨data, l⟩
      · simp [at_, preHeld] at hheld
      · simp [at_, preHeld] at hheld
      · exact .inr (.inr (.inl ⟨r, data, l, at_, Option.map_eq_none_iff.1 hl⟩))
  · refine goes_on_infer hs hu (r := r) ?_
    rcases hq : (s.request r).infer with _ | _ | _ | _ | (_ | _) | _ | _ <;> simp [hq, Keeps, Task.Pending] at hkeeps ⊢

/-- While an input buffer is left a preprocess task goes on, or a task that holds a buffer does. -/
theorem goes_on_pre (hs : (system R.toRunner (R.backend device)).Reachable s) (hu : s.undefined = false)
    (hleft : s.failures < R.bufferSize) {r : Nat} (hp : (s.request r).pre.Pending) : s.GoesOn c := by
  rcases goes_on_at R.bufferSize_pos hs hu (k := .pre) hp c with hstep | ⟨r', hrun, l, at_, hl⟩
  · exact .inl hstep
  · rcases l with l | v | ⟨data, l⟩
    · exact .inr (.inl ⟨r', l, at_, Option.map_eq_none_iff.1 hl⟩)
    · have hempty : s.backend.pool.buffer = [] := by
        by_contra hne
        obtain ⟨x, hx⟩ := InferTensorBufferPool.acquire_of_ne_nil hne
        simp [preprocessProg, getTensorBuffer, hx] at hl
      have hcount := (reachable_stocked hs).count
      rw [InferTensorBufferPool.available, hempty, List.length_nil, Nat.zero_add] at hcount
      have hpos : 0 < ((Finset.range s.images.length).filter fun r => (s.request r).owns).card := by
        unfold State.failures at hleft
        omega
      obtain ⟨j, hj⟩ := Finset.card_pos.1 hpos
      exact goes_on_of_owns hs hu (Finset.mem_filter.1 hj).2
    · exact .inr (.inr (.inl ⟨r', data, l, at_, Option.map_eq_none_iff.1 hl⟩))

end Progress

/-! ### Requests that are answered -/

section Completes

variable {T M ε B : Type} {Q : Runner B C Img T M O ε} {s s' : State Q}

/-- While the scheduler is alive no task has used a destroyed object. -/
theorem defined_of_alive {b : B} (hs : (system Q b).Reachable s) (alive : s.teardown = none) : s.undefined = false := by
  cases hs with
  | init => rfl
  | step hr _ hstep =>
    obtain ⟨hu, m⟩ := Move.of_step hstep
    exact (m.safe_of_open (reachable_open hr (m.teardown_isSome alive))).2.trans hu

/-- A worker takes a step only for a request that is under way. -/
theorem exists_busy_of_step {c : C} {l : Label Img C} (hl : OfWorker c l) (hs : step s l = some s') :
    ∃ r, ¬(s.request r).Idle := by
  have busy : ∀ {k r}, (s.request r).status k = .queued ∨ (s.request r).status k = .running → ¬(s.request r).Idle := by
    intro k r hp hidle
    cases k with
    | pre => exact hidle.1 hp
    | infer => exact hidle.2.1 hp
    | post => exact hidle.2.2 hp
  obtain ⟨-, m⟩ := Move.of_step hs
  cases m with
  | submit | destroyStart | stop | join | destroyStage => cases hl
  | takePre _ at_ => exact ⟨_, busy (k := .pre) (.inl (by rw [Request.status, at_]; rfl))⟩
  | takeInfer _ at_ => exact ⟨_, busy (k := .infer) (.inl (by rw [Request.status, at_]; rfl))⟩
  | takePost _ at_ => exact ⟨_, busy (k := .post) (.inl (by rw [Request.status, at_]; rfl))⟩
  | startPre at_ | runPre at_ | hopPre at_ | stoppedPre at_ | throwPre at_ | endPre at_ =>
    exact ⟨_, busy (k := .pre) (.inr (by rw [Request.status, at_]; rfl))⟩
  | startInfer at_ | runInfer at_ | hopInfer at_ | stoppedInfer at_ | throwInfer at_ | endInfer at_ =>
    exact ⟨_, busy (k := .infer) (.inr (by rw [Request.status, at_]; rfl))⟩
  | startPost at_ | runPost at_ | throwPost at_ | deliver at_ | endPost at_ =>
    exact ⟨_, busy (k := .post) (.inr (by rw [Request.status, at_]; rfl))⟩
  | @misuse k r c f uses =>
    refine ⟨r, busy (k := k) (.inr ?_)⟩
    cases k with
    | pre => rcases uses with ⟨img, at_⟩ | ⟨tenbuf, at_⟩ <;> rw [Request.status, at_] <;> rfl
    | infer => rcases uses with ⟨tenbuf, at_⟩ | ⟨out, at_⟩ <;> rw [Request.status, at_] <;> rfl
    | post =>
      obtain ⟨out, at_⟩ := uses
      rw [Request.status, at_]
      rfl

end Completes

/-- No worker can take a step. -/
def State.Still (s : State R.toRunner) (c : C) : Prop :=
  ∀ (l : Label Img C) (s' : State R.toRunner), OfWorker c l → AsyncScheduler.step s l ≠ some s'

/-- Every run without a call of `submit` comes to an end after a bounded number of steps.  While an input buffer is left
and no worker waits for ever in a stage of the runner, the workers stand still only when no task is under way, and then
every request has been answered with what its stages ended with, unless its postprocess threw. -/
structure Completes (h : PreBounds R) (be : CudaBackend D) (s : State R.toRunner) : Prop where
  steps_le : ∀ (ls : List (Label Img C)) (s' : State R.toRunner), (∀ l ∈ ls, ∀ img, l ≠ .submit img) →
    (system R.toRunner be).run s ls = some s' → ls.length ≤ s.left h.bounds
  still_iff : s.failures < R.bufferSize → ∀ c, ¬(s.WaitsInStage c ∧ s.Still c) →
    (s.Still c ↔ ∀ r, (s.request r).Idle)
  answered : s.failures < R.bufferSize → ∀ c, ¬(s.WaitsInStage c ∧ s.Still c) → s.Still c → ∀ r img,
    s.images[r]? = some img → (s.request r).Delivered img ∨ (s.request r).PostThrew

theorem completes (hpre : PreBounds R) {device : D} {s : State R.toRunner}
    (h : (system R.toRunner (R.backend device)).Reachable s) (alive : s.teardown = none) :
    Completes hpre (R.backend device) s := by
  have hu := defined_of_alive h alive
  have hi := reachable_inv h
  have still : s.failures < R.bufferSize → ∀ c, ¬(s.WaitsInStage c ∧ s.Still c) →
      (s.Still c ↔ ∀ r, (s.request r).Idle) := by
    intro hleft c hlive
    constructor
    · intro hstill r
      by_contra hbusy
      have hgo : s.GoesOn c := by
        by_cases hpre : (s.request r).pre.Pending
        · exact goes_on_pre h hu hleft hpre
        · by_cases hinfer : (s.request r).infer.Pending
          · exact goes_on_infer h hu hinfer
          · by_cases hpost : (s.request r).post.Pending
            · exact goes_on_post h hu hpost
            · exact absurd ⟨hpre, hinfer, hpost⟩ hbusy
      rcases hgo with ⟨l, s', hl, hs⟩ | hwaits
      · exact hstill l s' hl hs
      · exact hlive ⟨hwaits, hstill⟩
    · intro hidle l s' hl hs
      obtain ⟨r, hbusy⟩ := exists_busy_of_step hl hs
      exact hbusy (hidle r)
  refine ⟨fun ls s' hl hr => steps_le hpre.bounds h hl hr, still, fun hleft c hlive hstill r img hr => ?_⟩
  have hidle := (still hleft c hlive).1 hstill r
  have hlt := (List.getElem?_eq_some_iff.1 hr).1
  by_cases hthrew : (s.request r).PostThrew
  · exact .inr hthrew
  · exact .inl (((hi.sound r).delivered_iff_not_postThrew (reachable_own h r img hr) ((reachable_open h alive).hopped r)
      ((hi.submitted r).1 hlt) hidle).2 hthrew)

/-! ### Requests that never are -/

section Starves

variable {device : D} {s s' : State R.toRunner} {l : Label Img C}

theorem Move.images_le (hm : Move s l s') : s.images.length ≤ s'.images.length := by
  cases hm with
  | submit => exact (List.prefix_append s.images _).length_le
  | _ => exact Nat.le_refl _

private theorem failed_update {r₀ r : Nat} {q : Request R.toRunner}
    (hq : (s.request r₀).failed = true → q.failed = true) (h : (s.request r).failed = true) :
    (Function.update s.request r₀ q r).failed = true := by
  rw [Function.update_apply]
  split
  · rename_i heq
    exact hq (heq ▸ h)
  · exact h

/-- A failure is for ever. -/
theorem Move.failed (hi : Inv s) (hm : Move s l s') {r : Nat} (h : (s.request r).failed = true) :
    (s'.request r).failed = true := by
  cases hm with
  | misuse | destroyStart | stop | join | destroyStage => exact h
  | submit =>
    have hidle : (s.request s.images.length).pre.status = .idle := by
      by_contra hne
      exact Nat.lt_irrefl _ ((hi.submitted _).2 hne)
    have habs : (s.request s.images.length).pre = .absent := by
      rcases hq : (s.request s.images.length).pre <;> simp [hq] at hidle ⊢
    exact failed_update (fun hf => by simp [Request.failed, habs, Task.output] at hf) h
  | takePre _ at_ | startPre at_ | runPre at_ | hopPre at_ | stoppedPre at_ | throwPre at_ =>
    exact failed_update (fun hf => by simp [Request.failed, at_, Task.output] at hf) h
  | @endPre r c o at_ =>
    refine failed_update (fun hf => ?_) h
    have hbefore : (s.request r).failed = true := hf
    rw [Request.failed, at_] at hbefore
    exact hbefore
  | takeInfer _ at_ | startInfer at_ | runInfer at_ | hopInfer at_ | stoppedInfer at_ | throwInfer at_ =>
    exact failed_update (fun hf => by simp [Request.failed, at_, Fails] at hf) h
  | @endInfer r c o at_ =>
    refine failed_update (fun hf => ?_) h
    have hbefore : (s.request r).failed = true := hf
    rw [Request.failed, at_] at hbefore
    rcases o with e | out <;> exact hbefore
  | takePost | startPost | runPost | throwPost | deliver | endPost => exact failed_update id h

/-- When every input buffer is lost none is free and no request owns one. -/
theorem Stocked.none_left (h : Stocked s) (hi : Inv s) (hlost : s.failures = R.bufferSize) :
    s.backend.pool.buffer = [] ∧ ∀ r, (s.request r).owns = false := by
  have hcount := h.count
  rw [← State.failures, hlost, InferTensorBufferPool.available] at hcount
  have howns : ((Finset.range s.images.length).filter fun r => (s.request r).owns).card = 0 := by omega
  refine ⟨List.eq_nil_of_length_eq_zero (by omega), fun r => ?_⟩
  by_contra hne
  rw [Bool.not_eq_false] at hne
  have hstatus : (s.request r).pre.status ≠ .idle := by
    intro hidle
    rcases hq : (s.request r).pre <;> simp [hq] at hidle
    simp [Request.owns, hq, preHeld, Task.output] at hne
  have hmem : r ∈ (Finset.range s.images.length).filter fun r => (s.request r).owns :=
    Finset.mem_filter.2 ⟨Finset.mem_range.2 ((hi.submitted r).2 hstatus), hne⟩
  rw [Finset.card_eq_zero.1 howns] at hmem
  exact absurd hmem (Finset.notMem_empty r)

theorem failures_of_step (hs : (system R.toRunner (R.backend device)).Reachable s) (hlost : s.failures = R.bufferSize)
    (hstep : AsyncScheduler.step s l = some s') : s'.failures = R.bufferSize := by
  obtain ⟨-, hm⟩ := Move.of_step hstep
  have hi := reachable_inv hs
  have hle : s.failures ≤ s'.failures := by
    refine Finset.card_le_card fun r hr => ?_
    obtain ⟨hlt, hf⟩ := Finset.mem_filter.1 hr
    exact Finset.mem_filter.2 ⟨Finset.mem_range.2 ((Finset.mem_range.1 hlt).trans_le hm.images_le), hm.failed hi hf⟩
  have hcount := (reachable_stocked (.step hs trivial hstep)).count
  unfold State.failures at hle hlost ⊢
  omega

/-- The preprocess task has not come through. -/
def Request.Barred (q : Request R.toRunner) : Prop := ∀ tenbuf, q.pre.outcome ≠ some (.ok tenbuf)

private theorem barred_update {r₀ r : Nat} {q : Request R.toRunner} (hq : (s.request r₀).Barred → q.Barred)
    (h : (s.request r).Barred) : (Function.update s.request r₀ q r).Barred := by
  rw [Function.update_apply]
  split
  · rename_i heq
    exact hq (heq ▸ h)
  · exact h

/-- Without an input buffer no preprocess task comes through. -/
theorem Move.barred (hm : Move s l s') (hnone : ∀ r, (s.request r).owns = false) {r : Nat} (h : (s.request r).Barred) :
    (s'.request r).Barred := by
  have hnot : ∀ {r : Nat} {tenbuf : R.Tensor}, (s.request r).pre ≠ .returned (.ok tenbuf) := by
    intro r tenbuf at_
    have howns := hnone r
    simp [Request.owns, at_, preHeld] at howns
  cases hm with
  | misuse | destroyStart | stop | join | destroyStage => exact h
  | submit | takePre | startPre => exact barred_update (fun _ _ => by simp) h
  | runPre => exact barred_update (fun _ _ => by simp) h
  | throwPre => exact barred_update (fun _ _ => by simp) h
  | hopPre at_ | stoppedPre at_ => exact absurd at_ hnot
  | @endPre r c o at_ =>
    refine barred_update (fun hb tenbuf => ?_) h
    have hne : (s.request r).pre.outcome ≠ some (.ok tenbuf) := hb tenbuf
    rwa [at_] at hne
  | takeInfer | startInfer | runInfer | hopInfer | stoppedInfer | throwInfer | endInfer | takePost | startPost | runPost
  | throwPost | deliver | endPost => exact barred_update (fun hb => hb) h

/-- Without a free input buffer a preprocess task that waits for one goes on waiting. -/
theorem Move.waiting (hi : Inv s) (hm : Move s l s') (hempty : s.backend.pool.buffer = []) {r : Nat} {v : V}
    (h : (s.request r).pre = .execute (.acquire v)) : (s'.request r).pre = .execute (.acquire v) := by
  have keep : ∀ {r₀ : Nat} {q : Request R.toRunner}, (r = r₀ → q.pre = .execute (.acquire v)) →
      (Function.update s.request r₀ q r).pre = .execute (.acquire v) := by
    intro r₀ q hq
    rw [Function.update_apply]
    split
    · exact hq ‹_›
    · exact h
  cases hm with
  | misuse | destroyStart | stop | join | destroyStage => exact h
  | submit =>
    refine keep fun heq => ?_
    have hlt := (hi.submitted r).2 (by simp [h])
    omega
  | takePre _ at_ | startPre at_ | hopPre at_ | stoppedPre at_ | throwPre at_ | endPre at_ =>
    refine keep fun heq => ?_
    rw [heq, at_] at h
    cases h
  | runPre at_ stepped =>
    refine keep fun heq => ?_
    rw [heq, at_] at h
    cases h
    simp [preprocessProg, getTensorBuffer, InferTensorBufferPool.acquire, hempty] at stepped
  | takeInfer | startInfer | runInfer | hopInfer | stoppedInfer | throwInfer | endInfer | takePost | startPost | runPost
  | throwPost | deliver | endPost => exact keep fun heq => heq ▸ h

/-- What becomes of the requests from a state on in which every input buffer is lost.  None that has not come through
preprocess gets a value, and while one waits for a buffer the destructor does not return. -/
structure Starved (s s' : State R.toRunner) : Prop where
  lost : s'.failures = R.bufferSize ∧ s'.backend.pool.buffer = []
  unanswered : ∀ r, (s.request r).Barred → ∀ o, .ok o ∉ (s'.request r).promise
  waiting : ∀ r v, (s.request r).pre = .execute (.acquire v) →
    (s'.request r).pre = .execute (.acquire v) ∧ (s'.request r).promise = []
  destructor : ∀ r v, (s.request r).pre = .execute (.acquire v) → s'.teardown ≠ some []

/-- The preprocess executor is not joined while one of its tasks waits. -/
theorem Move.join_mem (ht : Tracked s) (hm : Move s l s') {r : Nat} {v : V}
    (hr : (s.request r).pre = .execute (.acquire v))
    (h : ∀ todo, s.teardown = some todo → .join .pre ∈ todo) :
    ∀ todo, s'.teardown = some todo → .join .pre ∈ todo := by
  have hbusy : r ∈ (s.executor .pre).busy := ((ht .pre).mem_busy r).2 (by simp [Request.status, hr])
  intro todo htodo
  cases hm with
  | destroyStart =>
    cases htodo
    simp [OnnxInference.AsyncScheduler.destructor, members, Member.teardown]
  | stop ht | destroyStage ht =>
    cases htodo
    simpa using h _ ht
  | @join k rest p ht joined =>
    cases htodo
    rcases List.mem_cons.1 (h _ ht) with heq | hmem
    · cases heq
      rw [(ThreadPool.join_some joined).1] at hbusy
      cases hbusy
    · exact hmem
  | _ => exact h todo htodo

theorem starves {device : D} {s s' : State R.toRunner} (h : (system R.toRunner (R.backend device)).Reachable s)
    (alive : s.teardown = none) (hlost : s.failures = R.bufferSize) {ls : List (Label Img C)}
    (hr : (system R.toRunner (R.backend device)).run s ls = some s') : Starved s s' := by
  have hinv := System.run_invariant (P := fun t => (system R.toRunner (R.backend device)).Reachable t ∧
    t.failures = R.bufferSize ∧ (∀ r, (s.request r).Barred → (t.request r).Barred) ∧
    (∀ r v, (s.request r).pre = .execute (.acquire v) → (t.request r).pre = .execute (.acquire v)) ∧
    ∀ r v, (s.request r).pre = .execute (.acquire v) → ∀ todo, t.teardown = some todo → .join .pre ∈ todo) ?_
    ⟨h, hlost, fun _ hb => hb, fun _ _ hw => hw, fun _ _ _ todo htodo => by rw [alive] at htodo; cases htodo⟩ hr
  · obtain ⟨hs', hlost', hbarred, hwaiting, hjoin⟩ := hinv
    have hi := reachable_inv hs'
    have hempty := ((reachable_stocked hs').none_left hi hlost').1
    refine ⟨⟨hlost', hempty⟩, fun r hb o ho => ?_, fun r v hw => ⟨hwaiting r v hw, ?_⟩, fun r v hw hend => ?_⟩
    · rw [(hi.sound r).promise_eq, Request.calls] at ho
      split at ho
      · cases ho
      · rw [List.mem_singleton] at ho
        cases ho
      · rename_i tenbuf hout
        exact hbarred r hb tenbuf hout
    · rw [(hi.sound r).promise_eq, Request.calls, hwaiting r v hw]
      rfl
    · exact absurd (hjoin r v hw [] hend) List.not_mem_nil
  · rintro t l t' ⟨ht, hlost, hbarred, hwaiting, hjoin⟩ hstep
    have hi := reachable_inv ht
    obtain ⟨hempty, hnone⟩ := (reachable_stocked ht).none_left hi hlost
    have hm := (Move.of_step hstep).2
    exact ⟨.step ht trivial hstep, failures_of_step ht hlost hstep, fun r hb => hm.barred hnone (hbarred r hb),
      fun r v hw => hm.waiting hi hempty (hwaiting r v hw),
      fun r v hw => hm.join_mem (reachable_tracked ht) (hwaiting r v hw) (hjoin r v hw)⟩

end Starves

/-! ### Runs -/

/-- Numbers as images; the choice says whether `session_->Run` returns. -/
def fallibleRunner : CudaRunner Unit Bool Nat Nat Nat Nat where
  bufferSize := 1
  bufferSize_pos := Nat.one_pos
  batch := 1
  batch_pos := Nat.one_pos
  preprocessAt := .ofFn fun _ => .ok ()
  data_preprocessAt h := by cases h; rfl
  preprocessBound := .ofFn
  prepare := .ofFn .ok
  upload := .ofFn fun _ => .ok fun _ => .zero
  run ok _ _ _ := ((), if ok then .ok 7 else .error (.runtimeError "Run"))
  postprocess := .ofFn fun out => .ok ⟨[out.info], (List.length_singleton (a := out.info)).le⟩
  postprocessBound := .ofFn
  postSteps := 0
  postSteps_le _ := Nat.le_refl 0

/-- The same with two buffers. -/
def twoBuffers : CudaRunner Unit Bool Nat Nat Nat Nat :=
  { fallibleRunner with bufferSize := 2, bufferSize_pos := Nat.two_pos }

def twoBufferBounds : PreBounds twoBuffers where
  prepare := .ofFn
  upload := .ofFn
  uploadSteps := 0
  uploadSteps_le _ _ := Nat.le_refl 0

/-- The way of the request `r` through its preprocess and its inference task, as far as it gets. -/
def way (r pre infer : Nat) (ok : Bool) : List (Label Nat Bool) :=
  .take .pre :: List.replicate pre (.advance .pre r ok) ++ .take .infer :: List.replicate infer (.advance .infer r ok)

/-- The first request loses one of the buffers, and the third waits until the second gives back the other one. -/
theorem completes_answered : ∃ s s' : State twoBuffers.toRunner, s.failures = 1 ∧ s.backend.pool.buffer = [] ∧
    (s.request 2).pre.status = .running ∧ Completes twoBufferBounds (twoBuffers.backend ()) s ∧
    (∃ ls, (system twoBuffers.toRunner (twoBuffers.backend ())).run s ls = some s') ∧ s'.images = [5, 6, 7] ∧
    (∀ r < 3, (s'.request r).promise.length = 1) ∧ Completes twoBufferBounds (twoBuffers.backend ()) s' := by
  obtain ⟨s, s', hs, hp, hr, hq⟩ := System.exists_run_through (system twoBuffers.toRunner (twoBuffers.backend ()))
    [[.submit 5, .submit 6, .submit 7], way 0 6 6 false, [.take .pre], List.replicate 6 (.advance .pre 1 true),
      [.take .pre, .advance .pre 2 true, .advance .pre 2 true]].flatten
    [[.take .infer], List.replicate 8 (.advance .infer 1 true), [.take .post], List.replicate 5 (.advance .post 1 true),
      List.replicate 4 (.advance .pre 2 true), [.take .infer], List.replicate 8 (.advance .infer 2 true), [.take .post],
      List.replicate 5 (.advance .post 2 true)].flatten
    (fun s => s.teardown.isNone && s.failures == 1 && s.backend.pool.buffer.isEmpty &&
      (s.request 2).pre.status == .running)
    (fun s => s.teardown.isNone && s.images == [5, 6, 7] &&
      (List.range 3).all fun r => (s.request r).promise.length == 1)
    (by decide +kernel) (by decide +kernel)
  simp only [Bool.and_eq_true, beq_iff_eq, Option.isNone_iff_eq_none, List.isEmpty_iff, List.all_eq_true,
    List.mem_range] at hp hq
  obtain ⟨⟨⟨alive, hlost⟩, hpool⟩, hwaits⟩ := hp
  obtain ⟨⟨alive', himg⟩, hpromises⟩ := hq
  exact ⟨s, s', hlost, hpool, hwaits, completes twoBufferBounds hs alive, ⟨_, hr⟩, himg, hpromises,
    completes twoBufferBounds (hs.of_run hr) alive'⟩

/-- The call of `session_->Run` for the first image throws; the second image waits for the buffer of the first, also
when the scheduler is being destroyed. -/
theorem starves_second : ∃ s s' : State fallibleRunner.toRunner, s.images = [5, 6] ∧ s'.teardown ≠ none ∧
    Starved s s' := by
  let later : List (Label Nat Bool) := [.submit 7, .destroy, .destroy]
  obtain ⟨s, hs, hp⟩ := System.exists_reachable_of_run (system fallibleRunner.toRunner (fallibleRunner.backend ()))
    (.submit 5 :: way 0 6 6 false ++ [.submit 6, .take .pre, .advance .pre 1 true, .advance .pre 1 true])
    (fun s => s.images == [5, 6] && s.teardown.isNone && s.failures == 1 &&
      ((system fallibleRunner.toRunner (fallibleRunner.backend ())).run s later).any fun s' => s'.teardown.isSome)
    (by decide +kernel)
  simp only [Bool.and_eq_true, beq_iff_eq, Option.isNone_iff_eq_none, Option.any_eq_true] at hp
  obtain ⟨⟨⟨himg, alive⟩, hlost⟩, s', hr, hdown⟩ := hp
  exact ⟨s, s', himg, Option.isSome_iff_ne_none.1 hdown, starves hs alive hlost hr⟩

end OnnxInference.AsyncScheduler
