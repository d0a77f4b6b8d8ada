import OnnxInference.Scheduler.AsyncBuffers
import OnnxInference.Scheduler.AsyncProgress
import OnnxInference.Scheduler.BatchBuffers

/-!
# The output buffers of an asynchronous scheduler

A request holds an output buffer from the call of `infer` that acquires it to the end of its postprocess task.  An
inference task that throws loses its own, so that all buffers but these are in the pool or with a request (`Lent`).
-/

namespace OnnxInference.AsyncScheduler

open Concurrency Transition CudaRunner
open BatchScheduler (Spread)

variable {D C V X Img O : Type} {R : CudaRunner D C V X Img O}

/-- The inference task has thrown. -/
def threw {I L : Type} : Task I L (DeviceOutput X) Error → Bool
  | .returned (.error _) | .ending (.error _) | .finished (.error _) => true
  | _ => false

/-- What a step of `infer` does to the output buffers: a call that throws loses the one it has. -/
theorem exists_lost {c : C} {be : CudaBackend D} {l : InferAt R.Tensor X}
    {y : CudaBackend D × (InferAt R.Tensor X ⊕ Except Error (DeviceOutput X))} (h : InferMove R c be l y) :
    ∃ lost : Multiset Ptr, lost.card ≤ (threw (.ofStep y.2 : Task Unit _ _ _)).toNat ∧
      (y.1.gpuOutputBuffer.buffer : Multiset Ptr) +
          (((outOf InferAt.out (.ofStep y.2 : Task Unit _ _ _)).toList : Multiset Ptr) + lost) =
        be.gpuOutputBuffer.buffer + (l.out.toList : Multiset Ptr) := by
  by_cases hok : ∀ e, y.2 ≠ .inr (.error e)
  · exact ⟨0, Nat.zero_le _, (congrArg _ (add_zero _)).trans (h.out_eq hok)⟩
  · cases h with
    | notFound => exact ⟨0, Nat.zero_le _, rfl⟩
    | @outputNotFound t p pool e got =>
      refine ⟨{p}, Nat.le_refl 1, ?_⟩
      have hbuf := InferTensorBufferPool.buffer_of_acquire got
      exact ((congrArg _ (zero_add _)).trans hbuf.symm).trans (add_zero _).symm
    | @runThrows t out e | @releaseThrows t out info e =>
      exact ⟨{out}, Nat.le_refl 1, congrArg _ (zero_add _)⟩
    | find | acquire | run | release | done => exact absurd (fun _ => by simp) hok

/-- Preprocess does not touch the output buffers. -/
theorem preprocess_output {c : C} {be : CudaBackend D} {l : PreAt R.prepare.Local R.upload.Local V}
    {y : CudaBackend D × (PreAt R.prepare.Local R.upload.Local V ⊕ Except Error R.Tensor)}
    (h : R.preprocessProg.step c be l = some y) : y.1.gpuOutputBuffer = be.gpuOutputBuffer := by
  cases l with
  | prepare l | upload data l =>
    simp only [preprocessProg, Option.map_eq_some_iff] at h
    obtain ⟨z, -, rfl⟩ := h
    rfl
  | acquire v =>
    simp only [preprocessProg, getTensorBuffer, Option.map_map, Option.map_eq_some_iff] at h
    obtain ⟨z, -, rfl⟩ := h
    rfl

namespace Request

variable (q : Request R.toRunner)

/-- The output buffers that the request has not given back: that of the call of `infer`, and that of the
`ModelOutput`. -/
def outs : Multiset Ptr :=
  ((outOf InferAt.out q.infer).toList : Multiset Ptr) +
    if q.post.Pending then ((q.infer.output.map DeviceOutput.callBack).toList : Multiset Ptr) else 0

variable {q}

theorem outs_execute {l : InferAt R.Tensor X} (at_ : q.infer = .execute l) :
    q.outs = (l.out.toList : Multiset Ptr) := by
  simp [outs, at_, outOf, Task.output]

theorem outs_ofStep (q : Request R.toRunner) (y : InferAt R.Tensor X ⊕ Except Error (DeviceOutput X)) :
    ({ q with infer := .ofStep y } : Request R.toRunner).outs =
      ((outOf InferAt.out (.ofStep y : Task Unit _ _ _)).toList : Multiset Ptr) := by
  rcases y with l | e | out <;> simp [outs, outOf, Task.output, Task.ofStep]

/-- Between the two tasks and in the postprocess task a request holds the buffer of its `ModelOutput`. -/
theorem outs_of_pending {out : DeviceOutput X} (hout : q.infer.outcome = some (.ok out)) (hpost : q.post.Pending) :
    q.outs = {out.callBack} := by
  rcases hi : q.infer with _ | _ | _ | _ | _ | r | r <;> rw [hi] at hout <;> cases hout <;>
    simp [outs, hi, outOf, Task.output, hpost]

theorem outs_congr {q' : Request R.toRunner} (hinfer : q'.infer = q.infer)
    (hpost : q'.post.Pending ↔ q.post.Pending) : q'.outs = q.outs := by
  simp only [outs, hinfer, hpost]

end Request

/-- The output buffers are in the pool, with a request, or lost by one that has thrown. -/
def Lent (s : State R.toRunner) : Prop :=
  ∃ lost : Multiset Ptr, lost.card ≤ (∑ r ∈ Finset.range s.images.length, (threw (s.request r).infer).toNat) ∧
    Spread (R.bufferSize * 2) (s.backend.gpuOutputBuffer.buffer +
      (∑ r ∈ Finset.range s.images.length, (s.request r).outs) + lost)

theorem Lent.congr {s s' : State R.toRunner} (h : Lent s) (hreq : s'.request = s.request)
    (himg : s'.images = s.images) (hbe : s'.backend = s.backend) : Lent s' := by
  unfold Lent
  rw [hreq, himg, hbe]
  exact h

/-- A change of a request; the destructor of a copy of a tensor adds `gain` to the output buffers. -/
theorem Lent.setRequest {s s' : State R.toRunner} (h : Lent s) {r : Nat} {q : Request R.toRunner}
    (hr : r < s.images.length) (hreq : s'.request = Function.update s.request r q) (himg : s'.images = s.images)
    (gain more : Multiset Ptr) (hgain : ∀ p ∈ gain, p < R.bufferSize * 2)
    (hmore : more.card + (threw (s.request r).infer).toNat ≤ (threw q.infer).toNat)
    (hmove : (s'.backend.gpuOutputBuffer.buffer : Multiset Ptr) + (q.outs + more) =
      s.backend.gpuOutputBuffer.buffer + gain + (s.request r).outs) : Lent s' := by
  obtain ⟨lost, hcard, hspread⟩ := h
  refine ⟨lost + more, ?_, ?_⟩
  · have hsum := Ledger.sum_update (fun q : Request R.toRunner => (threw q.infer).toNat) (f := s.request) hr q
    rw [hreq, himg, Multiset.card_add]
    omega
  · have hsum := Ledger.sum_update Request.outs (f := s.request) hr q
    have htotal : (s'.backend.gpuOutputBuffer.buffer : Multiset Ptr) +
        (∑ i ∈ Finset.range s.images.length, (Function.update s.request r q i).outs) + more =
          s.backend.gpuOutputBuffer.buffer + gain + ∑ i ∈ Finset.range s.images.length, (s.request i).outs := by
      refine add_right_cancel (b := (s.request r).outs) ?_
      calc _ = (s'.backend.gpuOutputBuffer.buffer : Multiset Ptr) + more +
            ((∑ i ∈ Finset.range s.images.length, (Function.update s.request r q i).outs) + (s.request r).outs) := by
              abel
        _ = s'.backend.gpuOutputBuffer.buffer + (q.outs + more) +
            ∑ i ∈ Finset.range s.images.length, (s.request i).outs := by rw [hsum]; abel
        _ = _ := by rw [hmove]; abel
    rw [hreq, himg, add_comm lost, ← add_assoc, htotal]
    have hsame : (s.backend.gpuOutputBuffer.buffer : Multiset Ptr) + gain +
        (∑ i ∈ Finset.range s.images.length, (s.request i).outs) + lost = s.backend.gpuOutputBuffer.buffer +
          (∑ i ∈ Finset.range s.images.length, (s.request i).outs) + lost + gain := by abel
    rw [hsame]
    exact hspread.add hgain

theorem Lent.keep {s s' : State R.toRunner} (h : Lent s) {r : Nat} {q : Request R.toRunner} (hr : r < s.images.length)
    (hreq : s'.request = Function.update s.request r q) (himg : s'.images = s.images)
    (hbuf : s'.backend.gpuOutputBuffer = s.backend.gpuOutputBuffer) (hthrew : threw q.infer = threw (s.request r).infer)
    (houts : q.outs = (s.request r).outs) : Lent s' := by
  refine h.setRequest hr hreq himg 0 0 (by simp) ?_ ?_
  · rw [hthrew, Multiset.card_zero, Nat.zero_add]
  · rw [hbuf, houts, add_zero, add_zero]

/-- The output buffers a request has not given back are of the pool. -/
theorem Lent.out_lt {s : State R.toRunner} (h : Lent s) {r : Nat} (hr : r < s.images.length) {p : Ptr}
    (hp : p ∈ (s.request r).outs) : p < R.bufferSize * 2 := by
  obtain ⟨lost, -, hspread⟩ := h
  refine hspread.lt p (Multiset.mem_add.2 (.inl (Multiset.mem_add.2 (.inr ?_))))
  exact Multiset.mem_sum.2 ⟨r, Finset.mem_range.2 hr, hp⟩

theorem Lent.step {s s' : State R.toRunner} {l : Label Img C} (h : Lent s) (hi : Inv s)
    (hown : ∀ r img, s.images[r]? = some img → (s.request r).Own img) (hbe : s.backend.Of R.bufferSize)
    (hm : Move s l s') : Lent s' := by
  -- the output of a request whose postprocess task is there
  have hpost : ∀ r, (s.request r).post.Pending → ∃ out, (s.request r).infer.outcome = some (.ok out) ∧
      (s.request r).outs = {out.callBack} ∧ out.callBack < R.bufferSize * 2 ∧
      (s.request r).post.Of R.toRunner.postprocess out ∧ r < s.images.length := by
    intro r hp
    have hne : (s.request r).post.status ≠ .idle := by rcases hp with hp | hp <;> rw [hp] <;> decide
    have hr : r < s.images.length := hi.lt_of_status (k := .post) hne
    obtain ⟨out, hout⟩ := (hi.sound r).exists_output hne
    have houts := Request.outs_of_pending hout hp
    exact ⟨out, hout, houts, h.out_lt hr (houts ▸ Multiset.mem_singleton_self _),
      (hown r _ (List.getElem?_eq_getElem hr)).post out hout, hr⟩
  cases hm with
  | misuse | destroyStart | stop | join | destroyStage => exact h.congr rfl rfl rfl
  | @submit img p =>
    have hsame : ∀ {A : Type} [AddCommMonoid A] (w : Request R.toRunner → A),
        (∀ pre, w { s.request s.images.length with pre := pre } = w (s.request s.images.length)) →
        w (s.request s.images.length) = 0 → (∑ r ∈ Finset.range (s.images.length + 1), w (Function.update s.request
          s.images.length { s.request s.images.length with pre := .queued img } r)) =
          ∑ r ∈ Finset.range s.images.length, w (s.request r) := by
      intro A _ w hpre hzero
      rw [Finset.sum_range_succ, Function.update_self, hpre, hzero, add_zero]
      refine Finset.sum_congr rfl fun r hr => ?_
      rw [Function.update_of_ne (Nat.ne_of_lt (Finset.mem_range.1 hr))]
    have hnew : ∀ k, (s.request s.images.length).status k = .idle := by
      intro k
      by_contra hne
      exact Nat.lt_irrefl _ (hi.lt_of_status hne)
    have hinfer : (s.request s.images.length).infer = .absent := by
      have hidle := hnew .infer
      rcases hq : (s.request s.images.length).infer <;> simp [Request.status, hq] at hidle ⊢
    have houts : (s.request s.images.length).outs = 0 := by simp [Request.outs, hinfer, outOf, Task.output]
    obtain ⟨lost, hcard, hspread⟩ := h
    refine ⟨lost, ?_, ?_⟩
    · rw [List.length_append, List.length_singleton]
      exact hcard.trans_eq (hsame (fun q => (threw q.infer).toNat) (fun _ => rfl) (by rw [hinfer]; rfl)).symm
    · rw [List.length_append, List.length_singleton]
      exact (hsame Request.outs (fun _ => rfl) houts).symm ▸ hspread
  | takePre _ at_ | startPre at_ | throwPre at_ | endPre at_ =>
    exact h.keep (hi.lt_of_status (k := .pre) (by simp [Request.status, at_])) rfl rfl rfl rfl
      (Request.outs_congr rfl Iff.rfl)
  | runPre at_ stepped =>
    exact h.keep (hi.lt_of_status (k := .pre) (by simp [Request.status, at_])) rfl rfl (preprocess_output stepped) rfl
      (Request.outs_congr rfl Iff.rfl)
  | @hopPre r c tenbuf p at_ | @stoppedPre r c tenbuf at_ =>
    have hidle : (s.request r).infer.status = .idle := (hi.sound r).infer_idle (by simp [at_])
    have hinfer : (s.request r).infer = .absent := by
      rcases hq : (s.request r).infer <;> simp [hq] at hidle ⊢
    refine h.keep (hi.lt_of_status (k := .pre) (by simp [Request.status, at_])) rfl rfl rfl ?_ ?_ <;>
      simp [Request.outs, hinfer, threw, outOf, Task.output]
  | takeInfer _ at_ | startInfer at_ | throwInfer at_ =>
    refine h.keep (hi.lt_of_status (k := .infer) (by simp [Request.status, at_])) rfl rfl rfl ?_ ?_ <;>
      simp [Request.outs, at_, threw, outOf, Task.output, InferAt.out]
  | @endInfer r c o at_ =>
    refine h.keep (hi.lt_of_status (k := .infer) (by simp [Request.status, at_])) rfl rfl rfl ?_ ?_
    · rcases o with e | out <;> simp [at_, threw]
    · simp [Request.outs, at_, outOf, Task.output]
  | @hopInfer r c out p at_ =>
    refine h.keep (hi.lt_of_status (k := .infer) (by simp [Request.status, at_])) rfl rfl rfl ?_ ?_
    · simp [at_, threw]
    · simp [Request.outs, at_, outOf, Task.output, Task.Pending]
  | @stoppedInfer r c out at_ =>
    have hr : r < s.images.length := hi.lt_of_status (k := .infer) (by simp [Request.status, at_])
    have hidle : (s.request r).post.status = .idle := (hi.sound r).post_idle (by simp [at_])
    have houts : (s.request r).outs = {out.callBack} := by
      simp [Request.outs, at_, hidle, outOf, Task.Pending]
    have hlt : out.callBack < R.bufferSize * 2 := h.out_lt hr (houts ▸ Multiset.mem_singleton_self _)
    refine h.setRequest hr rfl rfl 0 0 (by simp) (by simp [at_, threw]) ?_
    rw [houts, add_zero, add_zero]
    refine Eq.trans ?_ (buffer_destroyOutput hbe hlt)
    simp [Request.outs, outOf, hidle, Task.Pending]
  | @runInfer r c l y at_ stepped =>
    have hmove := InferMove.of_step stepped
    obtain ⟨lost, hcard, hbuf⟩ := exists_lost hmove
    refine h.setRequest (hi.lt_of_status (k := .infer) (by simp [Request.status, at_])) rfl rfl 0
      lost (by simp) ?_ ?_
    · rcases hy : y.2 with l' | e | o <;> simpa [at_, hy, threw, Task.ofStep] using hcard
    · rw [Request.outs_ofStep, Request.outs_execute at_, add_zero]
      exact hbuf
  | takePost _ at_ | startPost at_ | throwPost at_ | deliver at_ =>
    refine h.keep (hi.lt_of_status (k := .post) (by simp [Request.status, at_])) rfl rfl rfl rfl ?_
    exact Request.outs_congr rfl (by simp [at_, Task.Pending])
  | @runPost r c l y at_ stepped =>
    obtain ⟨out, hout, houts, hlt, hof, hr⟩ := hpost r (.inr (by rw [at_]; rfl))
    rw [at_] at hof
    have hcall : PostAt.callBack l = out.callBack := postAt_callBack hof
    have hsame : ({ s.request r with post := .ofStep y.2 } : Request R.toRunner).outs = (s.request r).outs :=
      Request.outs_congr rfl (by simp [at_, Task.Pending])
    rcases (PostMove.of_step stepped).buffer_eq with hbuf | hbuf
    · refine h.setRequest hr rfl rfl 0 0 (by simp) (by simp) ?_
      rw [hsame, add_zero, add_zero]
      exact congrArg (· + (s.request r).outs) hbuf
    · refine h.setRequest hr rfl rfl {out.callBack} 0 (by simpa using hlt) (by simp) ?_
      rw [hsame, add_zero]
      rw [hcall] at hbuf
      exact congrArg (· + (s.request r).outs) hbuf
  | @endPost r c o at_ =>
    obtain ⟨out, hout, houts, hlt, -, hr⟩ := hpost r (.inr (by rw [at_]; rfl))
    have hnone : ({ s.request r with post := .finished o } : Request R.toRunner).outs = 0 := by
      rcases hi : (s.request r).infer with _ | _ | _ | _ | _ | r | r <;> rw [hi] at hout <;> cases hout <;>
        simp [Request.outs, hi, outOf, Task.Pending]
    refine h.setRequest hr rfl rfl 0 0 (by simp) (by simp) ?_
    rw [hnone, houts, add_zero, add_zero, add_zero]
    refine Eq.trans ?_ (buffer_destroyOutput hbe hlt)
    rw [show (s.request r).infer.output = some out by rw [Task.output, hout], Option.elim_some]

theorem Lent.init (device : D) : Lent (init R.toRunner (R.backend device)) := by
  refine ⟨0, Nat.zero_le _, ?_⟩
  have hbuf : ((AsyncScheduler.init R.toRunner (R.backend device)).backend.gpuOutputBuffer.buffer : Multiset Ptr) =
      Multiset.range (R.bufferSize * 2) := by
    rw [AsyncScheduler.init, backend_gpuOutputBuffer]
    rfl
  rw [hbuf, add_zero]
  show Spread _ (Multiset.range (R.bufferSize * 2) + 0)
  rw [add_zero]
  exact ⟨le_rfl, fun p hp => Multiset.mem_range.1 hp⟩

theorem reachable_lent {device : D} {s : State R.toRunner}
    (h : (system R.toRunner (R.backend device)).Reachable s) : Lent s := by
  induction h with
  | init => exact Lent.init device
  | step hr _ hs ih =>
    exact ih.step (reachable_inv hr) (reachable_own hr) (reachable_stocked hr).backend (Move.of_step hs).2

end OnnxInference.AsyncScheduler
