import OnnxInference.Runner.NAFNet
import OnnxInference.Scheduler.AsyncBuffers
import OnnxInference.Scheduler.BatchProgress

/-!
# The input buffers of both schedulers

In every run a buffer of the input pool is free once, or with one batch or request (`input_buffers_exclusive`).  None is
lost in the runs without a failing inference task (`input_buffers_conserved`).
-/

namespace OnnxInference

open Concurrency Transition CudaRunner

/-- Each of the `n` input buffers is free or with one holder.  Only the holder works on its buffer or releases it, the
lookup of `infer` succeeds, and no buffer is released that is free. -/
structure CudaBackend.Exclusive {D : Type} (n : Nat) (be : CudaBackend D) (held : Nat → Option Ptr)
    (uses finds releases : Nat → Ptr → Prop) : Prop where
  buffers : Ledger.Exclusive n be.pool.buffer held
  used : ∀ k p, uses k p → held k = some p
  apart : ∀ j k p, uses j p → uses k p → j = k
  found : ∀ k p, finds k p → p ∈ be.inputTensors
  released_once : ∀ k p, releases k p → p ∉ be.pool.buffer ∧ ∀ j, releases j p → j = k

theorem CudaBackend.Of.exclusive {D : Type} {n : Nat} {be : CudaBackend D} (hbe : be.Of n) {held : Nat → Option Ptr}
    {uses finds releases : Nat → Ptr → Prop} (h : Ledger.Exclusive n be.pool.buffer held)
    (huses : ∀ k p, uses k p → held k = some p) (hfinds : ∀ k p, finds k p → held k = some p)
    (hreleases : ∀ k p, releases k p → held k = some p) : be.Exclusive n held uses finds releases where
  buffers := h
  used := huses
  apart j k p hj hk := h.eq_of_held (huses j p hj) (huses k p hk)
  found k p hk := hbe.inputTensors p (h.held_lt k p (hfinds k p hk))
  released_once k p hk :=
    ⟨h.not_free (hreleases k p hk), fun j hj => h.eq_of_held (hreleases j p hj) (hreleases k p hk)⟩

variable {D C V X Img O : Type} {R : CudaRunner D C V X Img O}

namespace BatchScheduler

/-! ### Batches -/

namespace Batch

variable (x : Batch R.toBatchRunner)

/-- The buffer the batch owns, or has lost. -/
def held : Option Ptr := if x.owns || x.failed then some x.tenbuf.data else none

/-- A preprocess task or `session_->Run` of the batch is at work on the buffer. -/
def WorksOn (p : Ptr) : Prop :=
  (∃ (i : Nat) (l : R.preprocessAt.Local), x.pre[i]? = some (.execute l)) ∧ x.tenbuf.data = p ∨
    ∃ tenbuf out, x.infer = .execute (.inr (.run tenbuf out)) ∧ tenbuf.data = p

/-- `input_tensors_.find`. -/
def Finds (p : Ptr) : Prop := ∃ tenbuf, x.infer = .execute (.inr (.find tenbuf)) ∧ tenbuf.data = p

def Releases (p : Ptr) : Prop :=
  ∃ tenbuf out info, x.infer = .execute (.inr (.release tenbuf out info)) ∧ tenbuf.data = p

variable {x}

theorem stock_eq_held : x.stock = (x.held.toList : Multiset Ptr) := by
  unfold stock owned lost held owns failed
  rcases x.infer with _ | _ | _ | (_ | _ | _ | _ | _ | _) | (_ | _) | (_ | _) | (_ | _) <;> rfl

/-- A batch whose inference task has not called `infer` has its buffer. -/
theorem held_of_not_ok {images : List Img} (h : x.Sound images) (hnot : ¬x.AllOk) : x.held = some x.tenbuf.data := by
  have hi := h.infer
  unfold held owns failed
  rcases hinfer : x.infer with _ | _ | _ | (_ | l) | (_ | out) | (_ | out) | (_ | out) <;> try rfl
  · rw [hinfer] at hi
    exact absurd hi.1 hnot
  all_goals
    rw [hinfer] at hi
    exact absurd hi.1 hnot

theorem held_of_execute {l : InferAt R.Tensor X} (at_ : x.infer = .execute (.inr l)) (hl : l.released = false) :
    x.held = some x.tenbuf.data := by
  simp [held, owns, at_, Keeps, released, hl]

theorem Sound.held_of_worksOn {images : List Img} (h : x.Sound images) {p : Ptr} (hp : x.WorksOn p) :
    x.held = some p := by
  rcases hp with ⟨⟨i, l, ht⟩, rfl⟩ | ⟨tenbuf, out, at_, rfl⟩
  · refine held_of_not_ok h fun hall => ?_
    have hok := hall i _ ht
    simp at hok
  · have htensor : tenbuf = x.tenbuf := inferAt_of_sound h at_
    rw [held_of_execute at_ rfl, htensor]

theorem Sound.held_of_finds {images : List Img} (h : x.Sound images) {p : Ptr} (hp : x.Finds p) :
    x.held = some p := by
  obtain ⟨tenbuf, at_, rfl⟩ := hp
  have htensor : tenbuf = x.tenbuf := inferAt_of_sound h at_
  rw [held_of_execute at_ rfl, htensor]

theorem Sound.held_of_releases {images : List Img} (h : x.Sound images) {p : Ptr} (hp : x.Releases p) :
    x.held = some p := by
  obtain ⟨tenbuf, out, info, at_, rfl⟩ := hp
  have htensor : tenbuf = x.tenbuf := inferAt_of_sound h at_
  rw [held_of_execute at_ rfl, htensor]

end Batch

/-- Batch `b` exists and `P` holds of it. -/
def State.At (s : State R.toBatchRunner) (P : Batch R.toBatchRunner → Ptr → Prop) (b : Nat) (p : Ptr) : Prop :=
  ∃ x, s.batches[b]? = some x ∧ P x p

/-- Each input buffer is free or with one batch. -/
def Exclusive (s : State R.toBatchRunner) : Prop :=
  s.backend.Exclusive R.bufferSize (fun b => s.batches[b]?.bind Batch.held) (s.At Batch.WorksOn) (s.At Batch.Finds)
    (s.At Batch.Releases)

theorem StockInv.exclusive {s : State R.toBatchRunner} (h : StockInv s) : Exclusive s := by
  have hstock : Batch.stock (R := R) = fun x => (x.held.toList : Multiset Ptr) := funext fun x => Batch.stock_eq_held
  have hat : ∀ {P : Batch R.toBatchRunner → Ptr → Prop},
      (∀ (x : Batch R.toBatchRunner) p, x.Sound s.images → P x p → x.held = some p) →
        ∀ b p, s.At P b p → s.batches[b]?.bind Batch.held = some p := by
    rintro P hP b p ⟨x, hx, hp⟩
    rw [hx, Option.bind_some]
    exact hP x p (h.inv.kept.served.sound b x hx) hp
  refine h.stocked.backend.exclusive (Ledger.exclusive_of_total ?_) (hat fun x p hs => hs.held_of_worksOn)
    (hat fun x p hs => hs.held_of_finds) (hat fun x p hs => hs.held_of_releases)
  rw [← hstock]
  exact h.stocked.balance

end BatchScheduler

namespace AsyncScheduler

/-! ### Requests -/

namespace Request

variable (q : Request R.toRunner)

/-- The buffer that preprocess of the request has acquired. -/
def data : Option Ptr := (preHeld q.pre).or (q.pre.output.map TensorBuffer.data)

/-- The buffer the request owns, or has lost. -/
def held : Option Ptr := if q.owns || q.failed then q.data else none

def WorksOn (p : Ptr) : Prop :=
  (∃ l, q.pre = .execute (.upload p l)) ∨ ∃ tenbuf out, q.infer = .execute (.run tenbuf out) ∧ tenbuf.data = p

def Finds (p : Ptr) : Prop := ∃ tenbuf, q.infer = .execute (.find tenbuf) ∧ tenbuf.data = p

def Releases (p : Ptr) : Prop := ∃ tenbuf out info, q.infer = .execute (.release tenbuf out info) ∧ tenbuf.data = p

variable {q}

theorem stock_eq_held : q.stock = (q.held.toList : Multiset Ptr) := by
  unfold stock owned lost held owns failed data
  rcases q.pre with _ | _ | _ | (_ | _ | _) | (_ | _) | (_ | _) | (_ | _) <;>
    rcases q.infer with _ | _ | _ | (_ | _ | _ | _ | _) | (_ | _) | (_ | _) | (_ | _) <;> rfl

theorem Own.held_of_execute {img : Img} (h : q.Own img) (hs : q.Sound) {l : InferAt R.Tensor X}
    (at_ : q.infer = .execute l) (hl : l.released = false) {p : Ptr}
    (hp : ∀ tenbuf : R.Tensor, l.Of tenbuf → tenbuf.data = p) :
    q.held = some p := by
  obtain ⟨tenbuf, ht⟩ := hs.exists_tensor (by rw [at_]; exact nofun)
  have hstock := q.stock_execute ht at_
  rw [hl, hp tenbuf (h.inferAt_of ht at_), stock_eq_held] at hstock
  have hmem : p ∈ (q.held.toList : Multiset Ptr) := hstock ▸ Multiset.mem_singleton_self p
  simpa using hmem

theorem Own.held_of_worksOn {img : Img} (h : q.Own img) (hs : q.Sound) {p : Ptr} (hp : q.WorksOn p) :
    q.held = some p := by
  rcases hp with ⟨l, at_⟩ | ⟨tenbuf, out, at_, rfl⟩
  · simp [held, owns, data, at_, preHeld]
  · exact h.held_of_execute hs at_ rfl fun _ ht => congrArg _ ht.symm

theorem Own.held_of_finds {img : Img} (h : q.Own img) (hs : q.Sound) {p : Ptr} (hp : q.Finds p) :
    q.held = some p := by
  obtain ⟨tenbuf, at_, rfl⟩ := hp
  exact h.held_of_execute hs at_ rfl fun _ ht => congrArg _ ht.symm

theorem Own.held_of_releases {img : Img} (h : q.Own img) (hs : q.Sound) {p : Ptr} (hp : q.Releases p) :
    q.held = some p := by
  obtain ⟨tenbuf, out, info, at_, rfl⟩ := hp
  exact h.held_of_execute hs at_ rfl fun _ ht => congrArg _ ht.symm

end Request

/-- Each input buffer is free or with one request. -/
def Exclusive (s : State R.toRunner) : Prop :=
  s.backend.Exclusive R.bufferSize (fun r => (s.request r).held) (fun r => (s.request r).WorksOn)
    (fun r => (s.request r).Finds) fun r => (s.request r).Releases

theorem reachable_exclusive {device : D} {s : State R.toRunner}
    (h : (system R.toRunner (R.backend device)).Reachable s) : Exclusive s := by
  have hi := reachable_inv h
  have hs := reachable_stocked h
  have hidle : ∀ r, s.images.length ≤ r → (s.request r).pre.status = .idle := by
    intro r hr
    by_contra hne
    exact absurd ((hi.submitted r).2 hne) (by omega)
  have hown : ∀ r, (s.request r).pre.status ≠ .idle → ∃ img, (s.request r).Own img := by
    intro r hne
    exact ⟨_, reachable_own h r _ (List.getElem?_eq_getElem ((hi.submitted r).2 hne))⟩
  have hinfer : ∀ r l, (s.request r).infer = .execute l → (s.request r).pre.status ≠ .idle := by
    intro r l at_
    obtain ⟨tenbuf, ht⟩ := (hi.sound r).exists_tensor (by rw [at_]; exact nofun)
    exact status_ne_idle_of_outcome ht
  have hstock : Request.stock (R := R) = fun q => (q.held.toList : Multiset Ptr) :=
    funext fun q => Request.stock_eq_held
  refine hs.backend.exclusive (Ledger.exclusive_of_range (m := s.images.length) ?_ ?_) ?_ ?_ ?_
  · have hbalance := hs.balance
    rw [hstock] at hbalance
    exact hbalance
  · intro r hr
    have hstatus := hidle r hr
    rcases hq : (s.request r).pre with _ | _ | _ | _ | _ | _ | _ <;> rw [hq] at hstatus <;> cases hstatus
    simp [Request.held, Request.owns, Request.failed, hq, preHeld, Task.output]
  · intro r p hp
    have hne : (s.request r).pre.status ≠ .idle := by
      rcases hp with ⟨l, at_⟩ | ⟨tenbuf, out, at_, -⟩
      · simp [at_]
      · exact hinfer r _ at_
    obtain ⟨img, ho⟩ := hown r hne
    exact ho.held_of_worksOn (hi.sound r) hp
  · rintro r p ⟨tenbuf, at_, hp⟩
    obtain ⟨img, ho⟩ := hown r (hinfer r _ at_)
    exact ho.held_of_finds (hi.sound r) ⟨tenbuf, at_, hp⟩
  · rintro r p ⟨tenbuf, out, info, at_, hp⟩
    obtain ⟨img, ho⟩ := hown r (hinfer r _ at_)
    exact ho.held_of_releases (hi.sound r) ⟨tenbuf, out, info, at_, hp⟩

end AsyncScheduler

namespace CudaRunner

/-! ### Every run, and the runs without a failure -/

/-- In every run of either scheduler each input buffer is free or with one holder. -/
theorem input_buffers_exclusive (R : CudaRunner D C V X Img O) (device : D) :
    (∀ s, (BatchScheduler.system R.toBatchRunner (R.backend device)).Reachable s → BatchScheduler.Exclusive s) ∧
    ∀ s, (AsyncScheduler.system R.toRunner (R.backend device)).Reachable s → AsyncScheduler.Exclusive s :=
  ⟨fun _ h => (BatchScheduler.reachable_stocked h).exclusive, fun _ h => AsyncScheduler.reachable_exclusive h⟩

/-- In the runs in which no inference task gets an exception or is refused the input buffers are conserved, and the
worker of the batch scheduler is not blocked for ever unless a thread waits for ever in a stage of the runner. -/
theorem input_buffers_conserved (R : CudaRunner D C V X Img O) (device : D) :
    (∀ s, (BatchScheduler.system R.toBatchRunner (R.backend device)).ReachBy BatchScheduler.Unfailing s →
      BatchScheduler.Conserved s ∧
        (s.worker = .getTensorBuffer → (∀ c, ¬s.Hangs c) → BatchScheduler.Unblocked s)) ∧
    ∀ s, (AsyncScheduler.system R.toRunner (R.backend device)).ReachBy AsyncScheduler.Unfailing s →
      AsyncScheduler.Conserved s := by
  refine ⟨fun s h => ⟨?_, BatchScheduler.unblocked h⟩, fun s h => AsyncScheduler.conserved h⟩
  exact (BatchScheduler.unfailing_lent h).conserved (BatchScheduler.reachable_stocked h.reachable)

end CudaRunner

/-! ### NAFNet -/

/-- A procedure that returns in one step. -/
private theorem step_ofFn_ne {B I A : Type} {f : I → Except Error A} {c : Unit} {b b' : B} {l l' : I} :
    (Prog.ofFn (C := Unit) f).step c b l ≠ some (b', .inl l') := nofun

/-- NAFNet with a model; the memory is that of the input buffers.  The slots of the tasks are those of the batch. -/
def NAFNet.cudaRunner (N : NAFNet) (model : SlotModel) (bufferSize : Nat) (pos : 0 < bufferSize) :
    CudaRunner Memory Unit (LetterboxParams × List ℚ) (ModelOutput N.net.batch) Mat Mat where
  bufferSize := bufferSize
  bufferSize_pos := pos
  batch := N.net.batch
  batch_pos := N.batch_pos
  preprocessAt := {
    Local := Mat × Nat
    start := id
    step := fun _ s l =>
      if h : l.2 < N.net.batch then
        match N.preprocessAt s.1 l.1 s.2 ⟨l.2, h⟩ with
        | .ok s' => some (s', .inr (.ok ()))
        | .error e => some (s, .inr (.error e))
      else none }
  data_preprocessAt := by
    intro c s l s' x h
    simp only [NAFNet.preprocessAt, bind, Except.bind] at h
    split at h
    · split at h
      · rename_i y hy
        cases h
        split at hy
        · cases hy
        · split at hy <;> cases hy
          rfl
      · cases h
        rfl
    · cases h
  preprocessBound := ⟨fun _ => 0, by
    intro c s s' l l' h
    dsimp only at h
    split at h
    · split at h <;> cases h
    · cases h⟩
  prepare := .ofFn N.prepare
  upload := {
    Local := (LetterboxParams × List ℚ) × Ptr
    start := id
    step := fun _ mem l =>
      some (mem.store l.2 0 l.1.2, .inr (.ok (Function.update (fun _ => .zero) N.net.slot0 l.1.1))) }
  run := fun _ mem tenbuf _ => (mem, .ok (N.infer model mem tenbuf))
  postprocess := .ofFn fun out => .ok (NAFNet.postprocess out.info)
  postprocessBound := ⟨fun _ => 0, fun h => absurd h step_ofFn_ne⟩
  postSteps := 0
  postSteps_le _ := Nat.le_refl 0

namespace CudaRunner

/-! ### A restoration of one pixel -/

/-- A network of one pixel that returns its input, with one input buffer. -/
def onePixelRunner : CudaRunner Memory Unit (LetterboxParams × List ℚ) (ModelOutput 1) Mat Mat :=
  NAFNet.onePixel.cudaRunner (NAFNet.identityModel NAFNet.onePixel.net) 1 Nat.one_pos

/-- The way of a batch of one image through the worker and its three stages. -/
def batchRun (img : Mat) : List (BatchScheduler.Label Mat Unit) :=
  .submit img :: List.replicate 5 .work ++ .take .pre :: List.replicate 4 (.advancePre 0 0 ()) ++
    .take .infer :: List.replicate 10 (.advanceInfer 0 ()) ++ .take .post :: List.replicate 5 (.advancePost 0 ())

def requestRun (img : Mat) : List (AsyncScheduler.Label Mat Unit) :=
  .submit img :: .take .pre :: List.replicate 6 (.advance .pre 0 ()) ++
    .take .infer :: List.replicate 8 (.advance .infer 0 ()) ++ .take .post :: List.replicate 5 (.advance .post 0 ())

/-- No preprocess task has thrown. -/
def allPrepared (s : BatchScheduler.State onePixelRunner.toBatchRunner) (_ : BatchScheduler.Label Mat Unit) : Bool :=
  s.batches.all fun x => x.pre.all fun t => match t.outcome with
    | some (.error _) => false
    | _ => true

private theorem unfailing_of_allPrepared {s : BatchScheduler.State onePixelRunner.toBatchRunner}
    {l : BatchScheduler.Label Mat Unit} (h : allPrepared s l = true) : BatchScheduler.Unfailing s l := by
  refine ⟨fun b c x i t e _ hx _ ht herr => ?_, fun b c x tenbuf out e _ _ _ => nofun⟩
  have hx' := List.all_eq_true.1 h x (List.mem_of_getElem? hx)
  have ht' := List.all_eq_true.1 hx' t (List.mem_of_getElem? ht)
  rw [herr] at ht'
  cases ht'

/-- The inference executor runs. -/
def inferRuns (s : AsyncScheduler.State onePixelRunner.toRunner) (_ : AsyncScheduler.Label Mat Unit) : Bool :=
  (s.executor .infer).isRunning

private theorem unfailing_of_inferRuns {s : AsyncScheduler.State onePixelRunner.toRunner}
    {l : AsyncScheduler.Label Mat Unit} (h : inferRuns s l = true) : AsyncScheduler.Unfailing s l := by
  refine ⟨fun r c tenbuf out e _ _ => nofun, fun r c tenbuf _ _ threw => ?_⟩
  unfold inferRuns at h
  simp only [ThreadPool.enqueue, h, Bool.not_true, Bool.false_eq_true, if_false] at threw
  split at threw <;> cases threw

abbrev pixelMemory : Memory := fun _ => [0, 0, 0]

/-- No task is in a stage. -/
def noneExecutes (s : BatchScheduler.State onePixelRunner.toBatchRunner) : Bool :=
  s.batches.all fun x =>
    (x.pre.all fun t => match t with
      | .execute _ => false
      | _ => true) && match x.post with
      | .execute _ => false
      | _ => true

private theorem not_hangs_of_noneExecutes {s : BatchScheduler.State onePixelRunner.toBatchRunner}
    (h : noneExecutes s = true) (c : Unit) : ¬s.Hangs c := by
  rintro ⟨⟨b, i, x, l, hx, ht, -⟩ | ⟨b, x, callBack, l, hx, ht, -⟩, -⟩
  · have hx' := List.all_eq_true.1 h x (List.mem_of_getElem? hx)
    rw [Bool.and_eq_true] at hx'
    exact Bool.false_ne_true (List.all_eq_true.1 hx'.1 _ (List.mem_of_getElem? ht))
  · have hx' := List.all_eq_true.1 h x (List.mem_of_getElem? hx)
    rw [Bool.and_eq_true, ht] at hx'
    exact Bool.false_ne_true hx'.2

/-- A request that has been answered in either scheduler, and a worker that waits for the buffer of another batch. -/
theorem input_buffers_conserved_pixel :
    ((∃ s : BatchScheduler.State onePixelRunner.toBatchRunner, BatchScheduler.Conserved s ∧ s.promise 0 ≠ []) ∧
      ∃ s : BatchScheduler.State onePixelRunner.toBatchRunner, s.worker = .getTensorBuffer ∧
        s.backend.pool.buffer = [] ∧ BatchScheduler.Unblocked s) ∧
      ∃ s : AsyncScheduler.State onePixelRunner.toRunner, AsyncScheduler.Conserved s ∧
        (s.request 0).promise ≠ [] := by
  refine ⟨⟨?_, ?_⟩, ?_⟩
  · obtain ⟨s, hs, hp⟩ := System.exists_reachable_of_run
      ((BatchScheduler.system onePixelRunner.toBatchRunner (onePixelRunner.backend pixelMemory)).restrict allPrepared)
      (batchRun NAFNet.greyPixel) (fun s => !(s.promise 0).isEmpty) (by decide +kernel)
    have hG := hs.of_restrict fun s l _ h => unfailing_of_allPrepared h
    exact ⟨s, ((input_buffers_conserved onePixelRunner pixelMemory).1 s hG).1, by simpa using hp⟩
  · obtain ⟨s, hs, hp⟩ := System.exists_reachable_of_run
      ((BatchScheduler.system onePixelRunner.toBatchRunner (onePixelRunner.backend pixelMemory)).restrict allPrepared)
      [List.replicate 2 (.submit NAFNet.greyPixel), List.replicate 6 .work].flatten
      (fun s => decide (s.worker = .getTensorBuffer) && s.backend.pool.buffer.isEmpty && noneExecutes s)
      (by decide +kernel)
    simp only [Bool.and_eq_true, decide_eq_true_eq, List.isEmpty_iff] at hp
    have hG := hs.of_restrict fun s l _ h => unfailing_of_allPrepared h
    exact ⟨s, hp.1.1, hp.1.2, ((input_buffers_conserved onePixelRunner pixelMemory).1 s hG).2 hp.1.1
      (not_hangs_of_noneExecutes hp.2)⟩
  · obtain ⟨s, hs, hp⟩ := System.exists_reachable_of_run
      ((AsyncScheduler.system onePixelRunner.toRunner (onePixelRunner.backend pixelMemory)).restrict inferRuns)
      (requestRun NAFNet.greyPixel) (fun s => !(s.request 0).promise.isEmpty) (by decide +kernel)
    have hG := hs.of_restrict fun s l _ h => unfailing_of_inferRuns h
    exact ⟨s, (input_buffers_conserved onePixelRunner pixelMemory).2 s hG, by simpa using hp⟩

/-- An image larger than the network: `pad_to_size` throws, the inference task gets the exception, and when the request
has finished the only input buffer is not free. -/
theorem oversize_not_conserved :
    ¬∀ s, (BatchScheduler.system onePixelRunner.toBatchRunner (onePixelRunner.backend pixelMemory)).Reachable s →
      BatchScheduler.Conserved s := by
  intro h
  obtain ⟨s, hs, hp⟩ := System.exists_reachable_of_run
    (BatchScheduler.system onePixelRunner.toBatchRunner (onePixelRunner.backend pixelMemory))
    [[.submit (.ofFn 2 2 fun _ _ => ⟨100, 100, 100⟩)], List.replicate 5 .work, [.take .pre],
      List.replicate 4 (.advancePre 0 0 ()), [.take .infer], List.replicate 4 (.advanceInfer 0 ())].flatten
    (fun s => s.images.length == 1 && s.backend.pool.buffer.isEmpty && !(s.promise 0).isEmpty) (by decide +kernel)
  simp only [Bool.and_eq_true, beq_iff_eq, List.isEmpty_iff, Bool.not_eq_true', List.isEmpty_eq_false_iff] at hp
  obtain ⟨⟨himg, hpool⟩, hprom⟩ := hp
  have hfree := (h s hs).all_free fun r hr => .inl (by
    obtain rfl : r = 0 := by omega
    exact hprom)
  rw [InferTensorBufferPool.available, hpool] at hfree
  cases hfree

/-- The same network with two input buffers. -/
def twoBufferRunner : CudaRunner Memory Unit (LetterboxParams × List ℚ) (ModelOutput 1) Mat Mat :=
  NAFNet.onePixel.cudaRunner (NAFNet.identityModel NAFNet.onePixel.net) 2 Nat.two_pos

/-- Two batches between `GetTensorBuffer` and the release, and two requests there. -/
theorem input_buffers_exclusive_pixel :
    (∃ s : BatchScheduler.State twoBufferRunner.toBatchRunner,
      BatchScheduler.Exclusive s ∧ s.batches.length = 2 ∧ s.backend.pool.buffer = []) ∧
      ∃ s : AsyncScheduler.State twoBufferRunner.toRunner, AsyncScheduler.Exclusive s ∧ s.images.length = 2 ∧
        s.backend.pool.buffer = [] := by
  constructor
  · obtain ⟨s, hs, hp⟩ := System.exists_reachable_of_run
      (BatchScheduler.system twoBufferRunner.toBatchRunner (twoBufferRunner.backend pixelMemory))
      [List.replicate 2 (.submit NAFNet.greyPixel), List.replicate 7 .work].flatten
      (fun s => s.batches.length == 2 && s.backend.pool.buffer.isEmpty) (by decide +kernel)
    simp only [Bool.and_eq_true, beq_iff_eq, List.isEmpty_iff] at hp
    exact ⟨s, (input_buffers_exclusive twoBufferRunner pixelMemory).1 s hs, hp⟩
  · obtain ⟨s, hs, hp⟩ := System.exists_reachable_of_run
      (AsyncScheduler.system twoBufferRunner.toRunner (twoBufferRunner.backend pixelMemory))
      [List.replicate 2 (.submit NAFNet.greyPixel), [.take .pre], List.replicate 3 (.advance .pre 0 ()), [.take .pre],
        List.replicate 3 (.advance .pre 1 ())].flatten
      (fun s => s.images.length == 2 && s.backend.pool.buffer.isEmpty) (by decide +kernel)
    simp only [Bool.and_eq_true, beq_iff_eq, List.isEmpty_iff] at hp
    exact ⟨s, (input_buffers_exclusive twoBufferRunner pixelMemory).2 s hs, hp⟩

end CudaRunner

end OnnxInference
