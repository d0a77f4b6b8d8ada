import OnnxInference.Runner.CpuRunner
import OnnxInference.Runner.NAFNet
import OnnxInference.Runner.YoloDetector
import OnnxInference.Scheduler.AsyncDelivery

/-!
# Isolation of the requests of the CPU build

All requests store into the one input tensor.  From the first store of a request to its `session_->Run` the tensor
is in use, and nothing keeps another request from storing into it.  In the runs in which no request begins to store
other floats while the tensor is in use, every request gets what its image gets alone.
-/

namespace OnnxInference

open Concurrency Transition AsyncScheduler

namespace CpuRunner

variable {O : Type} {R : CpuRunner O}

/-! ### What a preprocess task holds -/

/-- The floats that the preprocessing of an image stores. -/
def stored (R : CpuRunner O) (img : Mat) : Option (List ℚ) := (R.prepare img).toOption.map (·.2)

/-- What `preprocess` returns for an image. -/
def prepared (R : CpuRunner O) (img : Mat) : Except Error R.Tensor := (R.prepare img).map fun x => R.bufferWith x.1

/-- A preprocess task works on the image and stores its floats. -/
def Storing.Of (R : CpuRunner O) (img : Mat) : Storing R.Tensor → Prop
  | .begin img' => img' = img
  | .store buf values i => ∃ params, R.prepare img = .ok (params, values) ∧ buf = R.bufferWith params ∧
      i ≤ values.length

theorem reaches_of {img : Mat} {l : R.preprocessProg.Local} (h : R.preprocessProg.Reaches img l) :
    Storing.Of R img l := by
  induction h with
  | start => exact rfl
  | @step c mem mem' l₀ l₁ _ hs ih =>
    cases l₀ with
    | begin img₀ =>
      have himg : img₀ = img := ih
      subst himg
      simp only [preprocessProg] at hs
      split at hs
      · cases hs
      · rename_i params values hp
        cases hs
        exact ⟨params, hp, rfl, Nat.zero_le _⟩
    | store buf values i =>
      simp only [preprocessProg] at hs
      split at hs
      · rename_i hlt
        cases hs
        obtain ⟨params, hp, hb, -⟩ := ih
        exact ⟨params, hp, hb, hlt⟩
      · cases hs

theorem ends_preprocess {img : Mat} {r : Except Error R.Tensor} (h : R.preprocessProg.Ends img r) :
    r = R.prepared img := by
  obtain ⟨c, mem, mem', l, hl, hs⟩ := h
  cases l with
  | begin img' =>
    have himg : img' = img := reaches_of hl
    subst himg
    simp only [preprocessProg] at hs
    split at hs
    · rename_i e he
      cases hs
      rw [prepared, he]
      rfl
    · cases hs
  | store buf values i =>
    obtain ⟨params, hp, rfl, -⟩ := reaches_of hl
    simp only [preprocessProg] at hs
    split at hs
    · cases hs
    · cases hs
      rw [prepared, hp]
      rfl

theorem reaches_infer {tenbuf : R.Tensor} {l : R.inferProg.Local} (h : R.inferProg.Reaches tenbuf l) :
    l = tenbuf := by
  induction h with
  | start => rfl
  | step _ hs => cases hs

/-! ### The tensor -/

/-- The request uses the tensor, and has stored its first `n` floats. -/
inductive InUse (q : AsyncScheduler.Request R.toRunner) : Nat → Prop
  | storing {buf : R.Tensor} {values : List ℚ} {i : Nat} (at_ : q.pre = .execute (.store buf values i)) : InUse q i
  | returned {buf : R.Tensor} (at_ : q.pre = .returned (.ok buf)) : InUse q R.backend.net.planeSize
  | queued {buf : R.Tensor} (at_ : q.infer = .queued buf) : InUse q R.backend.net.planeSize
  | start {buf : R.Tensor} (at_ : q.infer = .start buf) : InUse q R.backend.net.planeSize
  | execute {buf : R.Tensor} (at_ : q.infer = .execute buf) : InUse q R.backend.net.planeSize

theorem InUse.not_idle {q : AsyncScheduler.Request R.toRunner} {n : Nat} (hq : q.Sound) (h : InUse q n) :
    q.pre.status ≠ .idle := by
  intro hidle
  have hinfer : q.infer.status = .idle := hq.infer_idle (by simp [Task.outcome_of_idle hidle])
  cases h with
  | storing at_ | returned at_ => simp [at_] at hidle
  | queued at_ | start at_ | execute at_ => simp [at_] at hinfer

/-- Whether a request uses the tensor does not depend on its postprocess. -/
private theorem InUse.congr {q q' : AsyncScheduler.Request R.toRunner} {n : Nat} (h : InUse q' n)
    (hpre : q'.pre = q.pre) (hinfer : q'.infer = q.infer) : InUse q n := by
  cases h with
  | storing at_ => exact .storing (hpre ▸ at_)
  | returned at_ => exact .returned (hpre ▸ at_)
  | queued at_ => exact .queued (hinfer ▸ at_)
  | start at_ => exact .start (hinfer ▸ at_)
  | execute at_ => exact .execute (hinfer ▸ at_)

/-- A request whose inference has returned uses the tensor through its preprocess only. -/
private theorem InUse.of_infer {q q' : AsyncScheduler.Request R.toRunner} {n : Nat} (h : InUse q' n)
    (hpre : q'.pre = q.pre)
    (hinfer : ∀ buf, q'.infer ≠ .queued buf ∧ q'.infer ≠ .start buf ∧ q'.infer ≠ .execute buf) : InUse q n := by
  cases h with
  | storing at_ => exact .storing (hpre ▸ at_)
  | returned at_ => exact .returned (hpre ▸ at_)
  | queued at_ | start at_ | execute at_ => simp [at_] at hinfer

/-- A request whose preprocess runs does not use the tensor through its inference. -/
private theorem inUse_of_running {q : AsyncScheduler.Request R.toRunner} {n : Nat} (h : InUse q n)
    (hq : q.infer.status = .idle) : (∃ buf values, q.pre = .execute (.store buf values n)) ∨
      ∃ buf, q.pre = .returned (.ok buf) ∧ n = R.backend.net.planeSize := by
  cases h with
  | storing at_ => exact .inl ⟨_, _, at_⟩
  | returned at_ => exact .inr ⟨_, at_, rfl⟩
  | queued at_ | start at_ | execute at_ => simp [at_] at hq

/-- What a step does to the tensor and to its users. -/
inductive TensorStep (s : State R.toRunner) (l : Label Mat Unit) (s' : State R.toRunner) : Prop
  | quiet (mem : s'.backend = s.backend)
      (use : ∀ r n, InUse (s'.request r) n → ∃ n', n ≤ n' ∧ InUse (s.request r) n')
  | begin {r₀ : Nat} {img : Mat} (label : l = .advance .pre r₀ ())
      (at_ : (s.request r₀).pre = .execute (.begin img)) (ok : (R.stored img).isSome)
      (mem : s'.backend = s.backend)
      (use : ∀ r n, InUse (s'.request r) n → (r = r₀ ∧ n = 0) ∨ InUse (s.request r) n)
  | store {r₀ : Nat} {buf : R.Tensor} {values : List ℚ} {i : Nat} (hlt : i < values.length)
      (at_ : (s.request r₀).pre = .execute (.store buf values i))
      (mem : s'.backend = s.backend.set buf.data i values[i])
      (use : ∀ r n, InUse (s'.request r) n → (r = r₀ ∧ n = i + 1) ∨ InUse (s.request r) n)

private theorem use_update {s : State R.toRunner} {r₀ : Nat} {q : AsyncScheduler.Request R.toRunner}
    {P : Nat → Nat → Prop}
    (hq : ∀ n, InUse q n → P r₀ n) (h : ∀ r n, r ≠ r₀ → InUse (s.request r) n → P r n) (r n : Nat)
    (hu : InUse (Function.update s.request r₀ q r) n) : P r n := by
  rw [Function.update_apply] at hu
  split at hu
  · subst_vars; exact hq n hu
  · exact h r n ‹_› hu

/-- A step after which a request uses the tensor only as it did before. -/
private theorem use_kept {s : State R.toRunner} {r₀ : Nat} {q : AsyncScheduler.Request R.toRunner}
    (hq : ∀ n, InUse q n → InUse (s.request r₀) n) (r n : Nat) (hu : InUse (Function.update s.request r₀ q r) n) :
    ∃ n', n ≤ n' ∧ InUse (s.request r) n' :=
  ⟨n, le_rfl, use_update (P := fun r n => InUse (s.request r) n) hq (fun _ _ _ h => h) r n hu⟩

theorem tensorStep {s s' : State R.toRunner} {l : Label Mat Unit} (hi : Inv s)
    (hown : ∀ r img, s.images[r]? = some img → (s.request r).Own img) (m : Move s l s') : TensorStep s l s' := by
  have own : ∀ r, (s.request r).pre.status ≠ .idle → ∃ img, (s.request r).Own img := by
    intro r hr
    have hlt := (hi.submitted r).2 hr
    exact ⟨_, hown r _ (List.getElem?_eq_getElem hlt)⟩
  cases m with
  | misuse | destroyStart | stop | join | destroyStage =>
    exact .quiet rfl fun r n h => ⟨n, le_rfl, h⟩
  | submit | takePre | startPre | stoppedPre | throwPre | endPre =>
    refine .quiet rfl (use_kept fun n h => ?_)
    cases h with
    | storing h | returned h => cases h
    | queued h => exact .queued h
    | start h => exact .start h
    | execute h => exact .execute h
  | @runPre r₀ c l x at_ stepped =>
    have hidle : (s.request r₀).infer.status = .idle := (hi.sound r₀).infer_idle (by simp [at_])
    obtain ⟨img, himg⟩ := own r₀ (by simp [at_])
    have hl : Storing.Of R img l := reaches_of (by simpa [at_, Task.Of] using himg.pre)
    cases l with
    | begin img' =>
      simp only [preprocessProg] at stepped
      split at stepped
      · cases stepped
        refine .quiet rfl (use_update (fun n h => ?_) fun r n _ h => ⟨n, le_rfl, h⟩)
        obtain ⟨_, _, h⟩ | ⟨_, h, -⟩ := inUse_of_running h hidle <;> cases h
      · rename_i hp
        cases stepped
        refine .begin rfl at_ (by rw [stored, hp]; rfl) rfl
          (use_update (fun n h => .inl ⟨rfl, ?_⟩) fun r n _ h => .inr h)
        obtain ⟨_, _, h⟩ | ⟨_, h, -⟩ := inUse_of_running h hidle <;> cases h
        rfl
    | store buf values i =>
      obtain ⟨params, hp, -, hle⟩ := hl
      simp only [preprocessProg] at stepped
      split at stepped
      · rename_i hlt
        cases stepped
        refine .store hlt at_ rfl (use_update (fun n h => .inl ⟨rfl, ?_⟩) fun r n _ h => .inr h)
        obtain ⟨_, _, h⟩ | ⟨_, h, -⟩ := inUse_of_running h hidle <;> cases h
        rfl
      · cases stepped
        refine .quiet rfl (use_update (fun n h => ⟨i, ?_, .storing at_⟩) fun r n _ h => ⟨n, le_rfl, h⟩)
        obtain ⟨_, _, h⟩ | ⟨_, h, hn⟩ := inUse_of_running h hidle <;> cases h
        have := R.length_prepare hp
        omega
  | hopPre at_ accepted =>
    refine .quiet rfl (use_kept fun n h => ?_)
    cases h with
    | storing h | returned h | start h | execute h => cases h
    | queued h => exact .returned at_
  | takeInfer taken at_ =>
    refine .quiet rfl (use_kept fun n h => ?_)
    cases h with
    | storing h => exact .storing h
    | returned h => exact .returned h
    | queued h | execute h => cases h
    | start h => exact .queued at_
  | startInfer at_ =>
    refine .quiet rfl (use_kept fun n h => ?_)
    cases h with
    | storing h => exact .storing h
    | returned h => exact .returned h
    | queued h | start h => cases h
    | execute h => exact .start at_
  | runInfer at_ stepped =>
    cases stepped
    exact .quiet rfl (use_kept fun n h => h.of_infer rfl (by simp [Task.ofStep]))
  | hopInfer | stoppedInfer | throwInfer | endInfer =>
    exact .quiet rfl (use_kept fun n h => h.of_infer rfl (by simp))
  | takePost | startPost | throwPost | deliver | endPost =>
    refine .quiet ?_ (use_kept fun n h => h.congr rfl rfl)
    first | rfl | exact R.elim_destroyOutput _ _
  | runPost at_ stepped =>
    cases stepped
    exact .quiet rfl (use_kept fun n h => h.congr rfl rfl)

/-- A request stores other floats into the tensor only when no other request uses it. -/
def Exclusive (s : State R.toRunner) (l : Label Mat Unit) : Prop :=
  ∀ r img, l = .advance .pre r () → (s.request r).pre = .execute (.begin img) → (R.stored img).isSome →
    ∀ r' img' n, r' ≠ r → s.images[r']? = some img' → InUse (s.request r') n → R.stored img' = R.stored img

/-- The tensor holds the floats its users have stored, which are the same for all of them, and the slots behind
the first are as they were. -/
structure TensorInv (b : Memory) (s : State R.toRunner) : Prop where
  length : (s.backend R.backend.pdata).length = (b R.backend.pdata).length
  tail : ∀ k, R.backend.net.planeSize ≤ k → (s.backend R.backend.pdata)[k]? = (b R.backend.pdata)[k]?
  common : ∀ r r' img img' n n', s.images[r]? = some img → s.images[r']? = some img' → InUse (s.request r) n →
    InUse (s.request r') n' → R.stored img = R.stored img'
  holds : ∀ r img n values, s.images[r]? = some img → InUse (s.request r) n → R.stored img = some values →
    ∀ k < n, (s.backend R.backend.pdata)[k]? = values[k]?

theorem TensorInv.step {b : Memory} (hb : (b R.backend.pdata).length = R.backend.net.numElements)
    {s s' : State R.toRunner} {l : Label Mat Unit} (hi : Inv s)
    (hown : ∀ r img, s.images[r]? = some img → (s.request r).Own img) (hG : Exclusive s l) (m : Move s l s')
    (h : TensorInv b s) : TensorInv b s' := by
  have lt : ∀ {r n}, InUse (s.request r) n → s'.images[r]? = s.images[r]? :=
    fun hu => m.images_of_lt ((hi.submitted _).2 (hu.not_idle (hi.sound _)))
  cases tensorStep hi hown m with
  | quiet mem use =>
    refine ⟨mem ▸ h.length, mem ▸ h.tail, ?_, ?_⟩
    · intro r r' img img' n n' hr hr' hu hu'
      obtain ⟨_, -, hu⟩ := use r n hu
      obtain ⟨_, -, hu'⟩ := use r' n' hu'
      exact h.common r r' img img' _ _ (lt hu ▸ hr) (lt hu' ▸ hr') hu hu'
    · intro r img n values hr hu hv k hk
      obtain ⟨n', hn, hu⟩ := use r n hu
      rw [mem]
      exact h.holds r img n' values (lt hu ▸ hr) hu hv k (by omega)
  | @begin r₀ img₀ label at_ ok mem use =>
    have hlt : r₀ < s.images.length := (hi.submitted r₀).2 (by simp [at_])
    have himg : s.images[r₀]? = some img₀ := by
      have hof : Storing.Of R s.images[r₀] (.begin img₀) :=
        reaches_of (by simpa [at_, Task.Of] using (hown r₀ _ (List.getElem?_eq_getElem hlt)).pre)
      rw [List.getElem?_eq_getElem hlt, show img₀ = s.images[r₀] from hof]
    have himg' : s'.images[r₀]? = some img₀ := (m.images_of_lt hlt).trans himg
    have other : ∀ r img n, s'.images[r]? = some img → InUse (s.request r) n → R.stored img = R.stored img₀ := by
      intro r img n hr hu
      by_cases hne : r = r₀
      · subst hne
        rw [himg', Option.some.injEq] at hr
        rw [hr]
      · exact hG r₀ img₀ label at_ ok r img n hne (lt hu ▸ hr) hu
    refine ⟨mem ▸ h.length, mem ▸ h.tail, ?_, ?_⟩
    · intro r r' img img' n n' hr hr' hu hu'
      have same : ∀ r img n, s'.images[r]? = some img → InUse (s'.request r) n → R.stored img = R.stored img₀ := by
        intro r img n hr hu
        obtain ⟨rfl, -⟩ | hu := use r n hu
        · rw [himg', Option.some.injEq] at hr
          rw [hr]
        · exact other r img n hr hu
      rw [same r img n hr hu, same r' img' n' hr' hu']
    · intro r img n values hr hu hv k hk
      obtain ⟨-, rfl⟩ | hu := use r n hu
      · omega
      · rw [mem]
        exact h.holds r img n values (lt hu ▸ hr) hu hv k hk
  | @store r₀ buf values i hlt at_ mem use =>
    have hlt₀ : r₀ < s.images.length := (hi.submitted r₀).2 (by simp [at_])
    obtain ⟨img₀, himg⟩ : ∃ img₀, s.images[r₀]? = some img₀ := ⟨_, List.getElem?_eq_getElem hlt₀⟩
    obtain ⟨params, hp, rfl, -⟩ : Storing.Of R img₀ (.store buf values i) :=
      reaches_of (by simpa [at_, Task.Of] using (hown r₀ _ himg).pre)
    have hv₀ : R.stored img₀ = some values := by rw [stored, hp]; rfl
    have hplane := R.length_prepare hp
    have hslot := R.backend.net.slot_le R.backend.net.slot0
    have hmem : s'.backend R.backend.pdata = (s.backend R.backend.pdata).set i values[i] := by
      rw [mem, Memory.set, bufferWith, R.data_buffer, Function.update_self]
    have himg' : s'.images[r₀]? = some img₀ := (m.images_of_lt hlt₀).trans himg
    have used : ∀ r img n, s'.images[r]? = some img → InUse (s'.request r) n →
        ∃ n', s.images[r]? = some img ∧ InUse (s.request r) n' ∧ ((r = r₀ ∧ n = i + 1 ∧ n' = i) ∨ n' = n) := by
      intro r img n hr hu
      obtain ⟨rfl, rfl⟩ | hu := use r n hu
      · exact ⟨i, (m.images_of_lt hlt₀).symm.trans hr, .storing at_, .inl ⟨rfl, rfl, rfl⟩⟩
      · exact ⟨n, lt hu ▸ hr, hu, .inr rfl⟩
    refine ⟨by rw [hmem, List.length_set, h.length], ?_, ?_, ?_⟩
    · intro k hk
      rw [hmem, List.getElem?_set_ne (by omega), h.tail k hk]
    · intro r r' img img' n n' hr hr' hu hu'
      obtain ⟨_, hr, hu, -⟩ := used r img n hr hu
      obtain ⟨_, hr', hu', -⟩ := used r' img' n' hr' hu'
      exact h.common r r' img img' _ _ hr hr' hu hu'
    · intro r img n vs hr hu hvs k hk
      obtain ⟨n', hr, hu, hn⟩ := used r img n hr hu
      have hsame : vs = values := by
        have := h.common r r₀ img img₀ _ _ hr himg hu (.storing at_)
        rw [hvs, hv₀, Option.some.injEq] at this
        exact this
      subst hsame
      rw [hmem]
      by_cases hki : k = i
      · subst hki
        rw [List.getElem?_set_self (by rw [h.length, hb]; omega), List.getElem?_eq_getElem hlt]
      · rw [List.getElem?_set_ne (Ne.symm hki)]
        exact h.holds r img n' vs hr hu hvs k (by omega)

/-! ### The values -/

/-- What the inference of an image alone gives. -/
def inferAlone (R : CpuRunner O) (mem : Memory) (img : Mat) : Except Error R.Output := do
  let (mem, preOut) ← R.preprocess mem img
  R.backend.infer mem preOut

theorem detect_eq (R : CpuRunner O) (mem : Memory) (img : Mat) : R.detect mem img = (do
    let out ← R.inferAlone mem img
    let outs ← R.postprocess out
    return outs.at 0 Nat.one_pos) := by
  cases hp : R.preprocess mem img <;> simp [detect, inferAlone, hp, bind, Except.bind]

/-- When a request has stored its floats the tensor is as its image alone leaves it. -/
theorem TensorInv.eq_overlay {b : Memory} (hb : (b R.backend.pdata).length = R.backend.net.numElements)
    {s : State R.toRunner} (h : TensorInv b s) {r : Nat} {img : Mat} (hr : s.images[r]? = some img)
    (hu : InUse (s.request r) R.backend.net.planeSize) {params : LetterboxParams} {values : List ℚ}
    (hp : R.prepare img = .ok (params, values)) :
    s.backend R.backend.pdata = overlay 0 values (b R.backend.pdata) := by
  have hplane := R.length_prepare hp
  have hle := R.backend.net.slot_le R.backend.net.slot0
  refine List.ext_getElem? fun k => ?_
  rw [getElem?_overlay (by omega)]
  split
  · exact h.holds r img _ values hr hu (by rw [stored, hp]; rfl) k (by omega)
  · exact h.tail k (by omega)

/-- The inference of a request that reads the tensor gets what it would get alone. -/
theorem TensorInv.infer_eq {b : Memory} (hb : (b R.backend.pdata).length = R.backend.net.numElements)
    {s : State R.toRunner} (h : TensorInv b s) (hq : ∀ r, (s.request r).Sound) {r : Nat} {img : Mat}
    (hr : s.images[r]? = some img) (hown : (s.request r).Own img) {tenbuf : R.Tensor}
    (at_ : (s.request r).infer = .execute tenbuf) :
    R.backend.infer s.backend tenbuf = R.inferAlone b img := by
  obtain ⟨buf, hbuf⟩ : ∃ buf, (s.request r).pre.outcome = some (.ok buf) := by
    by_contra hne
    have := (hq r).infer_idle fun t ht => hne ⟨t, ht⟩
    simp [at_] at this
  have htenbuf : tenbuf = buf := by
    have hof := hown.infer buf hbuf
    rw [at_] at hof
    exact reaches_infer hof
  subst htenbuf
  have hprep := ends_preprocess (hown.pre.outcome hbuf)
  cases hp : R.prepare img with
  | error e => simp [prepared, hp, Except.map] at hprep
  | ok x =>
    obtain ⟨params, values⟩ := x
    have hbuf' : tenbuf = R.bufferWith params := by simpa [prepared, hp, Except.map] using hprep
    have hmem := h.eq_overlay hb hr (.execute at_) hp
    have hdata : (R.bufferWith params).data = R.backend.pdata := R.data_buffer
    simp only [inferAlone, preprocess, hp, hbuf', bind, Except.bind, pure, Except.pure, CpuBackend.infer, hdata,
      Memory.store_same, hmem]

/-- The result of the inference of a request appears only when it reads the tensor. -/
theorem infer_result {s s' : State R.toRunner} {l : Label Mat Unit} (m : Move s l s') {r : Nat}
    {x : Except Error R.Output}
    (h : (s'.request r).infer = .returned x ∨ (s'.request r).infer.outcome = some x) :
    ((s.request r).infer = .returned x ∨ (s.request r).infer.outcome = some x) ∨
      ∃ tenbuf, (s.request r).infer = .execute tenbuf ∧ x = R.backend.infer s.backend tenbuf := by
  cases m with
  | misuse | destroyStart | stop | join | destroyStage => exact .inl h
  | runInfer at_ stepped =>
    cases stepped
    simp only [State.setRequest, Function.update_apply] at h
    split at h
    · subst_vars
      refine .inr ⟨_, at_, ?_⟩
      simp only [Task.ofStep, Task.returned.injEq, Task.outcome_returned, reduceCtorEq, or_false] at h
      exact h.symm
    · exact .inl h
  | submit | takePre | takeInfer | takePost | startPre | startInfer | startPost | runPre | runPost | hopPre | hopInfer
  | stoppedPre | stoppedInfer | throwPre | throwInfer | throwPost | deliver | endPre | endInfer | endPost =>
    left
    simp only [State.setRequest, State.setExecutor, State.fault, Function.update_apply] at h
    split at h <;> simp_all

/-- What holds of the tensor and of the results of the inferences in the runs with exclusive use. -/
structure IsolationInv (b : Memory) (s : State R.toRunner) : Prop where
  tensor : TensorInv b s
  ran : ∀ r img x, s.images[r]? = some img →
    (s.request r).infer = .returned x ∨ (s.request r).infer.outcome = some x → x = R.inferAlone b img

theorem reachable_isolationInv {b : Memory} (hb : (b R.backend.pdata).length = R.backend.net.numElements)
    {s : State R.toRunner} (h : (system R.toRunner b).ReachBy Exclusive s) : IsolationInv b s := by
  induction h with
  | init =>
    refine ⟨⟨rfl, fun _ _ => rfl, ?_, ?_⟩, nofun⟩
    · exact fun _ _ _ _ _ _ h => nomatch h
    · exact fun _ _ _ _ h => nomatch h
  | @step s s' l hs hG hl ih =>
    have m := (Move.of_step hl).2
    have hi := reachable_inv hs.reachable
    have hown := reachable_own hs.reachable
    refine ⟨ih.tensor.step hb hi hown hG m, ?_⟩
    intro r img x hr hx
    have old : ∀ {img'}, s.images[r]? = some img' → img' = img := by
      intro img' hr'
      have := m.images_of_lt (List.getElem?_eq_some_iff.1 hr').1
      rw [hr, hr', Option.some.injEq] at this
      exact this.symm
    have hpre : (s.request r).infer.status ≠ .idle → s.images[r]? = some img := by
      intro hne
      have hlt : r < s.images.length := by
        refine (hi.submitted r).2 fun hidle => hne ((hi.sound r).infer_idle ?_)
        simp [Task.outcome_of_idle hidle]
      have hget := List.getElem?_eq_getElem hlt
      rw [hget, old hget]
    obtain hx | ⟨tenbuf, at_, rfl⟩ := infer_result m hx
    · refine ih.ran r img x (hpre fun hidle => ?_) hx
      obtain hx | hx := hx
      · simp [hx] at hidle
      · simp [Task.outcome_of_idle hidle] at hx
    · have hr := hpre (by simp [at_])
      exact ih.tensor.infer_eq hb hi.sound hr (hown r img hr) at_

/-- The exceptions of a stage as a promise gets them. -/
def asPromised (x : Except Error O) : Except (Exn Error) O := x.mapError .stage

/-- A request ends with what its image gives alone. -/
theorem result_eq {b : Memory} {s : State R.toRunner} (h : IsolationInv b s) {r : Nat} {img : Mat}
    (hr : s.images[r]? = some img) (hown : (s.request r).Own img) {x : Except (Exn Error) O}
    (hx : (s.request r).result = some x) : x = asPromised (R.detect b img) := by
  have hpre : ∀ y, (s.request r).pre.outcome = some y → y = R.prepared img :=
    fun y hy => ends_preprocess (hown.pre.outcome hy)
  have hpost : ∀ out y, (s.request r).infer.outcome = some (.ok out) → (s.request r).post.outcome = some y →
      y = R.postprocess out := fun out y ho hy => Prog.ends_ofFn ((hown.post out ho).outcome hy)
  have hinfer : ∀ y, (s.request r).infer.outcome = some y → y = R.inferAlone b img :=
    fun y hy => h.ran r img y hr (.inr hy)
  rw [detect_eq]
  unfold AsyncScheduler.Request.result at hx
  split at hx <;> cases hx
  · rename_i e hp
    have := hpre _ hp
    cases hprep : R.prepare img with
    | ok y => simp [prepared, hprep, Except.map] at this
    | error e' =>
      simp only [prepared, hprep, Except.map, Except.error.injEq] at this
      simp [inferAlone, preprocess, hprep, this, bind, Except.bind, asPromised, Except.mapError]
  · rename_i e hp hi
    simp [← hinfer _ hi, bind, Except.bind, asPromised, Except.mapError]
  · rename_i e hp hi ho
    simp [← hinfer _ hi, ← hpost _ _ hi ho, bind, Except.bind, asPromised, Except.mapError]
  · rename_i outs hp hi ho
    simp [← hinfer _ hi, ← hpost _ _ hi ho, bind, Except.bind, asPromised, Except.mapError, pure, Except.pure]

/-! ### Isolation -/

/-- Every value and every exception set on a promise is what the image of its request gives alone, and from the end
of a request's stores to its `session_->Run` the tensor is as the image alone leaves it. -/
structure Isolated (b : Memory) (s : State R.toRunner) : Prop where
  value : s.teardown = none → ∀ r img, s.images[r]? = some img → ∀ x ∈ (s.request r).promise,
    x = asPromised (R.detect b img)
  intact : ∀ r img mem' buf, s.images[r]? = some img → InUse (s.request r) R.backend.net.planeSize →
    R.preprocess b img = .ok (mem', buf) → s.backend R.backend.pdata = mem' R.backend.pdata

theorem isolated {b : Memory} (hb : (b R.backend.pdata).length = R.backend.net.numElements)
    {s : State R.toRunner} (h : (system R.toRunner b).ReachBy Exclusive s) : Isolated b s := by
  have hinv := reachable_isolationInv hb h
  have hi := reachable_inv h.reachable
  refine ⟨?_, ?_⟩
  · intro alive r img hr x hx
    have hres := (hi.sound r).result_of_mem ((reachable_open h.reachable alive).hopped r) hx
    exact result_eq hinv hr (reachable_own h.reachable r img hr) hres
  · intro r img mem' buf hr hu hpre
    cases hp : R.prepare img with
    | error e => simp [preprocess, hp, bind, Except.bind] at hpre
    | ok x =>
      obtain ⟨params, values⟩ := x
      have hdata : (R.bufferWith params).data = R.backend.pdata := R.data_buffer
      simp only [preprocess, hp, bind, Except.bind, pure, Except.pure, hdata] at hpre
      cases hpre
      rw [Memory.store_same]
      exact hinv.tensor.eq_overlay hb hr hu hp

end CpuRunner

/-! ### The two runners -/

def YoloDetector.cpuRunner (D : YoloDetector) (be : CpuBackend) : CpuRunner (List Detection) where
  backend := be
  buffer := be.getTensorBuffer
  data_buffer := rfl
  prepare := D.prepare be.net.size
  length_prepare := D.length_prepare
  postprocess out := (D.postprocess out).map fun outs => ⟨outs.1, be.net.batch_pos.trans_le outs.2⟩

def NAFNet.cpuRunner (cv : OpenCv) (be : CpuBackend) (bgr2rgb : Bool) : CpuRunner Mat where
  backend := be
  buffer := be.tensorBuffer
  data_buffer := rfl
  prepare := NAFNet.prepare ⟨cv, be.net, bgr2rgb⟩
  length_prepare := NAFNet.length_prepare
  postprocess out := .ok ⟨(NAFNet.postprocess out).1, be.net.batch_pos.trans_le (NAFNet.postprocess out).2⟩

namespace CpuRunner

/-- With either runner the requests are isolated in the runs in which none begins to store other floats into the
tensor while another uses it. -/
theorem isolated_of_exclusive (be : CpuBackend) {b : Memory} (hb : (b be.pdata).length = be.net.numElements) :
    (∀ (D : YoloDetector) s, (system (D.cpuRunner be).toRunner b).ReachBy Exclusive s → Isolated b s) ∧
    ∀ cv bgr2rgb s, (system (NAFNet.cpuRunner cv be bgr2rgb).toRunner b).ReachBy Exclusive s → Isolated b s :=
  ⟨fun _ _ h => isolated hb h, fun _ _ _ h => isolated hb h⟩

/-! ### A restoration of one pixel -/

/-- A network of one pixel that returns its input, with one thread in each executor. -/
def onePixelRunner : CpuRunner Mat :=
  NAFNet.cpuRunner (.reference OpenCv.nearest) ⟨⟨1, 1, 1, Nat.one_pos⟩, 1, 0, fun values => .ok ([1, 3, 1, 1], values)⟩
    true

def pixel (v : UInt8) : Mat := ⟨1, 1, [⟨v, v, v⟩], rfl⟩

def zeroMemory : Memory := fun _ => [0, 0, 0]

/-- The whole way of a task of request `r` through an executor, in `n` steps of its thread. -/
def trip (k : StageId) (r n : Nat) : List (Label Mat Unit) := .take k :: List.replicate n (.advance k r ())

/-- The request does not use the tensor. -/
def unused (q : AsyncScheduler.Request onePixelRunner.toRunner) : Bool :=
  (match q.pre with
    | .execute (.store ..) | .returned (.ok _) => false
    | _ => true) &&
  match q.infer with
    | .queued _ | .start _ | .execute _ => false
    | _ => true

private theorem not_inUse_of_unused {q : AsyncScheduler.Request onePixelRunner.toRunner} {n : Nat}
    (h : unused q = true) : ¬InUse q n := by
  intro hu
  cases hu with
  | storing at_ | returned at_ => simp [unused, at_] at h
  | queued at_ | start at_ | execute at_ => simp [unused, at_] at h

/-- No other request uses the tensor when one prepares its image. -/
def othersUnused (s : State onePixelRunner.toRunner) : Label Mat Unit → Bool
  | .advance .pre r _ => (List.range s.images.length).all fun r' => r' == r || unused (s.request r')
  | _ => true

private theorem exclusive_of_othersUnused {s : State onePixelRunner.toRunner} {l : Label Mat Unit}
    (h : othersUnused s l = true) : Exclusive s l := by
  rintro r img rfl - - r' img' n hne hr' hu
  have hlt := (List.getElem?_eq_some_iff.1 hr').1
  have hor := List.all_eq_true.1 h r' (List.mem_range.2 hlt)
  rcases Bool.or_eq_true_iff.1 hor with heq | hunused
  · exact absurd (beq_iff_eq.1 heq) hne
  · exact absurd hu (not_inUse_of_unused hunused)

/-- Two images: the second is prepared when the inference of the first has read the tensor, before its postprocess. -/
theorem isolated_of_exclusive_pixel : ∃ s,
    (system onePixelRunner.toRunner zeroMemory).ReachBy Exclusive s ∧ s.images = [pixel 7, pixel 9] ∧
      (s.request 0).promise ≠ [] ∧ (s.request 1).promise ≠ [] ∧ Isolated zeroMemory s := by
  obtain ⟨s, hs, hp⟩ := System.exists_reachable_of_run
    ((system onePixelRunner.toRunner zeroMemory).restrict othersUnused)
    (.submit (pixel 7) :: .submit (pixel 9) :: trip .pre 0 8 ++ trip .infer 0 4 ++ trip .pre 1 8 ++ trip .post 0 4 ++
      trip .infer 1 4 ++ trip .post 1 4)
    (fun s => s.images == [pixel 7, pixel 9] && !(s.request 0).promise.isEmpty && !(s.request 1).promise.isEmpty)
    (by decide +kernel)
  simp only [Bool.and_eq_true, beq_iff_eq, Bool.not_eq_true', List.isEmpty_eq_false_iff] at hp
  have hE := hs.of_restrict fun s l _ h => exclusive_of_othersUnused h
  exact ⟨s, hE, hp.1.1, hp.1.2, hp.2, (isolated_of_exclusive _ rfl).2 _ true s hE⟩

/-- Two images: the second is stored into the tensor before the inference of the first has read it, and the first
request is given the second image. -/
theorem two_pixels_not_isolated : ¬∀ s, (system onePixelRunner.toRunner zeroMemory).Reachable s →
    Isolated zeroMemory s := by
  intro h
  obtain ⟨s, hs, hp⟩ := System.exists_reachable_of_run (system onePixelRunner.toRunner zeroMemory)
    (.submit (pixel 7) :: .submit (pixel 9) :: trip .pre 0 8 ++ trip .pre 1 8 ++ trip .infer 0 4 ++ trip .post 0 4)
    (fun s => s.teardown.isNone && s.images == [pixel 7, pixel 9] &&
      (s.request 0).promise.map Except.toOption == [some (pixel 9)]) (by decide +kernel)
  simp only [Bool.and_eq_true, Option.isNone_iff_eq_none, beq_iff_eq] at hp
  obtain ⟨⟨alive, himg⟩, hm⟩ := hp
  obtain ⟨v, hpr, hv⟩ := List.map_eq_singleton_iff.1 hm
  have hval := (h s hs).value alive 0 (pixel 7) (by simp [himg]) v (by simp [hpr])
  have hd : (onePixelRunner.detect zeroMemory (pixel 7)).toOption = some (pixel 7) := by decide +kernel
  have hsame : (asPromised (onePixelRunner.detect zeroMemory (pixel 7))).toOption =
      (onePixelRunner.detect zeroMemory (pixel 7)).toOption := by
    cases onePixelRunner.detect zeroMemory (pixel 7) <;> rfl
  have hpixels : some (pixel 9) = some (pixel 7) := by rw [← hv, hval, hsame, hd]
  revert hpixels
  decide

end CpuRunner

end OnnxInference
