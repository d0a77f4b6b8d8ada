import OnnxInference.Scheduler.InputBuffers

/-!
# The tensor buffer of a batch and its preprocess tasks

The preprocess tasks hold a plain pointer to the tensor buffer, which the closure of the inference task owns.  That task
waits for their futures in order, and leaves the loop with the first exception; the later tasks may then still be queued
or running.
-/

namespace OnnxInference.BatchScheduler

open Concurrency Transition

variable {B C Img T M O ε : Type} {R : BatchRunner B C Img T M O ε}

/-- All preprocess tasks have ended, with or without an exception. -/
def Batch.Ready (x : Batch R) : Prop := ∀ t ∈ x.pre, t.outcome ≠ none

/-- The tensor buffer outlives its users: once an inference task has ended, or a promise of its batch has been set, the
preprocess tasks of the batch have ended. -/
structure Outlives (s : State R) : Prop where
  ended : ∀ x ∈ s.batches, x.infer.outcome ≠ none → x.Ready
  promised : ∀ (b i r : Nat) (x : Batch R), s.batches[b]? = some x → x.prms[i]? = some r → s.promise r ≠ [] → x.Ready

/-- In this step no inference task gets the exception of a preprocess task while another one of its batch has not
ended. -/
def Awaited (s : State R) (l : Label Img C) : Prop :=
  ∀ (b : Nat) (c : C) (x : Batch R) (i : Nat) (t : _) (e : ε), l = .advanceInfer b c → s.batches[b]? = some x →
    x.infer = .execute (.inl i) → x.pre[i]? = some t → t.outcome = some (.error e) → x.Ready

namespace Batch

/-- From the return of the inference task on its preprocess tasks have ended. -/
def Waited (x : Batch R) : Prop := (∃ r, x.infer = .returned r) ∨ x.infer.outcome ≠ none → x.Ready

variable {x y : Batch R}

theorem Waited.of_eq (h : x.Waited) (hinfer : y.infer = x.infer) (hpre : y.pre = x.pre) : y.Waited := by
  intro hy
  rw [hinfer] at hy
  unfold Ready
  rw [hpre]
  exact h hy

/-- A preprocess task that has ended stays so. -/
theorem Waited.setPre (h : x.Waited) {i : Nat} {t t' : Task (Img × Nat) R.preprocess.Local Unit ε}
    (ht : x.pre[i]? = some t) (hinfer : y.infer = x.infer) (hpre : y.pre = x.pre.set i t')
    (hout : t.outcome ≠ none → t'.outcome ≠ none) : y.Waited := by
  intro hy u hu
  rw [hinfer] at hy
  rw [hpre] at hu
  rcases List.mem_or_eq_of_mem_set hu with hu | rfl
  · exact h hy u hu
  · exact hout (h hy t (List.mem_of_getElem? ht))

theorem Waited.of_ready (h : x.Ready) (hpre : y.pre = x.pre) : y.Waited := by
  intro _
  unfold Ready
  rw [hpre]
  exact h

theorem Waited.of_pending (hret : ∀ r, y.infer ≠ .returned r) (hnone : y.infer.outcome = none) : y.Waited := by
  rintro (⟨r, hr⟩ | hr)
  · exact absurd hr (hret r)
  · exact absurd hnone hr

theorem AllOk.ready (h : x.AllOk) : x.Ready := by
  intro t ht
  obtain ⟨i, hi⟩ := List.mem_iff_getElem?.1 ht
  rw [h i t hi]
  exact nofun

end Batch

private theorem waited_set {l : List (Batch R)} (h : ∀ x ∈ l, x.Waited) {b : Nat} {y : Batch R} (hy : y.Waited) :
    ∀ x ∈ l.set b y, x.Waited := by
  intro x hx
  rcases List.mem_or_eq_of_mem_set hx with hx | rfl
  · exact h x hx
  · exact hy

theorem Move.waited {s s' : State R} {l : Label Img C} (hm : Move s l s') (h : ∀ x ∈ s.batches, x.Waited)
    (hk : Kept s) (hG : Awaited s l) : ∀ x ∈ s'.batches, x.Waited := by
  have hx_of : ∀ {b : Nat} {x : Batch R}, s.batches[b]? = some x → x.Waited := fun hx => h _ (List.mem_of_getElem? hx)
  cases hm with
  | submit | turn | breakOut | misuse | destroyStart | close | joinWorker | stopPre | stopInfer | stopPost | joinPre
  | joinInfer | joinPost | destroyQueues => exact h
  | acquire =>
    intro x hx
    rcases List.mem_append.1 hx with hx | hx
    · exact h x hx
    · rw [List.mem_singleton.1 hx]
      exact .of_pending nofun rfl
  | fill at_ lt hx =>
    -- the inference task of this batch has not been enqueued
    obtain ⟨z, hz, -, -, hnone, -⟩ := (hk.worked.fill _ _ _ at_).members
    rw [hx, Option.some.injEq] at hz
    subst hz
    exact waited_set h (.of_pending (by simp [hnone]) (by simp [hnone]))
  | takePre _ hx at_ | startPre hx at_ | runPre hx at_ | returnPre hx at_ =>
    exact waited_set h ((hx_of hx).setPre at_ rfl rfl fun hne => absurd rfl hne)
  | endPre hx at_ => exact waited_set h ((hx_of hx).setPre at_ rfl rfl fun _ => nofun)
  | enqueueInfer | takeInfer | startInfer | get | callInfer => exact waited_set h (.of_pending nofun rfl)
  | rethrow hx at_ ht error => exact waited_set h (.of_ready (hG _ _ _ _ _ _ rfl hx at_ ht error) rfl)
  | runInfer hx at_ =>
    have hi := (hk.served.sound _ _ hx).infer
    rw [at_] at hi
    exact waited_set h (.of_ready hi.1.ready rfl)
  | hop hx at_ | drop hx at_ | throwInfer hx at_ => exact waited_set h (.of_ready (hx_of hx (.inl ⟨_, at_⟩)) rfl)
  | endInfer hx at_ => exact waited_set h (.of_ready (hx_of hx (.inr (by rw [at_]; exact nofun))) rfl)
  | takePost _ hx | startPost hx | runPost hx | deliver hx | throwPost hx | endPost hx =>
    exact waited_set h ((hx_of hx).of_eq rfl rfl)

/-- What the inference task does with the exception of a preprocess task. -/
theorem rethrow_of_not_awaited {s s' : State R} {l : Label Img C} (hn : ¬Awaited s l) (hs : step s l = some s') :
    ∃ (b : Nat) (x : Batch R) (e : ε), s'.batches[b]? = some x ∧ s'.undefined = false ∧
      x.infer = .returned (.error e) ∧
      ¬x.Ready := by
  unfold Awaited at hn
  push Not at hn
  obtain ⟨b, c, x, i, t, e, rfl, hx, at_, ht, herr, hready⟩ := hn
  obtain ⟨hu, -⟩ := Move.of_step hs
  simp only [step, hu, advanceInfer, hx, at_, ht, herr, Option.bind_eq_bind, Option.bind_some] at hs
  cases hs
  have hlt : b < s.batches.length := (List.getElem?_eq_some_iff.1 hx).1
  exact ⟨b, { x with infer := .returned (.error e) }, e, by simp [State.setBatch, hlt], hu, rfl, hready⟩

/-- The `catch` of the inference task. -/
theorem throwInfer_step {s : State R} (hu : s.undefined = false) {k : Nat} {x : Batch R} {e : ε}
    (hx : s.batches[k]? = some x) (at_ : x.infer = .returned (.error e)) (c : C) :
    ∃ s' : State R, step s (.advanceInfer k c) = some s' ∧
      s'.batches = s.batches.set k { x with infer := .ending (.error e) } :=
  ⟨_, by simp only [step, hu, advanceInfer, hx, at_, Option.bind_eq_bind, Option.bind_some]; rfl, rfl⟩

/-- In the runs in which no inference task leaves its loop early the tensor buffers outlive their users.  When one does,
its thread is one step from a state in which its buffer does not. -/
theorem outlives_of_awaited (R : BatchRunner B C Img T M O ε) (b : B) :
    (∀ s, (system R b).ReachBy Awaited s → Outlives s) ∧
    ∀ s (l : Label Img C) s', step s l = some s' → ¬Awaited s l →
      ∃ k, ∀ c : C, ∃ s'' : State R, step s' (.advanceInfer k c) = some s'' ∧ ¬Outlives s'' := by
  constructor
  · intro s h
    have hwaited : ∀ x ∈ s.batches, x.Waited := by
      induction h with
      | init => exact fun x hx => absurd hx List.not_mem_nil
      | step hr hG hs ih => exact (Move.of_step hs).2.waited ih (reachable_inv hr.reachable).kept hG
    have hserved := (reachable_inv h.reachable).kept.served
    refine ⟨fun x hx ho => hwaited x hx (.inr ho), fun b i r x hx hi hr => ?_⟩
    refine hwaited x (List.mem_of_getElem? hx) (.inr fun hnone => hr ?_)
    rw [hserved.member b x i r hx hi, Batch.result, hnone]
  · intro s l s' hs hn
    obtain ⟨k, x, e, hx, hu, at_, hready⟩ := rethrow_of_not_awaited hn hs
    refine ⟨k, fun c => ?_⟩
    obtain ⟨s'', hs'', hbatches⟩ := throwInfer_step hu hx at_ c
    refine ⟨s'', hs'', fun ho => hready ?_⟩
    have hlt : k < s'.batches.length := (List.getElem?_eq_some_iff.1 hx).1
    have hmem : { x with infer := .ending (.error e) } ∈ s''.batches := hbatches ▸ List.mem_set hlt _
    exact ho.ended { x with infer := .ending (.error e) } hmem (by simp)

/-! ### A batch of two images -/

/-- NAFNet on a network of one pixel with batches of two. -/
def twoPixels : CudaRunner Memory Unit (LetterboxParams × List ℚ) (ModelOutput 2) Mat Mat :=
  NAFNet.cudaRunner ⟨.reference OpenCv.nearest, ⟨2, 1, 1, Nat.two_pos⟩, true⟩
    (NAFNet.identityModel NAFNet.onePixel.net) 1 Nat.one_pos

abbrev pairSystem := system twoPixels.toBatchRunner (twoPixels.backend CudaRunner.pixelMemory)

/-- An inference task takes its steps when all preprocess tasks have ended. -/
def allEnded (s : State twoPixels.toBatchRunner) : Label Mat Unit → Bool
  | .advanceInfer _ _ => s.batches.all fun x => x.pre.all fun t => t.outcome.isSome
  | _ => true

private theorem awaited_of_allEnded {s : State twoPixels.toBatchRunner} {l : Label Mat Unit}
    (h : allEnded s l = true) :
    Awaited s l := by
  rintro b c x i t e rfl hx - - - u hu
  have hx' := List.all_eq_true.1 h x (List.mem_of_getElem? hx)
  have hu' := List.all_eq_true.1 hx' u hu
  exact Option.isSome_iff_ne_none.1 hu'

def oversize : Mat := .ofFn 2 2 fun _ _ => ⟨100, 100, 100⟩

/-- Two images fill a batch; the worker goes on until it has enqueued the inference task. -/
def dispatchPair (img img' : Mat) : List (Label Mat Unit) :=
  .submit img :: .submit img' :: List.replicate 6 .work

/-- The second image is too large; the inference task starts after both preprocess tasks. -/
theorem outlives_of_awaited_pair :
    ∃ s : State twoPixels.toBatchRunner, Outlives s ∧ s.promise 0 ≠ [] ∧ s.promise 1 ≠ [] := by
  obtain ⟨s, hs, hp⟩ := System.exists_reachable_of_run (pairSystem.restrict allEnded)
    (dispatchPair NAFNet.greyPixel oversize ++ (.take .pre :: List.replicate 4 (.advancePre 0 0 ())) ++
      (.take .pre :: List.replicate 4 (.advancePre 0 1 ())) ++ .take .infer :: List.replicate 5 (.advanceInfer 0 ()))
    (fun s => !(s.promise 0).isEmpty && !(s.promise 1).isEmpty) (by decide +kernel)
  simp only [Bool.and_eq_true, Bool.not_eq_true', List.isEmpty_eq_false_iff] at hp
  have hG := hs.of_restrict fun s l _ h => awaited_of_allEnded h
  exact ⟨s, (outlives_of_awaited twoPixels.toBatchRunner _).1 s hG, hp.1, hp.2⟩

/-- The first image is too large: its exception ends the inference task while the task of the second is queued. -/
theorem oversize_not_outlives :
    ¬∀ s, pairSystem.Reachable s → Outlives s := by
  intro h
  obtain ⟨s, hs, hp⟩ := System.exists_reachable_of_run pairSystem
    (dispatchPair oversize NAFNet.greyPixel ++ (.take .pre :: List.replicate 4 (.advancePre 0 0 ())) ++
      .take .infer :: List.replicate 4 (.advanceInfer 0 ()))
    (fun s => s.batches.any fun x => x.infer.outcome.isSome && x.pre.any fun t => t.outcome.isNone) (by decide +kernel)
  simp only [List.any_eq_true, Bool.and_eq_true, Option.isNone_iff_eq_none] at hp
  obtain ⟨x, hx, hended, t, ht, hnone⟩ := hp
  exact (h s hs).ended x hx (Option.isSome_iff_ne_none.1 hended) t ht hnone

end OnnxInference.BatchScheduler
