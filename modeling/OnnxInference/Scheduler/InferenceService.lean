import OnnxInference.Scheduler.AsyncDelivery
import OnnxInference.Scheduler.BatchSlots
import OnnxInference.Scheduler.BatchShutdown
import OnnxInference.Scheduler.SyncScheduler
import OnnxInference.Service

/-!
# The schedulers as one service (`include/scheduler/InferenceScheduler.h`)

Each scheduler refines the service of its interface: `submit` accepts an image, and its future is answered at most once,
with a result of the image's own pipeline.  The answers of the asynchronous and of the synchronous scheduler are those
of `Pipeline`; a value that the batch scheduler gives is that of the slot of its image.  So one can stand for another
(`schedulers_refine`).
-/

namespace OnnxInference

open Concurrency Transition

theorem head?_of_prefix {α : Type} {l l' : List α} (h : l <+: l') {x : α} (hx : l.head? = some x) :
    l'.head? = some x := by
  obtain ⟨rest, rfl⟩ := h
  rcases l with _ | ⟨y, l⟩
  · cases hx
  · exact hx

/-- A system refines the service when every state is sound and every step continues the one before. -/
theorem refines_of_step {S L Q A : Type} {M : System S L} {f : S → Service.State Q A} {Admits : Q → A → Prop}
    (hsound : ∀ {s}, M.Reachable s → Service.Sound Admits (f s))
    (hstep : ∀ {s l s'}, M.Reachable s → M.step s l = some s' → Service.Continues (f s) (f s')) {s s' : S}
    (hs : M.Reachable s) {ls : List L} (hr : M.run s ls = some s') : Service.Ops Admits (f s) (f s') := by
  have hinv := System.run_invariant (P := fun t => M.Reachable t ∧ Service.Continues (f s) (f t)) ?_
    ⟨hs, .refl _⟩ hr
  · exact Service.ops_iff.2 ⟨hinv.2, (hsound hinv.1).admitted⟩
  · rintro t l t' ⟨ht, hc⟩ hl
    exact ⟨.step ht trivial hl, hc.trans (hstep ht hl)⟩

/-! ### The asynchronous scheduler -/

namespace AsyncScheduler

variable {B C Img T M O ε : Type} {R : Runner B C Img T M O ε}

/-- The requests, and what their futures got. -/
def service (s : State R) : Service.State Img (Except (Exn ε) O) :=
  ⟨s.images, fun r => (s.request r).promise.head?⟩

/-- What the stages make of an image, or the exception of an executor that has been stopped. -/
def Answers (R : Runner B C Img T M O ε) (img : Img) (x : Except (Exn ε) O) : Prop :=
  Pipeline R img x ∨ x = .error .enqueueStoped

theorem Request.Event.promise {q q' : Request R} (e : q.Event q') : q.promise <+: q'.promise := by
  cases e with
  | alike h => exact h.promise ▸ List.prefix_rfl
  | hopPre | hopInfer | throwPost => exact List.prefix_rfl
  | stoppedPre | stoppedInfer | throwPre | throwInfer | deliver => exact List.prefix_append _ _

theorem Move.continues {s s' : State R} {l : Label Img C} (hi : Inv s) (m : Move s l s') :
    Service.Continues (service s) (service s') := by
  refine ⟨?_, fun r x hx => head?_of_prefix (m.event hi r).promise hx⟩
  cases m with
  | submit => exact List.prefix_append _ _
  | _ => exact List.prefix_rfl

theorem Request.Own.answers {img : Img} {q : Request R} (h : q.Own img) (hs : q.Sound) {x : Except (Exn ε) O}
    (hx : x ∈ q.promise) : Answers R img x := by
  rw [hs.promise_eq, calls] at hx
  rcases hp : q.pre.outcome with _ | e | tenbuf <;> simp only [hp] at hx
  · cases hx
  · rw [List.mem_singleton] at hx
    exact .inl (hx ▸ .pre (h.pre.outcome hp))
  · split at hx
    · exact .inr (List.mem_singleton.1 hx)
    · rcases hi : q.infer.outcome with _ | e | out <;> simp only [hi] at hx
      · cases hx
      · rw [List.mem_singleton] at hx
        exact .inl (hx ▸ .infer (h.pre.outcome hp) ((h.infer _ hp).outcome hi))
      · split at hx
        · exact .inr (List.mem_singleton.1 hx)
        · split at hx
          · rename_i outs ho
            rw [List.mem_singleton] at hx
            exact .inl (hx ▸ .value (h.pre.outcome hp) ((h.infer _ hp).outcome hi) ((h.post _ hi).outcome ho))
          · cases hx

theorem Request.Sound.length_promise_le {q : Request R} (h : q.Sound) : q.promise.length ≤ 1 := by
  rw [h.promise_eq, calls]
  rcases q.pre.outcome with _ | e | tenbuf <;> simp only
  · exact Nat.zero_le 1
  · exact Nat.le_refl 1
  · split
    · exact Nat.le_refl 1
    · rcases q.infer.outcome with _ | e | out <;> simp only
      · exact Nat.zero_le 1
      · exact Nat.le_refl 1
      · split
        · exact Nat.le_refl 1
        · split
          · exact Nat.le_refl 1
          · exact Nat.zero_le 1

theorem sound_service {b : B} {s : State R} (hs : (system R b).Reachable s) :
    Service.Sound (Answers R) (service s) := by
  intro r x hx
  have hi := reachable_inv hs
  have hmem : x ∈ (s.request r).promise := List.mem_of_mem_head? hx
  have hne : (s.request r).pre.status ≠ .idle := by
    intro hidle
    rw [(hi.sound r).promise_eq, Request.calls, Task.outcome_of_idle hidle] at hmem
    cases hmem
  have hlt := (hi.submitted r).2 hne
  exact ⟨_, List.getElem?_eq_getElem hlt,
    (reachable_own hs r _ (List.getElem?_eq_getElem hlt)).answers (hi.sound r) hmem⟩

theorem refines {b : B} {s s' : State R} (hs : (system R b).Reachable s) {ls : List (Label Img C)}
    (hr : (system R b).run s ls = some s') : Service.Ops (Answers R) (service s) (service s') :=
  refines_of_step sound_service (fun h hl => (Move.of_step hl).2.continues (reachable_inv h)) hs hr

end AsyncScheduler

/-! ### The synchronous scheduler -/

namespace SyncScheduler

variable {B C Img T M O ε : Type} {R : Runner B C Img T M O ε}

/-- The requests, and what their futures got. -/
def service (s : Monitor.State (Shared B Img O ε) Unit (Local R)) : Service.State Img (Except (Exn ε) O) :=
  ⟨s.shared.accepted, fun r => (s.shared.results.lookup r).map (Except.mapError Exn.stage)⟩

theorem reaches_of_alone {I O' : Type} {P : Prog B C I O' ε} {i : I} {b b' : B} {l : P.Local}
    (h : P.Alone b (P.start i) b' l) : P.Reaches i l := by
  generalize hl : P.start i = l₀ at h
  induction h with
  | refl => exact hl ▸ .start
  | step _ hs ih => exact .step (ih hl) hs

theorem ends_of_runsAlone {I O' : Type} {P : Prog B C I O' ε} {i : I} {b b' : B} {r : Except ε O'}
    (h : P.RunsAlone b i r b') : P.Ends i r := by
  obtain ⟨c, b₁, l, halone, hs⟩ := h
  exact ⟨c, b₁, b', l, reaches_of_alone halone, hs⟩

theorem Executes.pipeline {b b' : B} {input : Img} {x : Except ε O} (h : Executes R b input x b') :
    AsyncScheduler.Pipeline R input (x.mapError .stage) := by
  cases h with
  | preFails hpre => exact .pre (ends_of_runsAlone hpre)
  | inferFails hpre hinfer => exact .infer (ends_of_runsAlone hpre) (ends_of_runsAlone hinfer)
  | @ends preOut inferOut r b₁ b₂ b₃ hpre hinfer hpost =>
    cases r with
    | error e => exact .post (ends_of_runsAlone hpre) (ends_of_runsAlone hinfer) (ends_of_runsAlone hpost)
    | ok outs => exact .value (ends_of_runsAlone hpre) (ends_of_runsAlone hinfer) (ends_of_runsAlone hpost)

/-- Each result is that of the image at its place. -/
theorem Serial.pipeline {b b' : B} {inputs : List Img} {results : List (Except ε O)}
    (h : Serial R b inputs results b') : inputs.length = results.length ∧ ∀ (r : Nat) x, results[r]? = some x →
      ∃ input, inputs[r]? = some input ∧ AsyncScheduler.Pipeline R input (x.mapError .stage) := by
  induction h with
  | nil => exact ⟨rfl, fun r x hx => by simp at hx⟩
  | @snoc inputs results input y b₁ b₂ _ hlast ih =>
    obtain ⟨hlen, ih⟩ := ih
    refine ⟨by simp [hlen], fun r x hx => ?_⟩
    rw [List.getElem?_append] at hx ⊢
    split at hx
    · rename_i hlt
      rw [if_pos (hlen ▸ hlt)]
      exact ih r x hx
    · rename_i hge
      rw [if_neg (hlen ▸ hge), hlen]
      rw [List.getElem?_singleton] at hx ⊢
      split at hx
      · rename_i hr
        rw [if_pos hr]
        cases hx
        exact ⟨input, rfl, hlast.pipeline⟩
      · cases hx

/-- The result of a request is at its place. -/
theorem getElem?_of_lookup {s : Shared B Img O ε} (h : Ordered s) {r : Nat} {x : Except ε O}
    (hx : s.results.lookup r = some x) : (s.results.map Prod.snd)[r]? = some x := by
  obtain ⟨before, after, heq, -⟩ := List.lookup_eq_some_iff.1 hx
  have hmem : (r, x) ∈ s.results := heq ▸ List.mem_append_right before List.mem_cons_self
  obtain ⟨i, hi⟩ := List.mem_iff_getElem?.1 hmem
  have hfst : (s.results.map Prod.fst)[i]? = some r := by rw [List.getElem?_map, hi]; rfl
  rw [h.results, List.getElem?_range (List.getElem?_eq_some_iff.1 hi).1, Option.some.injEq] at hfst
  rw [← hfst, List.getElem?_map, hi]
  rfl

theorem Moves.continues {s : Shared B Img O ε} {l : Local R} {a : Act (Shared B Img O ε) Unit (Local R)}
    (hm : Moves s l a) : s.accepted <+: a.shared.accepted ∧ s.results <+: a.shared.results := by
  cases hm with
  | accept => exact ⟨List.prefix_append _ _, List.prefix_rfl⟩
  | finish => exact ⟨List.prefix_rfl, List.prefix_append _ _⟩
  | take | exit | wait | execute | refuse | shutdown | shutdownNotify | join | skip | again =>
    exact ⟨List.prefix_rfl, List.prefix_rfl⟩

theorem sound_service {b : B} {s : Monitor.State (Shared B Img O ε) Unit (Local R)} (hs : (system R b).Reachable s) :
    Service.Sound (AsyncScheduler.Answers R) (service s) := by
  intro r x hx
  obtain ⟨y, hy, rfl⟩ := Option.map_eq_some_iff.1 hx
  have hget := getElem?_of_lookup (knows_of_reachable hs).1 hy
  obtain ⟨b₁, hserial, -⟩ := (sound_of_reachable hs).serial
  obtain ⟨input, hinput, hpipe⟩ := hserial.pipeline.2 r y hget
  refine ⟨input, ?_, .inl hpipe⟩
  rw [List.getElem?_take] at hinput
  split at hinput
  · exact hinput
  · cases hinput

theorem continues_of_step {b : B} {s s' : Monitor.State (Shared B Img O ε) Unit (Local R)}
    {l : Monitor.Label C (Local R)} (hl : (system R b).step s l = some s') :
    Service.Continues (service s) (service s') := by
  obtain ⟨l, -, rfl⟩ | ⟨k, v, l, -, rfl⟩ | ⟨k, t, c, a, threads, -, -, ha, -, rfl⟩ := Monitor.step_cases hl
  · exact .refl _
  · exact .refl _
  · obtain ⟨hacc, rest, hres⟩ := (moves_of_act ha).continues
    refine ⟨hacc, fun r x hx => ?_⟩
    obtain ⟨y, hy, rfl⟩ := Option.map_eq_some_iff.1 hx
    show (a.shared.results.lookup r).map _ = _
    rw [← hres, List.lookup_append, hy]
    rfl

theorem refines {b : B} {s s' : Monitor.State (Shared B Img O ε) Unit (Local R)} (hs : (system R b).Reachable s)
    {ls : List (Monitor.Label C (Local R))} (hr : (system R b).run s ls = some s') :
    Service.Ops (AsyncScheduler.Answers R) (service s) (service s') :=
  refines_of_step sound_service (fun _ hl => continues_of_step hl) hs hr

end SyncScheduler

/-! ### The batch scheduler -/

namespace BatchScheduler

variable {B C Img T M O ε : Type} {R : BatchRunner B C Img T M O ε}

/-- The requests, and what their futures got. -/
def service (s : State R) : Service.State Img (Except (Exn ε) O) := ⟨s.images, fun r => (s.promise r).head?⟩

/-- A value is that of the slot of the image, an exception one that a stage threw for its batch. -/
def Answers (hR : Slotwise R) (img : Img) (x : Except (Exn ε) O) : Prop :=
  (∀ o, x = .ok o → o = hR.own img) ∧ x ≠ .error .enqueueStoped

theorem setEach_extends (promise : Nat → Promise O ε) (calls : List (Nat × Except (Exn ε) O)) (r : Nat) :
    promise r <+: setEach promise calls r := by
  induction calls generalizing promise with
  | nil => exact List.prefix_rfl
  | cons x calls ih =>
    refine List.IsPrefix.trans ?_ (ih _)
    dsimp only
    rw [Function.update_apply]
    split
    · rename_i heq
      exact heq ▸ List.prefix_append _ _
    · exact List.prefix_rfl

theorem Move.continues {s s' : State R} {l : Label Img C} (m : Move s l s') :
    Service.Continues (service s) (service s') := by
  cases m with
  | submit => exact ⟨List.prefix_append _ _, fun _ _ h => h⟩
  | throwInfer | deliver | throwPost =>
    exact ⟨List.prefix_rfl, fun r x hx => head?_of_prefix (setEach_extends _ _ r) hx⟩
  | turn | acquire | breakOut | fill | enqueueInfer | takePre | takeInfer | takePost | startPre | runPre | returnPre
  | endPre | startInfer | get | rethrow | callInfer | runInfer | hop | drop | misuse | endInfer | startPost | runPost
  | endPost | destroyStart | close | joinWorker | stopPre | stopInfer | stopPost | joinPre | joinInfer | joinPost
  | destroyQueues => exact .refl _

theorem reachable_filled (hR : Slotwise R) {b : B} {s : State R} (hs : (system R b).Reachable s) :
    hR.AllFilled s := by
  induction hs with
  | init => exact fun b x hx => by simp [system, init] at hx
  | step hr _ hl ih =>
    have hkept := (reachable_inv hr).kept
    exact ih.step hkept.worked hkept.served (Move.of_step hl).2

theorem sound_service (hR : Slotwise R) {b : B} {s : State R} (hs : (system R b).Reachable s) :
    Service.Sound (Answers hR) (service s) := by
  intro r v hv
  have hkept := (reachable_inv hs).kept
  obtain ⟨b, i, x, img, t, hx, hr, himg, ht, -, -, hmade⟩ := hkept.madeFor (List.mem_of_mem_head? hv)
  refine ⟨img, himg, ?_⟩
  cases hmade with
  | threw | threwPost => exact ⟨fun o ho => absurd ho (by simp), by simp⟩
  | @output out outs o inferred postprocessed at_ =>
    refine ⟨fun o' ho => ?_, by simp⟩
    cases ho
    obtain ⟨hok, hends⟩ := inferred
    have hpre : i < x.pre.length := (List.getElem?_eq_some_iff.1 ht).1
    have hmember : x.imageAt s.images i = some img := by rw [Batch.imageAt, hr, Option.bind_some, himg]
    have hlt : i < R.batchSize :=
      (List.getElem?_eq_some_iff.1 hr).1.trans_le (hkept.worked.length_le hx)
    have hown := Slotwise.own_of_ends (reachable_filled hR hs b x hx) hok hmember hpre hlt hends postprocessed
    rw [at_, Option.some.injEq] at hown
    exact hown

theorem refines (hR : Slotwise R) {b : B} {s s' : State R} (hs : (system R b).Reachable s)
    {ls : List (Label Img C)} (hr : (system R b).run s ls = some s') :
    Service.Ops (Answers hR) (service s) (service s') :=
  refines_of_step (sound_service hR) (fun _ hl => (Move.of_step hl).2.continues) hs hr

end BatchScheduler

/-! ### One service -/

/-- A value is the one of the image. -/
def ValueOf {Img O ε : Type} (value : Img → O) (img : Img) (x : Except (Exn ε) O) : Prop :=
  ∀ o, x = .ok o → o = value img

/-- Whatever their threads do, the three schedulers are services with the same values: in every run each of them accepts
requests in order and answers each at most once, and a value is that of the image.  What a slot of a batch makes of an
image is what the pipeline of the runner makes of it. -/
theorem schedulers_refine {B B' C C' Img T T' M M' O ε : Type} (R : Runner B C Img T M O ε)
    (R' : BatchRunner B' C' Img T' M' O ε) (hR : BatchScheduler.Slotwise R')
    (hown : ∀ img o, AsyncScheduler.Pipeline R img (.ok o) → o = hR.own img) (b : B) (b' : B') :
    (∀ s ls s', (SyncScheduler.system R b).Reachable s → (SyncScheduler.system R b).run s ls = some s' →
      Service.Ops (ValueOf hR.own) (SyncScheduler.service s) (SyncScheduler.service s')) ∧
    (∀ s ls s', (AsyncScheduler.system R b).Reachable s → (AsyncScheduler.system R b).run s ls = some s' →
      Service.Ops (ValueOf hR.own) (AsyncScheduler.service s) (AsyncScheduler.service s') ∧
        ∀ r, (s'.request r).promise.length ≤ 1) ∧
    ∀ s ls s', (BatchScheduler.system R' b').Reachable s → (BatchScheduler.system R' b').run s ls = some s' →
      Service.Ops (ValueOf hR.own) (BatchScheduler.service s) (BatchScheduler.service s') ∧
        ∀ r, (s'.promise r).length ≤ 1 := by
  have hvalue : ∀ img x, AsyncScheduler.Answers R img x → ValueOf hR.own img x := by
    rintro img x (hpipe | rfl) o ho
    · exact hown img o (ho ▸ hpipe)
    · cases ho
  refine ⟨fun s ls s' hs hr => ?_, fun s ls s' hs hr => ⟨?_, fun r => ?_⟩, fun s ls s' hs hr => ⟨?_, fun r => ?_⟩⟩
  · exact Service.Ops.mono hvalue (SyncScheduler.refines hs hr)
  · exact Service.Ops.mono hvalue (AsyncScheduler.refines hs hr)
  · exact ((AsyncScheduler.reachable_inv (hs.of_run hr)).sound r).length_promise_le
  · exact Service.Ops.mono (fun _ _ h => h.1) (BatchScheduler.refines hR hs hr)
  · exact (BatchScheduler.reachable_inv (hs.of_run hr)).kept.served.length_le r

/-- The runners that add one to a number. -/
theorem schedulers_refine_succ : ∃ s, (BatchScheduler.system BatchScheduler.slotRunner ()).run
      (BatchScheduler.init BatchScheduler.slotRunner ()) BatchScheduler.threeOfTwo = some s ∧
    Service.Ops (ValueOf BatchScheduler.slotRunner_slotwise.own)
      (BatchScheduler.service (BatchScheduler.init BatchScheduler.slotRunner ())) (BatchScheduler.service s) ∧
    (s.promise 2).length = 1 := by
  have hown : ∀ img o, AsyncScheduler.Pipeline AsyncScheduler.succRunner img (.ok o) →
      o = BatchScheduler.slotRunner_slotwise.own img := by
    intro img o h
    cases h with
    | value pre infer post =>
      cases Prog.ends_ofFn pre
      cases Prog.ends_ofFn infer
      cases Prog.ends_ofFn post
      rfl
  obtain ⟨s, hr, hp⟩ := (Option.any_eq_true _ _).1 (show ((BatchScheduler.system BatchScheduler.slotRunner ()).run
    (BatchScheduler.init BatchScheduler.slotRunner ()) BatchScheduler.threeOfTwo).any
      (fun s => (s.promise 2).length == 1) = true by decide +kernel)
  refine ⟨s, hr, ?_, by simpa using hp⟩
  exact ((schedulers_refine AsyncScheduler.succRunner BatchScheduler.slotRunner BatchScheduler.slotRunner_slotwise hown
    () ()).2.2 _ _ s .init hr).1

end OnnxInference
