import OnnxInference.Scheduler.BatchQueues

/-!
# What the batch scheduler gives its requests

`Batch.Sound` says what the tasks of a batch have done so far, and `Batch.result` what its members have been given:
a promise is set by the inference task if a stage threw before it returned, else by the postprocess task.
-/

namespace OnnxInference.BatchScheduler

open Concurrency Transition

variable {B C Img T M O ε : Type} {R : BatchRunner B C Img T M O ε}

/-! ### Promises -/

theorem map_fst_const {α β : Type} (l : List α) (v : β) : (l.map (·, v)).map Prod.fst = l := by
  simp [Function.comp_def]

theorem setEach_of_not_mem {promise : Nat → Promise O ε} {calls : List (Nat × Except (Exn ε) O)} {r : Nat}
    (h : r ∉ calls.map Prod.fst) : setEach promise calls r = promise r := by
  induction calls generalizing promise with
  | nil => rfl
  | cons x calls ih =>
    rw [List.map_cons, List.mem_cons, not_or] at h
    show setEach (Function.update promise x.1 _) calls r = promise r
    rw [ih h.2, Function.update_of_ne h.1]

/-- The promise of a member is set once in the loop. -/
theorem setEach_of_getElem? {promise : Nat → Promise O ε} {calls : List (Nat × Except (Exn ε) O)} {i r : Nat}
    {v : Except (Exn ε) O} (hnd : (calls.map Prod.fst).Nodup) (h : calls[i]? = some (r, v)) :
    setEach promise calls r = promise r ++ [v] := by
  induction calls generalizing promise i with
  | nil => simp at h
  | cons x calls ih =>
    rw [List.map_cons, List.nodup_cons] at hnd
    show setEach (Function.update promise x.1 (promise x.1 ++ [x.2])) calls r = _
    rcases i with _ | i
    · rw [List.getElem?_cons_zero, Option.some.injEq] at h
      subst h
      rw [setEach_of_not_mem hnd.1, Function.update_self]
    · have hi : calls[i]? = some (r, v) := by simpa using h
      have hne : r ≠ x.1 := by
        rintro rfl
        exact hnd.1 (List.mem_map.2 ⟨_, List.mem_of_getElem? hi, rfl⟩)
      rw [ih hnd.2 hi, Function.update_of_ne hne]

/-! ### Batches -/

namespace Batch

variable (x : Batch R)

/-- The image of the member `i`. -/
def imageAt (images : List Img) (i : Nat) : Option Img := x.prms[i]?.bind (images[·]?)

/-- All preprocess tasks have returned. -/
def AllOk : Prop := ∀ (i : Nat) t, x.pre[i]? = some t → t.outcome = some (.ok ())

/-- The inference stage has returned `r`, or a preprocess task threw. -/
def Result : Except ε M → Prop
  | .ok out => x.AllOk ∧ R.infer.Ends x.tenbuf (.ok out)
  | .error e => (∃ (i : Nat) (t : _), x.pre[i]? = some t ∧ t.outcome = some (.error e)) ∨
      x.AllOk ∧ R.infer.Ends x.tenbuf (.error e)

def InferOf : Task Unit (Nat ⊕ R.infer.Local) M ε → Prop
  | .execute (.inl i) =>
      ∀ j < i, ∃ t : Task (Img × Nat) R.preprocess.Local Unit ε, x.pre[j]? = some t ∧ t.outcome = some (.ok ())
  | .execute (.inr l) => x.AllOk ∧ R.infer.Reaches x.tenbuf l
  | .returned r | .ending r | .finished r => x.Result r
  | _ => True

/-- The tasks are calls of the stages, each on what the ones before have returned. -/
structure Sound (images : List Img) : Prop where
  pre : ∀ (i : Nat) t, x.pre[i]? = some t → ∃ img, x.imageAt images i = some img ∧ t.Of R.preprocess (img, i) ∧
    t ≠ .absent
  infer : x.InferOf x.infer
  post : x.post ≠ .absent → ∃ out, x.infer.outcome = some (.ok out) ∧ x.post.Of R.postprocess out

/-- What the promise of the member `i` has been given. -/
def result (i : Nat) : Promise O ε :=
  match x.infer.outcome with
  | none => []
  | some (.error e) => [.error (.stage e)]
  | some (.ok _) =>
    match x.post.outcome with
    | none => []
    | some (.error e) => [.error (.stage e)]
    | some (.ok outs) => outs.1[i]?.toList.map .ok

variable {x}

theorem length_result_le (i : Nat) : (x.result i).length ≤ 1 := by
  unfold result
  rcases x.infer.outcome with _ | e | out
  · exact Nat.zero_le 1
  · exact Nat.le_refl 1
  · rcases x.post.outcome with _ | e | outs
    · exact Nat.zero_le 1
    · exact Nat.le_refl 1
    · show (outs.1[i]?.toList.map _).length ≤ 1
      cases outs.1[i]? <;> simp

theorem of_ok_mem_result {i : Nat} {o : O} (h : .ok o ∈ x.result i) :
    ∃ out outs, x.infer.outcome = some (.ok out) ∧ x.post.outcome = some (.ok outs) ∧ outs.1[i]? = some o := by
  unfold result at h
  rcases hi : x.infer.outcome with _ | e | out <;> rw [hi] at h
  · simp at h
  · simp at h
  · rcases hp : x.post.outcome with _ | e | outs <;> rw [hp] at h
    · simp at h
    · simp at h
    · exact ⟨out, outs, rfl, rfl, by simpa using h⟩

theorem imageAt_append {images : List Img} {i : Nat} {img : Img} (h : x.imageAt images i = some img) (img' : Img) :
    x.imageAt (images ++ [img']) i = some img := by
  obtain ⟨r, hr, hir⟩ := Option.bind_eq_some_iff.1 h
  refine Option.bind_eq_some_iff.2 ⟨r, hr, ?_⟩
  rw [List.getElem?_append_left (List.getElem?_eq_some_iff.1 hir).1]
  exact hir

theorem Sound.append {images : List Img} (h : x.Sound images) (img : Img) : x.Sound (images ++ [img]) := by
  refine ⟨fun i t ht => ?_, h.infer, h.post⟩
  obtain ⟨img', himg, hof⟩ := h.pre i t ht
  exact ⟨img', imageAt_append himg img, hof⟩

/-- What the inference task has returned. -/
theorem Sound.result_of_outcome {images : List Img} (h : x.Sound images) {r : Except ε M}
    (hr : x.infer.outcome = some r) : x.Result r := by
  have hi := h.infer
  rcases hx : x.infer with _ | _ | _ | _ | _ | r' | r' <;> rw [hx] at hr hi <;> cases hr <;> exact hi

/-- The postprocess task is enqueued when the inference task ends. -/
theorem Sound.post_absent {images : List Img} (h : x.Sound images) (hnone : x.infer.outcome = none) :
    x.post = .absent := by
  by_contra hne
  obtain ⟨out, ho, -⟩ := h.post hne
  rw [hnone] at ho
  cases ho

/-- A step of a preprocess task. -/
theorem Sound.setPre {images : List Img} (h : x.Sound images) {i : Nat} {tenbuf : T}
    {t t' : Task (Img × Nat) R.preprocess.Local Unit ε} (ht : x.pre[i]? = some t)
    (hof : ∀ a, t.Of R.preprocess a → t'.Of R.preprocess a) (hne : t' ≠ .absent)
    (hkeep : t.outcome = none ∨ t'.outcome = t.outcome ∧ tenbuf = x.tenbuf) :
    ({ x with tenbuf := tenbuf, pre := x.pre.set i t' } : Batch R).Sound images := by
  have hlt := (List.getElem?_eq_some_iff.1 ht).1
  have hget : ∀ j : Nat, (x.pre.set i t')[j]? = if j = i then some t' else x.pre[j]? := by
    intro j
    rw [List.getElem?_set]
    by_cases hj : j = i
    · subst hj
      simp [hlt]
    · simp [hj, Ne.symm hj]
  -- finished tasks keep their outcomes, and if all are finished then also the buffer
  have hout : ∀ (j : Nat) u r, x.pre[j]? = some u → u.outcome = some r →
      ∃ u' : Task (Img × Nat) R.preprocess.Local Unit ε, (x.pre.set i t')[j]? = some u' ∧ u'.outcome = some r := by
    intro j u r hu hr
    by_cases hj : j = i
    · subst hj
      rw [ht, Option.some.injEq] at hu
      subst hu
      rcases hkeep with hnone | ⟨hsame, -⟩
      · rw [hnone] at hr
        cases hr
      · exact ⟨t', by rw [hget, if_pos rfl], hsame.trans hr⟩
    · exact ⟨u, by rw [hget, if_neg hj, hu], hr⟩
  have hall : x.AllOk → tenbuf = x.tenbuf ∧ ∀ (j : Nat) u, (x.pre.set i t')[j]? = some u →
    u.outcome = some (.ok ()) := by
    intro hok
    rcases hkeep with hnone | ⟨hsame, hbuf⟩
    · have := hok i t ht
      rw [hnone] at this
      cases this
    · refine ⟨hbuf, fun j u hu => ?_⟩
      rw [hget] at hu
      split at hu
      · cases hu
        exact hsame.trans (hok i t ht)
      · exact hok j u hu
  have hresult : ∀ r, x.Result r → ({ x with tenbuf := tenbuf, pre := x.pre.set i t' } : Batch R).Result r := by
    rintro (e | out) hr
    · rcases hr with ⟨j, u, hu, he⟩ | ⟨hok, hends⟩
      · obtain ⟨u', hu', he'⟩ := hout j u _ hu he
        exact .inl ⟨j, u', hu', he'⟩
      · exact .inr ⟨(hall hok).2, (hall hok).1.symm ▸ hends⟩
    · exact ⟨(hall hr.1).2, (hall hr.1).1.symm ▸ hr.2⟩
  refine ⟨fun j u hu => ?_, ?_, h.post⟩
  · rw [show ({ x with tenbuf := tenbuf, pre := x.pre.set i t' } : Batch R).pre[j]? = _ from hget j] at hu
    split at hu
    · subst_vars
      cases hu
      obtain ⟨img, himg, hof', -⟩ := h.pre _ t ht
      exact ⟨img, himg, hof _ hof', hne⟩
    · exact h.pre j u hu
  · have hi := h.infer
    rcases hx : x.infer with _ | _ | _ | (j | l) | r | r | r <;> rw [hx] at hi
    · trivial
    · trivial
    · trivial
    · intro k hk
      obtain ⟨u, hu, hok⟩ := hi k hk
      exact hout k u _ hu hok
    · exact ⟨(hall hi.1).2, (hall hi.1).1.symm ▸ hi.2⟩
    · exact hresult r hi
    · exact hresult r hi
    · exact hresult r hi

/-- A step of the inference task. -/
theorem Sound.setInfer {images : List Img} (h : x.Sound images) {t : Task Unit (Nat ⊕ R.infer.Local) M ε}
    (ht : x.InferOf t) (hout : x.infer.outcome = none ∨ t.outcome = x.infer.outcome) :
    ({ x with infer := t } : Batch R).Sound images := by
  refine ⟨h.pre, ?_, fun hp => ?_⟩
  · rcases t with _ | _ | _ | (j | l) | (e | out) | (e | out) | (e | out) <;> exact ht
  · obtain ⟨out, ho, hof⟩ := h.post hp
    rcases hout with hnone | hsame
    · rw [hnone] at ho
      cases ho
    · exact ⟨out, hsame.trans ho, hof⟩

/-- A step of the postprocess task. -/
theorem Sound.setPost {images : List Img} (h : x.Sound images)
    {t : Task M R.postprocess.Local (Outputs R.batchSize O) ε} (hne : x.post ≠ .absent)
    (ht : ∀ out, x.post.Of R.postprocess out → t.Of R.postprocess out) :
    ({ x with post := t } : Batch R).Sound images := by
  refine ⟨h.pre, ?_, fun _ => ?_⟩
  · have hi := h.infer
    revert hi
    rcases hx : x.infer with _ | _ | _ | (j | l) | (e | out) | (e | out) | (e | out) <;> exact id
  · obtain ⟨out, ho, hof⟩ := h.post hne
    exact ⟨out, ho, ht out hof⟩

/-- The inference task passes its result on. -/
theorem Sound.hop {images : List Img} (h : x.Sound images) {out : M} (hx : x.infer = .returned (.ok out)) :
    ({ x with infer := .ending (.ok out), post := .queued out } : Batch R).Sound images := by
  have hr := h.infer
  rw [hx] at hr
  exact ⟨h.pre, hr, fun _ => ⟨out, rfl, rfl⟩⟩

/-- The worker adds a member to a batch without an inference task. -/
theorem Sound.fill {images : List Img} (h : x.Sound images) {p : Nat} {img : Img} (hp : images[p]? = some img)
    (hlen : x.pre.length = x.prms.length) (hinfer : x.infer = .absent) (hpost : x.post = .absent) :
    ({ x with prms := x.prms ++ [p], pre := x.pre ++ [.queued (img, x.pre.length)] } : Batch R).Sound images := by
  refine ⟨fun i t ht => ?_, ?_, fun hne => absurd hpost hne⟩
  · simp only [List.getElem?_append] at ht
    split at ht
    · obtain ⟨img', himg, hof, hne⟩ := h.pre i t ht
      refine ⟨img', ?_, hof, hne⟩
      simp only [imageAt] at himg ⊢
      rw [List.getElem?_append_left (by omega)]
      exact himg
    · rw [List.getElem?_singleton] at ht
      split at ht <;> cases ht
      have hi : i = x.pre.length := by omega
      subst hi
      refine ⟨img, ?_, rfl, nofun⟩
      simp only [imageAt]
      rw [List.getElem?_append_right (by omega), hlen, Nat.sub_self]
      exact hp
  · show Batch.InferOf _ x.infer
    rw [hinfer]
    trivial

end Batch

/-! ### Steps -/

/-- All batches are sound, and every promise has been given what its batch gives it. -/
structure Served (s : State R) : Prop where
  sound : ∀ (b : Nat) (x : Batch R), s.batches[b]? = some x → x.Sound s.images
  member : ∀ (b : Nat) (x : Batch R) (i r : Nat), s.batches[b]? = some x → x.prms[i]? = some r →
    s.promise r = x.result i
  other : ∀ r, (∀ x ∈ s.batches, r ∉ x.prms) → s.promise r = []

/-- A change of a batch that gives its members nothing. -/
theorem Served.setBatch {s s' : State R} (h : Served s) {b : Nat} {x y : Batch R} (hx : s.batches[b]? = some x)
    (hb : s'.batches = s.batches.set b y) (himg : s'.images = s.images) (hpr : s'.promise = s.promise)
    (hprms : y.prms = x.prms) (hsound : y.Sound s.images) (hres : ∀ i, y.result i = x.result i) : Served s' := by
  have hget : ∀ b', s'.batches[b']? = if b' = b then some y else s.batches[b']? := by
    intro b'
    rw [hb]
    exact getElem?_setBatch hx y b'
  refine ⟨fun b' z hz => ?_, fun b' z i r hz hi => ?_, fun r hr => ?_⟩
  · rw [himg]
    rw [hget] at hz
    split at hz
    · cases hz
      exact hsound
    · exact h.sound b' z hz
  · rw [hpr]
    rw [hget] at hz
    split at hz
    · cases hz
      rw [hres]
      exact h.member b x i r hx (hprms ▸ hi)
    · exact h.member b' z i r hz hi
  · rw [hpr]
    refine h.other r fun z hz hmem => ?_
    obtain ⟨b', hz⟩ := List.mem_iff_getElem?.1 hz
    by_cases hbb : b' = b
    · subst hbb
      rw [hx, Option.some.injEq] at hz
      subst hz
      exact hr y (List.mem_of_getElem? (by rw [hget, if_pos rfl])) (hprms.symm ▸ hmem)
    · exact hr z (List.mem_of_getElem? (by rw [hget, if_neg hbb]; exact hz)) hmem

/-- A task sets the promises of its batch. -/
theorem Served.setEach {s s' : State R} (h : Served s) (hl : Lined s) {b : Nat} {x y : Batch R}
    {calls : List (Nat × Except (Exn ε) O)} (hx : s.batches[b]? = some x) (hb : s'.batches = s.batches.set b y)
    (himg : s'.images = s.images) (hpr : s'.promise = setEach s.promise calls) (hprms : y.prms = x.prms)
    (hcalls : calls.map Prod.fst = x.prms) (hsound : y.Sound s.images)
    (hres : ∀ (i : Nat) c, calls[i]? = some c → y.result i = x.result i ++ [c.2]) : Served s' := by
  have hget : ∀ b', s'.batches[b']? = if b' = b then some y else s.batches[b']? := by
    intro b'
    rw [hb]
    exact getElem?_setBatch hx y b'
  have hnd : (calls.map Prod.fst).Nodup := by
    rw [hcalls, List.nodup_iff_getElem?_ne_getElem?]
    intro i j hij hj heq
    have := (hl.unique hx hx (List.getElem?_eq_getElem hj) (heq ▸ List.getElem?_eq_getElem hj)).2
    omega
  refine ⟨fun b' z hz => ?_, fun b' z i r hz hi => ?_, fun r hr => ?_⟩
  · rw [himg]
    rw [hget] at hz
    split at hz
    · cases hz
      exact hsound
    · exact h.sound b' z hz
  · rw [hpr]
    rw [hget] at hz
    split at hz
    · cases hz
      rw [hprms] at hi
      have hc : ∃ c, calls[i]? = some c ∧ c.1 = r := by
        rw [← hcalls, List.getElem?_map, Option.map_eq_some_iff] at hi
        exact hi
      obtain ⟨⟨r', v⟩, hc, rfl⟩ := hc
      rw [setEach_of_getElem? hnd hc, hres i _ hc, h.member b x i r' hx hi]
    · rename_i hbb
      rw [setEach_of_not_mem, h.member b' z i r hz hi]
      rw [hcalls]
      intro hmem
      obtain ⟨j, hj⟩ := List.mem_iff_getElem?.1 hmem
      exact hbb (hl.unique hz hx hi hj).1
  · rw [hpr]
    have hnot : ∀ z ∈ s.batches, r ∉ z.prms := by
      intro z hz hmem
      obtain ⟨b', hz⟩ := List.mem_iff_getElem?.1 hz
      by_cases hbb : b' = b
      · subst hbb
        rw [hx, Option.some.injEq] at hz
        subst hz
        exact hr y (List.mem_of_getElem? (by rw [hget, if_pos rfl])) (hprms.symm ▸ hmem)
      · exact hr z (List.mem_of_getElem? (by rw [hget, if_neg hbb]; exact hz)) hmem
    rw [setEach_of_not_mem, h.other r hnot]
    rw [hcalls]
    exact hnot x (List.mem_of_getElem? hx)

theorem Served.congr {s s' : State R} (h : Served s) (hb : s'.batches = s.batches) (himg : s'.images = s.images)
    (hpr : s'.promise = s.promise) : Served s' :=
  ⟨fun b x hx => himg ▸ h.sound b x (hb ▸ hx), fun b x i r hx hi => hpr ▸ h.member b x i r (hb ▸ hx) hi,
    fun r hr => hpr ▸ h.other r (hb ▸ hr)⟩

theorem Served.submit {s s' : State R} (h : Served s) {img : Img} (hb : s'.batches = s.batches)
    (himg : s'.images = s.images ++ [img]) (hpr : s'.promise = s.promise) : Served s' :=
  ⟨fun b x hx => himg ▸ (h.sound b x (hb ▸ hx)).append img,
    fun b x i r hx hi => hpr ▸ h.member b x i r (hb ▸ hx) hi, fun r hr => hpr ▸ h.other r (hb ▸ hr)⟩

/-- The worker begins a batch. -/
theorem Served.acquire {s s' : State R} (h : Served s) {tenbuf : T}
    (hb : s'.batches = s.batches ++ [⟨tenbuf, [], [], .absent, .absent⟩]) (himg : s'.images = s.images)
    (hpr : s'.promise = s.promise) : Served s' := by
  have hcase : ∀ (b : Nat) (x : Batch R), s'.batches[b]? = some x →
      s.batches[b]? = some x ∨ x = ⟨tenbuf, [], [], .absent, .absent⟩ := by
    intro b x hx
    rw [hb, List.getElem?_append] at hx
    split at hx
    · exact .inl hx
    · rw [List.getElem?_singleton] at hx
      split at hx <;> cases hx
      exact .inr rfl
  refine ⟨fun b x hx => ?_, fun b x i r hx hi => ?_, fun r hr => ?_⟩
  · rcases hcase b x hx with hx | rfl
    · exact himg ▸ h.sound b x hx
    · exact ⟨fun i t ht => by simp at ht, trivial, fun hne => absurd rfl hne⟩
  · rcases hcase b x hx with hx | rfl
    · exact hpr ▸ h.member b x i r hx hi
    · simp at hi
  · rw [hpr]
    exact h.other r fun x hx => hr x (hb ▸ List.mem_append_left _ hx)

/-- The worker adds a request to its batch. -/
theorem Served.fill {s s' : State R} (h : Served s) (hl : Lined s) {b p : Nat} {x y : Batch R}
    (hx : s.batches[b]? = some x) (hb : s'.batches = s.batches.set b y) (himg : s'.images = s.images)
    (hpr : s'.promise = s.promise) (hprms : y.prms = x.prms ++ [p]) (hp : p ∈ s.promises)
    (hsound : y.Sound s.images) (hinfer : y.infer = .absent) (hinfer' : x.infer = .absent) : Served s' := by
  have hget : ∀ b', s'.batches[b']? = if b' = b then some y else s.batches[b']? := by
    intro b'
    rw [hb]
    exact getElem?_setBatch hx y b'
  have hyx : ∀ i, y.result i = x.result i := fun i => by simp [Batch.result, hinfer, hinfer']
  refine ⟨fun b' z hz => ?_, fun b' z i r hz hi => ?_, fun r hr => ?_⟩
  · rw [himg]
    rw [hget] at hz
    split at hz
    · cases hz
      exact hsound
    · exact h.sound b' z hz
  · rw [hpr]
    rw [hget] at hz
    split at hz
    · cases hz
      rw [hyx]
      rw [hprms, List.getElem?_append] at hi
      split at hi
      · exact h.member b x i r hx hi
      · -- the new member has been given nothing
        rw [List.getElem?_singleton] at hi
        split at hi <;> cases hi
        rw [h.other _ fun z hz => hl.not_mem_of_queued hp hz]
        simp [Batch.result, hinfer']
    · exact h.member b' z i r hz hi
  · rw [hpr]
    refine h.other r fun z hz hmem => ?_
    obtain ⟨b', hz⟩ := List.mem_iff_getElem?.1 hz
    by_cases hbb : b' = b
    · subst hbb
      rw [hx, Option.some.injEq] at hz
      subst hz
      exact hr y (List.mem_of_getElem? (by rw [hget, if_pos rfl])) (hprms ▸ List.mem_append_left _ hmem)
    · exact hr z (List.mem_of_getElem? (by rw [hget, if_neg hbb]; exact hz)) hmem

theorem Served.step {s s' : State R} {l : Label Img C} (h : Served s) (hl : Lined s) (hw : Worked s)
    (hm : Move s l s') : Served s' := by
  cases hm with
  | submit => exact h.submit rfl rfl rfl
  | acquire => exact h.acquire rfl rfl rfl
  | fill at_ lt hx front front' =>
    obtain ⟨z, hz, h1, h2, h3, h4⟩ := (hw.fill _ _ _ at_).members
    rw [hx, Option.some.injEq] at hz
    subst hz
    have hal := hl.aligned
    rw [front, front', List.map_cons, List.map_cons, List.cons.injEq] at hal
    have hs := (h.sound _ _ hx).fill hal.1.symm (h2.trans h1.symm) h3 h4
    rw [h2] at hs
    exact h.fill hl hx rfl rfl rfl rfl (front' ▸ List.mem_cons_self) hs h3 h3
  | enqueueInfer at_ hx =>
    obtain ⟨size, hf⟩ := hw.filled _ at_
    obtain ⟨z, hz, -, -, h3, -⟩ := hf.members
    rw [hx, Option.some.injEq] at hz
    subst hz
    refine h.setBatch hx rfl rfl rfl rfl ((h.sound _ _ hx).setInfer trivial (.inl (by simp [h3]))) fun i => ?_
    simp [Batch.result, h3]
  | takePre _ hx at_ =>
    exact h.setBatch hx rfl rfl rfl rfl ((h.sound _ _ hx).setPre at_ (fun _ ho => ho) nofun (.inl rfl)) fun _ => rfl
  | startPre hx at_ =>
    refine h.setBatch hx rfl rfl rfl rfl ((h.sound _ _ hx).setPre at_ ?_ nofun (.inl rfl)) fun _ => rfl
    rintro a rfl
    exact .start
  | runPre hx at_ stepped =>
    refine h.setBatch hx rfl rfl rfl rfl
      ((h.sound _ _ hx).setPre at_ ?_ (Task.ofStep_ne_absent _) (.inl ?_)) fun _ => rfl
    · exact fun a ho => Task.Of.ofStep (P := R.preprocess) ho stepped
    · rfl
  | returnPre hx at_ =>
    exact h.setBatch hx rfl rfl rfl rfl ((h.sound _ _ hx).setPre at_ (fun _ ho => ho) nofun (.inl rfl)) fun _ => rfl
  | endPre hx at_ =>
    exact h.setBatch hx rfl rfl rfl rfl
      ((h.sound _ _ hx).setPre at_ (fun _ ho => ho) nofun (.inr ⟨rfl, rfl⟩)) fun _ => rfl
  | takeInfer _ hx at_ =>
    refine h.setBatch hx rfl rfl rfl rfl ((h.sound _ _ hx).setInfer trivial (.inl (by simp [at_]))) fun i => ?_
    simp [Batch.result, at_]
  | startInfer hx at_ =>
    refine h.setBatch hx rfl rfl rfl rfl ((h.sound _ _ hx).setInfer ?_ (.inl (by simp [at_]))) fun i => ?_
    · exact fun j hj => absurd hj (Nat.not_lt_zero j)
    · simp [Batch.result, at_]
  | get hx at_ ht ok =>
    have hi := (h.sound _ _ hx).infer
    rw [at_] at hi
    refine h.setBatch hx rfl rfl rfl rfl ((h.sound _ _ hx).setInfer ?_ (.inl (by simp [at_]))) fun i => ?_
    · intro j hj
      rcases Nat.lt_succ_iff_lt_or_eq.1 hj with hj | rfl
      · exact hi j hj
      · exact ⟨_, ht, ok⟩
    · simp [Batch.result, at_]
  | rethrow hx at_ ht error =>
    refine h.setBatch hx rfl rfl rfl rfl ((h.sound _ _ hx).setInfer ?_ (.inl (by simp [at_]))) fun i => ?_
    · exact .inl ⟨_, _, ht, error⟩
    · simp [Batch.result, at_]
  | callInfer hx at_ all =>
    have hi := (h.sound _ _ hx).infer
    rw [at_] at hi
    refine h.setBatch hx rfl rfl rfl rfl ((h.sound _ _ hx).setInfer ⟨?_, .start⟩ (.inl (by simp [at_]))) fun i => ?_
    · intro j t ht
      -- the loop has passed all futures
      have hlt := (List.getElem?_eq_some_iff.1 ht).1
      obtain ⟨u, hu, ho⟩ := hi j (by have := List.getElem?_eq_none_iff.1 all; omega)
      rw [ht, Option.some.injEq] at hu
      exact hu ▸ ho
    · simp [Batch.result, at_]
  | @runInfer b c x l y hx at_ stepped =>
    have hi := (h.sound _ _ hx).infer
    rw [at_] at hi
    have hnext : x.InferOf (.ofStep (y.2.map .inr id)) := by
      obtain ⟨backend, l' | r⟩ := y
      · exact ⟨hi.1, .step hi.2 stepped⟩
      · have hends : R.infer.Ends x.tenbuf r := ⟨c, _, _, l, hi.2, stepped⟩
        rcases r with e | out
        · exact .inr ⟨hi.1, hends⟩
        · exact ⟨hi.1, hends⟩
    refine h.setBatch hx rfl rfl rfl rfl ((h.sound _ _ hx).setInfer hnext (.inl (by simp [at_]))) fun i => ?_
    simp [Batch.result, at_]
  | hop hx at_ =>
    refine h.setBatch hx rfl rfl rfl rfl ((h.sound _ _ hx).hop at_) fun i => ?_
    simp [Batch.result, at_]
  | drop hx at_ =>
    have hs := h.sound _ _ hx
    have hi := hs.infer
    rw [at_] at hi
    have hpost := hs.post_absent (by rw [at_, Task.outcome_returned])
    refine h.setBatch hx rfl rfl rfl rfl (hs.setInfer hi (.inl (by simp [at_]))) fun i => ?_
    simp [Batch.result, at_, hpost]
  | throwInfer hx at_ =>
    have hi := (h.sound _ _ hx).infer
    rw [at_] at hi
    refine h.setEach hl hx rfl rfl rfl rfl (map_fst_const _ _)
      ((h.sound _ _ hx).setInfer hi (.inl (by simp [at_]))) ?_
    intro i c hc
    rw [List.getElem?_map, Option.map_eq_some_iff] at hc
    obtain ⟨r, -, rfl⟩ := hc
    simp [Batch.result, at_]
  | endInfer hx at_ =>
    have hi := (h.sound _ _ hx).infer
    rw [at_] at hi
    refine h.setBatch hx rfl rfl rfl rfl ((h.sound _ _ hx).setInfer hi (.inr (by simp [at_]))) fun i => ?_
    simp [Batch.result, at_]
  | takePost _ hx at_ =>
    refine h.setBatch hx rfl rfl rfl rfl ((h.sound _ _ hx).setPost (by simp [at_]) ?_) fun i => ?_
    · exact fun out ho => by rw [at_] at ho; exact ho
    · simp [Batch.result, at_]
  | startPost hx at_ =>
    refine h.setBatch hx rfl rfl rfl rfl ((h.sound _ _ hx).setPost (by simp [at_]) ?_) fun i => ?_
    · intro out ho
      rw [at_] at ho
      cases ho
      exact .start
    · simp [Batch.result, at_]
  | runPost hx at_ stepped =>
    refine h.setBatch hx rfl rfl rfl rfl ((h.sound _ _ hx).setPost (by simp [at_]) ?_) fun i => ?_
    · intro out ho
      rw [at_] at ho
      exact Task.Of.ofStep (P := R.postprocess) ho stepped
    · simp [Batch.result, at_]
  | @deliver b c x outs hx at_ =>
    have hs := h.sound _ _ hx
    obtain ⟨out, hout, hof⟩ := hs.post (by simp [at_])
    have hlen : x.prms.length ≤ (outs.1.map (Except.ok (ε := Exn ε))).length := by
      rw [List.length_map]
      exact Nat.le_trans (hw.length_le hx) outs.2
    refine h.setEach hl hx rfl rfl rfl rfl (List.map_fst_zip hlen) (hs.setPost (by simp [at_]) ?_) ?_
    · exact fun out ho => by rw [at_] at ho; exact ho
    · intro i c hc
      obtain ⟨-, hc⟩ := List.getElem?_zip_eq_some.1 hc
      rw [List.getElem?_map, Option.map_eq_some_iff] at hc
      obtain ⟨o, ho, hoc⟩ := hc
      simp [Batch.result, hout, at_, ho, hoc]
  | throwPost hx at_ =>
    have hs := h.sound _ _ hx
    obtain ⟨out, hout, hof⟩ := hs.post (by simp [at_])
    refine h.setEach hl hx rfl rfl rfl rfl (map_fst_const _ _) (hs.setPost (by simp [at_]) ?_) ?_
    · exact fun out ho => by rw [at_] at ho; exact ho
    · intro i c hc
      rw [List.getElem?_map, Option.map_eq_some_iff] at hc
      obtain ⟨r, -, rfl⟩ := hc
      simp [Batch.result, hout, at_]
  | endPost hx at_ =>
    refine h.setBatch hx rfl rfl rfl rfl ((h.sound _ _ hx).setPost (by simp [at_]) ?_) fun i => ?_
    · exact fun out ho => by rw [at_] at ho; exact ho
    · simp [Batch.result, at_]
  | turn | breakOut | misuse | destroyStart | close | joinWorker | stopPre | stopInfer | stopPost | joinPre
  | joinInfer | joinPost | destroyQueues => exact h.congr rfl rfl rfl

/-! ### Runs -/

/-- What is known of the requests in every run. -/
structure Kept (s : State R) : Prop where
  lined : Lined s
  worked : Worked s
  served : Served s

theorem Kept.init (b : B) : Kept (init R b) := by
  refine ⟨⟨rfl, List.prefix_rfl, fun _ => rfl⟩, ⟨nofun, nofun, ?_⟩, ⟨?_, ?_, fun _ _ => rfl⟩⟩
  · exact fun b x hx => by simp [BatchScheduler.init] at hx
  · exact fun b x hx => by simp [BatchScheduler.init] at hx
  · exact fun b x i r hx => by simp [BatchScheduler.init] at hx

theorem Kept.step {s s' : State R} {l : Label Img C} (h : Kept s) (hm : Move s l s')
    (hq : l = .destroy → ∀ rest, s.teardown = some (.destroyQueues :: rest) → s.isClose = true ∧ s.worker = .exited) :
    Kept s' :=
  ⟨h.lined.step h.worked hm fun hl rest todo => (hq hl rest todo).1,
    h.worked.step h.lined hm fun hl rest todo => (hq hl rest todo).2, h.served.step h.lined h.worked hm⟩

end OnnxInference.BatchScheduler
