import OnnxInference.Scheduler.BatchMoves

/-!
# The queues of the batch scheduler

The requests of the batches, in the order in which these were made, and then the queued ones are the requests in the
order of their submission, until the queues are destroyed; the two queues are aligned.  Only the batch that the worker
is filling has no inference task, and a batch that it has filled has between one and `batch_` members.
-/

namespace OnnxInference.BatchScheduler

open Concurrency Transition

variable {B C Img T M O ε : Type} {R : BatchRunner B C Img T M O ε}

theorem getElem?_setBatch {s : State R} {b : Nat} {x : Batch R} (hx : s.batches[b]? = some x) (y : Batch R)
    (b' : Nat) :
    (s.setBatch b y).batches[b']? = if b' = b then some y else s.batches[b']? := by
  have hlt := (List.getElem?_eq_some_iff.1 hx).1
  simp only [State.setBatch, List.getElem?_set]
  by_cases h : b' = b
  · subst h
    simp [hlt]
  · simp [h, Ne.symm h]

/-! ### Alignment and order -/

/-- The requests of the batches and then the queued ones. -/
def State.requests (s : State R) : List Nat := s.batches.flatMap (·.prms) ++ s.promises

/-- No request has been lost from the queues. -/
def Whole (s : State R) : Prop := s.requests = List.range s.images.length

theorem Whole.init (b : B) : Whole (init R b) := rfl

structure Lined (s : State R) : Prop where
  aligned : s.inputs.map some = s.promises.map (s.images[·]?)
  order : s.requests <+: List.range s.images.length
  whole : s.isClose = false → Whole s

theorem Lined.length_eq {s : State R} (h : Lined s) : s.inputs.length = s.promises.length := by
  have := congrArg List.length h.aligned
  rwa [List.length_map, List.length_map] at this

/-- A list of lists after a change of one that keeps or extends it. -/
private theorem flatMap_set {l : List (Batch R)} {b : Nat} {x y : Batch R} (hx : l[b]? = some x)
    (h : y.prms = x.prms) : (l.set b y).flatMap (·.prms) = l.flatMap (·.prms) := by
  induction l generalizing b with
  | nil => simp at hx
  | cons a l ih =>
    rcases b with _ | b
    · rw [List.getElem?_cons_zero, Option.some.injEq] at hx
      subst hx
      simp [h]
    · rw [List.set_cons_succ, List.flatMap_cons, List.flatMap_cons, ih (by simpa using hx)]

private theorem flatMap_set_last {l : List (Batch R)} {b p : Nat} {x y : Batch R} (hx : l[b]? = some x)
    (hb : b + 1 = l.length) (h : y.prms = x.prms ++ [p]) :
    (l.set b y).flatMap (·.prms) = l.flatMap (·.prms) ++ [p] := by
  induction l generalizing b with
  | nil => simp at hx
  | cons a l ih =>
    rcases b with _ | b
    · rw [List.getElem?_cons_zero, Option.some.injEq] at hx
      subst hx
      have hl : l = [] := List.length_eq_zero_iff.1 (by simpa using hb.symm)
      simp [h, hl]
    · rw [List.set_cons_succ, List.flatMap_cons, List.flatMap_cons, ih (by simpa using hx) (by simpa using hb),
        List.append_assoc]

/-! ### The worker -/

/-- The worker is filling batch `b`. -/
def Current (s : State R) (b : Nat) : Prop := (∃ size i, s.worker = .fill b size i) ∨ s.worker = .enqueueInfer b

/-- What the worker knows of the batch it is filling: it is the last one, it has `i` members, and the queues have the
others. -/
structure Filling (s : State R) (b size i : Nat) : Prop where
  last : b + 1 = s.batches.length
  members : ∃ x, s.batches[b]? = some x ∧ x.prms.length = i ∧ x.pre.length = i ∧ x.infer = .absent ∧ x.post = .absent
  le : i ≤ size
  pos : 0 < size
  size_le : size ≤ R.batchSize
  enough : size - i ≤ s.promises.length

structure Worked (s : State R) : Prop where
  fill : ∀ b size i, s.worker = .fill b size i → Filling s b size i
  filled : ∀ b, s.worker = .enqueueInfer b → ∃ size, Filling s b size size
  dispatched : ∀ b x, s.batches[b]? = some x → ¬Current s b →
    x.infer ≠ .absent ∧ 0 < x.prms.length ∧ x.prms.length ≤ R.batchSize ∧ x.pre.length = x.prms.length

/-- A thread of an executor does not touch the batch that is being filled, but for its preprocess tasks. -/
theorem Worked.setBatch {s s' : State R} (h : Worked s) {b : Nat} {x y : Batch R} (hx : s.batches[b]? = some x)
    (hb : s'.batches = s.batches.set b y) (hw : s'.worker = s.worker) (hpr : s'.promises = s.promises)
    (hprms : y.prms = x.prms) (hpre : y.pre.length = x.pre.length) (hinfer : y.infer = .absent ↔ x.infer = .absent)
    (hpost : x.infer = .absent → y.post = x.post) : Worked s' := by
  have hget : ∀ b', s'.batches[b']? = if b' = b then some y else s.batches[b']? := by
    intro b'
    rw [hb]
    exact getElem?_setBatch hx y b'
  have hfilling : ∀ b' size i, Filling s b' size i → Filling s' b' size i := by
    intro b' size i hf
    refine ⟨by rw [hb, List.length_set]; exact hf.last, ?_, hf.le, hf.pos, hf.size_le, by rw [hpr]; exact hf.enough⟩
    obtain ⟨z, hz, h1, h2, h3, h4⟩ := hf.members
    by_cases hbb : b' = b
    · subst hbb
      rw [hx, Option.some.injEq] at hz
      subst hz
      exact ⟨y, by rw [hget]; simp, by rw [hprms, h1], by rw [hpre, h2], hinfer.2 h3, by rw [hpost h3, h4]⟩
    · exact ⟨z, by rw [hget, if_neg hbb]; exact hz, h1, h2, h3, h4⟩
  have hcur : ∀ b', Current s' b' ↔ Current s b' := fun b' => by simp only [Current, hw]
  refine ⟨fun b' size i hw' => hfilling _ _ _ (h.fill b' size i (hw ▸ hw')), fun b' hw' => ?_, fun b' z hz hc => ?_⟩
  · obtain ⟨size, hf⟩ := h.filled b' (hw ▸ hw')
    exact ⟨size, hfilling _ _ _ hf⟩
  · rw [hget] at hz
    rw [hcur] at hc
    split at hz
    · subst_vars
      cases hz
      obtain ⟨h1, h2, h3, h4⟩ := h.dispatched _ x hx hc
      rw [hprms, hpre]
      exact ⟨fun he => h1 (hinfer.1 he), h2, h3, h4⟩
    · exact h.dispatched b' z hz hc

/-- A step that keeps the batches, and the place of the worker where it fills one. -/
theorem Worked.congr {s s' : State R} (h : Worked s) (hb : s'.batches = s.batches)
    (hw : ∀ b, (∀ size i, s'.worker = .fill b size i → s.worker = .fill b size i ∧ size - i ≤ s'.promises.length) ∧
      (s'.worker = .enqueueInfer b → s.worker = .enqueueInfer b) ∧ (Current s b → Current s' b)) : Worked s' := by
  refine ⟨fun b size i hw' => ?_, fun b hw' => ?_, fun b x hx hc => ?_⟩
  · obtain ⟨hwb, hle⟩ := (hw b).1 size i hw'
    have hf := h.fill b size i hwb
    exact ⟨hb ▸ hf.last, hb ▸ hf.members, hf.le, hf.pos, hf.size_le, hle⟩
  · obtain ⟨size, hf⟩ := h.filled b ((hw b).2.1 hw')
    exact ⟨size, hb ▸ hf.last, hb ▸ hf.members, hf.le, hf.pos, hf.size_le, by omega⟩
  · exact h.dispatched b x (hb ▸ hx) fun hc' => hc ((hw b).2.2 hc')

/-! ### Steps -/

/-- What a step does to the requests: only `submit` adds one, and only the destructor takes some away. -/
theorem requests_of_move {s s' : State R} {l : Label Img C} (hw : Worked s) (hm : Move s l s') :
    s'.requests = s.requests ∧ s'.images = s.images ∧ (s'.isClose = false → s.isClose = false) ∨
      s'.requests = s.requests ++ [s.images.length] ∧ s'.images.length = s.images.length + 1 ∧ s.isClose = false ∨
      s'.requests ++ s.promises = s.requests ∧ s'.images = s.images ∧ s'.isClose = s.isClose ∧ l = .destroy ∧
        ∃ rest, s.teardown = some (.destroyQueues :: rest) := by
  cases hm with
  | submit _ alive =>
    refine .inr (.inl ⟨?_, List.length_append, alive⟩)
    show s.batches.flatMap (·.prms) ++ (s.promises ++ [s.images.length]) = _
    rw [← List.append_assoc]
    rfl
  | destroyQueues todo =>
    refine .inr (.inr ⟨?_, rfl, rfl, rfl, _, todo⟩)
    show s.batches.flatMap (·.prms) ++ [] ++ s.promises = _
    rw [List.append_nil]
    rfl
  | acquire =>
    refine .inl ⟨?_, rfl, id⟩
    show (s.batches ++ [(_ : Batch R)]).flatMap (·.prms) ++ s.promises = _
    rw [List.flatMap_append, List.flatMap_singleton, List.append_nil]
    rfl
  | fill at_ lt hx front front' =>
    refine .inl ⟨?_, rfl, id⟩
    show (s.batches.set _ _).flatMap (·.prms) ++ _ = _
    rw [flatMap_set_last hx (hw.fill _ _ _ at_).last rfl, List.append_assoc, State.requests, front']
    rfl
  | close => exact .inl ⟨rfl, rfl, nofun⟩
  | turn | breakOut | misuse | destroyStart | joinWorker | stopPre | stopInfer | stopPost | joinPre | joinInfer
  | joinPost => exact .inl ⟨rfl, rfl, id⟩
  | enqueueInfer _ hx | takePre _ hx | takeInfer _ hx | takePost _ hx | startPre hx | runPre hx | returnPre hx
  | endPre hx | startInfer hx | get hx | rethrow hx | callInfer hx | runInfer hx | hop hx | drop hx | throwInfer hx
  | endInfer hx | startPost hx | runPost hx | deliver hx | throwPost hx | endPost hx =>
    exact .inl ⟨congrArg (· ++ s.promises) (flatMap_set hx rfl), rfl, id⟩

theorem Whole.step {s s' : State R} {l : Label Img C} (h : Whole s) (hw : Worked s) (hm : Move s l s')
    (hq : l = .destroy → ∀ rest, s.teardown = some (.destroyQueues :: rest) → s.promises = []) : Whole s' := by
  rcases requests_of_move hw hm with ⟨hr, himg, -⟩ | ⟨hr, himg, -⟩ | ⟨hr, himg, -, hl, rest, todo⟩
  · rw [Whole, hr, himg]
    exact h
  · rw [Whole, hr, himg, h, List.range_succ]
  · rw [hq hl rest todo, List.append_nil] at hr
    rw [Whole, hr, himg]
    exact h

theorem Lined.aligned_submit {s : State R} (h : Lined s) (halive : s.isClose = false) (img : Img) :
    (s.inputs ++ [img]).map some = (s.promises ++ [s.images.length]).map ((s.images ++ [img])[·]?) := by
  have hlt : ∀ r ∈ s.promises, r < s.images.length := by
    intro r hr
    have hmem : r ∈ s.requests := List.mem_append_right _ hr
    rw [h.whole halive] at hmem
    exact List.mem_range.1 hmem
  have hsame : s.promises.map ((s.images ++ [img])[·]?) = s.promises.map (s.images[·]?) :=
    List.map_congr_left fun r hr => List.getElem?_append_left (hlt r hr)
  simp only [List.map_append, hsame, h.aligned, List.map_cons, List.map_nil]
  rw [List.getElem?_append_right (Nat.le_refl _), Nat.sub_self]
  rfl

/-- The queues after a step; they are destroyed after the scheduler has been closed. -/
theorem Lined.step {s s' : State R} {l : Label Img C} (h : Lined s) (hw : Worked s) (hm : Move s l s')
    (hq : l = .destroy → ∀ rest, s.teardown = some (.destroyQueues :: rest) → s.isClose = true) : Lined s' := by
  refine ⟨?_, ?_, fun halive => ?_⟩
  · cases hm with
    | submit _ alive => exact h.aligned_submit alive _
    | fill _ _ _ front front' =>
      have hal := h.aligned
      rw [front, front', List.map_cons, List.map_cons, List.cons.injEq] at hal
      exact hal.2
    | destroyQueues => rfl
    | _ => exact h.aligned
  · rcases requests_of_move hw hm with ⟨hr, himg, -⟩ | ⟨hr, himg, halive⟩ | ⟨hr, himg, -⟩
    · rw [hr, himg]
      exact h.order
    · have hall : s'.requests = List.range s'.images.length := by rw [hr, himg, h.whole halive, List.range_succ]
      exact hall ▸ List.prefix_rfl
    · rw [himg]
      exact (List.prefix_append _ _).trans (hr ▸ h.order)
  · rcases requests_of_move hw hm with ⟨hr, himg, hc⟩ | ⟨hr, himg, hc⟩ | ⟨-, -, hsame, hl, rest, todo⟩
    · rw [Whole, hr, himg]
      exact h.whole (hc halive)
    · rw [Whole, hr, himg, h.whole hc, List.range_succ]
    · rw [hsame, hq hl rest todo] at halive
      cases halive

/-- The batch that the worker begins. -/
theorem Worked.acquire {s : State R} (h : Worked s) (hl : Lined s) (at_ : s.worker = .getTensorBuffer) {tenbuf : T}
    {backend : B} (pos : 0 < min R.batchSize s.inputs.length) :
    Worked { s.turn (.fill s.batches.length (min R.batchSize s.inputs.length) 0) with
      backend := backend, batches := s.batches ++ [⟨tenbuf, [], [], .absent, .absent⟩] } := by
  have hlen := hl.length_eq
  refine ⟨fun b size i hw => ?_, fun b hw => ?_, fun b x hx hc => ?_⟩
  · cases hw
    refine ⟨by simp, ⟨_, List.getElem?_concat_length, rfl, rfl, rfl, rfl⟩, Nat.zero_le _, pos,
      Nat.min_le_left _ _, ?_⟩
    show min R.batchSize s.inputs.length - 0 ≤ s.promises.length
    omega
  · cases hw
  · rcases Nat.lt_trichotomy b s.batches.length with hlt | heq | hgt
    · refine h.dispatched b x (by rwa [← List.getElem?_append_left hlt]) ?_
      rintro (⟨_, _, hw⟩ | hw) <;> rw [at_] at hw <;> cases hw
    · subst heq
      exact absurd (.inl ⟨_, _, rfl⟩) hc
    · have hlt := (List.getElem?_eq_some_iff.1 hx).1
      simp only [List.length_append, List.length_singleton] at hlt
      omega

/-- The next image of the batch. -/
theorem Worked.fill_step {s s' : State R} (h : Worked s) {b size i p : Nat} {x y : Batch R} {promises : List Nat}
    (at_ : s.worker = .fill b size i) (lt : i < size) (hx : s.batches[b]? = some x)
    (front : s.promises = p :: promises) (hb : s'.batches = s.batches.set b y) (hw : s'.worker = .fill b size (i + 1))
    (hpr : s'.promises = promises) (hlen : y.prms.length = x.prms.length + 1) (hpre : y.pre.length = x.pre.length + 1)
    (hinfer : y.infer = x.infer) (hpost : y.post = x.post) : Worked s' := by
  have hf := h.fill b size i at_
  obtain ⟨z, hz, h1, h2, h3, h4⟩ := hf.members
  rw [hx, Option.some.injEq] at hz
  subst hz
  have hget : ∀ b', s'.batches[b']? = if b' = b then some y else s.batches[b']? := by
    intro b'
    rw [hb]
    exact getElem?_setBatch hx y b'
  refine ⟨fun b' size' i' hw' => ?_, fun b' hw' => ?_, fun b' w hw' hc => ?_⟩
  · rw [hw] at hw'
    cases hw'
    refine ⟨by rw [hb, List.length_set]; exact hf.last, ⟨y, by rw [hget, if_pos rfl], by omega, by omega, ?_, ?_⟩, lt,
      hf.pos, hf.size_le, ?_⟩
    · rw [hinfer, h3]
    · rw [hpost, h4]
    · have henough := hf.enough
      rw [front, List.length_cons] at henough
      rw [hpr]
      omega
  · rw [hw] at hw'
    cases hw'
  · rw [hget] at hw'
    split at hw'
    · subst_vars
      exact absurd (.inl ⟨size, _, hw⟩) hc
    · refine h.dispatched b' w hw' ?_
      rintro (⟨_, _, hc'⟩ | hc') <;> rw [at_] at hc' <;> cases hc'
      exact absurd rfl ‹_›

/-- The batch is dispatched. -/
theorem Worked.enqueueInfer_step {s s' : State R} (h : Worked s) {b : Nat} {x y : Batch R}
    (at_ : s.worker = .enqueueInfer b) (hx : s.batches[b]? = some x) (hb : s'.batches = s.batches.set b y)
    (hw : s'.worker = .again) (hprms : y.prms = x.prms) (hpre : y.pre = x.pre) (hinfer : y.infer ≠ .absent) :
    Worked s' := by
  obtain ⟨size, hf⟩ := h.filled b at_
  obtain ⟨z, hz, h1, h2, -, -⟩ := hf.members
  rw [hx, Option.some.injEq] at hz
  subst hz
  refine ⟨fun b' size' i' hw' => ?_, fun b' hw' => ?_, fun b' w hw' _ => ?_⟩
  · rw [hw] at hw'
    cases hw'
  · rw [hw] at hw'
    cases hw'
  · rw [hb] at hw'
    rw [show (s.batches.set b y)[b']? = _ from getElem?_setBatch hx y b'] at hw'
    split at hw'
    · cases hw'
      rw [hprms, hpre]
      have h1' := hf.pos
      have h2' := hf.size_le
      exact ⟨hinfer, by omega, by omega, by omega⟩
    · rename_i hne
      refine h.dispatched b' w hw' ?_
      rintro (⟨_, _, hc'⟩ | hc') <;> rw [at_] at hc' <;> cases hc'
      exact hne rfl

/-- The batch that is being filled. -/
theorem Worked.filling_of_current {s : State R} (h : Worked s) {b : Nat} (hc : Current s b) :
    ∃ size i, Filling s b size i := by
  rcases hc with ⟨size, i, hw⟩ | hw
  · exact ⟨size, i, h.fill b size i hw⟩
  · obtain ⟨size, hf⟩ := h.filled b hw
    exact ⟨size, size, hf⟩

theorem Worked.length_le {s : State R} (h : Worked s) {b : Nat} {x : Batch R} (hx : s.batches[b]? = some x) :
    x.prms.length ≤ R.batchSize := by
  by_cases hc : Current s b
  · obtain ⟨size, i, hf⟩ := h.filling_of_current hc
    obtain ⟨z, hz, hi, -⟩ := hf.members
    rw [hx, Option.some.injEq] at hz
    rw [hz, hi]
    exact Nat.le_trans hf.le hf.size_le
  · exact (h.dispatched b x hx hc).2.2.1

/-- A batch with a postprocess task has been dispatched. -/
theorem Worked.infer_ne_absent {s : State R} (h : Worked s) {b : Nat} {x : Batch R} (hx : s.batches[b]? = some x)
    (hpost : x.post ≠ .absent) : x.infer ≠ .absent := by
  by_cases hc : Current s b
  · obtain ⟨size, i, hf⟩ := h.filling_of_current hc
    obtain ⟨z, hz, -, -, -, hnone⟩ := hf.members
    rw [hx, Option.some.injEq] at hz
    exact absurd (hz ▸ hnone) hpost
  · exact (h.dispatched b x hx hc).1

theorem Worked.turn {s : State R} {w : Worker} (h : Worked s) (ht : Turn s w) : Worked (s.turn w) := by
  cases ht with
  | @filled b size i at_ done =>
    have hf := h.fill b size i at_
    have hi : i = size := Nat.le_antisymm hf.le done
    subst hi
    refine ⟨fun b' size' i' hw => ?_, fun b' hw => ?_, fun b' x hx hc => ?_⟩
    · cases hw
    · cases hw
      exact ⟨i, hf.last, hf.members, hf.le, hf.pos, hf.size_le, hf.enough⟩
    · refine h.dispatched b' x hx ?_
      rintro (⟨_, _, hc'⟩ | hc') <;> rw [at_] at hc' <;> cases hc'
      exact hc (.inr rfl)
  | ready at_ | idle at_ | again at_ | leave at_ | loop at_ | exit at_ =>
    refine h.congr rfl fun b => ⟨fun _ _ hw => ?_, fun hw => ?_, ?_⟩
    · cases hw
    · cases hw
    · rintro (⟨_, _, hc⟩ | hc) <;> rw [at_] at hc <;> cases hc

theorem Worked.step {s s' : State R} {l : Label Img C} (h : Worked s) (hl : Lined s) (hm : Move s l s')
    (hq : l = .destroy → ∀ rest, s.teardown = some (.destroyQueues :: rest) → s.worker = .exited) : Worked s' := by
  cases hm with
  | submit =>
    refine h.congr rfl fun b => ⟨fun size i hw => ⟨hw, ?_⟩, id, id⟩
    have henough := (h.fill b size i hw).enough
    show size - i ≤ (s.promises ++ [s.images.length]).length
    rw [List.length_append]
    omega
  | turn ht => exact h.turn ht
  | acquire at_ _ pos => exact h.acquire hl at_ pos
  | breakOut at_ =>
    refine h.congr rfl fun b => ⟨fun _ _ hw => ?_, fun hw => ?_, ?_⟩
    · cases hw
    · cases hw
    · rintro (⟨_, _, hc⟩ | hc) <;> rw [at_] at hc <;> cases hc
  | fill at_ lt hx _ front' => exact h.fill_step at_ lt hx front' rfl rfl rfl (by simp) (by simp) rfl rfl
  | enqueueInfer at_ hx => exact h.enqueueInfer_step at_ hx rfl rfl rfl rfl nofun
  | takePre _ hx _ | startPre hx _ | runPre hx _ _ | returnPre hx _ | endPre hx _ =>
    exact h.setBatch hx rfl rfl rfl rfl (by simp) Iff.rfl fun _ => rfl
  | takeInfer _ hx at_ | startInfer hx at_ | get hx at_ | rethrow hx at_ | callInfer hx at_ | drop hx at_
  | throwInfer hx at_ | endInfer hx at_ =>
    exact h.setBatch hx rfl rfl rfl rfl rfl (by simp [at_]) fun _ => rfl
  | @runInfer b c x l y hx at_ =>
    have hy : Task.ofStep (I := Unit) (y.2.map .inr id) ≠ (.absent : Task Unit (Nat ⊕ R.infer.Local) M ε) := by
      rcases y.2 with l' | r <;> exact nofun
    exact h.setBatch hx rfl rfl rfl rfl rfl (by simp [at_, hy]) fun _ => rfl
  | hop hx at_ => exact h.setBatch hx rfl rfl rfl rfl rfl (by simp [at_]) (by simp [at_])
  | takePost _ hx at_ | startPost hx at_ | runPost hx at_ | deliver hx at_ | throwPost hx at_ | endPost hx at_ =>
    have hne := h.infer_ne_absent hx (by rw [at_]; exact nofun)
    exact h.setBatch hx rfl rfl rfl rfl rfl Iff.rfl fun habs => absurd habs hne
  | misuse | destroyStart | close | joinWorker | stopPre | stopInfer | stopPost | joinPre
  | joinInfer | joinPost => exact h.congr rfl fun b => ⟨fun size i hw => ⟨hw, (h.fill b size i hw).enough⟩, id, id⟩
  | destroyQueues todo =>
    have hexit := hq rfl _ todo
    refine h.congr rfl fun b => ⟨fun size i hw => ?_, fun hw => ?_, id⟩
    · cases hexit.symm.trans hw
    · cases hexit.symm.trans hw

/-! ### Members -/

theorem Lined.nodup {s : State R} (h : Lined s) : s.requests.Nodup :=
  List.nodup_range.sublist h.order.sublist

/-- A request is in one batch at most, and there once. -/
theorem Lined.unique {s : State R} (h : Lined s) {b b' i i' r : Nat} {x y : Batch R} (hx : s.batches[b]? = some x)
    (hy : s.batches[b']? = some y) (hi : x.prms[i]? = some r) (hi' : y.prms[i']? = some r) : b = b' ∧ i = i' := by
  have hnd : (s.batches.flatMap (·.prms)).Nodup := (List.nodup_append.1 h.nodup).1
  rw [List.nodup_flatMap] at hnd
  obtain ⟨hone, hpair⟩ := hnd
  rw [List.pairwise_iff_getElem] at hpair
  obtain ⟨hb, rfl⟩ := List.getElem?_eq_some_iff.1 hx
  obtain ⟨hb', rfl⟩ := List.getElem?_eq_some_iff.1 hy
  rcases Nat.lt_trichotomy b b' with hlt | rfl | hlt
  · exact absurd (List.mem_of_getElem? hi') (hpair b b' hb hb' hlt (List.mem_of_getElem? hi))
  · refine ⟨rfl, ?_⟩
    have hil := (List.getElem?_eq_some_iff.1 hi).1
    exact (List.getElem?_inj hil (hone _ (List.getElem_mem hb))).1 (hi.trans hi'.symm)
  · exact absurd (List.mem_of_getElem? hi) (hpair b' b hb' hb hlt (List.mem_of_getElem? hi'))

/-- A queued request is in no batch. -/
theorem Lined.not_mem_of_queued {s : State R} (h : Lined s) {r : Nat} (hr : r ∈ s.promises) {x : Batch R}
    (hx : x ∈ s.batches) : r ∉ x.prms := by
  intro hmem
  exact (List.nodup_append.1 h.nodup).2.2 r (List.mem_flatMap.2 ⟨x, hx, hmem⟩) r hr rfl

/-- A request that has not been lost is queued or in a batch. -/
theorem Whole.queued_or_mem {s : State R} (h : Whole s) {r : Nat} (hr : r < s.images.length) :
    r ∈ s.promises ∨ ∃ (b i : Nat) (x : Batch R), s.batches[b]? = some x ∧ x.prms[i]? = some r := by
  have hmem : r ∈ s.requests := h ▸ List.mem_range.2 hr
  rcases List.mem_append.1 hmem with hmem | hmem
  · obtain ⟨x, hx, hrx⟩ := List.mem_flatMap.1 hmem
    obtain ⟨b, hb⟩ := List.mem_iff_getElem?.1 hx
    obtain ⟨i, hi⟩ := List.mem_iff_getElem?.1 hrx
    exact .inr ⟨b, i, x, hb, hi⟩
  · exact .inl hmem

/-- The members of a batch are consecutive submissions. -/
theorem Whole.segment {s : State R} (h : Whole s) {x : Batch R} (hx : x ∈ s.batches) :
    ∃ start, x.prms = List.range' start x.prms.length := by
  obtain ⟨l₁, l₂, hl⟩ := List.append_of_mem hx
  rw [Whole, State.requests, hl, List.flatMap_append, List.flatMap_cons, List.append_assoc, List.append_assoc,
    List.range_eq_range'] at h
  obtain ⟨k, -, -, hrest⟩ := List.range'_eq_append_iff.1 h.symm
  obtain ⟨k', -, hprms, -⟩ := List.range'_eq_append_iff.1 hrest.symm
  refine ⟨0 + k * 1, ?_⟩
  rw [hprms, List.length_range']

end OnnxInference.BatchScheduler
