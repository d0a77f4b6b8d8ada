import OnnxInference.Scheduler.BatchExecutors

/-!
# Runners that act slot by slot

If the stages act on the tensor buffer of the batch only, each preprocess task on its own slot, and output `i` is a
function of slot `i`, then the batch scheduler gives every request the output of its own image.
-/

namespace OnnxInference.BatchScheduler

open Concurrency Transition

variable {B C Img T M O ε : Type} {R : BatchRunner B C Img T M O ε}

/-- The stages are pure functions of the slots of a tensor buffer: `content` is what preprocess makes of an image, and
`output` what inference and postprocess make of a slot.  `During` is what the slot of a preprocess task holds while it
runs. -/
structure Slotwise (R : BatchRunner B C Img T M O ε) where
  Slot : Type
  slot : T → Nat → Slot
  content : Img → Slot
  output : Slot → O
  During : Img × Nat → R.preprocess.Local → Slot → Prop
  during_start : ∀ a v, During a (R.preprocess.start a) v
  during_step : ∀ {a c b tenbuf l b' tenbuf' l'},
    R.preprocess.step c (b, tenbuf) l = some ((b', tenbuf'), .inl l') →
    During a l (slot tenbuf a.2) → During a l' (slot tenbuf' a.2)
  content_of_return : ∀ {a c b tenbuf l b' tenbuf'},
    R.preprocess.step c (b, tenbuf) l = some ((b', tenbuf'), .inr (.ok ())) →
    During a l (slot tenbuf a.2) → slot tenbuf' a.2 = content a.1
  frame : ∀ {a c b tenbuf l b' tenbuf' x j}, R.preprocess.Reaches a l →
    R.preprocess.step c (b, tenbuf) l = some ((b', tenbuf'), x) → j ≠ a.2 → slot tenbuf' j = slot tenbuf j
  output_of_ends : ∀ {tenbuf out outs i}, R.infer.Ends tenbuf (.ok out) → R.postprocess.Ends out (.ok outs) →
    i < R.batchSize → outs.1[i]? = some (output (slot tenbuf i))

namespace Slotwise

variable (hR : Slotwise R)

/-- The output of an image alone. -/
def own (img : Img) : O := hR.output (hR.content img)

/-- What the slot of a preprocess task holds. -/
def SlotOf (tenbuf : T) (a : Img × Nat) : Task (Img × Nat) R.preprocess.Local Unit ε → Prop
  | .execute l => hR.During a l (hR.slot tenbuf a.2)
  | .returned (.ok _) | .ending (.ok _) | .finished (.ok _) => hR.slot tenbuf a.2 = hR.content a.1
  | _ => True

def Filled (images : List Img) (x : Batch R) : Prop :=
  ∀ (i : Nat) t img, x.pre[i]? = some t → x.imageAt images i = some img → hR.SlotOf x.tenbuf (img, i) t

variable {hR}

theorem SlotOf.of_outcome {tenbuf : T} {a : Img × Nat} {t : Task (Img × Nat) R.preprocess.Local Unit ε}
    (h : hR.SlotOf tenbuf a t) (ht : t.outcome = some (.ok ())) : hR.slot tenbuf a.2 = hR.content a.1 := by
  rcases t with _ | _ | _ | _ | _ | (e | u) | (e | u) <;> first | exact h | cases ht

/-- A step of one preprocess task. -/
theorem Filled.setPre {images : List Img} {x : Batch R} (h : hR.Filled images x) {i : Nat} {tenbuf : T}
    {t t' : Task (Img × Nat) R.preprocess.Local Unit ε} (ht : x.pre[i]? = some t)
    (hnew : ∀ img, x.imageAt images i = some img → hR.SlotOf x.tenbuf (img, i) t → hR.SlotOf tenbuf (img, i) t')
    (hframe : ∀ j, j ≠ i → hR.slot tenbuf j = hR.slot x.tenbuf j) :
    hR.Filled images { x with tenbuf := tenbuf, pre := x.pre.set i t' } := by
  intro j u img hu himg
  have hlt := (List.getElem?_eq_some_iff.1 ht).1
  simp only [List.getElem?_set] at hu
  split at hu
  · rename_i hij
    subst hij
    cases hu
    exact hnew img himg (h i t img ht himg)
  · rename_i hij
    have hj := h j u img hu himg
    have hsame : hR.slot tenbuf j = hR.slot x.tenbuf j := hframe j (Ne.symm hij)
    rcases u with _ | _ | _ | l | (e | v) | (e | v) | (e | v)
    · trivial
    · trivial
    · trivial
    · show hR.During (img, j) l (hR.slot tenbuf j)
      rw [hsame]
      exact hj
    · trivial
    · exact hsame.trans hj
    · trivial
    · exact hsame.trans hj
    · trivial
    · exact hsame.trans hj

theorem Filled.fill {images : List Img} {x : Batch R} (h : hR.Filled images x)
    (hlen : x.pre.length = x.prms.length) {p : Nat} {a : Img × Nat} :
    hR.Filled images { x with prms := x.prms ++ [p], pre := x.pre ++ [.queued a] } := by
  intro i t img ht himg
  simp only [List.getElem?_append] at ht
  split at ht
  · simp only [Batch.imageAt] at himg
    rw [List.getElem?_append_left (by omega)] at himg
    exact h i t img ht himg
  · rw [List.getElem?_singleton] at ht
    split at ht <;> cases ht
    trivial

theorem Filled.append {images : List Img} {x : Batch R} (h : hR.Filled images x) (hs : x.Sound images) (img : Img) :
    hR.Filled (images ++ [img]) x := by
  intro i t img' ht himg
  obtain ⟨img₀, himg₀, -⟩ := hs.pre i t ht
  have hsame := Batch.imageAt_append himg₀ img
  rw [hsame, Option.some.injEq] at himg
  exact h i t img' ht (himg ▸ himg₀)

/-! ### Steps -/

variable (hR) in
def AllFilled (s : State R) : Prop := ∀ (b : Nat) (x : Batch R), s.batches[b]? = some x → hR.Filled s.images x

theorem AllFilled.setBatch {s s' : State R} (h : hR.AllFilled s) {b : Nat} {x y : Batch R}
    (hx : s.batches[b]? = some x)
    (hb : s'.batches = s.batches.set b y) (himg : s'.images = s.images) (hy : hR.Filled s.images y) :
    hR.AllFilled s' := by
  intro b' z hz
  rw [hb, show (s.batches.set b y)[b']? = _ from getElem?_setBatch hx y b'] at hz
  rw [himg]
  split at hz
  · cases hz
    exact hy
  · exact h b' z hz

theorem AllFilled.congr {s s' : State R} (h : hR.AllFilled s) (hb : s'.batches = s.batches)
    (himg : s'.images = s.images) : hR.AllFilled s' :=
  fun b x hx => himg ▸ h b x (hb ▸ hx)

/-- The call of a running preprocess task is that of its member. -/
theorem arg_eq {images : List Img} {x : Batch R} (hs : x.Sound images) {i : Nat} {img : Img}
    {t : Task (Img × Nat) R.preprocess.Local Unit ε} (ht : x.pre[i]? = some t)
    (himg : x.imageAt images i = some img) :
    t.Of R.preprocess (img, i) := by
  obtain ⟨img', himg', hof, -⟩ := hs.pre i t ht
  rw [himg, Option.some.injEq] at himg'
  exact himg' ▸ hof

theorem AllFilled.step {s s' : State R} {l : Label Img C} (h : hR.AllFilled s) (hw : Worked s) (hs : Served s)
    (hm : Move s l s') : hR.AllFilled s' := by
  cases hm with
  | submit => exact fun b x hx => (h b x hx).append (hs.sound b x hx) _
  | acquire =>
    intro b x hx
    rw [List.getElem?_append] at hx
    split at hx
    · exact h b x hx
    · rw [List.getElem?_singleton] at hx
      split at hx <;> cases hx
      exact fun i t img ht => by simp at ht
  | fill at_ _ hx =>
    obtain ⟨z, hz, h1, h2, -⟩ := (hw.fill _ _ _ at_).members
    rw [hx, Option.some.injEq] at hz
    subst hz
    exact h.setBatch hx rfl rfl ((h _ _ hx).fill (h2.trans h1.symm))
  | takePre _ hx at_ =>
    exact h.setBatch hx rfl rfl ((h _ _ hx).setPre at_ (fun _ _ _ => trivial) fun _ _ => rfl)
  | startPre hx at_ =>
    refine h.setBatch hx rfl rfl ((h _ _ hx).setPre at_ (fun img himg _ => ?_) fun _ _ => rfl)
    rw [← show (img, _) = _ from (arg_eq (hs.sound _ _ hx) at_ himg).symm]
    exact hR.during_start _ _
  | @runPre b i c x l y hx at_ stepped =>
    obtain ⟨⟨backend, tenbuf⟩, z⟩ := y
    refine h.setBatch hx rfl rfl ((h _ _ hx).setPre at_ (fun img himg hold => ?_) fun j hj => ?_)
    · rcases z with l' | e | _
      · exact hR.during_step stepped hold
      · trivial
      · exact hR.content_of_return stepped hold
    · obtain ⟨img, himg, hof, -⟩ := (hs.sound _ _ hx).pre i _ at_
      exact hR.frame hof stepped hj
  | @returnPre b i c x r hx at_ =>
    refine h.setBatch hx rfl rfl ((h _ _ hx).setPre at_ (fun _ _ hold => ?_) fun _ _ => rfl)
    rcases r with e | _ <;> exact hold
  | @endPre b i c x r hx at_ =>
    refine h.setBatch hx rfl rfl ((h _ _ hx).setPre at_ (fun _ _ hold => ?_) fun _ _ => rfl)
    rcases r with e | _ <;> exact hold
  | enqueueInfer _ hx | takeInfer _ hx | startInfer hx | get hx | rethrow hx | callInfer hx | runInfer hx | hop hx
  | drop hx | throwInfer hx | endInfer hx | takePost _ hx | startPost hx | runPost hx | deliver hx | throwPost hx
  | endPost hx =>
    have hold := h _ _ hx
    exact h.setBatch hx rfl rfl hold
  | turn | breakOut | misuse | destroyStart | close | joinWorker | stopPre | stopInfer | stopPost | joinPre
  | joinInfer | joinPost | destroyQueues => exact h.congr rfl rfl

/-- The output of a member is that of its image. -/
theorem own_of_ends {images : List Img} {x : Batch R} (h : hR.Filled images x) (hok : x.AllOk) {i : Nat} {img : Img}
    (himg : x.imageAt images i = some img) (hi : i < x.pre.length) (hle : i < R.batchSize) {out : M}
    {outs : Outputs R.batchSize O}
    (hout : R.infer.Ends x.tenbuf (.ok out)) (houts : R.postprocess.Ends out (.ok outs)) :
    outs.1[i]? = some (hR.own img) := by
  have ht := List.getElem?_eq_getElem hi
  have hslot := (h i _ img ht himg).of_outcome (hok i _ ht)
  rw [hR.output_of_ends hout houts hle, hslot]
  rfl

end Slotwise

/-! ### The scheduler pairs and partitions -/

/-- The destructor has not yet come to the queues. -/
def KeepsQueues (s : State R) (l : Label Img C) : Prop :=
  l = .destroy → ∀ rest, s.teardown ≠ some (.destroyQueues :: rest)

/-- The queues are aligned and continue the batches in the order of submission; a dispatched batch has a preprocess
task on its own slot for each of its members, and a promise is given the output of its own image at most. -/
structure Paired (hR : Slotwise R) (s : State R) : Prop where
  length_eq : s.inputs.length = s.promises.length
  aligned : ∀ (k : Nat) r, s.promises[k]? = some r → s.inputs[k]? = s.images[r]?
  order : s.batches.flatMap (·.prms) ++ s.promises = List.range s.images.length
  segment : ∀ x ∈ s.batches, ∃ start, x.prms = List.range' start x.prms.length
  one_batch : ∀ (b b' : Nat) (x y : Batch R) r, s.batches[b]? = some x → s.batches[b']? = some y → r ∈ x.prms →
    r ∈ y.prms → b = b'
  sizes : ∀ x ∈ s.batches, x.infer ≠ .absent → 1 ≤ x.prms.length ∧ x.prms.length ≤ R.batchSize ∧
    x.pre.length = x.prms.length
  slots : ∀ x ∈ s.batches, ∀ (i : Nat) t, x.pre[i]? = some t → ∃ img, x.imageAt s.images i = some img ∧
    t.Of R.preprocess (img, i) ∧ t ≠ .absent
  values : ∀ (r : Nat) o, .ok o ∈ s.promise r → ∃ img, s.images[r]? = some img ∧ o = hR.own img
  once : ∀ r, (s.promise r).length ≤ 1

theorem Lined.getElem?_eq {s : State R} (h : Lined s) {k r : Nat} (hk : s.promises[k]? = some r) :
    s.inputs[k]? = s.images[r]? := by
  have hal := congrArg (·[k]?) h.aligned
  simp only [List.getElem?_map, hk, Option.map_some] at hal
  obtain ⟨img, himg, heq⟩ := Option.map_eq_some_iff.1 hal
  rw [himg, heq]

theorem Worked.sizes {s : State R} (h : Worked s) {b : Nat} {x : Batch R} (hx : s.batches[b]? = some x)
    (hi : x.infer ≠ .absent) : 1 ≤ x.prms.length ∧ x.prms.length ≤ R.batchSize ∧ x.pre.length = x.prms.length := by
  by_cases hc : Current s b
  · obtain ⟨size, i, hf⟩ := h.filling_of_current hc
    obtain ⟨z, hz, -, -, hnone, -⟩ := hf.members
    rw [hx, Option.some.injEq] at hz
    exact absurd (hz ▸ hnone) hi
  · exact (h.dispatched b x hx hc).2

theorem Served.of_ok_mem {s : State R} (h : Served s) {r : Nat} {o : O} (ho : .ok o ∈ s.promise r) :
    ∃ (b : Nat) (x : Batch R) (i : Nat), s.batches[b]? = some x ∧ x.prms[i]? = some r ∧ .ok o ∈ x.result i := by
  by_cases hmem : ∃ x ∈ s.batches, r ∈ x.prms
  · obtain ⟨x, hx, hr⟩ := hmem
    obtain ⟨b, hb⟩ := List.mem_iff_getElem?.1 hx
    obtain ⟨i, hi⟩ := List.mem_iff_getElem?.1 hr
    exact ⟨b, x, i, hb, hi, h.member b x i r hb hi ▸ ho⟩
  · rw [h.other r fun x hx hr => hmem ⟨x, hx, hr⟩] at ho
    cases ho

theorem Served.length_le {s : State R} (h : Served s) (r : Nat) : (s.promise r).length ≤ 1 := by
  by_cases hmem : ∃ x ∈ s.batches, r ∈ x.prms
  · obtain ⟨x, hx, hr⟩ := hmem
    obtain ⟨b, hb⟩ := List.mem_iff_getElem?.1 hx
    obtain ⟨i, hi⟩ := List.mem_iff_getElem?.1 hr
    rw [h.member b x i r hb hi]
    exact Batch.length_result_le i
  · rw [h.other r fun x hx hr => hmem ⟨x, hx, hr⟩]
    exact Nat.zero_le 1

/-- In every run in which the queues have not been destroyed. -/
theorem paired (R : BatchRunner B C Img T M O ε) (hR : Slotwise R) (b : B) {s : State R}
    (h : (system R b).ReachBy KeepsQueues s) : Paired hR s := by
  have hinv : Inv s ∧ Whole s ∧ hR.AllFilled s := by
    refine h.invariant (P := fun s => Inv s ∧ Whole s ∧ hR.AllFilled s) ⟨Inv.init b, Whole.init b, fun b x hx => ?_⟩ ?_
    · simp [system, init] at hx
    · rintro s l s' ⟨hi, hwhole, hf⟩ hG hs
      have hm := (Move.of_step hs).2
      refine ⟨hi.step hm, hwhole.step hi.kept.worked hm fun hl rest hrest => ?_,
        hf.step hi.kept.worked hi.kept.served hm⟩
      exact absurd hrest (hG hl rest)
  obtain ⟨⟨⟨hl, hw, hs⟩, -⟩, hwhole, hf⟩ := hinv
  refine ⟨hl.length_eq, fun k r => hl.getElem?_eq, hwhole, fun x hx => hwhole.segment hx, ?_, ?_, ?_, ?_,
    hs.length_le⟩
  · intro b b' x y r hx hy hr hr'
    obtain ⟨i, hi⟩ := List.mem_iff_getElem?.1 hr
    obtain ⟨i', hi'⟩ := List.mem_iff_getElem?.1 hr'
    exact (hl.unique hx hy hi hi').1
  · intro x hx hi
    obtain ⟨b, hb⟩ := List.mem_iff_getElem?.1 hx
    exact hw.sizes hb hi
  · intro x hx
    obtain ⟨b, hb⟩ := List.mem_iff_getElem?.1 hx
    exact (hs.sound b x hb).pre
  · intro r o ho
    obtain ⟨b, x, i, hb, hi, ho⟩ := hs.of_ok_mem ho
    obtain ⟨out, outs, hout, houts, ho⟩ := Batch.of_ok_mem_result ho
    have hsound := hs.sound b x hb
    obtain ⟨hok, hends⟩ := hsound.result_of_outcome hout
    have hpost : x.post ≠ .absent := by
      rintro habs
      rw [habs] at houts
      cases houts
    obtain ⟨out', hout', hof⟩ := hsound.post hpost
    rw [hout, Option.some.injEq, Except.ok.injEq] at hout'
    subst hout'
    obtain ⟨-, hle, hlen⟩ := hw.sizes hb (hw.infer_ne_absent hb hpost)
    have hilt := (List.getElem?_eq_some_iff.1 hi).1
    obtain ⟨img, himg, -⟩ := hsound.pre i _ (List.getElem?_eq_getElem (hlen ▸ hilt))
    refine ⟨img, ?_, ?_⟩
    · rw [← himg, Batch.imageAt, hi, Option.bind_some]
    · have hown := hR.own_of_ends (hf b x hb) hok himg (hlen ▸ hilt) (by omega) hends (hof.outcome houts)
      rw [ho, Option.some.injEq] at hown
      exact hown

/-! ### A run -/

/-- Numbers as images: preprocess writes its slot, and the model adds one to every slot of the batch. -/
def slotRunner : BatchRunner Unit Unit Nat (Nat → Nat) (Nat → Nat) Nat String where
  bufferSize := 2
  bufferSize_pos := Nat.two_pos
  batchSize := 2
  batchSize_pos := Nat.two_pos
  getTensorBuffer b := some (fun _ => 0, b)
  valid _ := true
  valid_of_getTensorBuffer _ := rfl
  preprocess := ⟨Nat × Nat, id, fun _ s a => some ((s.1, Function.update s.2 a.2 a.1), .inr (.ok ()))⟩
  infer := .ofFn fun tenbuf => .ok fun i => tenbuf i + 1
  postprocess := .ofFn fun out => .ok ⟨[out 0, out 1], Nat.le_refl 2⟩
  destroyOutput _ b := b

def slotRunner_slotwise : Slotwise slotRunner where
  Slot := Nat
  slot tenbuf i := tenbuf i
  content := id
  output v := v + 1
  During a l _ := l = a
  during_start _ _ := rfl
  during_step h := by cases h
  content_of_return := by
    rintro a c b tenbuf l b' tenbuf' h rfl
    cases h
    exact Function.update_self _ _ _
  frame := by
    rintro a c b tenbuf l b' tenbuf' x j hl h hj
    have hla : l = a := by
      cases hl with
      | start => rfl
      | step _ hs => cases hs
    subst hla
    cases h
    exact Function.update_of_ne hj _ _
  output_of_ends := by
    intro tenbuf out outs i hout houts hi
    have h1 := Prog.ends_ofFn hout
    have h2 := Prog.ends_ofFn houts
    cases h1
    cases h2
    have hi' : i < 2 := hi
    rcases i with _ | _ | i
    · rfl
    · rfl
    · omega

/-- The tasks of batch `b`, with `n` members, to their ends. -/
def batchTrip (b n : Nat) : List (Label Nat Unit) :=
  (List.range n).flatMap (fun i => .take .pre :: List.replicate 4 (.advancePre b i ())) ++
    .take .infer :: List.replicate (n + 5) (.advanceInfer b ()) ++
    .take .post :: List.replicate 4 (.advancePost b ())

/-- Three submissions: a full batch, and a batch of one after a timeout. -/
def threeOfTwo : List (Label Nat Unit) :=
  [.submit 5, .submit 7, .submit 9] ++ List.replicate 8 .work ++ batchTrip 0 2 ++
    List.replicate 7 .work ++ batchTrip 1 1

theorem paired_slotRunner : ∃ s, Paired slotRunner_slotwise s ∧ s.images = [5, 7, 9] ∧ (s.promise 1).length = 1 ∧
    (s.promise 2).length = 1 := by
  obtain ⟨s, hs, hp⟩ := System.exists_reachable_of_run
    ((system slotRunner ()).restrict fun _ l => match l with | .destroy => false | _ => true) threeOfTwo
    (fun s => s.images == [5, 7, 9] && (s.promise 1).length == 1 && (s.promise 2).length == 1) (by decide +kernel)
  have hG : (system slotRunner ()).ReachBy KeepsQueues s := hs.of_restrict fun s l _ hl he => by
    subst he
    cases hl
  simp only [Bool.and_eq_true, beq_iff_eq] at hp
  exact ⟨s, paired slotRunner slotRunner_slotwise () hG, hp.1.1, hp.1.2, hp.2⟩

end OnnxInference.BatchScheduler
