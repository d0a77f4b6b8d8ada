import OnnxInference.Runner.YoloSlots
import OnnxInference.Runner.YoloStreams

/-!
# The tasks of a batch

Where no two tasks race for the map of the streams, the slots of a batch are those of the images alone, whatever the
order of the steps is.  They race unless the first elements of the staging pool, as many as there are tasks, have their
streams (`batch_eq_single_iff`): after the constructor this is so if `buffer_size` is at most `batch`.
-/

namespace OnnxInference

open Concurrency Transition

variable {net : Net}

namespace YoloCuda

/-- The tasks of a batch. -/
def batchRequests (imgs : List Image) (hle : imgs.length ≤ net.batch) : List (Image × Overload net) :=
  List.ofFn fun k : Fin imgs.length => (imgs.get k, .batched (k.castLE hle))

/-- Each task of a batch does what `preprocess(img)` does for its image, however the steps of the tasks interleave.
No two of them race.  All runs can be completed; when they are, each task has stored to every float of its slot once, to
its parameters once, and to nothing else; and its slot and its parameters are those that `preprocess(img)` leaves. -/
structure BatchEqSingle (D : YoloCuda) (g : Gpu net) (imgs : List Image) (hle : imgs.length ≤ net.batch) : Prop where
  race_free : ∀ s, ((D.preprocess net).tasks g (batchRequests imgs hle)).Reachable s → ¬Racing s
  ends : ∀ ls s, ((D.preprocess net).tasks g (batchRequests imgs hle)).run
      ((D.preprocess net).tasks g (batchRequests imgs hle)).init ls = some s →
    ∃ ls' s', ((D.preprocess net).tasks g (batchRequests imgs hle)).run s ls' = some s' ∧ (D.preprocess net).Ended s'
  stores : ∀ ls s, ((D.preprocess net).tasks g (batchRequests imgs hle)).run
      ((D.preprocess net).tasks g (batchRequests imgs hle)).init ls = some s → (D.preprocess net).Ended s →
    ∀ k : Fin imgs.length,
      ((D.preprocess net).trace D.stores k ((D.preprocess net).tasks g (batchRequests imgs hle)).init ls :
        Multiset Store) = slotStores net k
  slots : ∀ ls s, ((D.preprocess net).tasks g (batchRequests imgs hle)).run
      ((D.preprocess net).tasks g (batchRequests imgs hle)).init ls = some s → (D.preprocess net).Ended s →
    ∀ (k : Fin imgs.length) n₁ (g₁ : Gpu net), g₁.Ready n₁ → g₁.Sized →
      ∀ ls₁ s₁, ((D.preprocess net).tasks g₁ [(imgs.get k, .single)]).run
          ((D.preprocess net).tasks g₁ [(imgs.get k, .single)]).init ls₁ = some s₁ → (D.preprocess net).Ended s₁ →
        ∃ buf, s₁.calls = [.inr (.ok (some buf))] ∧
          segment (net.planeSize * k) net.planeSize (s.shared.mem g.tenbuf.data) =
            segment 0 net.planeSize (s₁.shared.mem buf.data) ∧
          s.shared.tenbuf.letterboxParams (k.castLE hle) = buf.letterboxParams net.slot0

theorem length_batchRequests {imgs : List Image} (hle : imgs.length ≤ net.batch) :
    (batchRequests imgs hle).length = imgs.length :=
  List.length_ofFn

theorem getElem?_batchRequests {imgs : List Image} (hle : imgs.length ≤ net.batch) (k : Fin imgs.length) :
    (batchRequests imgs hle)[k.val]? = some (imgs.get k, .batched (k.castLE hle)) := by
  rw [batchRequests, List.getElem?_ofFn, dif_pos k.isLt]

theorem apart_batchRequests {imgs : List Image} (hle : imgs.length ≤ net.batch) : Apart (batchRequests imgs hle) := by
  have hfin : ∀ {k : Nat} {r}, (batchRequests imgs hle)[k]? = some r →
      ∃ j : Fin imgs.length, j.val = k ∧ r = (imgs.get j, .batched (j.castLE hle)) := by
    intro k r hr
    have hlt : k < imgs.length := length_batchRequests hle ▸ (List.getElem?_eq_some_iff.1 hr).1
    exact ⟨⟨k, hlt⟩, rfl, Option.some.inj (hr.symm.trans (getElem?_batchRequests hle ⟨k, hlt⟩))⟩
  intro j k r r' hjk hr hr'
  obtain ⟨a, rfl, rfl⟩ := hfin hr
  obtain ⟨b, rfl, rfl⟩ := hfin hr'
  exact ⟨_, _, rfl, rfl, fun h => hjk (by simpa using congrArg Fin.val h)⟩

theorem valid_batchRequests {imgs : List Image} (hle : imgs.length ≤ net.batch)
    (hcont : ∀ img ∈ imgs, img.isContinuous = true) (hfit : ∀ img ∈ imgs, FitsElement net img) :
    Valid (batchRequests imgs hle) := by
  intro r hr
  obtain ⟨k, rfl⟩ := List.mem_ofFn.1 hr
  exact ⟨hcont _ (List.get_mem imgs k), hfit _ (List.get_mem imgs k)⟩

theorem apart_single (img : Image) : Apart [(img, (.single : Overload net))] := by
  intro j k r r' hjk hj hk
  have hj0 := (List.getElem?_eq_some_iff.1 hj).1
  have hk0 := (List.getElem?_eq_some_iff.1 hk).1
  simp only [List.length_singleton] at hj0 hk0
  omega

/-! ### Races -/

section Races

variable {D : YoloCuda} {n : Nat} {g g' : Gpu net} {l : PreAt net}
  {x : PreAt net ⊕ Except Error (Option (TensorBuffer net.batch))} {reqs : List (Image × Overload net)}
  {s s' : Calls (Gpu net) (PreAt net) (Option (TensorBuffer net.batch)) Error}

/-- The calls that are still to acquire an element. -/
def PreAt.acquiring : PreAt net → Nat
  | .acquire .. => 1
  | _ => 0

/-- The elements that the calls are still to acquire, and those that they hold, have their streams. -/
structure Keyed (s : Calls (Gpu net) (PreAt net) (Option (TensorBuffer net.batch)) Error) : Prop where
  free : ∀ p ∈ s.shared.staging.buffer.take (total PreAt.acquiring s.calls), (s.shared.streams p).isSome = true
  held : ∀ (k : Nat) l p, s.calls[k]? = some (.inl l) → l.staged = some p → (s.shared.streams p).isSome = true

theorem Keyed.not_racing (hk : Keyed s) : ¬Racing s := by
  rintro ⟨j, -, img, -, o, -, p, -, -, hj, -, hnone⟩
  have hsome := hk.held j _ p hj rfl
  rw [hnone] at hsome
  cases hsome

/-- The elements to be acquired after a step were to be acquired before, or are put back by it. -/
theorem PreMove.mem_take (h : PreMove D g l g' x) {m m' : Nat} (hm : m' + l.acquiring = m + weight PreAt.acquiring x)
    {q : Ptr} (hq : q ∈ g'.staging.buffer.take m') : q ∈ g.staging.buffer.take m ∨ l.staged = some q := by
  cases h with
  | acquire h =>
    obtain rfl : m = m' + 1 := by simpa [PreAt.acquiring] using hm.symm
    rw [(InferTensorBufferPool.acquire_some h).1, List.take_succ_cons]
    exact .inl (List.mem_cons_of_mem _ hq)
  | @release _ _ p staging h =>
    obtain rfl : m = m' := by simpa [PreAt.acquiring] using hm.symm
    have hbuffer : staging.buffer = g.staging.buffer ++ [p] := by
      unfold InferTensorBufferPool.release at h
      split at h <;> cases h
      rfl
    have hq' : q ∈ (g.staging.buffer ++ [p]).take m := hbuffer ▸ hq
    rw [List.take_append] at hq'
    rcases List.mem_append.1 hq' with hq' | hq'
    · exact .inl hq'
    · rw [List.mem_singleton.1 (List.mem_of_mem_take hq')]
      exact .inr rfl
  | @thread _ target _ _ _ _ o _ =>
    obtain rfl : m = m' := by simpa [PreAt.acquiring] using hm.symm
    rw [write_staging] at hq
    exact .inl hq
  | access | own | slot | reject | byte | launch | synchronize | foreign | storeOwn | storeSlot =>
    obtain rfl : m = m' := by simpa [PreAt.acquiring] using hm.symm
    exact .inl hq

theorem Keyed.step (hk : Keyed s) {lb : Nat × Option (GpuPreprocess.Thread net.size)}
    (h : ((D.preprocess net).tasks g reqs).step s lb = some s') : Keyed s' := by
  obtain ⟨k, c⟩ := lb
  obtain ⟨l, g', x, hl, hx, rfl⟩ := Prog.callsStep_step h
  have hm := PreMove.of_step hx
  have htotal := total_set PreAt.acquiring hl x
  rw [weight_inl] at htotal
  have hkeep : ∀ {p}, (s.shared.streams p).isSome = true → (g'.streams p).isSome = true := fun hp => by
    rwa [hm.streams_eq hp]
  constructor
  · intro p hp
    rcases hm.mem_take htotal hp with hfree | hheld
    · exact hkeep (hk.free p hfree)
    · exact hkeep (hk.held k l p hl hheld)
  · intro j l' p hj hp
    by_cases hjk : j = k
    · subst hjk
      rw [List.getElem?_set_self (List.getElem?_eq_some_iff.1 hl).1, Option.some.injEq] at hj
      rcases hm.staged_cases hj with hnone | heq | ⟨img, o, q, rest, rfl, rfl, hbuffer⟩
      · rw [hnone] at hp
        cases hp
      · exact hkeep (hk.held j l p hl (heq ▸ hp))
      · -- the element in front was to be acquired
        obtain rfl : q = p := Option.some.inj hp
        subst hj
        refine hkeep (hk.free q ?_)
        obtain ⟨m, hm'⟩ : ∃ m, total PreAt.acquiring s.calls = m + 1 := ⟨_, htotal.symm⟩
        rw [hm', hbuffer, List.take_succ_cons]
        exact List.mem_cons_self
    · rw [List.getElem?_set_ne (Ne.symm hjk)] at hj
      exact hkeep (hk.held j l' p hj hp)

theorem Keyed.init (hkey : ∀ p ∈ g.staging.buffer.take reqs.length, (g.streams p).isSome = true) :
    Keyed ((D.preprocess net).tasks g reqs).init where
  free := by
    have htotal : total PreAt.acquiring ((D.preprocess net).tasks g reqs).init.calls = reqs.length := by
      show total PreAt.acquiring (reqs.map fun r => .inl (.acquire r.1 r.2)) = reqs.length
      induction reqs with
      | nil => rfl
      | cons r reqs ih =>
        rw [List.map_cons, total_cons, List.length_cons, Nat.add_comm,
          ih fun p hp => hkey p (List.take_subset_take_left _ (Nat.le_succ _) hp)]
        rfl
    rw [htotal]
    exact hkey
  held k l p hk hp := by
    obtain ⟨r, -, hr⟩ := List.mem_map.1 (List.mem_of_getElem? hk)
    cases hr
    cases hp

/-- The tasks acquire the elements in front, before any of them accesses the map. -/
theorem exists_acquired (D : YoloCuda) (g : Gpu net) (reqs : List (Image × Overload net)) {i : Nat}
    (hreqs : i ≤ reqs.length) (hfree : i ≤ g.staging.buffer.length) :
    ∃ s, ((D.preprocess net).tasks g reqs).Reachable s ∧
      s.shared = { g with staging := { g.staging with buffer := g.staging.buffer.drop i } } ∧
      ∀ (k : Nat) r, reqs[k]? = some r → s.calls[k]? = some (.inl (if k < i then
        .access r.1 r.2 (g.staging.buffer.getD k 0) else .acquire r.1 r.2)) := by
  induction i with
  | zero =>
    refine ⟨_, .init, rfl, fun k r hr => ?_⟩
    rw [if_neg (Nat.not_lt_zero k)]
    exact (List.getElem?_map ..).trans (by rw [hr]; rfl)
  | succ i ih =>
    obtain ⟨s, hs, hshared, hcalls⟩ := ih (by omega) (by omega)
    have hi := hcalls i _ (List.getElem?_eq_getElem (by omega))
    rw [if_neg (Nat.lt_irrefl i)] at hi
    have hdrop := List.drop_eq_getElem_cons (show i < g.staging.buffer.length by omega)
    have hget : g.staging.buffer.getD i 0 = g.staging.buffer[i] := by
      rw [List.getD_eq_getElem?_getD, List.getElem?_eq_getElem (by omega), Option.getD_some]
    have hacquire : s.shared.staging.acquire = some (g.staging.buffer.getD i 0,
        { g.staging with buffer := g.staging.buffer.drop (i + 1) }) := by
      rw [hshared, hget]
      simp only [InferTensorBufferPool.acquire, hdrop]
    have hstep : D.preStep none s.shared (.acquire reqs[i].1 reqs[i].2) = some (
        { s.shared with staging := { g.staging with buffer := g.staging.buffer.drop (i + 1) } },
        .inl (.access reqs[i].1 reqs[i].2 (g.staging.buffer.getD i 0))) := by
      simp only [preStep, hacquire, Option.map_some]
    refine ⟨_, .step (l := (i, none)) hs trivial (Prog.callsStep_of hi hstep), ?_, fun k r hr => ?_⟩
    · rw [hshared]
    · by_cases hk : k = i
      · subst hk
        rw [List.getElem?_set_self (List.getElem?_eq_some_iff.1 hi).1, if_pos (Nat.lt_succ_self k)]
        rw [List.getElem?_eq_getElem (by omega), Option.some.injEq] at hr
        rw [hr]
      · rw [List.getElem?_set_ne (Ne.symm hk), hcalls k r hr]
        have hiff : k < i ↔ k < i + 1 := by omega
        rw [if_congr hiff rfl rfl]

/-- With an element that has no stream among those to be acquired, two tasks race. -/
theorem exists_racing (D : YoloCuda) (g : Gpu net) (reqs : List (Image × Overload net)) (hreqs : 2 ≤ reqs.length)
    (hfree : 2 ≤ g.staging.buffer.length) {p : Ptr} (hp : p ∈ g.staging.buffer.take reqs.length)
    (hnone : g.streams p = none) : ∃ s, ((D.preprocess net).tasks g reqs).Reachable s ∧ Racing s := by
  obtain ⟨m, hm⟩ := List.mem_iff_getElem?.1 hp
  rw [List.getElem?_take] at hm
  have hmreqs : m < reqs.length := by
    by_contra hle
    rw [if_neg hle] at hm
    cases hm
  rw [if_pos hmreqs] at hm
  have hmfree : m < g.staging.buffer.length := (List.getElem?_eq_some_iff.1 hm).1
  obtain ⟨s, hs, hshared, hcalls⟩ := exists_acquired D g reqs (i := max (m + 1) 2) (by omega) (by omega)
  -- another task: the first, or the second
  obtain ⟨k, hk, hkm⟩ : ∃ k < 2, m ≠ k := by
    by_cases h0 : m = 0
    · exact ⟨1, by decide, by omega⟩
    · exact ⟨0, by decide, h0⟩
  have hcall := hcalls m _ (List.getElem?_eq_getElem hmreqs)
  have hcall' := hcalls k _ (List.getElem?_eq_getElem (by omega))
  rw [if_pos (by omega)] at hcall hcall'
  refine ⟨s, hs, m, k, _, _, _, _, _, _, hkm, hcall, hcall', ?_⟩
  rw [hshared, List.getD_eq_getElem?_getD, hm]
  exact hnone

/-- The tasks do not race if and only if there are not two of them, or not two elements, or those to be acquired have
their streams. -/
theorem race_free_iff (hg : g.Ready n) (hs : g.Sized) (hv : Valid reqs) (ha : Apart reqs) :
    (∀ s, ((D.preprocess net).tasks g reqs).Reachable s → ¬Racing s) ↔
      reqs.length ≤ 1 ∨ g.staging.buffer.length ≤ 1 ∨
        ∀ p ∈ g.staging.buffer.take reqs.length, (g.streams p).isSome = true := by
  constructor
  · intro h
    by_contra hnot
    simp only [not_or, not_le, not_forall, Bool.not_eq_true, Option.isSome_eq_false_iff,
      Option.isNone_iff_eq_none] at hnot
    obtain ⟨hreqs, hfree, p, hp, hnone⟩ := hnot
    obtain ⟨s, hs, hracing⟩ := exists_racing D g reqs hreqs hfree hp hnone
    exact h s hs hracing
  · intro h s hreach
    have hi : Inv D n g reqs s := hreach.invariant (Inv.init hg hs) fun hi _ hstep => hi.step hg hv ha hstep
    rcases h with hone | hone | hkey
    · -- there is no second call
      rintro ⟨j, k, _, _, _, _, _, _, hjk, hj, hk, -⟩
      have hj' := (List.getElem?_eq_some_iff.1 hj).1
      have hk' := (List.getElem?_eq_some_iff.1 hk).1
      rw [hi.length] at hj' hk'
      omega
    · -- there is no second element
      rintro ⟨j, k, _, _, _, _, p, q, hjk, hj, hk, -⟩
      have hmem : ∀ {k : Nat} {l : PreAt net} {p : Ptr}, s.calls[k]? = some (.inl l) → l.staged = some p →
          p ∈ g.staging.buffer := by
        intro k l p hk hp
        have hheld : p ∈ total PreAt.held s.calls :=
          Ledger.mem_sum_map.2 ⟨_, List.mem_of_getElem? hk, by simp [PreAt.held, hp]⟩
        exact Multiset.mem_coe.1 (hi.staging_eq ▸ Multiset.mem_add.2 (.inr hheld))
      have hp := hmem hj rfl
      have hq := hmem hk rfl
      obtain ⟨a, ha⟩ := List.length_eq_one_iff.1 (le_antisymm hone (List.length_pos_of_mem hp))
      rw [ha, List.mem_singleton] at hp hq
      exact hi.staged_ne hg hjk hj hk rfl rfl (hp.trans hq.symm)
    · have hkeyed : Keyed s := hreach.invariant (Keyed.init hkey) fun hk _ hstep => hk.step hstep
      exact hkeyed.not_racing

end Races

/-! ### The slots -/

/-- Tasks that do not race make the slots of the images alone. -/
theorem batchEqSingle_of_race_free {D : YoloCuda} {n : Nat} {g : Gpu net} (hg : g.Ready n) (hs : g.Sized)
    {imgs : List Image} {hle : imgs.length ≤ net.batch} (hcont : ∀ img ∈ imgs, img.isContinuous = true)
    (hfit : ∀ img ∈ imgs, FitsElement net img)
    (hrace : ∀ s, ((D.preprocess net).tasks g (batchRequests imgs hle)).Reachable s → ¬Racing s) :
    D.BatchEqSingle g imgs hle := by
  have ha : Apart (batchRequests imgs hle) := apart_batchRequests hle
  have hv : Valid (batchRequests imgs hle) := valid_batchRequests hle hcont hfit
  refine ⟨hrace, fun ls s hr => exists_ended hg hs hv ha hr,
    fun ls s hr he k => trace_eq hg hs hv ha hr he (getElem?_batchRequests hle k),
    fun ls s hr he k n₁ g₁ hg₁ hs₁ ls₁ s₁ hr₁ he₁ => ?_⟩
  -- the task of the batch
  have hi := (Inv.init hg hs).run hg hv ha hr
  obtain ⟨o, -, ho⟩ := stored_of_ended hg hs hv ha hr he (getElem?_batchRequests hle k)
  -- the call alone
  have hv₁ : Valid [(imgs.get k, (.single : Overload net))] := by
    intro r hr
    rw [List.mem_singleton.1 hr]
    exact ⟨trivial, hfit _ (List.get_mem imgs k)⟩
  have hi₁ := (Inv.init hg₁ hs₁).run hg₁ hv₁ (apart_single _) hr₁
  obtain ⟨o₁, hcall, ho₁⟩ := stored_of_ended (k := 0) hg₁ hs₁ hv₁ (apart_single _) hr₁ he₁ rfl
  cases o with
  | some buf => cases ho.1
  | none =>
    obtain ⟨k', hk', hplanes, hparams⟩ := ho
    cases hk'
    cases o₁ with
    | none =>
      obtain ⟨_, h, -⟩ := ho₁
      cases h
    | some buf =>
      obtain ⟨-, hplanes₁, hparams₁⟩ := ho₁
      refine ⟨buf, ?_, ?_, hparams.trans hparams₁.symm⟩
      · obtain ⟨y, hy⟩ := List.length_eq_one_iff.1 hi₁.length
        rw [hy] at hcall ⊢
        rw [Option.some.inj hcall]
      · rw [← hi.data_eq]
        exact hplanes.trans hplanes₁.symm

/-- After the constructor the elements in front have no stream if there are more than rounds of its first loop. -/
theorem construct_keyed_iff {batch bufSize m : Nat} (hbatch : 1 ≤ batch) (hm : 1 ≤ m) {st : Streams}
    (h : construct batch bufSize = some st) :
    (st.pool.buffer.length ≤ 1 ∨ ∀ p ∈ st.pool.buffer.take m, (st.cuStreams p).isSome = true) ↔ bufSize ≤ batch := by
  have hbuf : 1 ≤ bufSize := by
    by_contra h0
    obtain rfl : bufSize = 0 := by omega
    simp [construct, guard] at h
  rw [construct_eq batch hbuf, Option.some.injEq] at h
  subst h
  constructor
  · intro h
    by_contra hlt
    rcases h with hlen | hkey
    · simp only [List.length_append, List.length_range', List.length_range] at hlen
      omega
    · -- the element `batch` is in front
      have hfront : batch ∈ (List.range' batch (bufSize - batch) ++ List.range batch).take m := by
        obtain ⟨d, hd⟩ : ∃ d, bufSize - batch = d + 1 := ⟨bufSize - batch - 1, by omega⟩
        obtain ⟨m, rfl⟩ : ∃ m', m = m' + 1 := ⟨m - 1, by omega⟩
        rw [hd, List.range'_succ, List.cons_append, List.take_succ_cons]
        exact List.mem_cons_self
      have hnone := hkey batch hfront
      simp at hnone
  · intro hle
    refine .inr fun p hp => ?_
    have hmem := List.mem_of_mem_take hp
    rw [Nat.sub_eq_zero_of_le hle, List.range'_zero, List.nil_append, List.mem_range] at hmem
    show (if p < batch then some (some p) else none : Option (Option Nat)).isSome = true
    rw [if_pos hmem, Option.isSome_some]

/-- The slots of a batch are those of the images alone, and its tasks do not race for the streams, if and only if there
are not two of them, or not two staging elements, or those in front have their streams; after the constructor, if and
only if there are not two tasks or `buffer_size` is at most `batch`. -/
theorem batch_eq_single_iff (D : YoloCuda) {net : Net} {n : Nat} (g : Gpu net) (hg : g.Ready n) (hs : g.Sized)
    (imgs : List Image) (hle : imgs.length ≤ net.batch) (hcont : ∀ img ∈ imgs, img.isContinuous = true)
    (hfit : ∀ img ∈ imgs, img.rows * img.step ≤ net.planeSize * 4) :
    (D.BatchEqSingle g imgs hle ↔ imgs.length ≤ 1 ∨ g.staging.buffer.length ≤ 1 ∨
      ∀ p ∈ g.staging.buffer.take imgs.length, (g.streams p).isSome = true) ∧
    ∀ bufSize st, construct net.batch bufSize = some st → g.staging = st.pool → g.streams = st.cuStreams →
      (D.BatchEqSingle g imgs hle ↔ imgs.length ≤ 1 ∨ bufSize ≤ net.batch) := by
  have hiff : D.BatchEqSingle g imgs hle ↔ imgs.length ≤ 1 ∨ g.staging.buffer.length ≤ 1 ∨
      ∀ p ∈ g.staging.buffer.take imgs.length, (g.streams p).isSome = true := by
    have hrace := race_free_iff (D := D) hg hs (valid_batchRequests hle hcont hfit) (apart_batchRequests hle)
    rw [length_batchRequests] at hrace
    rw [← hrace]
    exact ⟨fun h => h.race_free, batchEqSingle_of_race_free hg hs hcont hfit⟩
  refine ⟨hiff, fun bufSize st hst hstaging hstreams => ?_⟩
  rw [hiff, hstaging, hstreams]
  by_cases hone : imgs.length ≤ 1
  · exact ⟨fun _ => .inl hone, fun _ => .inl hone⟩
  · rw [construct_keyed_iff net.batch_pos (by omega) hst]

/-- A network for batches of two images. -/
def pairNet : Net := ⟨2, 32, 32, Nat.two_pos⟩

/-- A black image of 32 rows. -/
def blank (cols : Nat) (h : 0 < cols) : Image :=
  ⟨32, cols, 3 * cols, List.replicate (32 * (3 * cols)) 0, List.length_replicate, by decide, h, (Nat.mul_comm _ _).le⟩

/-- A square image and a wide one. -/
def pair : List Image := [blank 32 (by decide), blank 64 (by decide)]

theorem pair_fits : ∀ img ∈ pair, img.isContinuous = true ∧ img.rows * img.step ≤ pairNet.planeSize * 4 := by
  intro img himg
  rcases List.mem_cons.1 himg with rfl | himg
  · exact ⟨rfl, show 32 * (32 * 3) ≤ 3 * (32 * 32) * 4 by decide⟩
  · rw [List.mem_singleton.1 himg]
    exact ⟨rfl, show 32 * (64 * 3) ≤ 3 * (32 * 32) * 4 by decide⟩

/-- A detector with this staging pool, whose elements below 2 have their streams, when the buffer 0 of the backend has
been acquired for a batch. -/
def pairGpu (staging : InferTensorBufferPool) : Gpu pairNet :=
  ⟨staging, fun p => if p < 2 then some (some p) else none, fun _ => 0, ⟨2, [1]⟩,
    fun _ => List.replicate pairNet.numElements 0, .wrap 2 0⟩

theorem pairGpu_sized (staging : InferTensorBufferPool) : (pairGpu staging).Sized :=
  ⟨fun _ _ => List.length_replicate, List.length_replicate⟩

/-- With a stream for each of the two elements. -/
theorem batch_eq_single_iff_pair : oneAnchor.BatchEqSingle (pairGpu (.create 2)) pair (by decide) :=
  (batch_eq_single_iff oneAnchor (pairGpu (.create 2)) ⟨.create 2, by decide, by decide, by decide⟩ (pairGpu_sized _)
    pair (by decide) (fun img h => (pair_fits img h).1) fun img h => (pair_fits img h).2).1.2 (.inr (.inr (by decide)))

/-- The constructor with a batch of two and four buffers puts the elements without streams in front, and two tasks race
for them. -/
theorem pair_races : ¬∀ (D : YoloCuda) (net : Net) (bufSize : Nat) (st : Streams) (g : Gpu net),
    construct net.batch bufSize = some st → g.staging = st.pool → g.streams = st.cuStreams → g.pool.buffer ≠ [] →
      g.Sized → ∀ (imgs : List Image) (hle : imgs.length ≤ net.batch), (∀ img ∈ imgs, img.isContinuous = true) →
        (∀ img ∈ imgs, img.rows * img.step ≤ net.planeSize * 4) → D.BatchEqSingle g imgs hle := by
  intro h
  have hle : pair.length ≤ pairNet.batch := by decide
  have hbatch := h oneAnchor pairNet 4 _ (pairGpu ⟨4, [2, 3, 0, 1]⟩) (construct_eq 2 (by decide)) rfl rfl (by decide)
    (pairGpu_sized _) pair hle (fun img h => (pair_fits img h).1) fun img h => (pair_fits img h).2
  have hfront : 2 ∈ (pairGpu ⟨4, [2, 3, 0, 1]⟩).staging.buffer.take (batchRequests pair hle).length :=
    List.mem_cons_self
  obtain ⟨s, hs, hracing⟩ := exists_racing oneAnchor (pairGpu ⟨4, [2, 3, 0, 1]⟩) (batchRequests pair hle)
    (le_refl 2) (by decide) hfront rfl
  exact hbatch.race_free s hs hracing

end YoloCuda

end OnnxInference
