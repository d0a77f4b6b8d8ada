import OnnxInference.Device.GpuFilterRuns

/-!
# When the filter is correct

The kernel is correct for every schedule exactly if there is no image, or its grid can be launched, its offsets are in
range, all anchors that pass are below the size of one block, and the `-1` that the loop over the classes starts with
makes no difference.
-/

namespace OnnxInference.GpuFilter

open Transition

variable {cfg : Config}

/-! ### Slots -/

/-- The slots of the images do not meet. -/
theorem Config.outAddr_inj {b b' j j' : Nat} {k k' : Fin 6} (hj : j < cfg.maxDet) (hj' : j' < cfg.maxDet)
    (h : cfg.outAddr b j k = cfg.outAddr b' j' k') : b = b' ∧ j = j' ∧ k = k' := by
  have hk := k.isLt
  have hk' := k'.isLt
  simp only [outAddr] at h
  have hrow : b * cfg.maxDet + j = b' * cfg.maxDet + j' := by
    have : ((b * cfg.maxDet : Nat) : Int) * 6 + j * 6 + k.val = ((b' * cfg.maxDet : Nat) : Int) * 6 + j' * 6 +
      k'.val := by
      push_cast
      exact h
    omega
  have hb : b = b' := by
    rcases Nat.lt_trichotomy b b' with hlt | heq | hlt
    · have := Nat.mul_le_mul_right cfg.maxDet (Nat.succ_le_of_lt hlt)
      rw [Nat.succ_mul] at this
      omega
    · exact heq
    · have := Nat.mul_le_mul_right cfg.maxDet (Nat.succ_le_of_lt hlt)
      rw [Nat.succ_mul] at this
      omega
  subst hb
  refine ⟨rfl, by omega, Fin.ext ?_⟩
  have hjj : j = j' := by omega
  subst hjj
  omega

/-- The floats of a slot that have been stored. -/
def Pc.stored : Pc → Nat
  | .store _ _ _ _ k => k.val
  | _ => 6

/-- `out[k]` as the kernel leaves it for an anchor. -/
def Config.record (cfg : Config) (bid i : Nat) (k : Fin 6) : ℚ :=
  cfg.outValue bid i (cfg.best bid i).1 (cfg.best bid i).2 k

/-- The slot `j` is the one of the thread, as far as it has got. -/
structure Thread.Filled (t : Thread cfg) (s : State cfg) (j : Nat) : Prop where
  idx_eq : ∀ {i maxScore maxCls idx k}, s.pc t = .store i maxScore maxCls idx k → idx = j
  stored : j < cfg.maxDet → ∀ k : Fin 6, k.val < (s.pc t).stored →
    s.output (cfg.outAddr t.bid j k) = cfg.record t.bid t.anchor k

theorem Thread.Filled.of_eq {s s' : State cfg} {u : Thread cfg} {j : Nat} (h : u.Filled s j) (hpc : s'.pc u = s.pc u)
    (hout : j < cfg.maxDet → ∀ k, s'.output (cfg.outAddr u.bid j k) = s.output (cfg.outAddr u.bid j k)) :
    u.Filled s' j := by
  constructor
  · intro i maxScore maxCls idx k hs
    exact h.idx_eq (hpc ▸ hs)
  · intro hj k hk
    rw [hout hj k]
    exact h.stored hj k (hpc ▸ hk)

/-- The thread that stores next has a slot of its own. -/
def OwnSlot (s : State cfg) (t u : Thread cfg) (j : Nat) : Prop :=
  ∀ i maxScore maxCls idx k, s.pc t = .store i maxScore maxCls idx k →
    ∃ j' : Nat, idx = j' ∧ j' < cfg.maxDet ∧ (t.bid = u.bid → j' = j → t = u)

/-- A store of one thread does not touch the slot of another. -/
private theorem output_of_ownSlot {s : State cfg} {t u : Thread cfg} {i j : Nat} {maxScore : ℚ} {maxCls idx : Int}
    {k : Fin 6} (hs : s.pc t = .store i maxScore maxCls idx k) (hown : OwnSlot s t u j) (hu : u ≠ t)
    (hj : j < cfg.maxDet) (x : ℚ) (k' : Fin 6) :
    Function.update s.output (cfg.outAddr t.bid idx k) x (cfg.outAddr u.bid j k') =
      s.output (cfg.outAddr u.bid j k') := by
  obtain ⟨j', rfl, hj', huniq⟩ := hown i maxScore maxCls idx k hs
  refine Function.update_of_ne (fun heq => ?_) _ _
  obtain ⟨hb, hjj, -⟩ := Config.outAddr_inj hj hj' heq
  exact hu (huniq (Fin.ext hb.symm) hjj.symm).symm

/-- A store of the thread itself fills the next float of its slot. -/
private theorem output_of_self {s : State cfg} {t : Thread cfg} {i j : Nat} {maxScore : ℚ} {maxCls idx : Int}
    {k : Fin 6} (hs : s.pc t = .store i maxScore maxCls idx k) (hat : t.At (s.pc t)) (hf : t.Filled s j)
    (hj : j < cfg.maxDet) {k' : Fin 6} (hk' : k'.val ≤ k.val) :
    Function.update s.output (cfg.outAddr t.bid idx k) (cfg.outValue t.bid i maxScore maxCls k)
      (cfg.outAddr t.bid j k') = cfg.record t.bid t.anchor k' := by
  have hidx := hf.idx_eq hs
  subst hidx
  rw [hs] at hat
  obtain ⟨rfl, -, -, hbest, -⟩ := hat
  by_cases hk : k' = k
  · rw [hk, Function.update_self, Config.record, hbest]
  · rw [Function.update_of_ne fun heq => hk (Config.outAddr_inj hj hj heq).2.2]
    refine hf.stored hj k' ?_
    rw [hs]
    exact lt_of_le_of_ne hk' fun he => hk (Fin.ext he)

theorem Thread.Filled.step {s s' : State cfg} {t u : Thread cfg} {j : Nat} (h : u.Filled s j) (hc : u.Counted s)
    (hm : Move s t s') (hi : Inv s) (hown : OwnSlot s t u j) : u.Filled s' j := by
  by_cases hu : u = t
  · subst hu
    have hpast := hc.past
    have hat := hi.at_pc u
    cases hm with
    | reset hpc | sync hpc | add hpc | full hpc =>
      rw [hpc] at hpast
      exact hpast.elim
    | accept hpc hlt | skip hpc hlt =>
      rw [hpc] at hpast
      exact absurd hlt (not_lt.2 hpast)
    | exit hpc =>
      refine ⟨fun hs => ?_, fun hj k _ => h.stored hj k ?_⟩
      · simp at hs
      · rw [hpc]
        exact k.isLt
    | store hpc hk =>
      refine ⟨fun hs => ?_, fun hj k' hk' => output_of_self hpc hat h hj ?_⟩
      · simp only [State.setPc_pc, Function.update_self, Pc.store.injEq] at hs
        exact hs.2.2.2.1 ▸ h.idx_eq hpc
      · simp only [State.setPc_pc, Function.update_self, Pc.stored] at hk'
        omega
    | last hpc hk =>
      refine ⟨fun hs => ?_, fun hj k' _ => output_of_self hpc hat h hj ?_⟩
      · simp at hs
      · have := k'.isLt
        omega
  · refine h.of_eq (hm.pc_of_ne hu) fun hj k => ?_
    cases hm with
    | store hpc | last hpc => exact output_of_ownSlot hpc hown hu hj _ k
    | reset => split <;> rfl
    | _ => rfl

/-! ### One block -/

/-- All anchors the kernel accepts belong to the block that resets the count. -/
def FirstBlock (cfg : Config) : Prop := ∀ bid < cfg.gridDimX, ∀ i, cfg.Accepted bid i → i < blockDim

/-- Since its reset the image has counted its anchors in an order that is the order of their slots. -/
def Kept (s : State cfg) (bid : Fin cfg.gridDimX) : Prop :=
  ResetDone s bid → ∃ order, Ordered s bid (fun _ => False) order ∧
    ∀ (j : Nat) t, order[j]? = some t → t.Filled s j

/-- A thread of the first block is past the barrier after the reset only. -/
theorem resetDone_of_lt {s : State cfg} (hi : Inv s) {t : Thread cfg} (hlt : t.anchor < blockDim)
    (hpc : s.pc t ≠ .reset ∧ s.pc t ≠ .sync) : ResetDone s t.bid := by
  intro u hb hu hu'
  have hy : t.blockY.val = 0 := by
    simp only [Thread.anchor, blockDim] at hlt
    omega
  rcases hi.barrier t u ⟨hb, Fin.ext (hu.1.trans hy.symm)⟩ hu' with h | h
  · exact hpc.1 h
  · exact hpc.2 h

theorem Thread.Counted.pc_ne {s : State cfg} {t : Thread cfg} (h : t.Counted s) :
    s.pc t ≠ .reset ∧ s.pc t ≠ .sync := by
  have hpast := h.past
  constructor <;> intro hpc <;> rw [hpc] at hpast <;> exact hpast

/-- The barrier puts the reset before the count. -/
theorem FirstBlock.resetDone (hfirst : FirstBlock cfg) {s : State cfg} (hi : Inv s) {t : Thread cfg}
    (hc : t.Counted s) : ResetDone s t.bid :=
  resetDone_of_lt hi (hfirst t.bid t.bid.isLt t.anchor ⟨hc.lt, hc.accepts⟩) hc.pc_ne

theorem slot_of_store (hfirst : FirstBlock cfg) {s : State cfg} (hi : Inv s) (hk : ∀ bid, Kept s bid) {t : Thread cfg}
    {i : Nat} {maxScore : ℚ} {maxCls idx : Int} {k : Fin 6} (hs : s.pc t = .store i maxScore maxCls idx k) :
    ∃ order, Ordered s t.bid (fun _ => False) order ∧
      ∃ j : Nat, order[j]? = some t ∧ idx = j ∧ j < cfg.maxDet := by
  have hat := hi.at_pc t
  rw [hs] at hat
  obtain ⟨rfl, hlt, hacc, -, hidx⟩ := hat
  have hc : t.Counted s := ⟨hlt, hacc, by rw [hs]; trivial⟩
  obtain ⟨order, ho, hf⟩ := hk t.bid (hfirst.resetDone hi hc)
  obtain ⟨j, hj⟩ := List.mem_iff_getElem?.1 ((ho.mem_iff t).2 ⟨rfl, hc, not_false⟩)
  have hidx' := (hf j t hj).idx_eq hs
  exact ⟨order, ho, j, hj, hidx', by omega⟩

theorem Kept.step (hfirst : FirstBlock cfg) {s s' : State cfg} {t : Thread cfg} (hm : Move s t s') (hi : Inv s)
    (hk : ∀ bid, Kept s bid) (bid : Fin cfg.gridDimX) : Kept s' bid := by
  intro hreset'
  by_cases hreset : ResetDone s bid
  · obtain ⟨order, ho, hf⟩ := hk bid hreset
    have hold : ∀ (j : Nat) u, order[j]? = some u → u.Filled s' j := by
      intro j u hj
      obtain ⟨hub, huc, -⟩ := (ho.mem_iff u).1 (List.mem_of_getElem? hj)
      refine (hf j u hj).step huc hm hi fun i maxScore maxCls idx k hs => ?_
      obtain ⟨order', ho', j', hj', hidx, hlt⟩ := slot_of_store hfirst hi hk hs
      refine ⟨j', hidx, hlt, fun hb hjj => ?_⟩
      -- both orders list the same image, and the thread has the same position in them
      subst hjj hidx
      have htc := (ho'.mem_iff t).1 (List.mem_of_getElem? hj')
      obtain ⟨j₁, hj₁⟩ := List.mem_iff_getElem?.1 ((ho.mem_iff t).2 ⟨hb.trans hub, htc.2⟩)
      have hj₁' := (hf j₁ t hj₁).idx_eq hs
      have hjj : j' = j₁ := by omega
      rw [hjj, hj₁] at hj
      exact Option.some.inj hj
    rcases ho.step hm hi with ⟨⟨hadd, hb⟩, ho'⟩ | ⟨-, ho'⟩
    · refine ⟨_, ho', fun j u hj => ?_⟩
      rw [List.getElem?_append] at hj
      split at hj
      · exact hold j u hj
      · rw [List.getElem?_singleton] at hj
        split at hj <;> cases hj
        have hj : j = order.length := by omega
        have hcount := ho.count_eq_length
        subst hb hj
        -- the new slot: nothing is stored in it yet, or it is too many
        obtain ⟨_, _, _, hpc⟩ := hadd
        cases hm with
        | add h hlt => exact ⟨fun hs => by simp at hs; omega, fun _ k hk => by simp [Pc.stored] at hk⟩
        | full h hle => exact ⟨fun hs => by simp at hs, fun hlt => by omega⟩
        | reset h | sync h | accept h | skip h | exit h | store h | last h => rw [hpc] at h; cases h
    · exact ⟨order, ho', hold⟩
  · -- this step is the reset, and nothing has been counted
    have hnone : ∀ u : Thread cfg, u.bid = bid → ¬u.Counted s := fun u hb hc => hreset (hb ▸ hfirst.resetDone hi hc)
    have hwas : ∃ u : Thread cfg, u.bid = bid ∧ u.Resets ∧ s.pc u = .reset := by
      simp only [ResetDone] at hreset
      push Not at hreset
      exact hreset
    obtain ⟨u, hub, hur, hupc⟩ := hwas
    have hut : u = t := by
      by_contra hne
      exact hreset' u hub hur ((hm.pc_of_ne hne).trans hupc)
    subst hut
    rcases hm.count_cases hi with ⟨-, -, hcount, hiff⟩ | ⟨⟨_, _, _, hadd⟩, -⟩ | ⟨-, hnot, -, -⟩
    · refine ⟨[], ⟨⟨List.nodup_nil, fun v => ?_, nofun, ?_⟩, hreset'⟩, nofun⟩
      · simp only [List.not_mem_nil, false_iff, hiff v]
        exact fun hv => hnone v hv.1 hv.2.1
      · rw [hcount, ← hub, Function.update_self]
        rfl
    · rw [hupc] at hadd
      cases hadd
    · exact absurd hur (hnot hupc)

/-- With the offsets in range nothing overflows: an index is less than the number of anchors. -/
theorem not_overflows (hfirst : FirstBlock cfg) (hl : cfg.Launchable) (hr : cfg.InRange) {s : State cfg} (hi : Inv s)
    (hk : ∀ bid, Kept s bid) (t : Thread cfg) : ¬s.Overflows t := by
  have hn := hl.numPredictions_lt
  have hat := hi.at_pc t
  unfold State.Overflows
  split
  · exact not_not.2 (hr.offsets t.bid t.bid.isLt)
  · exact fun h => h.2 hr.rows
  · rename_i hpc
    rw [hpc] at hat
    obtain ⟨rfl, hlt, hacc, -⟩ := hat
    have hreset := resetDone_of_lt hi (hfirst t.bid t.bid.isLt t.anchor ⟨hlt, hacc⟩) (by simp [hpc])
    obtain ⟨order, ho, -⟩ := hk t.bid hreset
    have hlen := ho.length_le
    have hcount : s.count t.bid = order.length := ho.count_eq_length
    exact not_not.2 ⟨by omega, by omega⟩
  · rename_i hpc
    obtain ⟨order, ho, j, hj, rfl, -⟩ := slot_of_store hfirst hi hk hpc
    have hlen := ho.length_le
    have hlt := (List.getElem?_eq_some_iff.1 hj).1
    exact not_not.2 ⟨by omega, by omega⟩
  · exact not_false

/-- What a store in progress or done leaves outside of the slots. -/
def Framed (output : Int → ℚ) (s : State cfg) : Prop :=
  ∀ a, (∀ bid < cfg.batchSize, ¬cfg.Slots bid a) → s.output a = output a

theorem pending_slots (hfirst : FirstBlock cfg) {s : State cfg} (hi : Inv s) (hk : ∀ bid, Kept s bid) {t : Thread cfg}
    {a : Int} {x : ℚ} (hp : s.pending t = some (a, x)) : cfg.Slots t.bid a := by
  unfold State.pending at hp
  split at hp <;> cases hp
  rename_i hs
  obtain ⟨-, -, j, -, rfl, hlt⟩ := slot_of_store hfirst hi hk hs
  exact ⟨j, hlt, _, rfl⟩

theorem Framed.step {output : Int → ℚ} {s s' : State cfg} {t : Thread cfg} (h : Framed output s) (hm : Move s t s')
    (hp : ∀ a x, s.pending t = some (a, x) → cfg.Slots t.bid a) : Framed output s' := by
  intro a ha
  have hne : ∀ x, s.pending t ≠ some (a, x) := fun x hx => ha t.bid t.bid.isLt (hp a x hx)
  rw [← h a ha]
  cases hm with
  | store hpc | last hpc =>
    simp only [State.pending, hpc, ne_eq, Option.some.injEq, Prod.mk.injEq, not_and] at hne
    exact Function.update_of_ne (fun heq => hne _ heq.symm rfl) _ _
  | reset => split <;> rfl
  | _ => rfl

/-- A launch whose accepted anchors belong to the first blocks keeps the order and stores to the slots. -/
theorem FirstBlock.reachable (hfirst : FirstBlock cfg) {count : Nat → Int} {output : Int → ℚ} {s : State cfg}
    (hl : cfg.Launchable ∨ cfg.gridDimX = 0) (h : (launch cfg count output).Reachable s) :
    Inv s ∧ (∀ bid, Kept s bid) ∧ Framed output s := by
  refine h.invariant (P := fun s => Inv s ∧ (∀ bid, Kept s bid) ∧ Framed output s)
    ⟨.init cfg count output, ?_, fun _ _ => rfl⟩ ?_
  · intro bid hreset
    rcases hl with hl | hl
    · refine absurd ?_ (hreset ⟨bid, ⟨0, hl.2.1⟩, ⟨0, by decide⟩⟩ rfl ⟨rfl, rfl⟩)
      simp [launch, hl]
    · exact absurd bid.isLt (by omega)
  · rintro s t s' ⟨hi, hk, hfr⟩ - hs
    have hm := Move.of_step hs
    exact ⟨hi.step hm, Kept.step hfirst hm hi hk, hfr.step hm fun a x => pending_slots hfirst hi hk⟩

/-! ### The anchors the kernel accepts -/

theorem Config.Passes.accepts {bid i : Nat} (h : cfg.Passes bid i) : cfg.Accepts bid i := by
  obtain ⟨c, hc, hbest, hle⟩ := h
  unfold Accepts
  rcases cfg.best_cases bid i with ⟨hb, hall⟩ | ⟨c', hbest', -, hb⟩
  · rw [hb]
    exact hle.trans (hall c hc)
  · rw [hb, hbest'.unique hbest]
    exact hle

theorem Config.Accepts.passes {bid i : Nat} (h : cfg.Accepts bid i) (hc : -1 < cfg.confThresh) :
    cfg.Passes bid i := by
  unfold Accepts at h
  rcases cfg.best_cases bid i with ⟨hb, -⟩ | ⟨c, hbest, -, hb⟩
  · rw [hb] at h
    exact absurd h (not_le.2 hc)
  · rw [hb] at h
    exact ⟨c, hbest.1, hbest, h⟩

/-- A threshold of `-1` or less accepts everything. -/
theorem Config.accepts_of_le (hc : cfg.confThresh ≤ -1) (bid i : Nat) : cfg.Accepts bid i := by
  unfold Accepts
  rcases cfg.best_cases bid i with ⟨hb, -⟩ | ⟨c, -, hlt, hb⟩
  · rw [hb]
    exact hc
  · rw [hb]
    exact hc.trans hlt.le

theorem Config.mem_passing {bid i : Nat} : i ∈ cfg.passing bid ↔ i < cfg.numPredictions ∧ cfg.Passes bid i := by
  simp [passing]

theorem Config.nodup_passing (bid : Nat) : (cfg.passing bid).Nodup := List.nodup_range.filter _

/-- The record the kernel leaves is right if some score is greater than `-1`. -/
theorem Config.isRecord_of_lt {bid i c : Nat} (hc : c < cfg.numClasses) (hlt : -1 < cfg.score bid i c) :
    cfg.IsRecord bid i (cfg.record bid i) := by
  rcases cfg.best_cases bid i with ⟨-, hall⟩ | ⟨c', hbest, -, hb⟩
  · exact absurd hlt (not_lt.2 (hall c hc))
  · refine ⟨c', hbest, funext fun k => ?_⟩
    rw [record, hb]

/-- Otherwise it has the class `-1` and is no record at all. -/
theorem Config.IsRecord.exists_lt {bid i i' : Nat} (h : cfg.IsRecord bid i' (cfg.record bid i)) :
    ∃ c < cfg.numClasses, -1 < cfg.score bid i c := by
  rcases cfg.best_cases bid i with ⟨hb, -⟩ | ⟨c, hbest, hlt, -⟩
  · obtain ⟨c, -, heq⟩ := h
    have h5 := congrFun heq 5
    simp only [record, hb, outValue] at h5
    norm_num at h5
    have hpos : (0 : ℚ) ≤ (c : ℚ) := Nat.cast_nonneg c
    linarith
  · exact ⟨c, hbest.1, hlt⟩

/-- The condition for the filter to be correct. -/
structure Sound (cfg : Config) : Prop where
  launchable : cfg.Launchable
  in_range : cfg.InRange
  first_block : ∀ bid < cfg.batchSize, ∀ i < cfg.numPredictions, cfg.Passes bid i → i < blockDim
  above : ∀ bid < cfg.batchSize, -1 < cfg.confThresh ∨ (∀ i < cfg.numPredictions, cfg.Passes bid i) ∧
    (cfg.numPredictions ≤ cfg.maxDet → ∀ i < cfg.numPredictions, ∃ c < cfg.numClasses, -1 < cfg.score bid i c)

theorem Sound.accepted_iff (h : Sound cfg) {bid i : Nat} (hb : bid < cfg.batchSize) :
    cfg.Accepted bid i ↔ i < cfg.numPredictions ∧ cfg.Passes bid i := by
  constructor
  · rintro ⟨hi, ha⟩
    rcases h.above bid hb with hc | ⟨hall, -⟩
    · exact ⟨hi, ha.passes hc⟩
    · exact ⟨hi, hall i hi⟩
  · rintro ⟨hi, hp⟩
    exact ⟨hi, hp.accepts⟩

theorem Sound.isRecord (h : Sound cfg) {bid i : Nat} (hb : bid < cfg.batchSize)
    (hroom : (cfg.passing bid).length ≤ cfg.maxDet) (hi : i ∈ cfg.passing bid) :
    cfg.IsRecord bid i (cfg.record bid i) := by
  obtain ⟨hlt, c, hc, -, hle⟩ := Config.mem_passing.1 hi
  rcases h.above bid hb with hconf | ⟨hall, habove⟩
  · exact Config.isRecord_of_lt hc (hconf.trans_le hle)
  · have hlen : (cfg.passing bid).length = cfg.numPredictions := by
      rw [Config.passing, List.filter_eq_self.2, List.length_range]
      intro i hi
      exact decide_eq_true (hall i (List.mem_range.1 hi))
    obtain ⟨c', hc', hlt'⟩ := habove (hlen ▸ hroom) i hlt
    exact Config.isRecord_of_lt hc' hlt'

theorem Sound.firstBlock (h : Sound cfg) : FirstBlock cfg := fun bid hb i hacc =>
  h.first_block bid hb i hacc.1 ((h.accepted_iff hb).1 hacc).2

/-- What the kernel leaves for an image, in terms of the anchors it accepts. -/
theorem Kept.finished {s : State cfg} {bid : Fin cfg.gridDimX} (h : Kept s bid) (hf : s.Finished) :
    ∃ anchors : List Nat, anchors.Nodup ∧ (∀ i, i ∈ anchors ↔ cfg.Accepted bid i) ∧ s.count bid = anchors.length ∧
      ∀ (j : Nat) i, anchors[j]? = some i → j < cfg.maxDet →
        (fun k => s.output (cfg.outAddr bid j k)) = cfg.record bid i := by
  obtain ⟨order, ho, hfill⟩ := h fun t _ _ => by simp [hf t]
  obtain ⟨hnd, hmem⟩ := ho.finished hf
  refine ⟨order.map Thread.anchor, hnd, fun i => ?_, ?_, fun j i hj hlt => ?_⟩
  · rw [hmem i]
    simp
  · rw [ho.count_eq_length, List.length_map]
  · rw [List.getElem?_map, Option.map_eq_some_iff] at hj
    obtain ⟨t, ht, rfl⟩ := hj
    have htb := ((ho.mem_iff t).1 (List.mem_of_getElem? ht)).1
    funext k
    have hst := (hfill j t ht).stored hlt k (by rw [hf t]; exact k.isLt)
    rwa [htb] at hst

theorem Sound.correct (h : Sound cfg) : Correct cfg := by
  intro count output s hs
  obtain ⟨hi, hk, hfr⟩ := h.firstBlock.reachable (.inl h.launchable) hs
  refine ⟨not_overflows h.firstBlock h.launchable h.in_range hi hk, fun t a x hp =>
    pending_slots h.firstBlock hi hk hp, fun hf => ?_⟩
  have hend : ∀ bid < cfg.batchSize, ∃ anchors : List Nat, anchors.Perm (cfg.passing bid) ∧
      s.count bid = anchors.length ∧ ∀ (j : Nat) i, anchors[j]? = some i → j < cfg.maxDet →
        (fun k => s.output (cfg.outAddr bid j k)) = cfg.record bid i := by
    intro bid hb
    obtain ⟨anchors, hnd, hmem, hcount, hrec⟩ := (hk ⟨bid, hb⟩).finished hf
    refine ⟨anchors, (List.perm_ext_iff_of_nodup hnd (Config.nodup_passing bid)).2 fun i => ?_, hcount, hrec⟩
    rw [hmem i, Config.mem_passing]
    exact h.accepted_iff hb
  constructor
  · intro bid hb
    obtain ⟨anchors, hperm, hcount, -⟩ := hend bid hb
    rw [hcount, hperm.length_eq]
  · intro bid hb hroom
    obtain ⟨anchors, hperm, -, hrec⟩ := hend bid hb
    refine ⟨anchors, hperm, fun j i hj => ?_⟩
    have hlt : j < anchors.length := (List.getElem?_eq_some_iff.1 hj).1
    rw [hrec j i hj (by rw [hperm.length_eq] at hlt; omega)]
    exact h.isRecord hb hroom (hperm.mem_iff.1 (List.mem_of_getElem? hj))
  · exact hfr

/-! ### Bad schedules -/

/-- From a state in which an image is not reset yet, the reset can come next; all that has been counted is lost. -/
theorem exists_lost {count : Nat → Int} {output : Int → ℚ} {s : State cfg}
    (hs : (launch cfg count output).Reachable s) (hi : Inv s) {u : Thread cfg} (hu : u.Resets) (hpc : s.pc u = .reset) :
    ∃ s', (launch cfg count output).Reachable s' ∧ s'.Finished ∧
      ∃ order, Ordered s' u.bid (fun t => t.bid = u.bid ∧ t.Counted s) order := by
  obtain ⟨s₁, hs₁⟩ : ∃ s₁, step s u = some s₁ := ⟨_, by rw [step, hpc]⟩
  have hm := Move.of_step hs₁
  have hstart : Ordered s₁ u.bid (fun t => t.bid = u.bid ∧ t.Counted s) [] := by
    rcases hm.count_cases hi with ⟨-, -, hcount, hiff⟩ | ⟨⟨_, _, _, hadd⟩, -⟩ | ⟨-, hnot, -, -⟩
    · refine ⟨⟨List.nodup_nil, fun t => ?_, fun t ht => (hiff t).2 ht.2, ?_⟩, fun t hb ht hr => ?_⟩
      · simp only [List.not_mem_nil, false_iff, hiff t]
        exact fun h => h.2.2 ⟨h.1, h.2.1⟩
      · rw [hcount, Function.update_self]
        rfl
      · obtain rfl := ht.unique hu hb
        have hpc' : s₁.pc t = .sync := by
          cases hm with
          | reset => simp
          | sync h | accept h | skip h | exit h | add h | full h | store h | last h => rw [hpc] at h; cases h
        rw [hpc'] at hr
        cases hr
    · rw [hpc] at hadd
      cases hadd
    · exact absurd hu (hnot hpc)
  -- any schedule from there on
  have hrun : ∃ ts s', (launch cfg count output).run s₁ ts = some s' ∧
      ((launch cfg count output).Reachable s' ∧ Inv s' ∧
        ∃ order, Ordered s' u.bid (fun t => t.bid = u.bid ∧ t.Counted s) order) ∧ s'.Finished := by
    refine System.exists_final (μ := State.rank) ?_ ⟨.step hs trivial hs₁, hi.step hm, [], hstart⟩
    rintro s' ⟨hreach, hi', order, ho⟩ hf
    obtain ⟨t, s'', hs''⟩ := exists_step_of_not_finished hf
    have hm' := Move.of_step hs''
    refine ⟨t, s'', hs'', ⟨.step hreach trivial hs'', hi'.step hm', ?_⟩, hm'.rank_lt⟩
    rcases ho.step hm' hi' with ⟨-, ho'⟩ | ⟨-, ho'⟩
    · exact ⟨_, ho'⟩
    · exact ⟨_, ho'⟩
  obtain ⟨-, s', -, ⟨hs', -, order, ho⟩, hf⟩ := hrun
  exact ⟨s', hs', hf, order, ho⟩

/-- The threads of a block that does not reset can run until one of them has counted its anchor, while the reset has
not happened. -/
theorem exists_counted {count : Nat → Int} {output : Int → ℚ} {s : State cfg}
    (hs : (launch cfg count output).Reachable s)
    (hi : Inv s) {t u : Thread cfg} (hacc : cfg.Accepted t.bid t.anchor) (hy : t.blockY ≠ u.blockY)
    (hpc : s.pc u = .reset) :
    ∃ s', (launch cfg count output).Reachable s' ∧ Inv s' ∧ s'.pc u = .reset ∧ t.Counted s' := by
  have hrun : ∃ ts s', (launch cfg count output).run s ts = some s' ∧
      ((launch cfg count output).Reachable s' ∧ Inv s' ∧ s'.pc u = .reset) ∧ t.Counted s' := by
    refine System.exists_final (μ := State.rank) ?_ ⟨hs, hi, hpc⟩
    rintro s' ⟨hreach, hi', hu'⟩ hc
    have hexit : s'.pc t ≠ .exit := fun he => hc ⟨hacc.1, hacc.2, by rw [he]; trivial⟩
    obtain ⟨v, s'', hs'', hv⟩ := exists_step hexit
    have hvu : u ≠ v := by
      rintro rfl
      rcases hv with rfl | ⟨hv, -⟩
      · exact hy rfl
      · exact hy hv.2.symm
    have hm := Move.of_step hs''
    exact ⟨v, s'', hs'', ⟨.step hreach trivial hs'', hi'.step hm, (hm.pc_of_ne hvu).trans hu'⟩, hm.rank_lt⟩
  obtain ⟨-, s', -, ⟨hs', hi', hu'⟩, hc⟩ := hrun
  exact ⟨s', hs', hi', hu', hc⟩

/-! ### What correctness needs -/

/-- The thread that resets the count of an image. -/
def leader (hl : cfg.Launchable) {bid : Nat} (hb : bid < cfg.batchSize) : Thread cfg :=
  ⟨⟨bid, hb⟩, ⟨0, hl.2.1⟩, ⟨0, by decide⟩⟩

theorem Correct.launchable (h : Correct cfg) (hb : 0 < cfg.batchSize) : cfg.Launchable := by
  by_contra hl
  have hf : (launch cfg (fun _ => -1) (fun _ => 0)).init.Finished := fun t => if_neg hl
  have hcount := ((h _ _ _ .init).2.2 hf).count 0 hb
  simp only [launch] at hcount
  omega

/-- A thread can get to its anchor. -/
theorem exists_loop (hl : cfg.Launchable) (count : Nat → Int) (output : Int → ℚ) (t : Thread cfg) :
    ∃ s, (launch cfg count output).Reachable s ∧ s.pc t = .loop t.anchor := by
  have hrun : ∃ ts s, (launch cfg count output).run (launch cfg count output).init ts = some s ∧
      ((launch cfg count output).Reachable s ∧
        (s.pc t = .reset ∨ s.pc t = .sync ∨ s.pc t = .loop t.anchor)) ∧ s.pc t = .loop t.anchor := by
    refine System.exists_final (μ := State.rank) ?_ ⟨.init, .inl (if_pos hl)⟩
    rintro s ⟨hs, hat⟩ hne
    have hexit : s.pc t ≠ .exit := by
      rcases hat with hat | hat | hat <;> simp [hat]
    obtain ⟨u, s', hstep, hu⟩ := exists_step hexit
    have hm := Move.of_step hstep
    refine ⟨u, s', hstep, ⟨.step hs trivial hstep, ?_⟩, hm.rank_lt⟩
    by_cases hut : u = t
    · subst hut
      cases hm with
      | reset => exact .inr (.inl (by split <;> simp))
      | sync => exact .inr (.inr (by simp))
      | accept h | skip h | exit h | add h | full h | store h | last h =>
        -- the thread is at its reset or at the barrier
        rcases hat with hat | hat | hat
        · rw [h] at hat; cases hat
        · rw [h] at hat; cases hat
        · exact absurd hat hne
    · rw [hm.pc_of_ne (Ne.symm hut)]
      exact hat
  obtain ⟨-, s, -, ⟨hs, -⟩, hpc⟩ := hrun
  exact ⟨s, hs, hpc⟩

/-- Every offset is computed in some run. -/
theorem Config.Launchable.in_range (hl : cfg.Launchable) (count : Nat → Int) (output : Int → ℚ)
    (h : ∀ s, (launch cfg count output).Reachable s → ∀ t, ¬s.Overflows t) : cfg.InRange := by
  constructor
  · intro bid hb
    have hover := h _ .init (leader hl hb)
    simp only [State.Overflows, launch, if_pos hl, not_not] at hover
    exact hover
  · obtain ⟨s, hs, hpc⟩ := exists_loop hl count output (leader hl hl.1.1)
    have hover := h s hs (leader hl hl.1.1)
    have hpos : 0 < cfg.numPredictions := by
      have hy := hl.2.1
      simp only [gridDimY, blockDim] at hy
      omega
    simp only [State.Overflows, hpc] at hover
    by_contra hr
    exact hover ⟨by simpa [leader, Thread.anchor] using hpos, hr⟩

/-- A reset that comes first loses nothing, so the kernel counts what it accepts. -/
theorem Correct.accepted_iff (h : Correct cfg) (hl : cfg.Launchable) {bid : Nat} (hb : bid < cfg.batchSize)
    {i : Nat} :
    cfg.Accepted bid i ↔ i ∈ cfg.passing bid := by
  have hinit : (launch cfg (fun _ => 0) (fun _ => 0)).init.pc (leader hl hb) = .reset := if_pos hl
  obtain ⟨s, hs, hf, order, ho⟩ := exists_lost .init (.init ..) (u := leader hl hb) ⟨rfl, rfl⟩ hinit
  obtain ⟨hnd, hmem⟩ := ho.finished hf
  have hnone : ∀ t : Thread cfg, ¬t.Counted (launch cfg (fun _ => 0) (fun _ => 0)).init := by
    intro t hc
    have hpast := hc.past
    have hpc : (launch cfg (fun _ => 0) (fun _ => 0)).init.pc t = .reset := if_pos hl
    rw [hpc] at hpast
    exact hpast
  have hmem' : ∀ i, i ∈ order.map Thread.anchor ↔ cfg.Accepted bid i := by
    intro i
    rw [hmem i]
    exact ⟨fun hi => hi.1, fun hi => ⟨hi, fun t _ _ hlost => hnone t hlost.2⟩⟩
  have hsub : cfg.passing bid ⊆ order.map Thread.anchor := by
    intro i hi
    obtain ⟨hlt, hp⟩ := Config.mem_passing.1 hi
    exact (hmem' i).2 ⟨hlt, hp.accepts⟩
  have hlen : (order.map Thread.anchor).length ≤ (cfg.passing bid).length := by
    have hcount := ((h _ _ s hs).2.2 hf).count bid hb
    have hcount' : s.count bid = order.length := ho.count_eq_length
    rw [List.length_map]
    omega
  have hperm := ((Config.nodup_passing bid).subperm hsub).perm_of_length_le hlen
  rw [hperm.mem_iff]
  exact (hmem' i).symm

theorem Correct.first_block (h : Correct cfg) (hl : cfg.Launchable) {bid : Nat} (hb : bid < cfg.batchSize) {i : Nat}
    (hi : i ∈ cfg.passing bid) : i < blockDim := by
  by_contra hge
  have hacc := (h.accepted_iff hl hb).2 hi
  obtain ⟨t, htb, rfl⟩ := exists_anchor ⟨bid, hb⟩ hacc.1
  have hinit : (launch cfg (fun _ => 0) (fun _ => 0)).init.pc (leader hl hb) = .reset := if_pos hl
  have hbid : t.bid.val = bid := congrArg Fin.val htb
  have hy : t.blockY ≠ (leader hl hb).blockY := by
    intro he
    refine hge ?_
    have hzero : t.blockY.val = 0 := congrArg Fin.val he
    simp [Thread.anchor, hzero]
  obtain ⟨s₁, hs₁, hi₁, hu₁, hc₁⟩ := exists_counted .init (.init ..) (t := t) (hbid.symm ▸ hacc) hy hinit
  obtain ⟨s, hs, hf, order, ho⟩ := exists_lost hs₁ hi₁ (u := leader hl hb) ⟨rfl, rfl⟩ hu₁
  obtain ⟨hnd, hmem⟩ := ho.finished hf
  -- the anchor of `t` was counted before the reset
  have hnot : t.anchor ∉ order.map Thread.anchor := fun hmem' => ((hmem _).1 hmem').2 t htb rfl ⟨htb, hc₁⟩
  have hsub : t.anchor :: order.map Thread.anchor ⊆ cfg.passing bid := by
    intro j hj
    rcases List.mem_cons.1 hj with rfl | hj
    · exact hi
    · exact (h.accepted_iff hl hb).1 ((hmem j).1 hj).1
  have hlen := (List.subperm_of_subset (List.nodup_cons.2 ⟨hnot, hnd⟩) hsub).length_le
  have hcount := ((h _ _ s hs).2.2 hf).count bid hb
  have hcount' : s.count bid = order.length := ho.count_eq_length
  rw [List.length_cons, List.length_map] at hlen
  omega

theorem Correct.exists_lt (h : Correct cfg) (hl : cfg.Launchable) {bid : Nat} (hb : bid < cfg.batchSize)
    (hroom : (cfg.passing bid).length ≤ cfg.maxDet) {i : Nat} (hi : i ∈ cfg.passing bid) :
    ∃ c < cfg.numClasses, -1 < cfg.score bid i c := by
  have hfirst : FirstBlock cfg := fun bid hb i hacc => h.first_block hl hb ((h.accepted_iff hl hb).1 hacc)
  have hinit : (launch cfg (fun _ => 0) (fun _ => 0)).init.pc (leader hl hb) = .reset := if_pos hl
  obtain ⟨s, hs, hf, -⟩ := exists_lost .init (.init ..) (u := leader hl hb) ⟨rfl, rfl⟩ hinit
  obtain ⟨-, hk, -⟩ := hfirst.reachable (.inl hl) hs
  obtain ⟨anchors, hnd, hmem, -, hrec⟩ := (hk ⟨bid, hb⟩).finished hf
  obtain ⟨anchors', hperm', hrec'⟩ := ((h _ _ s hs).2.2 hf).records bid hb hroom
  have hperm : anchors.Perm (cfg.passing bid) :=
    (List.perm_ext_iff_of_nodup hnd (Config.nodup_passing bid)).2 fun j => (hmem j).trans (h.accepted_iff hl hb)
  obtain ⟨j, hj⟩ := List.mem_iff_getElem?.1 (hperm.mem_iff.2 hi)
  have hlt : j < anchors.length := (List.getElem?_eq_some_iff.1 hj).1
  rw [hperm.length_eq, ← hperm'.length_eq] at hlt
  have hrec'' := hrec' j _ (List.getElem?_eq_getElem hlt)
  rw [hrec j i hj (by rw [hperm'.length_eq] at hlt; omega)] at hrec''
  exact hrec''.exists_lt

theorem Correct.sound (h : Correct cfg) (hb : 0 < cfg.batchSize) : Sound cfg := by
  have hl := h.launchable hb
  have hrange := hl.in_range (fun _ => 0) (fun _ => 0) fun s hs => (h _ _ s hs).1
  refine ⟨hl, hrange, fun bid hb i hi hp => h.first_block hl hb (Config.mem_passing.2 ⟨hi, hp⟩), fun bid hb => ?_⟩
  by_cases hc : -1 < cfg.confThresh
  · exact .inl hc
  · have hall : ∀ i < cfg.numPredictions, i ∈ cfg.passing bid := fun i hi =>
      (h.accepted_iff hl hb).1 ⟨hi, Config.accepts_of_le (not_lt.1 hc) bid i⟩
    refine .inr ⟨fun i hi => (Config.mem_passing.1 (hall i hi)).2, fun hroom i hi => ?_⟩
    have hlen : (cfg.passing bid).length ≤ cfg.numPredictions := by
      have := List.length_filter_le (fun i => decide (cfg.Passes bid i)) (List.range cfg.numPredictions)
      rwa [List.length_range] at this
    exact h.exists_lt hl hb (hlen.trans hroom) (hall i hi)

/-- The kernel ends under every schedule, and what it leaves is right for every schedule and every previous content of
its buffers exactly if there is no image or the condition `Sound` holds. -/
theorem correct_iff (cfg : Config) :
    (∀ count output s, (launch cfg count output).Reachable s → ¬s.Finished → ∃ t s', step s t = some s') ∧
    (∀ count output s ts, (launch cfg count output).run (launch cfg count output).init ts = some s →
      ts.length ≤ Fintype.card (Thread cfg) * 12) ∧
    (Correct cfg ↔ cfg.batchSize = 0 ∨ Sound cfg) := by
  refine ⟨fun _ _ _ _ => exists_step_of_not_finished, fun _ _ _ _ => run_length_le, ⟨fun h => ?_, ?_⟩⟩
  · rcases Nat.eq_zero_or_pos cfg.batchSize with hb | hb
    · exact .inl hb
    · exact .inr (h.sound hb)
  · rintro (hb | h)
    · intro count output s hs
      have hx : cfg.gridDimX = 0 := hb
      have hno : ∀ t : Thread cfg, False := fun t => absurd t.bid.isLt (by omega)
      have hfirst : FirstBlock cfg := fun bid hlt => absurd hlt (by omega)
      obtain ⟨-, -, hfr⟩ := hfirst.reachable (.inr hx) hs
      exact ⟨fun t => (hno t).elim, fun t => (hno t).elim, fun _ =>
        ⟨fun bid hlt => absurd hlt (by omega), fun bid hlt => absurd hlt (by omega), hfr⟩⟩
    · exact h.correct

/-! ### Two blocks -/

/-- One image of 257 anchors and one class, with all scores above the threshold. -/
def twoBlocks : Config := ⟨fun _ => 1, 1, 257, 1, 1 / 2, 300⟩

/-- The thread of the last anchor can count it before the block of the others resets the count. -/
theorem twoBlocks_not_correct : ¬Correct twoBlocks := by
  intro h
  have hpass : twoBlocks.Passes 0 256 :=
    ⟨0, Nat.one_pos, ⟨Nat.one_pos, fun _ _ => le_refl _, nofun⟩,
      by norm_num [twoBlocks, Config.score, Config.batchInput]⟩
  have hmem : 256 ∈ twoBlocks.passing 0 := Config.mem_passing.2 ⟨by decide, hpass⟩
  exact absurd (h.first_block (h.launchable Nat.one_pos) Nat.one_pos hmem) (by decide)

end OnnxInference.GpuFilter
