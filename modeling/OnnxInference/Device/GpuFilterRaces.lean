import OnnxInference.Device.GpuFilterImages

/-!
# Races of the filter

The barrier of a block orders the reset of the count before the threads of that block only, so the anchors of the other
blocks fall into two groups: those counted before the reset, whose indices go on from what the buffer held, and those
counted after it.  The order of the latter is the order of the slots, and each float of a slot comes from the anchor of
the slot or from the one anchor counted before the reset that has been given the same index (`exists_mixed`).
-/

namespace OnnxInference.GpuFilter

open Transition

variable {cfg : Config}

/-! ### Indices -/

/-- The threads that store do so for the index that they have been given. -/
def Given (s : State cfg) (idx : Thread cfg → Int) : Prop :=
  ∀ t i maxScore maxCls j k, s.pc t = .store i maxScore maxCls j k → j = idx t

/-- An `atomicAdd` gives its thread the count, and no other step gives anything. -/
theorem Given.step {s s' : State cfg} {t : Thread cfg} {idx : Thread cfg → Int} (h : Given s idx) (hm : Move s t s') :
    (s.Adds t ∧ Given s' (Function.update idx t (s.count t.bid))) ∨ (¬s.Adds t ∧ Given s' idx) := by
  have hother : ∀ {idx' : Thread cfg → Int}, (∀ u, u ≠ t → idx' u = idx u) → ∀ {u i maxScore maxCls j k},
      u ≠ t → s'.pc u = .store i maxScore maxCls j k → j = idx' u := by
    intro idx' hidx u i maxScore maxCls j k hu hpc
    rw [hidx u hu]
    exact h u _ _ _ _ _ ((hm.pc_of_ne hu).symm.trans hpc)
  have hadd : s.Adds t → (∀ {i maxScore maxCls j k}, s'.pc t = .store i maxScore maxCls j k → j = s.count t.bid) →
      (s.Adds t ∧ Given s' (Function.update idx t (s.count t.bid))) := by
    intro ha ht
    refine ⟨ha, fun u _ _ _ _ _ hpc => ?_⟩
    by_cases hu : u = t
    · subst hu
      rw [Function.update_self]
      exact ht hpc
    · exact hother (fun u hu => Function.update_of_ne hu _ _) hu hpc
  have hidle : ¬s.Adds t → (∀ {i maxScore maxCls j k}, s'.pc t = .store i maxScore maxCls j k → j = idx t) →
      (¬s.Adds t ∧ Given s' idx) := by
    intro ha ht
    refine ⟨ha, fun u _ _ _ _ _ hpc => ?_⟩
    by_cases hu : u = t
    · subst hu
      exact ht hpc
    · exact hother (fun _ _ => rfl) hu hpc
  cases hm with
  | reset h0 =>
    refine .inr (hidle (by simp [State.Adds, h0]) fun hpc => ?_)
    split at hpc <;> simp at hpc
  | sync h0 | accept h0 | skip h0 | exit h0 | last h0 =>
    exact .inr (hidle (by simp [State.Adds, h0]) fun hpc => by simp at hpc)
  | add h0 =>
    refine .inl (hadd ⟨_, _, _, h0⟩ fun hpc => ?_)
    simp only [State.setPc_pc, Function.update_self, Pc.store.injEq] at hpc
    exact hpc.2.2.2.1.symm
  | full h0 => exact .inl (hadd ⟨_, _, _, h0⟩ fun hpc => by simp at hpc)
  | store h0 =>
    refine .inr (hidle (by simp [State.Adds, h0]) fun hpc => ?_)
    simp only [State.setPc_pc, Function.update_self, Pc.store.injEq] at hpc
    exact hpc.2.2.2.1 ▸ h t _ _ _ _ _ h0

/-! ### Before the reset -/

/-- The threads of an image that have counted are in a list, and their indices are the next ones from `base` on. -/
structure Early (s : State cfg) (bid : Fin cfg.gridDimX) (base : Int) (idx : Thread cfg → Int)
    (order : List (Thread cfg)) : Prop where
  listed : Listed s bid base (fun _ => False) order
  given : Given s idx
  idx_eq : ∀ (n : Nat) t, order[n]? = some t → idx t = base + n

theorem Early.init (hl : cfg.Launchable) (count : Nat → Int) (output : Int → ℚ) (bid : Fin cfg.gridDimX) :
    Early (launch cfg count output).init bid (count bid) (fun _ => 0) [] := by
  have hpc : ∀ t : Thread cfg, (launch cfg count output).init.pc t = .reset := fun _ => if_pos hl
  refine ⟨⟨List.nodup_nil, fun t => ?_, nofun, ?_⟩, fun t _ _ _ _ _ h => ?_, nofun⟩
  · simp only [List.not_mem_nil, false_iff]
    rintro ⟨-, hc, -⟩
    exact hc.pc_ne.1 (hpc t)
  · exact (add_zero _).symm
  · rw [hpc t] at h
    cases h

/-- The indices in a list that has got one more thread. -/
private theorem idx_append {t : Thread cfg} {idx : Thread cfg → Int} {base c : Int} {order : List (Thread cfg)}
    (ht : t ∉ order) (hc : c = base + order.length) (h : ∀ (n : Nat) u, order[n]? = some u → idx u = base + n) :
    ∀ (n : Nat) u, (order ++ [t])[n]? = some u → Function.update idx t c u = base + n := by
  intro n u hn
  rw [List.getElem?_append] at hn
  split at hn
  · have hu : u ≠ t := fun he => ht (he ▸ List.mem_of_getElem? hn)
    rw [Function.update_of_ne hu]
    exact h n u hn
  · rw [List.getElem?_singleton] at hn
    split at hn <;> cases hn
    rw [Function.update_self]
    omega

theorem Early.step {s s' : State cfg} {t : Thread cfg} {bid : Fin cfg.gridDimX} {base : Int} {idx : Thread cfg → Int}
    {order : List (Thread cfg)} (h : Early s bid base idx order) (hm : Move s t s') (hi : Inv s)
    (hno : ¬(t.bid = bid ∧ t.Resets ∧ s.pc t = .reset)) : ∃ idx' order', Early s' bid base idx' order' := by
  have hnot : s.Adds t → t ∉ order := by
    rintro ⟨_, _, _, hadd⟩ ht
    have hpast := ((h.listed.mem_iff t).1 ht).2.1.past
    rw [hadd] at hpast
    exact hpast
  rcases h.listed.step hm hi hno with ⟨⟨hadd, hb⟩, hlisted⟩ | ⟨hadd, hlisted⟩
  · rcases h.given.step hm with ⟨-, hg⟩ | ⟨hna, -⟩
    · exact ⟨_, _, hlisted, hg, idx_append (hnot hadd) (hb ▸ h.listed.count_eq) h.idx_eq⟩
    · exact absurd hadd hna
  · rcases h.given.step hm with ⟨ha, hg⟩ | ⟨-, hg⟩
    · refine ⟨_, _, hlisted, hg, fun n u hn => ?_⟩
      -- the thread belongs to another image
      have hu : u ≠ t := fun he => hnot ha (he ▸ List.mem_of_getElem? hn)
      rw [Function.update_of_ne hu]
      exact h.idx_eq n u hn
    · exact ⟨_, _, hlisted, hg, h.idx_eq⟩

/-! ### After the reset -/

/-- An image that has been reset: `order` has the threads counted since, `lost` are those counted before, which are of
other blocks than the first and have different indices. -/
structure Raced (s : State cfg) (bid : Fin cfg.gridDimX) (base : Int) (lost : Thread cfg → Prop)
    (idx : Thread cfg → Int) (order : List (Thread cfg)) : Prop where
  ordered : Ordered s bid lost order
  given : Given s idx
  idx_eq : ∀ (j : Nat) t, order[j]? = some t → idx t = (0 : Int) + j
  lost_bid : ∀ t, lost t → t.bid = bid
  lost_block : ∀ t, lost t → blockDim ≤ t.anchor
  lost_lt : ∀ t, lost t → idx t < base + cfg.numPredictions
  lost_inj : ∀ t u, lost t → lost u → idx t = idx u → t = u
  slots : ∀ (j : Nat) t, order[j]? = some t → j < cfg.maxDet → ∀ k : Fin 6, k.val < (s.pc t).stored →
    ∃ u, (u = t ∨ lost u ∧ idx u = j) ∧ s.output (cfg.outAddr bid j k) = cfg.record bid u.anchor k

/-- The reset makes the threads counted so far the lost ones. -/
theorem Early.reset {s s' : State cfg} {t : Thread cfg} {bid : Fin cfg.gridDimX} {base : Int} {idx : Thread cfg → Int}
    {order : List (Thread cfg)} (h : Early s bid base idx order) (hm : Move s t s') (hi : Inv s) (hb : t.bid = bid)
    (ht : t.Resets) (hpc : s.pc t = .reset) : Raced s' bid base (fun u => u ∈ order) idx [] := by
  have hlate : ¬ResetDone s bid := fun hr => hr t hb ht hpc
  have hget : ∀ u ∈ order, ∃ n : Nat, order[n]? = some u ∧ idx u = base + n := by
    intro u hu
    obtain ⟨n, hn⟩ := List.mem_iff_getElem?.1 hu
    exact ⟨n, hn, h.idx_eq n u hn⟩
  have hgiven : Given s' idx := by
    rcases h.given.step hm with ⟨⟨_, _, _, hadd⟩, -⟩ | ⟨-, hg⟩
    · rw [hpc] at hadd
      cases hadd
    · exact hg
  rcases hm.count_cases hi with ⟨-, -, hcount, hiff⟩ | ⟨⟨_, _, _, hadd⟩, -⟩ | ⟨-, hnot, -, -⟩
  · refine ⟨⟨⟨List.nodup_nil, fun u => ?_, fun u hu => ?_, ?_⟩, fun u hub hu => ?_⟩, hgiven, nofun, fun u hu => ?_,
      fun u hu => ?_, fun u hu => ?_, fun u v hu hv he => ?_, nofun⟩
    · simp only [List.not_mem_nil, false_iff, hiff u]
      exact fun hu => hu.2.2 ((h.listed.mem_iff u).2 ⟨hu.1, hu.2.1, not_false⟩)
    · exact (hiff u).2 ((h.listed.mem_iff u).1 hu).2.1
    · rw [hcount, ← hb, Function.update_self]
      rfl
    · obtain rfl := ht.unique hu (hb.trans hub.symm)
      rw [hm.pc_of_reset hpc]
      exact nofun
    · exact ((h.listed.mem_iff u).1 hu).1
    · -- the barrier of the first block still waits for the reset
      by_contra hlt
      obtain ⟨hub, hc, -⟩ := (h.listed.mem_iff u).1 hu
      exact hlate (hub ▸ resetDone_of_lt hi (not_le.1 hlt) hc.pc_ne)
    · obtain ⟨n, hn, hidx⟩ := hget u hu
      have hlt := (List.getElem?_eq_some_iff.1 hn).1
      have hlen := h.listed.length_le
      omega
    · obtain ⟨n, hn, hidx⟩ := hget u hu
      obtain ⟨m, hm, hidx'⟩ := hget v hv
      have hnm : n = m := by omega
      rw [hnm, hm] at hn
      exact (Option.some.inj hn).symm
  · rw [hpc] at hadd
    cases hadd
  · exact absurd ht (hnot hpc)

namespace Raced

variable {s s' : State cfg} {t : Thread cfg} {bid : Fin cfg.gridDimX} {base : Int} {lost : Thread cfg → Prop}
  {idx : Thread cfg → Int} {order : List (Thread cfg)}

/-- Every thread of the image that has counted is in the order or lost. -/
theorem mem_or_lost (h : Raced s bid base lost idx order) (hb : t.bid = bid) (hc : t.Counted s) :
    t ∈ order ∨ lost t := by
  by_cases hl : lost t
  · exact .inr hl
  · exact .inl ((h.ordered.mem_iff t).2 ⟨hb, hc, hl⟩)

/-- Two threads of the order do not have the same index. -/
theorem eq_of_idx (h : Raced s bid base lost idx order) {j : Nat} {u : Thread cfg} (hj : order[j]? = some u)
    (ht : t ∈ order) (hidx : idx t = j) : t = u := by
  obtain ⟨j', hj'⟩ := List.mem_iff_getElem?.1 ht
  have hidx' := h.idx_eq j' t hj'
  have hjj : j' = j := by omega
  rw [hjj, hj] at hj'
  exact (Option.some.inj hj').symm

/-- A store that hits a float of a slot comes from the thread of the slot or from a lost one with its index. -/
theorem slot_of_hit (h : Raced s bid base lost idx order) (hi : Inv s) (hn : NonNeg s) {i : Nat}
    {maxScore : ℚ} {maxCls jt : Int} {kt : Fin 6} (hpc : s.pc t = .store i maxScore maxCls jt kt) {j : Nat}
    {u : Thread cfg} (hj : order[j]? = some u) (hlt : j < cfg.maxDet) {k : Fin 6}
    (ha : cfg.outAddr t.bid jt kt = cfg.outAddr bid j k) :
    k = kt ∧ (t = u ∨ lost t ∧ idx t = j) ∧ cfg.outValue t.bid i maxScore maxCls kt = cfg.record bid t.anchor k := by
  have hat := hi.at_pc t
  rw [hpc] at hat
  obtain ⟨rfl, hlt', hacc, hbest, hjt⟩ := hat
  obtain ⟨j', hj'⟩ := Int.eq_ofNat_of_zero_le (hn.store hpc)
  have hgiven := h.given t _ _ _ _ _ hpc
  rw [hj'] at ha hgiven hjt
  obtain ⟨hb, rfl, rfl⟩ := Config.outAddr_inj (by omega) hlt ha
  have htb : t.bid = bid := Fin.ext hb
  refine ⟨rfl, ?_, ?_⟩
  · rcases h.mem_or_lost htb ⟨hlt', hacc, by rw [hpc]; trivial⟩ with ht | ht
    · exact .inl (h.eq_of_idx hj ht hgiven.symm)
    · exact .inr ⟨ht, hgiven.symm⟩
  · rw [Config.record, ← hb, hbest]

/-- What a slot holds after a store. -/
private theorem slot_of_store (h : Raced s bid base lost idx order) (hi : Inv s) (hn : NonNeg s) {i : Nat}
    {maxScore : ℚ} {maxCls jt : Int} {kt : Fin 6} (hpc : s.pc t = .store i maxScore maxCls jt kt) {j : Nat}
    {u : Thread cfg} (hj : order[j]? = some u) (hlt : j < cfg.maxDet) {k : Fin 6}
    (hk : k.val < (s.pc u).stored ∨ u = t ∧ k.val ≤ kt.val) :
    ∃ v, (v = u ∨ lost v ∧ idx v = j) ∧
      Function.update s.output (cfg.outAddr t.bid jt kt) (cfg.outValue t.bid i maxScore maxCls kt)
        (cfg.outAddr bid j k) = cfg.record bid v.anchor k := by
  by_cases ha : cfg.outAddr t.bid jt kt = cfg.outAddr bid j k
  · obtain ⟨-, hv, hval⟩ := h.slot_of_hit hi hn hpc hj hlt ha
    exact ⟨t, hv, by rw [ha, Function.update_self, hval]⟩
  · rw [Function.update_of_ne (Ne.symm ha)]
    refine h.slots j u hj hlt k (hk.elim id ?_)
    rintro ⟨rfl, hle⟩
    rw [hpc]
    have hub := ((h.ordered.mem_iff u).1 (List.mem_of_getElem? hj)).1
    have hidx : jt = j := (h.given u _ _ _ _ _ hpc).trans ((h.idx_eq j u hj).trans (zero_add _))
    exact lt_of_le_of_ne hle fun he => ha (by rw [hub, hidx, Fin.ext he])

/-- The slots of the threads in the order after a step. -/
private theorem slots_step (h : Raced s bid base lost idx order) (hm : Move s t s') (hi : Inv s) (hn : NonNeg s)
    {j : Nat} {u : Thread cfg} (hj : order[j]? = some u) (hlt : j < cfg.maxDet) {k : Fin 6}
    (hk : k.val < (s'.pc u).stored) :
    ∃ v, (v = u ∨ lost v ∧ idx v = j) ∧ s'.output (cfg.outAddr bid j k) = cfg.record bid v.anchor k := by
  -- a step that stores nothing leaves a thread with as many floats stored
  have hidle : s'.output = s.output → (u = t → (s.pc u).stored = 6) →
      ∃ v, (v = u ∨ lost v ∧ idx v = j) ∧ s'.output (cfg.outAddr bid j k) = cfg.record bid v.anchor k := by
    intro hout hst
    rw [hout]
    refine h.slots j u hj hlt k ?_
    by_cases hu : u = t
    · rw [hst hu]
      exact k.isLt
    · rwa [hm.pc_of_ne hu] at hk
  cases hm with
  | reset h0 =>
    refine hidle (by split <;> rfl) ?_
    rintro rfl
    rw [h0]
    rfl
  | sync h0 | accept h0 | skip h0 | exit h0 | add h0 | full h0 =>
    refine hidle rfl ?_
    rintro rfl
    rw [h0]
    rfl
  | @store _ _ _ _ kt h0 hk6 =>
    refine h.slot_of_store hi hn h0 hj hlt ?_
    by_cases hu : u = t
    · subst hu
      simp only [State.setPc_pc, Function.update_self, Pc.stored] at hk
      exact .inr ⟨rfl, by omega⟩
    · simp only [State.setPc_pc, State.setOutput_pc, Function.update_of_ne hu] at hk
      exact .inl hk
  | @last _ _ _ _ kt h0 hk6 =>
    refine h.slot_of_store hi hn h0 hj hlt ?_
    by_cases hu : u = t
    · have := k.isLt
      exact .inr ⟨hu, by omega⟩
    · simp only [State.setPc_pc, State.setOutput_pc, Function.update_of_ne hu] at hk
      exact .inl hk

/-- A thread of the image that adds comes last in the order. -/
theorem step (h : Raced s bid base lost idx order) (hm : Move s t s') (hi : Inv s) (hn : NonNeg s) :
    (s.Adds t ∧ t.bid = bid) ∧ (∃ idx', Raced s' bid base lost idx' (order ++ [t])) ∨
    ¬(s.Adds t ∧ t.bid = bid) ∧ ∃ idx', Raced s' bid base lost idx' order := by
  have hold : ∀ (j : Nat) u, order[j]? = some u → j < cfg.maxDet → ∀ k : Fin 6, k.val < (s'.pc u).stored →
      ∃ v, (v = u ∨ lost v ∧ idx v = j) ∧ s'.output (cfg.outAddr bid j k) = cfg.record bid v.anchor k :=
    fun j u hj hlt k hk => h.slots_step hm hi hn hj hlt hk
  have hfresh : s.Adds t → ¬t.Counted s := by
    rintro ⟨_, _, _, hadd⟩ hc
    have hpast := hc.past
    rw [hadd] at hpast
    exact hpast
  have hnot : s.Adds t → t ∉ order := fun ha ht => hfresh ha ((h.ordered.mem_iff t).1 ht).2.1
  have hnotlost : s.Adds t → ∀ u, lost u → u ≠ t := by
    rintro ha u hu rfl
    exact hfresh ha (h.ordered.lost_counted u hu)
  -- the index of a lost thread stays what it was
  have hlost : ∀ idx' : Thread cfg → Int, (∀ u, lost u → idx' u = idx u) →
      (∀ u, lost u → idx' u < base + cfg.numPredictions) ∧ ∀ u v, lost u → lost v → idx' u = idx' v → u = v := by
    intro idx' hidx
    refine ⟨fun u hu => ?_, fun u v hu hv he => ?_⟩
    · rw [hidx u hu]
      exact h.lost_lt u hu
    · rw [hidx u hu, hidx v hv] at he
      exact h.lost_inj u v hu hv he
  rcases h.ordered.step hm hi with ⟨⟨hadd, hb⟩, ho⟩ | ⟨hadd, ho⟩
  · rcases h.given.step hm with ⟨-, hg⟩ | ⟨hna, -⟩
    · have hidx : ∀ u, lost u → Function.update idx t (s.count t.bid) u = idx u := fun u hu =>
        Function.update_of_ne (hnotlost hadd u hu) _ _
      obtain ⟨hlt, hinj⟩ := hlost _ hidx
      refine .inl ⟨⟨hadd, hb⟩, _, ho, hg, idx_append (hnot hadd) (hb ▸ h.ordered.count_eq) h.idx_eq, h.lost_bid,
        h.lost_block, hlt, hinj, fun j u hj hltj k hk => ?_⟩
      rw [List.getElem?_append] at hj
      split at hj
      · obtain ⟨v, hv, hout⟩ := hold j u hj hltj k hk
        exact ⟨v, hv.imp id fun ⟨hl, he⟩ => ⟨hl, (hidx v hl).trans he⟩, hout⟩
      · rw [List.getElem?_singleton] at hj
        split at hj <;> cases hj
        have hcount := h.ordered.count_eq_length
        subst hb
        -- nothing is stored yet in the new slot, or it is too many
        obtain ⟨_, _, _, hpc⟩ := hadd
        cases hm with
        | add h0 => simp [Pc.stored] at hk
        | full h0 hle => omega
        | reset h0 | sync h0 | accept h0 | skip h0 | exit h0 | store h0 | last h0 => rw [hpc] at h0; cases h0
    · exact absurd hadd hna
  · rcases h.given.step hm with ⟨ha, hg⟩ | ⟨-, hg⟩
    · have hidx : ∀ u, u ≠ t → Function.update idx t (s.count t.bid) u = idx u := fun u hu =>
        Function.update_of_ne hu _ _
      obtain ⟨hlt, hinj⟩ := hlost _ fun u hu => hidx u (hnotlost ha u hu)
      refine .inr ⟨hadd, _, ho, hg, fun j u hj => ?_, h.lost_bid, h.lost_block, hlt, hinj, fun j u hj hltj k hk => ?_⟩
      · have hu : u ≠ t := fun he => hnot ha (he ▸ List.mem_of_getElem? hj)
        rw [hidx u hu]
        exact h.idx_eq j u hj
      · obtain ⟨v, hv, hout⟩ := hold j u hj hltj k hk
        exact ⟨v, hv.imp id fun ⟨hl, he⟩ => ⟨hl, (hidx v (hnotlost ha v hl)).trans he⟩, hout⟩
    · exact .inr ⟨hadd, _, ho, hg, h.idx_eq, h.lost_bid, h.lost_block, h.lost_lt, h.lost_inj, hold⟩

/-- Other steps than an `atomicAdd` leave the order as it is. -/
theorem step_of_not_adds (h : Raced s bid base lost idx order) (hm : Move s t s') (hi : Inv s) (hn : NonNeg s)
    (hna : ¬s.Adds t) : ∃ idx', Raced s' bid base lost idx' order := by
  rcases h.step hm hi hn with ⟨⟨hadd, -⟩, -⟩ | ⟨-, hr⟩
  · exact absurd hadd hna
  · exact hr

end Raced

/-! ### What a run leaves -/

/-- An image before or after its reset. -/
def Races (s : State cfg) (bid : Fin cfg.gridDimX) (base : Int) : Prop :=
  (¬ResetDone s bid ∧ ∃ idx order, Early s bid base idx order) ∨
    ∃ lost idx order, Raced s bid base lost idx order

theorem Races.step {s s' : State cfg} {t : Thread cfg} {bid : Fin cfg.gridDimX} {base : Int} (h : Races s bid base)
    (hm : Move s t s') (hi : Inv s) (hn : NonNeg s) : Races s' bid base := by
  rcases h with ⟨hlate, idx, order, he⟩ | ⟨lost, idx, order, hr⟩
  · by_cases hreset : t.bid = bid ∧ t.Resets ∧ s.pc t = .reset
    · exact .inr ⟨_, _, _, he.reset hm hi hreset.1 hreset.2.1 hreset.2.2⟩
    · exact .inl ⟨fun hd => hlate (hd.of_step hm hreset), he.step hm hi hreset⟩
  · rcases hr.step hm hi hn with ⟨-, idx', hr'⟩ | ⟨-, idx', hr'⟩
    · exact .inr ⟨_, _, _, hr'⟩
    · exact .inr ⟨_, _, _, hr'⟩

/-- Every state of a launch on counts that are not negative. -/
structure Sane (count : Nat → Int) (s : State cfg) : Prop where
  inv : Inv s
  nonneg : NonNeg s
  races : ∀ bid : Fin cfg.gridDimX, Races s bid (count bid)

theorem Sane.step {count : Nat → Int} {s s' : State cfg} {t : Thread cfg} (h : Sane count s) (hm : Move s t s') :
    Sane count s' :=
  ⟨h.inv.step hm, h.nonneg.step hm, fun bid => (h.races bid).step hm h.inv h.nonneg⟩

theorem Sane.init (hl : cfg.Launchable) {count : Nat → Int} (hcount : ∀ b, 0 ≤ count b) (output : Int → ℚ) :
    Sane count (launch cfg count output).init := by
  refine ⟨.init cfg count output, .init hcount output, fun bid =>
    .inl ⟨fun hreset => ?_, _, _, .init hl count output bid⟩⟩
  exact hreset (leader hl bid.isLt) rfl ⟨rfl, rfl⟩ (if_pos hl)

theorem sane_of_reachable (hl : cfg.Launchable) {count : Nat → Int} (hcount : ∀ b, 0 ≤ count b) {output : Int → ℚ}
    {s : State cfg} (hs : (launch cfg count output).Reachable s) : Sane count s :=
  hs.invariant (P := Sane count) (.init hl hcount output) fun h _ hstep => h.step (Move.of_step hstep)

/-- The count of an image exceeds the previous one by the number of anchors at most. -/
theorem Races.count_le {s : State cfg} {bid : Fin cfg.gridDimX} {base : Int} (h : Races s bid base) (h0 : 0 ≤ base) :
    s.count bid ≤ base + cfg.numPredictions := by
  rcases h with ⟨-, idx, order, he⟩ | ⟨lost, idx, order, hr⟩
  · have hcount := he.listed.count_eq
    have hlen := he.listed.length_le
    omega
  · have hcount := hr.ordered.count_eq_length
    have hlen := hr.ordered.length_le
    omega

/-- So does the index of a store. -/
theorem Races.store_lt {s : State cfg} {bid : Fin cfg.gridDimX} {base : Int} (h : Races s bid base) (h0 : 0 ≤ base)
    (hi : Inv s) {t : Thread cfg} (hb : t.bid = bid) {i : Nat} {maxScore : ℚ} {maxCls j : Int} {k : Fin 6}
    (hpc : s.pc t = .store i maxScore maxCls j k) : j < base + cfg.numPredictions := by
  have hat := hi.at_pc t
  rw [hpc] at hat
  obtain ⟨rfl, hlt, hacc, -, -⟩ := hat
  have hc : t.Counted s := ⟨hlt, hacc, by rw [hpc]; trivial⟩
  rcases h with ⟨-, idx, order, he⟩ | ⟨lost, idx, order, hr⟩
  · obtain ⟨n, hn⟩ := List.mem_iff_getElem?.1 ((he.listed.mem_iff t).2 ⟨hb, hc, not_false⟩)
    have hlen := he.listed.length_le
    have hn' := (List.getElem?_eq_some_iff.1 hn).1
    rw [he.given t _ _ _ _ _ hpc, he.idx_eq n t hn]
    omega
  · rw [hr.given t _ _ _ _ _ hpc]
    rcases hr.mem_or_lost hb hc with ht | ht
    · obtain ⟨n, hn⟩ := List.mem_iff_getElem?.1 ht
      have hlen := hr.ordered.length_le
      have hn' := (List.getElem?_eq_some_iff.1 hn).1
      rw [hr.idx_eq n t hn]
      omega
    · exact hr.lost_lt t ht

/-- With the offsets in range and counts as a launch leaves them, no run overflows. -/
theorem Sane.not_overflows {count : Nat → Int} {s : State cfg} (h : Sane count s) (hl : cfg.Launchable)
    (hr : cfg.InRange) (hcount : ∀ bid : Fin cfg.gridDimX, 0 ≤ count bid ∧ count bid ≤ cfg.numPredictions)
    (t : Thread cfg) : ¬s.Overflows t := by
  have hn := hl.numPredictions_lt
  have hraces := h.races t.bid
  have hbase := hcount t.bid
  unfold State.Overflows
  split
  · exact not_not.2 (hr.offsets t.bid t.bid.isLt)
  · exact fun ho => ho.2 hr.rows
  · have hle := hraces.count_le hbase.1
    have hpos := h.nonneg.count t.bid
    exact not_not.2 ⟨by omega, by omega⟩
  · rename_i hpc
    have hlt := hraces.store_lt hbase.1 h.inv rfl hpc
    have hpos := h.nonneg.store hpc
    exact not_not.2 ⟨by omega, by omega⟩
  · exact not_false

/-- What the kernel leaves of an image: `order` has the anchors counted since the reset, all accepted ones of the first
block among them.  A float of a slot comes from the anchor of the slot or from an anchor of another block. -/
structure Mixed (cfg : Config) (bid : Nat) (count : Int) (slot : Nat → Fin 6 → ℚ) (order : List Nat) : Prop where
  nodup : order.Nodup
  accepted : ∀ i ∈ order, cfg.Accepted bid i
  first : ∀ i, cfg.Accepted bid i → i < blockDim → i ∈ order
  count_eq : count = order.length
  slot : ∀ (j : Nat) i, order[j]? = some i → j < cfg.maxDet →
    ∃ e, (e = i ∨ cfg.Accepted bid e ∧ blockDim ≤ e) ∧
      ∀ k, slot j k = cfg.record bid i k ∨ slot j k = cfg.record bid e k

/-- There are no more slots filled than anchors. -/
theorem Mixed.length_le {bid : Nat} {n : Int} {slot : Nat → Fin 6 → ℚ} {order : List Nat}
    (h : Mixed cfg bid n slot order) : order.length ≤ cfg.numPredictions := by
  have hsub : order ⊆ List.range cfg.numPredictions := fun i hi => List.mem_range.2 (h.accepted i hi).1
  have hle := (h.nodup.subperm hsub).length_le
  rwa [List.length_range] at hle

theorem Raced.finished {s : State cfg} {bid : Fin cfg.gridDimX} {base : Int} {lost : Thread cfg → Prop}
    {idx : Thread cfg → Int} {order : List (Thread cfg)} (h : Raced s bid base lost idx order) (hf : s.Finished) :
    Mixed cfg bid (s.count bid) (fun j k => s.output (cfg.outAddr bid j k)) (order.map Thread.anchor) := by
  obtain ⟨hnodup, hmem⟩ := h.ordered.finished hf
  refine ⟨hnodup, fun i hi => ((hmem i).1 hi).1, fun i hacc hlt => (hmem i).2 ⟨hacc, fun t _ hanchor hl => ?_⟩, ?_, ?_⟩
  · have hle := h.lost_block t hl
    omega
  · rw [h.ordered.count_eq_length, List.length_map]
  · intro j i hj hlt
    rw [List.getElem?_map, Option.map_eq_some_iff] at hj
    obtain ⟨t, ht, rfl⟩ := hj
    have hslot : ∀ k : Fin 6, ∃ u, (u = t ∨ lost u ∧ idx u = j) ∧
        s.output (cfg.outAddr bid j k) = cfg.record bid u.anchor k := fun k =>
      h.slots j t ht hlt k (by rw [hf t]; exact k.isLt)
    by_cases hex : ∃ e, lost e ∧ idx e = j
    · obtain ⟨e, hlost, hidx⟩ := hex
      have hc := h.ordered.lost_counted e hlost
      refine ⟨e.anchor, .inr ⟨⟨hc.lt, ?_⟩, h.lost_block e hlost⟩, fun k => ?_⟩
      · exact h.lost_bid e hlost ▸ hc.accepts
      · obtain ⟨u, rfl | ⟨hu, hidx'⟩, hout⟩ := hslot k
        · exact .inl hout
        · exact .inr (h.lost_inj u e hu hlost (hidx'.trans hidx.symm) ▸ hout)
    · refine ⟨t.anchor, .inl rfl, fun k => ?_⟩
      obtain ⟨u, rfl | ⟨hu, hidx⟩, hout⟩ := hslot k
      · exact .inl hout
      · exact absurd ⟨u, hu, hidx⟩ hex

theorem Races.raced {s : State cfg} {bid : Fin cfg.gridDimX} {base : Int} (h : Races s bid base)
    (hd : ResetDone s bid) : ∃ lost idx order, Raced s bid base lost idx order :=
  h.resolve_left fun he => he.1 hd

theorem State.Finished.resetDone {s : State cfg} (hf : s.Finished) (bid : Fin cfg.gridDimX) : ResetDone s bid :=
  fun t _ _ => by simp [hf t]

/-- Whatever the schedule is. -/
theorem exists_mixed (hl : cfg.Launchable) {count : Nat → Int} (hcount : ∀ b, 0 ≤ count b) {output : Int → ℚ}
    {s : State cfg} (hs : (launch cfg count output).Reachable s) (hf : s.Finished) (bid : Fin cfg.gridDimX) :
    ∃ order, Mixed cfg bid (s.count bid) (fun j k => s.output (cfg.outAddr bid j k)) order := by
  obtain ⟨lost, idx, order, hr⟩ := ((sane_of_reachable hl hcount hs).races bid).raced (hf.resetDone bid)
  exact ⟨_, hr.finished hf⟩

end OnnxInference.GpuFilter
