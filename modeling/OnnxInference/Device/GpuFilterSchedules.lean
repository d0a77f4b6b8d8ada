import OnnxInference.Device.GpuFilterRaces

/-!
# Schedules of the filter

The runs that show what the filter can leave of an image: its anchors in any order (`exists_compacted`), an anchor whose
floats are mixed with those of an anchor of another block (`exists_mix`), and no anchor at all if all are of other
blocks (`exists_count_zero`).
-/

namespace OnnxInference.GpuFilter

open Transition

variable {cfg : Config} {count : Nat → Int} {output : Int → ℚ}

/-- The threads can be scheduled so that a state of this kind is reached, if there is always a step towards it. -/
theorem exists_state {P : State cfg → Prop} (final : State cfg → Prop)
    (hstep : ∀ s, (launch cfg count output).Reachable s → P s → ¬final s → ∃ t s', step s t = some s' ∧ P s')
    {s : State cfg} (hs : (launch cfg count output).Reachable s) (h : P s) :
    ∃ s', (launch cfg count output).Reachable s' ∧ P s' ∧ final s' := by
  have hrun : ∃ ts s', (launch cfg count output).run s ts = some s' ∧
      ((launch cfg count output).Reachable s' ∧ P s') ∧ final s' :=
    System.exists_final (μ := State.rank) (fun s₁ ⟨hs₁, h₁⟩ hf => by
      obtain ⟨t, s₂, hstep₂, h₂⟩ := hstep s₁ hs₁ h₁ hf
      exact ⟨t, s₂, hstep₂, ⟨.step hs₁ trivial hstep₂, h₂⟩, (Move.of_step hstep₂).rank_lt⟩) ⟨hs, h⟩
  obtain ⟨-, s', -, ⟨hs', h'⟩, hf⟩ := hrun
  exact ⟨s', hs', h', hf⟩

/-- What every step keeps is kept to the end. -/
theorem exists_finished {P : State cfg → Prop}
    (hP : ∀ s t s', (launch cfg count output).Reachable s → P s → Move s t s' → P s') {s : State cfg}
    (hs : (launch cfg count output).Reachable s) (h : P s) :
    ∃ s', (launch cfg count output).Reachable s' ∧ P s' ∧ s'.Finished :=
  exists_state State.Finished (fun s₁ hs₁ h₁ hf => by
    obtain ⟨t, s₂, hstep⟩ := exists_step_of_not_finished hf
    exact ⟨t, s₂, hstep, hP s₁ t s₂ hs₁ h₁ (Move.of_step hstep)⟩) hs h

/-- Every launch has a run to the end. -/
theorem exists_end (cfg : Config) (count : Nat → Int) (output : Int → ℚ) :
    ∃ s : State cfg, (launch cfg count output).Reachable s ∧ s.Finished := by
  obtain ⟨s, hs, -, hf⟩ := exists_finished (P := fun _ => True) (fun _ _ _ _ _ _ => trivial)
    (.init (M := launch cfg count output)) trivial
  exact ⟨s, hs, hf⟩

/-- The resets of some threads can come next. -/
theorem exists_cleared (A : Thread cfg → Prop) {P : State cfg → Prop}
    (hP : ∀ s t s', (launch cfg count output).Reachable s → P s → A t → s.pc t = .reset → Move s t s' → P s')
    {s : State cfg} (hs : (launch cfg count output).Reachable s) (h : P s) :
    ∃ s', (launch cfg count output).Reachable s' ∧ P s' ∧ (∀ t, ¬(A t ∧ s.pc t = .reset) → s'.pc t = s.pc t) ∧
      ∀ t, A t → s.pc t = .reset → s'.pc t = .sync := by
  obtain ⟨s', hs', ⟨h', hkeep, hat⟩, hnone⟩ := exists_state (fun s' => ∀ t, A t → s'.pc t ≠ .reset)
    (P := fun s' => P s' ∧ (∀ t, ¬(A t ∧ s.pc t = .reset) → s'.pc t = s.pc t) ∧
      ∀ t, A t → s.pc t = .reset → s'.pc t = .reset ∨ s'.pc t = .sync)
    (fun s₁ hs₁ ⟨h₁, hkeep, hat⟩ hf => by
      push Not at hf
      obtain ⟨t, hA, hpc⟩ := hf
      obtain ⟨s₂, hs₂⟩ : ∃ s₂, step s₁ t = some s₂ := ⟨_, by rw [step, hpc]⟩
      have hm := Move.of_step hs₂
      have hsync : s₂.pc t = .sync := hm.pc_of_reset hpc
      refine ⟨t, s₂, hs₂, hP s₁ t s₂ hs₁ h₁ hA hpc hm, fun u hu => ?_, fun u hAu hu => ?_⟩
      · have hut : u ≠ t := by
          rintro rfl
          exact hu ⟨hA, (hkeep u hu).symm.trans hpc⟩
        exact (hm.pc_of_ne hut).trans (hkeep u hu)
      · by_cases hut : u = t
        · exact .inr (hut ▸ hsync)
        · rw [hm.pc_of_ne hut]
          exact hat u hAu hu) hs ⟨h, fun _ _ => rfl, fun _ _ hu => .inl hu⟩
  exact ⟨s', hs', h', hkeep, fun t hA ht => (hat t hA ht).resolve_left (hnone t hA)⟩

/-! ### Any order -/

/-- A thread that waits at the barrier goes on to its `atomicAdd` when the others of its block have got there. -/
theorem exists_atomicAdd {P : State cfg → Prop} {t : Thread cfg} (hacc : cfg.Accepted t.bid t.anchor)
    (hP : ∀ s s', (launch cfg count output).Reachable s → P s → ¬s.Adds t → s.pc t ≠ .reset → Move s t s' → P s')
    {s : State cfg} (hs : (launch cfg count output).Reachable s) (h : P s) (hpc : s.pc t = .sync)
    (hb : ∀ u, t.SameBlock u → s.pc u ≠ .reset) :
    ∃ s', (launch cfg count output).Reachable s' ∧ P s' ∧
      s'.pc t = .atomicAdd t.anchor (cfg.best t.bid t.anchor).1 (cfg.best t.bid t.anchor).2 ∧
      s'.count = s.count ∧ ∀ u, u ≠ t → s'.pc u = s.pc u := by
  have hstep₁ : step s t = some (s.setPc t (.loop t.anchor)) := by
    rw [step, hpc]
    exact if_pos hb
  have h₁ := hP _ _ hs h (by simp [State.Adds, hpc]) (by simp [hpc]) (Move.of_step hstep₁)
  have hpc₁ : (s.setPc t (.loop t.anchor)).pc t = .loop t.anchor := by simp
  have hstep₂ := step_loop hpc₁ hacc.1
  rw [if_pos (show cfg.confThresh ≤ (cfg.best t.bid t.anchor).1 from hacc.2)] at hstep₂
  have hs₁ : (launch cfg count output).Reachable (s.setPc t (.loop t.anchor)) := .step hs trivial hstep₁
  refine ⟨_, .step hs₁ trivial hstep₂, ?_, by simp, rfl, fun u hu => by simp [hu]⟩
  exact hP _ _ hs₁ h₁ (by simp [State.Adds]) (by simp) (Move.of_step hstep₂)

/-- The `atomicAdd` of a thread, if there is room. -/
theorem step_atomicAdd {s : State cfg} {t : Thread cfg} {i : Nat} {maxScore : ℚ} {maxCls : Int}
    (hpc : s.pc t = .atomicAdd i maxScore maxCls) : step s t = some ((s.setCount t.bid (s.count t.bid + 1)).setPc t
      (if s.count t.bid < cfg.maxDet then .store i maxScore maxCls (s.count t.bid) 0 else .loop (cfg.next i))) := by
  rw [step, hpc]

section Raced

variable {s : State cfg} {bid : Fin cfg.gridDimX} {base : Int} {lost : Thread cfg → Prop} {idx : Thread cfg → Int}
  {order : List (Thread cfg)}

/-- After the resets a thread of the image can be the next to count its anchor. -/
theorem exists_next (hl : cfg.Launchable) (hcount : ∀ b, 0 ≤ count b) (hs : (launch cfg count output).Reachable s)
    (hr : Raced s bid base lost idx order) (hclear : ∀ u, s.pc u ≠ .reset) {t : Thread cfg} (hb : t.bid = bid)
    (hacc : cfg.Accepted t.bid t.anchor) (hpc : s.pc t = .sync) :
    ∃ s', (launch cfg count output).Reachable s' ∧ (∃ idx', Raced s' bid base lost idx' (order ++ [t])) ∧
      (∀ u, u ≠ t → s'.pc u = s.pc u) ∧ s'.pc t ≠ .reset ∧
      (order.length < cfg.maxDet → s'.pc t = .store t.anchor (cfg.best t.bid t.anchor).1 (cfg.best t.bid t.anchor).2
        order.length 0) := by
  obtain ⟨s₁, hs₁, ⟨idx₁, hr₁⟩, hpc₁, -, hother⟩ := exists_atomicAdd
    (P := fun s => ∃ idx, Raced s bid base lost idx order) hacc
    (fun s₁ s₂ hs₁ ⟨idx₁, hr₁⟩ hna _ hm => by
      have hsane := sane_of_reachable hl hcount hs₁
      exact hr₁.step_of_not_adds hm hsane.inv hsane.nonneg hna) hs ⟨idx, hr⟩ hpc fun u _ => hclear u
  have hstep := step_atomicAdd hpc₁
  have hsane := sane_of_reachable hl hcount hs₁
  refine ⟨_, .step hs₁ trivial hstep, ?_, fun u hu => ?_, ?_, fun hlt => ?_⟩
  · rcases hr₁.step (Move.of_step hstep) hsane.inv hsane.nonneg with ⟨-, hr₂⟩ | ⟨hna, -⟩
    · exact hr₂
    · exact absurd ⟨⟨_, _, _, hpc₁⟩, hb⟩ hna
  · simp [hu, hother u hu]
  · simp only [State.setPc_pc, Function.update_self]
    split <;> simp
  · have hcount' := hr₁.ordered.count_eq_length
    rw [← hb] at hcount'
    simp [hcount', hlt]

/-- So can any threads of the image, in any order. -/
theorem exists_append (hl : cfg.Launchable) (hcount : ∀ b, 0 ≤ count b) (hs : (launch cfg count output).Reachable s)
    (hr : Raced s bid base lost idx order) (hclear : ∀ u, s.pc u ≠ .reset) {ts : List (Thread cfg)} (hnodup : ts.Nodup)
    (hts : ∀ t ∈ ts, t.bid = bid ∧ cfg.Accepted t.bid t.anchor ∧ s.pc t = .sync) :
    ∃ s', (launch cfg count output).Reachable s' ∧ ∃ idx', Raced s' bid base lost idx' (order ++ ts) := by
  induction ts generalizing s idx order with
  | nil => exact ⟨s, hs, idx, by rwa [List.append_nil]⟩
  | cons t ts ih =>
    obtain ⟨hb, hacc, hpc⟩ := hts t List.mem_cons_self
    obtain ⟨s₁, hs₁, ⟨idx₁, hr₁⟩, hother, hne, -⟩ := exists_next hl hcount hs hr hclear hb hacc hpc
    have hclear₁ : ∀ u, s₁.pc u ≠ .reset := fun u => by
      by_cases hu : u = t
      · exact hu ▸ hne
      · rw [hother u hu]
        exact hclear u
    obtain ⟨hnot, hnodup'⟩ := List.nodup_cons.1 hnodup
    obtain ⟨s₂, hs₂, idx₂, hr₂⟩ := ih hs₁ hr₁ hclear₁ hnodup' fun u hu => by
      obtain ⟨hub, huacc, hupc⟩ := hts u (List.mem_cons_of_mem _ hu)
      exact ⟨hub, huacc, (hother u fun he => hnot (he ▸ hu)).trans hupc⟩
    exact ⟨s₂, hs₂, idx₂, by rwa [List.append_assoc] at hr₂⟩

end Raced

/-- The anchors of an image belong to threads of it. -/
theorem exists_threads (bid : Fin cfg.gridDimX) {anchors : List Nat} (h : ∀ i ∈ anchors, i < cfg.numPredictions) :
    ∃ ts : List (Thread cfg), ts.map Thread.anchor = anchors ∧ ∀ t ∈ ts, t.bid = bid := by
  induction anchors with
  | nil => exact ⟨[], rfl, nofun⟩
  | cons i anchors ih =>
    obtain ⟨t, hb, hi⟩ := exists_anchor bid (h i List.mem_cons_self)
    obtain ⟨ts, hmap, hts⟩ := ih fun j hj => h j (List.mem_cons_of_mem _ hj)
    refine ⟨t :: ts, by rw [List.map_cons, hi, hmap], fun u hu => ?_⟩
    rcases List.mem_cons.1 hu with rfl | hu
    · exact hb
    · exact hts u hu

/-- The anchors that are accepted can be left in any order. -/
theorem exists_compacted (hcount : ∀ b, 0 ≤ count b) (hl : cfg.Launchable) (output : Int → ℚ)
    (bid : Fin cfg.gridDimX) {anchors : List Nat}
    (hnodup : anchors.Nodup) (hmem : ∀ i, i ∈ anchors ↔ cfg.Accepted bid i) :
    ∃ s, (launch cfg count output).Reachable s ∧ s.Finished ∧ s.count bid = anchors.length ∧
      ∀ (j : Nat) i, anchors[j]? = some i → j < cfg.maxDet →
        (fun k => s.output (cfg.outAddr bid j k)) = cfg.record bid i := by
  obtain ⟨ts, hmap, hts⟩ := exists_threads bid fun i hi => ((hmem i).1 hi).1
  have hinit : ∀ t, (launch cfg count output).init.pc t = .reset := fun _ => if_pos hl
  obtain ⟨s₁, hs₁, -, -, hsync⟩ := exists_cleared (fun _ => True) (P := fun _ => True)
    (fun _ _ _ _ _ _ _ _ => trivial) (s := (launch cfg count output).init) .init trivial
  have hpc₁ : ∀ t, s₁.pc t = .sync := fun t => hsync t trivial (hinit t)
  have hnone : ∀ t : Thread cfg, ¬t.Counted s₁ := fun t hc => hc.pc_ne.2 (hpc₁ t)
  obtain ⟨lost, idx, order, hr⟩ := ((sane_of_reachable hl hcount hs₁).races bid).raced fun t _ _ => by simp [hpc₁]
  obtain rfl : order = [] := List.eq_nil_iff_forall_not_mem.2 fun t ht => hnone t ((hr.ordered.mem_iff t).1 ht).2.1
  obtain ⟨s₂, hs₂, idx₂, hr₂⟩ := exists_append hl hcount hs₁ hr (fun u => by simp [hpc₁])
    (show ts.Nodup from .of_map Thread.anchor (hmap ▸ hnodup)) fun t ht => by
      refine ⟨hts t ht, ?_, hpc₁ t⟩
      rw [hts t ht]
      exact (hmem _).1 (hmap ▸ List.mem_map_of_mem ht)
  rw [List.nil_append] at hr₂
  -- all accepted anchors have been counted
  obtain ⟨s, hs, ⟨idx', hr'⟩, hf⟩ := exists_finished (P := fun s => ∃ idx, Raced s bid (count bid) lost idx ts)
    (fun s₃ t s₄ hs₃ ⟨idx₃, hr₃⟩ hm => by
      have hsane := sane_of_reachable hl hcount hs₃
      rcases hr₃.step hm hsane.inv hsane.nonneg with ⟨⟨hadd, hb⟩, -⟩ | ⟨-, hr₄⟩
      · rcases hm.count_cases hsane.inv with ⟨hpc, -⟩ | ⟨-, -, hnot, hc⟩ | ⟨hna, -⟩
        · obtain ⟨_, _, _, hpc'⟩ := hadd
          rw [hpc] at hpc'
          cases hpc'
        · obtain ⟨u, hu, hanchor⟩ := List.mem_map.1 (hmap.symm ▸ (hmem t.anchor).2 (hb ▸ ⟨hc.lt, hc.accepts⟩))
          obtain rfl := Thread.anchor_inj ((hts u hu).trans hb.symm) hanchor
          exact absurd ((hr₃.ordered.mem_iff u).1 hu).2.1 hnot
        · exact absurd hadd hna
      · exact hr₄) hs₂ ⟨idx₂, hr₂⟩
  refine ⟨s, hs, hf, ?_, fun j i hj hlt => ?_⟩
  · rw [hr'.ordered.count_eq_length, ← hmap, List.length_map]
  · rw [← hmap, List.getElem?_map, Option.map_eq_some_iff] at hj
    obtain ⟨t, ht, rfl⟩ := hj
    funext k
    obtain ⟨u, rfl | ⟨hu, -⟩, hout⟩ := hr'.slots j t ht hlt k (by rw [hf t]; exact k.isLt)
    · exact hout
    · exact absurd (hr.ordered.lost_counted u hu) (hnone u)

/-! ### Mixed slots -/

/-- Where a thread with the index 0 is when it has stored `n` floats. -/
def storing (t : Thread cfg) (n : Nat) : Pc :=
  if h : n < 6 then .store t.anchor (cfg.best t.bid t.anchor).1 (cfg.best t.bid t.anchor).2 0 ⟨n, h⟩
  else .loop (cfg.next t.anchor)

theorem step_storing {s : State cfg} {t : Thread cfg} {k : Fin 6} (hpc : s.pc t = storing t k) :
    step s t = some ((s.setOutput (cfg.outAddr t.bid 0 k) (cfg.record t.bid t.anchor k)).setPc t
      (storing t (k.val + 1))) := by
  rw [storing, dif_pos k.isLt] at hpc
  rw [step, hpc]
  rfl

/-- A state in which the threads `e`, lost before the reset, and `l`, first after it, have each stored `n` floats of the
slot 0, and the store of `l` has come last in the floats of `pick`. -/
structure Mixing (s : State cfg) (bid : Fin cfg.gridDimX) (base : Int) (e l : Thread cfg) (pick : Fin 6 → Bool)
    (n : Nat) : Prop where
  raced : ∃ idx order, Raced s bid base (· = e) idx (l :: order)
  pc_e : s.pc e = storing e n
  pc_l : s.pc l = storing l n
  out : ∀ k : Fin 6, k.val < n →
    s.output (cfg.outAddr bid 0 k) = if pick k then cfg.record bid l.anchor k else cfg.record bid e.anchor k

/-- Two threads store the same float, one after the other. -/
theorem exists_two_stores {s : State cfg} (hs : (launch cfg count output).Reachable s) {P : State cfg → Prop}
    (hP : ∀ s t s', (launch cfg count output).Reachable s → P s → ¬s.Adds t → Move s t s' → P s') (h : P s)
    {t u : Thread cfg} (htu : t ≠ u) (hb : t.bid = u.bid) {k : Fin 6} (ht : s.pc t = storing t k)
    (hu : s.pc u = storing u k) :
    ∃ s', (launch cfg count output).Reachable s' ∧ P s' ∧ s'.pc t = storing t (k.val + 1) ∧
      s'.pc u = storing u (k.val + 1) ∧
      s'.output = Function.update s.output (cfg.outAddr u.bid 0 k) (cfg.record u.bid u.anchor k) := by
  have hna : ∀ {s : State cfg} {v : Thread cfg}, s.pc v = storing v k → ¬s.Adds v := by
    rintro s v hv ⟨_, _, _, hadd⟩
    rw [hv, storing, dif_pos k.isLt] at hadd
    cases hadd
  have hstep₁ := step_storing ht
  have hs₁ : (launch cfg count output).Reachable _ := .step hs trivial hstep₁
  have hu₁ : ((s.setOutput (cfg.outAddr t.bid 0 k) (cfg.record t.bid t.anchor k)).setPc t
      (storing t (k.val + 1))).pc u = storing u k := by
    simp [Ne.symm htu, hu]
  have hstep₂ := step_storing hu₁
  have hP₁ := hP _ _ _ hs h (hna ht) (Move.of_step hstep₁)
  refine ⟨_, .step hs₁ trivial hstep₂, hP _ _ _ hs₁ hP₁ (hna hu₁) (Move.of_step hstep₂), by simp [htu], by simp, ?_⟩
  simp [hb]

theorem Mixing.next (hl : cfg.Launchable) (hcount : ∀ b, 0 ≤ count b) {s : State cfg} {bid : Fin cfg.gridDimX}
    {base : Int} {e l : Thread cfg} {pick : Fin 6 → Bool} {k : Fin 6} (hmax : 0 < cfg.maxDet)
    (hs : (launch cfg count output).Reachable s) (hne : e ≠ l) (heb : e.bid = bid) (hlb : l.bid = bid)
    (h : Mixing s bid base e l pick k) :
    ∃ s', (launch cfg count output).Reachable s' ∧ Mixing s' bid base e l pick (k.val + 1) := by
  have hkeep : ∀ s t s', (launch cfg count output).Reachable s →
      (∃ idx order, Raced s bid base (· = e) idx (l :: order)) → ¬s.Adds t → Move s t s' →
      ∃ idx order, Raced s' bid base (· = e) idx (l :: order) := by
    rintro s t s' hs ⟨idx, order, hr⟩ hna hm
    have hsane := sane_of_reachable hl hcount hs
    obtain ⟨idx', hr'⟩ := hr.step_of_not_adds hm hsane.inv hsane.nonneg hna
    exact ⟨idx', order, hr'⟩
  -- the other floats stay what they are
  have hold : ∀ (k' : Fin 6) (x : ℚ), k'.val < k.val → Function.update s.output (cfg.outAddr bid 0 k) x
      (cfg.outAddr bid 0 k') = s.output (cfg.outAddr bid 0 k') := by
    intro k' x hlt
    refine Function.update_of_ne (fun ha => ?_) _ _
    have hk := (Config.outAddr_inj hmax hmax ha).2.2
    exact absurd (congrArg Fin.val hk) hlt.ne
  by_cases hpick : pick k = true
  · obtain ⟨s', hs', hr', hpe, hpl, hout⟩ := exists_two_stores hs hkeep h.raced hne (heb.trans hlb.symm) h.pc_e h.pc_l
    refine ⟨s', hs', hr', hpe, hpl, fun k' hk' => ?_⟩
    rw [hout, hlb]
    rcases Nat.lt_succ_iff_lt_or_eq.1 hk' with hlt | heq
    · rw [hold k' _ hlt]
      exact h.out k' hlt
    · rw [Fin.ext heq, Function.update_self, if_pos hpick]
  · obtain ⟨s', hs', hr', hpl, hpe, hout⟩ := exists_two_stores hs hkeep h.raced hne.symm (hlb.trans heb.symm) h.pc_l
      h.pc_e
    refine ⟨s', hs', hr', hpe, hpl, fun k' hk' => ?_⟩
    rw [hout, heb]
    rcases Nat.lt_succ_iff_lt_or_eq.1 hk' with hlt | heq
    · rw [hold k' _ hlt]
      exact h.out k' hlt
    · rw [Fin.ext heq, Function.update_self, if_neg hpick]

theorem Mixing.all (hl : cfg.Launchable) (hcount : ∀ b, 0 ≤ count b) {s : State cfg} {bid : Fin cfg.gridDimX}
    {base : Int} {e l : Thread cfg} {pick : Fin 6 → Bool} (hmax : 0 < cfg.maxDet)
    (hs : (launch cfg count output).Reachable s) (hne : e ≠ l) (heb : e.bid = bid) (hlb : l.bid = bid)
    (h : Mixing s bid base e l pick 0) :
    ∃ s', (launch cfg count output).Reachable s' ∧ Mixing s' bid base e l pick 6 := by
  have hall : ∀ n ≤ 6, ∃ s', (launch cfg count output).Reachable s' ∧ Mixing s' bid base e l pick n := by
    intro n hn
    induction n with
    | zero => exact ⟨s, hs, h⟩
    | succ n ih =>
      obtain ⟨s₁, hs₁, h₁⟩ := ih (by omega)
      exact h₁.next (k := ⟨n, by omega⟩) hl hcount hmax hs₁ hne heb hlb
  exact hall 6 le_rfl

/-- The thread stores nothing more. -/
def Pc.Done (n : Nat) (pc : Pc) : Prop := pc = .exit ∨ ∃ i, pc = .loop i ∧ n ≤ i

theorem Pc.Done.step {s s' : State cfg} {t u : Thread cfg} (h : (s.pc u).Done cfg.numPredictions) (hm : Move s t s') :
    (s'.pc u).Done cfg.numPredictions := by
  by_cases hu : u = t
  · subst hu
    rcases h with h | ⟨i, h, hi⟩
    · cases hm with
      | reset h0 | sync h0 | accept h0 | skip h0 | exit h0 | add h0 | full h0 | store h0 | last h0 =>
        rw [h] at h0; cases h0
    · cases hm with
      | exit => exact .inl (by simp)
      | accept h0 hlt | skip h0 hlt =>
        rw [h] at h0
        cases h0
        omega
      | reset h0 | sync h0 | add h0 | full h0 | store h0 | last h0 => rw [h] at h0; cases h0
  · rw [hm.pc_of_ne hu]
    exact h

/-- What has been mixed in the slot 0 stays there. -/
theorem Mixing.finish (hl : cfg.Launchable) (hcount : ∀ b, 0 ≤ count b) {s : State cfg} {bid : Fin cfg.gridDimX}
    {base : Int} {e l : Thread cfg} {pick : Fin 6 → Bool} (hmax : 0 < cfg.maxDet)
    (hs : (launch cfg count output).Reachable s) (h : Mixing s bid base e l pick 6) :
    ∃ s', (launch cfg count output).Reachable s' ∧ s'.Finished ∧ 0 < s'.count bid ∧
      ∀ k, s'.output (cfg.outAddr bid 0 k) =
        if pick k then cfg.record bid l.anchor k else cfg.record bid e.anchor k := by
  have hdone : ∀ t : Thread cfg, s.pc t = storing t 6 → (s.pc t).Done cfg.numPredictions := fun t ht =>
    .inr ⟨cfg.next t.anchor, ht, cfg.le_next _⟩
  obtain ⟨s', hs', ⟨⟨idx, order, hr⟩, -, -, hout⟩, hf⟩ := exists_finished
    (P := fun s' => (∃ idx order, Raced s' bid base (· = e) idx (l :: order)) ∧
      (s'.pc e).Done cfg.numPredictions ∧ (s'.pc l).Done cfg.numPredictions ∧
      ∀ k, s'.output (cfg.outAddr bid 0 k) = s.output (cfg.outAddr bid 0 k))
    (fun s₁ t s₂ hs₁ ⟨⟨idx, order, hr⟩, he, hl', hout⟩ hm => by
      have hsane := sane_of_reachable hl hcount hs₁
      refine ⟨?_, he.step hm, hl'.step hm, fun k => ?_⟩
      · rcases hr.step hm hsane.inv hsane.nonneg with ⟨-, idx', hr'⟩ | ⟨-, idx', hr'⟩
        · exact ⟨idx', _, hr'⟩
        · exact ⟨idx', _, hr'⟩
      · -- only the two threads can store to the slot
        have hhit : ∀ {i maxScore maxCls jt kt}, s₁.pc t = .store i maxScore maxCls jt kt → ∀ x,
            Function.update s₁.output (cfg.outAddr t.bid jt kt) x (cfg.outAddr bid 0 k) =
              s.output (cfg.outAddr bid 0 k) := by
          intro i maxScore maxCls jt kt hpc x
          rw [← hout k]
          refine Function.update_of_ne (fun ha => ?_) _ _
          obtain ⟨-, hv, -⟩ := hr.slot_of_hit hsane.inv hsane.nonneg hpc (j := 0) rfl hmax ha.symm
          rcases hv with rfl | ⟨rfl, -⟩
          · rcases hl' with hl' | ⟨_, hl', -⟩ <;> rw [hpc] at hl' <;> cases hl'
          · rcases he with he | ⟨_, he, -⟩ <;> rw [hpc] at he <;> cases he
        cases hm with
        | store hpc | last hpc => exact hhit hpc _
        | reset => split <;> exact hout k
        | sync | accept | skip | exit | add | full => exact hout k) hs
    ⟨h.raced, hdone e h.pc_e, hdone l h.pc_l, fun _ => rfl⟩
  refine ⟨s', hs', hf, ?_, fun k => ?_⟩
  · rw [hr.ordered.count_eq_length, List.length_cons]
    omega
  · rw [hout k]
    exact h.out k k.isLt

/-- A thread that alone has counted its anchor before the reset is the first of its image, on the count that the launch
began with. -/
theorem exists_early_of_only (hl : cfg.Launchable) (hcount : ∀ b, 0 ≤ count b) {s : State cfg} {t : Thread cfg}
    (hs : (launch cfg count output).Reachable s) (hc : t.Counted s) (hreset : s.pc (leader hl t.bid.isLt) = .reset)
    (hrest : ∀ u, u ≠ t → s.pc u = .reset ∨ s.pc u = .sync) : ∃ idx, Early s t.bid (count t.bid) idx [t] := by
  rcases (sane_of_reachable hl hcount hs).races t.bid with ⟨-, idx, order, he⟩ | ⟨lost, idx, order, hr⟩
  · have hmem : ∀ u, u ∈ order ↔ u = t := by
      intro u
      rw [he.listed.mem_iff]
      constructor
      · rintro ⟨-, hcu, -⟩
        by_contra hu
        have hpast := hcu.past
        rcases hrest u hu with h | h <;> rw [h] at hpast <;> exact hpast
      · rintro rfl
        exact ⟨rfl, hc, not_false⟩
    have horder : order = [t] := List.perm_singleton.1
      ((List.perm_ext_iff_of_nodup he.listed.nodup (List.nodup_singleton t)).2 fun u => by simp [hmem])
    exact ⟨idx, horder ▸ he⟩
  · exact absurd hreset (hr.ordered.reset (leader hl t.bid.isLt) rfl ⟨rfl, rfl⟩)

/-- A thread of another block can be the only one of its image to have counted its anchor, and be about to store, while
the count has not been reset. -/
theorem exists_early (hl : cfg.Launchable) (hcount : ∀ b, 0 ≤ count b) (output : Int → ℚ) {t : Thread cfg}
    (hzero : count t.bid = 0) (hmax : 0 < cfg.maxDet) (hacc : cfg.Accepted t.bid t.anchor) (hge : blockDim ≤ t.anchor) :
    ∃ s, (launch cfg count output).Reachable s ∧ (∃ idx, Early s t.bid 0 idx [t]) ∧ s.pc t = storing t 0 ∧
      s.pc (leader hl t.bid.isLt) = .reset ∧ ∀ u, u ≠ t → s.pc u = .reset ∨ s.pc u = .sync := by
  have hinit : ∀ u, (launch cfg count output).init.pc u = .reset := fun _ => if_pos hl
  have hy : t.blockY.val ≠ 0 := by
    simp only [Thread.anchor, blockDim] at hge
    have := t.tid.isLt
    simp only [blockDim] at this
    omega
  have hblock : ¬t.SameBlock (leader hl t.bid.isLt) := fun h => hy (congrArg Fin.val h.2).symm
  have hleader : leader hl t.bid.isLt ≠ t := fun he => hblock (he.symm ▸ ⟨rfl, rfl⟩)
  -- the threads of its block get to the barrier
  obtain ⟨s₁, hs₁, hc₁, hkeep₁, hsync₁⟩ := exists_cleared t.SameBlock (P := fun s => s.count = count)
    (fun s u s' _ hc hu hpc hm => by
      rw [hm.of_reset hpc, if_neg fun hr => hy (hu.2 ▸ hr.1)]
      exact hc)
    (s := (launch cfg count output).init) .init rfl
  have hpc₁ : ∀ u, t.SameBlock u → s₁.pc u = .sync := fun u hu => hsync₁ u hu (hinit u)
  have hreset₁ : ∀ u, ¬t.SameBlock u → s₁.pc u = .reset := fun u hu => by
    rw [hkeep₁ u fun h => hu h.1]
    exact hinit u
  -- and it goes on
  obtain ⟨s₂, hs₂, -, hpc₂, hc₂, hother₂⟩ := exists_atomicAdd (P := fun _ => True) hacc (fun _ _ _ _ _ _ _ => trivial)
    hs₁ trivial (hpc₁ t ⟨rfl, rfl⟩) fun u hu => by simp [hpc₁ u hu]
  have hcount₂ : s₂.count t.bid = 0 := by rw [hc₂, hc₁, hzero]
  have hstep := step_atomicAdd hpc₂
  rw [if_pos (by rw [hcount₂]; exact_mod_cast hmax), hcount₂] at hstep
  have hs₃ : (launch cfg count output).Reachable _ := .step hs₂ trivial hstep
  obtain ⟨s₃, hs₃, hpc₃, hother₃⟩ : ∃ s₃, (launch cfg count output).Reachable s₃ ∧ s₃.pc t = storing t 0 ∧
      ∀ u, u ≠ t → s₃.pc u = s₁.pc u :=
    ⟨_, hs₃, by simp [storing], fun u hu => by simp [hu, hother₂ u hu]⟩
  have hreset₃ : s₃.pc (leader hl t.bid.isLt) = .reset := (hother₃ _ hleader).trans (hreset₁ _ hblock)
  have hrest₃ : ∀ u, u ≠ t → s₃.pc u = .reset ∨ s₃.pc u = .sync := by
    intro u hu
    rw [hother₃ u hu]
    by_cases hb : t.SameBlock u
    · exact .inr (hpc₁ u hb)
    · exact .inl (hreset₁ u hb)
  have hcounted : t.Counted s₃ := ⟨hacc.1, hacc.2, by simp [hpc₃, storing, Pc.Past]⟩
  exact ⟨s₃, hs₃, hzero ▸ exists_early_of_only hl hcount hs₃ hcounted hreset₃ hrest₃, hpc₃, hreset₃, hrest₃⟩

/-- Its anchor is then lost by the reset, and all other threads can get to the barrier before it stores. -/
theorem exists_lost_early (hl : cfg.Launchable) (hcount : ∀ b, 0 ≤ count b) (output : Int → ℚ) {t : Thread cfg}
    (hzero : count t.bid = 0) (hmax : 0 < cfg.maxDet) (hacc : cfg.Accepted t.bid t.anchor) (hge : blockDim ≤ t.anchor) :
    ∃ s, (launch cfg count output).Reachable s ∧ (∃ idx, Raced s t.bid 0 (· = t) idx []) ∧ s.pc t = storing t 0 ∧
      ∀ u, u ≠ t → s.pc u = .sync := by
  obtain ⟨s₁, hs₁, ⟨idx, hearly⟩, hpc₁, hlead₁, hrest₁⟩ := exists_early hl hcount output hzero hmax hacc hge
  -- the reset comes next
  obtain ⟨s₂, hs₂⟩ : ∃ s₂, step s₁ (leader hl t.bid.isLt) = some s₂ := ⟨_, by rw [step, hlead₁]⟩
  have hm₂ := Move.of_step hs₂
  have hr₂ := hearly.reset hm₂ (sane_of_reachable hl hcount hs₁).inv rfl ⟨rfl, rfl⟩ hlead₁
  simp only [List.mem_singleton] at hr₂
  have hleader : t ≠ leader hl t.bid.isLt := by
    intro h
    rw [← h, hpc₁] at hlead₁
    cases hlead₁
  have hpc₂ : s₂.pc t = storing t 0 := (hm₂.pc_of_ne hleader).trans hpc₁
  have hrest₂ : ∀ u, u ≠ t → s₂.pc u = .reset ∨ s₂.pc u = .sync := by
    intro u hu
    by_cases hul : u = leader hl t.bid.isLt
    · exact .inr (hul ▸ hm₂.pc_of_reset hlead₁)
    · rw [hm₂.pc_of_ne hul]
      exact hrest₁ u hu
  -- then the others get to the barrier
  obtain ⟨s₃, hs₃, hr₃, hkeep₃, hsync₃⟩ := exists_cleared (fun _ => True)
    (P := fun s => ∃ idx, Raced s t.bid 0 (· = t) idx [])
    (fun s u s' hs hraced _ hpc hm => by
      obtain ⟨idx, hr⟩ := hraced
      have hsane := sane_of_reachable hl hcount hs
      exact hr.step_of_not_adds hm hsane.inv hsane.nonneg (by simp [State.Adds, hpc]))
    (.step hs₁ trivial hs₂) ⟨idx, hr₂⟩
  refine ⟨s₃, hs₃, hr₃, (hkeep₃ t (by simp [hpc₂, storing])).trans hpc₂, fun u hu => ?_⟩
  rcases hrest₂ u hu with h | h
  · exact hsync₃ u trivial h
  · have hnot : ¬(True ∧ s₂.pc u = .reset) := by simp [h]
    rw [hkeep₃ u hnot, h]

/-- An anchor of another block and any other one can share the first slot, float by float. -/
theorem exists_mix (hcount : ∀ b, 0 ≤ count b) (hl : cfg.Launchable) (output : Int → ℚ) (bid : Fin cfg.gridDimX)
    (hzero : count bid = 0)
    (hmax : 0 < cfg.maxDet) {e i : Nat} (he : cfg.Accepted bid e) (hge : blockDim ≤ e) (hi : cfg.Accepted bid i)
    (hne : e ≠ i) (pick : Fin 6 → Bool) :
    ∃ s, (launch cfg count output).Reachable s ∧ s.Finished ∧ 0 < s.count bid ∧
      ∀ k, s.output (cfg.outAddr bid 0 k) = if pick k then cfg.record bid i k else cfg.record bid e k := by
  obtain ⟨t, rfl, rfl⟩ := exists_anchor bid he.1
  obtain ⟨l, hlb, rfl⟩ := exists_anchor t.bid hi.1
  have hlt : l ≠ t := by
    rintro rfl
    exact hne rfl
  obtain ⟨s₁, hs₁, ⟨idx₁, hr₁⟩, hpc₁, hrest₁⟩ := exists_lost_early hl hcount output hzero hmax he hge
  have hclear₁ : ∀ u, s₁.pc u ≠ .reset := by
    intro u
    by_cases hu : u = t
    · rw [hu, hpc₁]
      simp [storing]
    · simp [hrest₁ u hu]
  obtain ⟨s₂, hs₂, ⟨idx₂, hr₂⟩, hother₂, -, hpc₂⟩ := exists_next hl hcount hs₁ hr₁ hclear₁ hlb (hlb ▸ hi)
    (hrest₁ l hlt)
  have hmixing : Mixing s₂ t.bid 0 t l pick 0 :=
    ⟨⟨idx₂, [], hr₂⟩, (hother₂ t hlt.symm).trans hpc₁, hpc₂ hmax, fun k hk => absurd hk (Nat.not_lt_zero _)⟩
  obtain ⟨s₃, hs₃, hmixing₃⟩ := hmixing.all hl hcount hmax hs₂ hlt.symm rfl hlb
  exact hmixing₃.finish hl hcount hmax hs₃

/-! ### No anchor -/

/-- If all accepted anchors are of other blocks, they can all be counted before the reset. -/
theorem exists_count_zero (hl : cfg.Launchable) (count : Nat → Int) (output : Int → ℚ) (bid : Fin cfg.gridDimX)
    (h : ∀ i, cfg.Accepted bid i → blockDim ≤ i) :
    ∃ s, (launch cfg count output).Reachable s ∧ s.Finished ∧ s.count bid = 0 := by
  have hinit : (launch cfg count output).init.pc (leader hl bid.isLt) = .reset := if_pos hl
  obtain ⟨s₁, hs₁, ⟨hi₁, hlead₁⟩, hall⟩ := exists_state
    (fun s => ∀ t : Thread cfg, t.bid = bid → cfg.Accepted bid t.anchor → t.Counted s)
    (P := fun s => Inv s ∧ s.pc (leader hl bid.isLt) = .reset)
    (fun s hs ⟨hi, hlead⟩ hf => by
      push Not at hf
      obtain ⟨t, hb, hacc, hc⟩ := hf
      have hexit : s.pc t ≠ .exit := fun he => hc ⟨hacc.1, hb ▸ hacc.2, by rw [he]; trivial⟩
      obtain ⟨v, s', hstep, hv⟩ := exists_step hexit
      have hm := Move.of_step hstep
      have hy : t.blockY.val ≠ 0 := by
        have hge := h _ hacc
        have := t.tid.isLt
        simp only [Thread.anchor, blockDim] at hge this
        omega
      have hvl : leader hl bid.isLt ≠ v := by
        rintro rfl
        rcases hv with hv | ⟨hv, -⟩
        · exact hy (congrArg (fun u : Thread cfg => u.blockY.val) hv).symm
        · exact hy (congrArg Fin.val hv.2).symm
      exact ⟨v, s', hstep, hi.step hm, (hm.pc_of_ne hvl).trans hlead⟩)
    (.init (M := launch cfg count output)) ⟨.init cfg count output, hinit⟩
  obtain ⟨s, hs, hf, order, ho⟩ := exists_lost hs₁ hi₁ (u := leader hl bid.isLt) ⟨rfl, rfl⟩ hlead₁
  refine ⟨s, hs, hf, ?_⟩
  have hnone : order.map Thread.anchor = [] := by
    refine List.eq_nil_iff_forall_not_mem.2 fun i hi => ?_
    obtain ⟨hacc, hlost⟩ := ((ho.finished hf).2 i).1 hi
    obtain ⟨t, hb, rfl⟩ := exists_anchor bid hacc.1
    exact hlost t hb rfl ⟨hb, hall t hb hacc⟩
  have hcount : s.count bid = order.length := ho.count_eq_length
  rw [hcount, List.map_eq_nil_iff.1 hnone]
  rfl

end OnnxInference.GpuFilter
