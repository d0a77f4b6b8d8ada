import OnnxInference.Device.GpuFilter

/-!
# The runs of the filter

A thread handles one anchor at most, since the grid covers all anchors.  If only the threads of the block that resets
the count of an image pass their anchor, the barrier of that block puts the reset before every `atomicAdd`; the
anchors are then counted in some order, and the slot of an anchor is its position.  A thread of another block can add
before the reset, and its anchor is lost.
-/

namespace OnnxInference.GpuFilter

open Transition

variable {cfg : Config}

/-! ### Steps -/

/-- The test of the kernel: the score it has found reaches the threshold. -/
def Config.Accepts (cfg : Config) (bid i : Nat) : Prop := cfg.confThresh ≤ (cfg.best bid i).1

/-- The steps of a thread. -/
inductive Move (s : State cfg) (t : Thread cfg) : State cfg → Prop
  | reset (h : s.pc t = .reset) : Move s t ((if t.Resets then s.setCount t.bid 0 else s).setPc t .sync)
  | sync (h : s.pc t = .sync) (hb : ∀ u, t.SameBlock u → s.pc u ≠ .reset) : Move s t (s.setPc t (.loop t.anchor))
  | accept {i : Nat} (h : s.pc t = .loop i) (hi : i < cfg.numPredictions) (ha : cfg.Accepts t.bid i) :
      Move s t (s.setPc t (.atomicAdd i (cfg.best t.bid i).1 (cfg.best t.bid i).2))
  | skip {i : Nat} (h : s.pc t = .loop i) (hi : i < cfg.numPredictions) (ha : ¬cfg.Accepts t.bid i) :
      Move s t (s.setPc t (.loop (cfg.next i)))
  | exit {i : Nat} (h : s.pc t = .loop i) (hi : cfg.numPredictions ≤ i) : Move s t (s.setPc t .exit)
  | add {i : Nat} {maxScore : ℚ} {maxCls : Int} (h : s.pc t = .atomicAdd i maxScore maxCls)
      (hlt : s.count t.bid < cfg.maxDet) :
      Move s t ((s.setCount t.bid (s.count t.bid + 1)).setPc t (.store i maxScore maxCls (s.count t.bid) 0))
  | full {i : Nat} {maxScore : ℚ} {maxCls : Int} (h : s.pc t = .atomicAdd i maxScore maxCls)
      (hle : cfg.maxDet ≤ s.count t.bid) :
      Move s t ((s.setCount t.bid (s.count t.bid + 1)).setPc t (.loop (cfg.next i)))
  | store {i : Nat} {maxScore : ℚ} {maxCls idx : Int} {k : Fin 6} (h : s.pc t = .store i maxScore maxCls idx k)
      (hk : k.val + 1 < 6) :
      Move s t ((s.setOutput (cfg.outAddr t.bid idx k) (cfg.outValue t.bid i maxScore maxCls k)).setPc t
        (.store i maxScore maxCls idx ⟨k.val + 1, hk⟩))
  | last {i : Nat} {maxScore : ℚ} {maxCls idx : Int} {k : Fin 6} (h : s.pc t = .store i maxScore maxCls idx k)
      (hk : k.val = 5) :
      Move s t ((s.setOutput (cfg.outAddr t.bid idx k) (cfg.outValue t.bid i maxScore maxCls k)).setPc t
        (.loop (cfg.next i)))

theorem Move.of_step {s s' : State cfg} {t : Thread cfg} (h : step s t = some s') : Move s t s' := by
  unfold step at h
  split at h
  · cases h
    exact .reset ‹_›
  · split at h <;> cases h
    exact .sync ‹_› ‹_›
  · rename_i i _
    split at h
    · rename_i hi
      by_cases ha : cfg.confThresh ≤ (cfg.best t.bid i).1
      · simp only [ha, if_true, Option.some.injEq] at h
        exact h ▸ .accept ‹_› hi ha
      · simp only [ha, if_false, Option.some.injEq] at h
        exact h ▸ .skip ‹_› hi ha
    · cases h
      exact .exit ‹_› (not_lt.1 ‹_›)
  · by_cases hlt : s.count t.bid < cfg.maxDet
    · simp only [hlt, if_true, Option.some.injEq] at h
      exact h ▸ .add ‹_› hlt
    · simp only [hlt, if_false, Option.some.injEq] at h
      exact h ▸ .full ‹_› (not_lt.1 hlt)
  · rename_i k hpc
    by_cases hk : k.val + 1 < 6
    · simp only [hk, dif_pos, Option.some.injEq] at h
      exact h ▸ .store hpc hk
    · simp only [hk, dif_neg, not_false_eq_true, Option.some.injEq] at h
      exact h ▸ .last hpc (by omega)
  · cases h

theorem Move.of_reset {s s' : State cfg} {t : Thread cfg} (hm : Move s t s') (hpc : s.pc t = .reset) :
    s' = (if t.Resets then s.setCount t.bid 0 else s).setPc t .sync := by
  cases hm with
  | reset => rfl
  | sync h | accept h | skip h | exit h | add h | full h | store h | last h =>
    rw [hpc] at h
    cases h

@[simp] theorem State.setPc_pc (s : State cfg) (t : Thread cfg) (pc : Pc) :
    (s.setPc t pc).pc = Function.update s.pc t pc := rfl

@[simp] theorem State.setPc_count (s : State cfg) (t : Thread cfg) (pc : Pc) : (s.setPc t pc).count = s.count := rfl

@[simp] theorem State.setPc_output (s : State cfg) (t : Thread cfg) (pc : Pc) :
    (s.setPc t pc).output = s.output := rfl

@[simp] theorem State.setCount_pc (s : State cfg) (b : Nat) (n : Int) : (s.setCount b n).pc = s.pc := rfl

@[simp] theorem State.setCount_count (s : State cfg) (b : Nat) (n : Int) :
    (s.setCount b n).count = Function.update s.count b n := rfl

@[simp] theorem State.setCount_output (s : State cfg) (b : Nat) (n : Int) : (s.setCount b n).output = s.output := rfl

@[simp] theorem State.setOutput_pc (s : State cfg) (a : Int) (x : ℚ) : (s.setOutput a x).pc = s.pc := rfl

@[simp] theorem State.setOutput_count (s : State cfg) (a : Int) (x : ℚ) : (s.setOutput a x).count = s.count := rfl

@[simp] theorem State.setOutput_output (s : State cfg) (a : Int) (x : ℚ) :
    (s.setOutput a x).output = Function.update s.output a x := rfl

theorem Move.pc_of_reset {s s' : State cfg} {t : Thread cfg} (hm : Move s t s') (hpc : s.pc t = .reset) :
    s'.pc t = .sync := by
  rw [hm.of_reset hpc, State.setPc_pc, Function.update_self]

/-- A step of a thread leaves the others where they are. -/
theorem Move.pc_of_ne {s s' : State cfg} {t u : Thread cfg} (h : Move s t s') (hu : u ≠ t) : s'.pc u = s.pc u := by
  cases h with
  | reset => split <;> simp [hu]
  | _ => simp [hu]

/-! ### The grid -/

/-- One round of the grid-stride loop passes all anchors. -/
theorem Config.le_next (cfg : Config) (i : Nat) : cfg.numPredictions ≤ cfg.next i := by
  simp only [next, gridDimY, blockDim]
  omega

/-- A grid that is launched has fewer than 2^24 anchors. -/
theorem Config.Launchable.numPredictions_lt (h : cfg.Launchable) : cfg.numPredictions < 2 ^ 24 := by
  obtain ⟨-, -, hy⟩ := h
  simp only [gridDimY, blockDim] at hy
  omega

/-- The threads of an image have different anchors. -/
theorem Thread.anchor_inj {t u : Thread cfg} (hb : t.bid = u.bid) (h : t.anchor = u.anchor) : t = u := by
  obtain ⟨b, y, x⟩ := t
  obtain ⟨b', y', x'⟩ := u
  cases hb
  have hx := x.isLt
  have hx' := x'.isLt
  simp only [anchor, blockDim] at h hx hx'
  have hy : y = y' := Fin.ext (by omega)
  cases hy
  have : x = x' := Fin.ext (by omega)
  cases this
  rfl

/-- Every anchor has a thread. -/
theorem exists_anchor (b : Fin cfg.gridDimX) {i : Nat} (hi : i < cfg.numPredictions) :
    ∃ t : Thread cfg, t.bid = b ∧ t.anchor = i := by
  have hy : i / blockDim < cfg.gridDimY := by
    simp only [blockDim, Config.gridDimY]
    omega
  refine ⟨⟨b, ⟨i / blockDim, hy⟩, ⟨i % blockDim, Nat.mod_lt _ (by decide)⟩⟩, rfl, ?_⟩
  show i % blockDim + i / blockDim * blockDim = i
  rw [Nat.mul_comm]
  exact Nat.mod_add_div i blockDim

theorem Thread.Resets.unique {t u : Thread cfg} (ht : t.Resets) (hu : u.Resets) (hb : t.bid = u.bid) : t = u := by
  refine Thread.anchor_inj hb ?_
  simp [anchor, ht.1, ht.2, hu.1, hu.2]

/-! ### Termination -/

/-- The most steps a thread still makes. -/
def Pc.rank (n : Nat) : Pc → Nat
  | .reset => 12
  | .sync => 11
  | .loop i => if i < n then 10 else 1
  | .atomicAdd _ _ _ => 9
  | .store _ _ _ _ k => 8 - k.val
  | .exit => 0

def State.rank (s : State cfg) : Nat := ∑ t, (s.pc t).rank cfg.numPredictions

theorem Pc.rank_le (n : Nat) (pc : Pc) : pc.rank n ≤ 12 := by
  cases pc <;> simp only [rank] <;> (try split) <;> omega

theorem Move.pc_rank_lt {s s' : State cfg} {t : Thread cfg} (hm : Move s t s') :
    (s'.pc t).rank cfg.numPredictions < (s.pc t).rank cfg.numPredictions := by
  have hnext : ∀ i, (Pc.loop (cfg.next i)).rank cfg.numPredictions = 1 := fun i =>
    if_neg (not_lt.2 (cfg.le_next i))
  have hloop : ∀ i, (Pc.loop i).rank cfg.numPredictions ≤ 10 := fun i => by
    simp only [Pc.rank]
    split <;> omega
  have hidle : ∀ {pc pc' : Pc}, s.pc t = pc → s'.pc t = pc' →
      pc'.rank cfg.numPredictions < pc.rank cfg.numPredictions →
      (s'.pc t).rank cfg.numPredictions < (s.pc t).rank cfg.numPredictions := by
    rintro pc pc' rfl rfl hlt
    exact hlt
  cases hm with
  | reset h => exact hidle h (Function.update_self ..) (by simp [Pc.rank])
  | sync h => exact hidle h (Function.update_self ..) ((hloop _).trans_lt (by simp [Pc.rank]))
  | accept h hi => exact hidle h (Function.update_self ..) (by simp [Pc.rank, hi])
  | skip h hi => exact hidle h (Function.update_self ..) (by rw [hnext]; simp [Pc.rank, hi])
  | exit h => exact hidle h (Function.update_self ..) (by simp only [Pc.rank]; split <;> omega)
  | add h => exact hidle h (Function.update_self ..) (by simp [Pc.rank])
  | full h => exact hidle h (Function.update_self ..) (by rw [hnext]; simp [Pc.rank])
  | store h hk => exact hidle h (Function.update_self ..) (by simp only [Pc.rank]; omega)
  | last h hk => exact hidle h (Function.update_self ..) (by rw [hnext]; simp only [Pc.rank]; omega)

theorem Move.rank_lt {s s' : State cfg} {t : Thread cfg} (hm : Move s t s') : s'.rank < s.rank := by
  refine Finset.sum_lt_sum (fun u _ => ?_) ⟨t, Finset.mem_univ t, hm.pc_rank_lt⟩
  by_cases hu : u = t
  · exact hu ▸ hm.pc_rank_lt.le
  · rw [hm.pc_of_ne hu]

theorem State.rank_le (s : State cfg) : s.rank ≤ Fintype.card (Thread cfg) * 12 := by
  refine (Finset.sum_le_card_nsmul _ _ 12 fun t _ => Pc.rank_le _ _).trans ?_
  rw [smul_eq_mul, Finset.card_univ]

/-- A thread waits at the barrier only, for one of its block. -/
theorem exists_step {s : State cfg} {t : Thread cfg} (h : s.pc t ≠ .exit) :
    ∃ u s', step s u = some s' ∧ (u = t ∨ t.SameBlock u ∧ s.pc u = .reset) := by
  by_cases hb : s.pc t = .sync ∧ ∃ u, t.SameBlock u ∧ s.pc u = .reset
  · obtain ⟨-, u, hu, hpc⟩ := hb
    exact ⟨u, _, by rw [step, hpc], .inr ⟨hu, hpc⟩⟩
  · refine ⟨t, ?_⟩
    have hsome : (step s t).isSome := by
      unfold step
      split
      · rfl
      · rename_i hpc
        rw [if_pos fun u hu hr => hb ⟨hpc, u, hu, hr⟩]
        rfl
      · split <;> rfl
      · rfl
      · rfl
      · exact absurd ‹_› h
    obtain ⟨s', hs'⟩ := Option.isSome_iff_exists.1 hsome
    exact ⟨s', hs', .inl rfl⟩

/-- The kernel runs to its end from every state. -/
theorem exists_step_of_not_finished {s : State cfg} (h : ¬s.Finished) : ∃ t s', step s t = some s' := by
  obtain ⟨t, ht⟩ := not_forall.1 h
  obtain ⟨u, s', hs', -⟩ := exists_step ht
  exact ⟨u, s', hs'⟩

theorem run_length_le {count : Nat → Int} {output : Int → ℚ} {s s' : State cfg} {ts : List (Thread cfg)}
    (hr : (launch cfg count output).run s ts = some s') : ts.length ≤ Fintype.card (Thread cfg) * 12 := by
  refine (System.run_length_le (I := fun _ => True) (A := fun _ => True) (μ := State.rank) ?_ trivial
    (fun _ _ => trivial) hr).trans s.rank_le
  exact fun _ _ hs => ⟨trivial, (Move.of_step hs).rank_lt⟩

/-! ### Where the threads are -/

/-- What the locals of a thread are. -/
def Thread.At (t : Thread cfg) : Pc → Prop
  | .loop i => i = t.anchor ∨ cfg.numPredictions ≤ i
  | .atomicAdd i maxScore maxCls =>
    i = t.anchor ∧ i < cfg.numPredictions ∧ cfg.Accepts t.bid i ∧ cfg.best t.bid i = (maxScore, maxCls)
  | .store i maxScore maxCls idx _ =>
    i = t.anchor ∧ i < cfg.numPredictions ∧ cfg.Accepts t.bid i ∧ cfg.best t.bid i = (maxScore, maxCls) ∧
      idx < cfg.maxDet
  | _ => True

structure Inv (s : State cfg) : Prop where
  at_pc : ∀ t : Thread cfg, t.At (s.pc t)
  barrier : ∀ t u : Thread cfg, t.SameBlock u → s.pc u = .reset → s.pc t = .reset ∨ s.pc t = .sync

theorem Inv.init (cfg : Config) (count : Nat → Int) (output : Int → ℚ) : Inv (launch cfg count output).init := by
  constructor
  · intro t
    show t.At (if cfg.Launchable then .reset else .exit)
    split <;> trivial
  · intro t u _ hu
    exact .inl hu

theorem Inv.step {s s' : State cfg} {t : Thread cfg} (h : Inv s) (hm : Move s t s') : Inv s' := by
  have hpc : ∀ u, u ≠ t → s'.pc u = s.pc u := fun u hu => hm.pc_of_ne hu
  constructor
  · intro u
    by_cases hu : u = t
    · subst hu
      have hat := h.at_pc u
      cases hm with
      | reset => split <;> simp [Thread.At]
      | sync => simp [Thread.At]
      | accept h hi ha =>
        rw [h] at hat
        rcases hat with hat | hat
        · simp [Thread.At, hat, hat ▸ hi, hat ▸ ha]
        · omega
      | skip | full | last => simp [Thread.At, cfg.le_next]
      | exit => simp [Thread.At]
      | add h hlt =>
        rw [h] at hat
        obtain ⟨h1, h2, h3, h4⟩ := hat
        simp [Thread.At, h1 ▸ h2, h1, h1 ▸ h3, h1 ▸ h4, hlt]
      | store h =>
        rw [h] at hat
        simpa [Thread.At] using hat
    · rw [hpc u hu]
      exact h.at_pc u
  · intro u v huv hv
    have hv' : v ≠ t ∧ s.pc v = .reset := by
      by_cases hvt : v = t
      · subst hvt
        exfalso
        cases hm with
        | reset => split at hv <;> simp at hv
        | _ => simp at hv
      · exact ⟨hvt, by rw [← hpc v hvt]; exact hv⟩
    have hu := h.barrier u v huv hv'.2
    by_cases hut : u = t
    · subst hut
      cases hm with
      | reset => right; split <;> simp
      | sync _ hb => exact absurd hv'.2 (hb v huv)
      | accept h | skip h | exit h | add h | full h | store h | last h => simp [h] at hu
    · rw [hpc u hut]
      exact hu

/-! ### Counting -/

/-- The thread is past its `atomicAdd`, if it gets to one. -/
def Pc.Past (n : Nat) : Pc → Prop
  | .loop i => n ≤ i
  | .store _ _ _ _ _ | .exit => True
  | _ => False

/-- The thread has counted its anchor. -/
structure Thread.Counted (t : Thread cfg) (s : State cfg) : Prop where
  lt : t.anchor < cfg.numPredictions
  accepts : cfg.Accepts t.bid t.anchor
  past : (s.pc t).Past cfg.numPredictions

theorem Thread.counted_congr {s s' : State cfg} {t : Thread cfg} (h : s'.pc t = s.pc t) :
    t.Counted s' ↔ t.Counted s :=
  ⟨fun hc => ⟨hc.lt, hc.accepts, h ▸ hc.past⟩, fun hc => ⟨hc.lt, hc.accepts, h ▸ hc.past⟩⟩

theorem Move.counted_of_past {s s' : State cfg} {t u : Thread cfg} (hm : Move s t s')
    (hp : t.Counted s' ↔ t.Counted s) : u.Counted s' ↔ u.Counted s := by
  by_cases hu : u = t
  · exact hu ▸ hp
  · exact Thread.counted_congr (hm.pc_of_ne hu)

/-- The next step of the thread is its `atomicAdd`. -/
def State.Adds (s : State cfg) (t : Thread cfg) : Prop :=
  ∃ i maxScore maxCls, s.pc t = .atomicAdd i maxScore maxCls

/-- A step that moves its thread past the `atomicAdd` in neither direction, or whose thread has no anchor to
count, leaves the counted threads as they are. -/
theorem Move.counted_iff {s s' : State cfg} {t : Thread cfg} (hm : Move s t s') (pc pc' : Pc)
    (hpc : s.pc t = pc) (hpc' : s'.pc t = pc')
    (hpast : (pc'.Past cfg.numPredictions ↔ pc.Past cfg.numPredictions) ∨
      cfg.numPredictions ≤ t.anchor ∨ ¬cfg.Accepts t.bid t.anchor) (u : Thread cfg) :
    u.Counted s' ↔ u.Counted s := by
  refine hm.counted_of_past ⟨fun hc => ⟨hc.lt, hc.accepts, ?_⟩, fun hc => ⟨hc.lt, hc.accepts, ?_⟩⟩
  · rcases hpast with hpast | hpast | hpast
    · exact hpc ▸ hpast.1 (hpc' ▸ hc.past)
    · exact absurd hc.lt (not_lt.2 hpast)
    · exact absurd hc.accepts hpast
  · rcases hpast with hpast | hpast | hpast
    · exact hpc' ▸ hpast.2 (hpc ▸ hc.past)
    · exact absurd hc.lt (not_lt.2 hpast)
    · exact absurd hc.accepts hpast

/-- An `atomicAdd` counts the anchor of its thread. -/
theorem Move.counts_anchor {s s' : State cfg} {t : Thread cfg} (hi : Inv s) {i : ℕ} {maxScore : ℚ} {maxCls : ℤ}
    (h : s.pc t = .atomicAdd i maxScore maxCls) (hpast : (s'.pc t).Past cfg.numPredictions) :
    ¬t.Counted s ∧ t.Counted s' := by
  have hat := hi.at_pc t
  rw [h] at hat
  refine ⟨fun hc => ?_, ⟨hat.1 ▸ hat.2.1, hat.1 ▸ hat.2.2.1, hpast⟩⟩
  have hbefore := hc.past
  rw [h] at hbefore
  exact hbefore

/-- The three kinds of steps: a reset, an `atomicAdd`, which counts an anchor, and the others. -/
theorem Move.count_cases {s s' : State cfg} {t : Thread cfg} (hm : Move s t s') (hi : Inv s) :
    (s.pc t = .reset ∧ t.Resets ∧ s'.count = Function.update s.count t.bid 0 ∧
      ∀ u : Thread cfg, u.Counted s' ↔ u.Counted s) ∨
    (s.Adds t ∧ s'.count = Function.update s.count t.bid (s.count t.bid + 1) ∧ ¬t.Counted s ∧ t.Counted s') ∨
    (¬s.Adds t ∧ (s.pc t = .reset → ¬t.Resets) ∧ s'.count = s.count ∧
      ∀ u : Thread cfg, u.Counted s' ↔ u.Counted s) := by
  have hat := hi.at_pc t
  have hcounted := hm.counted_iff
  cases hm with
  | reset h =>
    have hall := hcounted .reset .sync h (by split <;> simp) (.inl Iff.rfl)
    by_cases ht : t.Resets
    · rw [if_pos ht] at hall ⊢
      exact .inl ⟨h, ht, rfl, hall⟩
    · rw [if_neg ht] at hall ⊢
      exact .inr (.inr ⟨by simp [State.Adds, h], fun _ => ht, rfl, hall⟩)
  | sync h =>
    refine .inr (.inr ⟨by simp [State.Adds, h], by simp [h], rfl, hcounted _ _ h (Function.update_self ..) ?_⟩)
    rcases Nat.lt_or_ge t.anchor cfg.numPredictions with hlt | hge
    · exact .inl (by simp [Pc.Past, hlt])
    · exact .inr (.inl hge)
  | @accept i h hi ha =>
    have hpast := hcounted _ _ h (Function.update_self ..) (.inl (by simp [Pc.Past, hi]))
    exact .inr (.inr ⟨by simp [State.Adds, h], by simp [h], rfl, hpast⟩)
  | @skip i h hi ha =>
    refine .inr (.inr ⟨by simp [State.Adds, h], by simp [h], rfl,
      hcounted _ _ h (Function.update_self ..) (.inr (.inr ?_))⟩)
    -- the thread is still at its own anchor, which the test refuses
    rw [h] at hat
    rcases hat with rfl | hat
    · exact ha
    · omega
  | @exit i h hi =>
    have hpast := hcounted _ _ h (Function.update_self ..) (.inl (by simp [Pc.Past, hi]))
    exact .inr (.inr ⟨by simp [State.Adds, h], by simp [h], rfl, hpast⟩)
  | add h hlt =>
    exact .inr (.inl ⟨⟨_, _, _, h⟩, rfl, Move.counts_anchor hi h (by simp [Pc.Past])⟩)
  | full h hle =>
    exact .inr (.inl ⟨⟨_, _, _, h⟩, rfl, Move.counts_anchor hi h (by simp [Pc.Past, cfg.le_next])⟩)
  | store h hk =>
    have hpast := hcounted _ _ h (Function.update_self ..) (.inl Iff.rfl)
    exact .inr (.inr ⟨by simp [State.Adds, h], by simp [h], rfl, hpast⟩)
  | @last i _ _ _ _ h hk =>
    have hpast := hcounted _ _ h (Function.update_self ..) (.inl (by simp [Pc.Past, cfg.le_next]))
    exact .inr (.inr ⟨by simp [State.Adds, h], by simp [h], rfl, hpast⟩)

/-- The count of the image has been reset. -/
def ResetDone (s : State cfg) (bid : Fin cfg.gridDimX) : Prop :=
  ∀ t : Thread cfg, t.bid = bid → t.Resets → s.pc t ≠ .reset

/-- The threads of an image that have counted their anchor, but for the lost ones, in this order from `base` on. -/
structure Listed (s : State cfg) (bid : Fin cfg.gridDimX) (base : Int) (lost : Thread cfg → Prop)
    (order : List (Thread cfg)) : Prop where
  nodup : order.Nodup
  mem_iff : ∀ t, t ∈ order ↔ t.bid = bid ∧ t.Counted s ∧ ¬lost t
  lost_counted : ∀ t, lost t → t.Counted s
  count_eq : s.count bid = base + order.length

/-- The threads of an image that have counted their anchor since the reset. -/
structure Ordered (s : State cfg) (bid : Fin cfg.gridDimX) (lost : Thread cfg → Prop) (order : List (Thread cfg)) :
    Prop extends Listed s bid 0 lost order where
  reset : ResetDone s bid

theorem ResetDone.step {s s' : State cfg} {t : Thread cfg} {bid : Fin cfg.gridDimX} (h : ResetDone s bid)
    (hm : Move s t s') : ResetDone s' bid := by
  intro u hb hu hpc
  by_cases hut : u = t
  · subst hut
    cases hm with
    | reset => split at hpc <;> simp at hpc
    | _ => simp at hpc
  · rw [hm.pc_of_ne hut] at hpc
    exact h u hb hu hpc

/-- A thread of the image that adds comes last in the order. -/
theorem Listed.step {s s' : State cfg} {t : Thread cfg} {bid : Fin cfg.gridDimX} {base : Int}
    {lost : Thread cfg → Prop} {order : List (Thread cfg)} (h : Listed s bid base lost order) (hm : Move s t s')
    (hi : Inv s) (hno : ¬(t.bid = bid ∧ t.Resets ∧ s.pc t = .reset)) :
    (s.Adds t ∧ t.bid = bid) ∧ Listed s' bid base lost (order ++ [t]) ∨
    ¬(s.Adds t ∧ t.bid = bid) ∧ Listed s' bid base lost order := by
  rcases hm.count_cases hi with ⟨hpc, ht, hcount, hiff⟩ | ⟨hadd, hcount, hnot, hcounted⟩ | ⟨hadd, -, hcount, hiff⟩
  · have hb : t.bid ≠ bid := fun hb => hno ⟨hb, ht, hpc⟩
    refine .inr ⟨fun hc => hb hc.2, h.nodup, fun u => ?_, fun u hu => (hiff u).2 (h.lost_counted u hu), ?_⟩
    · rw [hiff u]
      exact h.mem_iff u
    · rw [hcount, Function.update_of_ne (fun he => hb (Fin.ext he).symm)]
      exact h.count_eq
  · have hlost : ¬lost t := fun hl => hnot (h.lost_counted t hl)
    have hother : ∀ u, u ≠ t → (u.Counted s' ↔ u.Counted s) := fun u hu => Thread.counted_congr (hm.pc_of_ne hu)
    have hlost' : ∀ u, lost u → u.Counted s' := fun u hu =>
      (hother u fun he => hlost (he ▸ hu)).2 (h.lost_counted u hu)
    have hmem : t ∉ order := fun ht => hnot ((h.mem_iff t).1 ht).2.1
    by_cases hb : t.bid = bid
    · subst hb
      refine .inl ⟨⟨hadd, rfl⟩, ?_, fun u => ?_, hlost', ?_⟩
      · exact List.nodup_append.2 ⟨h.nodup, List.nodup_singleton t, fun a ha b hb hab =>
          hmem (List.mem_singleton.1 hb ▸ hab ▸ ha)⟩
      · rw [List.mem_append, List.mem_singleton, h.mem_iff]
        by_cases hu : u = t
        · subst hu
          simp [hcounted, hlost]
        · simp [hu, hother u hu]
      · rw [hcount, Function.update_self, h.count_eq, List.length_append]
        push_cast
        simp only [List.length_singleton]
        ring
    · refine .inr ⟨fun hc => hb hc.2, h.nodup, fun u => ?_, hlost', ?_⟩
      · rw [h.mem_iff]
        by_cases hu : u = t
        · subst hu
          simp [hb]
        · rw [hother u hu]
      · rw [hcount, Function.update_of_ne (fun he => hb (Fin.ext he).symm)]
        exact h.count_eq
  · refine .inr ⟨fun hc => hadd hc.1, h.nodup, fun u => ?_, fun u hu => (hiff u).2 (h.lost_counted u hu), ?_⟩
    · rw [hiff u]
      exact h.mem_iff u
    · rw [hcount]
      exact h.count_eq

theorem Ordered.step {s s' : State cfg} {t : Thread cfg} {bid : Fin cfg.gridDimX} {lost : Thread cfg → Prop}
    {order : List (Thread cfg)} (h : Ordered s bid lost order) (hm : Move s t s') (hi : Inv s) :
    (s.Adds t ∧ t.bid = bid) ∧ Ordered s' bid lost (order ++ [t]) ∨
    ¬(s.Adds t ∧ t.bid = bid) ∧ Ordered s' bid lost order := by
  have hreset := h.reset.step hm
  exact (h.toListed.step hm hi fun hr => h.reset t hr.1 hr.2.1 hr.2.2).imp
    (fun ho => ⟨ho.1, ho.2, hreset⟩) (fun ho => ⟨ho.1, ho.2, hreset⟩)

/-- An image that has been reset counts from zero. -/
theorem Ordered.count_eq_length {s : State cfg} {bid : Fin cfg.gridDimX} {lost : Thread cfg → Prop}
    {order : List (Thread cfg)} (h : Ordered s bid lost order) : s.count bid = order.length := by
  rw [h.count_eq, zero_add]

/-- The anchors of an image that the kernel accepts. -/
def Config.Accepted (cfg : Config) (bid : Nat) (i : Nat) : Prop := i < cfg.numPredictions ∧ cfg.Accepts bid i

/-- There are no more threads in the order than anchors. -/
theorem Listed.length_le {s : State cfg} {bid : Fin cfg.gridDimX} {base : Int} {lost : Thread cfg → Prop}
    {order : List (Thread cfg)} (h : Listed s bid base lost order) : order.length ≤ cfg.numPredictions := by
  have hnodup : (order.map Thread.anchor).Nodup := by
    rw [List.nodup_map_iff_inj_on h.nodup]
    intro t ht u hu heq
    exact Thread.anchor_inj (((h.mem_iff t).1 ht).1.trans ((h.mem_iff u).1 hu).1.symm) heq
  have hsub : order.map Thread.anchor ⊆ List.range cfg.numPredictions := by
    intro i hi
    obtain ⟨t, ht, rfl⟩ := List.mem_map.1 hi
    exact List.mem_range.2 ((h.mem_iff t).1 ht).2.1.lt
  have hle := (hnodup.subperm hsub).length_le
  rwa [List.length_map, List.length_range] at hle

/-- In the end all accepted anchors but the lost ones have been counted since the reset. -/
theorem Ordered.finished {s : State cfg} {bid : Fin cfg.gridDimX} {lost : Thread cfg → Prop}
    {order : List (Thread cfg)} (h : Ordered s bid lost order) (hf : s.Finished) :
    (order.map Thread.anchor).Nodup ∧ ∀ i, i ∈ order.map Thread.anchor ↔
      cfg.Accepted bid i ∧ ∀ t : Thread cfg, t.bid = bid → t.anchor = i → ¬lost t := by
  have hcounted : ∀ t : Thread cfg, t.Counted s ↔ cfg.Accepted t.bid t.anchor := by
    intro t
    refine ⟨fun hc => ⟨hc.lt, hc.accepts⟩, fun hc => ⟨hc.1, hc.2, ?_⟩⟩
    rw [hf t]
    trivial
  constructor
  · rw [List.nodup_map_iff_inj_on h.nodup]
    intro t ht u hu heq
    exact Thread.anchor_inj (((h.mem_iff t).1 ht).1.trans ((h.mem_iff u).1 hu).1.symm) heq
  · intro i
    rw [List.mem_map]
    constructor
    · rintro ⟨t, ht, rfl⟩
      obtain ⟨hb, hc, hl⟩ := (h.mem_iff t).1 ht
      refine ⟨hb ▸ (hcounted t).1 hc, fun u hu heq => ?_⟩
      rwa [Thread.anchor_inj (hu.trans hb.symm) heq]
    · rintro ⟨hacc, hl⟩
      obtain ⟨t, hb, rfl⟩ := exists_anchor bid hacc.1
      exact ⟨t, (h.mem_iff t).2 ⟨hb, (hcounted t).2 (hb ▸ hacc), hl t hb rfl⟩, rfl⟩

end OnnxInference.GpuFilter
