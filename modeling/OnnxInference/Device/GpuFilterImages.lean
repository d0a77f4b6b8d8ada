import OnnxInference.Device.GpuFilterCorrect

/-!
# The images of the filter

The images of a batch share a launch and nothing else.  An image without accepted anchors has the count zero in the
end (`count_of_none`), any other one a positive count in some run (`exists_count_pos`); and what the kernel can leave
for the first images does not depend on the input of the others (`exists_agreeing`).
-/

namespace OnnxInference.GpuFilter

open Transition

variable {cfg : Config}

/-! ### The count of an image -/

/-- The reset of an image is a step of the thread that resets. -/
theorem ResetDone.of_step {s s' : State cfg} {t : Thread cfg} {bid : Fin cfg.gridDimX} (h : ResetDone s' bid)
    (hm : Move s t s') (ht : ¬(t.bid = bid ∧ t.Resets ∧ s.pc t = .reset)) : ResetDone s bid := by
  intro u hb hu hpc
  by_cases hut : u = t
  · exact ht ⟨hut ▸ hb, hut ▸ hu, hut ▸ hpc⟩
  · exact h u hb hu ((hm.pc_of_ne hut).trans hpc)

/-- Whatever the count was, it is zero in the end if the kernel accepts no anchor of the image. -/
theorem count_of_none {count : Nat → Int} {output : Int → ℚ} {s : State cfg} (hl : cfg.Launchable)
    (hs : (launch cfg count output).Reachable s) (hf : s.Finished) (bid : Fin cfg.gridDimX)
    (h : ∀ i, ¬cfg.Accepted bid i) : s.count bid = 0 := by
  have hinv : Inv s ∧ (ResetDone s bid → s.count bid = 0) := by
    refine hs.invariant (P := fun s => Inv s ∧ (ResetDone s bid → s.count bid = 0)) ⟨.init cfg count output, ?_⟩ ?_
    · -- the thread that resets the count has not run yet
      intro hreset
      exact absurd (if_pos hl) (hreset ⟨bid, ⟨0, hl.2.1⟩, ⟨0, by decide⟩⟩ rfl ⟨rfl, rfl⟩)
    · rintro s t s' ⟨hi, hzero⟩ - hstep
      have hm := Move.of_step hstep
      refine ⟨hi.step hm, fun hreset => ?_⟩
      rcases hm.count_cases hi with ⟨hpc, ht, hcount, -⟩ | ⟨⟨_, _, _, hpc⟩, hcount, -, hc⟩ | ⟨-, hnot, hcount, -⟩
      · rw [hcount]
        by_cases hb : t.bid = bid
        · rw [hb, Function.update_self]
        · rw [Function.update_of_ne fun he => hb (Fin.ext he).symm]
          exact hzero (hreset.of_step hm fun h => hb h.1)
      -- a thread of the image has nothing to count
      · have hb : t.bid ≠ bid := fun hb => h t.anchor (hb ▸ ⟨hc.lt, hc.accepts⟩)
        rw [hcount, Function.update_of_ne fun he => hb (Fin.ext he).symm]
        exact hzero (hreset.of_step hm fun h => hb h.1)
      · rw [hcount]
        exact hzero (hreset.of_step hm fun h => hnot h.2.2 h.2.1)
  exact hinv.2 fun t _ _ => by simp [hf t]

/-- A grid that is not accepted leaves everything as it was. -/
theorem finished_of_not_launchable {count : Nat → Int} {output : Int → ℚ} {s : State cfg} (hl : ¬cfg.Launchable)
    (hs : (launch cfg count output).Reachable s) : s.Finished ∧ s.count = count := by
  refine hs.invariant (P := fun s => s.Finished ∧ s.count = count) ⟨fun _ => if_neg hl, rfl⟩ ?_
  rintro s t s' ⟨hf, -⟩ - hstep
  have hnone : step s t = none := by rw [step, hf t]
  cases hnone.symm.trans hstep

/-- If the reset comes first, all accepted anchors of the image are counted. -/
theorem exists_count_pos (count : Nat → Int) (output : Int → ℚ) (hl : cfg.Launchable) (bid : Fin cfg.gridDimX)
    {i : Nat} (h : cfg.Accepted bid i) : ∃ s, (launch cfg count output).Reachable s ∧ s.Finished ∧
      0 < s.count bid := by
  have hinit : ∀ t, (launch cfg count output).init.pc t = .reset := fun _ => if_pos hl
  obtain ⟨s, hs, hf, order, ho⟩ := exists_lost .init (.init ..) (u := leader hl bid.isLt) ⟨rfl, rfl⟩ (hinit _)
  refine ⟨s, hs, hf, ?_⟩
  have hmem : i ∈ order.map Thread.anchor := ((ho.finished hf).2 i).2 ⟨h, fun t _ _ hlost => by
    have hpast := hlost.2.past
    rw [hinit] at hpast
    exact hpast⟩
  have hcount : s.count bid = order.length := ho.count_eq_length
  have hlen := List.length_pos_of_mem hmem
  rw [List.length_map] at hlen
  omega

/-! ### Stores -/

/-- No count is negative, and no index taken from one. -/
structure NonNeg (s : State cfg) : Prop where
  count : ∀ b, 0 ≤ s.count b
  store : ∀ {t : Thread cfg} {i maxScore maxCls idx k}, s.pc t = .store i maxScore maxCls idx k → 0 ≤ idx

theorem NonNeg.init {count : Nat → Int} (h : ∀ b, 0 ≤ count b) (output : Int → ℚ) :
    NonNeg (launch cfg count output).init := by
  refine ⟨h, fun {t _ _ _ _ _} hpc => ?_⟩
  have hinit : (launch cfg count output).init.pc t = if cfg.Launchable then .reset else .exit := rfl
  rw [hinit] at hpc
  split at hpc <;> cases hpc

theorem NonNeg.step {s s' : State cfg} {t : Thread cfg} (h : NonNeg s) (hm : Move s t s') : NonNeg s' := by
  constructor
  · intro b
    have hb := h.count b
    have ht := h.count t.bid
    cases hm with
    | reset =>
      split <;> simp only [State.setPc_count, State.setCount_count, Function.update_apply] <;> (try split) <;> omega
    | add | full =>
      simp only [State.setPc_count, State.setCount_count, Function.update_apply]
      split <;> omega
    | sync | accept | skip | exit | store | last => exact hb
  · intro u i maxScore maxCls idx k hu
    by_cases hut : u = t
    · subst hut
      cases hm with
      | reset => split at hu <;> simp at hu
      | add =>
        simp only [State.setPc_pc, Function.update_self, Pc.store.injEq] at hu
        exact hu.2.2.2.1 ▸ h.count _
      | store hpc =>
        simp only [State.setPc_pc, Function.update_self, Pc.store.injEq] at hu
        exact hu.2.2.2.1 ▸ h.store hpc
      | sync | accept | skip | exit | full | last => simp at hu
    · exact h.store ((hm.pc_of_ne hut).symm.trans hu)

/-- A thread changes nothing that belongs to another image. -/
theorem Move.frame {s s' : State cfg} {t : Thread cfg} (hm : Move s t s') (hi : Inv s) (hn : NonNeg s) {b : Nat}
    (hb : b ≠ t.bid) : s'.count b = s.count b ∧
      ∀ j < cfg.maxDet, ∀ k, s'.output (cfg.outAddr b j k) = s.output (cfg.outAddr b j k) := by
  have hstore : ∀ {i maxScore maxCls idx k}, s.pc t = .store i maxScore maxCls idx k → ∀ x, ∀ j < cfg.maxDet, ∀ k',
      Function.update s.output (cfg.outAddr t.bid idx k) x (cfg.outAddr b j k') = s.output (cfg.outAddr b j k') := by
    intro i maxScore maxCls idx k hpc x j hj k'
    have hat := hi.at_pc t
    rw [hpc] at hat
    obtain ⟨j', rfl⟩ := Int.eq_ofNat_of_zero_le (hn.store hpc)
    have hj' : j' < cfg.maxDet := by
      have := hat.2.2.2.2
      omega
    exact Function.update_of_ne (fun heq => hb (Config.outAddr_inj hj hj' heq).1) _ _
  cases hm with
  | reset =>
    split
    · exact ⟨Function.update_of_ne hb _ _, fun _ _ _ => rfl⟩
    · exact ⟨rfl, fun _ _ _ => rfl⟩
  | add | full => exact ⟨Function.update_of_ne hb _ _, fun _ _ _ => rfl⟩
  | store hpc | last hpc => exact ⟨rfl, hstore hpc _⟩
  | sync | accept | skip | exit => exact ⟨rfl, fun _ _ _ => rfl⟩

/-- A thread that has an anchor left looks for its best score. -/
theorem step_loop {s : State cfg} {t : Thread cfg} {i : Nat} (h : s.pc t = .loop i) (hi : i < cfg.numPredictions) :
    step s t = some (s.setPc t (if cfg.confThresh ≤ (cfg.best t.bid i).1 then
      .atomicAdd i (cfg.best t.bid i).1 (cfg.best t.bid i).2 else .loop (cfg.next i))) := by
  rw [step, h]
  exact if_pos hi

/-! ### Another input -/

/-- The launch on another input. -/
def Config.withInput (cfg : Config) (input : Nat → ℚ) : Config := { cfg with input := input }

/-- The thread at the same place of the launch on another input. -/
def Thread.withInput (t : Thread cfg) (input : Nat → ℚ) : Thread (cfg.withInput input) := ⟨t.bid, t.blockY, t.tid⟩

variable {input : Nat → ℚ} {n : Nat}

/-- Every thread of the one launch belongs to one of the other. -/
theorem Thread.exists_withInput (t' : Thread (cfg.withInput input)) : ∃ t : Thread cfg, t.withInput input = t' :=
  ⟨⟨t'.bid, t'.blockY, t'.tid⟩, rfl⟩

theorem Thread.withInput_inj {t u : Thread cfg} (h : t.withInput input = u.withInput input) : t = u := by
  obtain ⟨b, y, x⟩ := t
  obtain ⟨b', y', x'⟩ := u
  cases h
  rfl

/-- The input of the first images is the same. -/
def SameInput (cfg : Config) (input : Nat → ℚ) (n : Nat) : Prop :=
  ∀ bid < n, ∀ row < 4 + cfg.numClasses, ∀ i < cfg.numPredictions,
    (cfg.withInput input).batchInput bid row i = cfg.batchInput bid row i

theorem SameInput.best_eq (h : SameInput cfg input n) {bid i : Nat} (hb : bid < n) (hi : i < cfg.numPredictions) :
    (cfg.withInput input).best bid i = cfg.best bid i :=
  Argmax.scan_congr fun c hc => h bid hb (4 + c) (Nat.add_lt_add_left hc 4) i hi

theorem SameInput.outValue_eq (h : SameInput cfg input n) {bid i : Nat} (hb : bid < n) (hi : i < cfg.numPredictions)
    (maxScore : ℚ) (maxCls : Int) (k : Fin 6) :
    (cfg.withInput input).outValue bid i maxScore maxCls k = cfg.outValue bid i maxScore maxCls k := by
  unfold Config.outValue
  split
  · exact h bid hb k.val (by omega) i hi
  · rfl

/-- The two launches agree on the first images: the counts, the slots, and where their threads are. -/
structure Agree (n : Nat) (s : State cfg) (s' : State (cfg.withInput input)) : Prop where
  count : ∀ b < n, s'.count b = s.count b
  pc : ∀ t : Thread cfg, t.bid < n → s'.pc (t.withInput input) = s.pc t
  output : ∀ b < n, ∀ j < cfg.maxDet, ∀ k, s'.output (cfg.outAddr b j k) = s.output (cfg.outAddr b j k)

namespace Agree

variable {s s₁ : State cfg} {s' s₁' : State (cfg.withInput input)} {t : Thread cfg}

theorem setPc (h : Agree n s s') (t : Thread cfg) (pc : Pc) :
    Agree n (s.setPc t pc) (s'.setPc (t.withInput input) pc) where
  count := h.count
  pc u hu := by
    by_cases hut : u = t
    · subst hut
      rw [State.setPc_pc, State.setPc_pc, Function.update_self, Function.update_self]
    · rw [State.setPc_pc, State.setPc_pc, Function.update_of_ne hut,
        Function.update_of_ne fun he => hut (Thread.withInput_inj he)]
      exact h.pc u hu
  output := h.output

theorem setCount (h : Agree n s s') (b : Nat) (c : Int) : Agree n (s.setCount b c) (s'.setCount b c) where
  count b' hb' := by
    simp only [State.setCount_count, Function.update_apply]
    split
    · rfl
    · exact h.count b' hb'
  pc := h.pc
  output := h.output

theorem setOutput (h : Agree n s s') (a : Int) (x : ℚ) : Agree n (s.setOutput a x) (s'.setOutput a x) where
  count := h.count
  pc := h.pc
  output b hb j hj k := by
    simp only [State.setOutput_output, Function.update_apply]
    split
    · rfl
    · exact h.output b hb j hj k

/-- A step of a thread of the other images can be left out. -/
theorem left (h : Agree n s s') (hm : Move s t s₁) (hi : Inv s) (hn : NonNeg s) (ht : ¬t.bid < n) :
    Agree n s₁ s' where
  count b hb := by
    rw [(hm.frame hi hn (by omega)).1]
    exact h.count b hb
  pc u hu := by
    rw [hm.pc_of_ne (by rintro rfl; exact ht hu)]
    exact h.pc u hu
  output b hb j hj k := by
    rw [(hm.frame hi hn (by omega)).2 j hj k]
    exact h.output b hb j hj k

/-- A step of a thread of the other images can be added. -/
theorem right (h : Agree n s s')
    (hm : Move s' (t.withInput input) s₁') (hi : Inv s') (hn : NonNeg s') (ht : ¬t.bid < n) :
    Agree n s s₁' where
  count b hb := by
    have hne : b ≠ (t.withInput input).bid := fun he => ht (he ▸ hb)
    exact (hm.frame hi hn hne).1.trans (h.count b hb)
  pc u hu := by
    rw [hm.pc_of_ne fun he => ht (Thread.withInput_inj he ▸ hu)]
    exact h.pc u hu
  output b hb j hj k := by
    have hne : b ≠ (t.withInput input).bid := fun he => ht (he ▸ hb)
    exact ((hm.frame hi hn hne).2 j hj k).trans (h.output b hb j hj k)

/-- A thread of the first images makes the same step in both launches. -/
theorem step (h : Agree n s s') (hm : Move s t s₁) (hi : Inv s) (hin : SameInput cfg input n) (ht : t.bid < n) :
    ∃ s₁', GpuFilter.step s' (t.withInput input) = some s₁' ∧ Agree n s₁ s₁' := by
  have hpc := h.pc t ht
  have hat := hi.at_pc t
  have hcount : s'.count (t.withInput input).bid = s.count t.bid := h.count t.bid ht
  cases hm with
  | reset h0 =>
    rw [h0] at hpc
    refine ⟨_, by rw [GpuFilter.step, hpc], ?_⟩
    by_cases hr : t.Resets
    · rw [if_pos hr, if_pos (show (t.withInput input).Resets from hr)]
      exact (h.setCount _ _).setPc t _
    · rw [if_neg hr, if_neg (show ¬(t.withInput input).Resets from hr)]
      exact h.setPc t _
  | sync h0 hb =>
    rw [h0] at hpc
    have hb' : ∀ u, (t.withInput input).SameBlock u → s'.pc u ≠ .reset := by
      intro u' hu'
      obtain ⟨u, rfl⟩ := u'.exists_withInput
      have hu : t.SameBlock u := hu'
      rw [h.pc u (hu.1 ▸ ht)]
      exact hb u hu
    exact ⟨_, by rw [GpuFilter.step, hpc]; exact if_pos hb', h.setPc t _⟩
  | @accept i h0 hlt ha =>
    rw [h0] at hpc
    refine ⟨_, step_loop hpc hlt, ?_⟩
    rw [show (cfg.withInput input).best (t.withInput input).bid i = cfg.best t.bid i from hin.best_eq ht hlt,
      if_pos (show (cfg.withInput input).confThresh ≤ (cfg.best t.bid i).1 from ha)]
    exact h.setPc t _
  | @skip i h0 hlt ha =>
    rw [h0] at hpc
    refine ⟨_, step_loop hpc hlt, ?_⟩
    rw [show (cfg.withInput input).best (t.withInput input).bid i = cfg.best t.bid i from hin.best_eq ht hlt,
      if_neg (show ¬(cfg.withInput input).confThresh ≤ (cfg.best t.bid i).1 from ha)]
    exact h.setPc t _
  | exit h0 hge =>
    rw [h0] at hpc
    exact ⟨_, by rw [GpuFilter.step, hpc]; exact if_neg (not_lt.2 hge), h.setPc t _⟩
  | add h0 hlt =>
    rw [h0] at hpc
    refine ⟨_, by rw [GpuFilter.step, hpc], ?_⟩
    simp only [hcount]
    rw [if_pos (show s.count t.bid < (cfg.withInput input).maxDet from hlt)]
    exact (h.setCount _ _).setPc t _
  | full h0 hle =>
    rw [h0] at hpc
    refine ⟨_, by rw [GpuFilter.step, hpc], ?_⟩
    simp only [hcount]
    rw [if_neg (show ¬s.count t.bid < (cfg.withInput input).maxDet from not_lt.2 hle)]
    exact (h.setCount _ _).setPc t _
  | @store i maxScore maxCls idx k h0 hk =>
    rw [h0] at hpc hat
    refine ⟨_, by rw [GpuFilter.step, hpc], ?_⟩
    rw [dif_pos hk, show (cfg.withInput input).outValue (t.withInput input).bid i maxScore maxCls k =
      cfg.outValue t.bid i maxScore maxCls k from hin.outValue_eq ht hat.2.1 ..]
    exact (h.setOutput _ _).setPc t _
  | @last i maxScore maxCls idx k h0 hk =>
    rw [h0] at hpc hat
    refine ⟨_, by rw [GpuFilter.step, hpc], ?_⟩
    rw [dif_neg (by omega), show (cfg.withInput input).outValue (t.withInput input).bid i maxScore maxCls k =
      cfg.outValue t.bid i maxScore maxCls k from hin.outValue_eq ht hat.2.1 ..]
    exact (h.setOutput _ _).setPc t _

end Agree

section Runs

variable {count : Nat → Int} {output : Int → ℚ} {s : State cfg}

theorem nonNeg_of_reachable (hcount : ∀ b, 0 ≤ count b) (hs : (launch cfg count output).Reachable s) :
    Inv s ∧ NonNeg s := by
  refine hs.invariant (P := fun s => Inv s ∧ NonNeg s) ⟨.init cfg count output, .init hcount output⟩ ?_
  rintro s t s' ⟨hi, hn⟩ - hstep
  have hm := Move.of_step hstep
  exact ⟨hi.step hm, hn.step hm⟩

/-- Every run of the one launch has one of the other that agrees with it on the first images: the steps of their
threads. -/
theorem exists_agree (hcount : ∀ b, 0 ≤ count b) (hin : SameInput cfg input n)
    (hs : (launch cfg count output).Reachable s) :
    ∃ s', (launch (cfg.withInput input) count output).Reachable s' ∧ Agree n s s' := by
  induction hs with
  | init => exact ⟨_, .init, fun _ _ => rfl, fun _ _ => rfl, fun _ _ _ _ _ => rfl⟩
  | @step s s₁ t hs _ hstep ih =>
    obtain ⟨s', hs', ha⟩ := ih
    obtain ⟨hi, hn⟩ := nonNeg_of_reachable hcount hs
    have hm := Move.of_step hstep
    by_cases ht : t.bid < n
    · obtain ⟨s₁', hstep', ha'⟩ := ha.step hm hi hin ht
      exact ⟨s₁', .step hs' trivial hstep', ha'⟩
    · exact ⟨s', hs', ha.left hm hi hn ht⟩

/-- When the one launch has finished, only threads of other images are left in the other. -/
theorem exists_agreeing (hcount : ∀ b, 0 ≤ count b) (hin : SameInput cfg input n)
    (hs : (launch cfg count output).Reachable s) (hf : s.Finished) :
    ∃ s', (launch (cfg.withInput input) count output).Reachable s' ∧ s'.Finished ∧ Agree n s s' := by
  obtain ⟨s', hs', ha⟩ := exists_agree hcount hin hs
  have hfinal : ∃ ts s₁', (launch (cfg.withInput input) count output).run s' ts = some s₁' ∧
      ((launch (cfg.withInput input) count output).Reachable s₁' ∧ Agree n s s₁') ∧ s₁'.Finished :=
    System.exists_final (μ := State.rank) (fun s₁ ⟨hs₁, ha₁⟩ hf₁ => by
      obtain ⟨t', s₂, hstep⟩ := exists_step_of_not_finished hf₁
      obtain ⟨t, rfl⟩ := t'.exists_withInput
      have hm := Move.of_step hstep
      obtain ⟨hi, hn⟩ := nonNeg_of_reachable hcount hs₁
      have ht : ¬t.bid < n := by
        intro ht
        have hpc := (ha₁.pc t ht).trans (hf t)
        rw [step, hpc] at hstep
        cases hstep
      exact ⟨_, s₂, hstep, ⟨.step hs₁ trivial hstep, ha₁.right hm hi hn ht⟩, hm.rank_lt⟩) ⟨hs', ha⟩
  obtain ⟨-, s₁', -, ⟨hs₁', ha₁⟩, hf₁⟩ := hfinal
  exact ⟨s₁', hs₁', hf₁, ha₁⟩

end Runs

end OnnxInference.GpuFilter
