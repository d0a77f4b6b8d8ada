import Mathlib

/-!
# Transition systems

A system has one initial state and a partial step function; all nondeterminism (which thread moves, what an
oracle answers) is in the label, so a run is a list of labels and can be evaluated.  `ReachBy G` collects the
states of the runs all of whose steps meet the condition `G` on the state before the step and the label;
`Reachable` is the case of no condition.  An invariant is proved once for the initial state and once for a step
(`ReachBy.invariant`, `run_invariant`), and so is what the states represent (`Reachable.simulation`).  For termination
there is a measure: `exists_final` runs a system that can always make a decreasing step to a final state, and
`run_length_le` and `run_countP_le` bound the runs all or some of whose steps decrease.
-/

namespace Transition

universe u v

/-- A system with states `S` and labels `L`. -/
structure System (S : Type u) (L : Type v) where
  init : S
  step : S → L → Option S

namespace System

variable {S : Type u} {L : Type v} (M : System S L)

/-- Perform the labels of a list in order. -/
def run : S → List L → Option S
  | s, [] => some s
  | s, l :: ls => (M.step s l).bind fun s' => run s' ls

@[simp] theorem run_nil (s : S) : M.run s [] = some s := rfl

@[simp] theorem run_cons (s : S) (l : L) (ls : List L) :
    M.run s (l :: ls) = (M.step s l).bind fun s' => M.run s' ls := rfl

/-- The states reached by the runs all of whose steps meet `G`. -/
inductive ReachBy (G : S → L → Prop) : S → Prop
  | init : ReachBy G M.init
  | step {s s' : S} {l : L} : ReachBy G s → G s l → M.step s l = some s' → ReachBy G s'

/-- The states reached by some run. -/
abbrev Reachable (s : S) : Prop := M.ReachBy (fun _ _ => True) s

variable {M}

/-- What holds initially and is preserved by every step that meets `G` holds of every state reached. -/
theorem ReachBy.invariant {G : S → L → Prop} {P : S → Prop} (h0 : P M.init)
    (hstep : ∀ {s l s'}, P s → G s l → M.step s l = some s' → P s') {s : S} (h : M.ReachBy G s) : P s := by
  induction h with
  | init => exact h0
  | step _ hG hs ih => exact hstep ih hG hs

theorem ReachBy.mono {G G' : S → L → Prop} (hG : ∀ s l, G s l → G' s l) {s : S} (h : M.ReachBy G s) :
    M.ReachBy G' s := by
  induction h with
  | init => exact .init
  | step _ hg hs ih => exact .step ih (hG _ _ hg) hs

theorem ReachBy.reachable {G : S → L → Prop} {s : S} (h : M.ReachBy G s) : M.Reachable s :=
  h.mono fun _ _ _ => trivial

theorem Reachable.of_run {s s' : S} {ls : List L} (h : M.Reachable s) (hr : M.run s ls = some s') :
    M.Reachable s' := by
  induction ls generalizing s with
  | nil =>
    rw [run_nil, Option.some.injEq] at hr
    exact hr ▸ h
  | cons l ls ih =>
    rw [run_cons, Option.bind_eq_some_iff] at hr
    obtain ⟨s₁, hs, hr⟩ := hr
    exact ih (.step h trivial hs) hr

/-- What every step keeps a run keeps. -/
theorem run_invariant {P : S → Prop} (hstep : ∀ {s l s'}, P s → M.step s l = some s' → P s') {s s' : S} {ls : List L}
    (hs : P s) (hr : M.run s ls = some s') : P s' := by
  induction ls generalizing s with
  | nil =>
    rw [run_nil, Option.some.injEq] at hr
    exact hr ▸ hs
  | cons l ls ih =>
    rw [run_cons, Option.bind_eq_some_iff] at hr
    obtain ⟨s₁, hl, hr⟩ := hr
    exact ih (hstep hs hl) hr

/-- A run from the initial state that ends in a state with `p` shows that such a state is reachable. -/
theorem exists_reachable_of_run (M : System S L) (ls : List L) (p : S → Bool)
    (h : (M.run M.init ls).any p = true) :
    ∃ s, M.Reachable s ∧ p s = true := by
  cases hr : M.run M.init ls with
  | none => rw [hr] at h; cases h
  | some s => rw [hr] at h; exact ⟨s, Reachable.of_run .init hr, h⟩

theorem run_append (s : S) (ls ls' : List L) : M.run s (ls ++ ls') = (M.run s ls).bind fun s' => M.run s' ls' := by
  induction ls generalizing s with
  | nil => rfl
  | cons l ls ih =>
    rw [List.cons_append, run_cons, run_cons, Option.bind_assoc]
    exact Option.bind_congr fun s' _ => ih s'

/-- A run from the initial state through a state with `p` to one with `q`. -/
theorem exists_run_through (M : System S L) (ls ls' : List L) (p q : S → Bool) (h : (M.run M.init ls).any p = true)
    (h' : (M.run M.init (ls ++ ls')).any q = true) :
    ∃ s s', M.Reachable s ∧ p s = true ∧ M.run s ls' = some s' ∧ q s' = true := by
  obtain ⟨s, hr, hp⟩ := (Option.any_eq_true _ _).1 h
  obtain ⟨s', hr', hq⟩ := (Option.any_eq_true _ _).1 h'
  rw [run_append, hr, Option.bind_some] at hr'
  exact ⟨s, s', Reachable.of_run .init hr, hp, hr', hq⟩

/-- The system without the steps that do not pass the check. -/
def restrict (M : System S L) (g : S → L → Bool) : System S L where
  init := M.init
  step s l := if g s l then M.step s l else none

theorem run_of_restrict {g : S → L → Bool} {s s' : S} {ls : List L} (h : (M.restrict g).run s ls = some s') :
    M.run s ls = some s' := by
  induction ls generalizing s with
  | nil => exact h
  | cons l ls ih =>
    obtain ⟨s₁, hl, hr⟩ := Option.bind_eq_some_iff.1 h
    simp only [restrict, Option.ite_none_right_eq_some] at hl
    rw [run_cons, hl.2]
    exact ih hr

theorem Reachable.of_restrict {G : S → L → Prop} {g : S → L → Bool}
    (hg : ∀ s l, M.Reachable s → g s l = true → G s l) {s : S} (h : (M.restrict g).Reachable s) :
    M.ReachBy G s := by
  induction h with
  | init => exact .init
  | step _ _ hs ih =>
    simp only [restrict, Option.ite_none_right_eq_some] at hs
    exact .step ih (hg _ _ ih.reachable hs.1) hs.2

/-- If every step is an operation `Op` of the represented state or nothing to it, then every state reached represents
one that the operations lead to. -/
theorem Reachable.simulation {A : Type*} {R : S → A → Prop} {Op : A → A → Prop} {a : A} (h0 : R M.init a)
    (hstep : ∀ {s l s' a}, M.Reachable s → R s a → M.step s l = some s' → ∃ a', (a' = a ∨ Op a a') ∧ R s' a') {s : S}
    (h : M.Reachable s) : ∃ a', Relation.ReflTransGen Op a a' ∧ R s a' := by
  induction h with
  | init => exact ⟨a, .refl, h0⟩
  | step hreach _ hs ih =>
    obtain ⟨a₁, hops, hR⟩ := ih
    obtain ⟨a₂, rfl | hop, hR'⟩ := hstep hreach hR hs
    · exact ⟨a₂, hops, hR'⟩
    · exact ⟨a₂, hops.tail hop, hR'⟩

/-! ### Termination -/

/-- If every state with `I` that is not final has a step that keeps `I` and decreases `μ`, then every state with
`I` runs to a final one. -/
theorem exists_final {I Final : S → Prop} {μ : S → Nat}
    (hstep : ∀ s, I s → ¬Final s → ∃ l s', M.step s l = some s' ∧ I s' ∧ μ s' < μ s) {s : S} (hs : I s) :
    ∃ ls s', M.run s ls = some s' ∧ I s' ∧ Final s' := by
  induction hn : μ s using Nat.strongRecOn generalizing s with
  | _ n ih =>
    by_cases hf : Final s
    · exact ⟨[], s, rfl, hs, hf⟩
    · obtain ⟨l, s₁, hl, hI, hlt⟩ := hstep s hs hf
      obtain ⟨ls, s', hr, hI', hf'⟩ := ih (μ s₁) (hn ▸ hlt) hI rfl
      exact ⟨l :: ls, s', by rw [run_cons, hl, Option.bind_some, hr], hI', hf'⟩

/-- If every step with a label in `A` keeps `I` and decreases `μ`, then a run of such labels is no longer than
the measure of its first state. -/
theorem run_length_le {I : S → Prop} {A : L → Prop} {μ : S → Nat}
    (hstep : ∀ {s l s'}, I s → A l → M.step s l = some s' → I s' ∧ μ s' < μ s) {s s' : S} {ls : List L}
    (hs : I s) (hA : ∀ l ∈ ls, A l) (hr : M.run s ls = some s') : ls.length ≤ μ s := by
  induction ls generalizing s with
  | nil => exact Nat.zero_le _
  | cons l ls ih =>
    rw [run_cons, Option.bind_eq_some_iff] at hr
    obtain ⟨s₁, hl, hr⟩ := hr
    obtain ⟨hI, hlt⟩ := hstep hs (hA l List.mem_cons_self) hl
    have hle : ls.length ≤ μ s₁ := ih hI (fun l' hl' => hA l' (List.mem_cons_of_mem _ hl')) hr
    rw [List.length_cons]
    omega

/-- If every step keeps `I` and does not raise `μ`, and those with a label in `A` lower it, then a run has no more of
these than the measure of its first state. -/
theorem run_countP_le {I : S → Prop} {A : L → Bool} {μ : S → Nat}
    (hstep : ∀ {s l s'}, I s → M.step s l = some s' → I s' ∧ μ s' + (A l).toNat ≤ μ s) {s s' : S} {ls : List L}
    (hs : I s) (hr : M.run s ls = some s') : ls.countP A ≤ μ s := by
  induction ls generalizing s with
  | nil => simp
  | cons l ls ih =>
    rw [run_cons, Option.bind_eq_some_iff] at hr
    obtain ⟨s₁, hl, hr⟩ := hr
    obtain ⟨hI, hle⟩ := hstep hs hl
    have hrest : ls.countP A ≤ μ s₁ := ih hI hr
    rw [List.countP_cons]
    cases hA : A l <;> simp [hA] at hle ⊢ <;> omega

end System

end Transition
