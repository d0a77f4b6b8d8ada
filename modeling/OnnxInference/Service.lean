import Mathlib

/-!
# Services that answer requests

A service accepts requests in order and answers each of them at most once, with something that the request admits.  In
which order the answers come is left open, and so is whether they come at all.  What the operations lead to from a state
is described by what is there in the end (`ops_iff`): requests and answers are only added, and those that are added are
admitted.  So a program refines the service if each of its steps adds requests and admitted answers only.
-/

namespace Service

variable {Q A : Type}

/-- The requests accepted so far, and what each has been answered. -/
structure State (Q A : Type) where
  requests : List Q
  answer : Nat → Option A

/-- What a service does. -/
inductive Op (Admits : Q → A → Prop) : State Q A → State Q A → Prop
  | submit (s : State Q A) (q : Q) : Op Admits s { s with requests := s.requests ++ [q] }
  | answer {s : State Q A} {r : Nat} {q : Q} {a : A} (request : s.requests[r]? = some q) (owed : s.answer r = none)
      (admits : Admits q a) : Op Admits s { s with answer := Function.update s.answer r (some a) }

abbrev Ops (Admits : Q → A → Prop) : State Q A → State Q A → Prop := Relation.ReflTransGen (Op Admits)

variable {Admits : Q → A → Prop} {s s' s'' : State Q A}

/-- Requests and answers have only been added. -/
structure Continues (s s' : State Q A) : Prop where
  requests : s.requests <+: s'.requests
  answers : ∀ r a, s.answer r = some a → s'.answer r = some a

theorem Continues.refl (s : State Q A) : Continues s s := ⟨List.prefix_rfl, fun _ _ h => h⟩

theorem Continues.trans (h : Continues s s') (h' : Continues s' s'') : Continues s s'' :=
  ⟨h.requests.trans h'.requests, fun r a ha => h'.answers r a (h.answers r a ha)⟩

/-- The answers that `s'` has and `s` has not are admitted. -/
def Admitted (Admits : Q → A → Prop) (s s' : State Q A) : Prop :=
  ∀ r a, s.answer r = none → s'.answer r = some a → ∃ q, s'.requests[r]? = some q ∧ Admits q a

theorem Op.continues (h : Op Admits s s') : Continues s s' := by
  cases h with
  | submit q => exact ⟨List.prefix_append _ _, fun _ _ h => h⟩
  | @answer r q a request owed =>
    refine ⟨List.prefix_rfl, fun r' a' ha => ?_⟩
    have hne : r' ≠ r := by
      rintro rfl
      rw [owed] at ha
      cases ha
    exact (Function.update_of_ne hne _ _).trans ha

theorem Op.admitted (h : Op Admits s s') : Admitted Admits s s' := by
  cases h with
  | submit q =>
    intro r a hnone hsome
    rw [hnone] at hsome
    cases hsome
  | @answer r q a request owed admits =>
    intro r' a' hnone hsome
    dsimp only at hsome
    by_cases hr : r' = r
    · subst hr
      rw [Function.update_self, Option.some.injEq] at hsome
      exact ⟨q, request, hsome ▸ admits⟩
    · rw [Function.update_of_ne hr, hnone] at hsome
      cases hsome

theorem getElem?_of_prefix {l l' : List Q} (h : l <+: l') {r : Nat} {q : Q} (hq : l[r]? = some q) :
    l'[r]? = some q := by
  obtain ⟨rest, rfl⟩ := h
  rw [List.getElem?_append_left (List.getElem?_eq_some_iff.1 hq).1]
  exact hq

theorem Ops.continues (h : Ops Admits s s') : Continues s s' := by
  induction h with
  | refl => exact .refl s
  | tail _ hop ih => exact ih.trans hop.continues

theorem Ops.admitted (h : Ops Admits s s') : Admitted Admits s s' := by
  induction h with
  | refl =>
    intro r a hnone hsome
    rw [hnone] at hsome
    cases hsome
  | @tail s₁ s₂ hops hop ih =>
    intro r a hnone hsome
    rcases hs : s₁.answer r with _ | a₁
    · exact hop.admitted r a hs hsome
    · obtain ⟨q, hq, hadm⟩ := ih r a₁ hnone hs
      have heq := hop.continues.answers r a₁ hs
      rw [hsome, Option.some.injEq] at heq
      exact ⟨q, getElem?_of_prefix hop.continues.requests hq, heq ▸ hadm⟩

/-- Any requests can be submitted. -/
theorem ops_submit (Admits : Q → A → Prop) (answer : Nat → Option A) (l rest : List Q) :
    Ops Admits ⟨l, answer⟩ ⟨l ++ rest, answer⟩ := by
  induction rest generalizing l with
  | nil =>
    rw [List.append_nil]
  | cons q rest ih =>
    have h := ih (l ++ [q])
    rw [List.append_assoc] at h
    exact .head (.submit _ q) h

/-- Answers that are admitted can be given, one request after the other. -/
theorem ops_answer {l : List Q} {f g : Nat → Option A} (hkeep : ∀ r a, f r = some a → g r = some a)
    (hadm : ∀ r a, f r = none → g r = some a → ∃ q, l[r]? = some q ∧ Admits q a) (n : Nat) :
    Ops Admits ⟨l, f⟩ ⟨l, fun r => if r < n then g r else f r⟩ := by
  induction n with
  | zero =>
    simp only [Nat.not_lt_zero, if_false]
    rfl
  | succ n ih =>
    have hsame : (fun r => if r < n + 1 then g r else f r) =
        Function.update (fun r => if r < n then g r else f r) n (g n) := by
      funext r
      by_cases hr : r = n
      · simp [hr]
      · have hlt : r < n + 1 ↔ r < n := by omega
        simp [hlt, Function.update_of_ne hr]
    rw [hsame]
    rcases hf : f n with _ | a
    · rcases hg : g n with _ | a
      · have hnone : (if n < n then g n else f n) = none := by simp [hf]
        rw [← hnone, Function.update_eq_self_iff.2 rfl]
        exact ih
      · obtain ⟨q, hq, ha⟩ := hadm n a hf hg
        exact ih.tail (.answer hq (by simp [hf]) ha)
    · have hold : (if n < n then g n else f n) = some a := by simp [hf]
      rw [hkeep n a hf, ← hold, Function.update_eq_self_iff.2 rfl]
      exact ih

/-- What the operations lead to. -/
theorem ops_iff : Ops Admits s s' ↔ Continues s s' ∧ Admitted Admits s s' := by
  constructor
  · intro h
    exact ⟨h.continues, h.admitted⟩
  · rintro ⟨⟨hreq, hkeep⟩, hadm⟩
    obtain ⟨rest, hrest⟩ := hreq
    have hsubmit := ops_submit Admits s.answer s.requests rest
    rw [hrest] at hsubmit
    have hanswer := ops_answer hkeep (fun r a hnone hsome => hadm r a hnone hsome) s'.requests.length
    have hend : (fun r => if r < s'.requests.length then s'.answer r else s.answer r) = s'.answer := by
      funext r
      by_cases hr : r < s'.requests.length
      · simp [hr]
      · rw [if_neg hr]
        rcases hs : s.answer r with _ | a
        · rcases hs' : s'.answer r with _ | a
          · rfl
          · obtain ⟨q, hq, -⟩ := hadm r a hs hs'
            exact absurd (List.getElem?_eq_some_iff.1 hq).1 hr
        · exact (hkeep r a hs).symm
    rw [hend] at hanswer
    exact hsubmit.trans hanswer

theorem Ops.mono {Admits' : Q → A → Prop} (hadm : ∀ q a, Admits q a → Admits' q a) (h : Ops Admits s s') :
    Ops Admits' s s' := by
  refine ops_iff.2 ⟨h.continues, fun r a hnone ha => ?_⟩
  obtain ⟨q, hq, hqa⟩ := h.admitted r a hnone ha
  exact ⟨q, hq, hadm q a hqa⟩

/-! ### Answers that are admitted -/

/-- Every answer is one that its request admits. -/
def Sound (Admits : Q → A → Prop) (s : State Q A) : Prop :=
  ∀ r a, s.answer r = some a → ∃ q, s.requests[r]? = some q ∧ Admits q a

theorem Sound.admitted (h : Sound Admits s') : Admitted Admits s s' := fun r a _ ha => h r a ha

end Service
