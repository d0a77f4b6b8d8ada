import OnnxInference.Ledger
import OnnxInference.Task
import OnnxInference.Transition

/-!
# Concurrent calls of a procedure

Any number of threads call one procedure on a shared state, and their steps interleave in any order.  A weight on
the local states that every step moves to or from a quantity of the shared state is conserved (`weight_eq`), and a
rank that every step decreases bounds the runs in which no new call starts (`calls_length_le`).
-/

namespace Concurrency

open Transition

variable {B C I O ε : Type}

/-- The shared state and the calls made so far, each at a local state or at its end. -/
structure Calls (B L O ε : Type) where
  shared : B
  calls : List (L ⊕ Except ε O)

inductive CallLabel (I C : Type)
  | call (i : I)
  | step (k : Nat) (c : C)

namespace Prog

variable (P : Prog B C I O ε)

/-- The steps of a call with the choice `c` and no other thread, at most `n`. -/
def exec (c : C) : Nat → B → P.Local → Option (B × Except ε O)
  | 0, _, _ => none
  | n + 1, b, l =>
    match P.step c b l with
    | none => none
    | some (b', .inl l') => exec c n b' l'
    | some (b', .inr r) => some (b', r)

theorem exec_of_inl {c : C} {b b' : B} {l l' : P.Local} (h : P.step c b l = some (b', .inl l')) (n : Nat) :
    P.exec c (n + 1) b l = P.exec c n b' l' := by
  simp only [exec, h]

theorem exec_of_inr {c : C} {b b' : B} {l : P.Local} {r : Except ε O}
    (h : P.step c b l = some (b', .inr r)) (n : Nat) :
    P.exec c (n + 1) b l = some (b', r) := by
  simp only [exec, h]

theorem exec_of_none {c : C} {b : B} {l : P.Local} (h : P.step c b l = none) (n : Nat) : P.exec c n b l = none := by
  cases n with
  | zero => rfl
  | succ n => simp only [exec, h]

def callsStep (s : Calls B P.Local O ε) : CallLabel I C → Option (Calls B P.Local O ε)
  | .call i => some { s with calls := s.calls ++ [.inl (P.start i)] }
  | .step k c =>
    match s.calls[k]? with
    | some (.inl l) => (P.step c s.shared l).map fun x => ⟨x.1, s.calls.set k x.2⟩
    | _ => none

/-- The calls of `P` on a state that starts as `b`. -/
def calls (b : B) : System (Calls B P.Local O ε) (CallLabel I C) := ⟨⟨b, []⟩, P.callsStep⟩

/-- One call with each argument of a list, all started. -/
def tasks (b : B) (is : List I) : System (Calls B P.Local O ε) (Nat × C) where
  init := ⟨b, is.map fun i => .inl (P.start i)⟩
  step s l := P.callsStep s (.step l.1 l.2)

/-- What the steps of a call in a run are to be recorded with, `W` for one step. -/
def trace {α : Type} (W : C → B → P.Local → List α) (k : Nat) : Calls B P.Local O ε → List (Nat × C) → List α
  | _, [] => []
  | s, (j, c) :: ls =>
    (match s.calls[j]? with
      | some (.inl l) => if j = k then W c s.shared l else []
      | _ => []) ++
    match P.callsStep s (.step j c) with
      | some s' => trace W k s' ls
      | none => []

end Prog

/-! ### Sums over the calls -/

section Weight

variable {L R A : Type} [AddCommMonoid A] (w : L → A)

/-- The weight of a local state; a call that has ended has none. -/
def weight : L ⊕ R → A
  | .inl l => w l
  | .inr _ => 0

def total (calls : List (L ⊕ R)) : A := (calls.map (weight w)).sum

@[simp] theorem weight_inl (l : L) : weight w (.inl l : L ⊕ R) = w l := rfl

@[simp] theorem weight_inr (r : R) : weight w (.inr r : L ⊕ R) = 0 := rfl

@[simp] theorem total_nil : total w ([] : List (L ⊕ R)) = 0 := rfl

@[simp] theorem total_cons (x : L ⊕ R) (calls : List (L ⊕ R)) :
    total w (x :: calls) = weight w x + total w calls := by
  simp [total]

theorem total_append_singleton (calls : List (L ⊕ R)) (x : L ⊕ R) :
    total w (calls ++ [x]) = total w calls + weight w x := by
  simp [total]

theorem total_set {calls : List (L ⊕ R)} {k : Nat} {y : L ⊕ R} (h : calls[k]? = some y) (x : L ⊕ R) :
    total w (calls.set k x) + weight w y = total w calls + weight w x :=
  Ledger.sum_map_set (weight w) h x

/-- The sum is over the calls that have not ended. -/
theorem total_eq_zero_of_ended {calls : List (L ⊕ R)} (h : ∀ x ∈ calls, ∃ r, x = .inr r) : total w calls = 0 := by
  refine List.sum_eq_zero fun a ha => ?_
  obtain ⟨x, hx, rfl⟩ := List.mem_map.1 ha
  obtain ⟨r, rfl⟩ := h x hx
  rfl

/-- A sum that is not zero has a call whose weight is not. -/
theorem exists_of_total_ne_zero {calls : List (L ⊕ R)} (h : total w calls ≠ 0) :
    ∃ (k : Nat) (l : L), calls[k]? = some (.inl l) ∧ w l ≠ 0 := by
  obtain ⟨k, l | r, hk, hne⟩ := Ledger.exists_of_sum_ne_zero (weight w) h
  · exact ⟨k, l, hk, hne⟩
  · exact absurd rfl hne

end Weight

theorem total_le {L R : Type} {w : L → Nat} {n : Nat} (h : ∀ l, w l ≤ n) (calls : List (L ⊕ R)) :
    total w calls ≤ calls.length * n := by
  refine (List.sum_le_card_nsmul _ n fun a ha => ?_).trans (by rw [List.length_map, smul_eq_mul])
  obtain ⟨l | r, -, rfl⟩ := List.mem_map.1 ha
  · exact h l
  · exact Nat.zero_le n

/-! ### Rules -/

namespace Prog

variable {P : Prog B C I O ε} {b : B}

theorem callsStep_step {s s' : Calls B P.Local O ε} {k : Nat} {c : C} (h : P.callsStep s (.step k c) = some s') :
    ∃ l b' x, s.calls[k]? = some (.inl l) ∧ P.step c s.shared l = some (b', x) ∧ s' = ⟨b', s.calls.set k x⟩ := by
  simp only [callsStep] at h
  split at h
  · rename_i l hl
    rw [Option.map_eq_some_iff] at h
    obtain ⟨⟨b', x⟩, hx, rfl⟩ := h
    exact ⟨l, b', x, hl, hx, rfl⟩
  · cases h

theorem callsStep_of {s : Calls B P.Local O ε} {k : Nat} {c : C} {l : P.Local} {x : B × (P.Local ⊕ Except ε O)}
    (hl : s.calls[k]? = some (.inl l)) (hx : P.step c s.shared l = some x) :
    P.callsStep s (.step k c) = some ⟨x.1, s.calls.set k x.2⟩ := by
  simp [callsStep, hl, hx]

/-- What every allowed step moves between the shared state and the weight of its call is conserved. -/
theorem weight_eq {A : Type} [AddCancelCommMonoid A] {G : Calls B P.Local O ε → CallLabel I C → Prop} (f : B → A)
    (w : P.Local → A) (hstart : ∀ i, w (P.start i) = 0)
    (hstep : ∀ {s k c l b' x}, (P.calls b).ReachBy G s → G s (.step k c) → s.calls[k]? = some (.inl l) →
      P.step c s.shared l = some (b', x) → f b' + weight w x = f s.shared + w l)
    {s : Calls B P.Local O ε} (h : (P.calls b).ReachBy G s) : f s.shared + total w s.calls = f b := by
  induction h with
  | init => exact add_zero _
  | @step s s' l hreach hG hs ih =>
    cases l with
    | call i =>
      cases hs
      show f s.shared + total w (s.calls ++ [.inl (P.start i)]) = f b
      rw [total_append_singleton, weight_inl, hstart, add_zero, ih]
    | step k c =>
      obtain ⟨l, b', x, hl, hx, rfl⟩ := callsStep_step hs
      have h1 := hstep hreach hG hl hx
      have h2 := total_set w hl x
      rw [weight_inl] at h2
      show f b' + total w (s.calls.set k x) = f b
      -- both sides with the weight of the call before and after the step
      refine add_right_cancel (b := weight w x + w l) ?_
      calc f b' + total w (s.calls.set k x) + (weight w x + w l)
          = (f b' + weight w x) + (total w (s.calls.set k x) + w l) := by abel
        _ = (f s.shared + w l) + (total w s.calls + weight w x) := by rw [h1, h2]
        _ = f b + (weight w x + w l) := by rw [← ih]; abel

/-- The same as an upper bound, when a step may also lose something. -/
theorem weight_le {A : Type} [AddCommMonoid A] [PartialOrder A] [IsOrderedCancelAddMonoid A]
    {G : Calls B P.Local O ε → CallLabel I C → Prop} (f : B → A) (w : P.Local → A) (hstart : ∀ i, w (P.start i) = 0)
    (hstep : ∀ {s k c l b' x}, (P.calls b).ReachBy G s → G s (.step k c) → s.calls[k]? = some (.inl l) →
      P.step c s.shared l = some (b', x) → f b' + weight w x ≤ f s.shared + w l)
    {s : Calls B P.Local O ε} (h : (P.calls b).ReachBy G s) : f s.shared + total w s.calls ≤ f b := by
  induction h with
  | init => exact (add_zero _).le
  | @step s s' l hreach hG hs ih =>
    cases l with
    | call i =>
      cases hs
      show f s.shared + total w (s.calls ++ [.inl (P.start i)]) ≤ f b
      rw [total_append_singleton, weight_inl, hstart, add_zero]
      exact ih
    | step k c =>
      obtain ⟨l, b', x, hl, hx, rfl⟩ := callsStep_step hs
      have h1 := hstep hreach hG hl hx
      have h2 := total_set w hl x
      rw [weight_inl] at h2
      show f b' + total w (s.calls.set k x) ≤ f b
      refine le_of_add_le_add_right (a := weight w x + w l) ?_
      calc f b' + total w (s.calls.set k x) + (weight w x + w l)
          = (f b' + weight w x) + (total w (s.calls.set k x) + w l) := by abel
        _ ≤ (f s.shared + w l) + (total w s.calls + weight w x) := by rw [h2]; exact add_le_add_left h1 _
        _ = (f s.shared + total w s.calls) + (weight w x + w l) := by abel
        _ ≤ f b + (weight w x + w l) := add_le_add_left ih _

/-- What holds of the shared state and of every call, if each step of a call keeps both. -/
theorem calls_invariant {G : Calls B P.Local O ε → CallLabel I C → Prop} {K : B → Prop} {J : P.Local → Prop}
    (hb : K b) (hstart : ∀ {s i}, G s (.call i) → J (P.start i))
    (hstep : ∀ {c b b' l x}, K b → J l → P.step c b l = some (b', x) → K b' ∧ ∀ l', x = .inl l' → J l')
    {s : Calls B P.Local O ε} (h : (P.calls b).ReachBy G s) :
    K s.shared ∧ ∀ (k : Nat) l, s.calls[k]? = some (.inl l) → J l := by
  induction h with
  | init => exact ⟨hb, nofun⟩
  | @step s s' lb _ hG hs ih =>
    obtain ⟨hK, hJ⟩ := ih
    cases lb with
    | call i =>
      cases hs
      refine ⟨hK, fun k l hk => ?_⟩
      rw [List.getElem?_append] at hk
      split at hk
      · exact hJ k l hk
      · rw [List.getElem?_singleton] at hk
        split at hk
        · cases hk
          exact hstart hG
        · cases hk
    | step k₀ c =>
      obtain ⟨l₀, b', x, hl, hx, rfl⟩ := callsStep_step hs
      obtain ⟨hK', hJ'⟩ := hstep hK (hJ k₀ l₀ hl) hx
      refine ⟨hK', fun k l hk => ?_⟩
      rw [List.getElem?_set] at hk
      split at hk
      · split at hk
        · exact hJ' l (Option.some.injEq _ _ ▸ hk)
        · cases hk
      · exact hJ k l hk

/-- With a rank that every step decreases, a run in which no call starts is no longer than the total rank. -/
theorem calls_length_le {rank : P.Local → Nat}
    (hrank : ∀ {c b b' l x}, P.step c b l = some (b', x) → weight rank x < rank l) {s s' : Calls B P.Local O ε}
    {ls : List (CallLabel I C)} (hls : ∀ l ∈ ls, ∃ k c, l = .step k c) (hr : (P.calls b).run s ls = some s') :
    ls.length ≤ total rank s.calls := by
  refine System.run_length_le (I := fun _ => True) (A := fun l => ∃ k c, l = .step k c)
    (μ := fun s => total rank s.calls) ?_ trivial hls hr
  rintro s _ s' - ⟨k, c, rfl⟩ hs
  obtain ⟨l, b', x, hl, hx, rfl⟩ := callsStep_step hs
  have h1 := hrank hx
  have h2 := total_set rank hl x
  rw [weight_inl] at h2
  exact ⟨trivial, by show total rank (s.calls.set k x) < total rank s.calls; omega⟩

/-! ### Tasks -/

/-- All calls have ended. -/
def Ended (s : Calls B P.Local O ε) : Prop := ∀ (k : Nat) l, s.calls[k]? ≠ some (.inl l)

/-- What holds of the shared state, and of each call by its argument, if a step keeps both and does no harm to the other
calls. -/
theorem tasks_invariant {is : List I} {K : B → Prop} {J : I → B → P.Local ⊕ Except ε O → Prop} (hb : K b)
    (hstart : ∀ i ∈ is, J i b (.inl (P.start i)))
    (hstep : ∀ {i c b b' l x}, i ∈ is → K b → J i b (.inl l) → P.step c b l = some (b', x) → K b' ∧ J i b' x)
    (hframe : ∀ {j k : Nat} {i i' c b b' l x}, j ≠ k → is[j]? = some i → is[k]? = some i' → J i b (.inl l) →
      P.step c b l = some (b', x) → ∀ y, J i' b y → J i' b' y) {s : Calls B P.Local O ε}
    (h : (P.tasks b is).Reachable s) :
    K s.shared ∧ s.calls.length = is.length ∧
      ∀ (k : Nat) i y, is[k]? = some i → s.calls[k]? = some y → J i s.shared y := by
  induction h with
  | init =>
    refine ⟨hb, List.length_map _, fun k i y hi hy => ?_⟩
    have hy' : (is[k]?).map (fun i => (.inl (P.start i) : P.Local ⊕ Except ε O)) = some y :=
      (List.getElem?_map ..).symm.trans hy
    rw [hi, Option.map_some, Option.some.injEq] at hy'
    exact hy' ▸ hstart i (List.mem_of_getElem? hi)
  | @step s s' lb _ _ hs ih =>
    obtain ⟨hK, hlen, hJ⟩ := ih
    obtain ⟨k₀, c⟩ := lb
    obtain ⟨l₀, b', x, hl, hx, rfl⟩ := callsStep_step hs
    obtain ⟨i₀, hi₀⟩ : ∃ i, is[k₀]? = some i :=
      ⟨_, List.getElem?_eq_getElem (hlen ▸ (List.getElem?_eq_some_iff.1 hl).1)⟩
    have hJ₀ := hJ k₀ i₀ _ hi₀ hl
    obtain ⟨hK', hx'⟩ := hstep (List.mem_of_getElem? hi₀) hK hJ₀ hx
    refine ⟨hK', (List.length_set ..).trans hlen, fun k i y hi hy => ?_⟩
    by_cases hk : k₀ = k
    · subst hk
      rw [List.getElem?_set_self (List.getElem?_eq_some_iff.1 hl).1, Option.some.injEq] at hy
      rw [hi₀, Option.some.injEq] at hi
      exact hy ▸ hi ▸ hx'
    · rw [List.getElem?_set_ne hk] at hy
      exact hframe hk hi₀ hi hJ₀ hx y (hJ k i y hi hy)

/-- With an account of what each call is still to be recorded with, the trace is what a run has taken off it. -/
theorem trace_add {α : Type} {W : C → B → P.Local → List α} {v : P.Local ⊕ Except ε O → Multiset α}
    {K : Calls B P.Local O ε → Prop} {is : List I}
    (hK : ∀ {s l s'}, K s → (P.tasks b is).step s l = some s' → K s')
    (hW : ∀ {s : Calls B P.Local O ε} {k : Nat} {c l b' x}, K s → s.calls[k]? = some (.inl l) →
      P.step c s.shared l = some (b', x) → (W c s.shared l : Multiset α) + v x = v (.inl l))
    {s s' : Calls B P.Local O ε} {ls : List (Nat × C)} (h0 : K s) (hr : (P.tasks b is).run s ls = some s') {k : Nat}
    {y : P.Local ⊕ Except ε O} (hy : s.calls[k]? = some y) :
    ∃ y', s'.calls[k]? = some y' ∧ (P.trace W k s ls : Multiset α) + v y' = v y := by
  induction ls generalizing s y with
  | nil =>
    cases hr
    exact ⟨y, hy, zero_add _⟩
  | cons lb ls ih =>
    obtain ⟨j, c⟩ := lb
    rw [System.run_cons, Option.bind_eq_some_iff] at hr
    obtain ⟨s₁, hs, hr⟩ := hr
    have hs' : P.callsStep s (.step j c) = some s₁ := hs
    obtain ⟨l, b', x, hl, hx, hs₁⟩ := callsStep_step hs'
    have htrace : P.trace W k s ((j, c) :: ls) = (if j = k then W c s.shared l else []) ++ P.trace W k s₁ ls := by
      rw [trace, hl, hs']
    rw [htrace, ← Multiset.coe_add]
    by_cases hjk : j = k
    · subst hjk
      obtain rfl : .inl l = y := Option.some.inj (hl.symm.trans hy)
      have hx' : s₁.calls[j]? = some x := by
        rw [hs₁]
        exact List.getElem?_set_self (List.getElem?_eq_some_iff.1 hl).1
      obtain ⟨y', hy', heq⟩ := ih (hK h0 hs) hr hx'
      refine ⟨y', hy', ?_⟩
      rw [if_pos rfl, add_assoc, heq, hW h0 hl hx]
    · have hx' : s₁.calls[k]? = some y := by
        rw [hs₁]
        exact (List.getElem?_set_ne hjk).trans hy
      obtain ⟨y', hy', heq⟩ := ih (hK h0 hs) hr hx'
      refine ⟨y', hy', ?_⟩
      rw [if_neg hjk, Multiset.coe_nil, zero_add, heq]

/-- If some step is possible while a call has not ended, and every step of a call decreases a rank, then all calls
end. -/
theorem exists_ended {is : List I} {K : Calls B P.Local O ε → Prop} {rank : P.Local → Nat}
    (hK : ∀ {s l s'}, K s → (P.tasks b is).step s l = some s' → K s')
    (hrank : ∀ {c b b' l x}, P.step c b l = some (b', x) → weight rank x < rank l)
    (hstep : ∀ {s}, K s → ¬P.Ended s → ∃ l s', (P.tasks b is).step s l = some s')
    {s : Calls B P.Local O ε} (h : K s) :
    ∃ ls s', (P.tasks b is).run s ls = some s' ∧ P.Ended s' := by
  have hfinal : ∃ ls s', (P.tasks b is).run s ls = some s' ∧ K s' ∧ P.Ended s' :=
    System.exists_final (I := K) (μ := fun s => total rank s.calls) (fun s hs hf => by
      obtain ⟨⟨k, c⟩, s', hs'⟩ := hstep hs hf
      refine ⟨(k, c), s', hs', hK hs hs', ?_⟩
      obtain ⟨l, b', x, hl, hx, rfl⟩ := callsStep_step hs'
      have h1 := hrank hx
      have h2 : total rank (s.calls.set k x) + rank l = total rank s.calls + weight rank x := total_set rank hl x
      show total rank (s.calls.set k x) < total rank s.calls
      omega) h
  obtain ⟨ls, s', hr, -, hf⟩ := hfinal
  exact ⟨ls, s', hr, hf⟩

end Prog

end Concurrency
