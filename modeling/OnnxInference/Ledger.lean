import Mathlib

/-!
# Sums over accounts

What the sum of a weight over a list, or over the first values of a function, becomes when one entry changes.  With what
is on no account the sum stays the same, if a change moves between the two only.
-/

namespace Ledger

variable {α A : Type} [AddCommMonoid A] (w : α → A)

/-- One entry of the list changes. -/
theorem sum_map_set {l : List α} {k : Nat} {x : α} (h : l[k]? = some x) (y : α) :
    ((l.set k y).map w).sum + w x = (l.map w).sum + w y := by
  induction l generalizing k with
  | nil => simp at h
  | cons a l ih =>
    rcases k with _ | k
    · rw [List.getElem?_cons_zero, Option.some.injEq] at h
      subst h
      rw [List.set_cons_zero, List.map_cons, List.map_cons, List.sum_cons, List.sum_cons]
      abel
    · have hk := ih (k := k) (by simpa using h)
      rw [List.set_cons_succ, List.map_cons, List.map_cons, List.sum_cons, List.sum_cons, add_assoc, hk, add_assoc]

/-- The sum is one entry and the rest, which does not change with the entry. -/
theorem exists_rest {l : List α} {k : Nat} {x : α} (h : l[k]? = some x) :
    ∃ rest, (l.map w).sum = w x + rest ∧ ∀ y, ((l.set k y).map w).sum = w y + rest := by
  induction l generalizing k with
  | nil => simp at h
  | cons a l ih =>
    rcases k with _ | k
    · rw [List.getElem?_cons_zero, Option.some.injEq] at h
      subst h
      exact ⟨(l.map w).sum, by rw [List.map_cons, List.sum_cons], fun y => by
        rw [List.set_cons_zero, List.map_cons, List.sum_cons]⟩
    · obtain ⟨rest, hsum, hset⟩ := ih (k := k) (by simpa using h)
      refine ⟨w a + rest, ?_, fun y => ?_⟩
      · rw [List.map_cons, List.sum_cons, hsum, add_left_comm]
      · rw [List.set_cons_succ, List.map_cons, List.sum_cons, hset, add_left_comm]

/-- A sum that is not zero has an entry whose weight is not. -/
theorem exists_of_sum_ne_zero {l : List α} (h : (l.map w).sum ≠ 0) :
    ∃ (k : Nat) (x : α), l[k]? = some x ∧ w x ≠ 0 := by
  by_contra hno
  push Not at hno
  refine h (List.sum_eq_zero fun a ha => ?_)
  obtain ⟨x, hx, rfl⟩ := List.mem_map.1 ha
  obtain ⟨k, hk⟩ := List.mem_iff_getElem?.1 hx
  exact hno k x hk

theorem mem_sum_map {β : Type} {w : α → Multiset β} {l : List α} {p : β} : p ∈ (l.map w).sum ↔ ∃ x ∈ l, p ∈ w x := by
  induction l with
  | nil => simp
  | cons a l ih => simp [ih]

/-- One value of the function changes. -/
theorem sum_update {f : Nat → α} {n r : Nat} (hr : r < n) (y : α) :
    (∑ i ∈ Finset.range n, w (Function.update f r y i)) + w (f r) = (∑ i ∈ Finset.range n, w (f i)) + w y := by
  have hmem := Finset.mem_range.2 hr
  have hother : ∀ i ∈ (Finset.range n).erase r, w (Function.update f r y i) = w (f i) := by
    intro i hi
    rw [Function.update_of_ne (Finset.ne_of_mem_erase hi)]
  rw [← Finset.sum_erase_add _ _ hmem, ← Finset.sum_erase_add _ (fun i => w (f i)) hmem, Finset.sum_congr rfl hother,
    Function.update_self]
  abel

/-! ### Totals -/

section Total

variable {A' : Type} [AddCancelCommMonoid A'] (v : α → A') {free free' : A'}

theorem total_set {l : List α} {k : Nat} {x y : α} (h : l[k]? = some x) (hmove : free' + v y = free + v x) :
    free' + ((l.set k y).map v).sum = free + (l.map v).sum := by
  refine add_right_cancel (b := v x) ?_
  rw [add_assoc, sum_map_set v h y, add_comm (l.map v).sum, ← add_assoc, hmove]
  abel

theorem total_append {l : List α} {y : α} (hmove : free' + v y = free) :
    free' + ((l ++ [y]).map v).sum = free + (l.map v).sum := by
  rw [List.map_append, List.sum_append, List.map_singleton, List.sum_singleton, ← hmove]
  abel

theorem total_update {f : Nat → α} {n r : Nat} {y : α} (hr : r < n) (hmove : free' + v y = free + v (f r)) :
    free' + ∑ i ∈ Finset.range n, v (Function.update f r y i) = free + ∑ i ∈ Finset.range n, v (f i) := by
  refine add_right_cancel (b := v (f r)) ?_
  rw [add_assoc, sum_update v hr y, add_comm (Finset.sum _ _), ← add_assoc, hmove]
  abel

end Total

/-! ### Exclusive accounts -/

section Exclusive

/-- When no entry occurs twice in a sum it is on one account. -/
theorem index_eq_of_nodup_sum {β : Type} {w : α → Multiset β} {l : List α}
    (h : (l.map w).sum.Nodup) {j k : Nat} {x y : α}
    (hx : l[j]? = some x) (hy : l[k]? = some y) {p : β} (hpx : p ∈ w x) (hpy : p ∈ w y) : j = k := by
  induction l generalizing j k with
  | nil => simp at hx
  | cons a l ih =>
    rw [List.map_cons, List.sum_cons, Multiset.nodup_add] at h
    obtain ⟨-, hl, hdisj⟩ := h
    have hrest : ∀ {i : Nat} {z : α}, l[i]? = some z → p ∈ w z → p ∉ w a := by
      intro i z hz hpz hpa
      have hsum : p ∈ (l.map w).sum := mem_sum_map.2 ⟨z, List.mem_of_getElem? hz, hpz⟩
      exact Multiset.disjoint_left.1 hdisj hpa hsum
    rcases j with _ | j <;> rcases k with _ | k
    · rfl
    · rw [List.getElem?_cons_zero, Option.some.injEq] at hx
      exact absurd (hx ▸ hpx) (hrest (by simpa using hy) hpy)
    · rw [List.getElem?_cons_zero, Option.some.injEq] at hy
      exact absurd (hy ▸ hpy) (hrest (by simpa using hx) hpx)
    · have hjk : j = k := ih hl (by simpa using hx) (by simpa using hy)
      rw [hjk]

/-- Each of the numbers below `n` is free once and on no account, or not free and on one account. -/
structure Exclusive (n : Nat) (free : List Nat) (held : Nat → Option Nat) : Prop where
  free_lt : ∀ p ∈ free, p < n
  held_lt : ∀ k p, held k = some p → p < n
  split : ∀ p < n, (free.count p = 1 ∧ ∀ k, held k ≠ some p) ∨ p ∉ free ∧ ∃! k, held k = some p

variable {n : Nat} {free : List Nat} {held : Nat → Option Nat}

theorem Exclusive.not_free (h : Exclusive n free held) {k p : Nat} (hk : held k = some p) : p ∉ free := by
  rcases h.split p (h.held_lt k p hk) with ⟨-, hno⟩ | ⟨hfree, -⟩
  · exact absurd hk (hno k)
  · exact hfree

theorem Exclusive.eq_of_held (h : Exclusive n free held) {j k p : Nat} (hj : held j = some p) (hk : held k = some p) :
    j = k := by
  rcases h.split p (h.held_lt k p hk) with ⟨-, hno⟩ | ⟨-, i, -, huniq⟩
  · exact absurd hk (hno k)
  · exact (huniq j hj).trans (huniq k hk).symm

theorem exclusive_of_total {l : List α} {g : α → Option Nat}
    (h : (free : Multiset Nat) + (l.map fun x => ((g x).toList : Multiset Nat)).sum = Multiset.range n) :
    Exclusive n free fun k => l[k]?.bind g := by
  have hnodup : ((free : Multiset Nat) + (l.map fun x => ((g x).toList : Multiset Nat)).sum).Nodup := by
    rw [h]
    exact Multiset.nodup_range n
  obtain ⟨hfree, hsum, hdisj⟩ := Multiset.nodup_add.1 hnodup
  have hlt : ∀ p, p ∈ free ∨ p ∈ (l.map fun x => ((g x).toList : Multiset Nat)).sum ↔ p < n := by
    intro p
    rw [← Multiset.mem_range, ← h, Multiset.mem_add, Multiset.mem_coe]
  have hheld : ∀ k p : Nat, l[k]?.bind g = some p ↔ ∃ x, l[k]? = some x ∧ p ∈ ((g x).toList : Multiset Nat) := by
    intro k p
    simp [Option.bind_eq_some_iff]
  have hmem : ∀ {k p : Nat}, l[k]?.bind g = some p → p ∈ (l.map fun x => ((g x).toList : Multiset Nat)).sum := by
    intro k p hk
    obtain ⟨x, hx, hp⟩ := (hheld k p).1 hk
    exact mem_sum_map.2 ⟨x, List.mem_of_getElem? hx, hp⟩
  refine ⟨fun p hp => (hlt p).1 (.inl hp), fun k p hk => (hlt p).1 (.inr (hmem hk)), fun p hp => ?_⟩
  rcases (hlt p).2 hp with hin | hin
  · refine .inl ⟨List.count_eq_one_of_mem (Multiset.coe_nodup.1 hfree) hin, fun k hk => ?_⟩
    exact Multiset.disjoint_left.1 hdisj (Multiset.mem_coe.2 hin) (hmem hk)
  · refine .inr ⟨fun hno => Multiset.disjoint_left.1 hdisj (Multiset.mem_coe.2 hno) hin, ?_⟩
    obtain ⟨x, hx, hpx⟩ := mem_sum_map.1 hin
    obtain ⟨k, hk⟩ := List.mem_iff_getElem?.1 hx
    refine ⟨k, (hheld k p).2 ⟨x, hk, hpx⟩, fun j hj => ?_⟩
    obtain ⟨y, hy, hpy⟩ := (hheld j p).1 hj
    exact index_eq_of_nodup_sum hsum hy hk hpy hpx

/-- The same for the first values of a function, when the others hold nothing. -/
theorem exclusive_of_range {f : Nat → α} {g : α → Option Nat} {m : Nat}
    (h : (free : Multiset Nat) + ∑ i ∈ Finset.range m, ((g (f i)).toList : Multiset Nat) = Multiset.range n)
    (hzero : ∀ k, m ≤ k → g (f k) = none) : Exclusive n free fun k => g (f k) := by
  have hlist : Exclusive n free fun k => ((List.range m).map f)[k]?.bind g := by
    refine exclusive_of_total ?_
    rw [List.map_map]
    exact h
  have hsame : (fun k => ((List.range m).map f)[k]?.bind g) = fun k => g (f k) := by
    funext k
    by_cases hk : k < m
    · simp [hk]
    · rw [hzero k (by omega), List.getElem?_eq_none (by simpa using Nat.le_of_not_lt hk), Option.bind_none]
  exact hsame ▸ hlist

end Exclusive

end Ledger
