import Mathlib

/-!
# The first best index

A loop over `0, …, n - 1` that keeps the best score so far and what belongs to it.  It replaces the best one by a
strictly better one only, so it ends with the first index of a maximum, or with what it started with if no score is
greater.
-/

namespace Argmax

variable {α β : Type} [LinearOrder α] (score : Nat → α) (label : Nat → β)

/-- The loop from a start value on. -/
def scan (start : α × β) (n : Nat) : α × β :=
  (List.range n).foldl (fun best c => if best.1 < score c then (score c, label c) else best) start

/-- `c` is the first index of a maximum. -/
structure IsFirst (n c : Nat) : Prop where
  lt : c < n
  le : ∀ c' < n, score c' ≤ score c
  first : ∀ c' < c, score c' < score c

variable {score label}

theorem IsFirst.unique {n c c' : Nat} (h : IsFirst score n c) (h' : IsFirst score n c') : c = c' := by
  rcases Nat.lt_trichotomy c c' with hlt | heq | hlt
  · exact absurd (h.le c' h'.lt) (not_le.2 (h'.first c hlt))
  · exact heq
  · exact absurd (h'.le c h.lt) (not_le.2 (h.first c' hlt))

/-- In the list of the scores the first best one is the maximum, at its first index. -/
theorem IsFirst.max?_eq {n c : Nat} (h : IsFirst score n c) : ((List.range n).map score).max? = some (score c) := by
  rw [List.max?_eq_some_iff]
  refine ⟨List.mem_map_of_mem (List.mem_range.2 h.lt), fun x hx => ?_⟩
  obtain ⟨c', hc', rfl⟩ := List.mem_map.1 hx
  exact h.le c' (List.mem_range.1 hc')

theorem IsFirst.idxOf_eq {n c : Nat} (h : IsFirst score n c) : ((List.range n).map score).idxOf (score c) = c := by
  have hlen : c < ((List.range n).map score).length := by simpa using h.lt
  rw [List.idxOf, List.findIdx_eq hlen]
  refine ⟨by simp, fun j hj => ?_⟩
  simpa using (h.first j hj).ne

theorem scan_succ (start : α × β) (n : Nat) : scan score label start (n + 1) =
    if (scan score label start n).1 < score n then (score n, label n) else scan score label start n := by
  rw [scan, List.range_succ, List.foldl_append, List.foldl_cons, List.foldl_nil]
  rfl

variable (score label) in
theorem scan_cases (start : α × β) (n : Nat) :
    (scan score label start n = start ∧ ∀ c < n, score c ≤ start.1) ∨
    ∃ c, IsFirst score n c ∧ start.1 < score c ∧ scan score label start n = (score c, label c) := by
  induction n with
  | zero => exact .inl ⟨rfl, nofun⟩
  | succ n ih =>
    rw [scan_succ]
    rcases ih with ⟨hs, hle⟩ | ⟨c, hc, hpos, hs⟩
    · rw [hs]
      by_cases hn : start.1 < score n
      · rw [if_pos hn]
        refine .inr ⟨n, ⟨n.lt_succ_self, fun c' hc' => ?_, fun c' hc' => (hle c' hc').trans_lt hn⟩, hn, rfl⟩
        rcases Nat.lt_succ_iff_lt_or_eq.1 hc' with hc' | rfl
        · exact ((hle c' hc').trans_lt hn).le
        · exact le_refl _
      · rw [if_neg hn]
        refine .inl ⟨rfl, fun c' hc' => ?_⟩
        rcases Nat.lt_succ_iff_lt_or_eq.1 hc' with hc' | rfl
        · exact hle c' hc'
        · exact not_lt.1 hn
    · rw [hs]
      by_cases hn : score c < score n
      · rw [if_pos hn]
        refine .inr ⟨n, ⟨n.lt_succ_self, fun c' hc' => ?_, fun c' hc' => (hc.le c' hc').trans_lt hn⟩,
          hpos.trans hn, rfl⟩
        rcases Nat.lt_succ_iff_lt_or_eq.1 hc' with hc' | rfl
        · exact ((hc.le c' hc').trans_lt hn).le
        · exact le_refl _
      · rw [if_neg hn]
        refine .inr ⟨c, ⟨Nat.lt_succ_of_lt hc.lt, fun c' hc' => ?_, hc.first⟩, hpos, rfl⟩
        rcases Nat.lt_succ_iff_lt_or_eq.1 hc' with hc' | rfl
        · exact hc.le c' hc'
        · exact not_lt.1 hn

/-- Only the scores that the loop looks at matter. -/
theorem scan_congr {score' : Nat → α} {start : α × β} {n : Nat} (h : ∀ c < n, score' c = score c) :
    scan score' label start n = scan score label start n := by
  induction n with
  | zero => rfl
  | succ n ih =>
    rw [scan_succ, scan_succ, ih fun c hc => h c (Nat.lt_succ_of_lt hc), h n n.lt_succ_self]

end Argmax
