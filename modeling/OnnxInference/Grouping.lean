import Mathlib

/-!
# Grouping

Values that are collected under keys, one after the other.  No value is lost or counted twice, and the values of a key
keep their order (`Groups`).
-/

namespace Grouping

variable {κ α : Type} [DecidableEq κ] {groups : List (κ × List α)} {pairs : List (κ × α)}

/-- Appends `x` to the group of `k`, which is new if there is none. -/
def add (groups : List (κ × List α)) (k : κ) (x : α) : List (κ × List α) :=
  let groups := if k ∈ groups.map Prod.fst then groups else groups ++ [(k, [])]
  groups.map fun g => if g.1 = k then (g.1, g.2 ++ [x]) else g

/-- The groups hold the pairs. -/
structure Groups (groups : List (κ × List α)) (pairs : List (κ × α)) : Prop where
  nodup : (groups.map Prod.fst).Nodup
  mem_iff : ∀ k, k ∈ groups.map Prod.fst ↔ k ∈ pairs.map Prod.fst
  values : ∀ g ∈ groups, g.2 = (pairs.filter fun p => p.1 = g.1).map Prod.snd
  perm : (groups.flatMap fun g => g.2.map fun x => (g.1, x)).Perm pairs

theorem Groups.nil : Groups ([] : List (κ × List α)) [] := ⟨by simp, by simp, by simp, by simp⟩

theorem keys_map (k : κ) (x : α) (groups : List (κ × List α)) :
    (groups.map fun g => if g.1 = k then (g.1, g.2 ++ [x]) else g).map Prod.fst = groups.map Prod.fst := by
  rw [List.map_map]
  refine List.map_congr_left fun g _ => ?_
  by_cases hg : g.1 = k <;> simp [hg]

/-- The group of the key gets the value, wherever it stands. -/
theorem perm_map {k : κ} (x : α) (hnodup : (groups.map Prod.fst).Nodup) (hk : k ∈ groups.map Prod.fst) :
    ((groups.map fun g => if g.1 = k then (g.1, g.2 ++ [x]) else g).flatMap fun g => g.2.map fun y => (g.1, y)).Perm
      ((groups.flatMap fun g => g.2.map fun y => (g.1, y)) ++ [(k, x)]) := by
  induction groups with
  | nil => simp at hk
  | cons g groups ih =>
    rw [List.map_cons, List.nodup_cons] at hnodup
    by_cases hg : g.1 = k
    · subst hg
      have hrest : (groups.map fun h => if h.1 = g.1 then (h.1, h.2 ++ [x]) else h) = groups := by
        refine (List.map_congr_left fun h hh => ?_).trans (List.map_id _)
        have hne : h.1 ≠ g.1 := fun heq => hnodup.1 (heq ▸ List.mem_map_of_mem hh)
        rw [if_neg hne, id]
      rw [List.map_cons, if_pos rfl, hrest, List.flatMap_cons, List.flatMap_cons, List.map_append, List.append_assoc,
        List.append_assoc]
      exact (List.perm_append_comm).append_left _
    · have hrec := ih hnodup.2 (by simpa [Ne.symm hg] using hk)
      rw [List.map_cons, if_neg hg, List.flatMap_cons, List.flatMap_cons, List.append_assoc]
      exact hrec.append_left _

theorem Groups.add (h : Groups groups pairs) (k : κ) (x : α) : Groups (add groups k x) (pairs ++ [(k, x)]) := by
  obtain ⟨groups', hgroups, hnodup, hmem, hvalues, hperm⟩ : ∃ groups' : List (κ × List α), Grouping.add groups k x =
      (groups'.map fun g => if g.1 = k then (g.1, g.2 ++ [x]) else g) ∧ (groups'.map Prod.fst).Nodup ∧
      (∀ k', k' ∈ groups'.map Prod.fst ↔ k' ∈ pairs.map Prod.fst ∨ k' = k) ∧
      (∀ g ∈ groups', g.2 = (pairs.filter fun p => p.1 = g.1).map Prod.snd) ∧
      (groups'.flatMap fun g => g.2.map fun y => (g.1, y)).Perm pairs := by
    by_cases hk : k ∈ groups.map Prod.fst
    · refine ⟨groups, by rw [Grouping.add, if_pos hk], h.nodup, fun k' => ?_, h.values, h.perm⟩
      rw [h.mem_iff]
      refine ⟨.inl, ?_⟩
      rintro (hk' | rfl)
      · exact hk'
      · exact (h.mem_iff _).1 hk
    · have hnew : ∀ p ∈ pairs, p.1 ≠ k := by
        rintro p hp rfl
        exact hk ((h.mem_iff _).2 (List.mem_map_of_mem hp))
      refine ⟨groups ++ [(k, [])], by rw [Grouping.add, if_neg hk], ?_, fun k' => ?_, ?_, by simpa using h.perm⟩
      · rw [List.map_append, List.nodup_append]
        refine ⟨h.nodup, by simp, ?_⟩
        intro a ha b hb hab
        have hb : b = k := by simpa using hb
        exact hk (hb ▸ hab ▸ ha)
      · rw [List.map_append, List.mem_append, h.mem_iff]
        simp
      · intro g hg
        rcases List.mem_append.1 hg with hg | hg
        · exact h.values g hg
        · rw [List.mem_singleton.1 hg]
          have hfilter : (pairs.filter fun p => p.1 = k) = [] := by simpa using hnew
          simp [hfilter]
  rw [hgroups]
  refine ⟨by rwa [keys_map], fun k' => ?_, ?_, ?_⟩
  · rw [keys_map, hmem]
    simp
  · intro g hg
    obtain ⟨g', hg', rfl⟩ := List.mem_map.1 hg
    have hvalue := hvalues g' hg'
    by_cases hk : g'.1 = k
    · simp [hk, hvalue]
    · simp [hk, Ne.symm hk, hvalue]
  · have hin : k ∈ groups'.map Prod.fst := (hmem k).2 (.inr rfl)
    exact (perm_map x hnodup hin).trans (hperm.append_right _)

/-- The pairs one after the other. -/
def group (pairs : List (κ × α)) : List (κ × List α) := pairs.foldl (fun groups p => add groups p.1 p.2) []

theorem groups_foldl (ps : List (κ × α)) (h : Groups groups pairs) :
    Groups (ps.foldl (fun groups p => Grouping.add groups p.1 p.2) groups) (pairs ++ ps) := by
  induction ps generalizing groups pairs with
  | nil => simpa using h
  | cons p ps ih =>
    have := ih (h.add p.1 p.2)
    rwa [List.append_assoc, List.singleton_append] at this

theorem groups_group (pairs : List (κ × α)) : Groups (group pairs) pairs := groups_foldl pairs .nil

/-- Every pair is in one group. -/
theorem Groups.sum_length (h : Groups groups pairs) : (groups.map fun g => g.2.length).sum = pairs.length := by
  rw [← h.perm.length_eq, List.length_flatMap]
  simp

end Grouping
