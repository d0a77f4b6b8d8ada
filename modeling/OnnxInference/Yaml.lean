import Mathlib

/-!
# YAML documents

The contents of a `YAML::Node` are read and assigned to along a path of keys through `operator[]`.  yaml-cpp is a
parameter with what is documented of this: what is assigned is found at its path, what lies on other paths stays as it
was, and where the same is there already nothing changes.  `Yaml` has the assignments as yaml-cpp makes them.
-/

/-- The contents of a `YAML::Node`. -/
class YamlNode (Y : Type) where
  scalar : String → Y
  /-- unless a scalar is on the way (`YAML::BadSubscript`) -/
  assign : Y → List String → Y → Option Y
  get : List String → Y → Option Y
  get_assign_self : ∀ {value path y y'}, assign value path y = some y' → get path y' = some value
  assign_of_get : ∀ {value path y}, get path y = some value → assign value path y = some y
  get_assign_of_get : ∀ {value path y v other y'}, get path y = some value → ¬path <+: other → ¬other <+: path →
    assign v other y = some y' → get path y' = some value

namespace YamlNode

variable {Y : Type} [YamlNode Y] {value : Y} {path : List String} {y : Y}

/-- An assignment: a path and what is assigned to it. -/
abbrev Assignment (Y : Type) := List String × Y

/-- The contents after assignments in order, up to one that fails, and whether none does. -/
def assignAll : List (Assignment Y) → Y → Y × Bool
  | [], y => (y, true)
  | a :: as, y =>
    match assign a.2 a.1 y with
    | some y' => assignAll as y'
    | none => (y, false)

/-- Each assignment in order finds its value there already, up to one that fails. -/
def Inert : List (Assignment Y) → Y → Prop
  | [], _ => True
  | a :: as, y => assign a.2 a.1 y = none ∨ get a.1 y = some a.2 ∧ Inert as y

/-- No path lies on the way of another one. -/
def Apart (a b : Assignment Y) : Prop := ¬a.1 <+: b.1 ∧ ¬b.1 <+: a.1

theorem get_assignAll_of_get {as : List (Assignment Y)} (hget : get path y = some value)
    (h : ∀ a ∈ as, Apart (path, value) a) : get path (assignAll as y).1 = some value := by
  induction as generalizing y with
  | nil => exact hget
  | cons a as ih =>
    unfold assignAll
    split
    · rename_i y' ha
      obtain ⟨h1, h2⟩ := h a List.mem_cons_self
      exact ih (get_assign_of_get hget h1 h2 ha) fun b hb => h b (List.mem_cons_of_mem _ hb)
    · exact hget

/-- Assignments to paths apart leave the contents as they were only if they find their values there: none can undo
another one. -/
theorem assignAll_eq_self_iff {as : List (Assignment Y)} (has : as.Pairwise Apart) :
    (assignAll as y).1 = y ↔ Inert as y := by
  induction as with
  | nil => exact ⟨fun _ => trivial, fun _ => rfl⟩
  | cons a as ih =>
    rw [List.pairwise_cons] at has
    unfold assignAll Inert
    cases ha : assign a.2 a.1 y with
    | none => exact ⟨fun _ => .inl rfl, fun _ => rfl⟩
    | some y' =>
      constructor
      · intro heq
        have hget : get a.1 y = some a.2 := by
          have := get_assignAll_of_get (get_assign_self ha) has.1
          rwa [heq] at this
        rw [assign_of_get hget, Option.some.injEq] at ha
        subst ha
        exact .inr ⟨hget, (ih has.2).1 heq⟩
      · rintro (hnone | ⟨hget, hrest⟩)
        · cases hnone
        · rw [assign_of_get hget, Option.some.injEq] at ha
          subst ha
          exact (ih has.2).2 hrest

end YamlNode

/-- Contents as yaml-cpp has them.  In an assignment what is missing on the way becomes a map, and a sequence becomes a
map of its indices. -/
inductive Yaml
  | null
  | scalar (s : String)
  | sequence (items : List Yaml)
  | map (entries : List (String × Yaml))

namespace Yaml

/-- The entries of the map that `operator[]` makes of a node. -/
def entries : Yaml → Option (List (String × Yaml))
  | .null => some []
  | .scalar _ => none
  | .sequence items => some (items.mapIdx fun i item => (toString i, item))
  | .map entries => some entries

/-- The first entry with the key gets another value; without one there is a new entry. -/
def setEntry (key : String) (value : Yaml) : List (String × Yaml) → List (String × Yaml)
  | [] => [(key, value)]
  | e :: es => if key = e.1 then (key, value) :: es else e :: setEntry key value es

/-- The contents after an assignment to the node at a path, unless a scalar is on the way. -/
def assign (value : Yaml) : List String → Yaml → Option Yaml
  | [], _ => some value
  | key :: path, y => y.entries.bind fun es =>
    (assign value path ((es.lookup key).getD .null)).map fun child => .map (setEntry key child es)

/-- The contents at a path. -/
def get : List String → Yaml → Option Yaml
  | [], y => some y
  | key :: path, .map es => (es.lookup key).bind (get path)
  | _ :: _, _ => none

/-! ### Entries -/

theorem lookup_cons_of_ne {key : String} {e : String × Yaml} (h : key ≠ e.1) (es : List (String × Yaml)) :
    (e :: es).lookup key = es.lookup key := by
  rw [List.lookup_cons, beq_eq_false_iff_ne.2 h]

theorem lookup_setEntry_self (key : String) (value : Yaml) (es : List (String × Yaml)) :
    (setEntry key value es).lookup key = some value := by
  induction es with
  | nil => simp [setEntry]
  | cons e es ih =>
    unfold setEntry
    split
    · simp
    · rename_i hne
      rw [lookup_cons_of_ne hne, ih]

theorem lookup_setEntry_of_ne {key other : String} (hne : other ≠ key) (value : Yaml) (es : List (String × Yaml)) :
    (setEntry key value es).lookup other = es.lookup other := by
  induction es with
  | nil => exact lookup_cons_of_ne hne []
  | cons e es ih =>
    unfold setEntry
    split
    · rename_i heq
      rw [lookup_cons_of_ne hne, lookup_cons_of_ne (heq ▸ hne)]
    · by_cases hother : other = e.1
      · subst hother
        rw [List.lookup_cons_self, List.lookup_cons_self]
      · rw [lookup_cons_of_ne hother, lookup_cons_of_ne hother, ih]

theorem setEntry_of_lookup {key : String} {value : Yaml} {es : List (String × Yaml)}
    (h : es.lookup key = some value) : setEntry key value es = es := by
  induction es with
  | nil => simp at h
  | cons e es ih =>
    unfold setEntry
    split
    · rename_i heq
      subst heq
      rw [List.lookup_cons_self, Option.some.injEq] at h
      rw [← h]
    · rename_i hne
      rw [lookup_cons_of_ne hne] at h
      rw [ih h]

/-! ### Paths -/

variable {value : Yaml} {path : List String} {y y' : Yaml}

theorem get_assign_self (h : assign value path y = some y') : get path y' = some value := by
  induction path generalizing y y' with
  | nil =>
    cases h
    rfl
  | cons key path ih =>
    rw [assign, Option.bind_eq_some_iff] at h
    obtain ⟨es, -, h⟩ := h
    obtain ⟨child, hchild, rfl⟩ := Option.map_eq_some_iff.1 h
    rw [get, lookup_setEntry_self, Option.bind_some, ih hchild]

/-- To assign what is there changes nothing. -/
theorem assign_of_get (h : get path y = some value) : assign value path y = some y := by
  induction path generalizing y with
  | nil =>
    cases h
    rfl
  | cons key path ih =>
    match y, h with
    | .map es, h =>
      rw [get, Option.bind_eq_some_iff] at h
      obtain ⟨child, hlookup, hchild⟩ := h
      rw [assign, entries, Option.bind_some, hlookup, Option.getD_some, ih hchild, Option.map_some,
        setEntry_of_lookup hlookup]

/-- What is at a path stays there when something is assigned to another one that is not on the way. -/
theorem get_assign_of_get {other : List String} {v : Yaml} (hget : get path y = some value) (h : ¬path <+: other)
    (h' : ¬other <+: path) (ha : assign v other y = some y') : get path y' = some value := by
  induction path generalizing y y' other with
  | nil => exact absurd (List.nil_prefix) h
  | cons key path ih =>
    cases other with
    | nil => exact absurd (List.nil_prefix) h'
    | cons key' other =>
      match y, hget with
      | .map es, hget =>
        rw [get, Option.bind_eq_some_iff] at hget
        obtain ⟨child, hlookup, hchild⟩ := hget
        rw [assign, entries, Option.bind_some] at ha
        obtain ⟨child', hchild', rfl⟩ := Option.map_eq_some_iff.1 ha
        by_cases hkey : key = key'
        · subst hkey
          rw [List.cons_prefix_cons, not_and] at h h'
          rw [hlookup, Option.getD_some] at hchild'
          rw [get, lookup_setEntry_self, Option.bind_some]
          exact ih hchild (h rfl) (h' rfl) hchild'
        · rw [get, lookup_setEntry_of_ne hkey, hlookup, Option.bind_some, hchild]

instance : YamlNode Yaml where
  scalar := scalar
  assign := assign
  get := get
  get_assign_self := get_assign_self
  assign_of_get := assign_of_get
  get_assign_of_get := get_assign_of_get

end Yaml
