import Mathlib

/-!
# JSON values and their tokens

A value as a reader has it, with the members of an object in the order of the text, and the tokens that it is written
with.  The reader of the tokens gets back exactly the value that they were written for (`read_eq_some_iff`).
-/

/-- A number without a fraction and an exponent is an integer. -/
inductive Json.Number
  | int (n : Int)
  | float (x : ℚ)
  | nan
  | infinity (negative : Bool)
  deriving DecidableEq

/-- A string is a list of code points; an escape can stand for half of a surrogate pair. -/
inductive Json
  | null
  | bool (b : Bool)
  | number (x : Json.Number)
  | string (s : List Nat)
  | array (xs : List Json)
  | object (ms : List (List Nat × Json))

namespace Json

inductive Token
  | openObject
  | closeObject
  | openArray
  | closeArray
  | comma
  | colon
  | null
  | bool (b : Bool)
  | number (x : Number)
  | string (s : List Nat)
  deriving DecidableEq

/-! ### Writing -/

mutual

def tokens : Json → List Token
  | .null => [.null]
  | .bool b => [.bool b]
  | .number x => [.number x]
  | .string s => [.string s]
  | .array xs => .openArray :: (items xs ++ [.closeArray])
  | .object ms => .openObject :: (members ms ++ [.closeObject])

def items : List Json → List Token
  | [] => []
  | [x] => x.tokens
  | x :: y :: xs => x.tokens ++ .comma :: items (y :: xs)

def members : List (List Nat × Json) → List Token
  | [] => []
  | [(k, x)] => .string k :: .colon :: x.tokens
  | (k, x) :: m :: ms => .string k :: .colon :: (x.tokens ++ .comma :: members (m :: ms))

end

/-! ### Reading -/

mutual

/-- A value at the front of the tokens.  Each call takes a unit of fuel. -/
def value : Nat → List Token → Option (Json × List Token)
  | 0, _ => none
  | n + 1, ts =>
    match ts with
    | .null :: ts => some (.null, ts)
    | .bool b :: ts => some (.bool b, ts)
    | .number x :: ts => some (.number x, ts)
    | .string s :: ts => some (.string s, ts)
    | .openArray :: .closeArray :: ts => some (.array [], ts)
    | .openArray :: ts => (valuesOf n ts).map fun (xs, ts) => (.array xs, ts)
    | .openObject :: .closeObject :: ts => some (.object [], ts)
    | .openObject :: ts => (membersOf n ts).map fun (ms, ts) => (.object ms, ts)
    | _ => none

/-- The values of an array that is not empty, up to its bracket. -/
def valuesOf : Nat → List Token → Option (List Json × List Token)
  | 0, _ => none
  | n + 1, ts =>
    match value n ts with
    | some (x, .closeArray :: ts) => some ([x], ts)
    | some (x, .comma :: ts) => (valuesOf n ts).map fun (xs, ts) => (x :: xs, ts)
    | _ => none

/-- The members of an object that is not empty, up to its brace. -/
def membersOf : Nat → List Token → Option (List (List Nat × Json) × List Token)
  | 0, _ => none
  | n + 1, ts =>
    match ts with
    | .string k :: .colon :: ts =>
      match value n ts with
      | some (x, .closeObject :: ts) => some ([(k, x)], ts)
      | some (x, .comma :: ts) => (membersOf n ts).map fun (ms, ts) => ((k, x) :: ms, ts)
      | _ => none
    | _ => none

end

/-- The value that all the tokens together are. -/
def read (ts : List Token) : Option Json :=
  match value ts.length ts with
  | some (x, []) => some x
  | _ => none

/-! ### What is read has been written -/

theorem tokens_of_value {n : Nat} :
    (∀ {ts x rest}, value n ts = some (x, rest) → ts = x.tokens ++ rest) ∧
    (∀ {ts xs rest}, valuesOf n ts = some (xs, rest) → xs ≠ [] ∧ ts = items xs ++ .closeArray :: rest) ∧
    ∀ {ts ms rest}, membersOf n ts = some (ms, rest) → ms ≠ [] ∧ ts = members ms ++ .closeObject :: rest := by
  induction n with
  | zero => exact ⟨by simp [value], by simp [valuesOf], by simp [membersOf]⟩
  | succ n ih =>
    obtain ⟨ihv, ihs, ihm⟩ := ih
    refine ⟨?_, ?_, ?_⟩
    · intro ts x rest h
      unfold value at h
      split at h
      · cases h
        simp [tokens]
      · cases h
        simp [tokens]
      · cases h
        simp [tokens]
      · cases h
        simp [tokens]
      · cases h
        simp [tokens, items]
      · rename_i ts _
        obtain ⟨⟨xs, rest'⟩, hxs, heq⟩ := Option.map_eq_some_iff.1 h
        cases heq
        rw [(ihs hxs).2]
        simp [tokens]
      · cases h
        simp [tokens, members]
      · rename_i ts _
        obtain ⟨⟨ms, rest'⟩, hms, heq⟩ := Option.map_eq_some_iff.1 h
        cases heq
        rw [(ihm hms).2]
        simp [tokens]
      · cases h
    · intro ts xs rest h
      rw [valuesOf] at h
      split at h
      · rename_i x ts' hx
        cases h
        exact ⟨by simp, by rw [ihv hx, items]⟩
      · rename_i x ts' hx
        obtain ⟨⟨ys, rest'⟩, hys, heq⟩ := Option.map_eq_some_iff.1 h
        cases heq
        obtain ⟨hne, hts⟩ := ihs hys
        obtain ⟨y, ys, rfl⟩ := List.exists_cons_of_ne_nil hne
        exact ⟨by simp, by rw [ihv hx, hts, items]; simp⟩
      · cases h
    · intro ts ms rest h
      unfold membersOf at h
      split at h
      · rename_i k ts
        split at h
        · rename_i x ts' hx
          cases h
          exact ⟨by simp, by rw [ihv hx, members]; simp⟩
        · rename_i x ts' hx
          obtain ⟨⟨ns, rest'⟩, hns, heq⟩ := Option.map_eq_some_iff.1 h
          cases heq
          obtain ⟨hne, hts⟩ := ihm hns
          obtain ⟨m, ns, rfl⟩ := List.exists_cons_of_ne_nil hne
          exact ⟨by simp, by rw [ihv hx, hts, members]; simp⟩
        · cases h
      · cases h

/-! ### What is written is read -/

/-- A value begins with a token that ends no array. -/
theorem exists_head (x : Json) : ∃ t ts, x.tokens = t :: ts ∧ t ≠ .closeArray := by
  cases x <;> exact ⟨_, _, rfl, by simp⟩

theorem exists_head_items {xs : List Json} (h : xs ≠ []) : ∃ t ts, items xs = t :: ts ∧ t ≠ .closeArray := by
  obtain ⟨x, xs, rfl⟩ := List.exists_cons_of_ne_nil h
  obtain ⟨t, ts, hx, ht⟩ := exists_head x
  rcases xs with _ | ⟨y, xs⟩
  · exact ⟨t, ts, by rw [items, hx], ht⟩
  · exact ⟨t, _, by rw [items, hx, List.cons_append], ht⟩

theorem exists_head_members {ms : List (List Nat × Json)} (h : ms ≠ []) : ∃ k ts, members ms = .string k :: ts := by
  obtain ⟨⟨k, x⟩, ms, rfl⟩ := List.exists_cons_of_ne_nil h
  rcases ms with _ | ⟨m, ms⟩
  · exact ⟨k, _, by rw [members]⟩
  · exact ⟨k, _, by rw [members]⟩

theorem value_tokens {n : Nat} :
    (∀ {x : Json} rest, x.tokens.length ≤ n → value n (x.tokens ++ rest) = some (x, rest)) ∧
    (∀ {xs} rest, xs ≠ [] → (items xs).length < n → valuesOf n (items xs ++ .closeArray :: rest) = some (xs, rest)) ∧
    ∀ {ms} rest, ms ≠ [] → (members ms).length < n →
      membersOf n (members ms ++ .closeObject :: rest) = some (ms, rest) := by
  induction n with
  | zero =>
    refine ⟨fun {x} rest h => ?_, fun rest _ h => absurd h (Nat.not_lt_zero _),
      fun rest _ h => absurd h (Nat.not_lt_zero _)⟩
    obtain ⟨t, ts, hx, -⟩ := exists_head x
    simp [hx] at h
  | succ n ih =>
    obtain ⟨ihv, ihs, ihm⟩ := ih
    refine ⟨?_, ?_, ?_⟩
    · intro x rest h
      cases x with
      | null | bool | number | string => simp [tokens, value]
      | array xs =>
        by_cases hne : xs = []
        · subst hne
          simp [tokens, items, value]
        · obtain ⟨t, ts, hts, ht⟩ := exists_head_items hne
          have hlen : (items xs).length < n := by
            simp only [tokens, List.length_cons, List.length_append, List.length_nil] at h
            omega
          rw [tokens, List.cons_append, List.append_assoc, List.singleton_append, value, ihs rest hne hlen]
          · rfl
          · intro ts' heq
            rw [hts] at heq
            exact ht (List.cons.inj heq).1
      | object ms =>
        by_cases hne : ms = []
        · subst hne
          simp [tokens, members, value]
        · obtain ⟨k, ts, hts⟩ := exists_head_members hne
          have hlen : (members ms).length < n := by
            simp only [tokens, List.length_cons, List.length_append, List.length_nil] at h
            omega
          rw [tokens, List.cons_append, List.append_assoc, List.singleton_append, value, ihm rest hne hlen]
          · rfl
          · simp [hts]
    · intro xs rest hne h
      obtain ⟨x, xs, rfl⟩ := List.exists_cons_of_ne_nil hne
      rcases xs with _ | ⟨y, xs⟩
      · rw [items] at h ⊢
        simp [valuesOf, ihv _ (Nat.lt_succ_iff.1 h)]
      · simp only [items, List.length_append, List.length_cons] at h
        rw [items, List.append_assoc, valuesOf, ihv _ (by omega)]
        simp [ihs rest (List.cons_ne_nil y xs) (by omega)]
    · intro ms rest hne h
      obtain ⟨⟨k, x⟩, ms, rfl⟩ := List.exists_cons_of_ne_nil hne
      rcases ms with _ | ⟨m, ms⟩
      · simp only [members, List.length_cons] at h
        simp [members, membersOf, ihv _ (show x.tokens.length ≤ n by omega)]
      · simp only [members, List.length_append, List.length_cons] at h
        rw [members, List.cons_append, List.cons_append, List.append_assoc, membersOf]
        simp [ihv _ (show x.tokens.length ≤ n by omega), ihm rest (List.cons_ne_nil m ms) (by omega)]

/-- The tokens are read as a value exactly when they are the ones of the value. -/
theorem read_eq_some_iff {ts : List Token} {x : Json} : read ts = some x ↔ ts = x.tokens := by
  constructor
  · intro h
    rw [read] at h
    split at h
    · rename_i y hy
      cases h
      simpa using tokens_of_value.1 hy
    · cases h
  · rintro rfl
    have := value_tokens.1 (x := x) [] (Nat.le_refl _)
    rw [List.append_nil] at this
    rw [read, this]

end Json
