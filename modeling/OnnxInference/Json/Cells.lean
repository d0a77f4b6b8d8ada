import OnnxInference.Decimal
import OnnxInference.Json.Lexer

/-!
# Objects that are printed member by member

The values that a program prints without looking at them: strings between quotes, and numbers in decimal notation.
-/

namespace Json

inductive Cell
  | string (s : List Char)
  | bool (b : Bool)
  | int (n : Int)
  /-- a number with `k` digits behind the point -/
  | fixed (k : Nat) (x : ℚ)

def Cell.toJson : Cell → Json
  | .string s => .string (codes s)
  | .bool b => .bool b
  | .int n => .number (.int n)
  | .fixed k x => .number (.float (Decimal.rounded k x))

def Cell.piece : Cell → Piece
  | .string s => .string s
  | .bool b => .solid (if b then ['t', 'r', 'u', 'e'] else ['f', 'a', 'l', 's', 'e']) (.bool b)
  | .int n => .solid (Decimal.integer n) (.number (.int n))
  | .fixed k x => .solid (Decimal.fixed k x) (.number (.float (Decimal.rounded k x)))

def Cell.Plain : Cell → Prop
  | .string s => Json.Plain s
  | _ => True

/-- A point is followed by digits. -/
def Cell.Valid : Cell → Prop
  | .fixed k _ => 0 < k
  | _ => True

theorem tokens_piece (c : Cell) : c.piece.tokens = c.toJson.tokens := by
  cases c <;> simp [Cell.piece, Cell.toJson, Piece.tokens, tokens]

/-! ### Punctuation -/

def openBrace : Piece := .solid ['{'] .openObject

def closeBrace : Piece := .solid ['}'] .closeObject

def openBracket : Piece := .solid ['['] .openArray

def closeBracket : Piece := .solid [']'] .closeArray

def comma : Piece := .solid [','] .comma

def colon : Piece := .solid [':'] .colon

def newline : Piece := .space '\n'

def indent (n : Nat) : List Piece := List.replicate n (.space ' ')

theorem fits_punctuation (rest : List Char) :
    openBrace.Fits rest ∧ closeBrace.Fits rest ∧ openBracket.Fits rest ∧ closeBracket.Fits rest ∧ comma.Fits rest ∧
      colon.Fits rest ∧ newline.Fits rest := by
  simp [openBrace, closeBrace, openBracket, closeBracket, comma, colon, newline, Piece.Fits, token, word, words,
    List.dropPrefix?, isSpace]

/-! ### Cells -/

theorem token_integer (n : Int) {rest : List Char} (h : Ends rest) :
    token (Decimal.integer n ++ rest) = some (.number (.int n), rest) := by
  have htoken := token_toDigits (decide (n < 0)) n.natAbs rest fun c hc => (h c hc).1
  rw [decimals_int _ _ h] at htoken
  have hvalue : (if decide (n < 0) = true then -(n.natAbs : Int) else n.natAbs) = n := by
    simp only [decide_eq_true_eq]
    split <;> omega
  rw [hvalue] at htoken
  simpa [Decimal.integer] using htoken

theorem token_fixed {k : Nat} (hk : 0 < k) (x : ℚ) {rest : List Char} (h : Ends rest) :
    token (Decimal.fixed k x ++ rest) = some (.number (.float (Decimal.rounded k x)), rest) := by
  have hpow : 0 < 10 ^ k := Nat.pow_pos (by omega)
  have htoken := token_toDigits (decide (x < 0)) (Decimal.scaled k x / 10 ^ k)
    ('.' :: (Decimal.padded k (Decimal.scaled k x % 10 ^ k) ++ rest)) (by simp)
  rw [decimals_float _ _ (fun _ => Decimal.isDigit_of_mem_padded) (Decimal.padded_ne_nil _ _) h,
    Decimal.ofDigitChars_padded, Decimal.length_padded hk (Nat.mod_lt _ hpow)] at htoken
  have hvalue : (if decide (x < 0) = true then (-1 : ℚ) else 1) * (((Decimal.scaled k x / 10 ^ k : Nat) : ℚ) +
      ((Decimal.scaled k x % 10 ^ k : Nat) : ℚ) / 10 ^ k) = Decimal.rounded k x := by
    have hsplit : ((Decimal.scaled k x : Nat) : ℚ) =
        10 ^ k * ((Decimal.scaled k x / 10 ^ k : Nat) : ℚ) + ((Decimal.scaled k x % 10 ^ k : Nat) : ℚ) := by
      exact_mod_cast (Nat.div_add_mod (Decimal.scaled k x) (10 ^ k)).symm
    simp only [decide_eq_true_eq, Decimal.rounded]
    rw [hsplit]
    field_simp
  rw [hvalue] at htoken
  simpa [Decimal.fixed] using htoken

/-- A numeral begins with its sign or a digit. -/
theorem exists_head_toDigits (negative : Prop) [Decidable negative] (n : Nat) (tail : List Char) :
    ∃ c ∈ ((if negative then ['-'] else []) ++ (Nat.toDigits 10 n ++ tail)).head?, isSpace c = false := by
  by_cases hneg : negative
  · exact ⟨'-', by simp [hneg], by decide⟩
  · obtain ⟨d, ds, hds⟩ := List.exists_cons_of_ne_nil (Nat.toDigits_ne_nil (n := n) (b := 10))
    have hd := Nat.isDigit_of_mem_toDigits (b := 10) (n := n) (c := d) (by omega) (by omega) (by simp [hds])
    refine ⟨d, by simp [hneg, hds], ?_⟩
    by_contra hspace
    simp only [isSpace, Bool.not_eq_false, Bool.or_eq_true, beq_iff_eq] at hspace
    obtain ((rfl | rfl) | rfl) | rfl := hspace <;> simp at hd

theorem fits_piece {c : Cell} (hc : c.Valid) {rest : List Char} (hends : Ends rest)
    (hclosed : c.Plain ∨ units rest = none) : c.piece.Fits rest := by
  cases c with
  | string s => exact hclosed
  | bool b => cases b <;> simp [Cell.piece, Piece.Fits, token, word, words, List.dropPrefix?, isSpace]
  | int n => exact ⟨by simpa [Decimal.integer] using exists_head_toDigits (n < 0) n.natAbs [], token_integer n hends⟩
  | fixed k x => exact ⟨exists_head_toDigits (x < 0) _ _, token_fixed hc x hends⟩

/-! ### Members -/

def key (k : List Char) : List Piece := [.string k, colon, .space ' ']

@[simp] theorem textOf_indent (n : Nat) : textOf (indent n) = List.replicate n ' ' := by
  induction n with
  | zero => rfl
  | succ n ih =>
    rw [indent, List.replicate_succ, textOf_cons, ← indent, ih]
    rfl

@[simp] theorem textOf_key (k : List Char) : textOf (key k) = '"' :: (k ++ ['"', ':', ' ']) := by
  simp [key, colon, Piece.text]

@[simp] theorem tokensOf_key (k : List Char) : tokensOf (key k) = [.string (codes k), .colon] := rfl

/-- The members of an object, with white space before and behind each. -/
def layout (pre post : List Piece) : List (List Char × Cell) → List Piece
  | [] => []
  | [(k, c)] => pre ++ key k ++ c.piece :: post
  | (k, c) :: m :: ms => pre ++ key k ++ c.piece :: comma :: post ++ layout pre post (m :: ms)

def fields (ms : List (List Char × Cell)) : List (List Nat × Json) := ms.map fun (k, c) => (codes k, c.toJson)

theorem mem_fields {ms : List (List Char × Cell)} {k : List Char} {c : Cell} (h : (k, c) ∈ ms) :
    (codes k, c.toJson) ∈ fields ms :=
  List.mem_map_of_mem h

def Blank (ps : List Piece) : Prop := ∀ p ∈ ps, ∃ c, p = .space c ∧ isSpace c = true

theorem tokensOf_blank {ps : List Piece} (h : Blank ps) : tokensOf ps = [] := by
  refine List.flatMap_eq_nil_iff.2 fun p hp => ?_
  obtain ⟨c, rfl, -⟩ := h p hp
  rfl

theorem wellFormed_blank {ps : List Piece} (h : Blank ps) (rest : List Char) : WellFormed rest ps := by
  induction ps with
  | nil => trivial
  | cons p ps ih =>
    obtain ⟨c, rfl, hc⟩ := h p (by simp)
    exact ⟨hc, ih fun q hq => h q (by simp [hq])⟩

theorem blank_indent (n : Nat) : Blank (indent n) := by
  intro p hp
  exact ⟨' ', List.eq_of_mem_replicate hp, by decide⟩

section Layout

variable {pre post : List Piece} {ms : List (List Char × Cell)}

theorem tokensOf_layout (hpre : Blank pre) (hpost : Blank post) :
    tokensOf (layout pre post ms) = members (fields ms) := by
  have hcomma : comma.tokens = [.comma] := rfl
  fun_induction layout pre post ms with
  | case1 => simp [fields, members]
  | case2 k c => simp [fields, members, tokensOf_blank hpre, tokensOf_blank hpost, tokens_piece]
  | case3 k c m ms ih =>
    simp [tokensOf_blank hpre, tokensOf_blank hpost, tokens_piece, ih, fields, members, hcomma]

theorem wellFormed_key {k : List Char} (hk : Plain k) (rest : List Char) : WellFormed rest (key k) :=
  ⟨.inl hk, (fits_punctuation _).2.2.2.2.2.1, rfl, trivial⟩

/-- A cell is followed by a comma, or by the white space behind the last member. -/
theorem wellFormed_layout (hpre : Blank pre) (hpost : Blank post) (hms : ∀ m ∈ ms, Plain m.1 ∧ m.2.Valid)
    {rest : List Char} (hends : Ends (textOf post ++ rest))
    (hclosed : (∀ m ∈ ms, m.2.Plain) ∨ ∀ cs, units (textOf post ++ cs) = none) :
    WellFormed rest (layout pre post ms) := by
  fun_induction layout pre post ms with
  | case1 => trivial
  | case2 k c =>
    obtain ⟨hk, hc⟩ := hms (k, c) (by simp)
    refine wellFormed_append.2 ⟨wellFormed_append.2 ⟨wellFormed_blank hpre _, wellFormed_key hk _⟩, ?_,
      wellFormed_blank hpost _⟩
    refine fits_piece hc hends ?_
    rcases hclosed with h | h
    · exact .inl (h (k, c) (by simp))
    · exact .inr (h _)
  | case3 k c m ms ih =>
    obtain ⟨hk, hc⟩ := hms (k, c) (by simp)
    have hrec := ih (fun m' hm' => hms m' (by simp [hm'])) (hclosed.imp_left fun h m' hm' => h m' (by simp [hm']))
    refine wellFormed_append.2 ⟨wellFormed_append.2 ⟨wellFormed_append.2 ⟨wellFormed_blank hpre _,
      wellFormed_key hk _⟩, ?_, (fits_punctuation _).2.2.2.2.1, wellFormed_blank hpost _⟩, hrec⟩
    refine fits_piece hc ?_ ?_
    · simp [Ends, comma, Piece.text]
    · rcases hclosed with h | h
      · exact .inl (h (k, c) (by simp))
      · refine .inr ?_
        have hcomma := units_cons (c := ',') (by decide) (by decide) (by decide)
          (textOf post ++ (textOf (layout pre post (m :: ms)) ++ rest))
        rw [h] at hcomma
        simpa [comma, Piece.text] using hcomma

theorem allPlain_blank {ps : List Piece} (h : Blank ps) : AllPlain ps := by
  intro s hs
  obtain ⟨c, heq, -⟩ := h _ hs
  cases heq

theorem allPlain_piece {c : Cell} {ps : List Piece} : AllPlain (c.piece :: ps) ↔ c.Plain ∧ AllPlain ps := by
  cases c <;> simp [Cell.piece, Cell.Plain]

theorem allPlain_key {k : List Char} : AllPlain (key k) ↔ Plain k := by
  simp [key, colon]

/-- The strings of the members are plain when those of the cells are. -/
theorem allPlain_layout (hpre : Blank pre) (hpost : Blank post) (hms : ∀ m ∈ ms, Plain m.1) :
    AllPlain (layout pre post ms) ↔ ∀ m ∈ ms, m.2.Plain := by
  fun_induction layout pre post ms with
  | case1 => simp
  | case2 k c =>
    have hk : Plain k := hms (k, c) (by simp)
    simp [allPlain_blank hpre, allPlain_blank hpost, allPlain_key, allPlain_piece, hk]
  | case3 k c m ms ih =>
    have hk : Plain k := hms (k, c) (by simp)
    have hrec := ih fun m' hm' => hms m' (by simp [hm'])
    simp [allPlain_blank hpre, allPlain_blank hpost, allPlain_key, allPlain_piece, hk, hrec, comma]

end Layout

end Json
