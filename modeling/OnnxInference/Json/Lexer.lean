import OnnxInference.Json

/-!
# The text of JSON

The tokens of a text, as Python's `json` module finds them.  A text that is put together from white space, fixed tokens
and strings between quotes has the tokens that it was put together from exactly when every string can stand between
quotes as it is (`lex_textOf_iff`).
-/

namespace Json

def isSpace (c : Char) : Bool := c == ' ' || c == '\t' || c == '\n' || c == '\r'

/-! ### Strings -/

def hexDigit (c : Char) : Option Nat :=
  if c.isDigit then some (c.toNat - 48)
  else if 'a' ≤ c ∧ c ≤ 'f' then some (c.toNat - 87)
  else if 'A' ≤ c ∧ c ≤ 'F' then some (c.toNat - 55)
  else none

def hex4 (a b c d : Char) : Option Nat := do
  let a ← hexDigit a
  let b ← hexDigit b
  let c ← hexDigit c
  let d ← hexDigit d
  return ((a * 16 + b) * 16 + c) * 16 + d

def escape : Char → Option Nat
  | '"' => some 34
  | '\\' => some 92
  | '/' => some 47
  | 'b' => some 8
  | 'f' => some 12
  | 'n' => some 10
  | 'r' => some 13
  | 't' => some 9
  | _ => none

/-- The units of a string up to its closing quote, and what is behind it. -/
def units : List Char → Option (List Nat × List Char)
  | [] => none
  | '"' :: cs => some ([], cs)
  | '\\' :: 'u' :: a :: b :: c :: d :: cs =>
    (hex4 a b c d).bind fun u => (units cs).map fun (us, rest) => (u :: us, rest)
  | '\\' :: c :: cs => (escape c).bind fun u => (units cs).map fun (us, rest) => (u :: us, rest)
  | c :: cs => if c.toNat < 32 then none else (units cs).map fun (us, rest) => (c.toNat :: us, rest)

def isHigh (u : Nat) : Bool := 0xd800 ≤ u && u < 0xdc00

def isLow (u : Nat) : Bool := 0xdc00 ≤ u && u < 0xe000

/-- Two halves of a surrogate pair are one code point. -/
def join : List Nat → List Nat
  | [] => []
  | [u] => [u]
  | u :: v :: us =>
    if isHigh u && isLow v then (0x10000 + (u - 0xd800) * 0x400 + (v - 0xdc00)) :: join us else u :: join (v :: us)

/-! ### Numbers -/

/-- One or more digits. -/
def digits (cs : List Char) : Option (List Char × List Char) :=
  if cs.takeWhile Char.isDigit = [] then none else some (cs.takeWhile Char.isDigit, cs.dropWhile Char.isDigit)

/-- No digit is behind a leading zero. -/
def natural : List Char → Option (Nat × List Char)
  | '0' :: cs => some (0, cs)
  | cs => (digits cs).map fun (ds, rest) => (Nat.ofDigitChars 10 ds 0, rest)

def fraction : List Char → Option (ℚ × List Char)
  | '.' :: cs => (digits cs).map fun (ds, rest) => ((Nat.ofDigitChars 10 ds 0 : ℚ) / 10 ^ ds.length, rest)
  | _ => none

def exponentDigits : List Char → Option (Int × List Char)
  | '-' :: cs => (digits cs).map fun (ds, rest) => (-(Nat.ofDigitChars 10 ds 0 : Int), rest)
  | '+' :: cs => (digits cs).map fun (ds, rest) => ((Nat.ofDigitChars 10 ds 0 : Int), rest)
  | cs => (digits cs).map fun (ds, rest) => ((Nat.ofDigitChars 10 ds 0 : Int), rest)

def exponent : List Char → Option (Int × List Char)
  | 'e' :: cs => exponentDigits cs
  | 'E' :: cs => exponentDigits cs
  | _ => none

def minus : List Char → Option (Unit × List Char)
  | '-' :: cs => some ((), cs)
  | _ => none

/-- A part that may be missing. -/
def maybe {α : Type} (f : List Char → Option (α × List Char)) (cs : List Char) : Option α × List Char :=
  match f cs with
  | some (x, rest) => (some x, rest)
  | none => (none, cs)

/-- What is behind the integer part `n`. -/
def decimals (negative : Bool) (n : Nat) (cs : List Char) : Number × List Char :=
  let (f, cs) := maybe fraction cs
  let (e, cs) := maybe exponent cs
  if f.isNone && e.isNone then
    (.int (if negative then -n else n), cs)
  else
    (.float ((if negative then -1 else 1) * ((n : ℚ) + f.getD 0) * 10 ^ e.getD 0), cs)

def numeral (cs : List Char) : Option (Number × List Char) :=
  let (m, cs) := maybe minus cs
  (natural cs).map fun (n, cs) => decimals m.isSome n cs

/-! ### Tokens -/

def words : List (List Char × Token) :=
  [(['{'], .openObject), (['}'], .closeObject), (['['], .openArray), ([']'], .closeArray), ([','], .comma),
    ([':'], .colon), (['n', 'u', 'l', 'l'], .null), (['t', 'r', 'u', 'e'], .bool true),
    (['f', 'a', 'l', 's', 'e'], .bool false), (['N', 'a', 'N'], .number .nan),
    (['I', 'n', 'f', 'i', 'n', 'i', 't', 'y'], .number (.infinity false)),
    (['-', 'I', 'n', 'f', 'i', 'n', 'i', 't', 'y'], .number (.infinity true))]

def word (cs : List Char) : Option (Token × List Char) :=
  words.findSome? fun (w, t) => (cs.dropPrefix? w).map fun rest => (t, rest)

def token : List Char → Option (Token × List Char)
  | '"' :: cs => (units cs).map fun (us, rest) => (.string (join us), rest)
  | cs => (word cs).or ((numeral cs).map fun (x, rest) => (.number x, rest))

/-- The tokens of a text.  Each character takes at most a unit of fuel. -/
def scan : Nat → List Char → Option (List Token)
  | _, [] => some []
  | 0, _ :: _ => none
  | n + 1, c :: cs =>
    if isSpace c then scan n cs
    else (token (c :: cs)).bind fun (t, rest) => (scan n rest).map fun ts => t :: ts

def lex (cs : List Char) : Option (List Token) := scan cs.length cs

/-- The value of a text. -/
def loads (cs : List Char) : Option Json := (lex cs).bind read

/-! ### A token takes at least one character -/

section Lengths

variable {cs rest : List Char}

theorem length_of_units {us : List Nat} (h : units cs = some (us, rest)) : rest.length < cs.length := by
  fun_induction units cs generalizing us with
  | case1 => cases h
  | case2 cs =>
    cases h
    simp
  | case3 a b c d cs ih =>
    obtain ⟨u, -, h⟩ := Option.bind_eq_some_iff.1 h
    obtain ⟨⟨us', rest'⟩, hus, heq⟩ := Option.map_eq_some_iff.1 h
    cases heq
    have := ih hus
    simp only [List.length_cons]
    omega
  | case4 c cs _ ih =>
    obtain ⟨u, -, h⟩ := Option.bind_eq_some_iff.1 h
    obtain ⟨⟨us', rest'⟩, hus, heq⟩ := Option.map_eq_some_iff.1 h
    cases heq
    have := ih hus
    simp only [List.length_cons]
    omega
  | case5 => cases h
  | case6 c cs _ _ _ _ ih =>
    obtain ⟨⟨us', rest'⟩, hus, heq⟩ := Option.map_eq_some_iff.1 h
    cases heq
    have := ih hus
    simp only [List.length_cons]
    omega

theorem length_of_digits {ds : List Char} (h : digits cs = some (ds, rest)) : rest.length < cs.length := by
  unfold digits at h
  split at h
  · cases h
  · rename_i hne
    cases h
    have hlen := congrArg List.length (List.takeWhile_append_dropWhile (p := Char.isDigit) (l := cs))
    have hpos := List.length_pos_iff.2 hne
    rw [List.length_append] at hlen
    omega

theorem length_of_natural {n : Nat} (h : natural cs = some (n, rest)) : rest.length < cs.length := by
  unfold natural at h
  split at h
  · cases h
    simp
  · obtain ⟨⟨ds, rest'⟩, hds, heq⟩ := Option.map_eq_some_iff.1 h
    cases heq
    exact length_of_digits hds

theorem length_of_fraction {x : ℚ} (h : fraction cs = some (x, rest)) : rest.length ≤ cs.length := by
  unfold fraction at h
  split at h
  · obtain ⟨⟨ds, rest'⟩, hds, heq⟩ := Option.map_eq_some_iff.1 h
    cases heq
    have := length_of_digits hds
    simp only [List.length_cons]
    omega
  · cases h

theorem length_of_exponentDigits {e : Int} (h : exponentDigits cs = some (e, rest)) : rest.length ≤ cs.length := by
  unfold exponentDigits at h
  split at h
  all_goals
    obtain ⟨⟨ds, rest'⟩, hds, heq⟩ := Option.map_eq_some_iff.1 h
    cases heq
    have := length_of_digits hds
  · simp only [List.length_cons]
    omega
  · simp only [List.length_cons]
    omega
  · omega

theorem length_of_exponent {e : Int} (h : exponent cs = some (e, rest)) : rest.length ≤ cs.length := by
  unfold exponent at h
  split at h
  · exact (length_of_exponentDigits h).trans (Nat.le_succ _)
  · exact (length_of_exponentDigits h).trans (Nat.le_succ _)
  · cases h

theorem length_of_minus (h : minus cs = some ((), rest)) : rest.length ≤ cs.length := by
  unfold minus at h
  split at h
  · cases h
    simp
  · cases h

theorem length_maybe {α : Type} {f : List Char → Option (α × List Char)}
    (hf : ∀ {cs x rest}, f cs = some (x, rest) → rest.length ≤ cs.length) (cs : List Char) :
    (maybe f cs).2.length ≤ cs.length := by
  unfold maybe
  split
  · rename_i h
    exact hf h
  · exact Nat.le_refl _

theorem length_decimals_le (negative : Bool) (n : Nat) (cs : List Char) :
    (decimals negative n cs).2.length ≤ cs.length := by
  have hfraction := length_maybe (f := fraction) length_of_fraction cs
  have hexponent := length_maybe (f := exponent) length_of_exponent (maybe fraction cs).2
  unfold decimals
  dsimp only
  split
  all_goals exact hexponent.trans hfraction

theorem length_of_numeral {x : Number} (h : numeral cs = some (x, rest)) : rest.length < cs.length := by
  unfold numeral at h
  obtain ⟨⟨n, cs'⟩, hn, heq⟩ := Option.map_eq_some_iff.1 h
  have hminus := length_maybe (f := minus) length_of_minus cs
  have hnatural : cs'.length < (maybe minus cs).2.length := length_of_natural hn
  have hrest : decimals (maybe minus cs).1.isSome n cs' = (x, rest) := heq
  have hdecimals := length_decimals_le (maybe minus cs).1.isSome n cs'
  rw [hrest] at hdecimals
  dsimp only at hdecimals
  omega

theorem length_of_word {t : Token} (h : word cs = some (t, rest)) : rest.length < cs.length := by
  obtain ⟨⟨w, t'⟩, hw, h⟩ := List.exists_of_findSome?_eq_some h
  obtain ⟨rest', hrest, heq⟩ := Option.map_eq_some_iff.1 h
  cases heq
  obtain ⟨w', rfl, hw'⟩ := List.dropPrefix?_eq_some_iff.1 hrest
  rw [beq_iff_eq] at hw'
  have hne : ∀ p ∈ words, 0 < p.1.length := by decide
  have hpos : 0 < w.length := hne (w, t) hw
  rw [List.length_append, hw']
  omega

theorem length_of_token {t : Token} (h : token cs = some (t, rest)) : rest.length < cs.length := by
  unfold token at h
  split at h
  · obtain ⟨⟨us, rest'⟩, hus, heq⟩ := Option.map_eq_some_iff.1 h
    cases heq
    exact (length_of_units hus).trans (Nat.lt_succ_self _)
  · rcases Option.or_eq_some_iff.1 h with h | ⟨-, h⟩
    · exact length_of_word h
    · obtain ⟨⟨x, rest'⟩, hx, heq⟩ := Option.map_eq_some_iff.1 h
      cases heq
      exact length_of_numeral hx

end Lengths

/-! ### One token after the other -/

theorem scan_congr {n m : Nat} {cs : List Char} (hn : cs.length ≤ n) (hm : cs.length ≤ m) : scan n cs = scan m cs := by
  induction n generalizing m cs with
  | zero =>
    have hnil : cs = [] := by simpa using hn
    subst hnil
    simp [scan]
  | succ n ih =>
    rcases cs with _ | ⟨c, cs⟩
    · simp [scan]
    · obtain ⟨m, rfl⟩ : ∃ k, m = k + 1 := ⟨m - 1, by simp at hm; omega⟩
      rw [List.length_cons] at hn hm
      rw [scan, scan]
      by_cases hc : isSpace c
      · rw [if_pos hc, if_pos hc]
        exact ih (by omega) (by omega)
      · rw [if_neg hc, if_neg hc]
        cases htoken : token (c :: cs) with
        | none => rfl
        | some p =>
          obtain ⟨t, rest⟩ := p
          have hlen := length_of_token htoken
          rw [List.length_cons] at hlen
          simp only [Option.bind_some]
          rw [ih (m := m) (by omega) (by omega)]

theorem lex_space {c : Char} (h : isSpace c = true) (cs : List Char) : lex (c :: cs) = lex cs := by
  rw [lex, List.length_cons, scan, if_pos h, lex]

theorem lex_cons {c : Char} (h : isSpace c = false) (cs : List Char) :
    lex (c :: cs) = (token (c :: cs)).bind fun (t, rest) => (lex rest).map fun ts => t :: ts := by
  rw [lex, List.length_cons, scan, if_neg (by simp [h])]
  cases htoken : token (c :: cs) with
  | none => rfl
  | some p =>
    obtain ⟨t, rest⟩ := p
    have hlen := length_of_token htoken
    rw [List.length_cons] at hlen
    simp only [Option.bind_some, lex]
    rw [scan_congr (m := rest.length) (by omega) (Nat.le_refl _)]

/-! ### Plain strings -/

/-- The characters stand for themselves between quotes. -/
def Plain (s : List Char) : Prop := ∀ c ∈ s, c ≠ '"' ∧ c ≠ '\\' ∧ 32 ≤ c.toNat

instance (s : List Char) : Decidable (Plain s) :=
  inferInstanceAs (Decidable (∀ c ∈ s, c ≠ '"' ∧ c ≠ '\\' ∧ 32 ≤ c.toNat))

def codes (s : List Char) : List Nat := s.map Char.toNat

theorem units_cons {c : Char} (hquote : c ≠ '"') (hslash : c ≠ '\\') (hcontrol : 32 ≤ c.toNat) (cs : List Char) :
    units (c :: cs) = (units cs).map fun (us, rest) => (c.toNat :: us, rest) := by
  rw [units, if_neg (by omega)]
  all_goals simp [hquote, hslash]

theorem units_control {c : Char} (hcontrol : c.toNat < 32) (cs : List Char) : units (c :: cs) = none := by
  have hquote : c ≠ '"' := by
    rintro rfl
    simp at hcontrol
  have hslash : c ≠ '\\' := by
    rintro rfl
    simp at hcontrol
  rw [units, if_pos hcontrol]
  all_goals simp [hquote, hslash]

theorem units_plain {s : List Char} (h : Plain s) (rest : List Char) :
    units (s ++ '"' :: rest) = some (codes s, rest) := by
  induction s with
  | nil => simp [units, codes]
  | cons c s ih =>
    obtain ⟨hquote, hslash, hcontrol⟩ := h c (by simp)
    rw [List.cons_append, units_cons hquote hslash hcontrol, ih fun x hx => h x (by simp [hx])]
    rfl

theorem ne_quote_of_hex4 {a b c d : Char} {u : Nat} (h : hex4 a b c d = some u) :
    a ≠ '"' ∧ b ≠ '"' ∧ c ≠ '"' ∧ d ≠ '"' := by
  have hquote : hexDigit '"' = none := by decide
  refine ⟨?_, ?_, ?_, ?_⟩
  all_goals
    rintro rfl
    simp [hex4, hquote] at h

/-- When what is behind the quote closes no string, the string that is read is in the text before it.  Each escape
makes it shorter than the text. -/
theorem plain_of_units {s rest rest' : List Char} {us : List Nat} (hrest : units rest = none)
    (h : units (s ++ '"' :: rest) = some (us, rest')) : us.length ≤ s.length ∧ (us.length = s.length → Plain s) := by
  generalize hcs : s ++ '"' :: rest = cs at h
  fun_induction units cs generalizing s us with
  | case1 => simp at hcs
  | case2 cs =>
    cases h
    refine ⟨Nat.zero_le _, fun hlen => ?_⟩
    rw [List.length_eq_zero_iff.1 hlen.symm]
    simp [Plain]
  | case3 a b c d cs ih =>
    obtain ⟨u, hu, h⟩ := Option.bind_eq_some_iff.1 h
    obtain ⟨⟨us', rest''⟩, hus, heq⟩ := Option.map_eq_some_iff.1 h
    cases heq
    obtain ⟨ha, hb, hc, hd⟩ := ne_quote_of_hex4 hu
    -- the quote is no hexadecimal digit, so that all four are before it
    rcases s with _ | ⟨x1, _ | ⟨x2, _ | ⟨x3, _ | ⟨x4, _ | ⟨x5, _ | ⟨x6, s⟩⟩⟩⟩⟩⟩
    case cons.cons.cons.cons.cons.cons =>
      simp only [List.cons_append, List.cons.injEq] at hcs
      have := (ih hcs.2.2.2.2.2.2 hus).1
      simp only [List.length_cons]
      omega
    all_goals
      simp only [List.cons_append, List.nil_append, List.cons.injEq] at hcs
      grind
  | case4 c cs _ ih =>
    obtain ⟨u, -, h⟩ := Option.bind_eq_some_iff.1 h
    obtain ⟨⟨us', rest''⟩, hus, heq⟩ := Option.map_eq_some_iff.1 h
    cases heq
    rcases s with _ | ⟨x, _ | ⟨y, s⟩⟩
    · simp at hcs
    · simp only [List.cons_append, List.nil_append, List.cons.injEq] at hcs
      obtain ⟨-, -, rfl⟩ := hcs
      rw [hrest] at hus
      cases hus
    · simp only [List.cons_append, List.cons.injEq] at hcs
      have := (ih hcs.2.2 hus).1
      simp only [List.length_cons]
      omega
  | case5 => cases h
  | case6 c cs hquote hu hslash hcontrol ih =>
    obtain ⟨⟨us', rest''⟩, hus, heq⟩ := Option.map_eq_some_iff.1 h
    cases heq
    rcases s with _ | ⟨x, s⟩
    · simp only [List.nil_append, List.cons.injEq] at hcs
      exact absurd hcs.1.symm hquote
    · simp only [List.cons_append, List.cons.injEq] at hcs
      obtain ⟨rfl, rfl⟩ := hcs
      obtain ⟨hle, hplain⟩ := ih rfl hus
      have hslash' : x ≠ '\\' := by
        intro hx
        obtain ⟨c, cs, hne⟩ :=
          List.exists_cons_of_ne_nil (List.append_ne_nil_of_right_ne_nil s (List.cons_ne_nil '"' rest))
        exact hslash c cs hx hne
      refine ⟨by simpa using hle, fun hlen => ?_⟩
      have hs := hplain (by simpa using hlen)
      intro y hy
      rcases List.mem_cons.1 hy with rfl | hy
      · exact ⟨hquote, hslash', by omega⟩
      · exact hs y hy

theorem length_join_le (us : List Nat) : (join us).length ≤ us.length := by
  fun_induction join us with
  | case1 | case2 => exact Nat.le_refl _
  | case3 u v us _ ih | case4 u v us _ ih =>
    simp only [List.length_cons] at ih ⊢
    omega

/-- A character is no half of a surrogate pair. -/
theorem isHigh_toNat (c : Char) : isHigh c.toNat = false := by
  have hval : c.toNat = c.val.toNat := rfl
  have hvalid : c.val.toNat < 0xd800 ∨ 0xdfff < c.val.toNat ∧ c.val.toNat < 0x110000 := c.valid
  simp only [isHigh, Bool.and_eq_false_iff, decide_eq_false_iff_not]
  omega

theorem join_codes (s : List Char) : join (codes s) = codes s := by
  induction s with
  | nil => rfl
  | cons c s ih =>
    rcases s with _ | ⟨d, s⟩
    · rfl
    · simp only [codes, List.map_cons, join, isHigh_toNat, Bool.false_and] at ih ⊢
      rw [if_neg (by simp), ih]

/-! ### Numerals -/

/-- A numeral ends here. -/
def Ends (rest : List Char) : Prop := ∀ c ∈ rest.head?, c.isDigit = false ∧ c ≠ '.' ∧ c ≠ 'e' ∧ c ≠ 'E'

theorem digits_append {ds rest : List Char} (hds : ∀ c ∈ ds, c.isDigit = true) (hne : ds ≠ [])
    (hrest : ∀ c ∈ rest.head?, c.isDigit = false) : digits (ds ++ rest) = some (ds, rest) := by
  have htake : rest.takeWhile Char.isDigit = [] := by
    rcases rest with _ | ⟨c, rest⟩
    · rfl
    · simp [hrest c rfl]
  have hdrop : rest.dropWhile Char.isDigit = rest := by
    rcases rest with _ | ⟨c, rest⟩
    · rfl
    · simp [hrest c rfl]
  rw [digits, List.takeWhile_append_of_pos hds, List.dropWhile_append_of_pos hds, htake, hdrop, List.append_nil,
    if_neg hne]

/-- The digits of a positive number do not begin with a zero. -/
theorem head_toDigits {n : Nat} (hn : 0 < n) : (Nat.toDigits 10 n).head? ≠ some '0' := by
  induction n using Nat.strongRecOn with
  | ind n ih =>
    by_cases hlt : n < 10
    · rw [Nat.toDigits_of_lt_base hlt]
      interval_cases n <;> decide
    · rw [Nat.toDigits_of_base_le (by omega) (by omega), List.head?_append_of_ne_nil _ Nat.toDigits_ne_nil]
      exact ih (n / 10) (by omega) (by omega)

theorem natural_toDigits (n : Nat) {rest : List Char} (hrest : ∀ c ∈ rest.head?, c.isDigit = false) :
    natural (Nat.toDigits 10 n ++ rest) = some (n, rest) := by
  rcases Nat.eq_zero_or_pos n with rfl | hn
  · rfl
  · have hread := digits_append (fun c hc => Nat.isDigit_of_mem_toDigits (by omega) (by omega) hc)
      (Nat.toDigits_ne_nil (n := n) (b := 10)) hrest
    rw [natural, hread]
    · simp
    · intro cs heq
      obtain ⟨d, ds, hds⟩ := List.exists_cons_of_ne_nil (Nat.toDigits_ne_nil (n := n) (b := 10))
      rw [hds, List.cons_append] at heq
      exact head_toDigits hn (by rw [hds, List.head?_cons, (List.cons.inj heq).1])

theorem decimals_int (negative : Bool) (n : Nat) {rest : List Char} (h : Ends rest) :
    decimals negative n rest = (.int (if negative then -n else n), rest) := by
  have hfraction : maybe fraction rest = (none, rest) := by
    rcases rest with _ | ⟨c, rest⟩
    · rfl
    · simp [maybe, fraction, (h c rfl).2.1]
  have hexponent : maybe exponent rest = (none, rest) := by
    rcases rest with _ | ⟨c, rest⟩
    · rfl
    · simp [maybe, exponent, (h c rfl).2.2]
  simp [decimals, hfraction, hexponent]

theorem decimals_float (negative : Bool) (n : Nat) {ds rest : List Char} (hds : ∀ c ∈ ds, c.isDigit = true)
    (hne : ds ≠ []) (h : Ends rest) :
    decimals negative n ('.' :: (ds ++ rest)) =
      (.float ((if negative then -1 else 1) * ((n : ℚ) + (Nat.ofDigitChars 10 ds 0 : ℚ) / 10 ^ ds.length)), rest) := by
  have hfraction : maybe fraction ('.' :: (ds ++ rest)) =
      (some ((Nat.ofDigitChars 10 ds 0 : ℚ) / 10 ^ ds.length), rest) := by
    simp [maybe, fraction, digits_append hds hne fun c hc => (h c hc).1]
  have hexponent : maybe exponent rest = (none, rest) := by
    rcases rest with _ | ⟨c, rest⟩
    · rfl
    · simp [maybe, exponent, (h c rfl).2.2]
  simp [decimals, hfraction, hexponent]

theorem numeral_toDigits (negative : Bool) (n : Nat) {tail : List Char} (h : ∀ c ∈ tail.head?, c.isDigit = false) :
    numeral ((if negative then ['-'] else []) ++ (Nat.toDigits 10 n ++ tail)) = some (decimals negative n tail) := by
  cases negative with
  | true => simp [numeral, maybe, minus, natural_toDigits n h]
  | false =>
    have hminus : maybe minus (Nat.toDigits 10 n ++ tail) = (none, Nat.toDigits 10 n ++ tail) := by
      obtain ⟨d, ds, hds⟩ := List.exists_cons_of_ne_nil (Nat.toDigits_ne_nil (n := n) (b := 10))
      have hd : d ≠ '-' := by
        rintro rfl
        have := Nat.isDigit_of_mem_toDigits (b := 10) (n := n) (c := '-') (by omega) (by omega) (by simp [hds])
        simp at this
      simp [hds, maybe, minus, hd]
    simp [numeral, hminus, natural_toDigits n h]

/-- No keyword begins with a digit, or with a digit behind its sign. -/
theorem word_toDigits (negative : Bool) (n : Nat) (tail : List Char) :
    word ((if negative then ['-'] else []) ++ (Nat.toDigits 10 n ++ tail)) = none := by
  obtain ⟨d, ds, hds⟩ := List.exists_cons_of_ne_nil (Nat.toDigits_ne_nil (n := n) (b := 10))
  have hd : d.isDigit = true := Nat.isDigit_of_mem_toDigits (b := 10) (n := n) (by omega) (by omega) (by simp [hds])
  have hwords : ∀ p ∈ words, p.1.head?.all (fun c => !c.isDigit) = true ∧ p.1 ≠ [] ∧
      (p.1.head? = some '-' → p.1[1]? = some 'I') := by decide
  refine List.findSome?_eq_none_iff.2 fun p hp => ?_
  obtain ⟨hhead, hne, hminus⟩ := hwords p hp
  obtain ⟨c, w, hw⟩ := List.exists_cons_of_ne_nil hne
  rw [hw] at hhead hminus
  have hc : c ≠ d := by
    rintro rfl
    simp [hd] at hhead
  cases negative with
  | false => simp [hds, hw, List.dropPrefix?, hc.symm]
  | true =>
    by_cases hm : c = '-'
    · subst hm
      obtain ⟨w, rfl⟩ : ∃ w', w = 'I' :: w' := by
        rcases w with _ | ⟨c', w⟩
        · simp at hminus
        · exact ⟨w, by simpa using hminus⟩
      have hI : d ≠ 'I' := by
        rintro rfl
        simp at hd
      simp [hds, hw, List.dropPrefix?, hI]
    · simp [hw, List.dropPrefix?, Ne.symm hm]

/-- A numeral that is written with digits is a token. -/
theorem token_toDigits (negative : Bool) (n : Nat) (tail : List Char) (h : ∀ c ∈ tail.head?, c.isDigit = false) :
    token ((if negative then ['-'] else []) ++ (Nat.toDigits 10 n ++ tail)) =
      some (.number (decimals negative n tail).1, (decimals negative n tail).2) := by
  have hword := word_toDigits negative n tail
  have hnumeral := numeral_toDigits negative n h
  have hhead : ∀ cs, (if negative then ['-'] else []) ++ (Nat.toDigits 10 n ++ tail) ≠ '"' :: cs := by
    intro cs heq
    rw [heq] at hword hnumeral
    simp [numeral, maybe, minus, natural, digits] at hnumeral
  generalize (if negative then ['-'] else []) ++ (Nat.toDigits 10 n ++ tail) = cs at hword hnumeral hhead
  rw [token, hword, hnumeral]
  · rfl
  · exact hhead

/-! ### Texts that are put together -/

inductive Piece
  | space (c : Char)
  /-- a token that is no string -/
  | solid (text : List Char) (t : Token)
  | string (s : List Char)

def Piece.text : Piece → List Char
  | .space c => [c]
  | .solid text _ => text
  | .string s => '"' :: (s ++ ['"'])

def Piece.tokens : Piece → List Token
  | .space _ => []
  | .solid _ t => [t]
  | .string s => [.string (codes s)]

def textOf (ps : List Piece) : List Char := ps.flatMap Piece.text

def tokensOf (ps : List Piece) : List Token := ps.flatMap Piece.tokens

@[simp] theorem textOf_nil : textOf [] = [] := rfl

@[simp] theorem textOf_cons (p : Piece) (ps : List Piece) : textOf (p :: ps) = p.text ++ textOf ps := List.flatMap_cons

@[simp] theorem textOf_append (ps qs : List Piece) : textOf (ps ++ qs) = textOf ps ++ textOf qs := List.flatMap_append

@[simp] theorem tokensOf_nil : tokensOf [] = [] := rfl

@[simp] theorem tokensOf_cons (p : Piece) (ps : List Piece) : tokensOf (p :: ps) = p.tokens ++ tokensOf ps :=
  List.flatMap_cons

@[simp] theorem tokensOf_append (ps qs : List Piece) : tokensOf (ps ++ qs) = tokensOf ps ++ tokensOf qs :=
  List.flatMap_append

/-- What a piece is together with the text behind it.  A string that is not plain must have no second quote behind it to
end at. -/
def Piece.Fits (rest : List Char) : Piece → Prop
  | .space c => isSpace c = true
  | .solid text t => (∃ c ∈ text.head?, isSpace c = false) ∧ token (text ++ rest) = some (t, rest)
  | .string s => Plain s ∨ units rest = none

/-- Every piece fits before the pieces and the text behind it. -/
def WellFormed (rest : List Char) : List Piece → Prop
  | [] => True
  | p :: ps => p.Fits (textOf ps ++ rest) ∧ WellFormed rest ps

theorem wellFormed_append {rest : List Char} {ps qs : List Piece} :
    WellFormed rest (ps ++ qs) ↔ WellFormed (textOf qs ++ rest) ps ∧ WellFormed rest qs := by
  induction ps with
  | nil => simp [WellFormed]
  | cons p ps ih => simp [WellFormed, ih, and_assoc]

/-- The strings of the pieces stand for themselves. -/
def AllPlain (ps : List Piece) : Prop := ∀ s, .string s ∈ ps → Plain s

@[simp] theorem allPlain_nil : AllPlain [] := by simp [AllPlain]

@[simp] theorem allPlain_append {ps qs : List Piece} : AllPlain (ps ++ qs) ↔ AllPlain ps ∧ AllPlain qs := by
  simp [AllPlain, or_imp, forall_and]

@[simp] theorem allPlain_space {c : Char} {ps : List Piece} : AllPlain (.space c :: ps) ↔ AllPlain ps := by
  simp [AllPlain]

@[simp] theorem allPlain_solid {text : List Char} {t : Token} {ps : List Piece} :
    AllPlain (.solid text t :: ps) ↔ AllPlain ps := by
  simp [AllPlain]

@[simp] theorem allPlain_string {s : List Char} {ps : List Piece} :
    AllPlain (.string s :: ps) ↔ Plain s ∧ AllPlain ps := by
  simp [AllPlain]

theorem lex_solid {text rest : List Char} {t : Token} (h : (Piece.solid text t).Fits rest) :
    lex (text ++ rest) = (lex rest).map fun ts => t :: ts := by
  obtain ⟨⟨c, hc, hspace⟩, htoken⟩ := h
  rcases text with _ | ⟨c', text⟩
  · simp at hc
  · cases hc
    rw [List.cons_append] at htoken ⊢
    rw [lex_cons hspace, htoken]
    rfl

theorem lex_quote (cs : List Char) :
    lex ('"' :: cs) = (units cs).bind fun (us, rest) => (lex rest).map fun ts => .string (join us) :: ts := by
  rw [lex_cons (by decide), token]
  cases units cs with
  | none => rfl
  | some p => rfl

theorem lex_textOf_iff {ps : List Piece} (h : WellFormed [] ps) :
    lex (textOf ps) = some (tokensOf ps) ↔ AllPlain ps := by
  induction ps with
  | nil => simp [lex, scan]
  | cons p ps ih =>
    obtain ⟨hp, hps⟩ := h
    rw [List.append_nil] at hp
    rw [textOf_cons, tokensOf_cons]
    cases p with
    | space c => simp [Piece.text, Piece.tokens, lex_space hp, ih hps]
    | solid text t => simp [Piece.text, Piece.tokens, lex_solid hp, ih hps]
    | string s =>
      have hbehind : Piece.text (.string s) ++ textOf ps = '"' :: (s ++ '"' :: textOf ps) := by simp [Piece.text]
      rw [hbehind, lex_quote]
      by_cases hs : Plain s
      · rw [units_plain hs]
        simp [Piece.tokens, join_codes, ih hps, hs]
      · refine ⟨fun heq => ?_, fun hall => absurd (allPlain_string.1 hall).1 hs⟩
        obtain ⟨⟨us, rest⟩, hus, heq⟩ := Option.bind_eq_some_iff.1 heq
        obtain ⟨ts, -, heq⟩ := Option.map_eq_some_iff.1 heq
        simp only [Piece.tokens, List.singleton_append, List.cons.injEq, Token.string.injEq] at heq
        obtain ⟨hle, hplain⟩ := plain_of_units (hp.resolve_left hs) hus
        have hjoin := length_join_le us
        rw [heq.1, codes, List.length_map] at hjoin
        exact absurd (hplain (by omega)) hs

/-- A value that is put together is read as it is exactly when its strings are plain. -/
theorem loads_textOf_iff {ps : List Piece} {x : Json} (h : WellFormed [] ps) (hx : tokensOf ps = x.tokens) :
    loads (textOf ps) = some x ↔ AllPlain ps := by
  rw [← lex_textOf_iff h, loads, Option.bind_eq_some_iff]
  constructor
  · rintro ⟨ts, hts, hread⟩
    rw [hts, read_eq_some_iff.1 hread, hx]
  · intro hlex
    exact ⟨_, hlex, read_eq_some_iff.2 hx⟩

end Json
