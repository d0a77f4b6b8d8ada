import Mathlib

/-!
# Numbers in decimal notation

Integers, and numbers that are printed with a fixed number of digits behind the point, as C++ streams print them with
`std::fixed`: rounded to the nearest such number, and half-way to the even one.
-/

namespace Decimal

def integer (n : Int) : List Char := (if n < 0 then ['-'] else []) ++ Nat.toDigits 10 n.natAbs

/-! ### Rounding -/

def roundHalfEven (x : ℚ) : Nat :=
  let n := ⌊x⌋₊
  if x - n < 1 / 2 then n else if 1 / 2 < x - n then n + 1 else if n % 2 = 0 then n else n + 1

theorem roundHalfEven_cases (x : ℚ) :
    (roundHalfEven x = ⌊x⌋₊ ∧ x - ⌊x⌋₊ ≤ 1 / 2) ∨ (roundHalfEven x = ⌊x⌋₊ + 1 ∧ 1 / 2 ≤ x - ⌊x⌋₊) := by
  unfold roundHalfEven
  dsimp only
  split
  · exact .inl ⟨rfl, by linarith⟩
  · split
    · exact .inr ⟨rfl, by linarith⟩
    · split
      · exact .inl ⟨rfl, by linarith⟩
      · exact .inr ⟨rfl, by linarith⟩

theorem roundHalfEven_mono {x y : ℚ} (h : x ≤ y) : roundHalfEven x ≤ roundHalfEven y := by
  have hfloor : ⌊x⌋₊ ≤ ⌊y⌋₊ := Nat.floor_le_floor h
  obtain ⟨hx, hxle⟩ | ⟨hx, hxle⟩ := roundHalfEven_cases x
  · obtain ⟨hy, -⟩ | ⟨hy, -⟩ := roundHalfEven_cases y <;> omega
  · obtain ⟨hy, hyle⟩ | ⟨hy, -⟩ := roundHalfEven_cases y
    · by_cases heq : ⌊x⌋₊ = ⌊y⌋₊
      -- both are half-way between the same two numbers
      · rw [heq] at hxle
        exact (congrArg roundHalfEven (le_antisymm h (by linarith))).le
      · omega
    · omega

theorem abs_roundHalfEven_sub_le {x : ℚ} (h : 0 ≤ x) : |(roundHalfEven x : ℚ) - x| ≤ 1 / 2 := by
  have hle := Nat.floor_le h
  have hlt := Nat.lt_floor_add_one x
  rw [abs_le]
  obtain ⟨hx, hhalf⟩ | ⟨hx, hhalf⟩ := roundHalfEven_cases x
  · rw [hx]
    constructor <;> linarith
  · rw [hx, Nat.cast_add, Nat.cast_one]
    constructor <;> linarith

theorem roundHalfEven_natCast (n : Nat) : roundHalfEven (n : ℚ) = n := by
  simp [roundHalfEven]

/-! ### Digits behind the point -/

/-- The digits of `m` with zeros before them, `k` in all. -/
def padded (k m : Nat) : List Char := List.replicate (k - (Nat.toDigits 10 m).length) '0' ++ Nat.toDigits 10 m

theorem length_padded {k m : Nat} (hk : 0 < k) (h : m < 10 ^ k) : (padded k m).length = k := by
  have := (Nat.length_toDigits_le_iff (by omega) hk).2 h
  rw [padded, List.length_append, List.length_replicate]
  omega

theorem isDigit_of_mem_padded {k m : Nat} {c : Char} (h : c ∈ padded k m) : c.isDigit = true := by
  rcases List.mem_append.1 h with h | h
  · rw [List.eq_of_mem_replicate h]
    rfl
  · exact Nat.isDigit_of_mem_toDigits (by omega) (by omega) h

theorem ofDigitChars_padded (k m : Nat) : Nat.ofDigitChars 10 (padded k m) 0 = m := by
  rw [padded, Nat.ofDigitChars_append, Nat.ofDigitChars_replicate_zero, Nat.mul_zero, Nat.ofDigitChars_ten_toDigits]

theorem padded_ne_nil (k m : Nat) : padded k m ≠ [] :=
  List.append_ne_nil_of_right_ne_nil _ Nat.toDigits_ne_nil

/-! ### A fixed number of digits -/

/-- The absolute value in units of the last digit. -/
def scaled (k : Nat) (x : ℚ) : Nat := roundHalfEven (|x| * 10 ^ k)

def fixed (k : Nat) (x : ℚ) : List Char :=
  (if x < 0 then ['-'] else []) ++
    (Nat.toDigits 10 (scaled k x / 10 ^ k) ++ '.' :: padded k (scaled k x % 10 ^ k))

/-- The number that is printed. -/
def rounded (k : Nat) (x : ℚ) : ℚ := (if x < 0 then -1 else 1) * ((scaled k x : ℚ) / 10 ^ k)

theorem abs_rounded_sub_le (k : Nat) (x : ℚ) : |rounded k x - x| ≤ 1 / 2 / 10 ^ k := by
  have hpow : (0 : ℚ) < 10 ^ k := by positivity
  have hround := abs_roundHalfEven_sub_le (x := |x| * 10 ^ k) (by positivity)
  have hscaled : |(scaled k x : ℚ) / 10 ^ k - abs x| ≤ 1 / 2 / 10 ^ k := by
    rw [le_div_iff₀ hpow, ← abs_of_pos hpow, ← abs_mul, abs_of_pos hpow, sub_mul, div_mul_cancel₀ _ hpow.ne']
    exact hround
  unfold rounded
  split
  · rename_i hneg
    rw [abs_of_neg hneg] at hscaled
    rw [abs_sub_comm] at hscaled
    convert hscaled using 2
    ring
  · rename_i hneg
    rw [abs_of_nonneg (not_lt.1 hneg)] at hscaled
    simpa using hscaled

theorem rounded_mono (k : Nat) {x y : ℚ} (h : x ≤ y) : rounded k x ≤ rounded k y := by
  have hpow : (0 : ℚ) < 10 ^ k := by positivity
  have hscale : ∀ {u v : ℚ}, |u| ≤ |v| → (scaled k u : ℚ) / 10 ^ k ≤ (scaled k v : ℚ) / 10 ^ k := by
    intro u v huv
    have hle : scaled k u ≤ scaled k v := roundHalfEven_mono (mul_le_mul_of_nonneg_right huv hpow.le)
    gcongr
  unfold rounded
  by_cases hy : y < 0
  · have hx : x < 0 := h.trans_lt hy
    have := hscale (u := y) (v := x) (by rw [abs_of_neg hx, abs_of_neg hy]; linarith)
    rw [if_pos hx, if_pos hy]
    linarith
  · rw [if_neg hy]
    by_cases hx : x < 0
    · rw [if_pos hx]
      have hpos : ∀ u, (0 : ℚ) ≤ (scaled k u : ℚ) / 10 ^ k := fun u => by positivity
      linarith [hpos x, hpos y]
    · have := hscale (u := x) (v := y) (by rw [abs_of_nonneg (not_lt.1 hx), abs_of_nonneg (not_lt.1 hy)]; exact h)
      rw [if_neg hx]
      linarith

/-- A number that has been printed is printed as it is. -/
theorem rounded_rounded (k : Nat) (x : ℚ) : rounded k (rounded k x) = rounded k x := by
  have hpow : (10 : ℚ) ^ k ≠ 0 := by positivity
  have hnonneg : (0 : ℚ) ≤ (scaled k x : ℚ) / 10 ^ k := by positivity
  have habs : |rounded k x| = (scaled k x : ℚ) / 10 ^ k := by
    unfold rounded
    split
    · rw [neg_one_mul, abs_neg, abs_of_nonneg hnonneg]
    · rw [one_mul, abs_of_nonneg hnonneg]
  have hscaled : scaled k (rounded k x) = scaled k x := by
    rw [scaled, habs, div_mul_cancel₀ _ hpow, roundHalfEven_natCast]
  rw [rounded, hscaled]
  rcases hnonneg.eq_or_lt with hzero | hpos
  · rw [rounded, ← hzero, mul_zero, mul_zero]
  · have hsign : rounded k x < 0 ↔ x < 0 := by
      unfold rounded
      split
      · rename_i hneg
        exact ⟨fun _ => hneg, fun _ => by linarith⟩
      · rename_i hneg
        exact ⟨fun h => by linarith, fun h => absurd h hneg⟩
    simp only [hsign]
    rfl

end Decimal
