import Mathlib

/-!
# Indices of a ring

A ring of `size` slots, a power of two, is addressed by machine words that are masked with `size - 1`.  The words
stand for counters that never wrap: a counter `n` is the word `n % size`, and two counters less than `size` apart can
be told from their words.
-/

namespace RingIndex

/-- The word stands for the counter `n` in a ring of this size. -/
def Is (size : Nat) (word : UInt64) (n : Nat) : Prop := word.toNat = n % size

/-- `word & (size - 1)`. -/
def mask (size word : UInt64) : UInt64 := word &&& (size - 1)

variable {size : UInt64} {k : Nat}

theorem size_lt (hsize : size.toNat = 2 ^ k) : k < 64 := by
  by_contra hk
  have hle : 2 ^ 64 ≤ 2 ^ k := Nat.pow_le_pow_right (by decide) (by omega)
  have := size.toNat_lt
  omega

theorem toNat_mask (hsize : size.toNat = 2 ^ k) (word : UInt64) : (mask size word).toNat = word.toNat % 2 ^ k := by
  have hpos := Nat.two_pow_pos k
  have hlt := size.toNat_lt
  have hpred : (size - 1).toNat = 2 ^ k - 1 := by
    rw [UInt64.toNat_sub, UInt64.toNat_one, hsize]
    omega
  rw [mask, UInt64.toNat_and, hpred, Nat.and_two_pow_sub_one_eq_mod]

/-- `word << 1` loses the highest bit. -/
theorem toNat_shiftLeft_one (word : UInt64) : (word <<< 1).toNat = 2 * word.toNat % 2 ^ 64 := by
  rw [UInt64.toNat_shiftLeft, UInt64.toNat_one, Nat.shiftLeft_eq, Nat.mul_comm]

/-- The test for a power of two takes zero for one. -/
theorem and_pred_eq_zero_iff (word : UInt64) : word &&& (word - 1) = 0 ↔ word = 0 ∨ ∃ k, word.toNat = 2 ^ k := by
  constructor
  · intro hand
    by_cases hzero : word = 0
    · exact .inl hzero
    · have hne : word.toNat ≠ 0 := fun h => hzero (UInt64.toNat_inj.1 h)
      have hsub : (word - 1).toNat = word.toNat - 1 := by
        have := word.toNat_lt
        rw [UInt64.toNat_sub, UInt64.toNat_one]
        omega
      have hand' := congrArg UInt64.toNat hand
      rw [UInt64.toNat_and, hsub, UInt64.toNat_zero] at hand'
      exact .inr ((Nat.and_sub_one_eq_zero_iff_isPowerOfTwo hne).1 hand')
  · rintro (rfl | ⟨k, hk⟩)
    · rfl
    · apply UInt64.toNat_inj.1
      have hmask := toNat_mask hk word
      rw [hk, Nat.mod_self] at hmask
      exact hmask

theorem dvd_word (hsize : size.toNat = 2 ^ k) : 2 ^ k ∣ 2 ^ 64 := Nat.pow_dvd_pow 2 (size_lt hsize).le

variable {word word' : UInt64} {n m : Nat}

theorem Is.lt (h : Is (2 ^ k) word n) : word.toNat < 2 ^ k :=
  h.symm ▸ Nat.mod_lt _ (Nat.two_pow_pos k)

/-- The next index stands for the next counter. -/
theorem Is.succ (hsize : size.toNat = 2 ^ k) (h : Is (2 ^ k) word n) :
    Is (2 ^ k) (mask size (word + 1)) (n + 1) := by
  rw [Is, toNat_mask hsize, UInt64.toNat_add, UInt64.toNat_one, Nat.mod_mod_of_dvd _ (dvd_word hsize), h,
    Nat.mod_add_mod]

/-- Counters less than the size apart with the same index are the same. -/
theorem eq_of_mod_eq {size : Nat} (hle : m ≤ n) (hlt : n < m + size) (h : n % size = m % size) : n = m := by
  have hdvd : size ∣ n - m := Nat.dvd_of_mod_eq_zero (Nat.sub_mod_eq_zero_of_mod_eq h)
  have := Nat.eq_zero_of_dvd_of_lt hdvd (by omega)
  omega

/-- The index after the last one meets the first one if and only if all slots but one are in use. -/
theorem Is.succ_eq_iff (hsize : size.toNat = 2 ^ k) (h : Is (2 ^ k) word n) (h' : Is (2 ^ k) word' m) (hle : m ≤ n)
    (hlt : n < m + 2 ^ k) : mask size (word + 1) = word' ↔ n + 1 = m + 2 ^ k := by
  rw [← UInt64.toNat_inj, h.succ hsize, h']
  constructor
  · intro heq
    rw [← Nat.add_mod_right m] at heq
    exact (eq_of_mod_eq (m := n + 1) (by omega) (by omega) heq.symm).symm
  · intro heq
    rw [heq, Nat.add_mod_right]

theorem Is.eq_iff (h : Is (2 ^ k) word n) (h' : Is (2 ^ k) word' m) (hle : m ≤ n) (hlt : n < m + 2 ^ k) :
    word' = word ↔ n = m := by
  rw [← UInt64.toNat_inj, h, h', eq_comm]
  exact ⟨eq_of_mod_eq hle hlt, fun heq => by rw [heq]⟩

/-- The masked difference of two indices is the difference of the counters. -/
theorem Is.sub (hsize : size.toNat = 2 ^ k) (h : Is (2 ^ k) word n) (h' : Is (2 ^ k) word' m) (hle : m ≤ n)
    (hlt : n < m + 2 ^ k) : (mask size (word - word')).toNat = n - m := by
  have hdvd := dvd_word hsize
  have hword := word'.toNat_lt
  have hn : word.toNat ≡ n [MOD 2 ^ k] := by rw [h]; exact Nat.mod_modEq _ _
  have hm : word'.toNat ≡ m [MOD 2 ^ k] := by rw [h']; exact Nat.mod_modEq _ _
  -- with the counter taken away added again both sides are the other counter
  have hsum : 2 ^ 64 - word'.toNat + word.toNat + m ≡ n - m + m [MOD 2 ^ k] := by
    calc 2 ^ 64 - word'.toNat + word.toNat + m
        ≡ 2 ^ 64 - word'.toNat + word.toNat + word'.toNat [MOD 2 ^ k] := Nat.ModEq.add_left _ hm.symm
      _ = 2 ^ 64 + word.toNat := by omega
      _ ≡ 0 + n [MOD 2 ^ k] := Nat.ModEq.add ((Nat.modEq_zero_iff_dvd).2 hdvd) hn
      _ = n - m + m := by omega
  rw [toNat_mask hsize, UInt64.toNat_sub, Nat.mod_mod_of_dvd _ hdvd]
  have hmod : (2 ^ 64 - word'.toNat + word.toNat) % 2 ^ k = (n - m) % 2 ^ k := Nat.ModEq.add_right_cancel' m hsum
  rw [hmod, Nat.mod_eq_of_lt (by omega)]

end RingIndex
