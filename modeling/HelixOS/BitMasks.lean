import Mathlib.Data.Nat.Bitwise
import Mathlib.Tactic

/-!
# Masks and flags of fixed-width words

Rounding with complemented masks, bit fields, and flags joined by `|||`, as division,
remainder and addition.
-/

namespace BitMasks

open BitVec

variable {w : ℕ}

lemma toNat_and_not_low (x : BitVec w) (k : ℕ) :
    (x &&& ~~~(BitVec.ofNat w (2 ^ k - 1))).toNat = x.toNat / 2 ^ k * 2 ^ k := by
  apply Nat.eq_of_testBit_eq
  intro i
  rw [Nat.testBit_mul_two_pow, Nat.testBit_div_two_pow, testBit_toNat, getLsbD_and,
    getLsbD_not, getLsbD_ofNat, Nat.testBit_two_pow_sub_one]
  by_cases hki : k ≤ i
  · have hnot : ¬ i < k := by omega
    simp [hki, hnot, testBit_toNat]
    intro hbit
    exact lt_of_getLsbD hbit
  · have hlt : i < k := by omega
    simp [hki, hlt]

lemma toNat_and_low (x : BitVec w) (k : ℕ) :
    (x &&& BitVec.ofNat w (2 ^ k - 1)).toNat = x.toNat % 2 ^ k := by
  apply Nat.eq_of_testBit_eq
  intro i
  rw [Nat.testBit_mod_two_pow, testBit_toNat, getLsbD_and,
    getLsbD_ofNat, Nat.testBit_two_pow_sub_one, testBit_toNat]
  by_cases hbit : x.getLsbD i
  · have hiw : i < w := lt_of_getLsbD hbit
    simp [hiw, Bool.and_comm]
  · simp [hbit]

lemma toNat_and_field (x mask : BitVec w) (lo hi : ℕ) (hle : lo ≤ hi)
    (hmask : ∀ i, mask.getLsbD i = decide (lo ≤ i ∧ i < hi)) :
    (x &&& mask).toNat = x.toNat / 2 ^ lo % 2 ^ (hi - lo) * 2 ^ lo := by
  apply Nat.eq_of_testBit_eq
  intro i
  rw [Nat.testBit_mul_two_pow, Nat.testBit_mod_two_pow,
    Nat.testBit_div_two_pow, testBit_toNat, getLsbD_and, hmask]
  by_cases hlo : lo ≤ i
  · have hiff : i - lo < hi - lo ↔ i < hi := by omega
    simp [hlo, hiff, testBit_toNat, Bool.and_comm]
  · simp [hlo]

lemma toNat_or_low (x y : BitVec w) (k : ℕ) (hx : x.toNat % 2 ^ k = 0) (hy : y.toNat < 2 ^ k) :
    (x ||| y).toNat = x.toNat + y.toNat := by
  rw [toNat_or]
  obtain ⟨c, hc⟩ := Nat.dvd_of_mod_eq_zero hx
  rw [hc, ← Nat.two_pow_add_eq_or_of_lt hy]

lemma and_twoPow_ne_zero (x : BitVec w) (k : ℕ) :
    (x &&& BitVec.twoPow w k ≠ 0#w) ↔ x.getLsbD k = true := by
  rw [and_twoPow]
  by_cases hbit : x.getLsbD k
  · have hkw : k < w := lt_of_getLsbD hbit
    have hne : BitVec.twoPow w k ≠ 0#w := by
      intro hzero
      have hnat := congrArg BitVec.toNat hzero
      rw [toNat_twoPow_of_lt hkw, toNat_ofNat, Nat.zero_mod] at hnat
      exact (Nat.two_pow_pos k).ne' hnat
    simp [hbit, hne]
  · simp [hbit]

end BitMasks
