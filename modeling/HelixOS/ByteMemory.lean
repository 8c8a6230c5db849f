import Mathlib.Tactic

/-!
# Memory of bytes

Numbers of several bytes in a memory of bytes, with the least significant byte first.
-/

namespace ByteMemory

open BitVec

abbrev Ram := ℕ → BitVec 8

def load (m : Ram) : ℕ → ℕ → ℕ
  | _, 0 => 0
  | a, k + 1 => (m a).toNat + 256 * load m (a + 1) k

def store (m : Ram) (a v k : ℕ) : Ram := fun x =>
  if a ≤ x ∧ x < a + k then BitVec.ofNat 8 (v / 256 ^ (x - a)) else m x

variable {m m' : Ram} {a b k n v : ℕ}

lemma store_outside {x : ℕ} (hx : x < a ∨ a + k ≤ x) : store m a v k x = m x := if_neg (by omega)

lemma load_congr (h : ∀ x, a ≤ x → x < a + k → m' x = m x) : load m' a k = load m a k := by
  induction k generalizing a with
  | zero => rfl
  | succ k ih =>
    rw [load, load, h a le_rfl (by omega), ih fun x hlo hhi => h x (by omega) (by omega)]

lemma load_of_bytes (h : ∀ i, i < k → m (a + i) = BitVec.ofNat 8 (v / 256 ^ i)) :
    load m a k = v % 256 ^ k := by
  induction k generalizing a v with
  | zero => simp [load, Nat.mod_one]
  | succ k ih =>
    have hfirst : m a = BitVec.ofNat 8 v := by simpa using h 0 (by omega)
    have hrest : load m (a + 1) k = v / 256 % 256 ^ k := by
      refine ih fun i hi => ?_
      have hbyte := h (i + 1) (by omega)
      rw [Nat.add_assoc, Nat.add_comm 1 i, hbyte, Nat.div_div_eq_div_mul, ← Nat.pow_succ']
    have hpow : 256 ^ (k + 1) = 256 * 256 ^ k := Nat.pow_succ'
    rw [load, hfirst, hrest, toNat_ofNat, hpow, Nat.mod_mul]

lemma load_store_self (m) (a v k) : load (store m a v k) a k = v % 256 ^ k := by
  refine load_of_bytes fun i hi => ?_
  rw [store, if_pos ⟨by omega, by omega⟩, Nat.add_sub_cancel_left]

lemma load_store_of_disjoint (h : b + n ≤ a ∨ a + k ≤ b) :
    load (store m a v k) b n = load m b n :=
  load_congr fun x hlo hhi => store_outside (by omega)

lemma load_lt (m) (a k) : load m a k < 256 ^ k := by
  induction k generalizing a with
  | zero => simp [load]
  | succ k ih =>
    have hbyte : (m a).toNat < 256 := (m a).isLt
    have hrest := ih (a + 1)
    have hpow : 256 ^ (k + 1) = 256 * 256 ^ k := Nat.pow_succ'
    rw [load, hpow]
    omega

lemma load_div (m) (a i k : ℕ) : load m a (i + k) / 256 ^ i = load m (a + i) k := by
  induction i generalizing a with
  | zero => simp
  | succ i ih =>
    have hbyte : (m a).toNat < 256 := (m a).isLt
    have hpow : 256 ^ (i + 1) = 256 * 256 ^ i := Nat.pow_succ'
    have hfirst : load m a (i + 1 + k) / 256 = load m (a + 1) (i + k) := by
      rw [show i + 1 + k = i + k + 1 by omega, load]
      omega
    rw [hpow, ← Nat.div_div_eq_div_mul, hfirst, ih, Nat.add_assoc, Nat.add_comm 1 i]

lemma store_load (m) (a k) : store m a (load m a k) k = m := by
  funext x
  by_cases hx : a ≤ x ∧ x < a + k
  · obtain ⟨i, rfl⟩ := Nat.exists_eq_add_of_le hx.1
    obtain ⟨j, rfl⟩ : ∃ j, k = i + (j + 1) := ⟨k - i - 1, by omega⟩
    rw [store, if_pos hx, Nat.add_sub_cancel_left, load_div, load]
    refine eq_of_toNat_eq ?_
    have hbyte : (m (a + i)).toNat < 256 := (m (a + i)).isLt
    rw [toNat_ofNat]
    omega
  · exact if_neg hx

end ByteMemory
