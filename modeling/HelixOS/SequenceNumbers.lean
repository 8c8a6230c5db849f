import Mathlib.Tactic

/-!
# Sequence numbers

The bytes of a stream are numbered from a base on, modulo `2 ^ w`.  A list of numbered segments
covers a part of the stream when it holds these bytes in order and without a gap.
-/

namespace SequenceNumbers

open BitVec

variable {w : ℕ} {β : Type*} {base : BitVec w}

def seqAt (base : BitVec w) (k : ℕ) : BitVec w := base + BitVec.ofNat w k

@[simp] lemma seqAt_zero (base : BitVec w) : seqAt base 0 = base := by
  simp [seqAt]

lemma seqAt_add (base : BitVec w) (k j : ℕ) :
    seqAt base k + BitVec.ofNat w j = seqAt base (k + j) := by
  rw [seqAt, seqAt, BitVec.ofNat_add, BitVec.add_assoc]

lemma toNat_seqAt {k : ℕ} (h : base.toNat + k < 2 ^ w) :
    (seqAt base k).toNat = base.toNat + k := by
  have hk : k < 2 ^ w := by omega
  rw [seqAt, toNat_add, toNat_ofNat, Nat.mod_eq_of_lt hk, Nat.mod_eq_of_lt h]

lemma seqAt_le_seqAt {k j : ℕ} (hk : base.toNat + k < 2 ^ w) (hj : base.toNat + j < 2 ^ w) :
    seqAt base k ≤ seqAt base j ↔ k ≤ j := by
  rw [le_def, toNat_seqAt hk, toNat_seqAt hj]
  omega

/-- The segments hold the bytes, of which the first is byte `k` of the stream. -/
def Covers (base : BitVec w) : ℕ → List (BitVec w × List β) → List β → Prop
  | _, [], bytes => bytes = []
  | k, x :: xs, bytes =>
    x.1 = seqAt base k ∧ x.2 ≠ [] ∧ x.2 <+: bytes ∧
      Covers base (k + x.2.length) xs (bytes.drop x.2.length)

variable {k : ℕ} {xs : List (BitVec w × List β)} {bytes data : List β}

lemma Covers.flatMap (h : Covers base k xs bytes) : xs.flatMap Prod.snd = bytes := by
  induction xs generalizing k bytes with
  | nil => exact h.symm
  | cons x xs ih =>
    obtain ⟨-, -, ⟨rest, rfl⟩, htail⟩ := h
    rw [List.drop_left] at htail
    rw [List.flatMap_cons, ih htail]

lemma Covers.append (h : Covers base k xs bytes) (hdata : data ≠ []) :
    Covers base k (xs ++ [(seqAt base (k + bytes.length), data)]) (bytes ++ data) := by
  induction xs generalizing k bytes with
  | nil =>
    obtain rfl : bytes = [] := h
    exact ⟨rfl, hdata, List.prefix_rfl, List.drop_length⟩
  | cons x xs ih =>
    obtain ⟨hseq, hne, ⟨rest, rfl⟩, htail⟩ := h
    rw [List.drop_left] at htail
    refine ⟨hseq, hne, ⟨rest ++ data, by simp⟩, ?_⟩
    have hend := ih htail
    rw [Nat.add_assoc, ← List.length_append] at hend
    rw [List.append_assoc, List.drop_left]
    exact hend

end SequenceNumbers
