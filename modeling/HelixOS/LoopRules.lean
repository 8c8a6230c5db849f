import Mathlib.Algebra.BigOperators.Fin
import Mathlib.Tactic

/-!
# Rules for counted loops

The induction rule for a loop over `Fin n`, and the partial sums that say how
much of a budget the first rounds have used up.
-/

namespace LoopRules

lemma foldl_invariant {σ : Type*} {n : ℕ} {body : σ → Fin n → σ} {init : σ} (P : ℕ → σ → Prop)
    (hinit : P 0 init) (hstep : ∀ (i : Fin n) s, P i.val s → P (i.val + 1) (body s i)) :
    P n (Fin.foldl n body init) := by
  induction n with
  | zero => simpa using hinit
  | succ n ih =>
    rw [Fin.foldl_succ_last]
    apply hstep (Fin.last n)
    exact ih fun i s hs => hstep i.castSucc s hs

variable {n : ℕ}

def before (cost : Fin n → ℕ) (k : ℕ) : ℕ := ∑ j, if j.val < k then cost j else 0

section

variable (cost : Fin n → ℕ)
include cost

@[simp] lemma before_zero : before cost 0 = 0 := by
  simp [before]

lemma before_succ (i : Fin n) : before cost (i.val + 1) = before cost i.val + cost i := by
  unfold before
  have hsplit : ∀ j : Fin n, (if j.val < i.val + 1 then cost j else 0) =
      (if j.val < i.val then cost j else 0) + if j = i then cost i else 0 := by
    intro j
    by_cases hj : j = i
    · subst hj
      simp
    · have hne : j.val ≠ i.val := fun h => hj (Fin.ext h)
      have hiff : j.val < i.val + 1 ↔ j.val < i.val := by omega
      simp [hj, hiff]
  rw [Finset.sum_congr rfl fun j _ => hsplit j, Finset.sum_add_distrib]
  simp

lemma before_all : before cost n = ∑ j, cost j := by
  unfold before
  apply Finset.sum_congr rfl
  intro j _
  simp [j.isLt]

lemma before_add_le (i : Fin n) : before cost i + cost i ≤ ∑ j, cost j := by
  rw [← before_succ, ← before_all]
  unfold before
  apply Finset.sum_le_sum
  intro j _
  split
  · rw [if_pos j.isLt]
  · omega

lemma before_mono {k k' : ℕ} (hle : k ≤ k') : before cost k ≤ before cost k' := by
  unfold before
  apply Finset.sum_le_sum
  intro j _
  split
  · rw [if_pos (by omega)]
  · exact Nat.zero_le _

end

end LoopRules
