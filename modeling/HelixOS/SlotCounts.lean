import Mathlib.Tactic

/-!
# Counting the slots of a table

How often a value stands in a table whose slots may be empty, and what changes when one
slot or one row of the table is written.
-/

namespace SlotCounts

open Function

variable {ι κ α : Type*} [Fintype ι] [Fintype κ] [DecidableEq α]

def count (table : ι → Option α) (a : α) : ℕ := ∑ p, if table p = some a then 1 else 0

variable {table table' : ι → Option α} {a : α}

lemma count_congr (h : ∀ p, table p = some a ↔ table' p = some a) :
    count table a = count table' a := by
  simp only [count, h]

lemma count_eq_zero (h : ∀ p, table p ≠ some a) : count table a = 0 := by
  simp [count, h]

lemma count_le_card : count table a ≤ Fintype.card ι := by
  calc count table a ≤ ∑ _p : ι, 1 := Finset.sum_le_sum fun p _ => by split_ifs <;> simp
    _ = Fintype.card ι := by simp

lemma count_pos {p : ι} (h : table p = some a) : 0 < count table a := by
  have hle := Finset.single_le_sum (f := fun p => if table p = some a then 1 else 0)
    (fun _ _ => Nat.zero_le _) (Finset.mem_univ p)
  simp only [h, if_true] at hle
  exact hle

variable [DecidableEq ι]

lemma count_update (table : ι → Option α) (a : α) (p : ι) (x : Option α) :
    count (update table p x) a + (if table p = some a then 1 else 0) =
      count table a + if x = some a then 1 else 0 := by
  have hrest : (∑ q ∈ Finset.univ.erase p,
        if update table p x q = some a then 1 else 0) =
      ∑ q ∈ Finset.univ.erase p, if table q = some a then 1 else 0 := by
    refine Finset.sum_congr rfl fun q hq => ?_
    rw [update_of_ne (Finset.ne_of_mem_erase hq)]
  unfold count
  rw [← Finset.sum_erase_add _ _ (Finset.mem_univ p), hrest,
    ← Finset.sum_erase_add (a := p) _ (fun q => if table q = some a then 1 else 0)
      (Finset.mem_univ p), update_self]
  omega

lemma count_fill {p : ι} (hempty : table p = none) (b : α) :
    count (update table p (some b)) a = count table a + if b = a then 1 else 0 := by
  have h := count_update table a p (some b)
  simpa [hempty] using h

lemma count_clear {p : ι} {b : α} (hfull : table p = some b) :
    count (update table p none) a + (if b = a then 1 else 0) = count table a := by
  have h := count_update table a p none
  simpa [hfull] using h

/-- The value `a` in the other rows of the table. -/
def others (table : ι × κ → Option α) (i : ι) (a : α) : ℕ :=
  count (fun p => if p.1 = i then none else table p) a

lemma count_rows (table : ι × κ → Option α) (i : ι) :
    count table a = others table i a + count (fun q => table (i, q)) a := by
  have hrow (j : ι) : (∑ q : κ, if table (j, q) = some a then 1 else 0) =
      (∑ q : κ, if (if j = i then none else table (j, q)) = some a then 1 else 0) +
        if j = i then (∑ q : κ, if table (i, q) = some a then 1 else 0) else 0 := by
    by_cases hj : j = i
    · simp [hj]
    · simp [hj]
  simp only [count, others, Fintype.sum_prod_type]
  rw [Finset.sum_congr rfl fun j _ => hrow j, Finset.sum_add_distrib]
  simp

lemma others_congr {table table' : ι × κ → Option α} {i : ι}
    (h : ∀ j, j ≠ i → ∀ q, table (j, q) = table' (j, q)) :
    others table i a = others table' i a := by
  refine count_congr fun p => ?_
  split_ifs with hp
  · rfl
  · rw [← h p.1 hp p.2]

end SlotCounts
