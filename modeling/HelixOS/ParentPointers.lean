import Mathlib.Tactic

/-!
# Trees given by parent pointers

A table in which every entry names its parent.  An entry is rooted if following the
parents from it reaches the root.
-/

namespace ParentPointers

open Function

variable {ι : Type*} {parent parent' : ι → Option ι} {root i p target : ι}

inductive Rooted (parent : ι → Option ι) (root : ι) : ι → Prop
  | root : Rooted parent root root
  | up {i p : ι} (hup : parent i = some p) (hp : Rooted parent root p) :
      Rooted parent root i

lemma Rooted.congr (keeps : ι → Prop)
    (hkeeps : ∀ i, keeps i → i ≠ root →
      ∃ p, keeps p ∧ parent i = some p ∧ parent' i = some p)
    (h : Rooted parent root i) (hi : keeps i) : Rooted parent' root i := by
  induction h with
  | root => exact .root
  | @up i p hup _ ih =>
    by_cases hroot : i = root
    · exact hroot ▸ .root
    · obtain ⟨q, hq, hold, hnew⟩ := hkeeps i hi hroot
      obtain rfl : p = q := Option.some.inj (hup.symm.trans hold)
      exact .up hnew (ih hq)

variable [DecidableEq ι]

lemma Rooted.reparent (hp : Rooted (update parent target (some p)) root p)
    (h : Rooted parent root i) : Rooted (update parent target (some p)) root i := by
  induction h with
  | root => exact .root
  | @up i q hup _ ih =>
    by_cases hi : i = target
    · subst hi
      exact .up (update_self ..) hp
    · exact .up (by rw [update_of_ne hi, hup]) ih

/-! ## Looking for an ancestor -/

/-- Climbs until it finds `target` or an entry without a parent; `none` when it is still under way
after the given number of entries. -/
def climb (parent : ι → Option ι) (root target : ι) : ℕ → Option ι → Option Bool
  | _, none => some false
  | 0, some _ => none
  | n + 1, some p =>
    if p = target then some true
    else if p = root then some false
    else climb parent root target n (parent p)

lemma rooted_of_climb (known : ι → Prop)
    (hknown : ∀ i, known i → i ≠ root → ∃ p, known p ∧ parent i = some p) (n : ℕ) (x : Option ι)
    (hp : known p) (hclimb : climb parent root target n (some p) = some false) :
    Rooted (update parent target x) root p := by
  induction n generalizing p with
  | zero => cases hclimb
  | succ n ih =>
    simp only [climb] at hclimb
    split_ifs at hclimb with htarget hroot
    · cases hclimb
    · exact hroot ▸ .root
    · obtain ⟨q, hq, hup⟩ := hknown p hp hroot
      rw [hup] at hclimb
      exact .up (by rw [update_of_ne htarget, hup]) (ih hq hclimb)

end ParentPointers
