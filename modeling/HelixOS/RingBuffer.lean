import Mathlib.Tactic

/-!
# Ring buffers

An array of `n` cells used as a queue: values are stored at `head` and taken from `tail`,
and both indices wrap around.  The values in the buffer are read off from `tail` on.
-/

structure RingBuffer (α : Type*) (n : ℕ) where
  buf : Fin n → α
  head : Fin n
  tail : Fin n
  count : ℕ

namespace RingBuffer

open Function List

variable {α : Type*} {n : ℕ} [NeZero n]

def push (r : RingBuffer α n) (a : α) : RingBuffer α n :=
  { r with
    buf := update r.buf r.head a
    head := r.head + 1
    count := r.count + 1 }

def pop (r : RingBuffer α n) : RingBuffer α n :=
  { r with tail := r.tail + 1, count := r.count - 1 }

/-- Stores values as long as there is room; the result is the number of those stored. -/
def fill : List α → RingBuffer α n → ℕ × RingBuffer α n
  | [], r => (0, r)
  | a :: as, r =>
    if r.count < n then
      let rest := fill as (r.push a)
      (rest.1 + 1, rest.2)
    else (0, r)

def drain : ℕ → RingBuffer α n → List α × RingBuffer α n
  | 0, r => ([], r)
  | len + 1, r =>
    if 0 < r.count then
      let rest := drain len r.pop
      (r.buf r.tail :: rest.1, rest.2)
    else ([], r)

/-! ## The values in the buffer -/

def cell (r : RingBuffer α n) (i : ℕ) : Fin n := r.tail + Fin.ofNat n i

def contents (r : RingBuffer α n) : List α := (List.range r.count).map fun i => r.buf (r.cell i)

/-- The next free cell comes after the values in the buffer, which fit into it. -/
structure Sound (r : RingBuffer α n) : Prop where
  head_eq : r.head = r.cell r.count
  fits : r.count ≤ n

variable {r : RingBuffer α n}

@[simp] lemma length_contents (r : RingBuffer α n) : r.contents.length = r.count := by
  simp [contents]

lemma cell_succ (r : RingBuffer α n) (i : ℕ) : r.cell (i + 1) = r.cell i + 1 := by
  ext
  simp [cell, Fin.val_add, Nat.add_assoc]

lemma cell_pop (r : RingBuffer α n) (i : ℕ) : r.pop.cell i = r.cell (i + 1) := by
  ext
  simp [cell, pop, Fin.val_add, Nat.add_assoc, Nat.add_comm i 1]

lemma cell_ne {i j : ℕ} (hij : i < j) (hj : j < n) : r.cell i ≠ r.cell j := by
  intro heq
  have hmod : i % n = j % n := by simpa [cell, Fin.ext_iff] using heq
  rw [Nat.mod_eq_of_lt (hij.trans hj), Nat.mod_eq_of_lt hj] at hmod
  omega

lemma Sound.push (hr : r.Sound) (a : α) (hroom : r.count < n) : (r.push a).Sound where
  head_eq := by
    have hcell : (r.push a).cell (r.count + 1) = r.cell r.count + 1 := r.cell_succ r.count
    exact (congrArg (· + 1) hr.head_eq).trans hcell.symm
  fits := hroom

lemma contents_push (hr : r.Sound) (a : α) (hroom : r.count < n) :
    (r.push a).contents = r.contents ++ [a] := by
  have hold : ∀ i ∈ List.range r.count, (r.push a).buf ((r.push a).cell i) = r.buf (r.cell i) := by
    intro i hi
    have hne : r.cell i ≠ r.head := hr.head_eq ▸ cell_ne (mem_range.mp hi) hroom
    exact update_of_ne hne a r.buf
  have hnew : (r.push a).buf ((r.push a).cell r.count) = a := by
    have hcell : (r.push a).cell r.count = r.head := hr.head_eq.symm
    rw [hcell]
    exact update_self r.head a r.buf
  calc (r.push a).contents
      = (List.range (r.count + 1)).map fun i => (r.push a).buf ((r.push a).cell i) := rfl
    _ = r.contents ++ [a] := by
        rw [range_succ, map_append, map_congr_left hold, map_singleton, hnew]
        rfl

lemma Sound.pop (hr : r.Sound) (hpos : 0 < r.count) : r.pop.Sound where
  head_eq := by
    have hcount : r.pop.count + 1 = r.count := Nat.sub_add_cancel hpos
    rw [cell_pop, hcount]
    exact hr.head_eq
  fits := (Nat.sub_le _ _).trans hr.fits

lemma contents_pop (r : RingBuffer α n) (hpos : 0 < r.count) :
    r.contents = r.buf r.tail :: r.pop.contents := by
  obtain ⟨m, hm⟩ := Nat.exists_eq_add_of_lt hpos
  have hcount : r.pop.count = m := by
    simp [RingBuffer.pop, hm]
  have hfirst : r.cell 0 = r.tail := by simp [cell]
  have hrest : (fun i => r.pop.buf (r.pop.cell i)) = fun i => r.buf (r.cell (i + 1)) := by
    funext i
    rw [cell_pop]
    rfl
  rw [contents, contents, hcount, hrest, hm, Nat.zero_add, range_succ_eq_map,
    map_cons, map_map, hfirst]
  rfl

/-! ## The loops -/

/-- What is stored is the longest part of the values that fits, after the old ones. -/
theorem fill_spec (as : List α) (hr : r.Sound) :
    (fill as r).2.Sound ∧ (fill as r).1 = min as.length (n - r.count) ∧
      (fill as r).2.contents = r.contents ++ as.take (fill as r).1 := by
  induction as generalizing r with
  | nil => exact ⟨hr, by simp [fill], by simp [fill]⟩
  | cons a as ih =>
    by_cases hroom : r.count < n
    · obtain ⟨hsound, hlen, hcontents⟩ := ih (hr.push a hroom)
      have hcount : (r.push a).count = r.count + 1 := rfl
      simp only [fill, hroom, if_true]
      refine ⟨hsound, ?_, ?_⟩
      · rw [hlen, hcount, length_cons]
        omega
      · rw [hcontents, contents_push hr a hroom, take_succ_cons, append_assoc]
        rfl
    · have hfull : n - r.count = 0 := by omega
      simp [fill, hroom, hr, hfull]

lemma drain_spec (len : ℕ) (hr : r.Sound) :
    (drain len r).2.Sound ∧ (drain len r).1 = r.contents.take len ∧
      (drain len r).1 ++ (drain len r).2.contents = r.contents := by
  induction len generalizing r with
  | zero => exact ⟨hr, by simp [drain], by simp [drain]⟩
  | succ len ih =>
    by_cases hpos : 0 < r.count
    · obtain ⟨hsound, htake, hcontents⟩ := ih (hr.pop hpos)
      simp only [drain, hpos, if_true]
      refine ⟨hsound, ?_, ?_⟩
      · rw [contents_pop r hpos, take_succ_cons, htake]
      · rw [contents_pop r hpos, cons_append, hcontents]
    · have hempty : r.contents = [] := eq_nil_of_length_eq_zero (by simp; omega)
      simp [drain, hpos, hr, hempty]

end RingBuffer

/-! ## Rings without a count -/

/-- A queue that is empty when its two indices are the same; one cell stays free, so that a
full one is told from it. -/
structure GapRing (α : Type*) (n : ℕ) where
  buf : Fin n → α
  head : Fin n
  tail : Fin n

namespace GapRing

open RingBuffer

variable {α : Type*} {n : ℕ} [NeZero n]

def Full (r : GapRing α n) : Prop := r.head + 1 = r.tail

instance (r : GapRing α n) : Decidable r.Full := inferInstanceAs (Decidable (_ = _))

def put (r : GapRing α n) (a : α) : GapRing α n :=
  if r.Full then r else { r with buf := Function.update r.buf r.head a, head := r.head + 1 }

def take : ℕ → GapRing α n → List α × GapRing α n
  | 0, r => ([], r)
  | len + 1, r =>
    if r.tail ≠ r.head then
      let rest := take len { r with tail := r.tail + 1 }
      (r.buf r.tail :: rest.1, rest.2)
    else ([], r)

def counted (r : GapRing α n) : RingBuffer α n :=
  ⟨r.buf, r.head, r.tail, (r.head - r.tail).val⟩

def values (r : GapRing α n) : List α := r.counted.contents

variable {r : GapRing α n}

lemma counted_sound (r : GapRing α n) : r.counted.Sound where
  head_eq := by simp [counted, cell]
  fits := (r.head - r.tail).isLt.le

lemma val_add_one {d : Fin n} (hne : d + 1 ≠ 0) : (d + 1).val = d.val + 1 := by
  have hval : (d + 1).val = (d.val + 1) % n := by simp [Fin.val_add]
  rcases Nat.lt_or_ge (d.val + 1) n with hlt | hge
  · rw [hval, Nat.mod_eq_of_lt hlt]
  · have hlast : d.val + 1 = n := by omega
    exact absurd (Fin.ext (by rw [hval, hlast, Nat.mod_self, Fin.val_zero])) hne

lemma counted_put (hroom : ¬ r.Full) (a : α) : (r.put a).counted = r.counted.push a := by
  have hcount : (r.head + 1 - r.tail).val = (r.head - r.tail).val + 1 := by
    rw [add_sub_right_comm, val_add_one]
    rwa [← add_sub_right_comm, sub_ne_zero]
  simp [put, hroom, counted, push, hcount]

lemma counted_take (len : ℕ) (r : GapRing α n) :
    drain len r.counted = ((take len r).1, (take len r).2.counted) := by
  induction len generalizing r with
  | zero => rfl
  | succ len ih =>
    by_cases hempty : r.tail = r.head
    · simp [take, drain, counted, hempty]
    · have hcount : (r.head - r.tail).val = (r.head - (r.tail + 1)).val + 1 := by
        rw [← val_add_one] <;> rw [← sub_sub, sub_add_cancel]
        exact sub_ne_zero.mpr (Ne.symm hempty)
      have hpop : r.counted.pop = { r with tail := r.tail + 1 }.counted := by
        simp [counted, pop, hcount]
      rw [drain, if_pos (by simp [counted, hcount]), hpop, ih, take, if_pos hempty]
      rfl

lemma foldl_put_full (hfull : r.Full) (as : List α) : as.foldl put r = r := by
  induction as with
  | nil => rfl
  | cons a as ih => rwa [List.foldl_cons, put, if_pos hfull]

/-- Nothing is lost on the way to a ring that is not full. -/
theorem values_foldl_put (as : List α) (hroom : ¬ (as.foldl put r).Full) :
    (as.foldl put r).values = r.values ++ as := by
  induction as generalizing r with
  | nil => simp
  | cons a as ih =>
    by_cases hfull : r.Full
    · rw [foldl_put_full hfull] at hroom
      exact absurd hfull hroom
    · rw [List.foldl_cons, ih hroom, values, counted_put hfull,
        contents_push r.counted_sound a (r.head - r.tail).isLt, List.append_assoc]
      rfl

section Reading

variable {done out : List α} (hout : done ++ r.values = out)
include hout

lemma append_take (len : ℕ) : done ++ (take len r).1 ++ (take len r).2.values = out := by
  have hdrain := (drain_spec len r.counted_sound).2.2
  rw [counted_take] at hdrain
  rw [← hout, List.append_assoc]
  exact congrArg (done ++ ·) hdrain

lemma take_eq : done <+: out ∧ ∀ len, (take len r).1 = (out.drop done.length).take len := by
  refine ⟨⟨r.values, hout⟩, fun len => ?_⟩
  have hdrain := (drain_spec len r.counted_sound).2.1
  rw [counted_take] at hdrain
  rw [← hout, List.drop_left]
  exact hdrain

end Reading

end GapRing
