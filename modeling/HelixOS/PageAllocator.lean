import HelixOS.BitMasks
import HelixOS.TableSizes
import Mathlib.Data.Finset.Card

/-!
# The physical page allocator

`kernel/mm/pmm.c`: one bit and one reference count per 4 KiB frame.  Frames
are named by their page number; a physical address is a 64-bit word.
-/

namespace HelixOS

open Function

abbrev Word := BitVec 64

variable {phys : Word} {p : ℕ}

def frameAddr (p : ℕ) : Word := BitVec.ofNat 64 p <<< 12

def frameOf (phys : Word) : ℕ := (phys >>> 12).toNat

lemma frameOf_eq (phys) : frameOf phys = phys.toNat / 4096 := by
  simp [frameOf, Nat.shiftRight_eq_div_pow]

lemma toNat_frameAddr (hp : p < 2 ^ 52) : (frameAddr p).toNat = p * 4096 := by
  unfold frameAddr
  rw [BitVec.toNat_shiftLeft, BitVec.toNat_ofNat, Nat.shiftLeft_eq,
    Nat.mod_eq_of_lt (by omega : p < 2 ^ 64)]
  omega

@[simp] lemma frameOf_frameAddr {p : ℕ} (hp : p < 2 ^ 52) :
    frameOf (frameAddr p) = p := by
  rw [frameOf_eq, toNat_frameAddr hp]
  omega

lemma frameAddr_ne_zero (hp : p < 2 ^ 52) (hne : p ≠ 0) :
    frameAddr p ≠ 0#64 := by
  intro hzero
  have hnat := congrArg BitVec.toNat hzero
  rw [toNat_frameAddr hp] at hnat
  simp at hnat
  exact hne hnat

/-- `g_total_pages`, `g_bitmap` (a set bit is a used page), `g_refs` and
`g_free_pages`. -/
structure Pmm where
  total : ℕ
  used : ℕ → Bool
  refs : ℕ → ℕ
  freePages : Word

def Pmm.firstFree (s : Pmm) : Option ℕ :=
  (List.range s.total).find? fun p => !s.used p

def Pmm.take (s : Pmm) (p : ℕ) : Pmm where
  total := s.total
  used := update s.used p true
  refs := update s.refs p 1
  freePages := s.freePages - 1

/-- Returns the physical address, or `0` when no page is free. -/
def pmmAllocPage (s : Pmm) : Word × Pmm :=
  match s.firstFree with
  | some p => (frameAddr p, s.take p)
  | none => (0#64, s)

def pmmFreePage (s : Pmm) (phys : Word) : Pmm :=
  let p := frameOf phys
  if p ≥ s.total then s
  else if !s.used p then s
  else { s with
    used := update s.used p false
    freePages := s.freePages + 1 }

def pmmPageDeref (s : Pmm) (phys : Word) : Pmm :=
  let p := frameOf phys
  if p ≥ s.total then s
  else if s.refs p = 0 then s
  else
    let next := { s with refs := update s.refs p (s.refs p - 1) }
    if s.refs p - 1 = 0 then pmmFreePage next phys else next

lemma Pmm.firstFree_eq_some {s : Pmm} :
    s.firstFree = some p ↔
      p < s.total ∧ s.used p = false ∧ ∀ q, q < p → s.used q = true := by
  unfold Pmm.firstFree
  rw [List.find?_range_eq_some]
  simp only [Bool.not_eq_eq_eq_not, Bool.not_true, List.mem_range]
  constructor
  · rintro ⟨hfree, hlt, hlow⟩
    exact ⟨hlt, hfree, fun q hq => by simpa using hlow q hq⟩
  · rintro ⟨hlt, hfree, hlow⟩
    exact ⟨hfree, hlt, fun q hq => by simpa using hlow q hq⟩

lemma Pmm.firstFree_eq_none {s : Pmm} :
    s.firstFree = none ↔ ∀ p, p < s.total → s.used p = true := by
  unfold Pmm.firstFree
  simp [List.find?_eq_none]

/-- Page 0 is never free (`pmm_init` reserves the low megabyte) and frame
numbers fit the 40-bit address field of a page-table entry. -/
structure Pmm.Sound (s : Pmm) : Prop where
  zeroUsed : 0 < s.total → s.used 0 = true
  fits : s.total ≤ 2 ^ 40

/-- A managed frame that is not in use. -/
def Pmm.IsFree (s : Pmm) (p : ℕ) : Prop :=
  p < s.total ∧ s.used p = false

def Pmm.freeCount (s : Pmm) : ℕ :=
  ((Finset.range s.total).filter fun p => s.used p = false).card

lemma Pmm.Sound.free_bounds {s : Pmm} (hs : s.Sound)
    (hfree : s.IsFree p) : p ≠ 0 ∧ p < 2 ^ 40 := by
  refine ⟨?_, hfree.1.trans_le hs.fits⟩
  rintro rfl
  simpa [hs.zeroUsed hfree.1] using hfree.2

lemma Pmm.freeCount_eq_zero {s : Pmm} :
    s.freeCount = 0 ↔ s.firstFree = none := by
  rw [Pmm.firstFree_eq_none]
  unfold Pmm.freeCount
  simp

lemma Pmm.freeCount_take {s : Pmm} (hfree : s.IsFree p) :
    s.freeCount = (s.take p).freeCount + 1 := by
  have hset : ((Finset.range s.total).filter fun q => s.used q = false) =
      insert p ((Finset.range s.total).filter
        fun q => (s.take p).used q = false) := by
    ext q
    by_cases hq : q = p
    · subst hq
      simp [hfree.1, hfree.2]
    · simp [Pmm.take, update, hq]
  unfold Pmm.freeCount
  rw [hset, Finset.card_insert_of_notMem]
  · rfl
  · intro hmem
    have hused := (Finset.mem_filter.mp hmem).2
    simp [Pmm.take] at hused

lemma Pmm.Sound.take {s : Pmm} (hs : s.Sound) (p) : (s.take p).Sound := by
  refine ⟨fun hpos => ?_, hs.fits⟩
  by_cases hp : 0 = p
  · simp [Pmm.take, ← hp]
  · have hold := hs.zeroUsed hpos
    simp [Pmm.take, update, hp, hold]

lemma pmmAllocPage_cases {s : Pmm} (hs : s.Sound) :
    (∃ p, s.IsFree p ∧ pmmAllocPage s = (frameAddr p, s.take p) ∧ frameAddr p ≠ 0#64) ∨
    (s.freeCount = 0 ∧ pmmAllocPage s = (0#64, s)) := by
  cases hfirst : s.firstFree with
  | none =>
    right
    exact ⟨Pmm.freeCount_eq_zero.mpr hfirst, by simp [pmmAllocPage, hfirst]⟩
  | some p =>
    left
    obtain ⟨hlt, hused, -⟩ := Pmm.firstFree_eq_some.mp hfirst
    have hfree : s.IsFree p := ⟨hlt, hused⟩
    obtain ⟨hne, hbound⟩ := hs.free_bounds hfree
    refine ⟨p, hfree, by simp [pmmAllocPage, hfirst], ?_⟩
    exact frameAddr_ne_zero (by omega) hne

/-! ## Allocating without freeing -/

structure Pmm.Grows (s t : Pmm) : Prop where
  total_eq : t.total = s.total
  used_mono : ∀ p, s.used p = true → t.used p = true
  refs_old : ∀ p, s.used p = true → t.refs p = s.refs p
  refs_new : ∀ p, s.used p = false → t.used p = true → p < s.total ∧ t.refs p = 1

lemma Pmm.Grows.refl (s : Pmm) : s.Grows s := by
  constructor <;> simp_all

lemma Pmm.Grows.trans {s t u : Pmm} (hst : s.Grows t) (htu : t.Grows u) :
    s.Grows u := by
  refine ⟨htu.total_eq.trans hst.total_eq, fun p hp => htu.used_mono p (hst.used_mono p hp),
    fun p hp => ?_, fun p hp hu => ?_⟩
  · rw [htu.refs_old p (hst.used_mono p hp), hst.refs_old p hp]
  · cases ht : t.used p with
    | true =>
      obtain ⟨hlt, hone⟩ := hst.refs_new p hp ht
      exact ⟨hlt, by rw [htu.refs_old p ht, hone]⟩
    | false =>
      obtain ⟨hlt, hone⟩ := htu.refs_new p ht hu
      exact ⟨by rwa [← hst.total_eq], hone⟩

lemma Pmm.Grows.take {s : Pmm} (hfree : s.IsFree p) : s.Grows (s.take p) := by
  have hother : ∀ q, q ≠ p → (s.take p).used q = s.used q := by
    intro q hq
    simp [Pmm.take, update, hq]
  refine ⟨rfl, fun q hq => ?_, fun q hq => ?_, fun q hq ht => ?_⟩
  · by_cases hqp : q = p
    · simp [Pmm.take, hqp]
    · rw [hother q hqp, hq]
  · have hqp : q ≠ p := by
      rintro rfl
      simp [hfree.2] at hq
    simp [Pmm.take, update, hqp]
  · have hqp : q = p := by
      by_contra hne
      rw [hother q hne, hq] at ht
      contradiction
    subst hqp
    exact ⟨hfree.1, by simp [Pmm.take]⟩

lemma Pmm.Grows.sound {s t : Pmm} (hgrow : s.Grows t) (hs : s.Sound) :
    t.Sound :=
  ⟨fun hpos => hgrow.used_mono 0 (hs.zeroUsed (by rwa [← hgrow.total_eq])),
    by rw [hgrow.total_eq]; exact hs.fits⟩

def Pmm.usedCount (s : Pmm) (p : ℕ) : ℕ := if s.used p then 1 else 0

lemma Pmm.usedCount_le (s : Pmm) (p) : s.usedCount p ≤ 1 := by
  unfold Pmm.usedCount
  split <;> omega

lemma Pmm.Grows.usedCount_le {s t : Pmm} (hgrow : s.Grows t) (p) :
    s.usedCount p ≤ t.usedCount p := by
  unfold Pmm.usedCount
  split
  · rename_i hp
    rw [if_pos (hgrow.used_mono p hp)]
  · omega

lemma Pmm.usedCount_take {s : Pmm} (hfree : s.IsFree p) (q : ℕ) :
    (s.take p).usedCount q = s.usedCount q + if p = q then 1 else 0 := by
  by_cases hpq : p = q
  · subst hpq
    simp [Pmm.usedCount, Pmm.take, hfree.2]
  · have hqp : q ≠ p := fun h => hpq h.symm
    simp [Pmm.usedCount, Pmm.take, update, hpq, hqp]

/-! ## The frames the allocator manages -/

/-- `A` is the set of frames the allocator hands out: while used they carry one
reference.  The other frames are reserved at boot and carry none. -/
structure Pmm.Manages (s : Pmm) (A : Set ℕ) : Prop where
  zero : 0 ∉ A
  fits : s.total ≤ 2 ^ 40
  below : ∀ g ∈ A, g < s.total
  owned : ∀ g ∈ A, s.used g = true → s.refs g = 1
  reserved : ∀ g, g ∉ A → g < s.total → s.used g = true ∧ s.refs g = 0

section Manages

variable {A : Set ℕ} {s t : Pmm}

lemma Pmm.Manages.sound (hman : s.Manages A) : s.Sound :=
  ⟨fun hpos => (hman.reserved 0 hman.zero hpos).1, hman.fits⟩

lemma Pmm.Manages.mem_of_free (hman : s.Manages A) (hfree : s.IsFree p) :
    p ∈ A := by
  by_contra hnot
  have hused := (hman.reserved p hnot hfree.1).1
  simp [hfree.2] at hused

lemma Pmm.Manages.lt (hman : s.Manages A) (hp : p ∈ A) : p < 2 ^ 40 :=
  (hman.below p hp).trans_le hman.fits

lemma Pmm.Grows.manages (hgrow : s.Grows t) (hman : s.Manages A) : t.Manages A := by
  refine ⟨hman.zero, by rw [hgrow.total_eq]; exact hman.fits,
    fun g hg => hgrow.total_eq ▸ hman.below g hg, fun g hg hused => ?_, fun g hg hlt => ?_⟩
  · cases hs : s.used g with
    | true => rw [hgrow.refs_old g hs, hman.owned g hg hs]
    | false => exact (hgrow.refs_new g hs hused).2
  · rw [hgrow.total_eq] at hlt
    obtain ⟨hused, hrefs⟩ := hman.reserved g hg hlt
    exact ⟨hgrow.used_mono g hused, by rw [hgrow.refs_old g hused, hrefs]⟩

structure Pmm.Releases (s t : Pmm) (A : Set ℕ) (p : ℕ) : Prop where
  manages : t.Manages A
  total_eq : t.total = s.total
  count : ∀ g, t.usedCount g + (if p = g then 1 else 0) = s.usedCount g

lemma Pmm.usedCount_pos : s.usedCount p ≠ 0 ↔ s.used p = true := by
  unfold Pmm.usedCount
  split <;> simp_all

lemma Pmm.Manages.isFree_iff (hs : s.Manages A) (ht : t.Manages A)
    (htotal : t.total = s.total) (hcount : ∀ g ∈ A, t.usedCount g = s.usedCount g) (g : ℕ) :
    t.IsFree g ↔ s.IsFree g := by
  have hused : ∀ g ∈ A, t.used g = s.used g := by
    intro g hg
    have h := hcount g hg
    unfold Pmm.usedCount at h
    cases htg : t.used g <;> cases hsg : s.used g <;> simp_all
  constructor
  · intro hfree
    have hg := ht.mem_of_free hfree
    exact ⟨htotal ▸ hfree.1, hused g hg ▸ hfree.2⟩
  · intro hfree
    have hg := hs.mem_of_free hfree
    exact ⟨htotal.symm ▸ hfree.1, (hused g hg).trans hfree.2⟩

lemma usedCount_update_false {used : ℕ → Bool} (hused : used p = true)
    (refs : ℕ → ℕ) (total : ℕ) (freePages freePages' : Word) (refs' : ℕ → ℕ) (g : ℕ) :
    Pmm.usedCount ⟨total, update used p false, refs', freePages'⟩ g +
        (if p = g then 1 else 0) =
      Pmm.usedCount ⟨total, used, refs, freePages⟩ g := by
  by_cases hpg : p = g
  · subst hpg
    simp [Pmm.usedCount, hused]
  · have hgp : g ≠ p := fun h => hpg h.symm
    simp [Pmm.usedCount, update, hgp, hpg]

section

variable (hman : s.Manages A) (hframe : frameOf phys = p) (hp : p ∈ A) (hused : s.used p = true)
include hman hframe hp hused

lemma pmmFreePage_releases : s.Releases (pmmFreePage s phys) A p := by
  have hlt := hman.below p hp
  have heq : pmmFreePage s phys = { s with
      used := update s.used p false
      freePages := s.freePages + 1 } := by
    simp [pmmFreePage, hframe, hused, not_le.mpr hlt]
  rw [heq]
  refine ⟨⟨hman.zero, hman.fits, hman.below, fun g hg hg' => ?_, fun g hg hlt' => ?_⟩, rfl,
    usedCount_update_false hused _ _ _ _ _⟩
  · have hgp : g ≠ p := by
      rintro rfl
      simp at hg'
    simp only [update, hgp, dite_false] at hg'
    exact hman.owned g hg hg'
  · have hgp : g ≠ p := by
      rintro rfl
      exact hg hp
    simpa [update, hgp] using hman.reserved g hg hlt'

lemma pmmPageDeref_releases : s.Releases (pmmPageDeref s phys) A p := by
  have hlt := hman.below p hp
  have heq : pmmPageDeref s phys = { s with
      used := update s.used p false
      refs := update s.refs p 0
      freePages := s.freePages + 1 } := by
    simp [pmmPageDeref, pmmFreePage, hframe, hused, not_le.mpr hlt, hman.owned p hp hused]
  rw [heq]
  refine ⟨⟨hman.zero, hman.fits, hman.below, fun g hg hg' => ?_, fun g hg hlt' => ?_⟩, rfl,
    usedCount_update_false hused _ _ _ _ _⟩
  · have hgp : g ≠ p := by
      rintro rfl
      simp at hg'
    simp only [update, hgp, dite_false] at hg' ⊢
    exact hman.owned g hg hg'
  · have hgp : g ≠ p := by
      rintro rfl
      exact hg hp
    simpa [update, hgp] using hman.reserved g hg hlt'

end

lemma pmmPageDeref_reserved (hman : s.Manages A)
    (hp : frameOf phys ∉ A) : pmmPageDeref s phys = s := by
  unfold pmmPageDeref
  by_cases hlt : frameOf phys < s.total
  · simp [(hman.reserved _ hp hlt).2]
  · simp [not_lt.mp hlt]

end Manages

end HelixOS
