import HelixOS.LoopRules
import HelixOS.UnmappingPages

/-!
# Copies of page tables in fresh frames

What it means that an entry is a copy of another one: nothing but newly allocated frames
has been written, every one of them is referred to once, and the pages below the copy are
the pages below the original as far as the memory lasted.
-/

namespace HelixOS

open RadixMemory LoopRules Function

variable {g : ℕ} {m : Mem} {maps : Fin 512 → Bool} {A : Set ℕ}

structure Fresh (s t : Machine) : Prop where
  pmm : s.pmm.Grows t.pmm
  cr3_eq : t.cr3 = s.cr3
  kernel_eq : t.kernelPml4 = s.kernelPml4
  mem : ∀ g, s.pmm.used g = true ∨ t.pmm.used g = false → t.mem g = s.mem g

section FreshFrames

variable {s t u : Machine}

lemma Fresh.refl (s : Machine) : Fresh s s :=
  ⟨Pmm.Grows.refl _, rfl, rfl, fun _ _ => rfl⟩

lemma Pmm.Grows.unused {s t : Pmm} (hgrow : s.Grows t) (hg : t.used g = false) :
    s.used g = false := by
  by_contra hused
  have := hgrow.used_mono g (by simpa using hused)
  simp [hg] at this

lemma Fresh.trans (hst : Fresh s t) (htu : Fresh t u) : Fresh s u := by
  refine ⟨hst.pmm.trans htu.pmm, htu.cr3_eq.trans hst.cr3_eq,
    htu.kernel_eq.trans hst.kernel_eq, fun g hg => ?_⟩
  rcases hg with hused | hfree
  · rw [htu.mem g (Or.inl (hst.pmm.used_mono g hused)), hst.mem g (Or.inl hused)]
  · rw [htu.mem g (Or.inr hfree), hst.mem g (Or.inr (htu.pmm.unused hfree))]

lemma Fresh.mem_of_not_free (hst : Fresh s t) (hg : ¬ s.pmm.IsFree g) :
    t.mem g = s.mem g := by
  apply hst.mem
  by_contra hnew
  push Not at hnew
  obtain ⟨hnot, hnow⟩ := hnew
  have hunused : s.pmm.used g = false := by simpa using hnot
  exact hg ⟨(hst.pmm.refs_new g hunused (by simpa using hnow)).1, hunused⟩

lemma Pmm.Grows.not_free {s t : Pmm} (hgrow : s.Grows t) (hg : ¬ s.IsFree g) :
    ¬ t.IsFree g := by
  rintro ⟨hlt, hunused⟩
  exact hg ⟨by rwa [← hgrow.total_eq], hgrow.unused hunused⟩

end FreshFrames

/-! ## One copied entry -/

/-- A page of a copy: same rights as the original; a kernel page has the same
frame, a user page a new frame with the same contents. -/
def CopyView (m₀ : Mem) (s t : Machine) (src dst : Option Mapping) : Prop :=
  ∀ copy, dst = some copy → ∃ page, src = some page ∧
    copy.writable = page.writable ∧ copy.user = page.user ∧
    (page.user = false → copy.frame = page.frame) ∧
    (page.user = true → s.pmm.used copy.frame = false ∧
      t.pmm.used copy.frame = true ∧ t.mem copy.frame = m₀ page.frame)

def Complete (m₀ m : Mem) (l : ℕ) (w w' : Word) : Prop :=
  ∀ path, entryLookup pteFormat m₀ path l w ≠ none →
    entryLookup pteFormat m path l w' ≠ none

/-- The entry `w'` in `t` is a copy of the entry `w` in `m₀`, made from `s`.  It has
taken `cost` frames, or all there were; it is complete if there were `need`. -/
structure Copied (A : Set ℕ) (m₀ : Mem) (l : ℕ) (s t : Machine) (w w' : Word)
    (cost need : ℕ) : Prop where
  fresh : Fresh s t
  free : t.pmm.freeCount = s.pmm.freeCount - cost
  refs : ∀ g, entrySum pteFormat (refWeight g) t.mem l w' + s.pmm.usedCount g =
    t.pmm.usedCount g
  view : ∀ virt, CopyView m₀ s t (entryView m₀ virt l w) (entryView t.mem virt l w')
  complete : Complete m₀ t.mem l w w' ↔ need ≤ s.pmm.freeCount
  ok : ∀ p q, entryAll pteFormat (EntryOk A) m₀ l p w →
    (hasFlag p pteU = true → hasFlag q pteU = true) →
    entryAll pteFormat (EntryOk A) t.mem l q w'

structure Filled (A : Set ℕ) (m₀ : Mem) (l : ℕ) (s t : Machine) (ct : ℕ)
    (src : Fin 512 → Word) (cost need : Fin 512 → ℕ) (k : ℕ) : Prop where
  pmm : s.pmm.Grows t.pmm
  cr3_eq : t.cr3 = s.cr3
  kernel_eq : t.kernelPml4 = s.kernelPml4
  mem : ∀ g, g ≠ ct → s.pmm.used g = true ∨ t.pmm.used g = false → t.mem g = s.mem g
  free : t.pmm.freeCount = s.pmm.freeCount - before cost k
  refs : ∀ g, ∑ j, entrySum pteFormat (refWeight g) t.mem l (t.mem ct j) +
    s.pmm.usedCount g = t.pmm.usedCount g
  later : ∀ j : Fin 512, k ≤ j.val → t.mem ct j = 0#64
  view : ∀ j : Fin 512, j.val < k → ∀ virt,
    CopyView m₀ s t (entryView m₀ virt l (src j)) (entryView t.mem virt l (t.mem ct j))
  complete : ∀ j : Fin 512, j.val < k → (Complete m₀ t.mem l (src j) (t.mem ct j) ↔
    need j ≤ s.pmm.freeCount - before cost j)
  ok : ∀ j : Fin 512, j.val < k → ∀ p q, entryAll pteFormat (EntryOk A) m₀ l p (src j) →
    (hasFlag p pteU = true → hasFlag q pteU = true) →
    entryAll pteFormat (EntryOk A) t.mem l q (t.mem ct j)

lemma entryTabs_le_entryRefs (m : Mem) (l : ℕ) (w : Word) (g : ℕ) :
    entryTabs pteFormat m l w g ≤ entrySum pteFormat (refWeight g) m l w :=
  entrySum_mono (fun _ _ => Nat.le_add_right _ _) m l w

lemma entryView_congr {m' : Mem} {l : ℕ} {w : Word} (virt : Word)
    (hagree : ∀ g, entryTabs pteFormat m l w g ≠ 0 → m' g = m g) :
    entryView m' virt l w = entryView m virt l w := by
  unfold entryView
  rw [entryLookup_congr _ hagree]

lemma Complete.congr {m₀ m' : Mem} {l : ℕ} {w w' : Word}
    (hagree : ∀ g, entryTabs pteFormat m l w' g ≠ 0 → m' g = m g) :
    Complete m₀ m' l w w' ↔ Complete m₀ m l w w' := by
  unfold Complete
  simp only [entryLookup_congr _ hagree]

section Filling

variable {m₀ : Mem} {l : ℕ} {s t u : Machine} {ct : ℕ} {src : Fin 512 → Word}
  {cost need : Fin 512 → ℕ}

lemma Filled.init (hzero : s.mem ct = fun _ => 0#64) :
    Filled A m₀ l s s ct src cost need 0 := by
  refine ⟨Pmm.Grows.refl _, rfl, rfl, fun _ _ _ => rfl, by simp, fun g => ?_, fun j _ => by rw
    [hzero], fun j hj => by omega, fun j hj => by omega, fun j hj => by omega⟩
  simp [hzero, entryRefs_absent]

lemma Filled.step {i : Fin 512} {w' : Word} (hct : s.pmm.used ct = true)
    (hfill : Filled A m₀ l s t ct src cost need i.val)
    (hcopy : Copied A m₀ l t u (src i) w' (cost i) (need i)) :
    Filled A m₀ l s (u.setEntry ct i w') ct src cost need (i.val + 1) := by
  have htct := hfill.pmm.used_mono ct hct
  have hctmem : u.mem ct = t.mem ct := hcopy.fresh.mem ct (Or.inl htct)
  have hsame : (u.setEntry ct i w').mem ct i = w' := setEntry_same ..
  have hother : ∀ j, j ≠ i → (u.setEntry ct i w').mem ct j = t.mem ct j := by
    intro j hj
    rw [Machine.setEntry_mem, setEntry_slot_ne _ _ hj, hctmem]
  have hframe : ∀ g, g ≠ ct → (u.setEntry ct i w').mem g = u.mem g :=
    fun g hg => setEntry_frame_ne _ hg _ _
  -- neither the old entries nor the new one lead to the table itself
  have hold : ∀ j g, entrySum pteFormat (refWeight g) t.mem l (t.mem ct j) ≠ 0 →
      g ≠ ct ∧ t.pmm.used g = true := by
    intro j g hg
    have hle := Finset.single_le_sum (f := fun j => entrySum pteFormat (refWeight g) t.mem l (t.mem
      ct j)) (fun _ _ => Nat.zero_le _) (Finset.mem_univ j)
    have hsum := hfill.refs g
    have hone := t.pmm.usedCount_le g
    constructor
    · rintro rfl
      have := Pmm.usedCount_pos.mpr hct
      omega
    · exact Pmm.usedCount_pos.mp (by omega)
  have hnew : ∀ g, entryTabs pteFormat u.mem l w' g ≠ 0 → (u.setEntry ct i w').mem g = u.mem g := by
    intro g hg
    apply hframe
    rintro rfl
    have hle := entryTabs_le_entryRefs u.mem l w' g
    have hsum := hcopy.refs g
    have hone := u.pmm.usedCount_le g
    have hpos := Pmm.usedCount_pos.mpr htct
    omega
  have hagree : ∀ j g, entryTabs pteFormat t.mem l (t.mem ct j) g ≠ 0 →
      (u.setEntry ct i w').mem g = t.mem g := by
    intro j g hg
    have hle := entryTabs_le_entryRefs t.mem l (t.mem ct j) g
    obtain ⟨hne, hused⟩ := hold j g (by omega)
    rw [hframe g hne, hcopy.fresh.mem g (Or.inl hused)]
  have hsplit : ∀ j : Fin 512, j.val < i.val + 1 → j = i ∨ j ≠ i ∧ j.val < i.val := by
    intro j hj
    by_cases h : j = i
    · exact Or.inl h
    · exact Or.inr ⟨h, by have : j.val ≠ i.val := fun h' => h (Fin.ext h'); omega⟩
  refine ⟨hfill.pmm.trans hcopy.fresh.pmm, hcopy.fresh.cr3_eq.trans hfill.cr3_eq,
    hcopy.fresh.kernel_eq.trans hfill.kernel_eq, fun g hg hcase => ?_, ?_, fun g => ?_,
    fun j hj => ?_, fun j hj virt => ?_, fun j hj => ?_, fun j hj p q hall hpq => ?_⟩
  · rw [hframe g hg]
    rcases hcase with hused | hfree
    · rw [hcopy.fresh.mem g (Or.inl (hfill.pmm.used_mono g hused)), hfill.mem g hg (Or.inl hused)]
    · rw [hcopy.fresh.mem g (Or.inr hfree), hfill.mem g hg (Or.inr (hcopy.fresh.pmm.unused hfree))]
  · rw [Machine.setEntry_pmm, hcopy.free, hfill.free, before_succ, Nat.sub_sub]
  · have hterm : ∀ j, entrySum pteFormat (refWeight g) (u.setEntry ct i w').mem l ((u.setEntry ct i
        w').mem ct j) = entrySum pteFormat (refWeight g) t.mem l (t.mem ct j) +
          if j = i then entrySum pteFormat (refWeight g) u.mem l w' else 0 := by
      intro j
      by_cases hj : j = i
      · subst hj
        rw [hsame, hfill.later j le_rfl, entryRefs_absent (zero_hasFlag _), entrySum_congr _ hnew]
        simp
      · rw [hother j hj, entrySum_congr _ (hagree j), if_neg hj, add_zero]
    rw [Finset.sum_congr rfl fun j _ => hterm j, Finset.sum_add_distrib]
    simp only [Finset.sum_ite_eq', Finset.mem_univ, if_true, Machine.setEntry_pmm]
    have h₁ := hfill.refs g
    have h₂ := hcopy.refs g
    omega
  · rw [hother j (by rintro rfl; omega)]
    exact hfill.later j (by omega)
  · rcases hsplit j hj with rfl | ⟨hne, hlt⟩
    · rw [hsame, entryView_congr _ hnew]
      intro copy hc
      obtain ⟨page, hpage, hW, hU, hK, hF⟩ := hcopy.view virt copy hc
      refine ⟨page, hpage, hW, hU, hK, fun hpu => ?_⟩
      obtain ⟨hfresh, hnow, hcont⟩ := hF hpu
      refine ⟨hfill.pmm.unused hfresh, hnow, ?_⟩
      rw [hframe, hcont]
      rintro heq
      rw [heq, htct] at hfresh
      contradiction
    · rw [hother j hne, entryView_congr _ (hagree j)]
      intro copy hc
      obtain ⟨page, hpage, hW, hU, hK, hF⟩ := hfill.view j hlt virt copy hc
      refine ⟨page, hpage, hW, hU, hK, fun hpu => ?_⟩
      obtain ⟨hfresh, hnow, hcont⟩ := hF hpu
      refine ⟨hfresh, hcopy.fresh.pmm.used_mono _ hnow, ?_⟩
      rw [hframe, hcopy.fresh.mem _ (Or.inl hnow), hcont]
      rintro heq
      rw [heq, hct] at hfresh
      contradiction
  · rcases hsplit j hj with rfl | ⟨hne, hlt⟩
    · rw [hsame, Complete.congr hnew, hcopy.complete, hfill.free]
    · rw [hother j hne, Complete.congr (hagree j)]
      exact hfill.complete j hlt
  · rcases hsplit j hj with rfl | ⟨hne, hlt⟩
    · rw [hsame]
      exact (entryAll_congr _ hnew).mpr (hcopy.ok p q hall hpq)
    · rw [hother j hne]
      exact (entryAll_congr _ (hagree j)).mpr (hfill.ok j hlt p q hall hpq)

lemma fillTable_filled {value : Machine → Fin 512 → Word × Machine}
    (hct : s.pmm.used ct = true) (hzero : s.mem ct = fun _ => 0#64)
    (hvalue : ∀ (i : Fin 512) t, Filled A m₀ l s t ct src cost need i.val →
      Copied A m₀ l t (value t i).2 (src i) (value t i).1 (cost i) (need i)) :
    Filled A m₀ l s (fillTable value ct s) ct src cost need 512 :=
  foldl_invariant (fun k t => Filled A m₀ l s t ct src cost need k)
    (Filled.init hzero) fun i t hfill => hfill.step hct (hvalue i t hfill)

structure TableCopied (A : Set ℕ) (m₀ : Mem) (l : ℕ) (s t : Machine) (ct : ℕ)
    (src : Fin 512 → Word) (cost need : Fin 512 → ℕ) : Prop where
  taken : s.pmm.IsFree ct
  bound : ct < 2 ^ 40
  fresh : Fresh s t
  free : t.pmm.freeCount = s.pmm.freeCount - (1 + ∑ j, cost j)
  refs : ∀ g, (if ct = g then 1 else 0) +
      ∑ j, entrySum pteFormat (refWeight g) t.mem l (t.mem ct j) + s.pmm.usedCount g =
    t.pmm.usedCount g
  view : ∀ j virt,
    CopyView m₀ s t (entryView m₀ virt l (src j)) (entryView t.mem virt l (t.mem ct j))
  complete : ∀ j : Fin 512, Complete m₀ t.mem l (src j) (t.mem ct j) ↔
    need j ≤ s.pmm.freeCount - 1 - before cost j
  ok : ∀ j p q, entryAll pteFormat (EntryOk A) m₀ l p (src j) →
    (hasFlag p pteU = true → hasFlag q pteU = true) →
    entryAll pteFormat (EntryOk A) t.mem l q (t.mem ct j)

lemma takeFrame_fresh {ct : ℕ} (hfree : s.pmm.IsFree ct) : Fresh s (s.takeFrame ct) := by
  refine ⟨Pmm.Grows.take hfree, rfl, rfl, fun g hg => ?_⟩
  apply update_of_ne
  rintro rfl
  rcases hg with hused | hunused
  · simp [hfree.2] at hused
  · simp [Machine.takeFrame, Pmm.take] at hunused

lemma Filled.fresh {k : ℕ} (hfree : s.pmm.IsFree ct)
    (hfill : Filled A m₀ l (s.takeFrame ct) t ct src cost need k) : Fresh s t := by
  have hbase := takeFrame_fresh hfree
  have hused : (s.takeFrame ct).pmm.used ct = true := by simp [Machine.takeFrame, Pmm.take]
  refine ⟨hbase.pmm.trans hfill.pmm, hfill.cr3_eq, hfill.kernel_eq, fun g hg => ?_⟩
  have hne : g ≠ ct := by
    rintro rfl
    rcases hg with hg | hg
    · simp [hfree.2] at hg
    · have := hfill.pmm.used_mono g hused
      simp [hg] at this
  rcases hg with hg | hg
  · rw [hfill.mem g hne (Or.inl (hbase.pmm.used_mono g hg)), hbase.mem g (Or.inl hg)]
  · rw [hfill.mem g hne (Or.inr hg), hbase.mem g (Or.inr (hfill.pmm.unused hg))]

lemma makeTable_cases {value : Machine → Fin 512 → Word × Machine}
    (hs : s.pmm.Sound)
    (hvalue : ∀ (i : Fin 512) t, Fresh s t →
      t.pmm.freeCount = s.pmm.freeCount - 1 - before cost i →
      Copied A m₀ l t (value t i).2 (src i) (value t i).1 (cost i) (need i)) :
    (∃ ct t, makeTable value s = (frameAddr ct, t) ∧ frameAddr ct ≠ 0#64 ∧
      TableCopied A m₀ l s t ct src cost need) ∨
    (makeTable value s = (0#64, s) ∧ s.pmm.freeCount = 0) := by
  rcases allocZeroedPage_cases hs with ⟨ct, hfree, hne, hframe, halloc⟩ | ⟨hnone, halloc⟩
  · left
    have hcount := Pmm.freeCount_take hfree
    have hbase := takeFrame_fresh hfree
    have hfill : Filled A m₀ l (s.takeFrame ct)
        (fillTable value ct (s.takeFrame ct)) ct src cost need 512 := by
      apply fillTable_filled
      · simp [Machine.takeFrame, Pmm.take]
      · exact update_self ..
      · intro i t ht
        apply hvalue i t (ht.fresh hfree)
        rw [ht.free]
        change (s.pmm.take ct).freeCount - _ = _
        omega
    refine ⟨ct, fillTable value ct (s.takeFrame ct), ?_, hne, hfree, (hs.free_bounds hfree).2,
      hfill.fresh hfree, ?_, fun g => ?_, fun j virt => ?_, fun j => ?_, fun j => hfill.ok j j.isLt⟩
    · simp [makeTable, allocTable, halloc, hne, hframe, Machine.takeFrame]
    · rw [hfill.free, before_all]
      change (s.pmm.take ct).freeCount - _ = _
      omega
    · have hsum := hfill.refs g
      have htake : (s.takeFrame ct).pmm.usedCount g = _ := Pmm.usedCount_take hfree g
      omega
    · intro copy hc
      obtain ⟨page, hpage, hW, hU, hK, hF⟩ := hfill.view j j.isLt virt copy hc
      refine ⟨page, hpage, hW, hU, hK, fun hpu => ?_⟩
      obtain ⟨hfresh, hnow, hcont⟩ := hF hpu
      exact ⟨hbase.pmm.unused hfresh, hnow, hcont⟩
    · rw [hfill.complete j j.isLt]
      change need j ≤ (s.pmm.take ct).freeCount - _ ↔ _
      have hpred : (s.pmm.take ct).freeCount = s.pmm.freeCount - 1 := by omega
      rw [hpred]
  · right
    exact ⟨by simp [makeTable, allocTable, halloc], hnone⟩

end Filling

/-! ## How many frames a complete copy needs -/

def mapsAny (m : Mem) : ℕ → Word → Bool
  | 0, w => hasFlag w pteP
  | l + 1, w => hasFlag w pteP &&
      (hasFlag w ptePs || decide (∃ j, mapsAny m l (m (frameOf w) j) = true))

/-- Frames needed for a complete copy of a table.  The copy is made in order, so an entry finds
only what the entries before it have left. -/
def tableNeed (maps : Fin 512 → Bool) (cost need : Fin 512 → ℕ) : ℕ :=
  Finset.univ.sup fun j =>
    if maps j then (if need j = 0 then 1 else 1 + before cost j + need j) else 0

lemma mapsAny_iff (m) (l : ℕ) (w : Word) :
    mapsAny m l w = true ↔ ∃ path, entryLookup pteFormat m path l w ≠ none := by
  induction l generalizing w with
  | zero => by_cases hpresent : hasFlag w pteP = true <;> simp [mapsAny, entryLookup, hpresent]
  | succ l ih =>
    by_cases hpresent : hasFlag w pteP = true
    · by_cases hlarge : hasFlag w ptePs = true
      · simp [mapsAny, entryLookup, pteFormat_isTable, hpresent, hlarge]
      · have htable : pteFormat.isTable w = true := by
          simp [pteFormat_isTable, hpresent, hlarge]
        simp only [mapsAny, hpresent, hlarge, Bool.true_and, Bool.false_or,
          decide_eq_true_eq, entryLookup, htable, if_true, pteFormat_target, ih]
        constructor
        · rintro ⟨j, path, hfound⟩
          refine ⟨update path l j, ?_⟩
          rw [update_self, entryLookup_path_congr]
          · exact hfound
          · intro k hk
            exact update_of_ne (by omega) _ _
        · rintro ⟨path, hfound⟩
          exact ⟨path l, path, hfound⟩
    · simp [mapsAny, entryLookup, pteFormat_isTable, hpresent]

lemma tableNeed_eq_zero {cost need : Fin 512 → ℕ} :
    tableNeed maps cost need ≤ 0 ↔ ∀ j, maps j = false := by
  unfold tableNeed
  rw [Finset.sup_le_iff]
  simp only [Finset.mem_univ, true_implies]
  apply forall_congr'
  intro j
  cases maps j
  · simp
  · simp only [if_true, Bool.true_eq_false, iff_false]
    split <;> omega

lemma tableNeed_le_iff {cost need : Fin 512 → ℕ} {n : ℕ}
    (hn : n ≠ 0) (hmaps : ∀ j, maps j = false → need j = 0) :
    tableNeed maps cost need ≤ n ↔ ∀ j : Fin 512, need j ≤ n - 1 - before cost j := by
  unfold tableNeed
  rw [Finset.sup_le_iff]
  simp only [Finset.mem_univ, true_implies]
  apply forall_congr'
  intro j
  cases hj : maps j
  · simp [hmaps j hj]
  · simp only [if_true]
    by_cases hzero : need j = 0
    · rw [if_pos hzero]
      omega
    · rw [if_neg hzero]
      omega

lemma le_tableNeed (maps) (cost need : Fin 512 → ℕ) (j : Fin 512)
    (hmaps : maps j = true) (hneed : need j ≠ 0) :
    1 + before cost j + need j ≤ tableNeed maps cost need := by
  have hle := Finset.le_sup (f := fun j => if maps j = true then
    (if need j = 0 then 1 else 1 + before cost j + need j) else 0) (Finset.mem_univ j)
  simp only [hmaps, if_true, hneed, if_false] at hle
  exact hle

section Edges

variable {m₀ : Mem} {l : ℕ} {s t : Machine} {ct : ℕ} {src : Fin 512 → Word}
  {cost need : Fin 512 → ℕ} {w : Word}

lemma copied_none {cost need : ℕ} (hnone : s.pmm.freeCount = 0)
    (hneed : need ≤ 0 ↔ mapsAny m₀ l w = false) :
    Copied A m₀ l s s w 0#64 cost need := by
  refine ⟨Fresh.refl s, by omega, fun g => ?_, fun virt copy hc => ?_, ?_,
    fun p q _ _ => entryAll_of_absent _ l (zero_hasFlag _)⟩
  · rw [entryRefs_absent (zero_hasFlag _), zero_add]
  · rw [entryView_absent (zero_hasFlag _)] at hc
    contradiction
  · have hlookup : ∀ path, entryLookup pteFormat s.mem path l 0#64 = none := by
      cases l <;> simp [entryLookup, not_isTable_of_absent]
    rw [hnone, hneed, ← Bool.not_eq_true, mapsAny_iff]
    simp only [Complete, hlookup]
    simp

lemma copied_same (hrefs : ∀ g, entrySum pteFormat (refWeight g) s.mem l w = 0)
    (hlookup : ∀ path, entryLookup pteFormat s.mem path l w =
      entryLookup pteFormat m₀ path l w)
    (hkernel : ∀ virt page, entryView m₀ virt l w = some page → page.user = false)
    (hok : ∀ p q, entryAll pteFormat (EntryOk A) m₀ l p w →
      (hasFlag p pteU = true → hasFlag q pteU = true) →
      entryAll pteFormat (EntryOk A) s.mem l q w) :
    Copied A m₀ l s s w w 0 0 := by
  refine ⟨Fresh.refl s, rfl, fun g => by rw [hrefs, zero_add], fun virt copy hc => ?_, ?_, hok⟩
  · have hsame : entryView s.mem virt l w = entryView m₀ virt l w := by
      unfold entryView
      rw [hlookup]
    rw [hsame] at hc
    refine ⟨copy, hc, rfl, rfl, fun _ => rfl, fun hU => ?_⟩
    simp [hkernel virt copy hc] at hU
  · simp [Complete, hlookup]

lemma TableCopied.edge {flags : Word}
    (htab : TableCopied A m₀ l s t ct src cost need)
    (hflags : flags.toNat < 4096) (hps : hasFlag flags ptePs = false)
    (hp : hasFlag flags pteP = true) (hw : hasFlag flags pteW = true)
    (hu : hasFlag flags pteU = hasFlag w pteU)
    (hview : ∀ virt, entryView m₀ virt (l + 1) w =
      entryView m₀ virt l (src (tableIndex virt l)))
    (hlookup : ∀ path, entryLookup pteFormat m₀ path (l + 1) w ≠ none ↔
      entryLookup pteFormat m₀ path l (src (path l)) ≠ none)
    (hok : ∀ p, entryAll pteFormat (EntryOk A) m₀ (l + 1) p w →
      (hasFlag w pteU = true → hasFlag p pteU = true) ∧
        ∀ j, entryAll pteFormat (EntryOk A) m₀ l w (src j))
    (hmaps : ∀ j, maps j = false → need j = 0) :
    Copied A m₀ (l + 1) s t w (frameAddr ct ||| flags) (1 + ∑ j, cost j)
      (tableNeed maps cost need) := by
  obtain ⟨hframe, htable, hflag⟩ := edge_flags htab.bound hflags hps hp
  have hpos : s.pmm.freeCount ≠ 0 := by
    have := Pmm.freeCount_take htab.taken
    omega
  refine ⟨htab.fresh, htab.free, fun g => ?_, fun virt => ?_, ?_, fun p q hall hpq => ?_⟩
  · have hsum := htab.refs g
    simp only [entrySum, htable, if_true, refWeight_succ, edgeWeight_table htable,
      pteFormat_target, hframe]
    exact hsum
  · rw [hview, entryView_table htable, hframe]
    exact htab.view _ virt
  · rw [tableNeed_le_iff hpos hmaps, ← forall_congr' htab.complete]
    simp only [Complete, hlookup]
    have hnew : ∀ path, entryLookup pteFormat t.mem path (l + 1) (frameAddr ct ||| flags) =
        entryLookup pteFormat t.mem path l (t.mem ct (path l)) := by
      simp [entryLookup, htable, hframe]
    simp only [hnew]
    constructor
    · intro hall j path hfound
      have hpath : ∀ k, k < l → update path l j k = path k :=
        fun k hk => update_of_ne (by omega) _ _
      have := hall (update path l j)
      rw [update_self, entryLookup_path_congr _ _ hpath, entryLookup_path_congr _ _ hpath] at this
      exact this hfound
    · exact fun hall path => hall (path l) path
  · obtain ⟨hup, hsrc⟩ := hok p hall
    have hentry : EntryOk A (l + 1) q (frameAddr ct ||| flags) :=
      edge_entryOk htab.bound hflags hps hp hw (fun hU => hpq (hup (by rwa [← hu]))) (l + 1)
    refine ⟨hentry, fun _ j => ?_⟩
    rw [pteFormat_target, hframe]
    apply htab.ok j w _ (hsrc j)
    intro hU
    rw [hflag pteU (by decide), hu, hU]

lemma TableCopied.edge_table {flags : Word}
    (htab : TableCopied A m₀ l s t ct (m₀ (frameOf w)) cost need)
    (htable : pteFormat.isTable w = true) (hflags : flags.toNat < 4096)
    (hps : hasFlag flags ptePs = false) (hp : hasFlag flags pteP = true)
    (hw : hasFlag flags pteW = true) (hu : hasFlag flags pteU = hasFlag w pteU)
    (hmaps : ∀ j, maps j = false → need j = 0) :
    Copied A m₀ (l + 1) s t w (frameAddr ct ||| flags) (1 + ∑ j, cost j)
      (tableNeed maps cost need) := by
  have hpresent : hasFlag w pteP = true := by
    rw [pteFormat_isTable, Bool.and_eq_true] at htable
    exact htable.1
  refine htab.edge hflags hps hp hw hu (fun virt => entryView_table htable _ _ _) (fun path => by rw
    [entryLookup_table htable]) (fun p hall => ⟨hall.1.userUp hpresent, fun j => ?_⟩) hmaps
  have hchild := hall.2 htable j
  rwa [pteFormat_target] at hchild

end Edges

end HelixOS
