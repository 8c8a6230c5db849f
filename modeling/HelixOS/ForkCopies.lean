import HelixOS.TableCopies

/-!
# Copying and cloning page tables

`copy_pt_level` and `clone_kernel_level` produce copies in the sense of `Copied`, for every
number of free frames.
-/

namespace HelixOS

open RadixMemory LoopRules Option

variable {p : Word} {A : Set ℕ}

structure LiveEntry (A : Set ℕ) (pmm : Pmm) (l : ℕ) (p w : Word) : Prop where
  ok : EntryOk A l p w
  held : ∀ g, refWeight g l w ≠ 0 → ¬ pmm.IsFree g
  large : l = 1 → hasFlag w pteP = true → hasFlag w ptePs = true →
    hasFlag w pteU = true → ∀ j, j < 512 → ¬ pmm.IsFree (frameOf w % 2 ^ 40 + j)

lemma LiveEntry.of_absent {pmm : Pmm} {l : ℕ} {w : Word} (hw : hasFlag w pteP = false) :
    LiveEntry A pmm l p w :=
  ⟨EntryOk.of_absent hw, fun g hg => absurd (refWeight_absent hw g l) hg, by simp [hw]⟩

/-- Frames a copy of the entry takes if there are enough. -/
def copyCost (m : Mem) : ℕ → Word → ℕ
  | 0, w => if hasFlag w pteP && hasFlag w pteU then 1 else 0
  | l + 1, w =>
    if !hasFlag w pteP then 0
    else if hasFlag w ptePs then (if l = 0 ∧ hasFlag w pteU then 513 else 0)
    else 1 + ∑ j, copyCost m l (m (frameOf w) j)

/-- Frames without which a copy of the entry misses a page. -/
def copyNeed (m : Mem) : ℕ → Word → ℕ
  | 0, w => if hasFlag w pteP && hasFlag w pteU then 1 else 0
  | l + 1, w =>
    if !hasFlag w pteP then 0
    else if hasFlag w ptePs then (if l = 0 ∧ hasFlag w pteU then 513 else 0)
    else tableNeed (fun j => mapsAny m l (m (frameOf w) j))
      (fun j => copyCost m l (m (frameOf w) j)) (fun j => copyNeed m l (m (frameOf w) j))

abbrev CopiesEntry (A : Set ℕ) (m : Mem) (l : ℕ) (s : Machine) (w : Word) (r : Word × Machine) :
    Prop :=
  Copied A m l s r.2 w r.1 (copyCost m l w) (copyNeed m l w)

section Costs

variable {m : Mem} {l : ℕ} {w : Word}

lemma copyCost_absent (hw : hasFlag w pteP = false) : copyCost m l w = 0 := by
  cases l <;> simp [copyCost, hw]

lemma copyNeed_absent (hw : hasFlag w pteP = false) : copyNeed m l w = 0 := by
  cases l <;> simp [copyNeed, hw]

lemma copyCost_table (htable : pteFormat.isTable w = true) :
    copyCost m (l + 1) w = 1 + ∑ j, copyCost m l (m (frameOf w) j) := by
  rw [pteFormat_isTable, Bool.and_eq_true, Bool.not_eq_true'] at htable
  simp [copyCost, htable]

lemma copyNeed_table (htable : pteFormat.isTable w = true) :
    copyNeed m (l + 1) w = tableNeed (fun j => mapsAny m l (m (frameOf w) j))
      (fun j => copyCost m l (m (frameOf w) j))
      (fun j => copyNeed m l (m (frameOf w) j)) := by
  rw [pteFormat_isTable, Bool.and_eq_true, Bool.not_eq_true'] at htable
  simp [copyNeed, htable]

end Costs

lemma copyNeed_of_not_mapsAny {m : Mem} {l : ℕ} {w : Word}
    (hnone : mapsAny m l w = false) : copyNeed m l w = 0 := by
  cases l with
  | zero =>
    simp only [mapsAny] at hnone
    simp [copyNeed, hnone]
  | succ l =>
    by_cases hpresent : hasFlag w pteP = true
    · simp only [mapsAny, hpresent, Bool.true_and, Bool.or_eq_false_iff,
        decide_eq_false_iff_not, not_exists, Bool.not_eq_true] at hnone
      simp only [copyNeed, hpresent, hnone.1, Bool.not_true, Bool.false_eq_true, if_false]
      exact Nat.le_zero.mp (tableNeed_eq_zero.mpr hnone.2)
    · simp [copyNeed, hpresent]

section Pages

variable {s₀ s : Machine} {w old flags : Word}

lemma pageEntry_frame {p : ℕ} (hp : p < 2 ^ 40) (hflags : frameOf flags % 2 ^ 40 = 0) :
    frameOf ((frameAddr p &&& pteAddr) ||| flags) % 2 ^ 40 = p := by
  have haddr : frameOf (frameAddr p &&& pteAddr) = p := by
    rw [frameOf_eq, toNat_and_pteAddr, toNat_frameAddr (by omega)]
    omega
  rw [frameOf_or, Nat.or_mod_two_pow, hflags, Nat.or_zero, haddr, Nat.mod_eq_of_lt hp]

lemma hasFlag_pageEntry (flags : Word) (p : ℕ) (flag : Word) (hflag : flag.toNat < 4096) :
    hasFlag ((frameAddr p &&& pteAddr) ||| flags) flag = hasFlag flags flag := by
  have haddr : hasFlag (frameAddr p &&& pteAddr) flag = false := by
    apply hasFlag_of_aligned _ hflag
    rw [toNat_and_pteAddr]
    omega
  rw [hasFlag_or, haddr, Bool.false_or]

lemma copyPage_copied (hfresh : Fresh s₀ s) (hs : s.pmm.Sound) (hpresent : hasFlag w pteP = true)
    (huser : hasFlag w pteU = true) (hold : frameOf old = frameOf w % 2 ^ 40)
    (hheld : ¬ s₀.pmm.IsFree (frameOf w % 2 ^ 40)) (hfP : hasFlag flags pteP = true)
    (hfU : hasFlag flags pteU = true) (hfW : hasFlag flags pteW = hasFlag w pteW)
    (hff : frameOf flags % 2 ^ 40 = 0) :
    Copied A s₀.mem 0 s (copyPage s old flags).2 w (copyPage s old flags).1 1 1 := by
  rcases pmmAllocPage_cases hs with ⟨p, hfree, halloc, hne⟩ | ⟨hnone, halloc⟩
  swap
  · have hres : copyPage s old flags = (0#64, s) := by simp [copyPage, halloc]
    rw [hres]
    exact copied_none hnone (by simp [mapsAny, hpresent])
  obtain ⟨-, hbound⟩ := hs.free_bounds hfree
  have hframe : frameOf (frameAddr p) = p := frameOf_frameAddr (by omega)
  have hres : copyPage s old flags = ((frameAddr p &&& pteAddr) ||| flags,
      { s with pmm := s.pmm.take p, mem := copyFrame s.mem p (frameOf old) }) := by
    simp [copyPage, halloc, hne, hframe]
  rw [hres]
  have hentry := pageEntry_frame hbound hff
  have hP := (hasFlag_pageEntry flags p pteP (by decide)).trans hfP
  have hU := (hasFlag_pageEntry flags p pteU (by decide)).trans hfU
  have hW := (hasFlag_pageEntry flags p pteW (by decide)).trans hfW
  have hcount := Pmm.freeCount_take hfree
  refine ⟨⟨Pmm.Grows.take hfree, rfl, rfl, fun g hg => ?_⟩, by simp only; omega,
    fun g => ?_, fun virt copy hc => ?_, ?_, fun q q' hall hqq => ?_⟩
  · apply Function.update_of_ne
    rintro rfl
    rcases hg with hg | hg
    · simp [hfree.2] at hg
    · simp [Pmm.take] at hg
  · simp only [entrySum, refWeight, edgeWeight, hP, hU, hentry, ne_eq, not_true_eq_false,
      false_and, if_false, true_and, zero_add]
    rw [Pmm.usedCount_take hfree]
    omega
  · simp only [entryView, entryLookup, pteFormat_present, hP, hpresent, if_true, map_some,
      viewLeaf, leafMapping, hW, hU, leafFrame_zero, hentry, some.injEq] at hc ⊢
    refine ⟨_, rfl, by rw [← hc], by rw [← hc, huser], fun h => ?_, fun _ => ?_⟩
    · simp [huser] at h
    · rw [← hc]
      refine ⟨hfree.2, by simp [Pmm.take], ?_⟩
      simp only [copyFrame, Function.update_self, hold]
      exact hfresh.mem_of_not_free hheld
  · simp [Complete, entryLookup, hP]
    omega
  · constructor
    · intro _ _
      exact hqq (hall.userUp hpresent huser)
    all_goals
      omega

lemma frameOf_and_not_addr (w : Word) : frameOf (w &&& ~~~pteAddr) % 2 ^ 40 = 0 := by
  have hmask : frameOf (~~~pteAddr) = 2 ^ 40 * (2 ^ 12 - 1) := by decide
  rw [frameOf_and, hmask, Nat.and_mod_two_pow, Nat.mul_mod_right, Nat.and_zero]

lemma refWeight_leaf (g : ℕ) (w : Word) (hpresent : hasFlag w pteP = true)
    (huser : hasFlag w pteU = true) :
    refWeight g 0 w = if frameOf w % 2 ^ 40 = g then 1 else 0 := by
  simp [refWeight, edgeWeight, hpresent, huser]

lemma copied_absent {m₀ : Mem} {l : ℕ} (hw : hasFlag w pteP = false) :
    Copied A m₀ l s s w 0#64 0 0 := by
  have hnone : ∀ (m : Mem) path x, hasFlag x pteP = false →
      entryLookup pteFormat m path l x = none := by
    intro m path x hx
    cases l <;> simp [entryLookup, not_isTable_of_absent hx, hx]
  refine ⟨Fresh.refl s, rfl, fun g => ?_, fun virt copy hc => ?_, ?_,
    fun p q _ _ => entryAll_of_absent _ l (zero_hasFlag _)⟩
  · rw [entryRefs_absent (zero_hasFlag _), zero_add]
  · rw [entryView_absent (zero_hasFlag _)] at hc
    contradiction
  · simp [Complete, hnone _ _ w hw]

lemma copied_kernel_leaf {m₀ : Mem} {l : ℕ} (hleaf : l = 0 ∨ pteFormat.isTable w = false)
    (hkernel : hasFlag w pteU = false) : Copied A m₀ l s s w w 0 0 := by
  have hlookup : ∀ (m : Mem) path, entryLookup pteFormat m path l w =
      if hasFlag w pteP then some (w, l) else none := by
    intro m path
    cases l with
    | zero => rfl
    | succ l =>
      have hnot : pteFormat.isTable w = false := by simpa using hleaf
      simp only [entryLookup, hnot, Bool.false_eq_true, if_false]
      rfl
  refine copied_same (fun g => ?_) (fun path => by rw [hlookup, hlookup])
    (fun virt page hpage => ?_) fun p q hall hpq => ?_
  · cases l with
    | zero => simp [entrySum, refWeight, edgeWeight, hkernel]
    | succ l =>
      have hnot : pteFormat.isTable w = false := by simpa using hleaf
      simp [entrySum, refWeight, edgeWeight, hnot]
  · simp only [entryView, hlookup] at hpage
    split at hpage
    · simp only [map_some, some.injEq] at hpage
      rw [← hpage]
      exact hkernel
    · simp at hpage
  · cases l with
    | zero => exact { hall with userUp := fun _ hU => absurd hU (by simp [hkernel]) }
    | succ l =>
      have hnot : pteFormat.isTable w = false := by simpa using hleaf
      refine ⟨{ hall.1 with userUp := fun _ hU => absurd hU (by simp [hkernel]) }, fun htable => ?_⟩
      simp [hnot] at htable

lemma copyLeaf_copied (hfresh : Fresh s₀ s) (hs : s.pmm.Sound)
    (hlive : LiveEntry A s₀.pmm 0 p w) :
    CopiesEntry A s₀.mem 0 s w (copyLeaf s w) := by
  unfold CopiesEntry
  by_cases hpresent : hasFlag w pteP = true
  swap
  · simp only [copyLeaf, copyCost, copyNeed, hpresent, Bool.not_false, if_true,
      Bool.false_and, Bool.false_eq_true, if_false]
    exact copied_absent (by simpa using hpresent)
  by_cases huser : hasFlag w pteU = true
  swap
  · simp only [copyLeaf, copyCost, copyNeed, hpresent, huser, Bool.not_true, Bool.not_false,
      if_true, Bool.and_false, Bool.false_eq_true, if_false]
    exact copied_kernel_leaf (Or.inl rfl) (by simpa using huser)
  simp only [copyLeaf, copyCost, copyNeed, hpresent, huser, Bool.not_true, Bool.and_self,
    Bool.false_eq_true, if_false, if_true]
  apply copyPage_copied hfresh hs hpresent huser (leafFrame_zero w 0#64)
  · apply hlive.held
    simp [refWeight_leaf _ w hpresent huser]
  · rw [hasFlag_and, show ~~~pteAddr &&& pteP = pteP by decide, hpresent]
  · rw [hasFlag_and, show ~~~pteAddr &&& pteU = pteU by decide, huser]
  · rw [hasFlag_and, show ~~~pteAddr &&& pteW = pteW by decide]
  · exact frameOf_and_not_addr w

/-! ## Large pages -/

lemma splitEntry_entryOk (big : Word) (j : Fin 512) :
    EntryOk A 0 big (splitEntry big j) := by
  constructor
  · intro _ hU
    rwa [splitEntry_user] at hU
  all_goals
    omega

lemma tableNeed_const :
    tableNeed (fun _ => true) (fun _ => 1) (fun _ => 1) = 513 := by
  have hbefore : ∀ j : Fin 512, before (fun _ : Fin 512 => 1) j.val = j.val := by
    intro j
    unfold before
    rw [Finset.sum_boole]
    have := Fin.card_filter_val_lt (n := 512) (m := j.val)
    simp only [Nat.cast_id]
    omega
  apply le_antisymm
  · unfold tableNeed
    apply Finset.sup_le
    simp only [if_true, Nat.one_ne_zero, if_false, hbefore]
    omega
  · have hlast := le_tableNeed (fun _ => true) (fun _ => 1) (fun _ => 1) (Fin.last 511) rfl
    rw [hbefore, Fin.val_last] at hlast
    omega

lemma toNat_edgeFlags_or (w flags : Word) (hflags : flags.toNat < 4096) :
    ((w &&& edgeFlags) ||| flags).toNat < 4096 := by
  have hmask : (w &&& edgeFlags).toNat < 2 ^ 12 := by
    rw [BitVec.toNat_and]
    have hle : w.toNat &&& edgeFlags.toNat ≤ edgeFlags.toNat := Nat.and_le_right
    have hlit : edgeFlags.toNat = 30 := by decide
    omega
  exact Nat.or_lt_two_pow hmask hflags

lemma copyLargePage_copied (hfresh : Fresh s₀ s) (hs : s.pmm.Sound)
    (hlive : LiveEntry A s₀.pmm 1 p w) (hpresent : hasFlag w pteP = true)
    (hlarge : hasFlag w ptePs = true) (huser : hasFlag w pteU = true) :
    Copied A s₀.mem 1 s (copyLargePage s w).2 w (copyLargePage s w).1 513 513 := by
  have haligned := hlive.ok.largeAligned rfl hpresent hlarge
  have hflagsW : hasFlag ((w &&& edgeFlags) ||| pteP) pteW = hasFlag w pteW := by
    rw [hasFlag_or, hasFlag_and, show edgeFlags &&& pteW = pteW by decide,
      show hasFlag pteP pteW = false by decide, Bool.or_false]
  have hflagsU : hasFlag ((w &&& edgeFlags) ||| pteP) pteU = hasFlag w pteU := by
    rw [hasFlag_or, hasFlag_and, show edgeFlags &&& pteU = pteU by decide,
      show hasFlag pteP pteU = false by decide, Bool.or_false]
  have hflagsP : hasFlag ((w &&& edgeFlags) ||| pteP) pteP = true := by
    rw [hasFlag_or, show hasFlag pteP pteP = true by decide, Bool.or_true]
  have hlow := toNat_edgeFlags_or w pteP (by decide)
  have hzero : frameOf ((w &&& edgeFlags) ||| pteP) % 2 ^ 40 = 0 := by
    rw [frameOf_eq]
    omega
  have hvalue : ∀ (j : Fin 512) t, Fresh s t →
      t.pmm.freeCount = s.pmm.freeCount - 1 - before (fun _ : Fin 512 => 1) j →
      Copied A s₀.mem 0 t (copyPage t ((w &&& pteAddr) + BitVec.ofNat 64 j.val * 4096#64)
        ((w &&& edgeFlags) ||| pteP)).2 (splitEntry w j)
        (copyPage t ((w &&& pteAddr) + BitVec.ofNat 64 j.val * 4096#64)
          ((w &&& edgeFlags) ||| pteP)).1 1 1 := by
    intro j t ht _
    have hframe := splitEntry_frame w j haligned
    apply copyPage_copied (hfresh.trans ht) (ht.pmm.sound hs) (splitEntry_present w j)
      (by rw [splitEntry_user, huser])
    · rw [hframe, frameOf_eq, BitVec.toNat_add, toNat_and_pteAddr, BitVec.toNat_mul,
        BitVec.toNat_ofNat, BitVec.toNat_ofNat, ← frameOf_eq]
      omega
    · rw [hframe]
      exact hlive.large rfl hpresent hlarge huser j.val j.isLt
    · exact hflagsP
    · rw [hflagsU, huser]
    · rw [hflagsW, splitEntry_writable]
    · exact hzero
  rcases makeTable_cases hs hvalue with ⟨ct, t, hmake, hne, htab⟩ | ⟨hmake, hnone⟩
  · have hassoc : frameAddr ct ||| (w &&& edgeFlags) ||| pteP =
        frameAddr ct ||| ((w &&& edgeFlags) ||| pteP) := BitVec.or_assoc ..
    have hres : copyLargePage s w = (frameAddr ct ||| ((w &&& edgeFlags) ||| pteP), t) := by
      rw [copyLargePage, hmake]
      simp [hne, hassoc]
    have hcopied : Copied A s₀.mem 1 s t w (frameAddr ct ||| ((w &&& edgeFlags) ||| pteP))
        (1 + ∑ _j : Fin 512, 1) (tableNeed (fun _ => true) (fun _ => 1) (fun _ => 1)) := by
      refine htab.edge hlow ?_ hflagsP ?_ hflagsU (fun virt => ?_) (fun path => ?_) (fun q hall =>
        ⟨hall.1.userUp hpresent, splitEntry_entryOk w⟩) (fun j h => by simp at h)
      · rw [hasFlag_or, hasFlag_and, show edgeFlags &&& ptePs = 0#64 by decide,
          hasFlag_zero, Bool.false_or]
        decide
      · rw [hflagsW]
        exact hlive.ok.largeWritable rfl hpresent hlarge
      · exact (entryView_splitEntry hpresent hlarge haligned _ _).symm
      · have hnot : pteFormat.isTable w = false := by simp [pteFormat_isTable, hlarge]
        simp [entryLookup, hnot, hpresent, splitEntry_present]
    rw [tableNeed_const] at hcopied
    rw [hres]
    simpa using hcopied
  · have hres : copyLargePage s w = (0#64, s) := by
      rw [copyLargePage, hmake]
      rfl
    rw [hres]
    exact copied_none hnone (by simp [mapsAny, hpresent, hlarge])

/-! ## Tables -/

lemma copyEdge_flags (tab w : Word) : (tab ||| pteP ||| pteW) ||| (w &&& edgeFlags) ||| pteP =
      tab ||| ((w &&& edgeFlags) ||| (pteP ||| pteW)) := by
  apply BitVec.eq_of_getLsbD_eq
  intro i _
  simp only [BitVec.getLsbD_or]
  cases tab.getLsbD i <;> cases pteP.getLsbD i <;> cases pteW.getLsbD i <;>
    cases (w &&& edgeFlags).getLsbD i <;> rfl

lemma TableCopied.sameFlags {m₀ : Mem} {l : ℕ} {t : Machine} {ct : ℕ} {cost need : Fin 512 → ℕ}
    (htab : TableCopied A m₀ l s t ct (m₀ (frameOf w)) cost need)
    (htable : pteFormat.isTable w = true) (maps : Fin 512 → Bool)
    (hmaps : ∀ j, maps j = false → need j = 0) :
    Copied A m₀ (l + 1) s t w
      ((frameAddr ct ||| pteP ||| pteW) ||| (w &&& edgeFlags) ||| pteP) (1 + ∑ j, cost j)
      (tableNeed maps cost need) := by
  rw [copyEdge_flags]
  refine htab.edge_table htable (toNat_edgeFlags_or w _ (by decide)) ?_ ?_ ?_ ?_ hmaps
  · rw [hasFlag_or, hasFlag_and, show edgeFlags &&& ptePs = 0#64 by decide, hasFlag_zero,
      Bool.false_or]
    decide
  · rw [hasFlag_or, show hasFlag (pteP ||| pteW) pteP = true by decide, Bool.or_true]
  · rw [hasFlag_or, show hasFlag (pteP ||| pteW) pteW = true by decide, Bool.or_true]
  · rw [hasFlag_or, hasFlag_and, show edgeFlags &&& pteU = pteU by decide,
      show hasFlag (pteP ||| pteW) pteU = false by decide, Bool.or_false]

lemma EntryOk.kernel_below {l : ℕ} (hok : EntryOk A l p w)
    (hp : hasFlag p pteU = false) (hpresent : hasFlag w pteP = true) :
    hasFlag w pteU = false := by
  by_contra hU
  have := hok.userUp hpresent (by simpa using hU)
  simp [hp] at this

lemma LiveEntry.table_held {pmm : Pmm} {l : ℕ}
    (hlive : LiveEntry A pmm (l + 1) p w) (htable : pteFormat.isTable w = true) :
    ¬ pmm.IsFree (frameOf w) := by
  apply hlive.held
  simp [refWeight_succ, edgeWeight_table htable]

lemma entryPW_ne_zero (tab : Word) : tab ||| pteP ||| pteW ≠ 0#64 := by
  intro hzero
  have hflag : hasFlag (tab ||| pteP ||| pteW) pteP = true := by
    rw [hasFlag_or, hasFlag_or, show hasFlag pteP pteP = true by decide, Bool.or_true, Bool.true_or]
  rw [hzero, zero_hasFlag] at hflag
  contradiction

section Level

variable {l : ℕ} {entry : Machine → Word → Word × Machine} {cost need : Fin 512 → ℕ}

lemma copyLevel_cases {parentTab : ℕ} (hfresh : Fresh s₀ s) (hs : s.pmm.Sound)
    (hheld : ¬ s₀.pmm.IsFree parentTab)
    (hentry : ∀ (j : Fin 512) t, Fresh s₀ t → t.pmm.Sound →
      Copied A s₀.mem l t (entry t (s₀.mem parentTab j)).2 (s₀.mem parentTab j)
        (entry t (s₀.mem parentTab j)).1 (cost j) (need j)) :
    (∃ ct t, copyLevel entry s parentTab = (frameAddr ct ||| pteP ||| pteW, t) ∧
      TableCopied A s₀.mem l s t ct (s₀.mem parentTab) cost need) ∨
    (copyLevel entry s parentTab = (0#64, s) ∧ s.pmm.freeCount = 0) := by
  have hvalue : ∀ (j : Fin 512) t, Fresh s t →
      t.pmm.freeCount = s.pmm.freeCount - 1 - before cost j →
      Copied A s₀.mem l t (entry t (t.mem parentTab j)).2 (s₀.mem parentTab j)
        (entry t (t.mem parentTab j)).1 (cost j) (need j) := by
    intro j t ht _
    have hst := hfresh.trans ht
    rw [hst.mem_of_not_free hheld]
    exact hentry j t hst (ht.pmm.sound hs)
  rcases makeTable_cases hs hvalue with ⟨ct, t, hmake, hne, htab⟩ | ⟨hmake, hnone⟩
  · left
    exact ⟨ct, t, by simp [copyLevel, hmake, hne], htab⟩
  · right
    exact ⟨by simp [copyLevel, hmake], hnone⟩

lemma copyEdge_copied (hfresh : Fresh s₀ s) (hs : s.pmm.Sound)
    (hlive : LiveEntry A s₀.pmm (l + 1) p w) (htable : pteFormat.isTable w = true)
    (hmaps : ∀ j, mapsAny s₀.mem l (s₀.mem (frameOf w) j) = false → need j = 0)
    (hentry : ∀ (j : Fin 512) t, Fresh s₀ t → t.pmm.Sound →
      Copied A s₀.mem l t (entry t (s₀.mem (frameOf w) j)).2 (s₀.mem (frameOf w) j)
        (entry t (s₀.mem (frameOf w) j)).1 (cost j) (need j)) :
    Copied A s₀.mem (l + 1) s (copyEdge entry s w).2 w (copyEdge entry s w).1
      (1 + ∑ j, cost j)
      (tableNeed (fun j => mapsAny s₀.mem l (s₀.mem (frameOf w) j)) cost need) := by
  have hnext := frameOf_and_addr (hlive.ok.tableFits (by omega) htable)
  have hheld := hlive.table_held htable
  rcases copyLevel_cases hfresh hs hheld hentry with ⟨ct, t, hcopy, htab⟩ | ⟨hcopy, hnone⟩
  · have hres : copyEdge entry s w =
        (frameAddr ct ||| pteP ||| pteW ||| (w &&& edgeFlags) ||| pteP, t) := by
      simp only [copyEdge, hnext, hcopy, entryPW_ne_zero, if_false]
    rw [hres]
    exact htab.sameFlags htable _ hmaps
  · have hres : copyEdge entry s w = (0#64, s) := by
      simp only [copyEdge, hnext, hcopy, if_true]
    rw [hres]
    apply copied_none hnone
    have hflags := htable
    rw [pteFormat_isTable, Bool.and_eq_true] at hflags
    rw [tableNeed_eq_zero]
    simp only [mapsAny, hflags.1, Bool.true_and, Bool.or_eq_false_iff,
      decide_eq_false_iff_not, not_exists, Bool.not_eq_true]
    simp only [Bool.not_eq_true'] at hflags
    simp [hflags.2]

end Level

lemma copyEntry_copied {l : ℕ} (hl : l ≤ 2) (hfresh : Fresh s₀ s) (hs : s.pmm.Sound)
    (hlive : entryAll pteFormat (LiveEntry A s₀.pmm) s₀.mem l p w) :
    CopiesEntry A s₀.mem l s w (copyEntry l s w) := by
  unfold CopiesEntry
  induction l generalizing s p w with
  | zero => exact copyLeaf_copied hfresh hs hlive
  | succ l ih =>
    obtain ⟨hentry, hbelow⟩ := hlive
    by_cases hpresent : hasFlag w pteP = true
    swap
    · simp only [copyEntry, copyCost, copyNeed, hpresent, Bool.not_false, if_true]
      exact copied_absent (by simpa using hpresent)
    by_cases hlarge : hasFlag w ptePs = true
    · have hnot : pteFormat.isTable w = false := by simp [pteFormat_isTable, hlarge]
      simp only [copyEntry, copyCost, copyNeed, hpresent, hlarge, Bool.not_true,
        Bool.false_eq_true, if_false, if_true]
      by_cases hsplit : l = 0 ∧ hasFlag w pteU = true
      · simp only [hsplit, and_self, if_true]
        obtain ⟨rfl, huser⟩ := hsplit
        exact copyLargePage_copied hfresh hs hentry hpresent hlarge huser
      · simp only [hsplit, if_false]
        apply copied_kernel_leaf (Or.inr hnot)
        by_cases hzero : l = 0
        · simpa [hzero] using hsplit
        · exact hentry.ok.hugeKernel (by omega) hpresent hlarge
    · have htable : pteFormat.isTable w = true := by
        simp [pteFormat_isTable, hpresent, hlarge]
      simp only [copyEntry, copyCost, copyNeed, hpresent, hlarge, Bool.not_true,
        Bool.false_eq_true, if_false]
      refine copyEdge_copied hfresh hs hentry htable (fun j => copyNeed_of_not_mapsAny)
        fun j t ht hsound => ?_
      have hchild := hbelow htable j
      rw [pteFormat_target] at hchild
      exact ih (by omega) ht hsound hchild

lemma cloneEntry_copied {l : ℕ} (hp : hasFlag p pteU = false) (hfresh : Fresh s₀ s)
    (hs : s.pmm.Sound) (hlive : entryAll pteFormat (LiveEntry A s₀.pmm) s₀.mem l p w) :
    CopiesEntry A s₀.mem l s w (cloneEntry l s w) := by
  unfold CopiesEntry
  induction l generalizing s p w with
  | zero =>
    by_cases hpresent : hasFlag w pteP = true
    · have huser := hlive.ok.kernel_below hp hpresent
      simp only [cloneEntry, copyCost, copyNeed, hpresent, huser, Bool.not_true,
        Bool.and_false, Bool.false_eq_true, if_false]
      exact copied_kernel_leaf (Or.inl rfl) huser
    · simp only [cloneEntry, copyCost, copyNeed, hpresent, Bool.not_false, if_true,
        Bool.false_and, Bool.false_eq_true, if_false]
      exact copied_absent (by simpa using hpresent)
  | succ l ih =>
    obtain ⟨hentry, hbelow⟩ := hlive
    by_cases hpresent : hasFlag w pteP = true
    swap
    · simp only [cloneEntry, copyCost, copyNeed, hpresent, Bool.not_false, if_true]
      exact copied_absent (by simpa using hpresent)
    have huser := hentry.ok.kernel_below hp hpresent
    by_cases hlarge : hasFlag w ptePs = true
    · have hnot : pteFormat.isTable w = false := by simp [pteFormat_isTable, hlarge]
      simp only [cloneEntry, copyCost, copyNeed, hpresent, hlarge, huser, Bool.not_true,
        Bool.false_eq_true, if_false, if_true, and_false]
      exact copied_kernel_leaf (Or.inr hnot) huser
    · have htable : pteFormat.isTable w = true := by
        simp [pteFormat_isTable, hpresent, hlarge]
      simp only [cloneEntry, copyCost, copyNeed, hpresent, hlarge, Bool.not_true,
        Bool.false_eq_true, if_false]
      refine copyEdge_copied hfresh hs hentry htable (fun j => copyNeed_of_not_mapsAny)
        fun j t ht hsound => ?_
      have hchild := hbelow htable j
      rw [pteFormat_target] at hchild
      exact ih huser ht hsound hchild

end Pages

end HelixOS
