import HelixOS.ForkCopies
import HelixOS.DestroyedSpaces

/-!
# Whole address spaces: `fork` copies and kernel clones

The PML4 is filled like the tables below it, except that an entry whose table cannot be
copied for lack of memory is shared with the source.
-/

namespace HelixOS

open RadixMemory LoopRules Function BitVec

variable {A : Set ℕ}

structure LiveSpace (A : Set ℕ) (s : Machine) (p : Word) (root : ℕ) : Prop where
  entries : tableAll pteFormat (LiveEntry A s.pmm) s.mem 3 p root
  held : ¬ s.pmm.IsFree root
  sound : s.pmm.Sound

lemma LiveSpace.ok {s : Machine} {p : Word} {root : ℕ} (hlive : LiveSpace A s p root) :
    tableAll pteFormat (EntryOk A) s.mem 3 p root :=
  fun j => entryAll_mono (fun _ _ _ h => h.ok) (hlive.entries j)

def topCost (m : Mem) (root : ℕ) : ℕ := 1 + ∑ i, copyCost m 3 (m root i)

def topNeed (m : Mem) (root : ℕ) : ℕ :=
  Finset.univ.sup fun i => if hasFlag (m root i) pteP then
    1 + before (fun i => copyCost m 3 (m root i)) i + max 1 (copyNeed m 3 (m root i)) else 0

structure TopEntries (A : Set ℕ) (s₀ : Machine) (root : ℕ)
    (top : Machine → Word → Word × Machine) : Prop where
  copied : ∀ i s, Fresh s₀ s → s.pmm.Sound →
    hasFlag (s₀.mem root i) pteP = false ∨ s.pmm.freeCount ≠ 0 →
    Copied A s₀.mem 3 s (top s (s₀.mem root i)).2 (s₀.mem root i)
      (top s (s₀.mem root i)).1 (copyCost s₀.mem 3 (s₀.mem root i))
      (copyNeed s₀.mem 3 (s₀.mem root i))
  shared : ∀ i s, s.pmm.Sound → hasFlag (s₀.mem root i) pteP = true →
    s.pmm.freeCount = 0 → top s (s₀.mem root i) = (s₀.mem root i, s)

section TopEntry

variable {s₀ s : Machine} {w p : Word} {root : ℕ} {entry top : Machine → Word → Word × Machine}
  {mk : Word → Word → Word}

/-- `top` makes an entry of the PML4, its table with `entry` and the flags of the edge with
`mk`. -/
def MakesTop (entry top : Machine → Word → Word × Machine) (mk : Word → Word → Word) : Prop :=
  ∀ s w, top s w =
    if !hasFlag w pteP then (0#64, s)
    else
      let (child, s₁) := copyLevel entry s (frameOf (w &&& pteAddr))
      if child ≠ 0#64 then (mk w child, s₁) else (w, s₁)

lemma MakesTop.copied (htop : MakesTop entry top mk) (hfresh : Fresh s₀ s) (hs : s.pmm.Sound)
    (hlive : entryAll pteFormat (LiveEntry A s₀.pmm) s₀.mem 3 p w)
    (hcase : hasFlag w pteP = false ∨ s.pmm.freeCount ≠ 0)
    (hchild : ∀ {t w'}, hasFlag w pteP = true → Fresh s₀ t → t.pmm.Sound →
      entryAll pteFormat (LiveEntry A s₀.pmm) s₀.mem 2 w w' →
      CopiesEntry A s₀.mem 2 t w' (entry t w'))
    (hedge : ∀ {ct t}, pteFormat.isTable w = true →
      TableCopied A s₀.mem 2 s t ct (s₀.mem (frameOf w))
        (fun j => copyCost s₀.mem 2 (s₀.mem (frameOf w) j))
        (fun j => copyNeed s₀.mem 2 (s₀.mem (frameOf w) j)) →
      CopiesEntry A s₀.mem 3 s w (mk w (frameAddr ct ||| pteP ||| pteW), t)) :
    CopiesEntry A s₀.mem 3 s w (top s w) := by
  obtain ⟨hentry, hbelow⟩ := hlive
  rw [htop s w]
  cases hpresent : hasFlag w pteP
  · rw [CopiesEntry, copyCost_absent hpresent, copyNeed_absent hpresent]
    exact copied_absent hpresent
  have htable : pteFormat.isTable w = true := by
    simp [pteFormat_isTable, hpresent, hentry.ok.topTable rfl hpresent]
  have hnext := frameOf_and_addr (hentry.ok.tableFits (by omega) htable)
  simp only [pteFormat_target] at hbelow
  rcases copyLevel_cases hfresh hs (hentry.table_held htable) fun j t ht hsound =>
      hchild hpresent ht hsound (hbelow htable j) with ⟨ct, t, hcopy, htab⟩ | ⟨-, hnone⟩
  · simp only [Bool.not_true, Bool.false_eq_true, if_false, hnext, hcopy, ne_eq,
      entryPW_ne_zero, not_false_eq_true, if_true]
    exact hedge htable htab
  · simp [hpresent, hnone] at hcase

lemma MakesTop.shared (htop : MakesTop entry top mk) (hs : s.pmm.Sound)
    (hpresent : hasFlag w pteP = true) (hnone : s.pmm.freeCount = 0) : top s w = (w, s) := by
  rcases allocZeroedPage_cases hs with ⟨ct, hfree, -⟩ | ⟨-, halloc⟩
  · have := Pmm.freeCount_take hfree
    omega
  · simp [htop s w, hpresent, copyLevel, makeTable, allocTable, halloc]

lemma LiveSpace.copyTop (hlive : LiveSpace A s₀ p root) :
    TopEntries A s₀ root copyTopEntry := by
  have htop : MakesTop (copyEntry 2) copyTopEntry fun w child => child ||| (w &&& edgeFlags) :=
    fun _ _ => rfl
  refine ⟨fun i s hfresh hs hcase => htop.copied hfresh hs (hlive.entries i) hcase
    (fun _ => copyEntry_copied le_rfl) fun {ct t} htable htab => ?_, fun _ _ => htop.shared⟩
  have hflags : frameAddr ct ||| pteP ||| pteW ||| (s₀.mem root i &&& edgeFlags) =
      frameAddr ct ||| pteP ||| pteW ||| (s₀.mem root i &&& edgeFlags) ||| pteP := by
    apply eq_of_getLsbD_eq
    intro i _
    simp only [getLsbD_or]
    cases pteP.getLsbD i <;> simp
  rw [CopiesEntry, hflags, copyCost_table htable, copyNeed_table htable]
  exact htab.sameFlags htable _ fun j => copyNeed_of_not_mapsAny

lemma LiveSpace.cloneTop (hlive : LiveSpace A s₀ p root) (hp : hasFlag p pteU = false) :
    TopEntries A s₀ root cloneTopEntry := by
  have htop : MakesTop (cloneEntry 2) cloneTopEntry fun _ child => child := fun _ _ => rfl
  have huser (i : Fin 512) := (hlive.entries i).1.ok.kernel_below hp
  refine ⟨fun i s hfresh hs hcase => htop.copied hfresh hs (hlive.entries i) hcase (fun hpresent =>
    cloneEntry_copied (huser i hpresent)) fun {ct t} htable htab => ?_, fun _ _ => htop.shared⟩
  -- the clone drops the flags of the edge; without the user bit nothing is lost
  have hassoc : frameAddr ct ||| pteP ||| pteW = frameAddr ct ||| (pteP ||| pteW) :=
    or_assoc ..
  rw [CopiesEntry, hassoc, copyCost_table htable, copyNeed_table htable]
  refine htab.edge_table htable (by decide) (by decide) (by decide) (by decide) ?_
    fun j => copyNeed_of_not_mapsAny
  rw [pteFormat_isTable, Bool.and_eq_true] at htable
  rw [huser i htable.1]
  decide

end TopEntry

/-! ## The PML4 -/

section MakeTop

variable {s₀ : Machine} {p : Word} {root : ℕ} {top : Machine → Word → Word × Machine}

def makeTop (top : Machine → Word → Word × Machine) (root : ℕ) (s : Machine) :
    Word × Machine :=
  makeTable (fun s i => top s (s.mem root i)) s

/-- What is free when the entry `i` of the PML4 is reached. -/
def freeAt (s₀ : Machine) (root : ℕ) (i : Fin 512) : ℕ :=
  s₀.pmm.freeCount - 1 - before (fun i => copyCost s₀.mem 3 (s₀.mem root i)) i

lemma makeTop_none (hs : s₀.pmm.Sound) (hnone : s₀.pmm.freeCount = 0) :
    makeTop top root s₀ = (0#64, s₀) := by
  rcases allocZeroedPage_cases hs with ⟨ct, hfree, -⟩ | ⟨-, halloc⟩
  · have := Pmm.freeCount_take hfree
    omega
  · simp [makeTop, makeTable, allocTable, halloc]

lemma makeTop_copied (hlive : LiveSpace A s₀ p root) (htop : TopEntries A s₀ root top)
    (hpos : s₀.pmm.freeCount ≠ 0)
    (hroom : ∀ i, hasFlag (s₀.mem root i) pteP = true → freeAt s₀ root i ≠ 0) :
    ∃ ct t, makeTop top root s₀ = (frameAddr ct, t) ∧ frameAddr ct ≠ 0#64 ∧
      TableCopied A s₀.mem 3 s₀ t ct (s₀.mem root)
        (fun i => copyCost s₀.mem 3 (s₀.mem root i))
        (fun i => copyNeed s₀.mem 3 (s₀.mem root i)) := by
  have hvalue : ∀ (i : Fin 512) t, Fresh s₀ t → t.pmm.freeCount = s₀.pmm.freeCount - 1 -
      before (fun i => copyCost s₀.mem 3 (s₀.mem root i)) i →
      Copied A s₀.mem 3 t (top t (t.mem root i)).2 (s₀.mem root i) (top t (t.mem root i)).1
        (copyCost s₀.mem 3 (s₀.mem root i)) (copyNeed s₀.mem 3 (s₀.mem root i)) := by
    intro i t ht hfree
    rw [ht.mem_of_not_free hlive.held]
    apply htop.copied i t ht (ht.pmm.sound hlive.sound)
    by_cases hpresent : hasFlag (s₀.mem root i) pteP = true
    · right
      rw [hfree]
      exact hroom i hpresent
    · exact Or.inl (by simpa using hpresent)
  rcases makeTable_cases hlive.sound hvalue with ⟨ct, t, hmake, hne, htab⟩ | ⟨-, hnone⟩
  · exact ⟨ct, t, hmake, hne, htab⟩
  · exact absurd hnone hpos

lemma Fresh.setEntry_new {s t : Machine} {ct : ℕ} (hfresh : Fresh s t)
    (hfree : s.pmm.used ct = false) (hused : t.pmm.used ct = true) (i : Fin 512) (w : Word) :
    Fresh s (t.setEntry ct i w) := by
  refine ⟨hfresh.pmm, hfresh.cr3_eq, hfresh.kernel_eq, fun g hg => ?_⟩
  rw [Machine.setEntry_mem, setEntry_frame_ne, hfresh.mem g hg]
  rintro rfl
  simp [hfree, hused] at hg

structure TopFilled (s₀ : Machine) (root ct k : ℕ) (t : Machine) : Prop where
  fresh : Fresh s₀ t
  used : t.pmm.used ct = true
  free : t.pmm.freeCount =
    s₀.pmm.freeCount - 1 - before (fun i => copyCost s₀.mem 3 (s₀.mem root i)) k
  shared : ∀ j : Fin 512, j.val < k → hasFlag (s₀.mem root j) pteP = true →
    freeAt s₀ root j = 0 → t.mem ct j = s₀.mem root j

lemma TopFilled.init {ct : ℕ} (hfree : s₀.pmm.IsFree ct) :
    TopFilled s₀ root ct 0 (s₀.takeFrame ct) := by
  refine ⟨takeFrame_fresh hfree, by simp [Machine.takeFrame, Pmm.take], ?_, fun j hj => by omega⟩
  have hcount := Pmm.freeCount_take hfree
  rw [before_zero]
  change (s₀.pmm.take ct).freeCount = _
  omega

lemma TopFilled.step {t : Machine} {ct : ℕ} {j : Fin 512}
    (hlive : LiveSpace A s₀ p root) (htop : TopEntries A s₀ root top)
    (hfree : s₀.pmm.IsFree ct) (hfill : TopFilled s₀ root ct j t) :
    TopFilled s₀ root ct (j.val + 1)
      ((top t (t.mem root j)).2.setEntry ct j (top t (t.mem root j)).1) := by
  rw [hfill.fresh.mem_of_not_free hlive.held]
  have hsound := hfill.fresh.pmm.sound hlive.sound
  have hstep : Fresh t (top t (s₀.mem root j)).2 ∧ (top t (s₀.mem root j)).2.pmm.freeCount =
      t.pmm.freeCount - copyCost s₀.mem 3 (s₀.mem root j) := by
    by_cases hcase : hasFlag (s₀.mem root j) pteP = false ∨ t.pmm.freeCount ≠ 0
    · have hcopied := htop.copied j t hfill.fresh hsound hcase
      exact ⟨hcopied.fresh, hcopied.free⟩
    · push Not at hcase
      rw [htop.shared j t hsound (by simpa using hcase.1) hcase.2, hcase.2]
      exact ⟨Fresh.refl t, by rw [Nat.zero_sub]⟩
  have hmem : (top t (s₀.mem root j)).2.mem ct = t.mem ct :=
    hstep.1.mem ct (Or.inl hfill.used)
  have hused := hstep.1.pmm.used_mono ct hfill.used
  refine ⟨(hfill.fresh.trans hstep.1).setEntry_new hfree.2 hused _ _, hused, ?_,
    fun k hk hpresent hnone => ?_⟩
  · rw [Machine.setEntry_pmm, hstep.2, hfill.free, before_succ]
    omega
  · by_cases hkj : k = j
    · subst hkj
      rw [Machine.setEntry_mem, setEntry_same,
        htop.shared k t hsound hpresent (hfill.free.trans hnone)]
    · have hlt : k.val < j.val := by
        omega
      rw [Machine.setEntry_mem, setEntry_slot_ne _ _ hkj, hmem]
      exact hfill.shared k hlt hpresent hnone

lemma makeTop_shared (hlive : LiveSpace A s₀ p root) (htop : TopEntries A s₀ root top)
    (hpos : s₀.pmm.freeCount ≠ 0) {i : Fin 512}
    (hpresent : hasFlag (s₀.mem root i) pteP = true) (hnone : freeAt s₀ root i = 0) :
    ∃ ct t, makeTop top root s₀ = (frameAddr ct, t) ∧ frameOf (frameAddr ct) = ct ∧
      frameAddr ct ≠ 0#64 ∧ t.mem ct i = s₀.mem root i := by
  rcases allocZeroedPage_cases hlive.sound with
    ⟨ct, hfree, hne, hframe, halloc⟩ | ⟨hzero, -⟩
  · have hfill : TopFilled s₀ root ct 512
        (fillTable (fun s i => top s (s.mem root i)) ct (s₀.takeFrame ct)) :=
      foldl_invariant (fun k t => TopFilled s₀ root ct k t) (TopFilled.init hfree)
        fun j t hfill => hfill.step hlive htop hfree
    refine ⟨ct, fillTable (fun s i => top s (s.mem root i)) ct (s₀.takeFrame ct), ?_, hframe,
      hne, hfill.shared i i.isLt hpresent hnone⟩
    simp [makeTop, makeTable, allocTable, halloc, hne, hframe, Machine.takeFrame]
  · exact absurd hzero hpos

lemma topNeed_le_iff (s₀ : Machine) (root : ℕ) :
    topNeed s₀.mem root ≤ s₀.pmm.freeCount ↔
      (∀ i, hasFlag (s₀.mem root i) pteP = true → freeAt s₀ root i ≠ 0) ∧
      ∀ i, copyNeed s₀.mem 3 (s₀.mem root i) ≤ freeAt s₀ root i := by
  unfold topNeed freeAt
  rw [Finset.sup_le_iff, ← forall_and]
  apply forall_congr'
  intro i
  by_cases hpresent : hasFlag (s₀.mem root i) pteP = true
  · simp only [Finset.mem_univ, hpresent, if_true, true_implies]
    omega
  · have habsent : hasFlag (s₀.mem root i) pteP = false := by simpa using hpresent
    simp [habsent, copyNeed_absent habsent]

end MakeTop

/-! ## The copied page table -/

section CopiedSpace

variable {s₀ t : Machine} {p : Word} {root ct : ℕ} {cost need : Fin 512 → ℕ}

section

variable (htab : TableCopied A s₀.mem 3 s₀ t ct (s₀.mem root) cost need)
include htab

lemma TableCopied.refsOf (g : ℕ) :
    refsOf t.mem ct g + s₀.pmm.usedCount g = t.pmm.usedCount g := htab.refs g

lemma TableCopied.spaceOk (hok : tableAll pteFormat (EntryOk A) s₀.mem 3 p root) :
    SpaceOk A t.mem ct := by
  refine ⟨fun j => htab.ok j p rootWord (hok j) fun _ => by decide, fun g => ?_⟩
  have hle : tabsOf t.mem ct g ≤ _ := tabsOf_le_refsOf t.mem ct g
  have hsum := htab.refsOf g
  have hone := t.pmm.usedCount_le g
  change tabsOf t.mem ct g ≤ 1
  omega

lemma TableCopied.free_of_refs {g : ℕ} (hrefs : HelixOS.refsOf t.mem ct g ≠ 0) :
    s₀.pmm.IsFree g := by
  have hsum := htab.refsOf g
  have hone := t.pmm.usedCount_le g
  have hunused : s₀.pmm.used g = false := by
    by_contra hused
    have := Pmm.usedCount_pos.mpr (by simpa using hused)
    omega
  have hnow : t.pmm.used g = true := Pmm.usedCount_pos.mp (by omega)
  exact ⟨(htab.fresh.pmm.refs_new g hunused hnow).1, hunused⟩

lemma TableCopied.spaceIn (hok : tableAll pteFormat (EntryOk A) s₀.mem 3 p root)
    (hman : s₀.pmm.Manages A) : SpaceIn A t ct := by
  refine ⟨htab.spaceOk hok, fun g hg => ?_, fun g _ => ?_, htab.fresh.pmm.manages hman⟩
  · have hle := tabsOf_le_refsOf t.mem ct g
    exact hman.mem_of_free (htab.free_of_refs (by omega))
  · have hsum := htab.refsOf g
    omega

lemma TableCopied.pageView (virt : Word) :
    CopyView s₀.mem s₀ t (pageView s₀.mem root virt) (pageView t.mem ct virt) :=
  htab.view (tableIndex virt 3) virt

lemma TableCopied.pages_iff : (∀ virt, HelixOS.pageView s₀.mem root virt ≠ none →
      HelixOS.pageView t.mem ct virt ≠ none) ↔
      ∀ i : Fin 512, need i ≤ s₀.pmm.freeCount - 1 - before cost i := by
  rw [← forall_congr' htab.complete]
  simp only [HelixOS.pageView, tableLookup, ne_eq, Option.map_eq_none_iff, Complete]
  constructor
  · intro hall i path hfound
    obtain ⟨virt, hvirt⟩ := exists_virt (update path 3 i)
    have h₃ : tableIndex virt 3 = i := by
      rw [hvirt 3 le_rfl, update_self]
    have hpath : ∀ k, k < 3 → tableIndex virt k = path k := by
      intro k hk
      rw [hvirt k (by omega), update_of_ne (by omega)]
    have := hall virt
    rw [h₃, entryLookup_path_congr _ _ hpath, entryLookup_path_congr _ _ hpath] at this
    exact this hfound
  · exact fun hall virt => hall (tableIndex virt 3) (tableIndex virt)

end

end CopiedSpace

end HelixOS
