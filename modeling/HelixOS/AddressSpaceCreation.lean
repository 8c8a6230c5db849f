import HelixOS.CopiedSpaces

/-!
# Creating address spaces

What `vmm_copy_user_page_tables` and `vmm_clone_kernel_pml4` promise their callers:
with enough free frames the result is a copy of the source on frames of its own, and
the exact number of free frames from which on this holds.
-/

namespace HelixOS

open RadixMemory LoopRules

variable {m : Mem} {root l : ℕ} {A : Set ℕ}

/-! ## Frames that suffice -/

lemma tableNeed_le {maps : Fin 512 → Bool} {cost need : Fin 512 → ℕ}
    (hle : ∀ j, need j ≤ cost j) : tableNeed maps cost need ≤ 1 + ∑ j, cost j := by
  unfold tableNeed
  rw [Finset.sup_le_iff]
  intro j _
  have hneed := hle j
  have hsum := before_add_le cost j
  split
  · split <;> omega
  · omega

lemma copyNeed_le_copyCost (m) (l) (w : Word) :
    copyNeed m l w ≤ copyCost m l w := by
  induction l generalizing w with
  | zero => exact le_rfl
  | succ l ih =>
    by_cases htable : pteFormat.isTable w = true
    · rw [copyNeed_table htable, copyCost_table htable]
      exact tableNeed_le fun j => ih (m (frameOf w) j)
    · by_cases hpresent : hasFlag w pteP = true
      · have hlarge : hasFlag w ptePs = true := by
          simpa [pteFormat_isTable, hpresent] using htable
        simp [copyNeed, copyCost, hpresent, hlarge]
      · simp [copyNeed, hpresent]

lemma topNeed_le_topCost {p : Word}
    (hall : tableAll pteFormat (EntryOk A) m 3 p root) : topNeed m root ≤ topCost m root := by
  unfold topNeed topCost
  rw [Finset.sup_le_iff]
  intro i _
  split
  · rename_i hpresent
    have hneed := copyNeed_le_copyCost m 3 (m root i)
    have htable : pteFormat.isTable (m root i) = true := by
      simp [pteFormat_isTable, hpresent, (hall i).1.topTable rfl hpresent]
    have hpos : 1 ≤ copyCost m 3 (m root i) := by
      rw [copyCost_table (l := 2) htable]
      omega
    have hsum := before_add_le (fun i => copyCost m 3 (m root i)) i
    omega
  · omega

/-! ## Frames of the source -/

lemma LiveSpace.free {s : Machine} {p : Word} (hlive : LiveSpace A s p root) :
    LiveSpace {g | s.pmm.IsFree g} s p root := by
  refine ⟨fun j => entryAll_mono (fun l p w h => ?_) (hlive.entries j), hlive.held, hlive.sound⟩
  exact ⟨{ h.ok with largeUser := h.large }, h.held, h.large⟩

lemma LiveSpace.table_held {s : Machine} {p : Word}
    (hlive : LiveSpace A s p root) {g : ℕ} (hg : tabsOf s.mem root g ≠ 0) :
    ¬ s.pmm.IsFree g := by
  have hrefs := tabsOf_le_refsOf s.mem root g
  unfold refsOf tableSum at hrefs
  by_cases hroot : root = g
  · exact hroot ▸ hlive.held
  · rw [if_neg hroot, zero_add] at hrefs
    obtain ⟨j, -, hj⟩ := Finset.exists_ne_zero_of_sum_ne_zero
      (show ∑ j, entrySum pteFormat (refWeight g) s.mem 3 (s.mem root j) ≠ 0 by omega)
    exact entryAll_elim_sum (φ := refWeight g)
      (entryAll_mono (fun _ _ _ h => h.held g) (hlive.entries j)) hj

lemma LiveSpace.user_held {s : Machine} (hlive : LiveSpace A s rootWord root)
    {virt : Word} {page : Mapping} (hpage : pageView s.mem root virt = some page)
    (huser : page.user = true) : ¬ s.pmm.IsFree page.frame := by
  intro hfree
  obtain ⟨q, f, hreach, hpresent, hU, hframe⟩ := user_slot hlive.free.ok hpage huser hfree
  have hentry : LiveEntry A s.pmm 0 q (s.mem f (tableIndex virt 0)) :=
    hreach.tableAll hlive.entries (tableIndex virt 0)
  refine hentry.held page.frame ?_ hfree
  simp [refWeight, hpresent, hU, ← hframe]

/-! ## Fork -/

/-- User pages are copied, the others are shared. -/
def ForkedPage (s t : Machine) (parent child : Option Mapping) : Prop :=
  match parent, child with
  | none, none => True
  | some page, some copy =>
    copy.writable = page.writable ∧ copy.user = page.user ∧
    if page.user then s.pmm.IsFree copy.frame ∧ t.mem copy.frame = s.mem page.frame
    else copy.frame = page.frame
  | _, _ => False

lemma forkedPage_of_copyView {s t : Machine} {parent child : Option Mapping}
    (hfresh : Fresh s t) (hview : CopyView s.mem s t parent child)
    (hall : parent ≠ none → child ≠ none) : ForkedPage s t parent child := by
  cases child with
  | none =>
    cases parent with
    | none => trivial
    | some page => exact absurd rfl (hall (by simp))
  | some copy =>
    obtain ⟨page, rfl, hwritable, huser, hkernel, hnew⟩ := hview copy rfl
    refine ⟨hwritable, huser, ?_⟩
    cases hpage : page.user with
    | false => exact hkernel hpage
    | true =>
      obtain ⟨hunused, hused, hcontent⟩ := hnew hpage
      exact ⟨⟨(hfresh.pmm.refs_new _ hunused hused).1, hunused⟩, hcontent⟩

/-- With enough free frames `fork` gives the child the parent's pages with their permissions and
contents, on frames of its own; nothing of the parent changes. -/
theorem vmmCopyUserPageTables_copies {s : Machine} {parent : Word}
    (hlive : LiveSpace A s rootWord (frameOf parent))
    (hroom : topCost s.mem (frameOf parent) ≤ s.pmm.freeCount) :
    ∃ child t, vmmCopyUserPageTables s parent = (child, t) ∧ child ≠ 0#64 ∧
      (∀ virt, ForkedPage s t (translate s.mem parent virt) (translate t.mem child virt)) ∧
      (∀ virt copy, translate t.mem child virt = some copy → copy.user = true →
        tabsOf s.mem (frameOf parent) copy.frame = 0 ∧
        tabsOf t.mem (frameOf child) copy.frame = 0 ∧
        (∀ virt' page, translate s.mem parent virt' = some page → page.user = true →
          page.frame ≠ copy.frame) ∧
        ∀ virt' copy', translate t.mem child virt' = some copy' → copy'.user = true →
          pageNum virt' ≠ pageNum virt → copy'.frame ≠ copy.frame) ∧
      (∀ g, ¬ s.pmm.IsFree g → t.mem g = s.mem g) ∧
      ∀ virt, translate t.mem parent virt = translate s.mem parent virt := by
  have hneed := topNeed_le_topCost hlive.ok
  have hpos : s.pmm.freeCount ≠ 0 := by
    unfold topCost at hroom
    omega
  obtain ⟨hplace, hpages⟩ := (topNeed_le_iff s (frameOf parent)).mp (hneed.trans hroom)
  obtain ⟨ct, t, hmake, hne, htab⟩ := makeTop_copied hlive.free hlive.free.copyTop hpos hplace
  have hframe : frameOf (frameAddr ct) = ct := frameOf_frameAddr (by have := htab.bound; omega)
  have hok : SpaceOk {g | s.pmm.IsFree g} t.mem ct := htab.spaceOk hlive.free.ok
  have hchild : ∀ virt, translate t.mem (frameAddr ct) virt = pageView t.mem ct virt := by
    intro virt
    rw [translate_eq_pageView (A := {g | s.pmm.IsFree g}) (hframe.symm ▸ hok.entries), hframe]
  have hparent := translate_eq_pageView hlive.ok
  have hforked : ∀ virt, ForkedPage s t (translate s.mem parent virt)
      (translate t.mem (frameAddr ct) virt) := by
    intro virt
    rw [hchild, hparent]
    exact forkedPage_of_copyView htab.fresh (htab.pageView virt) (htab.pages_iff.mpr hpages virt)
  refine ⟨frameAddr ct, t, hmake, hne, hforked, fun virt copy hcopy huser => ?_,
    fun g hg => htab.fresh.mem_of_not_free hg, fun virt => ?_⟩
  · have hfree : s.pmm.IsFree copy.frame := by
      have hpage := hforked virt
      rw [hcopy] at hpage
      cases hsrc : translate s.mem parent virt with
      | none => simp [ForkedPage, hsrc] at hpage
      | some page =>
        rw [hsrc] at hpage
        obtain ⟨-, hsame, hcase⟩ := hpage
        rw [← hsame, huser] at hcase
        exact hcase.1
    have hone : refsOf t.mem ct copy.frame ≤ 1 := by
      have hsum := htab.refsOf copy.frame
      have := t.pmm.usedCount_le copy.frame
      omega
    simp only [hchild, hparent, hframe] at hcopy ⊢
    obtain ⟨htables, hothers⟩ := hok.user_alone hcopy huser hfree hone
    refine ⟨?_, htables, fun virt' page hpage hpageU heq => ?_, hothers⟩
    · by_contra hne
      exact hlive.table_held hne hfree
    · exact hlive.user_held hpage hpageU (heq ▸ hfree)
  · have hagree : ∀ g, tabsOf s.mem (frameOf parent) g ≠ 0 → t.mem g = s.mem g :=
      fun g hg => htab.fresh.mem_of_not_free (hlive.table_held hg)
    rw [hparent, translate_eq_pageView ((tableAll_congr _ hagree).mpr hlive.ok),
      pageView_congr virt hagree]

/-! ## A page table with a single page

The tables are the frames 1 to 4, the page is the frame 5 at address 0. -/

def pathMem (flags : Word) : Mem := fun f i =>
  if i = 0 ∧ 1 ≤ f ∧ f ≤ 4 then frameAddr (f + 1) ||| flags else 0#64

def pathMachine (flags : Word) (total : ℕ) : Machine where
  pmm := ⟨total, fun p => decide (p < 6), fun p => if 1 ≤ p ∧ p < 6 then 1 else 0, 0#64⟩
  mem := pathMem flags
  cr3 := frameAddr 1
  kernelPml4 := frameAddr 1

section Path

variable {flags : Word} {total : ℕ}

lemma pathMem_slot_ne {i : Fin 512} (hi : i ≠ 0) (f : ℕ) : pathMem flags f i = 0#64 := by
  simp [pathMem, hi]

lemma pathMem_slot_zero (hl : l ≤ 3) :
    pathMem flags (4 - l) 0 = frameAddr (5 - l) ||| flags := by
  have hframe : 4 - l + 1 = 5 - l := by omega
  rw [pathMem, if_pos ⟨rfl, by omega, by omega⟩, hframe]

lemma pathEntry_frame (hflags : flags.toNat < 4096) (l) :
    frameOf (frameAddr (5 - l) ||| flags) = 5 - l := by
  rw [frameOf_or_flags _ hflags, frameOf_frameAddr (by omega)]

lemma pathEntry_flag (l) {flag : Word} (hflag : flag.toNat < 4096) :
    hasFlag (frameAddr (5 - l) ||| flags) flag = hasFlag flags flag := by
  rw [hasFlag_or, hasFlag_frameAddr hflag, Bool.false_or]

def PathFlags (flags : Word) : Prop :=
  flags = pteP ||| pteW ∨ flags = pteP ||| pteW ||| pteU

lemma PathFlags.low (hflags : PathFlags flags) : flags.toNat < 4096 := by
  rcases hflags with rfl | rfl <;> decide

lemma pathMachine_entry (hflags : PathFlags flags) (hl : l ≤ 3) {p : Word}
    (hp : hasFlag flags pteU = true → hasFlag p pteU = true) :
    LiveEntry A (pathMachine flags total).pmm l p (frameAddr (5 - l) ||| flags) := by
  have hlow := hflags.low
  have hsmall : hasFlag (frameAddr (5 - l) ||| flags) ptePs = false := by
    rw [pathEntry_flag l (by decide)]
    rcases hflags with rfl | rfl <;> decide
  have hwritable : hasFlag (frameAddr (5 - l) ||| flags) pteW = true := by
    rw [pathEntry_flag l (by decide)]
    rcases hflags with rfl | rfl <;> decide
  refine ⟨⟨fun _ hU => ?_, fun _ _ => hsmall, fun _ _ => hwritable, fun _ _ => ?_, ?_, ?_,
    ?_, ?_⟩, fun g hg => ?_, ?_⟩
  · rw [pathEntry_flag l (by decide)] at hU
    exact hp hU
  · rw [pathEntry_frame hlow]
    omega
  · simp [hsmall]
  · simp [hsmall]
  · simp [hsmall]
  · simp [hsmall]
  · rintro ⟨-, hunused⟩
    have hframe : g = 5 - l := by
      by_contra hne
      apply hg
      simp only [refWeight, edgeWeight, pteFormat_target, pathEntry_frame hlow]
      rw [if_neg (by omega), if_neg (by omega)]
    have hbig : ¬ g < 6 := by simpa [pathMachine] using hunused
    omega
  · simp [hsmall]

lemma pathMachine_entries (hflags : PathFlags flags) (hl : l ≤ 3) {p : Word}
    (hp : hasFlag flags pteU = true → hasFlag p pteU = true) (j : Fin 512) :
    entryAll pteFormat (LiveEntry A (pathMachine flags total).pmm) (pathMem flags) l p
      (pathMem flags (4 - l) j) := by
  induction l generalizing p j with
  | zero =>
    by_cases hj : j = 0
    · subst hj
      exact pathMachine_entry hflags (by omega) hp
    · rw [pathMem_slot_ne hj]
      exact LiveEntry.of_absent (zero_hasFlag _)
  | succ l ih =>
    by_cases hj : j = 0
    · subst hj
      rw [pathMem_slot_zero hl]
      refine ⟨pathMachine_entry hflags hl hp, fun _ i => ?_⟩
      rw [pteFormat_target, pathEntry_frame hflags.low, show 5 - (l + 1) = 4 - l by omega]
      apply ih (by omega)
      intro hU
      rw [hasFlag_or, hU, Bool.or_true]
    · rw [pathMem_slot_ne hj]
      refine ⟨LiveEntry.of_absent (zero_hasFlag _), fun htable => ?_⟩
      simp [pteFormat_isTable] at htable

lemma pathMachine_sound (htotal : total ≤ 2 ^ 40) : (pathMachine flags total).pmm.Sound :=
  ⟨fun _ => by simp [pathMachine], htotal⟩

lemma pathMachine_live (hflags : PathFlags flags) (htotal : total ≤ 2 ^ 40) {p : Word}
    (hp : hasFlag flags pteU = true → hasFlag p pteU = true) :
    LiveSpace A (pathMachine flags total) p (frameOf (frameAddr 1)) := by
  refine ⟨fun j => pathMachine_entries hflags le_rfl hp j, ?_, pathMachine_sound htotal⟩
  rintro ⟨-, hunused⟩
  simp [pathMachine] at hunused

lemma pathMachine_manages (htotal : total ≤ 2 ^ 40) :
    (pathMachine flags total).pmm.Manages {g | 1 ≤ g ∧ g < total} := by
  refine ⟨by simp, htotal, fun g hg => hg.2, fun g hg hused => ?_, fun g hg hlt => ?_⟩
  · have hsix : g < 6 := by simpa [pathMachine] using hused
    simp [pathMachine, hg.1, hsix]
  · have hzero : g = 0 := by
      by_contra hne
      exact hg ⟨by omega, hlt⟩
    subst hzero
    simp [pathMachine]

end Path

theorem fork_singlePage :
    ∃ child t, vmmCopyUserPageTables (pathMachine (pteP ||| pteW ||| pteU) 16) (frameAddr 1) =
        (child, t) ∧ child ≠ 0#64 ∧
      ForkedPage (pathMachine (pteP ||| pteW ||| pteU) 16) t (some ⟨5, true, true⟩)
        (translate t.mem child 0#64) := by
  have hflags : PathFlags (pteP ||| pteW ||| pteU) := Or.inr rfl
  have hroom : topCost (pathMem (pteP ||| pteW ||| pteU)) (frameOf (frameAddr 1)) ≤
      (pathMachine (pteP ||| pteW ||| pteU) 16).pmm.freeCount := by decide +kernel
  obtain ⟨child, t, hcopy, hne, hforked, -⟩ := vmmCopyUserPageTables_copies (A := ∅)
    (pathMachine_live hflags (by decide) fun _ => by decide) hroom
  refine ⟨child, t, hcopy, hne, ?_⟩
  exact hforked 0#64

/-! ## Running out of memory -/

/-- The frame `g` belongs to the page table at `root`: a table or a mapped frame. -/
def Reachable (m : Mem) (root : Word) (g : ℕ) : Prop :=
  tabsOf m (frameOf root) g ≠ 0 ∨ ∃ virt page, translate m root virt = some page ∧ page.frame = g

/-- It failed and took nothing, or it has every page of the source on tables of its own, and
destroying it frees no frame of the source. -/
def CreationSafe (s : Machine) (source : Word) (result : Word × Machine) : Prop :=
  (result.1 = 0#64 ∧ ∀ g, result.2.pmm.IsFree g ↔ s.pmm.IsFree g) ∨
  (result.1 ≠ 0#64 ∧
    (∀ virt, translate s.mem source virt ≠ none →
      translate result.2.mem result.1 virt ≠ none) ∧
    (∀ g, tabsOf s.mem (frameOf source) g ≠ 0 →
      tabsOf result.2.mem (frameOf result.1) g = 0) ∧
    ∀ g, Reachable s.mem source g → ¬ s.pmm.IsFree g →
      ¬ (vmmDestroyAddressSpace result.2 result.1).pmm.IsFree g)

section OutOfMemory

variable {s t : Machine} {p source : Word} {ct : ℕ} {cost need : Fin 512 → ℕ}
  {top : Machine → Word → Word × Machine}

lemma tabsOf_target_ne_zero {i : Fin 512} {w : Word}
    (hw : m root i = w) (htable : pteFormat.isTable w = true) :
    tabsOf m root (frameOf w) ≠ 0 := by
  have hle := entryTabs_le_tableTabs pteFormat m 3 root (frameOf w) i
  have hpos : entryTabs pteFormat m 3 w (pteFormat.target w) ≠ 0 :=
    entryTabs_target_ne_zero htable
  rw [pteFormat_target] at hpos
  rw [hw] at hle
  unfold tabsOf
  omega

lemma TableCopied.destroy_not_free
    (htab : TableCopied A s.mem 3 s t ct (s.mem (frameOf source)) cost need)
    (hok : tableAll pteFormat (EntryOk A) s.mem 3 p (frameOf source))
    (hman : s.pmm.Manages A) (hne : frameAddr ct ≠ 0#64) {g : ℕ} (hg : ¬ s.pmm.IsFree g) :
    ¬ (vmmDestroyAddressSpace t (frameAddr ct)).pmm.IsFree g := by
  have hframe : frameOf (frameAddr ct) = ct := frameOf_frameAddr (by have := htab.bound; omega)
  by_cases hkernel : frameAddr ct = t.kernelPml4
  · rw [vmmDestroyAddressSpace, if_pos (Or.inr hkernel)]
    exact htab.fresh.pmm.not_free hg
  · have hsp := htab.spaceIn hok hman
    have hdest := vmmDestroyAddressSpace_destroyed (hframe.symm ▸ hsp) hne hkernel
    rw [hframe] at hdest
    rintro ⟨hlt, hunused⟩
    have hmem : g ∈ A := hdest.manages.mem_of_free ⟨hlt, hunused⟩
    apply hg
    refine ⟨?_, ?_⟩
    · rw [← htab.fresh.pmm.total_eq, ← hdest.total_eq]
      exact hlt
    · by_contra hused
      have hcount := hdest.count g hmem
      have hsum := htab.refsOf g
      rw [refsOf_eq] at hsum
      have hpos := Pmm.usedCount_pos.mpr (show s.pmm.used g = true by simpa using hused)
      have hzero : (vmmDestroyAddressSpace t (frameAddr ct)).pmm.usedCount g = 0 := by
        simp [Pmm.usedCount, hunused]
      omega

lemma makeTop_safe_iff (hlive : LiveSpace A s p (frameOf source)) (hman : s.pmm.Manages A)
    (htop : TopEntries A s (frameOf source) top) :
    CreationSafe s source (makeTop top (frameOf source) s) ↔
      s.pmm.freeCount = 0 ∨ topNeed s.mem (frameOf source) ≤ s.pmm.freeCount := by
  by_cases hpos : s.pmm.freeCount = 0
  · rw [makeTop_none hman.sound hpos]
    exact ⟨fun _ => Or.inl hpos, fun _ => Or.inl ⟨rfl, fun _ => Iff.rfl⟩⟩
  rw [topNeed_le_iff]
  have hsource := translate_eq_pageView hlive.ok
  by_cases hroom : ∀ i, hasFlag (s.mem (frameOf source) i) pteP = true →
      freeAt s (frameOf source) i ≠ 0
  · obtain ⟨ct, t, hmake, hne, htab⟩ := makeTop_copied hlive htop hpos hroom
    have hframe : frameOf (frameAddr ct) = ct :=
      frameOf_frameAddr (by have := htab.bound; omega)
    have hcopy : ∀ virt, translate t.mem (frameAddr ct) virt =
        pageView t.mem (frameOf (frameAddr ct)) virt :=
      translate_eq_pageView (hframe.symm ▸ (htab.spaceOk hlive.ok).entries)
    have hpages := htab.pages_iff
    rw [hmake]
    simp only [CreationSafe, hne, false_and, false_or, ne_eq, not_false_eq_true, true_and,
      hsource, hcopy, hframe, hpos]
    constructor
    · exact fun hsafe => ⟨hroom, hpages.mp hsafe.1⟩
    · refine fun hneed => ⟨hpages.mpr hneed.2, fun g hg => ?_, fun g _ hg => ?_⟩
      · by_contra hshared
        have hle := tabsOf_le_refsOf t.mem ct g
        exact hlive.table_held hg (htab.free_of_refs (by omega))
      · exact htab.destroy_not_free hlive.ok hman hne hg
  · push Not at hroom
    obtain ⟨i, hpresent, hnone⟩ := hroom
    obtain ⟨ct, t, hmake, hframe, hne, hshared⟩ := makeTop_shared hlive htop hpos hpresent hnone
    have htable : pteFormat.isTable (s.mem (frameOf source) i) = true := by
      simp [pteFormat_isTable, hpresent, (hlive.ok i).1.topTable rfl hpresent]
    rw [hmake]
    constructor
    · rintro (⟨hzero, -⟩ | ⟨-, -, hapart, -⟩)
      · exact absurd hzero hne
      · -- the table below the shared entry belongs to both
        have := hapart _ (tabsOf_target_ne_zero rfl htable)
        rw [hframe] at this
        exact absurd this (tabsOf_target_ne_zero hshared htable)
    · rintro (hzero | ⟨hroom, -⟩)
      · exact absurd hzero hpos
      · exact absurd hnone (hroom i hpresent)

end OutOfMemory

end HelixOS
