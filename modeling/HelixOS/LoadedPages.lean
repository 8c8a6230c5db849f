import HelixOS.ElfLoader
import HelixOS.OpenedPages

/-!
# The pages the ELF loader opens

`ensure_user_page` maps a page of one of three windows.  Pages of the high window and of
the interpreter get a frame of their own, once for each load; pages of low images are
opened in place, in the identity map.
-/

namespace HelixOS

open RadixMemory Option

variable {v w virt : Word} {s t : LoadState} {A : Set ℕ}

/-! ## The windows -/

def PageIn (lo hi v : Word) : Prop := lo.toNat / 4096 ≤ pageNum v ∧ pageNum v < hi.toNat / 4096

def LowPage (v : Word) : Prop := PageIn userLowMin userLowMax v
def HighPage (v : Word) : Prop := PageIn userBase userStackTop v
def InterpPage (v : Word) : Prop := PageIn interpBase interpMax v

def LoaderPage (v : Word) : Prop := LowPage v ∨ HighPage v ∨ InterpPage v

lemma lowPage_iff (v) : LowPage v ↔ 0x400 ≤ pageNum v ∧ pageNum v < 0xA00 := Iff.rfl

lemma highPage_iff (v) : HighPage v ↔ 0x40000 ≤ pageNum v ∧ pageNum v < 0x44000 :=
  Iff.rfl

lemma interpPage_iff (v) : InterpPage v ↔ 0x50000 ≤ pageNum v ∧ pageNum v < 0x51000 :=
  Iff.rfl

lemma LowPage.sameSlot (hv : LowPage v) (hsame : SameSlot 1 v w) :
    LowPage w := by
  rw [lowPage_iff] at hv ⊢
  have h₁ := congrArg Fin.val (hsame 1 le_rfl (by omega))
  have h₂ := congrArg Fin.val (hsame 2 (by omega) (by omega))
  have h₃ := congrArg Fin.val (hsame 3 (by omega) le_rfl)
  rw [pageNum_eq] at hv ⊢
  omega

lemma leafFrame_num (hnum : pageNum w = pageNum v) (k : ℕ) (e : Word) :
    leafFrame k e w = leafFrame k e v := by
  have hmask : frameOf (w &&& 0x1FFFFF#64) = frameOf (v &&& 0x1FFFFF#64) ∧
      frameOf (w &&& 0x3FFFFFFF#64) = frameOf (v &&& 0x3FFFFFFF#64) := by
    have hlow : ∀ x : Word, (x &&& 0x1FFFFF#64).toNat = x.toNat % 2 ^ 21 ∧
        (x &&& 0x3FFFFFFF#64).toNat = x.toNat % 2 ^ 30 := fun x =>
      ⟨BitMasks.toNat_and_low x 21, BitMasks.toNat_and_low x 30⟩
    simp only [frameOf_eq, hlow]
    simp only [pageNum] at hnum
    omega
  unfold leafFrame
  split
  · rfl
  · rw [frameOf_or, frameOf_or, hmask.1]
  · rw [frameOf_or, frameOf_or, hmask.2]

lemma pageView_num {m : Mem} {root : ℕ} (hnum : pageNum w = pageNum v) :
    pageView m root w = pageView m root v := by
  have hsame : SameSlot 0 v w := (sameSlot_zero_iff v w).mpr hnum
  have hlookup : tableLookup pteFormat m (tableIndex w) 3 root =
      tableLookup pteFormat m (tableIndex v) 3 root := by
    unfold tableLookup
    rw [hsame 3 (by omega) le_rfl]
    exact entryLookup_path_congr m _ fun k hk => hsame k (by omega) (by omega)
  unfold pageView
  congr 1
  funext leaf
  simp only [viewLeaf, leafMapping, leafFrame_num hnum]

/-! ## Spaces a program can be loaded into -/

abbrev LoadState.root (s : LoadState) : ℕ := frameOf s.machine.cr3

abbrev LoadState.view (s : LoadState) (v : Word) : Option Mapping :=
  pageView s.machine.mem s.root v

/-- The loaded page table is sound and maps the window of low images one to one, on frames that
the allocator does not hand out. -/
structure LoadSpace (A : Set ℕ) (s : LoadState) : Prop where
  space : SpaceIn A s.machine s.root
  loaded : s.machine.cr3 ≠ 0#64
  plain : ∀ v, LowPage v → ¬ HugeAt s.machine.mem s.root v
  identity : ∀ v page, LowPage v → s.view v = some page → page.frame = pageNum v
  reserved : ∀ v, LowPage v → pageNum v ∉ A

def LoadState.Marked (s : LoadState) (v : Word) : Prop :=
  HighPage v ∧ s.high (pageNum v - 0x40000) = true ∨
    InterpPage v ∧ s.interp (pageNum v - 0x50000) = true

def MarksSound (A : Set ℕ) (s : LoadState) : Prop :=
  ∀ v, s.Marked v → ∃ page, s.view v = some page ∧ page.user = true ∧ page.frame ∈ A

def LoadState.Ready (s : LoadState) (v : Word) : Prop :=
  s.Marked v ∨ LowPage v ∧ ∃ page, s.view v = some page ∧ page.user = true

lemma LoadSpace.of_ready (hs : LoadSpace A s) (hmarks : MarksSound A s) (hready : s.Ready v) :
    ∃ page, s.view v = some page ∧ page.user = true ∧ page.frame ≠ 0 ∧
      (page.frame ∈ A ∨ LowPage v ∧ page.frame = pageNum v) := by
  rcases hready with hmark | ⟨hlow, page, hpage, huser⟩
  · obtain ⟨page, hpage, huser, hmem⟩ := hmarks v hmark
    refine ⟨page, hpage, huser, ?_, Or.inl hmem⟩
    intro hzero
    exact hs.space.manages.zero (hzero ▸ hmem)
  · have hframe := hs.identity v page hlow hpage
    refine ⟨page, hpage, huser, ?_, Or.inr ⟨hlow, hframe⟩⟩
    have := hlow.1
    simp only [show userLowMin.toNat / 4096 = 0x400 from rfl] at this
    omega

lemma LoadSpace.ready_alone (hs : LoadSpace A s) (hmarks : MarksSound A s)
    {page page' : Mapping} (hv : s.Ready v) (hw : s.Ready w)
    (hpage : s.view v = some page) (hpage' : s.view w = some page')
    (hframe : page'.frame = page.frame) : pageNum w = pageNum v := by
  obtain ⟨first, hfirst, huser, -, hkind⟩ := hs.of_ready hmarks hv
  obtain rfl := some.inj (hpage.symm.trans hfirst)
  obtain ⟨second, hsecond, huser', -, hkind'⟩ := hs.of_ready hmarks hw
  obtain rfl := some.inj (hpage'.symm.trans hsecond)
  rcases hkind with hmem | ⟨hlow, heq⟩
  · by_contra hne
    have hone := hs.space.refs_le _ hmem
    have hle := s.machine.pmm.usedCount_le page.frame
    exact (hs.space.ok.user_alone hpage huser hmem (hone.trans hle)).2 w page' hpage' huser'
      hne hframe
  · rcases hkind' with hmem' | ⟨hlow', heq'⟩
    · rw [hframe, heq] at hmem'
      exact absurd hmem' (hs.reserved v hlow)
    · rw [← heq, ← heq', hframe]

/-! ## Preparing a page -/

structure Prepares (A : Set ℕ) (s t : LoadState) : Prop where
  cr3_eq : t.machine.cr3 = s.machine.cr3
  space : LoadSpace A t
  marks : MarksSound A t
  outside : ∀ v, ¬ LoaderPage v → t.view v = s.view v
  ready : ∀ v, s.Ready v → t.Ready v ∧ (t.view v).map Mapping.frame = (s.view v).map Mapping.frame
  held : KeepsHeld s.machine t.machine s.root

lemma Prepares.refl (hs : LoadSpace A s) (hmarks : MarksSound A s) :
    Prepares A s s :=
  ⟨rfl, hs, hmarks, fun _ _ => rfl, fun _ h => ⟨h, rfl⟩, KeepsHeld.refl _ _⟩

lemma Prepares.trans {u : LoadState} (hst : Prepares A s t) (htu : Prepares A t u) :
    Prepares A s u := by
  refine ⟨htu.cr3_eq.trans hst.cr3_eq, htu.space, htu.marks,
    fun v hv => (htu.outside v hv).trans (hst.outside v hv), fun v hv => ?_, ?_⟩
  · obtain ⟨hready, hframe⟩ := hst.ready v hv
    obtain ⟨hready', hframe'⟩ := htu.ready v hready
    exact ⟨hready', hframe'.trans hframe⟩
  · have hheld := htu.held
    rw [LoadState.root, hst.cr3_eq] at hheld
    exact hst.held.trans hheld

lemma LoadState.Marked.not_low (hmark : s.Marked v) :
    ¬ LowPage v := by
  rw [lowPage_iff]
  simp only [LoadState.Marked, highPage_iff, interpPage_iff] at hmark
  omega

lemma LoadState.Marked.loader (hmark : s.Marked v) :
    LoaderPage v :=
  Or.inr (hmark.imp And.left And.left)

lemma LoadState.marked_congr (hnum : pageNum w = pageNum v) :
    s.Marked w ↔ s.Marked v := by
  simp only [LoadState.Marked, highPage_iff, interpPage_iff, hnum]

/-- What each way of preparing a page does to a page: nothing, open it in place, or map it
and mark it. -/
def Changes (A : Set ℕ) (s t : LoadState) (v : Word) : Prop :=
  (t.view v = s.view v ∧ (t.Marked v → s.Marked v)) ∨
    (LowPage v ∧ ∃ page, t.view v = some page ∧ page.user = true ∧ page.frame = pageNum v) ∨
    ¬ s.Marked v ∧ t.Marked v ∧ ∃ page, t.view v = some page ∧ page.user = true ∧ page.frame ∈ A

lemma prepares_of_changes (hs : LoadSpace A s) (hmarks : MarksSound A s)
    (hcr3 : t.machine.cr3 = s.machine.cr3) (hspace : SpaceIn A t.machine s.root)
    (hhuge : NoNewHuge s.machine.mem t.machine.mem s.root)
    (hheld : KeepsHeld s.machine t.machine s.root) (hkept : ∀ v, s.Marked v → t.Marked v)
    (hchanges : ∀ v, Changes A s t v) : Prepares A s t := by
  have hroot : t.root = s.root := by rw [LoadState.root, hcr3]
  refine ⟨hcr3, ⟨?_, ?_, fun v hv => ?_, fun v page hv hpage => ?_, hs.reserved⟩,
    fun v hv => ?_, fun v hv => ?_, fun v hv => ?_, hheld⟩
  · rw [hroot]
    exact hspace
  · rw [hcr3]
    exact hs.loaded
  · rw [hroot]
    exact fun hnew => hs.plain v hv (hhuge v hnew)
  · rcases hchanges v with ⟨hsame, -⟩ | ⟨-, page', hpage', -, hframe⟩ | ⟨-, hmark, -⟩
    · exact hs.identity v page hv (hsame ▸ hpage)
    · obtain rfl := some.inj (hpage.symm.trans hpage')
      exact hframe
    · exact absurd hv hmark.not_low
  · rcases hchanges v with ⟨hsame, hold⟩ | ⟨hlow, -⟩ | ⟨-, -, hnew⟩
    · rw [hsame]
      exact hmarks v (hold hv)
    · exact absurd hlow hv.not_low
    · exact hnew
  · rcases hchanges v with ⟨hsame, -⟩ | ⟨hlow, -⟩ | ⟨-, hmark, -⟩
    · exact hsame
    · exact absurd (Or.inl hlow) hv
    · exact absurd hmark.loader hv
  · rcases hchanges v with ⟨hsame, -⟩ | ⟨hlow, page', hpage', huser, hframe⟩ | ⟨hnot, hmark, -⟩
    · refine ⟨hv.imp (hkept v) fun h => ?_, by rw [hsame]⟩
      rwa [hsame]
    · obtain ⟨page, hpage, -, -, hkind⟩ := hs.of_ready hmarks hv
      refine ⟨Or.inr ⟨hlow, page', hpage', huser⟩, ?_⟩
      rw [hpage, hpage', map_some, map_some, hframe, hs.identity v page hlow hpage]
    · exact absurd hv fun hready => hready.elim hnot fun h => hmark.not_low h.1

lemma alloc_view {ok : Bool}
    (hspace : SpaceIn A s.machine s.root) (hloaded : s.machine.cr3 ≠ 0#64)
    (halloc : allocUserPage s.machine virt true = (ok, t.machine)) :
    Moves A s.machine t.machine s.root ∧ KeepsHeld s.machine t.machine s.root ∧
      ((∀ g, userRef (s.view virt) g = 0) → Balanced A s.machine t.machine s.root) ∧
      ∃ p, (ok = true → p ∈ A) ∧ ∀ v, t.view v =
        if ok = true ∧ pageNum v = pageNum virt then some ⟨p, true, true⟩ else s.view v := by
  rcases allocUserPage_cases hspace hloaded virt true with
    ⟨m, p, hrun, -, hfree, hpage⟩ | ⟨m, hrun, hkeep, -⟩ <;>
    obtain ⟨rfl, rfl⟩ := Prod.mk.inj (hrun.symm.trans halloc)
  · refine ⟨hpage.moves, hpage.held, fun hzero g hg => ?_, p,
      fun _ => hspace.manages.mem_of_free hfree, fun v => ?_⟩
    · have hsum := hpage.refs g hg
      rwa [show userRef (pageView s.machine.mem (frameOf s.machine.cr3) virt) g = 0 from hzero g,
        Nat.add_zero] at hsum
    · rw [LoadState.view, LoadState.root, hpage.moves.cr3_eq]
      simpa using hpage.view v
  · refine ⟨hkeep.moves, hkeep.held, fun _ => hkeep.balanced, 0, by simp, fun v => ?_⟩
    rw [LoadState.view, LoadState.root, hkeep.moves.cr3_eq]
    simpa using hkeep.view v

lemma alloc_prepares {ok : Bool} (hs : LoadSpace A s) (hmarks : MarksSound A s)
    (hnot : ¬ s.Marked virt) (halloc : allocUserPage s.machine virt true = (ok, t.machine))
    (hmark : ∀ v, t.Marked v ↔ s.Marked v ∨ ok = true ∧ pageNum v = pageNum virt) :
    Prepares A s t ∧ (ok = true → t.Ready virt) := by
  obtain ⟨hmoves, hheld, -, p, hp, hview⟩ := alloc_view hs.space hs.loaded halloc
  have hhuge := allocUserPage_noNewHuge hs.space virt true
  rw [halloc] at hhuge
  refine ⟨prepares_of_changes hs hmarks hmoves.cr3_eq (hmoves.spaceIn hs.space) hhuge hheld
    (fun v hv => (hmark v).mpr (Or.inl hv)) fun v => ?_,
    fun hok => Or.inl ((hmark virt).mpr (Or.inr ⟨hok, rfl⟩))⟩
  by_cases hnew : ok = true ∧ pageNum v = pageNum virt
  · refine Or.inr (Or.inr ⟨?_, (hmark v).mpr (Or.inr hnew), _, by rw [hview, if_pos hnew], rfl,
      hp hnew.1⟩)
    rwa [LoadState.marked_congr hnew.2]
  · exact Or.inl ⟨by rw [hview, if_neg hnew], fun h => ((hmark v).mp h).resolve_right hnew⟩

/-! ### Pages of low images -/

lemma low_prepares (hs : LoadSpace A s) (hmarks : MarksSound A s)
    (hhigh : t.high = s.high) (hinterp : t.interp = s.interp)
    (hcr3 : t.machine.cr3 = s.machine.cr3) (hspace : SpaceIn A t.machine s.root)
    (hhuge : NoNewHuge s.machine.mem t.machine.mem s.root)
    (hheld : KeepsHeld s.machine t.machine s.root)
    (hview : ∀ v, pageView t.machine.mem s.root v = s.view v ∨ LowPage v ∧
      ∃ page, pageView t.machine.mem s.root v = some page ∧ page.user = true ∧
        page.frame = pageNum v) : Prepares A s t := by
  have hmark : ∀ v, t.Marked v ↔ s.Marked v := fun v => by
    simp only [LoadState.Marked, hhigh, hinterp]
  refine prepares_of_changes hs hmarks hcr3 hspace hhuge hheld (fun v => (hmark v).mpr) fun v => ?_
  have hroot : t.root = s.root := by rw [LoadState.root, hcr3]
  rw [Changes, LoadState.view, hroot]
  rcases hview v with hsame | hlow
  · exact Or.inl ⟨hsame, (hmark v).mp⟩
  · exact Or.inr (Or.inl hlow)

lemma frameOf_low (hlow : v.toNat < 2 ^ 48) : frameOf v % 2 ^ 40 = pageNum v := by
  rw [frameOf_eq, pageNum]
  omega

lemma ensureUserPageLow_prepares (hs : LoadSpace A s) (hmarks : MarksSound A s) (virt) :
    Prepares A s (ensureUserPageLow s virt).2 ∧
      ((ensureUserPageLow s virt).1 = true → (ensureUserPageLow s virt).2.Ready virt) := by
  unfold ensureUserPageLow
  by_cases hwindow : virt < userLowMin ∨ virt ≥ userLowMax
  · rw [if_pos hwindow]
    exact ⟨Prepares.refl hs hmarks, fun h => by cases h⟩
  rw [if_neg hwindow]
  by_cases haligned : virt &&& 0xFFF#64 = 0#64
  swap
  · rw [if_pos haligned]
    exact ⟨Prepares.refl hs hmarks, fun h => by cases h⟩
  rw [if_neg (not_not.mpr haligned)]
  have hbounds : 0x400000 ≤ virt.toNat ∧ virt.toNat < 0xA00000 := by
    simp only [not_or, ge_iff_le, BitVec.not_lt, BitVec.not_le] at hwindow
    exact ⟨BitVec.le_def.mp hwindow.1, BitVec.lt_def.mp hwindow.2⟩
  have hlow : LowPage virt := by
    rw [lowPage_iff, pageNum]
    omega
  rcases pagingSetUserRange_cases hs.space hs.loaded haligned (by omega) (hs.plain virt hlow)
    (fun v page hsame hpage => by
      have hv := hlow.sameSlot hsame
      rw [hs.identity v page hv hpage]
      exact hs.reserved v hv) with
    ⟨m, hrange, hext, hnew⟩ | ⟨m, k, hrange, hk, hopen, hnew⟩
  · -- the page is not mapped yet
    rw [hrange]
    have hcr3 : m.cr3 = s.machine.cr3 := hext.cr3_eq
    have hspace := hext.spaceIn hs.space
    have hheld := hext.keepsHeld hs.space
    have hroot : frameOf m.cr3 = frameOf s.machine.cr3 := by rw [hcr3]
    rw [← hroot] at hspace
    have hmap := pagingMap4k_cases hspace (hcr3 ▸ hs.loaded) haligned haligned
      (pteP ||| pteW ||| pteU)
    have hnew' := pagingMap4k_noNewHuge hspace virt virt (pteP ||| pteW ||| pteU)
    rw [hroot] at hmap hnew' hspace
    rcases hmap with ⟨m', hrun, hmaps, hroom⟩ | ⟨m', hrun, hext', -⟩ <;> rw [hrun] at hnew'
    · simp only [hrun]
      have hframe : (newMapping virt (pteP ||| pteW ||| pteU)).frame = pageNum virt :=
        frameOf_low (by omega)
      have hview : ∀ v, pageView m'.mem s.root v =
          if pageNum v = pageNum virt then some (newMapping virt (pteP ||| pteW ||| pteU))
          else s.view v := by
        intro v
        rw [hmaps.view, hext.view]
        simp only [sameSlot_zero_iff]
      have hcr3' := hmaps.cr3_eq.trans hcr3
      have hone := hmaps.one hspace (by decide) (by
        rw [frameOf_low (by omega)]
        exact hs.reserved virt hlow) hroom
      refine ⟨low_prepares hs hmarks rfl rfl hcr3' (hone.moves.spaceIn hspace)
        (hnew.trans hnew') (hheld.trans hone.held) fun v => ?_, fun _ => Or.inr ⟨hlow, ?_⟩⟩
      · rw [hview]
        by_cases hv : pageNum v = pageNum virt
        · refine Or.inr ⟨?_, _, if_pos hv, rfl, hframe.trans hv.symm⟩
          rw [lowPage_iff] at hlow ⊢
          omega
        · exact Or.inl (if_neg hv)
      · refine ⟨newMapping virt (pteP ||| pteW ||| pteU), ?_, rfl⟩
        rw [LoadState.view, LoadState.root, hcr3']
        exact (hview virt).trans (if_pos rfl)
    · simp only [hrun]
      have hcr3' := hext'.cr3_eq.trans hcr3
      exact ⟨low_prepares hs hmarks rfl rfl hcr3' (hext'.spaceIn hspace)
        (hnew.trans hnew') (hheld.trans (hext'.keepsHeld hspace)) fun v =>
          Or.inl ((hext'.view v).trans (hext.view v)), fun h => by cases h⟩
  · rw [hrange]
    refine ⟨low_prepares hs hmarks rfl rfl hopen.cr3_eq (hopen.spaceIn hs.space) hnew
      (hopen.keepsHeld hs.space) fun v => ?_, fun _ => Or.inr ⟨hlow, ?_⟩⟩
    · rw [hopen.view]
      by_cases hsame : SameSlot k virt v
      · rw [if_pos hsame]
        have hv : LowPage v := hlow.sameSlot fun i hi hi3 => hsame i (by omega) hi3
        cases hpage : pageView s.machine.mem (frameOf s.machine.cr3) v with
        | none => exact Or.inl hpage.symm
        | some page => exact Or.inr ⟨hv, page.opened, rfl, rfl, hs.identity v page hv hpage⟩
      · exact Or.inl (if_neg hsame)
    · obtain ⟨page, hpage⟩ := ne_none_iff_exists'.mp hopen.mapped
      refine ⟨page.opened, ?_, rfl⟩
      rw [LoadState.view, LoadState.root, hopen.cr3_eq]
      rw [hopen.view, if_pos (show SameSlot k virt virt from fun _ _ _ => rfl), hpage]
      rfl

/-! ### Pages with frames of their own -/

lemma bitmap_index {lo hi : Word} (hlo : lo ≤ virt) (hhi : virt < hi)
    (halo : lo.toNat % 4096 = 0) (hahi : hi.toNat % 4096 = 0) (hlow : hi.toNat ≤ 2 ^ 48) :
    ((virt - lo) >>> 12).toNat = pageNum virt - lo.toNat / 4096 ∧ PageIn lo hi virt := by
  rw [BitVec.le_def] at hlo
  rw [BitVec.lt_def] at hhi
  have hsub : (virt - lo).toNat = virt.toNat - lo.toNat := BitVec.toNat_sub_of_le hlo
  rw [BitVec.toNat_ushiftRight, hsub, Nat.shiftRight_eq_div_pow, PageIn, pageNum]
  omega

lemma HighPage.marked_iff (hv : HighPage v) (s : LoadState) :
    s.Marked v ↔ s.high (pageNum v - 0x40000) = true := by
  have hother : ¬ InterpPage v := by
    rw [highPage_iff] at hv
    rw [interpPage_iff]
    omega
  simp [LoadState.Marked, hv, hother]

lemma InterpPage.marked_iff (hv : InterpPage v) (s : LoadState) :
    s.Marked v ↔ s.interp (pageNum v - 0x50000) = true := by
  have hother : ¬ HighPage v := by
    rw [interpPage_iff] at hv
    rw [highPage_iff]
    omega
  simp [LoadState.Marked, hv, hother]

/-- What asking for a page with a frame of its own can do: refuse the page, find it marked,
or try to allocate it. -/
def OwnPage (s : LoadState) (virt : Word) (r : Bool × LoadState) : Prop :=
  r = (false, s) ∨ s.Marked virt ∧ r = (true, s) ∨
    ¬ s.Marked virt ∧ allocUserPage s.machine virt true = (r.1, r.2.machine) ∧
      ∀ v, r.2.Marked v ↔ s.Marked v ∨ r.1 = true ∧ pageNum v = pageNum virt

lemma OwnPage.prepares {r : Bool × LoadState}
    (hown : OwnPage s virt r) (hs : LoadSpace A s) (hmarks : MarksSound A s) :
    Prepares A s r.2 ∧ (r.1 = true → r.2.Ready virt) := by
  rcases hown with rfl | ⟨hmark, rfl⟩ | ⟨hnot, halloc, hmark⟩
  · exact ⟨Prepares.refl hs hmarks, fun h => by cases h⟩
  · exact ⟨Prepares.refl hs hmarks, fun _ => Or.inl hmark⟩
  · exact alloc_prepares hs hmarks hnot halloc hmark

lemma ensureUserPageHigh_own (s : LoadState) (virt : Word) :
    OwnPage s virt (ensureUserPageHigh s virt) := by
  by_cases hwindow : virt < userBase ∨ virt ≥ userStackTop
  · rw [ensureUserPageHigh, if_pos hwindow]
    exact Or.inl rfl
  have hin := hwindow
  simp only [not_or, ge_iff_le, BitVec.not_lt, BitVec.not_le] at hin
  obtain ⟨hindex, hpage : HighPage virt⟩ :=
    bitmap_index hin.1 hin.2 (by decide) (by decide) (by decide)
  have hmarked := hpage.marked_iff s
  change _ = pageNum virt - 0x40000 at hindex
  rw [← hindex] at hmarked
  fun_cases ensureUserPageHigh s virt with
  | case1 hout => exact absurd hout hwindow
  | case2 _ pg hbit => exact Or.inr (Or.inl ⟨hmarked.mpr hbit, rfl⟩)
  | case3 _ pg hbit m halloc =>
    exact Or.inr (Or.inr ⟨mt hmarked.mp hbit, halloc, fun v => by simp [LoadState.Marked]⟩)
  | case4 _ pg hbit m halloc =>
    refine Or.inr (Or.inr ⟨mt hmarked.mp hbit, halloc, fun v => ?_⟩)
    simp only [LoadState.Marked, highPage_iff, pg, hindex, true_and] at hpage ⊢
    by_cases hv : pageNum v = pageNum virt
    · simp [hv, hpage]
    · by_cases hhigh : 0x40000 ≤ pageNum v
      · rw [Function.update_of_ne (by omega)]
        simp [hv]
      · simp [hv, hhigh]

lemma ensureUserPageInterp_own (s : LoadState) (hlo : interpBase ≤ virt)
    (hhi : virt < interpMax) : OwnPage s virt (ensureUserPageInterp s virt) := by
  obtain ⟨hindex, hpage : InterpPage virt⟩ :=
    bitmap_index hlo hhi (by decide) (by decide) (by decide)
  have hmarked := hpage.marked_iff s
  change _ = pageNum virt - 0x50000 at hindex
  rw [← hindex] at hmarked
  fun_cases ensureUserPageInterp s virt with
  | case1 pg hbit => exact Or.inr (Or.inl ⟨hmarked.mpr hbit, rfl⟩)
  | case2 pg hbit m halloc =>
    exact Or.inr (Or.inr ⟨mt hmarked.mp hbit, halloc, fun v => by simp [LoadState.Marked]⟩)
  | case3 pg hbit m halloc =>
    refine Or.inr (Or.inr ⟨mt hmarked.mp hbit, halloc, fun v => ?_⟩)
    simp only [LoadState.Marked, interpPage_iff, pg, hindex, true_and] at hpage ⊢
    by_cases hv : pageNum v = pageNum virt
    · simp [hv, hpage]
    · by_cases hhigh : 0x50000 ≤ pageNum v
      · rw [Function.update_of_ne (by omega)]
        simp [hv]
      · simp [hv, hhigh]

lemma ensureUserPage_prepares (hs : LoadSpace A s) (hmarks : MarksSound A s) (virt) :
    Prepares A s (ensureUserPage s virt).2 ∧
      ((ensureUserPage s virt).1 = true → (ensureUserPage s virt).2.Ready virt) := by
  unfold ensureUserPage
  split_ifs with hhigh hlow hinterp
  · exact (ensureUserPageHigh_own s virt).prepares hs hmarks
  · exact ensureUserPageLow_prepares hs hmarks virt
  · exact (ensureUserPageInterp_own s hinterp.1 hinterp.2).prepares hs hmarks
  · exact ⟨Prepares.refl hs hmarks, fun h => by cases h⟩

lemma LoadState.ready_congr (hnum : pageNum w = pageNum v) (hready : s.Ready v) : s.Ready w := by
  refine hready.imp (LoadState.marked_congr hnum).mpr fun hlow => ?_
  rw [LoadState.view, pageView_num hnum]
  rwa [lowPage_iff, hnum, ← lowPage_iff]

lemma ensureUserPage_bound {s : LoadState} {virt : Word}
    (hok : (ensureUserPage s virt).1 = true) : virt.toNat < 0x51000000 := by
  unfold ensureUserPage at hok
  split_ifs at hok with hhigh hlow hinterp
  · exact (BitVec.lt_def.mp hhigh.2).trans (by decide)
  · exact (BitVec.lt_def.mp hlow.2).trans (by decide)
  · exact BitVec.lt_def.mp hinterp.2

/-- What the bytes of a segment are written to: prepared pages are user pages with frames of
their own. -/
structure ReadySound (A : Set ℕ) (s : LoadState) : Prop where
  space : SpaceIn A s.machine s.root
  loaded : s.machine.cr3 ≠ 0#64
  mapped : ∀ v, s.Ready v → ∃ page, s.view v = some page ∧ page.user = true ∧ page.frame ≠ 0
  alone : ∀ {v w page page'}, s.Ready v → s.Ready w → s.view v = some page →
    s.view w = some page' → page'.frame = page.frame → pageNum w = pageNum v

lemma LoadSpace.readySound (hs : LoadSpace A s) (hmarks : MarksSound A s) :
    ReadySound A s := by
  refine ⟨hs.space, hs.loaded, fun v hv => ?_, fun hv hw => hs.ready_alone hmarks hv hw⟩
  obtain ⟨page, hpage, huser, hne, -⟩ := hs.of_ready hmarks hv
  exact ⟨page, hpage, huser, hne⟩

lemma forPages_prepares {stop : Word} (hstop : stop.toNat % 4096 = 0) {fuel : ℕ} {va : Word}
    (hs : LoadSpace A s) (hmarks : MarksSound A s) (hva : va.toNat % 4096 = 0)
    (hfuel : stop.toNat ≤ va.toNat + 4096 * fuel) :
    Prepares A s (forPages ensureUserPage stop fuel va s).2 ∧
      ((forPages ensureUserPage stop fuel va s).1 = true →
        ∀ v : Word, va.toNat ≤ v.toNat → v.toNat < stop.toNat →
          (forPages ensureUserPage stop fuel va s).2.Ready v ∧ v.toNat < 2 ^ 48) := by
  fun_induction forPages ensureUserPage stop fuel va s with
  | case1 => exact ⟨Prepares.refl hs hmarks, fun _ v hlo hhi => by omega⟩
  | case2 fuel va s hlt t hfail =>
    have hpage := (ensureUserPage_prepares hs hmarks va).1
    rw [hfail] at hpage
    exact ⟨hpage, fun h => by cases h⟩
  | case3 fuel va s hlt t hmapped ih =>
    rw [BitVec.lt_def] at hlt
    have hnext : (va + 4096#64).toNat = va.toNat + 4096 := by
      rw [BitVec.toNat_add, show (4096#64 : Word).toNat = 4096 from rfl]
      omega
    obtain ⟨hpage, hready⟩ := ensureUserPage_prepares hs hmarks va
    have hbound := @ensureUserPage_bound s va (by rw [hmapped])
    rw [hmapped] at hpage hready
    obtain ⟨hrest, hpages⟩ := ih hpage.space hpage.marks (by omega) (by omega)
    refine ⟨hpage.trans hrest, fun hok v hlo hhi => ?_⟩
    by_cases hfirst : v.toNat < va.toNat + 4096
    · refine ⟨LoadState.ready_congr ?_ (hrest.ready va (hready rfl)).1, by omega⟩
      rw [pageNum, pageNum]
      omega
    · exact hpages hok v (by omega) hhi
  | case4 fuel va s hlt =>
    refine ⟨Prepares.refl hs hmarks, fun _ v hlo hhi => ?_⟩
    rw [BitVec.lt_def] at hlt
    omega

end HelixOS
