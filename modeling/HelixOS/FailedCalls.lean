import HelixOS.UserRegions

/-!
# Memory calls that fail

What `sys_brk` and `sys_mmap` leave behind when they return an error.
-/

namespace HelixOS

open RadixMemory Function

variable {flags addr len prot fd off : Word} {A : Set ℕ} {s t : Machine} {root : ℕ} {virt : Word}
  {l : ℕ} {q : Word} {f : ℕ}

/-! ## Frames that a page needs -/

/-- What `leaf` says of the first entry that is not a table, on the way to `virt` from the entry `w`
of level `l` on. -/
def walkEnd {α : Type} (leaf : ℕ → Word → α) (m : Mem) (virt : Word) : ℕ → Word → α
  | 0, w => leaf 0 w
  | l + 1, w =>
    if pteFormat.isTable w then walkEnd leaf m virt l (m (frameOf w) (tableIndex virt l))
    else leaf (l + 1) w

/-- The tables that are missing below an entry of level `l`; a 2 MiB leaf has to be split. -/
def tablesBelow : Mem → Word → ℕ → Word → ℕ := walkEnd fun l _ => l

/-- The way ends at a 1 GiB leaf, which is not split. -/
def hugeBelow : Mem → Word → ℕ → Word → Bool := walkEnd fun l w => l == 2 && hasFlag w pteP

def missingTables (m : Mem) (root : ℕ) (virt : Word) : ℕ :=
  tablesBelow m virt 3 (m root (tableIndex virt 3))

def hugeLeaf (m : Mem) (root : ℕ) (virt : Word) : Bool :=
  hugeBelow m virt 3 (m root (tableIndex virt 3))

lemma walkEnd_congr {α : Type} {leaf : ℕ → Word → α} {m m' : Mem} {w : Word}
    (hagree : ∀ g, entryTabs pteFormat m l w g ≠ 0 → m' g = m g) :
    walkEnd leaf m' virt l w = walkEnd leaf m virt l w := by
  induction l generalizing w with
  | zero => rfl
  | succ l ih =>
    by_cases htable : pteFormat.isTable w = true
    · have htarget : m' (frameOf w) = m (frameOf w) := by
        rw [← pteFormat_target]
        exact hagree _ (entryTabs_target_ne_zero htable)
      simp only [walkEnd, htable, if_true, htarget]
      refine ih fun g hg => hagree g (entryTabs_child_ne_zero htable (j := tableIndex virt l) ?_)
      rwa [pteFormat_target]
    · simp [walkEnd, htable]

/-- One step of the walk takes a frame for each table that was missing, and meets a 1 GiB leaf
only if there was one. -/
structure EdgeExact (s t : Machine) (virt : Word) (l f : ℕ) : Prop where
  count : s.pmm.freeCount + tablesBelow t.mem virt l
      (t.mem (frameOf (t.mem f (tableIndex virt (l + 1)))) (tableIndex virt l)) =
    t.pmm.freeCount + tablesBelow s.mem virt (l + 1) (s.mem f (tableIndex virt (l + 1)))
  huge : hugeBelow t.mem virt l
      (t.mem (frameOf (t.mem f (tableIndex virt (l + 1)))) (tableIndex virt l)) =
    hugeBelow s.mem virt (l + 1) (s.mem f (tableIndex virt (l + 1)))

lemma edgeExact_same (hpmm : t.pmm = s.pmm)
    (hsame : SameEdge pteFormat s.mem t.mem l (s.mem f (tableIndex virt (l + 1)))
      (t.mem f (tableIndex virt (l + 1)))) : EdgeExact s t virt l f := by
  have htarget := hsame.target
  have hself := hsame.self
  have hchild := hsame.child (tableIndex virt l)
  simp only [pteFormat_target] at htarget hself hchild
  have hend : ∀ {α : Type} (leaf : ℕ → Word → α),
      walkEnd leaf t.mem virt l
        (t.mem (frameOf (t.mem f (tableIndex virt (l + 1)))) (tableIndex virt l)) =
      walkEnd leaf s.mem virt (l + 1) (s.mem f (tableIndex virt (l + 1))) := by
    intro α leaf
    rw [htarget, hself, walkEnd_congr hchild, walkEnd, if_pos hsame.table]
  exact ⟨by rw [hpmm, tablesBelow, hend], hend _⟩

lemma UpperStep.edgeExact {user : Word} (hsp : SpaceIn A s root)
    (hreach : ReachSlot s.mem virt root (l + 1) q f)
    (hstep : UpperStep s f (tableIndex virt (l + 1)) user l (true, t)) :
    EdgeExact s t virt l f := by
  cases hstep with
  | keep htable => exact edgeExact_same rfl ⟨htable, htable, rfl, fun _ _ => rfl⟩
  | flag htable =>
    refine edgeExact_same rfl ?_
    rw [Machine.setEntry_mem, setEntry_same]
    exact sameEdge_user hreach hsp.ok.unshared htable
  | @hang p flags content hfree huser hnew =>
    obtain ⟨hflags, hps, hp, -⟩ := hnew.edge
    obtain ⟨hframe, -, -⟩ := edge_flags (hsp.sound.free_bounds hfree).2 hflags hps hp
    have hfill := (slotWrite_hang hreach (fresh_tabs_zero hsp hfree) content
      (frameAddr p ||| flags)).2
    have hbelow : ∀ m, tablesBelow m virt l (content (tableIndex virt l)) = l ∧
        hugeBelow m virt l (content (tableIndex virt l)) = false := by
      intro m
      rcases hnew.content_eq with ⟨-, rfl⟩ | ⟨rfl, -⟩
      · cases l <;> simp [tablesBelow, hugeBelow, walkEnd, pteFormat_isTable]
      · exact ⟨rfl, rfl⟩
    have hentry : hugeBelow s.mem virt (l + 1) (s.mem f (tableIndex virt (l + 1))) = false := by
      rw [hugeBelow, walkEnd, if_neg (by rw [hnew.leaf]; decide)]
      rcases hnew.content_eq with ⟨habsent, -⟩ | ⟨rfl, -⟩
      · rw [habsent, Bool.and_false]
      · rfl
    have hcount := Pmm.freeCount_take hfree
    constructor
    · simp only [setEntry_same, hframe, hfill, hbelow, hcount]
      rw [tablesBelow, walkEnd, if_neg (by rw [hnew.leaf]; decide)]
      omega
    · simp only [setEntry_same, hframe, hfill, hbelow, hentry]

/-- The frames that are free are fewer than `n` and the tables that are missing, or a 1 GiB leaf
is in the way. -/
def NoRoom (s : Machine) (n : ℕ) (va : Word) : Prop :=
  s.pmm.freeCount < n + missingTables s.mem (frameOf s.cr3) va ∨
    hugeLeaf s.mem (frameOf s.cr3) va = true

instance (s : Machine) (n : ℕ) (va : Word) : Decidable (NoRoom s n va) :=
  inferInstanceAs (Decidable (_ ∨ _))

lemma pagingMap4k_ok_iff {phys : Word} (hsp : SpaceIn A s (frameOf s.cr3)) (hcr3 : s.cr3 ≠ 0#64)
    (hvirt : virt &&& 0xFFF#64 = 0#64) (hphys : phys &&& 0xFFF#64 = 0#64) (flags) :
    (pagingMap4k s virt phys flags).1 = true ↔ ¬ NoRoom s 0 virt := by
  refine pagingMap4k_induct (R := fun r => r.1 = true ↔ ¬ NoRoom s 0 virt)
    (Q := fun l f t => MapStage A s virt (if hasFlag flags pteU then pteU else 0#64)
      (frameOf s.cr3) l f t ∧
      s.pmm.freeCount + tablesBelow t.mem virt l (t.mem f (tableIndex virt l)) =
        t.pmm.freeCount + missingTables s.mem (frameOf s.cr3) virt ∧
      hugeBelow t.mem virt l (t.mem f (tableIndex virt l)) = hugeLeaf s.mem (frameOf s.cr3) virt)
    rfl (fun h => ?_) ⟨mapStage_start hsp virt _, rfl, rfl⟩
    (fun hQ => (hQ.1.ext.spaceIn hsp).sound) (fun hQ => hQ.1.topTable) (fun hQ hstep => ?_)
    (fun hQ hstep => ?_) fun hQ => ?_
  · simp [hcr3, hvirt, hphys] at h
  · obtain ⟨q, hreach, -⟩ := hQ.1.reach
    have hexact := hstep.edgeExact (hQ.1.ext.spaceIn hsp) hreach
    have hcount := hexact.count
    exact ⟨hQ.1.step hsp hstep, by omega, hexact.huge.trans hQ.2.2⟩
  · obtain ⟨-, hcount, hhuge⟩ := hQ
    refine iff_of_false Bool.false_ne_true (not_not.mpr ?_)
    cases hstep with
    | full hnone hleaf =>
      rw [tablesBelow, walkEnd, if_neg (by rw [hleaf]; decide)] at hcount
      exact Or.inl (by omega)
    | huge hl hpresent hlarge =>
      subst hl
      refine Or.inr (hhuge.symm.trans ?_)
      rw [hugeBelow, walkEnd, if_neg (by simp [pteFormat_isTable, hlarge]), hpresent]
      rfl
  · obtain ⟨-, hcount, hhuge⟩ := hQ
    refine iff_of_true rfl ?_
    rintro (hfew | hleaf)
    · rw [tablesBelow, walkEnd] at hcount
      omega
    · rw [← hhuge] at hleaf
      cases hleaf

lemma walkEnd_takeFrame {α : Type} (leaf : ℕ → Word → α) (virt) (hsp : SpaceIn A s root) {p : ℕ}
    (hfree : s.pmm.IsFree p) :
    walkEnd leaf (s.takeFrame p).mem virt 3 ((s.takeFrame p).mem root (tableIndex virt 3)) =
      walkEnd leaf s.mem virt 3 (s.mem root (tableIndex virt 3)) := by
  have hagree : ∀ g, tabsOf s.mem root g ≠ 0 → (s.takeFrame p).mem g = s.mem g :=
    fun g hg => s.takeFrame_of_ne fun heq => by
      have hused := hsp.held hg
      rw [heq, hfree.2] at hused
      cases hused
  have hroot : (s.takeFrame p).mem root = s.mem root :=
    hagree root (tableTabs_self_pos _ _ _ _)
  rw [hroot]
  refine walkEnd_congr fun g hg => hagree g ?_
  have hle := entryTabs_le_tableTabs pteFormat s.mem 3 root g (tableIndex virt 3)
  unfold tabsOf
  omega

/-- With one frame taken for the page there is one less for the tables. -/
lemma noRoom_takeFrame (hsp : SpaceIn A s (frameOf s.cr3)) {p : ℕ} (hfree : s.pmm.IsFree p) :
    NoRoom (s.takeFrame p) 0 virt ↔ NoRoom s 1 virt := by
  have hcount : s.pmm.freeCount = (s.takeFrame p).pmm.freeCount + 1 := Pmm.freeCount_take hfree
  have hmissing : missingTables (s.takeFrame p).mem (frameOf s.cr3) virt =
      missingTables s.mem (frameOf s.cr3) virt :=
    walkEnd_takeFrame (fun l _ => l) virt hsp hfree
  have hhuge : hugeLeaf (s.takeFrame p).mem (frameOf s.cr3) virt =
      hugeLeaf s.mem (frameOf s.cr3) virt :=
    walkEnd_takeFrame (fun l w => l == 2 && hasFlag w pteP) virt hsp hfree
  have hcr3 : (s.takeFrame p).cr3 = s.cr3 := rfl
  rw [NoRoom, NoRoom, hcr3, hmissing, hhuge, hcount]
  exact or_congr_left (by omega)

lemma allocUserPage_ok_iff (hsp : SpaceIn A s (frameOf s.cr3)) (hcr3 : s.cr3 ≠ 0#64)
    (hvirt : virt &&& 0xFFF#64 = 0#64) (writable) :
    (allocUserPage s virt writable).1 = true ↔ ¬ NoRoom s 1 virt := by
  rcases allocZeroedPage_cases hsp.sound with ⟨p, hfree, hne, -, halloc⟩ | ⟨hnone, halloc⟩
  swap
  · refine iff_of_false (by simp [allocUserPage, halloc]) (not_not.mpr (Or.inl ?_))
    omega
  obtain ⟨hsp₁, -⟩ := hsp.takeFrame hfree
  have hok := pagingMap4k_ok_iff hsp₁ hcr3 hvirt (frameAddr_aligned p) (userFlags writable)
  rw [noRoom_takeFrame hsp hfree] at hok
  rw [← hok]
  simp only [allocUserPage, halloc, hne, if_false]
  rcases pagingMap4k (s.takeFrame p) virt (frameAddr p) (userFlags writable) with ⟨_ | _, t⟩ <;>
    simp

/-! ## What a failure leaves behind -/

/-- Everything translates as before, and the frames that are no longer free are tables of
the page table. -/
structure KeptByFailure (s t : Machine) : Prop where
  cr3 : t.cr3 = s.cr3
  pages : ∀ v, translate t.mem t.cr3 v = translate s.mem s.cr3 v
  given : ∀ g, t.pmm.IsFree g → s.pmm.IsFree g
  taken : ∀ g, s.pmm.IsFree g → t.pmm.IsFree g ∨ tabsOf t.mem (frameOf t.cr3) g ≠ 0

lemma KeptByFailure.refl (s : Machine) : KeptByFailure s s :=
  ⟨rfl, fun _ => rfl, fun _ hg => hg, fun _ hg => Or.inl hg⟩

lemma isFree_of_mono {a b : Pmm} (htotal : b.total = a.total)
    (hmono : ∀ g, a.used g = true → b.used g = true) {g : ℕ} (hfree : b.IsFree g) :
    a.IsFree g := by
  refine ⟨htotal ▸ hfree.1, ?_⟩
  by_contra hused
  have hb := hmono g (by simpa using hused)
  rw [hfree.2] at hb
  cases hb

/-- No user page lies on a free frame. -/
lemma SpaceIn.frame_ne_free (hsp : SpaceIn A s root) {page : Mapping} {v : Word}
    (hpage : pageView s.mem root v = some page) (huser : page.user = true) :
    ¬ s.pmm.IsFree page.frame := by
  intro hfree
  have hA := hsp.manages.mem_of_free hfree
  have hle := hsp.ok.tabs_add_userRef v hA
  have hrefs := hsp.refs_le _ hA
  rw [hpage, userRef_self huser] at hle
  simp only [Pmm.usedCount, hfree.2, Bool.false_eq_true, if_false] at hrefs
  omega

lemma KeepsPages.kept (hsp : SpaceIn A s (frameOf s.cr3))
    (hkeep : KeepsPages A s t (frameOf s.cr3))
    (hmono : ∀ g, s.pmm.used g = true → t.pmm.used g = true) : KeptByFailure s t := by
  have hroot : frameOf t.cr3 = frameOf s.cr3 := by rw [hkeep.moves.cr3_eq]
  refine ⟨hkeep.moves.cr3_eq, fun v => ?_, fun g => isFree_of_mono hkeep.moves.total_eq hmono,
    fun g hg => ?_⟩
  · rw [translate_eq_pageView (hroot ▸ hkeep.moves.space.entries),
      translate_eq_pageView hsp.ok.entries, hroot, hkeep.view v]
  · by_cases hused : t.pmm.used g = true
    · right
      have hA := hsp.manages.mem_of_free hg
      have hcount := hkeep.balanced g hA
      simp only [Pmm.usedCount, hused, hg.2, if_true, Bool.false_eq_true, if_false] at hcount
      rw [hroot]
      rcases refsOf_cases (show refsOf t.mem (frameOf s.cr3) g ≠ 0 by omega) with
        htab | ⟨v, page, hpage, huser, hframe⟩
      · exact htab
      · -- a user page on `g` would have been there before, when `g` was free
        rw [hkeep.view v] at hpage
        exact absurd (hframe ▸ hg) (hsp.frame_ne_free hpage huser)
    · exact Or.inl ⟨hkeep.moves.total_eq ▸ hg.1, by simpa using hused⟩

lemma allocUserPage_noRoom (hsp : SpaceIn A s (frameOf s.cr3)) (hcr3 : s.cr3 ≠ 0#64)
    (hvirt : virt &&& 0xFFF#64 = 0#64) (writable) (hroom : NoRoom s 1 virt) :
    ∃ t, allocUserPage s virt writable = (false, t) ∧ KeptByFailure s t ∧
      (s.pmm.freeCount = 0 → t = s) := by
  rcases allocZeroedPage_cases hsp.sound with ⟨p, hfree, hne, -, halloc⟩ | ⟨-, halloc⟩
  swap
  · exact ⟨s, by simp [allocUserPage, halloc], KeptByFailure.refl s, fun _ => rfl⟩
  obtain ⟨hsp₁, -⟩ := hsp.takeFrame hfree
  have hcount : s.pmm.freeCount = (s.takeFrame p).pmm.freeCount + 1 := Pmm.freeCount_take hfree
  have hok := pagingMap4k_ok_iff hsp₁ hcr3 hvirt (frameAddr_aligned p) (userFlags writable)
  rw [noRoom_takeFrame hsp hfree] at hok
  rcases pagingMap4k_cases hsp₁ hcr3 hvirt (frameAddr_aligned p) (userFlags writable) with
    ⟨t, hmap, -, -⟩ | ⟨t, hmap, hext, -⟩
  · exact absurd hroom (hok.mp (by rw [hmap]))
  refine ⟨_, by simp only [allocUserPage, halloc, hne, hmap, if_false]; rfl,
    (keepsPages_of_extends hsp hfree hext).kept hsp fun g hg => ?_, fun hnone => by omega⟩
  -- only `p` is given back, and it was free
  have hgp : g ≠ p := by
    rintro rfl
    rw [hfree.2] at hg
    cases hg
  have hmono : t.pmm.used g = true := hext.pmm.used_mono g (by
    simpa [Pmm.take, update_of_ne hgp] using hg)
  have hlt := hsp.manages.lt (hsp.manages.mem_of_free hfree)
  simp only [pmmFreePage, frameOf_frameAddr (show p < 2 ^ 52 by omega)]
  split_ifs
  · exact hmono
  · exact hmono
  · simpa [update_of_ne hgp] using hmono

/-- The page at `v` lies on a frame that was free in the machine `s`. -/
def FreshPage (s t : Machine) (root : ℕ) (v : Word) : Prop :=
  ∃ page, pageView t.mem root v = some page ∧ page.user = true ∧ s.pmm.IsFree page.frame

/-- A page that the loop has mapped stays, or is mapped again. -/
lemma allocUserLoop_freshPage {s₀ : Machine} {v : Word} (n : ℕ) (va)
    (hsp : SpaceIn A s (frameOf s.cr3)) (hcr3 : s.cr3 ≠ 0#64) (hgrow : s₀.pmm.Grows s.pmm)
    (hpage : FreshPage s₀ s (frameOf s.cr3) v) :
    FreshPage s₀ (allocUserLoop true n va s).2 (frameOf s.cr3) v := by
  induction n generalizing s va with
  | zero => exact hpage
  | succ n ih =>
    rcases allocUserPage_cases hsp hcr3 va true with
      ⟨t, p, halloc, -, hfree, hone⟩ | ⟨t, halloc, hkeep, -⟩
    · have hcr3' := hone.moves.cr3_eq
      have hnext : FreshPage s₀ t (frameOf s.cr3) v := by
        by_cases hsame : pageNum v = pageNum va
        · refine ⟨⟨p, true, true⟩, by rw [hone.view, if_pos hsame], rfl, ?_⟩
          exact isFree_of_mono hgrow.total_eq hgrow.used_mono hfree
        · rw [FreshPage, hone.view, if_neg hsame]
          exact hpage
      have hrest := ih (va + 4096#64) (hcr3'.symm ▸ hone.moves.spaceIn hsp) (hcr3'.symm ▸ hcr3)
        (hgrow.trans hone.pmm) (hcr3'.symm ▸ hnext)
      rw [hcr3'] at hrest
      simpa only [allocUserLoop, halloc] using hrest
    · obtain ⟨page, hview, hrest⟩ := hpage
      simp only [allocUserLoop, halloc]
      exact ⟨page, (hkeep.view v).trans hview, hrest⟩

/-- If the first page of the loop can be mapped, its translation changes for good. -/
lemma allocUserLoop_changes (hsp : SpaceIn A s (frameOf s.cr3)) (hcr3 : s.cr3 ≠ 0#64)
    (hvirt : virt &&& 0xFFF#64 = 0#64) (n : ℕ) (hroom : ¬ NoRoom s 1 virt) :
    ¬ KeptByFailure s (allocUserLoop true (n + 1) virt s).2 := by
  intro hkept
  rcases allocUserPage_cases hsp hcr3 virt true with
    ⟨t, p, halloc, -, hfree, hone⟩ | ⟨t, halloc, -⟩
  swap
  · have hok := (allocUserPage_ok_iff hsp hcr3 hvirt true).mpr hroom
    rw [halloc] at hok
    cases hok
  have hcr3' := hone.moves.cr3_eq
  have hfresh : FreshPage s t (frameOf s.cr3) virt :=
    ⟨⟨p, true, true⟩, by rw [hone.view, if_pos rfl], rfl, hfree⟩
  have hrest := allocUserLoop_freshPage n (virt + 4096#64) (hcr3'.symm ▸ hone.moves.spaceIn hsp)
    (hcr3'.symm ▸ hcr3) hone.pmm (hcr3'.symm ▸ hfresh)
  have hrun := allocUserLoop_run true (n + 1) virt hsp hcr3
  have hmoves := (hrun.maps hsp.manages).moves
  have hpages := hkept.pages virt
  rw [translate_eq_pageView (by rw [hmoves.cr3_eq]; exact hmoves.space.entries),
    translate_eq_pageView hsp.ok.entries, hmoves.cr3_eq] at hpages
  obtain ⟨page, hview, huser, hpage⟩ := hrest
  have hlater : pageView (allocUserLoop true (n + 1) virt s).2.mem (frameOf s.cr3) virt =
      some page := by
    simpa only [allocUserLoop, halloc, hcr3'] using hview
  rw [hlater] at hpages
  exact hsp.frame_ne_free hpages.symm huser hpage

/-! ## The range of a mapping -/

namespace MmapTarget

/-- Nothing is mapped, whatever the page table. -/
def Refused (fb : Framebuffer) : MmapTarget → Prop
  | .nothing _ => True
  | .framebuffer _ => ¬ fb.Usable ∨ fb.pages = 0
  | .anonymous _ npages => npages = 0#64

/-- The first page cannot be mapped. -/
def FirstFails (m : Machine) : MmapTarget → Prop
  | .nothing _ => False
  | .framebuffer va => NoRoom m 0 (pageDown va)
  | .anonymous va _ => NoRoom m 1 va

/-- The first page of the framebuffer is there already. -/
def Remaps (fb : Framebuffer) (m : Machine) : MmapTarget → Prop
  | .framebuffer va => translate m.mem m.cr3 (pageDown va) =
      some (newMapping fb.phys (pteP ||| pteU ||| pteW))
  | _ => False

def Aligned : MmapTarget → Prop
  | .anonymous va npages => npages = 0#64 ∨ va &&& 0xFFF#64 = 0#64
  | _ => True

def IsFramebuffer : MmapTarget → Prop
  | .framebuffer _ => True
  | _ => False

variable {fb : Framebuffer} {m : Machine} {target : MmapTarget}

lemma Refused.run_eq (hrefused : target.Refused fb) : target.run fb m = m := by
  cases target with
  | nothing e => rfl
  | framebuffer va =>
    rw [MmapTarget.run, fbMapUser]
    split_ifs with hnone
    · rfl
    have hpages : fb.pages = 0 ∨ fb.phys &&& 0xFFF#64 ≠ 0#64 := by
      rcases hrefused with husable | hzero
      · exact Or.inr fun haligned => husable
          ⟨fun h => hnone (Or.inl h), fun h => hnone (Or.inr h), haligned⟩
      · exact Or.inl hzero
    cases hn : fb.pages with
    | zero => rfl
    | succ n =>
      have hphys := hpages.resolve_left (by omega)
      by_cases hcr3 : m.cr3 = 0#64 <;> simp [fbMapLoop, pagingMap4k, hcr3, hphys]
  | anonymous va npages =>
    rw [MmapTarget.run, vmmAllocUserPages, if_pos (show npages = 0#64 from hrefused)]

lemma pageDown_and (x : Word) : pageDown x &&& 0xFFF#64 = 0#64 := by
  rw [aligned_iff, pageDown_toNat]
  omega

lemma framebuffer_run {va : Word} (hrefused : ¬ Refused fb (.framebuffer va)) (m) :
    fb.phys &&& 0xFFF#64 = 0#64 ∧ ∃ n, fb.pages = n + 1 ∧
      MmapTarget.run fb m (.framebuffer va) = (fbMapLoop (n + 1) (pageDown va) fb.phys m).2 := by
  obtain ⟨⟨hphys, hsize, hlow⟩, hpages⟩ : fb.Usable ∧ fb.pages ≠ 0 := by
    simpa only [Refused, not_or, not_not] using hrefused
  obtain ⟨n, hn⟩ := Nat.exists_eq_succ_of_ne_zero hpages
  refine ⟨hlow, n, hn, ?_⟩
  rw [MmapTarget.run, fbMapUser, if_neg (by simp [hphys, hsize]), hn]

lemma anonymous_run {va npages : Word} (hnone : npages ≠ 0#64) (fb m) :
    ∃ n, MmapTarget.run fb m (.anonymous va npages) = (allocUserLoop true (n + 1) va m).2 := by
  obtain ⟨n, hn⟩ := Nat.exists_eq_succ_of_ne_zero (n := npages.toNat)
    fun hzero => hnone (BitVec.eq_of_toNat_eq hzero)
  exact ⟨n, by rw [MmapTarget.run, vmmAllocUserPages, if_neg hnone, hn]⟩

variable (hsp : SpaceIn A m (frameOf m.cr3)) (hcr3 : m.cr3 ≠ 0#64)

include hsp hcr3

variable (fb) in
lemma FirstFails.kept (haligned : target.Aligned) (hfails : target.FirstFails m) :
    KeptByFailure m (target.run fb m) ∧
      (m.pmm.freeCount = 0 → ¬ target.IsFramebuffer → target.run fb m = m) := by
  by_cases hrefused : target.Refused fb
  · rw [hrefused.run_eq]
    exact ⟨KeptByFailure.refl m, fun _ _ => rfl⟩
  cases target with
  | nothing e => exact absurd trivial hrefused
  | framebuffer va =>
    refine ⟨?_, fun _ hnot => absurd trivial hnot⟩
    obtain ⟨hlow, n, -, hrun⟩ := framebuffer_run hrefused m
    have hok := pagingMap4k_ok_iff hsp hcr3 (pageDown_and va) hlow (pteP ||| pteU ||| pteW)
    rcases pagingMap4k_cases hsp hcr3 (pageDown_and va) hlow (pteP ||| pteU ||| pteW) with
      ⟨t, hmap, -, -⟩ | ⟨t, hmap, hext, -⟩
    · exact absurd hfails (hok.mp (by rw [hmap]))
    · rw [hrun, fbMapLoop, hmap]
      exact (hext.keepsPages hsp).kept hsp hext.pmm.used_mono
  | anonymous va npages =>
    have hnone : npages ≠ 0#64 := hrefused
    obtain ⟨t, halloc, hkept, hsame⟩ := allocUserPage_noRoom hsp hcr3
      (haligned.resolve_left hnone) true hfails
    obtain ⟨n, hrun⟩ := anonymous_run hnone fb m
    rw [hrun, allocUserLoop, halloc]
    exact ⟨hkept, fun hfree _ => hsame hfree⟩

lemma fbMapLoop_remaps {va phys : Word} {n : ℕ} (hva : va &&& 0xFFF#64 = 0#64)
    (hlow : phys &&& 0xFFF#64 = 0#64) (hn : n < 2 ^ 36)
    (hout : ∀ i, i < n + 1 → physFrame phys i ∉ A) (hroom : ¬ NoRoom m 0 va)
    (hkept : KeptByFailure m (fbMapLoop (n + 1) va phys m).2) :
    translate m.mem m.cr3 va = some (newMapping phys (pteP ||| pteU ||| pteW)) := by
  have hok := pagingMap4k_ok_iff hsp hcr3 hva hlow (pteP ||| pteU ||| pteW)
  rcases pagingMap4k_cases hsp hcr3 hva hlow (pteP ||| pteU ||| pteW) with
    ⟨t, hmap, hmaps, hcount⟩ | ⟨t, hmap, -⟩
  swap
  · have hyes := hok.mpr hroom
    rw [hmap] at hyes
    cases hyes
  have hzero := hout 0 (by omega)
  rw [physFrame_zero] at hzero
  have hone := hmaps.one hsp (by decide) hzero hcount
  have hcr3' := hone.moves.cr3_eq
  have hsp' := hone.moves.spaceIn hsp
  have hrun := fbMapLoop_run n (hcr3'.symm ▸ hsp') (hcr3'.symm ▸ hcr3)
    (aligned_next hva) (aligned_next hlow) fun i hi => by
      rw [physFrame_next]
      exact hout (i + 1) (by omega)
  rw [hcr3'] at hrun
  have hrest := hrun.maps hone.moves.manages
  have hview := hrest.view va fun h => h.ne_first (by omega) rfl
  rw [hone.view, if_pos rfl] at hview
  have hpage := hkept.pages va
  rw [fbMapLoop, hmap] at hpage
  have hroot : (fbMapLoop n (va + 4096#64) (phys + 4096#64) t).2.cr3 = m.cr3 :=
    hrest.moves.cr3_eq.trans hcr3'
  rw [translate_eq_pageView (by rw [hroot]; exact hrest.moves.space.entries), hroot, hview]
    at hpage
  exact hpage.symm

lemma cases_of_kept (hout : fb.Outside A) (hfits : fb.pages ≤ 2 ^ 36) (haligned : target.Aligned)
    (hkept : KeptByFailure m (target.run fb m)) :
    target.Refused fb ∨ target.FirstFails m ∨ target.Remaps fb m := by
  by_contra hnot
  simp only [not_or] at hnot
  obtain ⟨hrefused, hroom, hremaps⟩ := hnot
  cases target with
  | nothing e => exact hrefused trivial
  | framebuffer va =>
    obtain ⟨hlow, n, hn, hrun⟩ := framebuffer_run hrefused m
    rw [hrun] at hkept
    exact hremaps (fbMapLoop_remaps hsp hcr3 (pageDown_and va) hlow (by omega)
      (fun i hi => hout i (by omega)) hroom hkept)
  | anonymous va npages =>
    have hnone : npages ≠ 0#64 := hrefused
    obtain ⟨n, hrun⟩ := anonymous_run hnone fb m
    rw [hrun] at hkept
    exact allocUserLoop_changes hsp hcr3 (haligned.resolve_left hnone) n hroom hkept

end MmapTarget

/-! ## The calls -/

/-- The calls that allocate memory. -/
inductive AllocCall where
  | brk (addr : Word)
  | mmap (addr len prot flags fd off : Word)

namespace AllocCall

def run (fb : Framebuffer) (s : MemState) : AllocCall → Word × MemState
  | .brk addr => sysBrk s addr
  | .mmap addr len prot flags fd off => sysMmap fb s addr len prot flags fd off

/-- The result tells of a failure. -/
def Failed (fb : Framebuffer) (s : MemState) : AllocCall → Prop
  | .brk addr => (sysBrk s addr).1 ≠ addr
  | .mmap addr len prot flags fd off => ∃ e, (sysMmap fb s addr len prot flags fd off).1 = err e

def isAnonymous (flags fd : Word) : Bool :=
  hasFlag flags mapAnonymous || fd == 0xFFFFFFFFFFFFFFFF#64

/-- The place of a mapping is taken from a bump pointer, which is moved. -/
def FromBump (addr len flags fd : Word) : Prop :=
  len ≠ 0#64 ∧ pageUp len ≠ 0#64 ∧
    (fd = fbFd ∧ addr = 0#64 ∨
      fd ≠ fbFd ∧ isAnonymous flags fd = true ∧ hasFlag flags mapFixed = false ∧
        (addr = 0#64 ∨ okRange (pageDown addr) (pageDown addr + pageUp len) = false))

instance (addr len flags fd : Word) : Decidable (FromBump addr len flags fd) :=
  inferInstanceAs (Decidable (_ ∧ _))

/-- The arguments alone rule the call out. -/
def Refused (fb : Framebuffer) (s : MemState) : AllocCall → Prop
  | .brk addr => addr = 0#64 ∨ addr < s.initBrk.brkStart ∨
      addr ≥ brkCeiling s.initBrk.brkStart
  | .mmap addr len _ flags fd _ =>
    ¬ FromBump addr len flags fd ∧ (mmapTarget s addr len flags fd).1.Refused fb

/-- The first page of a given place cannot be mapped. -/
def FirstFails (s : MemState) : AllocCall → Prop
  | .brk _ => NoRoom s.machine 1 (pageUp s.initBrk.brkCurr)
  | .mmap addr len _ flags fd _ =>
    ¬ FromBump addr len flags fd ∧ (mmapTarget s addr len flags fd).1.FirstFails s.machine

def Remaps (fb : Framebuffer) (s : MemState) : AllocCall → Prop
  | .brk _ => False
  | .mmap addr len _ flags fd _ => (mmapTarget s addr len flags fd).1.Remaps fb s.machine

def IsFramebuffer : AllocCall → Prop
  | .brk _ => False
  | .mmap _ _ _ _ fd _ => fd = fbFd

end AllocCall

/-- The state of a task after a call that did not happen: the first call may have set the
break. -/
structure Undone (s s' : MemState) : Prop where
  machine : KeptByFailure s.machine s'.machine
  fbBump : s'.fbBump = s.fbBump
  anonBump : s'.anonBump = s.anonBump
  anonBump2 : s'.anonBump2 = s.anonBump2
  brkStart : s'.initBrk.brkStart = s.initBrk.brkStart
  brkCurr : s'.initBrk.brkCurr = s.initBrk.brkCurr

lemma initBrk_bumps (s : MemState) : s.initBrk.fbBump = s.fbBump ∧
    s.initBrk.anonBump = s.anonBump ∧ s.initBrk.anonBump2 = s.anonBump2 := by
  unfold MemState.initBrk
  split <;> exact ⟨rfl, rfl, rfl⟩

lemma initBrk_idem (s : MemState) : s.initBrk.initBrk = s.initBrk :=
  if_neg (initBrk_start_ne_zero s)

lemma Undone.withBrk {s : MemState} (hkept : KeptByFailure s.machine t) :
    Undone s (s.withBrk t s.initBrk.brkCurr) := by
  refine ⟨hkept, withBrk_fbBump s t _, withBrk_anonBump s t _, ?_, ?_, ?_⟩
  · simp only [MemState.withBrk, MemState.initBrk]
    split <;> rfl
  · rw [withBrk_initBrk]
    rfl
  · rw [withBrk_initBrk]
    rfl

namespace AllocCall

variable {A : Set ℕ} {fb : Framebuffer} {c : AllocCall} {s : MemState}

lemma refused_brk (hrefused : Refused fb s (.brk addr)) :
    (run fb s (.brk addr)).2 = s.initBrk := by
  rw [run, sysBrk_refused hrefused, MemState.withBrk, ← initBrk_machine s]

lemma mmapTarget_unmoved (s : MemState) (hbump : ¬ FromBump addr len flags fd) :
    (mmapTarget s addr len flags fd).2 = s ∧ (mmapTarget s addr len flags fd).1.Aligned := by
  by_cases hlen : len = 0#64
  · simp [mmapTarget, hlen, MmapTarget.Aligned]
  by_cases hpages : pageUp len = 0#64
  · simp only [mmapTarget, hlen, hpages, if_false, BitVec.add_zero]
    split_ifs <;> simp [MmapTarget.Aligned]
  simp only [FromBump, hlen, hpages, ne_eq, not_false_iff, true_and, not_or, not_and] at hbump
  obtain ⟨hfb, hanon⟩ := hbump
  by_cases hfd : fd = fbFd
  · simp [mmapTarget, hlen, hfd, hfb hfd, MmapTarget.Aligned]
  cases hyes : isAnonymous flags fd with
  | false =>
    rw [isAnonymous] at hyes
    simp [mmapTarget, hlen, hfd, hyes, MmapTarget.Aligned]
  | true =>
  have hplace := hanon hfd hyes
  rw [isAnonymous] at hyes
  simp only [mmapTarget, hlen, hfd, if_false, hyes, Bool.not_true, Bool.false_eq_true]
  rw [if_neg fun h => (hplace h.2).1 h.1]
  split_ifs with hrange hfixed
  · exact ⟨rfl, Or.inr (MmapTarget.pageDown_and addr)⟩
  · exact ⟨rfl, trivial⟩
  all_goals exact absurd (by simpa using hrange) (hplace (by simpa using hfixed)).2

lemma isFramebuffer_mmapTarget (s : MemState)
    (htarget : (mmapTarget s addr len flags fd).1.IsFramebuffer) : fd = fbFd := by
  by_contra hfd
  simp only [mmapTarget, hfd, if_false] at htarget
  split_ifs at htarget <;> exact htarget

lemma FromBump.moved (hbump : FromBump addr len flags fd) (s : MemState) :
    ¬ ((mmapTarget s addr len flags fd).2.fbBump = s.fbBump ∧
      (mmapTarget s addr len flags fd).2.anonBump = s.anonBump ∧
      (mmapTarget s addr len flags fd).2.anonBump2 = s.anonBump2) := by
  have hmoved : ∀ x : Word, x + pageUp len ≠ x := fun x h => hbump.2.1 (by simpa using h)
  obtain ⟨hlen, -, ⟨rfl, rfl⟩ | ⟨hfd, hyes, hfixed, hplace⟩⟩ := hbump
  · simp [mmapTarget, hlen, hmoved]
  rw [isAnonymous] at hyes
  simp only [mmapTarget, hlen, hfd, if_false, hyes, Bool.not_true, Bool.false_eq_true, hfixed,
    and_true]
  by_cases hzero : addr = 0#64
  · simp [hzero, hmoved]
  · simp [hzero, hplace.resolve_left hzero, hmoved]

lemma mmap_state (fb : Framebuffer) (s : MemState) (addr len prot flags fd off : Word) :
    (run fb s (.mmap addr len prot flags fd off)).2 =
      { (mmapTarget s addr len flags fd).2 with
        machine := (mmapTarget s addr len flags fd).1.run fb s.machine } := by
  rw [run, sysMmap_state, sysMmap_machine]

/-- The break grows by a loop, of no round if the call succeeds without memory. -/
lemma brk_state (hrefused : ¬ Refused fb s (.brk addr)) (hfailed : Failed fb s (.brk addr)) :
    ∃ n, (run fb s (.brk addr)).2.machine =
        (allocUserLoop true (n + 1) (pageUp s.initBrk.brkCurr) s.machine).2 ∧
      ((allocUserLoop true (n + 1) (pageUp s.initBrk.brkCurr) s.machine).1 = false →
        (run fb s (.brk addr)).2 = s.withBrk
          (allocUserLoop true (n + 1) (pageUp s.initBrk.brkCurr) s.machine).2
          s.initBrk.brkCurr) := by
  simp only [Refused, not_or] at hrefused
  obtain ⟨hzero, hlow, hhigh⟩ := hrefused
  have hloop := brkLoop_eq (s := s.machine) (pageUp_aligned s.initBrk.brkCurr) (pageUp_aligned addr)
  have hbrk := sysBrk_loop hzero (BitVec.not_lt.mp hlow) (BitVec.not_le.mp hhigh) hloop
  rw [Failed, hbrk] at hfailed
  rw [run, hbrk]
  cases hn : ((pageUp addr).toNat - (pageUp s.initBrk.brkCurr).toNat) / 4096 with
  | zero =>
    rw [hn] at hfailed
    exact absurd rfl hfailed
  | succ n => exact ⟨n, rfl, fun hfalse => by rw [hfalse]; rfl⟩

lemma sysMmap_setBrk (fb : Framebuffer) (s : MemState) (start curr : Word)
    (addr len prot flags fd off) :
    sysMmap fb { s with brkStart := start, brkCurr := curr } addr len prot flags fd off =
      ((sysMmap fb s addr len prot flags fd off).1,
        { (sysMmap fb s addr len prot flags fd off).2 with
          brkStart := start, brkCurr := curr }) := by
  have htarget : mmapTarget { s with brkStart := start, brkCurr := curr } addr len flags fd =
      ((mmapTarget s addr len flags fd).1,
        { (mmapTarget s addr len flags fd).2 with brkStart := start, brkCurr := curr }) := by
    simp only [mmapTarget]
    repeat' split
    all_goals rfl
  unfold sysMmap
  rw [htarget]
  generalize mmapTarget s addr len flags fd = target
  obtain ⟨target, s'⟩ := target
  cases target <;> rfl

lemma sysMmap_brk (fb : Framebuffer) (s : MemState) (addr len prot flags fd off) :
    (sysMmap fb s addr len prot flags fd off).2.brkStart = s.brkStart ∧
      (sysMmap fb s addr len prot flags fd off).2.brkCurr = s.brkCurr := by
  have hset := sysMmap_setBrk fb s s.brkStart s.brkCurr addr len prot flags fd off
  exact ⟨congrArg (fun r => r.2.brkStart) hset, congrArg (fun r => r.2.brkCurr) hset⟩

/-- Whether the break has been set before a call makes no difference. -/
theorem run_initBrk (fb : Framebuffer) (s : MemState) (c : AllocCall) :
    (run fb s.initBrk c).1 = (run fb s c).1 ∧
      (run fb s.initBrk c).2.initBrk = (run fb s c).2.initBrk := by
  cases c with
  | brk addr =>
    have hsame : sysBrk s.initBrk addr = sysBrk s addr := by
      unfold sysBrk
      rw [initBrk_idem]
    exact ⟨congrArg Prod.fst hsame, congrArg (fun r => r.2.initBrk) hsame⟩
  | mmap addr len prot flags fd off =>
    obtain ⟨hstart, hcurr⟩ := sysMmap_brk fb s addr len prot flags fd off
    by_cases hzero : s.brkStart = 0#64
    · have hinit : s.initBrk = { s with
          brkStart := userBase + 0x100000#64
          brkCurr := userBase + 0x100000#64 } := if_pos hzero
      rw [run, run, hinit, sysMmap_setBrk]
      refine ⟨rfl, ?_⟩
      rw [MemState.initBrk, if_neg (show userBase + 0x100000#64 ≠ 0#64 by decide),
        MemState.initBrk, if_pos (hstart.trans hzero)]
    · rw [show s.initBrk = s from if_neg hzero]
      exact ⟨rfl, rfl⟩

end AllocCall

/-! ## Tasks -/

structure TaskBreak where
  cr3 : Word
  brkStart : Word
  brkCurr : Word

/-- All tasks; the allocator, the memory and the bump pointers are shared. -/
structure MemSystem where
  machine : Machine
  fbBump : Word
  anonBump : Word
  anonBump2 : Word
  tasks : ℕ → TaskBreak

namespace MemSystem

def enter (S : MemSystem) (i : ℕ) : MemState where
  machine := { S.machine with cr3 := (S.tasks i).cr3 }
  brkStart := (S.tasks i).brkStart
  brkCurr := (S.tasks i).brkCurr
  fbBump := S.fbBump
  anonBump := S.anonBump
  anonBump2 := S.anonBump2

def leave (S : MemSystem) (i : ℕ) (s : MemState) : MemSystem where
  machine := s.machine
  fbBump := s.fbBump
  anonBump := s.anonBump
  anonBump2 := s.anonBump2
  tasks := update S.tasks i ⟨(S.tasks i).cr3, s.brkStart, s.brkCurr⟩

def call (fb : Framebuffer) (S : MemSystem) (i : ℕ) (c : AllocCall) : Word × MemSystem :=
  ((c.run fb (S.enter i)).1, S.leave i (c.run fb (S.enter i)).2)

def results (fb : Framebuffer) : MemSystem → List (ℕ × AllocCall) → List Word
  | _, [] => []
  | S, (i, c) :: calls => (S.call fb i c).1 :: results fb (S.call fb i c).2 calls

def SameTasks (S S' : MemSystem) : Prop := ∀ i, (S.enter i).initBrk = (S'.enter i).initBrk

variable {S S' : MemSystem} {fb : Framebuffer} {i : ℕ} {c : AllocCall}

lemma enter_leave_self {s : MemState} (hcr3 : s.machine.cr3 = (S.enter i).machine.cr3) :
    (S.leave i s).enter i = s := by
  obtain ⟨⟨pmm, mem, cr3, kernel⟩, start, curr, fbBump, anonBump, anonBump2⟩ := s
  subst hcr3
  simp only [leave, enter, update_self]

lemma enter_leave_initBrk (S : MemSystem) (i : ℕ) (s : MemState) (j : ℕ) :
    ((S.leave i s).enter j).initBrk =
      { (if j = i then s.initBrk else (S.enter j).initBrk) with
        machine := { s.initBrk.machine with cr3 := (S.enter j).initBrk.machine.cr3 }
        fbBump := s.initBrk.fbBump
        anonBump := s.initBrk.anonBump
        anonBump2 := s.initBrk.anonBump2 } := by
  obtain ⟨hfb, hanon, hanon2⟩ := initBrk_bumps s
  rw [hfb, hanon, hanon2, initBrk_machine, initBrk_machine]
  by_cases hj : j = i
  · subst hj
    simp only [MemState.initBrk, leave, enter, update_self, if_true]
    split_ifs <;> rfl
  · by_cases hset : (S.tasks j).brkStart = 0#64 <;>
      simp [MemState.initBrk, leave, enter, hj, hset]

lemma SameTasks.leave (hsame : SameTasks S S') {s s' : MemState}
    (hinit : s.initBrk = s'.initBrk) : SameTasks (S.leave i s) (S'.leave i s') := by
  intro j
  rw [enter_leave_initBrk, enter_leave_initBrk, hinit, hsame j]

lemma SameTasks.call (hsame : SameTasks S S') (fb : Framebuffer) (i : ℕ) (c : AllocCall) :
    (S.call fb i c).1 = (S'.call fb i c).1 ∧
      SameTasks (S.call fb i c).2 (S'.call fb i c).2 := by
  have hresult := AllocCall.run_initBrk fb (S.enter i) c
  have hresult' := AllocCall.run_initBrk fb (S'.enter i) c
  rw [hsame i] at hresult
  exact ⟨hresult.1.symm.trans hresult'.1, hsame.leave (hresult.2.symm.trans hresult'.2)⟩

lemma SameTasks.results (hsame : SameTasks S S') (calls : List (ℕ × AllocCall)) :
    S.results fb calls = S'.results fb calls := by
  induction calls generalizing S S' with
  | nil => rfl
  | cons head calls ih =>
    obtain ⟨i, c⟩ := head
    obtain ⟨hresult, hnext⟩ := hsame.call fb i c
    rw [MemSystem.results, MemSystem.results, hresult, ih hnext]

lemma sameTasks_leave {s : MemState} (hinit : s.initBrk = (S.enter i).initBrk) :
    SameTasks (S.leave i s) S := by
  intro j
  rw [enter_leave_initBrk, hinit]
  by_cases hj : j = i
  · subst hj
    rw [if_pos rfl]
  · by_cases hset : (S.tasks j).brkStart = 0#64 <;>
      by_cases hown : (S.tasks i).brkStart = 0#64 <;>
      simp [MemState.initBrk, enter, hj, hset, hown]

end MemSystem

namespace AllocCall

variable {A : Set ℕ} {fb : Framebuffer} {s : MemState} {c : AllocCall}

lemma undone_mmap_iff (hbump : ¬ FromBump addr len flags fd) (prot off : Word) :
    Undone s (run fb s (.mmap addr len prot flags fd off)).2 ↔
      KeptByFailure s.machine ((mmapTarget s addr len flags fd).1.run fb s.machine) := by
  rw [mmap_state, (mmapTarget_unmoved s hbump).1]
  refine ⟨fun h => h.machine, fun h => ⟨h, rfl, rfl, rfl, ?_, ?_⟩⟩
  · simp only [MemState.initBrk]
    split_ifs <;> rfl
  · simp only [MemState.initBrk]
    split_ifs <;> rfl

section Calls

variable (hsp : SpaceIn A s.machine (frameOf s.machine.cr3)) (hcr3 : s.machine.cr3 ≠ 0#64)
  (hfailed : c.Failed fb s)

include hsp hcr3 hfailed

lemma run_undone (hwhen : c.Refused fb s ∨ c.FirstFails s) :
    Undone s (c.run fb s).2 ∧
      (c.Refused fb s ∨ s.machine.pmm.freeCount = 0 ∧ ¬ c.IsFramebuffer →
        (c.run fb s).2.initBrk = s.initBrk) := by
  have hbrk : ∀ t, t = s.machine → s.withBrk t s.initBrk.brkCurr = s.initBrk := by
    rintro t rfl
    rw [MemState.withBrk, ← initBrk_machine s]
  cases c with
  | brk addr =>
    by_cases hrefused : Refused fb s (.brk addr)
    · have hstate := refused_brk hrefused
      rw [← hbrk s.machine rfl] at hstate
      rw [hstate]
      exact ⟨Undone.withBrk (KeptByFailure.refl _), fun _ => by
        rw [withBrk_initBrk, hbrk s.machine rfl]⟩
    · have hroom : NoRoom s.machine 1 _ := hwhen.resolve_left hrefused
      have haligned := (aligned_iff _).mpr (pageUp_aligned s.initBrk.brkCurr)
      obtain ⟨t, halloc, hkept, hsame⟩ := allocUserPage_noRoom hsp hcr3 haligned true hroom
      obtain ⟨n, -, hstate⟩ := brk_state hrefused hfailed
      simp only [allocUserLoop, halloc, forall_const] at hstate
      rw [hstate]
      refine ⟨Undone.withBrk hkept, fun hor => ?_⟩
      rw [withBrk_initBrk, hbrk t (hsame (hor.resolve_left hrefused).1)]
  | mmap addr len prot flags fd off =>
    have hbump : ¬ FromBump addr len flags fd := hwhen.elim And.left And.left
    obtain ⟨hunmoved, haligned⟩ := mmapTarget_unmoved s hbump
    rw [undone_mmap_iff hbump]
    by_cases hrefused : Refused fb s (.mmap addr len prot flags fd off)
    · rw [mmap_state, hunmoved, hrefused.2.run_eq]
      exact ⟨KeptByFailure.refl _, fun _ => rfl⟩
    · obtain ⟨hkept, hsame⟩ := (hwhen.resolve_left hrefused).2.kept fb hsp hcr3 haligned
      refine ⟨hkept, fun hor => ?_⟩
      obtain ⟨hnone, hfb⟩ := hor.resolve_left hrefused
      rw [mmap_state, hunmoved, hsame hnone fun h => hfb (isFramebuffer_mmapTarget s h)]

omit hfailed in
lemma run_cr3 (hout : fb.Outside A) : (c.run fb s).2.machine.cr3 = s.machine.cr3 := by
  cases c with
  | brk addr =>
    rw [run]
    rcases sysBrk_cases s addr with hsame | ⟨-, hmachine⟩
    · rw [hsame]
    · obtain ⟨_, _, -, hrun⟩ := brkMachine_run addr hsp hcr3
      rw [hmachine]
      exact (hrun.maps hsp.manages).moves.cr3_eq
  | mmap addr len prot flags fd off =>
    obtain ⟨_, hrun⟩ := MmapTarget.run_maps hsp hcr3 hout (mmapTarget s addr len flags fd).1
    rw [run, sysMmap_machine]
    exact (hrun.maps hsp.manages).moves.cr3_eq

lemma cases_of_undone (hout : fb.Outside A) (hfits : fb.pages ≤ 2 ^ 36)
    (hundone : Undone s (c.run fb s).2) :
    c.Refused fb s ∨ c.FirstFails s ∨ c.Remaps fb s := by
  cases c with
  | brk addr =>
    by_contra hnot
    simp only [not_or] at hnot
    obtain ⟨hrefused, hroom, -⟩ := hnot
    obtain ⟨n, hmachine, -⟩ := brk_state hrefused hfailed
    have hkept := hundone.machine
    rw [hmachine] at hkept
    exact allocUserLoop_changes hsp hcr3 ((aligned_iff _).mpr (pageUp_aligned _)) n hroom hkept
  | mmap addr len prot flags fd off =>
    have hbump : ¬ FromBump addr len flags fd := by
      intro hbump
      have hfb := hundone.fbBump
      have hanon := hundone.anonBump
      have hanon2 := hundone.anonBump2
      rw [mmap_state] at hfb hanon hanon2
      exact hbump.moved s ⟨hfb, hanon, hanon2⟩
    have hkept := (undone_mmap_iff hbump prot off).mp hundone
    rcases MmapTarget.cases_of_kept hsp hcr3 hout hfits (mmapTarget_unmoved s hbump).2 hkept with
      h | h | h
    · exact .inl ⟨hbump, h⟩
    · exact .inr (.inl ⟨hbump, h⟩)
    · exact .inr (.inr h)

end Calls

end AllocCall

def emptyTasks (total : ℕ) : MemSystem where
  machine := emptyMachine 1 total
  fbBump := userBase + 0x1000000#64
  anonBump := userBase + 0x2000000#64
  anonBump2 := userBase + 0x2800000#64
  tasks := fun _ => ⟨frameAddr 1, 0#64, 0#64⟩

end HelixOS
