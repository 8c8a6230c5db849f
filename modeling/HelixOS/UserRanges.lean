import HelixOS.UnmappingPages

/-!
# Mapping and unmapping user ranges

`vmm_alloc_user_pages` and `vmm_unmap_user_range` page by page.  What they do to the
rest of the system is one relation, `Moves`: frames change hands only between the
allocator and the loaded page table.
-/

namespace HelixOS

open RadixMemory BitVec

variable {writable : Bool} {x : Word} {va v : Word} {P : Word → Prop} {A : Set ℕ}

/-- Only frames that were free or belonged to the page table `root` have been written or have
changed hands; frames may be lost, but not given away. -/
structure Moves (A : Set ℕ) (s t : Machine) (root : ℕ) : Prop where
  manages : t.pmm.Manages A
  total_eq : t.pmm.total = s.pmm.total
  cr3_eq : t.cr3 = s.cr3
  kernel_eq : t.kernelPml4 = s.kernelPml4
  space : SpaceOk A t.mem root
  tables : ∀ g, tabsOf t.mem root g ≠ 0 → g ∈ A
  refs : ∀ g ∈ A, refsOf t.mem root g + s.pmm.usedCount g ≤
    refsOf s.mem root g + t.pmm.usedCount g
  frame : ∀ g, ¬ s.pmm.IsFree g → (g ∈ A → refsOf s.mem root g = 0) → t.mem g = s.mem g

def Balanced (A : Set ℕ) (s t : Machine) (root : ℕ) : Prop :=
  ∀ g ∈ A, refsOf t.mem root g + s.pmm.usedCount g =
    refsOf s.mem root g + t.pmm.usedCount g

/-- The frame `g` is in use, but not for a table of `root`. -/
def Held (s : Machine) (root g : ℕ) : Prop :=
  ¬ s.pmm.IsFree g ∧ tabsOf s.mem root g = 0

def KeepsHeld (s t : Machine) (root : ℕ) : Prop :=
  ∀ g, Held s root g → Held t root g ∧ t.mem g = s.mem g

section Moving

variable {s t u : Machine} {root : ℕ}

lemma Moves.refl (hsp : SpaceIn A s root) : Moves A s s root :=
  ⟨hsp.manages, rfl, rfl, rfl, hsp.ok, hsp.tables, fun _ _ => le_rfl, fun _ _ _ => rfl⟩

lemma Moves.spaceIn (hmove : Moves A s t root) (hsp : SpaceIn A s root) :
    SpaceIn A t root := by
  refine ⟨hmove.space, hmove.tables, fun g hg => ?_, hmove.manages⟩
  have hcount := hmove.refs g hg
  have hle := hsp.refs_le g hg
  omega

lemma Moves.foreign (hmove : Moves A s t root) (hman : s.pmm.Manages A) {g : ℕ}
    (hfree : ¬ s.pmm.IsFree g) (hrefs : g ∈ A → refsOf s.mem root g = 0) :
    ¬ t.pmm.IsFree g ∧ (g ∈ A → refsOf t.mem root g = 0) := by
  by_cases hg : g ∈ A
  · have hused : s.pmm.used g = true := by
      by_contra hnot
      exact hfree ⟨hman.below g hg, by simpa using hnot⟩
    have hone := Pmm.usedCount_pos.mpr hused
    have hcount := hmove.refs g hg
    have hzero := hrefs hg
    have hle := t.pmm.usedCount_le g
    refine ⟨?_, fun _ => by omega⟩
    rintro ⟨-, hunused⟩
    have : t.pmm.usedCount g = 0 := by simp [Pmm.usedCount, hunused]
    omega
  · exact ⟨fun hfree' => hg (hmove.manages.mem_of_free hfree'), fun h => absurd h hg⟩

lemma Moves.trans (hst : Moves A s t root) (htu : Moves A t u root)
    (hman : s.pmm.Manages A) : Moves A s u root := by
  refine ⟨htu.manages, htu.total_eq.trans hst.total_eq, htu.cr3_eq.trans hst.cr3_eq,
    htu.kernel_eq.trans hst.kernel_eq, htu.space, htu.tables, fun g hg => ?_,
    fun g hfree hrefs => ?_⟩
  · have h₁ := hst.refs g hg
    have h₂ := htu.refs g hg
    omega
  · obtain ⟨hfree', hrefs'⟩ := hst.foreign hman hfree hrefs
    rw [htu.frame g hfree' hrefs', hst.frame g hfree hrefs]

lemma Balanced.trans (hst : Balanced A s t root) (htu : Balanced A t u root) :
    Balanced A s u root := by
  intro g hg
  have h₁ := hst g hg
  have h₂ := htu g hg
  omega

lemma Shrinks.moves (hshr : Shrinks A s t root) (hsp : SpaceIn A s root) :
    Moves A s t root := by
  refine ⟨hshr.manages, hshr.total_eq, hshr.cr3_eq, hshr.kernel_eq, hshr.space,
    (hshr.spaceIn hsp).tables, fun g hg => (hshr.refs g hg).le, fun g _ hrefs => ?_⟩
  apply hshr.frame
  by_contra hne
  have hle := tabsOf_le_refsOf s.mem root g
  have := hrefs (hsp.tables g hne)
  omega

lemma Shrinks.balanced (hshr : Shrinks A s t root) : Balanced A s t root := hshr.refs

lemma KeepsHeld.refl (s : Machine) (root : ℕ) : KeepsHeld s s root :=
  fun _ hg => ⟨hg, rfl⟩

lemma KeepsHeld.trans (hst : KeepsHeld s t root) (htu : KeepsHeld t u root) :
    KeepsHeld s u root := by
  intro g hg
  obtain ⟨hheld, hsame⟩ := hst g hg
  obtain ⟨hheld', hsame'⟩ := htu g hheld
  exact ⟨hheld', hsame'.trans hsame⟩

lemma Grown.keepsHeld (hgrown : Grown A s t root) (hsp : SpaceIn A s root) :
    KeepsHeld s t root := by
  rintro g ⟨hfree, hzero⟩
  have hnone : tabsOf t.mem root g = 0 := by
    by_contra htab
    have hmem : g ∈ A := hgrown.tables hsp htab
    have hused : s.pmm.used g = true := by
      by_contra hnot
      exact hfree ⟨hsp.manages.below g hmem, by simpa using hnot⟩
    have hcount := hgrown.tabs g
    have hpos := Pmm.usedCount_pos.mpr hused
    have hone := t.pmm.usedCount_le g
    omega
  refine ⟨⟨?_, hnone⟩, hgrown.frame g hnone⟩
  rintro ⟨hlt, hunused⟩
  refine hfree ⟨hgrown.pmm.total_eq ▸ hlt, ?_⟩
  by_contra hused
  have := hgrown.pmm.used_mono g (by simpa using hused)
  simp [hunused] at this

/-- A frame the page table does not refer to holds something else. -/
theorem KeepsHeld.moves (hheld : KeepsHeld s t root) (hsp : SpaceIn A s root)
    (hsp' : SpaceIn A t root) (htotal : t.pmm.total = s.pmm.total) (hcr3 : t.cr3 = s.cr3)
    (hkernel : t.kernelPml4 = s.kernelPml4)
    (hrefs : ∀ g ∈ A, refsOf t.mem root g + s.pmm.usedCount g ≤
      refsOf s.mem root g + t.pmm.usedCount g) : Moves A s t root := by
  refine ⟨hsp'.manages, htotal, hcr3, hkernel, hsp'.ok, hsp'.tables, hrefs,
    fun g hfree hnone => (hheld g ⟨hfree, ?_⟩).2⟩
  by_contra htab
  have hle := tabsOf_le_refsOf s.mem root g
  have := hnone (hsp.tables g htab)
  omega

end Moving

/-! ## One user page -/

section AllocPage

variable {s : Machine} {root p : ℕ}

lemma SpaceIn.takeFrame (hsp : SpaceIn A s root) (hfree : s.pmm.IsFree p) :
    SpaceIn A (s.takeFrame p) root ∧
      (∀ g, tabsOf (s.takeFrame p).mem root g = tabsOf s.mem root g) ∧
      (∀ g, refsOf (s.takeFrame p).mem root g = refsOf s.mem root g) ∧
      ∀ v, pageView (s.takeFrame p).mem root v = pageView s.mem root v := by
  have hagree : ∀ g, tabsOf s.mem root g ≠ 0 → (s.takeFrame p).mem g = s.mem g :=
    update_agrees (fresh_tabs_zero hsp hfree) _
  have htabs : ∀ g, tabsOf (s.takeFrame p).mem root g = tabsOf s.mem root g :=
    fun g => tableTabs_congr g hagree
  have hrefs := fun g => refsOf_congr g hagree
  refine ⟨⟨hsp.ok.congr hagree, fun g hg => ?_, fun g hg => ?_, (Pmm.Grows.take hfree).manages
    hsp.manages⟩, htabs, hrefs, fun v => pageView_congr v hagree⟩
  · rw [htabs] at hg
    exact hsp.tables g hg
  · have hmono := (Pmm.Grows.take hfree).usedCount_le g
    have hle := hsp.refs_le g hg
    rw [hrefs]
    exact hle.trans hmono

lemma takeFrame_keepsHeld (hsp : SpaceIn A s root) (hfree : s.pmm.IsFree p) :
    KeepsHeld s (s.takeFrame p) root := by
  obtain ⟨-, htabs, -⟩ := hsp.takeFrame hfree
  rintro g ⟨hg, hzero⟩
  have hne : g ≠ p := by
    rintro rfl
    exact hg hfree
  refine ⟨⟨?_, by rw [htabs, hzero]⟩, s.takeFrame_of_ne hne⟩
  rintro ⟨hlt, hunused⟩
  exact hg ⟨hlt, by simpa [Pmm.take, Function.update, hne] using hunused⟩

structure MapsOne (A : Set ℕ) (s t : Machine) (root : ℕ) (va : Word) (page : Mapping) :
    Prop where
  moves : Moves A s t root
  pmm : s.pmm.Grows t.pmm
  held : KeepsHeld s t root
  user : page.user = true
  fresh : page.frame ∈ A → s.pmm.IsFree page.frame
  view : ∀ v, pageView t.mem root v =
    if pageNum v = pageNum va then some page else pageView s.mem root v
  refs : ∀ g ∈ A, refsOf t.mem root g + s.pmm.usedCount g +
    userRef (pageView s.mem root va) g = refsOf s.mem root g + t.pmm.usedCount g
  room : s.pmm.freeCount ≤ t.pmm.freeCount + 4

lemma newMapping_user (hp : p < 2 ^ 40) (writable) :
    newMapping (frameAddr p) (userFlags writable) = ⟨p, writable, true⟩ := by
  rw [newMapping, frameOf_frameAddr (by omega), Nat.mod_eq_of_lt hp]
  cases writable <;> rfl

lemma mapsOne_of_take {t : Machine} (hsp : SpaceIn A s root) (hfree : s.pmm.IsFree p)
    (hmaps : MapsPage A (s.takeFrame p) t root va (frameAddr p) (userFlags writable))
    (hroom : (s.takeFrame p).pmm.freeCount ≤ t.pmm.freeCount + 3) :
    MapsOne A s t root va ⟨p, writable, true⟩ := by
  obtain ⟨hsp₁, -, hrefs₁, hview₁⟩ := hsp.takeFrame hfree
  have hnew := newMapping_user (hsp.manages.lt (hsp.manages.mem_of_free hfree)) writable
  have htake : ∀ g, (s.takeFrame p).pmm.usedCount g = _ := Pmm.usedCount_take hfree
  have hcount : ∀ g ∈ A, refsOf t.mem root g + s.pmm.usedCount g +
      userRef (pageView s.mem root va) g = refsOf s.mem root g + t.pmm.usedCount g := by
    intro g hg
    have hsum := hmaps.refs g hg
    rw [hrefs₁, hview₁, hnew, htake] at hsum
    simp only [userRef, true_and] at hsum ⊢
    omega
  have hheld := (takeFrame_keepsHeld hsp hfree).trans (hmaps.keepsHeld hsp₁)
  have hle : ∀ g ∈ A, refsOf t.mem root g + s.pmm.usedCount g ≤
      refsOf s.mem root g + t.pmm.usedCount g := fun g hg => by
    have := hcount g hg
    omega
  have hsp' : SpaceIn A t root := by
    refine ⟨hmaps.space, fun g hg => hmaps.tables hsp₁ hg, fun g hg => ?_,
      hmaps.pmm.manages hsp₁.manages⟩
    have hold := hsp.refs_le g hg
    have := hle g hg
    omega
  refine ⟨hheld.moves hsp hsp' hmaps.pmm.total_eq hmaps.cr3_eq hmaps.kernel_eq hle,
    (Pmm.Grows.take hfree).trans hmaps.pmm, hheld, rfl, fun _ => hfree, fun v => ?_, hcount, ?_⟩
  · rw [hmaps.view, hview₁, hnew]
    simp only [sameSlot_zero_iff]
  · have htake := Pmm.freeCount_take hfree
    rw [s.takeFrame_pmm] at hroom
    omega

lemma MapsPage.one {t : Machine} {phys flags : Word} (hsp : SpaceIn A s root)
    (hmaps : MapsPage A s t root va phys flags) (huser : hasFlag flags pteU = true)
    (hout : frameOf phys % 2 ^ 40 ∉ A) (hroom : s.pmm.freeCount ≤ t.pmm.freeCount + 3) :
    MapsOne A s t root va (newMapping phys flags) := by
  have hcount : ∀ g ∈ A, refsOf t.mem root g + s.pmm.usedCount g +
      userRef (pageView s.mem root va) g = refsOf s.mem root g + t.pmm.usedCount g := by
    intro g hg
    have hsum := hmaps.refs g hg
    have hnew : userRef (some (newMapping phys flags)) g = 0 := by
      by_contra hne
      obtain ⟨page, heq, -, hframe⟩ := userRef_ne_zero hne
      obtain rfl := Option.some.inj heq
      exact hout (by rw [show frameOf phys % 2 ^ 40 = g from hframe]; exact hg)
    omega
  have hle : ∀ g ∈ A, refsOf t.mem root g + s.pmm.usedCount g ≤
      refsOf s.mem root g + t.pmm.usedCount g := fun g hg => by
    have := hcount g hg
    omega
  have hheld := hmaps.keepsHeld hsp
  refine ⟨hheld.moves hsp (hmaps.toGrown.spaceIn hsp hle) hmaps.pmm.total_eq hmaps.cr3_eq
    hmaps.kernel_eq hle, hmaps.pmm, hheld, huser, fun hmem => absurd hmem hout, fun v => ?_,
    hcount, by omega⟩
  rw [hmaps.view]
  simp only [sameSlot_zero_iff]

structure KeepsPages (A : Set ℕ) (s t : Machine) (root : ℕ) : Prop where
  moves : Moves A s t root
  held : KeepsHeld s t root
  balanced : Balanced A s t root
  view : ∀ v, pageView t.mem root v = pageView s.mem root v

lemma Extends.keepsPages {t : Machine} (hext : Extends A s t root) (hsp : SpaceIn A s root) :
    KeepsPages A s t root := by
  have hheld := hext.keepsHeld hsp
  exact ⟨hheld.moves hsp (hext.spaceIn hsp) hext.pmm.total_eq hext.cr3_eq hext.kernel_eq
    fun g hg => (hext.refs g hg).le, hheld, hext.refs, hext.view⟩

lemma KeepsPages.refl (hsp : SpaceIn A s root) : KeepsPages A s s root :=
  (Extends.refl hsp).keepsPages hsp

lemma isFree_of_freePage {s : Pmm} {p g : ℕ} (hp : p < 2 ^ 52) (hne : g ≠ p)
    (hfree : (pmmFreePage s (frameAddr p)).IsFree g) : s.IsFree g := by
  simp only [pmmFreePage, frameOf_frameAddr hp] at hfree
  split at hfree
  · exact hfree
  · split at hfree
    · exact hfree
    · exact ⟨hfree.1, by simpa [Function.update, hne] using hfree.2⟩

lemma keepsPages_of_extends {t : Machine} (hsp : SpaceIn A s root) (hfree : s.pmm.IsFree p)
    (hext : Extends A (s.takeFrame p) t root) :
    KeepsPages A s { t with pmm := pmmFreePage t.pmm (frameAddr p) } root := by
  obtain ⟨hsp₁, -, hrefs₁, hview₁⟩ := hsp.takeFrame hfree
  have hmem : p ∈ A := hsp.manages.mem_of_free hfree
  have hbound : p < 2 ^ 52 := by
    have := hsp.manages.lt hmem
    omega
  have hused : t.pmm.used p = true := by
    apply hext.pmm.used_mono
    simp [Pmm.take]
  have hsp₂ := hext.spaceIn hsp₁
  have hrel := pmmFreePage_releases hsp₂.manages (frameOf_frameAddr hbound) hmem hused
  have hcount : ∀ g ∈ A, refsOf t.mem root g + s.pmm.usedCount g =
      refsOf s.mem root g + (pmmFreePage t.pmm (frameAddr p)).usedCount g := by
    intro g hg
    have hsum := hext.refs g hg
    have htake : (s.takeFrame p).pmm.usedCount g = _ := Pmm.usedCount_take hfree g
    have hback := hrel.count g
    rw [hrefs₁, htake] at hsum
    omega
  have hheld : KeepsHeld s { t with pmm := pmmFreePage t.pmm (frameAddr p) } root := by
    intro g hg
    obtain ⟨hkept, hsame⟩ :=
      ((takeFrame_keepsHeld hsp hfree).trans (hext.keepsHeld hsp₁)) g hg
    have hgp : g ≠ p := by
      rintro rfl
      exact hg.1 hfree
    exact ⟨⟨fun hback => hkept.1 (isFree_of_freePage hbound hgp hback), hkept.2⟩, hsame⟩
  have hsp' : SpaceIn A { t with pmm := pmmFreePage t.pmm (frameAddr p) } root := by
    refine ⟨hsp₂.ok, hsp₂.tables, fun g hg => ?_, hrel.manages⟩
    have hle := hsp.refs_le g hg
    have := hcount g hg
    dsimp only
    omega
  refine ⟨hheld.moves hsp hsp' (hrel.total_eq.trans hext.pmm.total_eq) hext.cr3_eq hext.kernel_eq
    fun g hg => (hcount g hg).le, hheld, hcount, fun v => ?_⟩
  rw [← hview₁, ← hext.view]

lemma KeepsPages.kernel_of_huge {t : Machine} (hkeep : KeepsPages A s t root)
    (hhuge : HugeAt t.mem root va) :
    ∃ page, pageView s.mem root va = some page ∧ page.user = false := by
  obtain ⟨page, hpage, hkernel⟩ := hhuge.kernel hkeep.moves.space
  exact ⟨page, (hkeep.view va).symm.trans hpage, hkernel⟩

lemma allocUserPage_cases (hsp : SpaceIn A s (frameOf s.cr3)) (hcr3 : s.cr3 ≠ 0#64)
    (va) (writable) :
    (∃ t p, allocUserPage s va writable = (true, t) ∧ va &&& 0xFFF#64 = 0#64 ∧
      s.pmm.IsFree p ∧ MapsOne A s t (frameOf s.cr3) va ⟨p, writable, true⟩) ∨
    (∃ t, allocUserPage s va writable = (false, t) ∧ KeepsPages A s t (frameOf s.cr3) ∧
      (va &&& 0xFFF#64 ≠ 0#64 ∨ s.pmm.freeCount ≤ 3 ∨ HugeAt t.mem (frameOf s.cr3) va)) := by
  rcases allocZeroedPage_cases hsp.sound with
    ⟨p, hfree, hne, hframe, halloc⟩ | ⟨hnone, halloc⟩
  swap
  · right
    exact ⟨s, by simp [allocUserPage, halloc], KeepsPages.refl hsp, Or.inr (Or.inl (by omega))⟩
  obtain ⟨hsp₁, -⟩ := hsp.takeFrame hfree
  by_cases hvirt : va &&& 0xFFF#64 = 0#64
  · rcases pagingMap4k_cases hsp₁ hcr3 hvirt (frameAddr_aligned p) (userFlags writable) with
      ⟨t, hmap, hmaps, hroom⟩ | ⟨t, hmap, hext, hwhy⟩
    · left
      refine ⟨t, p, ?_, hvirt, hfree, mapsOne_of_take hsp hfree hmaps hroom⟩
      simp [allocUserPage, halloc, hne, hmap]
    · right
      refine ⟨_, by simp only [allocUserPage, halloc, hne, hmap, if_false]; rfl,
        keepsPages_of_extends hsp hfree hext, ?_⟩
      rcases hwhy with hfew | hhuge
      · have htake : s.pmm.freeCount = (s.takeFrame p).pmm.freeCount + 1 :=
          Pmm.freeCount_take hfree
        exact Or.inr (Or.inl (by omega))
      · exact Or.inr (Or.inr hhuge)
  · right
    have hmap : pagingMap4k (s.takeFrame p) va (frameAddr p) (userFlags writable) =
        (false, s.takeFrame p) := by
      simp only [pagingMap4k, show (s.takeFrame p).cr3 ≠ 0#64 from hcr3, if_false,
        if_pos (Or.inl hvirt)]
    exact ⟨_, by simp only [allocUserPage, halloc, hne, hmap, if_false]; rfl,
      keepsPages_of_extends hsp hfree (Extends.refl hsp₁), Or.inl hvirt⟩

end AllocPage

/-! ## Ranges of pages -/

lemma aligned_iff (x) : x &&& 0xFFF#64 = 0#64 ↔ x.toNat % 4096 = 0 := by
  rw [← toNat_inj, toNat_and]
  have hmask : x.toNat &&& (2 ^ 12 - 1) = x.toNat % 2 ^ 12 := Nat.and_two_pow_sub_one_eq_mod _ _
  norm_num at hmask ⊢
  rw [hmask]

def InRange (va : Word) (n : ℕ) (v : Word) : Prop :=
  ∃ i, i < n ∧ pageNum v = (pageNum va + i) % 2 ^ 36

lemma pageNum_lt (va) : pageNum va < 2 ^ 36 := Nat.mod_lt _ (by norm_num)

lemma pageNum_next (va) : pageNum (va + 4096#64) = (pageNum va + 1) % 2 ^ 36 := by
  unfold pageNum
  rw [toNat_add, show (4096#64 : Word).toNat = 4096 from rfl]
  omega

lemma inRange_first (va) (n : ℕ) (hv : pageNum v = pageNum va) :
    InRange va (n + 1) v :=
  ⟨0, by omega, by rw [hv, Nat.add_zero, Nat.mod_eq_of_lt (pageNum_lt va)]⟩

lemma inRange_next {n : ℕ} (hrange : InRange (va + 4096#64) n v) :
    InRange va (n + 1) v := by
  obtain ⟨i, hi, hv⟩ := hrange
  refine ⟨i + 1, by omega, ?_⟩
  rw [hv, pageNum_next]
  omega

lemma inRange_cases {n : ℕ} (hrange : InRange va (n + 1) v) :
    pageNum v = pageNum va ∨ InRange (va + 4096#64) n v := by
  obtain ⟨i, hi, hv⟩ := hrange
  cases i with
  | zero => exact Or.inl (by rw [hv, Nat.add_zero, Nat.mod_eq_of_lt (pageNum_lt va)])
  | succ i =>
    refine Or.inr ⟨i, by omega, ?_⟩
    rw [hv, pageNum_next]
    omega

lemma InRange.ne_first {n : ℕ} (hrange : InRange (va + 4096#64) n v)
    (hn : n < 2 ^ 36) : pageNum v ≠ pageNum va := by
  obtain ⟨i, hi, hv⟩ := hrange
  rw [hv, pageNum_next]
  omega

structure MapsWithin (A : Set ℕ) (s t : Machine) (root : ℕ) (P : Word → Prop) : Prop where
  moves : Moves A s t root
  held : KeepsHeld s t root
  view : ∀ v, ¬ P v → pageView t.mem root v = pageView s.mem root v

lemma KeepsPages.maps {s t : Machine} {root : ℕ} (hkeep : KeepsPages A s t root) :
    MapsWithin A s t root P :=
  ⟨hkeep.moves, hkeep.held, fun v _ => hkeep.view v⟩

lemma MapsWithin.mono {s t : Machine} {root : ℕ} {Q : Word → Prop}
    (hst : MapsWithin A s t root P) (hPQ : ∀ v, P v → Q v) : MapsWithin A s t root Q :=
  ⟨hst.moves, hst.held, fun v hv => hst.view v fun h => hv (hPQ v h)⟩

/-- A loop that maps one user page a round, and may stop at a misaligned address, without memory,
or at a kernel page. -/
inductive MapRun (A : Set ℕ) (root : ℕ) : ℕ → Word → Machine → Bool × Machine → Prop
  | done {va : Word} {s t : Machine} (hkeep : KeepsPages A s t root) :
      MapRun A root 0 va s (true, t)
  | stop {n : ℕ} {va : Word} {s t : Machine} (hkeep : KeepsPages A s t root)
      (hwhy : va &&& 0xFFF#64 ≠ 0#64 ∨ s.pmm.freeCount ≤ 3 ∨ HugeAt t.mem root va) :
      MapRun A root (n + 1) va s (false, t)
  | next {n : ℕ} {va : Word} {s t : Machine} {r : Bool × Machine} {page : Mapping}
      (hva : va &&& 0xFFF#64 = 0#64) (hone : MapsOne A s t root va page)
      (hrest : MapRun A root n (va + 4096#64) t r) : MapRun A root (n + 1) va s r

section MapRuns

variable {s t : Machine} {root n : ℕ} {r : Bool × Machine}

lemma MapRun.maps (hrun : MapRun A root n va s r) (hman : s.pmm.Manages A) :
    MapsWithin A s r.2 root (InRange va n) := by
  induction hrun with
  | done hkeep => exact hkeep.maps
  | stop hkeep => exact hkeep.maps
  | @next n va s t r page _ hone _ ih =>
    have hrest := ih hone.moves.manages
    refine ⟨hone.moves.trans hrest.moves hman, hone.held.trans hrest.held, fun v hv => ?_⟩
    rw [hrest.view v fun h => hv (inRange_next h), hone.view,
      if_neg fun h => hv (inRange_first va n h)]

lemma MapRun.balanced (hrun : MapRun A root n va s r) (hn : n ≤ 2 ^ 36)
    (hclear : ∀ v, InRange va n v → ∀ g ∈ A, userRef (pageView s.mem root v) g = 0) :
    Balanced A s r.2 root := by
  induction hrun with
  | done hkeep => exact hkeep.balanced
  | stop hkeep => exact hkeep.balanced
  | @next n va s t r page _ hone _ ih =>
    refine Balanced.trans (fun g hg => ?_) (ih (by omega) fun v hv g hg => ?_)
    · have hsum := hone.refs g hg
      rwa [hclear va (inRange_first va n rfl) g hg, Nat.add_zero] at hsum
    · rw [hone.view, if_neg (hv.ne_first hn)]
      exact hclear v (inRange_next hv) g hg

lemma allocUserLoop_run (writable) (n : ℕ) (va)
    (hsp : SpaceIn A s (frameOf s.cr3)) (hcr3 : s.cr3 ≠ 0#64) :
    MapRun A (frameOf s.cr3) n va s (allocUserLoop writable n va s) := by
  induction n generalizing va s with
  | zero => exact .done (KeepsPages.refl hsp)
  | succ n ih =>
    rcases allocUserPage_cases hsp hcr3 va writable with
      ⟨t, p, hpage, hva, -, hone⟩ | ⟨t, hpage, hkeep, hwhy⟩
    · have hcr3' := hone.moves.cr3_eq
      have hrest := ih (va + 4096#64) (hcr3'.symm ▸ hone.moves.spaceIn hsp) (hcr3'.symm ▸ hcr3)
      rw [hcr3'] at hrest
      simp only [allocUserLoop, hpage]
      exact .next hva hone hrest
    · simp only [allocUserLoop, hpage]
      exact .stop hkeep hwhy

lemma vmmAllocUserPages_run (hsp : SpaceIn A s (frameOf s.cr3)) (hcr3 : s.cr3 ≠ 0#64)
    (virt npages : Word) (writable) :
    ∃ ok, MapRun A (frameOf s.cr3) npages.toNat virt s
      (ok, (vmmAllocUserPages s virt npages writable).2) := by
  unfold vmmAllocUserPages
  split
  · subst npages
    exact ⟨true, .done (KeepsPages.refl hsp)⟩
  · exact ⟨_, allocUserLoop_run writable _ virt hsp hcr3⟩

end MapRuns

/-! ## Loops over pages -/

def PagesOf (lo hi : ℕ) (v : Word) : Prop :=
  ∃ w : Word, pageNum v = pageNum w ∧ lo ≤ w.toNat ∧ w.toNat < hi

lemma pageDown_toNat (x) : (pageDown x).toNat = x.toNat / 4096 * 4096 :=
  BitMasks.toNat_and_not_low x 12

lemma pageUp_toNat (x) : (pageUp x).toNat = (x.toNat + 4095) % 2 ^ 64 / 4096 * 4096 := by
  have hmask : (pageUp x).toNat = (x + 4096#64 - 1#64).toNat / 4096 * 4096 :=
    BitMasks.toNat_and_not_low _ 12
  rw [hmask, toNat_sub, toNat_add, show (4096#64 : Word).toNat = 4096 from rfl,
    show (1#64 : Word).toNat = 1 from rfl]
  omega

lemma toNat_next {stop : Word} (hva : va.toNat % 4096 = 0) (hstop : stop.toNat % 4096 = 0)
    (hlt : va.toNat < stop.toNat) : (va + 4096#64).toNat = va.toNat + 4096 := by
  rw [toNat_add, show (4096#64 : Word).toNat = 4096 from rfl]
  omega

lemma forPages_invariant {σ : Type*} {body : σ → Word → Bool × σ} {stop : Word} {P : σ → Prop}
    {fuel : ℕ} {s : σ} (hstep : ∀ s v, P s → P (body s v).2) (hs : P s) :
    P (forPages body stop fuel va s).2 := by
  induction fuel generalizing va s with
  | zero => exact hs
  | succ fuel ih =>
    unfold forPages
    split
    · have hfirst := hstep s va hs
      generalize body s va = result at hfirst
      obtain ⟨ok, s₁⟩ := result
      cases ok with
      | false => exact hfirst
      | true => exact ih hfirst
    · exact hs

/-! ## Unmapping -/

lemma vmmUnmapUserRange_moves {s : Machine} (hsp : SpaceIn A s (frameOf s.cr3))
    (virt len : Word) :
    Moves A s (vmmUnmapUserRange s virt len) (frameOf s.cr3) ∧
      Balanced A s (vmmUnmapUserRange s virt len) (frameOf s.cr3) := by
  refine forPages_invariant (P := fun t => Moves A s t (frameOf s.cr3) ∧
    Balanced A s t (frameOf s.cr3)) ?_ ⟨Moves.refl hsp, fun _ _ => rfl⟩
  rintro t v ⟨hmoves, hbalanced⟩
  have hsp' := hmoves.spaceIn hsp
  have hstep := pagingUnmap4k_shrinks (hmoves.cr3_eq.symm ▸ hsp') v
  rw [hmoves.cr3_eq] at hstep
  exact ⟨hmoves.trans (hstep.moves hsp') hsp.manages, hbalanced.trans hstep.balanced⟩

end HelixOS
