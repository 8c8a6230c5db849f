import HelixOS.MappingPages

/-!
# What `paging_unmap_4k` does to an address space

Removing a user page clears its leaf and then every table that has become empty.  Each of
these up to four writes clears one slot and gives back exactly the frames the slot referred
to.
-/

namespace HelixOS

open RadixMemory

variable {A : Set ℕ}

/-- From `s` to `t` the page table `root` has lost entries, and every managed
frame that lost a reference has been given back. -/
structure Shrinks (A : Set ℕ) (s t : Machine) (root : ℕ) : Prop where
  manages : t.pmm.Manages A
  total_eq : t.pmm.total = s.pmm.total
  cr3_eq : t.cr3 = s.cr3
  kernel_eq : t.kernelPml4 = s.kernelPml4
  space : SpaceOk A t.mem root
  tabs_le : ∀ g, tabsOf t.mem root g ≤ tabsOf s.mem root g
  refs : ∀ g ∈ A, refsOf t.mem root g + s.pmm.usedCount g =
    refsOf s.mem root g + t.pmm.usedCount g
  frame : ∀ g, tabsOf s.mem root g = 0 → t.mem g = s.mem g

section Shrinking

variable {s t u : Machine} {root : ℕ}

lemma Shrinks.refl (hsp : SpaceIn A s root) : Shrinks A s s root :=
  ⟨hsp.manages, rfl, rfl, rfl, hsp.ok, fun _ => le_rfl, fun _ _ => rfl, fun _ _ => rfl⟩

lemma Shrinks.spaceIn (hshr : Shrinks A s t root) (hsp : SpaceIn A s root) :
    SpaceIn A t root := by
  refine ⟨hshr.space, fun g hg => hsp.tables g ?_, fun g hg => ?_, hshr.manages⟩
  · have := hshr.tabs_le g
    omega
  · have hcount := hshr.refs g hg
    have hle := hsp.refs_le g hg
    omega

lemma Shrinks.trans (hst : Shrinks A s t root) (htu : Shrinks A t u root) :
    Shrinks A s u root := by
  refine ⟨htu.manages, htu.total_eq.trans hst.total_eq, htu.cr3_eq.trans hst.cr3_eq,
    htu.kernel_eq.trans hst.kernel_eq, htu.space, fun g => (htu.tabs_le g).trans (hst.tabs_le g),
    fun g hg => ?_, fun g hzero => ?_⟩
  · have h₁ := hst.refs g hg
    have h₂ := htu.refs g hg
    omega
  · have hle := hst.tabs_le g
    rw [htu.frame g (by omega), hst.frame g hzero]

end Shrinking

/-! ## Clearing one slot -/

section Clearing

variable {s t : Machine} {root : ℕ} {virt : Word} {l : ℕ} {q : Word} {f : ℕ}

lemma shrinks_of_clear (hsp : SpaceIn A s root)
    (hreach : ReachSlot s.mem virt root l q f)
    (hmem : t.mem = setEntry s.mem f (tableIndex virt l) 0#64)
    (hman : t.pmm.Manages A) (htotal : t.pmm.total = s.pmm.total)
    (hcr3 : t.cr3 = s.cr3) (hkernel : t.kernelPml4 = s.kernelPml4)
    (hused : ∀ g ∈ A, t.pmm.usedCount g +
      entrySum pteFormat (refWeight g) s.mem l (s.mem f (tableIndex virt l)) =
        s.pmm.usedCount g) : Shrinks A s t root := by
  have hwrite : SlotWrite pteFormat s.mem t.mem (tableIndex virt) 3 root l f := by
    rw [hmem]
    exact slotWrite_setEntry hreach (fun _ _ => rfl) _
  have hslot : t.mem f (tableIndex virt l) = 0#64 := by
    rw [hmem, setEntry_same]
  refine ⟨hman, htotal, hcr3, hkernel, ?_, fun g => ?_, fun g hg => ?_, fun g hzero => ?_⟩
  · apply hsp.ok.slot hreach hwrite
    · rw [hslot]
      exact entryAll_of_absent _ l (zero_hasFlag _)
    · intro g hne
      rw [hslot, entryTabs_absent (zero_hasFlag _)] at hne
      exact absurd rfl hne
  · have hsum := tabsOf_slot hsp.ok.unshared hreach hwrite g
    rw [hslot, entryTabs_absent (zero_hasFlag _)] at hsum
    omega
  · have hsum := refsOf_slot hsp.ok hreach hwrite g
    rw [hslot, entryRefs_absent (zero_hasFlag _)] at hsum
    have := hused g hg
    omega
  · rw [hmem, setEntry_frame_ne]
    rintro rfl
    exact hreach.tabs_ne_zero hzero

lemma clearLeaf_shrinks (hsp : SpaceIn A s root) (hreach : ReachSlot s.mem virt root 0 q f)
    (hpresent : hasFlag (s.mem f (tableIndex virt 0)) pteP = true)
    (huser : hasFlag (s.mem f (tableIndex virt 0)) pteU = true) :
    let t : Machine := { s with
      pmm := pmmPageDeref s.pmm (s.mem f (tableIndex virt 0) &&& pteAddr) }
    let t' := t.setEntry f (tableIndex virt 0) 0#64
    Shrinks A s t' root := by
  intro t t'
  set w := s.mem f (tableIndex virt 0) with hw
  have hframe : frameOf (w &&& pteAddr) = frameOf w % 2 ^ 40 := leafFrame_zero w virt
  have hweight := entryRefs_user_leaf hpresent huser s.mem
  by_cases hmanaged : frameOf w % 2 ^ 40 ∈ A
  · -- the leaf is a reference to its frame, so the frame is in use
    have hused : s.pmm.used (frameOf w % 2 ^ 40) = true := by
      have hle := hsp.refs_le _ hmanaged
      have hslot : entrySum pteFormat (refWeight (frameOf w % 2 ^ 40)) s.mem 0 w = 1 := by
        rw [hweight, if_pos rfl]
      have hwrite : SlotWrite pteFormat s.mem (setEntry s.mem f (tableIndex virt 0) 0#64)
          (tableIndex virt) 3 root 0 f :=
        slotWrite_setEntry hreach (fun _ _ => rfl) _
      have hsum := refsOf_slot hsp.ok hreach hwrite (frameOf w % 2 ^ 40)
      rw [setEntry_same, entryRefs_absent (zero_hasFlag _), ← hw, hslot] at hsum
      exact Pmm.usedCount_pos.mp (by omega)
    have hrel := pmmPageDeref_releases hsp.manages hframe hmanaged hused
    refine shrinks_of_clear hsp hreach rfl hrel.manages hrel.total_eq rfl rfl fun g _ => ?_
    rw [← hw, hweight]
    exact hrel.count g
  · have hkeep : pmmPageDeref s.pmm (w &&& pteAddr) = s.pmm :=
      pmmPageDeref_reserved hsp.manages (by rwa [hframe])
    have hpmm : t'.pmm = s.pmm := hkeep
    refine shrinks_of_clear hsp hreach rfl (by rw [hpmm]; exact hsp.manages) (by rw [hpmm])
      rfl rfl fun g hg => ?_
    rw [hpmm, ← hw, hweight, if_neg, add_zero]
    rintro rfl
    exact hmanaged hg

lemma tableCountPresent_eq_zero {m : Mem} {tab : ℕ} :
    tableCountPresent m tab = 0 ↔ ∀ j, hasFlag (m tab j) pteP = false := by
  unfold tableCountPresent
  rw [Finset.sum_eq_zero_iff]
  simp

lemma dropTable_shrinks (hsp : SpaceIn A s root) (hreach : ReachSlot s.mem virt root (l + 1) q f)
    (htable : pteFormat.isTable (s.mem f (tableIndex virt (l + 1))) = true)
    (hempty : tableCountPresent s.mem (frameOf (s.mem f (tableIndex virt (l + 1)))) = 0) :
    Shrinks A s (s.dropTable f (tableIndex virt (l + 1))
      (frameOf (s.mem f (tableIndex virt (l + 1))))) root := by
  set sub := frameOf (s.mem f (tableIndex virt (l + 1))) with hsub
  rw [tableCountPresent_eq_zero] at hempty
  have hdown := hreach.down htable
  rw [pteFormat_target] at hdown
  have htabs : tabsOf s.mem root sub ≠ 0 := ReachSlot.tabs_ne_zero hdown
  have hmanaged := hsp.tables sub htabs
  have haddr : frameOf (frameAddr sub) = sub :=
    frameOf_frameAddr (by have := hsp.manages.lt hmanaged; omega)
  have hrel := pmmFreePage_releases hsp.manages haddr hmanaged (hsp.held htabs)
  have hweight : ∀ g, entrySum pteFormat (refWeight g) s.mem (l + 1)
      (s.mem f (tableIndex virt (l + 1))) = if sub = g then 1 else 0 := by
    intro g
    simp only [entrySum, htable, if_true, refWeight_succ, edgeWeight_table htable, pteFormat_target,
      ← hsub, entryRefs_absent (hempty _), Finset.sum_const_zero, add_zero]
  refine shrinks_of_clear hsp hreach rfl hrel.manages hrel.total_eq rfl rfl fun g _ => ?_
  rw [hweight]
  exact hrel.count g

end Clearing

/-! ## The tables on the way to a page -/

structure TablePath (m : Mem) (root : ℕ) (virt : Word) (pdpt pd pt : ℕ) : Prop where
  table₃ : pteFormat.isTable (m root (tableIndex virt 3)) = true
  pdpt_eq : frameOf (m root (tableIndex virt 3)) = pdpt
  table₂ : pteFormat.isTable (m pdpt (tableIndex virt 2)) = true
  pd_eq : frameOf (m pdpt (tableIndex virt 2)) = pd
  table₁ : pteFormat.isTable (m pd (tableIndex virt 1)) = true
  pt_eq : frameOf (m pd (tableIndex virt 1)) = pt

structure LeafPath (m : Mem) (root : ℕ) (virt : Word) (pdpt pd pt : ℕ) : Prop extends
    TablePath m root virt pdpt pd pt where
  present : hasFlag (m pt (tableIndex virt 0)) pteP = true
  user : hasFlag (m pt (tableIndex virt 0)) pteU = true

section Paths

variable {m m' : Mem} {s : Machine} {root pdpt pd pt l f : ℕ} {virt q : Word}

section

variable (hpath : TablePath m root virt pdpt pd pt)
include hpath

lemma TablePath.reach₂ : ReachSlot m virt root 2 (m root (tableIndex virt 3)) pdpt := by
  have hdown := (Reach.top : ReachSlot m virt root 3 rootWord root).down hpath.table₃
  rwa [pteFormat_target, hpath.pdpt_eq] at hdown

lemma TablePath.reach₁ : ReachSlot m virt root 1 (m pdpt (tableIndex virt 2)) pd := by
  have hdown := hpath.reach₂.down hpath.table₂
  rwa [pteFormat_target, hpath.pd_eq] at hdown

lemma TablePath.reach₀ : ReachSlot m virt root 0 (m pd (tableIndex virt 1)) pt := by
  have hdown := hpath.reach₁.down hpath.table₁
  rwa [pteFormat_target, hpath.pt_eq] at hdown

end

lemma setEntry_above (hun : Unshared pteFormat m 3 root) (hreach : ReachSlot m virt root l q f)
    (w : Word) {l' f' : ℕ} {q' : Word} (habove : ReachSlot m virt root l' q' f') (hl : l < l') :
    setEntry m f (tableIndex virt l) w f' = m f' :=
  (slotWrite_setEntry hreach (fun _ _ => rfl) w).above hreach hun habove hl

lemma TablePath.congr (hpath : TablePath m root virt pdpt pd pt) (h₃ : m' root = m root)
    (h₂ : m' pdpt = m pdpt) (h₁ : m' pd = m pd) : TablePath m' root virt pdpt pd pt := by
  obtain ⟨t₃, e₃, t₂, e₂, t₁, e₁⟩ := hpath
  exact ⟨by rwa [h₃], by rwa [h₃], by rwa [h₂], by rwa [h₂], by rwa [h₁], by rwa [h₁]⟩

lemma TablePath.write_leaf (hpath : TablePath m root virt pdpt pd pt)
    (hun : Unshared pteFormat m 3 root) (w : Word) :
    TablePath (setEntry m pt (tableIndex virt 0) w) root virt pdpt pd pt :=
  hpath.congr (setEntry_above hun hpath.reach₀ w Reach.top (by omega))
    (setEntry_above hun hpath.reach₀ w hpath.reach₂ (by omega))
    (setEntry_above hun hpath.reach₀ w hpath.reach₁ (by omega))

lemma freeEmptyTables_keeps {P : Machine → Prop}
    (hun : ∀ {t}, P t → Unshared pteFormat t.mem 3 root)
    (hdrop : ∀ {t l q f sub}, P t → ReachSlot t.mem virt root (l + 1) q f →
      pteFormat.isTable (t.mem f (tableIndex virt (l + 1))) = true →
      frameOf (t.mem f (tableIndex virt (l + 1))) = sub → tableCountPresent t.mem sub = 0 →
      P (t.dropTable f (tableIndex virt (l + 1)) sub))
    (hs : P s) (hpath : TablePath s.mem root virt pdpt pd pt) :
    P (freeEmptyTables s virt root pdpt pd pt) := by
  unfold freeEmptyTables
  by_cases hempty₀ : tableCountPresent s.mem pt = 0
  swap
  · rwa [if_pos hempty₀]
  rw [if_neg (not_not.mpr hempty₀)]
  have hs₁ := hdrop hs hpath.reach₁ hpath.table₁ hpath.pt_eq hempty₀
  have hself₃ := setEntry_above (hun hs) hpath.reach₁ 0#64 Reach.top (by omega)
  have hself₂ := setEntry_above (hun hs) hpath.reach₁ 0#64 hpath.reach₂ (by omega)
  set s₁ := s.dropTable pd (tableIndex virt 1) pt
  change s₁.mem root = s.mem root at hself₃
  change s₁.mem pdpt = s.mem pdpt at hself₂
  by_cases hempty₁ : tableCountPresent s₁.mem pd = 0
  swap
  · rwa [if_pos hempty₁]
  rw [if_neg (not_not.mpr hempty₁)]
  have htable₃ : pteFormat.isTable (s₁.mem root (tableIndex virt 3)) = true := by
    rw [hself₃]
    exact hpath.table₃
  have hreach₂ := (Reach.top : ReachSlot s₁.mem virt root 3 rootWord root).down htable₃
  rw [pteFormat_target, hself₃, hpath.pdpt_eq] at hreach₂
  have hs₂ : P (s₁.dropTable pdpt (tableIndex virt 2) pd) :=
    hdrop hs₁ hreach₂ (by rw [hself₂]; exact hpath.table₂) (by rw [hself₂, hpath.pd_eq]) hempty₁
  have hself₃' := setEntry_above (hun hs₁) hreach₂ 0#64 Reach.top (by omega)
  set s₂ := s₁.dropTable pdpt (tableIndex virt 2) pd
  have hentry : s₂.mem root = s.mem root := hself₃'.trans hself₃
  by_cases hempty₂ : tableCountPresent s₂.mem pdpt = 0
  swap
  · rwa [if_pos hempty₂]
  rw [if_neg (not_not.mpr hempty₂)]
  exact hdrop (l := 2) hs₂ Reach.top (by rw [hentry]; exact hpath.table₃)
    (by rw [hentry, hpath.pdpt_eq]) hempty₂

lemma freeEmptyTables_shrinks (hsp : SpaceIn A s root)
    (hpath : TablePath s.mem root virt pdpt pd pt) :
    Shrinks A s (freeEmptyTables s virt root pdpt pd pt) root := by
  refine freeEmptyTables_keeps (P := fun t => Shrinks A s t root) (fun h => h.space.unshared) ?_
    (Shrinks.refl hsp) hpath
  rintro t l q f _ hshr hreach htable rfl hempty
  exact hshr.trans (dropTable_shrinks (hshr.spaceIn hsp) hreach htable hempty)

lemma pagingUnmap4k_path (htop : hasFlag (s.mem (frameOf s.cr3) (tableIndex virt 3)) pteP = true →
      hasFlag (s.mem (frameOf s.cr3) (tableIndex virt 3)) ptePs = false) :
    pagingUnmap4k s virt = (false, s) ∨
    ∃ pdpt pd pt, LeafPath s.mem (frameOf s.cr3) virt pdpt pd pt ∧
      pagingUnmap4k s virt = (true, freeEmptyTables
        ({ s with pmm := pmmPageDeref s.pmm (s.mem pt (tableIndex virt 0) &&& pteAddr) }.setEntry
          pt (tableIndex virt 0) 0#64) virt (frameOf s.cr3) pdpt pd pt) := by
  unfold pagingUnmap4k
  simp only [tableFrame_eq]
  split_ifs with hcr3 h₃ h₂ hp₁ hps₁ hp₀ hU₀
  all_goals try exact Or.inl rfl
  simp only [Bool.not_eq_true', Bool.or_eq_true, not_or, Bool.not_eq_false] at h₃ h₂ hp₁ hp₀ hU₀
  refine Or.inr ⟨_, _, _, ⟨⟨?_, rfl, ?_, rfl, ?_, rfl⟩, hp₀, hU₀⟩, rfl⟩
  · simp [pteFormat_isTable, h₃, htop h₃]
  · simp [pteFormat_isTable, h₂]
  · simp [pteFormat_isTable, hp₁, hps₁]

lemma pagingUnmap4k_shrinks (hsp : SpaceIn A s (frameOf s.cr3)) (virt : Word) :
    Shrinks A s (pagingUnmap4k s virt).2 (frameOf s.cr3) := by
  rcases pagingUnmap4k_path ((hsp.ok.entries (tableIndex virt 3)).1.topTable rfl) with
    hrun | ⟨pdpt, pd, pt, hpath, hrun⟩ <;> rw [hrun]
  · exact Shrinks.refl hsp
  have hshr := clearLeaf_shrinks hsp hpath.reach₀ hpath.present hpath.user
  dsimp only
  exact hshr.trans (freeEmptyTables_shrinks (hshr.spaceIn hsp)
    (hpath.write_leaf hsp.ok.unshared 0#64))

end Paths

end HelixOS
