import HelixOS.AddressSpaceCreation
import HelixOS.UserRanges

/-!
# The life of an address space

A page table is cloned from the kernel template, loaded, used by mapping and unmapping
user ranges, and destroyed.  Every frame taken on the way is referred to by the page
table exactly once, so destroying it gives all of them back.
-/

namespace HelixOS

open RadixMemory LoopRules

variable {s : Machine} {A : Set ℕ}

/-! ## The clone -/

structure Cloned (A : Set ℕ) (s t : Machine) (source ct : ℕ) : Prop where
  taken : s.pmm.IsFree ct
  grows : s.pmm.Grows t.pmm
  frame : ∀ g, ¬ s.pmm.IsFree g → t.mem g = s.mem g
  space : SpaceIn A t ct
  refs : ∀ g, refsOf t.mem ct g + s.pmm.usedCount g = t.pmm.usedCount g
  view : ∀ v, pageView t.mem ct v = pageView s.mem source v

lemma LiveSpace.kernel_page {root : ℕ} (hlive : LiveSpace A s 0#64 root)
    {v : Word} {page : Mapping} (hpage : pageView s.mem root v = some page) :
    page.user = false := by
  unfold pageView at hpage
  rw [Option.map_eq_some_iff] at hpage
  obtain ⟨⟨w, k⟩, hfound, rfl⟩ := hpage
  by_contra huser
  have hup := entryLookup_user (hlive.ok (tableIndex v 3)) hfound
    (by simpa [viewLeaf, leafMapping] using huser)
  simp at hup

lemma LiveSpace.room_of_cost {p : Word} {root : ℕ}
    (hlive : LiveSpace A s p root) (hroom : topCost s.mem root ≤ s.pmm.freeCount) :
    s.pmm.freeCount ≠ 0 ∧ topNeed s.mem root ≤ s.pmm.freeCount := by
  refine ⟨?_, (topNeed_le_topCost hlive.ok).trans hroom⟩
  unfold topCost at hroom
  omega

lemma vmmCloneKernelPml4_cloned (hkernel : LiveSpace A s 0#64 (frameOf s.kernelPml4))
    (hman : s.pmm.Manages A) (hpos : s.pmm.freeCount ≠ 0)
    (hroom : topNeed s.mem (frameOf s.kernelPml4) ≤ s.pmm.freeCount) :
    ∃ ct t, vmmCloneKernelPml4 s = (frameAddr ct, t) ∧ frameAddr ct ≠ 0#64 ∧
      t.kernelPml4 = s.kernelPml4 ∧ Cloned A s t (frameOf s.kernelPml4) ct := by
  obtain ⟨hplace, hpages⟩ := (topNeed_le_iff s (frameOf s.kernelPml4)).mp hroom
  obtain ⟨ct, t, hmake, hne, htab⟩ :=
    makeTop_copied hkernel (hkernel.cloneTop (zero_hasFlag _)) hpos hplace
  refine ⟨ct, t, hmake, hne, htab.fresh.kernel_eq, htab.taken, htab.fresh.pmm, fun g hg =>
    htab.fresh.mem_of_not_free hg, htab.spaceIn hkernel.ok hman, htab.refsOf, fun v => ?_⟩
  cases hcopy : pageView t.mem ct v with
  | none =>
    by_contra hsource
    exact htab.pages_iff.mpr hpages v (fun h => hsource h.symm) hcopy
  | some copy =>
    obtain ⟨page, hpage, hwritable, huser, hframe, -⟩ := htab.pageView v copy hcopy
    have hkernelPage := hkernel.kernel_page hpage
    cases copy
    cases page
    simp_all

/-! ## A run of user operations -/

/-- What a task does to its pages. -/
inductive UserOp where
  | alloc (virt npages : Word) (writable : Bool)
  | unmap (virt len : Word)

def UserOp.run (s : Machine) : UserOp → Machine
  | .alloc virt npages writable => (vmmAllocUserPages s virt npages writable).2
  | .unmap virt len => vmmUnmapUserRange s virt len

/-- Pages are only allocated where no user page is mapped at that time. -/
def UserOp.Vacant (s : Machine) : UserOp → Prop
  | .alloc virt npages _ => npages.toNat ≤ 2 ^ 36 ∧
      ∀ v, InRange virt npages.toNat v → ∀ page, translate s.mem s.cr3 v = some page →
        page.user = false
  | .unmap _ _ => True

def AllVacant : Machine → List UserOp → Prop
  | _, [] => True
  | s, op :: ops => op.Vacant s ∧ AllVacant (op.run s) ops

lemma UserOp.run_moves {op : UserOp} (hsp : SpaceIn A s (frameOf s.cr3))
    (hcr3 : s.cr3 ≠ 0#64) (hvacant : op.Vacant s) :
    Moves A s (op.run s) (frameOf s.cr3) ∧ Balanced A s (op.run s) (frameOf s.cr3) := by
  cases op with
  | alloc virt npages writable =>
    obtain ⟨hn, hclear⟩ := hvacant
    obtain ⟨_, hrun⟩ := vmmAllocUserPages_run hsp hcr3 virt npages writable
    refine ⟨(hrun.maps hsp.manages).moves, hrun.balanced hn fun v hv g _ => ?_⟩
    have hview := translate_eq_pageView hsp.ok.entries v
    cases hpage : pageView s.mem (frameOf s.cr3) v with
    | none => rfl
    | some page => simp [userRef, hclear v hv page (hview.trans hpage)]
  | unmap virt len => exact vmmUnmapUserRange_moves hsp virt len

lemma run_moves (ops : List UserOp) (hsp : SpaceIn A s (frameOf s.cr3))
    (hcr3 : s.cr3 ≠ 0#64) (hvacant : AllVacant s ops) :
    Moves A s (ops.foldl UserOp.run s) (frameOf s.cr3) ∧
      Balanced A s (ops.foldl UserOp.run s) (frameOf s.cr3) := by
  induction ops generalizing s with
  | nil => exact ⟨Moves.refl hsp, fun _ _ => rfl⟩
  | cons op ops ih =>
    obtain ⟨hmove, hbalance⟩ := op.run_moves hsp hcr3 hvacant.1
    have heq := hmove.cr3_eq
    obtain ⟨hmoves, hbalances⟩ :=
      ih (heq.symm ▸ hmove.spaceIn hsp) (heq.symm ▸ hcr3) hvacant.2
    rw [heq] at hmoves hbalances
    exact ⟨hmove.trans hmoves hsp.manages, hbalance.trans hbalances⟩

def loadClone (s : Machine) : Machine :=
  let (pml4, s₁) := vmmCloneKernelPml4 s
  pagingSetPml4 s₁ pml4

lemma loadClone_cloned (hkernel : LiveSpace A s 0#64 (frameOf s.kernelPml4))
    (hman : s.pmm.Manages A) (hpos : s.pmm.freeCount ≠ 0)
    (hroom : topNeed s.mem (frameOf s.kernelPml4) ≤ s.pmm.freeCount) : (loadClone s).cr3 ≠ 0#64 ∧
    (loadClone s).kernelPml4 = s.kernelPml4 ∧
      (loadClone s).cr3 ≠ s.kernelPml4 ∧
      Cloned A s (loadClone s) (frameOf s.kernelPml4) (frameOf (loadClone s).cr3) := by
  obtain ⟨ct, t, hclone, hne, hkernelEq, hcloned⟩ :=
    vmmCloneKernelPml4_cloned hkernel hman hpos hroom
  have hframe : frameOf (frameAddr ct) = ct :=
    frameOf_frameAddr (by have := (hman.sound.free_bounds hcloned.taken).2; omega)
  have hload : loadClone s = { t with cr3 := frameAddr ct } := by
    simp [loadClone, hclone, pagingSetPml4, hne]
  rw [hload]
  refine ⟨hne, hkernelEq, fun heq => ?_, ?_⟩
  · have hroot : ct = frameOf s.kernelPml4 := hframe.symm.trans (congrArg frameOf heq)
    exact hkernel.held (hroot ▸ hcloned.taken)
  · have hsp := hcloned.space
    rw [hframe]
    exact ⟨hcloned.taken, hcloned.grows, hcloned.frame,
      ⟨hsp.ok, hsp.tables, hsp.refs_le, hsp.manages⟩, hcloned.refs, hcloned.view⟩

/-- A clone on which no frame has been lost is destroyed, with `cr3` loaded: the frames that
were free before the clone are free again, and those in use have kept their contents. -/
theorem Cloned.destroyed {c u : Machine} {source : ℕ} {root : Word} (hman : s.pmm.Manages A)
    (hcloned : Cloned A s c source (frameOf root)) (hmove : Moves A c u (frameOf root))
    (hbalance : Balanced A c u (frameOf root)) (hne : root ≠ 0#64)
    (hkernel : root ≠ c.kernelPml4) (cr3 : Word) :
    let t := vmmDestroyAddressSpace { u with cr3 := cr3 } root
    t.cr3 = cr3 ∧ (∀ g, t.pmm.IsFree g ↔ s.pmm.IsFree g) ∧
      ∀ g, ¬ s.pmm.IsFree g → t.mem g = s.mem g := by
  have hsp := hmove.spaceIn hcloned.space
  have hsp' : SpaceIn A { u with cr3 := cr3 } (frameOf root) :=
    ⟨hsp.ok, hsp.tables, hsp.refs_le, hsp.manages⟩
  have hdest := vmmDestroyAddressSpace_destroyed hsp' hne (by rw [hmove.kernel_eq]; exact hkernel)
  refine ⟨hdest.cr3_eq, hman.isFree_iff hdest.manages ?_ fun g hg => ?_, fun g hheld => ?_⟩
  · rw [hdest.total_eq, hmove.total_eq]
    exact hcloned.grows.total_eq
  · have hback : (vmmDestroyAddressSpace { u with cr3 := cr3 } root).pmm.usedCount g +
        refsOf u.mem (frameOf root) g = u.pmm.usedCount g := hdest.count g hg
    have hrun := hbalance g hg
    have hstart := hcloned.refs g
    omega
  · -- a frame in use before is none of the clone
    have hforeign : g ∈ A → refsOf c.mem (frameOf root) g = 0 := by
      intro hmem
      have hsum := hcloned.refs g
      have hone := c.pmm.usedCount_le g
      have hused : s.pmm.used g = true := by
        by_contra hnot
        exact hheld ⟨hman.below g hmem, by simpa using hnot⟩
      have := Pmm.usedCount_pos.mpr hused
      omega
    have hnot := hcloned.grows.not_free hheld
    have hstill := (hmove.foreign hcloned.space.manages hnot hforeign).2
    have hout : tabsOf u.mem (frameOf root) g = 0 := by
      by_contra htab
      have hle := tabsOf_le_refsOf u.mem (frameOf root) g
      have hzero := hstill (hmove.tables g htab)
      omega
    rw [hdest.frame g hout, hmove.frame g hnot hforeign, hcloned.frame g hheld]

/-- After any run on a fresh clone, destroying it makes free exactly the frames that were
free before the clone, and the tables of the kernel template are as they were. -/
theorem lifecycle_conserves_frames {s : Machine} {ops : List UserOp}
    (hkernel : LiveSpace A s 0#64 (frameOf s.kernelPml4)) (hman : s.pmm.Manages A)
    (hroom : topCost s.mem (frameOf s.kernelPml4) ≤ s.pmm.freeCount)
    (hvacant : AllVacant (loadClone s) ops) :
    let t := vmmDestroyAddressSpace (ops.foldl UserOp.run (loadClone s)) (loadClone s).cr3
    (∀ g, t.pmm.IsFree g ↔ s.pmm.IsFree g) ∧
      ∀ g, tabsOf s.mem (frameOf s.kernelPml4) g ≠ 0 → t.mem g = s.mem g := by
  obtain ⟨hpos, hneed⟩ := hkernel.room_of_cost hroom
  obtain ⟨hne, hkernelEq, hnotKernel, hcloned⟩ := loadClone_cloned hkernel hman hpos hneed
  obtain ⟨hmove, hbalance⟩ := run_moves ops hcloned.space hne hvacant
  obtain ⟨-, hfree, hframe⟩ := hcloned.destroyed hman hmove hbalance hne
    (by rw [hkernelEq]; exact hnotKernel) (ops.foldl UserOp.run (loadClone s)).cr3
  exact ⟨hfree, fun g hg => hframe g (hkernel.table_held hg)⟩

lemma path_unmapped {v : Word} (hv : pageNum v = pageNum 0x40000000#64) :
    pageView (pathMem (pteP ||| pteW)) 1 v = none := by
  have hslot := (sameSlot_zero_iff 0x40000000#64 v).mpr hv
  have htop : tableIndex v 3 = 0 := (hslot 3 (by decide) (by decide)).trans (by decide)
  have hnext : tableIndex v 2 = 1 := (hslot 2 (by decide) (by decide)).trans (by decide)
  have hentry : pathMem (pteP ||| pteW) 1 0 = 0x2003#64 := by decide
  have hempty : pathMem (pteP ||| pteW) (frameOf 0x2003#64) 1 = 0#64 := by decide
  have htable : pteFormat.isTable 0x2003#64 = true := by decide
  unfold pageView tableLookup
  rw [htop, hentry, entryLookup_table (l := 2) htable, hnext, hempty]
  simp [entryLookup, pteFormat_isTable]

section PathRun

/-- The kernel template with one page, and ten free frames. -/
def pathTemplate : Machine := pathMachine (pteP ||| pteW) 16

lemma pathTemplate_live :
    LiveSpace {g | 1 ≤ g ∧ g < 16} pathTemplate 0#64 (frameOf pathTemplate.kernelPml4) :=
  pathMachine_live (Or.inl rfl) (by decide) fun hU => absurd hU (by decide)

lemma pathTemplate_manages : pathTemplate.pmm.Manages {g | 1 ≤ g ∧ g < 16} :=
  pathMachine_manages (by decide)

lemma pathTemplate_root : frameOf pathTemplate.kernelPml4 = 1 := frameOf_frameAddr (by decide)

lemma pathTemplate_room :
    topCost pathTemplate.mem (frameOf pathTemplate.kernelPml4) ≤ pathTemplate.pmm.freeCount := by
  decide +kernel

def pathRun : List UserOp :=
  [.alloc 0x40000000#64 1#64 true, .unmap 0x40000000#64 4096#64]

lemma pathRun_vacant : AllVacant (loadClone pathTemplate) pathRun := by
  obtain ⟨hpos, hneed⟩ := pathTemplate_live.room_of_cost pathTemplate_room
  obtain ⟨-, -, -, hcloned⟩ :=
    loadClone_cloned pathTemplate_live pathTemplate_manages hpos hneed
  refine ⟨⟨by norm_num, fun v hv page hpage => ?_⟩, trivial, trivial⟩
  obtain ⟨i, hi, hnum⟩ := hv
  have hzero : i = 0 := Nat.lt_one_iff.mp hi
  have hpageNum : pageNum v = pageNum 0x40000000#64 := by
    rw [hnum, hzero, Nat.add_zero, Nat.mod_eq_of_lt (pageNum_lt _)]
  rw [translate_eq_pageView hcloned.space.ok.entries, hcloned.view, pathTemplate_root] at hpage
  exact absurd ((path_unmapped hpageNum).symm.trans hpage) (by simp)

theorem lifecycle_path :
    {g | (vmmDestroyAddressSpace (pathRun.foldl UserOp.run (loadClone pathTemplate))
      (loadClone pathTemplate).cr3).pmm.IsFree g} = {g | pathTemplate.pmm.IsFree g} :=
  Set.ext (lifecycle_conserves_frames pathTemplate_live pathTemplate_manages
    pathTemplate_room pathRun_vacant).1

end PathRun

end HelixOS
