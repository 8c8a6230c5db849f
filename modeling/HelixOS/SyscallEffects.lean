import HelixOS.MemorySyscalls
import HelixOS.UserRanges

/-!
# What the memory system calls do to the page table

The pages each call can touch, for every argument, and the frames that are lost when a
call maps over a page that is already mapped.
-/

namespace HelixOS

open RadixMemory BitVec

variable {va v phys addr : Word} {A : Set ℕ}

/-! ## Single calls -/

section Calls

variable {s : Machine}

lemma vmmAllocUserPages_one (s : Machine) (va) (writable : Bool) :
    vmmAllocUserPages s va 1#64 writable = allocUserPage s va writable := by
  have hloop : allocUserLoop writable 1 va s = allocUserPage s va writable := by
    simp only [allocUserLoop]
    generalize allocUserPage s va writable = result
    obtain ⟨ok, t⟩ := result
    cases ok <;> rfl
  rw [vmmAllocUserPages, if_neg (by decide)]
  exact hloop

lemma InRange.pagesOf {n hi : ℕ} (hva : va.toNat % 4096 = 0)
    (hhi : va.toNat + 4096 * n ≤ hi) (hlow : hi < 2 ^ 64) (hv : InRange va n v) :
    PagesOf va.toNat hi v := by
  obtain ⟨i, hi', hv⟩ := hv
  have hnum : (va + BitVec.ofNat 64 (4096 * i)).toNat = va.toNat + 4096 * i := by
    rw [toNat_add, toNat_ofNat]
    omega
  refine ⟨va + BitVec.ofNat 64 (4096 * i), ?_, by omega, by omega⟩
  rw [hv]
  unfold pageNum
  rw [hnum]
  omega

lemma brkLoop_eq {old neu : Word} (hold : old.toNat % 4096 = 0) (hneu : neu.toNat % 4096 = 0) :
    forPages (fun m va => vmmAllocUserPages m va 1#64 true) neu (pagesBetween old neu) old s =
      allocUserLoop true ((neu.toNat - old.toNat) / 4096) old s := by
  by_cases hlt : old < neu
  swap
  · have hle : neu.toNat - old.toNat = 0 := by
      rw [lt_def] at hlt
      omega
    rw [hle]
    cases pagesBetween old neu with
    | zero => rfl
    | succ fuel => rw [forPages, if_neg hlt]; rfl
  have hcount : pagesBetween old neu = (neu.toNat - old.toNat) / 4096 := by
    rw [lt_def] at hlt
    rw [pagesBetween, toNat_sub]
    omega
  rw [hcount]
  clear hcount hlt
  induction hn : (neu.toNat - old.toNat) / 4096 generalizing old s with
  | zero => rfl
  | succ n ih =>
    have hlt : old.toNat < neu.toNat := by omega
    have hnext := toNat_next hold hneu hlt
    rw [forPages, if_pos (lt_def.mpr hlt), vmmAllocUserPages_one, allocUserLoop]
    generalize allocUserPage s old true = result
    obtain ⟨ok, t⟩ := result
    cases ok with
    | false => rfl
    | true => exact ih (by omega) (by omega)

def physFrame (phys : Word) (i : ℕ) : ℕ := frameOf (phys + BitVec.ofNat 64 i * 4096#64) % 2 ^ 40

lemma physFrame_zero (phys) : physFrame phys 0 = frameOf phys % 2 ^ 40 := by
  simp [physFrame]

lemma physFrame_next (phys) (i : ℕ) :
    physFrame (phys + 4096#64) i = physFrame phys (i + 1) := by
  have heq : phys + 4096#64 + BitVec.ofNat 64 i * 4096#64 =
      phys + BitVec.ofNat 64 (i + 1) * 4096#64 := by
    apply eq_of_toNat_eq
    simp only [toNat_add, toNat_mul, toNat_ofNat]
    omega
  rw [physFrame, physFrame, heq]

lemma aligned_next {x : Word} (hx : x &&& 0xFFF#64 = 0#64) :
    (x + 4096#64) &&& 0xFFF#64 = 0#64 := by
  rw [aligned_iff] at hx ⊢
  rw [toNat_add]
  norm_num
  omega

lemma fbMapLoop_run (n : ℕ) (hsp : SpaceIn A s (frameOf s.cr3))
    (hcr3 : s.cr3 ≠ 0#64) (hva : va &&& 0xFFF#64 = 0#64) (hphys : phys &&& 0xFFF#64 = 0#64)
    (hout : ∀ i, i < n → physFrame phys i ∉ A) :
    MapRun A (frameOf s.cr3) n va s (fbMapLoop n va phys s) := by
  induction n generalizing va phys s with
  | zero => exact .done (KeepsPages.refl hsp)
  | succ n ih =>
    rcases pagingMap4k_cases hsp hcr3 hva hphys (pteP ||| pteU ||| pteW) with
      ⟨t, hmap, hmaps, hroom⟩ | ⟨t, hmap, hext, hwhy⟩
    · have hzero := hout 0 (by omega)
      rw [physFrame_zero] at hzero
      have hone := hmaps.one hsp (by decide) hzero hroom
      have hcr3' := hone.moves.cr3_eq
      have hrest := ih (hcr3'.symm ▸ hone.moves.spaceIn hsp) (hcr3'.symm ▸ hcr3)
        (aligned_next hva) (aligned_next hphys) fun i hi => by
          rw [physFrame_next]
          exact hout (i + 1) (by omega)
      rw [hcr3'] at hrest
      simp only [fbMapLoop, hmap]
      exact .next hva hone hrest
    · simp only [fbMapLoop, hmap]
      exact .stop (hext.keepsPages hsp) (Or.inr (hwhy.imp_left fun hfew => by omega))

end Calls

/-! ## The calls on the state of a task -/

section States

variable {s : MemState}

@[simp] lemma initBrk_machine (s : MemState) : s.initBrk.machine = s.machine := by
  unfold MemState.initBrk
  split <;> rfl

def brkMachine (s : MemState) (addr : Word) : Machine :=
  (forPages (fun m va => vmmAllocUserPages m va 1#64 true) (pageUp addr)
    (pagesBetween (pageUp s.initBrk.brkCurr) (pageUp addr)) (pageUp s.initBrk.brkCurr)
    s.machine).2

lemma sysBrk_cases (s : MemState) (addr) : (sysBrk s addr).2.machine = s.machine ∨
      addr < brkCeiling s.initBrk.brkStart ∧
        (sysBrk s addr).2.machine = brkMachine s addr := by
  simp only [sysBrk]
  split
  · exact Or.inl (initBrk_machine s)
  · split
    · exact Or.inl (initBrk_machine s)
    · split
      · exact Or.inl (initBrk_machine s)
      · rename_i hhigh
        refine Or.inr ⟨by simpa using hhigh, ?_⟩
        rw [brkMachine, ← initBrk_machine s]
        split <;> rfl

lemma brkCeiling_lt (brkStart : Word) : (brkCeiling brkStart).toNat < 0x44000000 := by
  unfold brkCeiling
  split <;> decide

lemma pageUp_brk_lt {brkStart : Word} (hlt : addr < brkCeiling brkStart) :
    (pageUp addr).toNat < 2 ^ 48 := by
  have hceil := brkCeiling_lt brkStart
  rw [lt_def] at hlt
  rw [pageUp_toNat]
  omega

lemma pageUp_aligned (x : Word) : (pageUp x).toNat % 4096 = 0 := by
  rw [pageUp_toNat]
  omega

lemma brkMachine_run (addr) (hsp : SpaceIn A s.machine (frameOf s.machine.cr3))
    (hcr3 : s.machine.cr3 ≠ 0#64) :
    ∃ n ok, (n = 0 ∨ (pageUp s.initBrk.brkCurr).toNat + 4096 * n = (pageUp addr).toNat) ∧
      MapRun A (frameOf s.machine.cr3) n (pageUp s.initBrk.brkCurr) s.machine
        (ok, brkMachine s addr) := by
  have hold := pageUp_aligned s.initBrk.brkCurr
  have hneu := pageUp_aligned addr
  rw [brkMachine, brkLoop_eq hold hneu]
  refine ⟨_, _, ?_, allocUserLoop_run true _ _ hsp hcr3⟩
  omega

def MmapTarget.run (fb : Framebuffer) (m : Machine) : MmapTarget → Machine
  | .nothing _ => m
  | .framebuffer va => (fbMapUser fb m va).2
  | .anonymous va npages => (vmmAllocUserPages m va npages true).2

lemma sysMmap_machine (fb : Framebuffer) (s : MemState) (addr len prot flags fd off : Word) :
    (sysMmap fb s addr len prot flags fd off).2.machine =
      (mmapTarget s addr len flags fd).1.run fb s.machine := by
  have hsame : (mmapTarget s addr len flags fd).2.machine = s.machine := by
    simp only [mmapTarget]
    repeat' split
    all_goals rfl
  unfold sysMmap
  generalize mmapTarget s addr len flags fd = target at hsame
  obtain ⟨target, s'⟩ := target
  cases target <;> simp_all [MmapTarget.run]

lemma sysMunmap_cases (s : MemState) (addr len : Word) :
    (sysMunmap s addr len).2.machine = s.machine ∨
      ∃ virt len', (sysMunmap s addr len).2.machine = vmmUnmapUserRange s.machine virt len' := by
  simp only [sysMunmap]
  repeat' split
  all_goals first | exact Or.inl rfl | exact Or.inr ⟨_, _, rfl⟩

end States

/-! ## An empty page table -/

def emptyMachine (root total : ℕ) : Machine where
  pmm := ⟨total, fun p => decide (p ≤ root), fun p => if p = root then 1 else 0, 0#64⟩
  mem := fun _ _ => 0#64
  cr3 := frameAddr root
  kernelPml4 := frameAddr root

section Empty

variable {root total : ℕ}

lemma spaceIn_of_zero {s : Machine} (hmem : s.mem = fun _ _ => 0#64)
    (hman : s.pmm.Manages A) (hroot : root ∈ A) (hused : s.pmm.used root = true) :
    SpaceIn A s root := by
  have hrefs : ∀ g, refsOf s.mem root g = if root = g then 1 else 0 := by
    intro g
    have hsum : tableSum pteFormat (refWeight g) s.mem 3 root = 0 := by
      rw [hmem]
      exact Finset.sum_eq_zero fun _ _ => entryRefs_absent (zero_hasFlag _) _ _ _
    rw [refsOf, hsum, Nat.add_zero]
  have htabs : ∀ g, tabsOf s.mem root g ≤ if root = g then 1 else 0 :=
    fun g => (tabsOf_le_refsOf _ _ g).trans (hrefs g).le
  refine ⟨⟨fun j => ?_, fun g => ?_⟩, fun g hg => ?_, fun g hg => ?_, hman⟩
  · rw [hmem]
    exact entryAll_of_absent _ _ (zero_hasFlag _)
  · exact (htabs g).trans (by split <;> omega)
  · have := htabs g
    split at this
    · subst g
      exact hroot
    · omega
  · rw [hrefs]
    split
    · subst g
      exact Nat.one_le_iff_ne_zero.mpr (Pmm.usedCount_pos.mpr hused)
    · omega

lemma emptyMachine_space (hpos : 0 < root) (hroot : root < total) (htotal : total ≤ 2 ^ 40) :
    SpaceIn {g | root ≤ g ∧ g < total} (emptyMachine root total)
      (frameOf (emptyMachine root total).cr3) := by
  have hone : frameOf (emptyMachine root total).cr3 = root := frameOf_frameAddr (by omega)
  rw [hone]
  refine spaceIn_of_zero rfl ⟨fun hzero => ?_, htotal, fun g hg => hg.2, fun g hg hused => ?_,
    fun g hg hlt => ?_⟩ ⟨le_rfl, hroot⟩ (by simp [emptyMachine])
  · have := hzero.1
    omega
  · have hle : g ≤ root := by simpa [emptyMachine] using hused
    simp [emptyMachine, le_antisymm hle hg.1]
  · have hbelow : g < root := by
      by_contra hge
      exact hg ⟨by omega, hlt⟩
    simp [emptyMachine, hbelow.le, hbelow.ne]

lemma emptyMachine_translate (cr3 v : Word) :
    translate (emptyMachine root total).mem cr3 v = none := by
  simp [translate, entryTranslate, emptyMachine]

lemma emptyMachine_view (f : ℕ) (v) :
    pageView (emptyMachine root total).mem f v = none := by
  simp [pageView, tableLookup, entryLookup, emptyMachine, pteFormat_isTable]

lemma emptyMachine_freeCount (root total : ℕ) :
    (emptyMachine root total).pmm.freeCount = total - (root + 1) := by
  have hset : ((Finset.range total).filter fun p => decide (p ≤ root) = false) =
      Finset.Ico (root + 1) total := by
    ext p
    simp only [Finset.mem_filter, Finset.mem_range, decide_eq_false_iff_not, Finset.mem_Ico]
    omega
  exact (congrArg Finset.card hset).trans (Nat.card_Ico _ total)

end Empty

/-! ## Frames that hold data -/

variable {w : Word}

lemma SpaceIn.held_of_user {s : Machine} {root : ℕ} (hsp : SpaceIn A s root)
    {page : Mapping} (hpage : pageView s.mem root v = some page) (huser : page.user = true) :
    Held s root page.frame := by
  by_cases hg : page.frame ∈ A
  · have hrefs := hsp.ok.tabs_add_userRef v hg
    have hle := hsp.refs_le _ hg
    have hone := s.pmm.usedCount_le page.frame
    rw [hpage, userRef_self huser] at hrefs
    refine ⟨fun hfree => ?_, by omega⟩
    have hused : s.pmm.used page.frame = true := Pmm.usedCount_pos.mp (by omega)
    simp [hfree.2] at hused
  · refine ⟨fun hfree => hg (hsp.manages.mem_of_free hfree), ?_⟩
    by_contra htab
    exact hg (hsp.tables _ htab)

/-! ## Growing the heap -/

lemma sameSlot_of_gib (hsame : v.toNat / 2 ^ 30 = w.toNat / 2 ^ 30) :
    SameSlot 2 v w := by
  intro k hk hk'
  apply Fin.ext
  rw [tableIndex_val, tableIndex_val]
  obtain rfl | rfl : k = 2 ∨ k = 3 := by omega
  · norm_num at hsame ⊢
    omega
  · norm_num at hsame ⊢
    omega

lemma HugeAt.sameSlot {m : Mem} {root : ℕ} (hhuge : HugeAt m root v)
    (hsame : SameSlot 2 v w) : HugeAt m root w := by
  obtain ⟨e, he⟩ := hhuge
  obtain ⟨q, f, hreach, rfl, hpresent, hleaf⟩ :=
    (Reach.top : ReachSlot m v root 3 rootWord root).of_lookup he
  have hnot := hleaf.resolve_left (by decide)
  refine ⟨m f (tableIndex v 2), ?_⟩
  rw [hreach.lookup fun k hk hk3 => hsame k (by omega) hk3, tableLookup, hsame 2 le_rfl (by omega)]
  rw [entryLookup, hnot, if_neg (by decide), if_pos hpresent]

section Runs

variable {s : Machine} {root n : ℕ} {va : Word} {r : Bool × Machine}

section

variable (hrun : MapRun A root n va s r) (hva : va.toNat % 4096 = 0)
  (hlow : va.toNat + 4096 * n < 2 ^ 64) (hroom : 4 * n ≤ s.pmm.freeCount)
include hrun hva hlow hroom

/-- Beside a user page no 1 GiB page of the kernel is in the way. -/
theorem MapRun.completes {page : Mapping} (hpage : pageView s.mem root w = some page)
    (huser : page.user = true)
    (hgib : n = 0 ∨ va.toNat / 2 ^ 30 = w.toNat / 2 ^ 30 ∧
      (va.toNat + 4096 * n - 1) / 2 ^ 30 = w.toNat / 2 ^ 30) :
    r.1 = true := by
  induction hrun generalizing page with
  | done => rfl
  | stop hkeep hwhy =>
    rcases hwhy with hodd | hfew | hhuge
    · exact absurd ((aligned_iff _).mpr hva) hodd
    · omega
    · obtain ⟨page', hpage', hkernel⟩ :=
        hkeep.kernel_of_huge (hhuge.sameSlot (sameSlot_of_gib (w := w) (by omega)))
      obtain rfl := Option.some.inj (hpage.symm.trans hpage')
      simp [huser] at hkernel
  | @next n va s t r page' _ hone _ ih =>
    have hcount := hone.room
    have hview := hone.view w
    have hnext : (va + 4096#64).toNat = va.toNat + 4096 := by
      rw [BitVec.toNat_add, show (4096#64 : Word).toNat = 4096 from rfl]
      omega
    split at hview
    · exact ih (by omega) (by omega) (by omega) hview hone.user (by omega)
    · exact ih (by omega) (by omega) (by omega) (hview.trans hpage) huser (by omega)

lemma MapRun.all_or_none (hgib : n = 0 ∨ va.toNat / 2 ^ 30 = (va.toNat + 4096 * n - 1) / 2 ^ 30) :
    r.1 = true ∨ KeepsPages A s r.2 root := by
  cases hrun with
  | done => exact Or.inl rfl
  | stop hkeep => exact Or.inr hkeep
  | next _ hone hrest =>
    have hcount := hone.room
    have hnext : (va + 4096#64).toNat = va.toNat + 4096 := by
      rw [BitVec.toNat_add, show (4096#64 : Word).toNat = 4096 from rfl]
      omega
    exact Or.inl (hrest.completes (by omega) (by omega) (by omega)
      ((hone.view va).trans (if_pos rfl)) hone.user (by omega))

end

/-- The pages of a run that completes are on frames that were free or not managed. -/
theorem MapRun.fresh (hrun : MapRun A root n va s r) (hok : r.1 = true)
    (hv : InRange va n v) : ∃ page, pageView r.2.mem root v = some page ∧
      (page.frame ∈ A → ¬ Held s root page.frame) := by
  induction hrun with
  | done =>
    obtain ⟨i, hi, -⟩ := hv
    omega
  | stop => cases hok
  | @next n va s t r page _ hone hrest ih =>
    by_cases hlater : InRange (va + 4096#64) n v
    · obtain ⟨page', hpage, hnew⟩ := ih hok hlater
      exact ⟨page', hpage, fun hmem hold => hnew hmem (hone.held _ hold).1⟩
    · refine ⟨page, ?_, fun hmem hold => hold.1 (hone.fresh hmem)⟩
      rw [(hrest.maps hone.moves.manages).view v hlater, hone.view,
        if_pos ((inRange_cases hv).resolve_right hlater)]

end Runs

end HelixOS
