import HelixOS.SyscallEffects

/-!
# User frames and the pages that map them

A run of `sys_brk`, `sys_mmap` and `sys_munmap` calls of one task.  As long as no call maps
over a user page, every frame the run has taken is a page table or is mapped by exactly one
user page.
-/

namespace HelixOS

open RadixMemory

variable {s : MemState} {t : Machine} {A : Set ℕ}

/-- The calls that change the memory of a task. -/
inductive MemCall where
  | brk (addr : Word)
  | mmap (addr len prot flags fd off : Word)
  | munmap (addr len : Word)

def MemCall.run (fb : Framebuffer) (s : MemState) : MemCall → MemState
  | .brk addr => (sysBrk s addr).2
  | .mmap addr len prot flags fd off => (sysMmap fb s addr len prot flags fd off).2
  | .munmap addr len => (sysMunmap s addr len).2

def Clear (A : Set ℕ) (s : Machine) (v : Word) : Prop :=
  ∀ page, translate s.mem s.cr3 v = some page → page.user = true → page.frame ∉ A

/-- The call maps only pages that are clear, between the breaks or in the requested range. -/
def MemCall.MapsClear (A : Set ℕ) (s : MemState) : MemCall → Prop
  | .brk addr => ∀ v, PagesOf (pageUp s.initBrk.brkCurr).toNat (pageUp addr).toNat v →
      Clear A s.machine v
  | .mmap addr len _ flags fd _ =>
    match (mmapTarget s addr len flags fd).1 with
    | .nothing _ => True
    | .framebuffer _ => False
    | .anonymous va npages => npages.toNat ≤ 2 ^ 36 ∧
        ∀ v, InRange va npages.toNat v → Clear A s.machine v
  | .munmap _ _ => True

def AllMapClear (A : Set ℕ) (fb : Framebuffer) : MemState → List MemCall → Prop
  | _, [] => True
  | s, call :: calls => call.MapsClear A s ∧ AllMapClear A fb (call.run fb s) calls

def OneUserPage (m : Mem) (root : Word) (g : ℕ) : Prop :=
  ∃ v page, translate m root v = some page ∧ page.user = true ∧ page.frame = g ∧
    ∀ v' page', translate m root v' = some page' → page'.user = true → page'.frame = g →
      pageNum v' = pageNum v

/-- A frame that could be taken and now is taken is a page table or the frame of one user page. -/
def NoOrphans (A : Set ℕ) (s t : Machine) : Prop :=
  ∀ g ∈ A, s.pmm.IsFree g ∨ refsOf s.mem (frameOf s.cr3) g ≠ 0 → ¬ t.pmm.IsFree g →
    tabsOf t.mem (frameOf t.cr3) g ≠ 0 ∨ OneUserPage t.mem t.cr3 g

/-! ## Runs -/

lemma Clear.userRef {s : Machine} {v : Word} (hsp : SpaceIn A s (frameOf s.cr3))
    (hclear : Clear A s v) {g : ℕ} (hg : g ∈ A) :
    userRef (pageView s.mem (frameOf s.cr3) v) g = 0 := by
  by_contra hne
  obtain ⟨page, hpage, huser, rfl⟩ := userRef_ne_zero hne
  exact hclear page ((translate_eq_pageView hsp.ok.entries v).trans hpage) huser hg

lemma MemCall.run_moves (fb : Framebuffer) {call : MemCall}
    (hsp : SpaceIn A s.machine (frameOf s.machine.cr3)) (hcr3 : s.machine.cr3 ≠ 0#64)
    (hclear : call.MapsClear A s) :
    Moves A s.machine (call.run fb s).machine (frameOf s.machine.cr3) ∧
      Balanced A s.machine (call.run fb s).machine (frameOf s.machine.cr3) := by
  cases call with
  | brk addr =>
    rcases sysBrk_cases s addr with hsame | ⟨hlt, hmachine⟩
    · rw [MemCall.run, hsame]
      exact ⟨Moves.refl hsp, fun _ _ => rfl⟩
    · obtain ⟨n, _, hn, hrun⟩ := brkMachine_run addr hsp hcr3
      have hlow := pageUp_brk_lt hlt
      rw [MemCall.run, hmachine]
      refine ⟨(hrun.maps hsp.manages).moves, hrun.balanced (by omega) fun v hv g hg =>
        (hclear v ?_).userRef hsp hg⟩
      by_cases hzero : n = 0
      · obtain ⟨i, hi, -⟩ := hv
        omega
      · exact hv.pagesOf (pageUp_aligned _) (by omega) (by omega)
  | mmap addr len prot flags fd off =>
    simp only [MemCall.run, sysMmap_machine]
    simp only [MemCall.MapsClear] at hclear
    cases htarget : (mmapTarget s addr len flags fd).1 with
    | nothing e => exact ⟨Moves.refl hsp, fun _ _ => rfl⟩
    | framebuffer va => simp [htarget] at hclear
    | anonymous va npages =>
      rw [htarget] at hclear
      obtain ⟨_, hrun⟩ := vmmAllocUserPages_run hsp hcr3 va npages true
      exact ⟨(hrun.maps hsp.manages).moves,
        hrun.balanced hclear.1 fun v hv g hg => (hclear.2 v hv).userRef hsp hg⟩
  | munmap addr len =>
    rcases sysMunmap_cases s addr len with hsame | ⟨virt, len', hmachine⟩
    · rw [MemCall.run, hsame]
      exact ⟨Moves.refl hsp, fun _ _ => rfl⟩
    · rw [MemCall.run, hmachine]
      exact vmmUnmapUserRange_moves hsp virt len'

lemma memCalls_moves {fb : Framebuffer} (calls : List MemCall)
    (hsp : SpaceIn A s.machine (frameOf s.machine.cr3)) (hcr3 : s.machine.cr3 ≠ 0#64)
    (hclear : AllMapClear A fb s calls) :
    Moves A s.machine (calls.foldl (MemCall.run fb) s).machine (frameOf s.machine.cr3) ∧
      Balanced A s.machine (calls.foldl (MemCall.run fb) s).machine
        (frameOf s.machine.cr3) := by
  induction calls generalizing s with
  | nil => exact ⟨Moves.refl hsp, fun _ _ => rfl⟩
  | cons call calls ih =>
    obtain ⟨hmove, hbalance⟩ := MemCall.run_moves fb hsp hcr3 hclear.1
    have heq := hmove.cr3_eq
    obtain ⟨hmoves, hbalances⟩ :=
      ih (heq.symm ▸ hmove.spaceIn hsp) (heq.symm ▸ hcr3) hclear.2
    rw [heq] at hmoves hbalances
    exact ⟨hmove.trans hmoves hsp.manages, hbalance.trans hbalances⟩

lemma oneUserPage_of_refs {s : Machine} {root : Word} {g : ℕ}
    (hok : SpaceOk A s.mem (frameOf root)) (hg : g ∈ A)
    (hone : refsOf s.mem (frameOf root) g = 1) (htab : tabsOf s.mem (frameOf root) g = 0) :
    OneUserPage s.mem root g := by
  have hview := translate_eq_pageView hok.entries
  obtain ⟨v, page, hpage, huser, rfl⟩ :=
    (refsOf_cases (show refsOf s.mem (frameOf root) g ≠ 0 by omega)).resolve_left
      (not_not_intro htab)
  refine ⟨v, page, (hview v).trans hpage, huser, rfl, fun v' page' hpage' huser' hframe => ?_⟩
  rw [hview] at hpage'
  by_contra hne
  exact (hok.user_alone hpage huser hg (by omega)).2 v' page' hpage' huser' hne hframe

lemma noOrphans_of_balanced {s : Machine} (hsp : SpaceIn A s (frameOf s.cr3))
    (hmove : Moves A s t (frameOf s.cr3)) (hbal : Balanced A s t (frameOf s.cr3)) :
    NoOrphans A s t := by
  intro g hg hours htaken
  have hcount := hbal g hg
  have hle := hsp.refs_le g hg
  have hused : t.pmm.used g = true := by
    by_contra hnot
    exact htaken ⟨hmove.manages.below g hg, by simpa using hnot⟩
  have hused_t : t.pmm.usedCount g = 1 := by simp [Pmm.usedCount, hused]
  -- the frame was free and unreferenced, or used and referred to once
  have hrefs : refsOf s.mem (frameOf s.cr3) g = s.pmm.usedCount g := by
    have hmost := s.pmm.usedCount_le g
    rcases hours with hfree | hne
    · have hzero : s.pmm.usedCount g = 0 := by simp [Pmm.usedCount, hfree.2]
      omega
    · omega
  rw [hmove.cr3_eq]
  by_cases htab : tabsOf t.mem (frameOf s.cr3) g = 0
  · exact Or.inr (oneUserPage_of_refs hmove.space hg (by omega) htab)
  · exact Or.inl htab

def emptyTask : MemState := .initial (emptyMachine 1 16)

lemma sysBrk_spaceIn (addr : Word) (hsp : SpaceIn A s.machine (frameOf s.machine.cr3))
    (hcr3 : s.machine.cr3 ≠ 0#64) :
    SpaceIn A (sysBrk s addr).2.machine (frameOf (sysBrk s addr).2.machine.cr3) ∧
      (sysBrk s addr).2.machine.cr3 ≠ 0#64 := by
  have hmoves : Moves A s.machine (sysBrk s addr).2.machine (frameOf s.machine.cr3) := by
    rcases sysBrk_cases s addr with hsame | ⟨-, hmachine⟩
    · rw [hsame]
      exact Moves.refl hsp
    · obtain ⟨_, _, -, hrun⟩ := brkMachine_run addr hsp hcr3
      rw [hmachine]
      exact (hrun.maps hsp.manages).moves
  rw [hmoves.cr3_eq]
  exact ⟨hmoves.spaceIn hsp, hcr3⟩

lemma not_noOrphans {s t : Machine} {g : ℕ} (hsp : SpaceIn A t (frameOf t.cr3)) (hg : g ∈ A)
    (hfree : s.pmm.IsFree g) (hused : t.pmm.used g = true)
    (hrefs : refsOf t.mem (frameOf t.cr3) g = 0) : ¬ NoOrphans A s t := by
  intro hnone
  rcases hnone g hg (.inl hfree) fun hfree => by simp [hfree.2] at hused with
    htab | ⟨v, page, hpage, huser, hframe, -⟩
  · have hle := tabsOf_le_refsOf t.mem (frameOf t.cr3) g
    omega
  · rw [translate_eq_pageView hsp.ok.entries] at hpage
    have hle := hsp.ok.tabs_add_userRef v hg
    rw [hpage, ← hframe, userRef_self huser, hframe] at hle
    omega

end HelixOS
