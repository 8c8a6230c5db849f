import HelixOS.SyscallEffects

/-!
# The windows `sys_mmap` maps in

`sys_mmap` is confined to the windows `user_ptr_ok` accepts exactly for the arguments of
`MmapFits`.
-/

namespace HelixOS

open RadixMemory

variable {v len addr flags fd : Word} {A : Set ℕ}

/-! ## Windows -/

def UserWindow (v : Word) : Prop :=
  userPtrOk (BitVec.ofNat 64 (pageNum v * 4096)) 4096#64 = true

lemma userWindow_iff (v) :
    UserWindow v ↔ (0x400 ≤ pageNum v ∧ pageNum v < 0xA00) ∨
      (0x3F000 ≤ pageNum v ∧ pageNum v < 0x44000) ∨
      (0x50000 ≤ pageNum v ∧ pageNum v < 0x51000) := by
  have hlt := pageNum_lt v
  have hmod : pageNum v * 4096 % 2 ^ 64 = pageNum v * 4096 := Nat.mod_eq_of_lt (by omega)
  have hwrap : ¬ ((4096#64 : Word) ≠ 0#64 ∧
      BitVec.ofNat 64 (pageNum v * 4096) + 4096#64 < BitVec.ofNat 64 (pageNum v * 4096)) := by
    rw [BitVec.lt_def, BitVec.toNat_add, BitVec.toNat_ofNat, hmod]
    simp only [BitVec.toNat_ofNat]
    omega
  rw [UserWindow, userPtrOk, if_neg hwrap]
  simp only [userBase, userStackTop, userLowMin, userLowMax, ge_iff_le, Bool.or_eq_true,
    Bool.and_eq_true, decide_eq_true_eq, BitVec.le_def, BitVec.lt_def, BitVec.toNat_add,
    BitVec.toNat_ofNat, hmod]
  omega

def FitsWindow (va : Word) (n : ℕ) : Prop :=
  n = 0 ∨ (0x400 ≤ pageNum va ∧ pageNum va + n ≤ 0xA00) ∨
    (0x3F000 ≤ pageNum va ∧ pageNum va + n ≤ 0x44000) ∨
    (0x50000 ≤ pageNum va ∧ pageNum va + n ≤ 0x51000)

lemma FitsWindow.userWindow {va : Word} {n : ℕ} (hfits : FitsWindow va n)
    (hv : InRange va n v) : UserWindow v := by
  obtain ⟨i, hi, hv⟩ := hv
  rw [userWindow_iff, hv]
  unfold FitsWindow at hfits
  omega

lemma exists_page_outside {va : Word} {n : ℕ} (hfits : ¬ FitsWindow va n) :
    ∃ i, i < n ∧ i ≤ 0x5000 ∧ ∃ v, pageNum v = (pageNum va + i) % 2 ^ 36 ∧ ¬ UserWindow v := by
  have hlt := pageNum_lt va
  have hpage : ∀ p, p < 2 ^ 36 → pageNum (BitVec.ofNat 64 (p * 4096)) = p := by
    intro p hp
    rw [pageNum, BitVec.toNat_ofNat]
    omega
  have hout : ∃ i, i < n ∧ i ≤ 0x5000 ∧ ¬ UserWindow (BitVec.ofNat 64
      ((pageNum va + i) % 2 ^ 36 * 4096)) := by
    by_cases hfirst : UserWindow va
    · -- the range starts in a window and the first page after the window is outside
      rw [userWindow_iff] at hfirst
      unfold FitsWindow at hfits
      rcases hfirst with hw | hw | hw
      · refine ⟨0xA00 - pageNum va, by omega, by omega, ?_⟩
        rw [userWindow_iff, hpage _ (Nat.mod_lt _ (by norm_num))]
        omega
      · refine ⟨0x44000 - pageNum va, by omega, by omega, ?_⟩
        rw [userWindow_iff, hpage _ (Nat.mod_lt _ (by norm_num))]
        omega
      · refine ⟨0x51000 - pageNum va, by omega, by omega, ?_⟩
        rw [userWindow_iff, hpage _ (Nat.mod_lt _ (by norm_num))]
        omega
    · refine ⟨0, ?_, by omega, ?_⟩
      · unfold FitsWindow at hfits
        omega
      · rw [userWindow_iff] at hfirst
        rw [userWindow_iff, hpage _ (Nat.mod_lt _ (by norm_num))]
        omega
  obtain ⟨i, hi, hsmall, hv⟩ := hout
  exact ⟨i, hi, hsmall, _, hpage _ (Nat.mod_lt _ (by norm_num)), hv⟩

/-! ## Mapping loops -/

section Runs

variable {s : Machine} {root n : ℕ} {va : Word} {r : Bool × Machine}

lemma MapRun.keeps (hrun : MapRun A root n va s r)
    (hmapped : pageView s.mem root v ≠ none) : pageView r.2.mem root v ≠ none := by
  induction hrun with
  | done hkeep => rwa [hkeep.view]
  | stop hkeep => rwa [hkeep.view]
  | next _ hone _ ih =>
    apply ih
    rw [hone.view]
    split
    · simp
    · exact hmapped

lemma MapRun.unaligned (hrun : MapRun A root n va s r) (hva : va &&& 0xFFF#64 ≠ 0#64) :
    KeepsPages A s r.2 root := by
  cases hrun with
  | done hkeep => exact hkeep
  | stop hkeep => exact hkeep
  | next haligned => exact absurd haligned hva

lemma MapRun.reaches (hrun : MapRun A root n va s r) (hva : va &&& 0xFFF#64 = 0#64) {i : ℕ}
    (hi : i < n) (hroom : 4 * (i + 1) ≤ s.pmm.freeCount)
    (huser : ∀ v page, pageView s.mem root v = some page → page.user = true)
    (hv : pageNum v = (pageNum va + i) % 2 ^ 36) : pageView r.2.mem root v ≠ none := by
  induction hrun generalizing i with
  | done => omega
  | stop hkeep hwhy =>
    rcases hwhy with hodd | hfew | hhuge
    · exact absurd hva hodd
    · omega
    · obtain ⟨page, hpage, hkernel⟩ := hkeep.kernel_of_huge hhuge
      simp [huser _ page hpage] at hkernel
  | next _ hone hrest ih =>
    have hcount := hone.room
    cases i with
    | zero =>
      apply hrest.keeps
      rw [hone.view, if_pos (by rw [hv, Nat.add_zero, Nat.mod_eq_of_lt (pageNum_lt _)])]
      simp
    | succ i =>
      apply ih (aligned_next hva) (i := i) (by omega) (by omega)
      · intro w page' hw
        rw [hone.view] at hw
        split at hw
        · cases hw
          exact hone.user
        · exact huser w page' hw
      · rw [hv, pageNum_next]
        omega

end Runs

/-! ## The range of a call -/

def Framebuffer.Usable (fb : Framebuffer) : Prop :=
  fb.phys ≠ 0#64 ∧ fb.size ≠ 0#64 ∧ fb.phys &&& 0xFFF#64 = 0#64

instance (fb : Framebuffer) : Decidable fb.Usable :=
  inferInstanceAs (Decidable (_ ∧ _))

/-- None of its frames is in the set. -/
def Framebuffer.Outside (fb : Framebuffer) (A : Set ℕ) : Prop :=
  ∀ i, i < fb.pages → physFrame fb.phys i ∉ A

/-- The pages a target stands for.  Nothing can be mapped at a misaligned address. -/
def MmapTarget.first : MmapTarget → Word
  | .nothing _ => 0#64
  | .framebuffer va => pageDown va
  | .anonymous va _ => va

def MmapTarget.count (fb : Framebuffer) : MmapTarget → ℕ
  | .nothing _ => 0
  | .framebuffer _ => if fb.Usable then fb.pages else 0
  | .anonymous va npages => if va &&& 0xFFF#64 = 0#64 then npages.toNat else 0

lemma MmapTarget.first_aligned {fb : Framebuffer} {target : MmapTarget} {i : ℕ}
    (hi : i < target.count fb) : target.first &&& 0xFFF#64 = 0#64 := by
  cases target with
  | nothing e => exact absurd hi (Nat.not_lt_zero i)
  | framebuffer va =>
    rw [first, aligned_iff, pageDown_toNat]
    omega
  | anonymous va npages =>
    by_contra hodd
    rw [count, if_neg (show ¬ va &&& 0xFFF#64 = 0#64 from hodd)] at hi
    omega

section Target

variable {s : Machine} {fb : Framebuffer} (hsp : SpaceIn A s (frameOf s.cr3))
  (hcr3 : s.cr3 ≠ 0#64)
include hsp hcr3

lemma fbMapUser_run (hout : fb.Outside A) (va : Word) :
    ∃ ok, MapRun A (frameOf s.cr3) (if fb.Usable then fb.pages else 0) (pageDown va) s
      (ok, (fbMapUser fb s va).2) := by
  have hva : pageDown va &&& 0xFFF#64 = 0#64 := by
    rw [aligned_iff, pageDown_toNat]
    omega
  unfold fbMapUser
  by_cases hnone : fb.phys = 0#64 ∨ fb.size = 0#64
  · have hunusable : ¬ fb.Usable := fun husable => hnone.elim husable.1 husable.2.1
    rw [if_pos hnone, if_neg hunusable]
    exact ⟨true, .done (KeepsPages.refl hsp)⟩
  · rw [if_neg hnone]
    by_cases hphys : fb.phys &&& 0xFFF#64 = 0#64
    · rw [if_pos ⟨fun h => hnone (Or.inl h), fun h => hnone (Or.inr h), hphys⟩]
      exact ⟨_, fbMapLoop_run fb.pages hsp hcr3 hva hphys hout⟩
    · -- the first page is refused
      have hsame : (fbMapLoop fb.pages (pageDown va) fb.phys s).2 = s := by
        cases fb.pages with
        | zero => rfl
        | succ n => simp [fbMapLoop, pagingMap4k, hcr3, hphys]
      rw [if_neg fun husable : fb.Usable => hphys husable.2.2, hsame]
      exact ⟨true, .done (KeepsPages.refl hsp)⟩

lemma MmapTarget.run_maps (hout : fb.Outside A) (target : MmapTarget) :
    ∃ ok, MapRun A (frameOf s.cr3) (target.count fb) target.first s
      (ok, target.run fb s) := by
  cases target with
  | nothing e => exact ⟨true, .done (KeepsPages.refl hsp)⟩
  | framebuffer va => exact fbMapUser_run hsp hcr3 hout va
  | anonymous va npages =>
    obtain ⟨ok, hrun⟩ := vmmAllocUserPages_run hsp hcr3 va npages true
    by_cases hva : va &&& 0xFFF#64 = 0#64
    · refine ⟨ok, ?_⟩
      rwa [MmapTarget.count, if_pos hva]
    · rw [MmapTarget.count, if_neg hva]
      exact ⟨true, .done (hrun.unaligned hva)⟩

end Target

/-! ## The arguments that fit -/

/-- From every page table, `sys_mmap` leaves the pages outside the windows alone. -/
def MmapConfined (fb : Framebuffer) (s : MemState) (addr len prot flags fd off : Word) : Prop :=
  ∀ (A : Set ℕ) (m t : Machine), SpaceIn A m (frameOf m.cr3) → m.cr3 ≠ 0#64 → fb.Outside A →
    t = (sysMmap fb { s with machine := m } addr len prot flags fd off).2.machine →
    ∀ v, ¬ UserWindow v → translate t.mem t.cr3 v = translate m.mem m.cr3 v

def FitsRange (va len : Word) : Prop :=
  va &&& 0xFFF#64 = 0#64 → FitsWindow va (len / 4096#64).toNat

/-- The arguments and bump pointers for which the range of `sys_mmap` lies in a window, or
the call is refused before it maps anything. -/
def MmapFits (fb : Framebuffer) (s : MemState) (addr len flags fd : Word) : Prop :=
  len = 0#64 ∨
  if fd = fbFd then
    fb.Usable →
      if addr = 0#64 then
        s.fbBump + pageUp len ≥ bumpLimit ∨ FitsWindow (pageDown s.fbBump) fb.pages
      else FitsWindow (pageDown addr) fb.pages
  else if hasFlag flags mapAnonymous = false ∧ fd ≠ 0xFFFFFFFFFFFFFFFF#64 then True
  else if addr = 0#64 ∧ hasFlag flags mapFixed = false then
    s.anonBump + pageUp len ≥ bumpLimit ∨ FitsRange s.anonBump (pageUp len)
  else if okRange (pageDown addr) (pageDown addr + pageUp len) = true then
    FitsRange (pageDown addr) (pageUp len)
  else
    hasFlag flags mapFixed = true ∨ s.anonBump2 + pageUp len ≥ bumpLimit ∨
      FitsRange s.anonBump2 (pageUp len)

lemma fitsWindow_zero (va : Word) : FitsWindow va 0 := Or.inl rfl

lemma fitsRange_iff (va len : Word) :
    FitsRange va len ↔ FitsWindow va
      (if va &&& 0xFFF#64 = 0#64 then (len / 4096#64).toNat else 0) := by
  unfold FitsRange
  split <;> simp [*, fitsWindow_zero]

lemma pageDown_pageDown (x : Word) : pageDown (pageDown x) = pageDown x := by
  simp [pageDown, BitVec.and_assoc]

lemma usable_fits_iff (fb : Framebuffer) (va : Word) :
    (fb.Usable → FitsWindow (pageDown va) fb.pages) ↔
      FitsWindow (MmapTarget.framebuffer va).first ((MmapTarget.framebuffer va).count fb) := by
  simp only [MmapTarget.first, MmapTarget.count]
  split <;> simp [*, fitsWindow_zero]

lemma bump_fits_iff (fb : Framebuffer) (bump va len : Word) :
    (bump ≥ bumpLimit ∨ FitsRange va len) ↔
      FitsWindow
        (if bump ≥ bumpLimit then MmapTarget.nothing .enomem
          else .anonymous va (len / 4096#64)).first
        ((if bump ≥ bumpLimit then MmapTarget.nothing .enomem
          else .anonymous va (len / 4096#64)).count fb) := by
  by_cases hbump : bump ≥ bumpLimit
  · simp [hbump, MmapTarget.count, fitsWindow_zero]
  · simp only [hbump, if_false, false_or]
    exact fitsRange_iff va len

lemma mmapFits_iff (fb : Framebuffer) (s : MemState) (addr len flags fd) :
    MmapFits fb s addr len flags fd ↔
      FitsWindow (mmapTarget s addr len flags fd).1.first
        ((mmapTarget s addr len flags fd).1.count fb) := by
  unfold MmapFits mmapTarget
  by_cases hlen : len = 0#64
  · simp [hlen, MmapTarget.count, fitsWindow_zero]
  simp only [hlen, false_or, if_false]
  by_cases hfb : fd = fbFd
  · simp only [hfb, if_true]
    by_cases haddr : addr = 0#64
    · simp only [haddr, if_true]
      by_cases hbump : s.fbBump + pageUp len ≥ bumpLimit
      · simp [hbump, MmapTarget.count, fitsWindow_zero]
      · simp only [hbump, if_false, false_or]
        exact usable_fits_iff fb s.fbBump
    · simp only [haddr, if_false]
      rw [← usable_fits_iff, pageDown_pageDown]
  simp only [hfb, if_false]
  by_cases hanon : hasFlag flags mapAnonymous = false ∧ fd ≠ 0xFFFFFFFFFFFFFFFF#64
  · simp [hanon, MmapTarget.count, fitsWindow_zero]
  have hanon' : (!(hasFlag flags mapAnonymous || fd == 0xFFFFFFFFFFFFFFFF#64)) = false := by
    by_contra hnot
    exact hanon (by simpa using hnot)
  simp only [hanon, hanon', if_false, Bool.false_eq_true]
  by_cases haddr : addr = 0#64 ∧ hasFlag flags mapFixed = false
  · simp only [haddr, and_self, if_true]
    exact bump_fits_iff fb _ _ _
  simp only [haddr, if_false]
  by_cases hrange : okRange (pageDown addr) (pageDown addr + pageUp len) = true
  · simp only [hrange, if_true]
    exact fitsRange_iff _ _
  simp only [hrange, if_false, Bool.false_eq_true]
  by_cases hfixed : hasFlag flags mapFixed = true
  · simp [hfixed, MmapTarget.count, fitsWindow_zero]
  have hne : addr ≠ 0#64 := fun h => haddr ⟨h, by simpa using hfixed⟩
  simp only [hfixed, hne, ne_eq, not_false_eq_true, if_false, if_true, Bool.false_eq_true, false_or]
  exact bump_fits_iff fb _ _ _

lemma mmapTarget_machine (s : MemState) (m : Machine) (addr len flags fd) :
    (mmapTarget { s with machine := m } addr len flags fd).1 =
      (mmapTarget s addr len flags fd).1 := by
  simp only [mmapTarget]
  repeat' split
  all_goals rfl

lemma mmapConfined_of_fits {fb : Framebuffer} {s : MemState}
    (hfits : FitsWindow (mmapTarget s addr len flags fd).1.first
      ((mmapTarget s addr len flags fd).1.count fb)) (prot off : Word) :
    MmapConfined fb s addr len prot flags fd off := by
  rintro A m t hsp hcr3 hout rfl v hv
  rw [sysMmap_machine, mmapTarget_machine]
  obtain ⟨_, hrun⟩ := (mmapTarget s addr len flags fd).1.run_maps hsp hcr3 hout
  have hmaps := hrun.maps hsp.manages
  have hspace := hmaps.moves.space
  rw [← hmaps.moves.cr3_eq] at hspace
  rw [translate_eq_pageView hspace.entries, translate_eq_pageView hsp.ok.entries,
    hmaps.moves.cr3_eq]
  exact hmaps.view v fun hrange => hv (hfits.userWindow hrange)

lemma Framebuffer.outside_above {fb : Framebuffer}
    (hfb : fb.phys.toNat + fb.size.toNat ≤ 2 ^ 50) (total : ℕ) :
    fb.Outside {g | 2 ^ 38 ≤ g ∧ g < total} := by
  rintro i hi ⟨hge, -⟩
  have hpages : 4096 * i < fb.size.toNat := by
    rw [Framebuffer.pages, BitVec.toNat_udiv, BitVec.toNat_sub, BitVec.toNat_add] at hi
    simp only [BitVec.toNat_ofNat, Nat.reducePow, Nat.reduceMod] at hi
    omega
  rw [physFrame, frameOf_eq, BitVec.toNat_add, BitVec.toNat_mul] at hge
  simp only [BitVec.toNat_ofNat] at hge
  omega

lemma fits_of_mmapConfined {fb : Framebuffer} {s : MemState}
    {prot off : Word} (hfb : fb.phys.toNat + fb.size.toNat ≤ 2 ^ 50)
    (hconf : MmapConfined fb s addr len prot flags fd off) :
    FitsWindow (mmapTarget s addr len flags fd).1.first
      ((mmapTarget s addr len flags fd).1.count fb) := by
  by_contra hfits
  obtain ⟨i, hi, hsmall, v, hv, hout⟩ := exists_page_outside hfits
  -- an empty page table with room for the pages up to the first one outside
  set m := emptyMachine (2 ^ 38) (2 ^ 38 + 2 ^ 20) with hm
  have hsp : SpaceIn {g | 2 ^ 38 ≤ g ∧ g < 2 ^ 38 + 2 ^ 20} m (frameOf m.cr3) :=
    emptyMachine_space (by norm_num) (by norm_num) (by norm_num)
  have hcr3 : m.cr3 ≠ 0#64 := frameAddr_ne_zero (by norm_num) (by norm_num)
  have hroom : m.pmm.freeCount = 2 ^ 20 - 1 := by
    rw [hm, emptyMachine_freeCount]
    norm_num
  have hsame := hconf _ m _ hsp hcr3 (Framebuffer.outside_above hfb _) rfl v hout
  rw [sysMmap_machine, mmapTarget_machine] at hsame
  obtain ⟨_, hrun⟩ := (mmapTarget s addr len flags fd).1.run_maps hsp hcr3
    (Framebuffer.outside_above hfb _)
  have hmoves := (hrun.maps hsp.manages).moves
  have hspace := hmoves.space
  rw [← hmoves.cr3_eq] at hspace
  rw [translate_eq_pageView hspace.entries, hmoves.cr3_eq, hm, emptyMachine_translate]
    at hsame
  refine hrun.reaches (MmapTarget.first_aligned hi) hi (by omega) (fun w page hw => ?_) hv hsame
  rw [hm, emptyMachine_view] at hw
  simp at hw

end HelixOS
