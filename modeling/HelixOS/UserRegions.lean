import HelixOS.MmapWindows

/-!
# The regions of a task's memory

The heap, the framebuffer mappings and the anonymous mappings of a task grow upwards from
three pointers, and nothing keeps one below the start of the next.
-/

namespace HelixOS

open RadixMemory List

variable {addr flags fd prot off : Word} {m : Machine} {len : Word} {A : Set ℕ}

/-! ## Calls and stores -/

/-- A call of the task, without an address for `mmap`, or a store of the program. -/
inductive UserStep where
  | brk (addr : Word)
  | mmap (len prot flags fd off : Word)
  | store (v : Word) (i : Fin 512) (w : Word)

def UserStep.isCall : UserStep → Prop
  | .store _ _ _ => False
  | _ => True

/-- The program can only write to its own writable pages. -/
def storeWord (m : Machine) (v : Word) (i : Fin 512) (w : Word) : Machine :=
  match translate m.mem m.cr3 v with
  | some page => if page.user && page.writable then m.setEntry page.frame i w else m
  | none => m

def UserStep.run (fb : Framebuffer) (s : MemState) : UserStep → MemState
  | .brk addr => (sysBrk s addr).2
  | .mmap len prot flags fd off => (sysMmap fb s 0#64 len prot flags fd off).2
  | .store v i w => { s with machine := storeWord s.machine v i w }

/-- Every user page of `s` is still there in `t`, with its frame and its content. -/
def SameUserPages (s t : Machine) : Prop :=
  ∀ v page, translate s.mem s.cr3 v = some page → page.user = true →
    translate t.mem t.cr3 v = some page ∧ t.mem page.frame = s.mem page.frame

/-! ## Regions -/

/-- The heap ends below the framebuffer mappings, or at the ceiling of low images. -/
def heapEnd (brkStart : Word) : ℕ := if brkStart ≥ userBase then 0x41000000 else 0x3F000000

/-- The framebuffer mappings end below the first anonymous mapping. -/
def fbEnd : ℕ := 0x42000000

def Unused (s : Machine) (lo hi : ℕ) : Prop :=
  ∀ v page, translate s.mem s.cr3 v = some page → page.user = true → ¬ PagesOf lo hi v

/-- Each region starts in its place and is unused behind its pointer; the anonymous mappings end
at `stack`. -/
structure Layout (A : Set ℕ) (stack : ℕ) (s : MemState) : Prop where
  space : SpaceIn A s.machine (frameOf s.machine.cr3)
  loaded : s.machine.cr3 ≠ 0#64
  start_le : s.initBrk.brkStart ≤ s.initBrk.brkCurr
  curr_le : s.initBrk.brkCurr.toNat ≤ heapEnd s.initBrk.brkStart
  fb_start : s.fbBump.toNat % 4096 = 0 ∧ 0x41000000 ≤ s.fbBump.toNat
  anon_start : s.anonBump.toNat % 4096 = 0 ∧ 0x42000000 ≤ s.anonBump.toNat
  stack_end : stack % 4096 = 0 ∧ stack ≤ 0x44000000
  heap : Unused s.machine (pageUp s.initBrk.brkCurr).toNat (heapEnd s.initBrk.brkStart)
  framebuffer : Unused s.machine s.fbBump.toNat fbEnd
  anonymous : Unused s.machine s.anonBump.toNat stack

/-- The break stays in the heap, does not go back by a page and finds enough free frames. -/
def BrkFits (s : MemState) (addr : Word) : Prop :=
  addr = 0#64 ∨ addr < s.initBrk.brkStart ∨ brkCeiling s.initBrk.brkStart ≤ addr ∨
    ((pageUp s.initBrk.brkCurr).toNat ≤ (pageUp addr).toNat ∧
      (pageUp addr).toNat ≤ heapEnd s.initBrk.brkStart ∧
      4 * pagesBetween (pageUp s.initBrk.brkCurr) (pageUp addr) ≤ s.machine.pmm.freeCount)

/-- The request is for the whole framebuffer and ends with the region. -/
def FbFits (fb : Framebuffer) (s : MemState) (len : Word) : Prop :=
  s.fbBump.toNat + (pageUp len).toNat < 2 ^ 64 ∧
    (s.fbBump + pageUp len < bumpLimit →
      fb.pages * 4096 ≤ (pageUp len).toNat ∧ s.fbBump.toNat + fb.pages * 4096 ≤ fbEnd)

def AnonFits (stack : ℕ) (s : MemState) (len : Word) : Prop :=
  s.anonBump.toNat + (pageUp len).toNat < 2 ^ 64 ∧
    (s.anonBump + pageUp len < bumpLimit → s.anonBump.toNat + (pageUp len).toNat ≤ stack)

/-- The step keeps to its region.  `mmap` refuses an empty range, a file and the address 0
as a fixed one before it maps anything. -/
def UserStep.Fits (fb : Framebuffer) (stack : ℕ) (s : MemState) : UserStep → Prop
  | .brk addr => BrkFits s addr
  | .mmap len _ flags fd _ => len ≠ 0#64 →
      if fd = fbFd then FbFits fb s len
      else hasFlag flags mapAnonymous = true ∨ fd = 0xFFFFFFFFFFFFFFFF#64 →
        hasFlag flags mapFixed = false → AnonFits stack s len
  | .store _ _ _ => True

def AllFit (fb : Framebuffer) (stack : ℕ) : MemState → List UserStep → Prop
  | _, [] => True
  | s, step :: steps => step.Fits fb stack s ∧ AllFit fb stack (step.run fb s) steps

/-! ## What a call does to the regions -/

abbrev MapsRegion (A : Set ℕ) (s t : Machine) (lo hi : ℕ) : Prop :=
  MapsWithin A s t (frameOf s.cr3) (PagesOf lo hi)

lemma pagesOf_iff {lo hi : ℕ} (hlo : lo % 4096 = 0) (hhi : hi % 4096 = 0)
    (hlow : hi ≤ 2 ^ 48) (v : Word) :
    PagesOf lo hi v ↔ lo ≤ pageNum v * 4096 ∧ pageNum v * 4096 < hi := by
  constructor
  · rintro ⟨x, hx, hxlo, hxhi⟩
    rw [hx]
    unfold pageNum
    omega
  · rintro ⟨hvlo, hvhi⟩
    have hpage : (BitVec.ofNat 64 (pageNum v * 4096)).toNat = pageNum v * 4096 := by
      rw [BitVec.toNat_ofNat]
      omega
    have hnum : pageNum (BitVec.ofNat 64 (pageNum v * 4096)) = pageNum v := by
      rw [pageNum, hpage]
      omega
    exact ⟨BitVec.ofNat 64 (pageNum v * 4096), hnum.symm, by omega, by omega⟩

section Regions

variable {s t : Machine} {lo hi : ℕ}

section

variable (hregion : MapsRegion A s t lo hi) (hsp : SpaceIn A s (frameOf s.cr3))
include hregion hsp

lemma MapsRegion.spaceIn : SpaceIn A t (frameOf t.cr3) := by
  rw [hregion.moves.cr3_eq]
  exact hregion.moves.spaceIn hsp

lemma MapsRegion.translate {v : Word} (hv : ¬ PagesOf lo hi v) :
    translate t.mem t.cr3 v = translate s.mem s.cr3 v := by
  rw [translate_eq_pageView (hregion.spaceIn hsp).ok.entries,
    translate_eq_pageView hsp.ok.entries, hregion.moves.cr3_eq, hregion.view v hv]

lemma MapsRegion.sameUserPages (hunused : Unused s lo hi) : SameUserPages s t := by
  intro v page hpage huser
  refine ⟨?_, ?_⟩
  · rw [hregion.translate hsp (hunused v page hpage huser), hpage]
  · rw [translate_eq_pageView hsp.ok.entries] at hpage
    exact (hregion.held _ (hsp.held_of_user hpage huser)).2

lemma MapsRegion.unused {a a' b : ℕ} (hunused : Unused s a b) (haa' : a ≤ a')
    (hapart : ∀ v, PagesOf a' b v → ¬ PagesOf lo hi v) : Unused t a' b := by
  intro v page hpage huser hv
  rw [hregion.translate hsp (hapart v hv)] at hpage
  obtain ⟨x, hx, hlo, hhi⟩ := hv
  exact hunused v page hpage huser ⟨x, hx, haa'.trans hlo, hhi⟩

end

lemma MapRun.not_sameUserPages {n : ℕ} {va v : Word} {page : Mapping} {r : Bool × Machine}
    (hrun : MapRun A (frameOf s.cr3) n va s r) (hok : r.1 = true)
    (hsp : SpaceIn A s (frameOf s.cr3)) (hv : InRange va n v)
    (hpage : pageView s.mem (frameOf s.cr3) v = some page) (huser : page.user = true)
    (hmem : page.frame ∈ A) : ¬ SameUserPages s r.2 := by
  intro hsame
  obtain ⟨page', hpage', hnew⟩ := hrun.fresh hok hv
  have hmoves := (hrun.maps hsp.manages).moves
  have hsp' := hmoves.spaceIn hsp
  rw [← hmoves.cr3_eq] at hsp' hpage'
  obtain ⟨hkept, -⟩ :=
    hsame v page ((translate_eq_pageView hsp.ok.entries v).trans hpage) huser
  rw [translate_eq_pageView hsp'.ok.entries, hpage'] at hkept
  obtain rfl := Option.some.inj hkept
  exact hnew hmem (hsp.held_of_user hpage huser)

lemma SameUserPages.trans {u : Machine} (hst : SameUserPages s t) (htu : SameUserPages t u) :
    SameUserPages s u := by
  intro v page hpage huser
  obtain ⟨hpage', hsame⟩ := hst v page hpage huser
  obtain ⟨hpage'', hsame'⟩ := htu v page hpage' huser
  exact ⟨hpage'', hsame'.trans hsame⟩

end Regions

section Keeping

variable {fb : Framebuffer} {stack : ℕ} {s : MemState}

lemma heapEnd_le (brkStart : Word) : heapEnd brkStart ≤ 0x41000000 := by
  unfold heapEnd
  split <;> omega

lemma heapEnd_aligned (brkStart : Word) : heapEnd brkStart % 4096 = 0 := by
  unfold heapEnd
  split <;> rfl

lemma Layout.pageUp_curr (hlayout : Layout A stack s) :
    s.initBrk.brkCurr.toNat ≤ (pageUp s.initBrk.brkCurr).toNat := by
  have hcurr := hlayout.curr_le
  have hend := heapEnd_le s.initBrk.brkStart
  rw [pageUp_toNat]
  omega

/-- Each pointer is still in its region, and the mapped pages are not in front of it. -/
structure MovesOn (s s' : MemState) (lo hi : ℕ) : Prop where
  start_eq : s'.initBrk.brkStart = s.initBrk.brkStart
  start_le : s'.initBrk.brkStart ≤ s'.initBrk.brkCurr
  curr_le : s'.initBrk.brkCurr.toNat ≤ heapEnd s.initBrk.brkStart
  heap : (pageUp s.initBrk.brkCurr).toNat ≤ (pageUp s'.initBrk.brkCurr).toNat ∧
    (hi ≤ (pageUp s'.initBrk.brkCurr).toNat ∨ heapEnd s.initBrk.brkStart ≤ lo)
  framebuffer : s'.fbBump.toNat % 4096 = 0 ∧ s.fbBump.toNat ≤ s'.fbBump.toNat ∧
    (hi ≤ s'.fbBump.toNat ∨ fbEnd ≤ lo)
  anonymous : s'.anonBump.toNat % 4096 = 0 ∧ s.anonBump.toNat ≤ s'.anonBump.toNat ∧
    hi ≤ s'.anonBump.toNat

lemma Layout.movesOn {s' : MemState} {lo hi : ℕ} (hlayout : Layout A stack s)
    (hregion : MapsRegion A s.machine s'.machine lo hi) (hon : MovesOn s s' lo hi)
    (hlo : lo % 4096 = 0) (hhi : hi % 4096 = 0) (hlow : hi ≤ 2 ^ 48) : Layout A stack s' := by
  have hfbStart := hlayout.fb_start
  have hanonStart := hlayout.anon_start
  obtain ⟨hstackAligned, hstack⟩ := hlayout.stack_end
  have hend := heapEnd_le s.initBrk.brkStart
  have hendAligned := heapEnd_aligned s.initBrk.brkStart
  have hcurrAligned := pageUp_aligned s'.initBrk.brkCurr
  obtain ⟨hheap, hheapApart⟩ := hon.heap
  obtain ⟨hfbAligned, hfb, hfbApart⟩ := hon.framebuffer
  obtain ⟨hanonAligned, hanon, hanonApart⟩ := hon.anonymous
  refine ⟨hregion.spaceIn hlayout.space, ?_, hon.start_le, ?_, ⟨hfbAligned, by omega⟩,
    ⟨hanonAligned, by omega⟩, hlayout.stack_end, ?_, ?_, ?_⟩
  · rw [hregion.moves.cr3_eq]
    exact hlayout.loaded
  · rw [hon.start_eq]
    exact hon.curr_le
  · rw [hon.start_eq]
    refine hregion.unused hlayout.space hlayout.heap hheap fun v hv hmapped => ?_
    rw [pagesOf_iff hcurrAligned hendAligned (by omega)] at hv
    rw [pagesOf_iff hlo hhi hlow] at hmapped
    omega
  · refine hregion.unused hlayout.space hlayout.framebuffer hfb fun v hv hmapped => ?_
    rw [pagesOf_iff hfbAligned (by decide) (by decide)] at hv
    rw [pagesOf_iff hlo hhi hlow] at hmapped
    omega
  · refine hregion.unused hlayout.space hlayout.anonymous hanon fun v hv hmapped => ?_
    rw [pagesOf_iff hanonAligned hstackAligned (by omega)] at hv
    rw [pagesOf_iff hlo hhi hlow] at hmapped
    omega

/-! ### The break -/

lemma initBrk_start_ne_zero (s : MemState) : s.initBrk.brkStart ≠ 0#64 := by
  unfold MemState.initBrk
  split
  · exact show userBase + 0x100000#64 ≠ 0#64 by decide
  · assumption

def MemState.withBrk (s : MemState) (t : Machine) (curr : Word) : MemState :=
  { s.initBrk with machine := t, brkCurr := curr }

@[simp] lemma withBrk_initBrk (s : MemState) (t : Machine) (curr : Word) :
    (s.withBrk t curr).initBrk = s.withBrk t curr :=
  if_neg (initBrk_start_ne_zero s)

@[simp] lemma withBrk_fbBump (s : MemState) (t : Machine) (curr : Word) :
    (s.withBrk t curr).fbBump = s.fbBump := by
  simp only [MemState.withBrk, MemState.initBrk]
  split <;> rfl

@[simp] lemma withBrk_anonBump (s : MemState) (t : Machine) (curr : Word) :
    (s.withBrk t curr).anonBump = s.anonBump := by
  simp only [MemState.withBrk, MemState.initBrk]
  split <;> rfl

lemma sysBrk_refused (hrefused : addr = 0#64 ∨ addr < s.initBrk.brkStart ∨
    brkCeiling s.initBrk.brkStart ≤ addr) :
    (sysBrk s addr).2 = s.withBrk s.machine s.initBrk.brkCurr := by
  have hsame : s.initBrk = s.withBrk s.machine s.initBrk.brkCurr := by
    rw [MemState.withBrk, ← initBrk_machine s]
  rw [← hsame]
  simp only [sysBrk]
  rcases hrefused with hzero | hlow | hhigh
  · rw [if_pos hzero]
  · rw [if_pos hlow]
    split <;> rfl
  · rw [if_pos (show addr ≥ brkCeiling s.initBrk.brkStart from hhigh)]
    split
    · rfl
    · split <;> rfl

lemma sysBrk_loop {ok : Bool} {t : Machine} (hzero : addr ≠ 0#64)
    (hlow : s.initBrk.brkStart ≤ addr) (hhigh : addr < brkCeiling s.initBrk.brkStart)
    (hloop : forPages (fun m va => vmmAllocUserPages m va 1#64 true) (pageUp addr)
      (pagesBetween (pageUp s.initBrk.brkCurr) (pageUp addr)) (pageUp s.initBrk.brkCurr)
      s.machine = (ok, t)) :
    sysBrk s addr = (if ok then addr else s.initBrk.brkCurr,
      s.withBrk t (if ok then addr else s.initBrk.brkCurr)) := by
  rw [sysBrk, if_neg hzero, if_neg (BitVec.not_lt.mpr hlow), if_neg (BitVec.not_le.mpr hhigh)]
  cases ok <;> simp [hloop, MemState.withBrk]

lemma sysBrk_region (hlayout : Layout A stack s) (hfits : BrkFits s addr) :
    ∃ t curr, (sysBrk s addr).2 = s.withBrk t curr ∧ s.initBrk.brkStart ≤ curr ∧
      curr.toNat ≤ heapEnd s.initBrk.brkStart ∧
      (pageUp s.initBrk.brkCurr).toNat ≤ (pageUp curr).toNat ∧
      MapsRegion A s.machine t (pageUp s.initBrk.brkCurr).toNat (pageUp curr).toNat := by
  by_cases hrefused : addr = 0#64 ∨ addr < s.initBrk.brkStart ∨
      brkCeiling s.initBrk.brkStart ≤ addr
  · exact ⟨_, _, sysBrk_refused hrefused, hlayout.start_le, hlayout.curr_le, le_rfl,
      (KeepsPages.refl hlayout.space).maps⟩
  simp only [not_or, BitVec.not_lt, BitVec.not_le] at hrefused
  obtain ⟨hzero, hlow, hhigh⟩ := hrefused
  obtain ⟨hgrow, hend, hroom⟩ : _ ∧ _ ∧ _ := by
    rcases hfits with h | h | h | h
    · exact absurd h hzero
    · exact absurd h (BitVec.not_lt.mpr hlow)
    · exact absurd h (BitVec.not_le.mpr hhigh)
    · exact h
  have hold := pageUp_aligned s.initBrk.brkCurr
  have hneu := pageUp_aligned addr
  have hstart := hlayout.start_le
  have hcurr := hlayout.pageUp_curr
  obtain ⟨n, hn⟩ : ∃ n, n = ((pageUp addr).toNat - (pageUp s.initBrk.brkCurr).toNat) / 4096 :=
    ⟨_, rfl⟩
  have hpages : pagesBetween (pageUp s.initBrk.brkCurr) (pageUp addr) = n := by
    rw [pagesBetween, BitVec.toNat_sub]
    omega
  -- both regions of the heap lie in one GiB
  have hgib : n = 0 ∨ (pageUp s.initBrk.brkCurr).toNat / 2 ^ 30 =
      ((pageUp s.initBrk.brkCurr).toNat + 4096 * n - 1) / 2 ^ 30 := by
    rw [BitVec.le_def] at hstart
    unfold heapEnd at hend
    split at hend
    · rename_i hbase
      rw [ge_iff_le, BitVec.le_def] at hbase
      have hvalue : userBase.toNat = 0x40000000 := rfl
      omega
    · omega
  have haddr : addr.toNat ≤ (pageUp addr).toNat := by
    have := brkCeiling_lt s.initBrk.brkStart
    rw [BitVec.lt_def] at hhigh
    rw [pageUp_toNat]
    omega
  have hrun := allocUserLoop_run true n (pageUp s.initBrk.brkCurr) hlayout.space hlayout.loaded
  have hloop := brkLoop_eq (s := s.machine) hold hneu
  have hbound := (pageUp addr).isLt
  rw [← hn] at hloop
  rcases hrun.all_or_none hold (by omega) (by omega) hgib with hok | hkept
  · rw [sysBrk_loop hzero hlow hhigh (hloop.trans (Prod.ext hok rfl))]
    exact ⟨_, addr, rfl, hlow, by omega, hgrow, (hrun.maps hlayout.space.manages).mono
      fun v hv => hv.pagesOf hold (by omega) hbound⟩
  · rw [sysBrk_loop hzero hlow hhigh hloop]
    cases hflag : (allocUserLoop true n (pageUp s.initBrk.brkCurr) s.machine).1 with
    | true => exact ⟨_, addr, rfl, hlow, by omega, hgrow, hkept.maps⟩
    | false => exact ⟨_, _, rfl, hlayout.start_le, hlayout.curr_le, le_rfl, hkept.maps⟩

lemma sysBrk_keeps (hlayout : Layout A stack s) (hfits : BrkFits s addr) :
    SameUserPages s.machine (sysBrk s addr).2.machine ∧ Layout A stack (sysBrk s addr).2 := by
  obtain ⟨t, curr, heq, hstart, hcurr, hgrow, hregion⟩ := sysBrk_region hlayout hfits
  have hend := heapEnd_le s.initBrk.brkStart
  have hendAligned := heapEnd_aligned s.initBrk.brkStart
  have hup : (pageUp curr).toNat ≤ heapEnd s.initBrk.brkStart := by
    rw [pageUp_toNat]
    omega
  rw [heq]
  constructor
  · refine hregion.sameUserPages hlayout.space fun v page hpage huser hv => ?_
    obtain ⟨x, hx, hlo, hhi⟩ := hv
    exact hlayout.heap v page hpage huser ⟨x, hx, hlo, by omega⟩
  · have hfbStart := hlayout.fb_start
    have hanonStart := hlayout.anon_start
    refine hlayout.movesOn hregion ⟨?_, ?_, ?_, ?_, ?_, ?_⟩ (pageUp_aligned _)
      (pageUp_aligned _) (by omega)
    · rw [withBrk_initBrk]
      rfl
    · rw [withBrk_initBrk]
      exact hstart
    · rw [withBrk_initBrk]
      exact hcurr
    · rw [withBrk_initBrk]
      exact ⟨hgrow, Or.inl le_rfl⟩
    · rw [withBrk_fbBump]
      omega
    · rw [withBrk_anonBump]
      omega

/-! ### Mappings -/

lemma mmapTarget_zero_cases (s : MemState) (len flags fd) :
    (∃ e, mmapTarget s 0#64 len flags fd = (.nothing e, s)) ∨
    (len ≠ 0#64 ∧ fd = fbFd ∧ mmapTarget s 0#64 len flags fd =
      (if s.fbBump + pageUp len ≥ bumpLimit then .nothing .enomem else .framebuffer s.fbBump,
        { s with fbBump := s.fbBump + pageUp len })) ∨
    (len ≠ 0#64 ∧ fd ≠ fbFd ∧
      (hasFlag flags mapAnonymous = true ∨ fd = 0xFFFFFFFFFFFFFFFF#64) ∧
      hasFlag flags mapFixed = false ∧ mmapTarget s 0#64 len flags fd =
      (if s.anonBump + pageUp len ≥ bumpLimit then .nothing .enomem
        else .anonymous s.anonBump (pageUp len / 4096#64),
        { s with anonBump := s.anonBump + pageUp len })) := by
  have hnowhere : ∀ hi, okRange (pageDown 0#64) hi = false := by
    simp [okRange, show pageDown 0#64 = 0#64 from rfl, userBase, userLowMin]
  unfold mmapTarget
  by_cases hlen : len = 0#64
  · exact Or.inl ⟨.einval, by rw [if_pos hlen]⟩
  rw [if_neg hlen]
  by_cases hfd : fd = fbFd
  · exact Or.inr (Or.inl ⟨hlen, hfd, by rw [if_pos hfd, if_pos rfl]⟩)
  rw [if_neg hfd]
  by_cases hanon : hasFlag flags mapAnonymous = true ∨ fd = 0xFFFFFFFFFFFFFFFF#64
  · rw [if_neg (by rcases hanon with h | h <;> simp [h])]
    cases hfixed : hasFlag flags mapFixed with
    | false => exact Or.inr (Or.inr ⟨hlen, hfd, hanon, rfl, by simp⟩)
    | true => exact Or.inl ⟨.einval, by simp [hnowhere]⟩
  · exact Or.inl ⟨.enosys, by rw [if_pos (by simpa using hanon)]⟩

lemma sysMmap_state (fb : Framebuffer) (s : MemState) (addr len prot flags fd off) :
    (sysMmap fb s addr len prot flags fd off).2 =
      { (mmapTarget s addr len flags fd).2 with
        machine := (sysMmap fb s addr len prot flags fd off).2.machine } := by
  unfold sysMmap
  generalize mmapTarget s addr len flags fd = target
  obtain ⟨target, s'⟩ := target
  cases target <;> rfl

lemma fbMapUser_region (hlayout : Layout A stack s) (hout : fb.Outside A)
    (hlow : s.fbBump.toNat + fb.pages * 4096 ≤ fbEnd) :
    MapsRegion A s.machine (fbMapUser fb s.machine s.fbBump).2 s.fbBump.toNat
      (s.fbBump.toNat + fb.pages * 4096) := by
  obtain ⟨haligned, -⟩ := hlayout.fb_start
  have hdown : pageDown s.fbBump = s.fbBump := by
    apply BitVec.eq_of_toNat_eq
    rw [pageDown_toNat]
    omega
  have hfb : fbEnd = 0x42000000 := rfl
  obtain ⟨_, hrun⟩ := fbMapUser_run hlayout.space hlayout.loaded hout s.fbBump
  rw [hdown] at hrun
  refine (hrun.maps hlayout.space.manages).mono fun v hv => hv.pagesOf haligned ?_ (by omega)
  split <;> omega

lemma vmmAllocUserPages_region (hlayout : Layout A stack s)
    (hlow : s.anonBump.toNat + (pageUp len).toNat ≤ stack) :
    MapsRegion A s.machine
      (vmmAllocUserPages s.machine s.anonBump (pageUp len / 4096#64) true).2 s.anonBump.toNat
      (s.anonBump.toNat + (pageUp len).toNat) := by
  obtain ⟨haligned, -⟩ := hlayout.anon_start
  obtain ⟨-, hstack⟩ := hlayout.stack_end
  have hpages : (pageUp len / 4096#64).toNat * 4096 = (pageUp len).toNat := by
    have := pageUp_aligned len
    rw [BitVec.toNat_udiv, show (4096#64 : Word).toNat = 4096 from rfl]
    omega
  obtain ⟨_, hrun⟩ := vmmAllocUserPages_run hlayout.space hlayout.loaded s.anonBump
    (pageUp len / 4096#64) true
  exact (hrun.maps hlayout.space.manages).mono fun v hv =>
    hv.pagesOf haligned (by omega) (by omega)

def MemState.withBumps (s : MemState) (t : Machine) (f a : Word) : MemState :=
  { s with machine := t, fbBump := f, anonBump := a }

@[simp] lemma withBumps_brkStart (s : MemState) (t : Machine) (f a : Word) :
    (s.withBumps t f a).initBrk.brkStart = s.initBrk.brkStart := by
  by_cases hzero : s.brkStart = 0#64 <;> simp [MemState.withBumps, MemState.initBrk, hzero]

@[simp] lemma withBumps_brkCurr (s : MemState) (t : Machine) (f a : Word) :
    (s.withBumps t f a).initBrk.brkCurr = s.initBrk.brkCurr := by
  by_cases hzero : s.brkStart = 0#64 <;> simp [MemState.withBumps, MemState.initBrk, hzero]

lemma Layout.withBumps {t : Machine} {f a : Word} {lo hi : ℕ} (hlayout : Layout A stack s)
    (hregion : MapsRegion A s.machine t lo hi) (hunused : Unused s.machine lo hi)
    (hlo : lo % 4096 = 0) (hhi : hi % 4096 = 0) (habove : 0x41000000 ≤ lo)
    (hf : f.toNat % 4096 = 0 ∧ s.fbBump.toNat ≤ f.toNat ∧ (hi ≤ f.toNat ∨ fbEnd ≤ lo))
    (ha : a.toNat % 4096 = 0 ∧ s.anonBump.toNat ≤ a.toNat ∧ hi ≤ a.toNat) (hlow : hi ≤ 2 ^ 48) :
    SameUserPages s.machine t ∧ Layout A stack (s.withBumps t f a) := by
  have hend := heapEnd_le s.initBrk.brkStart
  refine ⟨hregion.sameUserPages hlayout.space hunused,
    hlayout.movesOn hregion ⟨?_, ?_, ?_, ?_, hf, ha⟩ hlo hhi hlow⟩
  · rw [withBumps_brkStart]
  · rw [withBumps_brkStart, withBumps_brkCurr]
    exact hlayout.start_le
  · rw [withBumps_brkCurr]
    exact hlayout.curr_le
  · rw [withBumps_brkCurr]
    exact ⟨le_rfl, Or.inr (hend.trans habove)⟩

lemma Unused.mono {lo hi hi' : ℕ} (hunused : Unused m lo hi) (hle : hi' ≤ hi) :
    Unused m lo hi' := by
  rintro v page hpage huser ⟨x, hx, hlo, hhi⟩
  exact hunused v page hpage huser ⟨x, hx, hlo, hhi.trans_le hle⟩

lemma unused_empty (m) (lo : ℕ) : Unused m lo lo := by
  rintro v page - - ⟨x, -, hlo, hhi⟩
  omega

lemma toNat_add_pageUp {bump : Word} (haligned : bump.toNat % 4096 = 0)
    (hwrap : bump.toNat + (pageUp len).toNat < 2 ^ 64) :
    (bump + pageUp len).toNat = bump.toNat + (pageUp len).toNat ∧
      (bump + pageUp len).toNat % 4096 = 0 := by
  have hup := pageUp_aligned len
  rw [BitVec.toNat_add, Nat.mod_eq_of_lt hwrap]
  omega

lemma sysMmap_moved_keeps {f a bump : Word} {target : MmapTarget}
    (hlayout : Layout A stack s)
    (htarget : mmapTarget s 0#64 len flags fd =
      (if bump ≥ bumpLimit then .nothing .enomem else target,
        { s with fbBump := f, anonBump := a }))
    (hf : f.toNat % 4096 = 0 ∧ s.fbBump.toNat ≤ f.toNat)
    (ha : a.toNat % 4096 = 0 ∧ s.anonBump.toNat ≤ a.toNat)
    (hmaps : bump < bumpLimit → SameUserPages s.machine (target.run fb s.machine) ∧
      Layout A stack (s.withBumps (target.run fb s.machine) f a)) :
    SameUserPages s.machine (sysMmap fb s 0#64 len prot flags fd off).2.machine ∧
      Layout A stack (sysMmap fb s 0#64 len prot flags fd off).2 := by
  have hmachine := sysMmap_machine fb s 0#64 len prot flags fd off
  have hstate := sysMmap_state fb s 0#64 len prot flags fd off
  rw [htarget] at hmachine hstate
  generalize (sysMmap fb s 0#64 len prot flags fd off).2 = s' at hmachine hstate ⊢
  have hs' : s' = s.withBumps s'.machine f a := hstate
  rw [hs', hmachine]
  by_cases hlimit : bump ≥ bumpLimit
  · rw [if_pos hlimit]
    have hfb := hlayout.fb_start
    have hanon := hlayout.anon_start
    exact hlayout.withBumps (KeepsPages.refl hlayout.space).maps (unused_empty _ 0x41000000) rfl rfl
      le_rfl (by omega) (by omega) (by omega)
  · rw [if_neg hlimit]
    exact hmaps (BitVec.not_le.mp hlimit)

lemma SameUserPages.refl (m) : SameUserPages m m :=
  fun _ _ hpage _ => ⟨hpage, rfl⟩

lemma sysMmap_keeps (hlayout : Layout A stack s)
    (hout : fb.Outside A) (hfits : (UserStep.mmap len prot flags fd off).Fits fb stack s) :
    SameUserPages s.machine (sysMmap fb s 0#64 len prot flags fd off).2.machine ∧
      Layout A stack (sysMmap fb s 0#64 len prot flags fd off).2 := by
  have hfb := hlayout.fb_start
  have hbase := hlayout.anon_start
  have hstack := hlayout.stack_end
  have hfbEnd : fbEnd = 0x42000000 := rfl
  rcases mmapTarget_zero_cases s len flags fd with
    ⟨e, htarget⟩ | ⟨hlen, hfd, htarget⟩ | ⟨hlen, hfd, hanon, hfixed, htarget⟩
  · have hsame : (sysMmap fb s 0#64 len prot flags fd off).2 = s := by
      rw [sysMmap, htarget]
    rw [hsame]
    exact ⟨SameUserPages.refl _, hlayout⟩
  · have hroom := hfits hlen
    rw [if_pos hfd] at hroom
    obtain ⟨hwrap, hmap⟩ := hroom
    obtain ⟨hbump, hbumpAligned⟩ := toNat_add_pageUp hfb.1 hwrap
    refine sysMmap_moved_keeps hlayout htarget (by omega) (by omega) fun hlimit => ?_
    obtain ⟨hlen, hend⟩ := hmap hlimit
    exact hlayout.withBumps (fbMapUser_region hlayout hout hend)
      (hlayout.framebuffer.mono hend) hfb.1 (by omega) hfb.2 (by omega) (by omega) (by omega)
  · have hroom := hfits hlen
    rw [if_neg hfd] at hroom
    obtain ⟨hwrap, hmap⟩ := hroom hanon hfixed
    obtain ⟨hbump, hbumpAligned⟩ := toNat_add_pageUp hbase.1 hwrap
    refine sysMmap_moved_keeps hlayout htarget (by omega) (by omega) fun hlimit => ?_
    have hend := hmap hlimit
    exact hlayout.withBumps (vmmAllocUserPages_region hlayout hend) (hlayout.anonymous.mono hend)
      hbase.1 (by omega) (by omega) (by omega) (by omega) (by omega)

/-! ### Stores -/

lemma storeWord_cr3 (m) (v : Word) (i : Fin 512) (w : Word) :
    (storeWord m v i w).cr3 = m.cr3 := by
  unfold storeWord
  split
  · split <;> rfl
  · rfl

lemma storeWord_pmm (m) (v : Word) (i : Fin 512) (w : Word) :
    (storeWord m v i w).pmm = m.pmm := by
  unfold storeWord
  split
  · split <;> rfl
  · rfl

section

variable (hsp : SpaceIn A m (frameOf m.cr3)) (v : Word) (i : Fin 512) (w : Word)
include hsp v i w

lemma storeWord_tables {g : ℕ} (hg : tabsOf m.mem (frameOf m.cr3) g ≠ 0) :
    (storeWord m v i w).mem g = m.mem g := by
  unfold storeWord
  split
  · rename_i page hpage
    split
    · rename_i hwritable
      rw [translate_eq_pageView hsp.ok.entries] at hpage
      have hheld := hsp.held_of_user hpage (by simp_all)
      refine setEntry_frame_ne m.mem ?_ i w
      rintro rfl
      exact hg hheld.2
    · rfl
  · rfl

lemma storeWord_space : SpaceIn A (storeWord m v i w) (frameOf (storeWord m v i w).cr3) := by
  have hagree : ∀ g, tabsOf m.mem (frameOf m.cr3) g ≠ 0 →
      (storeWord m v i w).mem g = m.mem g := fun _ => storeWord_tables hsp v i w
  rw [storeWord_cr3]
  refine ⟨hsp.ok.congr hagree, fun g hg => ?_, fun g hg => ?_, ?_⟩
  · rw [tabsOf, tableTabs_congr g hagree] at hg
    exact hsp.tables g hg
  · rw [refsOf_congr g hagree, storeWord_pmm]
    exact hsp.refs_le g hg
  · rw [storeWord_pmm]
    exact hsp.manages

lemma storeWord_translate (x : Word) :
    translate (storeWord m v i w).mem (storeWord m v i w).cr3 x = translate m.mem m.cr3 x := by
  have hview := pageView_congr x fun g hg => storeWord_tables hsp v i w hg
  rw [translate_eq_pageView (storeWord_space hsp v i w).ok.entries, storeWord_cr3,
    translate_eq_pageView hsp.ok.entries, hview]

end

lemma Layout.store (hlayout : Layout A stack s) (v : Word) (i : Fin 512) (w : Word) :
    Layout A stack { s with machine := storeWord s.machine v i w } := by
  have hunused : ∀ {lo hi : ℕ}, Unused s.machine lo hi →
      Unused (storeWord s.machine v i w) lo hi := by
    intro lo hi hunused x page hpage
    rw [storeWord_translate hlayout.space] at hpage
    exact hunused x page hpage
  have hstate : { s with machine := storeWord s.machine v i w } =
      s.withBumps (storeWord s.machine v i w) s.fbBump s.anonBump := rfl
  rw [hstate]
  refine ⟨storeWord_space hlayout.space v i w, ?_, ?_, ?_, hlayout.fb_start, hlayout.anon_start,
    hlayout.stack_end, ?_, hunused hlayout.framebuffer, hunused hlayout.anonymous⟩
  · exact (storeWord_cr3 s.machine v i w).symm ▸ hlayout.loaded
  · rw [withBumps_brkStart, withBumps_brkCurr]
    exact hlayout.start_le
  · rw [withBumps_brkStart, withBumps_brkCurr]
    exact hlayout.curr_le
  · rw [withBumps_brkStart, withBumps_brkCurr]
    exact hunused hlayout.heap

/-! ## Runs -/

section

variable (hlayout : Layout A stack s) (hout : fb.Outside A)
include hlayout hout

lemma UserStep.run_layout {step : UserStep} (hfits : step.Fits fb stack s) :
    Layout A stack (step.run fb s) := by
  cases step with
  | brk addr => exact (sysBrk_keeps hlayout hfits).2
  | mmap len prot flags fd off => exact (sysMmap_keeps hlayout hout hfits).2
  | store v i w => exact hlayout.store v i w

lemma UserStep.run_sameUserPages {step : UserStep} (hfits : step.Fits fb stack s)
    (hcall : step.isCall) : SameUserPages s.machine (step.run fb s).machine := by
  cases step with
  | brk addr => exact (sysBrk_keeps hlayout hfits).1
  | mmap len prot flags fd off => exact (sysMmap_keeps hlayout hout hfits).1
  | store v i w => exact hcall.elim

lemma AllFit.layout {steps : List UserStep} (hall : AllFit fb stack s steps) :
    Layout A stack (steps.foldl (UserStep.run fb) s) := by
  induction steps generalizing s with
  | nil => exact hlayout
  | cons step steps ih => exact ih (step.run_layout hlayout hout hall.1) hall.2

lemma AllFit.sameUserPages {calls : List UserStep} (hall : AllFit fb stack s calls)
    (hcalls : ∀ call ∈ calls, call.isCall) :
    SameUserPages s.machine (calls.foldl (UserStep.run fb) s).machine := by
  induction calls generalizing s with
  | nil => exact SameUserPages.refl _
  | cons call calls ih =>
    have hfirst := call.run_sameUserPages hlayout hout hall.1 (hcalls call (by simp))
    exact hfirst.trans (ih (call.run_layout hlayout hout hall.1) hall.2
      fun c hc => hcalls c (mem_cons_of_mem _ hc))

end

end Keeping

/-! ## A task with an empty page table -/

section Empty

variable {total : ℕ}

lemma layout_initial (htotal : 1 < total) (hfits : total ≤ 2 ^ 40) :
    Layout {g | 1 ≤ g ∧ g < total} 0x43FC0000 (.initial (emptyMachine 1 total)) := by
  have hunused : ∀ lo hi, Unused (emptyMachine 1 total) lo hi := by
    intro lo hi v page hpage
    rw [emptyMachine_translate] at hpage
    simp at hpage
  exact ⟨emptyMachine_space (by norm_num) htotal hfits, show frameAddr 1 ≠ 0#64 by decide,
    BitVec.le_refl _, show 0x40100000 ≤ heapEnd 0x40100000#64 by decide,
    show (0x41000000#64 : Word).toNat % 4096 = 0 ∧ 0x41000000 ≤ (0x41000000#64 : Word).toNat
      by decide,
    show (0x42000000#64 : Word).toNat % 4096 = 0 ∧ 0x42000000 ≤ (0x42000000#64 : Word).toNat
      by decide,
    by decide, hunused _ _, hunused _ _, hunused _ _⟩

lemma outside_none (A) : (⟨0#64, 0#64⟩ : Framebuffer).Outside A := by
  intro i hi
  simp [Framebuffer.pages] at hi

end Empty

end HelixOS
