import HelixOS.SegmentBytes

/-!
# Loaded images

`elf_load_image` and `elf_load_dynamic` load the segments of an image, and those of its
interpreter, one after the other.  As long as what is copied stays on the pages of its segment,
no page outside the windows of the loader is touched.
-/

namespace HelixOS

open RadixMemory

variable {img : Image} {eh : Ehdr} {n i : ℕ} {s t : LoadState} {A : Set ℕ}

def Phdr.Loads (ph : Phdr) : Prop := ph.type = ptLoad ∧ ph.memsz ≠ 0#64

/-- Once its pages are prepared, the bytes of the segment that are in the file are refused or
stay on these pages. -/
def Phdr.Stays (img : Image) (ph : Phdr) (bias : Word) (s : LoadState) : Prop :=
  let va := ph.vaddr + bias
  ¬ va + ph.memsz < va → (preparePages va ph.memsz s).1 = true →
    ph.filesz ≠ 0#64 ∧ ph.offset + ph.filesz > img.size ∨
      va.toNat + ph.memsz.toNat ≤ 2 ^ 64 - 4096 ∧
        va.toNat + ph.filesz.toNat ≤ (pageUp (va + ph.memsz)).toNat

/-- The segments among the next `n` headers stay on their pages, as far as the loop comes. -/
def Image.StaysFrom (img : Image) (eh : Ehdr) (bias : Word) (n i : ℕ) (range : Word × Word)
    (s : LoadState) : Prop :=
  ∀ j, j < n → (img.phdr eh (i + j)).Loads → ∀ range' t,
    loadLoadsFrom img eh bias j i range s = (.ok range', t) →
    (img.phdr eh (i + j)).Stays img bias (t.read img (eh.phdrAt (i + j)) phdrSize)

/-- Every segment of the loop stays on its pages. -/
def Image.SegmentsStay (img : Image) (eh : Ehdr) (bias : Word) (s : LoadState) : Prop :=
  img.StaysFrom eh bias eh.phnum.toNat 0 (0xFFFFFFFFFFFFFFFF#64, 0#64) s

/-! ## The windows are not left -/

lemma loads_of_overrun (hs : LoadSpace A s) (hmarks : MarksSound A s)
    (overrun : Bool) : Loads A s { s with overrun := overrun } :=
  ⟨rfl, ⟨hs.space, hs.loaded, hs.plain, hs.identity, hs.reserved⟩, hmarks, fun _ _ => rfl,
    fun _ h => h⟩

/-- If its end wraps to 0, the loop over the pages of a segment has nothing to do. -/
lemma preparePages_wrapped {vaddr memsz : Word} (hsum : vaddr.toNat + memsz.toNat < 2 ^ 64)
    (hend : ¬ vaddr.toNat + memsz.toNat ≤ 2 ^ 64 - 4096) (s) :
    preparePages vaddr memsz s = (true, s) := by
  have hzero : pageUp (vaddr + memsz) = 0#64 := by
    apply BitVec.eq_of_toNat_eq
    rw [pageUp_toNat, BitVec.toNat_add, BitVec.toNat_ofNat]
    omega
  rw [preparePages, hzero]
  cases pagesBetween (pageDown vaddr) 0#64 with
  | zero => rfl
  | succ fuel => exact if_neg (Nat.not_lt_zero _)

/-- Copying and clearing, when all bytes of the segment are on prepared pages. -/
lemma copy_loads (img) {vaddr memsz filesz stop : Word} (offset : Word) (hs : LoadSpace A s)
    (hmarks : MarksSound A s) (hlow : stop.toNat ≤ 2 ^ 48)
    (hready : ∀ v : Word, vaddr.toNat ≤ v.toNat → v.toNat < stop.toNat → s.Ready v)
    (hmem : vaddr.toNat + memsz.toNat ≤ stop.toNat)
    (hfile : vaddr.toNat + filesz.toNat ≤ stop.toNat) :
    Loads A s (match copyFile img vaddr offset filesz s with
      | (.error e, s) => (.error e, s)
      | (.ok (), s) => zeroRest vaddr filesz memsz s : Except LoadError Unit × LoadState).2 := by
  have hsound := hs.readySound hmarks
  rcases copyFile_ready img offset hsound (hfile.trans hlow)
    fun v hlo hhi => hready v hlo (by omega) with hcopy | ⟨t, hcopy, hwrites⟩
  · rw [hcopy]
    exact Loads.refl hs hmarks
  rw [hcopy]
  have hcopied := hwrites.loads hs hmarks
  by_cases hmore : memsz > filesz
  · obtain ⟨u, hrest, hzeros⟩ := zeroRest_ready (hwrites.sound hsound)
      (BitVec.le_of_lt hmore) (hmem.trans hlow)
      fun v hlo hhi => (hwrites.ready v).mpr (hready v hlo (by omega))
    simp only [hrest]
    exact hcopied.trans (hzeros.loads hcopied.space hcopied.marks)
  · simp only [zeroRest, if_neg hmore]
    exact hcopied

lemma mapSegment_loads (img) {ph : Phdr} {bias : Word} (hs : LoadSpace A s)
    (hmarks : MarksSound A s) (hload : ph.Loads) (hstays : ph.Stays img bias s) :
    Loads A s (mapSegment img (ph.vaddr + bias) ph.memsz ph.offset ph.filesz s).2 := by
  unfold Phdr.Stays at hstays
  generalize ph.vaddr + bias = va at hstays ⊢
  unfold mapSegment
  by_cases hwrap : va + ph.memsz < va
  · rw [if_pos hwrap]
    exact Loads.refl hs hmarks
  rw [if_neg hwrap]
  have hsum : va.toNat + ph.memsz.toNat < 2 ^ 64 := by
    rw [BitVec.lt_def, BitVec.toNat_add] at hwrap
    omega
  simp only
  rw [← preparePages]
  cases hloop : preparePages va ph.memsz s with
  | mk ok u =>
    have hcopied := hstays hwrap
    rw [hloop] at hcopied
    by_cases hend : va.toNat + ph.memsz.toNat ≤ 2 ^ 64 - 4096
    · obtain ⟨hprep, hready⟩ := preparePages_prepares hs hmarks hend hload.2 hloop
      cases ok with
      | false => exact hprep.loads
      | true =>
        rcases hcopied rfl with ⟨hfile, hrefused⟩ | ⟨-, hfile⟩
        · simp only [copyFile, if_neg hfile, if_pos hrefused]
          exact hprep.loads
        · obtain ⟨hlow, hready⟩ := hready rfl
          have hstop := (segment_pages hend).2.1
          exact hprep.loads.trans (copy_loads img ph.offset hprep.space hprep.marks hlow hready
            (by omega) hfile)
    · -- nothing is prepared, and the file part is refused
      obtain ⟨rfl, rfl⟩ := Prod.mk.inj ((preparePages_wrapped hsum hend s).symm.trans hloop)
      obtain ⟨hfile, hrefused⟩ := (hcopied rfl).resolve_right fun h => hend h.1
      simp only [copyFile, if_neg hfile, if_pos hrefused]
      exact Loads.refl hs hmarks

lemma loadLoadsFrom_loads (img) (eh) (bias : Word) (n i) (range : Word × Word)
    (hs : LoadSpace A s) (hmarks : MarksSound A s) (hstays : img.StaysFrom eh bias n i range s) :
    Loads A s (loadLoadsFrom img eh bias n i range s).2 := by
  fun_induction loadLoadsFrom img eh bias n i range s with
  | case1 => exact Loads.refl hs hmarks
  | case2 n i range s t ph hskip ih =>
    have hread : Loads A s t := loads_of_overrun hs hmarks t.overrun
    refine hread.trans (ih hread.space hread.marks fun j hj hload range' u hrun => ?_)
    rw [Nat.add_right_comm, Nat.add_assoc] at hload ⊢
    exact hstays (j + 1) (by omega) hload range' u
      ((show _ = _ by rw [loadLoadsFrom, if_pos hskip]).trans hrun)
  | case3 n i range s t ph hload va e u hseg =>
    have hread : Loads A s t := loads_of_overrun hs hmarks t.overrun
    simp only [ne_eq, not_or, not_not] at hload
    have hmap := mapSegment_loads img hread.space hread.marks hload
      (hstays 0 (by omega) hload range s rfl)
    rw [hseg] at hmap
    exact hread.trans hmap
  | case4 n i range s t ph hload va u hseg ih =>
    have hread : Loads A s t := loads_of_overrun hs hmarks t.overrun
    have hskip := hload
    simp only [ne_eq, not_or, not_not] at hload
    have hmap := mapSegment_loads img hread.space hread.marks hload
      (hstays 0 (by omega) hload range s rfl)
    rw [hseg] at hmap
    refine hread.trans (hmap.trans (ih hmap.space hmap.marks
      fun j hj hload range' w hrun => ?_))
    rw [Nat.add_right_comm, Nat.add_assoc] at hload ⊢
    refine hstays (j + 1) (by omega) hload range' w (Eq.trans ?_ hrun)
    rw [loadLoadsFrom, if_neg hskip]
    dsimp only
    rw [show mapSegment img ((img.phdr eh i).vaddr + bias) _ _ _ _ = _ from hseg]

lemma loadLoads_loads (img) {bias : Word} (hs : LoadSpace A s) (hmarks : MarksSound A s)
    (hstays : img.SegmentsStay eh bias s) : Loads A s (loadLoads img eh bias s).2 := by
  have hloop := loadLoadsFrom_loads img eh bias _ _ _ hs hmarks hstays
  unfold loadLoads
  generalize loadLoadsFrom img eh bias eh.phnum.toNat 0 (0xFFFFFFFFFFFFFFFF#64, 0#64) s = result
    at hloop
  obtain ⟨r, t⟩ := result
  cases r with
  | error e => exact hloop
  | ok range =>
    simp only
    split_ifs <;> exact hloop

/-! ### Reading the headers -/

def Image.lowestFrom (img : Image) (eh : Ehdr) : ℕ → ℕ → Word → Word
  | 0, _, low => low
  | n + 1, i, low =>
    let ph := img.phdr eh i
    img.lowestFrom eh n (i + 1)
      (if ph.type = ptLoad ∧ ph.memsz ≠ 0#64 ∧ ph.vaddr < low then ph.vaddr else low)

/-- The lowest address of a segment. -/
def Image.lowest (img : Image) (eh : Ehdr) : Word :=
  img.lowestFrom eh eh.phnum.toNat 0 0xFFFFFFFFFFFFFFFF#64

def Image.interpFrom (img : Image) (eh : Ehdr) : ℕ → ℕ → Option Word
  | 0, _ => none
  | n + 1, i =>
    let ph := img.phdr eh i
    if ph.type ≠ ptInterp then img.interpFrom eh n (i + 1)
    else if ph.offset + ph.filesz > img.size ∨ ph.filesz = 0#64 then none
    else some ph.offset

def Image.interp (img : Image) (eh : Ehdr) : Option Word := img.interpFrom eh eh.phnum.toNat 0

/-- The interpreter that the image names. -/
def Image.interpFile (img : Image) (vfs : List Byte → Option Image) (off : Word) :
    Option Image := readFile vfs (cString img.byte (2 ^ 64) off)

/-- Equal but for the flag of reads behind the file. -/
def SameLoad (s t : LoadState) : Prop := ∃ overrun, t = { s with overrun := overrun }

lemma SameLoad.trans {u : LoadState} (hst : SameLoad s t) (htu : SameLoad t u) :
    SameLoad s u := by
  obtain ⟨o, rfl⟩ := hst
  obtain ⟨o', rfl⟩ := htu
  exact ⟨o', rfl⟩

lemma parseEhdr_cases (img) (s) :
    ∃ t, SameLoad s t ∧ (parseEhdr img s = (none, t) ∨
      ∃ eh, img.ehdr = some eh ∧ parseEhdr img s = (some eh, t)) := by
  unfold parseEhdr
  split_ifs
  · exact ⟨s, ⟨s.overrun, rfl⟩, Or.inl rfl⟩
  · refine ⟨s.read img 0#64 ehdrSize, ⟨_, rfl⟩, ?_⟩
    cases heh : img.ehdr with
    | none => exact Or.inl rfl
    | some eh => exact Or.inr ⟨eh, rfl, rfl⟩

lemma findInterpFrom_eq (img) (eh) (n i) (s) :
    ∃ t, SameLoad s t ∧ findInterpFrom img eh n i s = (img.interpFrom eh n i, t) := by
  induction n generalizing i s with
  | zero => exact ⟨s, ⟨s.overrun, rfl⟩, rfl⟩
  | succ n ih =>
    unfold findInterpFrom Image.interpFrom
    simp only
    split_ifs
    · exact ih (i + 1) (s.read img (eh.phdrAt i) phdrSize)
    · exact ⟨_, ⟨_, rfl⟩, rfl⟩
    · exact ⟨_, ⟨_, rfl⟩, rfl⟩

lemma lowestLoadFrom_eq (img) (eh) (n i) (low : Word) (s) :
    ∃ t, SameLoad s t ∧
      lowestLoadFrom img eh n i low s = (img.lowestFrom eh n i low, t) := by
  induction n generalizing i low s with
  | zero => exact ⟨s, ⟨s.overrun, rfl⟩, rfl⟩
  | succ n ih =>
    exact ih (i + 1) _ (s.read img (eh.phdrAt i) phdrSize)

/-! ### Whole loads -/

/-- A state with which the loops begin: no page is marked. -/
structure FreshLoad (s r : LoadState) : Prop where
  machine : r.machine = s.machine
  high : ∀ pg, r.high pg = false
  interp : ∀ pg, r.interp pg = false

lemma FreshLoad.of_same {r r' : LoadState} (hfresh : FreshLoad s r) (hsame : SameLoad r r') :
    FreshLoad s r' := by
  obtain ⟨o, rfl⟩ := hsame
  exact ⟨hfresh.machine, hfresh.high, hfresh.interp⟩

lemma freshLoad_reset (hsame : SameLoad s t) :
    FreshLoad s (elfLoadBitmapsReset t) := by
  obtain ⟨o, rfl⟩ := hsame
  exact ⟨rfl, fun _ => rfl, fun _ => rfl⟩

lemma elfLoadImage_cases (img) (s) :
    (∃ t, elfLoadImage img s = (.error .refused, t) ∧ t.machine = s.machine) ∨
      ∃ eh r, img.ehdr = some eh ∧ img.interp eh = none ∧ FreshLoad s r ∧ elfLoadImage img s =
        match loadLoads img eh 0#64 r with
        | (.error e, t) => (.error e, t)
        | (.ok range, t) =>
          if entryMapped t.machine eh.entry then
            (.ok ⟨eh.entry, eh.entry, range.1, range.2, 0#64⟩, t)
          else (.error .fault, t) := by
  unfold elfLoadImage
  obtain ⟨t, hsame, hparse | ⟨eh, heh, hparse⟩⟩ := parseEhdr_cases img s
  · rw [hparse]
    obtain ⟨o, rfl⟩ := hsame
    exact Or.inl ⟨_, rfl, rfl⟩
  rw [hparse]
  simp only
  obtain ⟨u, hu, hfind⟩ := findInterpFrom_eq img eh eh.phnum.toNat 0 t
  have hboth : SameLoad s u := hsame.trans hu
  rw [findInterp, hfind]
  cases hinterp : img.interpFrom eh eh.phnum.toNat 0 with
  | some off =>
    obtain ⟨o, rfl⟩ := hboth
    exact Or.inl ⟨_, rfl, rfl⟩
  | none => exact Or.inr ⟨eh, elfLoadBitmapsReset u, heh, hinterp, freshLoad_reset hboth, rfl⟩

lemma elfLoadDynamic_cases (vfs : List Byte → Option Image) (img) (s) :
    (∃ t, elfLoadDynamic vfs img s = (.error .refused, t) ∧ t.machine = s.machine) ∨
      (∃ r, r.machine = s.machine ∧ elfLoadDynamic vfs img s = elfLoadImage img r) ∨
      ∃ eh off ld ieh r, img.ehdr = some eh ∧ img.interp eh = some off ∧
        img.interpFile vfs off = some ld ∧ ld.ehdr = some ieh ∧ FreshLoad s r ∧
        elfLoadDynamic vfs img s =
          match loadLoads img eh (loadBias (img.lowest eh) userBase) r with
          | (.error e, t) => (.error e, t)
          | (.ok main, t) =>
            match loadLoads ld ieh (loadBias (ld.lowest ieh) interpBase) t with
            | (.error e, t) => (.error e, t)
            | (.ok range, t) =>
              (.ok ⟨ieh.entry + loadBias (ld.lowest ieh) interpBase,
                eh.entry + loadBias (img.lowest eh) userBase, main.1,
                if main.2 > range.2 then main.2 else range.2, range.1⟩, t) := by
  unfold elfLoadDynamic
  obtain ⟨t, hsame, hparse | ⟨eh, heh, hparse⟩⟩ := parseEhdr_cases img s
  · rw [hparse]
    obtain ⟨o, rfl⟩ := hsame
    exact Or.inl ⟨_, rfl, rfl⟩
  rw [hparse]
  simp only
  have hfresh := freshLoad_reset hsame
  obtain ⟨u, hu, hfind⟩ := findInterpFrom_eq img eh eh.phnum.toNat 0 (elfLoadBitmapsReset t)
  have hfresh₁ : FreshLoad s u := hfresh.of_same hu
  rw [findInterp, hfind]
  cases hinterp : img.interpFrom eh eh.phnum.toNat 0 with
  | none => exact Or.inr (Or.inl ⟨u, hfresh₁.machine, rfl⟩)
  | some off =>
    simp only [interpPath]
    set path := cString img.byte (2 ^ 64) off
    have hfresh₂ : FreshLoad s (u.read img off (path.length + 1)) :=
      hfresh₁.of_same ⟨_, rfl⟩
    generalize u.read img off (path.length + 1) = w at hfresh₂
    cases hfile : readFile vfs path with
    | none => exact Or.inl ⟨w, rfl, hfresh₂.machine⟩
    | some ld =>
      simp only
      obtain ⟨x, hx, hparse | ⟨ieh, hieh, hparse⟩⟩ := parseEhdr_cases ld w
      · rw [hparse]
        exact Or.inl ⟨x, rfl, (hfresh₂.of_same hx).machine⟩
      rw [hparse]
      obtain ⟨y, hy, hmain⟩ :=
        lowestLoadFrom_eq img eh eh.phnum.toNat 0 0xFFFFFFFFFFFFFFFF#64 x
      obtain ⟨z, hz, hld⟩ :=
        lowestLoadFrom_eq ld ieh ieh.phnum.toNat 0 0xFFFFFFFFFFFFFFFF#64 y
      simp only [lowestLoad, hmain, hld]
      exact Or.inr (Or.inr ⟨eh, off, ld, ieh, z, heh, hinterp, hfile, hieh,
        ((hfresh₂.of_same hx).of_same hy).of_same hz, rfl⟩)

/-! ### The windows are kept -/

/-- Nothing outside the windows has changed. -/
structure Confined (A : Set ℕ) (s t : LoadState) : Prop where
  cr3_eq : t.machine.cr3 = s.machine.cr3
  space : LoadSpace A t
  outside : ∀ v, ¬ LoaderPage v → t.view v = s.view v

lemma Confined.trans {u : LoadState} (hst : Confined A s t) (htu : Confined A t u) :
    Confined A s u :=
  ⟨htu.cr3_eq.trans hst.cr3_eq, htu.space,
    fun v hv => (htu.outside v hv).trans (hst.outside v hv)⟩

lemma Confined.of_machine (hs : LoadSpace A s)
    (hmachine : t.machine = s.machine) : Confined A s t := by
  obtain ⟨m, high, interp, overrun⟩ := t
  obtain rfl : m = s.machine := hmachine
  exact ⟨rfl, ⟨hs.space, hs.loaded, hs.plain, hs.identity, hs.reserved⟩, fun _ _ => rfl⟩

lemma Loads.confined (hloads : Loads A s t) : Confined A s t :=
  ⟨hloads.cr3_eq, hloads.space, hloads.outside⟩

lemma FreshLoad.marks {r : LoadState} (hfresh : FreshLoad s r) (A) :
    MarksSound A r := by
  intro v hmark
  simp [LoadState.Marked, hfresh.high, hfresh.interp] at hmark

/-- The segments of the program stay on their pages: those of the image alone if it names no
interpreter, and otherwise those of the image and, if it is loaded, of the file it names. -/
structure ProgramStays (vfs : List Byte → Option Image) (img : Image) (s : LoadState) :
    Prop where
  alone : ∀ eh r, img.ehdr = some eh → img.interp eh = none → FreshLoad s r →
    img.SegmentsStay eh 0#64 r
  interp : ∀ eh off ld ieh r, img.ehdr = some eh → img.interp eh = some off →
    img.interpFile vfs off = some ld → ld.ehdr = some ieh → FreshLoad s r →
    img.SegmentsStay eh (loadBias (img.lowest eh) userBase) r ∧
      ∀ main t, loadLoads img eh (loadBias (img.lowest eh) userBase) r = (.ok main, t) →
        ld.SegmentsStay ieh (loadBias (ld.lowest ieh) interpBase) t

lemma elfLoadImage_confined (img) (hs : LoadSpace A s)
    (hstays : ∀ eh r, img.ehdr = some eh → img.interp eh = none → FreshLoad s r →
      img.SegmentsStay eh 0#64 r) :
    Confined A s (elfLoadImage img s).2 := by
  rcases elfLoadImage_cases img s with ⟨t, hrun, hmachine⟩ | ⟨eh, r, heh, hinterp, hfresh, hrun⟩
  · rw [hrun]
    exact Confined.of_machine hs hmachine
  have hstart : Confined A s r := Confined.of_machine hs hfresh.machine
  have hloads := loadLoads_loads img hstart.space (hfresh.marks A)
    (hstays eh r heh hinterp hfresh)
  rw [hrun]
  generalize loadLoads img eh 0#64 r = result at hloads
  obtain ⟨r', t⟩ := result
  have hend := hstart.trans hloads.confined
  cases r' with
  | error e => exact hend
  | ok range =>
    simp only
    split_ifs <;> exact hend

lemma elfLoadDynamic_confined (vfs : List Byte → Option Image) (img)
    (hs : LoadSpace A s) (hstays : ProgramStays vfs img s) :
    Confined A s (elfLoadDynamic vfs img s).2 := by
  rcases elfLoadDynamic_cases vfs img s with ⟨t, hrun, hmachine⟩ | ⟨r, hmachine, hrun⟩ |
    ⟨eh, off, ld, ieh, r, heh, hoff, hfile, hieh, hfresh, hrun⟩
  · rw [hrun]
    exact Confined.of_machine hs hmachine
  · rw [hrun]
    have hstart : Confined A s r := Confined.of_machine hs hmachine
    exact hstart.trans (elfLoadImage_confined img hstart.space fun eh r' heh hinterp hfresh =>
      hstays.alone eh r' heh hinterp ⟨hfresh.machine.trans hmachine, hfresh.high, hfresh.interp⟩)
  have hstart : Confined A s r := Confined.of_machine hs hfresh.machine
  obtain ⟨hbefore, hafter⟩ := hstays.interp eh off ld ieh r heh hoff hfile hieh hfresh
  have hmain := loadLoads_loads img hstart.space (hfresh.marks A) hbefore
  rw [hrun]
  generalize loadLoads img eh (loadBias (img.lowest eh) userBase) r = result at hmain hafter
  obtain ⟨r', t⟩ := result
  cases r' with
  | error e => exact hstart.trans hmain.confined
  | ok main =>
    have hinterp := loadLoads_loads ld hmain.space hmain.marks (hafter main t rfl)
    simp only
    generalize loadLoads ld ieh (loadBias (ld.lowest ieh) interpBase) t = result at hinterp
    obtain ⟨r', u⟩ := result
    have hend := hstart.trans (hmain.trans hinterp).confined
    cases r' with
    | error e => exact hend
    | ok range => exact hend

lemma loaderPage_window {v : Word} (hlow : v.toNat < 2 ^ 48) (hpage : LoaderPage v) :
    userLowMin ≤ v ∧ v < userLowMax ∨ userBase ≤ v ∧ v < userStackTop ∨
      interpBase ≤ v ∧ v < interpMax := by
  simp only [LoaderPage, lowPage_iff, highPage_iff, interpPage_iff, pageNum] at hpage
  simp only [BitVec.le_def, BitVec.lt_def, show userLowMin.toNat = 0x400000 from rfl,
    show userLowMax.toNat = 0xA00000 from rfl, show userBase.toNat = 0x40000000 from rfl,
    show userStackTop.toNat = 0x44000000 from rfl, show interpBase.toNat = 0x50000000 from rfl,
    show interpMax.toNat = 0x51000000 from rfl]
  omega

/-- User mode can reach the address. -/
def UserPage (m : Machine) (v : Word) : Prop :=
  ∃ page, translate m.mem m.cr3 v = some page ∧ page.user = true

lemma Confined.newUser (hconf : Confined A s t) (hs : LoadSpace A s) {v : Word}
    (hlow : v.toNat < 2 ^ 48) (huser : UserPage t.machine v) (hnot : ¬ UserPage s.machine v) :
    userLowMin ≤ v ∧ v < userLowMax ∨ userBase ≤ v ∧ v < userStackTop ∨
      interpBase ≤ v ∧ v < interpMax := by
  apply loaderPage_window hlow
  by_contra hpage
  obtain ⟨page, hview, hu⟩ := huser
  refine hnot ⟨page, ?_, hu⟩
  rw [translate_eq_pageView hconf.space.space.ok.entries] at hview
  rw [translate_eq_pageView hs.space.ok.entries]
  exact (hconf.outside v hpage).symm.trans hview

/-- An image with one segment, which starts at the beginning of the file; the bytes behind the
headers are those of `tail`. -/
def oneSegment (size vaddr filesz memsz : Word) (hsize : size.toNat < 2 ^ 63)
    (tail : ℕ → Byte) : Image where
  size := size
  fits := hsize
  byte off :=
    let n := off.toNat
    let field (start : ℕ) (w : Word) (rest : Byte) : Byte :=
      if start ≤ n ∧ n < start + 8 then wordByte w (n - start) else rest
    -- magic and class, type and machine, then the fields that are read
    field 0 0x2464C457F#64 (field 16 0x3E0002#64 (field 24 vaddr (field 32 64#64
      (field 54 0x10038#64 (field 64 1#64 (field 72 0#64 (field 80 vaddr (field 96 filesz
        (field 104 memsz (tail n))))))))))

def emptyLoad : LoadState where
  machine := emptyMachine 0xA00 0xA10
  high := fun _ => false
  interp := fun _ => false
  overrun := false

lemma emptyLoad_space : LoadSpace {g | 0xA00 ≤ g ∧ g < 0xA10} emptyLoad := by
  refine ⟨emptyMachine_space (by norm_num) (by norm_num) (by norm_num), by decide,
    fun v _ hhuge => ?_, fun v page _ hpage => ?_, fun v hv hmem => ?_⟩
  · exact hhuge.mapped (emptyMachine_view _ v)
  · have hnone : emptyLoad.view v = none := emptyMachine_view _ v
    simp [hnone] at hpage
  · rw [lowPage_iff] at hv
    exact absurd hmem.1 (by omega)

lemma smallSize : (128#64 : Word).toNat < 2 ^ 63 := by decide

def smallProgram : Image :=
  oneSegment 128#64 0x40000000#64 128#64 4096#64 smallSize fun _ => 0x90#8

lemma smallProgram_stays : ProgramStays (fun _ => none) smallProgram emptyLoad := by
  have hehdr : ∀ eh, smallProgram.ehdr = some eh →
      (⟨0x40000000#64, 64#64, 56#64, 1#64⟩ : Ehdr) = eh :=
    fun eh heh => Option.some.inj (Eq.trans (by rfl) heh)
  refine ⟨fun eh r heh _ _ i hi _ range t _ _ _ => Or.inr ?_,
    fun eh off ld ieh r heh hinterp => ?_⟩
  · obtain rfl := hehdr eh heh
    obtain rfl : i = 0 := Nat.lt_one_iff.mp hi
    decide +kernel
  · obtain rfl := hehdr eh heh
    have hnone : smallProgram.interp ⟨0x40000000#64, 64#64, 56#64, 1#64⟩ = none := by
      decide +kernel
    exact absurd (hnone.symm.trans hinterp) nofun

/-- One byte in memory, but more than a page in the file: what follows is written to the page
directory that lies there. -/
def longFile : Image :=
  oneSegment 4144#64 0x9FF000#64 4144#64 1#64 (by decide) fun n =>
    if 4128 ≤ n ∧ n < 4136 then wordByte 0x800087#64 (n - 4128)
    else if 4136 ≤ n ∧ n < 4144 then wordByte 0xA00087#64 (n - 4136) else 0#8

/-- Tables on the frames from `0xA00` on, which map two large pages of the kernel. -/
def kernelTables : LoadState where
  machine :=
    { pmm := ⟨0x1000, fun g => decide (g ≤ 0xA02),
        fun g => if 0xA00 ≤ g ∧ g ≤ 0xA02 then 1 else 0, 0#64⟩
      mem := fun f i =>
        if f = 0xA02 ∧ i = 0 then 0xA01003#64
        else if f = 0xA01 ∧ i = 0 then 0xA00003#64
        else if f = 0xA00 ∧ i = 4 then 0x800083#64
        else if f = 0xA00 ∧ i = 5 then 0xA00083#64
        else 0#64
      cr3 := 0xA02000#64
      kernelPml4 := 0xA02000#64 }
  high := fun _ => false
  interp := fun _ => false
  overrun := false

end HelixOS
