import HelixOS.LoadedImages

/-!
# What a loaded program finds in memory

After a load every segment is there: the bytes of the file, then zeros.
-/

namespace HelixOS

open RadixMemory Option

variable {range : Word × Word} {i n : ℕ} {s t : LoadState} {img : Image} {eh : Ehdr} {bias : Word}
  {P : ℕ → Prop} {A : Set ℕ}

lemma Prepares.byte (hprep : Prepares A s t) (hs : LoadSpace A s)
    (hmarks : MarksSound A s) {v : Word} (hv : s.Ready v) : t.byte v = s.byte v := by
  obtain ⟨page, hpage, huser, -, -⟩ := hs.of_ready hmarks hv
  obtain ⟨-, hframe⟩ := hprep.ready v hv
  rw [hpage, map_some, map_eq_some_iff] at hframe
  obtain ⟨page', hpage', hsame⟩ := hframe
  have hkept := (hprep.held _ (hs.space.held_of_user hpage huser)).2
  rw [LoadState.byte, LoadState.byte, hpage, hpage', map_some, map_some, hsame]
  simp only [frameByte, hkept]

/-! ## Segments of an image -/

def Phdr.Covers (ph : Phdr) (bias v : Word) : Prop :=
  (ph.vaddr + bias).toNat ≤ v.toNat ∧ v.toNat < (ph.vaddr + bias).toNat + ph.memsz.toNat

def Present (t : LoadState) (img : Image) (ph : Phdr) (bias : Word) : Prop :=
  ∀ v, ph.Covers bias v → t.Ready v ∧ v.toNat < 2 ^ 48 ∧
    t.byte v = some (segmentByte img ph.offset ph.filesz (v.toNat - (ph.vaddr + bias).toNat))

/-- `range` has been widened to take in the segments of the headers that satisfy `P`. -/
structure Widens (img : Image) (eh : Ehdr) (bias : Word) (P : ℕ → Prop)
    (range range' : Word × Word) : Prop where
  low_le : range'.1.toNat ≤ range.1.toNat
  low : ∀ j, P j → range'.1.toNat ≤ ((img.phdr eh j).vaddr + bias).toNat
  low_eq : range'.1 = range.1 ∨ ∃ j, P j ∧ range'.1 = (img.phdr eh j).vaddr + bias
  high_ge : range.2.toNat ≤ range'.2.toNat
  high : ∀ j, P j →
    ((img.phdr eh j).vaddr + bias + (img.phdr eh j).memsz).toNat ≤ range'.2.toNat
  high_eq : range'.2 = range.2 ∨
    ∃ j, P j ∧ range'.2 = (img.phdr eh j).vaddr + bias + (img.phdr eh j).memsz

lemma widens_refl (range) (hP : ∀ j, ¬ P j) : Widens img eh bias P range range :=
  ⟨le_rfl, fun j h => (hP j h).elim, Or.inl rfl, le_rfl, fun j h => (hP j h).elim, Or.inl rfl⟩

lemma Widens.trans {Q R : ℕ → Prop} {r r' r'' : Word × Word} (hfirst : Widens img eh bias P r r')
    (hsecond : Widens img eh bias Q r' r'') (hR : ∀ j, R j ↔ P j ∨ Q j) :
    Widens img eh bias R r r'' := by
  refine ⟨hsecond.low_le.trans hfirst.low_le, fun j hj => ?_, ?_,
    hfirst.high_ge.trans hsecond.high_ge, fun j hj => ?_, ?_⟩
  · rcases (hR j).mp hj with hj | hj
    · exact hsecond.low_le.trans (hfirst.low j hj)
    · exact hsecond.low j hj
  · rcases hsecond.low_eq with heq | ⟨j, hj, heq⟩
    · rcases hfirst.low_eq with heq' | ⟨j, hj, heq'⟩
      · exact Or.inl (heq.trans heq')
      · exact Or.inr ⟨j, (hR j).mpr (Or.inl hj), heq.trans heq'⟩
    · exact Or.inr ⟨j, (hR j).mpr (Or.inr hj), heq⟩
  · rcases (hR j).mp hj with hj | hj
    · exact (hfirst.high j hj).trans hsecond.high_ge
    · exact hsecond.high j hj
  · rcases hsecond.high_eq with heq | ⟨j, hj, heq⟩
    · rcases hfirst.high_eq with heq' | ⟨j, hj, heq'⟩
      · exact Or.inl (heq.trans heq')
      · exact Or.inr ⟨j, (hR j).mpr (Or.inl hj), heq.trans heq'⟩
    · exact Or.inr ⟨j, (hR j).mpr (Or.inr hj), heq⟩

lemma widens_one (img) (eh) (bias) (i) (range) :
    Widens img eh bias (fun j => j = i) range
      (if (img.phdr eh i).vaddr + bias < range.1 then (img.phdr eh i).vaddr + bias else range.1,
        if (img.phdr eh i).vaddr + bias + (img.phdr eh i).memsz > range.2 then
          (img.phdr eh i).vaddr + bias + (img.phdr eh i).memsz else range.2) := by
  constructor <;> dsimp only
  · split_ifs with hlt
    · exact (BitVec.lt_def.mp hlt).le
    · exact le_rfl
  · rintro j rfl
    split_ifs with hlt
    · exact le_rfl
    · exact Nat.le_of_not_lt fun h => hlt (BitVec.lt_def.mpr h)
  · split_ifs
    · exact Or.inr ⟨i, rfl, rfl⟩
    · exact Or.inl rfl
  · split_ifs with hgt
    · exact (BitVec.lt_def.mp hgt).le
    · exact le_rfl
  · rintro j rfl
    split_ifs with hgt
    · exact le_rfl
    · exact Nat.le_of_not_lt fun h => hgt (BitVec.lt_def.mpr h)
  · split_ifs
    · exact Or.inr ⟨i, rfl, rfl⟩
    · exact Or.inl rfl

/-! ## The loop over the headers -/

/-- What a successful run of the loop has done for the headers that satisfy `P`. -/
structure LoadsAll (A : Set ℕ) (img : Image) (eh : Ehdr) (bias : Word) (P : ℕ → Prop)
    (s t : LoadState) : Prop where
  loads : Loads A s t
  present : ∀ j, P j → Present t img (img.phdr eh j) bias
  kept : ∀ v : Word, s.Ready v → v.toNat < 2 ^ 48 →
    (∀ j, P j → ¬ (img.phdr eh j).Covers bias v) → t.byte v = s.byte v

lemma mapSegment_loadsAll
    (hs : LoadSpace A s) (hmarks : MarksSound A s) (hloads : (img.phdr eh i).Loads)
    (hfits : SegmentFits ((img.phdr eh i).vaddr + bias) (img.phdr eh i).memsz
      (img.phdr eh i).filesz)
    (hrun : mapSegment img ((img.phdr eh i).vaddr + bias) (img.phdr eh i).memsz
      (img.phdr eh i).offset (img.phdr eh i).filesz s = (.ok (), t)) :
    LoadsAll A img eh bias (fun j => j = i) s t := by
  rcases mapSegment_writes img (img.phdr eh i).offset hs hmarks hfits hloads.2 with ⟨t', hrun'⟩ |
    ⟨t', u, hrun', hprep, hlow, hready, hwrites⟩
  · simp [hrun] at hrun'
  obtain rfl := (Prod.mk.inj (hrun.symm.trans hrun')).2
  refine ⟨hprep.loads.trans (hwrites.loads hprep.space hprep.marks), ?_, fun v hv hsmall hout => ?_⟩
  · rintro j rfl v ⟨hlo, hhi⟩
    have hv := hready v hlo hhi
    exact ⟨(hwrites.ready v).mpr hv, by omega, hwrites.inside v hv hlo hhi⟩
  · have hcover := hout i rfl
    rw [Phdr.Covers, not_and_or, Nat.not_le, Nat.not_lt] at hcover
    rw [hwrites.outside v (hprep.ready v hv).1 hsmall hcover, hprep.byte hs hmarks hv]

lemma LoadsAll.trans {Q R : ℕ → Prop}
    {u : LoadState} (hst : LoadsAll A img eh bias P s t)
    (htu : LoadsAll A img eh bias Q t u) (hR : ∀ j, R j ↔ P j ∨ Q j)
    (hapart : ∀ i j, P i → Q j → ∀ v, (img.phdr eh i).Covers bias v →
      ¬ (img.phdr eh j).Covers bias v) : LoadsAll A img eh bias R s u := by
  refine ⟨hst.loads.trans htu.loads, fun j hj v hv => ?_, fun v hv hsmall hout => ?_⟩
  · rcases (hR j).mp hj with hP | hQ
    · obtain ⟨hready, hsmall, hbyte⟩ := hst.present j hP v hv
      exact ⟨htu.loads.ready v hready, hsmall,
        (htu.kept v hready hsmall fun k hk => hapart j k hP hk v hv).trans hbyte⟩
    · exact htu.present j hQ v hv
  · rw [htu.kept v (hst.loads.ready v hv) hsmall fun j hj => hout j ((hR j).mpr (Or.inr hj)),
      hst.kept v hv hsmall fun j hj => hout j ((hR j).mpr (Or.inl hj))]

lemma LoadsAll.of_overrun {overrun : Bool} (hs : LoadSpace A s) (hmarks : MarksSound A s)
    (hall : LoadsAll A img eh bias P { s with overrun := overrun } t) :
    LoadsAll A img eh bias P s t :=
  ⟨(loads_of_overrun hs hmarks overrun).trans hall.loads, hall.present, hall.kept⟩

def LoadsFrom (img : Image) (eh : Ehdr) (i n j : ℕ) : Prop :=
  i ≤ j ∧ j < i + n ∧ (img.phdr eh j).Loads

lemma loadsFrom_succ (img) (eh) (i n) (hi : (img.phdr eh i).Loads) (j : ℕ) :
    LoadsFrom img eh i (n + 1) j ↔ j = i ∨ LoadsFrom img eh (i + 1) n j := by
  constructor
  · rintro ⟨hij, hlt, hloads⟩
    by_cases hj : j = i
    · exact Or.inl hj
    · exact Or.inr ⟨by omega, by omega, hloads⟩
  · rintro (rfl | ⟨hij, hlt, hloads⟩)
    · exact ⟨le_rfl, by omega, hi⟩
    · exact ⟨by omega, by omega, hloads⟩

lemma loadsFrom_skip (img) (eh) (i n) (hi : ¬ (img.phdr eh i).Loads) :
    LoadsFrom img eh i (n + 1) = LoadsFrom img eh (i + 1) n := by
  funext j
  refine propext ⟨fun ⟨hij, hlt, hloads⟩ => ?_, fun ⟨hij, hlt, hloads⟩ =>
    ⟨by omega, by omega, hloads⟩⟩
  have hj : j ≠ i := by
    rintro rfl
    exact hi hloads
  exact ⟨by omega, by omega, hloads⟩

lemma loadLoadsFrom_all (img) (eh) (bias) (n i)
    {range' : Word × Word} (hs : LoadSpace A s)
    (hmarks : MarksSound A s)
    (hfits : ∀ j, LoadsFrom img eh i n j → SegmentFits ((img.phdr eh j).vaddr + bias)
      (img.phdr eh j).memsz (img.phdr eh j).filesz)
    (hapart : ∀ j k, LoadsFrom img eh i n j → LoadsFrom img eh i n k → j ≠ k →
      ∀ v, (img.phdr eh j).Covers bias v → ¬ (img.phdr eh k).Covers bias v)
    (hrun : loadLoadsFrom img eh bias n i range s = (.ok range', t)) :
    LoadsAll A img eh bias (LoadsFrom img eh i n) s t ∧
      Widens img eh bias (LoadsFrom img eh i n) range range' := by
  fun_induction loadLoadsFrom img eh bias n i range s with
  | case1 i range s =>
    obtain ⟨hrange, rfl⟩ := Prod.mk.inj hrun
    obtain rfl := Except.ok.inj hrange
    have hnone : ∀ j, ¬ LoadsFrom img eh i 0 j := fun j hj => by
      have := hj.1
      have := hj.2.1
      omega
    exact ⟨⟨Loads.refl hs hmarks, fun j hj => (hnone j hj).elim, fun _ _ _ _ => rfl⟩,
      widens_refl range hnone⟩
  | case2 n i range s r ph hskip ih =>
    have hread : Loads A s r := loads_of_overrun hs hmarks r.overrun
    have hnot : ¬ (img.phdr eh i).Loads := fun h => hskip.elim (· h.1) (h.2 ·)
    rw [loadsFrom_skip img eh i n hnot] at hfits hapart ⊢
    obtain ⟨hall, hwidens⟩ := ih hread.space hread.marks hfits hapart hrun
    exact ⟨hall.of_overrun hs hmarks, hwidens⟩
  | case3 => cases (Prod.mk.inj hrun).1
  | case4 n i range s r ph hload va u hseg ih =>
    have hread : Loads A s r := loads_of_overrun hs hmarks r.overrun
    simp only [ne_eq, not_or, not_not] at hload
    have hsplit := loadsFrom_succ img eh i n hload
    have hone := (mapSegment_loadsAll hread.space hread.marks hload
      (hfits i ((hsplit i).mpr (Or.inl rfl))) hseg).of_overrun hs hmarks
    obtain ⟨hall, hwidens⟩ := ih hone.loads.space hone.loads.marks
      (fun j hj => hfits j ((hsplit j).mpr (Or.inr hj)))
      (fun j k hj hk => hapart j k ((hsplit j).mpr (Or.inr hj))
        ((hsplit k).mpr (Or.inr hk))) hrun
    refine ⟨hone.trans hall hsplit ?_, (widens_one img eh bias i range).trans hwidens hsplit⟩
    rintro j k rfl hk
    have hne : j ≠ k := by
      have := hk.1
      omega
    exact hapart j k ((hsplit j).mpr (Or.inl rfl)) ((hsplit k).mpr (Or.inr hk)) hne

/-! ## Programs -/

/-- An image, and how far its segments are moved. -/
structure Part where
  img : Image
  eh : Ehdr
  bias : Word

def Part.segment (p : Part) (i : ℕ) : Phdr := p.img.phdr p.eh i

def Part.Has (p : Part) (i : ℕ) : Prop := i < p.eh.phnum.toNat ∧ (p.segment i).Loads

def Part.start (p : Part) (i : ℕ) : Word := (p.segment i).vaddr + p.bias

def Part.stop (p : Part) (i : ℕ) : Word := p.start i + (p.segment i).memsz

def Part.Covers (p : Part) (i : ℕ) (v : Word) : Prop := (p.segment i).Covers p.bias v

/-- The segments fit where they go, and no two put a byte at the same address. -/
structure Part.WellFormed (p : Part) : Prop where
  fits : ∀ i, p.Has i → SegmentFits (p.start i) (p.segment i).memsz (p.segment i).filesz
  apart : ∀ i j, p.Has i → p.Has j → i ≠ j → ∀ v, p.Covers i v → ¬ p.Covers j v

def Part.Present (p : Part) (t : LoadState) : Prop :=
  ∀ i, p.Has i → HelixOS.Present t p.img (p.segment i) p.bias

lemma Part.has_iff (p : Part) (i : ℕ) :
    p.Has i ↔ LoadsFrom p.img p.eh 0 p.eh.phnum.toNat i :=
  ⟨fun h => ⟨Nat.zero_le i, by have := h.1; omega, h.2⟩, fun h => ⟨by have := h.2.1; omega, h.2.2⟩⟩

structure Part.Spans (p : Part) (range : Word × Word) : Prop where
  low : IsLeast {a | ∃ i, p.Has i ∧ a = (p.start i).toNat} range.1.toNat
  high : IsGreatest {a | ∃ i, p.Has i ∧ a = (p.stop i).toNat} range.2.toNat

lemma loadLoads_all {p : Part} (hp : p.WellFormed) {range : Word × Word} {s t : LoadState}
    (hs : LoadSpace A s) (hmarks : MarksSound A s)
    (hrun : loadLoads p.img p.eh p.bias s = (.ok range, t)) :
    LoadsAll A p.img p.eh p.bias p.Has s t ∧ p.Spans range := by
  have hhas : LoadsFrom p.img p.eh 0 p.eh.phnum.toNat = p.Has :=
    funext fun i => propext (p.has_iff i).symm
  unfold loadLoads at hrun
  cases hloop : loadLoadsFrom p.img p.eh p.bias p.eh.phnum.toNat 0
    (0xFFFFFFFFFFFFFFFF#64, 0#64) s with
  | mk r u =>
    rw [hloop] at hrun
    cases r with
    | error e => simp at hrun
    | ok range' =>
      simp only at hrun
      by_cases hnone : range'.1 = 0xFFFFFFFFFFFFFFFF#64
      · simp [if_pos hnone] at hrun
      rw [if_neg hnone] at hrun
      obtain ⟨hrange, rfl⟩ := Prod.mk.inj hrun
      obtain rfl := Except.ok.inj hrange
      obtain ⟨hall, hwidens⟩ := loadLoadsFrom_all p.img p.eh p.bias p.eh.phnum.toNat 0 hs
        hmarks (fun i hi => hp.fits i ((p.has_iff i).mpr hi))
        (fun i j hi hj => hp.apart i j ((p.has_iff i).mpr hi) ((p.has_iff j).mpr hj)) hloop
      rw [hhas] at hall hwidens
      obtain ⟨i, hi, hlow⟩ := hwidens.low_eq.resolve_left hnone
      refine ⟨hall, ⟨⟨i, hi, congrArg BitVec.toNat hlow⟩, ?_⟩, ?_, ?_⟩
      · rintro a ⟨j, hj, rfl⟩
        exact hwidens.low j hj
      · rcases hwidens.high_eq with hzero | ⟨j, hj, hhigh⟩
        · -- an end at 0 is still the end of a segment
          have hle := hwidens.high i hi
          rw [hzero] at hle ⊢
          exact ⟨i, hi, (Nat.le_zero.mp hle).symm⟩
        · exact ⟨j, hj, congrArg BitVec.toNat hhigh⟩
      · rintro a ⟨j, hj, rfl⟩
        exact hwidens.high j hj

/-- What `elf_load_image` loads. -/
def Image.staticPart (img : Image) : Option Part := img.ehdr.map fun eh => ⟨img, eh, 0#64⟩

/-- What `elf_load_dynamic` loads: the image and, if it asks for one, its interpreter. -/
def Image.dynamicParts (img : Image) (vfs : List Byte → Option Image) :
    Option (Part × Option Part) := do
  let eh ← img.ehdr
  match img.interp eh with
  | none => some (⟨img, eh, 0#64⟩, none)
  | some off =>
    let ld ← img.interpFile vfs off
    let ieh ← ld.ehdr
    some (⟨img, eh, loadBias (img.lowest eh) userBase⟩,
      some ⟨ld, ieh, loadBias (ld.lowest ieh) interpBase⟩)

/-- All segments of a program fit where they go, and no two put a byte at the same address. -/
structure ProgramApart (main : Part) (interp : Option Part) : Prop where
  mainOk : main.WellFormed
  interpOk : ∀ q ∈ interp, q.WellFormed
  between : ∀ q ∈ interp, ∀ i j, main.Has i → q.Has j → ∀ v, main.Covers i v → ¬ q.Covers j v

/-- The byte that user mode reads. -/
def userByte (m : Machine) (v : Word) : Option Byte :=
  (translate m.mem m.cr3 v).bind fun page =>
    if page.user then some (frameByte m.mem page.frame (v.toNat % 4096)) else none

/-- Every segment is where it belongs. -/
def Part.InMemory (p : Part) (m : Machine) : Prop :=
  ∀ i, p.Has i → ∀ v, p.Covers i v → userByte m v =
    some (segmentByte p.img (p.segment i).offset (p.segment i).filesz
      (v.toNat - (p.start i).toNat))

/-- The program is in memory, and `info` describes it. -/
structure ProgramLoaded (m : Machine) (info : LoadInfo) (main : Part) (interp : Option Part) :
    Prop where
  mainBytes : main.InMemory m
  interpBytes : ∀ q ∈ interp, q.InMemory m
  loadBase : IsLeast {a | ∃ i, main.Has i ∧ a = (main.start i).toNat} info.loadBase.toNat
  loadEnd : IsGreatest {a | ∃ p, (p = main ∨ p ∈ interp) ∧ ∃ i, p.Has i ∧ a = (p.stop i).toNat}
    info.loadEnd.toNat
  interpBase : ∀ q ∈ interp,
    IsLeast {a | ∃ i, q.Has i ∧ a = (q.start i).toNat} info.interpBase.toNat
  mainEntry : info.mainEntry = main.eh.entry + main.bias
  entry : info.entry = (interp.getD main).eh.entry + (interp.getD main).bias

lemma Part.Present.inMemory {p : Part} (hp : p.Present t)
    (ht : LoadSpace A t) (hmarks : MarksSound A t) : p.InMemory t.machine := by
  intro i hi v hv
  obtain ⟨hready, -, hbyte⟩ := hp i hi v hv
  obtain ⟨page, hpage, huser, -⟩ := ht.of_ready hmarks hready
  rw [LoadState.byte, hpage, map_some] at hbyte
  have htranslate : translate t.machine.mem t.machine.cr3 v = some page :=
    (translate_eq_pageView ht.space.ok.entries v).trans hpage
  rw [userByte, htranslate, bind_some, if_pos huser]
  exact hbyte

lemma elfLoadImage_loaded {info : LoadInfo} (hs : LoadSpace A s)
    (hparts : ∀ main ∈ img.staticPart, img.interp main.eh = none → main.WellFormed)
    (hrun : elfLoadImage img s = (.ok info, t)) :
    ∃ main ∈ img.staticPart, img.interp main.eh = none ∧
      ProgramLoaded t.machine info main none := by
  rcases elfLoadImage_cases img s with ⟨u, hrefused, -⟩ | ⟨eh, r, heh, hnone, hfresh, hcases⟩
  · simp [hrun] at hrefused
  have hmem : (⟨img, eh, 0#64⟩ : Part) ∈ img.staticPart := by simp [Image.staticPart, heh]
  rw [hrun] at hcases
  have hstart : Confined A s r := Confined.of_machine hs hfresh.machine
  have hload := fun range u => @loadLoads_all A _ (hparts _ hmem hnone) range _ u
    hstart.space (hfresh.marks A)
  cases hrange : loadLoads img eh 0#64 r with
  | mk result u =>
    rw [hrange] at hcases
    cases result with
    | error e => simp at hcases
    | ok range =>
      obtain ⟨hall, hspans⟩ := hload range u hrange
      simp only at hcases
      split_ifs at hcases with hentry
      · obtain ⟨hinfo, rfl⟩ := Prod.mk.inj hcases
        obtain rfl := Except.ok.inj hinfo
        refine ⟨_, hmem, hnone, Part.Present.inMemory hall.present hall.loads.space
          hall.loads.marks, by simp, hspans.low, ?_, by simp, ?_, ?_⟩
        · simpa using hspans.high
        · simp
        · simp
      · simp at hcases

lemma LoadsAll.present_after {p q : Part} {u : LoadState} (hp : p.Present t)
    (hall : LoadsAll A q.img q.eh q.bias q.Has t u)
    (hapart : ∀ i j, p.Has i → q.Has j → ∀ v, p.Covers i v → ¬ q.Covers j v) : p.Present u := by
  intro i hi v hv
  obtain ⟨hready, hsmall, hbyte⟩ := hp i hi v hv
  exact ⟨hall.loads.ready v hready, hsmall,
    (hall.kept v hready hsmall fun j hj => hapart i j hi hj v hv).trans hbyte⟩

lemma spans_both {p q : Part} {main : Word × Word} (hp : p.Spans main) (hq : q.Spans range) :
    IsGreatest {a | ∃ r, (r = p ∨ r ∈ some q) ∧ ∃ i, r.Has i ∧ a = (r.stop i).toNat}
      (if main.2 > range.2 then main.2 else range.2).toNat := by
  constructor
  · split_ifs
    · obtain ⟨i, hi, heq⟩ := hp.high.1
      exact ⟨p, Or.inl rfl, i, hi, heq⟩
    · obtain ⟨i, hi, heq⟩ := hq.high.1
      exact ⟨q, Or.inr rfl, i, hi, heq⟩
  · rintro a ⟨r, rfl | hr, i, hi, rfl⟩
    · have hle := hp.high.2 ⟨i, hi, rfl⟩
      split_ifs with hgt
      · exact hle
      · exact hle.trans (Nat.le_of_not_lt fun h => hgt (BitVec.lt_def.mpr h))
    · obtain rfl := some.inj hr
      have hle := hq.high.2 ⟨i, hi, rfl⟩
      split_ifs with hgt
      · exact hle.trans (BitVec.lt_def.mp hgt).le
      · exact hle

lemma elfLoadDynamic_loaded {vfs : List Byte → Option Image} {info : LoadInfo}
    (hs : LoadSpace A s) (hparts : ∀ parts ∈ img.dynamicParts vfs, ProgramApart parts.1 parts.2)
    (hrun : elfLoadDynamic vfs img s = (.ok info, t)) :
    ∃ parts ∈ img.dynamicParts vfs, ProgramLoaded t.machine info parts.1 parts.2 := by
  rcases elfLoadDynamic_cases vfs img s with ⟨u, hrefused, -⟩ | ⟨r, hmachine, hstatic⟩ |
    ⟨eh, off, ld, ieh, r, heh, hinterp, hfile, hieh, hfresh, hcases⟩
  · simp [hrun] at hrefused
  · rw [hrun] at hstatic
    have hstart : Confined A s r := Confined.of_machine hs hmachine
    have hdyn : ∀ main ∈ img.staticPart, img.interp main.eh = none →
        (main, none) ∈ img.dynamicParts vfs := by
      intro main hmain hnone
      obtain ⟨eh, heh, rfl⟩ := map_eq_some_iff.mp hmain
      simp [Image.dynamicParts, heh, hnone]
    obtain ⟨main, hmain, hnone, hloaded⟩ := elfLoadImage_loaded hstart.space
      (fun main hmain hnone => (hparts _ (hdyn main hmain hnone)).mainOk) hstatic.symm
    exact ⟨_, hdyn main hmain hnone, hloaded⟩
  · set p : Part := ⟨img, eh, loadBias (img.lowest eh) userBase⟩ with hpdef
    set q : Part := ⟨ld, ieh, loadBias (ld.lowest ieh) interpBase⟩ with hqdef
    have hmem : (p, some q) ∈ img.dynamicParts vfs := by
      simp [Image.dynamicParts, heh, hinterp, hfile, hieh, hpdef, hqdef]
    obtain ⟨hp, hq, hapart⟩ := hparts _ hmem
    rw [hrun] at hcases
    have hstart : Confined A s r := Confined.of_machine hs hfresh.machine
    cases hmain : loadLoads img eh (loadBias (img.lowest eh) userBase) r with
    | mk result u =>
      rw [hmain] at hcases
      cases result with
      | error e => simp at hcases
      | ok main =>
        obtain ⟨hall, hspans⟩ :=
          loadLoads_all (p := p) hp hstart.space (hfresh.marks A) hmain
        simp only at hcases
        cases hld : loadLoads ld ieh (loadBias (ld.lowest ieh) interpBase) u with
        | mk result w =>
          rw [hld] at hcases
          cases result with
          | error e => simp at hcases
          | ok range =>
            obtain ⟨hallq, hspansq⟩ := loadLoads_all (p := q) (hq q rfl)
              hall.loads.space hall.loads.marks hld
            obtain ⟨hinfo, rfl⟩ := Prod.mk.inj hcases
            obtain rfl := Except.ok.inj hinfo
            have hpresent : p.Present t :=
              LoadsAll.present_after hall.present hallq (hapart q rfl)
            have hpresentq : q.Present t := hallq.present
            have ht := hallq.loads.space
            have htmarks := hallq.loads.marks
            refine ⟨_, hmem, hpresent.inMemory ht htmarks, ?_, hspans.low,
              spans_both hspans hspansq, ?_, rfl, rfl⟩
            · rintro q' hq'
              obtain rfl := some.inj hq'
              exact hpresentq.inMemory ht htmarks
            · rintro q' hq'
              obtain rfl := some.inj hq'
              exact hspansq.low

/-- After a successful load of a program whose segments fit and are apart, user mode finds every
segment at its place, and the reported addresses are right. -/
theorem elf_load_contents (vfs : List Byte → Option Image) (img : Image) {s : LoadState}
    (hs : LoadSpace A s) :
    ((∀ main ∈ img.staticPart, main.WellFormed) → ∀ info t,
      elfLoadImage img s = (.ok info, t) →
        ∃ main ∈ img.staticPart, ProgramLoaded t.machine info main none) ∧
    ((∀ parts ∈ img.dynamicParts vfs, ProgramApart parts.1 parts.2) → ∀ info t,
      elfLoadDynamic vfs img s = (.ok info, t) →
        ∃ parts ∈ img.dynamicParts vfs, ProgramLoaded t.machine info parts.1 parts.2) := by
  refine ⟨fun hparts info t hrun => ?_, fun hparts info t hrun =>
    elfLoadDynamic_loaded hs hparts hrun⟩
  obtain ⟨main, hmain, -, hloaded⟩ :=
    elfLoadImage_loaded hs (fun main hmain _ => hparts main hmain) hrun
  exact ⟨main, hmain, hloaded⟩

/-- Two segments on one page. -/
def twoSegments : Image :=
  let first := oneSegment 176#64 0x40000000#64 128#64 128#64 (by decide) fun n =>
    if n = 120 then 1#8
    else if 136 ≤ n ∧ n < 144 then wordByte 0x40000100#64 (n - 136)
    else if n = 152 then 16#8
    else if n = 160 then 64#8 else 0#8
  { first with byte := fun off => if off = 56#64 then 2#8 else first.byte off }

def twoSegmentsPart : Part := ⟨twoSegments, ⟨0x40000000#64, 64#64, 56#64, 2#64⟩, 0#64⟩

lemma twoSegments_values : (∀ i < 2, twoSegmentsPart.Has i) ∧
    twoSegmentsPart.start 0 = 0x40000000#64 ∧ (twoSegmentsPart.segment 0).memsz = 128#64 ∧
    twoSegmentsPart.start 1 = 0x40000100#64 ∧ (twoSegmentsPart.segment 1).memsz = 64#64 := by
  unfold Part.Has Phdr.Loads
  decide +kernel

lemma twoSegments_wellFormed : twoSegmentsPart.WellFormed := by
  have htwo : ∀ {i}, twoSegmentsPart.Has i → i = 0 ∨ i = 1 := by
    rintro i ⟨hi, -⟩
    have hlt : i < 2 := hi
    omega
  obtain ⟨-, hstart, hsize, hstart', hsize'⟩ := twoSegments_values
  refine ⟨fun i hi => ?_, fun i j hi hj hne v hv hv' => ?_⟩
  · rcases htwo hi with rfl | rfl <;> exact Or.inr (by decide +kernel)
  · have hbounds : ∀ k, twoSegmentsPart.Covers k v →
        (twoSegmentsPart.start k).toNat ≤ v.toNat ∧ v.toNat <
          (twoSegmentsPart.start k).toNat + (twoSegmentsPart.segment k).memsz.toNat :=
      fun k hk => hk
    have h := hbounds i hv
    have h' := hbounds j hv'
    rcases htwo hi with rfl | rfl <;> rcases htwo hj with rfl | rfl <;>
      simp only [hstart, hsize, hstart', hsize', BitVec.toNat_ofNat] at h h' <;> omega

theorem elf_load_contents_two_segments :
    (∃ info t, elfLoadImage twoSegments emptyLoad = (.ok info, t) ∧
      ∃ main ∈ twoSegments.staticPart, main.Has 0 ∧ main.Has 1 ∧
        ProgramLoaded t.machine info main none) ∧
    ∃ info t, elfLoadDynamic (fun _ => none) twoSegments emptyLoad = (.ok info, t) ∧
      ∃ parts ∈ twoSegments.dynamicParts (fun _ => none),
        ProgramLoaded t.machine info parts.1 parts.2 := by
  obtain ⟨himage, hdynamic⟩ :=
    elf_load_contents (fun _ => none) twoSegments emptyLoad_space
  let info : LoadInfo :=
    ⟨0x40000000#64, 0x40000000#64, 0x40000000#64, 0x40000140#64, 0#64⟩
  have hok : (elfLoadImage twoSegments emptyLoad).1 = .ok info := by decide +kernel
  have hok' : (elfLoadDynamic (fun _ => none) twoSegments emptyLoad).1 = .ok info := by
    decide +kernel
  have hrun : elfLoadImage twoSegments emptyLoad = (_, _) := (Prod.mk.eta).symm
  have hrun' : elfLoadDynamic (fun _ => none) twoSegments emptyLoad = (_, _) :=
    (Prod.mk.eta).symm
  rw [hok] at hrun
  rw [hok'] at hrun'
  obtain ⟨main, hmain, hloaded⟩ := himage (fun main hmain => by
    obtain rfl : twoSegmentsPart = main := some.inj (Eq.trans (by rfl) hmain)
    exact twoSegments_wellFormed) _ _ hrun
  refine ⟨⟨_, _, hrun, main, hmain, ?_⟩, ⟨_, _, hrun', hdynamic (fun parts hparts => ?_) _ _ hrun'⟩⟩
  · obtain rfl : twoSegmentsPart = main := some.inj (Eq.trans (by rfl) hmain)
    exact ⟨twoSegments_values.1 0 (by decide), twoSegments_values.1 1 (by decide), hloaded⟩
  · obtain rfl : (twoSegmentsPart, none) = parts := some.inj (Eq.trans (by rfl) hparts)
    exact ⟨twoSegments_wellFormed, by simp, by simp⟩

end HelixOS
