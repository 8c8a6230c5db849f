import HelixOS.PageAllocator

/-!
# The page allocator at boot

`pmm_init`, `pmm_reserve` and `pmm_alloc_pages` of `kernel/mm/pmm.c`.  The firmware's map
says which frames are free; the bitmap and the reference counts are put into the first
region that is large enough.
-/

namespace HelixOS

open Function BitVec List

/-! ## Boot -/

/-- `EFI_ConventionalMemory`, the only type with `is_free_type` -/
def conventionalMemory : BitVec 32 := 7#32

structure MmapEntry where
  type : BitVec 32
  physStart : Word
  npages : Word

/-- `struct helix_boot_info`: `addr` is its own address, `mmap` the array at `mmapAddr`. -/
structure BootInfo where
  addr : Word
  mmapAddr : Word
  mmap : List MmapEntry
  physCeiling : Word
  imageBase : Word
  imageSize : Word

def alignUp (x : ℕ) : ℕ := (x + 4095) % 2 ^ 64 / 4096 * 4096

def MmapEntry.stop (e : MmapEntry) : ℕ := (e.physStart.toNat + e.npages.toNat * 4096) % 2 ^ 64

def BootInfo.totalPages (info : BootInfo) : ℕ :=
  max (alignUp info.physCeiling.toNat) (16 * 1024 * 1024) / 4096

def BootInfo.bitmapBytes (info : BootInfo) : ℕ := (info.totalPages + 7) / 8

def BootInfo.bitmapPages (info : BootInfo) : ℕ :=
  (alignUp info.bitmapBytes + alignUp info.totalPages + 4095) / 4096

/-- The first loop of `pmm_init`: a place for the bitmap and the reference counts. -/
def placeBitmap (info : BootInfo) : Option ℕ :=
  info.mmap.findSome? fun e =>
    if e.type ≠ conventionalMemory then none
    else
      let start := alignUp (max e.physStart.toNat 0x100000)
      if e.stop > start ∧ e.stop - start ≥ info.bitmapPages * 4096 then some start else none

/-- The body of the loop of `reserve_range`. -/
def Pmm.reserve (s : Pmm) (p : ℕ) : Pmm :=
  if !s.used p then
    { s with
      used := update s.used p true
      freePages := if s.freePages ≠ 0#64 then s.freePages - 1 else s.freePages }
  else s

def reserveRange (s : Pmm) (physStart physEnd : ℕ) : Pmm :=
  let p0 := physStart / 4096
  let p1 := min ((physEnd + 4095) % 2 ^ 64 / 4096) s.total
  (List.range' p0 (p1 - p0)).foldl Pmm.reserve s

def pmmReserve (s : Pmm) (physStart physEnd : Word) : Pmm :=
  if physEnd ≤ physStart then s else reserveRange s physStart.toNat physEnd.toNat

/-- The body of the inner loop of `pmm_init` that marks free pages. -/
def Pmm.release (s : Pmm) (p : ℕ) : Pmm :=
  if s.used p then
    { s with
      used := update s.used p false
      freePages := s.freePages + 1 }
  else s

def releaseEntry (s : Pmm) (e : MmapEntry) : Pmm :=
  if e.type ≠ conventionalMemory then s
  else
    let p0 := e.physStart.toNat / 4096
    let p1 := min ((e.stop + 4095) % 2 ^ 64 / 4096) s.total
    (List.range' p0 (p1 - p0)).foldl Pmm.release s

/-- The image is reserved only if the boot information names it. -/
def reserveImage (info : BootInfo) (s : Pmm) : Pmm :=
  if info.imageBase ≠ 0#64 ∧ info.imageSize ≠ 0#64 then
    reserveRange s info.imageBase.toNat ((info.imageBase.toNat + info.imageSize.toNat) % 2 ^ 64)
  else s

/-- Returns the allocator and where its bitmap is, `none` for `-1`.  The array of the map
has entries of 40 bytes, the structure 80. -/
def pmmInit (info : BootInfo) : Option (Pmm × ℕ) :=
  if info.addr = 0#64 ∨ info.mmapAddr = 0#64 ∨ info.mmap = [] then none
  else
    match placeBitmap info with
    | none => none
    | some bitmapPhys =>
      if bitmapPhys = 0 then none
      else
        let s : Pmm := ⟨info.totalPages, fun _ => true, fun _ => 0, 0#64⟩
        let s := info.mmap.foldl releaseEntry s
        let s := reserveRange s 0 0x100000
        let s := reserveRange s bitmapPhys ((bitmapPhys + info.bitmapPages * 4096) % 2 ^ 64)
        let s := reserveImage info s
        let s := reserveRange s info.mmapAddr.toNat
          ((info.mmapAddr.toNat + info.mmap.length * 40) % 2 ^ 64)
        let s := reserveRange s info.addr.toNat ((info.addr.toNat + 80) % 2 ^ 64)
        some (s, bitmapPhys)

/-! ## Several pages at once -/

/-- The scan of `pmm_alloc_pages`, which goes on behind a used page; `total + 1` rounds are
enough. -/
def Pmm.findRun (s : Pmm) (n : ℕ) : ℕ → ℕ → Option ℕ
  | 0, _ => none
  | fuel + 1, p =>
    if p + n ≤ s.total then
      match (List.range n).find? fun i => s.used (p + i) with
      | some i => s.findRun n fuel (p + i + 1)
      | none => some p
    else none

def pmmAllocPages (s : Pmm) (n : ℕ) : Word × Pmm :=
  if n = 0 then (0#64, s)
  else if n = 1 then pmmAllocPage s
  else
    match s.findRun n (s.total + 1) 0 with
    | some p => (frameAddr p, (List.range n).foldl (fun s i => s.take (p + i)) s)
    | none => (0#64, s)

def pmmFreePages (s : Pmm) (phys : Word) (n : ℕ) : Pmm :=
  (List.range n).foldl (fun s i => pmmFreePage s (phys + BitVec.ofNat 64 i * 4096#64)) s

/-! ## The loops -/

/-- The count of free pages is the number of clear bits. -/
structure Pmm.Counted (s : Pmm) : Prop where
  count : s.freePages.toNat = s.freeCount
  fits : s.total ≤ 2 ^ 52

variable {s t : Pmm} {p q a b : ℕ} {l : List ℕ} {info : BootInfo}

lemma Pmm.freeCount_le (s : Pmm) : s.freeCount ≤ s.total := by
  have hcard := Finset.card_filter_le (Finset.range s.total) fun p => s.used p = false
  rwa [Finset.card_range] at hcard

section

variable (hs : s.Counted)
include hs

lemma Pmm.Counted.take (hfree : s.IsFree p) : (s.take p).Counted := by
  have hcount := Pmm.freeCount_take hfree
  have hnat := hs.count
  refine ⟨?_, hs.fits⟩
  show (s.freePages - 1#64).toNat = _
  rw [toNat_sub_of_le]
  · simp only [toNat_ofNat]
    omega
  · rw [le_def]
    simp only [toNat_ofNat]
    omega

lemma Pmm.Counted.clear (hp : p < s.total) (hused : s.used p = true) (refs : ℕ → ℕ) :
    Pmm.Counted ⟨s.total, update s.used p false, refs, s.freePages + 1⟩ := by
  have hfree : Pmm.IsFree ⟨s.total, update s.used p false, refs, s.freePages + 1⟩ p :=
    ⟨hp, update_self p false s.used⟩
  have hcount := Pmm.freeCount_take hfree
  have hback : Pmm.freeCount (Pmm.take
      ⟨s.total, update s.used p false, refs, s.freePages + 1⟩ p) = s.freeCount := by
    simp only [Pmm.freeCount, Pmm.take, update_idem, ← hused, update_eq_self]
  have hle := Pmm.freeCount_le ⟨s.total, update s.used p false, refs, s.freePages + 1⟩
  have hnat := hs.count
  have hfits := hs.fits
  refine ⟨?_, hs.fits⟩
  show (s.freePages + 1#64).toNat = _
  rw [toNat_add, toNat_ofNat]
  simp only at hle
  omega

lemma Pmm.Counted.reserve (hp : p < s.total) : (s.reserve p).Counted := by
  by_cases hused : s.used p = true
  · simpa only [Pmm.reserve, hused, Bool.not_true, Bool.false_eq_true, if_false] using hs
  · have hfree : s.IsFree p := ⟨hp, Bool.eq_false_iff.mpr hused⟩
    have hpos : s.freePages ≠ 0#64 := by
      intro hzero
      have hcount := Pmm.freeCount_take hfree
      have hnat := hs.count
      rw [hzero] at hnat
      simp only [toNat_ofNat] at hnat
      omega
    have htake := hs.take hfree
    simp only [Pmm.reserve, hfree.2, Bool.not_false, if_true, if_pos hpos]
    exact ⟨htake.count, htake.fits⟩

lemma foldl_reserve (hl : ∀ p ∈ l, p < s.total) :
    (l.foldl Pmm.reserve s).Counted ∧ (l.foldl Pmm.reserve s).total = s.total ∧
      (l.foldl Pmm.reserve s).refs = s.refs ∧
      ∀ q, (l.foldl Pmm.reserve s).used q = (s.used q || decide (q ∈ l)) := by
  induction l generalizing s with
  | nil => exact ⟨hs, rfl, rfl, by simp⟩
  | cons p l ih =>
    obtain ⟨hp, hrest⟩ := forall_mem_cons.mp hl
    have htotal : (s.reserve p).total = s.total := by
      simp only [Pmm.reserve]
      split_ifs <;> rfl
    have hrefs : (s.reserve p).refs = s.refs := by
      simp only [Pmm.reserve]
      split_ifs <;> rfl
    have hused : (s.reserve p).used = update s.used p true := by
      by_cases hold : s.used p = true
      · simp only [Pmm.reserve, hold, Bool.not_true, Bool.false_eq_true, if_false]
        rw [← hold, update_eq_self]
      · simp only [Pmm.reserve, Bool.eq_false_iff.mpr hold, Bool.not_false, if_true]
    obtain ⟨hcounted, htotal', hrefs', hused'⟩ :=
      ih (hs.reserve hp) fun q hq => htotal ▸ hrest q hq
    refine ⟨hcounted, htotal'.trans htotal, hrefs'.trans hrefs, fun q => ?_⟩
    rw [foldl_cons, hused' q, hused]
    by_cases hq : q = p
    · simp [hq]
    · simp [hq, update_of_ne]

lemma foldl_release (hl : ∀ p ∈ l, p < s.total) :
    (l.foldl Pmm.release s).Counted ∧ (l.foldl Pmm.release s).total = s.total ∧
      ∀ q, (l.foldl Pmm.release s).used q = (s.used q && !decide (q ∈ l)) := by
  induction l generalizing s with
  | nil => exact ⟨hs, rfl, by simp⟩
  | cons p l ih =>
    obtain ⟨hp, hrest⟩ := forall_mem_cons.mp hl
    have htotal : (s.release p).total = s.total := by
      simp only [Pmm.release]
      split_ifs <;> rfl
    have hused : (s.release p).used = update s.used p false := by
      by_cases hold : s.used p = true
      · simp only [Pmm.release, hold, if_true]
      · have hfalse := Bool.eq_false_iff.mpr hold
        simp only [Pmm.release, hfalse, Bool.false_eq_true, if_false]
        rw [← hfalse, update_eq_self]
    have hcounted : (s.release p).Counted := by
      by_cases hold : s.used p = true
      · simp only [Pmm.release, hold, if_true]
        exact hs.clear hp hold s.refs
      · simpa only [Pmm.release, hold, Bool.false_eq_true, if_false] using hs
    obtain ⟨hcounted', htotal', hused'⟩ := ih hcounted fun q hq => htotal ▸ hrest q hq
    refine ⟨hcounted', htotal'.trans htotal, fun q => ?_⟩
    rw [foldl_cons, hused' q, hused]
    by_cases hq : q = p
    · simp [hq]
    · simp [hq, update_of_ne]

lemma reserveRange_spec (a b : ℕ) :
    (reserveRange s a b).Counted ∧ (reserveRange s a b).total = s.total ∧
      (reserveRange s a b).refs = s.refs ∧
      ∀ q, q < s.total → (reserveRange s a b).used q =
        (s.used q || decide (a / 4096 ≤ q ∧ q < (b + 4095) % 2 ^ 64 / 4096)) := by
  obtain ⟨hcounted, htotal, hrefs, hused⟩ := foldl_reserve
    (l := List.range' (a / 4096) (min ((b + 4095) % 2 ^ 64 / 4096) s.total - a / 4096)) hs
    (fun p hp => by simp only [mem_range'_1] at hp; omega)
  refine ⟨hcounted, htotal, hrefs, fun q hq => ?_⟩
  rw [reserveRange, hused q]
  congr 1
  simp only [mem_range'_1, decide_eq_decide]
  omega

end

/-! ## What is free after boot -/

def MmapEntry.HasPage (e : MmapEntry) (p : ℕ) : Prop :=
  e.physStart.toNat ≤ p * 4096 ∧ p * 4096 < e.physStart.toNat + e.npages.toNat * 4096

/-- The entries start at pages and do not overlap. -/
structure BootInfo.WellFormed (info : BootInfo) : Prop where
  aligned : ∀ e ∈ info.mmap, e.physStart.toNat % 4096 = 0
  apart : info.mmap.Pairwise fun e e' => ∀ p, e.HasPage p → ¬ e'.HasPage p

def Touches (p a b : ℕ) : Prop := ∃ x, a ≤ x ∧ x < b ∧ x / 4096 = p

lemma BootInfo.totalPages_le (info : BootInfo) : info.totalPages ≤ 2 ^ 52 := by
  simp only [BootInfo.totalPages, alignUp]
  omega

lemma releaseEntry_spec (hs : s.Counted) (e : MmapEntry) :
    (releaseEntry s e).Counted ∧ (releaseEntry s e).total = s.total ∧
      ∀ q, (releaseEntry s e).used q = false → s.used q = false ∨
        (e.type = conventionalMemory ∧ e.physStart.toNat / 4096 ≤ q ∧
          q < (e.stop + 4095) % 2 ^ 64 / 4096) := by
  by_cases htype : e.type = conventionalMemory
  · obtain ⟨hcounted, htotal, hused⟩ := foldl_release
      (l := List.range' (e.physStart.toNat / 4096)
        (min ((e.stop + 4095) % 2 ^ 64 / 4096) s.total - e.physStart.toNat / 4096)) hs
      (fun p hp => by simp only [mem_range'_1] at hp; omega)
    rw [releaseEntry, if_neg (not_not.mpr htype)]
    refine ⟨hcounted, htotal, fun q hq => ?_⟩
    rw [hused q] at hq
    rcases Bool.and_eq_false_iff.mp hq with hq | hq
    · exact Or.inl hq
    · simp only [Bool.not_eq_false', decide_eq_true_eq, mem_range'_1] at hq
      exact Or.inr ⟨htype, by omega, by omega⟩
  · rw [releaseEntry, if_pos htype]
    exact ⟨hs, rfl, fun q hq => Or.inl hq⟩

lemma foldl_releaseEntry (hs : s.Counted) (entries : List MmapEntry) :
    (entries.foldl releaseEntry s).Counted ∧ (entries.foldl releaseEntry s).total = s.total ∧
      ∀ q, (entries.foldl releaseEntry s).used q = false → s.used q = false ∨
        ∃ e ∈ entries, e.type = conventionalMemory ∧ e.physStart.toNat / 4096 ≤ q ∧
          q < (e.stop + 4095) % 2 ^ 64 / 4096 := by
  induction entries generalizing s with
  | nil => exact ⟨hs, rfl, fun q hq => Or.inl hq⟩
  | cons e entries ih =>
    obtain ⟨hcounted, htotal, hfree⟩ := releaseEntry_spec hs e
    obtain ⟨hcounted', htotal', hfree'⟩ := ih hcounted
    refine ⟨hcounted', htotal'.trans htotal, fun q hq => ?_⟩
    rcases hfree' q hq with hq | ⟨e', he', hrest⟩
    · rcases hfree q hq with hq | hq
      · exact Or.inl hq
      · exact Or.inr ⟨e, mem_cons_self, hq⟩
    · exact Or.inr ⟨e', mem_cons_of_mem _ he', hrest⟩

lemma MmapEntry.hasPage_of_range {e : MmapEntry} (haligned : e.physStart.toNat % 4096 = 0)
    (hlo : e.physStart.toNat / 4096 ≤ p) (hhi : p < (e.stop + 4095) % 2 ^ 64 / 4096) :
    e.HasPage p := by
  have hstop : e.stop ≤ e.physStart.toNat + e.npages.toNat * 4096 := Nat.mod_le _ _
  simp only [MmapEntry.HasPage]
  omega

/-- The ranges that `pmm_init` reserves for the firmware's data and the image. -/
def BootInfo.ranges (info : BootInfo) : List (ℕ × ℕ) :=
  (if info.imageBase ≠ 0#64 ∧ info.imageSize ≠ 0#64 then
    [(info.imageBase.toNat, info.imageBase.toNat + info.imageSize.toNat)] else []) ++
  [(info.mmapAddr.toNat, info.mmapAddr.toNat + info.mmap.length * 40),
    (info.addr.toNat, info.addr.toNat + 80)]

/-- The firmware says it is free, it is above 1 MiB, and it is neither in the allocator's tables
nor in a reserved range. -/
structure Usable (info : BootInfo) (bitmapPhys : ℕ) (reserved : List (ℕ × ℕ)) (p : ℕ) : Prop where
  free : ∃ e ∈ info.mmap, e.type = conventionalMemory ∧ e.HasPage p
  only : ∀ e ∈ info.mmap, e.HasPage p → e.type = conventionalMemory
  high : 0x100000 ≤ p * 4096
  bitmap : ¬ Touches p bitmapPhys (bitmapPhys + info.bitmapBytes)
  refs : ¬ Touches p (bitmapPhys + alignUp info.bitmapBytes)
    (bitmapPhys + alignUp info.bitmapBytes + info.totalPages)
  reserved : ∀ r ∈ reserved, ¬ Touches p r.1 r.2

lemma BootInfo.WellFormed.type_unique (hinfo : info.WellFormed) {e e' : MmapEntry}
    (he : e ∈ info.mmap) (he' : e' ∈ info.mmap) (hp : e.HasPage p) (hp' : e'.HasPage p) :
    e' = e := by
  by_contra hne
  have hsymm : Std.Symm fun e e' : MmapEntry => ∀ p, e.HasPage p → ¬ e'.HasPage p :=
    ⟨fun a b hab p hb ha => hab p ha hb⟩
  exact hinfo.apart.forall he' he hne p hp' hp

lemma not_touches_of_range (hfits : b + 4095 < 2 ^ 64)
    (hout : ¬ (a / 4096 ≤ p ∧ p < (b + 4095) % 2 ^ 64 / 4096)) : ¬ Touches p a b := by
  rintro ⟨x, hlo, hhi, rfl⟩
  omega

lemma reserveRange_free (hs : s.Counted) (hq : q < s.total)
    (hfree : (reserveRange s a b).used q = false) :
    s.used q = false ∧ ¬ (a / 4096 ≤ q ∧ q < (b + 4095) % 2 ^ 64 / 4096) := by
  obtain ⟨-, -, -, hused⟩ := reserveRange_spec hs a b
  rw [hused q hq] at hfree
  obtain ⟨hfree, hout⟩ := Bool.or_eq_false_iff.mp hfree
  exact ⟨hfree, of_decide_eq_false hout⟩

lemma placeBitmap_spec {start : ℕ} (hplace : placeBitmap info = some start) :
    start % 4096 = 0 ∧ start + info.bitmapPages * 4096 + 4095 < 2 ^ 64 := by
  obtain ⟨e, -, he⟩ := exists_of_findSome?_eq_some hplace
  by_cases htype : e.type = conventionalMemory
  · rw [if_neg (not_not.mpr htype)] at he
    simp only at he
    split_ifs at he with hroom
    obtain rfl := Option.some.inj he
    have hstop : e.stop < 2 ^ 64 := Nat.mod_lt _ (by decide)
    have halign : alignUp (max e.physStart.toNat 0x100000) % 4096 = 0 := Nat.mul_mod_left _ _
    omega
  · rw [if_pos htype] at he
    cases he

lemma le_alignUp {x : ℕ} (hx : x + 4095 < 2 ^ 64) : x ≤ alignUp x ∧ alignUp x ≤ x + 4095 := by
  simp only [alignUp, Nat.mod_eq_of_lt hx]
  omega

lemma BootInfo.tables_fit (info : BootInfo) :
    info.bitmapBytes ≤ alignUp info.bitmapBytes ∧
      alignUp info.bitmapBytes + info.totalPages ≤ info.bitmapPages * 4096 := by
  have htotal := info.totalPages_le
  have hbytes := le_alignUp (x := info.bitmapBytes) (by simp only [bitmapBytes]; omega)
  have hrefs := le_alignUp (x := info.totalPages) (by omega)
  simp only [bitmapPages]
  omega

lemma reserveImage_spec (hs : s.Counted) (hfits : ∀ r ∈ info.ranges, r.2 + 4095 < 2 ^ 64) :
    (reserveImage info s).Counted ∧ (reserveImage info s).total = s.total ∧
      (reserveImage info s).refs = s.refs ∧
      ∀ q, q < s.total → (reserveImage info s).used q = false → s.used q = false ∧
        ∀ r ∈ (if info.imageBase ≠ 0#64 ∧ info.imageSize ≠ 0#64 then
          [(info.imageBase.toNat, info.imageBase.toNat + info.imageSize.toNat)] else []),
          ¬ Touches q r.1 r.2 := by
  by_cases himage : info.imageBase ≠ 0#64 ∧ info.imageSize ≠ 0#64
  · have hfit := hfits (info.imageBase.toNat, info.imageBase.toNat + info.imageSize.toNat)
      (by simp [BootInfo.ranges, himage])
    rw [reserveImage, if_pos himage, if_pos himage, Nat.mod_eq_of_lt (by omega)]
    obtain ⟨hcounted, htotal, hrefs, -⟩ := reserveRange_spec hs info.imageBase.toNat
      (info.imageBase.toNat + info.imageSize.toNat)
    refine ⟨hcounted, htotal, hrefs, fun q hq hfree => ?_⟩
    obtain ⟨hfree, hout⟩ := reserveRange_free hs hq hfree
    refine ⟨hfree, fun r hr => ?_⟩
    rw [mem_singleton.mp hr]
    exact not_touches_of_range hfit hout
  · rw [reserveImage, if_neg himage, if_neg himage]
    exact ⟨hs, rfl, rfl, fun q hq hfree => ⟨hfree, by simp⟩⟩

lemma pmmInit_usable {bitmapPhys : ℕ} (hinit : pmmInit info = some (s, bitmapPhys))
    (hinfo : info.WellFormed) (hfits : ∀ r ∈ info.ranges, r.2 + 4095 < 2 ^ 64) :
    s.Counted ∧ s.total = info.totalPages ∧
      ∀ p, p < s.total → s.used p = false → Usable info bitmapPhys info.ranges p := by
  rw [pmmInit] at hinit
  cases hplace : placeBitmap info with
  | none => simp [hplace] at hinit
  | some start =>
    simp only [hplace] at hinit
    split_ifs at hinit with hzero
    obtain ⟨rfl, rfl⟩ := Prod.mk.inj (Option.some.inj hinit)
    obtain ⟨halign, hroom⟩ := placeBitmap_spec hplace
    obtain ⟨hbitmap, hrefs⟩ := info.tables_fit
    have hmap := hfits (info.mmapAddr.toNat, info.mmapAddr.toNat + info.mmap.length * 40)
      (by simp [BootInfo.ranges])
    have hself := hfits (info.addr.toNat, info.addr.toNat + 80) (by simp [BootInfo.ranges])
    -- the states after the loops of `pmm_init`, in their order
    have hs₀ : Pmm.Counted ⟨info.totalPages, fun _ => true, fun _ => 0, 0#64⟩ :=
      ⟨by simp [Pmm.freeCount], info.totalPages_le⟩
    obtain ⟨hs₁, ht₁, hfree₁⟩ := foldl_releaseEntry hs₀ info.mmap
    obtain ⟨hs₂, ht₂, -, -⟩ := reserveRange_spec hs₁ 0 0x100000
    obtain ⟨hs₃, ht₃, -, -⟩ := reserveRange_spec hs₂ start
      ((start + info.bitmapPages * 4096) % 2 ^ 64)
    obtain ⟨hs₄, ht₄, -, hfree₄⟩ := reserveImage_spec hs₃ hfits
    obtain ⟨hs₅, ht₅, -, -⟩ := reserveRange_spec hs₄ info.mmapAddr.toNat
      ((info.mmapAddr.toNat + info.mmap.length * 40) % 2 ^ 64)
    obtain ⟨hs₆, ht₆, -, -⟩ := reserveRange_spec hs₅ info.addr.toNat
      ((info.addr.toNat + 80) % 2 ^ 64)
    have htotal := ((((ht₆.trans ht₅).trans ht₄).trans ht₃).trans ht₂).trans ht₁
    refine ⟨hs₆, htotal, fun p hp hfree => ?_⟩
    rw [htotal] at hp
    obtain ⟨hfree, hout₆⟩ := reserveRange_free hs₅ (by rw [ht₅, ht₄, ht₃, ht₂, ht₁]; exact hp) hfree
    obtain ⟨hfree, hout₅⟩ := reserveRange_free hs₄ (by rw [ht₄, ht₃, ht₂, ht₁]; exact hp) hfree
    obtain ⟨hfree, hout₄⟩ := hfree₄ p (by rw [ht₃, ht₂, ht₁]; exact hp) hfree
    obtain ⟨hfree, hout₃⟩ := reserveRange_free hs₂ (by rw [ht₂, ht₁]; exact hp) hfree
    obtain ⟨hfree, hout₂⟩ := reserveRange_free hs₁ (by rw [ht₁]; exact hp) hfree
    rw [Nat.mod_eq_of_lt (a := info.addr.toNat + 80) (by omega)] at hout₆
    rw [Nat.mod_eq_of_lt (a := info.mmapAddr.toNat + info.mmap.length * 40) (by omega)] at hout₅
    rw [Nat.mod_eq_of_lt (a := start + info.bitmapPages * 4096) (by omega)] at hout₃
    have htables := not_touches_of_range hroom hout₃
    rcases hfree₁ p hfree with hfalse | ⟨e, he, htype, hlo, hhi⟩
    · cases hfalse
    · have hpage := MmapEntry.hasPage_of_range (hinfo.aligned e he) hlo hhi
      refine ⟨⟨e, he, htype, hpage⟩, fun e' he' hpage' => ?_, by omega, ?_, ?_, ?_⟩
      · rw [hinfo.type_unique he he' hpage hpage', htype]
      · rintro ⟨x, hlo, hhi, hx⟩
        exact htables ⟨x, hlo, by omega, hx⟩
      · rintro ⟨x, hlo, hhi, hx⟩
        exact htables ⟨x, by omega, by omega, hx⟩
      · intro r hr
        rcases mem_append.mp hr with hr | hr
        · exact hout₄ r hr
        · rcases mem_cons.mp hr with rfl | hr
          · exact not_touches_of_range hmap hout₅
          · rw [mem_singleton.mp hr]
            exact not_touches_of_range hself hout₆

variable {n : ℕ}

/-! ## Runs of free pages -/

def Pmm.RunAt (s : Pmm) (n p : ℕ) : Prop :=
  p + n ≤ s.total ∧ ∀ i, i < n → s.used (p + i) = false

lemma Pmm.not_runAt_of_used {i r : ℕ} (hused : s.used (q + i) = true) (hi : i < n)
    (hqr : q ≤ r) (hrq : r ≤ q + i) : ¬ s.RunAt n r := by
  rintro ⟨-, hfree⟩
  have hpage := hfree (q + i - r) (by omega)
  rw [show r + (q + i - r) = q + i by omega, hused] at hpage
  cases hpage

/-- No run is missed behind a used page, since it would contain that page. -/
theorem Pmm.findRun_spec (s : Pmm) (n fuel q : ℕ) (hfuel : s.total < fuel + q) :
    (∀ p, s.findRun n fuel q = some p → s.RunAt n p ∧ ∀ r, q ≤ r → r < p → ¬ s.RunAt n r) ∧
      (s.findRun n fuel q = none → ∀ r, q ≤ r → ¬ s.RunAt n r) := by
  induction fuel generalizing q with
  | zero =>
    refine ⟨fun p hp => (nomatch hp), fun _ r hr hrun => ?_⟩
    have hend := hrun.1
    omega
  | succ fuel ih =>
    rw [Pmm.findRun]
    split_ifs with hfits
    · cases hfind : (List.range n).find? fun i => s.used (q + i) with
      | some i =>
        have hused : s.used (q + i) = true := by simpa using find?_some hfind
        have hi := mem_range.mp (mem_of_find?_eq_some hfind)
        obtain ⟨hsome, hnone⟩ := ih (q + i + 1) (by omega)
        refine ⟨fun p hp => ⟨(hsome p hp).1, fun r hqr hrp => ?_⟩, fun hend r hqr => ?_⟩
        · by_cases hr : r ≤ q + i
          · exact not_runAt_of_used hused hi hqr hr
          · exact (hsome p hp).2 r (by omega) hrp
        · by_cases hr : r ≤ q + i
          · exact not_runAt_of_used hused hi hqr hr
          · exact hnone hend r (by omega)
      | none =>
        refine ⟨fun p hp => ?_, fun hend => (nomatch hend)⟩
        obtain rfl := Option.some.inj hp
        refine ⟨⟨hfits, fun i hi => ?_⟩, fun r hqr hrp => by omega⟩
        exact Bool.eq_false_iff.mpr (find?_eq_none.mp hfind i (mem_range.mpr hi))
    · refine ⟨fun p hp => (nomatch hp), fun _ r hr hrun => ?_⟩
      have hend := hrun.1
      omega

lemma Pmm.foldl_take_used (s : Pmm) (n p q : ℕ) :
    ((List.range n).foldl (fun s i => s.take (p + i)) s).used q =
      (s.used q || decide (p ≤ q ∧ q < p + n)) := by
  induction n with
  | zero => simp
  | succ n ih =>
    rw [range_succ, foldl_append, foldl_cons, foldl_nil]
    by_cases hq : q = p + n
    · simp [Pmm.take, hq]
    · have hiff : (p ≤ q ∧ q < p + (n + 1)) ↔ (p ≤ q ∧ q < p + n) := by omega
      simp only [hiff, ← ih]
      exact update_of_ne hq ..

/-- The first of the runs is allocated; without a run nothing happens. -/
theorem pmmAllocPages_first_fit (hzero : s.used 0 = true) (hfits : s.total ≤ 2 ^ 52)
    (hn : 1 ≤ n) :
    (∃ p, s.RunAt n p ∧ (∀ r, r < p → ¬ s.RunAt n r) ∧ (pmmAllocPages s n).1 = frameAddr p ∧
      frameAddr p ≠ 0#64 ∧
      ∀ q, (pmmAllocPages s n).2.used q = (s.used q || decide (p ≤ q ∧ q < p + n))) ∨
    ((∀ p, ¬ s.RunAt n p) ∧ pmmAllocPages s n = (0#64, s)) := by
  have haddr {p : ℕ} (hp : s.RunAt n p) : frameAddr p ≠ 0#64 := by
    have hend := hp.1
    refine frameAddr_ne_zero (by omega) ?_
    rintro rfl
    simp [hp.2 0 (by omega)] at hzero
  by_cases hone : n = 1
  · subst hone
    have hrun {p : ℕ} : s.RunAt 1 p ↔ p < s.total ∧ s.used p = false := by
      simp [Pmm.RunAt]
    cases hfirst : s.firstFree with
    | some p =>
      obtain ⟨hlt, hfree, hbefore⟩ := Pmm.firstFree_eq_some.mp hfirst
      have hp := hrun.mpr ⟨hlt, hfree⟩
      refine .inl ⟨p, hp, fun r hr hrun' => ?_, ?_, haddr hp, fun q => ?_⟩
      · have hused := hbefore r hr
        simp [(hrun.mp hrun').2] at hused
      · simp [pmmAllocPages, pmmAllocPage, hfirst]
      · simpa [pmmAllocPages, pmmAllocPage, hfirst] using s.foldl_take_used 1 p q
    | none =>
      refine .inr ⟨fun p hp => ?_, by simp [pmmAllocPages, pmmAllocPage, hfirst]⟩
      obtain ⟨hlt, hfree⟩ := hrun.mp hp
      simp [Pmm.firstFree_eq_none.mp hfirst p hlt] at hfree
  · have hscan := s.findRun_spec n (s.total + 1) 0 (by omega)
    rw [pmmAllocPages, if_neg (by omega), if_neg hone]
    cases hfound : s.findRun n (s.total + 1) 0 with
    | some p =>
      obtain ⟨hp, hbefore⟩ := hscan.1 p hfound
      exact .inl ⟨p, hp, fun r hr => hbefore r (Nat.zero_le r) hr, rfl, haddr hp,
        s.foldl_take_used n p⟩
    | none => exact .inr ⟨fun p => hscan.2 hfound p (Nat.zero_le p), rfl⟩

theorem pmmAllocPages_first_fit_two :
    let s : Pmm := ⟨5, fun p => p = 0 ∨ p = 2, fun _ => 0, 3#64⟩
    ∃ p, s.RunAt 2 p ∧ (pmmAllocPages s 2).1 = frameAddr p := by
  intro s
  obtain ⟨p, hp, -, haddr, -⟩ | ⟨hnone, -⟩ :=
    pmmAllocPages_first_fit (s := s) (n := 2) (by decide) (by decide) (by decide)
  · exact ⟨p, hp, haddr⟩
  · exact absurd (show s.RunAt 2 3 from ⟨by decide, by decide⟩) (hnone 3)

/-! ## Pages with several owners -/

def pmmPageShare (s : Pmm) (phys : Word) : Pmm :=
  let p := frameOf phys
  if p < s.total ∧ s.refs p < 0xFF then { s with refs := update s.refs p (s.refs p + 1) } else s

section

variable {phys : Word} (hphys : frameOf phys = p) (hlt : p < s.total)
include hphys hlt

lemma pmmPageShare_iterate (hrefs : s.refs p ≤ 255) (n : ℕ) :
    (fun s => pmmPageShare s phys)^[n] s =
      { s with refs := update s.refs p (min (s.refs p + n) 255) } := by
  induction n with
  | zero => simp [hrefs]
  | succ n ih =>
    rw [iterate_succ_apply', ih, pmmPageShare, hphys]
    simp only [update_self, update_idem, hlt, true_and]
    split_ifs with hroom
    · rw [show min (s.refs p + (n + 1)) 255 = min (s.refs p + n) 255 + 1 by omega]
    · rw [show min (s.refs p + (n + 1)) 255 = min (s.refs p + n) 255 by omega]

lemma pmmPageDeref_iterate (hused : s.used p = true) (hpos : 0 < s.refs p) (k : ℕ) :
    (fun s => pmmPageDeref s phys)^[k] s =
      if k < s.refs p then { s with refs := update s.refs p (s.refs p - k) }
      else ⟨s.total, update s.used p false, update s.refs p 0, s.freePages + 1⟩ := by
  induction k with
  | zero => simp [hpos]
  | succ k ih =>
    rw [iterate_succ_apply', ih]
    by_cases hk : k < s.refs p
    · rw [if_pos hk, pmmPageDeref, hphys]
      simp only [update_self, update_idem, if_neg (not_le.mpr hlt)]
      rw [if_neg (by omega)]
      by_cases hlast : k + 1 < s.refs p
      · rw [if_pos hlast, if_neg (by omega), Nat.sub_sub]
      · rw [if_neg hlast, if_pos (by omega), pmmFreePage, hphys]
        simp only [if_neg (not_le.mpr hlt), hused]
        rw [show s.refs p - k - 1 = 0 by omega]
        rfl
    · rw [if_neg hk, if_neg (by omega), pmmPageDeref, hphys]
      simp [hlt.not_ge]

end

lemma pmmAllocPage_taken {phys : Word} {t : Pmm} (halloc : pmmAllocPage s = (phys, t))
    (hphys : phys ≠ 0#64) (hfits : s.total ≤ 2 ^ 52) :
    frameOf phys < t.total ∧ t.used (frameOf phys) = true ∧ t.refs (frameOf phys) = 1 := by
  cases hfirst : s.firstFree with
  | none =>
    rw [pmmAllocPage, hfirst] at halloc
    exact absurd (Prod.mk.inj halloc).1.symm hphys
  | some p =>
    rw [pmmAllocPage, hfirst] at halloc
    obtain ⟨rfl, rfl⟩ := Prod.mk.inj halloc
    have hlt := (Pmm.firstFree_eq_some.mp hfirst).1
    rw [frameOf_frameAddr (by omega)]
    exact ⟨hlt, update_self .., update_self ..⟩

/-- A page is freed by the last of its owners exactly as long as the byte can count them. -/
theorem shared_page_freed_last_iff {phys : Word} {t : Pmm} (halloc : pmmAllocPage s = (phys, t))
    (hphys : phys ≠ 0#64) (hfits : s.total ≤ 2 ^ 52) (n : ℕ) :
    ((∀ k, ((fun s => pmmPageDeref s phys)^[k] ((fun s => pmmPageShare s phys)^[n] t)).used =
        if k ≤ n then t.used else update t.used (frameOf phys) false) ∧
      ∀ (u : Pmm) (phys : Word), u.refs (frameOf phys) = 0 → pmmPageDeref u phys = u) ↔
    n < 255 := by
  obtain ⟨hlt, hused, hone⟩ := pmmAllocPage_taken halloc hphys hfits
  have hderefs (k : ℕ) :
      ((fun s => pmmPageDeref s phys)^[k] ((fun s => pmmPageShare s phys)^[n] t)).used =
        if k < min (1 + n) 255 then t.used else update t.used (frameOf phys) false := by
    rw [pmmPageShare_iterate rfl hlt (by omega), hone, pmmPageDeref_iterate rfl]
    · simp only [update_self]
      split_ifs <;> rfl
    · exact hlt
    · exact hused
    · simp
  constructor
  · rintro ⟨hlast, -⟩
    by_contra hmany
    have hfreed := congrFun ((hlast 255).symm.trans (hderefs 255)) (frameOf phys)
    rw [if_pos (by omega), if_neg (by omega), update_self, hused] at hfreed
    cases hfreed
  · intro hn
    refine ⟨fun k => ?_, fun u phys hzero => by simp [pmmPageDeref, hzero]⟩
    rw [hderefs]
    exact if_congr (by omega) rfl rfl

def twoPages : Pmm := ⟨2, fun p => p = 0, fun _ => 0, 1#64⟩

theorem shared_page_freed_last_one :
    ((fun s => pmmPageDeref s 0x1000#64)^[1]
        (pmmPageShare (twoPages.take 1) 0x1000#64)).used 1 = true ∧
      ((fun s => pmmPageDeref s 0x1000#64)^[2]
        (pmmPageShare (twoPages.take 1) 0x1000#64)).used 1 = false := by
  have hshared := (shared_page_freed_last_iff
    (show pmmAllocPage twoPages = (0x1000#64, twoPages.take 1) from rfl) (by decide) (by decide)
    1).mpr (by decide)
  exact ⟨congrFun (hshared.1 1) 1, congrFun (hshared.1 2) 1⟩

/-- The counter stops at 255, so that 255 of 256 owners free the page. -/
theorem page_freed_too_early :
    pmmAllocPage twoPages = (0x1000#64, twoPages.take 1) ∧
      ((fun s => pmmPageDeref s 0x1000#64)^[255]
        ((fun s => pmmPageShare s 0x1000#64)^[255] (twoPages.take 1))).used 1 = false := by
  refine ⟨rfl, ?_⟩
  rw [pmmPageShare_iterate (p := 1) rfl (by decide) (by decide), pmmPageDeref_iterate (p := 1) rfl]
  · rfl
  · decide
  · decide
  · decide

end HelixOS
