import HelixOS.PageAllocator
import HelixOS.RadixMemory

/-!
# Page tables and the operations of `paging.c` and `vmm.c`

The bits of an x86-64 page-table entry, the physical memory that holds the tables, and the
walk the processor makes.  A frame is 512 words; a pointer to a frame is its physical
address.

Every function works on the page table loaded last (`g_pml4`).  A result `true` is the
return value `0`, a result `false` is `-1`; the state after a failure keeps what had been
written before it.
-/

namespace HelixOS

open BitVec

def pteP : Word := 0x1#64
def pteW : Word := 0x2#64
def pteU : Word := 0x4#64
def ptePwt : Word := 0x8#64
def ptePcd : Word := 0x10#64
def ptePs : Word := 0x80#64

/-- `PTE_ADDR`: the frame field of an entry. -/
def pteAddr : Word := 0x000FFFFFFFFFF000#64

def hasFlag (w flag : Word) : Bool := (w &&& flag) != 0#64

/-- Physical memory: frame number, then word inside the frame. -/
abbrev Mem := ℕ → Fin 512 → Word

/-- The allocator, the memory, the loaded page table (`g_pml4` and `g_cr3`, which
are always assigned together) and the boot template `g_kernel_pml4`. -/
structure Machine where
  pmm : Pmm
  mem : Mem
  cr3 : Word
  kernelPml4 : Word

/-- `(virt >> (12 + 9 * level)) & 0x1FF`, with level 3 the PML4 and 0 the PT. -/
def tableIndex (virt : Word) (level : ℕ) : Fin 512 :=
  ⟨(virt >>> (12 + 9 * level)).toNat % 512, Nat.mod_lt _ (by decide)⟩

def tableFrame (w : Word) : ℕ := frameOf (w &&& ~~~0xFFF#64)

/-- Entries as edges: present and not a large page. -/
def pteFormat : RadixMemory.Format Word ℕ where
  present w := hasFlag w pteP
  isTable w := hasFlag w pteP && !hasFlag w ptePs
  target := tableFrame

/-- The 4 KiB frame a leaf entry of the given level gives to `virt`. -/
def leafFrame (level : ℕ) (w virt : Word) : ℕ :=
  match level with
  | 0 => frameOf (w &&& pteAddr)
  | 1 => frameOf ((w &&& 0x000FFFFFFFE00000#64) ||| (virt &&& 0x1FFFFF#64))
  | _ => frameOf ((w &&& 0x000FFFFFC0000000#64) ||| (virt &&& 0x3FFFFFFF#64))

structure Mapping where
  frame : ℕ
  writable : Bool
  user : Bool
  deriving DecidableEq

def leafMapping (virt : Word) (level : ℕ) (w : Word) : Mapping :=
  ⟨leafFrame level w virt, hasFlag w pteW, hasFlag w pteU⟩

/-- The processor's walk below an entry: write and user access need the bit on
every level. -/
def entryTranslate (m : Mem) (virt : Word) : ℕ → Word → Option Mapping
  | 0, w => if hasFlag w pteP then some (leafMapping virt 0 w) else none
  | l + 1, w =>
    if !hasFlag w pteP then none
    else if hasFlag w ptePs then some (leafMapping virt (l + 1) w)
    else (entryTranslate m virt l (m (tableFrame w) (tableIndex virt l))).map
      fun page => { page with
        writable := page.writable && hasFlag w pteW
        user := page.user && hasFlag w pteU }

def translate (m : Mem) (root virt : Word) : Option Mapping :=
  entryTranslate m virt 3 (m (frameOf root) (tableIndex virt 3))

/-! ## Flags and frames of composed entries -/

@[simp] lemma hasFlag_or (a b flag : Word) :
    hasFlag (a ||| b) flag = (hasFlag a flag || hasFlag b flag) := by
  have hsplit : (a ||| b) &&& flag = (a &&& flag) ||| (b &&& flag) := by
    apply eq_of_getLsbD_eq
    intro i _
    simp only [getLsbD_and, getLsbD_or, Bool.and_or_distrib_right]
  unfold hasFlag
  rw [hsplit]
  by_cases ha : a &&& flag = 0#64
  · simp [ha]
  · have hne : (a &&& flag) ||| (b &&& flag) ≠ 0#64 := by
      intro hzero
      exact ha (or_eq_zero_iff.mp hzero).1
    rw [bne_iff_ne.mpr ha, bne_iff_ne.mpr hne, Bool.true_or]

@[simp] lemma hasFlag_and (a b flag : Word) :
    hasFlag (a &&& b) flag = hasFlag a (b &&& flag) := by
  unfold hasFlag
  rw [BitVec.and_assoc]

@[simp] lemma hasFlag_zero (w : Word) : hasFlag w 0#64 = false := by
  simp [hasFlag]

@[simp] lemma zero_hasFlag (flag : Word) : hasFlag 0#64 flag = false := by
  simp [hasFlag]

lemma frameOf_or (a b : Word) : frameOf (a ||| b) = frameOf a ||| frameOf b := by
  simp [frameOf, ushiftRight_or_distrib]

lemma frameOf_and (a b : Word) : frameOf (a &&& b) = frameOf a &&& frameOf b := by
  simp [frameOf, ushiftRight_and_distrib]

lemma frameOf_or_flags (a : Word) {flags : Word} (hflags : flags.toNat < 4096) :
    frameOf (a ||| flags) = frameOf a := by
  have hzero : frameOf flags = 0 := by
    rw [frameOf_eq]
    omega
  rw [frameOf_or, hzero, Nat.or_zero]

@[simp] lemma tableFrame_eq (w : Word) : tableFrame w = frameOf w := by
  have hmask := BitMasks.toNat_and_not_low w 12
  have hlit : (0xFFF#64 : Word) = BitVec.ofNat 64 (2 ^ 12 - 1) := rfl
  unfold tableFrame
  rw [frameOf_eq, frameOf_eq, hlit, hmask]
  omega

lemma toNat_and_pteAddr (w : Word) : (w &&& pteAddr).toNat = w.toNat / 4096 % 2 ^ 40 * 4096 := by
  have hbits : ∀ i, pteAddr.getLsbD i = decide (12 ≤ i ∧ i < 52) := by
    intro i
    by_cases hi : i < 64
    · have hall : ∀ k : Fin 64, pteAddr.getLsbD k = decide (12 ≤ k.val ∧ k.val < 52) := by decide
      exact hall ⟨i, hi⟩
    · rw [getLsbD_of_ge _ _ (by omega)]
      simp
      omega
  exact BitMasks.toNat_and_field w pteAddr 12 52 (by decide) hbits

@[simp] lemma leafFrame_zero (w virt : Word) :
    leafFrame 0 w virt = frameOf w % 2 ^ 40 := by
  change frameOf (w &&& pteAddr) = frameOf w % 2 ^ 40
  rw [frameOf_eq, frameOf_eq, toNat_and_pteAddr]
  omega

lemma frameOf_and_addr {w : Word} (hfits : frameOf w < 2 ^ 40) :
    frameOf (w &&& pteAddr) = frameOf w := by
  have hmask := leafFrame_zero w 0#64
  rw [Nat.mod_eq_of_lt hfits] at hmask
  exact hmask

lemma hasFlag_of_aligned {a flag : Word} (ha : a.toNat % 4096 = 0)
    (hflag : flag.toNat < 4096) : hasFlag a flag = false := by
  have hzero : a &&& flag = 0#64 := by
    apply eq_of_toNat_eq
    apply Nat.eq_of_testBit_eq
    intro i
    rw [toNat_and, Nat.testBit_and]
    by_cases hi : i < 12
    · have hbit := congrArg (fun n => n.testBit i) (show a.toNat % 2 ^ 12 = 0 from ha)
      simp only [Nat.testBit_mod_two_pow, hi, decide_true, Bool.true_and, Nat.zero_testBit] at hbit
      simp [hbit]
    · have hhigh : flag.toNat.testBit i = false := by
        apply Nat.testBit_lt_two_pow
        have hpow : 2 ^ 12 ≤ 2 ^ i := Nat.pow_le_pow_right (by norm_num) (by omega)
        omega
      simp [hhigh]
  simp [hasFlag, hzero]

lemma hasFlag_frameAddr {p : ℕ} {flag : Word} (hflag : flag.toNat < 4096) :
    hasFlag (frameAddr p) flag = false := by
  apply hasFlag_of_aligned _ hflag
  unfold frameAddr
  rw [toNat_shiftLeft, Nat.shiftLeft_eq]
  omega

lemma frameAddr_aligned (p : ℕ) : frameAddr p &&& 0xFFF#64 = 0#64 := by
  have hflag : hasFlag (frameAddr p) 0xFFF#64 = false := hasFlag_frameAddr (by decide)
  simpa [hasFlag] using hflag

lemma tableIndex_val (virt : Word) (l : ℕ) :
    (tableIndex virt l).val = virt.toNat / 2 ^ (12 + 9 * l) % 512 := by
  simp [tableIndex, Nat.shiftRight_eq_div_pow]

lemma leafFrame_one (w virt : Word) (haligned : frameOf w % 512 = 0) :
    leafFrame 1 w virt = frameOf w % 2 ^ 40 + (tableIndex virt 0).val := by
  have hhigh : (w &&& 0x000FFFFFFFE00000#64).toNat = w.toNat / 2 ^ 21 % 2 ^ 31 * 2 ^ 21 := by
    apply BitMasks.toNat_and_field w _ 21 52 (by decide)
    intro i
    by_cases hi : i < 64
    · have hall : ∀ k : Fin 64, (0x000FFFFFFFE00000#64 : Word).getLsbD k =
          decide (21 ≤ k.val ∧ k.val < 52) := by decide
      exact hall ⟨i, hi⟩
    · rw [getLsbD_of_ge _ _ (by omega)]
      simp
      omega
  have hlow : (virt &&& 0x1FFFFF#64).toNat = virt.toNat % 2 ^ 21 :=
    BitMasks.toNat_and_low virt 21
  change frameOf ((w &&& 0x000FFFFFFFE00000#64) ||| (virt &&& 0x1FFFFF#64)) = _
  rw [frameOf_eq, BitMasks.toNat_or_low _ _ 21 (by rw [hhigh]; omega)
    (by rw [hlow]; omega), hhigh, hlow, tableIndex_val]
  rw [frameOf_eq] at haligned ⊢
  omega

/-! ## Operations -/

open Function

def zeroFrame (m : Mem) (f : ℕ) : Mem := update m f fun _ => 0#64

def setEntry (m : Mem) (f : ℕ) (i : Fin 512) (w : Word) : Mem :=
  update m f (update (m f) i w)

def Machine.setEntry (s : Machine) (f : ℕ) (i : Fin 512) (w : Word) : Machine :=
  { s with mem := HelixOS.setEntry s.mem f i w }

def allocZeroedPage (s : Machine) : Word × Machine :=
  let (phys, pmm) := pmmAllocPage s.pmm
  if phys = 0#64 then (0#64, { s with pmm := pmm })
  else (phys, { s with pmm := pmm, mem := zeroFrame s.mem (frameOf phys) })

def allocTable (s : Machine) : Word × Machine := allocZeroedPage s

def pagingSetPml4 (s : Machine) (pml4 : Word) : Machine :=
  if pml4 = 0#64 then s else { s with cr3 := pml4 }

/-! ## Mapping one page -/

def installTable (s : Machine) (tab : ℕ) (i : Fin 512) (user : Word) :
    Bool × Machine :=
  let (t, s₁) := allocTable s
  if t = 0#64 then (false, s₁)
  else (true, s₁.setEntry tab i (t ||| pteP ||| pteW ||| user))

def mapPml4Entry (s : Machine) (tab : ℕ) (i : Fin 512) (user : Word) :
    Bool × Machine :=
  if !hasFlag (s.mem tab i) pteP then installTable s tab i user
  else if user ≠ 0#64 then (true, s.setEntry tab i (s.mem tab i ||| pteU))
  else (true, s)

def mapPdptEntry (s : Machine) (tab : ℕ) (i : Fin 512) (user : Word) :
    Bool × Machine :=
  if !hasFlag (s.mem tab i) pteP then installTable s tab i user
  else if hasFlag (s.mem tab i) ptePs then (false, s)
  else if user ≠ 0#64 then (true, s.setEntry tab i (s.mem tab i ||| pteU))
  else (true, s)

/-- The flags a 2 MiB leaf passes to the 512 entries it is split into. -/
def splitFlags (big : Word) : Word :=
  (big &&& 0x80000000000001EF#64) &&& ~~~ptePs

def splitEntry (big : Word) (j : Fin 512) : Word :=
  ((big &&& pteAddr) + BitVec.ofNat 64 j.val * 4096#64) ||| splitFlags big ||| pteP

def splitLargePage (s : Machine) (tab : ℕ) (i : Fin 512) (user : Word) :
    Bool × Machine :=
  let big := s.mem tab i
  let (t, s₁) := allocTable s
  if t = 0#64 then (false, s₁)
  else
    let s₂ := { s₁ with mem := update s₁.mem (frameOf t) (splitEntry big) }
    (true, s₂.setEntry tab i
      (t ||| pteP ||| pteW ||| (splitFlags big &&& pteU) ||| user))

def mapPdEntry (s : Machine) (tab : ℕ) (i : Fin 512) (user : Word) :
    Bool × Machine :=
  if hasFlag (s.mem tab i) pteP then
    if hasFlag (s.mem tab i) ptePs then splitLargePage s tab i user
    else if user ≠ 0#64 then (true, s.setEntry tab i (s.mem tab i ||| pteU))
    else (true, s)
  else installTable s tab i user

def leafEntry (phys flags : Word) : Word :=
  (phys &&& pteAddr) ||| (flags &&& 0x8000000000000FFF#64) ||| pteP

/-- The walk of `paging_map_4k` after its argument checks. -/
def mapWalk (s : Machine) (virt phys flags user : Word) : Bool × Machine :=
  let pml4 := frameOf s.cr3
  let (ok₃, s₁) := mapPml4Entry s pml4 (tableIndex virt 3) user
  if !ok₃ then (false, s₁)
  else
    let pdpt := tableFrame (s₁.mem pml4 (tableIndex virt 3))
    let (ok₂, s₂) := mapPdptEntry s₁ pdpt (tableIndex virt 2) user
    if !ok₂ then (false, s₂)
    else
      let pd := tableFrame (s₂.mem pdpt (tableIndex virt 2))
      let (ok₁, s₃) := mapPdEntry s₂ pd (tableIndex virt 1) user
      if !ok₁ then (false, s₃)
      else
        let pt := tableFrame (s₃.mem pd (tableIndex virt 1))
        (true, s₃.setEntry pt (tableIndex virt 0) (leafEntry phys flags))

def pagingMap4k (s : Machine) (virt phys flags : Word) : Bool × Machine :=
  if s.cr3 = 0#64 then (false, s)
  else if virt &&& 0xFFF#64 ≠ 0#64 ∨ phys &&& 0xFFF#64 ≠ 0#64 then (false, s)
  else mapWalk s virt phys flags (if hasFlag flags pteU then pteU else 0#64)

/-! ## Removing one page -/

def tableCountPresent (m : Mem) (tab : ℕ) : ℕ :=
  ∑ i : Fin 512, if hasFlag (m tab i) pteP then 1 else 0

def Machine.freeFrame (s : Machine) (f : ℕ) : Machine :=
  { s with pmm := pmmFreePage s.pmm (frameAddr f) }

/-- Clear one entry of `tab` and free the table it pointed to. -/
def Machine.dropTable (s : Machine) (tab : ℕ) (i : Fin 512) (sub : ℕ) : Machine :=
  (s.freeFrame sub).setEntry tab i 0#64

/-- The cascade that frees the tables an unmapped page has left empty. -/
def freeEmptyTables (s : Machine) (virt : Word) (pml4 pdpt pd pt : ℕ) : Machine :=
  if tableCountPresent s.mem pt ≠ 0 then s
  else
    let s₁ := s.dropTable pd (tableIndex virt 1) pt
    if tableCountPresent s₁.mem pd ≠ 0 then s₁
    else
      let s₂ := s₁.dropTable pdpt (tableIndex virt 2) pd
      if tableCountPresent s₂.mem pdpt ≠ 0 then s₂
      else s₂.dropTable pml4 (tableIndex virt 3) pdpt

def pagingUnmap4k (s : Machine) (virt : Word) : Bool × Machine :=
  if s.cr3 = 0#64 then (false, s)
  else
    let pml4 := frameOf s.cr3
    let e₃ := s.mem pml4 (tableIndex virt 3)
    if !hasFlag e₃ pteP then (false, s)
    else
      let pdpt := tableFrame e₃
      let e₂ := s.mem pdpt (tableIndex virt 2)
      if !hasFlag e₂ pteP || hasFlag e₂ ptePs then (false, s)
      else
        let pd := tableFrame e₂
        let e₁ := s.mem pd (tableIndex virt 1)
        if !hasFlag e₁ pteP then (false, s)
        else if hasFlag e₁ ptePs then (false, s)
        else
          let pt := tableFrame e₁
          let pte := s.mem pt (tableIndex virt 0)
          if !hasFlag pte pteP then (false, s)
          else if !hasFlag pte pteU then (false, s)
          else
            let s₁ := { s with pmm := pmmPageDeref s.pmm (pte &&& pteAddr) }
            let s₂ := s₁.setEntry pt (tableIndex virt 0) 0#64
            (true, freeEmptyTables s₂ virt pml4 pdpt pd pt)

/-! ## Protecting existing pages -/

def setProtStep (writable : Bool) (s : Machine) (va : Word) : Bool × Machine :=
  let e₃ := s.mem (frameOf s.cr3) (tableIndex va 3)
  if !hasFlag e₃ pteP then (false, s)
  else
    let e₂ := s.mem (tableFrame e₃) (tableIndex va 2)
    if !hasFlag e₂ pteP || hasFlag e₂ ptePs then (false, s)
    else
      let e₁ := s.mem (tableFrame e₂) (tableIndex va 1)
      if !hasFlag e₁ pteP || hasFlag e₁ ptePs then (false, s)
      else
        let pt := tableFrame e₁
        let pte := s.mem pt (tableIndex va 0)
        if !hasFlag pte pteP || !hasFlag pte pteU then (false, s)
        else
          (true, s.setEntry pt (tableIndex va 0)
            (if writable then pte ||| pteW else pte &&& ~~~pteW))

/-! ## Opening existing pages to user mode -/

/-- One round of `paging_set_user_range`: `none` is the return value `-1`,
otherwise the address the loop goes on with. -/
def setUserStep (s : Machine) (v : Word) : Option Word × Machine :=
  let pml4 := frameOf s.cr3
  let i₃ := tableIndex v 3
  if !hasFlag (s.mem pml4 i₃) pteP then (none, s)
  else
    let s₁ := s.setEntry pml4 i₃ (s.mem pml4 i₃ ||| pteU)
    let pdpt := tableFrame (s₁.mem pml4 i₃)
    let i₂ := tableIndex v 2
    if !hasFlag (s₁.mem pdpt i₂) pteP then (none, s₁)
    else
      let s₂ := s₁.setEntry pdpt i₂ (s₁.mem pdpt i₂ ||| pteU)
      if hasFlag (s₂.mem pdpt i₂) ptePs then
        (some ((v + 1 + 0x3FFFFFFF#64) &&& ~~~0x3FFFFFFF#64), s₂)
      else
        let pd := tableFrame (s₂.mem pdpt i₂)
        let i₁ := tableIndex v 1
        if !hasFlag (s₂.mem pd i₁) pteP then (none, s₂)
        else
          let s₃ := s₂.setEntry pd i₁ (s₂.mem pd i₁ ||| pteU)
          if hasFlag (s₂.mem pd i₁) ptePs then (some (v + 0x200000#64), s₃)
          else
            let pt := tableFrame (s₃.mem pd i₁)
            let i₀ := tableIndex v 0
            if !hasFlag (s₃.mem pt i₀) pteP then (none, s₃)
            else
              (some (v + 4096#64), s₃.setEntry pt i₀ (s₃.mem pt i₀ ||| pteU))

/-- The loop `for (v = start; v < end; )`; every round moves `v` up by at least a page. -/
def setUserLoop (stop : Word) : ℕ → Word → Machine → Bool × Machine
  | 0, _, s => (true, s)
  | fuel + 1, v, s =>
    if v < stop then
      match setUserStep s v with
      | (none, s₁) => (false, s₁)
      | (some next, s₁) => setUserLoop stop fuel next s₁
    else (true, s)

def pageUp (x : Word) : Word := (x + 4096#64 - 1#64) &&& ~~~0xFFF#64

def pageDown (x : Word) : Word := x &&& ~~~0xFFF#64

def pagingSetUserRange (s : Machine) (va len : Word) : Bool × Machine :=
  if s.cr3 = 0#64 ∨ len = 0#64 then (false, s)
  else
    let start := pageDown va
    let stop := pageUp (va + len)
    setUserLoop stop ((stop - start).toNat / 4096) start s

/-! ## Reading a translation -/

def pagingVirtToPhys (s : Machine) (virt : Word) : Word :=
  if s.cr3 = 0#64 then 0#64
  else
    let e₃ := s.mem (frameOf s.cr3) (tableIndex virt 3)
    if !hasFlag e₃ pteP then 0#64
    else
      let e₂ := s.mem (tableFrame e₃) (tableIndex virt 2)
      if !hasFlag e₂ pteP then 0#64
      else if hasFlag e₂ ptePs then
        (e₂ &&& 0x000FFFFFC0000000#64) ||| (virt &&& 0x3FFFFFFF#64)
      else
        let e₁ := s.mem (tableFrame e₂) (tableIndex virt 1)
        if !hasFlag e₁ pteP then 0#64
        else if hasFlag e₁ ptePs then
          (e₁ &&& 0x000FFFFFFFE00000#64) ||| (virt &&& 0x1FFFFF#64)
        else
          let e₀ := s.mem (tableFrame e₁) (tableIndex virt 0)
          if !hasFlag e₀ pteP then 0#64
          else (e₀ &&& pteAddr) ||| (virt &&& 0xFFF#64)

def userFlags (writable : Bool) : Word :=
  pteP ||| pteU ||| (if writable then pteW else 0#64)

/-! ## Mapping and unmapping ranges -/

def allocUserPage (s : Machine) (va : Word) (writable : Bool) : Bool × Machine :=
  let (phys, s₁) := allocZeroedPage s
  if phys = 0#64 then (false, s₁)
  else
    let (ok, s₂) := pagingMap4k s₁ va phys (userFlags writable)
    if ok then (true, s₂) else (false, { s₂ with pmm := pmmFreePage s₂.pmm phys })

/-- The rounds of `vmm_alloc_user_pages`, with `va` for `virt + i * PAGE_SIZE`. -/
def allocUserLoop (writable : Bool) : ℕ → Word → Machine → Bool × Machine
  | 0, _, s => (true, s)
  | n + 1, va, s =>
    match allocUserPage s va writable with
    | (false, s₁) => (false, s₁)
    | (true, s₁) => allocUserLoop writable n (va + 4096#64) s₁

def vmmAllocUserPages (s : Machine) (virt npages : Word) (writable : Bool) :
    Bool × Machine :=
  if npages = 0#64 then (false, s) else allocUserLoop writable npages.toNat virt s

/-- The loop `for (va = start; va < end; va += PAGE_SIZE)` with page-aligned
bounds; the body stops it by returning `false`. -/
def forPages {σ : Type*} (body : σ → Word → Bool × σ) (stop : Word) :
    ℕ → Word → σ → Bool × σ
  | 0, _, s => (true, s)
  | fuel + 1, va, s =>
    if va < stop then
      match body s va with
      | (false, s₁) => (false, s₁)
      | (true, s₁) => forPages body stop fuel (va + 4096#64) s₁
    else (true, s)

def pagesBetween (start stop : Word) : ℕ := (stop - start).toNat / 4096

def vmmUnmapUserRange (s : Machine) (virt len : Word) : Machine :=
  let start := pageDown virt
  let stop := pageUp (virt + len)
  (forPages (fun s va => (true, (pagingUnmap4k s va).2)) stop (pagesBetween start stop)
    start s).2

/-- `paging_set_prot_range`, which stops at the first page that is not a 4 KiB user page. -/
def pagingSetProtRange (s : Machine) (virt len : Word) (writable : Bool) : Bool × Machine :=
  if s.cr3 = 0#64 then (false, s)
  else
    let start := pageDown virt
    let stop := pageUp (virt + len)
    forPages (setProtStep writable) stop (pagesBetween start stop) start s

/-! ## Filling a fresh table -/

/-- `for (idx = 0; idx < 512; idx++) tab[idx] = value(idx)` -/
def fillTable (value : Machine → Fin 512 → Word × Machine) (tab : ℕ) (s : Machine) :
    Machine :=
  Fin.foldl 512 (fun s i => (value s i).2.setEntry tab i (value s i).1) s

def makeTable (value : Machine → Fin 512 → Word × Machine) (s : Machine) :
    Word × Machine :=
  let (tab, s₁) := allocTable s
  if tab = 0#64 then (0#64, s₁)
  else (tab, fillTable value (frameOf tab) s₁)

def edgeFlags : Word := pteW ||| pteU ||| 0x18#64

/-- One level of a copy: a fresh table whose entries are made by `entry` from those of
`parentTab`, returned with `PTE_P | PTE_W`. -/
def copyLevel (entry : Machine → Word → Word × Machine) (s : Machine) (parentTab : ℕ) :
    Word × Machine :=
  let (tab, s₁) := makeTable (fun s j => entry s (s.mem parentTab j)) s
  if tab = 0#64 then (0#64, s₁) else (tab ||| pteP ||| pteW, s₁)

def copyEdge (entry : Machine → Word → Word × Machine) (s : Machine) (pe : Word) :
    Word × Machine :=
  let (child, s₁) := copyLevel entry s (frameOf (pe &&& pteAddr))
  if child = 0#64 then (0#64, s₁) else (child ||| (pe &&& edgeFlags) ||| pteP, s₁)

/-! ## `fork` -/

def copyFrame (m : Mem) (dst src : ℕ) : Mem := Function.update m dst (m src)

def copyPage (s : Machine) (old : Word) (flags : Word) : Word × Machine :=
  let (phys, pmm) := pmmAllocPage s.pmm
  if phys = 0#64 then (0#64, { s with pmm := pmm })
  else
    ((phys &&& pteAddr) ||| flags,
      { s with pmm := pmm, mem := copyFrame s.mem (frameOf phys) (frameOf old) })

def copyLeaf (s : Machine) (pe : Word) : Word × Machine :=
  if !hasFlag pe pteP then (0#64, s)
  else if !hasFlag pe pteU then (pe, s)
  else copyPage s (pe &&& pteAddr) (pe &&& ~~~pteAddr)

/-- A 2 MiB user leaf becomes a table of 512 copied pages. -/
def copyLargePage (s : Machine) (pe : Word) : Word × Machine :=
  let (tab, s₁) := makeTable (fun s j =>
    copyPage s ((pe &&& pteAddr) + BitVec.ofNat 64 j.val * 4096#64)
      ((pe &&& edgeFlags) ||| pteP)) s
  if tab = 0#64 then (0#64, s₁)
  else (tab ||| (pe &&& edgeFlags) ||| pteP, s₁)

/-- The value `copy_pt_level` stores in the child for the entry `pe` of a table of
the given level (0 PT, 1 PD, 2 PDPT). -/
def copyEntry : ℕ → Machine → Word → Word × Machine
  | 0, s, pe => copyLeaf s pe
  | l + 1, s, pe =>
    if !hasFlag pe pteP then (0#64, s)
    else if hasFlag pe ptePs then
      if l = 0 ∧ hasFlag pe pteU then copyLargePage s pe else (pe, s)
    else copyEdge (copyEntry l) s pe

def copyPtLevel (l : ℕ) (s : Machine) (parentTab : ℕ) : Word × Machine :=
  copyLevel (copyEntry l) s parentTab

/-- An entry of the child's PML4; without memory the parent's table is shared. -/
def copyTopEntry (s : Machine) (pe : Word) : Word × Machine :=
  if !hasFlag pe pteP then (0#64, s)
  else
    let (child, s₁) := copyPtLevel 2 s (frameOf (pe &&& pteAddr))
    if child ≠ 0#64 then (child ||| (pe &&& edgeFlags), s₁) else (pe, s₁)

def vmmCopyUserPageTables (s : Machine) (parentPml4 : Word) : Word × Machine :=
  makeTable (fun s i => copyTopEntry s (s.mem (frameOf parentPml4) i)) s

/-! ## Cloning the kernel template -/

/-- The value `clone_kernel_level` stores for the entry `pe`. -/
def cloneEntry : ℕ → Machine → Word → Word × Machine
  | 0, s, pe => if !hasFlag pe pteP then (0#64, s) else (pe, s)
  | l + 1, s, pe =>
    if !hasFlag pe pteP then (0#64, s)
    else if hasFlag pe ptePs then (pe, s)
    else copyEdge (cloneEntry l) s pe

def cloneKernelLevel (l : ℕ) (s : Machine) (parentTab : ℕ) : Word × Machine :=
  copyLevel (cloneEntry l) s parentTab

/-- An entry of the clone's PML4; without memory the template's table is shared. -/
def cloneTopEntry (s : Machine) (pe : Word) : Word × Machine :=
  if !hasFlag pe pteP then (0#64, s)
  else
    let (child, s₁) := cloneKernelLevel 2 s (frameOf (pe &&& pteAddr))
    if child ≠ 0#64 then (child, s₁) else (pe, s₁)

def vmmCloneKernelPml4 (s : Machine) : Word × Machine :=
  let kp := frameOf s.kernelPml4
  makeTable (fun s i => cloneTopEntry s (s.mem kp i)) s

/-! ## Destroying an address space -/

/-- `destroy_level` for the table `tab` of the given level (3 PML4 to 0 PT). -/
def destroyLevel : ℕ → ℕ → Machine → Machine
  | 0, tab, s =>
    (Fin.foldl 512 (fun s i =>
      let pe := s.mem tab i
      if !hasFlag pe pteP then s
      else if hasFlag pe pteU then
        { s with pmm := pmmPageDeref s.pmm (pe &&& pteAddr) }.setEntry tab i 0#64
      else s.setEntry tab i 0#64) s).freeFrame tab
  | l + 1, tab, s =>
    (Fin.foldl 512 (fun s i =>
      let pe := s.mem tab i
      if !hasFlag pe pteP then s
      else if hasFlag pe ptePs then s.setEntry tab i 0#64
      else (destroyLevel l (frameOf (pe &&& pteAddr)) s).setEntry tab i 0#64)
      s).freeFrame tab

def vmmDestroyAddressSpace (s : Machine) (pml4 : Word) : Machine :=
  if pml4 = 0#64 ∨ pml4 = s.kernelPml4 then s else destroyLevel 3 (frameOf pml4) s

end HelixOS
