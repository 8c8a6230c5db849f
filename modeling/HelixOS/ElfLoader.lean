import HelixOS.ByteOrder
import HelixOS.MemorySyscalls

/-!
# The ELF loader of `elf.c`

`elf_load_image` and `elf_load_dynamic` on an image in a kernel buffer, into the loaded
page table.  Two parts of the state serve the statements only: `overrun` says that a byte
outside its image has been read, and `LoadError.fault` that the kernel wrote through an
address that is not mapped.
-/

namespace HelixOS

open Function

export ByteOrder (Byte)

/-- A buffer of `size` bytes; `byte off` is what a read at `off` finds, in the buffer or
behind it. -/
structure Image where
  size : Word
  byte : Word → Byte
  fits : size.toNat < 2 ^ 63

def Image.field (img : Image) : ℕ → Word → Word
  | 0, _ => 0#64
  | n + 1, off => (img.byte off).setWidth 64 ||| img.field n (off + 1#64) <<< 8

def Image.inside (img : Image) (off : Word) (len : ℕ) : Bool :=
  decide (off.toNat + len ≤ img.size.toNat)

/-- The page table, the bitmaps `g_high_mapped` and `g_interp_mapped` by page, and whether
a read has left its image. -/
structure LoadState where
  machine : Machine
  high : ℕ → Bool
  interp : ℕ → Bool
  overrun : Bool

inductive LoadError where
  | refused
  | fault
  deriving DecidableEq

def LoadState.read (s : LoadState) (img : Image) (off : Word) (len : ℕ) : LoadState :=
  { s with overrun := s.overrun || !img.inside off len }

def elfLoadBitmapsReset (s : LoadState) : LoadState :=
  { s with high := fun _ => false, interp := fun _ => false }

/-! ## Headers -/

structure Ehdr where
  entry : Word
  phoff : Word
  phentsize : Word
  phnum : Word

structure Phdr where
  type : Word
  offset : Word
  vaddr : Word
  filesz : Word
  memsz : Word

def ptLoad : Word := 1#64
def ptInterp : Word := 3#64

/-- The checks of `parse_ehdr` on an image that is long enough for the header. -/
def Image.ehdr (img : Image) : Option Ehdr :=
  let eh : Ehdr :=
    { entry := img.field 8 24#64
      phoff := img.field 8 32#64
      phentsize := img.field 2 54#64
      phnum := img.field 2 56#64 }
  let machine := img.field 2 18#64
  let type := img.field 2 16#64
  if img.byte 0#64 ≠ 0x7F#8 ∨ img.byte 1#64 ≠ 0x45#8 ∨ img.byte 2#64 ≠ 0x4C#8 ∨
      img.byte 3#64 ≠ 0x46#8 then none
  else if img.byte 4#64 ≠ 2#8 ∨ machine ≠ 62#64 then none
  else if type ≠ 2#64 ∧ type ≠ 3#64 then none
  else if eh.phoff = 0#64 ∨ eh.phnum = 0#64 then none
  else if eh.phoff + eh.phnum * eh.phentsize > img.size then none
  else some eh

def ehdrSize : ℕ := 64
def phdrSize : ℕ := 56

def parseEhdr (img : Image) (s : LoadState) : Option Ehdr × LoadState :=
  if img.size.toNat < ehdrSize then (none, s) else (img.ehdr, s.read img 0#64 ehdrSize)

def Ehdr.phdrAt (eh : Ehdr) (i : ℕ) : Word := eh.phoff + BitVec.ofNat 64 i * eh.phentsize

def Image.phdr (img : Image) (eh : Ehdr) (i : ℕ) : Phdr :=
  let ph := eh.phdrAt i
  { type := img.field 4 ph
    offset := img.field 8 (ph + 8#64)
    vaddr := img.field 8 (ph + 16#64)
    filesz := img.field 8 (ph + 32#64)
    memsz := img.field 8 (ph + 40#64) }

/-- The loop of `find_interp`, with `n` headers left from `i` on; the result is the offset
of the path. -/
def findInterpFrom (img : Image) (eh : Ehdr) :
    ℕ → ℕ → LoadState → Option Word × LoadState
  | 0, _, s => (none, s)
  | n + 1, i, s =>
    let s := s.read img (eh.phdrAt i) phdrSize
    let ph := img.phdr eh i
    if ph.type ≠ ptInterp then findInterpFrom img eh n (i + 1) s
    else if ph.offset + ph.filesz > img.size ∨ ph.filesz = 0#64 then (none, s)
    else (some ph.offset, s)

def findInterp (img : Image) (eh : Ehdr) (s : LoadState) : Option Word × LoadState :=
  findInterpFrom img eh eh.phnum.toNat 0 s

def cString (byte : Word → Byte) : ℕ → Word → List Byte
  | 0, _ => []
  | n + 1, off => if byte off = 0#8 then [] else byte off :: cString byte n (off + 1#64)

/-- The interpreter path, read up to its terminator. -/
def interpPath (img : Image) (off : Word) (s : LoadState) : List Byte × LoadState :=
  let path := cString img.byte (2 ^ 64) off
  (path, s.read img off (path.length + 1))

/-! ## Pages of a segment -/

def ensureUserPageHigh (s : LoadState) (virt : Word) : Bool × LoadState :=
  if virt < userBase ∨ virt ≥ userStackTop then (false, s)
  else
    let pg := ((virt - userBase) >>> 12).toNat
    if s.high pg then (true, s)
    else
      -- the same steps as a round of `vmm_alloc_user_pages`
      match allocUserPage s.machine virt true with
      | (false, m) => (false, { s with machine := m })
      | (true, m) => (true, { s with machine := m, high := update s.high pg true })

def ensureUserPageInterp (s : LoadState) (virt : Word) : Bool × LoadState :=
  let pg := ((virt - interpBase) >>> 12).toNat
  if s.interp pg then (true, s)
  else
    match allocUserPage s.machine virt true with
    | (false, m) => (false, { s with machine := m })
    | (true, m) => (true, { s with machine := m, interp := update s.interp pg true })

/-- Low images are loaded into the frames of the identity map. -/
def ensureUserPageLow (s : LoadState) (virt : Word) : Bool × LoadState :=
  if virt < userLowMin ∨ virt ≥ userLowMax then (false, s)
  else if virt &&& 0xFFF#64 ≠ 0#64 then (false, s)
  else
    match pagingSetUserRange s.machine virt 4096#64 with
    | (true, m) => (true, { s with machine := m })
    | (false, m) =>
      let (ok, m) := pagingMap4k m virt virt (pteP ||| pteW ||| pteU)
      (ok, { s with machine := m })

def ensureUserPage (s : LoadState) (virt : Word) : Bool × LoadState :=
  if virt ≥ userBase ∧ virt < userStackTop then ensureUserPageHigh s virt
  else if virt ≥ 0x100000#64 ∧ virt < userLowMax then ensureUserPageLow s virt
  else if virt ≥ 0x50000000#64 ∧ virt < 0x51000000#64 then ensureUserPageInterp s virt
  else (false, s)

/-! ## Bytes of a segment -/

def replaceByte (w : Word) (k : ℕ) (b : Byte) : Word :=
  (w &&& ~~~(0xFF#64 <<< (8 * k))) ||| (b.setWidth 64 <<< (8 * k))

def setBytes (m : Mem) (f off n : ℕ) (source : ℕ → Byte) : Mem :=
  update m f fun slot =>
    (List.range 8).foldl
      (fun w k =>
        let j := 8 * slot.val + k
        if off ≤ j ∧ j < off + n then replaceByte w k (source (j - off)) else w)
      (m f slot)

def Machine.setBytes (s : Machine) (f off n : ℕ) (source : ℕ → Byte) : Machine :=
  { s with mem := HelixOS.setBytes s.mem f off n source }

/-- One `memcpy` or `memset` inside the page of `va`, at the virtual address itself where the walk
finds no physical one. -/
def writeChunk (s : Machine) (va off chunk : Word) (source : ℕ → Byte) : Option Machine :=
  let phys := pagingVirtToPhys s (pageDown va)
  if phys ≠ 0#64 then some (s.setBytes (frameOf phys) off.toNat chunk.toNat source)
  else
    (translate s.mem s.cr3 va).map fun page =>
      s.setBytes page.frame off.toNat chunk.toNat source

/-- The loops of `map_segment`: `note` is what reading the source does to the state, `source done`
are the bytes from `done` on. -/
def writeLoop (base len : Word) (note : Word → ℕ → LoadState → LoadState)
    (source : Word → ℕ → Byte) : ℕ → Word → LoadState → Except LoadError Unit × LoadState
  | 0, _, s => (.ok (), s)
  | fuel + 1, done, s =>
    if done < len then
      let va := base + done
      let off := va - pageDown va
      let room := 4096#64 - off
      let chunk := if room > len - done then len - done else room
      let s := note done chunk.toNat s
      match writeChunk s.machine va off chunk (source done) with
      | none => (.error .fault, s)
      | some m => writeLoop base len note source fuel (done + chunk) { s with machine := m }
    else (.ok (), s)

def copyFile (img : Image) (vaddr offset filesz : Word) (s : LoadState) :
    Except LoadError Unit × LoadState :=
  if filesz = 0#64 then (.ok (), s)
  else if offset + filesz > img.size then (.error .refused, s)
  else
    writeLoop vaddr filesz (fun copied n s => s.read img (offset + copied) n)
      (fun copied k => img.byte (offset + copied + BitVec.ofNat 64 k)) filesz.toNat 0#64 s

def zeroRest (vaddr filesz memsz : Word) (s : LoadState) :
    Except LoadError Unit × LoadState :=
  if memsz > filesz then
    writeLoop (vaddr + filesz) (memsz - filesz) (fun _ _ s => s) (fun _ _ => 0#8)
      (memsz - filesz).toNat 0#64 s
  else (.ok (), s)

def mapSegment (img : Image) (vaddr memsz offset filesz : Word) (s : LoadState) :
    Except LoadError Unit × LoadState :=
  if vaddr + memsz < vaddr then (.error .refused, s)
  else
    let segBegin := pageDown vaddr
    let segEnd := pageUp (vaddr + memsz)
    match forPages ensureUserPage segEnd (pagesBetween segBegin segEnd) segBegin s with
    | (false, s) => (.error .refused, s)
    | (true, s) =>
      match copyFile img vaddr offset filesz s with
      | (.error e, s) => (.error e, s)
      | (.ok (), s) => zeroRest vaddr filesz memsz s

/-! ## Images -/

/-- The loop of `load_loads`; `range` is the pair of `base` and `end`. -/
def loadLoadsFrom (img : Image) (eh : Ehdr) (bias : Word) :
    ℕ → ℕ → Word × Word → LoadState → Except LoadError (Word × Word) × LoadState
  | 0, _, range, s => (.ok range, s)
  | n + 1, i, range, s =>
    let s := s.read img (eh.phdrAt i) phdrSize
    let ph := img.phdr eh i
    if ph.type ≠ ptLoad ∨ ph.memsz = 0#64 then
      loadLoadsFrom img eh bias n (i + 1) range s
    else
      let va := ph.vaddr + bias
      match mapSegment img va ph.memsz ph.offset ph.filesz s with
      | (.error e, s) => (.error e, s)
      | (.ok (), s) =>
        loadLoadsFrom img eh bias n (i + 1)
          (if va < range.1 then va else range.1,
            if va + ph.memsz > range.2 then va + ph.memsz else range.2) s

def loadLoads (img : Image) (eh : Ehdr) (bias : Word) (s : LoadState) :
    Except LoadError (Word × Word) × LoadState :=
  match loadLoadsFrom img eh bias eh.phnum.toNat 0 (0xFFFFFFFFFFFFFFFF#64, 0#64) s with
  | (.error e, s) => (.error e, s)
  | (.ok range, s) =>
    if range.1 = 0xFFFFFFFFFFFFFFFF#64 then (.error .refused, s) else (.ok range, s)

/-- The fields of `struct elf_load_info` that do not only go to the auxiliary vector, and
the entry of the main image. -/
structure LoadInfo where
  entry : Word
  mainEntry : Word
  loadBase : Word
  loadEnd : Word
  interpBase : Word
  deriving DecidableEq

/-- The last check of `elf_load_image` reads the word at the entry point. -/
def entryMapped (s : Machine) (entry : Word) : Bool :=
  pagingVirtToPhys s (pageDown entry) ≠ 0#64 || (translate s.mem s.cr3 entry).isSome

def elfLoadImage (img : Image) (s : LoadState) : Except LoadError LoadInfo × LoadState :=
  match parseEhdr img s with
  | (none, s) => (.error .refused, s)
  | (some eh, s) =>
    match findInterp img eh s with
    | (some _, s) => (.error .refused, s)
    | (none, s) =>
      match loadLoads img eh 0#64 (elfLoadBitmapsReset s) with
      | (.error e, s) => (.error e, s)
      | (.ok range, s) =>
        if entryMapped s.machine eh.entry then
          (.ok ⟨eh.entry, eh.entry, range.1, range.2, 0#64⟩, s)
        else (.error .fault, s)

def lowestLoadFrom (img : Image) (eh : Ehdr) : ℕ → ℕ → Word → LoadState → Word × LoadState
  | 0, _, low, s => (low, s)
  | n + 1, i, low, s =>
    let s := s.read img (eh.phdrAt i) phdrSize
    let ph := img.phdr eh i
    lowestLoadFrom img eh n (i + 1)
      (if ph.type = ptLoad ∧ ph.memsz ≠ 0#64 ∧ ph.vaddr < low then ph.vaddr else low) s

def lowestLoad (img : Image) (eh : Ehdr) (s : LoadState) : Word × LoadState :=
  lowestLoadFrom img eh eh.phnum.toNat 0 0xFFFFFFFFFFFFFFFF#64 s

/-- Images linked at low addresses are moved to `base`. -/
def loadBias (low base : Word) : Word := if low < 0x100000#64 then base else 0#64

def readFile (vfs : List Byte → Option Image) (path : List Byte) : Option Image :=
  (vfs path).filter fun file => file.size ≠ 0#64 && file.size ≤ 0x400000#64

def elfLoadDynamic (vfs : List Byte → Option Image) (img : Image) (s : LoadState) :
    Except LoadError LoadInfo × LoadState :=
  match parseEhdr img s with
  | (none, s) => (.error .refused, s)
  | (some eh, s) =>
    match findInterp img eh (elfLoadBitmapsReset s) with
    | (none, s) => elfLoadImage img s
    | (some off, s) =>
      let (path, s) := interpPath img off s
      match readFile vfs path with
      | none => (.error .refused, s)
      | some ld =>
        match parseEhdr ld s with
        | (none, s) => (.error .refused, s)
        | (some ieh, s) =>
          let (mlo, s) := lowestLoad img eh s
          let (ilo, s) := lowestLoad ld ieh s
          match loadLoads img eh (loadBias mlo userBase) s with
          | (.error e, s) => (.error e, s)
          | (.ok main, s) =>
            match loadLoads ld ieh (loadBias ilo interpBase) s with
            | (.error e, s) => (.error e, s)
            | (.ok range, s) =>
              (.ok ⟨ieh.entry + loadBias ilo interpBase,
                eh.entry + loadBias mlo userBase, main.1,
                if main.2 > range.2 then main.2 else range.2, range.1⟩, s)

end HelixOS
