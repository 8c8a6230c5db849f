import HelixOS.FatDrive

/-!
# Directories and files

Short names, directory entries and the loops of `fat.c` over the entries of a directory.
The fixed root directory of FAT12 and FAT16 is the directory 0; every other directory is the
chain of its first cluster.

A handle of a file keeps the first cluster and the size it has found when it was opened.
The iterator of `fat_getdents64` never leaves the first sector of a cluster: an entry behind
it is read from the memory that follows the buffer, whose content is `behind`.
-/

namespace HelixOS.Fat

/-! ## Short names -/

def dotByte : Byte := 0x2E#8
def slashByte : Byte := 0x2F#8
def spaceByte : Byte := 0x20#8

def upper (c : Byte) : Byte := if 0x61#8 ≤ c ∧ c ≤ 0x7A#8 then c - 0x20#8 else c

def padded (n : ℕ) (cs : List Byte) : List Byte :=
  cs.take n ++ List.replicate (n - cs.length) spaceByte

def splitDot (name : List Byte) : List Byte × Option (List Byte) :=
  match name.reverse.span (· ≠ dotByte) with
  | (_, []) => (name, none)
  | (ext, _ :: base) => (base.reverse, some ext.reverse)

def encode83Upper (name : List Byte) : List Byte :=
  let (base, ext) := splitDot name
  padded 8 ((base.takeWhile (· ≠ slashByte)).map upper) ++
    padded 3 ((ext.getD []).map upper)

/-! ## Dates -/

def civilDate (days : ℕ) : ℕ × ℕ × ℕ :=
  let days := days + 719468
  let era := days / 146097
  let doe := days - era * 146097
  let yoe := (doe - doe / 1460 + doe / 36524 - doe / 146096) / 365
  let y := yoe + era * 400
  let doy := doe - (365 * yoe + yoe / 4 - yoe / 100)
  let mp := (5 * doy + 2) / 153
  let d := doy - (153 * mp + 2) / 5 + 1
  let m := if mp < 10 then mp + 3 else mp - 9
  (if m ≤ 2 then y + 1 else y, m, d)

def fatUnixToDate (seconds : ℕ) : ℕ × ℕ :=
  if seconds = 0 then (0, 0)
  else
    let rem := seconds % 86400
    let (y, m, d) := civilDate (seconds / 86400)
    if y < 1980 then (0, 0)
    else
      (min (y - 1980) 127 * 512 + m * 32 + d,
        rem / 3600 * 2048 + rem % 3600 / 60 * 32 + rem % 60 / 2)

/-! ## Entries -/

structure Meta where
  clus : ℕ
  size : ℕ
  attr : Byte
  crtTime : ℕ
  crtDate : ℕ
  accDate : ℕ
  wrtTime : ℕ
  wrtDate : ℕ

def entryAt (s : Sector) (off : ℕ) : Bytes := fun i => byteAt s (off + i)

def entryName (e : Bytes) : List Byte := (List.range 11).map e

def entryClus (g : Geometry) (e : Bytes) : ℕ :=
  le16 e 26 + if g.fatType = .fat32 then 65536 * le16 e 20 else 0

def entryMeta (g : Geometry) (e : Bytes) : Meta where
  clus := entryClus g e
  size := le32 e 28
  attr := e 11
  crtTime := le16 e 14
  crtDate := le16 e 16
  accDate := le16 e 18
  wrtTime := le16 e 22
  wrtDate := le16 e 24

def attrDirectory : Byte := 0x10#8
def attrLongName : Byte := 0x0F#8

def isDirectory (attr : Byte) : Bool := attr &&& attrDirectory ≠ 0#8

def entryEnd : Byte := 0#8
def entryDeleted : Byte := 0xE5#8

def setClus (e : Bytes) (clus : ℕ) : Bytes :=
  patch (patch e 20 (bytes16 (clus / 65536))) 26 (bytes16 clus)

def setSize (e : Bytes) (size : ℕ) : Bytes := patch e 28 (bytes32 size)

def setTimes (e : Bytes) (crtTime crtDate accDate wrtTime wrtDate : ℕ) : Bytes :=
  patch (patch (patch (patch (patch e 14 (bytes16 crtTime)) 16 (bytes16 crtDate))
    18 (bytes16 accDate)) 22 (bytes16 wrtTime)) 24 (bytes16 wrtDate)

def setEntry (s : Sector) (off : ℕ) (e : Bytes) : Sector :=
  toSector (patch (byteAt s) off ((List.range 32).map e))

def fill83Dirent (name83 : List Byte) (attr : Byte) (clus size : ℕ) : FatM Bytes := do
  let (date, time) := fatUnixToDate (← rtcUnixSeconds)
  let e : Bytes := patch (patch (fun _ => 0#8) 0 name83) 11 [attr]
  pure (setTimes (setSize (setClus e clus) size) time date date time date)

/-! ## Loops over a directory -/

inductive Verdict (β : Type) where
  | next
  | stop
  | hit (b : β)

/-- A loop over a directory ends after the last entry (of the cluster `prev`), where it stops, or
at the entry it looks for. -/
inductive Walk (β : Type) where
  | ended (prev : ℕ)
  | stopped
  | found (lba off : ℕ) (sec : Sector) (b : β)

section Walks

variable {β : Type} (visit : Bytes → Verdict β)

def scanEntries (s : Sector) : ℕ → ℕ → Verdict (ℕ × β)
  | 0, _ => .next
  | n + 1, off =>
    match visit (entryAt s off) with
    | .next => scanEntries s n (off + 32)
    | .stop => .stop
    | .hit b => .hit (off, b)

def scanSectors : ℕ → ℕ → FatM (Walk β)
  | 0, _ => pure (.ended 0)
  | n + 1, lba => do
      let s ← readSector (u32 lba)
      match scanEntries visit s 16 0 with
      | .next => scanSectors n (lba + 1)
      | .stop => pure .stopped
      | .hit (off, b) => pure (.found (u32 lba) off s b)

def scanChain (g : Geometry) : ℕ → ℕ → ℕ → FatM (Walk β)
  | fuel, clus, prev =>
    if inChain g clus then
      match fuel with
      | 0 => hangs
      | fuel + 1 => do
          match ← scanSectors visit g.secPerClus (clusToLba g clus) with
          | .ended _ => scanChain g fuel (← fatNext g clus) clus
          | .stopped => pure .stopped
          | .found lba off s b => pure (.found lba off s b)
    else pure (.ended prev)

/-- The driver keeps the entries of this directory outside the clusters. -/
def FixedRoot (g : Geometry) (dir : ℕ) : Prop := dir = 0 ∧ g.fatType ≠ .fat32

instance (g : Geometry) (dir : ℕ) : Decidable (FixedRoot g dir) :=
  inferInstanceAs (Decidable (_ ∧ _))

/-- The first cluster of the directory with the key `dir`, if it is a chain. -/
def chainStart (g : Geometry) (dir : ℕ) : ℕ := if dir ≠ 0 then dir else g.rootClus

/-- The directory with the first cluster `dir`, or the root directory. -/
def scanDir (g : Geometry) (fuel dir : ℕ) : FatM (Walk β) :=
  if dir = 0 ∧ g.fatType ≠ .fat32 then scanSectors visit g.rootSectors g.rootLba
  else scanChain visit g fuel (chainStart g dir) 0

end Walks

/-- `find_in_dir` and `root_update_dirent` stop at the end mark. -/
def visitNamed {β : Type} (want : List Byte) (value : Bytes → β) (e : Bytes) : Verdict β :=
  if e 0 = entryEnd then .stop
  else if e 0 = entryDeleted ∨ e 11 = attrLongName then .next
  else if entryName e = want then .hit (value e)
  else .next

/-- `dir_unlink_at` and `dir_rename_at` go on after the end mark. -/
def visitAnywhere (want : List Byte) (e : Bytes) : Verdict Bytes :=
  if e 0 = entryEnd ∨ e 0 = entryDeleted ∨ e 11 = attrLongName then .next
  else if entryName e = want then .hit e
  else .next

def visitFree (e : Bytes) : Verdict Unit :=
  if e 0 = entryEnd ∨ e 0 = entryDeleted then .hit () else .next

/-- `dir_is_empty`: the entries `.` and `..` do not count. -/
def visitRemaining (e : Bytes) : Verdict Unit :=
  if e 0 = entryEnd then .stop
  else if e 0 = entryDeleted ∨ e 11 = attrLongName then .next
  else if e 0 = dotByte ∧ (e 1 = spaceByte ∨ e 1 = dotByte) then .next
  else .hit ()

def findInDir (g : Geometry) (fuel dir : ℕ) (want : List Byte) : FatM Meta := do
  match ← scanDir (visitNamed want (entryMeta g)) g fuel dir with
  | .found _ _ _ found => pure found
  | _ => failed

def dirFindFreeSlot (g : Geometry) (fuel dir : ℕ) : FatM (ℕ × ℕ × Sector) := do
  match ← scanDir visitFree g fuel dir with
  | .found lba off s _ => pure (lba, off, s)
  | .stopped => failed
  | .ended prev =>
    if dir = 0 ∧ g.fatType ≠ .fat32 then failed
    else
      -- extend the chain of the directory
      let neu ← fatAllocCluster g
      if prev = 0 then failed
      else
        fatPut g prev neu
        let s ← readSector (clusToLba g neu)
        pure (clusToLba g neu, 0, s)

def rootKey (g : Geometry) : ℕ := if g.fatType = .fat32 then g.rootClus else 0

def rootUpdateDirent (g : Geometry) (fuel : ℕ) (name83 : List Byte) (startClus size : ℕ) :
    FatM Unit := do
  match ← scanDir (visitNamed name83 id) g fuel (rootKey g) with
  | .found lba off s e =>
    writeSector lba (setEntry s off (setSize (setClus e startClus) size))
  | _ => failed

def dirUnlinkAt (g : Geometry) (fuel parent : ℕ) (name83 : List Byte) (freeChain : Bool) :
    FatM Unit := do
  match ← scanDir (visitAnywhere name83) g fuel parent with
  | .found lba off s e =>
    writeSector lba (setEntry s off (patch e 0 [entryDeleted]))
    if freeChain && 2 ≤ entryClus g e then fatFreeChain g fuel (entryClus g e)
  | _ => failed

def dirRenameAt (g : Geometry) (fuel parent : ℕ) (old83 new83 : List Byte) : FatM Unit := do
  match ← scanDir (visitAnywhere old83) g fuel parent with
  | .found lba off s e => writeSector lba (setEntry s off (patch e 0 new83))
  | _ => failed

/-- A sector that cannot be read counts as an entry.  On FAT32 the directory 0 is not the
root directory here. -/
def dirIsEmpty (g : Geometry) (fuel dir : ℕ) : FatM Bool := do
  let walk : FatM (Walk Unit) :=
    if dir = 0 ∧ g.fatType ≠ .fat32 then scanSectors visitRemaining g.rootSectors g.rootLba
    else scanChain visitRemaining g fuel dir 0
  match ← attempt walk with
  | none => pure false
  | some (.found _ _ _ _) => pure false
  | some _ => pure true

/-! ## Paths -/

/-- The components of a path.  A component is at most 63 bytes long: the rest of a longer
one is taken for the next. -/
def componentsFrom : ℕ → List Byte → List (List Byte)
  | 0, _ => []
  | fuel + 1, path =>
    match path.dropWhile (· = slashByte) with
    | [] => []
    | c :: rest =>
      let comp := ((c :: rest).take 63).takeWhile (· ≠ slashByte)
      comp :: componentsFrom fuel ((c :: rest).drop comp.length)

def components (path : List Byte) : List (List Byte) := componentsFrom path.length path

def resolveFrom (g : Geometry) (fuel : ℕ) : ℕ → List (List Byte) → FatM Meta
  | _, [] => failed
  | dir, [leaf] => findInDir g fuel dir (encode83Upper leaf)
  | dir, comp :: rest => do
      let found ← findInDir g fuel dir (encode83Upper comp)
      if isDirectory found.attr then resolveFrom g fuel found.clus rest else failed

def fatResolve (g : Geometry) (fuel : ℕ) (path : List Byte) : FatM Meta :=
  resolveFrom g fuel (rootKey g) (components path)

def resolveParentFrom (g : Geometry) (fuel : ℕ) : ℕ → List (List Byte) → FatM (ℕ × List Byte)
  | _, [] => failed
  | dir, [leaf] => pure (dir, encode83Upper leaf)
  | dir, comp :: rest => do
      let found ← findInDir g fuel dir (encode83Upper comp)
      if isDirectory found.attr then resolveParentFrom g fuel found.clus rest else failed

def fatResolveParent (g : Geometry) (fuel : ℕ) (path : List Byte) : FatM (ℕ × List Byte) :=
  resolveParentFrom g fuel (rootKey g) (components path)

/-! ## Handles -/

structure FatFile where
  startClus : ℕ
  size : ℕ
  pos : ℕ
  name83 : List Byte

structure DirIter where
  clus : ℕ
  sec : ℕ
  off : ℕ
  eof : Bool

inductive Priv where
  | root
  | dir (it : DirIter)
  | file (ff : FatFile)

structure VfsFile where
  priv : Priv
  size : ℕ
  pos : ℕ
  isDir : Bool
  writable : Bool

def clusSize (g : Geometry) : ℕ := g.secPerClus * g.bytsPerSec

/-! ## Reading -/

def skipRead (g : Geometry) : ℕ → ℕ → FatM ℕ
  | 0, clus => pure clus
  | skip + 1, clus => do
      let next ← fatGet g clus
      if inChain g next then skipRead g skip next else failed

/-- The loop of `fat_read_file`: the bytes read before the chain ends. -/
def readLoop (g : Geometry) : ℕ → ℕ → ℕ → ℕ → FatM (List Byte)
  | fuel, clus, off, remain =>
    if remain = 0 then pure []
    else
      match fuel with
      | 0 => hangs
      | fuel + 1 => do
          let buf ← readSectors (clusToLba g clus) g.secPerClus
          let chunk := min (clusSize g - off) remain
          let got := (List.range chunk).map fun i => buf (off + i)
          if remain - chunk = 0 then pure got
          else
            let next ← fatGet g clus
            if inChain g next then
              let rest ← readLoop g fuel next 0 (remain - chunk)
              pure (got ++ rest)
            else pure got

def fatReadFile (g : Geometry) (f : VfsFile) (len : ℕ) : FatM (List Byte × VfsFile) :=
  match f.priv with
  | .file ff =>
    if ff.pos ≥ ff.size then pure ([], f)
    else do
      let len := min len (ff.size - ff.pos)
      let clus ← skipRead g (ff.pos / clusSize g) ff.startClus
      kmalloc
      let got ← readLoop g len clus (ff.pos % clusSize g) len
      let pos := ff.pos + got.length
      pure (got, { f with priv := .file { ff with pos }, pos })
  | _ => failed

/-! ## Writing -/

def nextForWrite (g : Geometry) (clus : ℕ) : FatM ℕ := do
  let n ← fatNext g clus
  if inChain g n then pure n
  else
    let n ← fatAllocCluster g
    fatPut g clus n
    pure n

def skipWrite (g : Geometry) : ℕ → ℕ → FatM ℕ
  | 0, clus => pure clus
  | skip + 1, clus => do skipWrite g skip (← nextForWrite g clus)

def writeLoop (g : Geometry) : ℕ → ℕ → ℕ → List Byte → FatM Unit
  | fuel, clus, off, src =>
    if src = [] then pure ()
    else
      match fuel with
      | 0 => hangs
      | fuel + 1 => do
          let buf ← readSectors (clusToLba g clus) g.secPerClus
          let chunk := min (clusSize g - off) src.length
          writeSectors (clusToLba g clus) g.secPerClus (patch buf off (src.take chunk))
          if src.drop chunk = [] then pure ()
          else writeLoop g fuel (← nextForWrite g clus) 0 (src.drop chunk)

def firstForWrite (g : Geometry) (ff : FatFile) : FatM ℕ :=
  if ff.startClus < 2 then fatAllocCluster g else pure ff.startClus

def writeData (g : Geometry) (ff : FatFile) (src : List Byte) : FatM Unit := do
  let clus ← skipWrite g (ff.pos / clusSize g) ff.startClus
  kmalloc
  writeLoop g src.length clus (ff.pos % clusSize g) src

/-- The number of bytes written, or nothing for `-1`, and the handle: a first cluster stays
in it even if the call fails. -/
def fatWriteFile (g : Geometry) (fuel : ℕ) (f : VfsFile) (src : List Byte) :
    FatM (Option ℕ × VfsFile) :=
  match f.priv with
  | .file ff =>
    if !f.writable || !fatWritableType g then pure (none, f)
    else if src = [] then pure (some 0, f)
    else do
      match ← attempt (firstForWrite g ff) with
      | none => pure (none, f)
      | some startClus =>
        let ff := { ff with startClus }
        match ← attempt (writeData g ff src) with
        | none => pure (none, { f with priv := .file ff })
        | some () =>
          let pos := ff.pos + src.length
          let size := max ff.size pos
          let _ ← attempt (rootUpdateDirent g fuel ff.name83 startClus (u32 size))
          pure (some src.length, { f with priv := .file { ff with pos, size }, pos, size })
  | _ => pure (none, f)

/-! ## Creating -/

/-- The entries `.` and `..` of a new directory in the root directory. -/
def dotSector (g : Geometry) (clus : ℕ) : FatM Sector := do
  let dot ← fill83Dirent (padded 11 [dotByte]) attrDirectory clus 0
  let dotdot ← fill83Dirent (padded 11 [dotByte, dotByte]) attrDirectory (rootKey g) 0
  pure (setEntry (setEntry zeroSector 0 dot) 32 dotdot)

def attrArchive : Byte := 0x20#8

def fatCreateRoot (g : Geometry) (fuel : ℕ) (path : List Byte) (isDir : Bool) : FatM ℕ := do
  let name := path.dropWhile (· = slashByte)
  if !fatWritableType g || name.contains slashByte then failed
  else
    let name83 := encode83Upper name
    match ← attempt (findInDir g fuel (rootKey g) name83) with
    | some _ => failed
    | none =>
      let clus ← fatAllocCluster g
      if isDir then
        writeSector (clusToLba g clus) (← dotSector g clus)
      let (lba, off, s) ← dirFindFreeSlot g fuel (rootKey g)
      let e ← fill83Dirent name83 (if isDir then attrDirectory else attrArchive) clus 0
      writeSector lba (setEntry s off e)
      pure clus

def fatMkdirRw (g : Geometry) (fuel : ℕ) (path : List Byte) : FatM Unit := do
  if fatWritableType g then
    let _ ← fatCreateRoot g fuel path true
  else failed

/-! ## Opening -/

structure OpenFlags where
  wronly : Bool
  rdwr : Bool
  creat : Bool
  trunc : Bool
  append : Bool

def OpenFlags.writable (flags : OpenFlags) : Bool :=
  flags.wronly || flags.rdwr || flags.creat || flags.trunc || flags.append

def leafOf (path : List Byte) : List Byte := (path.reverse.takeWhile (· ≠ slashByte)).reverse

def fileHandle (path : List Byte) (flags : OpenFlags) (clus size : ℕ) : FatM VfsFile := do
  kmalloc
  let pos := if flags.append then size else 0
  let ff : FatFile := { startClus := clus, size, pos, name83 := encode83Upper (leafOf path) }
  kmalloc
  pure { priv := .file ff, size, pos, isDir := false, writable := flags.writable }

def fatOpen (g : Geometry) (fuel : ℕ) (path : List Byte) (flags : OpenFlags) : FatM VfsFile := do
  if path.dropWhile (· = slashByte) = [] then
    kmalloc
    pure { priv := .root, size := 0, pos := 0, isDir := true, writable := false }
  else
    match ← attempt (fatResolve g fuel path) with
    | none =>
      if !flags.creat || !fatWritableType g then failed
      else fileHandle path flags (← fatCreateRoot g fuel path false) 0
    | some found =>
      if isDirectory found.attr then
        kmalloc
        kmalloc
        let clus := if g.fatType = .fat32 then found.clus % 65536 else 0
        pure { priv := .dir ⟨clus, 0, 0, false⟩, size := 0, pos := 0, isDir := true,
               writable := false }
      else if flags.trunc && fatWritableType g then
        -- only the first cluster is marked, and the entry keeps its size
        if 2 ≤ found.clus then
          let _ ← attempt (fatPut g found.clus (fatEofMark g))
        fileHandle path flags found.clus 0
      else fileHandle path flags found.clus found.size

/-! ## Removing and renaming -/

def fatUnlinkPath (g : Geometry) (fuel : ℕ) (path : List Byte) : FatM Unit := do
  if fatWritableType g then
    let (parent, name83) ← fatResolveParent g fuel path
    dirUnlinkAt g fuel parent name83 true
  else failed

def fatRmdirPath (g : Geometry) (fuel : ℕ) (path : List Byte) : FatM Unit := do
  if !fatWritableType g then failed
  else
    let found ← fatResolve g fuel path
    if !isDirectory found.attr then failed
    else if !(← dirIsEmpty g fuel found.clus) then failed
    else
      let (parent, name83) ← fatResolveParent g fuel path
      dirUnlinkAt g fuel parent name83 true

def isDotdot (e : Bytes) : Bool := e 0 = dotByte && e 1 = dotByte

def fatUpdateDotdot (g : Geometry) (dir newParent : ℕ) : FatM Unit := do
  let s ← readSector (clusToLba g dir)
  let e := entryAt s 32
  if isDotdot e then writeSector (clusToLba g dir) (setEntry s 32 (setClus e newParent))
  else failed

def dirRenameCross (g : Geometry) (fuel oldParent newParent : ℕ) (old83 new83 : List Byte) :
    FatM Unit := do
  let found ← findInDir g fuel oldParent old83
  match ← attempt (findInDir g fuel newParent new83) with
  | some _ => failed
  | none =>
    let (lba, off, s) ← dirFindFreeSlot g fuel newParent
    let e ← fill83Dirent new83 found.attr found.clus found.size
    writeSector lba (setEntry s off (setTimes e found.crtTime found.crtDate found.accDate
      found.wrtTime found.wrtDate))
    if isDirectory found.attr then
      fatUpdateDotdot g found.clus newParent
    dirUnlinkAt g fuel oldParent old83 false

def fatDirHasAncestor (g : Geometry) (target : ℕ) : ℕ → ℕ → FatM Bool
  | fuel, c =>
    if c < 2 then pure false
    else
      match fuel with
      | 0 => hangs
      | fuel + 1 => do
          match ← attempt (readSector (clusToLba g c)) with
          | none => pure false
          | some s =>
            let e := entryAt s 32
            let parent := entryClus g e
            if !isDotdot e then pure false
            else if parent = target then pure true
            else if parent = 0 ∨ parent = c then pure false
            else fatDirHasAncestor g target fuel parent

def fatRenamePath (g : Geometry) (fuel : ℕ) (oldPath newPath : List Byte) : FatM Unit := do
  if !fatWritableType g then failed
  else
    let (oldParent, old83) ← fatResolveParent g fuel oldPath
    let (newParent, new83) ← fatResolveParent g fuel newPath
    if oldParent = newParent then dirRenameAt g fuel oldParent old83 new83
    else
      let found ← findInDir g fuel oldParent old83
      if isDirectory found.attr then
        let below ← (if newParent = found.clus then pure true
          else fatDirHasAncestor g found.clus fuel newParent : FatM Bool)
        if below then failed
        else dirRenameCross g fuel oldParent newParent old83 new83
      else dirRenameCross g fuel oldParent newParent old83 new83

/-! ## Listing -/

/-- `ent_to_name`, as far as `strlen` reads it. -/
def entToName (e : Bytes) : List Byte :=
  let base := ((List.range 8).map e).takeWhile (· ≠ spaceByte)
  let ext := if e 8 ≠ spaceByte then
      dotByte :: ((List.range 3).map fun i => e (8 + i)).takeWhile (· ≠ spaceByte)
    else []
  (base ++ ext).takeWhile (· ≠ 0#8)

structure Dirent where
  ino : ℕ
  off : ℕ
  reclen : ℕ
  isDir : Bool
  name : List Byte

def recordSize (e : Bytes) : ℕ := (8 + 8 + 2 + 1 + (entToName e).length + 1 + 7) / 8 * 8

def dirent (index : ℕ) (e : Bytes) : Dirent where
  ino := index
  off := index
  reclen := recordSize e
  isDir := isDirectory (e 11)
  name := entToName e

/-- Deleted entries, parts of long names and labels have no record. -/
def unlisted (e : Bytes) : Bool :=
  e 0 = entryDeleted || e 11 = attrLongName || e 11 &&& 0x08#8 ≠ 0#8

/-! ## The position -/

/-- The next entry, the end of the loop, or a sector that could not be read. -/
inductive Fetch where
  | entry (e : Bytes)
  | done
  | unread

def rootMaxEntries (g : Geometry) : ℕ :=
  if g.fatType = .fat32 then g.secPerClus * g.bytsPerSec / 32 else g.rootEntCnt

def bufferAt (behind : Bytes) (s : Sector) (off : ℕ) : Bytes := fun i =>
  if 32 ≤ i then 0#8
  else if off + i < 512 then byteAt s (off + i)
  else behind (off + i - 512)

def fetchAt (behind : Bytes) (lba off : ℕ) : FatM Fetch := do
  match ← attempt (readSector (u32 lba)) with
  | none => pure .unread
  | some s => pure (.entry (bufferAt behind s off))

def fetchRoot (g : Geometry) (behind : Bytes) (index : ℕ) : FatM Fetch :=
  if index ≥ rootMaxEntries g then pure .done
  else
    let sec := u32 (index * 32 / 512)
    let off := index * 32 % 512
    if g.fatType = .fat32 then fetchAt behind (clusToLba g g.rootClus + sec) off
    else if sec ≥ g.rootSectors then pure .done
    else fetchAt behind (g.rootLba + sec) off

/-- The number of the next cluster is kept in 16 bits. -/
def fetchDir (g : Geometry) (behind : Bytes) (it : DirIter) : FatM (Fetch × DirIter) := do
  if it.eof then pure (.done, it)
  else if it.clus = 0 ∧ g.fatType ≠ .fat32 then
    -- the number of entries of the root directory is 0 here
    pure (.done, it)
  else if it.off ≥ g.secPerClus * g.bytsPerSec then
    let next ← fatGet g it.clus
    if fatIsEof g next || next < 2 then pure (.done, { it with eof := true })
    else
      let it := { it with clus := next % 65536, sec := 0, off := 0 }
      pure (← fetchAt behind (clusToLba g it.clus + it.sec) it.off, it)
  else pure (← fetchAt behind (clusToLba g it.clus + it.sec) it.off, it)

def fetch (g : Geometry) (behind : Bytes) (f : VfsFile) (index : ℕ) : FatM (Fetch × VfsFile) := do
  match f.priv with
  | .dir it =>
    let (e, it) ← fetchDir g behind it
    pure (e, { f with priv := .dir it })
  | _ => pure (← fetchRoot g behind index, f)

/-! ## The loop -/

def VfsFile.advance (f : VfsFile) : VfsFile :=
  match f.priv with
  | .dir it => { f with priv := .dir { it with off := (it.off + 32) % 65536 } }
  | _ => f

def VfsFile.atEnd (f : VfsFile) : VfsFile :=
  match f.priv with
  | .dir it => { f with priv := .dir { it with eof := true } }
  | _ => f

inductive DirResult where
  | records (rs : List Dirent)
  | error (number : ℕ)

def produced (rs : List Dirent) : ℕ := (rs.map Dirent.reclen).sum

def getdentsLoop (g : Geometry) (behind : Bytes) (len : ℕ) :
    ℕ → VfsFile → ℕ → List Dirent → FatM (DirResult × VfsFile)
  | 0, _, _, _ => hangs
  | fuel + 1, f, index, rs => do
      match ← fetch g behind f index with
      | (.unread, f) => pure (.error 5, f)
      | (.done, f) => pure (.records rs, f)
      | (.entry e, f) =>
        if e 0 = entryEnd then pure (.records rs, f.atEnd)
        else if unlisted e then getdentsLoop g behind len fuel f.advance (index + 1) rs
        else if produced rs + recordSize e > len then
          pure (if produced rs = 0 then .error 22 else .records rs, f)
        else
          getdentsLoop g behind len fuel { f with pos := index + 1 }.advance (index + 1)
            (rs ++ [dirent (index + 1) e])

def fatGetdents64 (g : Geometry) (behind : Bytes) (fuel : ℕ) (f : VfsFile) (len : ℕ) :
    FatM (DirResult × VfsFile) :=
  if !f.isDir then pure (.error 20, f) else getdentsLoop g behind len fuel f f.pos []

/-- Calls with buffers of the given lengths until one returns 0: all their records. -/
def listDir (g : Geometry) (behind : Bytes) (fuel : ℕ) :
    ℕ → (ℕ → ℕ) → VfsFile → FatM (List Dirent)
  | 0, _, _ => hangs
  | rounds + 1, len, f => do
      match ← fatGetdents64 g behind fuel f (len 0) with
      | (.error _, _) => failed
      | (.records [], _) => pure []
      | (.records (r :: rs), f) =>
        let later ← listDir g behind fuel rounds (fun n => len (n + 1)) f
        pure (r :: rs ++ later)

end HelixOS.Fat
