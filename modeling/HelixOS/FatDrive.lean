import HelixOS.TableSizes

/-!
# Sectors and the file allocation table

The disk under the file system of `fat.c`.  A request can fail, and so can an allocation
of kernel memory: `faults` holds the outcomes of the coming ones.  The functions of the
driver return a value, return `-1` or run on; the sectors they have written until then
stay written.  Sector numbers are relative to the partition.
-/

namespace HelixOS.Fat

abbrev Byte := BitVec 8
abbrev Sector := Fin 512 → Byte

abbrev Bytes := ℕ → Byte

def byteAt (s : Sector) : Bytes := fun i => s (Fin.ofNat 512 i)

def patch (b : Bytes) (off : ℕ) (bytes : List Byte) : Bytes := fun i =>
  if off ≤ i ∧ i < off + bytes.length then bytes.getD (i - off) 0#8 else b i

def toSector (b : Bytes) : Sector := fun i => b i.val

def zeroSector : Sector := fun _ => 0#8

/-! ## Little-endian numbers -/

def le16 (b : Bytes) (i : ℕ) : ℕ := (b i).toNat + 256 * (b (i + 1)).toNat

def le32 (b : Bytes) (i : ℕ) : ℕ := le16 b i + 65536 * le16 b (i + 2)

def bytes16 (n : ℕ) : List Byte := [BitVec.ofNat 8 n, BitVec.ofNat 8 (n / 256)]

def bytes32 (n : ℕ) : List Byte := bytes16 n ++ bytes16 (n / 65536)

def u32 (n : ℕ) : ℕ := n % 2 ^ 32

/-! ## Requests -/

/-- A sector or several are read, a sector is written, kernel memory is allocated. -/
inductive Request where
  | read (lba n : ℕ)
  | write (lba : ℕ)
  | memory
  deriving DecidableEq

/-- The disk, the outcomes of the coming requests, the coming clock values, and a record of the
requests, of the written table entries and of the clusters whose entry a loop that follows the
table could not read. -/
structure Drive where
  sectors : ℕ → Sector
  faults : ℕ → Request → Bool
  clock : ℕ → ℕ
  requests : List Request := []
  entries : List ℕ := []
  unread : List ℕ := []

/-- How a function ends: with a value, with `-1`, or not within the given number of
rounds of its loops. -/
inductive Outcome (α : Type) where
  | ok (a : α)
  | fail
  | hang
  deriving DecidableEq

def FatM (α : Type) : Type := Drive → Outcome α × Drive

instance : Monad FatM where
  pure a := fun d => (.ok a, d)
  bind x f := fun d =>
    match x d with
    | (.ok a, d') => f a d'
    | (.fail, d') => (.fail, d')
    | (.hang, d') => (.hang, d')

def failed {α : Type} : FatM α := fun d => (.fail, d)

def hangs {α : Type} : FatM α := fun d => (.hang, d)

def attempt {α : Type} (x : FatM α) : FatM (Option α) := fun d =>
  match x d with
  | (.ok a, d') => (.ok (some a), d')
  | (.fail, d') => (.ok none, d')
  | (.hang, d') => (.hang, d')

def Drive.served (d : Drive) (r : Request) : Drive :=
  { d with faults := fun n => d.faults (n + 1), requests := r :: d.requests }

/-- One request: it fails, or `value` is returned and the sectors are as `after` says. -/
def request {α : Type} (r : Request) (value : Drive → α) (after : Drive → ℕ → Sector) :
    FatM α := fun d =>
  if d.faults 0 r then (.fail, d.served r)
  else (.ok (value d), { d.served r with sectors := after d })

def readSector (lba : ℕ) : FatM Sector :=
  request (.read lba 1) (fun d => d.sectors lba) fun d => d.sectors

def readSectors (lba n : ℕ) : FatM Bytes :=
  request (.read lba n)
    (fun d i => if i < n * 512 then byteAt (d.sectors (lba + i / 512)) (i % 512) else 0#8)
    fun d => d.sectors

def writeSector (lba : ℕ) (s : Sector) : FatM Unit :=
  request (.write lba) (fun _ => ()) fun d => Function.update d.sectors lba s

def kmalloc : FatM Unit := request .memory (fun _ => ()) fun d => d.sectors

def Drive.noted (d : Drive) (clus : ℕ) : Drive := { d with entries := clus :: d.entries }

def noteEntry (clus : ℕ) : FatM Unit := fun d => (.ok (), d.noted clus)

def rtcUnixSeconds : FatM ℕ := fun d =>
  (.ok (d.clock 0), { d with clock := fun n => d.clock (n + 1) })

def forUpTo : ℕ → (ℕ → FatM Unit) → FatM Unit
  | 0, _ => pure ()
  | n + 1, body => do
      forUpTo n body
      body n

def writeSectors (lba n : ℕ) (b : Bytes) : FatM Unit :=
  forUpTo n fun i => writeSector (lba + i) (toSector fun o => b (i * 512 + o))

/-! ## Geometry -/

inductive FatType where
  | fat12
  | fat16
  | fat32
  deriving DecidableEq

structure Geometry where
  bytsPerSec : ℕ
  secPerClus : ℕ
  rsvdSecCnt : ℕ
  numFats : ℕ
  rootEntCnt : ℕ
  fatsz : ℕ
  totsec : ℕ
  fatType : FatType
  rootClus : ℕ
  firstFatLba : ℕ
  rootLba : ℕ
  rootSectors : ℕ
  dataLba : ℕ
  dataClusters : ℕ

/-- The numbers of the data clusters. -/
def Geometry.Valid (g : Geometry) (c : ℕ) : Prop := 2 ≤ c ∧ c < g.dataClusters + 2

instance (g : Geometry) (c : ℕ) : Decidable (g.Valid c) := inferInstanceAs (Decidable (_ ∧ _))

/-- `fat_mount` after the boot sector has been read. -/
def bootGeometry (bpb : Bytes) : Option Geometry :=
  if bpb 510 ≠ 0x55#8 ∨ bpb 511 ≠ 0xAA#8 then none
  else
    let bytsPerSec := le16 bpb 11
    let secPerClus := (bpb 13).toNat
    let rsvdSecCnt := le16 bpb 14
    let numFats := (bpb 16).toNat
    let rootEntCnt := le16 bpb 17
    let fatsz := if le16 bpb 22 ≠ 0 then le16 bpb 22 else le32 bpb 36
    let totsec := if le16 bpb 19 ≠ 0 then le16 bpb 19 else le32 bpb 32
    if bytsPerSec = 0 ∨ secPerClus = 0 ∨ fatsz = 0 then none
    else
      let rootSectors := (rootEntCnt * 32 + (bytsPerSec - 1)) / bytsPerSec
      let rootLba := u32 (rsvdSecCnt + numFats * fatsz)
      let dataLba := u32 (rootLba + rootSectors)
      let dataClusters := u32 (totsec + 2 ^ 32 - dataLba) / secPerClus
      some {
        bytsPerSec, secPerClus, rsvdSecCnt, numFats, rootEntCnt, fatsz, totsec
        fatType := if rootEntCnt = 0 then .fat32
          else if dataClusters < 4085 then .fat12 else .fat16
        rootClus := if rootEntCnt = 0 then le32 bpb 44 else 0
        firstFatLba := rsvdSecCnt
        rootLba, rootSectors, dataLba, dataClusters }

def fatMount : FatM Geometry := do
  let bpb ← readSector 0
  match bootGeometry (byteAt bpb) with
  | some g => pure g
  | none => failed

/-! ## Entries -/

/-- The sector of the table and the offset in it that hold the bytes from `off` on. -/
def tableSector (g : Geometry) (off : ℕ) : ℕ := u32 off / g.bytsPerSec

def tableOffset (g : Geometry) (off : ℕ) : ℕ := u32 off % g.bytsPerSec

def readTable (g : Geometry) (sec : ℕ) : FatM (Option Sector) :=
  attempt (readSector (u32 (g.firstFatLba + sec)))

def fatGet (g : Geometry) (clus : ℕ) : FatM ℕ :=
  match g.fatType with
  | .fat32 => do
      match ← readTable g (tableSector g (clus * 4)) with
      | none => pure 0x0FFFFFF7
      | some sec => pure (le32 (byteAt sec) (tableOffset g (clus * 4)) % 2 ^ 28)
  | .fat16 => do
      match ← readTable g (tableSector g (clus * 2)) with
      | none => pure 0xFFF7
      | some sec => pure (le16 (byteAt sec) (tableOffset g (clus * 2)))
  | .fat12 => do
      let off := clus + clus / 2
      match ← readTable g (tableSector g off) with
      | none => pure 0xFF7
      | some sec =>
        let half (val : ℕ) : ℕ := if clus % 2 = 1 then val / 16 else val % 4096
        if tableOffset g off = 511 then
          match ← readTable g (tableSector g off + 1) with
          | none => pure 0xFF7
          | some sec₂ =>
            pure (half ((byteAt sec 511).toNat + 256 * (byteAt sec₂ 0).toNat))
        else pure (half (le16 (byteAt sec) (tableOffset g off)))

/-- Puts the cluster on record if reading the sector of its entry is about to fail. -/
def noteUnread (clus lba : ℕ) : FatM Unit := fun d =>
  (.ok (), if d.faults 0 (.read lba 1) then { d with unread := clus :: d.unread } else d)

/-- `fat_get` in the loops that go on to the value it returns. -/
def fatNext (g : Geometry) (clus : ℕ) : FatM ℕ := do
  let width := if g.fatType = .fat32 then 4 else 2
  noteUnread clus (u32 (g.firstFatLba + tableSector g (clus * width)))
  fatGet g clus

def fatIsEof (g : Geometry) (clus : ℕ) : Bool :=
  match g.fatType with
  | .fat32 => clus ≥ 0x0FFFFFF8
  | .fat16 => clus ≥ 0xFFF8
  | .fat12 => clus ≥ 0xFF8

def clusToLba (g : Geometry) (clus : ℕ) : ℕ :=
  u32 (g.dataLba + u32 (clus + 2 ^ 32 - 2) * g.secPerClus)

def fatWritableType (g : Geometry) : Bool := g.fatType = .fat16 || g.fatType = .fat32

def fatEofMark (g : Geometry) : ℕ := if g.fatType = .fat32 then 0x0FFFFFF8 else 0xFFF8

def writeTable (g : Geometry) (sec : ℕ) (s : Sector) : FatM Unit :=
  forUpTo g.numFats fun f => writeSector (u32 (g.firstFatLba + f * g.fatsz + sec)) s

def fatPut (g : Geometry) (clus val : ℕ) : FatM Unit :=
  match g.fatType with
  | .fat32 => do
      let ent := tableOffset g (clus * 4)
      let sec ← readSector (u32 (g.firstFatLba + tableSector g (clus * 4)))
      -- the top four bits of an entry are kept
      let neu := le32 (byteAt sec) ent / 2 ^ 28 * 2 ^ 28 + val % 2 ^ 28
      noteEntry clus
      writeTable g (tableSector g (clus * 4)) (toSector (patch (byteAt sec) ent (bytes32 neu)))
  | .fat16 => do
      let ent := tableOffset g (clus * 2)
      let sec ← readSector (u32 (g.firstFatLba + tableSector g (clus * 2)))
      noteEntry clus
      writeTable g (tableSector g (clus * 2)) (toSector (patch (byteAt sec) ent (bytes16 val)))
  | .fat12 => failed

/-! ## Allocating and freeing -/

def zeroCluster (g : Geometry) (clus : ℕ) : FatM Unit :=
  forUpTo g.secPerClus fun s => writeSector (u32 (clusToLba g clus + s)) zeroSector

/-- The loop of `fat_alloc_cluster` over the `n` clusters from `c` on. -/
def allocFrom (g : Geometry) : ℕ → ℕ → FatM ℕ
  | 0, _ => failed
  | n + 1, c => do
      if (← fatGet g c) = 0 then
        fatPut g c (fatEofMark g)
        zeroCluster g c
        pure c
      else allocFrom g n (c + 1)

/-- Fails where the source returns the cluster 0. -/
def fatAllocCluster (g : Geometry) : FatM ℕ :=
  if fatWritableType g then allocFrom g (u32 (g.dataClusters + 2) - 2) 2 else failed

def inChain (g : Geometry) (clus : ℕ) : Bool := 2 ≤ clus && !fatIsEof g clus

def fatFreeChain (g : Geometry) : ℕ → ℕ → FatM Unit
  | fuel, c =>
    if inChain g c then
      match fuel with
      | 0 => hangs
      | fuel + 1 => do
          let next ← fatNext g c
          let _ ← attempt (fatPut g c 0)
          fatFreeChain g fuel next
    else pure ()

/-! ## Bytes of sectors and buffers -/

open List

lemma byteAt_toSector (b : Bytes) {i : ℕ} (hi : i < 512) : byteAt (toSector b) i = b i := by
  simp [byteAt, toSector, Nat.mod_eq_of_lt hi]

section Patch

variable {b : Bytes} {off i : ℕ} {bytes : List Byte}

lemma patch_inside (hi : i < bytes.length) : patch b off bytes (off + i) = bytes[i] := by
  rw [patch, if_pos ⟨by omega, by omega⟩, Nat.add_sub_cancel_left,
    getD_eq_getElem?_getD, getElem?_eq_getElem hi, Option.getD_some]

lemma patch_outside (hi : i < off ∨ off + bytes.length ≤ i) : patch b off bytes i = b i := by
  rw [patch, if_neg (by omega)]

end Patch

lemma le16_congr {b b' : Bytes} {i j : ℕ} (h : ∀ k, k < 2 → b (i + k) = b' (j + k)) :
    le16 b i = le16 b' j := by
  have h₀ := h 0 (by omega)
  have h₁ := h 1 (by omega)
  simp only [Nat.add_zero] at h₀
  rw [le16, le16, h₀, h₁]

lemma le32_congr {b b' : Bytes} {i j : ℕ} (h : ∀ k, k < 4 → b (i + k) = b' (j + k)) :
    le32 b i = le32 b' j := by
  rw [le32, le32, le16_congr fun k hk => h k (by omega),
    le16_congr (i := i + 2) (j := j + 2) fun k hk => by
      rw [Nat.add_assoc, Nat.add_assoc]
      exact h (2 + k) (by omega)]

lemma le16_lt (b : Bytes) (i : ℕ) : le16 b i < 65536 := by
  have h₀ := (b i).isLt
  have h₁ := (b (i + 1)).isLt
  unfold le16
  omega

lemma le32_lt (b : Bytes) (i : ℕ) : le32 b i < 2 ^ 32 := by
  have h₀ := le16_lt b i
  have h₁ := le16_lt b (i + 2)
  unfold le32
  omega

lemma le16_patch_self (b : Bytes) (off n : ℕ) :
    le16 (patch b off (bytes16 n)) off = n % 65536 := by
  have h₀ : patch b off (bytes16 n) off = BitVec.ofNat 8 n :=
    patch_inside (i := 0) (by simp [bytes16])
  have h₁ : patch b off (bytes16 n) (off + 1) = BitVec.ofNat 8 (n / 256) :=
    patch_inside (i := 1) (by simp [bytes16])
  rw [le16, h₀, h₁, BitVec.toNat_ofNat, BitVec.toNat_ofNat]
  omega

lemma le16_patch_of_ne (b : Bytes) {off i : ℕ} {bytes : List Byte}
    (h : i + 2 ≤ off ∨ off + bytes.length ≤ i) : le16 (patch b off bytes) i = le16 b i :=
  le16_congr fun k hk => patch_outside (by omega)

lemma le32_patch_self (b : Bytes) (off n : ℕ) :
    le32 (patch b off (bytes32 n)) off = n % 2 ^ 32 := by
  have hbytes : ∀ k, k < 4 → patch b off (bytes32 n) (off + k) =
      patch (patch b off (bytes16 n)) (off + 2) (bytes16 (n / 65536)) (off + k) := by
    intro k hk
    rw [patch_inside (by simpa [bytes32, bytes16] using hk)]
    rcases (by omega : k < 2 ∨ 2 ≤ k) with hlow | hhigh
    · rw [patch_outside (Or.inl (by omega)), patch_inside (by simpa [bytes16] using hlow)]
      simp only [bytes32]
      rw [getElem_append_left]
    · obtain ⟨j, rfl⟩ : ∃ j, k = 2 + j := ⟨k - 2, by omega⟩
      rw [← Nat.add_assoc, patch_inside (by simp [bytes16]; omega)]
      simp only [bytes32]
      rw [getElem_append_right (by simp [bytes16])]
      simp [bytes16]
  rw [le32_congr hbytes, le32, le16_patch_self, le16_patch_of_ne _ (by simp [bytes16]),
    le16_patch_self]
  omega

lemma le32_patch_of_ne (b : Bytes) {off i : ℕ} {bytes : List Byte}
    (h : i + 4 ≤ off ∨ off + bytes.length ≤ i) : le32 (patch b off bytes) i = le32 b i :=
  le32_congr fun k hk => patch_outside (by omega)

end HelixOS.Fat
