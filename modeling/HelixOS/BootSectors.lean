import HelixOS.FatDrive

/-!
# Boot sectors that may be mounted

`fat_mount` accepts every boot sector with the right signature in which three fields are
not zero.  The boot sectors are characterised whose volume stays inside the partition and
inside the buffers of the driver.
-/

namespace HelixOS.Fat

variable {bpb : Bytes} {B n : ℕ}

/-! ## Staying inside -/

def tableEnd (g : Geometry) (c : ℕ) : ℕ :=
  match g.fatType with
  | .fat32 => c * 4 + 4
  | .fat16 => c * 2 + 2
  | .fat12 => c + c / 2 + 2

/-- Where the bytes end that `fat_get` reads in its buffer; the second byte of a 12-bit
entry may be read from the next sector. -/
def bufferEnd (g : Geometry) (c : ℕ) : ℕ :=
  match g.fatType with
  | .fat32 => tableOffset g (c * 4) + 4
  | .fat16 => tableOffset g (c * 2) + 2
  | .fat12 =>
    if tableOffset g (c + c / 2) = 511 then 512 else tableOffset g (c + c / 2) + 2

/-- Every cluster has its entry in the tables and its sectors in the partition, behind the
tables and the root directory. -/
def Geometry.StaysInside (g : Geometry) (partSectors : ℕ) : Prop :=
  ∀ c, g.Valid c →
    tableEnd g c ≤ g.fatsz * g.bytsPerSec ∧ bufferEnd g c ≤ 512 ∧
      g.rsvdSecCnt + g.numFats * g.fatsz + g.rootSectors ≤ clusToLba g c ∧
      clusToLba g c + g.secPerClus ≤ partSectors

/-! ## Conditions on the fields -/

/-- The fields of the boot sector, under the names of `struct fat_fs`. -/
structure BootFields where
  bytsPerSec : ℕ
  secPerClus : ℕ
  rsvdSecCnt : ℕ
  numFats : ℕ
  rootEntCnt : ℕ
  fatsz : ℕ
  totsec : ℕ

def bootFields (bpb : Bytes) : BootFields where
  bytsPerSec := le16 bpb 11
  secPerClus := (bpb 13).toNat
  rsvdSecCnt := le16 bpb 14
  numFats := (bpb 16).toNat
  rootEntCnt := le16 bpb 17
  fatsz := if le16 bpb 22 ≠ 0 then le16 bpb 22 else le32 bpb 36
  totsec := if le16 bpb 19 ≠ 0 then le16 bpb 19 else le32 bpb 32

namespace BootFields

variable (b : BootFields)

def rootSectors : ℕ := (b.rootEntCnt * 32 + (b.bytsPerSec - 1)) / b.bytsPerSec

def dataStart : ℕ := b.rsvdSecCnt + b.numFats * b.fatsz + b.rootSectors

def clusters : ℕ := u32 (b.totsec + 2 ^ 32 - u32 b.dataStart) / b.secPerClus

/-- The entries of `n` clusters fit into the table, and no entry is read from behind the
512 bytes of a sector. -/
def TableFits (n : ℕ) : Prop :=
  if b.rootEntCnt = 0 then
    (n + 2) * 4 ≤ b.fatsz * b.bytsPerSec ∧
      (b.bytsPerSec ≤ 510 ∨ b.bytsPerSec = 512 ∨ b.bytsPerSec = 511 ∧ n < 254 ∨ n < 127)
  else if n < 4085 then
    (n + 1) + (n + 1) / 2 + 2 ≤ b.fatsz * b.bytsPerSec ∧ (b.bytsPerSec ≤ 513 ∨ n < 341)
  else (n + 2) * 2 ≤ b.fatsz * b.bytsPerSec ∧ b.bytsPerSec ≤ 512

def DataFits (n partSectors : ℕ) : Prop :=
  b.dataStart + n * b.secPerClus ≤ partSectors ∧ b.dataStart + (n - 1) * b.secPerClus < 2 ^ 32

end BootFields

def BootFits (bpb : Bytes) (partSectors : ℕ) : Prop :=
  let b := bootFields bpb
  bpb 510 = 0x55#8 → bpb 511 = 0xAA#8 →
    b.bytsPerSec ≠ 0 → b.secPerClus ≠ 0 → b.fatsz ≠ 0 →
    b.clusters = 0 ∨ b.TableFits b.clusters ∧ b.DataFits b.clusters partSectors

/-! ## The fields and the geometry -/

structure Geometry.HasFields (g : Geometry) (b : BootFields) : Prop where
  bytsPerSec : g.bytsPerSec = b.bytsPerSec
  secPerClus : g.secPerClus = b.secPerClus
  rsvdSecCnt : g.rsvdSecCnt = b.rsvdSecCnt
  numFats : g.numFats = b.numFats
  fatsz : g.fatsz = b.fatsz
  rootSectors : g.rootSectors = b.rootSectors
  dataLba : g.dataLba = u32 b.dataStart
  dataClusters : g.dataClusters = b.clusters
  fatType : g.fatType =
    if b.rootEntCnt = 0 then .fat32 else if b.clusters < 4085 then .fat12 else .fat16
  small : b.secPerClus < 256 ∧ b.totsec < 2 ^ 32

lemma bootFields_small (bpb) :
    (bootFields bpb).secPerClus < 256 ∧ (bootFields bpb).totsec < 2 ^ 32 := by
  refine ⟨(bpb 13).isLt, ?_⟩
  have htot : le16 bpb 19 < 2 ^ 32 := (le16_lt bpb 19).trans (by norm_num)
  unfold bootFields
  dsimp only
  split_ifs
  · exact htot
  · exact le32_lt bpb 32

lemma bootGeometry_some {g : Geometry} (h : bootGeometry bpb = some g) :
    (bpb 510 = 0x55#8 ∧ bpb 511 = 0xAA#8) ∧
      ((bootFields bpb).bytsPerSec ≠ 0 ∧ (bootFields bpb).secPerClus ≠ 0 ∧
        (bootFields bpb).fatsz ≠ 0) ∧
      g.HasFields (bootFields bpb) := by
  have hstart : u32 (u32 ((bootFields bpb).rsvdSecCnt + (bootFields bpb).numFats * (bootFields
      bpb).fatsz) + (bootFields bpb).rootSectors) = u32 (bootFields bpb).dataStart := by
    simp [u32, BootFields.dataStart]
  unfold bootGeometry at h
  by_cases hsign : bpb 510 ≠ 0x55#8 ∨ bpb 511 ≠ 0xAA#8
  · rw [if_pos hsign] at h
    cases h
  by_cases hzero : le16 bpb 11 = 0 ∨ (bpb 13).toNat = 0 ∨
      (if le16 bpb 22 ≠ 0 then le16 bpb 22 else le32 bpb 36) = 0
  · rw [if_neg hsign] at h
    rw [if_pos hzero] at h
    cases h
  rw [if_neg hsign] at h
  rw [if_neg hzero] at h
  simp only [not_or, not_not] at hsign hzero
  obtain rfl := Option.some.inj h
  refine ⟨hsign, hzero, ?_⟩
  have hclusters : u32 ((bootFields bpb).totsec + 2 ^ 32 -
      u32 (u32 ((bootFields bpb).rsvdSecCnt +
        (bootFields bpb).numFats * (bootFields bpb).fatsz) + (bootFields bpb).rootSectors)) /
      (bootFields bpb).secPerClus = (bootFields bpb).clusters := by
    rw [hstart]
    rfl
  exact ⟨rfl, rfl, rfl, rfl, rfl, rfl, hstart, hclusters, by rw [← hclusters]; rfl,
    bootFields_small bpb⟩

lemma bootGeometry_isSome (hsign : bpb 510 = 0x55#8 ∧ bpb 511 = 0xAA#8)
    (hbytes : (bootFields bpb).bytsPerSec ≠ 0) (hclus : (bootFields bpb).secPerClus ≠ 0)
    (hfat : (bootFields bpb).fatsz ≠ 0) : ∃ g, bootGeometry bpb = some g := by
  unfold bootGeometry
  rw [if_neg (by simp [hsign])]
  refine ⟨_, if_neg ?_⟩
  simp only [not_or]
  exact ⟨hbytes, hclus, hfat⟩

/-! ## Each part of the condition -/

variable {g : Geometry} {b : BootFields} {partSectors : ℕ}

lemma tableEnd_mono {c c' : ℕ} (h : c ≤ c') : tableEnd g c ≤ tableEnd g c' := by
  unfold tableEnd
  split <;> omega

lemma entries_fit_iff (hpos : g.dataClusters ≠ 0) (size : ℕ) :
    (∀ c, g.Valid c → tableEnd g c ≤ size) ↔ tableEnd g (g.dataClusters + 1) ≤ size := by
  constructor
  · intro h
    exact h _ ⟨by omega, by omega⟩
  · intro h c hc
    exact (tableEnd_mono (Nat.le_of_lt_succ hc.2)).trans h

lemma buffer32_iff (hB : 0 < B) (n) : (∀ c, 2 ≤ c → c < n + 2 → u32 (c * 4) % B + 4 ≤ 512) ↔
      B ≤ 510 ∨ B = 512 ∨ B = 511 ∧ n < 254 ∨ n < 127 := by
  constructor
  · intro h
    by_contra hnot
    by_cases hodd : B = 511
    · have hlast : u32 (255 * 4) % 511 + 4 ≤ 512 := hodd ▸ h 255 (by omega) (by omega)
      revert hlast
      decide
    · have hlast := h 128 (by omega) (by omega)
      have hmod : u32 (128 * 4) % B = 512 := Nat.mod_eq_of_lt (show 512 < B by omega)
      omega
  · intro h c hc hlast
    have hlt : u32 (c * 4) % B < B := Nat.mod_lt _ hB
    have hle : u32 (c * 4) % B ≤ u32 (c * 4) := Nat.mod_le _ _
    have hfour : ∃ m, u32 (c * 4) = 4 * m := ⟨c % 2 ^ 30, by unfold u32; omega⟩
    rcases h with hsmall | rfl | ⟨rfl, hn⟩ | hn
    · by_cases heven : B = 510
      · subst heven
        omega
      · omega
    · omega
    · have hu32 : u32 (c * 4) = c * 4 := Nat.mod_eq_of_lt (by omega)
      rw [hu32]
      by_cases hfirst : c * 4 < 511
      · rw [Nat.mod_eq_of_lt hfirst]
        omega
      · rw [Nat.mod_eq_sub_mod (not_lt.mp hfirst), Nat.mod_eq_of_lt (by omega)]
        omega
    · have hu32 : u32 (c * 4) = c * 4 := Nat.mod_eq_of_lt (by omega)
      omega

lemma buffer16_iff (hB : 0 < B) (hn : 4085 ≤ n) :
    (∀ c, 2 ≤ c → c < n + 2 → u32 (c * 2) % B + 2 ≤ 512) ↔ B ≤ 512 := by
  constructor
  · intro h
    by_contra hnot
    have hlast := h 256 (by omega) (by omega)
    have hmod : u32 (256 * 2) % B = 512 := Nat.mod_eq_of_lt (show 512 < B by omega)
    omega
  · intro h c hc hlast
    have hlt : u32 (c * 2) % B < B := Nat.mod_lt _ hB
    by_cases heven : B = 512
    · subst heven
      unfold u32
      omega
    · omega

lemma buffer12_iff (hB : 0 < B) (hn : n < 4085) :
    (∀ c, 2 ≤ c → c < n + 2 →
      (if u32 (c + c / 2) % B = 511 then 512 else u32 (c + c / 2) % B + 2) ≤ 512) ↔
      B ≤ 513 ∨ n < 341 := by
  have hinside : ∀ k, (if k = 511 then 512 else k + 2) ≤ 512 ↔ k < 512 := by
    intro k
    split_ifs <;> omega
  simp only [hinside]
  constructor
  · intro h
    by_contra hnot
    have hlast := h 342 (by omega) (by omega)
    have hmod : u32 (342 + 342 / 2) % B = 513 := Nat.mod_eq_of_lt (show 513 < B by omega)
    omega
  · intro h c hc hlast
    have hu32 : u32 (c + c / 2) = c + c / 2 := Nat.mod_eq_of_lt (by omega)
    rw [hu32]
    have hlt : (c + c / 2) % B < B := Nat.mod_lt _ hB
    have hle : (c + c / 2) % B ≤ c + c / 2 := Nat.mod_le _ _
    rcases h with hsmall | hn
    · -- no entry begins two bytes after a multiple of three
      by_cases hthree : B = 513
      · subst hthree
        omega
      · omega
    · omega

lemma data_fits_iff (hf : g.HasFields b) (hspc : b.secPerClus ≠ 0) (hpos : b.clusters ≠ 0) :
    (∀ c, g.Valid c →
      g.rsvdSecCnt + g.numFats * g.fatsz + g.rootSectors ≤ clusToLba g c ∧
        clusToLba g c + g.secPerClus ≤ partSectors) ↔
      b.DataFits b.clusters partSectors := by
  have hstart : g.rsvdSecCnt + g.numFats * g.fatsz + g.rootSectors = b.dataStart := by
    rw [hf.rsvdSecCnt, hf.numFats, hf.fatsz, hf.rootSectors]
    rfl
  have hsize : b.clusters * b.secPerClus < 2 ^ 32 :=
    (Nat.div_mul_le_self _ _).trans_lt (Nat.mod_lt _ (by positivity))
  have hlba : ∀ k, k < b.clusters →
      clusToLba g (k + 2) = u32 (u32 b.dataStart + k * b.secPerClus) := by
    intro k hk
    have hle : k * b.secPerClus ≤ b.clusters * b.secPerClus := Nat.mul_le_mul_right _ hk.le
    have hk' : k < 2 ^ 32 :=
      (Nat.le_mul_of_pos_right k (Nat.pos_of_ne_zero hspc)).trans_lt (hle.trans_lt hsize)
    have hu32 : u32 (k + 2 + 2 ^ 32 - 2) = k := by
      unfold u32
      omega
    rw [clusToLba, hf.dataLba, hf.secPerClus, hu32]
  have hwhole : (b.clusters - 1) * b.secPerClus + b.secPerClus = b.clusters * b.secPerClus := by
    rw [← Nat.succ_mul, Nat.succ_eq_add_one, Nat.sub_add_cancel (Nat.pos_of_ne_zero hpos)]
  rw [hstart, hf.secPerClus, BootFields.DataFits]
  constructor
  · intro h
    have hfirst := (h 2 ⟨le_rfl, by rw [hf.dataClusters]; omega⟩).1
    have hlast := h (b.clusters - 1 + 2) ⟨by omega, by rw [hf.dataClusters]; omega⟩
    rw [hlba _ (by omega)] at hlast
    unfold u32 at hfirst hlast
    omega
  · rintro ⟨hpart, hwrap⟩ c ⟨hc, hlast⟩
    obtain ⟨k, rfl⟩ := Nat.exists_eq_add_of_le' hc
    rw [hf.dataClusters] at hlast
    have hk : k ≤ b.clusters - 1 := by omega
    have hle : k * b.secPerClus ≤ (b.clusters - 1) * b.secPerClus :=
      Nat.mul_le_mul_right _ hk
    have hno : u32 (u32 b.dataStart + k * b.secPerClus) = b.dataStart + k * b.secPerClus := by
      unfold u32
      omega
    rw [hlba k (by omega), hno]
    omega

lemma staysInside_iff (hf : g.HasFields b) (hbytes : b.bytsPerSec ≠ 0) (hspc : b.secPerClus ≠ 0) :
    g.StaysInside partSectors ↔
      b.clusters = 0 ∨ b.TableFits b.clusters ∧ b.DataFits b.clusters partSectors := by
  by_cases hpos : b.clusters = 0
  · have hnone : g.StaysInside partSectors := by
      rintro c ⟨hc, hlast⟩
      rw [hf.dataClusters] at hlast
      omega
    simp [hpos, hnone]
  · have hclusters : g.dataClusters ≠ 0 := hf.dataClusters ▸ hpos
    have hsplit : g.StaysInside partSectors ↔
        (∀ c, g.Valid c → tableEnd g c ≤ g.fatsz * g.bytsPerSec) ∧
          (∀ c, g.Valid c → bufferEnd g c ≤ 512) ∧
          ∀ c, g.Valid c →
            g.rsvdSecCnt + g.numFats * g.fatsz + g.rootSectors ≤ clusToLba g c ∧
              clusToLba g c + g.secPerClus ≤ partSectors := by
      simp only [Geometry.StaysInside, forall_and]
    have htable : ((∀ c, g.Valid c → tableEnd g c ≤ g.fatsz * g.bytsPerSec) ∧
        ∀ c, g.Valid c → bufferEnd g c ≤ 512) ↔ b.TableFits b.clusters := by
      have htype := hf.fatType
      rw [entries_fit_iff hclusters]
      simp only [Geometry.Valid, hf.dataClusters, hf.fatsz, hf.bytsPerSec, and_imp,
        BootFields.TableFits]
      by_cases hroot : b.rootEntCnt = 0
      · rw [if_pos hroot] at htype ⊢
        simp only [tableEnd, bufferEnd, htype, tableOffset, hf.bytsPerSec,
          buffer32_iff (Nat.pos_of_ne_zero hbytes)]
        exact and_congr_left' (by omega)
      · rw [if_neg hroot] at htype ⊢
        by_cases hsmall : b.clusters < 4085
        · rw [if_pos hsmall] at htype ⊢
          simp only [tableEnd, bufferEnd, htype, tableOffset, hf.bytsPerSec,
            buffer12_iff (Nat.pos_of_ne_zero hbytes) hsmall]
        · rw [if_neg hsmall] at htype ⊢
          simp only [tableEnd, bufferEnd, htype, tableOffset, hf.bytsPerSec,
            buffer16_iff (Nat.pos_of_ne_zero hbytes) (not_lt.mp hsmall)]
          exact and_congr_left' (by omega)
    rw [hsplit, ← and_assoc, htable, data_fits_iff hf hspc hpos]
    simp [hpos]

/-! ## Mounting -/

lemma fatMount_ok {d d' : Drive} (h : fatMount d = (.ok g, d')) :
    bootGeometry (byteAt (d.sectors 0)) = some g := by
  simp only [fatMount, bind, readSector, request] at h
  split_ifs at h
  · cases h
  · rcases hboot : bootGeometry (byteAt (d.sectors 0)) with _ | found
    · simp [hboot, failed] at h
    · simp only [hboot] at h
      rw [Outcome.ok.inj (Prod.mk.inj h).1]

def bootDrive (boot : Sector) : Drive where
  sectors := fun _ => boot
  faults := fun _ _ => false
  clock := fun _ => 0

/-- For every boot sector and every size of the partition: if the sector is mounted, then
all entries and all sectors of the volume stay inside if and only if its fields fit. -/
theorem mount_stays_inside_iff (boot : Sector) (partSectors : ℕ) :
    (∀ d g d', d.sectors 0 = boot → fatMount d = (.ok g, d') → g.StaysInside partSectors) ↔
      BootFits (byteAt boot) partSectors := by
  constructor
  · intro h hsign₁ hsign₂ hbytes hspc hfat
    obtain ⟨g, hg⟩ := bootGeometry_isSome ⟨hsign₁, hsign₂⟩ hbytes hspc hfat
    have hmount : fatMount (bootDrive boot) = (.ok g, (bootDrive boot).served (.read 0 1)) := by
      simp [fatMount, bind, readSector, request, bootDrive, Drive.served, hg, pure]
    obtain ⟨-, -, hf⟩ := bootGeometry_some hg
    exact (staysInside_iff hf hbytes hspc).mp (h _ g _ rfl hmount)
  · rintro h d g d' rfl hmount
    obtain ⟨⟨hsign₁, hsign₂⟩, ⟨hbytes, hspc, hfat⟩, hf⟩ :=
      bootGeometry_some (fatMount_ok hmount)
    exact (staysInside_iff hf hbytes hspc).mpr (h hsign₁ hsign₂ hbytes hspc hfat)

/-- A FAT32 volume of 1000 clusters with sectors of 1024 bytes. -/
def wideBoot : Bytes :=
  patch (patch (patch (patch (patch (patch (patch (fun _ => 0#8) 11 (bytes16 1024)) 13 [1#8])
    14 (bytes16 1)) 16 [1#8]) 19 (bytes16 1005)) 22 (bytes16 4)) 510 [0x55#8, 0xAA#8]

def wideGeometry : Geometry :=
  ⟨1024, 1, 1, 1, 0, 4, 1005, .fat32, 0, 1, 5, 0, 5, 1000⟩

/-- The entry of the cluster 128 is read from behind the buffer. -/
theorem wide_sectors_leave_buffer :
    ∃ d d', fatMount d = (.ok wideGeometry, d') ∧ wideGeometry.Valid 128 ∧
      bufferEnd wideGeometry 128 = 516 ∧ ¬ wideGeometry.StaysInside 1005 := by
  have hrange : wideGeometry.Valid 128 := ⟨by decide, by decide⟩
  have hend : bufferEnd wideGeometry 128 = 516 := by decide
  refine ⟨bootDrive (toSector wideBoot), _, rfl, hrange, hend, ?_⟩
  intro hinside
  have hbuffer := (hinside 128 hrange).2.1
  exact absurd hbuffer (by decide)

end HelixOS.Fat
