import HelixOS.FatFiles

/-!
# Runs without faults

What the driver can see of a volume with a sound geometry is its `View`: the entries of the
table, the sectors of the root directory and of the clusters, and the clock.  As long as no
request fails, every function of the driver is a function of views.
-/

namespace HelixOS.Fat

open Function

/-! ## Geometry -/

def Geometry.entryWidth (g : Geometry) : ℕ := if g.fatType = .fat32 then 4 else 2

/-- FAT16 or FAT32 with sectors of 512 bytes: the tables, the root directory and the
clusters follow each other, the table has an entry for each cluster, and no number of a
cluster is a mark. -/
structure Geometry.Sound (g : Geometry) : Prop where
  sector : g.bytsPerSec = 512
  clus_pos : 0 < g.secPerClus
  writable : fatWritableType g = true
  fats : 0 < g.numFats
  table : (g.dataClusters + 2) * g.entryWidth ≤ g.fatsz * 512
  root_at : g.rootLba = g.firstFatLba + g.numFats * g.fatsz
  data_at : g.dataLba = g.rootLba + g.rootSectors
  ends : g.dataLba + g.dataClusters * g.secPerClus < 2 ^ 32
  numbers : g.dataClusters + 2 ≤ if g.fatType = .fat32 then 0x0FFFFFF7 else 0xFFF7
  root_clus : g.fatType = .fat32 → 2 ≤ g.rootClus ∧ g.rootClus < g.dataClusters + 2

/-- A sector of the root directory or of a cluster. -/
inductive Place where
  | root (s : ℕ)
  | data (c s : ℕ)
  deriving DecidableEq

variable {s : Sector} {n v : ℕ} {p : Place} {d : Drive}

def Geometry.ValidPlace (g : Geometry) : Place → Prop
  | .root s => s < g.rootSectors
  | .data c s => g.Valid c ∧ s < g.secPerClus

instance (g : Geometry) (p : Place) : Decidable (g.ValidPlace p) := by
  cases p <;> unfold Geometry.ValidPlace <;> infer_instance

def Geometry.lba (g : Geometry) : Place → ℕ
  | .root s => g.rootLba + s
  | .data c s => g.dataLba + (c - 2) * g.secPerClus + s

section Places

variable {g : Geometry}

lemma block_unique {a b s t : ℕ} (hs : s < n) (ht : t < n)
    (heq : a * n + s = b * n + t) : a = b ∧ s = t := by
  have hblock : ∀ x y, y < n → (x * n + y) / n = x := by
    intro x y hy
    rw [Nat.add_comm, Nat.add_mul_div_right _ _ (by omega), Nat.div_eq_of_lt hy, Nat.zero_add]
  have hab : a = b := by rw [← hblock a s hs, heq, hblock b t ht]
  subst hab
  exact ⟨rfl, by omega⟩

lemma Geometry.Valid.end_le {c : ℕ} (hc : g.Valid c) :
    (c - 2) * g.secPerClus + g.secPerClus ≤ g.dataClusters * g.secPerClus := by
  have hle : c - 2 + 1 ≤ g.dataClusters := by
    have := hc.1
    have := hc.2
    omega
  calc (c - 2) * g.secPerClus + g.secPerClus = (c - 2 + 1) * g.secPerClus := by ring
    _ ≤ g.dataClusters * g.secPerClus := Nat.mul_le_mul_right _ hle

lemma Geometry.Sound.lba_lt (hg : g.Sound) (hp : g.ValidPlace p) :
    g.lba p < 2 ^ 32 := by
  have hends := hg.ends
  have hdata := hg.data_at
  cases p with
  | root s =>
    have hs : s < g.rootSectors := hp
    simp only [Geometry.lba]
    omega
  | data c s =>
    have hend := hp.1.end_le
    have hs := hp.2
    simp only [Geometry.lba]
    omega

lemma Geometry.Sound.lba_injective (hg : g.Sound) {q : Place} (hp : g.ValidPlace p)
    (hq : g.ValidPlace q) (heq : g.lba p = g.lba q) : p = q := by
  have hdata := hg.data_at
  cases p with
  | root s =>
    have hs : s < g.rootSectors := hp
    cases q with
    | root s' =>
      simp only [Geometry.lba] at heq
      rw [show s = s' by omega]
    | data c' s' =>
      simp only [Geometry.lba] at heq
      omega
  | data c s =>
    cases q with
    | root s' =>
      have hs' : s' < g.rootSectors := hq
      simp only [Geometry.lba] at heq
      omega
    | data c' s' =>
      simp only [Geometry.lba] at heq
      have hsum : (c - 2) * g.secPerClus + s = (c' - 2) * g.secPerClus + s' := by omega
      obtain ⟨hc, rfl⟩ := block_unique hp.2 hq.2 hsum
      have := hp.1.1
      have := hq.1.1
      rw [show c = c' by omega]

end Places

/-! ## Views -/

structure View where
  fat : ℕ → ℕ
  sector : Place → Sector
  clock : ℕ → ℕ

def tableEntry (g : Geometry) (sectors : ℕ → Sector) (c : ℕ) : ℕ :=
  let b := byteAt (sectors (g.firstFatLba + c * g.entryWidth / 512))
  if g.fatType = .fat32 then le32 b (c * 4 % 512) % 2 ^ 28 else le16 b (c * 2 % 512)

/-- What the driver can see of the drive. -/
def Drive.view (g : Geometry) (d : Drive) : View where
  fat c := if g.Valid c then tableEntry g d.sectors c else 0
  sector p := if g.ValidPlace p then d.sectors (g.lba p) else zeroSector
  clock := d.clock

def View.setFat (V : View) (c v : ℕ) : View := { V with fat := update V.fat c v }

def View.setSector (V : View) (p : Place) (s : Sector) : View :=
  { V with sector := update V.sector p s }

/-- No request fails. -/
def Drive.Reliable (d : Drive) : Prop := d.faults = fun _ _ => false

lemma Drive.Reliable.served (hd : d.Reliable) (r : Request) : (d.served r).Reliable := by
  rw [Drive.Reliable, Drive.served, hd]

lemma Drive.Reliable.noted (hd : d.Reliable) (c : ℕ) : (d.noted c).Reliable := hd

/-- On every volume that looks like `V`, as long as no request fails, `x` ends with `o` and
leaves a volume that looks like `V'`. -/
def Runs {α : Type} (g : Geometry) (x : FatM α) (V : View) (o : Outcome α) (V' : View) : Prop :=
  ∀ d : Drive, d.Reliable → d.view g = V →
    ∃ d' : Drive, x d = (o, d') ∧ d'.Reliable ∧ d'.view g = V'

section Rules

variable {g : Geometry} {α β : Type} {V V₁ V₂ : View}

lemma runs_pure (a : α) : Runs g (pure a : FatM α) V (.ok a) V :=
  fun d hd hV => ⟨d, rfl, hd, hV⟩

lemma runs_failed : Runs g (failed : FatM α) V .fail V := fun d hd hV => ⟨d, rfl, hd, hV⟩

lemma Runs.bind {x : FatM α} {f : α → FatM β} {a : α} {o : Outcome β}
    (hx : Runs g x V (.ok a) V₁) (hf : Runs g (f a) V₁ o V₂) : Runs g (x >>= f) V o V₂ := by
  intro d hd hV
  obtain ⟨d₁, hx, hd₁, hV₁⟩ := hx d hd hV
  obtain ⟨d₂, hf, hd₂, hV₂⟩ := hf d₁ hd₁ hV₁
  refine ⟨d₂, ?_, hd₂, hV₂⟩
  simp only [Bind.bind, hx, hf]

lemma Runs.bind_fail {x : FatM α} (hx : Runs g x V .fail V₁) (f : α → FatM β) :
    Runs g (x >>= f) V .fail V₁ := by
  intro d hd hV
  obtain ⟨d₁, hx, hd₁, hV₁⟩ := hx d hd hV
  refine ⟨d₁, ?_, hd₁, hV₁⟩
  simp only [Bind.bind, hx]

lemma Runs.attempt {x : FatM α} {a : α} (hx : Runs g x V (.ok a) V₁) :
    Runs g (attempt x) V (.ok (some a)) V₁ := by
  intro d hd hV
  obtain ⟨d₁, hx, hd₁, hV₁⟩ := hx d hd hV
  refine ⟨d₁, ?_, hd₁, hV₁⟩
  simp only [Fat.attempt, hx]

lemma Runs.attempt_fail {x : FatM α} (hx : Runs g x V .fail V₁) :
    Runs g (Fat.attempt x) V (.ok none) V₁ := by
  intro d hd hV
  obtain ⟨d₁, hx, hd₁, hV₁⟩ := hx d hd hV
  refine ⟨d₁, ?_, hd₁, hV₁⟩
  simp only [Fat.attempt, hx]

lemma runs_request {r : Request} {value : Drive → α} {after : Drive → ℕ → Sector} {a : α}
    (hvalue : ∀ d : Drive, d.view g = V → value d = a)
    (hview : ∀ d : Drive, d.view g = V → { d with sectors := after d }.view g = V₁) :
    Runs g (request r value after) V (.ok a) V₁ := by
  intro d hd hV
  have hfault : d.faults 0 r = false := by rw [hd]
  refine ⟨{ d.served r with sectors := after d }, ?_, hd.served r, hview d hV⟩
  rw [request, hfault, if_neg Bool.false_ne_true, hvalue d hV]

lemma runs_readSector (hp : g.ValidPlace p) :
    Runs g (readSector (g.lba p)) V (.ok (V.sector p)) V := by
  refine runs_request (fun d hV => ?_) fun d hV => hV
  rw [← hV]
  simp only [Drive.view, if_pos hp]

lemma runs_kmalloc : Runs g kmalloc V (.ok ()) V :=
  runs_request (fun _ _ => rfl) fun _ hV => hV

def View.tick (V : View) : View := { V with clock := fun n => V.clock (n + 1) }

lemma runs_rtcUnixSeconds : Runs g rtcUnixSeconds V (.ok (V.clock 0)) V.tick := by
  rintro d hd rfl
  exact ⟨_, rfl, hd, rfl⟩

end Rules

/-! ## The table -/

section Table

variable {g : Geometry} {V : View} {c : ℕ}

lemma Geometry.Sound.table_lt (hg : g.Sound) (hc : g.Valid c) :
    c * g.entryWidth / 512 < g.fatsz := by
  have htable := hg.table
  have hlt := hc.2
  unfold Geometry.entryWidth at htable ⊢
  split at htable
  · rw [if_pos ‹_›]
    omega
  · rw [if_neg ‹_›]
    omega

lemma Geometry.Sound.table_below (hg : g.Sound) {k : ℕ} (hk : k < g.fatsz) :
    g.firstFatLba + k < g.rootLba := by
  have hroot := hg.root_at
  have hle : 1 * g.fatsz ≤ g.numFats * g.fatsz := Nat.mul_le_mul_right _ hg.fats
  omega

lemma Geometry.Sound.root_lt (hg : g.Sound) : g.rootLba < 2 ^ 32 := by
  have hends := hg.ends
  have hdata := hg.data_at
  omega

lemma Geometry.rootLba_le (hg : g.Sound) (p) : g.rootLba ≤ g.lba p := by
  have hdata := hg.data_at
  cases p <;> simp only [Geometry.lba] <;> omega

lemma tableEntry_congr (hg : g.Sound) (hc : g.Valid c) {sectors sectors' : ℕ → Sector}
    (h : ∀ l, l < g.rootLba → sectors' l = sectors l) :
    tableEntry g sectors' c = tableEntry g sectors c := by
  rw [tableEntry, tableEntry, h _ (hg.table_below (hg.table_lt hc))]

lemma u32_of_lt (hn : n < 2 ^ 32) : u32 n = n := Nat.mod_eq_of_lt hn

lemma readSector_reliable (hd : d.Reliable) (lba : ℕ) :
    readSector lba d = (.ok (d.sectors lba), d.served (.read lba 1)) := by
  rw [readSector, request, hd, if_neg Bool.false_ne_true]
  rfl

lemma writeSector_reliable (hd : d.Reliable) (lba : ℕ) (s) :
    writeSector lba s d =
      (.ok (), { d.served (.write lba) with sectors := update d.sectors lba s }) := by
  rw [writeSector, request, hd, if_neg Bool.false_ne_true]

lemma Geometry.Sound.fatType_cases (hg : g.Sound) : g.fatType = .fat16 ∨ g.fatType = .fat32 := by
  simpa [fatWritableType] using hg.writable

lemma Geometry.Valid.lt (hg : g.Sound) (hc : g.Valid c) : c < 0x0FFFFFF7 := by
  have hnumbers := hg.numbers
  have hlt := hc.2
  split at hnumbers <;> omega

lemma fatGet_served (hg : g.Sound) (hc : g.Valid c)
    (hread : d.faults 0 (.read (g.firstFatLba + c * g.entryWidth / 512) 1) = false) :
    fatGet g c d =
      (.ok (tableEntry g d.sectors c),
        d.served (.read (g.firstFatLba + c * g.entryWidth / 512) 1)) := by
  have hlt := hc.lt hg
  have hbelow := hg.table_below (hg.table_lt hc)
  have hroot := hg.root_lt
  simp only [tableEntry]
  rcases hg.fatType_cases with htype | htype
  · simp only [Geometry.entryWidth, htype, reduceCtorEq, if_false] at hread hbelow ⊢
    simp only [fatGet, htype, readTable, tableSector, tableOffset, hg.sector, u32_of_lt (show c * 2
      < 2 ^ 32 by omega), u32_of_lt (show g.firstFatLba + c * 2 / 512 < 2 ^ 32 by omega)]
    simp only [Bind.bind, attempt, readSector, request, hread, Bool.false_eq_true, if_false,
      Pure.pure, Drive.served]
  · simp only [Geometry.entryWidth, htype, if_true] at hread hbelow ⊢
    simp only [fatGet, htype, readTable, tableSector, tableOffset, hg.sector, u32_of_lt (show c * 4
      < 2 ^ 32 by omega), u32_of_lt (show g.firstFatLba + c * 4 / 512 < 2 ^ 32 by omega)]
    simp only [Bind.bind, attempt, readSector, request, hread, Bool.false_eq_true, if_false,
      Pure.pure, Drive.served]

lemma runs_fatGet (hg : g.Sound) (hc : g.Valid c) : Runs g (fatGet g c) V (.ok (V.fat c)) V := by
  rintro d hd rfl
  refine ⟨_, ?_, hd.served (.read (g.firstFatLba + c * g.entryWidth / 512) 1), rfl⟩
  rw [fatGet_served hg hc (by rw [hd])]
  simp only [Drive.view, if_pos hc]

lemma fatNext_lba (hg : g.Sound) (hc : g.Valid c) :
    u32 (g.firstFatLba + tableSector g (c * if g.fatType = .fat32 then 4 else 2)) =
      g.firstFatLba + c * g.entryWidth / 512 := by
  have hlt := hc.lt hg
  have hbelow := hg.table_below (hg.table_lt hc)
  have hroot := hg.root_lt
  rw [tableSector, hg.sector, ← Geometry.entryWidth, u32_of_lt (n := c * g.entryWidth), u32_of_lt]
  · omega
  · unfold Geometry.entryWidth
    split <;> omega

lemma fatNext_served (hg : g.Sound) (hc : g.Valid c)
    (hread : d.faults 0 (.read (g.firstFatLba + c * g.entryWidth / 512) 1) = false) :
    fatNext g c d = fatGet g c d := by
  simp only [fatNext, Bind.bind, noteUnread, fatNext_lba hg hc, hread, Bool.false_eq_true, if_false]

lemma runs_fatNext (hg : g.Sound) (hc : g.Valid c) :
    Runs g (fatNext g c) V (.ok (V.fat c)) V := by
  intro d hd hV
  rw [fatNext_served hg hc (by rw [hd])]
  exact runs_fatGet hg hc d hd hV

lemma runs_writeSector (hg : g.Sound) (hp : g.ValidPlace p) (s) :
    Runs g (writeSector (g.lba p) s) V (.ok ()) (V.setSector p s) := by
  refine runs_request (fun _ _ => rfl) fun d hV => ?_
  rw [← hV]
  simp only [Drive.view, View.setSector, View.mk.injEq, and_true]
  constructor
  · funext c
    split
    · rename_i hc
      refine tableEntry_congr hg hc fun l hl => update_of_ne ?_ ..
      have := g.rootLba_le hg p
      omega
    · rfl
  · funext q
    by_cases hqp : q = p
    · subst hqp
      rw [update_self, if_pos hp, update_self]
    · rw [update_of_ne hqp]
      split
      · rename_i hq
        exact update_of_ne (fun h => hqp (hg.lba_injective hq hp h)) ..
      · rfl

def Geometry.mask (g : Geometry) (v : ℕ) : ℕ :=
  if g.fatType = .fat32 then v % 2 ^ 28 else v % 65536

lemma forUpTo_write (hd : d.Reliable) (n) (h : ℕ → ℕ) (s) :
    ∃ d', forUpTo n (fun f => writeSector (h f) s) d = (.ok (), d') ∧ d'.Reliable ∧
      d'.clock = d.clock ∧
      ∀ l, d'.sectors l = if ∃ f, f < n ∧ h f = l then s else d.sectors l := by
  induction n with
  | zero => exact ⟨d, rfl, hd, rfl, fun l => by rw [if_neg (by simp)]⟩
  | succ n ih =>
    obtain ⟨d', hrun, hd', hclock, hsectors⟩ := ih
    refine ⟨{ d'.served (.write (h n)) with sectors := update d'.sectors (h n) s },
      ?_, hd'.served (.write (h n)), hclock, fun l => ?_⟩
    · simp only [forUpTo, Bind.bind, hrun]
      exact writeSector_reliable hd' _ _
    · simp only [update_apply, hsectors]
      by_cases hl : l = h n
      · rw [if_pos hl, if_pos ⟨n, by omega, hl.symm⟩]
      · rw [if_neg hl]
        refine if_congr ⟨?_, ?_⟩ rfl rfl
        · rintro ⟨f, hf, rfl⟩
          exact ⟨f, by omega, rfl⟩
        · rintro ⟨f, hf, rfl⟩
          exact ⟨f, by have : f ≠ n := fun h => hl (by rw [h]); omega, rfl⟩

/-- Writing a sector of the table replaces it in the first copy and touches nothing else
that can be seen. -/
theorem writeTable_view (hg : g.Sound) (hd : d.Reliable) {sec : ℕ} (hsec : sec < g.fatsz) (s) :
    ∃ d', writeTable g sec s d = (.ok (), d') ∧ d'.Reliable ∧ d'.clock = d.clock ∧
      (∀ k, k < g.fatsz → d'.sectors (g.firstFatLba + k) =
        if k = sec then s else d.sectors (g.firstFatLba + k)) ∧
      ∀ l, g.rootLba ≤ l → d'.sectors l = d.sectors l := by
  have hroot := hg.root_lt
  have hat := hg.root_at
  have hbound : ∀ f, f < g.numFats → f * g.fatsz + sec < g.numFats * g.fatsz := by
    intro f hf
    have hle : (f + 1) * g.fatsz ≤ g.numFats * g.fatsz := Nat.mul_le_mul_right _ hf
    have hsucc : (f + 1) * g.fatsz = f * g.fatsz + g.fatsz := by ring
    omega
  obtain ⟨d', hrun, hd', hclock, hsectors⟩ := forUpTo_write hd g.numFats
    (fun f => u32 (g.firstFatLba + f * g.fatsz + sec)) s
  refine ⟨d', hrun, hd', hclock, fun k hk => ?_, fun l hl => ?_⟩
  · rw [hsectors]
    refine if_congr ⟨?_, ?_⟩ rfl rfl
    · rintro ⟨f, hf, heq⟩
      have := hbound f hf
      rw [u32_of_lt (by omega)] at heq
      exact (block_unique hk hsec (show 0 * g.fatsz + k = f * g.fatsz + sec by omega)).2
    · rintro rfl
      have := hbound 0 hg.fats
      exact ⟨0, hg.fats, by rw [u32_of_lt (by omega)]; omega⟩
  · rw [hsectors, if_neg]
    rintro ⟨f, hf, heq⟩
    have := hbound f hf
    rw [u32_of_lt (by omega)] at heq
    omega

lemma entries_apart {c c' w : ℕ} (hw : w = 2 ∨ w = 4) (hne : c' ≠ c)
    (hsame : c' * w / 512 = c * w / 512) :
    c' * w % 512 + w ≤ c * w % 512 ∨ c * w % 512 + w ≤ c' * w % 512 := by
  rcases hw with rfl | rfl <;> omega

lemma le16_toSector (b : Bytes) {i : ℕ} (hi : i + 2 ≤ 512) :
    le16 (byteAt (toSector b)) i = le16 b i :=
  le16_congr fun k hk => byteAt_toSector b (by omega)

lemma le32_toSector (b : Bytes) {i : ℕ} (hi : i + 4 ≤ 512) :
    le32 (byteAt (toSector b)) i = le32 b i :=
  le32_congr fun k hk => byteAt_toSector b (by omega)

def putSector (g : Geometry) (s : Sector) (c v : ℕ) : Sector :=
  if g.fatType = .fat32 then
    toSector (patch (byteAt s) (c * 4 % 512)
      (bytes32 (le32 (byteAt s) (c * 4 % 512) / 2 ^ 28 * 2 ^ 28 + v % 2 ^ 28)))
  else toSector (patch (byteAt s) (c * 2 % 512) (bytes16 v))

lemma tableEntry_putSector {sectors sectors' : ℕ → Sector} {c' : ℕ} (v)
    (hput : sectors' (g.firstFatLba + c' * g.entryWidth / 512) =
      if c' * g.entryWidth / 512 = c * g.entryWidth / 512 then
        putSector g (sectors (g.firstFatLba + c * g.entryWidth / 512)) c v
      else sectors (g.firstFatLba + c' * g.entryWidth / 512)) :
    tableEntry g sectors' c' = if c' = c then g.mask v else tableEntry g sectors c' := by
  rw [tableEntry, tableEntry, hput]
  by_cases hsame : c' * g.entryWidth / 512 = c * g.entryWidth / 512
  swap
  · have hne : c' ≠ c := fun h => hsame (by rw [h])
    rw [if_neg hsame, if_neg hne]
  rw [if_pos hsame, putSector, Geometry.mask]
  by_cases htype : g.fatType = .fat32
  · simp only [htype, Geometry.entryWidth, if_true] at hsame ⊢
    rw [le32_toSector _ (by omega)]
    by_cases hc : c' = c
    · rw [if_pos hc, hc, le32_patch_self]
      omega
    · rw [if_neg hc, hsame]
      rw [le32_patch_of_ne _ (entries_apart (Or.inr rfl) hc hsame)]
  · simp only [htype, Geometry.entryWidth, if_false] at hsame ⊢
    rw [le16_toSector _ (by omega)]
    by_cases hc : c' = c
    · rw [if_pos hc, hc, le16_patch_self]
    · rw [if_neg hc, hsame]
      rw [le16_patch_of_ne _ (entries_apart (Or.inl rfl) hc hsame)]

lemma fatPut_eq (hg : g.Sound) (hc : g.Valid c) (v) :
    fatPut g c v = readSector (g.firstFatLba + c * g.entryWidth / 512) >>= fun s =>
      noteEntry c >>= fun _ => writeTable g (c * g.entryWidth / 512) (putSector g s c v) := by
  have hlt := hc.lt hg
  have hbelow := hg.table_below (hg.table_lt hc)
  have hroot := hg.root_lt
  rcases hg.fatType_cases with htype | htype
  · simp only [Geometry.entryWidth, htype, reduceCtorEq, if_false] at hbelow ⊢
    simp only [fatPut, htype, tableSector, tableOffset, hg.sector, u32_of_lt (show c * 2 < 2 ^ 32 by
      omega), u32_of_lt (show g.firstFatLba + c * 2 / 512 < 2 ^ 32 by omega), putSector,
      reduceCtorEq, if_false]
  · simp only [Geometry.entryWidth, htype, if_true] at hbelow ⊢
    simp only [fatPut, htype, tableSector, tableOffset, hg.sector, u32_of_lt (show c * 4 < 2 ^ 32 by
      omega), u32_of_lt (show g.firstFatLba + c * 4 / 512 < 2 ^ 32 by omega), putSector, if_true]

lemma runs_fatPut (hg : g.Sound) (hc : g.Valid c) (v) :
    Runs g (fatPut g c v) V (.ok ()) (V.setFat c (g.mask v)) := by
  intro d hd hV
  have hserved := hd.served (.read (g.firstFatLba + c * g.entryWidth / 512) 1)
  obtain ⟨d', hrun, hd', hclock, htable, hrest⟩ := writeTable_view hg (hserved.noted c)
    (hg.table_lt hc) (putSector g (d.sectors (g.firstFatLba + c * g.entryWidth / 512)) c v)
  refine ⟨d', ?_, hd', ?_⟩
  · rw [fatPut_eq hg hc]
    simp only [Bind.bind, readSector_reliable hd, noteEntry]
    exact hrun
  rw [← hV]
  simp only [Drive.view, View.setFat, View.mk.injEq]
  refine ⟨funext fun c' => ?_, funext fun p => ?_, hclock⟩
  · by_cases hc' : g.Valid c'
    · rw [if_pos hc', tableEntry_putSector v (htable _ (hg.table_lt hc')), update_apply, if_pos hc']
    · have hne : c' ≠ c := fun h => hc' (h ▸ hc)
      rw [if_neg hc', update_of_ne hne, if_neg hc']
  · rw [hrest _ (g.rootLba_le hg p)]
    rfl

end Table

end HelixOS.Fat
