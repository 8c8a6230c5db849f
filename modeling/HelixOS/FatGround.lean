import HelixOS.FatChains

/-!
# Writes on allocated ground

The functions that change a volume follow the entries of the table wherever they lead, and
the value that `fat_get` returns for a sector it cannot read as well.
-/

namespace HelixOS.Fat

open Function List

/-! ## Invariants of programs on a drive -/

section Programs

variable {α β : Type} {inv inv' : Drive → Prop} {post : α → Prop} {post' : β → Prop} {d : Drive}
  {x : FatM α} {f : α → FatM β}

/-- The program keeps the invariant, and its value is as `post` says. -/
def Keeps (inv : Drive → Prop) (x : FatM α) (post : α → Prop) : Prop :=
  ∀ d, inv d → inv (x d).2 ∧ ∀ a, (x d).1 = .ok a → post a

lemma keeps_pure {a : α} (ha : post a) : Keeps inv (pure a : FatM α) post := by
  intro d hd
  refine ⟨hd, ?_⟩
  rintro _ ⟨⟩
  exact ha

lemma keeps_failed : Keeps inv (failed : FatM α) post := fun _ hd => ⟨hd, by rintro _ ⟨⟩⟩

lemma keeps_hangs : Keeps inv (hangs : FatM α) post := fun _ hd => ⟨hd, by rintro _ ⟨⟩⟩

lemma Keeps.weaken {weak : α → Prop} (hx : Keeps inv x post) (hpost : ∀ a, post a → weak a) :
    Keeps inv x weak :=
  fun d hd => ⟨(hx d hd).1, fun a ha => hpost a ((hx d hd).2 a ha)⟩

lemma Keeps.bind (hx : Keeps inv x post) (hf : ∀ a, post a → Keeps inv (f a) post') :
    Keeps inv (x >>= f) post' := by
  intro d hd
  obtain ⟨hinv, hval⟩ := hx d hd
  simp only [Bind.bind]
  rcases hrun : x d with ⟨_ | _ | _, d'⟩
  · rw [hrun] at hinv hval
    exact hf _ (hval _ rfl) d' hinv
  all_goals
    rw [hrun] at hinv
    exact ⟨hinv, by rintro _ ⟨⟩⟩

lemma Keeps.attempt (hx : Keeps inv x post) :
    Keeps inv (Fat.attempt x) fun o => ∀ a, o = some a → post a := by
  intro d hd
  obtain ⟨hinv, hval⟩ := hx d hd
  simp only [Fat.attempt]
  rcases hrun : x d with ⟨_ | _ | _, d'⟩
  · rw [hrun] at hinv hval
    refine ⟨hinv, ?_⟩
    rintro _ ⟨⟩ a ⟨⟩
    exact hval _ rfl
  · rw [hrun] at hinv
    refine ⟨hinv, ?_⟩
    rintro _ ⟨⟩ a ⟨⟩
  · rw [hrun] at hinv
    exact ⟨hinv, by rintro _ ⟨⟩⟩

/-- Requests other than writes keep the invariant. -/
def Patient (inv : Drive → Prop) : Prop :=
  ∀ d r, (∀ lba, r ≠ .write lba) → inv d → inv (d.served r)

lemma keeps_request {r : Request} {value : Drive → α} {after : Drive → ℕ → Sector}
    (hserved : ∀ d, inv d → inv (d.served r))
    (hafter : ∀ d, inv d → inv { d.served r with sectors := after d })
    (hvalue : ∀ d, inv d → d.faults 0 r = false → post (value d)) :
    Keeps inv (request r value after) post := by
  intro d hd
  simp only [request]
  by_cases hfault : d.faults 0 r = true
  · rw [if_pos hfault]
    exact ⟨hserved d hd, by rintro _ ⟨⟩⟩
  · rw [if_neg hfault]
    refine ⟨hafter d hd, ?_⟩
    rintro _ ⟨⟩
    exact hvalue d hd (by simpa using hfault)

lemma keeps_readSector (hinv : Patient inv) {lba : ℕ} {post : Sector → Prop}
    (hpost : ∀ d, inv d → post (d.sectors lba)) : Keeps inv (readSector lba) post := by
  have hserved : ∀ d, inv d → inv (d.served (.read lba 1)) := fun d => hinv d _ (by simp)
  exact keeps_request hserved hserved fun d hd _ => hpost d hd

lemma keeps_readSectors (hinv : Patient inv) (lba n : ℕ) :
    Keeps inv (readSectors lba n) fun _ => True := by
  have hserved : ∀ d, inv d → inv (d.served (.read lba n)) := fun d => hinv d _ (by simp)
  exact keeps_request hserved hserved fun _ _ _ => trivial

lemma keeps_kmalloc (hinv : Patient inv) : Keeps inv kmalloc fun _ => True := by
  have hserved : ∀ d, inv d → inv (d.served .memory) := fun d => hinv d _ (by simp)
  exact keeps_request hserved hserved fun _ _ _ => trivial

lemma keeps_writeSector {lba : ℕ} {s : Sector}
    (hserved : ∀ d, inv d → inv (d.served (.write lba)))
    (hwrite : ∀ d, inv d → inv { d with sectors := update d.sectors lba s }) :
    Keeps inv (writeSector lba s) fun _ => True :=
  keeps_request hserved (fun d hd => hwrite _ (hserved d hd)) fun _ _ _ => trivial

lemma keeps_forUpTo {body : ℕ → FatM Unit} (n : ℕ)
    (hbody : ∀ i, i < n → Keeps inv (body i) fun _ => True) :
    Keeps inv (forUpTo n body) fun _ => True := by
  induction n with
  | zero => exact keeps_pure trivial
  | succ n ih =>
    exact (ih fun i hi => hbody i (by omega)).bind fun _ _ => hbody n (by omega)

/-! ## Lookups that fail -/

/-- A lookup has failed in a loop that follows the table. -/
def Lost (d : Drive) : Prop := d.unread ≠ []

/-- As `Keeps`, from the given drive and unless a lookup fails. -/
def After (inv : Drive → Prop) (x : FatM α) (post : α → Prop) (d : Drive) : Prop :=
  Lost (x d).2 ∨ inv (x d).2 ∧ ∀ a, (x d).1 = .ok a → post a

/-- `After`, from every drive with the invariant. -/
def Holds (inv : Drive → Prop) (x : FatM α) (post : α → Prop) : Prop :=
  ∀ d, inv d → After inv x post d

lemma Keeps.holds (hx : Keeps inv x post) : Holds inv x post := fun d hd => .inr (hx d hd)

/-- A failed lookup stays on record. -/
def Stays (x : FatM α) : Prop := Keeps Lost x fun _ => True

lemma Stays.bind (hx : Stays x) (hf : ∀ a, Stays (f a)) : Stays (x >>= f) :=
  Keeps.bind hx fun a _ => hf a

lemma Stays.attempt (hx : Stays x) : Stays (Fat.attempt x) :=
  fun d hd => ⟨(Keeps.attempt hx d hd).1, fun _ _ => trivial⟩

lemma stays_pure (a : α) : Stays (pure a : FatM α) := keeps_pure trivial

lemma stays_request {r : Request} {value : Drive → α} {after : Drive → ℕ → Sector} :
    Stays (request r value after) :=
  keeps_request (fun _ hd => hd) (fun _ hd => hd) fun _ _ _ => trivial

lemma After.bind (hx : After inv x post d) (hstays : ∀ a, Stays (f a))
    (hweak : ∀ d, inv d → inv' d)
    (hf : ∀ a d', post a → inv d' → After inv' (f a) post' d') : After inv' (x >>= f) post' d := by
  unfold After at hx
  simp only [After, Bind.bind]
  rcases hrun : x d with ⟨a | _ | _, d'⟩
  · rw [hrun] at hx
    rcases hx with hlost | ⟨hinv, hval⟩
    · exact .inl (hstays a d' hlost).1
    · exact hf a d' (hval a rfl) hinv
  all_goals
    rw [hrun] at hx
    exact hx.imp_right fun hx => ⟨hweak _ hx.1, by rintro _ ⟨⟩⟩

lemma After.attempt (hx : After inv x post d) :
    After inv (Fat.attempt x) (fun o => ∀ a, o = some a → post a) d := by
  unfold After at hx
  simp only [After, Fat.attempt]
  rcases hrun : x d with ⟨a | _ | _, d'⟩ <;> rw [hrun] at hx <;>
    refine hx.imp_right fun hx => ⟨hx.1, ?_⟩ <;> rintro _ ⟨⟩ b ⟨⟩
  exact hx.2 a rfl

lemma After.reached (hx : After inv x post d) :
    After (fun d' => inv d' ∧ d' = (x d).2) x (fun a => post a ∧ (x d).1 = .ok a) d :=
  hx.imp_right fun hx => ⟨⟨hx.1, rfl⟩, fun a ha => ⟨hx.2 a ha, ha⟩⟩

lemma Holds.bind (hx : Holds inv x post) (hstays : ∀ a, Stays (f a))
    (hf : ∀ a, post a → Holds inv (f a) post') : Holds inv (x >>= f) post' :=
  fun d hd => (hx d hd).bind hstays (fun _ hd => hd) fun a d' ha => hf a ha d'

lemma Keeps.bind_holds (hx : Keeps inv x post) (hf : ∀ a, post a → Holds inv (f a) post') :
    Holds inv (x >>= f) post' := by
  intro d hd
  obtain ⟨hinv, hval⟩ := hx d hd
  simp only [After, Bind.bind]
  rcases hrun : x d with ⟨a | _ | _, d'⟩
  · rw [hrun] at hinv hval
    exact hf a (hval a rfl) d' hinv
  all_goals
    rw [hrun] at hinv
    exact .inr ⟨hinv, by rintro _ ⟨⟩⟩

end Programs

section Records

variable {g : Geometry} {c n : ℕ} {β : Type} {visit : Bytes → Verdict β}

lemma stays_forUpTo {body : ℕ → FatM Unit} (hbody : ∀ i, Stays (body i)) (n) :
    Stays (forUpTo n body) :=
  keeps_forUpTo n fun i _ => hbody i

lemma stays_readTable (sec : ℕ) : Stays (readTable g sec) := Stays.attempt stays_request

lemma stays_fatGet (c : ℕ) : Stays (fatGet g c) := by
  unfold fatGet
  split
  · exact (stays_readTable _).bind fun o => by cases o <;> exact stays_pure _
  · exact (stays_readTable _).bind fun o => by cases o <;> exact stays_pure _
  · refine (stays_readTable _).bind fun o => ?_
    cases o with
    | none => exact stays_pure _
    | some s =>
      by_cases hoff : tableOffset g (c + c / 2) = 511
      · simp only [hoff, if_true]
        exact (stays_readTable _).bind fun o => by cases o <;> exact stays_pure _
      · simp only [hoff, if_false]
        exact stays_pure _

lemma stays_noteUnread (c lba : ℕ) : Stays (noteUnread c lba) := by
  refine fun d hd => ⟨?_, fun _ _ => trivial⟩
  unfold noteUnread
  split_ifs
  · exact cons_ne_nil _ _
  · exact hd

lemma stays_fatNext (c : ℕ) : Stays (fatNext g c) :=
  (stays_noteUnread _ _).bind fun _ => stays_fatGet c

lemma stays_fatPut (c v : ℕ) : Stays (fatPut g c v) := by
  have hnote : Stays (noteEntry c) := fun _ hd => ⟨hd, fun _ _ => trivial⟩
  have htable : ∀ sec s, Stays (writeTable g sec s) := fun _ _ =>
    stays_forUpTo (fun _ => stays_request) _
  unfold fatPut
  split
  · exact Stays.bind stays_request fun _ => hnote.bind fun _ => htable _ _
  · exact Stays.bind stays_request fun _ => hnote.bind fun _ => htable _ _
  · exact keeps_failed

lemma stays_allocFrom (n c : ℕ) : Stays (allocFrom g n c) := by
  induction n generalizing c with
  | zero => exact keeps_failed
  | succ n ih =>
    refine (stays_fatGet c).bind fun v => ?_
    split_ifs
    · exact (stays_fatPut _ _).bind fun _ =>
        (stays_forUpTo (fun _ => stays_request) _).bind fun _ => stays_pure _
    · exact ih _

lemma stays_fatAllocCluster : Stays (fatAllocCluster g) := by
  unfold fatAllocCluster
  split_ifs
  · exact stays_allocFrom _ _
  · exact keeps_failed

lemma stays_fatFreeChain (fuel c : ℕ) : Stays (fatFreeChain g fuel c) := by
  induction fuel generalizing c with
  | zero =>
    unfold fatFreeChain
    split_ifs
    · exact keeps_hangs
    · exact stays_pure _
  | succ fuel ih =>
    unfold fatFreeChain
    split_ifs
    · exact (stays_fatNext c).bind fun next => (stays_fatPut c 0).attempt.bind fun _ => ih next
    · exact stays_pure _

lemma stays_nextForWrite (c : ℕ) : Stays (nextForWrite g c) := by
  refine (stays_fatNext c).bind fun n => ?_
  split_ifs
  · exact stays_pure _
  · exact stays_fatAllocCluster.bind fun n => (stays_fatPut c n).bind fun _ => stays_pure _

lemma stays_skipWrite (skip c : ℕ) : Stays (skipWrite g skip c) := by
  induction skip generalizing c with
  | zero => exact stays_pure _
  | succ skip ih => exact (stays_nextForWrite c).bind fun n => ih n

lemma stays_writeLoop (fuel c off : ℕ) (src : List Byte) : Stays (writeLoop g fuel c off src) := by
  induction fuel generalizing c off src with
  | zero =>
    unfold writeLoop
    split_ifs
    · exact stays_pure _
    · exact keeps_hangs
  | succ fuel ih =>
    unfold writeLoop
    split_ifs
    · exact stays_pure _
    · refine Stays.bind stays_request fun _ => (stays_forUpTo (fun _ => stays_request) _).bind
        fun _ => ?_
      split_ifs
      · exact stays_pure _
      · exact (stays_nextForWrite c).bind fun n => ih _ _ _

lemma stays_scanSectors (n lba : ℕ) : Stays (scanSectors visit n lba) := by
  induction n generalizing lba with
  | zero => exact stays_pure _
  | succ n ih =>
    refine Stays.bind stays_request fun s => ?_
    rcases scanEntries visit s 16 0 with _ | _ | ⟨off, b⟩
    · exact ih _
    · exact stays_pure _
    · exact stays_pure _

lemma stays_scanChain (fuel c prev : ℕ) : Stays (scanChain visit g fuel c prev) := by
  induction fuel generalizing c prev with
  | zero =>
    unfold scanChain
    split_ifs
    · exact keeps_hangs
    · exact stays_pure _
  | succ fuel ih =>
    unfold scanChain
    split_ifs
    · refine (stays_scanSectors _ _).bind fun w => ?_
      cases w with
      | ended _ => exact (stays_fatNext c).bind fun next => ih next c
      | stopped => exact stays_pure _
      | found lba off s b => exact stays_pure _
    · exact stays_pure _

lemma stays_scanDir (fuel dir : ℕ) : Stays (scanDir visit g fuel dir) := by
  unfold scanDir
  split_ifs
  · exact stays_scanSectors _ _
  · exact stays_scanChain _ _ _

end Records

/-! ## The ground -/

variable {g : Geometry} {S : ℕ → Sector} {F : ℕ → Prop} {d : Drive} {c v lba n dir : ℕ} {p : Place}
  {s : Sector}

/-- The sector of the first table with the entry. -/
def Geometry.entryLba (g : Geometry) (c : ℕ) : ℕ := g.firstFatLba + c * g.entryWidth / 512

/-- What has been written lies inside the partition. -/
structure Drive.WritesInside (g : Geometry) (d : Drive) : Prop where
  sectors : ∀ lba, .write lba ∈ d.requests →
    g.firstFatLba ≤ lba ∧ lba < g.dataLba + g.dataClusters * g.secPerClus
  entries : ∀ c ∈ d.entries, g.Valid c

def IsFree (g : Geometry) (S : ℕ → Sector) (c : ℕ) : Prop := g.Valid c ∧ tableEntry g S c = 0

/-- The entry of the cluster is as on the volume `S`, or it does not lead on, or to a cluster that
is free there. -/
def OldOrFree (g : Geometry) (S : ℕ → Sector) (c v : ℕ) : Prop :=
  v = tableEntry g S c ∨ (inChain g v = true → IsFree g S v)

/-- What a call that started on the volume `S` keeps.  Clusters with the entry 0 are in `F`. -/
structure Ground (g : Geometry) (S : ℕ → Sector) (F : ℕ → Prop) (d : Drive) : Prop where
  entries : ∀ c, g.Valid c → OldOrFree g S c (tableEntry g d.sectors c)
  free : ∀ c, g.Valid c → tableEntry g d.sectors c = 0 → F c
  inside : d.WritesInside g

lemma Drive.WritesInside.served (hd : d.WritesInside g) {r : Request}
    (hr : ∀ lba, r = .write lba →
      g.firstFatLba ≤ lba ∧ lba < g.dataLba + g.dataClusters * g.secPerClus) :
    (d.served r).WritesInside g := by
  refine ⟨fun lba hlba => ?_, hd.entries⟩
  rcases mem_cons.mp hlba with hlba | hlba
  · exact hr lba hlba.symm
  · exact hd.sectors lba hlba

lemma Drive.WritesInside.ground (hd : d.WritesInside g)
    (hF : ∀ c, IsFree g d.sectors c → F c) : Ground g d.sectors F d :=
  ⟨fun _ _ => .inl rfl, fun c hc hzero => hF c ⟨hc, hzero⟩, hd⟩

lemma Ground.served (hd : Ground g S F d) {r : Request}
    (hr : ∀ lba, r = .write lba →
      g.firstFatLba ≤ lba ∧ lba < g.dataLba + g.dataClusters * g.secPerClus) :
    Ground g S F (d.served r) :=
  ⟨hd.entries, hd.free, hd.inside.served hr⟩

lemma patient_ground : Patient (Ground g S F) :=
  fun _ _ hr hd => hd.served fun lba hlba => absurd hlba (hr lba)

/-! ## Writing a sector -/

lemma Geometry.Sound.lba_inside (hg : g.Sound) (hp : g.ValidPlace p) :
    g.firstFatLba ≤ g.lba p ∧ g.lba p < g.dataLba + g.dataClusters * g.secPerClus := by
  have hroot := hg.root_at
  have hdata := hg.data_at
  cases p with
  | root s =>
    have hs : s < g.rootSectors := hp
    simp only [Geometry.lba]
    omega
  | data c s =>
    have hend := hp.1.end_le
    have hs := hp.2
    simp only [Geometry.lba]
    omega

lemma Ground.write_place (hg : g.Sound) (hd : Ground g S F d) (p) (s) :
    Ground g S F { d with sectors := update d.sectors (g.lba p) s } := by
  have hroot := g.rootLba_le hg p
  have hentry : ∀ c, g.Valid c →
      tableEntry g (update d.sectors (g.lba p) s) c = tableEntry g d.sectors c :=
    fun c hc => tableEntry_congr hg hc fun lba hlba => update_of_ne (by omega) ..
  refine ⟨fun c hc => ?_, fun c hc => ?_, hd.inside.sectors, hd.inside.entries⟩
  · rw [hentry c hc]
    exact hd.entries c hc
  · rw [hentry c hc]
    exact hd.free c hc

lemma keeps_writePlace (hg : g.Sound) (hp : g.ValidPlace p) (s) :
    Keeps (Ground g S F) (writeSector (g.lba p) s) fun _ => True := by
  refine keeps_writeSector (fun d hd => hd.served ?_) fun d hd => hd.write_place hg p s
  rintro _ ⟨⟩
  exact hg.lba_inside hp

/-! ## Writing an entry -/

/-- The entry of the cluster, in the sector it is in. -/
def entryIn (g : Geometry) (s : Sector) (c : ℕ) : ℕ :=
  if g.fatType = .fat32 then le32 (byteAt s) (c * 4 % 512) % 2 ^ 28
  else le16 (byteAt s) (c * 2 % 512)

/-- The entries in a sector are as `Ground` asks. -/
structure SectorFits (g : Geometry) (S : ℕ → Sector) (F : ℕ → Prop) (lba : ℕ) (s : Sector) :
    Prop where
  entries : ∀ c, g.Valid c → g.entryLba c = lba → OldOrFree g S c (entryIn g s c)
  free : ∀ c, g.Valid c → g.entryLba c = lba → entryIn g s c = 0 → F c

lemma Ground.fits (hd : Ground g S F d) (lba) : SectorFits g S F lba (d.sectors lba) := by
  constructor
  · rintro c hc rfl
    exact hd.entries c hc
  · rintro c hc rfl
    exact hd.free c hc

lemma entryIn_putSector (s) {c' : ℕ} (hsame : g.entryLba c' = g.entryLba c) (v) :
    entryIn g (putSector g s c v) c' = if c' = c then g.mask v else entryIn g s c' := by
  have hsec : c' * g.entryWidth / 512 = c * g.entryWidth / 512 := by
    unfold Geometry.entryLba at hsame
    omega
  exact @tableEntry_putSector g c (fun _ => s) (fun _ => putSector g s c v) c' v
    (by rw [if_pos hsec])

lemma SectorFits.put (hs : SectorFits g S F (g.entryLba c) s)
    (hlink : inChain g (g.mask v) = true → IsFree g S (g.mask v)) (hfree : g.mask v = 0 → F c) :
    SectorFits g S F (g.entryLba c) (putSector g s c v) := by
  constructor
  · intro c' hc' hsame
    rw [entryIn_putSector s hsame]
    split_ifs with heq
    · exact .inr hlink
    · exact hs.entries c' hc' hsame
  · intro c' hc' hsame
    rw [entryIn_putSector s hsame]
    split_ifs with heq
    · exact fun hzero => heq ▸ hfree hzero
    · exact hs.free c' hc' hsame

lemma Ground.write_table (hd : Ground g S F d) (hs : SectorFits g S F lba s) :
    Ground g S F { d with sectors := update d.sectors lba s } := by
  have hfits : ∀ c, SectorFits g S F (g.entryLba c) (update d.sectors lba s (g.entryLba c)) := by
    intro c
    by_cases hlba : g.entryLba c = lba
    · rw [hlba, update_self]
      exact hs
    · rw [update_of_ne hlba]
      exact hd.fits _
  exact ⟨fun c hc => (hfits c).entries c hc rfl, fun c hc => (hfits c).free c hc rfl,
    hd.inside.sectors, hd.inside.entries⟩

lemma SectorFits.copy (hg : g.Sound) {sec f : ℕ} (hsec : sec < g.fatsz)
    (hs : SectorFits g S F (g.firstFatLba + sec) s) :
    SectorFits g S F (g.firstFatLba + f * g.fatsz + sec) s := by
  have hfirst : ∀ c, g.Valid c → g.entryLba c = g.firstFatLba + f * g.fatsz + sec →
      g.entryLba c = g.firstFatLba + sec := by
    intro c hc hlba
    have hblock : 0 * g.fatsz + c * g.entryWidth / 512 = f * g.fatsz + sec := by
      unfold Geometry.entryLba at hlba
      omega
    rw [Geometry.entryLba, (block_unique (hg.table_lt hc) hsec hblock).2]
  exact ⟨fun c hc hlba => hs.entries c hc (hfirst c hc hlba),
    fun c hc hlba => hs.free c hc (hfirst c hc hlba)⟩

lemma keeps_writeTable (hg : g.Sound) {sec : ℕ} (hsec : sec < g.fatsz)
    (hs : SectorFits g S F (g.firstFatLba + sec) s) :
    Keeps (Ground g S F) (writeTable g sec s) fun _ => True := by
  refine keeps_forUpTo _ fun f hf => ?_
  have hroot := hg.root_at
  have hdata := hg.data_at
  have hlt := hg.root_lt
  have hle : (f + 1) * g.fatsz ≤ g.numFats * g.fatsz := Nat.mul_le_mul_right _ hf
  have hsucc : (f + 1) * g.fatsz = f * g.fatsz + g.fatsz := by ring
  rw [u32_of_lt (by omega)]
  refine keeps_writeSector (fun d hd => hd.served ?_) fun d hd => hd.write_table (hs.copy hg hsec)
  rintro _ ⟨⟩
  omega

lemma keeps_noteEntry (hc : g.Valid c) :
    Keeps (Ground g S F) (noteEntry c) fun _ => True := by
  intro d hd
  refine ⟨⟨hd.entries, hd.free, hd.inside.sectors, ?_⟩, fun _ _ => trivial⟩
  exact forall_mem_cons.mpr ⟨hc, hd.inside.entries⟩

/-! ## The table -/

lemma holds_fatNext {inv : Drive → Prop} {post : ℕ → Prop} (hg : g.Sound) (hc : g.Valid c)
    (hinv : Patient inv) (hpost : ∀ d, inv d → post (tableEntry g d.sectors c)) :
    Holds inv (fatNext g c) post := by
  intro d hd
  by_cases hread : d.faults 0 (.read (g.entryLba c) 1) = false
  · refine .inr ?_
    rw [fatNext_served hg hc hread, fatGet_served hg hc hread]
    refine ⟨hinv d _ (by simp) hd, ?_⟩
    rintro _ ⟨⟩
    exact hpost d hd
  · refine .inl (stays_fatGet c _ ?_).1
    rw [if_pos (by rw [fatNext_lba hg hc]; simpa [Geometry.entryLba] using hread)]
    exact cons_ne_nil _ _

lemma keeps_fatPut (hg : g.Sound) (hc : g.Valid c)
    (hlink : inChain g (g.mask v) = true → IsFree g S (g.mask v)) (hfree : g.mask v = 0 → F c) :
    Keeps (Ground g S F) (fatPut g c v) fun _ => True := by
  rw [fatPut_eq hg hc]
  have hread : Keeps (Ground g S F) (readSector (g.entryLba c)) (SectorFits g S F (g.entryLba c)) :=
    keeps_readSector patient_ground fun d hd => hd.fits _
  refine hread.bind fun s hs => (keeps_noteEntry hc).bind fun _ _ => ?_
  exact keeps_writeTable hg (hg.table_lt hc) (hs.put hlink hfree)

/-! ## Chains -/

lemma Geometry.Sound.mask_eofMark (hg : g.Sound) : g.mask (fatEofMark g) = fatEofMark g := by
  rcases hg.fatType_cases with htype | htype <;> simp [Geometry.mask, fatEofMark, htype]

lemma fatEofMark_ne_zero : fatEofMark g ≠ 0 := by
  unfold fatEofMark
  split <;> decide

lemma Geometry.Sound.inChain_eofMark (hg : g.Sound) : inChain g (fatEofMark g) = false := by
  rcases hg.fatType_cases with htype | htype <;>
    simp [inChain, fatEofMark, fatIsEof, htype]

lemma fatGet_unserved (hg : g.Sound) (hc : g.Valid c)
    (hread : d.faults 0 (.read (g.entryLba c) 1) = true) :
    ∃ mark, mark ≠ 0 ∧ fatGet g c d = (.ok mark, d.served (.read (g.entryLba c) 1)) := by
  have hlt := hc.lt hg
  have hbelow := hg.table_below (hg.table_lt hc)
  have hroot := hg.root_lt
  rcases hg.fatType_cases with htype | htype
  · refine ⟨0xFFF7, by decide, ?_⟩
    simp only [Geometry.entryLba, Geometry.entryWidth, htype, reduceCtorEq, if_false]
      at hread hbelow ⊢
    simp only [fatGet, htype, readTable, tableSector, hg.sector, u32_of_lt (show c * 2 < 2 ^ 32 by
      omega), u32_of_lt (show g.firstFatLba + c * 2 / 512 < 2 ^ 32 by omega)]
    simp only [Bind.bind, attempt, readSector, request, hread, if_true, Pure.pure]
  · refine ⟨0x0FFFFFF7, by decide, ?_⟩
    simp only [Geometry.entryLba, Geometry.entryWidth, htype, if_true] at hread hbelow ⊢
    simp only [fatGet, htype, readTable, tableSector, hg.sector, u32_of_lt (show c * 4 < 2 ^ 32 by
      omega), u32_of_lt (show g.firstFatLba + c * 4 / 512 < 2 ^ 32 by omega)]
    simp only [Bind.bind, attempt, readSector, request, hread, if_true, Pure.pure]

lemma keeps_fatGet_free (hg : g.Sound) (hc : g.Valid c) :
    Keeps (Ground g S F) (fatGet g c) fun v => v = 0 → F c := by
  intro d hd
  have hserved := patient_ground d (.read (g.entryLba c) 1) (by simp) hd
  by_cases hread : d.faults 0 (.read (g.entryLba c) 1) = true
  · obtain ⟨mark, hmark, hrun⟩ := fatGet_unserved hg hc hread
    rw [hrun]
    refine ⟨hserved, ?_⟩
    rintro _ ⟨⟩ hzero
    exact absurd hzero hmark
  · rw [fatGet_served hg hc (Bool.eq_false_iff.mpr hread)]
    refine ⟨hserved, ?_⟩
    rintro _ ⟨⟩
    exact hd.free c hc

section Chains

variable (hg : g.Sound)

include hg

lemma keeps_clusterLoop (hc : g.Valid c) {body : ℕ → FatM Unit} {content : ℕ → Sector}
    (hbody : ∀ i, i < g.secPerClus → body i = writeSector (g.lba (.data c i)) (content i)) :
    Keeps (Ground g S F) (forUpTo g.secPerClus body) fun _ => True := by
  refine keeps_forUpTo _ fun i hi => ?_
  rw [hbody i hi]
  exact keeps_writePlace hg (hc.place hi) _

lemma keeps_zeroCluster (hc : g.Valid c) :
    Keeps (Ground g S F) (zeroCluster g c) fun _ => True :=
  keeps_clusterLoop hg hc fun i hi => by
    rw [lba_sector hg hc, u32_of_lt (hg.lba_lt (hc.place hi))]

lemma keeps_writeSectors (hc : g.Valid c) (b : Bytes) :
    Keeps (Ground g S F) (writeSectors (clusToLba g c) g.secPerClus b) fun _ => True :=
  keeps_clusterLoop hg hc fun i _ => by rw [lba_sector hg hc]

lemma keeps_allocFrom (hc : 2 ≤ c) (hn : c + n = g.dataClusters + 2) :
    Keeps (Ground g S F) (allocFrom g n c) F := by
  induction n generalizing c with
  | zero => exact keeps_failed
  | succ n ih =>
    have hvalid : g.Valid c := ⟨hc, by omega⟩
    refine (keeps_fatGet_free hg hvalid).bind fun v hv => ?_
    split_ifs with hzero
    · refine (keeps_fatPut hg hvalid ?_ ?_).bind fun _ _ =>
        (keeps_zeroCluster hg hvalid).bind fun _ _ => keeps_pure (hv hzero)
      · rw [hg.mask_eofMark, hg.inChain_eofMark]
        exact fun h => absurd h Bool.false_ne_true
      · rw [hg.mask_eofMark]
        exact fun h => absurd h fatEofMark_ne_zero
    · exact ih (by omega) (by omega)

lemma keeps_fatAllocCluster : Keeps (Ground g S F) (fatAllocCluster g) F := by
  rw [fatAllocCluster, if_pos hg.writable, allocRange hg]
  exact keeps_allocFrom hg le_rfl (by omega)

lemma keeps_link (hc : g.Valid c) (hn : IsFree g S n) :
    Keeps (Ground g S F) (fatPut g c n) fun _ => True := by
  have hmask := hn.1.mask_eq hg
  have hge := hn.1.1
  refine keeps_fatPut hg hc ?_ ?_
  · rw [hmask]
    exact fun _ => hn
  · rw [hmask]
    omega

end Chains

/-! ## Walks along the table -/

/-- The `k`th cluster of a walk from `c₀` along the table, where it goes on as `go` says. -/
inductive Walked (g : Geometry) (S : ℕ → Sector) (go : ℕ → ℕ → Prop) (c₀ : ℕ) : ℕ → ℕ → Prop
  | start : Walked g S go c₀ 0 c₀
  | next {k c : ℕ} (hc : Walked g S go c₀ k c) (hgo : go k c)
      (h : inChain g (tableEntry g S c) = true) : Walked g S go c₀ (k + 1) (tableEntry g S c)

/-- The walk comes to clusters of the volume only. -/
def Safe (g : Geometry) (S : ℕ → Sector) (go : ℕ → ℕ → Prop) (c₀ : ℕ) : Prop :=
  ∀ k c, Walked g S go c₀ k c → g.Valid c

/-- From a cluster in `A r` a call can go on `r` times. -/
structure Footing (g : Geometry) (S : ℕ → Sector) (A : ℕ → ℕ → Prop) : Prop where
  valid : ∀ r c, A r c → g.Valid c
  next : ∀ r c v, A (r + 1) c → OldOrFree g S c v → inChain g v = true → A r v
  free : ∀ r c, IsFree g S c → A r c

/-- The clusters of a walk that is taken if `P` holds, with `r` more steps, and the free ones. -/
def Ahead (g : Geometry) (S : ℕ → Sector) (P : Prop) (go : ℕ → Prop) (c₀ r c : ℕ) : Prop :=
  (P ∧ ∃ k, Walked g S (fun k _ => go k) c₀ k c ∧ ∀ j < r, go (k + j)) ∨ IsFree g S c

lemma Safe.footing {P : Prop} (go : ℕ → Prop) {c₀ : ℕ}
    (hsafe : P → Safe g S (fun k _ => go k) c₀) : Footing g S (Ahead g S P go c₀) where
  valid r c hc := by
    rcases hc with ⟨hP, k, hc, -⟩ | hc
    · exact hsafe hP k c hc
    · exact hc.1
  next r c v hc hv hin := by
    rcases hv with rfl | hv
    · rcases hc with ⟨hP, k, hc, hgo⟩ | hc
      · refine .inl ⟨hP, k + 1, .next hc (hgo 0 (by omega)) hin, fun j hj => ?_⟩
        rw [Nat.add_assoc, Nat.add_comm 1]
        exact hgo (j + 1) (by omega)
      · rw [hc.2] at hin
        simp [inChain] at hin
    · exact .inr (hv hin)
  free _ _ hc := .inr hc

section Walks

variable {A : ℕ → ℕ → Prop} {r : ℕ} (hg : g.Sound) (hA : Footing g S A)

include hg hA

lemma holds_fatFreeChain (fuel) (hc : inChain g c = true → A fuel c) :
    Holds (Ground g S fun _ => True) (fatFreeChain g fuel c) fun _ => True := by
  induction fuel generalizing c with
  | zero =>
    unfold fatFreeChain
    split_ifs
    · exact keeps_hangs.holds
    · exact (keeps_pure trivial).holds
  | succ fuel ih =>
    unfold fatFreeChain
    split_ifs with hin
    · have hvalid := hA.valid _ _ (hc hin)
      have hnext : Holds (Ground g S fun _ => True) (fatNext g c) (OldOrFree g S c) :=
        holds_fatNext hg hvalid patient_ground fun d hd => hd.entries c hvalid
      have hput : Keeps (Ground g S fun _ => True) (fatPut g c 0) fun _ => True := by
        refine keeps_fatPut hg hvalid ?_ fun _ => trivial
        have hmask : g.mask 0 = 0 := by simp [Geometry.mask]
        rw [hmask]
        exact fun h => absurd h (by simp [inChain])
      refine hnext.bind (fun next => (stays_fatPut c 0).attempt.bind fun _ =>
        stays_fatFreeChain fuel next) fun next hnext => ?_
      exact hput.attempt.bind_holds fun _ _ => ih fun h => hA.next _ _ _ (hc hin) hnext h
    · exact (keeps_pure trivial).holds

lemma holds_nextForWrite (hc : A (r + 1) c) :
    Holds (Ground g S (IsFree g S)) (nextForWrite g c) (A r) := by
  have hvalid := hA.valid _ _ hc
  have hnext : Holds (Ground g S (IsFree g S)) (fatNext g c) (OldOrFree g S c) :=
    holds_fatNext hg hvalid patient_ground fun d hd => hd.entries c hvalid
  refine hnext.bind (fun n => ?_) fun n hn => ?_
  · split_ifs
    · exact stays_pure _
    · exact stays_fatAllocCluster.bind fun n => (stays_fatPut c n).bind fun _ => stays_pure _
  · split_ifs with hin
    · exact (keeps_pure (hA.next _ _ _ hc hn hin)).holds
    · refine ((keeps_fatAllocCluster hg).bind fun n hn => ?_).holds
      exact (keeps_link hg hvalid hn).bind fun _ _ => keeps_pure (hA.free r n hn)

lemma holds_skipWrite (skip : ℕ) (hc : A (skip + r) c) :
    Holds (Ground g S (IsFree g S)) (skipWrite g skip c) (A r) := by
  induction skip generalizing c with
  | zero => exact (keeps_pure (by simpa using hc)).holds
  | succ skip ih =>
    rw [Nat.succ_add] at hc
    exact (holds_nextForWrite hg hA hc).bind (fun n => stays_skipWrite skip n) fun n hn => ih hn

lemma holds_writeLoop (fuel) {off : ℕ} {src : List Byte} (hoff : off < clusSize g) (hc : A r c)
    (hr : (off + src.length - 1) / clusSize g ≤ r) :
    Holds (Ground g S (IsFree g S)) (writeLoop g fuel c off src) fun _ => True := by
  induction fuel generalizing c off src r with
  | zero =>
    unfold writeLoop
    split_ifs
    · exact (keeps_pure trivial).holds
    · exact keeps_hangs.holds
  | succ fuel ih =>
    unfold writeLoop
    split_ifs with hsrc
    · exact (keeps_pure trivial).holds
    refine (keeps_readSectors patient_ground _ _).bind_holds fun buf _ => ?_
    refine (keeps_writeSectors hg (hA.valid r c hc) _).bind_holds fun _ _ => ?_
    split_ifs with hrest
    · exact (keeps_pure trivial).holds
    · -- the cluster is full, so the bytes left begin in the next one
      have hlen : min (clusSize g - off) src.length < src.length := by
        by_contra hge
        exact hrest (drop_eq_nil_of_le (by omega))
      have hsum : off + src.length - 1 =
          (src.drop (min (clusSize g - off) src.length)).length - 1 + clusSize g := by
        rw [length_drop]
        omega
      rw [hsum, Nat.add_div_right _ (by omega)] at hr
      obtain ⟨r, rfl⟩ := Nat.exists_eq_add_one.mpr (Nat.lt_of_lt_of_le (Nat.succ_pos _) hr)
      refine (holds_nextForWrite hg hA hc).bind (fun n => stays_writeLoop _ _ _ _) fun n hn => ?_
      rw [← Nat.zero_add (length _)] at hr
      exact ih (by omega) hn (Nat.le_of_succ_le_succ hr)

lemma holds_writeData (ff : FatFile) {src : List Byte} (hsrc : src ≠ [])
    (hstart : A ((ff.pos + src.length - 1) / clusSize g) ff.startClus) :
    Holds (Ground g S (IsFree g S)) (writeData g ff src) fun _ => True := by
  have hpos : 0 < clusSize g := by
    have := hg.clus_pos
    have := hg.sector
    unfold clusSize
    positivity
  have hlen := length_pos_of_ne_nil hsrc
  have hsplit : (ff.pos + src.length - 1) / clusSize g =
      ff.pos / clusSize g + (ff.pos % clusSize g + src.length - 1) / clusSize g := by
    have hsum : ff.pos + src.length - 1 =
        ff.pos % clusSize g + src.length - 1 + clusSize g * (ff.pos / clusSize g) := by
      have := Nat.mod_add_div ff.pos (clusSize g)
      omega
    rw [hsum, Nat.add_mul_div_left _ _ hpos, Nat.add_comm]
  rw [hsplit] at hstart
  refine (holds_skipWrite hg hA _ hstart).bind (fun c => ?_) fun c hc => ?_
  · exact Stays.bind stays_request fun _ => stays_writeLoop _ _ _ _
  · exact (keeps_kmalloc patient_ground).bind_holds fun _ _ =>
      holds_writeLoop hg hA _ (Nat.mod_lt _ hpos) hc le_rfl

end Walks

/-! ## Directories -/

section Directories

variable {β : Type} {visit : Bytes → Verdict β}

/-- The loop over a directory goes on after this sector. -/
def Passes (g : Geometry) (S : ℕ → Sector) (visit : Bytes → Verdict β) (p : Place) : Prop :=
  scanEntries visit (S (g.lba p)) 16 0 = .next

/-- The clusters that a loop over a directory comes to. -/
def InDir (g : Geometry) (S : ℕ → Sector) (visit : Bytes → Verdict β) (dir c : ℕ) : Prop :=
  ¬ FixedRoot g dir ∧ inChain g (chainStart g dir) = true ∧
    ∃ k, Walked g S (fun _ c => ∀ s < g.secPerClus, Passes g S visit (.data c s))
      (chainStart g dir) k c

/-- The sectors that a loop over a directory comes to. -/
def DirPlace (g : Geometry) (S : ℕ → Sector) (visit : Bytes → Verdict β) (dir : ℕ) : Place → Prop
  | .root s => FixedRoot g dir ∧ s < g.rootSectors ∧ ∀ j < s, Passes g S visit (.root j)
  | .data c s => InDir g S visit dir c ∧ s < g.secPerClus ∧ ∀ j < s, Passes g S visit (.data c j)

/-- The loop comes to clusters of the volume only. -/
def DirSafe (g : Geometry) (S : ℕ → Sector) (visit : Bytes → Verdict β) (dir : ℕ) : Prop :=
  ∀ c, InDir g S visit dir c → g.Valid c

/-- The loop finds the entry `b` at the offset `off` of a sector. -/
def FoundAt (g : Geometry) (S : ℕ → Sector) (visit : Bytes → Verdict β) (dir : ℕ) (p : Place)
    (off : ℕ) (b : β) : Prop :=
  DirPlace g S visit dir p ∧ scanEntries visit (S (g.lba p)) 16 0 = .hit (off, b)

/-- The outcome of a loop over a directory. -/
def WalkIn (g : Geometry) (S : ℕ → Sector) (visit : Bytes → Verdict β) (dir : ℕ) :
    Walk β → Prop
  | .ended prev => FixedRoot g dir ∨ prev = 0 ∨ g.Valid prev
  | .stopped => True
  | .found lba off s b => ∃ p, FoundAt g S visit dir p off b ∧ lba = g.lba p ∧ s = S (g.lba p)

lemma DirPlace.valid (hsafe : DirSafe g S visit dir) (hp : DirPlace g S visit dir p) :
    g.ValidPlace p := by
  cases p with
  | root s => exact hp.2.1
  | data c s => exact ⟨hsafe c hp.1, hp.2.1⟩

/-- Writes so far are inside, and the sectors are those of `S`. -/
def Pinned (g : Geometry) (S : ℕ → Sector) (d : Drive) : Prop := d.WritesInside g ∧ d.sectors = S

lemma patient_pinned : Patient (Pinned g S) :=
  fun _ _ hr hd => ⟨hd.1.served fun lba hlba => absurd hlba (hr lba), hd.2⟩

/-- The outcome of a loop over the first `n` of the given sectors. -/
def SectorWalk (g : Geometry) (S : ℕ → Sector) (visit : Bytes → Verdict β) (place : ℕ → Place)
    (n : ℕ) : Walk β → Prop
  | .ended _ => ∀ j < n, Passes g S visit (place j)
  | .stopped => True
  | .found lba off s b => ∃ i < n, (∀ j < i, Passes g S visit (place j)) ∧
      lba = g.lba (place i) ∧ s = S (g.lba (place i)) ∧ scanEntries visit s 16 0 = .hit (off, b)

lemma keeps_scanSectors {place : ℕ → Place} {k : ℕ} (n)
    (hplace : ∀ i, i < n → u32 (lba + i) = g.lba (place (k + i)))
    (hpass : ∀ j < k, Passes g S visit (place j)) :
    Keeps (Pinned g S) (scanSectors visit n lba) (SectorWalk g S visit place (k + n)) := by
  induction n generalizing lba k with
  | zero => exact keeps_pure hpass
  | succ n ih =>
    have hlba := hplace 0 (by omega)
    rw [Nat.add_zero, Nat.add_zero] at hlba
    have hread : Keeps (Pinned g S) (readSector (u32 lba)) fun s => s = S (g.lba (place k)) :=
      keeps_readSector patient_pinned fun d hd => by rw [hd.2, hlba]
    refine hread.bind fun s hs => ?_
    rcases hscan : scanEntries visit s 16 0 with _ | _ | ⟨off, b⟩
    · rw [← Nat.add_assoc, Nat.add_right_comm]
      refine ih (fun i hi => ?_) fun j hj => ?_
      · rw [Nat.add_assoc, Nat.add_assoc, Nat.add_comm 1]
        exact hplace (i + 1) (by omega)
      · rcases Nat.lt_succ_iff_lt_or_eq.mp hj with hj | rfl
        · exact hpass j hj
        · rw [Passes, ← hs, hscan]
    · exact keeps_pure trivial
    · exact keeps_pure ⟨k, by omega, hpass, hlba, hs, hscan⟩

variable (hg : g.Sound)

include hg

lemma holds_scanChain (hsafe : DirSafe g S visit dir) {prev : ℕ} (fuel)
    (hc : inChain g c = true → InDir g S visit dir c)
    (hended : WalkIn g S visit dir (.ended prev)) :
    Holds (Pinned g S) (scanChain visit g fuel c prev) (WalkIn g S visit dir) := by
  induction fuel generalizing c prev with
  | zero =>
    unfold scanChain
    split_ifs
    · exact keeps_hangs.holds
    · exact (keeps_pure hended).holds
  | succ fuel ih =>
    unfold scanChain
    split_ifs with hin
    swap
    · exact (keeps_pure hended).holds
    have hvalid := hsafe c (hc hin)
    have hplace : ∀ i, i < g.secPerClus → u32 (clusToLba g c + i) = g.lba (.data c (0 + i)) := by
      intro i hi
      rw [lba_sector hg hvalid, u32_of_lt (hg.lba_lt (hvalid.place hi)), Nat.zero_add]
    refine (keeps_scanSectors g.secPerClus hplace
      fun j hj => absurd hj (Nat.not_lt_zero j)).bind_holds
      fun w hw => ?_
    rw [Nat.zero_add] at hw
    cases w with
    | ended prev' =>
      have hnext : Holds (Pinned g S) (fatNext g c) fun v => v = tableEntry g S c :=
        holds_fatNext hg hvalid patient_pinned fun d hd => by rw [hd.2]
      refine hnext.bind (fun v => stays_scanChain fuel v c) fun v hv =>
        ih ?_ (.inr (.inr hvalid))
      rintro hin'
      subst hv
      obtain ⟨hfixed, hstart, k, hk⟩ := hc hin
      exact ⟨hfixed, hstart, k + 1, .next hk hw hin'⟩
    | stopped => exact (keeps_pure trivial).holds
    | found lba off s b =>
      obtain ⟨i, hi, hpass, hlba, rfl, hhit⟩ := hw
      exact (keeps_pure ⟨.data c i, ⟨⟨hc hin, hi, hpass⟩, hhit⟩, hlba, rfl⟩).holds

lemma holds_scanDir (hsafe : DirSafe g S visit dir) (fuel) :
    Holds (Pinned g S) (scanDir visit g fuel dir) (WalkIn g S visit dir) := by
  unfold scanDir
  by_cases hroot : dir = 0 ∧ g.fatType ≠ .fat32
  · rw [if_pos hroot]
    have hplace : ∀ i, i < g.rootSectors → u32 (g.rootLba + i) = g.lba (.root (0 + i)) := by
      intro i hi
      rw [Nat.zero_add]
      exact u32_of_lt (hg.lba_lt (p := .root i) hi)
    have hscan : Keeps (Pinned g S) (scanSectors visit g.rootSectors g.rootLba)
        (SectorWalk g S visit Place.root (0 + g.rootSectors)) :=
      keeps_scanSectors g.rootSectors hplace fun j hj => absurd hj (Nat.not_lt_zero j)
    refine (hscan.weaken fun w hw => ?_).holds
    rw [Nat.zero_add] at hw
    cases w with
    | ended _ => exact .inl hroot
    | stopped => trivial
    | found lba off s b =>
      obtain ⟨i, hi, hpass, hlba, rfl, hhit⟩ := hw
      exact ⟨.root i, ⟨⟨hroot, hi, hpass⟩, hhit⟩, hlba, rfl⟩
  · rw [if_neg hroot]
    exact holds_scanChain hg hsafe fuel (fun h => ⟨hroot, h, 0, .start⟩) (.inr (.inl rfl))

end Directories

/-! ## The functions that write -/

section Calls

lemma stays_writeData (ff : FatFile) (src : List Byte) : Stays (writeData g ff src) :=
  (stays_skipWrite _ _).bind fun _ => Stays.bind stays_request fun _ => stays_writeLoop _ _ _ _

lemma stays_rootUpdateDirent (fuel : ℕ) (name83 : List Byte) (startClus size : ℕ) :
    Stays (rootUpdateDirent g fuel name83 startClus size) :=
  (stays_scanDir _ _).bind fun w => by
    cases w <;> first | exact stays_request | exact keeps_failed

variable (hg : g.Sound)

include hg

lemma rootUpdateDirent_inside {name83 : List Byte} (hd : d.WritesInside g)
    (hsafe : DirSafe g d.sectors (visitNamed name83 id) (rootKey g)) (fuel startClus size : ℕ) :
    After (fun d => d.WritesInside g) (rootUpdateDirent g fuel name83 startClus size)
      (fun _ => True) d := by
  refine (holds_scanDir hg hsafe fuel d ⟨hd, rfl⟩).bind (fun w => ?_) (fun _ hd => hd.1)
    fun w d' hw hd' => ?_
  · cases w with
    | found lba off s e => exact stays_request
    | ended _ => exact keeps_failed
    | stopped => exact keeps_failed
  · cases w with
    | ended prev => exact .inr ⟨hd'.1, by rintro _ ⟨⟩⟩
    | stopped => exact .inr ⟨hd'.1, by rintro _ ⟨⟩⟩
    | found lba off s e =>
      obtain ⟨p, hp, rfl, -⟩ := hw
      have hground : Ground g d'.sectors (fun _ => True) d' := hd'.1.ground fun _ _ => trivial
      exact .inr ⟨(keeps_writePlace hg (hp.1.valid hsafe) _ d' hground).1.inside,
        fun _ _ => trivial⟩

/-- What `fat_write_file` does before it updates the entry of the file. -/
def writeClusters (g : Geometry) (ff : FatFile) (src : List Byte) : FatM Unit := do
  let startClus ← firstForWrite g ff
  writeData g { ff with startClus } src

lemma keeps_firstForWrite (ff : FatFile) (r : ℕ) :
    Keeps (Ground g S (IsFree g S)) (firstForWrite g ff)
      (Ahead g S (2 ≤ ff.startClus) (fun k => k < r) ff.startClus r) := by
  unfold firstForWrite
  split_ifs with hsmall
  · exact (keeps_fatAllocCluster hg).weaken fun c hc => .inr hc
  · exact keeps_pure (.inl ⟨by omega, 0, .start, fun j hj => by omega⟩)

lemma fatWriteFile_inside (fuel) {f : VfsFile} {ff : FatFile} {src : List Byte}
    (hpriv : f.priv = .file ff) (hwritable : f.writable = true) (hsrc : src ≠ [])
    (hd : d.WritesInside g)
    (hsafe : 2 ≤ ff.startClus → Safe g d.sectors
      (fun k _ => k < (ff.pos + src.length - 1) / clusSize g) ff.startClus)
    (hdir : ∀ d', writeClusters g ff src d = (.ok (), d') →
      DirSafe g d'.sectors (visitNamed ff.name83 id) (rootKey g)) :
    After (fun d => d.WritesInside g) (fatWriteFile g fuel f src) (fun _ => True) d := by
  have hA := Safe.footing (fun k => k < (ff.pos + src.length - 1) / clusSize g) hsafe
  have hground : Ground g d.sectors (IsFree g d.sectors) d := hd.ground fun _ hc => hc
  rw [fatWriteFile, hpriv]
  simp only [hwritable, hg.writable, Bool.not_true, Bool.or_self, Bool.false_eq_true, if_false,
    hsrc]
  have hfirst := keeps_firstForWrite (S := d.sectors) hg ff
    ((ff.pos + src.length - 1) / clusSize g)
  refine (hfirst.holds d hground).reached.attempt.bind (fun o => ?_) (fun _ h => h.1.inside)
    fun first d₁ hfirst hd₁ => ?_
  · cases o with
    | none => exact stays_pure _
    | some st =>
      refine (stays_writeData _ _).attempt.bind fun o => ?_
      cases o with
      | none => exact stays_pure _
      | some _ => exact (stays_rootUpdateDirent _ _ _ _).attempt.bind fun _ => stays_pure _
  cases first with
  | none => exact .inr ⟨hd₁.1.inside, fun _ _ => trivial⟩
  | some st =>
    obtain ⟨hst, hrun⟩ := hfirst st rfl
    refine (holds_writeData hg hA { ff with startClus := st } hsrc hst d₁
      hd₁.1).reached.attempt.bind (fun o => ?_) (fun _ h => h.1.inside) fun done d₂ hdone hd₂ => ?_
    · cases o with
      | none => exact stays_pure _
      | some _ => exact (stays_rootUpdateDirent _ _ _ _).attempt.bind fun _ => stays_pure _
    cases done with
    | none => exact .inr ⟨hd₂.1.inside, fun _ _ => trivial⟩
    | some _ =>
      have hboth : writeClusters g ff src d = (.ok (), d₂) := by
        have hone : firstForWrite g ff d = (.ok st, d₁) := Prod.ext hrun hd₁.2.symm
        simp only [writeClusters, Bind.bind, hone]
        exact Prod.ext (hdone () rfl).2 hd₂.2.symm
      exact (rootUpdateDirent_inside hg hd₂.1.inside (hdir d₂ hboth) fuel _ _).attempt.bind
        (fun _ => stays_pure _) (fun _ h => h) fun _ d₃ _ hd₃ => .inr ⟨hd₃, fun _ _ => trivial⟩

lemma dirUnlinkAt_inside {parent : ℕ} {name83 : List Byte} {freeChain : Bool}
    (hd : d.WritesInside g) (hsafe : DirSafe g d.sectors (visitAnywhere name83) parent)
    (hchain : freeChain = true → ∀ p off e,
      FoundAt g d.sectors (visitAnywhere name83) parent p off e →
      inChain g (entryClus g e) = true →
      Safe g d.sectors (fun _ _ => True) (entryClus g e)) (fuel) :
    After (fun d => d.WritesInside g) (dirUnlinkAt g fuel parent name83 freeChain)
      (fun _ => True) d := by
  refine (holds_scanDir hg hsafe fuel d ⟨hd, rfl⟩).bind (fun w => ?_) (fun _ hd => hd.1)
    fun w d' hw hd' => ?_
  · cases w with
    | ended _ => exact keeps_failed
    | stopped => exact keeps_failed
    | found lba off s e =>
      refine Stays.bind stays_request fun _ => ?_
      split_ifs
      · exact stays_fatFreeChain _ _
      · exact stays_pure _
  cases w with
  | ended prev => exact .inr ⟨hd'.1, by rintro _ ⟨⟩⟩
  | stopped => exact .inr ⟨hd'.1, by rintro _ ⟨⟩⟩
  | found lba off s e =>
    obtain ⟨p, hp, rfl, -⟩ := hw
    have hground : Ground g d.sectors (fun _ => True) d' := by
      rw [← hd'.2]
      exact hd'.1.ground fun _ _ => trivial
    suffices hrest : Holds (Ground g d.sectors fun _ => True) _ fun _ => True from
      (hrest d' hground).imp_right fun h => ⟨h.1.inside, h.2⟩
    refine (keeps_writePlace hg (hp.1.valid hsafe) _).bind_holds fun _ _ => ?_
    split_ifs with hfree
    · obtain ⟨hfree, -⟩ := Bool.and_eq_true_iff.mp hfree
      have hA := Safe.footing (fun _ => True) (hchain hfree p off e hp)
      exact holds_fatFreeChain hg hA fuel fun h => .inl ⟨h, 0, .start, fun _ _ => trivial⟩
    · exact (keeps_pure trivial).holds

lemma dirFindFreeSlot_inside (hd : d.WritesInside g)
    (hsafe : DirSafe g d.sectors visitFree dir) (fuel) :
    After (fun d => d.WritesInside g) (dirFindFreeSlot g fuel dir) (fun _ => True) d := by
  refine (holds_scanDir hg hsafe fuel d ⟨hd, rfl⟩).bind (fun w => ?_) (fun _ hd => hd.1)
    fun w d' hw hd' => ?_
  · cases w with
    | found lba off s e => exact stays_pure _
    | stopped => exact keeps_failed
    | ended prev =>
      dsimp only
      split_ifs
      · exact keeps_failed
      · exact stays_fatAllocCluster.bind fun _ => keeps_failed
      · exact stays_fatAllocCluster.bind fun _ => (stays_fatPut _ _).bind fun _ =>
          Stays.bind stays_request fun _ => stays_pure _
  cases w with
  | found lba off s e => exact .inr ⟨hd'.1, fun _ _ => trivial⟩
  | stopped => exact .inr ⟨hd'.1, by rintro _ ⟨⟩⟩
  | ended prev =>
    have hground : Ground g d'.sectors (IsFree g d'.sectors) d' := hd'.1.ground fun _ hc => hc
    suffices hrest : Keeps (Ground g d'.sectors (IsFree g d'.sectors)) _ fun _ => True from
      .inr ⟨(hrest d' hground).1.inside, (hrest d' hground).2⟩
    dsimp only
    split_ifs with hroot hprev
    · exact keeps_failed
    · exact (keeps_fatAllocCluster hg).bind fun _ _ => keeps_failed
    · have hvalid : g.Valid prev := (hw.resolve_left hroot).resolve_left hprev
      refine (keeps_fatAllocCluster hg).bind fun neu hneu => ?_
      refine (keeps_link hg hvalid hneu).bind fun _ _ => ?_
      have hread : Keeps (Ground g d'.sectors (IsFree g d'.sectors))
          (readSector (clusToLba g neu)) fun _ => True :=
        keeps_readSector patient_ground fun _ _ => trivial
      exact hread.bind fun _ _ => keeps_pure trivial

end Calls

/-- The functions that write. -/
inductive WriteOp where
  | writeFile (f : VfsFile) (src : List Byte)
  | freeChain (c : ℕ)
  | unlinkAt (parent : ℕ) (name83 : List Byte) (release : Bool)
  | findFreeSlot (dir : ℕ)

/-- The drive after the function has ended, or after the given number of rounds. -/
def WriteOp.after (g : Geometry) (fuel : ℕ) (op : WriteOp) (d : Drive) : Drive :=
  match op with
  | .writeFile f src => (fatWriteFile g fuel f src d).2
  | .freeChain c => (fatFreeChain g fuel c d).2
  | .unlinkAt parent name83 release => (dirUnlinkAt g fuel parent name83 release d).2
  | .findFreeSlot dir => (dirFindFreeSlot g fuel dir d).2

/-- The walks of the call come to clusters of the volume only.  A write of bytes follows the chain
of the file as far as the position it ends at, and then, on the volume as the data leave it, the
root directory up to the entry of the file. -/
def WriteOp.OnGround (g : Geometry) (d : Drive) : WriteOp → Prop
  | .writeFile f src => ∀ ff, f.priv = .file ff → f.writable = true → src ≠ [] →
      (2 ≤ ff.startClus → Safe g d.sectors
        (fun k _ => k < (ff.pos + src.length - 1) / clusSize g) ff.startClus) ∧
      ∀ d', writeClusters g ff src d = (.ok (), d') →
        DirSafe g d'.sectors (visitNamed ff.name83 id) (rootKey g)
  | .freeChain c => inChain g c = true → Safe g d.sectors (fun _ _ => True) c
  | .unlinkAt parent name83 release =>
      DirSafe g d.sectors (visitAnywhere name83) parent ∧
      (release = true → ∀ p off e, FoundAt g d.sectors (visitAnywhere name83) parent p off e →
        inChain g (entryClus g e) = true → Safe g d.sectors (fun _ _ => True) (entryClus g e))
  | .findFreeSlot dir => DirSafe g d.sectors visitFree dir

lemma WriteOp.OnGround.inside {op : WriteOp} (hg : g.Sound) (hop : op.OnGround g d)
    (hd : d.WritesInside g) (fuel) :
    Lost (op.after g fuel d) ∨ (op.after g fuel d).WritesInside g := by
  cases op with
  | writeFile f src =>
    by_cases hwrites : ∃ ff, f.priv = .file ff ∧ f.writable = true ∧ src ≠ []
    · obtain ⟨ff, hpriv, hwritable, hsrc⟩ := hwrites
      obtain ⟨hsafe, hdir⟩ := hop ff hpriv hwritable hsrc
      exact (fatWriteFile_inside hg fuel hpriv hwritable hsrc hd hsafe hdir).imp_right And.left
    · have hsame : (fatWriteFile g fuel f src d).2 = d := by
        rw [fatWriteFile]
        cases hpriv : f.priv with
        | file ff =>
          dsimp only
          split_ifs with hw hsrc
          · rfl
          · rfl
          · exact absurd ⟨ff, hpriv, by simpa [hg.writable] using hw, hsrc⟩ hwrites
        | dir it => rfl
        | root => rfl
      rw [WriteOp.after, hsame]
      exact .inr hd
  | freeChain c =>
    have hA := Safe.footing (fun _ => True) hop
    have hground : Ground g d.sectors (fun _ => True) d := hd.ground fun _ _ => trivial
    exact (holds_fatFreeChain hg hA fuel
      (fun h => .inl ⟨h, 0, .start, fun _ _ => trivial⟩) d hground).imp_right fun h => h.1.inside
  | unlinkAt parent name83 release =>
    exact (dirUnlinkAt_inside hg hd hop.1 hop.2 fuel).imp_right And.left
  | findFreeSlot dir => exact (dirFindFreeSlot_inside hg hd hop fuel).imp_right And.left

def tinyVolume : Geometry := ⟨512, 1, 1, 1, 0, 1, 12, .fat32, 2, 1, 2, 0, 2, 10⟩

lemma tinyVolume_sound : tinyVolume.Sound := by
  constructor <;> decide

def emptyDrive (faults : ℕ → Request → Bool) : Drive where
  sectors := fun _ => zeroSector
  faults := faults
  clock := fun _ => 0

/-- The cluster 3 is marked as bad, and all other bytes are 0. -/
def badMarkDrive : Drive :=
  { emptyDrive fun _ _ => false with
    sectors := update (fun _ => zeroSector) 1
      (toSector (patch (fun _ => 0#8) 12 (bytes32 0x0FFFFFF7))) }

def shortFile : VfsFile := ⟨.file ⟨3, 1, 0, []⟩, 1, 0, false, true⟩

lemma shortFile_onGround :
    (WriteOp.writeFile shortFile [1#8]).OnGround tinyVolume badMarkDrive := by
  rintro _ ⟨⟩ - -
  refine ⟨fun _ k c hc => ?_, fun d' hd' => ?_⟩
  · cases hc with
    | start => decide
    | next _ hgo _ => exact absurd hgo (Nat.not_lt_zero _)
  · have hend : inChain tinyVolume (tableEntry tinyVolume (writeClusters tinyVolume ⟨3, 1, 0, []⟩
        [1#8] badMarkDrive).2.sectors 2) = false := by decide +kernel
    rw [hd'] at hend
    rintro c ⟨-, -, k, hc⟩
    suffices hroot : c = 2 by
      subst hroot
      decide
    induction hc with
    | start => rfl
    | next _ _ h ih =>
      subst ih
      rw [hend] at h
      exact absurd h Bool.false_ne_true

end HelixOS.Fat
