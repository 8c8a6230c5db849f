import HelixOS.FatRemovals

/-!
# Files that are opened

`fat_open` with `O_TRUNC` marks the first cluster of a file as its last one and leaves its
entry alone.  `fat_create_root` allocates a cluster before it looks for a free slot.
-/

namespace HelixOS.Fat

open Function List Finset

variable {flags : OpenFlags} {g : Geometry} {V : View} {T : Tree} {k fuel c : ℕ} {s t : Slot}
  {path : List Byte} {p : ℕ × List Byte} {cs : List ℕ}

/-! ## Views with the same sectors -/

section SameSectors

variable {V' : View} (h : V'.sector = V.sector)

include h

lemma View.entry_congr (s) : V'.entry s = V.entry s := by
  rw [View.entry, View.seen, h]
  rfl

lemma View.used_congr (slots : List Slot) : V'.used slots = V.used slots := by
  simp only [View.used, View.entry_congr h]

lemma View.lookup_congr (k) (want : List Byte) :
    V'.lookup g T k want = V.lookup g T k want := by
  simp only [View.lookup, View.find, View.used_congr h, View.entry_congr h]

lemma View.parentOf_congr (k) (comps : List (List Byte)) :
    V'.parentOf g T k comps = V.parentOf g T k comps := by
  induction comps generalizing k with
  | nil => rfl
  | cons comp rest ih =>
    cases rest with
    | nil => rfl
    | cons next rest =>
      rw [View.parentOf, View.parentOf, View.lookup_congr h]
      · cases V.lookup g T k (encode83Upper comp) with
        | none => rfl
        | some s =>
          have hdir : V'.isDirAt s = V.isDirAt s := by
            rw [View.isDirAt, View.isDirAt, View.entry_congr h]
          have hclus : V'.clusAt g s = V.clusAt g s := by
            rw [View.clusAt, View.clusAt, View.entry_congr h]
          dsimp only
          rw [hdir, hclus, ih]
      · simp
      · simp

lemma View.leadsTo_congr : V'.LeadsTo g T path p s ↔ V.LeadsTo g T path p s := by
  rw [View.LeadsTo, View.LeadsTo, View.parentOf_congr h, View.lookup_congr h]

lemma Directories.congr (hV : Directories g V T)
    (hfat : ∀ {k}, T.isDir k → ¬ FixedRoot g k → ∀ c ∈ T.clusters k, V'.fat c = V.fat c) :
    Directories g V' T := by
  refine ⟨hV.root, fun hk hfixed => ?_, fun {k s} hs hdir => ?_⟩
  · obtain ⟨hne, hchain⟩ := hV.chain hk hfixed
    exact ⟨hne, hchain.congr (hfat hk hfixed)⟩
  · have hold : V.Holds g T k s :=
      ⟨hs.isDir, View.used_congr h _ ▸ hs.mem, View.entry_congr h s ▸ hs.live⟩
    rw [View.isDirAt, View.entry_congr h] at hdir
    rw [View.clusAt, View.entry_congr h]
    exact hV.sub hold hdir

end SameSectors

/-! ## Truncation -/

lemma fatIsEof_mark (hg : g.Sound) : fatIsEof g (fatEofMark g) = true := by
  rcases hg.fatType_cases with htype | htype <;> simp [fatIsEof, fatEofMark, htype]

lemma components_eq_nil (h : path.dropWhile (· = slashByte) = []) : components path = [] := by
  unfold components
  cases path.length with
  | zero => rfl
  | succ n => rw [componentsFrom, h]

def View.truncated (g : Geometry) (V : View) (c : ℕ) : View :=
  if 2 ≤ c then V.setFat c (fatEofMark g) else V

lemma View.truncated_sector (c) : (V.truncated g c).sector = V.sector := by
  unfold View.truncated
  split_ifs <;> rfl

lemma View.truncated_fat {x : ℕ} (hx : x ≠ c) : (V.truncated g c).fat x = V.fat x := by
  unfold View.truncated
  split_ifs
  · exact update_of_ne hx ..
  · rfl

lemma runs_fileHandle (path) (flags) (clus size : ℕ) :
    ∃ f, f.size = size ∧ Runs g (fileHandle path flags clus size) V (.ok f) V :=
  ⟨_, rfl, runs_kmalloc.bind (runs_kmalloc.bind (runs_pure _))⟩

lemma View.LeadsTo.runs_fatOpen (hg : g.Sound) (hV : Directories g V T)
    (hfuel : g.dataClusters ≤ fuel) (h : V.LeadsTo g T path p s) (hfile : V.isDirAt s = false)
    (hcs : V.FileChain g s cs) (flags) :
    ∃ f, f.size = (if flags.trunc then 0 else (entryMeta g (V.entry s)).size) ∧
      Runs g (fatOpen g fuel path flags) V (.ok f)
        (if flags.trunc then V.truncated g (V.clusAt g s) else V) := by
  have hpath : path.dropWhile (· = slashByte) ≠ [] := by
    intro hnil
    have hparent := h.1
    rw [components_eq_nil hnil] at hparent
    cases hparent
  have hattr : isDirectory (entryMeta g (V.entry s)).attr = V.isDirAt s := rfl
  have hclus : (entryMeta g (V.entry s)).clus = V.clusAt g s := rfl
  have hresolve := (h.runs_fatResolve hg hV hfuel).attempt
  unfold fatOpen
  rw [if_neg hpath]
  cases htrunc : flags.trunc with
  | false =>
    obtain ⟨f, hsize, hruns⟩ := @runs_fileHandle g V path flags (V.clusAt g s)
      (entryMeta g (V.entry s)).size
    refine ⟨f, hsize, hresolve.bind ?_⟩
    dsimp only
    rw [hattr, hfile, Bool.false_and]
    exact hruns
  | true =>
    obtain ⟨f, hsize, hruns⟩ := @runs_fileHandle g (V.truncated g (V.clusAt g s)) path flags
      (V.clusAt g s) 0
    refine ⟨f, hsize, hresolve.bind ?_⟩
    dsimp only
    rw [hattr, hfile, hg.writable, hclus]
    unfold View.truncated at hruns ⊢
    by_cases hge : 2 ≤ V.clusAt g s
    · have hvalid : g.Valid (V.clusAt g s) := by
        unfold View.FileChain at hcs
        rw [if_neg (by omega)] at hcs
        exact hcs.2.valid_start hcs.1
      have hput := runs_fatPut (V := V) hg hvalid (fatEofMark g)
      rw [hg.mask_eofMark] at hput
      rw [if_pos hge] at hruns
      simp only [Bool.true_and, if_pos hge, Bool.false_eq_true, if_false, if_true]
      exact hput.attempt.bind hruns
    · rw [if_neg hge] at hruns
      simp only [Bool.true_and, if_neg hge, Bool.false_eq_true, if_false, if_true]
      exact hruns

/-- What is expected of a truncation: every later handle has the size 0, and the clusters
that are no longer in the chain of the file are free. -/
def TruncMeets (g : Geometry) (fuel : ℕ) (path : List Byte) (flags : OpenFlags) (T : Tree)
    (d : Drive) : Prop :=
  ∀ p s cs f d', (d.view g).LeadsTo g T path p s → (d.view g).isDirAt s = false →
    (d.view g).FileChain g s cs → fatOpen g fuel path flags d = (.ok f, d') →
    (∀ flags' f' d'', fatOpen g fuel path flags' d' = (.ok f', d'') → f'.size = 0) ∧
      ∀ c ∈ cs, (∀ cs', (d'.view g).FileChain g s cs' → c ∉ cs') → (d'.view g).fat c = 0

def TruncSafe (g : Geometry) (V : View) (T : Tree) (path : List Byte) : Prop :=
  ∀ p s cs, V.LeadsTo g T path p s → V.isDirAt s = false → V.FileChain g s cs →
    (entryMeta g (V.entry s)).size = 0 ∧ cs.length ≤ 1

section Truncated

variable (hg : g.Sound) (hcs : V.FileChain g s cs)

include hg hcs

lemma Consistent.truncated (hV : Consistent g V T) (hholds : V.Holds g T k s)
    (hfile : V.isDirAt s = false) : Directories g (V.truncated g (V.clusAt g s)) T := by
  obtain ⟨cs', hcs', hapart⟩ := hV.file hholds hfile
  obtain rfl : cs = cs' := hcs.freed.unique hg hcs'.freed
  refine hV.toDirectories.congr (View.truncated_sector _) fun hk hfixed c hc => ?_
  by_cases hzero : V.clusAt g s = 0
  · rw [hzero]
    rfl
  · refine View.truncated_fat ?_
    rintro rfl
    unfold View.FileChain at hcs
    rw [if_neg hzero] at hcs
    exact hapart _ hk hfixed hc (hcs.2.head hcs.1)

lemma View.FileChain.truncated : (V.truncated g (V.clusAt g s)).FileChain g s (cs.take 1) := by
  have hclus : (V.truncated g (V.clusAt g s)).clusAt g s = V.clusAt g s := by
    rw [View.clusAt, View.entry_congr (View.truncated_sector _)]
    rfl
  unfold View.FileChain at hcs ⊢
  rw [hclus]
  split_ifs at hcs ⊢ with hzero
  · rw [hcs]
    rfl
  · obtain ⟨hne, hchain⟩ := hcs
    cases cs with
    | nil => exact absurd rfl hne
    | cons x cs =>
      obtain ⟨rfl, hvalid, -⟩ := hchain
      refine ⟨cons_ne_nil _ _, rfl, hvalid, ?_⟩
      have hmark : (V.truncated g (V.clusAt g s)).fat (V.clusAt g s) = fatEofMark g := by
        rw [View.truncated, if_pos hvalid.1]
        exact update_self ..
      rw [hmark]
      exact fatIsEof_mark hg

lemma View.FileChain.truncated_free_iff :
    (∀ c ∈ cs, (∀ cs', (V.truncated g (V.clusAt g s)).FileChain g s cs' → c ∉ cs') →
      (V.truncated g (V.clusAt g s)).fat c = 0) ↔ cs.length ≤ 1 := by
  have hleft := hcs.truncated hg
  constructor
  · intro hfree
    unfold View.FileChain at hcs
    split_ifs at hcs with hzero
    · rw [hcs]
      exact Nat.zero_le _
    · obtain ⟨hne, hchain⟩ := hcs
      have hnodup := hchain.nodup hg
      match cs, hchain, hnodup, hleft with
      | [], _, _, _ => exact Nat.zero_le _
      | [_], _, _, _ => exact le_rfl
      | x :: y :: rest, hchain, hnodup, hleft =>
        have hyx : y ≠ x := by
          rintro rfl
          exact (nodup_cons.mp hnodup).1 mem_cons_self
        have hx : x = V.clusAt g s := hchain.1
        have hy := hfree y (mem_cons_of_mem _ mem_cons_self) fun cs' hcs' => by
          rw [hcs'.freed.unique hg hleft.freed]
          simpa using hyx
        rw [View.truncated_fat (hx ▸ hyx)] at hy
        exact absurd hy (hchain.fat_ne_zero (mem_cons_of_mem _ mem_cons_self))
  · intro hlength c hc hnot
    exact absurd hc (by rw [← take_of_length_le hlength]; exact hnot _ hleft)

end Truncated

theorem trunc_meets_iff (hg : g.Sound) (hfuel : g.dataClusters ≤ fuel) (path : List Byte)
    (flags : OpenFlags) (htrunc : flags.trunc = true) (d : Drive) (hd : d.Reliable)
    (hV : Consistent g (d.view g) T) :
    TruncMeets g fuel path flags T d ↔ TruncSafe g (d.view g) T path := by
  have hdirs := hV.toDirectories
  refine forall₃_congr fun p s cs => ⟨fun hmeets h hfile hcs => ?_,
    fun hsafe f d' h hfile hcs hopen => ?_⟩
  all_goals
    have hholds := h.holds hdirs
    have hleads := (View.leadsTo_congr (View.truncated_sector (V := d.view g) (g := g)
      ((d.view g).clusAt g s))).mpr h
    have hentry := View.entry_congr (View.truncated_sector (V := d.view g) (g := g)
      ((d.view g).clusAt g s)) s
    have hfile' : ((d.view g).truncated g ((d.view g).clusAt g s)).isDirAt s = false := by
      rw [View.isDirAt, hentry]
      exact hfile
    have hreopen := hleads.runs_fatOpen hg (hV.truncated hg hcs hholds hfile) hfuel hfile'
      (hcs.truncated hg)
    obtain ⟨f₁, hsize, hruns⟩ := h.runs_fatOpen hg hdirs hfuel hfile hcs flags
    rw [htrunc, if_pos rfl] at hruns
    obtain ⟨d₁, hrun, hd₁, hview⟩ := hruns d hd rfl
    rw [hentry] at hreopen
  · obtain ⟨hlater, hfree⟩ := hmeets f₁ d₁ h hfile hcs hrun
    rw [hview] at hfree
    refine ⟨?_, (hcs.truncated_free_iff hg).mp hfree⟩
    obtain ⟨f₂, hsize₂, hruns₂⟩ := hreopen ⟨false, false, false, false, false⟩
    obtain ⟨d₂, hrun₂, -⟩ := hruns₂ d₁ hd₁ hview
    rw [← hlater _ f₂ d₂ hrun₂, hsize₂]
    rfl
  · obtain ⟨hzero, hlength⟩ := hsafe h hfile hcs
    rw [hrun] at hopen
    cases hopen
    refine ⟨fun flags' f' d'' hagain => ?_, ?_⟩
    · obtain ⟨f₂, hsize₂, hruns₂⟩ := hreopen flags'
      obtain ⟨d₂, hrun₂, -⟩ := hruns₂ d' hd₁ hview
      rw [hrun₂] at hagain
      cases hagain
      rw [hsize₂, hzero, ite_self]
    · rw [hview]
      exact (hcs.truncated_free_iff hg).mpr hlength

def truncating : OpenFlags := ⟨true, false, false, true, false⟩

theorem trunc_meets_new_file :
    TruncMeets smallVolume 4085 namedF truncating (flatTree [])
      (drive (fatCreateRoot smallVolume 4085 namedF false)) := by
  have hone : ((drive (fatCreateRoot smallVolume 4085 namedF false)).view smallVolume).single
      smallVolume 2 = true := by decide +kernel
  refine (trunc_meets_iff smallVolume_sound le_rfl namedF truncating rfl _ (drive_reliable _)
    (consistent_of_flat (by decide) (by decide +kernel))).mpr fun p s cs h _ hcs => ?_
  obtain rfl := h.unique newFile_leadsTo
  refine ⟨by decide +kernel, ?_⟩
  rw [hcs.2.unique smallVolume_sound (View.single_chain hone)]
  exact le_rfl

def reopenedSize (g : Geometry) (fuel : ℕ) (path : List Byte) (flags : OpenFlags) : FatM ℕ := do
  let _ ← fatOpen g fuel path flags
  let f ← fatOpen g fuel path ⟨false, false, false, false, false⟩
  pure f.size

lemma TruncMeets.reopenedSize {d : Drive}
    (hmeets : TruncMeets g fuel path flags T d) (h : (d.view g).LeadsTo g T path p s)
    (hfile : (d.view g).isDirAt s = false) (hcs : (d.view g).FileChain g s cs) {n : ℕ}
    (hsize : (reopenedSize g fuel path flags d).1 = .ok n) : n = 0 := by
  simp only [Fat.reopenedSize, Bind.bind] at hsize
  rcases hopen : fatOpen g fuel path flags d with ⟨f | _ | _, d'⟩
  · rw [hopen] at hsize
    dsimp only at hsize
    rcases hagain : fatOpen g fuel path ⟨false, false, false, false, false⟩ d' with
      ⟨f' | _ | _, d''⟩
    · rw [hagain] at hsize
      cases hsize
      exact (hmeets p s cs f d' h hfile hcs hopen).1 _ f' d'' hagain
    · rw [hagain] at hsize
      cases hsize
    · rw [hagain] at hsize
      cases hsize
  · rw [hopen] at hsize
    cases hsize
  · rw [hopen] at hsize
    cases hsize

def oneByte : FatM Unit := do
  let f ← fatOpen smallVolume 4085 namedF ⟨true, false, true, false, false⟩
  let _ ← fatWriteFile smallVolume 4085 f [0x41#8]

/-- The size is still 1 when the file is opened after the truncation. -/
theorem truncation_is_not_written : (drive oneByte).Reliable ∧
      Consistent smallVolume ((drive oneByte).view smallVolume) (flatTree []) ∧
      ¬ TruncMeets smallVolume 4085 namedF truncating (flatTree []) (drive oneByte) := by
  refine ⟨drive_reliable _, consistent_of_flat (by decide) (by decide +kernel), fun hmeets => ?_⟩
  have hchain : ((drive oneByte).view smallVolume).FileChain smallVolume ⟨.root 0, 0⟩ [2] := by
    exact ⟨cons_ne_nil _ _, View.single_chain (by decide +kernel)⟩
  have hsize : (reopenedSize smallVolume 4085 namedF truncating (drive oneByte)).1 = .ok 1 := by
    decide +kernel
  exact absurd (hmeets.reopenedSize (p := (0, encode83Upper namedF)) ⟨by decide +kernel,
    by decide +kernel⟩ (by decide +kernel) hchain hsize) (by decide)

/-! ## Creation -/

lemma runs_fatAllocCluster_none (hg : g.Sound) (hnone : V.freeClusters g = ∅) :
    Runs g (fatAllocCluster g) V .fail V := by
  have hloop : ∀ n c, 2 ≤ c → c + n ≤ g.dataClusters + 2 → Runs g (allocFrom g n c) V .fail V := by
    intro n
    induction n with
    | zero => exact fun _ _ _ => runs_failed
    | succ n ih =>
      intro c hc hend
      have hvalid : g.Valid c := ⟨hc, by omega⟩
      have hused : V.fat c ≠ 0 := fun hzero =>
        notMem_empty c (hnone ▸ View.mem_freeClusters.mpr ⟨hvalid, hzero⟩)
      refine (runs_fatGet hg hvalid).bind ?_
      rw [if_neg hused]
      exact ih (c + 1) (by omega) (by omega)
  rw [fatAllocCluster, if_pos hg.writable, allocRange hg]
  exact hloop _ _ le_rfl (by omega)

structure Allocated (g : Geometry) (V : View) (n : ℕ) (W : View) : Prop where
  fat : ∀ x, W.fat x = if x = n then fatEofMark g else V.fat x
  sector : ∀ q, (∀ i, q ≠ .data n i) → W.sector q = V.sector q

section Allocation

variable {n : ℕ} {W : View}

lemma Allocated.alloc (hg : g.Sound) : Allocated g V n (V.alloc g n) := by
  constructor
  · intro x
    simp only [View.alloc, View.setCluster, View.setSectors, View.setFat, update_apply,
      hg.mask_eofMark]
  · intro q hq
    cases q with
    | root i => rfl
    | data c i => exact if_neg fun h => hq i (by rw [h.1])

lemma Allocated.written (h : Allocated g V n W) (s : Sector) :
    Allocated g V n (W.tick.tick.setSector (.data n 0) s) :=
  ⟨h.fat, fun q hq => (update_of_ne (hq 0) ..).trans (h.sector q hq)⟩

lemma runs_fill83Dirent (name : List Byte) (attr : Byte) (clus size : ℕ) :
    ∃ e, Runs g (fill83Dirent name attr clus size) V (.ok e) V.tick :=
  ⟨_, runs_rtcUnixSeconds.bind (runs_pure _)⟩

lemma runs_dotSector (n : ℕ) : ∃ s, Runs g (dotSector g n) V (.ok s) V.tick.tick := by
  obtain ⟨e, hdot⟩ := @runs_fill83Dirent g V (padded 11 [dotByte]) attrDirectory n 0
  obtain ⟨e', hdotdot⟩ := @runs_fill83Dirent g V.tick (padded 11 [dotByte, dotByte])
    attrDirectory (rootKey g) 0
  exact ⟨_, hdot.bind (hdotdot.bind (runs_pure _))⟩

lemma exists_prepared (hg : g.Sound) (hn : g.Valid n) (isDir : Bool) :
    ∃ W, Allocated g V n W ∧ ∀ {rest : FatM ℕ} {o W'}, Runs g rest W o W' →
      Runs g (if isDir then
          dotSector g n >>= fun s => writeSector (clusToLba g n) s >>= fun _ => rest
        else rest) (V.alloc g n) o W' := by
  cases isDir with
  | false => exact ⟨_, Allocated.alloc hg, fun h => h⟩
  | true =>
    obtain ⟨s, hdots⟩ := @runs_dotSector g (V.alloc g n) n
    refine ⟨_, (Allocated.alloc hg).written s, fun hrest => ?_⟩
    rw [if_pos rfl, clusToLba_eq hg hn]
    exact hdots.bind ((runs_writeSector hg (hn.place hg.clus_pos) s).bind hrest)

section Root

variable (hV : Directories g V T) (hn : V.NextFree g n) (hW : Allocated g V n W)

include hW in
lemma Allocated.freeClusters : W.freeClusters g = (V.freeClusters g).erase n := by
  ext x
  rw [mem_erase, View.mem_freeClusters, View.mem_freeClusters, hW.fat]
  by_cases hx : x = n
  · simp [hx, fatEofMark_ne_zero]
  · simp [hx]

include hV hn hW

lemma Allocated.entry (hk : T.isDir k) (hs : s ∈ T.slots g k) : W.entry s = V.entry s := by
  have hplace : ∀ i, s.place ≠ .data n i := by
    intro i hi
    by_cases hfixed : FixedRoot g k
    · rw [Tree.slots, dirSlots, if_pos hfixed] at hs
      obtain ⟨j, -, hplace, -⟩ := mem_rootSlots.mp hs
      rw [hplace] at hi
      cases hi
    · rw [Tree.slots, dirSlots, if_neg hfixed] at hs
      obtain ⟨c, hc, j, -, hplace, -⟩ := mem_chainSlots.mp hs
      rw [hplace] at hi
      cases hi
      exact (hV.chain hk hfixed).2.fat_ne_zero hc hn.free
  rw [View.entry, View.seen, hW.sector _ hplace]
  rfl

lemma Allocated.firstFree (hk : T.isDir k) :
    W.firstFree (T.slots g k) = V.firstFree (T.slots g k) := by
  refine find?_congr fun t ht => ?_
  rw [hW.entry hV hn hk ht]

lemma Allocated.chain (hk : T.isDir k) (hfixed : ¬ FixedRoot g k) :
    T.clusters k ≠ [] ∧ W.Chain g k (T.clusters k) := by
  obtain ⟨hne, hchain⟩ := hV.chain hk hfixed
  refine ⟨hne, hchain.congr fun c hc => ?_⟩
  rw [hW.fat, if_neg]
  rintro rfl
  exact hchain.fat_ne_zero hc hn.free

lemma Allocated.dirChain (hg : g.Sound) (hk : T.isDir k) (hkey : dirKey g k = k) :
    W.DirChain g k (if FixedRoot g k then [] else T.clusters k) ∧
      dirSlots g k (if FixedRoot g k then [] else T.clusters k) = T.slots g k ∧
      (if FixedRoot g k then [] else T.clusters k).length ≤ g.dataClusters := by
  by_cases hfixed : FixedRoot g k
  · simp only [View.DirChain, Tree.slots, dirSlots, if_pos hfixed, length_nil]
    exact ⟨trivial, trivial, Nat.zero_le _⟩
  · obtain ⟨-, hchain⟩ := hW.chain hV hn hk hfixed
    simp only [View.DirChain, Tree.slots, if_neg hfixed]
    refine ⟨?_, trivial, hchain.length_le hg⟩
    rw [chainStart_eq hfixed, hkey]
    exact hchain

end Root

end Allocation

/-- No slot of a directory is free, and it cannot grow. -/
def View.Full (g : Geometry) (V : View) (k : ℕ) (slots : List Slot) : Prop :=
  V.firstFree slots = none ∧ (FixedRoot g k ∨ V.freeClusters g = ∅)

lemma runs_dirFindFreeSlot (hg : g.Sound) (hchain : V.DirChain g k cs)
    (hne : ¬ FixedRoot g k → cs ≠ []) (hfuel : cs.length ≤ fuel)
    (hvalid : ∀ s ∈ dirSlots g k cs, g.ValidPlace s.place) :
    (∃ q off sec V', g.ValidPlace q ∧ ¬ V.Full g k (dirSlots g k cs) ∧
        Runs g (dirFindFreeSlot g fuel k) V (.ok (g.lba q, off, sec)) V') ∨
      V.Full g k (dirSlots g k cs) ∧ Runs g (dirFindFreeSlot g fuel k) V .fail V := by
  have hscan : Runs g (scanDir visitFree g fuel k) V _ V := runs_scanDir hg hchain hfuel
  rw [walk_free] at hscan
  cases hfree : V.firstFree (dirSlots g k cs) with
  | some s =>
    rw [hfree] at hscan
    refine .inl ⟨s.place, _, _, V, hvalid s (mem_of_find?_eq_some hfree), fun hfull => ?_,
      hscan.bind (runs_pure _)⟩
    rw [hfull.1] at hfree
    cases hfree
  | none =>
    rw [hfree] at hscan
    by_cases hfixed : FixedRoot g k
    · refine .inr ⟨⟨hfree, .inl hfixed⟩, hscan.bind ?_⟩
      dsimp only [Verdict.walk]
      rw [if_pos (show k = 0 ∧ g.fatType ≠ .fat32 from hfixed)]
      exact runs_failed
    have hskip : ¬ (k = 0 ∧ g.fatType ≠ .fat32) := hfixed
    by_cases hspace : V.freeClusters g = ∅
    · refine .inr ⟨⟨hfree, .inr hspace⟩, hscan.bind ?_⟩
      dsimp only [Verdict.walk]
      rw [if_neg hskip]
      exact (runs_fatAllocCluster_none hg hspace).bind_fail _
    · obtain ⟨n, hn⟩ := View.exists_nextFree hspace
      rw [View.DirChain, if_neg hfixed] at hchain
      have hlast : cs.getLastD 0 = cs.getLast (hne hfixed) := by
        rw [getLastD_eq_getLast?, getLast?_eq_some_getLast (hne hfixed)]
        rfl
      have hvalid := hchain.valid _ (getLast_mem (hne hfixed))
      have hpos := hvalid.1
      let W : View := (V.alloc g n).setFat (cs.getLast (hne hfixed)) (g.mask n)
      refine .inl ⟨.data n 0, 0, W.sector (.data n 0), W, hn.valid.place hg.clus_pos,
        fun hfull => ?_, hscan.bind ?_⟩
      · exact hfull.2.elim hfixed hspace
      · dsimp only [Verdict.walk]
        rw [if_neg hskip, hlast]
        refine (runs_fatAllocCluster hg hn).bind ?_
        rw [if_neg (by omega), clusToLba_eq hg hn.valid]
        exact (runs_fatPut hg hvalid n).bind
          ((runs_readSector (hn.valid.place hg.clus_pos)).bind (runs_pure _))

/-! ## Failed creation -/

/-- A failed creation changes no entry of table or directory. -/
def CreationMeets (g : Geometry) (fuel : ℕ) (path : List Byte) (isDir : Bool) (T : Tree)
    (d : Drive) : Prop :=
  ∀ d', fatCreateRoot g fuel path isDir d = (.fail, d') → (d'.view g).fat = (d.view g).fat ∧
    ∀ k s, T.isDir k → s ∈ T.slots g k → (d'.view g).entry s = (d.view g).entry s

/-- A new name for the root directory, but no slot for it once a cluster has been allocated. -/
structure LosesCluster (g : Geometry) (V : View) (T : Tree) (path : List Byte) : Prop where
  name : (path.dropWhile (· = slashByte)).contains slashByte = false
  new : V.lookup g T (rootKey g) (encode83Upper (path.dropWhile (· = slashByte))) = none
  full : V.firstFree (T.slots g (rootKey g)) = none
  clusters : if g.fatType = .fat32 then (V.freeClusters g).card = 1 else V.freeClusters g ≠ ∅

lemma Directories.runs_fatCreateRoot (hg : g.Sound) (hV : Directories g V T)
    (hfuel : g.dataClusters ≤ fuel) (path : List Byte) (isDir : Bool) :
    (LosesCluster g V T path ∧ ∃ n W, V.NextFree g n ∧ Allocated g V n W ∧
        Runs g (fatCreateRoot g fuel path isDir) V .fail W) ∨
      ¬ LosesCluster g V T path ∧ (Runs g (fatCreateRoot g fuel path isDir) V .fail V ∨
        ∃ n W, Runs g (fatCreateRoot g fuel path isDir) V (.ok n) W) := by
  rw [fatCreateRoot, hg.writable]
  by_cases hname : (path.dropWhile (· = slashByte)).contains slashByte = true
  · refine .inr ⟨fun h => ?_, .inl ?_⟩
    · rw [h.name] at hname
      cases hname
    · dsimp only
      rw [hname]
      exact runs_failed
  rw [Bool.not_eq_true] at hname
  have hkey := dirKey_rootKey g
  have hfind := hV.runs_findInDir hg hV.rootKey_isDir hfuel
    (encode83Upper (path.dropWhile (· = slashByte)))
  rw [hname, if_neg (by simp)]
  cases hlookup : V.lookup g T (rootKey g) (encode83Upper (path.dropWhile (· = slashByte))) with
  | some t =>
    rw [hlookup] at hfind
    refine .inr ⟨fun h => ?_, .inl (hfind.attempt.bind runs_failed)⟩
    rw [h.new] at hlookup
    cases hlookup
  | none =>
    rw [hlookup] at hfind
    by_cases hspace : V.freeClusters g = ∅
    · refine .inr ⟨fun h => ?_, .inl (hfind.attempt_fail.bind
        ((runs_fatAllocCluster_none hg hspace).bind_fail _))⟩
      have hclusters := h.clusters
      rw [hspace] at hclusters
      simp at hclusters
    obtain ⟨n, hn⟩ := View.exists_nextFree hspace
    obtain ⟨W, hW, hprepared⟩ := @exists_prepared g V n hg hn.valid isDir
    obtain ⟨hchain, hslots, hlength⟩ := hW.dirChain hV hn hg hV.root hkey
    have hslot := runs_dirFindFreeSlot hg hchain
      (fun hfixed => by rw [if_neg hfixed]; exact (hV.chain hV.root hfixed).1)
      (hlength.trans hfuel) fun s hs => (hV.slot_valid hV.root (hslots ▸ hs)).1
    rw [hslots] at hslot
    have hfull : W.Full g (rootKey g) (T.slots g (rootKey g)) ↔ LosesCluster g V T path := by
      rw [View.Full, hW.firstFree hV hn hV.root, hW.freeClusters]
      have hmem : n ∈ V.freeClusters g := View.mem_freeClusters.mpr ⟨hn.valid, hn.free⟩
      have hcard := card_erase_of_mem hmem
      have hpos := card_pos.mpr ⟨n, hmem⟩
      refine ⟨fun ⟨hnone, h⟩ => ⟨hname, hlookup, hnone, ?_⟩, fun h => ⟨h.full, ?_⟩⟩
      · split_ifs with htype
        · have hempty := h.resolve_left fun hfixed => hfixed.2 htype
          rw [hempty, card_empty] at hcard
          omega
        · exact hspace
      · by_cases htype : g.fatType = .fat32
        · have hone := h.clusters
          rw [if_pos htype] at hone
          exact .inr (card_eq_zero.mp (by omega))
        · exact .inl ⟨rootKey_fat16 htype, htype⟩
    rcases hslot with ⟨q, off, sec, W', hq, hnot, hruns⟩ | ⟨hyes, hruns⟩
    · obtain ⟨e, hfill⟩ := @runs_fill83Dirent g W' (encode83Upper (path.dropWhile (· = slashByte)))
        (if isDir then attrDirectory else attrArchive) n 0
      refine .inr ⟨fun h => hnot (hfull.mpr h), .inr ⟨n, _, hfind.attempt_fail.bind
        ((runs_fatAllocCluster hg hn).bind (hprepared (hruns.bind (hfill.bind
          ((runs_writeSector hg hq _).bind (runs_pure _))))))⟩⟩
    · exact .inl ⟨hfull.mp hyes, n, W, hn, hW, hfind.attempt_fail.bind
        ((runs_fatAllocCluster hg hn).bind (hprepared (hruns.bind_fail _)))⟩

theorem creation_meets_iff (hg : g.Sound) (hfuel : g.dataClusters ≤ fuel) (path : List Byte)
    (isDir : Bool) (d : Drive) (hd : d.Reliable) (hV : Consistent g (d.view g) T) :
    CreationMeets g fuel path isDir T d ↔ ¬ LosesCluster g (d.view g) T path := by
  rcases hV.toDirectories.runs_fatCreateRoot hg hfuel path isDir with
    ⟨hloses, n, W, hn, hW, hruns⟩ | ⟨hnot, hruns | ⟨n, W, hruns⟩⟩
  · obtain ⟨d', hrun, -, hview⟩ := hruns d hd rfl
    refine iff_of_false (fun hmeets => ?_) (not_not.mpr hloses)
    have hfat := congrFun (hmeets d' hrun).1 n
    rw [hview, hW.fat, if_pos rfl, hn.free] at hfat
    exact fatEofMark_ne_zero hfat
  · obtain ⟨d', hrun, -, hview⟩ := hruns d hd rfl
    refine iff_of_true (fun d'' hrun' => ?_) hnot
    rw [hrun] at hrun'
    cases hrun'
    rw [hview]
    exact ⟨rfl, fun _ _ _ _ => rfl⟩
  · obtain ⟨d', hrun, -⟩ := hruns d hd rfl
    refine iff_of_true (fun d'' hrun' => ?_) hnot
    rw [hrun] at hrun'
    cases hrun'

/-- A root directory with sixteen files, whose names are the letters from `A` on. -/
def fullRoot : Drive where
  sectors := fun lba =>
    if lba = 17 then
      toSector fun i =>
        if i % 32 = 0 then BitVec.ofNat 8 (0x41 + i / 32)
        else if i % 32 < 11 then spaceByte
        else if i % 32 = 11 then attrArchive else 0#8
    else zeroSector
  faults := fun _ _ => false
  clock := fun _ => 0

theorem creation_meets_existing_name :
    (fatCreateRoot smallVolume 4085 [0x41#8] false fullRoot).1 = .fail ∧
      CreationMeets smallVolume 4085 [0x41#8] false (flatTree []) fullRoot := by
  have hreliable : fullRoot.Reliable := rfl
  refine ⟨by decide +kernel, (creation_meets_iff smallVolume_sound le_rfl [0x41#8] false _ hreliable
    (consistent_of_flat (by decide) (by decide +kernel))).mpr fun h => ?_⟩
  have hfound : (fullRoot.view smallVolume).lookup smallVolume (flatTree []) (rootKey smallVolume)
      (encode83Upper [0x41#8]) = some ⟨.root 0, 0⟩ := by
    decide +kernel
  have hnew := h.new
  rw [show [0x41#8].dropWhile (· = slashByte) = [0x41#8] from rfl, hfound] at hnew
  cases hnew

lemma CreationMeets.fat_eq {d : Drive} {isDir : Bool}
    (hmeets : CreationMeets g fuel path isDir T d)
    (hfail : (fatCreateRoot g fuel path isDir d).1 = .fail) (c) :
    ((fatCreateRoot g fuel path isDir d).2.view g).fat c = (d.view g).fat c :=
  congrFun (hmeets _ (Prod.ext hfail rfl)).1 c

/-- There is no slot for a seventeenth file, and its cluster is not given back. -/
theorem full_root_loses_cluster :
    fullRoot.Reliable ∧ Consistent smallVolume (fullRoot.view smallVolume) (flatTree []) ∧
      ¬ CreationMeets smallVolume 4085 [0x51#8] false (flatTree []) fullRoot := by
  refine ⟨rfl, consistent_of_flat (by decide) (by decide +kernel), fun hmeets => ?_⟩
  have hsame := hmeets.fat_eq (by decide +kernel) 2
  cases hsame

end HelixOS.Fat
