import HelixOS.DirectoryListings
import HelixOS.FatGround
import HelixOS.FatTrees

/-!
# Removed entries

`dir_unlink_at` marks an entry and frees its chain.  `fat_unlink_path` does not look at the
kind of the entry; `fat_rmdir_path` takes a directory for empty if every entry in it looks
like `.` or `..`.
-/

namespace HelixOS.Fat

open Option List

variable {slots : List Slot} {g : Geometry} {V : View} {T : Tree} {k l fuel : ℕ} {s t : Slot}
  {want : List Byte}

/-! ## Freeing a chain -/

def View.clear (V : View) (cs : List ℕ) : View :=
  { V with fat := fun x => if x ∈ cs then 0 else V.fat x }

lemma View.clear_nil (V : View) : V.clear [] = V := by simp [View.clear]

lemma View.clear_cons (V : View) (x : ℕ) (cs : List ℕ) :
    (V.setFat x 0).clear cs = V.clear (x :: cs) := by
  simp only [View.clear, View.setFat, View.mk.injEq, and_self, and_true]
  funext y
  by_cases hy : y = x
  · simp [hy]
  · simp [hy]

lemma runs_fatFreeChain (hg : g.Sound) {cs : List ℕ} {c : ℕ} (hchain : V.Chain g c cs)
    (hfuel : cs.length ≤ fuel) : Runs g (fatFreeChain g fuel c) V (.ok ()) (V.clear cs) := by
  induction cs generalizing c fuel V with
  | nil =>
    have hout : inChain g c = false := by
      have heof : fatIsEof g c = true := hchain
      simp [inChain, heof]
    unfold fatFreeChain
    rw [hout, if_neg Bool.false_ne_true, View.clear_nil]
    exact runs_pure _
  | cons y cs ih =>
    have hnodup := hchain.nodup hg
    obtain ⟨rfl, hvalid, hrest⟩ := hchain
    obtain ⟨fuel, rfl⟩ := Nat.exists_eq_succ_of_ne_zero
      (show fuel ≠ 0 by rw [length_cons] at hfuel; omega)
    have hmask : g.mask 0 = 0 := by
      unfold Geometry.mask
      split_ifs <;> rfl
    have hput := runs_fatPut (V := V) hg hvalid 0
    rw [hmask] at hput
    unfold fatFreeChain
    rw [if_pos (hvalid.inChain hg), ← View.clear_cons]
    refine (runs_fatNext hg hvalid).bind (hput.attempt.bind (ih (hrest.congr fun z hz => ?_) ?_))
    · refine Function.update_of_ne ?_ ..
      rintro rfl
      exact (nodup_cons.mp hnodup).1 hz
    · rw [length_cons] at hfuel
      omega

/-! ## The volume without an entry -/

def View.removed (V : View) (s : Slot) (cs : List ℕ) : View :=
  (V.setSlot s (patch (V.seen s) 0 [entryDeleted])).clear cs

lemma View.removed_fat (V : View) (s : Slot) (cs : List ℕ) (c : ℕ) :
    (V.removed s cs).fat c = if c ∈ cs then 0 else V.fat c := rfl

lemma View.removed_entry (hs : s.idx < 16) (ht : t.idx < 16) (cs : List ℕ) :
    (V.removed s cs).entry t =
      if t = s then patch (V.entry s) 0 [entryDeleted] else V.entry t := by
  have hcut : cut (patch (V.seen s) 0 [entryDeleted]) = patch (V.entry s) 0 [entryDeleted] := by
    funext i
    by_cases hi : i = 0
    · simp [hi, cut, patch]
    · simp [cut, patch, View.entry, hi]
  rw [← hcut]
  exact View.entry_setSlot hs ht _

def View.Freed (g : Geometry) (V : View) (s : Slot) (cs : List ℕ) : Prop :=
  if 2 ≤ V.clusAt g s then V.Chain g (V.clusAt g s) cs else cs = []

lemma View.FileChain.freed {cs : List ℕ} (h : V.FileChain g s cs) : V.Freed g s cs := by
  unfold View.FileChain at h
  unfold View.Freed
  split_ifs at h with hzero
  · rw [if_neg (by omega)]
    exact h
  · have hge := (h.2.valid_start h.1).1
    rw [if_pos hge]
    exact h.2

lemma View.Freed.unique (hg : g.Sound) {cs cs' : List ℕ} (h : V.Freed g s cs)
    (h' : V.Freed g s cs') : cs = cs' := by
  unfold View.Freed at h h'
  split_ifs at h h'
  · exact h.unique hg h'
  · rw [h, h']

lemma Consistent.exists_freed (hV : Consistent g V T) (h : V.Holds g T k s) :
    ∃ cs, V.Freed g s cs := by
  cases hdir : V.isDirAt s with
  | false =>
    obtain ⟨cs, hcs, -⟩ := hV.file h hdir
    exact ⟨cs, hcs.freed⟩
  | true =>
    by_cases hge : 2 ≤ V.clusAt g s
    · have hsub := hV.sub h hdir
      rw [dirKey, if_neg (by omega)] at hsub
      refine ⟨_, (if_pos hge).mpr (hV.chain hsub fun hfixed => ?_).2⟩
      have hzero := hfixed.1
      omega
    · exact ⟨[], (if_neg hge).mpr rfl⟩

lemma runs_dirUnlinkAt (hg : g.Sound) (hV : Directories g V T) (hfuel : g.dataClusters ≤ fuel)
    (hk : T.isDir (dirKey g k)) (hs : V.lookup g T k want = some s) {cs : List ℕ}
    (hcs : V.Freed g s cs) :
    Runs g (dirUnlinkAt g fuel k want true) V (.ok ()) (V.removed s cs) := by
  obtain ⟨ds, hchain, hslots, hlength⟩ := hV.dirChain hg hk
  have hholds := View.lookup_holds hk hs
  have hscan : Runs g (scanDir (visitAnywhere want) g fuel k) V _ V :=
    runs_scanDir hg hchain (hlength.trans hfuel)
  rw [hslots, walk_anywhere hs] at hscan
  refine hscan.bind ((runs_writeSlot hg (hV.slot_valid hk hholds.slot_mem) _).bind ?_)
  have hclus : entryClus g (V.seen s) = V.clusAt g s := (entryClus_cut g _).symm
  rw [Bool.true_and, hclus]
  unfold View.Freed at hcs
  split_ifs at hcs with hge
  · rw [if_pos (by simpa using hge)]
    exact runs_fatFreeChain hg (hcs.congr fun _ _ => rfl) ((hcs.length_le hg).trans hfuel)
  · rw [if_neg (by simpa using hge), View.removed, hcs, View.clear_nil]
    exact runs_pure _

/-! ## Removing a file -/

section Files

variable {cs : List ℕ} (hs : s.idx < 16) (hlive : isLive (V.entry s) = true)

include hs hlive

lemma View.removed_used (hslots : ∀ t ∈ slots, t.idx < 16) :
    (V.removed s cs).used slots = V.used slots := by
  induction slots with
  | nil => rfl
  | cons t slots ih =>
    obtain ⟨ht, hslots⟩ := forall_mem_cons.mp hslots
    have hend : (V.removed s cs).entry t 0 = entryEnd ↔ V.entry t 0 = entryEnd := by
      rw [View.removed_entry hs ht]
      split_ifs with hts
      · rw [hts]
        exact iff_of_false (by simp [patch, entryDeleted, entryEnd]) ((isLive_iff _).mp hlive).1
      · rfl
    simp only [View.used, takeWhile_cons] at ih ⊢
    rw [ih hslots]
    refine if_congr ?_ rfl rfl
    rw [decide_eq_true_iff, decide_eq_true_iff, ne_eq, ne_eq, hend]

lemma View.removed_find (hslots : ∀ t ∈ slots, t.idx < 16) : (V.removed s cs).find slots want =
      (V.used slots).find? fun t => decide (t ≠ s) && isNamed want (V.entry t) := by
  rw [View.find, View.removed_used hs hlive hslots]
  refine find?_congr fun t ht => ?_
  rw [View.removed_entry hs (hslots t ((takeWhile_sublist _).mem ht))]
  by_cases hts : t = s
  · simp [hts, isNamed, isLive, patch, entryDeleted]
  · simp [hts]

lemma View.removed_find_other (hslots : ∀ t ∈ slots, t.idx < 16)
    (h : V.find slots want = some t) (hts : t ≠ s) : (V.removed s cs).find slots want = some t := by
  rw [View.removed_find hs hlive hslots]
  obtain ⟨hnamed, front, back, hused, hfront⟩ := find?_eq_some_iff_append.mp h
  refine find?_eq_some_iff_append.mpr ⟨by simp [hts, hnamed], front, back, hused, ?_⟩
  intro a ha
  have hno := hfront a ha
  simp [hno]

end Files

section Unlink

variable {path : List Byte} {p : ℕ × List Byte} {cs : List ℕ} (hg : g.Sound)
  (hV : Consistent g V T) (hholds : V.Holds g T k s) (hfile : V.isDirAt s = false)
  (hcs : V.FileChain g s cs)

include hV in
lemma Consistent.idx_lt (hk : T.isDir k) : ∀ t ∈ T.slots g k, t.idx < 16 :=
  fun _ ht => (hV.slot_valid hk ht).2

include hV hholds

lemma Consistent.removed_holds (h : (V.removed s cs).Holds g T l t) :
    V.Holds g T l t ∧ (V.removed s cs).entry t = V.entry t := by
  have hidx := hV.idx_lt h.isDir
  have hs := hV.idx_lt hholds.isDir s hholds.slot_mem
  obtain ⟨hk, hmem, hlive⟩ := h
  rw [View.removed_used hs hholds.live hidx] at hmem
  rw [View.removed_entry hs (hidx t ((takeWhile_sublist _).mem hmem))] at hlive ⊢
  split_ifs at hlive ⊢ with hts
  · simp [isLive, patch] at hlive
  · exact ⟨⟨hk, hmem, hlive⟩, rfl⟩

lemma Consistent.removed_lookup (hl : T.isDir (dirKey g l)) (h : V.lookup g T l want = some t)
    (hts : t ≠ s) : (V.removed s cs).lookup g T l want = some t :=
  View.removed_find_other (hV.idx_lt hholds.isDir s hholds.slot_mem) hholds.live
    (hV.idx_lt hl) h hts

lemma Consistent.removed_entry_other (hl : T.isDir l) (ht : t ∈ T.slots g l) (hts : t ≠ s) :
    (V.removed s cs).entry t = V.entry t := by
  rw [View.removed_entry (hV.idx_lt hholds.isDir s hholds.slot_mem) (hV.idx_lt hl t ht), if_neg hts]

include hfile

lemma Consistent.removed_parentOf (comps : List (List Byte)) (hl : T.isDir (dirKey g l))
    (h : V.parentOf g T l comps = some p) : (V.removed s cs).parentOf g T l comps = some p := by
  induction comps generalizing l with
  | nil => cases h
  | cons comp rest ih =>
    cases rest with
    | nil => exact h
    | cons next rest =>
      rw [View.parentOf] at h ⊢
      · cases hlookup : V.lookup g T l (encode83Upper comp) with
        | none =>
          rw [hlookup] at h
          cases h
        | some t =>
          rw [hlookup] at h
          dsimp only at h
          split_ifs at h with hdir
          have hts : t ≠ s := by
            rintro rfl
            rw [hfile] at hdir
            cases hdir
          have ht := View.lookup_holds hl hlookup
          have hentry : (V.removed s cs).entry t = V.entry t :=
            hV.removed_entry_other hholds hl ht.slot_mem hts
          rw [hV.removed_lookup hholds hl hlookup hts]
          dsimp only
          rw [View.isDirAt, hentry, View.clusAt, hentry,
            if_pos (show isDirectory (V.entry t 11) = true from hdir)]
          exact ih (hV.sub ht hdir) h
      · simp
      · simp

include hg hcs

lemma Consistent.removed_directories : Directories g (V.removed s cs) T := by
  obtain ⟨cs', hcs', hapart⟩ := hV.file hholds hfile
  obtain rfl : cs = cs' := hcs.freed.unique hg hcs'.freed
  refine ⟨hV.root, fun hk hfixed => ?_, fun h hdir => ?_⟩
  · obtain ⟨hne, hchain⟩ := hV.chain hk hfixed
    refine ⟨hne, hchain.congr fun c hc => ?_⟩
    rw [View.removed_fat, if_neg (hapart _ hk hfixed hc)]
  · obtain ⟨hold, hentry⟩ := hV.removed_holds hholds h
    rw [View.isDirAt, hentry] at hdir
    rw [View.clusAt, hentry]
    exact hV.sub hold hdir

end Unlink

/-! ## `fat_unlink_path` -/

/-- What is expected of the call: a file and its clusters are gone, and nothing else has
changed; a directory is refused. -/
structure UnlinkMeets (g : Geometry) (fuel : ℕ) (path : List Byte) (T : Tree) (d : Drive) :
    Prop where
  file : ∀ {p s cs}, (d.view g).LeadsTo g T path p s → (d.view g).isDirAt s = false →
    (d.view g).FileChain g s cs → ∃ d', fatUnlinkPath g fuel path d = (.ok (), d') ∧
      (fatResolve g fuel path d').1 = .fail ∧
      (∀ c, (d'.view g).fat c = if c ∈ cs then 0 else (d.view g).fat c) ∧
      ∀ t : Slot, t.idx < 16 → t ≠ s → (d'.view g).entry t = (d.view g).entry t
  directory : ∀ {p s}, (d.view g).LeadsTo g T path p s → (d.view g).isDirAt s = true →
    ∃ d', fatUnlinkPath g fuel path d = (.fail, d') ∧ d'.sectors = d.sectors

/-- The path leads to no directory, and to no file whose name another entry of its directory
has as well. -/
def Unlinkable (g : Geometry) (V : View) (T : Tree) (path : List Byte) : Prop :=
  ∀ {p s}, V.LeadsTo g T path p s → V.isDirAt s = false ∧
    ∀ t, V.Holds g T (dirKey g p.1) t → entryName (V.entry t) = p.2 → t = s

lemma View.LeadsTo.runs_fatUnlinkPath (hg : g.Sound) (hV : Directories g V T)
    (hfuel : g.dataClusters ≤ fuel) {path : List Byte} {p : ℕ × List Byte} {cs : List ℕ}
    (h : V.LeadsTo g T path p s) (hcs : V.Freed g s cs) :
    Runs g (fatUnlinkPath g fuel path) V (.ok ()) (V.removed s cs) := by
  have hparent := hV.runs_fatResolveParent hg hfuel path
  rw [h.1] at hparent
  rw [fatUnlinkPath, if_pos hg.writable]
  exact hparent.bind (runs_dirUnlinkAt hg hV hfuel (h.isDir hV) h.2 hcs)

/-- After the removal of a file its path leads to another entry of the same name, or nowhere. -/
theorem View.LeadsTo.resolve_removed (hg : g.Sound) (hV : Consistent g V T)
    (hfuel : g.dataClusters ≤ fuel) {path : List Byte} {p : ℕ × List Byte} {cs : List ℕ}
    (h : V.LeadsTo g T path p s) (hfile : V.isDirAt s = false) (hcs : V.FileChain g s cs) :
    Runs g (fatResolve g fuel path) (V.removed s cs)
      (metaOutcome g (V.removed s cs) ((V.used (T.slots g (dirKey g p.1))).find? fun t =>
        decide (t ≠ s) && isNamed p.2 (V.entry t))) (V.removed s cs) := by
  have hdirs := hV.toDirectories
  have hholds := h.holds hdirs
  have hruns := (hV.removed_directories hg hholds hfile hcs).runs_fatResolve hg hfuel path
  rw [hV.removed_parentOf hholds hfile _ hdirs.rootKey_isDir h.1, bind_some,
    View.lookup, View.removed_find (hV.idx_lt hholds.isDir s hholds.slot_mem) hholds.live
      (hV.idx_lt hholds.isDir)] at hruns
  exact hruns

theorem unlink_meets_iff (hg : g.Sound) (hfuel : g.dataClusters ≤ fuel) (path : List Byte)
    (d : Drive) (hd : d.Reliable) (hV : Consistent g (d.view g) T) :
    UnlinkMeets g fuel path T d ↔ Unlinkable g (d.view g) T path := by
  have hdirs := hV.toDirectories
  constructor
  · intro hmeets p s h
    have hholds := h.holds hdirs
    cases hdir : (d.view g).isDirAt s with
    | true =>
      obtain ⟨cs, hcs⟩ := hV.exists_freed hholds
      obtain ⟨d', hrun, -⟩ := h.runs_fatUnlinkPath hg hdirs hfuel hcs d hd rfl
      obtain ⟨d'', hrefused, -⟩ := hmeets.directory h hdir
      rw [hrun] at hrefused
      cases hrefused
    | false =>
      obtain ⟨cs, hcs, -⟩ := hV.file hholds hdir
      obtain ⟨d', hrun, hd', hview⟩ := h.runs_fatUnlinkPath hg hdirs hfuel hcs.freed d hd rfl
      obtain ⟨d'', hrun', hresolve, -⟩ := hmeets.file h hdir hcs
      obtain rfl : d' = d'' := congrArg Prod.snd (hrun.symm.trans hrun')
      obtain ⟨d'', hfound, -⟩ := h.resolve_removed hg hV hfuel hdir hcs d' hd' hview
      rw [hfound] at hresolve
      refine ⟨rfl, fun t ht hname => ?_⟩
      by_contra hts
      have hnamed : isNamed p.2 ((d.view g).entry t) = true :=
        (isNamed_iff _ _).mpr ⟨ht.live, hname⟩
      cases hfind : ((d.view g).used (T.slots g (dirKey g p.1))).find? fun t =>
          decide (t ≠ s) && isNamed p.2 ((d.view g).entry t) with
      | none =>
        have hno := find?_eq_none.mp hfind t ht.mem
        simp [hts, hnamed] at hno
      | some u =>
        rw [hfind] at hresolve
        cases hresolve
  · intro hsafe
    refine ⟨fun {p s cs} h hdir hcs => ?_, fun h hdir => ?_⟩
    · have hholds := h.holds hdirs
      obtain ⟨d', hrun, hd', hview⟩ := h.runs_fatUnlinkPath hg hdirs hfuel hcs.freed d hd rfl
      obtain ⟨d'', hfound, -⟩ := h.resolve_removed hg hV hfuel hdir hcs d' hd' hview
      have hnone : (((d.view g).used (T.slots g (dirKey g p.1))).find? fun t =>
          decide (t ≠ s) && isNamed p.2 ((d.view g).entry t)) = none := by
        refine find?_eq_none.mpr fun t ht hnamed => ?_
        simp only [Bool.and_eq_true, decide_eq_true_eq] at hnamed
        obtain ⟨hlive, hname⟩ := (isNamed_iff _ _).mp hnamed.2
        exact hnamed.1 ((hsafe h).2 t ⟨hholds.isDir, ht, hlive⟩ hname)
      rw [hnone] at hfound
      refine ⟨d', hrun, by rw [hfound]; rfl, fun c => ?_, fun t ht hts => ?_⟩
      · rw [hview]
        rfl
      · rw [hview, View.removed_entry (hV.idx_lt hholds.isDir s hholds.slot_mem) ht, if_neg hts]
    · rw [(hsafe h).1] at hdir
      cases hdir

def drive {α : Type} (x : FatM α) : Drive :=
  { (x (emptyDrive fun _ _ => false)).2 with faults := fun _ _ => false }

lemma drive_reliable {α : Type} (x : FatM α) : (drive x).Reliable := rfl

def namedD : List Byte := [0x44#8]
def namedF : List Byte := [0x46#8]

lemma newFile_leadsTo :
    ((drive (fatCreateRoot smallVolume 4085 namedF false)).view smallVolume).LeadsTo smallVolume
      (flatTree []) namedF (0, encode83Upper namedF) ⟨.root 0, 0⟩ :=
  ⟨by decide +kernel, by decide +kernel⟩

theorem unlink_meets_new_file :
    UnlinkMeets smallVolume 4085 namedF (flatTree [])
      (drive (fatCreateRoot smallVolume 4085 namedF false)) := by
  refine (unlink_meets_iff smallVolume_sound le_rfl namedF _ (drive_reliable _)
    (consistent_of_flat (by decide) (by decide +kernel))).mpr fun {p s} h => ?_
  obtain rfl : p = _ := some.inj (h.1.symm.trans newFile_leadsTo.1)
  obtain rfl := h.unique newFile_leadsTo
  refine ⟨by decide +kernel, fun t ht _ => ?_⟩
  have hmem := ht.mem
  exact mem_singleton.mp hmem

/-- The directory that `mkdir` has made is removed as well. -/
theorem unlink_removes_directory : (drive (fatMkdirRw smallVolume 4085 namedD)).Reliable ∧
      Consistent smallVolume ((drive (fatMkdirRw smallVolume 4085 namedD)).view smallVolume)
        (flatTree [2]) ∧
      ¬ UnlinkMeets smallVolume 4085 namedD (flatTree [2])
        (drive (fatMkdirRw smallVolume 4085 namedD)) := by
  refine ⟨rfl, consistent_of_flat (by decide) (by decide +kernel), fun hmeets => ?_⟩
  have hok : (fatUnlinkPath smallVolume 4085 namedD
      (drive (fatMkdirRw smallVolume 4085 namedD))).1 = .ok () := by decide +kernel
  obtain ⟨d', hrefused, -⟩ := hmeets.directory (p := (0, encode83Upper namedD))
    (s := ⟨.root 0, 0⟩) ⟨by decide +kernel, by decide +kernel⟩ (by decide +kernel)
  rw [hrefused] at hok
  cases hok

/-! ## `fat_rmdir_path` -/

/-- `dir_is_empty` takes such an entry for `.` or `..`. -/
def looksDot (e : Bytes) : Bool := e 0 = dotByte && (e 1 = spaceByte || e 1 = dotByte)

lemma visitRemaining_eq (e : Bytes) :
    visitRemaining e =
      if e 0 = entryEnd then .stop
      else if isLive e = true ∧ looksDot e = false then .hit () else .next := by
  have hlooks : looksDot e = decide (e 0 = dotByte ∧ (e 1 = spaceByte ∨ e 1 = dotByte)) := by
    simp [looksDot]
  rw [visitRemaining]
  by_cases hend : e 0 = entryEnd
  · rw [if_pos hend, if_pos hend]
  rw [if_neg hend, if_neg hend]
  by_cases hskip : e 0 = entryDeleted ∨ e 11 = attrLongName
  · rw [if_pos hskip, if_neg]
    rintro ⟨hlive, -⟩
    obtain ⟨-, hdeleted, hlong⟩ := (isLive_iff e).mp hlive
    exact hskip.elim hdeleted hlong
  rw [if_neg hskip]
  obtain ⟨hdeleted, hlong⟩ := not_or.mp hskip
  by_cases hdot : e 0 = dotByte ∧ (e 1 = spaceByte ∨ e 1 = dotByte)
  · rw [if_pos hdot, if_neg]
    rintro ⟨-, hno⟩
    rw [hlooks, decide_eq_false_iff_not] at hno
    exact hno hdot
  · rw [if_neg hdot, if_pos]
    exact ⟨(isLive_iff e).mpr ⟨hend, hdeleted, hlong⟩, by rw [hlooks]; exact decide_eq_false hdot⟩

lemma walk_remaining (V) (slots) : (∃ b, walkSlots visitRemaining V slots = .hit b) ↔
      ∃ t ∈ V.used slots, isLive (V.entry t) = true ∧ looksDot (V.entry t) = false := by
  induction slots with
  | nil => simp [walkSlots, View.used]
  | cons a slots ih =>
    rw [walkSlots, visitRemaining_eq, View.used_cons]
    by_cases hend : V.seen a 0 = entryEnd
    · simp [hend]
    by_cases hhit : isLive (V.seen a) = true ∧ looksDot (V.seen a) = false
    · rw [if_neg hend, if_pos hhit, if_neg hend]
      refine iff_of_true ⟨(a, ()), rfl⟩ ⟨a, mem_cons_self, ?_⟩
      exact hhit
    · rw [if_neg hend, if_neg hhit, if_neg hend, ih]
      simp only [mem_cons, exists_eq_or_imp]
      exact ⟨Or.inr, fun h => h.resolve_left hhit⟩

def View.OwnDot (V : View) (k : ℕ) (t : Slot) : Prop :=
  t = ⟨.data k 0, 0⟩ ∧ entryName (V.entry t) = padded 11 [dotByte] ∨
    t = ⟨.data k 0, 1⟩ ∧ entryName (V.entry t) = padded 11 [dotByte, dotByte]

def View.OnlyDots (g : Geometry) (V : View) (T : Tree) (c : ℕ) : Prop :=
  ∀ t, V.Holds g T (dirKey g c) t → V.OwnDot (dirKey g c) t

def View.LooksEmpty (g : Geometry) (V : View) (T : Tree) (c : ℕ) : Prop :=
  c = 0 ∧ g.fatType = .fat32 ∨ ∀ t, V.Holds g T (dirKey g c) t → looksDot (V.entry t) = true

lemma Directories.runs_dirIsEmpty (hg : g.Sound) (hV : Directories g V T)
    (hfuel : g.dataClusters ≤ fuel) {c : ℕ} (hc : T.isDir (dirKey g c)) :
    ∃ b, Runs g (dirIsEmpty g fuel c) V (.ok b) V ∧ (b = true ↔ V.LooksEmpty g T c) := by
  by_cases hnone : c = 0 ∧ g.fatType = .fat32
  · -- the loop starts outside of every chain
    obtain ⟨rfl, htype⟩ := hnone
    have hscan : Runs g (scanChain visitRemaining g fuel 0 0) V (.ok (.ended 0)) V := by
      unfold scanChain
      exact runs_pure _
    refine ⟨true, ?_, iff_of_true rfl (Or.inl ⟨rfl, htype⟩)⟩
    rw [dirIsEmpty, if_neg (by simp [htype])]
    exact hscan.attempt.bind (runs_pure _)
  · obtain ⟨cs, hchain, hslots, hlength⟩ := hV.dirChain hg hc
    have hscan : Runs g (scanDir visitRemaining g fuel c) V _ V :=
      runs_scanDir hg hchain (hlength.trans hfuel)
    have hsame : scanDir visitRemaining g fuel c =
        if c = 0 ∧ g.fatType ≠ .fat32 then scanSectors visitRemaining g.rootSectors g.rootLba
        else scanChain visitRemaining g fuel c 0 := by
      rw [scanDir]
      by_cases hzero : c = 0
      · rw [if_pos ⟨hzero, fun h => hnone ⟨hzero, h⟩⟩, if_pos ⟨hzero, fun h => hnone ⟨hzero, h⟩⟩]
      · have hskip : ¬ (c = 0 ∧ g.fatType ≠ .fat32) := fun h => hzero h.1
        rw [if_neg hskip, if_neg hskip, chainStart, if_pos hzero]
    have hempty : V.LooksEmpty g T c ↔
        ∀ b, walkSlots visitRemaining V (T.slots g (dirKey g c)) ≠ .hit b := by
      rw [View.LooksEmpty, or_iff_right hnone, ← not_exists, walk_remaining]
      constructor
      · rintro hall ⟨t, ht, hlive, hno⟩
        rw [hall t ⟨hc, ht, hlive⟩] at hno
        cases hno
      · intro hnot t ht
        by_contra hno
        exact hnot ⟨t, ht.mem, ht.live, by simpa using hno⟩
    rw [hslots, hsame] at hscan
    rw [hempty, dirIsEmpty]
    cases hwalk : walkSlots visitRemaining V (T.slots g (dirKey g c)) with
    | hit b =>
      rw [hwalk] at hscan
      exact ⟨false, hscan.attempt.bind (runs_pure _), iff_of_false Bool.false_ne_true
        fun h => h b rfl⟩
    | next =>
      rw [hwalk] at hscan
      exact ⟨true, hscan.attempt.bind (runs_pure _), iff_of_true rfl fun b h => by cases h⟩
    | stop =>
      rw [hwalk] at hscan
      exact ⟨true, hscan.attempt.bind (runs_pure _), iff_of_true rfl fun b h => by cases h⟩

/-- What is expected if the call succeeds: the path leads to a directory without entries of
its own, and the entry that the path leads to is gone. -/
def RmdirMeets (g : Geometry) (fuel : ℕ) (path : List Byte) (T : Tree) (d : Drive) : Prop :=
  ∀ d', fatRmdirPath g fuel path d = (.ok (), d') →
    ∃ p s, (d.view g).LeadsTo g T path p s ∧ (d.view g).isDirAt s = true ∧
      (d.view g).OnlyDots g T ((d.view g).clusAt g s) ∧
      (d'.view g).entry s = patch ((d.view g).entry s) 0 [entryDeleted] ∧
      ∀ t : Slot, t.idx < 16 → t ≠ s → (d'.view g).entry t = (d.view g).entry t

/-- A directory in which every entry looks like `.` or `..` has no entries but these. -/
def NoFalseDots (g : Geometry) (V : View) (T : Tree) (path : List Byte) : Prop :=
  ∀ p s, V.LeadsTo g T path p s → V.isDirAt s = true → V.LooksEmpty g T (V.clusAt g s) →
    V.OnlyDots g T (V.clusAt g s)

lemma Consistent.runs_fatRmdirPath (hg : g.Sound) (hV : Consistent g V T)
    (hfuel : g.dataClusters ≤ fuel) (path : List Byte) :
    (∃ p s cs, V.LeadsTo g T path p s ∧ V.isDirAt s = true ∧
        V.LooksEmpty g T (V.clusAt g s) ∧
        Runs g (fatRmdirPath g fuel path) V (.ok ()) (V.removed s cs)) ∨
      (∀ p s, V.LeadsTo g T path p s → V.isDirAt s = true →
        ¬ V.LooksEmpty g T (V.clusAt g s)) ∧
      Runs g (fatRmdirPath g fuel path) V .fail V := by
  have hdirs := hV.toDirectories
  have hwritable : (!fatWritableType g) = false := by simp [hg.writable]
  rw [fatRmdirPath, hwritable, if_neg Bool.false_ne_true]
  by_cases hleads : ∃ p s, V.LeadsTo g T path p s
  · obtain ⟨p, s, h⟩ := hleads
    have hresolve := h.runs_fatResolve hg hdirs hfuel
    have hattr : isDirectory (entryMeta g (V.entry s)).attr = V.isDirAt s := rfl
    cases hdir : V.isDirAt s with
    | false =>
      refine Or.inr ⟨fun p' s' h' hdir' => ?_, hresolve.bind ?_⟩
      · rw [h'.unique h, hdir] at hdir'
        cases hdir'
      · rw [hattr, hdir]
        exact runs_failed
    | true =>
      obtain ⟨b, hempty, hb⟩ := hdirs.runs_dirIsEmpty hg hfuel (hdirs.sub (h.holds hdirs) hdir)
      cases b with
      | true =>
        obtain ⟨cs, hcs⟩ := hV.exists_freed (h.holds hdirs)
        have hparent := hdirs.runs_fatResolveParent hg hfuel path
        rw [h.1] at hparent
        refine Or.inl ⟨p, s, cs, h, hdir, hb.mp rfl, hresolve.bind ?_⟩
        rw [hattr, hdir]
        exact hempty.bind (hparent.bind (runs_dirUnlinkAt hg hdirs hfuel (h.isDir hdirs) h.2 hcs))
      | false =>
        refine Or.inr ⟨fun p' s' h' _ hlooks => ?_, hresolve.bind ?_⟩
        · rw [h'.unique h] at hlooks
          exact Bool.false_ne_true (hb.mpr hlooks)
        · rw [hattr, hdir]
          exact hempty.bind runs_failed
  · refine Or.inr ⟨fun p s h => absurd ⟨p, s, h⟩ hleads, ?_⟩
    have hresolve := hdirs.runs_fatResolve hg hfuel path
    cases hp : V.parentOf g T (rootKey g) (components path) with
    | none =>
      rw [hp] at hresolve
      exact hresolve.bind_fail _
    | some p =>
      rw [hp, bind_some] at hresolve
      cases hs : V.lookup g T p.1 p.2 with
      | none =>
        rw [hs] at hresolve
        exact hresolve.bind_fail _
      | some s => exact absurd ⟨p, s, hp, hs⟩ hleads

theorem rmdir_meets_iff (hg : g.Sound) (hfuel : g.dataClusters ≤ fuel) (path : List Byte)
    (d : Drive) (hd : d.Reliable) (hV : Consistent g (d.view g) T) :
    RmdirMeets g fuel path T d ↔ NoFalseDots g (d.view g) T path := by
  have hdirs := hV.toDirectories
  rcases hV.runs_fatRmdirPath hg hfuel path with ⟨p, s, cs, h, hdir, hlooks, hruns⟩ | ⟨hnot, hruns⟩
  · obtain ⟨d', hrun, -, hview⟩ := hruns d hd rfl
    have hidx := hV.idx_lt (h.isDir hdirs) s (h.holds hdirs).slot_mem
    constructor
    · intro hmeets p' s' h' _ _
      obtain ⟨q, t, ht, -, hdots, -⟩ := hmeets d' hrun
      rw [h'.unique h, ← ht.unique h]
      exact hdots
    · intro hno d'' hrun'
      obtain rfl : d' = d'' := congrArg Prod.snd (hrun.symm.trans hrun')
      refine ⟨p, s, h, hdir, hno p s h hdir hlooks, ?_, fun t ht hts => ?_⟩
      · rw [hview, View.removed_entry hidx hidx, if_pos rfl]
      · rw [hview, View.removed_entry hidx ht, if_neg hts]
  · obtain ⟨d', hrun, -⟩ := hruns d hd rfl
    refine iff_of_true (fun d'' hrun' => ?_)
      fun p s h hdir hlooks => absurd hlooks (hnot p s h hdir)
    rw [hrun] at hrun'
    cases hrun'

theorem rmdir_meets_new_directory :
    RmdirMeets smallVolume 4085 namedD (flatTree [2])
      (drive (fatMkdirRw smallVolume 4085 namedD)) := by
  have hleads : (drive (fatMkdirRw smallVolume 4085 namedD)).view smallVolume |>.LeadsTo
      smallVolume (flatTree [2]) namedD (0, encode83Upper namedD) ⟨.root 0, 0⟩ :=
    ⟨by decide +kernel, by decide +kernel⟩
  refine (rmdir_meets_iff smallVolume_sound le_rfl namedD _ (drive_reliable _)
    (consistent_of_flat (by decide) (by decide +kernel))).mpr fun p s h _ _ t ht => ?_
  obtain rfl := h.unique hleads
  have hclus : ((drive (fatMkdirRw smallVolume 4085 namedD)).view smallVolume).clusAt smallVolume
      ⟨.root 0, 0⟩ = 2 := by decide +kernel
  have hmem := ht.mem
  rcases mem_pair.mp hmem with rfl | rfl
  · exact Or.inl ⟨rfl, by decide +kernel⟩
  · exact Or.inr ⟨rfl, by decide +kernel⟩

/-- A file `F` is moved into the directory `D` and gets the name `..X`, whose short form is a
dot, seven spaces and `X`. -/
def disguise : FatM Unit := do
  fatMkdirRw smallVolume 4085 namedD
  let _ ← fatCreateRoot smallVolume 4085 namedF false
  fatRenamePath smallVolume 4085 namedF (namedD ++ [slashByte, dotByte, dotByte, 0x58#8])

lemma not_rmdirMeets {path : List Byte} {d : Drive} {p : ℕ × List Byte}
    (hok : (fatRmdirPath g fuel path d).1 = .ok ()) (h : (d.view g).LeadsTo g T path p s)
    (ht : (d.view g).Holds g T (dirKey g ((d.view g).clusAt g s)) t)
    (hown : ∀ k, t ≠ ⟨.data k 0, 0⟩ ∧ t ≠ ⟨.data k 0, 1⟩) : ¬ RmdirMeets g fuel path T d := by
  intro hmeets
  obtain ⟨p', s', h', -, hdots, -⟩ := hmeets (fatRmdirPath g fuel path d).2 (Prod.ext hok rfl)
  rw [h'.unique h] at hdots
  rcases hdots t ht with ⟨hslot, -⟩ | ⟨hslot, -⟩
  · exact (hown _).1 hslot
  · exact (hown _).2 hslot

/-- The directory is removed although the file is in it. -/
theorem rmdir_removes_disguised_file :
    (disguise (emptyDrive fun _ _ => false)).1 = .ok () ∧ (drive disguise).Reliable ∧
      Consistent smallVolume ((drive disguise).view smallVolume) (flatTree [2]) ∧
      ¬ RmdirMeets smallVolume 4085 namedD (flatTree [2]) (drive disguise) := by
  have hclus : ((drive disguise).view smallVolume).clusAt smallVolume ⟨.root 0, 0⟩ = 2 := by
    decide +kernel
  refine ⟨by decide +kernel, drive_reliable _,
    consistent_of_flat (by decide) (by decide +kernel), ?_⟩
  refine not_rmdirMeets (p := (0, encode83Upper namedD)) (s := ⟨.root 0, 0⟩) (t := ⟨.data 2 0, 2⟩)
    (by decide +kernel) ⟨by decide +kernel, by decide +kernel⟩ ?_ (by simp)
  rw [hclus]
  exact ⟨Or.inr (by decide), by decide +kernel, by decide +kernel⟩

end HelixOS.Fat
