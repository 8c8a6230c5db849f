import HelixOS.FatChains

/-!
# Directories as slots

A directory is a list of slots, each with an entry of 32 bytes.  The loops of the driver
over a directory are loops over its slots.
-/

namespace HelixOS.Fat

open List

variable {e : Bytes} {i : ℕ}

structure Slot where
  place : Place
  idx : ℕ
  deriving DecidableEq

variable {g : Geometry} {V : View} {β : Type} {visit : Bytes → Verdict β}

def placeSlots (p : Place) : List Slot := (List.range 16).map (Slot.mk p)

def View.seen (V : View) (s : Slot) : Bytes := entryAt (V.sector s.place) (32 * s.idx)

def walkSlots (visit : Bytes → Verdict β) (V : View) : List Slot → Verdict (Slot × β)
  | [] => .next
  | s :: slots =>
    match visit (V.seen s) with
    | .next => walkSlots visit V slots
    | .stop => .stop
    | .hit b => .hit (s, b)

def Verdict.walk (g : Geometry) (V : View) (last : ℕ) : Verdict (Slot × β) → Walk β
  | .next => .ended last
  | .stop => .stopped
  | .hit (s, b) => .found (g.lba s.place) (32 * s.idx) (V.sector s.place) b

lemma walkSlots_append (l r : List Slot) :
    walkSlots visit V (l ++ r) =
      match walkSlots visit V l with
      | .next => walkSlots visit V r
      | .stop => .stop
      | .hit b => .hit b := by
  induction l with
  | nil => rfl
  | cons s l ih =>
    rw [cons_append, walkSlots, walkSlots]
    cases visit (V.seen s) with
    | next => exact ih
    | stop => rfl
    | hit b => rfl

/-! ## The loops of the driver -/

lemma scanEntries_eq (p : Place) {n k : ℕ} (hn : k + n = 16) :
    scanEntries visit (V.sector p) n (32 * k) =
      match walkSlots visit V ((placeSlots p).drop k) with
      | .next => .next
      | .stop => .stop
      | .hit (s, b) => .hit (32 * s.idx, b) := by
  have hlength : (placeSlots p).length = 16 := by
    rw [placeSlots, length_map, length_range]
  induction n generalizing k with
  | zero =>
    rw [drop_eq_nil_of_le (by omega)]
    rfl
  | succ n ih =>
    have hslot : (placeSlots p).drop k = ⟨p, k⟩ :: (placeSlots p).drop (k + 1) := by
      rw [drop_eq_getElem_cons (by omega)]
      simp only [placeSlots, getElem_map, getElem_range]
    rw [hslot, scanEntries, walkSlots]
    simp only [View.seen]
    cases visit (entryAt (V.sector p) (32 * k)) with
    | next => exact ih (k := k + 1) (by omega)
    | stop => rfl
    | hit b => rfl

lemma walkSlots_hit {slots : List Slot} {s : Slot} {b : β}
    (h : walkSlots visit V slots = .hit (s, b)) : s ∈ slots ∧ visit (V.seen s) = .hit b := by
  induction slots with
  | nil => cases h
  | cons t slots ih =>
    rw [walkSlots] at h
    cases hvisit : visit (V.seen t) with
    | next =>
      rw [hvisit] at h
      exact ⟨mem_cons_of_mem _ (ih h).1, (ih h).2⟩
    | stop =>
      rw [hvisit] at h
      cases h
    | hit b' =>
      rw [hvisit] at h
      cases h
      exact ⟨mem_cons_self, hvisit⟩

lemma runs_scanSectors (hg : g.Sound) {place : ℕ → Place} {lba : ℕ}
    (hplace : ∀ i, g.lba (place i) = lba + i) (n k : ℕ)
    (hvalid : ∀ i, i < k + n → g.ValidPlace (place i)) :
    Runs g (scanSectors visit n (lba + k)) V
      (.ok ((walkSlots visit V
        (((List.range' k n).map place).flatMap placeSlots)).walk g V 0)) V := by
  induction n generalizing k with
  | zero => exact runs_pure _
  | succ n ih =>
    have hhere := hvalid k (by omega)
    have hread : Runs g (readSector (u32 (lba + k))) V (.ok (V.sector (place k))) V := by
      rw [← hplace k, u32_of_lt (hg.lba_lt hhere)]
      exact runs_readSector hhere
    rw [range'_succ, map_cons, flatMap_cons, walkSlots_append, scanSectors]
    refine hread.bind ?_
    have hscan := @scanEntries_eq V β visit (place k) 16 0 rfl
    rw [Nat.mul_zero, drop_zero] at hscan
    rw [hscan]
    rcases hwalk : walkSlots visit V (placeSlots (place k)) with _ | _ | ⟨s, b⟩
    · exact ih (k + 1) fun i hi => hvalid i (by omega)
    · exact runs_pure _
    · obtain ⟨hmem, -⟩ := walkSlots_hit hwalk
      obtain ⟨i, -, rfl⟩ := mem_map.mp hmem
      rw [← hplace k, u32_of_lt (hg.lba_lt hhere)]
      exact runs_pure _

def clusterSlots (g : Geometry) (c : ℕ) : List Slot :=
  ((List.range' 0 g.secPerClus).map (Place.data c)).flatMap placeSlots

def chainSlots (g : Geometry) (cs : List ℕ) : List Slot := cs.flatMap (clusterSlots g)

def rootSlots (g : Geometry) : List Slot :=
  ((List.range' 0 g.rootSectors).map Place.root).flatMap placeSlots

def dirSlots (g : Geometry) (dir : ℕ) (cs : List ℕ) : List Slot :=
  if FixedRoot g dir then rootSlots g else chainSlots g cs

def View.DirChain (g : Geometry) (V : View) (dir : ℕ) (cs : List ℕ) : Prop :=
  if FixedRoot g dir then cs = [] else V.Chain g (chainStart g dir) cs

lemma runs_scanCluster (hg : g.Sound) {c : ℕ} (hc : g.Valid c) :
    Runs g (scanSectors visit g.secPerClus (clusToLba g c)) V
      (.ok ((walkSlots visit V (clusterSlots g c)).walk g V 0)) V := by
  have hscan := @runs_scanSectors g V β visit hg (Place.data c) (clusToLba g c)
    (fun i => (lba_sector hg hc i).symm) g.secPerClus 0 fun i hi => hc.place (by omega)
  rw [Nat.add_zero] at hscan
  exact hscan

lemma runs_scanChain (hg : g.Sound) {cs : List ℕ} {c fuel prev : ℕ} (hchain : V.Chain g c cs)
    (hfuel : cs.length ≤ fuel) :
    Runs g (scanChain visit g fuel c prev) V
      (.ok ((walkSlots visit V (chainSlots g cs)).walk g V (cs.getLastD prev))) V := by
  induction cs generalizing c fuel prev with
  | nil =>
    have hout : inChain g c = false := by
      have heof : fatIsEof g c = true := hchain
      simp [inChain, heof]
    unfold scanChain
    rw [hout, if_neg Bool.false_ne_true]
    exact runs_pure _
  | cons x cs ih =>
    obtain ⟨rfl, hvalid, hrest⟩ := hchain
    obtain ⟨fuel, rfl⟩ := Nat.exists_eq_succ_of_ne_zero
      (show fuel ≠ 0 by rw [length_cons] at hfuel; omega)
    unfold scanChain
    rw [if_pos (hvalid.inChain hg), chainSlots, flatMap_cons, walkSlots_append]
    refine (runs_scanCluster hg hvalid).bind ?_
    rcases hwalk : walkSlots visit V (clusterSlots g x) with _ | _ | ⟨s, b⟩
    · refine (runs_fatNext hg hvalid).bind ?_
      rw [getLastD_cons]
      exact ih hrest (by rw [length_cons] at hfuel; omega)
    · exact runs_pure _
    · exact runs_pure _

lemma runs_scanDir (hg : g.Sound) {dir fuel : ℕ} {cs : List ℕ} (hchain : V.DirChain g dir cs)
    (hfuel : cs.length ≤ fuel) :
    Runs g (scanDir visit g fuel dir) V
      (.ok ((walkSlots visit V (dirSlots g dir cs)).walk g V (cs.getLastD 0))) V := by
  rw [View.DirChain] at hchain
  rw [scanDir, dirSlots]
  by_cases hroot : FixedRoot g dir
  · rw [if_pos hroot] at hchain ⊢
    rw [if_pos (show dir = 0 ∧ g.fatType ≠ .fat32 from hroot), hchain]
    have hscan := @runs_scanSectors g V β visit hg Place.root g.rootLba (fun _ => rfl)
      g.rootSectors 0 fun i hi => show i < g.rootSectors by omega
    exact hscan
  · rw [if_neg hroot] at hchain ⊢
    rw [if_neg (show ¬ (dir = 0 ∧ g.fatType ≠ .fat32) from hroot)]
    exact runs_scanChain hg hchain hfuel

/-! ## Entries -/

def cut (e : Bytes) : Bytes := fun i => if i < 32 then e i else 0#8

def View.entry (V : View) (s : Slot) : Bytes := cut (V.seen s)

def isLive (e : Bytes) : Bool := e 0 ≠ entryEnd && e 0 ≠ entryDeleted && e 11 ≠ attrLongName

lemma cut_apply (e) (hi : i < 32) : cut e i = e i := if_pos hi

lemma le16_cut (e) (hi : i + 1 < 32) : le16 (cut e) i = le16 e i := by
  rw [le16, le16, cut_apply e (by omega), cut_apply e hi]

@[simp] lemma entryClus_cut (g : Geometry) (e : Bytes) : entryClus g (cut e) = entryClus g e := by
  rw [entryClus, entryClus, le16_cut e (by omega), le16_cut e (by omega)]

@[simp] lemma entryMeta_cut (g : Geometry) (e : Bytes) : entryMeta g (cut e) = entryMeta g e := by
  rfl

def isNamed (want : List Byte) (e : Bytes) : Bool := isLive e && entryName e = want

@[simp] lemma isNamed_cut (want : List Byte) (e : Bytes) :
    isNamed want (cut e) = isNamed want e := rfl

def View.used (V : View) (slots : List Slot) : List Slot :=
  slots.takeWhile fun s => V.entry s 0 ≠ entryEnd

def View.find (V : View) (slots : List Slot) (want : List Byte) : Option Slot :=
  (V.used slots).find? fun s => isNamed want (V.entry s)

section Lookup

variable {slots : List Slot} {s : Slot} {want : List Byte}

lemma isLive_iff (e) :
    isLive e = true ↔ e 0 ≠ entryEnd ∧ e 0 ≠ entryDeleted ∧ e 11 ≠ attrLongName := by
  simp [isLive, and_assoc]

lemma isNamed_iff (want : List Byte) (e) :
    isNamed want e = true ↔ isLive e = true ∧ entryName e = want := by
  simp [isNamed]

lemma View.used_cons (V : View) (t : Slot) (slots : List Slot) :
    V.used (t :: slots) = if V.seen t 0 = entryEnd then [] else t :: V.used slots := by
  have hcut : V.entry t 0 = V.seen t 0 := cut_apply _ (by omega)
  rw [View.used, takeWhile_cons, hcut]
  by_cases hend : V.seen t 0 = entryEnd
  · simp [hend]
  · simp [hend, View.used]

lemma View.find_some (h : V.find slots want = some s) :
    s ∈ V.used slots ∧ isNamed want (V.entry s) = true :=
  ⟨mem_of_find?_eq_some h, find?_some (p := fun s => isNamed want (V.entry s)) h⟩

/-- At an entry with the name the loop of `find_in_dir` ends; elsewhere it goes on, or ends at
an end mark. -/
theorem visitNamed_cases (want : List Byte) (value : Bytes → β) (e) :
    isNamed want e = true ∧ visitNamed want value e = .hit (value e) ∨
      isNamed want e = false ∧ e 0 ≠ entryEnd ∧ visitNamed want value e = .next ∨
      isNamed want e = false ∧ e 0 = entryEnd ∧ visitNamed want value e = .stop := by
  unfold visitNamed isNamed isLive
  by_cases hend : e 0 = entryEnd
  · simp [hend]
  by_cases hdeleted : e 0 = entryDeleted
  · simp [hdeleted, show entryDeleted ≠ entryEnd by decide]
  by_cases hlong : e 11 = attrLongName
  · simp [hlong, hend]
  by_cases hname : entryName e = want <;> simp [hend, hdeleted, hlong, hname]

lemma walk_named (V : View) (slots : List Slot) (want : List Byte) (value : Bytes → β) :
    (∃ s, V.find slots want = some s ∧
        walkSlots (visitNamed want value) V slots = .hit (s, value (V.seen s))) ∨
      V.find slots want = none ∧ ∀ b, walkSlots (visitNamed want value) V slots ≠ .hit b := by
  induction slots with
  | nil => exact Or.inr ⟨rfl, fun b h => by cases h⟩
  | cons t slots ih =>
    rw [View.find, View.used_cons, walkSlots]
    rcases visitNamed_cases want value (V.seen t) with ⟨hhit, hvisit⟩ | ⟨hno, hend, hvisit⟩ |
      ⟨hno, hend, hvisit⟩
    · have hend : V.seen t 0 ≠ entryEnd :=
        ((isLive_iff _).mp ((isNamed_iff _ _).mp hhit).1).1
      rw [hvisit, if_neg hend, find?_cons, View.entry, isNamed_cut, hhit]
      exact Or.inl ⟨t, rfl, rfl⟩
    · rw [hvisit, if_neg hend, find?_cons, View.entry, isNamed_cut, hno]
      exact ih
    · rw [hvisit, if_pos hend]
      exact Or.inr ⟨rfl, fun b h => by cases h⟩

lemma visitAnywhere_eq (want : List Byte) (e) :
    visitAnywhere want e = if isNamed want e = true then .hit e else .next := by
  unfold visitAnywhere isNamed isLive
  by_cases hend : e 0 = entryEnd
  · simp [hend]
  by_cases hdeleted : e 0 = entryDeleted
  · simp [hdeleted]
  by_cases hlong : e 11 = attrLongName
  · simp [hlong]
  by_cases hname : entryName e = want <;> simp [hend, hdeleted, hlong, hname]

/-- `dir_unlink_at` goes on after an end mark, but comes to the same entry first. -/
theorem walk_anywhere (h : V.find slots want = some s) :
    walkSlots (visitAnywhere want) V slots = .hit (s, V.seen s) := by
  induction slots with
  | nil => cases h
  | cons t slots ih =>
    rw [View.find, View.used_cons] at h
    rw [walkSlots, visitAnywhere_eq]
    split_ifs at h with hend
    · cases h
    · rw [find?_cons, View.entry, isNamed_cut] at h
      cases hnamed : isNamed want (V.seen t) with
      | true =>
        rw [hnamed] at h
        cases h
        rfl
      | false =>
        rw [hnamed] at h
        exact ih h

def View.firstFree (V : View) (slots : List Slot) : Option Slot :=
  slots.find? fun s => V.entry s 0 = entryEnd ∨ V.entry s 0 = entryDeleted

lemma walk_free (V) (slots : List Slot) :
    walkSlots visitFree V slots =
      match V.firstFree slots with
      | some s => .hit (s, ())
      | none => .next := by
  induction slots with
  | nil => rfl
  | cons t slots ih =>
    have hcut : V.entry t 0 = V.seen t 0 := cut_apply _ (by omega)
    rw [walkSlots, View.firstFree, find?_cons, hcut, visitFree]
    by_cases hfree : V.seen t 0 = entryEnd ∨ V.seen t 0 = entryDeleted
    · simp [hfree]
    · simp only [hfree, decide_false, if_false]
      exact ih

end Lookup

/-! ## Reading and writing entries -/

section Directories

variable {dir fuel : ℕ} {cs : List ℕ} {s : Slot} {want : List Byte}

def metaOutcome (g : Geometry) (V : View) : Option Slot → Outcome Meta
  | some s => .ok (entryMeta g (V.entry s))
  | none => .fail

lemma runs_findInDir (hg : g.Sound) (hchain : V.DirChain g dir cs) (hfuel : cs.length ≤ fuel)
    (want : List Byte) :
    Runs g (findInDir g fuel dir want) V (metaOutcome g V (V.find (dirSlots g dir cs) want)) V := by
  refine (runs_scanDir hg hchain hfuel).bind ?_
  rcases walk_named V (dirSlots g dir cs) want (entryMeta g) with ⟨s, hfind, hwalk⟩ | ⟨hfind, hwalk⟩
  · rw [hfind, hwalk, metaOutcome, View.entry, entryMeta_cut]
    exact runs_pure _
  · rw [hfind]
    rcases hresult : walkSlots (visitNamed want (entryMeta g)) V (dirSlots g dir cs) with _ | _ | b
    · exact runs_failed
    · exact runs_failed
    · exact absurd hresult (hwalk b)

def Slot.Valid (g : Geometry) (s : Slot) : Prop := g.ValidPlace s.place ∧ s.idx < 16

lemma mem_placeSlots {p : Place} : s ∈ placeSlots p ↔ s.place = p ∧ s.idx < 16 := by
  obtain ⟨q, k⟩ := s
  simp only [placeSlots, mem_map, mem_range, Slot.mk.injEq]
  constructor
  · rintro ⟨i, hi, rfl, rfl⟩
    exact ⟨rfl, hi⟩
  · rintro ⟨rfl, hk⟩
    exact ⟨k, hk, rfl, rfl⟩

lemma mem_placesSlots {place : ℕ → Place} {n : ℕ} :
    s ∈ ((List.range' 0 n).map place).flatMap placeSlots ↔
      ∃ i, i < n ∧ s.place = place i ∧ s.idx < 16 := by
  simp only [mem_flatMap, mem_map, mem_range'_1]
  constructor
  · rintro ⟨p, ⟨i, hi, rfl⟩, hs⟩
    obtain ⟨hplace, hidx⟩ := mem_placeSlots.mp hs
    exact ⟨i, by omega, hplace, hidx⟩
  · rintro ⟨i, hi, hplace, hidx⟩
    exact ⟨_, ⟨i, by omega, rfl⟩, mem_placeSlots.mpr ⟨hplace, hidx⟩⟩

lemma mem_chainSlots :
    s ∈ chainSlots g cs ↔
      ∃ c ∈ cs, ∃ i, i < g.secPerClus ∧ s.place = .data c i ∧ s.idx < 16 :=
  mem_flatMap.trans (exists_congr fun _ => and_congr_right fun _ => mem_placesSlots)

lemma mem_rootSlots :
    s ∈ rootSlots g ↔ ∃ i, i < g.rootSectors ∧ s.place = .root i ∧ s.idx < 16 :=
  mem_placesSlots

def View.setSlot (V : View) (s : Slot) (e : Bytes) : View :=
  V.setSector s.place (setEntry (V.sector s.place) (32 * s.idx) e)

lemma entryAt_setEntry (sec : Sector) {j : ℕ} (hi : i < 16) (hj : j < 16) (e) :
    cut (entryAt (setEntry sec (32 * i) e) (32 * j)) =
      if j = i then cut e else cut (entryAt sec (32 * j)) := by
  funext k
  by_cases hk : k < 32
  · have hbyte : byteAt (setEntry sec (32 * i) e) (32 * j + k) =
        patch (byteAt sec) (32 * i) ((List.range 32).map e) (32 * j + k) :=
      byteAt_toSector _ (by omega)
    by_cases hij : j = i
    · subst hij
      rw [if_pos rfl, cut_apply _ hk, cut_apply _ hk, entryAt, hbyte, patch,
        if_pos (by simp; omega),
        Nat.add_sub_cancel_left, getD_eq_getElem?_getD, getElem?_map,
        getElem?_range hk]
      rfl
    · rw [if_neg hij, cut_apply _ hk, cut_apply _ hk, entryAt, hbyte, patch,
        if_neg (by simp; omega)]
      rfl
  · split_ifs <;> simp only [cut, if_neg hk]

lemma View.entry_setSlot {t : Slot} (hs : s.idx < 16) (ht : t.idx < 16) (e) :
    (V.setSlot s e).entry t = if t = s then cut e else V.entry t := by
  obtain ⟨p, i⟩ := s
  obtain ⟨q, j⟩ := t
  by_cases hplace : q = p
  · subst hplace
    have hsector : (V.setSlot ⟨q, i⟩ e).sector q = setEntry (V.sector q) (32 * i) e :=
      Function.update_self ..
    rw [View.entry, View.seen, hsector, entryAt_setEntry _ hs ht]
    simp only [Slot.mk.injEq, true_and]
    rfl
  · have hsector : (V.setSlot ⟨p, i⟩ e).sector q = V.sector q := Function.update_of_ne hplace ..
    rw [View.entry, View.seen, hsector, if_neg (by simp [hplace])]
    rfl

lemma runs_writeSlot (hg : g.Sound) (hs : s.Valid g) (e) :
    Runs g (writeSector (g.lba s.place) (setEntry (V.sector s.place) (32 * s.idx) e)) V (.ok ())
      (V.setSlot s e) :=
  runs_writeSector hg hs.1 _

end Directories

end HelixOS.Fat
