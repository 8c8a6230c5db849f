import HelixOS.FatSlots

/-!
# Volumes as trees of directories

A `Tree` tells which numbers are directories of a volume, and the clusters of each.  A
volume is consistent with it if every entry of a directory leads to one of them, every
entry of a file to a chain of its own, and the chains are chains of the table.
-/

namespace HelixOS.Fat

open Option

/-- The root directory can be named by 0 as well. -/
def dirKey (g : Geometry) (k : ℕ) : ℕ := if k = 0 then rootKey g else k

structure Tree where
  isDir : ℕ → Prop
  clusters : ℕ → List ℕ

def Tree.slots (T : Tree) (g : Geometry) (k : ℕ) : List Slot := dirSlots g k (T.clusters k)

def View.clusAt (g : Geometry) (V : View) (s : Slot) : ℕ := entryClus g (V.entry s)
def View.isDirAt (V : View) (s : Slot) : Bool := isDirectory (V.entry s 11)

structure View.Holds (g : Geometry) (V : View) (T : Tree) (k : ℕ) (s : Slot) : Prop where
  isDir : T.isDir k
  mem : s ∈ V.used (T.slots g k)
  live : isLive (V.entry s) = true

structure Directories (g : Geometry) (V : View) (T : Tree) : Prop where
  root : T.isDir (rootKey g)
  chain : ∀ {k}, T.isDir k → ¬ FixedRoot g k → T.clusters k ≠ [] ∧ V.Chain g k (T.clusters k)
  sub : ∀ {k s}, V.Holds g T k s → V.isDirAt s = true → T.isDir (dirKey g (V.clusAt g s))

def View.FileChain (g : Geometry) (V : View) (s : Slot) (cs : List ℕ) : Prop :=
  if V.clusAt g s = 0 then cs = [] else cs ≠ [] ∧ V.Chain g (V.clusAt g s) cs

/-- Files have chains, apart from the directories. -/
structure Consistent (g : Geometry) (V : View) (T : Tree) : Prop extends Directories g V T where
  file : ∀ {k s}, V.Holds g T k s → V.isDirAt s = false →
    ∃ cs, V.FileChain g s cs ∧ ∀ l, T.isDir l → ¬ FixedRoot g l → (T.clusters l).Disjoint cs

section Keys

variable {g : Geometry} {V : View} {T : Tree} {k : ℕ} {s : Slot}

lemma dirKey_rootKey (g : Geometry) : dirKey g (rootKey g) = rootKey g := by
  unfold dirKey
  split_ifs <;> rfl

lemma rootKey_fat32 (htype : g.fatType = .fat32) : rootKey g = g.rootClus := if_pos htype

lemma rootKey_fat16 (htype : g.fatType ≠ .fat32) : rootKey g = 0 := if_neg htype

lemma fixedRoot_dirKey : FixedRoot g (dirKey g k) ↔ FixedRoot g k := by
  unfold dirKey
  by_cases hk : k = 0
  · rw [if_pos hk, hk]
    by_cases htype : g.fatType = .fat32
    · simp [FixedRoot, htype]
    · rw [rootKey_fat16 htype]
  · rw [if_neg hk]

lemma chainStart_eq (hk : ¬ FixedRoot g k) : chainStart g k = dirKey g k := by
  unfold dirKey chainStart
  by_cases hzero : k = 0
  · have htype : g.fatType = .fat32 := by
      by_contra htype
      exact hk ⟨hzero, htype⟩
    rw [if_pos hzero, if_neg (by simpa using hzero), rootKey_fat32 htype]
  · rw [if_neg hzero, if_pos hzero]

lemma dirSlots_dirKey (cs : List ℕ) :
    dirSlots g (dirKey g k) cs = dirSlots g k cs := by
  exact if_congr fixedRoot_dirKey rfl rfl

lemma Directories.dirChain (hg : g.Sound) (hV : Directories g V T) (hk : T.isDir (dirKey g k)) :
    ∃ cs, V.DirChain g k cs ∧ dirSlots g k cs = T.slots g (dirKey g k) ∧
      cs.length ≤ g.dataClusters := by
  by_cases hfixed : FixedRoot g k
  · refine ⟨[], by rw [View.DirChain, if_pos hfixed], ?_, Nat.zero_le _⟩
    rw [Tree.slots, dirSlots_dirKey, dirSlots, dirSlots, if_pos hfixed, if_pos hfixed]
  · have hfixed' : ¬ FixedRoot g (dirKey g k) := fun h => hfixed (fixedRoot_dirKey.mp h)
    obtain ⟨-, hchain⟩ := hV.chain hk hfixed'
    refine ⟨T.clusters (dirKey g k), ?_, (dirSlots_dirKey _).symm, hchain.length_le hg⟩
    rw [View.DirChain, if_neg hfixed, chainStart_eq hfixed]
    exact hchain

lemma Directories.slot_valid (hV : Directories g V T) (hk : T.isDir k)
    (hs : s ∈ T.slots g k) : s.Valid g := by
  by_cases hfixed : FixedRoot g k
  · rw [Tree.slots, dirSlots, if_pos hfixed] at hs
    obtain ⟨i, hi, hplace, hidx⟩ := mem_rootSlots.mp hs
    exact ⟨by rw [hplace]; exact hi, hidx⟩
  · rw [Tree.slots, dirSlots, if_neg hfixed] at hs
    obtain ⟨c, hc, i, hi, hplace, hidx⟩ := mem_chainSlots.mp hs
    exact ⟨by rw [hplace]; exact ((hV.chain hk hfixed).2.valid c hc).place hi, hidx⟩

lemma View.Holds.slot_mem (h : V.Holds g T k s) : s ∈ T.slots g k :=
  (List.takeWhile_sublist _).mem h.mem

end Keys

/-! ## Looking up names -/

section Lookup

variable {g : Geometry} {V : View} {T : Tree} {k fuel : ℕ} {s : Slot} {want : List Byte}

def View.lookup (g : Geometry) (V : View) (T : Tree) (k : ℕ) (want : List Byte) : Option Slot :=
  V.find (T.slots g (dirKey g k)) want

lemma Directories.runs_findInDir (hg : g.Sound) (hV : Directories g V T)
    (hk : T.isDir (dirKey g k)) (hfuel : g.dataClusters ≤ fuel) (want : List Byte) :
    Runs g (findInDir g fuel k want) V (metaOutcome g V (V.lookup g T k want)) V := by
  obtain ⟨cs, hchain, hslots, hlength⟩ := hV.dirChain hg hk
  rw [View.lookup, ← hslots]
  exact Fat.runs_findInDir hg hchain (hlength.trans hfuel) want

lemma View.lookup_holds (hk : T.isDir (dirKey g k)) (h : V.lookup g T k want = some s) :
    V.Holds g T (dirKey g k) s :=
  ⟨hk, (View.find_some h).1, ((isNamed_iff _ _).mp (View.find_some h).2).1⟩

/-- The directory of the last component of a path, and its short name. -/
def View.parentOf (g : Geometry) (V : View) (T : Tree) :
    ℕ → List (List Byte) → Option (ℕ × List Byte)
  | _, [] => none
  | k, [leaf] => some (k, encode83Upper leaf)
  | k, comp :: rest =>
    match V.lookup g T k (encode83Upper comp) with
    | some s => if V.isDirAt s then V.parentOf g T (V.clusAt g s) rest else none
    | none => none

def parentOutcome : Option (ℕ × List Byte) → Outcome (ℕ × List Byte)
  | some p => .ok p
  | none => .fail

lemma Directories.runs_resolveParentFrom (hg : g.Sound) (hV : Directories g V T)
    (hfuel : g.dataClusters ≤ fuel) (comps : List (List Byte)) (hk : T.isDir (dirKey g k)) :
    Runs g (resolveParentFrom g fuel k comps) V (parentOutcome (V.parentOf g T k comps)) V := by
  induction comps generalizing k with
  | nil => exact runs_failed
  | cons comp rest ih =>
    cases rest with
    | nil => exact runs_pure _
    | cons next rest =>
      have hfind : Runs g (findInDir g fuel k (encode83Upper comp)) V
          (metaOutcome g V (V.lookup g T k (encode83Upper comp))) V :=
        hV.runs_findInDir hg hk hfuel _
      rw [View.parentOf]
      cases hlookup : V.lookup g T k (encode83Upper comp) with
      | none =>
        rw [hlookup] at hfind
        exact hfind.bind_fail _
      | some s =>
        rw [hlookup] at hfind
        refine hfind.bind ?_
        dsimp only
        by_cases hdir : V.isDirAt s = true
        · rw [if_pos hdir,
            if_pos (show isDirectory (entryMeta g (V.entry s)).attr = true from hdir)]
          exact ih (hV.sub (View.lookup_holds hk hlookup) hdir)
        · rw [if_neg hdir,
            if_neg (show ¬ isDirectory (entryMeta g (V.entry s)).attr = true from hdir)]
          exact runs_failed
      · simp

lemma Directories.isDir_of_parentOf (hV : Directories g V T) (comps : List (List Byte))
    (hk : T.isDir (dirKey g k)) {p : ℕ × List Byte} (h : V.parentOf g T k comps = some p) :
    T.isDir (dirKey g p.1) := by
  induction comps generalizing k with
  | nil => cases h
  | cons comp rest ih =>
    cases rest with
    | nil =>
      cases h
      exact hk
    | cons next rest =>
      rw [View.parentOf] at h
      · cases hlookup : V.lookup g T k (encode83Upper comp) with
        | none =>
          rw [hlookup] at h
          cases h
        | some s =>
          rw [hlookup] at h
          dsimp only at h
          split_ifs at h with hdir
          exact ih (hV.sub (View.lookup_holds hk hlookup) hdir) h
      · simp

/-- The path leads to the entry at `s` of the directory `p.1`, where it has the name `p.2`. -/
def View.LeadsTo (g : Geometry) (V : View) (T : Tree) (path : List Byte) (p : ℕ × List Byte)
    (s : Slot) : Prop :=
  V.parentOf g T (rootKey g) (components path) = some p ∧ V.lookup g T p.1 p.2 = some s

lemma View.LeadsTo.unique {path : List Byte} {p p' : ℕ × List Byte} {s' : Slot}
    (h : V.LeadsTo g T path p s) (h' : V.LeadsTo g T path p' s') : s = s' := by
  obtain rfl : p = p' := some.inj (h.1.symm.trans h'.1)
  exact some.inj (h.2.symm.trans h'.2)

lemma resolveFrom_eq (g : Geometry) (fuel k : ℕ) (comps : List (List Byte)) :
    resolveFrom g fuel k comps =
      resolveParentFrom g fuel k comps >>= fun p => findInDir g fuel p.1 p.2 := by
  induction comps generalizing k with
  | nil => rfl
  | cons comp rest ih =>
    cases rest with
    | nil => rfl
    | cons next rest =>
      funext d
      simp only [resolveFrom, resolveParentFrom, Bind.bind]
      rcases findInDir g fuel k (encode83Upper comp) d with ⟨found | _ | _, d'⟩
      · dsimp only
        split_ifs
        · exact congrFun (ih found.clus) d'
        · rfl
      · rfl
      · rfl

section Paths

variable (hg : g.Sound) (hV : Directories g V T) (hfuel : g.dataClusters ≤ fuel)
  {path : List Byte} {p : ℕ × List Byte}

include hV in
lemma Directories.rootKey_isDir : T.isDir (dirKey g (rootKey g)) := by
  rw [dirKey_rootKey]
  exact hV.root

include hV in
lemma View.LeadsTo.isDir (h : V.LeadsTo g T path p s) : T.isDir (dirKey g p.1) :=
  hV.isDir_of_parentOf _ hV.rootKey_isDir h.1

include hV in
lemma View.LeadsTo.holds (h : V.LeadsTo g T path p s) : V.Holds g T (dirKey g p.1) s :=
  View.lookup_holds (h.isDir hV) h.2

include hg hV hfuel

lemma Directories.runs_fatResolveParent (path : List Byte) :
    Runs g (fatResolveParent g fuel path) V
      (parentOutcome (V.parentOf g T (rootKey g) (components path))) V :=
  hV.runs_resolveParentFrom hg hfuel _ hV.rootKey_isDir

lemma Directories.runs_fatResolve (path : List Byte) :
    Runs g (fatResolve g fuel path) V
      (metaOutcome g V ((V.parentOf g T (rootKey g) (components path)).bind fun p =>
        V.lookup g T p.1 p.2)) V := by
  have hparent := hV.runs_fatResolveParent hg hfuel path
  rw [fatResolve, resolveFrom_eq]
  cases hp : V.parentOf g T (rootKey g) (components path) with
  | none =>
    rw [hp] at hparent
    exact hparent.bind_fail _
  | some p =>
    rw [hp] at hparent
    exact hparent.bind (hV.runs_findInDir hg (hV.isDir_of_parentOf _ hV.rootKey_isDir hp) hfuel _)

lemma View.LeadsTo.runs_fatResolve (h : V.LeadsTo g T path p s) :
    Runs g (fatResolve g fuel path) V (.ok (entryMeta g (V.entry s))) V := by
  have hruns := hV.runs_fatResolve hg hfuel path
  rw [h.1, bind_some, h.2] at hruns
  exact hruns

end Paths

end Lookup

/-! ## Volumes that can be checked -/

def flatTree (dirs : List ℕ) : Tree where
  isDir k := k = 0 ∨ k ∈ dirs
  clusters k := if k ∈ dirs then [k] else []

def View.single (g : Geometry) (V : View) (c : ℕ) : Bool := g.Valid c && fatIsEof g (V.fat c)

def View.flat (g : Geometry) (V : View) (dirs : List ℕ) : Bool :=
  dirs.all (V.single g) &&
    (0 :: dirs).all fun k => (V.used ((flatTree dirs).slots g k)).all fun s =>
      let c := V.clusAt g s
      !isLive (V.entry s) || c = 0 ||
        if V.isDirAt s then dirs.contains c else !dirs.contains c && V.single g c

lemma View.single_chain {g : Geometry} {V : View} {c : ℕ} (h : V.single g c = true) :
    V.Chain g c [c] := by
  simp only [View.single, Bool.and_eq_true, decide_eq_true_eq] at h
  exact ⟨rfl, h.1, h.2⟩

lemma consistent_of_flat {g : Geometry} {V : View} {dirs : List ℕ}
    (htype : g.fatType ≠ .fat32) (h : V.flat g dirs = true) : Consistent g V (flatTree dirs) := by
  rw [View.flat, Bool.and_eq_true, List.all_eq_true, List.all_eq_true] at h
  obtain ⟨hdirs, hentries⟩ := h
  have hroot : rootKey g = 0 := rootKey_fat16 htype
  have hmem {k : ℕ} (hk : (flatTree dirs).isDir k) : k ∈ 0 :: dirs := List.mem_cons.mpr hk
  have hclusters {k : ℕ} (hk : (flatTree dirs).isDir k) (hfixed : ¬ FixedRoot g k) :
      k ∈ dirs ∧ (flatTree dirs).clusters k = [k] := by
    have hne : k ≠ 0 := fun hzero => hfixed ⟨hzero, htype⟩
    have hk := hk.resolve_left hne
    exact ⟨hk, if_pos hk⟩
  have hentry {k : ℕ} {s : Slot} (hs : V.Holds g (flatTree dirs) k s) (hc : V.clusAt g s ≠ 0) :
      if V.isDirAt s then V.clusAt g s ∈ dirs
      else V.clusAt g s ∉ dirs ∧ V.single g (V.clusAt g s) = true := by
    have hall := List.all_eq_true.mp (hentries k (hmem hs.isDir)) s hs.mem
    have hlive := hs.live
    cases hdir : V.isDirAt s <;> simpa [hlive, hc, hdir] using hall
  constructor
  · refine ⟨Or.inl hroot, fun hk hfixed => ?_, fun {k s} hs hdir => ?_⟩
    · obtain ⟨hk, hcs⟩ := hclusters hk hfixed
      rw [hcs]
      exact ⟨List.cons_ne_nil _ _, View.single_chain (hdirs _ hk)⟩
    · by_cases hc : V.clusAt g s = 0
      · rw [hc, dirKey, if_pos rfl]
        exact Or.inl hroot
      · have hsub := hentry hs hc
        rw [if_pos hdir] at hsub
        rw [dirKey, if_neg hc]
        exact Or.inr hsub
  · intro k s hs hdir
    by_cases hc : V.clusAt g s = 0
    · exact ⟨[], (if_pos hc).mpr rfl, fun _ _ _ => List.disjoint_nil_right _⟩
    · have hfile := hentry hs hc
      rw [hdir, if_neg Bool.false_ne_true] at hfile
      refine ⟨[V.clusAt g s], (if_neg hc).mpr ⟨List.cons_ne_nil _ _,
        View.single_chain hfile.2⟩, fun l hl hfixed => ?_⟩
      obtain ⟨hl, hcs⟩ := hclusters hl hfixed
      rw [hcs, List.disjoint_singleton]
      intro hmem
      rw [List.mem_singleton.mp hmem] at hfile
      exact hfile.1 hl

end HelixOS.Fat
