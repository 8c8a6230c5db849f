import HelixOS.KernelSteps
import HelixOS.SlotCounts

/-!
# How calls move files

A file object as it is seen from the descriptor tables: the number of slots that refer to
it, and the object itself.  Each call on a table moves every file by the steps listed in
`FileMove`.
-/

namespace HelixOS

open Relation SlotCounts Function Option BitVec

variable {m : ℕ} {found : Bool} {n : ℕ} {i : Fin 16}

/-! ## Steps of one file -/

structure FileView where
  slots : ℕ
  file : OpenFile

@[simps kind]
def OpenFile.hold (file : OpenFile) (m : ℕ) : OpenFile :=
  { file with refcount := file.refcount + BitVec.ofNat 32 m }

@[simps kind closed socketHeld]
def OpenFile.drop (file : OpenFile) : OpenFile :=
  { file with refcount := file.refcount - 1#32 }

def OpenFile.vfsClosed (file : OpenFile) : OpenFile :=
  if file.kind = .plain then { file with closed := file.closed + 1 } else file

def OpenFile.released (file : OpenFile) : OpenFile :=
  if 0 < file.drop.refcount.toInt then file.drop
  else if file.kind = .socket then { file.drop with closed := file.closed + 1, socketHeld := false }
  else file.drop.vfsClosed

/-- The same in `sys_dup2`, which does not know sockets. -/
def OpenFile.replaced (file : OpenFile) : OpenFile :=
  if file.drop.refcount.toInt ≤ 0 then file.drop.vfsClosed else file.drop

/-- What an operation may do to a file that is not a console.  The steps that lose track of
a reference are not `strict`. -/
inductive FileMove (strict : Prop) : FileView → FileView → Prop
  | hold {n : ℕ} {file : OpenFile} (m : ℕ) (hheld : 0 < n)
      (hover : file.refcount.toNat + m < 2 ^ 31) :
      FileMove strict ⟨n, file⟩ ⟨n + m, file.hold m⟩
  | leak {n : ℕ} {file : OpenFile} (m : ℕ) (hstrict : ¬ strict) (hheld : 0 < n)
      (hover : file.refcount.toNat + m < 2 ^ 31) :
      FileMove strict ⟨n, file⟩ ⟨n, file.hold m⟩
  | release {n : ℕ} {file : OpenFile} : FileMove strict ⟨n + 1, file⟩ ⟨n, file.released⟩
  | replace {n : ℕ} {file : OpenFile}
      (hstrict : strict → file.kind = .plain ∨ file.refcount ≠ 1#32) :
      FileMove strict ⟨n + 1, file⟩ ⟨n, file.replaced⟩
  | overwrite {n : ℕ} {file : OpenFile} (hstrict : ¬ strict) :
      FileMove strict ⟨n + 1, file⟩ ⟨n, file⟩

/-- Each of the `n` slots has a reference, and the object is not freed while there is one. -/
structure Covered (n : ℕ) (file : OpenFile) : Prop where
  kind : file.kind ≠ .console
  small : file.refcount.toNat < 2 ^ 31
  slots : n ≤ file.refcount.toNat
  kept : 0 < n → file.closed = 0

/-- There are no other references, and without one the object has been freed once. -/
structure Exact (n : ℕ) (file : OpenFile) : Prop where
  kind : file.kind ≠ .console
  small : file.refcount.toNat < 2 ^ 31
  slots : n = file.refcount.toNat
  kept : 0 < n → file.closed = 0
  freed : n = 0 → file.closed = 1 ∧ file.socketHeld = false
  plain : file.kind = .plain → file.socketHeld = false

/-! ### What the steps keep -/

variable {strict : Prop} {v v' : FileView} {file : OpenFile}

@[simp] lemma OpenFile.vfsClosed_kind (file : OpenFile) : file.vfsClosed.kind = file.kind := by
  unfold OpenFile.vfsClosed
  split <;> rfl

@[simp] lemma OpenFile.vfsClosed_refcount (file : OpenFile) :
    file.vfsClosed.refcount = file.refcount := by
  unfold OpenFile.vfsClosed
  split <;> rfl

@[simp] lemma OpenFile.vfsClosed_socketHeld (file : OpenFile) :
    file.vfsClosed.socketHeld = file.socketHeld := by
  unfold OpenFile.vfsClosed
  split <;> rfl

lemma OpenFile.vfsClosed_closed (file : OpenFile) (hkind : file.kind = .plain) :
    file.vfsClosed.closed = file.closed + 1 := by
  simp [OpenFile.vfsClosed, hkind]

lemma hold_refcount (hover : file.refcount.toNat + m < 2 ^ 31) :
    (file.hold m).refcount.toNat = file.refcount.toNat + m := by
  simp only [OpenFile.hold, toNat_add, toNat_ofNat]
  omega

lemma drop_refcount (hpos : 0 < file.refcount.toNat) :
    file.drop.refcount.toNat = file.refcount.toNat - 1 := by
  simp only [OpenFile.drop, toNat_sub, toNat_ofNat]
  omega

lemma drop_refcount_toInt (hpos : 0 < file.refcount.toNat)
    (hsmall : file.refcount.toNat < 2 ^ 31) :
    file.drop.refcount.toInt = file.refcount.toNat - 1 := by
  rw [toInt_eq_toNat_of_lt (by rw [drop_refcount hpos]; omega), drop_refcount hpos]
  omega

lemma released_of_one_lt (hlt : 1 < file.refcount.toNat)
    (hsmall : file.refcount.toNat < 2 ^ 31) : file.released = file.drop := by
  rw [OpenFile.released, if_pos]
  rw [drop_refcount_toInt (by omega) hsmall]
  omega

lemma released_of_one (hone : file.refcount.toNat = 1) :
    file.released =
      if file.kind = .socket then { file.drop with closed := file.closed + 1, socketHeld := false }
      else file.drop.vfsClosed := by
  rw [OpenFile.released, if_neg]
  rw [drop_refcount_toInt (by omega) (by omega), hone]
  omega

lemma replaced_cases (hpos : 0 < file.refcount.toNat) (hsmall : file.refcount.toNat < 2 ^ 31) :
    file.replaced = file.released ∨
      file.kind = .socket ∧ file.refcount.toNat = 1 ∧ file.replaced = file.drop := by
  have hint := drop_refcount_toInt hpos hsmall
  by_cases hone : file.refcount.toNat = 1
  · rw [OpenFile.replaced, if_pos (by rw [hint, hone]; omega)]
    by_cases hsocket : file.kind = .socket
    · exact .inr ⟨hsocket, hone, by simp [OpenFile.vfsClosed, hsocket]⟩
    · rw [released_of_one hone, if_neg hsocket]
      exact .inl rfl
  · rw [released_of_one_lt (by omega) hsmall, OpenFile.replaced, if_neg (by rw [hint]; omega)]
    exact .inl rfl

lemma released_kind (file : OpenFile) : file.released.kind = file.kind := by
  unfold OpenFile.released
  split_ifs <;> simp

lemma released_refcount (file : OpenFile) (hpos : 0 < file.refcount.toNat) :
    file.released.refcount.toNat = file.refcount.toNat - 1 := by
  rw [← drop_refcount hpos]
  unfold OpenFile.released
  split_ifs <;> simp

lemma Covered.release (hv : Covered (n + 1) file) : Covered n file.released := by
  have hslots := hv.slots
  have hsmall := hv.small
  have hcount := released_refcount file (by omega)
  refine ⟨(released_kind file).trans_ne hv.kind, by omega, by omega, fun hn => ?_⟩
  rw [released_of_one_lt (by omega) hsmall]
  exact hv.kept (Nat.succ_pos n)

lemma Covered.hold (hv : Covered n file) (hheld : 0 < n)
    (hover : file.refcount.toNat + m < 2 ^ 31) : Covered (n + m) (file.hold m) := by
  have hcount := hold_refcount hover
  exact ⟨hv.kind, hcount ▸ hover, hcount ▸ Nat.add_le_add_right hv.slots m, fun _ => hv.kept hheld⟩

lemma Covered.fewer {n' : ℕ} (hv : Covered n file) (hle : n' ≤ n) : Covered n' file :=
  ⟨hv.kind, hv.small, hle.trans hv.slots, fun hn => hv.kept (hn.trans_le hle)⟩

lemma Covered.replace (hv : Covered (n + 1) file) : Covered n file.replaced := by
  have hslots := hv.slots
  rcases replaced_cases (by omega) hv.small with heq | ⟨hsocket, hone, heq⟩
  · rw [heq]
    exact hv.release
  · -- the last reference of a socket is lost
    have hcount : file.drop.refcount.toNat = 0 := by rw [drop_refcount (by omega), hone]
    rw [heq]
    exact ⟨hv.kind, by omega, by omega, fun hn => by omega⟩

lemma Covered.move (hv : Covered v.slots v.file) (h : FileMove strict v v') :
    Covered v'.slots v'.file := by
  cases h with
  | hold m hheld hover => exact hv.hold hheld hover
  | leak m _ hheld hover => exact (hv.hold hheld hover).fewer (Nat.le_add_right _ m)
  | release => exact hv.release
  | replace _ => exact hv.replace
  | overwrite _ => exact hv.fewer (Nat.le_succ _)

lemma Exact.release (hv : Exact (n + 1) file) : Exact n file.released := by
  have hslots := hv.slots
  have hsmall := hv.small
  have hclosed := hv.kept (Nat.succ_pos n)
  have hcount := released_refcount file (by omega)
  refine ⟨(released_kind file).trans_ne hv.kind, by omega, by omega, fun hn => ?_, fun hn => ?_,
    fun hp => ?_⟩
  · rw [released_of_one_lt (by omega) hsmall]
    exact hclosed
  · rw [released_of_one (by omega)]
    split_ifs with hsocket
    · simp [hclosed]
    · have hp : file.kind = .plain := by
        have hkind := hv.kind
        cases hk : file.kind <;> simp_all
      simp [OpenFile.vfsClosed_closed file.drop hp, hclosed, hv.plain hp]
  · rw [released_kind] at hp
    unfold OpenFile.released
    split_ifs <;> simp [hv.plain hp]

lemma Exact.hold (hv : Exact n file) (hheld : 0 < n)
    (hover : file.refcount.toNat + m < 2 ^ 31) : Exact (n + m) (file.hold m) := by
  have hcount := hold_refcount hover
  exact ⟨hv.kind, hcount ▸ hover, hcount ▸ congrArg (· + m) hv.slots, fun _ => hv.kept hheld,
    fun hn => by omega, hv.plain⟩

lemma Exact.replace (hv : Exact (n + 1) file)
    (hlast : file.kind = .plain ∨ file.refcount ≠ 1#32) : Exact n file.replaced := by
  have hslots := hv.slots
  rcases replaced_cases (by omega) hv.small with heq | ⟨hsocket, hone, -⟩
  · rw [heq]
    exact hv.release
  · rcases hlast with hplain | hne
    · simp [hsocket] at hplain
    · exact absurd (eq_of_toNat_eq hone) hne

lemma Exact.move (hv : Exact v.slots v.file) (h : FileMove True v v') :
    Exact v'.slots v'.file := by
  cases h with
  | hold m hheld hover => exact hv.hold hheld hover
  | leak m hleak => exact absurd trivial hleak
  | release => exact hv.release
  | replace hlast => exact hv.replace (hlast trivial)
  | overwrite hover => exact absurd trivial hover

/-! ## Steps of one descriptor table -/

inductive NewFile (strict : Prop) : FileView → Prop
  | installed {kind : FileKind} (hkind : kind ≠ .console) :
      NewFile strict ⟨1, ⟨kind, 1#32, 0, decide (kind = .socket)⟩⟩
  | closed {kind : FileKind} (hkind : kind ≠ .console) : NewFile strict ⟨0, ⟨kind, 0#32, 1, false⟩⟩
  | lost {kind : FileKind} {closed : ℕ} {held : Bool} (hkind : kind ≠ .console)
      (hstrict : ¬ strict) : NewFile strict ⟨0, ⟨kind, 0#32, closed, held⟩⟩

lemma NewFile.covered (h : NewFile strict v) : Covered v.slots v.file := by
  cases h with
  | installed hkind => exact ⟨hkind, by simp, by simp, fun _ => rfl⟩
  | closed hkind => exact ⟨hkind, by simp, by simp, fun hn => absurd hn (lt_irrefl 0)⟩
  | lost hkind => exact ⟨hkind, by simp, by simp, fun hn => absurd hn (lt_irrefl 0)⟩

lemma NewFile.exact (h : NewFile True v) : Exact v.slots v.file := by
  cases h with
  | installed hkind =>
    refine ⟨hkind, by simp, by simp, fun _ => rfl, fun hn => absurd hn one_ne_zero, ?_⟩
    rintro hplain
    simp only at hplain
    simp [hplain]
  | closed hkind =>
    exact ⟨hkind, by simp, by simp, fun hn => absurd hn (lt_irrefl 0), fun _ => ⟨rfl, rfl⟩,
      fun _ => rfl⟩
  | lost _ hstrict => exact absurd trivial hstrict

def viewIn (o : ℕ → ℕ) (fds : Descriptors) (files : FileTable) (f : ℕ) : FileView :=
  ⟨o f + count fds f, files.file f⟩

structure TableMoves (strict : Prop) (o : ℕ → ℕ) (fds : Descriptors) (files : FileTable)
    (fds' : Descriptors) (files' : FileTable) : Prop where
  next : files.next ≤ files'.next
  kind : ∀ f < files.next, (files'.file f).kind = (files.file f).kind
  old : ∀ f < files.next, (files.file f).kind ≠ .console →
    ReflTransGen (FileMove strict) (viewIn o fds files f) (viewIn o fds' files' f)
  fresh : ∀ f, files.next ≤ f → f < files'.next → NewFile strict (viewIn o fds' files' f)

variable {o : ℕ → ℕ} {fds fds' fds'' : Descriptors} {files files' files'' : FileTable} {f g : ℕ}

lemma TableMoves.refl : TableMoves strict o fds files fds files :=
  ⟨le_rfl, fun _ _ => rfl, fun _ _ _ => .refl, fun _ hle hlt => absurd hle hlt.not_ge⟩

lemma TableMoves.trans (h₁ : TableMoves strict o fds files fds' files')
    (h₂ : TableMoves strict o fds' files' fds'' files'') (hsame : files'.next = files.next) :
    TableMoves strict o fds files fds'' files'' where
  next := h₁.next.trans h₂.next
  kind f hf := (h₂.kind f (hf.trans_le h₁.next)).trans (h₁.kind f hf)
  old f hf hkind := by
    have hkind' : (files'.file f).kind ≠ .console := (h₁.kind f hf).trans_ne hkind
    exact (h₁.old f hf hkind).trans (h₂.old f (hf.trans_le h₁.next) hkind')
  fresh f hle hlt := h₂.fresh f (hsame.symm ▸ hle) hlt

/-! ### Closing -/

lemma FileTable.dropRef_file_self (files : FileTable) (f : ℕ) :
    (files.dropRef f).file f = (files.file f).drop := by
  simp [FileTable.dropRef, FileTable.modify, OpenFile.drop]

lemma FileTable.release_file_self (files : FileTable) (f : ℕ)
    (hkind : (files.file f).kind ≠ .console) :
    (files.release f).file f = (files.file f).released := by
  have hdrop := files.dropRef_file_self f
  simp only [FileTable.release, OpenFile.released, hdrop, OpenFile.drop_kind]
  split_ifs with hpos hsocket
  · exact hdrop
  · simp [socketFree, FileTable.modify, hdrop]
  · have hplain : (files.file f).kind = .plain := by
      cases hk : (files.file f).kind <;> simp_all
    simp [vfsClose, FileTable.modify, hdrop, hplain, OpenFile.vfsClosed]

lemma FileTable.modify_file_other (files : FileTable) (change : OpenFile → OpenFile)
    (hne : g ≠ f) : (files.modify f change).file g = files.file g := by
  simp [FileTable.modify, hne]

lemma vfsClose_file_other (files : FileTable) (hne : g ≠ f) :
    (vfsClose files f).file g = files.file g := by
  unfold vfsClose
  split
  · rfl
  · exact files.modify_file_other _ hne
  · rfl

lemma vfsClose_next (files) (f) : (vfsClose files f).next = files.next := by
  unfold vfsClose
  split <;> rfl

lemma FileTable.release_file_other (files : FileTable) (hne : g ≠ f) :
    (files.release f).file g = files.file g := by
  have hdrop : (files.dropRef f).file g = files.file g := files.modify_file_other _ hne
  simp only [FileTable.release]
  split_ifs
  · exact hdrop
  · exact (FileTable.modify_file_other _ _ hne).trans hdrop
  · exact (vfsClose_file_other _ hne).trans hdrop

lemma FileTable.release_next (files : FileTable) (f : ℕ) :
    (files.release f).next = files.next := by
  simp only [FileTable.release]
  split_ifs
  · rfl
  · rfl
  · exact vfsClose_next _ f

lemma viewIn_clear (hi : fds i = some f) :
    viewIn o fds files f = ⟨o f + count (update fds i none) f + 1, files.file f⟩ := by
  have hcount := count_clear (a := f) hi
  rw [if_pos rfl] at hcount
  rw [viewIn, ← hcount, add_assoc]

lemma viewIn_clear_other (hi : fds i = some g) (hne : g ≠ f) :
    count (update fds i none) f = count fds f := by
  have hcount := count_clear (a := f) hi
  rwa [if_neg hne, add_zero] at hcount

lemma closeSlot_moves (strict : Prop) (o : ℕ → ℕ) (fds : Descriptors) (files : FileTable)
    (i : Fin 16) :
    TableMoves strict o fds files (closeSlot fds files i).1 (closeSlot fds files i).2 ∧
      (closeSlot fds files i).2.next = files.next := by
  unfold closeSlot
  cases hi : fds i with
  | none => exact ⟨.refl, rfl⟩
  | some g =>
    dsimp only
    split_ifs with hconsole
    · exact ⟨.refl, rfl⟩
    · have hnext := files.release_next g
      refine ⟨⟨hnext.ge, fun f _ => ?_, fun f _ _ => ?_, fun f hle hlt => ?_⟩, hnext⟩
      · by_cases hf : f = g
        · rw [hf, files.release_file_self g hconsole, released_kind]
        · rw [files.release_file_other hf]
      · by_cases hf : f = g
        · subst hf
          rw [viewIn_clear hi, viewIn, files.release_file_self f hconsole]
          exact .single .release
        · rw [viewIn, viewIn, files.release_file_other hf, viewIn_clear_other hi (Ne.symm hf)]
      · exact absurd (hnext ▸ hlt) hle.not_gt

lemma closeSlot_slots (fds) (files) (i j : Fin 16) :
    (closeSlot fds files i).1 j = none ∨ (closeSlot fds files i).1 j = fds j ∧
      (j = i → ∀ f, fds i = some f → (files.file f).kind = .console) := by
  unfold closeSlot
  cases hi : fds i with
  | none => exact .inr ⟨rfl, by simp⟩
  | some g =>
    dsimp only
    split_ifs with hconsole
    · exact .inr ⟨rfl, fun _ f hf => some.inj hf ▸ hconsole⟩
    · by_cases hj : j = i
      · exact .inl (by simp [hj])
      · exact .inr ⟨by simp [hj], fun h => absurd h hj⟩

def Bounded (fds : Descriptors) (files : FileTable) : Prop :=
  ∀ i f, fds i = some f → f < files.next

lemma closeSlot_bounded (hbound : Bounded fds files) (i) :
    Bounded (closeSlot fds files i).1 (closeSlot fds files i).2 := by
  intro j f hj
  rw [(closeSlot_moves True (fun _ => 0) fds files i).2]
  rcases closeSlot_slots fds files i j with hnone | ⟨hsame, -⟩
  · simp [hnone] at hj
  · exact hbound j f (hsame ▸ hj)

lemma closeLoop_moves (strict) (o) (slots : List (Fin 16)) :
    ∀ fds files, Bounded fds files →
      let result := slots.foldl (fun state i => closeSlot state.1 state.2 i) (fds, files)
      TableMoves strict o fds files result.1 result.2 ∧ result.2.next = files.next ∧
        ∀ j, result.1 j = none ∨ result.1 j = fds j ∧
          (j ∈ slots → ∀ f, fds j = some f → (files.file f).kind = .console) := by
  induction slots with
  | nil => exact fun fds files _ => ⟨.refl, rfl, fun j => .inr ⟨rfl, by simp⟩⟩
  | cons i slots ih =>
    intro fds files hbound
    have hslots := closeSlot_slots fds files i
    obtain ⟨hmoves, hnext⟩ := closeSlot_moves strict o fds files i
    obtain ⟨hrest, hnext', hslots'⟩ := ih _ _ (closeSlot_bounded hbound i)
    refine ⟨hmoves.trans hrest hnext, hnext'.trans hnext, fun j => ?_⟩
    rcases hslots' j with hnone | ⟨hsame, hconsole⟩
    · exact .inl hnone
    · rcases hslots j with hnone | ⟨hsame', hconsole'⟩
      · exact .inl (hsame.trans hnone)
      · refine .inr ⟨hsame.trans hsame', fun hj f hf => ?_⟩
        rcases List.mem_cons.mp hj with rfl | hj
        · exact hconsole' rfl f hf
        · rw [← hmoves.kind f (hbound j f hf)]
          exact hconsole hj f (hsame'.trans hf)

lemma closeAll_moves (strict) (o) (hbound : Bounded fds files) :
    TableMoves strict o fds files (closeAll fds files).1 (closeAll fds files).2 ∧
      Bounded (closeAll fds files).1 (closeAll fds files).2 ∧
      ∀ j f, (closeAll fds files).1 j = some f →
        ((closeAll fds files).2.file f).kind = .console := by
  obtain ⟨hmoves, hnext, hslots⟩ := closeLoop_moves strict o (List.finRange 16) fds files hbound
  have hleft (j : Fin 16) (f : ℕ) (hj : (closeAll fds files).1 j = some f) :
      fds j = some f ∧ (files.file f).kind = .console := by
    rcases hslots j with hnone | ⟨hsame, hconsole⟩
    · rw [closeAll, hnone] at hj
      cases hj
    · have hf : fds j = some f := hsame.symm.trans hj
      exact ⟨hf, hconsole (List.mem_finRange j) f hf⟩
  refine ⟨hmoves, fun j f hj => hnext ▸ hbound j f (hleft j f hj).1, fun j f hj => ?_⟩
  obtain ⟨hold, hkind⟩ := hleft j f hj
  exact (hmoves.kind f (hbound j f hold)).trans hkind

/-! ### Holding -/

lemma OpenFile.hold_hold (file : OpenFile) (m n : ℕ) :
    (file.hold m).hold n = file.hold (m + n) := by
  simp [OpenFile.hold, BitVec.ofNat_add, BitVec.add_assoc]

lemma OpenFile.hold_zero (file : OpenFile) : file.hold 0 = file := by
  simp [OpenFile.hold]

lemma holdLoop_file (fds : Descriptors) (f : ℕ) (slots : List (Fin 16)) (files : FileTable) :
    (slots.foldl (fun files i =>
        match fds i with
        | none => files
        | some g => fdHold files g) files).file f =
      (files.file f).hold ((slots.map fun i => if fds i = some f then 1 else 0).sum) := by
  induction slots generalizing files with
  | nil => simp [OpenFile.hold_zero]
  | cons i slots ih =>
    rw [List.foldl_cons, ih, List.map_cons, List.sum_cons, ← OpenFile.hold_hold]
    congr 1
    cases hi : fds i with
    | none => simp [OpenFile.hold_zero]
    | some g =>
      by_cases hg : g = f
      · simp [hg, fdHold, FileTable.modify, OpenFile.hold]
      · rw [if_neg (by simpa using hg), OpenFile.hold_zero]
        exact files.modify_file_other _ (Ne.symm hg)

lemma holdAll_file (fds : Descriptors) (files : FileTable) (f : ℕ) :
    (holdAll fds files).file f = (files.file f).hold (count fds f) := by
  refine (holdLoop_file fds f (List.finRange 16) files).trans ?_
  rw [count, Fin.sum_univ_def]

lemma holdAll_kind (fds) (files) (f) :
    ((holdAll fds files).file f).kind = (files.file f).kind := by
  rw [holdAll_file, OpenFile.hold_kind]

lemma holdAll_next (fds) (files) : (holdAll fds files).next = files.next := by
  have hloop (slots : List (Fin 16)) (files : FileTable) : (slots.foldl (fun files i =>
        match fds i with
        | none => files
        | some g => fdHold files g) files).next = files.next := by
    induction slots generalizing files with
    | nil => rfl
    | cons i slots ih =>
      rw [List.foldl_cons, ih]
      split <;> rfl
  exact hloop _ files

/-! ### New files -/

lemma FileTable.create_file_other (files : FileTable) (kind : FileKind) (hne : g ≠ files.next) :
    (files.create kind).2.file g = files.file g := by
  simp [FileTable.create, hne]

lemma FileTable.create_file_self (files : FileTable) (kind : FileKind) :
    (files.create kind).2.file files.next = ⟨kind, 0#32, 0, decide (kind = .socket)⟩ := by
  simp [FileTable.create]

@[simp] lemma FileTable.create_next (files : FileTable) (kind : FileKind) :
    (files.create kind).2.next = files.next + 1 := rfl

def FileTable.firstRef (files : FileTable) (f : ℕ) : FileTable :=
  files.modify f fun file => { file with refcount := 1#32 }

@[simp] lemma FileTable.firstRef_next (files : FileTable) (f : ℕ) :
    (files.firstRef f).next = files.next := rfl

lemma fdInstall_cases (fds) (files) (f) :
    (fdInstall fds files f = (none, fds, files) ∧ ∀ i, fds i ≠ none) ∨
      ∃ i, fds i = none ∧ fdInstall fds files f =
        (some i, update fds i (some f), files.firstRef f) := by
  unfold fdInstall
  split
  · rename_i i hfind
    have hi := List.find?_some hfind
    exact .inr ⟨i, by simpa using hi, rfl⟩
  · rename_i hfind
    rw [List.find?_eq_none] at hfind
    exact .inl ⟨rfl, fun i => by simpa using hfind i (List.mem_finRange i)⟩

lemma tableMoves_new (hnext : files.next ≤ files'.next)
    (hfile : ∀ f < files.next, files'.file f = files.file f)
    (hcount : ∀ f < files.next, count fds' f = count fds f)
    (hfresh : ∀ f, files.next ≤ f → f < files'.next → NewFile strict (viewIn o fds' files' f)) :
    TableMoves strict o fds files fds' files' where
  next := hnext
  kind f hf := by rw [hfile f hf]
  old f hf _ := by rw [viewIn, viewIn, hfile f hf, hcount f hf]
  fresh := hfresh

lemma Bounded.count_eq_zero (hbound : Bounded fds files) (hf : files.next ≤ f) :
    count fds f = 0 :=
  SlotCounts.count_eq_zero fun i hi => absurd (hbound i f hi) hf.not_gt

lemma installed_moves {kind : FileKind} (hkind : kind ≠ .console)
    (hbound : Bounded fds files) (hother : ∀ f, files.next ≤ f → o f = 0) (hi : fds i = none) :
    TableMoves strict o fds files (update fds i (some files.next))
      ((files.create kind).2.firstRef files.next) := by
  refine tableMoves_new (by simp) (fun f hf => ?_) (fun f hf => ?_) fun f hle hlt => ?_
  · rw [FileTable.firstRef, FileTable.modify_file_other _ _ hf.ne,
      files.create_file_other kind hf.ne]
  · rw [count_fill hi, if_neg hf.ne', add_zero]
  · change f < files.next + 1 at hlt
    rw [Nat.lt_succ_iff] at hlt
    obtain rfl : f = files.next := Nat.le_antisymm hlt hle
    rw [viewIn, count_fill hi, hbound.count_eq_zero le_rfl, hother _ le_rfl]
    simp only [FileTable.firstRef, FileTable.modify, files.create_file_self kind,
      update_self, if_true]
    exact .installed hkind

lemma uninstalled_moves {kind : FileKind} {change : OpenFile → OpenFile}
    (hbound : Bounded fds files) (hother : ∀ f, files.next ≤ f → o f = 0)
    (hfresh : NewFile strict ⟨0, change ⟨kind, 0#32, 0, decide (kind = .socket)⟩⟩) :
    TableMoves strict o fds files fds ((files.create kind).2.modify files.next change) := by
  refine tableMoves_new (by simp) (fun f hf => ?_) (fun _ _ => rfl) fun f hle hlt => ?_
  · rw [FileTable.modify_file_other _ _ hf.ne, files.create_file_other kind hf.ne]
  · rw [FileTable.modify_next, FileTable.create_next, Nat.lt_succ_iff] at hlt
    obtain rfl : f = files.next := Nat.le_antisymm hlt hle
    rw [viewIn, hbound.count_eq_zero le_rfl, hother _ le_rfl]
    simp only [FileTable.modify, files.create_file_self kind, update_self]
    exact hfresh

lemma Bounded.install (hbound : Bounded fds files) (hle : files.next ≤ files'.next)
    (hf : f < files'.next) : Bounded (update fds i (some f)) files' := by
  intro j g hj
  by_cases hji : j = i
  · rw [hji, update_self] at hj
    exact some.inj hj ▸ hf
  · rw [update_of_ne hji] at hj
    exact (hbound j g hj).trans_le hle

lemma Bounded.mono (hbound : Bounded fds files) (hle : files.next ≤ files'.next) :
    Bounded fds files' := fun i f hi => (hbound i f hi).trans_le hle

structure CallMoves (strict : Prop) (o : ℕ → ℕ) (fds : Descriptors) (files : FileTable)
    (result : Descriptors × FileTable) : Prop where
  moves : TableMoves strict o fds files result.1 result.2
  bounded : Bounded result.1 result.2

lemma CallMoves.refl (hbound : Bounded fds files) :
    CallMoves strict o fds files (fds, files) := ⟨.refl, hbound⟩

/-! ### `dup2` -/

/-- `sys_dup2` gives back the reference of the slot it overwrites. -/
def FileTable.replaceRef (files : FileTable) (g : ℕ) : FileTable :=
  if ((files.dropRef g).file g).refcount.toInt ≤ 0 then vfsClose (files.dropRef g) g
  else files.dropRef g

lemma FileTable.replaceRef_file_self (files : FileTable) (g : ℕ) :
    (files.replaceRef g).file g = (files.file g).replaced := by
  have hdrop := files.dropRef_file_self g
  unfold FileTable.replaceRef OpenFile.replaced
  rw [hdrop]
  split_ifs
  · cases hk : (files.file g).kind <;>
      simp [vfsClose, FileTable.modify, hdrop, hk, OpenFile.vfsClosed]
  · exact hdrop

lemma FileTable.replaceRef_file_other (files : FileTable) (hne : f ≠ g) :
    (files.replaceRef g).file f = files.file f := by
  have hdrop : (files.dropRef g).file f = files.file f := files.modify_file_other _ hne
  unfold FileTable.replaceRef
  split_ifs
  · exact (vfsClose_file_other _ hne).trans hdrop
  · exact hdrop

lemma FileTable.replaceRef_next (files : FileTable) (g : ℕ) :
    (files.replaceRef g).next = files.next := by
  unfold FileTable.replaceRef
  split_ifs
  · exact vfsClose_next _ g
  · rfl

lemma replaced_kind (file : OpenFile) : file.replaced.kind = file.kind := by
  unfold OpenFile.replaced
  split_ifs <;> simp

lemma replaced_refcount (file : OpenFile) : file.replaced.refcount = file.drop.refcount := by
  unfold OpenFile.replaced
  split_ifs <;> simp

def overwritten (fds : Descriptors) (files : FileTable) (i : Fin 16) (released : Bool) :
    FileTable :=
  match fds i with
  | none => files
  | some g => if released then files.replaceRef g else files

lemma overwritten_file (fds : Descriptors) (files : FileTable) (i : Fin 16) (released : Bool)
    (f : ℕ) : (overwritten fds files i released).file f =
      if fds i = some f ∧ released = true then (files.file f).replaced else files.file f := by
  unfold overwritten
  cases hi : fds i with
  | none => simp
  | some g =>
    cases released with
    | false => simp
    | true =>
      by_cases hg : g = f
      · simp [hg, files.replaceRef_file_self]
      · simp [hg, files.replaceRef_file_other (Ne.symm hg)]

lemma overwritten_next (fds : Descriptors) (files : FileTable) (i : Fin 16)
    (released : Bool) : (overwritten fds files i released).next = files.next := by
  unfold overwritten
  split
  · rfl
  · split
    · exact files.replaceRef_next _
    · rfl

lemma sysDup2_cases (fds) (files) (oldfd newfd : Word) :
    (sysDup2 fds files oldfd newfd).2 = (fds, files) ∨
      ∃ p i f, fdIndex oldfd = some p ∧ newfd.toNat = i.val ∧ fds p = some f ∧ oldfd ≠ newfd ∧
        (sysDup2 fds files oldfd newfd).2 = (update fds i (some f),
          fdHold (overwritten fds files i (decide (newfd > 2#64))) f) := by
  unfold sysDup2
  cases hf : (fdIndex oldfd).bind fds with
  | none => exact .inl rfl
  | some f =>
    obtain ⟨p, hp, hpf⟩ := bind_eq_some_iff.mp hf
    by_cases hlt : newfd.toNat < 16
    · by_cases heq : oldfd = newfd
      · exact .inl (by simp [hlt, heq])
      · refine .inr ⟨p, ⟨newfd.toNat, hlt⟩, f, hp, rfl, hpf, heq, ?_⟩
        cases hi : fds ⟨newfd.toNat, hlt⟩ with
        | none => simp [hlt, heq, overwritten, hi]
        | some g => simp [hlt, heq, overwritten, hi, FileTable.replaceRef]
    · exact .inl (by simp [hlt])

lemma overwrite_moves (strict : Prop) (o : ℕ → ℕ) (fds : Descriptors) (files : FileTable)
    (i : Fin 16)
    (released : Bool)
    (hstrict : strict → ∀ g, fds i = some g → (files.file g).kind ≠ .console →
      released = true ∧ ((files.file g).kind = .plain ∨ (files.file g).refcount ≠ 1#32)) :
    TableMoves strict o fds files (update fds i none)
      (overwritten fds files i released) := by
  have hnext := overwritten_next fds files i released
  refine ⟨hnext.ge, fun f _ => ?_, fun f _ hkind => ?_, fun f hle hlt => ?_⟩
  · rw [overwritten_file]
    split_ifs
    · exact replaced_kind _
    · rfl
  · by_cases hi : fds i = some f
    · rw [viewIn_clear hi, viewIn, overwritten_file]
      cases released with
      | true =>
        rw [if_pos ⟨hi, rfl⟩]
        exact .single (.replace fun hs => (hstrict hs f hi hkind).2)
      | false =>
        rw [if_neg (by simp)]
        exact .single (.overwrite fun hs => by simpa using (hstrict hs f hi hkind).1)
    · have hcount : count (update fds i none) f = count fds f := by
        have := count_update fds f i none
        simpa [hi] using this
      rw [viewIn, viewIn, hcount, overwritten_file, if_neg fun h => hi h.1]
  · exact absurd (hnext ▸ hlt) hle.not_gt

lemma duplicate_moves (strict : Prop) (o : ℕ → ℕ) {p : Fin 16} (hp : fds p = some f)
    (hi : fds i = none)
    (hover : (files.file f).kind ≠ .console → (files.file f).refcount.toNat + 1 < 2 ^ 31) :
    TableMoves strict o fds files (update fds i (some f)) (fdHold files f) := by
  refine ⟨le_rfl, fun g _ => ?_, fun g _ hkind => ?_, fun g hle hlt => absurd hlt hle.not_gt⟩
  · by_cases hg : g = f
    · simp [hg, fdHold, FileTable.modify]
    · rw [fdHold, files.modify_file_other _ hg]
  · have hcount := count_fill (a := g) hi f
    by_cases hg : g = f
    · subst hg
      have hheld : 0 < o g + count fds g := Nat.add_pos_right _ (count_pos hp)
      rw [if_pos rfl] at hcount
      have hfile : (fdHold files g).file g = (files.file g).hold 1 := by
        simp [fdHold, FileTable.modify, OpenFile.hold]
      rw [viewIn, viewIn, hcount, hfile, ← add_assoc]
      exact .single (.hold 1 hheld (hover hkind))
    · rw [if_neg (Ne.symm hg), add_zero] at hcount
      rw [viewIn, viewIn, hcount, fdHold, files.modify_file_other _ hg]

/-! ### Calls -/

/-- The descriptors of `dup2` are different or equal in all 64 bits. -/
def FdCall.Distinct : FdCall → Prop
  | .dup2 oldfd newfd => (oldfd.setWidth 32).toNat = newfd.toNat → oldfd = newfd
  | _ => True

def FdCall.NoOverflow (fds : Descriptors) (files : FileTable) : FdCall → Prop
  | .dup2 oldfd _ => ∀ f, (fdIndex oldfd).bind fds = some f →
      (files.file f).kind ≠ .console → (files.file f).refcount.toNat + 1 < 2 ^ 31
  | _ => True

/-- `dup2` overwrites no standard descriptor and no last reference of a socket; `pipe` and
`accept` have the slots they need. -/
def FdCall.Tight (fds : Descriptors) (files : FileTable) : FdCall → Prop
  | .dup2 _ newfd => ∀ i g, newfd.toNat = i.val → fds i = some g →
      (files.file g).kind ≠ .console →
      newfd > 2#64 ∧ ((files.file g).kind = .plain ∨ (files.file g).refcount ≠ 1#32)
  | .pipe true true => ∃ i j, i ≠ j ∧ fds i = none ∧ fds j = none
  | .accept true => ∃ i, fds i = none
  | _ => True

def CoversAll (o : ℕ → ℕ) (fds : Descriptors) (files : FileTable) : Prop :=
  ∀ f < files.next, (files.file f).kind ≠ .console →
    Covered (o f + count fds f) (files.file f)

lemma sysDup2_moves {oldfd newfd : Word} (hbound : Bounded fds files)
    (hcov : CoversAll o fds files) (hdistinct : (FdCall.dup2 oldfd newfd).Distinct)
    (hover : (FdCall.dup2 oldfd newfd).NoOverflow fds files)
    (hstrict : strict → (FdCall.dup2 oldfd newfd).Tight fds files) :
    CallMoves strict o fds files (sysDup2 fds files oldfd newfd).2 := by
  rcases sysDup2_cases fds files oldfd newfd with heq | ⟨p, i, f, hp, hi, hf, hne, heq⟩
  · rw [heq]
    exact .refl hbound
  · rw [heq]
    have hpi : p ≠ i := by
      rintro rfl
      refine hne (hdistinct ?_)
      simp only [fdIndex, dite_none_right_eq_some, some.injEq] at hp
      obtain ⟨hlt, hp⟩ := hp
      rw [hi, ← hp]
    have hclear := overwrite_moves strict o fds files i (decide (newfd > 2#64))
      fun hs g hg hkind => by
        obtain ⟨hgt, hlast⟩ := hstrict hs i g hi hg hkind
        exact ⟨by simpa using hgt, hlast⟩
    have hnext := overwritten_next fds files i (decide (newfd > 2#64))
    have hlt : f < files.next := hbound p f hf
    have hover' : ((overwritten fds files i (decide (newfd > 2#64))).file f).kind ≠ .console →
        ((overwritten fds files i (decide (newfd > 2#64))).file f).refcount.toNat + 1 < 2 ^ 31 := by
      intro hkind
      rw [hclear.kind f hlt] at hkind
      have hone := hover f (by rw [hp]; exact hf) hkind
      have hpos : 0 < (files.file f).refcount.toNat :=
        (Nat.add_pos_right _ (count_pos hf)).trans_le (hcov f hlt hkind).slots
      rw [overwritten_file]
      split_ifs
      · rw [replaced_refcount, drop_refcount hpos]
        omega
      · exact hone
    have hp' : update fds i none p = some f := by rw [update_of_ne hpi, hf]
    have hdup := duplicate_moves strict o hp' (update_self i none fds) hover'
    rw [update_idem] at hdup
    refine ⟨hclear.trans hdup hnext, hbound.install ?_ ?_⟩
    · exact hnext.ge
    · exact hnext ▸ hlt

structure ConsoleFiles (files : FileTable) : Prop where
  next : 3 ≤ files.next
  kind : ∀ c < 3, (files.file c).kind = .console

lemma fdInitTaskStdio_slot (fds) (i) :
    fdInitTaskStdio fds i = fds i ∨ fds i = none ∧ ∃ c < 3, fdInitTaskStdio fds i = some c := by
  have hor (x : Option ℕ) (c : ℕ) (hc : c < 3) :
      x.or (some c) = x ∨ x = none ∧ ∃ c' < 3, x.or (some c) = some c' := by
    cases x with
    | none => exact .inr ⟨rfl, c, hc, rfl⟩
    | some f => exact .inl rfl
  unfold fdInitTaskStdio
  split_ifs with h0 h1 h2
  · rw [h0]
    exact hor _ consIn (by decide)
  · rw [h1]
    exact hor _ consOut (by decide)
  · rw [h2]
    exact hor _ consErr (by decide)
  · exact .inl rfl

lemma stdio_moves (hbound : Bounded fds files) (hcons : ConsoleFiles files) :
    CallMoves strict o fds files (fdInitTaskStdio fds, files) := by
  have hslot := fdInitTaskStdio_slot fds
  refine ⟨⟨le_rfl, fun _ _ => rfl, fun f _ hkind => ?_, fun f hle hlt => absurd hlt hle.not_gt⟩,
    fun i f hi => ?_⟩
  · have hcount : count (fdInitTaskStdio fds) f = count fds f := by
      refine count_congr fun i => ?_
      rcases hslot i with heq | ⟨hnone, c, hc, heq⟩
      · rw [heq]
      · have hne : c ≠ f := by
          rintro rfl
          exact hkind (hcons.kind c hc)
        simp [heq, hnone, hne]
    rw [viewIn, viewIn, hcount]
  · rcases hslot i with heq | ⟨-, c, hc, heq⟩
    · exact hbound i f (heq ▸ hi)
    · obtain rfl := some.inj (heq.symm.trans hi)
      exact hc.trans_le hcons.next

lemma fdClose_moves (hbound : Bounded fds files) (fd : Word) :
    CallMoves strict o fds files (fdClose fds files fd).2 := by
  fun_cases fdClose fds files fd with
  | case1 => exact .refl hbound
  | case2 i => exact ⟨(closeSlot_moves strict o fds files i).1, closeSlot_bounded hbound i⟩

section Making

variable (hbound : Bounded fds files) (hother : ∀ f, files.next ≤ f → o f = 0)
include hbound hother

/-- `sys_open`, `sys_socket` and `sys_accept` make one file and install it; without a free
slot they change it by `discard`. -/
theorem makeFile_moves (kind : FileKind) (discard : OpenFile → OpenFile)
    {result : Descriptors × FileTable} (hkind : kind ≠ .console)
    (hfresh : (∀ i, fds i ≠ none) →
      NewFile strict ⟨0, discard ⟨kind, 0#32, 0, decide (kind = .socket)⟩⟩)
    (hsome : ∀ i d, fdInstall fds (files.create kind).2 (files.create kind).1 = (some i, d) →
      result = d)
    (hnone : fdInstall fds (files.create kind).2 (files.create kind).1 =
      (none, fds, (files.create kind).2) →
      result = (fds, (files.create kind).2.modify (files.create kind).1 discard)) :
    CallMoves strict o fds files result := by
  rcases fdInstall_cases fds (files.create kind).2 files.next with ⟨heq, hfull⟩ | ⟨i, hi, heq⟩
  · rw [hnone heq]
    exact ⟨uninstalled_moves hbound hother (hfresh hfull), hbound.mono (by simp)⟩
  · rw [hsome _ _ heq]
    exact ⟨installed_moves hkind hbound hother hi, hbound.install (by simp) (by simp)⟩

omit hbound hother in
lemma vfsClose_create (files : FileTable) :
    vfsClose (files.create .plain).2 files.next =
      (files.create .plain).2.modify files.next fun file =>
        { file with closed := file.closed + 1 } := by
  rw [vfsClose, files.create_file_self]

lemma sysOpen_moves (found : Bool) :
    CallMoves strict o fds files (sysOpen fds files found).2 := by
  cases found with
  | false => exact .refl hbound
  | true =>
    refine makeFile_moves hbound hother .plain (fun file => { file with closed := file.closed + 1 })
      (by simp) (fun _ => .closed (by simp)) (fun i d h => by simp [sysOpen, h]) fun h => ?_
    simp only [sysOpen, Bool.not_true, Bool.false_eq_true, ↓reduceIte, h]
    exact congrArg (Prod.mk fds) (vfsClose_create files)

lemma sysSocket_moves (found) :
    CallMoves strict o fds files (sysSocket fds files found).2 := by
  cases found with
  | false => exact .refl hbound
  | true =>
    exact makeFile_moves hbound hother .socket
      (fun file => { file with closed := file.closed + 1, socketHeld := false })
      (by simp) (fun _ => .closed (by simp)) (fun i d h => by simp [sysSocket, h])
      fun h => by simp [sysSocket, socketFree, h]

lemma sysAccept_moves (found) (hstrict : strict → (FdCall.accept found).Tight fds files) :
    CallMoves strict o fds files (sysAccept fds files found).2 := by
  cases found with
  | false => exact .refl hbound
  | true =>
    refine makeFile_moves hbound hother .socket
      (fun file => { file with closed := file.closed + 1 })
      (by simp) (fun hfull => .lost (by simp) fun hs => ?_) (fun i d h => by simp [sysAccept, h])
      fun h => by simp [sysAccept, h]
    obtain ⟨i, hi⟩ := hstrict hs
    exact hfull i hi

omit hbound hother

/-! ### `pipe` -/

def FileTable.createTwo (files : FileTable) : FileTable :=
  ((files.create .plain).2.create .plain).2

lemma FileTable.createTwo_file_old (files : FileTable) (hf : f < files.next) :
    files.createTwo.file f = files.file f := by
  rw [FileTable.createTwo, FileTable.create_file_other _ _ (by simp; omega),
    FileTable.create_file_other _ _ hf.ne]

lemma FileTable.createTwo_file_new (files : FileTable) (hf : f = files.next ∨ f = files.next + 1) :
    files.createTwo.file f = ⟨.plain, 0#32, 0, false⟩ := by
  rcases hf with rfl | rfl
  · rw [FileTable.createTwo, FileTable.create_file_other _ _ (by simp), FileTable.create_file_self]
    simp
  · exact FileTable.create_file_self (files.create .plain).2 .plain

lemma sysPipe_cases (fds : Descriptors) (files : FileTable) :
    let result := (sysPipe fds files true true).2
    (result = (fds, files.createTwo) ∧ ∀ i, fds i ≠ none) ∨
      (∃ i, fds i = none ∧ (∀ j, j ≠ i → fds j ≠ none) ∧
        result = (fds, (files.createTwo.firstRef files.next).release files.next)) ∨
      ∃ i j, fds i = none ∧ fds j = none ∧ j ≠ i ∧
        result = (update (update fds i (some files.next)) j
            (some (files.next + 1)),
          (files.createTwo.firstRef files.next).firstRef (files.next + 1)) := by
  rcases hr : fdInstall fds files.createTwo files.next with ⟨rf, fds₁, files₁⟩
  rcases hw : fdInstall fds₁ files₁ (files.next + 1) with ⟨wf, fds₂, files₂⟩
  have hfirst := fdInstall_cases fds files.createTwo files.next
  have hsecond := fdInstall_cases fds₁ files₁ (files.next + 1)
  rw [hr] at hfirst
  rw [hw] at hsecond
  simp only [FileTable.createTwo, FileTable.create] at hr
  simp only [sysPipe, FileTable.create, if_true, Prod.map, id, hr, hw]
  rcases hfirst with ⟨⟨rfl, rfl, rfl⟩, hfull⟩ | ⟨i, hi, rfl, rfl, rfl⟩
  · rcases hsecond with ⟨⟨rfl, rfl, rfl⟩, -⟩ | ⟨j, hj, -⟩
    · exact .inl ⟨rfl, hfull⟩
    · exact absurd hj (hfull j)
  · rcases hsecond with ⟨⟨rfl, rfl, rfl⟩, hfull⟩ | ⟨j, hj, rfl, rfl, rfl⟩
    · refine .inr (.inl ⟨i, hi, fun j hj => ?_, ?_⟩)
      · have := hfull j
        rwa [update_of_ne hj] at this
      · have hplain : ((files.createTwo.firstRef files.next).file files.next).kind = .plain := by
          simp [FileTable.firstRef, FileTable.modify, files.createTwo_file_new (.inl rfl)]
        have hback : update fds i none = fds := by
          rw [← hi, update_eq_self]
        simp [closeSlot, hplain, hback]
    · have hne : j ≠ i := by
        rintro rfl
        simp at hj
      rw [update_of_ne hne] at hj
      exact .inr (.inr ⟨i, j, hi, hj, hne, rfl⟩)

lemma newPair (hle : n ≤ f) (hlt : f < n + 2) : f = n ∨ f = n + 1 := by omega

lemma FileTable.firstRef_file_self (files : FileTable) (f : ℕ) :
    (files.firstRef f).file f = { files.file f with refcount := 1#32 } := by
  simp [FileTable.firstRef, FileTable.modify]

lemma FileTable.firstRef_file_other (files : FileTable) (hne : g ≠ f) :
    (files.firstRef f).file g = files.file g :=
  files.modify_file_other _ hne

include hbound hother

lemma installedTwo_moves {j : Fin 16} (hi : fds i = none) (hj : fds j = none) (hne : j ≠ i) :
    TableMoves strict o fds files
      (update (update fds i (some files.next)) j (some (files.next + 1)))
      ((files.createTwo.firstRef files.next).firstRef (files.next + 1)) := by
  have hcount (f : ℕ) : count (update (update fds i (some files.next)) j (some (files.next + 1))) f
      = count fds f + (if files.next = f then 1 else 0) + if files.next + 1 = f then 1 else 0 := by
    rw [count_fill (by rw [update_of_ne hne, hj]), count_fill hi]
  have hinstalled : NewFile strict ⟨1, ⟨.plain, 1#32, 0, false⟩⟩ := .installed (by simp)
  refine tableMoves_new (Nat.le_add_right _ 2) (fun f hf => ?_) (fun f hf => ?_) fun f hle hlt => ?_
  · rw [FileTable.firstRef_file_other _ (by omega), FileTable.firstRef_file_other _ hf.ne,
      files.createTwo_file_old hf]
  · rw [hcount, if_neg hf.ne', if_neg (by omega), add_zero, add_zero]
  · rw [viewIn, hcount, hother f hle, hbound.count_eq_zero hle]
    rcases newPair hle hlt with rfl | rfl
    · rw [FileTable.firstRef_file_other _ (by simp), FileTable.firstRef_file_self,
        files.createTwo_file_new (.inl rfl)]
      simpa using hinstalled
    · rw [FileTable.firstRef_file_self, FileTable.firstRef_file_other _ (by simp),
        files.createTwo_file_new (.inr rfl)]
      simpa using hinstalled

lemma closedTwo_moves (hstrict : ¬ strict) :
    TableMoves strict o fds files fds
      ((files.createTwo.firstRef files.next).release files.next) := by
  have hnext : ((files.createTwo.firstRef files.next).release files.next).next =
      files.next + 2 := FileTable.release_next _ _
  refine tableMoves_new (by rw [hnext]; simp) (fun f hf => ?_) (fun _ _ => rfl) fun f hle hlt => ?_
  · rw [FileTable.release_file_other _ hf.ne, FileTable.firstRef_file_other _ hf.ne,
      files.createTwo_file_old hf]
  · rw [viewIn, hother f hle, hbound.count_eq_zero hle]
    rw [hnext] at hlt
    rcases newPair hle hlt with rfl | rfl
    · have hfile := (files.createTwo.firstRef_file_self files.next).trans
        (by rw [files.createTwo_file_new (.inl rfl)])
      rw [FileTable.release_file_self _ _ (by simp [hfile]), hfile]
      exact .closed (by simp)
    · rw [FileTable.release_file_other _ (by simp), FileTable.firstRef_file_other _ (by simp),
        files.createTwo_file_new (.inr rfl)]
      exact .lost (by simp) hstrict

lemma sysPipe_moves (reader writer : Bool)
    (hstrict : strict → (FdCall.pipe reader writer).Tight fds files) :
    CallMoves strict o fds files (sysPipe fds files reader writer).2 := by
  have hone : CallMoves strict o fds files (fds, vfsClose (files.create .plain).2 files.next) := by
    rw [vfsClose_create]
    refine ⟨?_, hbound.mono (by simp)⟩
    dsimp only
    exact uninstalled_moves hbound hother (.closed (by simp))
  cases reader <;> cases writer
  · exact .refl hbound
  · exact hone
  · exact hone
  · have hgrown : files.next ≤ files.createTwo.next := Nat.le_add_right _ 2
    rcases sysPipe_cases fds files with ⟨heq, hfull⟩ | ⟨i, hi, hfull, heq⟩ |
      ⟨i, j, hi, hj, hne, heq⟩
    · rw [heq]
      refine ⟨tableMoves_new hgrown (fun f hf => files.createTwo_file_old hf) (fun _ _ => rfl)
        fun f hle hlt => ?_, hbound.mono hgrown⟩
      rw [viewIn, hother f hle, hbound.count_eq_zero hle,
        files.createTwo_file_new (newPair hle hlt)]
      refine .lost (by simp) fun hs => ?_
      obtain ⟨i, -, -, hi, -⟩ := hstrict hs
      exact hfull i hi
    · rw [heq]
      refine ⟨closedTwo_moves hbound hother fun hs => ?_, hbound.mono ?_⟩
      · -- a second free slot would have been found
        obtain ⟨p, q, hpq, hp, hq⟩ := hstrict hs
        by_cases hpi : p = i
        · exact hfull q (fun hqi => hpq (hpi.trans hqi.symm)) hq
        · exact hfull p hpi hp
      · rw [FileTable.release_next]
        exact hgrown
    · rw [heq]
      have hfirst : Bounded (update fds i (some files.next)) files.createTwo :=
        hbound.install hgrown (Nat.lt_add_of_pos_right Nat.two_pos)
      exact ⟨installedTwo_moves hbound hother hi hj hne,
        hfirst.install le_rfl (Nat.lt_succ_self (files.next + 1))⟩

lemma FdCall.moves {call : FdCall} (hcons : ConsoleFiles files)
    (hcov : CoversAll o fds files) (hdistinct : call.Distinct) (hover : call.NoOverflow fds files)
    (hstrict : strict → call.Tight fds files) :
    CallMoves strict o fds files (call.run fds files) := by
  cases call with
  | stdio => exact stdio_moves hbound hcons
  | openFile found => exact sysOpen_moves hbound hother found
  | close fd => exact fdClose_moves hbound fd
  | dup2 oldfd newfd => exact sysDup2_moves hbound hcov hdistinct hover hstrict
  | pipe reader writer => exact sysPipe_moves hbound hother reader writer hstrict
  | socket found => exact sysSocket_moves hbound hother found
  | accept found => exact sysAccept_moves hbound hother found hstrict

end Making

end HelixOS
