import HelixOS.FileMoves
import HelixOS.TrackedRuns

/-!
# Reference counts over all tasks

The slots of all live tasks that refer to a file, compared with its reference count.  The
count is never too small in runs without a `dup2` of a descriptor onto itself by another
64-bit value, and never too large in runs that also avoid the paths that lose a reference.
-/

namespace HelixOS

open Function

inductive Life where
  | free
  | alive
  | zombie
  deriving DecidableEq

/-- The descriptors of all tasks, and the open files. -/
structure Desk where
  life : Slot → Life
  fds : Slot → Descriptors
  files : FileTable

/-- `task_fork` without memory for the kernel stack, without memory for the page tables,
and with enough of it. -/
inductive ForkOutcome where
  | noStack
  | noTables
  | done
  deriving DecidableEq

inductive DeskOp where
  | create (i : Slot)
  | call (t : Slot) (call : FdCall)
  | fork (t i : Slot) (outcome : ForkOutcome)
  | exit (t : Slot)
  | reap (i : Slot)

def Desk.put (d : Desk) (i : Slot) (fds : Descriptors) : Desk :=
  { d with life := update d.life i .alive, fds := update d.fds i fds }

def Desk.step (d : Desk) : DeskOp → Option Desk
  | .create i => if d.life i = .free then some (d.put i fun _ => none) else none
  | .call t call =>
    if d.life t = .alive then
      let result := call.run (d.fds t) d.files
      some { d with fds := update d.fds t result.1, files := result.2 }
    else none
  | .fork t i outcome =>
    if d.life t = .alive ∧ d.life i = .free then
      match outcome with
      | .noStack => some d
      | .noTables => some { d with files := holdAll (d.fds t) d.files }
      | .done => some ({ d with files := holdAll (d.fds t) d.files }.put i (d.fds t))
    else none
  | .exit t =>
    if d.life t = .alive then
      let closed := closeAll (d.fds t) d.files
      some
        { life := update d.life t .zombie
          fds := update d.fds t closed.1
          files := closed.2 }
    else none
  | .reap i =>
    if d.life i = .zombie then
      some
        { life := update d.life i .free
          fds := update d.fds i fun _ => none
          files := (closeAll (d.fds i) d.files).2 }
    else none

/-! ## Counts -/

open Relation SlotCounts TrackedRuns Option

variable {strict : Prop} {P : ℕ → OpenFile → Prop} {d d' : Desk} {op : DeskOp} {i t : Slot} {f : ℕ}

def Desk.held (d : Desk) : Slot × Fin 16 → Option ℕ := fun p =>
  if d.life p.1 = .alive then d.fds p.1 p.2 else none

def Desk.slots (d : Desk) (f : ℕ) : ℕ := count d.held f

/-- Every file that is not a console satisfies `P` with the number of its slots. -/
structure Desk.Counts (P : ℕ → OpenFile → Prop) (d : Desk) : Prop where
  consoles : ConsoleFiles d.files
  bounded : ∀ t, d.life t ≠ .free → Bounded (d.fds t) d.files
  zombies : ∀ t, d.life t = .zombie → ∀ i f, d.fds t i = some f →
    (d.files.file f).kind = .console
  counted : ∀ f < d.files.next, (d.files.file f).kind ≠ .console → P (d.slots f) (d.files.file f)

/-! ## Rows of the table -/

lemma Desk.slots_row (halive : d.life t = .alive) (f) :
    d.slots f = others d.held t f + count (d.fds t) f := by
  have hrow : (fun q => d.held (t, q)) = d.fds t := by
    simp [Desk.held, halive]
  rw [Desk.slots, count_rows d.held t, hrow]

lemma Desk.slots_row_other (hdead : d.life t ≠ .alive) (f) :
    d.slots f = others d.held t f := by
  rw [Desk.slots, count_rows d.held t, count_eq_zero fun q => by simp [Desk.held, hdead], add_zero]

lemma count_none (f) : count (fun _ => none : Descriptors) f = 0 :=
  count_eq_zero fun _ => by simp

def Desk.setRow (d : Desk) (t : Slot) (life : Life) (fds : Descriptors) (files : FileTable) :
    Desk where
  life := update d.life t life
  fds := update d.fds t fds
  files := files

lemma Desk.slots_setRow (d : Desk) (t : Slot) (life : Life) (fds : Descriptors)
    (files : FileTable) (f : ℕ) : (d.setRow t life fds files).slots f =
      others d.held t f + if life = .alive then count fds f else 0 := by
  have hothers : others (d.setRow t life fds files).held t f = others d.held t f :=
    others_congr fun i hi q => by simp [Desk.held, Desk.setRow, hi]
  split_ifs with halive
  · rw [Desk.slots_row (t := t) (by simp [Desk.setRow, halive]), hothers]
    simp [Desk.setRow]
  · rw [Desk.slots_row_other (t := t) (by simpa [Desk.setRow] using halive), hothers, add_zero]

lemma Desk.Counts.others_fresh (hok : d.Counts P) (t) (hf : d.files.next ≤ f) :
    others d.held t f = 0 := by
  refine count_eq_zero fun p hp => ?_
  split_ifs at hp
  unfold Desk.held at hp
  split_ifs at hp with halive
  exact absurd (hok.bounded p.1 (by simp [halive]) p.2 f hp) hf.not_gt

/-! ## Conditions on an operation -/

def DeskOp.Distinct : DeskOp → Prop
  | .call _ c => c.Distinct
  | _ => True

def DeskOp.NoOverflow (d : Desk) : DeskOp → Prop
  | .call t c => c.NoOverflow (d.fds t) d.files
  | .fork t _ _ => ∀ f < d.files.next, (d.files.file f).kind ≠ .console →
      (d.files.file f).refcount.toNat + count (d.fds t) f < 2 ^ 31
  | _ => True

/-- The operation loses no reference; a `fork` that fails after it has taken its references
has only console files to share. -/
def DeskOp.Tight (d : Desk) : DeskOp → Prop
  | .call t c => c.Tight (d.fds t) d.files
  | .fork t _ .noTables => ∀ i f, d.fds t i = some f → (d.files.file f).kind = .console
  | _ => True

/-! ## Steps -/

def Desk.view (d : Desk) (f : ℕ) : FileView := ⟨d.slots f, d.files.file f⟩

structure DeskMoves (strict : Prop) (d d' : Desk) : Prop where
  next : d.files.next ≤ d'.files.next
  kind : ∀ f < d.files.next, (d'.files.file f).kind = (d.files.file f).kind
  old : ∀ f < d.files.next, (d.files.file f).kind ≠ .console →
    ReflTransGen (FileMove strict) (d.view f) (d'.view f)
  fresh : ∀ f, d.files.next ≤ f → f < d'.files.next → NewFile strict (d'.view f)
  bounded : ∀ t, d'.life t ≠ .free → Bounded (d'.fds t) d'.files
  zombies : ∀ t, d'.life t = .zombie → ∀ i f, d'.fds t i = some f →
    (d'.files.file f).kind = .console

lemma DeskMoves.refl (hok : d.Counts P) : DeskMoves strict d d :=
  ⟨le_rfl, fun _ _ => rfl, fun _ _ _ => .refl, fun _ hle hlt => absurd hle hlt.not_ge,
    hok.bounded, hok.zombies⟩

lemma Desk.Counts.setRow {life : Life} {fds fds' new : Descriptors} {files : FileTable}
    (hok : d.Counts P) (hmoves : TableMoves strict (others d.held t) fds d.files fds' files)
    (hbefore : ∀ f, (d.files.file f).kind ≠ .console →
      d.slots f = others d.held t f + count fds f)
    (hafter : ∀ f, (files.file f).kind ≠ .console →
      (if life = .alive then count new f else 0) = count fds' f)
    (hself : life ≠ .free → Bounded new files)
    (hzombie : life = .zombie → ∀ i f, new i = some f → (files.file f).kind = .console) :
    DeskMoves strict d (d.setRow t life new files) where
  next := hmoves.next
  kind := hmoves.kind
  old f hf hkind := by
    rw [Desk.view, Desk.view, hbefore f hkind, Desk.slots_setRow,
      hafter f ((hmoves.kind f hf).trans_ne hkind)]
    exact hmoves.old f hf hkind
  fresh f hle hlt := by
    have hnew := hmoves.fresh f hle hlt
    rw [Desk.view, Desk.slots_setRow, hafter f hnew.covered.kind]
    exact hnew
  bounded i hi := by
    by_cases hit : i = t
    · simp only [hit, Desk.setRow, update_self] at hi ⊢
      exact hself hi
    · simp only [Desk.setRow, update_of_ne hit] at hi ⊢
      exact (hok.bounded i hi).mono hmoves.next
  zombies i hi j f hj := by
    by_cases hit : i = t
    · simp only [hit, Desk.setRow, update_self] at hi hj
      exact hzombie hi j f hj
    · simp only [Desk.setRow, update_of_ne hit] at hi hj ⊢
      rw [hmoves.kind f (hok.bounded i (by simp [hi]) j f hj)]
      exact hok.zombies i hi j f hj

lemma Desk.Counts.call {call : FdCall} (hok : d.Counts P)
    (hcov : ∀ n file, P n file → Covered n file) (hdistinct : call.Distinct)
    (hover : call.NoOverflow (d.fds t) d.files) (hstrict : strict → call.Tight (d.fds t) d.files)
    (hstep : d.step (.call t call) = some d') : DeskMoves strict d d' := by
  simp only [Desk.step, ite_none_right_eq_some, some.injEq] at hstep
  obtain ⟨halive, hd'⟩ := hstep
  obtain rfl : d.setRow t .alive (call.run (d.fds t) d.files).1 (call.run (d.fds t) d.files).2 =
      d' := by rw [← hd', Desk.setRow, ← halive, update_eq_self]
  obtain ⟨hmoves, hbound⟩ := FdCall.moves (hok.bounded t (by simp [halive])) (fun f hf =>
    hok.others_fresh t hf) hok.consoles (fun f hf hkind => hcov _ _ (Desk.slots_row halive f ▸
    hok.counted f hf hkind)) hdistinct hover hstrict
  exact hok.setRow hmoves (fun f _ => Desk.slots_row halive f) (fun _ _ => if_pos rfl)
    (fun _ => hbound) fun h => by cases h

lemma Desk.Counts.exit (hok : d.Counts P) (hstep : d.step (.exit t) = some d') :
    DeskMoves strict d d' := by
  simp only [Desk.step, ite_none_right_eq_some, some.injEq] at hstep
  obtain ⟨halive, rfl⟩ := hstep
  obtain ⟨hmoves, hbound, hleft⟩ := closeAll_moves strict (others d.held t)
    (hok.bounded t (by simp [halive]))
  exact hok.setRow hmoves (fun f _ => Desk.slots_row halive f) (fun f hkind => (count_eq_zero fun i
    hi => hkind (hleft i f hi)).symm) (fun _ => hbound) fun _ => hleft

lemma Desk.Counts.reap (hok : d.Counts P) (hstep : d.step (.reap i) = some d') :
    DeskMoves strict d d' := by
  simp only [Desk.step, ite_none_right_eq_some, some.injEq] at hstep
  obtain ⟨hzombie, rfl⟩ := hstep
  obtain ⟨hmoves, -, hleft⟩ := closeAll_moves strict (others d.held i)
    (hok.bounded i (by simp [hzombie]))
  refine hok.setRow hmoves (fun f hkind => ?_) (fun f hkind => (count_eq_zero fun j hj => hkind
    (hleft j f hj)).symm) (fun h => absurd rfl h) fun h => by cases h
  -- a zombie has console files only
  rw [Desk.slots_row_other (t := i) (by simp [hzombie]),
    count_eq_zero fun j hj => hkind (hok.zombies i hzombie j f hj), add_zero]

lemma Desk.held_moves (halive : d.life t = .alive) (n : ℕ → ℕ)
    (hover : ∀ f < d.files.next, (d.files.file f).kind ≠ .console →
      (d.files.file f).refcount.toNat + count (d.fds t) f < 2 ^ 31)
    (hn : ∀ f, n f = d.slots f + count (d.fds t) f ∨
      n f = d.slots f ∧ (strict → (d.files.file f).kind = .console ∨ count (d.fds t) f = 0))
    (f) (hf : f < d.files.next) (hkind : (d.files.file f).kind ≠ .console) :
    ReflTransGen (FileMove strict) (d.view f) ⟨n f, (holdAll (d.fds t) d.files).file f⟩ := by
  rw [holdAll_file, Desk.view]
  by_cases hzero : count (d.fds t) f = 0
  · have hsame : n f = d.slots f := by
      rcases hn f with h | h
      · rw [h, hzero, add_zero]
      · exact h.1
    rw [hsame, hzero, OpenFile.hold_zero]
  · have hheld : 0 < d.slots f := by
      rw [Desk.slots_row halive]
      exact Nat.add_pos_right _ (Nat.pos_of_ne_zero hzero)
    rcases hn f with h | ⟨h, hlost⟩
    · rw [h]
      exact .single (.hold _ hheld (hover f hf hkind))
    · rw [h]
      refine .single (.leak _ (fun hs => ?_) hheld (hover f hf hkind))
      rcases hlost hs with hconsole | hnone
      · exact hkind hconsole
      · exact hzero hnone

lemma Desk.Counts.fork {outcome : ForkOutcome} (hok : d.Counts P)
    (hover : (DeskOp.fork t i outcome).NoOverflow d)
    (hstrict : strict → (DeskOp.fork t i outcome).Tight d)
    (hstep : d.step (.fork t i outcome) = some d') : DeskMoves strict d d' := by
  simp only [Desk.step, ite_none_right_eq_some] at hstep
  obtain ⟨⟨halive, hfree⟩, hd'⟩ := hstep
  have hnext := holdAll_next (d.fds t) d.files
  have hkinds := holdAll_kind (d.fds t) d.files
  have hbound (fds : Descriptors) (hfds : Bounded fds d.files) :
      Bounded fds (holdAll (d.fds t) d.files) := hfds.mono hnext.ge
  cases outcome with
  | noStack =>
    obtain rfl := some.inj hd'
    exact .refl hok
  | noTables =>
    obtain rfl := some.inj hd'
    refine ⟨hnext.ge, fun f _ => hkinds f, fun f hf hkind => ?_, fun f hle hlt => absurd (hnext ▸
      hlt) hle.not_gt, fun j hj => hbound _ (hok.bounded j hj), fun j hj q f hq =>
      (hkinds f).trans (hok.zombies j hj q f hq)⟩
    refine Desk.held_moves halive d.slots hover (fun g => .inr ⟨rfl, fun hs => ?_⟩) f hf hkind
    by_cases hconsole : (d.files.file g).kind = .console
    · exact .inl hconsole
    · exact .inr (count_eq_zero fun q hq => hconsole (hstrict hs q g hq))
  | done =>
    obtain rfl := some.inj hd'
    have hslots (g : ℕ) : d.slots g = others d.held i g :=
      Desk.slots_row_other (by simp [hfree]) g
    have hmoves : TableMoves strict (others d.held i) (fun _ => none) d.files (d.fds t)
        (holdAll (d.fds t) d.files) := by
      refine ⟨hnext.ge, fun f _ => hkinds f, fun f hf hkind => ?_,
        fun f hle hlt => absurd (hnext ▸ hlt) hle.not_gt⟩
      rw [viewIn, count_none, add_zero, ← hslots]
      refine Desk.held_moves halive (fun g => others d.held i g + count (d.fds t) g) hover
        (fun g => .inl ?_) f hf hkind
      rw [hslots]
    exact hok.setRow hmoves (fun f _ => by rw [hslots, count_none, add_zero])
      (fun _ _ => if_pos rfl)
      (fun _ => hbound _ (hok.bounded t (by simp [halive]))) fun h => by cases h

lemma Desk.Counts.create (hok : d.Counts P) (hstep : d.step (.create i) = some d') :
    DeskMoves strict d d' := by
  simp only [Desk.step, ite_none_right_eq_some, some.injEq] at hstep
  obtain ⟨hfree, rfl⟩ := hstep
  have hsame : TableMoves strict (others d.held i) (fun _ => none) d.files (fun _ => none)
      d.files := .refl
  refine hok.setRow hsame (fun f _ => ?_) (fun _ _ => if_pos rfl) (fun _ q f hq => by cases hq)
    fun h => by cases h
  rw [Desk.slots_row_other (t := i) (by simp [hfree]), count_none, add_zero]

lemma Desk.Counts.moves (hok : d.Counts P) (hcov : ∀ n file, P n file → Covered n file)
    (hdistinct : op.Distinct) (hover : op.NoOverflow d) (hstrict : strict → op.Tight d)
    (hstep : d.step op = some d') : DeskMoves strict d d' := by
  cases op with
  | create i => exact hok.create hstep
  | call t c => exact hok.call hcov hdistinct hover hstrict hstep
  | fork t i outcome => exact hok.fork hover hstrict hstep
  | exit t => exact hok.exit hstep
  | reap i => exact hok.reap hstep

lemma DeskMoves.counts (h : DeskMoves strict d d') (hok : d.Counts P)
    (hmove : ∀ v v' : FileView, P v.slots v.file → FileMove strict v v' → P v'.slots v'.file)
    (hfresh : ∀ v, NewFile strict v → P v.slots v.file) : d'.Counts P where
  consoles := ⟨hok.consoles.next.trans h.next, fun c hc =>
    (h.kind c (hc.trans_le hok.consoles.next)).trans (hok.consoles.kind c hc)⟩
  bounded := h.bounded
  zombies := h.zombies
  counted f hf hkind := by
    by_cases hlt : f < d.files.next
    · have hkind' : (d.files.file f).kind ≠ .console := (h.kind f hlt).symm.trans_ne hkind
      have hmoved (v : FileView) (hv : ReflTransGen (FileMove strict) (d.view f) v) :
          P v.slots v.file := by
        induction hv with
        | refl => exact hok.counted f hlt hkind'
        | tail _ hstep ih => exact hmove _ _ ih hstep
      exact hmoved (d'.view f) (h.old f hlt hkind')
    · exact hfresh (d'.view f) (h.fresh f (Nat.le_of_not_lt hlt) hf)

lemma Desk.Counts.step (hok : d.Counts P)
    (hmove : ∀ v v' : FileView, P v.slots v.file → FileMove strict v v' → P v'.slots v'.file)
    (hfresh : ∀ v, NewFile strict v → P v.slots v.file) (hcov : ∀ n file, P n file → Covered n file)
    (hdistinct : op.Distinct) (hover : op.NoOverflow d) (hstrict : strict → op.Tight d)
    (hstep : d.step op = some d') : d'.Counts P :=
  (hok.moves hcov hdistinct hover hstrict hstep).counts hok hmove hfresh

/-! ## Runs -/

/-- No task, and no files but the consoles. -/
structure Desk.Booted (d : Desk) : Prop where
  free : ∀ t, d.life t = .free
  consoles : ConsoleFiles d.files
  empty : ∀ f < d.files.next, (d.files.file f).kind = .console

lemma Desk.Booted.counts (hboot : d.Booted) : d.Counts P where
  consoles := hboot.consoles
  bounded t ht := absurd (hboot.free t) ht
  zombies t ht := by simp [hboot.free t] at ht
  counted f hf hkind := absurd (hboot.empty f hf) hkind

/-- No file is freed while a slot refers to it. -/
theorem refcount_covers_slots {d₀ d : Desk} (hboot : d₀.Booted)
    (hreach : Reaches Desk.step (fun _ _ _ h => h)
      (fun d op => op.Distinct ∧ op.NoOverflow d) d₀ () d ())
    {f : ℕ} (hf : f < d.files.next) (hkind : (d.files.file f).kind ≠ .console) :
    (d.slots f : ℤ) ≤ (d.files.file f).refcount.toInt ∧
      (0 < d.slots f → (d.files.file f).closed = 0) := by
  have hok : d.Counts Covered := hreach.invariant (fun d _ => d.Counts Covered) hboot.counts
    fun _ _ _ _ hok hallowed hstep => hok.step (fun _ _ hv h => hv.move h)
      (fun _ h => h.covered) (fun _ _ h => h) hallowed.1 hallowed.2 (fun h : False => h.elim) hstep
  have hcov := hok.counted f hf hkind
  have hsmall := hcov.small
  rw [BitVec.toInt_eq_toNat_of_lt (by omega)]
  exact ⟨Int.ofNat_le.mpr hcov.slots, hcov.kept⟩

lemma Exact.covered {n : ℕ} {file : OpenFile} (h : Exact n file) : Covered n file :=
  ⟨h.kind, h.small, h.slots.le, h.kept⟩

lemma Desk.slots_le (d : Desk) (f : ℕ) : d.slots f ≤ 128 := by
  have hle : d.slots f ≤ Fintype.card (Slot × Fin 16) := count_le_card
  simpa using hle

lemma Desk.Counts.noOverflow (hok : d.Counts Exact) (hstep : d.step op = some d') :
    op.NoOverflow d := by
  have hsmall (f : ℕ) (hf : f < d.files.next) (hkind : (d.files.file f).kind ≠ .console) :
      (d.files.file f).refcount.toNat ≤ 128 :=
    (hok.counted f hf hkind).slots ▸ d.slots_le f
  cases op with
  | call t c =>
    cases c with
    | dup2 oldfd newfd =>
      intro f hbind hkind
      obtain ⟨p, -, hp⟩ := bind_eq_some_iff.mp hbind
      simp only [Desk.step, ite_none_right_eq_some] at hstep
      have hf := hok.bounded t (by simp [hstep.1]) p f hp
      have := hsmall f hf hkind
      omega
    | stdio | openFile | close | pipe | socket | accept => trivial
  | fork t i outcome =>
    intro f hf hkind
    have hcount : count (d.fds t) f ≤ Fintype.card (Fin 16) := count_le_card
    have := hsmall f hf hkind
    simp only [Fintype.card_fin] at hcount
    omega
  | create | exit | reap => trivial

lemma Desk.Booted.exact {d₀ : Desk} (hboot : d₀.Booted)
    (hreach : Reaches Desk.step (fun _ _ _ h => h) (fun d op => op.Distinct ∧ op.Tight d)
      d₀ () d ()) : d.Counts Exact :=
  hreach.invariant (fun d _ => d.Counts Exact) hboot.counts
    fun _ _ _ _ hok hallowed hstep => hok.step (fun _ _ hv h => hv.move h)
      (fun _ h => h.exact) (fun _ _ h => h.covered) hallowed.1 (hok.noOverflow hstep)
      (fun _ => hallowed.2) hstep

/-- A file that no slot refers to has been freed, once and with its socket. -/
theorem refcount_is_slots {d₀ d : Desk} (hboot : d₀.Booted)
    (hreach : Reaches Desk.step (fun _ _ _ h => h) (fun d op => op.Distinct ∧ op.Tight d)
      d₀ () d ())
    {f : ℕ} (hf : f < d.files.next) (hkind : (d.files.file f).kind ≠ .console) :
    (d.files.file f).refcount.toInt ≤ d.slots f ∧
      (d.slots f = 0 → (d.files.file f).closed = 1 ∧ (d.files.file f).socketHeld = false) := by
  have hexact := (hboot.exact hreach).counted f hf hkind
  have hsmall := hexact.small
  rw [BitVec.toInt_eq_toNat_of_lt (by omega)]
  exact ⟨Int.ofNat_le.mpr hexact.slots.ge, hexact.freed⟩

/-! ## Runs of one task -/

def bootDesk : Desk where
  life _ := .free
  fds _ := fun _ => none
  files := ⟨fun _ => ⟨.console, 0#32, 0, false⟩, 3⟩

lemma bootDesk_booted : bootDesk.Booted :=
  ⟨fun _ => rfl, ⟨le_rfl, fun _ _ => rfl⟩, fun _ _ => rfl⟩

def openRun : List DeskOp := [.create 0, .call 0 .stdio, .call 0 (.openFile true)]

theorem open_file_covered : ∃ d,
    run Desk.step (fun _ _ _ h => h) openRun bootDesk () = some (d, ()) ∧
      d.slots 3 = 1 ∧ (d.slots 3 : ℤ) ≤ (d.files.file 3).refcount.toInt ∧
      (d.files.file 3).closed = 0 := by
  have hall : ∀ op ∈ openRun, ∀ d, DeskOp.Distinct op ∧ DeskOp.NoOverflow d op := by
    simp [openRun, DeskOp.Distinct, DeskOp.NoOverflow, FdCall.Distinct, FdCall.NoOverflow]
  have hreach := (Reaches.start : Reaches Desk.step (fun _ _ _ h => h)
    (fun d op => op.Distinct ∧ op.NoOverflow d) bootDesk () _ _).run openRun hall rfl
  have hcovers := refcount_covers_slots bootDesk_booted hreach (f := 3) (by decide) (by decide)
  exact ⟨_, rfl, by decide +kernel, hcovers.1, hcovers.2 (by decide +kernel)⟩

/-- `dup2(2^32 + 3, 3)` frees the file in slot 3 and leaves it there. -/
theorem dup2_frees_open_file : ∃ d,
    Reaches Desk.step (fun _ _ _ h => h) (fun _ _ => True) bootDesk () d () ∧
      (d.files.file 3).kind = .plain ∧ 0 < d.slots 3 ∧ (d.files.file 3).closed = 1 :=
  ⟨_, Reaches.start.run (openRun ++ [.call 0 (.dup2 0x100000003#64 3#64)])
    (fun _ _ _ => trivial) rfl, by decide, by decide +kernel, by decide⟩

theorem closed_file_freed : ∃ d,
    run Desk.step (fun _ _ _ h => h) (openRun ++ [.call 0 (.close 3#64)]) bootDesk () =
      some (d, ()) ∧
      d.slots 3 = 0 ∧ (d.files.file 3).refcount.toInt ≤ d.slots 3 ∧
      (d.files.file 3).closed = 1 ∧ (d.files.file 3).socketHeld = false := by
  have hall : ∀ op ∈ openRun ++ [.call 0 (.close 3#64)], ∀ d,
      DeskOp.Distinct op ∧ DeskOp.Tight d op := by
    simp [openRun, DeskOp.Distinct, DeskOp.Tight, FdCall.Distinct, FdCall.Tight]
  have hreach := (Reaches.start : Reaches Desk.step (fun _ _ _ h => h)
    (fun d op => op.Distinct ∧ op.Tight d) bootDesk () _ _).run _ hall rfl
  have hexact := refcount_is_slots bootDesk_booted hreach (f := 3) (by decide) (by decide)
  exact ⟨_, rfl, by decide +kernel, hexact.1, hexact.2 (by decide +kernel)⟩

/-- Two files are put onto descriptor 1 one after the other: the reference of the first one
is lost, and after `close` nothing refers to it. -/
theorem dup2_leaks_file : ∃ d,
    Reaches Desk.step (fun _ _ _ h => h) (fun _ _ => True) bootDesk () d () ∧
      (d.files.file 3).kind = .plain ∧ d.slots 3 = 0 ∧ (d.files.file 3).closed = 0 :=
  ⟨_, Reaches.start.run (openRun ++ [.call 0 (.openFile true), .call 0 (.dup2 3#64 1#64),
    .call 0 (.dup2 4#64 1#64), .call 0 (.close 3#64)]) (fun _ _ _ => trivial) rfl,
    by decide, by decide +kernel, by decide⟩

end HelixOS
