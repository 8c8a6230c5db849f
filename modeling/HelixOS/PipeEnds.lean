import HelixOS.FileCounts
import HelixOS.Pipes

/-!
# The ends of a pipe

One pipe among the descriptor tables of all tasks.  Whatever the tasks do with their
descriptors, the pipe is told of it only when the last reference of one of its ends goes:
`pipe_close` then forgets that end.
-/

namespace HelixOS

open Relation SlotCounts TrackedRuns Option

variable {buf : Word} {data : List (BitVec 8)} {writable : Bool}

/-! ## System calls on a pipe -/

def sysReadPipe (files : FileTable) (p : HelixPipe) (buf count : Word) : ℤ × HelixPipe :=
  if count = 0#64 then (0, p)
  else if userPtrOk buf count = false then (-14, p)
  else
    let r := pipeRead files p count.toNat
    (if r.1.1 < 0 then r.1.1 else if 0 < r.1.1 then -5 else r.1.2.length, r.2)

/-- `sys_write` on a descriptor of the pipe; it has one error code for all failures of
`vfs_write`. -/
def sysWritePipe (files : FileTable) (p : HelixPipe) (buf : Word) (data : List (BitVec 8)) :
    ℤ × HelixPipe :=
  if data = [] then (0, p)
  else if userPtrOk buf (BitVec.ofNat 64 data.length) = false then (-14, p)
  else
    let r := pipeWrite files p data
    (if r.1.1 ≠ 0 then -13 else r.1.2, r.2)

/-! ## A pipe among the descriptor tables -/

/-- A pipe among the open files. -/
structure PipeDesk where
  desk : Desk
  pipe : HelixPipe
  reader : ℕ
  writer : ℕ
  freed : Bool

def Desk.openPipe (d : Desk) (t : Slot) (memory : Fin 4096 → BitVec 8) : Option PipeDesk :=
  if (sysPipe (d.fds t) d.files true true).1.isSome then
    (d.step (.call t (.pipe true true))).map fun d' =>
      { desk := d'
        pipe := helixPipeWrap (helixPipeWrap (helixPipeCreate memory) d.files.next false)
          (d.files.next + 1) true
        reader := d.files.next
        writer := d.files.next + 1
        freed := false }
  else none

def closedEnd (before after : FileTable) (f : ℕ) (writable : Bool) (p : HelixPipe × Bool) :
    HelixPipe × Bool :=
  if (before.file f).closed < (after.file f).closed then pipeClose p.1 f writable else p

/-- The pipe after an operation on the descriptors.  If both ends go, as in `exit`, their
order makes no difference. -/
def PipeDesk.withDesk (s : PipeDesk) (d : Desk) : PipeDesk :=
  let p := closedEnd s.desk.files d.files s.writer true
    (closedEnd s.desk.files d.files s.reader false (s.pipe, s.freed))
  { s with desk := d, pipe := p.1, freed := p.2 }

/-- The descriptor of a live task is one of the pipe; `read` and `write` do not ask for which
end. -/
def PipeDesk.Refers (s : PipeDesk) (t : Slot) (fd : Word) : Prop :=
  s.desk.life t = .alive ∧ ((fdIndex fd).bind (s.desk.fds t) = some s.reader ∨
    (fdIndex fd).bind (s.desk.fds t) = some s.writer)

instance (s : PipeDesk) (t : Slot) (fd : Word) : Decidable (s.Refers t fd) :=
  inferInstanceAs (Decidable (_ ∧ (_ ∨ _)))

inductive PipeCall where
  | desk (op : DeskOp)
  | read (t : Slot) (fd buf count : Word)
  | write (t : Slot) (fd buf : Word) (data : List (BitVec 8))

def PipeDesk.step (s : PipeDesk) : PipeCall → Option PipeDesk
  | .desk op => (s.desk.step op).map s.withDesk
  | .read t fd buf count =>
    if s.Refers t fd then
      some { s with pipe := (sysReadPipe s.desk.files s.pipe buf count).2 }
    else none
  | .write t fd buf data =>
    if s.Refers t fd then
      some { s with pipe := (sysWritePipe s.desk.files s.pipe buf data).2 }
    else none

/-- No operation loses a reference or drops one too many. -/
def PipeCall.Counted (s : PipeDesk) : PipeCall → Prop
  | .desk op => op.Distinct ∧ op.Tight s.desk
  | _ => True

/-! ## Read and write -/

variable {files : FileTable} {p : HelixPipe} {f : ℕ}

structure HelixPipe.Stays (p p' : HelixPipe) : Prop where
  readEnd : p'.readEnd = p.readEnd
  writeEnd : p'.writeEnd = p.writeEnd
  sound : p'.Sound

lemma sysReadPipe_stays (files) (buf count : Word) (hp : p.Sound) :
    p.Stays (sysReadPipe files p buf count).2 := by
  have hread : p.Stays (pipeRead files p count.toNat).2 := by
    refine ⟨?_, ?_, (pipeRead_spec files count.toNat hp).1⟩
    all_goals
      dsimp only [pipeRead]
      split_ifs <;> rfl
  unfold sysReadPipe
  split_ifs
  · exact ⟨rfl, rfl, hp⟩
  · exact ⟨rfl, rfl, hp⟩
  · exact hread

lemma sysWritePipe_stays (files) (buf) (data)
    (hp : p.Sound) : p.Stays (sysWritePipe files p buf data).2 := by
  have hwrite : p.Stays (pipeWrite files p data).2 := by
    refine ⟨?_, ?_, (pipeWrite_spec files data hp).1⟩
    all_goals
      dsimp only [pipeWrite]
      split_ifs <;> rfl
  unfold sysWritePipe
  split_ifs
  · exact ⟨rfl, rfl, hp⟩
  · exact ⟨rfl, rfl, hp⟩
  · exact hwrite

lemma pipeRead_empty (len : ℕ) (hempty : p.count = 0) : (pipeRead files p len).1 =
      (if p.writeEnd.any fun f => 0 < (files.file f).refcount.toInt then eagainPipe else 0,
        []) := by
  have hdrain : RingBuffer.drain len p.toRingBuffer = ([], p.toRingBuffer) := by
    cases len with
    | zero => rfl
    | succ len => rw [RingBuffer.drain, if_neg (by omega)]
  simp only [pipeRead, hdrain]
  split_ifs <;> simp_all

lemma pipeWrite_room (data) (hp : p.Sound)
    (hopen : (p.readEnd.any fun f => (files.file f).refcount.toInt ≤ 0) = false) :
    (pipeWrite files p data).1 =
      if 0 < min data.length (4096 - p.count) then (0, min data.length (4096 - p.count))
      else (eagainPipe, 0) := by
  obtain ⟨-, hcount, -⟩ := RingBuffer.fill_spec data hp
  rw [← hcount]
  simp only [pipeWrite, hopen, Bool.false_eq_true, if_false]
  split_ifs <;> rfl

/-! ## What the pipe knows of its ends -/

def Desk.openEnd (d : Desk) (f : ℕ) : Option ℕ := if d.slots f = 0 then none else some f

structure PipeDesk.Ends (s : PipeDesk) : Prop where
  counts : s.desk.Counts Exact
  reader_plain : s.reader < s.desk.files.next ∧ (s.desk.files.file s.reader).kind = .plain
  writer_plain : s.writer < s.desk.files.next ∧ (s.desk.files.file s.writer).kind = .plain
  sound : s.pipe.Sound
  readEnd : s.pipe.readEnd = s.desk.openEnd s.reader
  writeEnd : s.pipe.writeEnd = s.desk.openEnd s.writer
  freed : s.freed = (s.pipe.readEnd.isNone && s.pipe.writeEnd.isNone)

variable {s s' : PipeDesk} {d d' : Desk} {t : Slot}

lemma closed_le_released (file : OpenFile) : file.closed ≤ file.released.closed := by
  unfold OpenFile.released OpenFile.vfsClosed
  split_ifs <;> simp

lemma closed_le_replaced (file : OpenFile) : file.closed ≤ file.replaced.closed := by
  unfold OpenFile.replaced OpenFile.vfsClosed
  split_ifs <;> simp

lemma FileMove.closed_le {strict : Prop} {v v' : FileView} (h : FileMove strict v v') :
    v.file.closed ≤ v'.file.closed := by
  cases h with
  | hold m => exact le_rfl
  | leak m => exact le_rfl
  | release => exact closed_le_released _
  | replace => exact closed_le_replaced _
  | overwrite => exact le_rfl

lemma DeskMoves.closed_le {strict : Prop} (h : DeskMoves strict d d')
    (hf : f < d.files.next) (hkind : (d.files.file f).kind ≠ .console) :
    (d.files.file f).closed ≤ (d'.files.file f).closed := by
  have hmoved (v : FileView) (hv : ReflTransGen (FileMove strict) (d.view f) v) :
      (d.files.file f).closed ≤ v.file.closed := by
    induction hv with
    | refl => exact le_rfl
    | tail _ hstep ih => exact ih.trans hstep.closed_le
  exact hmoved (d'.view f) (h.old f hf hkind)

lemma Exact.closed_eq {n : ℕ} {file : OpenFile} (h : Exact n file) :
    file.closed = if n = 0 then 1 else 0 := by
  split_ifs with hn
  · exact (h.freed hn).1
  · exact h.kept (Nat.pos_of_ne_zero hn)

/-- The end is closed in the step in which its last descriptor goes. -/
theorem openEnd_step (h : DeskMoves True d d') (hok : d.Counts Exact) (hok' : d'.Counts Exact)
    (hf : f < d.files.next) (hkind : (d.files.file f).kind = .plain) :
    d'.openEnd f =
      if (d.files.file f).closed < (d'.files.file f).closed then none else d.openEnd f := by
  have hconsole : (d.files.file f).kind ≠ .console := by simp [hkind]
  have hconsole' : (d'.files.file f).kind ≠ .console := (h.kind f hf).trans_ne hconsole
  have hle := h.closed_le hf hconsole
  rw [(hok.counted f hf hconsole).closed_eq,
    (hok'.counted f (hf.trans_le h.next) hconsole').closed_eq] at hle ⊢
  unfold Desk.openEnd
  by_cases hzero : d.slots f = 0
  · by_cases hzero' : d'.slots f = 0
    · simp [hzero, hzero']
    · -- the count of closings would go down
      rw [if_pos hzero, if_neg hzero'] at hle
      exact absurd hle (by decide)
  · by_cases hzero' : d'.slots f = 0
    · simp [hzero, hzero']
    · simp [hzero, hzero']

lemma pipeClose_ends (p) (f) (writable) : (pipeClose p f writable).1.readEnd =
        (if writable then p.readEnd else if p.readEnd = some f then none else p.readEnd) ∧
      (pipeClose p f writable).1.writeEnd =
        if writable then if p.writeEnd = some f then none else p.writeEnd else p.writeEnd := by
  unfold pipeClose
  cases writable with
  | false => by_cases heq : p.readEnd = some f <;> simp [heq]
  | true => by_cases heq : p.writeEnd = some f <;> simp [heq]

lemma closedEnd_spec (before after : FileTable) (f) (writable) (p : HelixPipe × Bool) :
    let rose := (before.file f).closed < (after.file f).closed
    let left (e : Option ℕ) := if rose ∧ e = some f then none else e
    (closedEnd before after f writable p).1.toRingBuffer = p.1.toRingBuffer ∧
      (closedEnd before after f writable p).1.readEnd =
        (if writable then p.1.readEnd else left p.1.readEnd) ∧
      (closedEnd before after f writable p).1.writeEnd =
        if writable then left p.1.writeEnd else p.1.writeEnd := by
  by_cases hrose : (before.file f).closed < (after.file f).closed
  · rw [closedEnd, if_pos hrose]
    simp only [hrose, true_and]
    exact ⟨pipeClose_ring p.1 f writable, pipeClose_ends p.1 f writable⟩
  · rw [closedEnd, if_neg hrose]
    simp [hrose]

lemma closedEnd_freed (before after : FileTable) (f) (writable)
    {p : HelixPipe × Bool} (hp : p.2 = (p.1.readEnd.isNone && p.1.writeEnd.isNone)) :
    (closedEnd before after f writable p).2 =
      ((closedEnd before after f writable p).1.readEnd.isNone &&
        (closedEnd before after f writable p).1.writeEnd.isNone) := by
  unfold closedEnd
  split
  · rfl
  · exact hp

lemma left_openEnd (h : DeskMoves True d d') (hok : d.Counts Exact) (hok' : d'.Counts Exact)
    (hf : f < d.files.next) (hkind : (d.files.file f).kind = .plain) :
    (if (d.files.file f).closed < (d'.files.file f).closed ∧ d.openEnd f = some f then none
      else d.openEnd f) = d'.openEnd f := by
  rw [openEnd_step h hok hok' hf hkind]
  unfold Desk.openEnd
  split_ifs <;> simp_all

lemma PipeDesk.Ends.withDesk (hs : s.Ends) (h : DeskMoves True s.desk d') :
    (s.withDesk d').Ends := by
  have hok' : d'.Counts Exact := h.counts hs.counts (fun _ _ hv h => hv.move h) fun _ h => h.exact
  obtain ⟨hring, hread, hwrite⟩ := closedEnd_spec s.desk.files d'.files s.reader false
    (s.pipe, s.freed)
  obtain ⟨hring', hread', hwrite'⟩ := closedEnd_spec s.desk.files d'.files s.writer true
    (closedEnd s.desk.files d'.files s.reader false (s.pipe, s.freed))
  refine ⟨hok', ⟨hs.reader_plain.1.trans_le h.next, ?_⟩,
    ⟨hs.writer_plain.1.trans_le h.next, ?_⟩, ?_, ?_, ?_, ?_⟩
  · exact (h.kind s.reader hs.reader_plain.1).trans hs.reader_plain.2
  · exact (h.kind s.writer hs.writer_plain.1).trans hs.writer_plain.2
  · have hsound := hs.sound
    exact (hring'.trans hring).symm ▸ hsound
  · calc (s.withDesk d').pipe.readEnd
        = _ := hread'.trans hread
      _ = d'.openEnd s.reader := by
        rw [hs.readEnd]
        exact left_openEnd h hs.counts hok' hs.reader_plain.1 hs.reader_plain.2
  · calc (s.withDesk d').pipe.writeEnd
        = _ := hwrite'
      _ = d'.openEnd s.writer := by
        simp only [hwrite, hs.writeEnd, if_true, Bool.false_eq_true, if_false]
        exact left_openEnd h hs.counts hok' hs.writer_plain.1 hs.writer_plain.2
  · exact closedEnd_freed _ _ _ _ (closedEnd_freed _ _ _ _ hs.freed)

lemma PipeDesk.Ends.stays (hs : s.Ends) (hp : s.pipe.Stays p) : { s with pipe := p }.Ends :=
  ⟨hs.counts, hs.reader_plain, hs.writer_plain, hp.sound, hp.readEnd.trans hs.readEnd,
    hp.writeEnd.trans hs.writeEnd, by
      rw [hp.readEnd, hp.writeEnd]
      exact hs.freed⟩

lemma PipeDesk.Ends.step {e : PipeCall} (hs : s.Ends) (hcounted : e.Counted s)
    (hstep : s.step e = some s') : s'.Ends := by
  cases e with
  | desk op =>
    obtain ⟨d', hd', rfl⟩ := map_eq_some_iff.mp hstep
    exact hs.withDesk (hs.counts.moves (fun _ _ h => h.covered) hcounted.1
      (hs.counts.noOverflow hd') (fun _ => hcounted.2) hd')
  | read t fd buf count =>
    simp only [PipeDesk.step, ite_none_right_eq_some, some.injEq] at hstep
    obtain ⟨-, rfl⟩ := hstep
    exact hs.stays (sysReadPipe_stays s.desk.files buf count hs.sound)
  | write t fd buf data =>
    simp only [PipeDesk.step, ite_none_right_eq_some, some.injEq] at hstep
    obtain ⟨-, rfl⟩ := hstep
    exact hs.stays (sysWritePipe_stays s.desk.files buf data hs.sound)

/-! ### Opening -/

lemma sysPipe_some {fds : Descriptors} (hsome : (sysPipe fds files true true).1.isSome) :
    ∃ i j, i ≠ j ∧ fds i = none ∧ fds j = none := by
  simp only [sysPipe, if_true, Prod.map, id, FileTable.create] at hsome
  generalize hfiles : FileTable.mk _ _ = made at hsome
  rcases fdInstall_cases fds made files.next with ⟨heq, -⟩ | ⟨i, hi, heq⟩
  · rw [heq] at hsome
    rcases fdInstall_cases fds made (files.next + 1) with ⟨heq', -⟩ | ⟨j, -, heq'⟩
    · simp [heq'] at hsome
    · simp [heq'] at hsome
  · rw [heq] at hsome
    rcases fdInstall_cases (Function.update fds i (some files.next))
      (made.firstRef files.next) (files.next + 1) with ⟨heq', -⟩ | ⟨j, hj, -⟩
    · simp [heq'] at hsome
    · have hne : j ≠ i := by
        rintro rfl
        simp at hj
      rw [Function.update_of_ne hne] at hj
      exact ⟨i, j, hne.symm, hi, hj⟩

lemma PipeDesk.Ends.opened {memory : Fin 4096 → BitVec 8} (hok : d.Counts Exact)
    (hopen : d.openPipe t memory = some s) : s.Ends := by
  unfold Desk.openPipe at hopen
  split_ifs at hopen with hsome
  obtain ⟨d', hstep, rfl⟩ := map_eq_some_iff.mp hopen
  have htight := sysPipe_some hsome
  have hdistinct : (DeskOp.call t (.pipe true true)).Distinct := trivial
  have hok' : d'.Counts Exact := hok.step (fun _ _ hv h => hv.move h) (fun _ h => h.exact)
    (fun _ _ h => h.covered) hdistinct (hok.noOverflow hstep) (fun _ => htight) hstep
  have hfiles : d'.files = (sysPipe (d.fds t) d.files true true).2.2 := by
    simp only [Desk.step, ite_none_right_eq_some, some.injEq] at hstep
    rw [← hstep.2]
    rfl
  have hends : d'.files =
      (d.files.createTwo.firstRef d.files.next).firstRef (d.files.next + 1) := by
    obtain ⟨p, q, hpq, hp, hq⟩ := htight
    rcases sysPipe_cases (d.fds t) d.files with ⟨-, hfull⟩ | ⟨i, -, hfull, -⟩ | ⟨i, j, -, -, -, heq⟩
    · exact absurd hp (hfull p)
    · by_cases hpi : p = i
      · exact absurd hq (hfull q fun hqi => hpq (hpi.trans hqi.symm))
      · exact absurd hp (hfull p hpi)
    · rw [hfiles, heq]
  have hfile (f : ℕ) (hf : f = d.files.next ∨ f = d.files.next + 1) :
      d'.files.file f = ⟨.plain, 1#32, 0, false⟩ := by
    rw [hends]
    rcases hf with rfl | rfl
    · simp [FileTable.firstRef, FileTable.modify, d.files.createTwo_file_new (.inl rfl)]
    · simp [FileTable.firstRef, FileTable.modify, d.files.createTwo_file_new (.inr rfl)]
  have hnext : d'.files.next = d.files.next + 2 := by rw [hends]; rfl
  have hend (f : ℕ) (hf : f = d.files.next ∨ f = d.files.next + 1) : d'.openEnd f = some f := by
    have hexact := hok'.counted f (by omega) (by simp [hfile f hf])
    rw [hfile f hf] at hexact
    have hslots : d'.slots f = 1 := hexact.slots
    simp [Desk.openEnd, hslots]
  exact ⟨hok', ⟨by simp [hnext], by simp [hfile]⟩, ⟨by simp [hnext], by simp [hfile]⟩,
    ⟨rfl, Nat.zero_le _⟩, (hend _ (.inl rfl)).symm, (hend _ (.inr rfl)).symm, rfl⟩

/-! ## End of file and refused bytes -/

/-- An empty pipe gives the end of the data once the write end is closed for good. -/
def PipeDesk.ReadRight (s : PipeDesk) (buf count : Word) : Prop :=
  s.pipe.count = 0 → (sysReadPipe s.desk.files s.pipe buf count).1 =
    if s.desk.slots s.writer = 0 then 0 else eagainPipe

/-- A pipe whose read end is closed for good takes nothing; a full one asks for patience. -/
structure PipeDesk.WriteRight (s : PipeDesk) (buf : Word) (data : List (BitVec 8)) : Prop where
  refused : s.desk.slots s.reader = 0 →
    (sysWritePipe s.desk.files s.pipe buf data).1 ≤ 0 ∧
      (sysWritePipe s.desk.files s.pipe buf data).2.contents = s.pipe.contents
  full : s.desk.slots s.reader ≠ 0 → s.pipe.count = 4096 → data ≠ [] →
    (sysWritePipe s.desk.files s.pipe buf data).1 = eagainPipe

lemma Desk.openEnd_refcount (hok : d.Counts Exact)
    (hf : f < d.files.next ∧ (d.files.file f).kind = .plain) :
    ((d.openEnd f).any fun g => 0 < (d.files.file g).refcount.toInt) = decide (d.slots f ≠ 0) ∧
      ((d.openEnd f).any fun g => (d.files.file g).refcount.toInt ≤ 0) = false := by
  have hexact := hok.counted f hf.1 (by simp [hf.2])
  have hsmall := hexact.small
  have hint : (d.files.file f).refcount.toInt = d.slots f := by
    rw [BitVec.toInt_eq_toNat_of_lt (by omega), ← hexact.slots]
  unfold Desk.openEnd
  split_ifs with hzero
  · simp [hzero]
  · have hpos : 0 < (d.files.file f).refcount.toInt := by omega
    exact ⟨by simp only [any_some, hpos, hzero, ne_eq, not_false_eq_true],
      decide_eq_false hpos.not_ge⟩

lemma PipeDesk.Ends.read_iff (hs : s.Ends) (buf count : Word) :
    s.ReadRight buf count ↔ (s.pipe.count = 0 →
      if count = 0#64 then s.desk.slots s.writer = 0 else userPtrOk buf count) := by
  refine forall_congr' fun hempty => ?_
  obtain ⟨hany, -⟩ := Desk.openEnd_refcount hs.counts hs.writer_plain
  by_cases hzero : count = 0#64
  · by_cases hslots : s.desk.slots s.writer = 0
    · simp [sysReadPipe, hzero, hslots]
    · simp [sysReadPipe, hzero, hslots, eagainPipe]
  · by_cases hbuf : userPtrOk buf count = true
    · have hread := @pipeRead_empty s.desk.files s.pipe count.toNat hempty
      rw [hs.writeEnd, hany] at hread
      by_cases hslots : s.desk.slots s.writer = 0
      · simp [sysReadPipe, hzero, hbuf, hread, hslots]
      · simp [sysReadPipe, hzero, hbuf, hread, hslots, eagainPipe]
    · by_cases hslots : s.desk.slots s.writer = 0
      · simp [sysReadPipe, hzero, hbuf, hslots]
      · simp [sysReadPipe, hzero, hbuf, hslots, eagainPipe]

section

variable (hs : s.Ends) (hdata : data ≠ [])
  (hbuf : userPtrOk buf (BitVec.ofNat 64 data.length) = true)
include hs hdata hbuf

lemma PipeDesk.Ends.write_full (hfull : s.pipe.count = 4096) :
    (sysWritePipe s.desk.files s.pipe buf data).1 = -13 ∧
      (sysWritePipe s.desk.files s.pipe buf data).2.contents = s.pipe.contents := by
  have hopen := (Desk.openEnd_refcount hs.counts hs.reader_plain).2
  rw [← hs.readEnd] at hopen
  have hroom := pipeWrite_room data hs.sound hopen
  rw [if_neg (by omega)] at hroom
  have hcontents := (pipeWrite_spec s.desk.files data hs.sound).2
  rw [sysWritePipe, if_neg hdata, if_neg (by simp [hbuf])]
  simp only [hroom] at hcontents ⊢
  exact ⟨rfl, by simpa using hcontents⟩

lemma PipeDesk.Ends.write_room (hroom : s.pipe.count ≠ 4096) :
    0 < (sysWritePipe s.desk.files s.pipe buf data).1 := by
  have hopen := (Desk.openEnd_refcount hs.counts hs.reader_plain).2
  rw [← hs.readEnd] at hopen
  have hwrite := pipeWrite_room data hs.sound hopen
  have hlength := List.length_pos_iff.mpr hdata
  have hfits := hs.sound.fits
  rw [if_pos (by omega)] at hwrite
  rw [sysWritePipe, if_neg hdata, if_neg (by simp [hbuf])]
  simp only [hwrite, ne_eq, not_true_eq_false, if_false]
  omega

end

lemma PipeDesk.Ends.write_iff (hs : s.Ends) (buf) (data) :
    s.WriteRight buf data ↔ data = [] ∨
      (s.desk.slots s.reader = 0 →
        s.pipe.count = 4096 ∨ userPtrOk buf (BitVec.ofNat 64 data.length) = false) ∧
      (s.desk.slots s.reader ≠ 0 → s.pipe.count ≠ 4096) := by
  by_cases hdata : data = []
  · simp only [hdata, true_or, iff_true]
    exact ⟨fun _ => ⟨le_rfl, rfl⟩, fun _ _ h => absurd rfl h⟩
  rw [or_iff_right hdata]
  by_cases hbuf : userPtrOk buf (BitVec.ofNat 64 data.length) = true
  · by_cases hfull : s.pipe.count = 4096
    · obtain ⟨hcode, hsame⟩ := hs.write_full hdata hbuf hfull
      refine ⟨fun h => ⟨fun _ => .inl hfull, fun hopen => ?_⟩, fun h => ⟨fun _ => ?_, ?_⟩⟩
      · have hagain := h.full hopen hfull hdata
        rw [hcode] at hagain
        exact absurd hagain (by decide)
      · exact ⟨hcode ▸ by decide, hsame⟩
      · exact fun hopen => absurd hfull (h.2 hopen)
    · have htaken := hs.write_room hdata hbuf hfull
      refine ⟨fun h => ⟨fun hclosed => ?_, fun _ => hfull⟩, fun h => ⟨fun hclosed => ?_,
        fun _ hcount => absurd hcount hfull⟩⟩
      · exact absurd (h.refused hclosed).1 htaken.not_ge
      · rcases h.1 hclosed with hcount | hfault
        · exact absurd hcount hfull
        · simp [hbuf] at hfault
  · have hwrite : sysWritePipe s.desk.files s.pipe buf data = (-14, s.pipe) := by
      rw [sysWritePipe, if_neg hdata, if_pos (by simpa using hbuf)]
    refine ⟨fun h => ⟨fun _ => .inr (by simpa using hbuf), fun hopen hfull => ?_⟩, fun h =>
      ⟨fun _ => hwrite ▸ ⟨(by decide : (-14 : ℤ) ≤ 0), rfl⟩, fun hopen hfull =>
        absurd hfull (h.2 hopen)⟩⟩
    have hagain := h.full hopen hfull hdata
    rw [hwrite] at hagain
    exact absurd hagain (by decide : (-14 : ℤ) ≠ eagainPipe)

lemma PipeDesk.Ends.not_freed {fd : Word} (hs : s.Ends) (hrefers : s.Refers t fd) :
    s.freed = false := by
  obtain ⟨halive, hend⟩ := hrefers
  have hheld (f : ℕ) (hf : (fdIndex fd).bind (s.desk.fds t) = some f) :
      s.desk.openEnd f = some f := by
    obtain ⟨i, -, hi⟩ := bind_eq_some_iff.mp hf
    have hcount : s.desk.slots f ≠ 0 := by
      rw [Desk.slots_row halive]
      have := count_pos hi
      omega
    rw [Desk.openEnd, if_neg hcount]
  rw [hs.freed, hs.readEnd, hs.writeEnd]
  rcases hend with hr | hw
  · simp [hheld _ hr]
  · simp [hheld _ hw]

/-- In every run that keeps the counts right: which reads of an empty pipe and which writes are
right. -/
theorem pipe_calls_right_iff {d₀ d : Desk} {s₀ s : PipeDesk} {t : Slot}
    {memory : Fin 4096 → BitVec 8} (hboot : d₀.Booted)
    (hbefore : Reaches Desk.step (fun _ _ _ h => h) (fun d op => op.Distinct ∧ op.Tight d)
      d₀ () d ())
    (hopen : d.openPipe t memory = some s₀)
    (hafter : Reaches PipeDesk.step (fun _ _ _ h => h) (fun s e => e.Counted s) s₀ () s ())
    {u : Slot} {fd : Word} (hrefers : s.Refers u fd) :
    s.freed = false ∧
      (∀ buf count, s.ReadRight buf count ↔ (s.pipe.count = 0 →
        if count = 0#64 then s.desk.slots s.writer = 0 else userPtrOk buf count)) ∧
      ∀ buf data, s.WriteRight buf data ↔ data = [] ∨
        (s.desk.slots s.reader = 0 →
          s.pipe.count = 4096 ∨ userPtrOk buf (BitVec.ofNat 64 data.length) = false) ∧
        (s.desk.slots s.reader ≠ 0 → s.pipe.count ≠ 4096) := by
  have hends : s.Ends := hafter.invariant (fun s _ => s.Ends)
    (.opened (hboot.exact hbefore) hopen) fun _ _ _ _ hs hcounted hstep => hs.step hcounted hstep
  exact ⟨hends.not_freed hrefers, hends.read_iff, hends.write_iff⟩

theorem pipe_calls_right_new : ∃ d s,
    run Desk.step (fun _ _ _ h => h) [.create 0, .call 0 .stdio] bootDesk () = some (d, ()) ∧
      d.openPipe 0 (fun _ => 0#8) = some s ∧
      s.pipe.count = 0 ∧ s.ReadRight 0x400000#64 1#64 ∧
      (sysReadPipe s.desk.files s.pipe 0x400000#64 1#64).1 = -11 ∧
      s.WriteRight 0x400000#64 [65#8] := by
  have hall : ∀ op ∈ [DeskOp.create 0, .call 0 .stdio], ∀ d : Desk, op.Distinct ∧ op.Tight d := by
    simp [DeskOp.Distinct, DeskOp.Tight, FdCall.Distinct, FdCall.Tight]
  have hbefore := (Reaches.start : Reaches Desk.step (fun _ _ _ h => h)
    (fun d op => op.Distinct ∧ op.Tight d) bootDesk () _ _).run _ hall rfl
  have hright := @pipe_calls_right_iff _ _ _ _ 0 (fun _ => 0#8) bootDesk_booted hbefore rfl .start
    0 4#64 (by decide)
  exact ⟨_, _, rfl, rfl, rfl, (hright.2.1 _ _).mpr fun _ => by decide, by decide +kernel,
    (hright.2.2 _ _).mpr (.inr (by decide +kernel))⟩

/-- The read end is closed, and a byte written afterwards is accepted all the same. -/
theorem write_without_reader : ∃ d s₀ s,
    Reaches Desk.step (fun _ _ _ h => h) (fun _ _ => True) bootDesk () d () ∧
      d.openPipe 0 (fun _ => 0#8) = some s₀ ∧
      Reaches PipeDesk.step (fun _ _ _ h => h) (fun _ _ => True) s₀ () s () ∧
      s.Refers 0 4#64 ∧ s.desk.slots s.reader = 0 ∧
      (sysWritePipe s.desk.files s.pipe 0x400000#64 [65#8]).1 = 1 :=
  ⟨_, _, _, Reaches.start.run [.create 0, .call 0 .stdio] (fun _ _ _ => trivial) rfl, rfl,
    Reaches.start.run [.desk (.call 0 (.close 3#64))] (fun _ _ _ => trivial) rfl,
    by decide, by decide +kernel, by decide +kernel⟩

end HelixOS
