import HelixOS.OpenFiles
import HelixOS.RingBuffer
import HelixOS.TrackedRuns

/-!
# Pipes

The operations of `pipe.c` on one pipe.  Its two ends are file objects; whether an end is
still open is read off from their reference counts, which the rest of the kernel changes.
-/

namespace HelixOS

open TrackedRuns

/-- `struct helix_pipe`; the ends are the addresses of their file objects. -/
structure HelixPipe extends RingBuffer (BitVec 8) 4096 where
  readEnd : Option ℕ
  writeEnd : Option ℕ

/-- The cells keep what the allocated memory held. -/
def helixPipeCreate (memory : Fin 4096 → BitVec 8) : HelixPipe :=
  { buf := memory, head := 0, tail := 0, count := 0, readEnd := none, writeEnd := none }

def helixPipeWrap (p : HelixPipe) (f : ℕ) (isWrite : Bool) : HelixPipe :=
  if isWrite then { p with writeEnd := some f } else { p with readEnd := some f }

def eagainPipe : ℤ := -11

/-- The status and the bytes that are returned. -/
def pipeRead (files : FileTable) (p : HelixPipe) (len : ℕ) :
    (ℤ × List (BitVec 8)) × HelixPipe :=
  let loop := RingBuffer.drain len p.toRingBuffer
  let p := { p with toRingBuffer := loop.2 }
  if loop.1 ≠ [] then ((0, loop.1), p)
  -- nothing buffered: the end of the data if no write end remains
  else if p.writeEnd.any fun f => 0 < (files.file f).refcount.toInt then
    ((eagainPipe, []), p)
  else ((0, []), p)

/-- The status and how many bytes have been accepted. -/
def pipeWrite (files : FileTable) (p : HelixPipe) (data : List (BitVec 8)) :
    (ℤ × ℕ) × HelixPipe :=
  if p.readEnd.any fun f => (files.file f).refcount.toInt ≤ 0 then ((0, 0), p)
  else
    let loop := RingBuffer.fill data p.toRingBuffer
    let p := { p with toRingBuffer := loop.2 }
    if 0 < loop.1 then ((0, loop.1), p) else ((eagainPipe, 0), p)

/-- The second part tells whether the pipe itself is freed. -/
def pipeClose (p : HelixPipe) (f : ℕ) (writable : Bool) : HelixPipe × Bool :=
  let p :=
    if writable then if p.writeEnd = some f then { p with writeEnd := none } else p
    else if p.readEnd = some f then { p with readEnd := none } else p
  (p, p.readEnd.isNone && p.writeEnd.isNone)

/-! ## All uses of one pipe -/

inductive PipeEvent where
  | read (len : ℕ)
  | write (data : List (BitVec 8))
  | close (f : ℕ) (writable : Bool)
  /-- Descriptors are duplicated, inherited and closed elsewhere. -/
  | files (files : FileTable)

structure PipeState where
  pipe : HelixPipe
  files : FileTable
  freed : Bool

def PipeState.step (s : PipeState) (e : PipeEvent) : Option PipeState :=
  if s.freed then none
  else
    match e with
    | .read len => some { s with pipe := (pipeRead s.files s.pipe len).2 }
    | .write data => some { s with pipe := (pipeWrite s.files s.pipe data).2 }
    | .close f writable =>
      let closed := pipeClose s.pipe f writable
      some { s with pipe := closed.1, freed := closed.2 }
    | .files files => some { s with files }

def newPipe (memory : Fin 4096 → BitVec 8) (r w : ℕ) (files : FileTable) : PipeState where
  pipe := helixPipeWrap (helixPipeWrap (helixPipeCreate memory) r false) w true
  files := files
  freed := false

/-- What reads have returned and writes have accepted. -/
structure PipeHistory where
  returned : List (BitVec 8)
  accepted : List (BitVec 8)

def PipeState.note (s : PipeState) (e : PipeEvent) (_ : PipeState) (h : PipeHistory) :
    PipeHistory :=
  match e with
  | .read len => { h with returned := h.returned ++ (pipeRead s.files s.pipe len).1.2 }
  | .write data =>
    { h with accepted := h.accepted ++ data.take (pipeWrite s.files s.pipe data).1.2 }
  | .close _ _ => h
  | .files _ => h

/-! ## First in, first out -/

variable {p : HelixPipe}

lemma pipeRead_spec (files : FileTable) (len : ℕ) (hp : p.Sound) :
    (pipeRead files p len).2.Sound ∧
      (pipeRead files p len).1.2 ++ (pipeRead files p len).2.contents = p.contents := by
  obtain ⟨hsound, -, hcontents⟩ := RingBuffer.drain_spec len hp
  dsimp only [pipeRead]
  split_ifs with hsome
  · exact ⟨hsound, hcontents⟩
  · rw [not_not.mp hsome] at hcontents
    exact ⟨hsound, hcontents⟩
  · rw [not_not.mp hsome] at hcontents
    exact ⟨hsound, hcontents⟩

lemma pipeWrite_spec (files : FileTable) (data : List (BitVec 8)) (hp : p.Sound) :
    (pipeWrite files p data).2.Sound ∧
      (pipeWrite files p data).2.contents =
        p.contents ++ data.take (pipeWrite files p data).1.2 := by
  obtain ⟨hsound, -, hcontents⟩ := RingBuffer.fill_spec data hp
  dsimp only [pipeWrite]
  split_ifs with hclosed hsome
  · exact ⟨hp, by simp⟩
  · exact ⟨hsound, hcontents⟩
  · rw [Nat.eq_zero_of_not_pos hsome] at hcontents
    exact ⟨hsound, hcontents⟩

@[simp] lemma pipeClose_ring (p : HelixPipe) (f : ℕ) (writable : Bool) :
    (pipeClose p f writable).1.toRingBuffer = p.toRingBuffer := by
  dsimp only [pipeClose]
  split_ifs <;> rfl

/-- What has been returned, followed by what is buffered, is what has been accepted. -/
structure PipeState.Fifo (s : PipeState) (h : PipeHistory) : Prop where
  sound : s.pipe.Sound
  books : h.returned ++ s.pipe.contents = h.accepted

lemma PipeState.fifo_newPipe (memory : Fin 4096 → BitVec 8) (r w : ℕ) (files : FileTable) :
    (newPipe memory r w files).Fifo ⟨[], []⟩ where
  sound := ⟨rfl, Nat.zero_le _⟩
  books := rfl

lemma PipeState.Fifo.step {s s' : PipeState} {h : PipeHistory} {e : PipeEvent}
    (hs : s.Fifo h) (hstep : s.step e = some s') : s'.Fifo (s.note e s' h) := by
  unfold PipeState.step at hstep
  split_ifs at hstep
  cases e with
  | read len =>
    obtain ⟨hsound, hread⟩ := pipeRead_spec s.files len hs.sound
    cases hstep
    refine ⟨hsound, ?_⟩
    calc h.returned ++ (pipeRead s.files s.pipe len).1.2 ++
          (pipeRead s.files s.pipe len).2.contents
        = h.returned ++ s.pipe.contents := by rw [List.append_assoc, hread]
      _ = h.accepted := hs.books
  | write data =>
    obtain ⟨hsound, hwrite⟩ := pipeWrite_spec s.files data hs.sound
    cases hstep
    refine ⟨hsound, ?_⟩
    calc h.returned ++ (pipeWrite s.files s.pipe data).2.contents
        = h.returned ++ s.pipe.contents ++
            data.take (pipeWrite s.files s.pipe data).1.2 := by
          rw [hwrite, List.append_assoc]
      _ = h.accepted ++ data.take (pipeWrite s.files s.pipe data).1.2 := by rw [hs.books]
  | close f writable =>
    cases hstep
    exact ⟨by simpa using hs.sound, by simpa [PipeState.note] using hs.books⟩
  | files files =>
    cases hstep
    exact ⟨hs.sound, hs.books⟩

/-- Nothing is lost, duplicated or reordered, and the buffer is never overrun. -/
theorem pipe_is_fifo (memory : Fin 4096 → BitVec 8) (r w : ℕ) (files : FileTable)
    {s : PipeState} {h : PipeHistory}
    (hreach : Reaches PipeState.step PipeState.note (fun _ _ => True)
      (newPipe memory r w files) ⟨[], []⟩ s h) :
    h.returned ++ s.pipe.contents = h.accepted ∧
      s.pipe.contents.length = s.pipe.count ∧ s.pipe.count ≤ 4096 := by
  have hfifo : s.Fifo h :=
    hreach.invariant PipeState.Fifo (PipeState.fifo_newPipe memory r w files)
      fun _ _ _ _ hs _ hstep => hs.step hstep
  exact ⟨hfifo.books, RingBuffer.length_contents _, hfifo.sound.fits⟩

theorem pipe_is_fifo_three_bytes :
    let files : FileTable := ⟨fun _ => ⟨.plain, 1#32, 0, false⟩, 5⟩
    let events : List PipeEvent := [.write [10#8, 20#8, 30#8], .read 2]
    ∃ s h, run PipeState.step PipeState.note events (newPipe (fun _ => 0#8) 3 4 files)
        ⟨[], []⟩ = some (s, h) ∧
      h.returned = [10#8, 20#8] ∧ s.pipe.contents = [30#8] ∧
      h.returned ++ s.pipe.contents = h.accepted ∧ s.pipe.count ≤ 4096 := by
  intro files events
  refine ⟨_, _, rfl, by decide, by decide, ?_⟩
  have hfifo := pipe_is_fifo (fun _ => 0#8) 3 4 files
    (Reaches.start.run events (fun _ _ _ => trivial) rfl)
  exact ⟨hfifo.1, hfifo.2.2⟩

end HelixOS
