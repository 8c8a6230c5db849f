import HelixOS.PipeEnds
import HelixOS.UdpSockets

/-!
# What `poll` reports

`vfs_poll_one` asks the `poll` operation of a file; no file system has one.  Without it the
answer is read off from fields of the file object.  For the ends of a pipe and for a UDP
socket these are set once, to zero, and never say anything of the object behind the file.
-/

namespace HelixOS

def pollIn : BitVec 16 := 0x001#16
def pollOut : BitVec 16 := 0x004#16
def pollErr : BitVec 16 := 0x008#16
def pollNval : BitVec 16 := 0x020#16

/-- What `vfs_poll_one` reads of a `struct vfs_file`; `poll` is the answer of the file system,
if it has the operation. -/
structure PolledFile where
  poll : Option (BitVec 32)
  isConsole : ℕ
  isDir : Bool
  isSocket : ℕ
  size : ℕ

/-- The result is cut to a `short` by the caller. -/
def vfsPollOne (file : Option PolledFile) (events : BitVec 16) : BitVec 16 :=
  match file with
  | none => pollNval
  | some f =>
    match f.poll with
    | some mask => if mask.toInt < 0 then pollErr else mask.setWidth 16 &&& events
    | none =>
      let mask :=
        if f.isConsole = 2 then pollIn
        else if f.isConsole = 1 then pollOut
        else if f.isDir then pollIn
        else if f.isSocket = 2 then pollIn ||| pollOut
        else if f.size = 0 then (pollIn ||| pollOut) &&& ~~~pollIn
        else pollIn ||| pollOut
      mask &&& events

/-- One round of the loop in `sys_poll`; `file` is what `fd_get` finds for the descriptor. -/
def pollRevents (fd : BitVec 32) (file : Option PolledFile) (events : BitVec 16) : BitVec 16 :=
  if fd.toInt < 0 then 0#16 else vfsPollOne file events

def pipeEndFile : PolledFile := ⟨none, 0, false, 0, 0⟩

def udpFile : PolledFile := ⟨none, 0, false, 1, 0⟩

/-- `poll` for `events` on the descriptor reports one of the events in `bit`. -/
def PollReports (fd : BitVec 32) (f : PolledFile) (events bit : BitVec 16) : Prop :=
  pollRevents fd (some f) events &&& bit ≠ 0#16

instance (fd : BitVec 32) (f : PolledFile) (events bit : BitVec 16) :
    Decidable (PollReports fd f events bit) := inferInstanceAs (Decidable (_ ≠ _))

variable {files : FileTable} {p : HelixPipe} {buf : Word} {fd : BitVec 32} {events : BitVec 16}

lemma pollRevents_plain {f : PolledFile} (hf : f = pipeEndFile ∨ f = udpFile)
    (hfd : 0 ≤ fd.toInt) : pollRevents fd (some f) events = pollOut &&& events := by
  have hmask : (pollIn ||| pollOut) &&& ~~~pollIn = pollOut := by decide
  rw [pollRevents, if_neg (not_lt.mpr hfd)]
  rcases hf with rfl | rfl
  · simp [vfsPollOne, pipeEndFile, hmask]
  · simp [vfsPollOne, udpFile, hmask]

lemma not_pollReports_pollIn {f : PolledFile} (hf : f = pipeEndFile ∨ f = udpFile)
    (hfd : 0 ≤ fd.toInt) : ¬ PollReports fd f events pollIn := by
  have hzero : pollOut &&& pollIn = 0#16 := by decide
  rw [PollReports, pollRevents_plain hf hfd, BitVec.and_comm pollOut, BitVec.and_assoc, hzero,
    BitVec.and_zero]
  exact not_not.mpr rfl

lemma pollReports_pollOut (hfd : 0 ≤ fd.toInt) (hevents : events &&& pollOut ≠ 0#16) :
    PollReports fd pipeEndFile events pollOut := by
  rw [PollReports, pollRevents_plain (.inl rfl) hfd, BitVec.and_comm pollOut, BitVec.and_assoc,
    BitVec.and_self]
  exact hevents

lemma sysReadPipe_one (hbuf : userPtrOk buf 1#64 = true) :
    (sysReadPipe files p buf 1#64).1 = eagainPipe ↔
      p.count = 0 ∧ p.writeEnd.any (fun f => 0 < (files.file f).refcount.toInt) = true := by
  have hone : (1#64).toNat = 1 := rfl
  rw [sysReadPipe, if_neg (by decide), if_neg (by simp [hbuf]), hone]
  dsimp only
  by_cases hempty : p.count = 0
  · rw [pipeRead_empty 1 hempty]
    by_cases hopen : p.writeEnd.any (fun f => 0 < (files.file f).refcount.toInt) = true
    · simp [eagainPipe, hempty, hopen]
    · simp [eagainPipe, hopen]
  · have hread : (pipeRead files p 1).1 = (0, [p.buf p.tail]) := by
      simp [pipeRead, RingBuffer.drain, Nat.pos_of_ne_zero hempty]
    simp [hread, eagainPipe, hempty]

lemma sysWritePipe_one (hbuf : userPtrOk buf 1#64 = true) (b : BitVec 8) :
    (sysWritePipe files p buf [b]).1 = 1 ↔
      p.count < 4096 ∧ p.readEnd.any (fun f => (files.file f).refcount.toInt ≤ 0) = false := by
  have hlen : BitVec.ofNat 64 [b].length = 1#64 := rfl
  rw [sysWritePipe, if_neg (by simp), hlen, if_neg (by simp [hbuf])]
  by_cases hclosed : p.readEnd.any (fun f => (files.file f).refcount.toInt ≤ 0) = true
  · simp [pipeWrite, hclosed]
  · by_cases hroom : p.count < 4096
    · simp [pipeWrite, hclosed, RingBuffer.fill, hroom]
    · simp [pipeWrite, hclosed, RingBuffer.fill, hroom, eagainPipe]

/-- Exactly when `poll` agrees with the calls it announces; `POLLOUT` is compared if it is asked
for. -/
theorem poll_agrees_iff (hfd : 0 ≤ fd.toInt) (hbuf : userPtrOk buf 1#64 = true)
    (b : BitVec 8) (s : Net.HelixSock) :
    ((PollReports fd pipeEndFile events pollIn ↔
        (sysReadPipe files p buf 1#64).1 ≠ eagainPipe) ↔
      p.count = 0 ∧ p.writeEnd.any (fun f => 0 < (files.file f).refcount.toInt) = true) ∧
    (events &&& pollOut ≠ 0#16 →
      ((PollReports fd pipeEndFile events pollOut ↔ (sysWritePipe files p buf [b]).1 = 1) ↔
        p.count < 4096 ∧ p.readEnd.any (fun f => (files.file f).refcount.toInt ≤ 0) = false)) ∧
    ((PollReports fd udpFile events pollIn ↔ s.rxq.count ≠ 0) ↔ s.rxq.count = 0) := by
  refine ⟨?_, fun hout => ?_, ?_⟩
  · rw [iff_false_left (not_pollReports_pollIn (.inl rfl) hfd), not_not, sysReadPipe_one hbuf]
  · rw [iff_true_left (pollReports_pollOut hfd hout), sysWritePipe_one hbuf]
  · rw [iff_false_left (not_pollReports_pollIn (.inr rfl) hfd), not_not]

def openPipe (n : ℕ) : HelixPipe where
  buf _ := 0#8
  head := Fin.ofNat 4096 n
  tail := 0
  count := n
  readEnd := some 3
  writeEnd := some 4

def openPipeFiles : FileTable := ⟨fun _ => ⟨.plain, 1#32, 0, false⟩, 5⟩

theorem poll_agrees_empty_pipe :
    (PollReports 3#32 pipeEndFile pollIn pollIn ↔
      (sysReadPipe openPipeFiles (openPipe 0) 0x40000000#64 1#64).1 ≠ eagainPipe) ∧
    (PollReports 4#32 pipeEndFile pollOut pollOut ↔
      (sysWritePipe openPipeFiles (openPipe 0) 0x40000000#64 [7#8]).1 = 1) :=
  ⟨(poll_agrees_iff (by decide) (by decide) 7#8 .cleared).1.mpr ⟨rfl, rfl⟩,
    ((poll_agrees_iff (by decide) (by decide) 7#8 .cleared).2.1 (by decide)).mpr
      ⟨by decide, rfl⟩⟩

/-- A pipe with one byte and a socket with a datagram are not readable for `poll`, and a full pipe
is writable. -/
theorem poll_disagrees :
    (¬ PollReports 3#32 pipeEndFile 5#16 pollIn ∧
      (sysReadPipe openPipeFiles (openPipe 1) 0x40000000#64 1#64).1 = 1) ∧
    (PollReports 4#32 pipeEndFile 5#16 pollOut ∧
      (sysWritePipe openPipeFiles (openPipe 4096) 0x40000000#64 [7#8]).1 = -13) ∧
    ¬ PollReports 5#32 udpFile 5#16 pollIn ∧
      (Net.HelixSock.cleared.rxq.push ⟨1#32, 7#16, []⟩).count ≠ 0 := by
  decide

end HelixOS
