import HelixOS.LoadedImages

/-!
# The memory that system calls touch through user pointers

`user_ptr_ok` compares a pointer with fixed windows; what the kernel may touch is a matter
of the page table.  The model lists the bytes that `read`, `write`, `getdents64`, `fstat`,
`pipe` and `execve` read and write through the pointers they are given.
-/

namespace HelixOS

open BitVec List

/-! ## Open files, as seen from the buffer -/

/-- What decides how much of the buffer is touched; `clusters` counts those of a FAT file before
an error or the end of the chain. -/
inductive BufferFile where
  | console (input : Bool) (waiting : Option Byte)
  | pipe (count : ℕ) (readerGone : Bool)
  | ramfs (isDir writable memory : Bool) (size pos : ℕ) (names : List ℕ)
  | fat (isDir writable : Bool) (size pos clusSize clusters : ℕ) (names : List ℕ)
  | socket

def fatChunks (clusSize : ℕ) : ℕ → ℕ → ℕ → ℕ
  | 0, _, _ => 0
  | clusters + 1, off, remain =>
    let chunk := min (clusSize - off) remain
    chunk + fatChunks clusSize clusters 0 (remain - chunk)

/-- How many bytes `vfs_read` puts at the start of the buffer. -/
def vfsReadBytes (f : BufferFile) (len : ℕ) : ℕ :=
  match f with
  | .console _ waiting =>
    -- Ctrl+C is not returned
    match waiting with
    | none => 0
    | some c => if len = 0 ∨ c = 3#8 then 0 else 1
  | .pipe count _ => min len count
  | .ramfs isDir _ _ size pos _ => if isDir then 0 else min (size - pos) len
  | .fat _ _ size pos clusSize clusters _ =>
    fatChunks clusSize clusters (pos % clusSize) (min len (size - pos))
  | .socket => 0

/-- How many bytes `sys_write` takes from the start of the buffer. -/
def vfsWriteBytes (f : BufferFile) (len : ℕ) : ℕ :=
  match f with
  | .console input _ => if input then 0 else len
  | .pipe count readerGone => if readerGone then 0 else min len (4096 - count)
  | .ramfs isDir writable memory _ pos _ =>
    if !writable || isDir || decide (65536 < pos + len) || !memory then 0 else len
  | .fat _ writable _ pos clusSize clusters _ =>
    if !writable then 0 else fatChunks clusSize clusters (pos % clusSize) len
  | .socket => 0

/-- The entries that `getdents64` writes, with their offsets. -/
def direntBytes (len : ℕ) : List ℕ → ℕ → List (ℕ × ℕ)
  | [], _ => []
  | namelen :: names, produced =>
    let reclen := (8 + 8 + 2 + 1 + namelen + 1 + 7) / 8 * 8
    if len < produced + reclen then []
    else (produced, 8 + 8 + 2 + 1 + (namelen + 1)) :: direntBytes len names (produced + reclen)

def vfsGetdents64Bytes (f : BufferFile) (len : ℕ) : List (ℕ × ℕ) :=
  match f with
  | .ramfs true _ _ _ _ names => direntBytes len names 0
  | .fat true _ _ _ _ _ names => direntBytes len names 0
  | _ => []

def vfsFstatBytes (f : BufferFile) : ℕ :=
  match f with
  | .ramfs .. => 144
  | .fat .. => 144
  | _ => 0

/-! ## Calls -/

structure Touch where
  start : Word
  len : ℕ
  write : Bool

/-- The descriptors and the memory of the task, and which requests of the calls succeed. -/
structure CallEnv where
  fds : ℕ → Option BufferFile
  peek : Word → Byte
  pipeMade : Bool
  program : List Byte → Bool
  argMemory : ℕ → Bool

def CallEnv.fdGet (env : CallEnv) (fd : Word) : Option BufferFile :=
  let i := (fd.setWidth 32).toInt
  if i < 0 ∨ 16 ≤ i then none else env.fds i.toNat

/-- `copy_user_path`, with room for `n` more bytes and the terminator. -/
def copyUserPath (peek : Word → Byte) : ℕ → Word → Option (List Byte) × List Touch
  | 0, _ => (none, [])
  | n + 1, p =>
    if !userPtrOk p 1#64 then (none, [])
    else if peek p = 0#8 then (some [], [⟨p, 1, false⟩])
    else
      let (rest, touches) := copyUserPath peek n (p + 1#64)
      (rest.map (peek p :: ·), ⟨p, 1, false⟩ :: touches)

def argTouches (peek : Word → Byte) : ℕ → Word → List Touch
  | 0, _ => []
  | n + 1, p => ⟨p, 1, false⟩ :: if peek p = 0#8 then [] else argTouches peek n (p + 1#64)

def argPointer (peek : Word → Byte) (argv : Word) (i : ℕ) : Word :=
  let p := argv + BitVec.ofNat 64 (8 * i)
  (List.range 8).foldr (fun k w => (w <<< 8) ||| (peek (p + BitVec.ofNat 64 k)).setWidth 64) 0#64

/-- The loop over `argv`, with `n` rounds left.  The array itself is not checked. -/
def argvTouches (env : CallEnv) (argv : Word) : ℕ → ℕ → List Touch
  | 0, _ => []
  | n + 1, i =>
    let p := argPointer env.peek argv i
    ⟨argv + BitVec.ofNat 64 (8 * i), 8, false⟩ ::
      if p = 0#64 then []
      else if !userPtrOk p 1#64 then []
      else if !env.argMemory i then []
      else argTouches env.peek 127 p ++ argvTouches env argv n (i + 1)

/-- The calls with pointers. -/
inductive PtrCall where
  | read (fd buf count : Word)
  | write (fd buf count : Word)
  | getdents64 (fd buf count : Word)
  | fstat (fd statbuf : Word)
  | pipe (pipefd : Word)
  | execve (pathname argv : Word)

/-- The calls on a descriptor: the pointer is checked before the descriptor. -/
def CallEnv.onFile (env : CallEnv) (ok : Bool) (fd : Word) (touches : BufferFile → List Touch) :
    List Touch :=
  if !ok then []
  else
    match env.fdGet fd with
    | none => []
    | some f => touches f

/-- What a call touches through its pointers. -/
def PtrCall.touches (env : CallEnv) : PtrCall → List Touch
  | .read fd buf count =>
    if count = 0#64 then []
    else env.onFile (userPtrOk buf count) fd fun f => [⟨buf, vfsReadBytes f count.toNat, true⟩]
  | .write fd buf count =>
    if count = 0#64 then []
    else env.onFile (userPtrOk buf count) fd fun f => [⟨buf, vfsWriteBytes f count.toNat, false⟩]
  | .getdents64 fd buf count =>
    env.onFile (userPtrOk buf count) fd fun f => (vfsGetdents64Bytes f count.toNat).map fun e =>
      ⟨buf + BitVec.ofNat 64 e.1, e.2, true⟩
  | .fstat fd statbuf =>
    env.onFile (userPtrOk statbuf 144#64) fd fun f => [⟨statbuf, vfsFstatBytes f, true⟩]
  | .pipe pipefd =>
    if !userPtrOk pipefd 8#64 then []
    else if !env.pipeMade then []
    else [⟨pipefd, 8, true⟩]
  | .execve pathname argv =>
    match copyUserPath env.peek 255 pathname with
    | (none, touches) => touches
    | (some path, touches) =>
      if !env.program path then touches
      else touches ++ if argv = 0#64 then [] else argvTouches env argv 14 0

/-! ## Bytes of the task -/

section Rights

variable {m : Machine} {n i : ℕ} {p : Word} {Q R : ℕ → Prop}

def byteAfter (p : Word) (i : ℕ) : Word := p + BitVec.ofNat 64 i

lemma byteAfter_zero (p : Word) : byteAfter p 0 = p := by simp [byteAfter]

lemma byteAfter_succ (p : Word) (i) : byteAfter p i + 1#64 = byteAfter p (i + 1) := by
  rw [byteAfter, byteAfter, BitVec.ofNat_add, BitVec.add_assoc]

/-- The byte at `v` is one that `user_ptr_ok` accepts. -/
def InWindow (v : Word) : Prop := userPtrOk v 1#64 = true

/-- The byte lies on a user page, which is writable if the kernel writes. -/
def UserByte (m : Machine) (write : Bool) (v : Word) : Prop :=
  ∃ page, translate m.mem m.cr3 v = some page ∧ page.user = true ∧
    (write = true → page.writable = true)

/-- The `n` bytes from `p` on are such bytes. -/
def UserBytes (m : Machine) (write : Bool) (p : Word) (n : ℕ) : Prop :=
  ∀ k < n, UserByte m write (byteAfter p k)

def Touch.Allowed (m : Machine) (t : Touch) : Prop := UserBytes m t.write t.start t.len

lemma allowed_byte {write : Bool} : Touch.Allowed m ⟨p, 1, write⟩ ↔ UserByte m write p := by
  simp [Touch.Allowed, UserBytes, byteAfter_zero]

/-- A loop of at most `n` rounds that goes on after the round `i` if `Q i`: the rounds it comes to
satisfy `R`. -/
def UpTo (n : ℕ) (Q R : ℕ → Prop) : Prop := ∀ j < n, (∀ i < j, Q i) → R j

lemma upTo_zero : UpTo 0 Q R := fun j hj => absurd hj (Nat.not_lt_zero j)

lemma upTo_succ_from (i) :
    UpTo (n + 1) (fun l => Q (i + l)) (fun l => R (i + l)) ↔
      R i ∧ (Q i → UpTo n (fun l => Q (i + 1 + l)) fun l => R (i + 1 + l)) := by
  simp_rw [Nat.add_assoc, Nat.add_comm 1]
  constructor
  · intro hall
    refine ⟨hall 0 (by omega) fun l hl => absurd hl (Nat.not_lt_zero l), fun hQ j hj hbefore => ?_⟩
    refine hall (j + 1) (by omega) fun l hl => ?_
    cases l with
    | zero => exact hQ
    | succ l => exact hbefore l (by omega)
  · rintro ⟨hfirst, hrest⟩ j hj hbefore
    cases j with
    | zero => exact hfirst
    | succ j =>
      exact hrest (hbefore 0 (by omega)) j (by omega) fun l hl => hbefore (l + 1) (by omega)

/-! ## The path and the arguments of execve -/

/-- The bytes of the path from `i` on, up to its end and to the first one outside the windows. -/
def PathOwn (m : Machine) (peek : Word → Byte) (p : Word) (n i : ℕ) : Prop :=
  UpTo n (fun l => InWindow (byteAfter p (i + l)) ∧ peek (byteAfter p (i + l)) ≠ 0#8)
    fun l => InWindow (byteAfter p (i + l)) → UserByte m false (byteAfter p (i + l))

/-- The bytes of an argument from `i` on, up to its end. -/
def ArgOwn (m : Machine) (peek : Word → Byte) (p : Word) (n i : ℕ) : Prop :=
  UpTo n (fun l => peek (byteAfter p (i + l)) ≠ 0#8)
    fun l => UserByte m false (byteAfter p (i + l))

/-- The pointer in the slot `i` is followed. -/
def ArgFollowed (env : CallEnv) (argv : Word) (i : ℕ) : Prop :=
  argPointer env.peek argv i ≠ 0#64 ∧ InWindow (argPointer env.peek argv i) ∧ env.argMemory i = true

/-- The slots of the array from `i` on, up to the first one that is not followed, and the
arguments they point to. -/
def ArgvOwn (m : Machine) (env : CallEnv) (argv : Word) (n i : ℕ) : Prop :=
  UpTo n (fun l => ArgFollowed env argv (i + l)) fun l =>
    UserBytes m false (byteAfter argv (8 * (i + l))) 8 ∧
      (ArgFollowed env argv (i + l) → ArgOwn m env.peek (argPointer env.peek argv (i + l)) 127 0)

lemma copyUserPath_allowed_iff (peek : Word → Byte) (p) (n) (i) :
    (∀ t ∈ (copyUserPath peek n (byteAfter p i)).2, t.Allowed m) ↔ PathOwn m peek p n i := by
  induction n generalizing i with
  | zero => simp [copyUserPath, PathOwn, upTo_zero]
  | succ n ih =>
    rw [copyUserPath, PathOwn, upTo_succ_from (Q := fun i => InWindow (byteAfter p i) ∧
      peek (byteAfter p i) ≠ 0#8) (R := fun i => InWindow (byteAfter p i) →
        UserByte m false (byteAfter p i)), ← PathOwn, ← ih, byteAfter_succ]
    by_cases hok : userPtrOk (byteAfter p i) 1#64 = true
    · by_cases hend : peek (byteAfter p i) = 0#8
      · simp [InWindow, hok, hend, allowed_byte]
      · simp [InWindow, hok, hend, allowed_byte]
    · simp [InWindow, hok]

lemma argTouches_allowed_iff (peek : Word → Byte) (p) (n) (i) :
    (∀ t ∈ argTouches peek n (byteAfter p i), t.Allowed m) ↔ ArgOwn m peek p n i := by
  induction n generalizing i with
  | zero => simp [argTouches, ArgOwn, upTo_zero]
  | succ n ih =>
    rw [argTouches, ArgOwn, upTo_succ_from (Q := fun i => peek (byteAfter p i) ≠ 0#8)
      (R := fun i => UserByte m false (byteAfter p i)), ← ArgOwn, ← ih, byteAfter_succ,
      forall_mem_cons, allowed_byte]
    by_cases hend : peek (byteAfter p i) = 0#8 <;> simp [hend]

lemma argvTouches_allowed_iff (env : CallEnv) (argv : Word) (n) (i) :
    (∀ t ∈ argvTouches env argv n i, t.Allowed m) ↔ ArgvOwn m env argv n i := by
  induction n generalizing i with
  | zero => simp [argvTouches, ArgvOwn, upTo_zero]
  | succ n ih =>
    rw [argvTouches, ArgvOwn, upTo_succ_from (Q := ArgFollowed env argv) (R := fun i =>
      UserBytes m false (byteAfter argv (8 * i)) 8 ∧ (ArgFollowed env argv i →
        ArgOwn m env.peek (argPointer env.peek argv i) 127 0)), ← ArgvOwn, ← ih, forall_mem_cons]
    refine (and_congr Iff.rfl ?_).trans and_assoc.symm
    by_cases hfollowed : ArgFollowed env argv i
    · have hstring := argTouches_allowed_iff (m := m) env.peek (argPointer env.peek argv i) 127 0
      rw [byteAfter_zero] at hstring
      obtain ⟨hnull, hok, hmemory⟩ := id hfollowed
      rw [InWindow] at hok
      simp only [hnull, hok, hmemory, hfollowed, if_false, Bool.not_true, Bool.false_eq_true,
        forall_mem_append, forall_const, hstring]
    · refine iff_of_true ?_ ⟨fun h => absurd h hfollowed, fun h => absurd h hfollowed⟩
      split_ifs with hnull hok hmemory
      · simp
      · simp
      · simp
      · exact absurd ⟨hnull, by simpa [InWindow] using hok, by simpa using hmemory⟩ hfollowed

end Rights

/-! ## The calls -/

/-- What the caller names and `user_ptr_ok` lets through is the task's own: the part of the buffer
that the file fills or takes, the path, and for a program the argument array with the arguments. -/
def PtrCall.OwnPointers (m : Machine) (env : CallEnv) : PtrCall → Prop
  | .read fd buf count => count ≠ 0#64 → userPtrOk buf count = true → ∀ f, env.fdGet fd = some f →
      UserBytes m true buf (vfsReadBytes f count.toNat)
  | .write fd buf count => count ≠ 0#64 → userPtrOk buf count = true → ∀ f, env.fdGet fd = some f →
      UserBytes m false buf (vfsWriteBytes f count.toNat)
  | .getdents64 fd buf count => userPtrOk buf count = true → ∀ f, env.fdGet fd = some f →
      ∀ e ∈ vfsGetdents64Bytes f count.toNat, UserBytes m true (byteAfter buf e.1) e.2
  | .fstat fd statbuf => userPtrOk statbuf 144#64 = true → ∀ f, env.fdGet fd = some f →
      UserBytes m true statbuf (vfsFstatBytes f)
  | .pipe pipefd => userPtrOk pipefd 8#64 = true → env.pipeMade = true →
      UserBytes m true pipefd 8
  | .execve pathname argv => PathOwn m env.peek pathname 255 0 ∧
      ∀ path, (copyUserPath env.peek 255 pathname).1 = some path → env.program path = true →
        argv ≠ 0#64 → ArgvOwn m env argv 14 0

lemma onFile_allowed_iff {m : Machine} {env : CallEnv} {ok : Bool} {fd : Word}
    {touches : BufferFile → List Touch} :
    (∀ t ∈ env.onFile ok fd touches, t.Allowed m) ↔
      (ok = true → ∀ f, env.fdGet fd = some f → ∀ t ∈ touches f, t.Allowed m) := by
  rw [CallEnv.onFile]
  cases ok <;> cases env.fdGet fd <;> simp

/-- One character waits at the console, and memory is all zeros. -/
def idleEnv : CallEnv :=
  ⟨fun _ => some (.console true (some 0x61#8)), fun _ => 0#8, false, fun _ => true,
    fun _ => true⟩

end HelixOS
