import HelixOS.PageAllocator

/-!
# Open files and descriptor tables

The file objects behind the descriptors and the operations of `vfs.c` and `syscall.c` on a
descriptor table.  A file object is freed by the `close` operation of its file system or,
for a socket, together with its kernel object; `closed` counts how often that has
happened.
-/

namespace HelixOS

open Function

/-- Regular files, directories and pipe ends have a `close` operation, sockets have no
operations at all. -/
inductive FileKind where
  | console
  | plain
  | socket
  deriving DecidableEq

structure OpenFile where
  kind : FileKind
  refcount : BitVec 32
  closed : ℕ
  socketHeld : Bool

/-- The file objects by address; those from `next` on have not been allocated yet. -/
structure FileTable where
  file : ℕ → OpenFile
  next : ℕ

abbrev Descriptors := Fin 16 → Option ℕ

@[simps next]
def FileTable.modify (files : FileTable) (f : ℕ) (change : OpenFile → OpenFile) : FileTable :=
  { files with file := update files.file f (change (files.file f)) }

/-! ## File objects -/

def FileTable.create (files : FileTable) (kind : FileKind) : ℕ × FileTable :=
  (files.next,
    { file := update files.file files.next
        ⟨kind, 0#32, 0, decide (kind = .socket)⟩
      next := files.next + 1 })

def vfsClose (files : FileTable) (f : ℕ) : FileTable :=
  match (files.file f).kind with
  | .console => files
  | .plain => files.modify f fun file => { file with closed := file.closed + 1 }
  | .socket => files

/-- `net_sock_free` or `tcp_free`, then `kfree`. -/
def socketFree (files : FileTable) (f : ℕ) : FileTable :=
  files.modify f fun file => { file with closed := file.closed + 1, socketHeld := false }

def fdHold (files : FileTable) (f : ℕ) : FileTable :=
  files.modify f fun file => { file with refcount := file.refcount + 1#32 }

def FileTable.dropRef (files : FileTable) (f : ℕ) : FileTable :=
  files.modify f fun file => { file with refcount := file.refcount - 1#32 }

/-- A slot gives its reference back, as in `fd_close`, `task_exit_current` and
`task_reap`. -/
def FileTable.release (files : FileTable) (f : ℕ) : FileTable :=
  let files := files.dropRef f
  if 0 < (files.file f).refcount.toInt then files
  else if (files.file f).kind = .socket then socketFree files f
  else vfsClose files f

/-! ## Descriptor tables -/

def fdIndex (fd : Word) : Option (Fin 16) :=
  if h : (fd.setWidth 32).toNat < 16 then some ⟨(fd.setWidth 32).toNat, h⟩ else none

def consIn : ℕ := 0
def consOut : ℕ := 1
def consErr : ℕ := 2

def fdInitTaskStdio (fds : Descriptors) : Descriptors := fun i =>
  if i = 0 then (fds 0).or (some consIn)
  else if i = 1 then (fds 1).or (some consOut)
  else if i = 2 then (fds 2).or (some consErr)
  else fds i

/-- The result is the slot, `none` when the table is full. -/
def fdInstall (fds : Descriptors) (files : FileTable) (f : ℕ) :
    Option (Fin 16) × Descriptors × FileTable :=
  match (List.finRange 16).find? fun i => (fds i).isNone with
  | some i =>
    (some i, update fds i (some f),
      files.modify f fun file => { file with refcount := 1#32 })
  | none => (none, fds, files)

/-- The slot `i` is cleared and its reference released, unless it is a console file. -/
def closeSlot (fds : Descriptors) (files : FileTable) (i : Fin 16) :
    Descriptors × FileTable :=
  match fds i with
  | none => (fds, files)
  | some f =>
    if (files.file f).kind = .console then (fds, files)
    else (update fds i none, files.release f)

def fdClose (fds : Descriptors) (files : FileTable) (fd : Word) :
    Bool × Descriptors × FileTable :=
  match fdIndex fd with
  | none => (false, fds, files)
  | some i => ((fds i).isSome, closeSlot fds files i)

def closeAll (fds : Descriptors) (files : FileTable) : Descriptors × FileTable :=
  (List.finRange 16).foldl (fun state i => closeSlot state.1 state.2 i) (fds, files)

def holdAll (fds : Descriptors) (files : FileTable) : FileTable :=
  (List.finRange 16).foldl
    (fun files i =>
      match fds i with
      | none => files
      | some f => fdHold files f)
    files

/-! ## System calls on a descriptor table -/

/-- `sys_open` with the result of `vfs_open_flags`. -/
def sysOpen (fds : Descriptors) (files : FileTable) (found : Bool) :
    Option (Fin 16) × Descriptors × FileTable :=
  if !found then (none, fds, files)
  else
    let (f, files) := files.create .plain
    match fdInstall fds files f with
    | (some i, fds, files) => (some i, fds, files)
    | (none, fds, files) => (none, fds, vfsClose files f)

/-- `sys_socket` with the result of the allocations. -/
def sysSocket (fds : Descriptors) (files : FileTable) (found : Bool) :
    Option (Fin 16) × Descriptors × FileTable :=
  if !found then (none, fds, files)
  else
    let (f, files) := files.create .socket
    match fdInstall fds files f with
    | (some i, fds, files) => (some i, fds, files)
    | (none, fds, files) => (none, fds, socketFree files f)

/-- `sys_pipe` with the results of `helix_pipe_wrap` for the two ends. -/
def sysPipe (fds : Descriptors) (files : FileTable) (reader writer : Bool) :
    Option (Fin 16 × Fin 16) × Descriptors × FileTable :=
  let (r, files) := if reader then (files.create .plain).map some id else (none, files)
  let (w, files) := if writer then (files.create .plain).map some id else (none, files)
  match r, w with
  | some r, some w =>
    let (rf, fds, files) := fdInstall fds files r
    let (wf, fds, files) := fdInstall fds files w
    match rf, wf with
    | some rf, some wf => (some (rf, wf), fds, files)
    | some rf, none => (none, closeSlot fds files rf)
    | none, some wf => (none, closeSlot fds files wf)
    | none, none => (none, fds, files)
  | some r, none => (none, fds, vfsClose files r)
  | none, some w => (none, fds, vfsClose files w)
  | none, none => (none, fds, files)

/-- The old file of the slot is released only above the standard descriptors, and without
the case of a socket. -/
def sysDup2 (fds : Descriptors) (files : FileTable) (oldfd newfd : Word) :
    Option Word × Descriptors × FileTable :=
  match (fdIndex oldfd).bind fds with
  | none => (none, fds, files)
  | some f =>
    if h : newfd.toNat < 16 then
      if oldfd = newfd then (some newfd, fds, files)
      else
        let i : Fin 16 := ⟨newfd.toNat, h⟩
        let files :=
          match fds i with
          | none => files
          | some g =>
            if newfd > 2#64 then
              let files := files.dropRef g
              if (files.file g).refcount.toInt ≤ 0 then vfsClose files g else files
            else files
        (some newfd, update fds i (some f), fdHold files f)
    else (none, fds, files)

end HelixOS
