import HelixOS.ParentPointers
import HelixOS.TableSizes

/-!
# The files below `/tmp`

The table of nodes of `ramfs.c`, the operations on paths and the open files.  Paths and
names are strings without their final zero.  The loops over the table find the first node
that fits.  An operation that returns `-1` is `none` here.
-/

namespace HelixOS.Ramfs

open ParentPointers Function

abbrev Byte := BitVec 8

/-- `struct ramfs_node`, with the memory `data` points to; the parent `none` is `-1`. -/
structure Node where
  used : Bool
  isDir : Bool
  name : List Byte
  parent : Option (Fin 64)
  data : Option (ℕ → Byte)
  size : ℕ
  cap : ℕ

abbrev Nodes := Fin 64 → Node

def clearNode : Node := ⟨false, false, [], some 0, none, 0, 0⟩

def tmpRoot : Fin 64 := 0

def slashByte : Byte := 0x2F#8
def dotByte : Byte := 0x2E#8

/-! ## Paths -/

def nodeAlloc (nodes : Nodes) : Option (Fin 64 × Nodes) :=
  ((List.finRange 64).find? fun i => !(nodes i).used).map fun i =>
    (i, update nodes i { clearNode with used := true, parent := none })

def findChild (nodes : Nodes) (parent : Fin 64) (name : List Byte) : Option (Fin 64) :=
  (List.finRange 64).find? fun i =>
    (nodes i).used && decide ((nodes i).parent = some parent) && decide ((nodes i).name = name)

/-- The components `resolve` cuts a path into, of at most 31 bytes; `ended` tells that slashes are
being skipped. -/
def componentsFrom (comp : List Byte) (ended : Bool) : List Byte → List (List Byte)
  | [] => [comp]
  | c :: rest =>
    if c = slashByte then componentsFrom comp true rest
    else if ended || comp.length == 31 then comp :: componentsFrom [c] false rest
    else componentsFrom (comp ++ [c]) false rest

def components (rel : List Byte) : List (List Byte) := componentsFrom [] false rel

def walk (nodes : Nodes) : Fin 64 → List (List Byte) → Option (Fin 64)
  | _, [] => none
  | parent, [leaf] => findChild nodes parent leaf
  | parent, comp :: rest =>
    match findChild nodes parent comp with
    | some c => if (nodes c).isDir then walk nodes c rest else none
    | none => none

def walkParent (nodes : Nodes) : Fin 64 → List (List Byte) → Option (Fin 64 × List Byte)
  | _, [] => none
  | parent, [leaf] => some (parent, leaf)
  | parent, comp :: rest =>
    match findChild nodes parent comp with
    | some c => if (nodes c).isDir then walkParent nodes c rest else none
    | none => none

def resolve (nodes : Nodes) (rel : List Byte) : Option (Fin 64) :=
  if rel = [] then some tmpRoot else walk nodes tmpRoot (components rel)

def resolveParent (nodes : Nodes) (rel : List Byte) : Option (Fin 64 × List Byte) :=
  if rel = [] then none else walkParent nodes tmpRoot (components rel)

def stripTmpPrefix (path : List Byte) : Option (List Byte) :=
  match path.dropWhile (· = slashByte) with
  | 0x74#8 :: 0x6D#8 :: 0x70#8 :: rest =>
    if rest = [] ∨ rest.head? = some slashByte then some (rest.dropWhile (· = slashByte))
    else none
  | _ => none

/-! ## Operations on paths -/

def addNode (nodes : Nodes) (parent : Fin 64) (name : List Byte) (isDir : Bool) :
    Option (Fin 64 × Nodes) :=
  (nodeAlloc nodes).map fun new =>
    (new.1, update new.2 new.1
      { new.2 new.1 with isDir := isDir, parent := some parent, name := name })

def ramfsMkdir (nodes : Nodes) (path : List Byte) : Option Nodes := do
  let rel ← stripTmpPrefix path
  if rel = [] then return nodes
  else
    let (parent, leaf) ← resolveParent nodes rel
    if leaf = [] then none
    else if (findChild nodes parent leaf).isSome then none
    else (addNode nodes parent leaf true).map Prod.snd

def ramfsCreateFile (nodes : Nodes) (path : List Byte) : Option (Fin 64 × Nodes) := do
  let rel ← stripTmpPrefix path
  if rel = [] then none
  else
    let (parent, leaf) ← resolveParent nodes rel
    if (findChild nodes parent leaf).isSome then none
    else addNode nodes parent leaf false

def nodeRelease (nodes : Nodes) (idx : Fin 64) : Nodes := update nodes idx clearNode

def nodeChildCount (nodes : Nodes) (idx : Fin 64) : ℕ :=
  ((List.finRange 64).filter fun i =>
    (nodes i).used && decide ((nodes i).parent = some idx)).length

def removalTarget (nodes : Nodes) (path : List Byte) : Option (Fin 64) := do
  let rel ← stripTmpPrefix path
  if rel = [] ∨ rel = [dotByte] then none
  else
    let (parent, leaf) ← resolveParent nodes rel
    if leaf = [] then none
    else findChild nodes parent leaf

def ramfsUnlinkOp (nodes : Nodes) (path : List Byte) : Option Nodes := do
  let idx ← removalTarget nodes path
  return nodeRelease nodes idx

def ramfsRmdirOp (nodes : Nodes) (path : List Byte) : Option Nodes := do
  let idx ← removalTarget nodes path
  if !(nodes idx).isDir then none
  else if 0 < nodeChildCount nodes idx then none
  else return nodeRelease nodes idx

/-- How a rename ends: the climb through the parents of the new directory may run on. -/
inductive RenameResult where
  | done (nodes : Nodes)
  | refused
  | hangs

def renameTarget (nodes : Nodes) (old new : List Byte) :
    Option (Fin 64 × Fin 64 × List Byte) := do
  let oldRel ← stripTmpPrefix old
  let newRel ← stripTmpPrefix new
  if oldRel = [] ∨ newRel = [] then none
  else
    let (oldParent, oldLeaf) ← resolveParent nodes oldRel
    let (newParent, newLeaf) ← resolveParent nodes newRel
    if oldLeaf = [] ∨ newLeaf = [] then none
    else
      let idx ← findChild nodes oldParent oldLeaf
      if (findChild nodes newParent newLeaf).isSome then none
      else return (idx, newParent, newLeaf)

def moveNode (nodes : Nodes) (idx parent : Fin 64) (name : List Byte) : Nodes :=
  update nodes idx { nodes idx with parent := some parent, name := name }

/-- A climb over more than the 64 entries of the table never ends. -/
def ramfsRenameOp (nodes : Nodes) (old new : List Byte) : RenameResult :=
  match renameTarget nodes old new with
  | none => .refused
  | some (idx, newParent, newLeaf) =>
    if (nodes idx).isDir then
      match climb (fun i => (nodes i).parent) tmpRoot idx 64 (some newParent) with
      | none => .hangs
      | some true => .refused
      | some false => .done (moveNode nodes idx newParent newLeaf)
    else .done (moveNode nodes idx newParent newLeaf)

/-! ## Open files -/

structure OpenFlags where
  wronly : Bool
  rdwr : Bool
  creat : Bool
  trunc : Bool
  append : Bool
  deriving DecidableEq

/-- `struct ramfs_file` with the `writable` of its `struct vfs_file`. -/
structure Handle where
  node : Fin 64
  pos : ℕ
  writable : Bool
  deriving DecidableEq

def openNode (nodes : Nodes) (path : List Byte) (creat : Bool) : Option (Fin 64 × Nodes) := do
  let rel ← stripTmpPrefix path
  if rel = [] then return (tmpRoot, nodes)
  else
    match resolve nodes rel with
    | some idx => return (idx, nodes)
    | none =>
      if creat then
        let (_, nodes) ← ramfsCreateFile nodes path
        (resolve nodes rel).map fun idx => (idx, nodes)
      else none

def truncate (nodes : Nodes) (idx : Fin 64) (trunc : Bool) : Nodes :=
  if trunc && !(nodes idx).isDir then update nodes idx { nodes idx with size := 0 }
  else nodes

/-- `memory` tells whether both objects of the handle can be allocated; a file may have
been created or emptied before that fails. -/
def ramfsOpen (nodes : Nodes) (path : List Byte) (flags : OpenFlags) (memory : Bool) :
    Option Handle × Nodes :=
  match openNode nodes path flags.creat with
  | none => (none, nodes)
  | some (idx, nodes) =>
    if (flags.wronly || flags.rdwr || flags.trunc || flags.creat) && (nodes idx).isDir then
      (none, nodes)
    else
      let nodes := truncate nodes idx flags.trunc
      if memory then
        (some
          { node := idx
            pos := if flags.append then (nodes idx).size else 0
            writable :=
              flags.wronly || flags.rdwr || flags.creat || flags.trunc || flags.append },
          nodes)
      else (none, nodes)

def ramfsRead (nodes : Nodes) (h : Handle) (len : ℕ) : Option (List Byte × Handle) :=
  let n := nodes h.node
  if n.isDir then none
  else if n.size ≤ h.pos then some ([], h)
  else
    let got := min (n.size - h.pos) len
    let bytes := (List.range got).map fun i => (n.data.getD fun _ => 0#8) (h.pos + i)
    some (bytes, { h with pos := h.pos + got })

/-- `ncap` doubled until it reaches `need`, within the given number of rounds. -/
def growCap (need : ℕ) : ℕ → ℕ → ℕ
  | 0, ncap => ncap
  | rounds + 1, ncap => if ncap < need then growCap need rounds (ncap * 2) else ncap

def newCap (cap need : ℕ) : ℕ :=
  min (growCap need need (if cap = 0 then 256 else cap * 2)) 65536

/-- The node with room for `need` bytes.  The new memory keeps what `fresh` held behind
the bytes that are copied. -/
def enlarge (n : Node) (need : ℕ) (fresh : Option (ℕ → Byte)) : Option Node :=
  if n.cap < need then
    fresh.map fun fresh =>
      { n with
        data := some fun i => if n.data.isSome ∧ i < n.size then (n.data.getD fresh) i else fresh i
        cap := newCap n.cap need }
  else some n

def store (memory : ℕ → Byte) (pos : ℕ) (bytes : List Byte) : ℕ → Byte := fun i =>
  if pos ≤ i ∧ i < pos + bytes.length then bytes.getD (i - pos) 0#8 else memory i

def u64 (n : ℕ) : ℕ := n % 2 ^ 64

/-- The handle and the table after a write of all the bytes; `fresh` is what `kmalloc`
would return. -/
def ramfsWrite (nodes : Nodes) (h : Handle) (bytes : List Byte) (fresh : Option (ℕ → Byte)) :
    Option (Handle × Nodes) :=
  let need := u64 (h.pos + bytes.length)
  if !h.writable || (nodes h.node).isDir then none
  else if 65536 < need then none
  else
    (enlarge (nodes h.node) need fresh).map fun n =>
      ({ h with pos := need },
        update nodes h.node
          { n with
            data := n.data.map fun memory => store memory h.pos bytes
            size := max n.size need })

/-! ## Runs -/

structure State where
  nodes : Nodes
  handles : ℕ → Option Handle
  opened : ℕ

def ramfsInit : State where
  nodes := update (fun _ => clearNode) tmpRoot
    { clearNode with
      used := true, isDir := true, parent := none, name := [0x74#8, 0x6D#8, 0x70#8] }
  handles := fun _ => none
  opened := 0

inductive Event where
  | mkdir (path : List Byte)
  | openFile (path : List Byte) (flags : OpenFlags) (memory : Bool)
  | read (h : ℕ) (len : ℕ)
  | write (h : ℕ) (bytes : List Byte) (fresh : Option (ℕ → Byte))
  | close (h : ℕ)
  | unlink (path : List Byte)
  | rmdir (path : List Byte)
  | rename (old new : List Byte)

def State.install (s : State) (result : Option Handle × Nodes) : State :=
  match result.1 with
  | some handle =>
    { nodes := result.2
      handles := update s.handles s.opened (some handle)
      opened := s.opened + 1 }
  | none => { s with nodes := result.2 }

/-- Only open files are read, written and closed. -/
def State.step (s : State) : Event → Option State
  | .mkdir path => some { s with nodes := (ramfsMkdir s.nodes path).getD s.nodes }
  | .openFile path flags memory => some (s.install (ramfsOpen s.nodes path flags memory))
  | .read h len =>
    (s.handles h).map fun handle =>
      match ramfsRead s.nodes handle len with
      | some (_, handle) => { s with handles := update s.handles h (some handle) }
      | none => s
  | .write h bytes fresh =>
    (s.handles h).map fun handle =>
      match ramfsWrite s.nodes handle bytes fresh with
      | some (handle, nodes) =>
        { s with nodes, handles := update s.handles h (some handle) }
      | none => s
  | .close h =>
    (s.handles h).map fun _ => { s with handles := update s.handles h none }
  | .unlink path => some { s with nodes := (ramfsUnlinkOp s.nodes path).getD s.nodes }
  | .rmdir path => some { s with nodes := (ramfsRmdirOp s.nodes path).getD s.nodes }
  | .rename old new =>
    match ramfsRenameOp s.nodes old new with
    | .done nodes => some { s with nodes }
    | .refused => some s
    | .hangs => none

end HelixOS.Ramfs
