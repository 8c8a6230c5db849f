import HelixOS.OpenFiles
import HelixOS.PagingOperations

/-!
# The task table

The tasks of `task.c` and the signals of `signal.c`.  Slots of the table stand for pointers
into `g_tasks`, so a parent link is a slot and not a task.
-/

namespace HelixOS

open List

inductive TaskState where
  | unused
  | ready
  | running
  | zombie
  deriving DecidableEq

/-- The saved user registers; `rcx` and `r11` are never written. -/
structure Regs where
  rip : Word
  rflags : Word
  rsp : Word
  rax : Word
  rdi : Word
  rsi : Word
  rdx : Word
  r10 : Word
  r8 : Word
  r9 : Word
  r15 : Word
  r14 : Word
  r13 : Word
  r12 : Word
  rbp : Word
  rbx : Word
  deriving DecidableEq

abbrev Slot := Fin 8

structure Task where
  pid : BitVec 32
  parent : Option Slot
  state : TaskState
  exitCode : BitVec 32
  regs : Regs
  kernelStack : Word
  pml4 : Word
  fds : Descriptors
  brkStart : Word
  brkCurr : Word
  sigPending : Word
  sigBlocked : Word
  handler : Fin 32 → Word

/-- The statics of `task.c`, `syscall.c` and `exec.c`, the open files, and the FS base of
the processor. -/
structure Kernel where
  machine : Machine
  tasks : Slot → Task
  current : Option Slot
  nextPid : BitVec 32
  activePml4 : Word
  fsBase : Word
  files : FileTable
  fbBump : Word
  anonBump : Word
  anonBump2 : Word
  stackGen : BitVec 32

@[simps machine current fsBase]
def Kernel.modify (k : Kernel) (i : Slot) (change : Task → Task) : Kernel :=
  { k with tasks := Function.update k.tasks i (change (k.tasks i)) }

@[simps machine current fsBase]
def Kernel.setMachine (k : Kernel) (m : Machine) : Kernel := { k with machine := m }

def Regs.zero : Regs := ⟨0, 0, 0, 0, 0, 0, 0, 0, 0, 0, 0, 0, 0, 0, 0, 0⟩

def Task.zero : Task where
  pid := 0#32
  parent := none
  state := .unused
  exitCode := 0#32
  regs := Regs.zero
  kernelStack := 0#64
  pml4 := 0#64
  fds := fun _ => none
  brkStart := 0#64
  brkCurr := 0#64
  sigPending := 0#64
  sigBlocked := 0#64
  handler := fun _ => 0#64

def taskInit (k : Kernel) : Kernel :=
  { k with
    tasks := fun _ => Task.zero
    current := none
    nextPid := 1#32
    activePml4 := k.machine.cr3 }

/-! ## Scheduling -/

def allocSlot (k : Kernel) : Option Slot :=
  (finRange 8).find? fun i => (k.tasks i).state = .unused

/-- Round-robin from the slot after `except`. -/
def pickNext (k : Kernel) (except : Option Slot) : Option Slot :=
  let start := match except with
    | none => 0
    | some i => i.val + 1
  ((List.range 8).map fun n => Fin.ofNat 8 (start + n)).find? fun i =>
    (k.tasks i).state = .ready

def taskActivate (k : Kernel) (n : Slot) : Kernel :=
  let pml4 := (k.tasks n).pml4
  if pml4 ≠ 0#64 ∧ pml4 ≠ k.activePml4 then
    { k with machine := pagingSetPml4 k.machine pml4, activePml4 := pml4 }
  else k

def runTask (k : Kernel) (n : Slot) : Kernel :=
  taskActivate { k.modify n (fun t => { t with state := .running }) with current := some n } n

def taskYield (k : Kernel) : Kernel :=
  match k.current with
  | none => k
  | some t =>
    match pickNext k (some t) with
    | none => k
    | some n =>
      if n = t then k
      else runTask (k.modify t fun task => { task with state := .ready }) n

def taskCountAlive (k : Kernel) : ℕ :=
  ((finRange 8).filter fun i =>
    (k.tasks i).state = .ready ∨ (k.tasks i).state = .running).length

/-! ## Signals -/

def sigKill : Fin 32 := 9
def sigInt : Fin 32 := 2
def sigChld : Fin 32 := 17
def sigCont : Fin 32 := 18
def sigStop : Fin 32 := 19
def sigTstp : Fin 32 := 20

def sigBit (sig : Fin 32) : Word := 1#64 <<< sig.val

def sigIgn : Word := 1#64
def sigDfl : Word := 0#64

def sigDefaultTerminate (sig : Fin 32) : Bool :=
  !(sig = sigChld ∨ sig = sigCont ∨ sig = sigStop ∨ sig = sigTstp)

def signalSend (k : Kernel) (t : Slot) (sig : Fin 32) : Kernel :=
  if sig = 0 then k
  else if (k.tasks t).state = .unused ∨ (k.tasks t).state = .zombie then k
  else k.modify t fun task => { task with sigPending := task.sigPending ||| sigBit sig }

def signalOnExit (k : Kernel) (t : Slot) : Kernel :=
  match (k.tasks t).parent with
  | none => k
  | some p =>
    if (k.tasks p).state = .unused ∨ (k.tasks p).state = .zombie then k
    else signalSend k p sigChld

def signalApplyOne (t : Task) (sig : Fin 32) : Bool :=
  if sig = sigKill then true
  else if t.handler sig = sigIgn then false
  else if t.handler sig = sigDfl then
    if sig = sigChld ∨ sig = sigCont then false else sigDefaultTerminate sig
  else false

/-! ## Exit -/

def releaseFiles (k : Kernel) (t : Slot) : Kernel :=
  let (fds, files) := closeAll (k.tasks t).fds k.files
  { k.modify t (fun task => { task with fds := fds }) with files := files }

def releaseSpace (k : Kernel) (t : Slot) : Kernel :=
  { k.modify t (fun task => { task with pml4 := 0#64 }) with
    machine := vmmDestroyAddressSpace k.machine (k.tasks t).pml4 }

/-- The part of `task_exit_current` before the switch. -/
def becomeZombie (k : Kernel) (t : Slot) (code : BitVec 32) : Kernel :=
  let k := k.modify t fun task => { task with exitCode := code, state := .zombie }
  releaseFiles (signalOnExit k t) t

def loadTemplate (k : Kernel) : Kernel :=
  let template := k.machine.kernelPml4
  if k.activePml4 ≠ template then
    { k with machine := pagingSetPml4 k.machine template, activePml4 := template }
  else k

/-- Without another task the kernel template is loaded and nothing runs; the exit hook or
the idle loop takes over. -/
def taskExitCurrent (k : Kernel) (code : BitVec 32) : Kernel :=
  match k.current with
  | none => k
  | some t =>
    let k := becomeZombie k t code
    match pickNext k (some t) with
    | none => { releaseSpace (loadTemplate k) t with current := none }
    | some n => releaseSpace (runTask k n) t

/-- The loop of `signal_deliver_current` over the signals `sigs`, for the task `t` whose
pending signals were `pend`. -/
def deliverLoop (t : Slot) (pend : Word) : List (Fin 32) → Kernel → Kernel
  | [], k => k
  | sig :: sigs, k =>
    if !hasFlag pend (sigBit sig) then deliverLoop t pend sigs k
    else if sig ≠ sigKill ∧ hasFlag (k.tasks t).sigBlocked (sigBit sig) then
      deliverLoop t pend sigs k
    else
      let k := k.modify t fun task =>
        { task with sigPending := task.sigPending &&& ~~~sigBit sig }
      if signalApplyOne (k.tasks t) sig then taskExitCurrent k (BitVec.ofNat 32 sig.val)
      else deliverLoop t pend sigs k

def signalDeliverCurrent (k : Kernel) : Kernel :=
  match k.current with
  | none => k
  | some t =>
    if (k.tasks t).state ≠ .running then k
    else deliverLoop t (k.tasks t).sigPending (finRange 32).tail k

/-! ## Creation -/

def allocStack (k : Kernel) : Word × Kernel :=
  let (kphys, pmm) := pmmAllocPage k.machine.pmm
  (kphys, k.setMachine { k.machine with pmm := pmm })

def freeStack (k : Kernel) (kphys : Word) : Kernel :=
  k.setMachine { k.machine with pmm := pmmFreePage k.machine.pmm kphys }

/-- `task` takes the slot `i` and the next pid. -/
def Kernel.occupy (k : Kernel) (i : Slot) (task : Task) : Kernel :=
  { k.modify i (fun _ => { task with pid := k.nextPid, state := .ready }) with
    nextPid := k.nextPid + 1#32 }

def Kernel.abandon (k : Kernel) (i : Slot) : Kernel :=
  k.modify i fun task => { task with state := .unused }

def taskCreate (k : Kernel) (entry userSp : Word) : Option Slot × Kernel :=
  match allocSlot k with
  | none => (none, k)
  | some i =>
    let (kphys, k) := allocStack (k.occupy i Task.zero)
    if kphys = 0#64 then (none, k.abandon i)
    else
      let k := k.modify i fun task => { task with kernelStack := kphys }
      let (pml4, machine) := vmmCloneKernelPml4 k.machine
      let k := (k.setMachine machine).modify i fun task => { task with pml4 := pml4 }
      if pml4 = 0#64 then (none, (freeStack k kphys).abandon i)
      else
        (some i, k.modify i fun task =>
          { task with
            regs := { Regs.zero with rip := entry, rsp := userSp, rflags := 0x200#64 } })

def Task.forked (task : Task) (parent : Slot) : Task :=
  { task with parent := some parent, exitCode := 0#32, sigPending := 0#64, pml4 := 0#64 }

@[simps current fsBase]
def Kernel.holdFiles (k : Kernel) (fds : Descriptors) : Kernel :=
  { k with files := holdAll fds k.files }

def copyStack (k : Kernel) (dst src : Word) : Kernel :=
  k.setMachine { k.machine with mem := copyFrame k.machine.mem (frameOf dst) (frameOf src) }

/-- The child is a copy of the parent's slot with its own kernel stack and page table. -/
def taskFork (k : Kernel) (parent : Slot) : Option Slot × Kernel :=
  match allocSlot k with
  | none => (none, k)
  | some i =>
    let p := k.tasks parent
    let (kphys, k) := allocStack (k.occupy i (p.forked parent))
    if kphys = 0#64 then (none, k.abandon i)
    else
      let k := (copyStack k kphys p.kernelStack).modify i fun task =>
        { task with kernelStack := kphys }
      let k := k.holdFiles p.fds
      let (pml4, machine) := vmmCopyUserPageTables k.machine k.machine.cr3
      let k := k.setMachine machine
      if pml4 = 0#64 then (none, (freeStack k kphys).abandon i)
      else (some i, k.modify i fun task => { task with pml4 := pml4 })

/-! ## Waiting -/

def taskReap (k : Kernel) (t : Slot) : Kernel :=
  let stack := (k.tasks t).kernelStack
  let k := if stack ≠ 0#64 then freeStack k stack else k
  let k := k.modify t fun task => { task with kernelStack := 0#64 }
  (releaseFiles k t).modify t fun task => { task with state := .unused }

def isWanted (k : Kernel) (parent : Slot) (want : BitVec 32) (i : Slot) : Bool :=
  (k.tasks i).state ≠ .unused && (k.tasks i).parent = some parent &&
    !(0 < want.toInt && (k.tasks i).pid ≠ want)

/-- `task_wait` returns a pid and a status, zero if a child is alive, or nothing. -/
inductive WaitResult where
  | reaped (pid : BitVec 32) (status : BitVec 32)
  | alive
  | noChild
  deriving DecidableEq

/-- The pid that `task_wait` looks for; zero is any child. -/
def waitWant (pid : BitVec 32) : BitVec 32 :=
  if pid.toInt < -1 then -pid else if pid.toInt < 0 then 0#32 else pid

def taskWait (k : Kernel) (pid : BitVec 32) : WaitResult × Kernel :=
  match k.current with
  | none => (.noChild, k)
  | some parent =>
    match (finRange 8).find? fun i =>
        isWanted k parent (waitWant pid) i && (k.tasks i).state = .zombie with
    | some victim =>
      (.reaped (k.tasks victim).pid (((k.tasks victim).exitCode &&& 0xFF#32) <<< 8),
        taskReap k victim)
    | none =>
      if (finRange 8).any fun i => isWanted k parent (waitWant pid) i then (.alive, k)
      else (.noChild, k)

def taskFindByPid (k : Kernel) (pid : BitVec 32) : Option Slot :=
  if pid.toInt ≤ 0 then none
  else (finRange 8).find? fun i =>
    (k.tasks i).state ≠ .unused && (k.tasks i).pid = pid

end HelixOS
