import HelixOS.ElfLoader
import HelixOS.TaskTable

/-!
# Programs, system calls and the return to user mode

`task_exec_elf` makes a task for a program, and `sys_execve` replaces the program of the
calling task; the stack pointer that `setup_user_stack` returns is an argument, and the
result `none` means that the loader has made the kernel fault.

`syscall_entry_c` saves the registers of the caller in the task table, runs the handler,
delivers signals, may switch tasks, and loads the registers of the task that is then
current.  What a handler finds in user memory, in files and at the devices comes from an
`External`.
-/

namespace HelixOS

/-- Both callers try `elf_load_dynamic` first and then `elf_load_image`. -/
def loadProgram (vfs : List Byte → Option Image) (img : Image) (m : Machine) :
    Except LoadError LoadInfo × Machine :=
  match elfLoadDynamic vfs img ⟨m, fun _ => false, fun _ => false, false⟩ with
  | (.error .refused, s) => ((elfLoadImage img s).1, (elfLoadImage img s).2.machine)
  | (result, s) => (result, s.machine)

/-! ## Stacks -/

/-- Programs in the high windows have their stack in the high window. -/
def LoadInfo.isHigh (info : LoadInfo) : Bool :=
  info.loadBase ≥ userBase || info.interpBase ≥ 0x50000000#64

def stackPages : Word := userStackSize / 4096#64

/-- A round of `map_stack`; `sys_execve` has its own copy of the loop, which goes on when
the page could not be mapped. -/
def mapStackPage (strict : Bool) (s : Machine) (va : Word) : Bool × Machine :=
  let (phys, s₁) := allocZeroedPage s
  if phys = 0#64 then (false, s₁)
  else
    let (ok, s₂) := pagingMap4k s₁ va phys (pteP ||| pteW ||| pteU)
    (ok || !strict, s₂)

def lowStackTop : Word := 0x3FFFF000#64

def mapStack (strict : Bool) (s : Machine) : Bool × Machine :=
  forPages (mapStackPage strict) lowStackTop stackPages.toNat (lowStackTop - userStackSize) s

inductive ExecError where
  | fault
  | refused
  | noStack (high : Bool)
  deriving DecidableEq

/-- The program is loaded into the loaded page table, then its stack is mapped. -/
def loadWithStack (vfs : List Byte → Option Image) (img : Image) (highBase : Word)
    (strict : Bool) (m : Machine) : Except ExecError LoadInfo × Machine :=
  match loadProgram vfs img m with
  | (.error .fault, m) => (.error .fault, m)
  | (.error .refused, m) => (.error .refused, m)
  | (.ok info, m) =>
    let (ok, m) :=
      if info.isHigh then vmmAllocUserPages m highBase stackPages true
      else mapStack strict m
    (if ok then .ok info else .error (.noStack info.isHigh), m)

/-! ## `task_exec_elf` -/

/-- The stacks of programs started by the kernel take turns at three places. -/
def execStackBase (gen : BitVec 32) : Word :=
  userStackTop - userStackSize * ((BitVec.ofInt 64 (gen.toInt.tmod 3)) + 1#64)

def Kernel.nextStack (k : Kernel) (high : Bool) : Kernel :=
  if high then { k with stackGen := k.stackGen + 1#32 } else k

/-- The error path: `saved` is loaded again and the task is given up. -/
def execFailed (k : Kernel) (saved : Word) (t : Slot) : Kernel :=
  let m := vmmDestroyAddressSpace (pagingSetPml4 k.machine saved) (k.tasks t).pml4
  (freeStack (k.setMachine m) (k.tasks t).kernelStack).modify t fun task =>
    { task with kernelStack := 0#64, state := .unused }

def Task.withProgram (task : Task) (info : LoadInfo) (sp : Word) : Task :=
  { task with
    regs := { task.regs with rip := info.entry, rsp := sp }
    brkStart := pageUp info.loadEnd
    brkCurr := pageUp info.loadEnd }

def taskExecElf (vfs : List Byte → Option Image) (img : Image) (sp : Word) (k : Kernel) :
    Option (Option Slot × Kernel) :=
  match taskCreate k 0#64 0#64 with
  | (none, k) => some (none, k)
  | (some t, k) =>
    let saved := k.machine.cr3
    match loadWithStack vfs img (execStackBase k.stackGen) true
      (pagingSetPml4 k.machine (k.tasks t).pml4) with
    | (.error .fault, _) => none
    | (.error .refused, m) => some (none, execFailed (k.setMachine m) saved t)
    | (.error (.noStack high), m) =>
      some (none, execFailed ((k.setMachine m).nextStack high) saved t)
    | (.ok info, m) =>
      some (some t, ((k.setMachine (pagingSetPml4 m saved)).nextStack info.isHigh).modify t
        fun task => task.withProgram info sp)

/-! ## `sys_execve` -/

def Task.replaced (task : Task) (info : LoadInfo) (sp pml4 : Word) : Task :=
  { task with
    regs :=
      { task.regs with rip := info.entry, rsp := sp, rax := 0#64, rflags := 0x200#64 }
    brkStart := pageUp info.loadEnd
    brkCurr := pageUp info.loadEnd
    pml4 := pml4 }

def execveFailed (k : Kernel) (m : Machine) (old new : Word) : Kernel :=
  k.setMachine (vmmDestroyAddressSpace (pagingSetPml4 m old) new)

/-- The file at the path has been read already, or reading it has failed with `error`.  The
address space is replaced without `task_activate`, so `activePml4` keeps its value. -/
def sysExecve (vfs : List Byte → Option Image) (program : Option Image) (error : Errno)
    (sp : Word) (t : Slot) (k : Kernel) : Option (Word × Kernel) :=
  match program with
  | none => some (err error, k)
  | some img =>
    let (new, m) := vmmCloneKernelPml4 k.machine
    if new = 0#64 then some (err .enomem, k.setMachine m)
    else
      let old := (k.tasks t).pml4
      match loadWithStack vfs img (userStackTop - userStackSize) false
        (pagingSetPml4 m new) with
      | (.error .fault, _) => none
      | (.error .refused, m) => some (err .enoexec, execveFailed k m old new)
      | (.error (.noStack _), m) => some (err .enomem, execveFailed k m old new)
      | (.ok info, m) =>
        some (0#64, (k.setMachine (vmmDestroyAddressSpace m old)).modify t fun task =>
          task.replaced info sp new)

/-! ## System calls -/

structure External where
  vfs : List Byte → Option Image
  /-- The file that `execve` names. -/
  program : Option Image
  /-- The stack pointer for a new program. -/
  sp : Word
  framebuffer : Framebuffer
  /-- The file, pipe or socket could be made; for a pipe, one end each. -/
  made : Bool
  madeWriter : Bool
  /-- The error if the environment refuses a request. -/
  error : Errno
  /-- The word at the address that a signal call passes. -/
  word : Word
  /-- Ctrl-C is waiting at the console. -/
  interrupt : Bool
  value : Word

inductive Call where
  | read
  | openFile
  | close
  | mmap
  | munmap
  | brk
  | sigaction
  | sigprocmask
  | pipe
  | yield
  | dup2
  | socket
  | accept
  | fork
  | execve
  | exit
  | wait4
  | kill
  | archPrctl
  | other
  deriving DecidableEq

def Call.ofNr (nr : Word) : Call :=
  if nr = 0#64 then .read
  else if nr = 2#64 ∨ nr = 257#64 then .openFile
  else if nr = 3#64 then .close
  else if nr = 9#64 then .mmap
  else if nr = 11#64 then .munmap
  else if nr = 12#64 then .brk
  else if nr = 13#64 then .sigaction
  else if nr = 14#64 then .sigprocmask
  else if nr = 22#64 then .pipe
  else if nr = 24#64 then .yield
  else if nr = 33#64 then .dup2
  else if nr = 41#64 then .socket
  else if nr = 43#64 then .accept
  else if nr = 57#64 then .fork
  else if nr = 59#64 then .execve
  else if nr = 60#64 ∨ nr = 231#64 then .exit
  else if nr = 61#64 then .wait4
  else if nr = 62#64 then .kill
  else if nr = 158#64 then .archPrctl
  else .other

/-- The calls that may create, end, reap or switch tasks, or replace a program. -/
def Call.changesTasks : Call → Bool
  | .yield | .fork | .execve | .exit | .wait4 | .kill => true
  | _ => false

/-! ## Handlers -/

def sigNumber (sig : Word) : Option (Fin 32) :=
  if h : (sig.setWidth 32).toNat < 32 then some ⟨(sig.setWidth 32).toNat, h⟩ else none

def fdResult (result : Option (Fin 16)) (error : Errno) : Word :=
  match result with
  | some fd => BitVec.ofNat 64 fd.val
  | none => err error

/-- Run a call on the descriptors of the task `t`; `value` is what the caller gets. -/
def Kernel.withFds {α : Type} (k : Kernel) (t : Slot) (value : α → Word)
    (call : Descriptors → FileTable → α × Descriptors × FileTable) : Word × Kernel :=
  let (result, fds, files) := call (k.tasks t).fds k.files
  (value result, { k.modify t (fun task => { task with fds := fds }) with files := files })

def Kernel.memState (k : Kernel) (t : Slot) : MemState :=
  ⟨k.machine, (k.tasks t).brkStart, (k.tasks t).brkCurr, k.fbBump, k.anonBump, k.anonBump2⟩

def Task.setBrk (task : Task) (brkStart brkCurr : Word) : Task :=
  { task with brkStart := brkStart, brkCurr := brkCurr }

def Kernel.setMemState (k : Kernel) (t : Slot) (s : MemState) : Kernel :=
  { k.modify t (fun task => task.setBrk s.brkStart s.brkCurr) with
    machine := s.machine
    fbBump := s.fbBump
    anonBump := s.anonBump
    anonBump2 := s.anonBump2 }

def Kernel.withMem (k : Kernel) (t : Slot) (call : MemState → Word × MemState) :
    Word × Kernel :=
  ((call (k.memState t)).1, k.setMemState t (call (k.memState t)).2)

/-- Only a read from the console can find Ctrl-C. -/
def sysRead (ext : External) (t : Slot) (k : Kernel) : Word × Kernel :=
  (ext.value, if ext.interrupt then signalSend k t sigInt else k)

def sysSigaction (ext : External) (signum act oldact : Word) (t : Slot) (k : Kernel) :
    Word × Kernel :=
  match sigNumber signum with
  | none => (err .einval, k)
  | some sig =>
    if sig = 0 ∨ sig = sigKill ∨ sig = sigStop then (err .einval, k)
    else if oldact ≠ 0#64 ∧ userPtrOk oldact 32#64 = false then (err .efault, k)
    else if act = 0#64 then (0#64, k)
    else if userPtrOk act 32#64 = false then (err .efault, k)
    else
      (0#64, k.modify t fun task =>
        { task with handler := Function.update task.handler sig ext.word })

def sysSigprocmask (ext : External) (how set oldset : Word) (t : Slot) (k : Kernel) :
    Word × Kernel :=
  if oldset ≠ 0#64 ∧ userPtrOk oldset 8#64 = false then (err .efault, k)
  else if set = 0#64 then (0#64, k)
  else if userPtrOk set 8#64 = false then (err .efault, k)
  else
    let news := ext.word &&& ~~~(sigBit sigKill ||| sigBit sigStop)
    let masked (change : Word → Word) : Word × Kernel :=
      (0#64, k.modify t fun task => { task with sigBlocked := change task.sigBlocked })
    if how = 0#64 then masked (· ||| news)
    else if how = 1#64 then masked (· &&& ~~~news)
    else if how = 2#64 then masked fun _ => news
    else (err .einval, k)

def sysKill (pid sig : Word) (t : Slot) (k : Kernel) : Word × Kernel :=
  let p := pid.setWidth 32
  match sigNumber sig with
  | none => (err .einval, k)
  | some s =>
    if p.toInt < 0 then (err .einval, k)
    else
      match taskFindByPid k (if p = 0#32 then (k.tasks t).pid else p) with
      | none => (err .esrch, k)
      | some target =>
        if s = 0 then (0#64, k)
        else if (k.tasks target).state = .zombie then (err .esrch, k)
        else
          let k := signalSend k target s
          (0#64, if target = t then signalDeliverCurrent k else k)

def sysFork (t : Slot) (k : Kernel) : Word × Kernel :=
  match taskFork k t with
  | (none, k) => (err .enomem, k)
  | (some i, k) =>
    let k := k.modify i fun task => { task with regs := { task.regs with rax := 0#64 } }
    ((k.tasks i).pid.signExtend 64, k)

def sysWait4 (pid : Word) (k : Kernel) : Word × Kernel :=
  match taskWait k (pid.setWidth 32) with
  | (.reaped pid _, k) => (pid.signExtend 64, k)
  | (.alive, k) => (0#64, k)
  | (.noChild, k) => (err .echild, k)

def archSetFs : Word := 0x1002#64
def archGetFs : Word := 0x1003#64

def sysArchPrctl (code addr : Word) (k : Kernel) : Word × Kernel :=
  if code = archSetFs then (0#64, { k with fsBase := addr })
  else if code = archGetFs then (if userPtrOk addr 8#64 then 0#64 else err .efault, k)
  else (err .einval, k)

/-- The child connection of a failed `accept` stays allocated. -/
def sysAccept (fds : Descriptors) (files : FileTable) (found : Bool) :
    Option (Fin 16) × Descriptors × FileTable :=
  if !found then (none, fds, files)
  else
    let (f, files) := files.create .socket
    match fdInstall fds files f with
    | (some i, fds, files) => (some i, fds, files)
    | (none, fds, files) =>
      (none, fds, files.modify f fun file => { file with closed := file.closed + 1 })

def dispatch (ext : External) (f : Regs) (t : Slot) (k : Kernel) : Option (Word × Kernel) :=
  -- a refused request, or a full descriptor table
  let refused := if ext.made then Errno.enospc else ext.error
  match Call.ofNr f.rax with
  | .read => some (sysRead ext t k)
  | .openFile => some (k.withFds t (fdResult · refused) (sysOpen · · ext.made))
  | .close => some (k.withFds t (fun ok => if ok then 0#64 else err .ebadf) (fdClose · · f.rdi))
  | .mmap => some (k.withMem t (sysMmap ext.framebuffer · f.rdi f.rsi f.rdx f.r10 f.r8 f.r9))
  | .munmap => some (k.withMem t (sysMunmap · f.rdi f.rsi))
  | .brk => some (k.withMem t (sysBrk · f.rdi))
  | .sigaction => some (sysSigaction ext f.rdi f.rsi f.rdx t k)
  | .sigprocmask => some (sysSigprocmask ext f.rdi f.rsi f.rdx t k)
  | .pipe =>
    if userPtrOk f.rdi 8#64 = false then some (err .efault, k)
    else
      let full := if ext.made && ext.madeWriter then Errno.enospc else .enomem
      some (k.withFds t (fun ends => if ends.isSome then 0#64 else err full)
        (sysPipe · · ext.made ext.madeWriter))
  | .yield => some (0#64, taskYield k)
  | .dup2 => some (k.withFds t (·.getD (err .ebadf)) (sysDup2 · · f.rdi f.rsi))
  | .socket =>
    if f.rdi ≠ 2#64 ∨ ¬ (f.rsi = 1#64 ∨ f.rsi = 2#64) then some (err .eopnotsupp, k)
    else some (k.withFds t (fdResult · refused) (sysSocket · · ext.made))
  | .accept => some (k.withFds t (fdResult · refused) (sysAccept · · ext.made))
  | .fork => some (sysFork t k)
  | .execve => sysExecve ext.vfs ext.program ext.error ext.sp t k
  | .exit => some (0#64, taskExitCurrent k (f.rdi.setWidth 32))
  | .wait4 => some (sysWait4 f.rdi k)
  | .kill => some (sysKill f.rdi f.rsi t k)
  | .archPrctl => some (sysArchPrctl f.rdi f.rsi k)
  | .other => some (ext.value, k)

/-! ## `syscall_entry_c` -/

/-- The caller's registers are `f`, with the number of the call in `rax`. -/
def saveFrame (f : Regs) (t : Slot) (k : Kernel) : Kernel :=
  k.modify t fun task => { task with fds := fdInitTaskStdio task.fds, regs := f }

/-- The result goes to the caller's saved registers if it is still current. -/
def saveResult (t : Slot) (ret : Word) (k : Kernel) : Kernel :=
  if k.current = some t then
    k.modify t fun task => { task with regs := { task.regs with rax := ret } }
  else k

def syscallEnter (ext : External) (f : Regs) (k : Kernel) : Option Kernel :=
  match k.current with
  | none => some k
  | some t =>
    (dispatch ext f t (saveFrame f t k)).map fun result => saveResult t result.1 result.2

/-- `preempt` says that enough ticks have passed since the last switch. -/
def syscallLeave (preempt : Bool) (k : Kernel) : Kernel :=
  let k := signalDeliverCurrent k
  if 1 < taskCountAlive k ∧ preempt then taskYield k else k

def userFrame (k : Kernel) : Option Regs :=
  match k.current with
  | none => none
  | some t =>
    if (k.tasks t).state = .running then
      some { (k.tasks t).regs with rflags := (k.tasks t).regs.rflags ||| 0x200#64 }
    else none

/-! ## Runs -/

/-- `user_enter_asm` clears the FS base. -/
def taskStartUser (k : Kernel) : Option Kernel :=
  match pickNext k none with
  | none => none
  | some t =>
    let k := runTask k t
    some { k.modify t (fun task => { task with fds := fdInitTaskStdio task.fds }) with
      fsBase := 0#64 }

/-- The kernel creates and starts tasks only while none is current: at boot and in the hook
for the exit of the last task. -/
inductive Event where
  | create (entry sp : Word)
  | exec (ext : External) (img : Image)
  | start
  | enter (ext : External) (f : Regs)
  | leave (preempt : Bool)

def Kernel.step (k : Kernel) : Event → Option Kernel
  | .create entry sp => if k.current = none then some (taskCreate k entry sp).2 else none
  | .exec ext img =>
    if k.current = none then (taskExecElf ext.vfs img ext.sp k).map Prod.snd else none
  | .start => if k.current = none then taskStartUser k else none
  | .enter ext f => syscallEnter ext f k
  | .leave preempt => some (syscallLeave preempt k)

end HelixOS
