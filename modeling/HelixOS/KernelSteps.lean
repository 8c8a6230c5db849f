import HelixOS.TaskSwitches
import HelixOS.TrackedRuns

/-!
# What one event does to the task table

The creation of tasks, `fork`, `execve`, `wait` and the handlers as a whole, each described
by what becomes of the slots.  The last section derives that at most one task runs.
-/

namespace HelixOS

open TrackedRuns Option

variable {sp pid : Word} {task : Task} {ret : Word} {ext : External} {f : Regs} {k k' : Kernel}
  {i j t : Slot}

/-! ## New tasks -/

structure Creates (k k' : Kernel) (i : Slot) (task : Task) : Prop where
  alloc : allocSlot k = some i
  self : k'.tasks i = task
  ready : task.state = .ready
  other : ∀ j, j ≠ i → k'.tasks j = k.tasks j
  current : k'.current = k.current
  fsBase : k'.fsBase = k.fsBase

structure Abandons (k k' : Kernel) : Prop where
  tasks : ∀ j, k'.tasks j = k.tasks j ∨
    (k.tasks j).state = .unused ∧ (k'.tasks j).state = .unused
  current : k'.current = k.current
  fsBase : k'.fsBase = k.fsBase

lemma Abandons.of_tasks (htasks : k'.tasks = k.tasks) (hcur : k'.current = k.current)
    (hfs : k'.fsBase = k.fsBase) : Abandons k k' :=
  ⟨fun j => .inl (by rw [htasks]), hcur, hfs⟩

section

variable (k : Kernel)

@[simp] lemma Kernel.setMachine_tasks (m : Machine) : (k.setMachine m).tasks = k.tasks := rfl

@[simp] lemma Kernel.holdFiles_tasks (fds : Descriptors) :
    (k.holdFiles fds).tasks = k.tasks := rfl

@[simp] lemma allocStack_tasks : (allocStack k).2.tasks = k.tasks := rfl

@[simp] lemma allocStack_current : (allocStack k).2.current = k.current := rfl

@[simp] lemma allocStack_fsBase : (allocStack k).2.fsBase = k.fsBase := rfl

@[simp] lemma freeStack_tasks (kphys : Word) : (freeStack k kphys).tasks = k.tasks := rfl

@[simp] lemma freeStack_current (kphys : Word) : (freeStack k kphys).current = k.current := rfl

@[simp] lemma freeStack_fsBase (kphys : Word) : (freeStack k kphys).fsBase = k.fsBase := rfl

@[simp] lemma copyStack_tasks (dst src : Word) : (copyStack k dst src).tasks = k.tasks := rfl

@[simp] lemma copyStack_current (dst src : Word) :
    (copyStack k dst src).current = k.current := rfl

@[simp] lemma copyStack_fsBase (dst src : Word) : (copyStack k dst src).fsBase = k.fsBase := rfl

@[simp] lemma Kernel.occupy_current (i : Slot) (task : Task) :
    (k.occupy i task).current = k.current := rfl

@[simp] lemma Kernel.occupy_fsBase (i : Slot) (task : Task) :
    (k.occupy i task).fsBase = k.fsBase := rfl

@[simp] lemma Kernel.occupy_self (i : Slot) (task : Task) :
    (k.occupy i task).tasks i = { task with pid := k.nextPid, state := .ready } := by
  simp [Kernel.occupy]

end

@[simp] lemma Kernel.occupy_other (task : Task) (hne : j ≠ i) :
    (k.occupy i task).tasks j = k.tasks j := by
  simp [Kernel.occupy, hne]

lemma allocSlot_unused (halloc : allocSlot k = some i) : (k.tasks i).state = .unused := by
  simpa using List.find?_some halloc

lemma Abandons.state (h : Abandons k k') (j) : (k'.tasks j).state = (k.tasks j).state := by
  rcases h.tasks j with heq | ⟨hunused, hunused'⟩
  · rw [heq]
  · rw [hunused, hunused']

lemma abandons_slot (halloc : allocSlot k = some i) (hself : (k'.tasks i).state = .unused)
    (hother : ∀ j, j ≠ i → k'.tasks j = k.tasks j) (hcur : k'.current = k.current)
    (hfs : k'.fsBase = k.fsBase) : Abandons k k' := by
  refine ⟨fun j => ?_, hcur, hfs⟩
  by_cases hj : j = i
  · rw [hj]
    exact .inr ⟨allocSlot_unused halloc, hself⟩
  · exact .inl (hother j hj)

/-- A task made by the kernel: no parent, no descriptors and no signals. -/
def createdTask (k : Kernel) (entry sp kstack pml4 : Word) : Task :=
  { Task.zero with
    pid := k.nextPid
    state := .ready
    kernelStack := kstack
    pml4 := pml4
    regs := { Regs.zero with rip := entry, rsp := sp, rflags := 0x200#64 } }

lemma taskCreate_cases (k : Kernel) (entry sp : Word) :
    ((taskCreate k entry sp).1 = none ∧ Abandons k (taskCreate k entry sp).2) ∨
      ∃ i kstack pml4, pml4 ≠ 0#64 ∧ (taskCreate k entry sp).1 = some i ∧
        Creates k (taskCreate k entry sp).2 i (createdTask k entry sp kstack pml4) := by
  unfold taskCreate
  cases halloc : allocSlot k with
  | none => exact .inl ⟨rfl, .of_tasks rfl rfl rfl⟩
  | some i =>
    dsimp only
    split_ifs with hstack hpml4
    rotate_right
    · refine .inr ⟨i, (allocStack (k.occupy i Task.zero)).1, _, hpml4, rfl, halloc, ?_, rfl,
        fun j hj => ?_, ?_, ?_⟩
      · simp [createdTask]
      all_goals simp [*]
    all_goals
      refine .inl ⟨rfl, abandons_slot halloc ?_ (fun j hj => ?_) ?_ ?_⟩ <;> simp [Kernel.abandon, *]

/-- The child of the task `p` as `task_fork` leaves it. -/
def forkedTask (k : Kernel) (t : Slot) (kstack pml4 : Word) : Task :=
  { k.tasks t with
    pid := k.nextPid
    parent := some t
    state := .ready
    exitCode := 0#32
    sigPending := 0#64
    kernelStack := kstack
    pml4 := pml4 }

lemma taskFork_cases (k : Kernel) (t) : ((taskFork k t).1 = none ∧ Abandons k (taskFork k t).2) ∨
      ∃ i kstack pml4, pml4 ≠ 0#64 ∧ (taskFork k t).1 = some i ∧
        Creates k (taskFork k t).2 i (forkedTask k t kstack pml4) := by
  unfold taskFork
  cases halloc : allocSlot k with
  | none => exact .inl ⟨rfl, .of_tasks rfl rfl rfl⟩
  | some i =>
    dsimp only
    split_ifs with hstack hpml4
    rotate_right
    · refine .inr ⟨i, (allocStack (k.occupy i ((k.tasks t).forked t))).1, _, hpml4, rfl, halloc,
        ?_, rfl,
        fun j hj => ?_, ?_, ?_⟩
      · simp [forkedTask, Task.forked]
      all_goals simp [*]
    all_goals
      refine .inl ⟨rfl, abandons_slot halloc ?_ (fun j hj => ?_) ?_ ?_⟩ <;> simp [Kernel.abandon, *]

lemma sysFork_cases (k : Kernel) (t) :
    Abandons k (sysFork t k).2 ∨
      ∃ i kstack pml4, pml4 ≠ 0#64 ∧ (sysFork t k).1 = k.nextPid.signExtend 64 ∧
        Creates k (sysFork t k).2 i
          { forkedTask k t kstack pml4 with regs := { (k.tasks t).regs with rax := 0#64 } } := by
  unfold sysFork
  rcases taskFork_cases k t with ⟨hnone, hab⟩ | ⟨i, kstack, pml4, hpml4, hsome, hcre⟩
  · rw [show taskFork k t = (none, (taskFork k t).2) from Prod.ext hnone rfl]
    exact .inl hab
  · rw [show taskFork k t = (some i, (taskFork k t).2) from Prod.ext hsome rfl]
    refine .inr ⟨i, kstack, pml4, hpml4, ?_, hcre.alloc, ?_, rfl, fun j hj => ?_,
      hcre.current, hcre.fsBase⟩
    · simp [hcre.self, forkedTask]
    · simp [hcre.self, forkedTask]
    · rw [Kernel.modify_other _ hj]
      exact hcre.other j hj

/-! ## Programs -/

@[simp] lemma Kernel.nextStack_tasks (k : Kernel) (high : Bool) :
    (k.nextStack high).tasks = k.tasks := by
  unfold Kernel.nextStack
  split <;> rfl

@[simp] lemma Kernel.nextStack_current (k : Kernel) (high : Bool) :
    (k.nextStack high).current = k.current := by
  unfold Kernel.nextStack
  split <;> rfl

@[simp] lemma Kernel.nextStack_fsBase (k : Kernel) (high : Bool) :
    (k.nextStack high).fsBase = k.fsBase := by
  unfold Kernel.nextStack
  split <;> rfl

lemma Creates.execFailed {k₀ : Kernel} (hcre : Creates k k₀ i task) (htasks : k'.tasks = k₀.tasks)
    (hcur : k'.current = k₀.current) (hfs : k'.fsBase = k₀.fsBase) (saved : Word) :
    Abandons k (execFailed k' saved i) := by
  refine abandons_slot hcre.alloc ?_ (fun j hj => ?_) ?_ ?_
  · simp [HelixOS.execFailed]
  · simp [HelixOS.execFailed, hj, htasks, hcre.other j hj]
  · simp [HelixOS.execFailed, hcur, hcre.current]
  · simp [HelixOS.execFailed, hfs, hcre.fsBase]

/-- `task_exec_elf` creates a task like `task_create`, with an entry point, a stack and a
break. -/
theorem taskExecElf_cases {vfs : List Byte → Option Image} {img : Image}
    {result : Option Slot} (hexec : taskExecElf vfs img sp k = some (result, k')) :
    Abandons k k' ∨
      ∃ i kstack pml4 info, pml4 ≠ 0#64 ∧
        Creates k k' i ((createdTask k 0#64 0#64 kstack pml4).withProgram info sp) := by
  unfold taskExecElf at hexec
  rcases taskCreate_cases k 0#64 0#64 with ⟨hnone, hab⟩ | ⟨i, kstack, pml4, hpml4, hsome, hcre⟩
  · rw [show taskCreate k 0#64 0#64 = (none, (taskCreate k 0#64 0#64).2) from
      Prod.ext hnone rfl] at hexec
    simp only [some.injEq, Prod.mk.injEq] at hexec
    rw [← hexec.2]
    exact .inl hab
  · rw [show taskCreate k 0#64 0#64 = (some i, (taskCreate k 0#64 0#64).2) from
      Prod.ext hsome rfl] at hexec
    dsimp only at hexec
    split at hexec
    · cases hexec
    all_goals
      simp only [some.injEq, Prod.mk.injEq] at hexec
      rw [← hexec.2]
    · exact .inl (hcre.execFailed (by simp) (by simp) (by simp) _)
    · exact .inl (hcre.execFailed (by simp) (by simp) (by simp) _)
    · rename_i info m _
      refine .inr ⟨i, kstack, pml4, info, hpml4, hcre.alloc, ?_, rfl, fun j hj => ?_, ?_, ?_⟩
      · simp [hcre.self]
      · simp [hj, hcre.other j hj]
      · simp [hcre.current]
      · simp [hcre.fsBase]

lemma sysExecve_cases {vfs : List Byte → Option Image} {program : Option Image} {error : Errno}
    (hexec : sysExecve vfs program error sp t k = some (ret, k')) : (∃ m, k' = k.setMachine m) ∨
      ∃ m info pml4, pml4 ≠ 0#64 ∧ ret = 0#64 ∧
        k' = (k.setMachine m).modify t fun task => task.replaced info sp pml4 := by
  unfold sysExecve at hexec
  cases program with
  | none =>
    simp only [some.injEq, Prod.mk.injEq] at hexec
    exact .inl ⟨k.machine, hexec.2.symm⟩
  | some img =>
    dsimp only at hexec
    split_ifs at hexec with hnew
    · simp only [some.injEq, Prod.mk.injEq] at hexec
      exact .inl ⟨_, hexec.2.symm⟩
    · split at hexec
      · cases hexec
      · simp only [some.injEq, Prod.mk.injEq] at hexec
        exact .inl ⟨_, hexec.2.symm⟩
      · simp only [some.injEq, Prod.mk.injEq] at hexec
        exact .inl ⟨_, hexec.2.symm⟩
      · simp only [some.injEq, Prod.mk.injEq] at hexec
        exact .inr ⟨_, _, _, hnew, hexec.1.symm, hexec.2.symm⟩

/-! ## Waiting -/

lemma taskReap_core (k : Kernel) (t i) : ((taskReap k t).tasks i).core =
      if i = t then { (k.tasks i).core with state := .unused } else (k.tasks i).core := by
  have hstack (k : Kernel) : ((releaseFiles (k.modify t fun task =>
      { task with kernelStack := 0#64 }) t).tasks i).core = (k.tasks i).core := by
    rw [(releaseFiles_same _ t).core i]
    exact Kernel.modify_keeps Task.core (by intro task; rfl) k t i
  simp only [taskReap]
  split_ifs with hne hi hi
  · subst hi
    rw [Kernel.modify_self, ← hstack k]
    rfl
  · rw [Kernel.modify_other _ hi]
    exact hstack _
  · subst hi
    rw [Kernel.modify_self, ← hstack k]
    rfl
  · rw [Kernel.modify_other _ hi]
    exact hstack _

structure Reaps (k k' : Kernel) (i : Slot) : Prop where
  zombie : (k.tasks i).state = .zombie
  self : (k'.tasks i).state = .unused
  other : ∀ j, j ≠ i → (k'.tasks j).core = (k.tasks j).core
  current : k'.current = k.current
  fsBase : k'.fsBase = k.fsBase

lemma taskReap_reaps (hzombie : (k.tasks i).state = .zombie) : Reaps k (taskReap k i) i where
  zombie := hzombie
  self := by
    have := taskReap_core k i i
    rw [if_pos rfl] at this
    exact congrArg TaskCore.state this
  other j hj := by rw [taskReap_core, if_neg hj]
  current := by
    simp only [taskReap]
    split <;> rfl
  fsBase := by
    simp only [taskReap]
    split <;> rfl

lemma taskWait_cases (k : Kernel) (pid : BitVec 32) :
    ((taskWait k pid).2 = k ∧ ∀ p status, (taskWait k pid).1 ≠ .reaped p status) ∨
      ∃ t i, k.current = some t ∧ isWanted k t (waitWant pid) i = true ∧
        (k.tasks i).state = .zombie ∧
        taskWait k pid =
          (.reaped (k.tasks i).pid (((k.tasks i).exitCode &&& 0xFF#32) <<< 8), taskReap k i) := by
  unfold taskWait
  cases hcur : k.current with
  | none => exact .inl ⟨rfl, by simp⟩
  | some t =>
    dsimp only
    split
    · rename_i i hfind
      have hfound := List.find?_some hfind
      simp only [Bool.and_eq_true, decide_eq_true_eq] at hfound
      exact .inr ⟨t, i, rfl, hfound.1, hfound.2, rfl⟩
    · split_ifs
      · exact .inl ⟨rfl, by simp⟩
      · exact .inl ⟨rfl, by simp⟩

/-! ## Handlers -/

/-- The calls on a descriptor table; the first is the one at every entry of the kernel. -/
inductive FdCall where
  | stdio
  | openFile (found : Bool)
  | close (fd : Word)
  | dup2 (oldfd newfd : Word)
  | pipe (reader writer : Bool)
  | socket (found : Bool)
  | accept (found : Bool)

def FdCall.run (call : FdCall) (fds : Descriptors) (files : FileTable) :
    Descriptors × FileTable :=
  match call with
  | .stdio => (fdInitTaskStdio fds, files)
  | .openFile found => (sysOpen fds files found).2
  | .close fd => (fdClose fds files fd).2
  | .dup2 oldfd newfd => (sysDup2 fds files oldfd newfd).2
  | .pipe reader writer => (sysPipe fds files reader writer).2
  | .socket found => (sysSocket fds files found).2
  | .accept found => (sysAccept fds files found).2

lemma Kernel.modify_same (k : Kernel) (t) (change : Task → Task)
    (hcore : ∀ task, (change task).core = task.core) : SameTasks k (k.modify t change) :=
  sameTasks_modify t change hcore rfl rfl rfl

lemma Kernel.withFds_same {α : Type} (k : Kernel) (t) (value : α → Word)
    (call : Descriptors → FileTable → α × Descriptors × FileTable) :
    SameTasks k (k.withFds t value call).2 :=
  sameTasks_modify t (fun task => { task with fds := (call (k.tasks t).fds k.files).2.1 })
    (fun _ => rfl) rfl rfl rfl

lemma Kernel.withMem_same (k : Kernel) (t) (call : MemState → Word × MemState) :
    SameTasks k (k.withMem t call).2 :=
  sameTasks_modify t (fun task => task.setBrk (call (k.memState t)).2.brkStart
    (call (k.memState t)).2.brkCurr) (fun _ => rfl) rfl rfl rfl

lemma sysRead_same (ext) (t) (k : Kernel) :
    SameTasks k (sysRead ext t k).2 := by
  unfold sysRead
  split_ifs
  · exact signalSend_same k t sigInt
  · exact .refl k

lemma sysSigaction_same (ext) (signum act oldact : Word) (t) (k : Kernel) :
    SameTasks k (sysSigaction ext signum act oldact t k).2 := by
  unfold sysSigaction
  split
  · exact .refl k
  · split_ifs
    · exact .refl k
    · exact .refl k
    · exact .refl k
    · exact .refl k
    · dsimp only
      refine k.modify_same t _ ?_
      exact fun _ => rfl

lemma sysSigprocmask_same (ext) (how set oldset : Word) (t) (k : Kernel) :
    SameTasks k (sysSigprocmask ext how set oldset t k).2 := by
  unfold sysSigprocmask
  have hmask (blocked : Word → Word) : SameTasks k
      (k.modify t fun task => { task with sigBlocked := blocked task.sigBlocked }) := by
    refine k.modify_same t _ ?_
    exact fun _ => rfl
  split_ifs
  · exact .refl k
  · exact .refl k
  · exact .refl k
  · exact hmask (· ||| ext.word &&& ~~~(sigBit sigKill ||| sigBit sigStop))
  · exact hmask (· &&& ~~~(ext.word &&& ~~~(sigBit sigKill ||| sigBit sigStop)))
  · exact hmask fun _ => ext.word &&& ~~~(sigBit sigKill ||| sigBit sigStop)
  · exact .refl k

lemma sysKill_cases (pid sig : Word) (t) (k : Kernel) :
    SameTasks k (sysKill pid sig t k).2 ∨
      ∃ k₀ code, SameTasks k k₀ ∧ (sysKill pid sig t k).2 = taskExitCurrent k₀ code := by
  unfold sysKill
  dsimp only
  split
  · exact .inl (.refl k)
  · split
    · exact .inl (.refl k)
    · split
      · exact .inl (.refl k)
      · have hsend (target : Slot) (s : Fin 32) := signalSend_same k target s
        split_ifs
        · exact .inl (.refl k)
        · exact .inl (.refl k)
        · rcases signalDeliverCurrent_cases (signalSend k _ _) with hsame | ⟨k₀, code, hsame, heq⟩
          · exact .inl ((hsend _ _).trans hsame)
          · exact .inr ⟨k₀, code, (hsend _ _).trans hsame, heq⟩
        · exact .inl (hsend _ _)

lemma sysKill_settles (hone : OneRunning k) (pid sig : Word) (t) :
    Settles k (sysKill pid sig t k).2 := by
  rcases sysKill_cases pid sig t k with hsame | ⟨k₀, code, hsame, heq⟩
  · exact hsame.settles
  · rw [heq]
    exact hsame.settles.trans (taskExitCurrent_settles (hsame.settles.running hone) code)

/-- What the handler of the call `f` does; the caller is `t`. -/
inductive Handled (ext : External) (f : Regs) (t : Slot) (k : Kernel) : Word → Kernel → Prop
  | quiet {ret : Word} {k' : Kernel} (hcall : (Call.ofNr f.rax).changesTasks = false)
      (hsame : SameTasks k k') : Handled ext f t k ret k'
  | setFs (hcall : Call.ofNr f.rax = .archPrctl) (hcode : f.rdi = archSetFs) :
      Handled ext f t k 0#64 { k with fsBase := f.rsi }
  | yield (hcall : Call.ofNr f.rax = .yield) : Handled ext f t k 0#64 (taskYield k)
  | exit (hcall : Call.ofNr f.rax = .exit) :
      Handled ext f t k 0#64 (taskExitCurrent k (f.rdi.setWidth 32))
  | kill (hcall : Call.ofNr f.rax = .kill) :
      Handled ext f t k (sysKill f.rdi f.rsi t k).1 (sysKill f.rdi f.rsi t k).2
  | fork (hcall : Call.ofNr f.rax = .fork) :
      Handled ext f t k (sysFork t k).1 (sysFork t k).2
  | wait (hcall : Call.ofNr f.rax = .wait4) :
      Handled ext f t k (sysWait4 f.rdi k).1 (sysWait4 f.rdi k).2
  | execve {ret : Word} {k' : Kernel} (hcall : Call.ofNr f.rax = .execve)
      (hexec : sysExecve ext.vfs ext.program ext.error ext.sp t k = some (ret, k')) :
      Handled ext f t k ret k'

lemma dispatch_handled
    (hdisp : dispatch ext f t k = some (ret, k')) : Handled ext f t k ret k' := by
  -- every handler but `execve` returns a pair
  have hpair {result : Word × Kernel} (heq : some result = some (ret, k'))
      (hresult : Handled ext f t k result.1 result.2) : Handled ext f t k ret k' := by
    obtain rfl : result = (ret, k') := some.inj heq
    exact hresult
  have hquiet {call : Call} {ret : Word} {k' : Kernel} (hcall : Call.ofNr f.rax = call)
      (hcalls : call.changesTasks = false) (hsame : SameTasks k k') : Handled ext f t k ret k' :=
    .quiet ((congrArg Call.changesTasks hcall).trans hcalls) hsame
  unfold dispatch at hdisp
  generalize hcall : Call.ofNr f.rax = call at hdisp
  cases call <;> dsimp only at hdisp
  case execve => exact .execve hcall hdisp
  case read => exact hpair hdisp (hquiet hcall rfl (sysRead_same ext t k))
  case openFile | close | dup2 | accept =>
    exact hpair hdisp (hquiet hcall rfl (k.withFds_same t _ _))
  case mmap | munmap | brk => exact hpair hdisp (hquiet hcall rfl (k.withMem_same t _))
  case sigaction => exact hpair hdisp (hquiet hcall rfl (sysSigaction_same ext _ _ _ t k))
  case sigprocmask => exact hpair hdisp (hquiet hcall rfl (sysSigprocmask_same ext _ _ _ t k))
  case pipe | socket =>
    split at hdisp
    · exact hpair hdisp (hquiet hcall rfl (.refl k))
    · exact hpair hdisp (hquiet hcall rfl (k.withFds_same t _ _))
  case yield => exact hpair hdisp (.yield hcall)
  case fork => exact hpair hdisp (.fork hcall)
  case exit => exact hpair hdisp (.exit hcall)
  case wait4 => exact hpair hdisp (.wait hcall)
  case kill => exact hpair hdisp (.kill hcall)
  case archPrctl =>
    refine hpair hdisp ?_
    unfold sysArchPrctl
    split
    · exact .setFs hcall ‹_›
    · split
      · exact hquiet hcall rfl (.refl k)
      · exact hquiet hcall rfl (.refl k)
  case other => exact hpair hdisp (hquiet hcall rfl (.refl k))

/-! ## At most one running task -/

lemma OneRunning.congr (hone : OneRunning k) (hcur : k'.current = k.current)
    (hstate : ∀ i, (k'.tasks i).state = (k.tasks i).state) : OneRunning k' := by
  intro i
  rw [hcur, hstate i]
  exact hone i

lemma Creates.oneRunning (hcre : Creates k k' i task) (hone : OneRunning k) :
    OneRunning k' := by
  intro j
  rw [hcre.current]
  by_cases hj : j = i
  · have hfree := (hone i).not.mp (by simp [allocSlot_unused hcre.alloc])
    rw [hj, hcre.self, hcre.ready]
    simp [hfree]
  · rw [hcre.other j hj]
    exact hone j

lemma Reaps.oneRunning (hreap : Reaps k k' i) (hone : OneRunning k) : OneRunning k' := by
  intro j
  rw [hreap.current]
  by_cases hj : j = i
  · have hdead := (hone i).not.mp (by simp [hreap.zombie])
    rw [hj, hreap.self]
    simp [hdead]
  · rw [show (k'.tasks j).state = (k.tasks j).state from
      congrArg TaskCore.state (hreap.other j hj)]
    exact hone j

lemma sysWait4_kernel (pid) (k : Kernel) :
    (sysWait4 pid k).2 = (taskWait k (pid.setWidth 32)).2 := by
  unfold sysWait4
  split <;> simp [*]

lemma Handled.oneRunning
    (h : Handled ext f t k ret k') (hone : OneRunning k) : OneRunning k' := by
  cases h with
  | quiet _ hsame => exact hsame.settles.running hone
  | setFs => exact hone.congr rfl fun _ => rfl
  | yield => exact (taskYield_settles hone).running hone
  | exit => exact (taskExitCurrent_settles hone _).running hone
  | kill => exact (sysKill_settles hone _ _ t).running hone
  | fork =>
    rcases sysFork_cases k t with hab | ⟨i, kstack, pml4, -, -, hcre⟩
    · exact hone.congr hab.current hab.state
    · exact hcre.oneRunning hone
  | wait =>
    rw [sysWait4_kernel]
    rcases taskWait_cases k (f.rdi.setWidth 32) with ⟨heq, -⟩ | ⟨t, i, -, -, hz, heq⟩
    · rw [heq]
      exact hone
    · rw [heq]
      exact (taskReap_reaps hz).oneRunning hone
  | execve hcall hexec =>
    rcases sysExecve_cases hexec with ⟨m, rfl⟩ | ⟨m, info, pml4, -, -, rfl⟩
    · exact hone.congr rfl fun _ => rfl
    · refine hone.congr rfl fun i => ?_
      refine Kernel.modify_keeps Task.state ?_ (k.setMachine m) t i
      exact fun _ => rfl

lemma saveFrame_state (f) (t) (k : Kernel) (i) :
    ((saveFrame f t k).tasks i).state = (k.tasks i).state := by
  refine Kernel.modify_keeps Task.state ?_ k t i
  exact fun _ => rfl

lemma saveFrame_allocSlot (f) (t) (k : Kernel) :
    allocSlot (saveFrame f t k) = allocSlot k := by
  simp only [allocSlot, saveFrame_state]

lemma saveFrame_runnable (f) (t) (k : Kernel) (i) :
    Runnable (saveFrame f t k) i ↔ Runnable k i := by
  rw [Runnable, saveFrame_state]
  rfl

lemma saveResult_state (t) (ret) (k : Kernel) (i) :
    ((saveResult t ret k).tasks i).state = (k.tasks i).state := by
  unfold saveResult
  split
  · refine Kernel.modify_keeps Task.state ?_ k t i
    exact fun _ => rfl
  · rfl

@[simp] lemma saveResult_current (t : Slot) (ret : Word) (k : Kernel) :
    (saveResult t ret k).current = k.current := by
  unfold saveResult
  split <;> rfl

lemma saveResult_runnable (t) (ret) (k : Kernel) (i) :
    Runnable (saveResult t ret k) i ↔ Runnable k i := by
  rw [Runnable, saveResult_state, saveResult_current]
  rfl

@[simp] lemma saveResult_fsBase (t : Slot) (ret : Word) (k : Kernel) :
    (saveResult t ret k).fsBase = k.fsBase := by
  unfold saveResult
  split <;> rfl

lemma syscallEnter_cases (henter : syscallEnter ext f k = some k') : (k.current = none ∧ k' = k) ∨
      ∃ t ret k₁, k.current = some t ∧ dispatch ext f t (saveFrame f t k) = some (ret, k₁) ∧
        k' = saveResult t ret k₁ := by
  unfold syscallEnter at henter
  cases hcur : k.current with
  | none =>
    rw [hcur] at henter
    exact .inl ⟨rfl, (some.inj henter).symm⟩
  | some t =>
    rw [hcur] at henter
    obtain ⟨⟨ret, k₁⟩, hdisp, heq⟩ := map_eq_some_iff.mp henter
    exact .inr ⟨t, ret, k₁, rfl, hdisp, heq.symm⟩

lemma syscallEnter_oneRunning (hone : OneRunning k)
    (henter : syscallEnter ext f k = some k') : OneRunning k' := by
  rcases syscallEnter_cases henter with ⟨-, rfl⟩ | ⟨t, ret, k₁, -, hdisp, rfl⟩
  · exact hone
  · have hsaved : OneRunning (saveFrame f t k) := hone.congr rfl (saveFrame_state f t k)
    exact ((dispatch_handled hdisp).oneRunning hsaved).congr (saveResult_current t ret k₁)
      (saveResult_state t ret k₁)

lemma taskStartUser_cases (hstart : taskStartUser k = some k') :
    ∃ n, (k.tasks n).state = .ready ∧ k'.current = some n ∧ k'.fsBase = 0#64 ∧
      (k'.tasks n).core = { (k.tasks n).core with state := .running } ∧
      ∀ j, j ≠ n → k'.tasks j = k.tasks j := by
  unfold taskStartUser at hstart
  cases hpick : pickNext k none with
  | none => simp [hpick] at hstart
  | some n =>
    simp only [hpick, some.injEq] at hstart
    subst hstart
    refine ⟨n, pickNext_ready hpick, ?_, rfl, ?_, fun j hj => ?_⟩
    · simp
    · simp [runTask_tasks, Task.core]
    · simp [runTask_tasks, hj]

def Event.makes : Event → Bool
  | .create _ _ | .exec _ _ => true
  | _ => false

structure KernelTask (k : Kernel) (task : Task) : Prop where
  parent : task.parent = none
  pid : task.pid = k.nextPid
  blocked : task.sigBlocked = 0#64
  handler : task.handler = Task.zero.handler

lemma Kernel.step_makes {event : Event} (hevent : event.makes = true)
    (hstep : k.step event = some k') : k.current = none ∧
      (Abandons k k' ∨ ∃ i task, Creates k k' i task ∧ KernelTask k task) := by
  cases event with
  | create entry sp =>
    simp only [Kernel.step, ite_none_right_eq_some, some.injEq] at hstep
    obtain ⟨hcur, rfl⟩ := hstep
    refine ⟨hcur, (taskCreate_cases k entry sp).imp And.right ?_⟩
    rintro ⟨i, kstack, pml4, -, -, hcre⟩
    exact ⟨i, _, hcre, rfl, rfl, rfl, rfl⟩
  | exec ext img =>
    simp only [Kernel.step, ite_none_right_eq_some, map_eq_some_iff] at hstep
    obtain ⟨hcur, ⟨result, k₁⟩, hexec, rfl⟩ := hstep
    refine ⟨hcur, (taskExecElf_cases hexec).imp_right ?_⟩
    rintro ⟨i, kstack, pml4, info, -, hcre⟩
    exact ⟨i, _, hcre, rfl, rfl, rfl, rfl⟩
  | start | enter | leave => cases hevent

lemma Kernel.step_oneRunning {event : Event} (hone : OneRunning k)
    (hstep : k.step event = some k') : OneRunning k' := by
  cases event with
  | create | exec =>
    obtain ⟨-, hab | ⟨i, task, hcre, -⟩⟩ := Kernel.step_makes rfl hstep
    · exact hone.congr hab.current hab.state
    · exact hcre.oneRunning hone
  | start =>
    simp only [Kernel.step, ite_none_right_eq_some] at hstep
    obtain ⟨hcur, hstart⟩ := hstep
    obtain ⟨n, -, hcur', -, hcore, hother⟩ := taskStartUser_cases hstart
    intro j
    rw [hcur', some.injEq]
    by_cases hj : j = n
    · rw [hj]
      exact iff_of_true (congrArg TaskCore.state hcore) rfl
    · have := hone j
      rw [hcur] at this
      rw [hother j hj, this]
      simp [Ne.symm hj]
  | enter ext f => exact syscallEnter_oneRunning hone hstep
  | leave preempt =>
    obtain rfl := some.inj hstep
    exact (syscallLeave_settles hone preempt).running hone

/-- In every run the current task is running, and no other task is. -/
theorem one_task_runs {k₀ : Kernel}
    (hreach : Reaches Kernel.step (fun _ _ _ h => h) (fun _ _ => True) (taskInit k₀) () k ()) :
    (k.tasks i).state = .running ↔ k.current = some i :=
  hreach.invariant (fun k _ => OneRunning k) (oneRunning_init k₀)
    (fun _ _ _ _ hone _ hstep => Kernel.step_oneRunning hone hstep) i

/-! ## The caller and the other tasks -/

lemma Creates.runnable_other (hcre : Creates k k' i task) (hj : j ≠ i) :
    Runnable k' j ↔ Runnable k j := by
  rw [Runnable, Runnable, hcre.other j hj, hcre.current]

lemma Abandons.tasks_eq (hab : Abandons k k') (hone : OneRunning k) (hrun : Runnable k' j) :
    Runnable k j ∧ k'.tasks j = k.tasks j := by
  have hrun' : Runnable k j := by
    rw [Runnable, hab.state j, hab.current] at hrun
    exact hrun
  rcases hab.tasks j with heq | ⟨hunused, -⟩
  · exact ⟨hrun', heq⟩
  · exact absurd hunused (hrun'.not_unused hone)

lemma Reaps.runnable (hreap : Reaps k k' i) (hone : OneRunning k) (hrun : Runnable k' j) :
    Runnable k j ∧ (k'.tasks j).core = (k.tasks j).core := by
  have hj : j ≠ i := by
    rintro rfl
    rcases hrun with hready | hcur
    · simp [hreap.self] at hready
    · rw [hreap.current] at hcur
      have hrunning := (hone j).mpr hcur
      simp [hreap.zombie] at hrunning
  have hcore := hreap.other j hj
  refine ⟨?_, hcore⟩
  rw [Runnable, hreap.current, show (k'.tasks j).state = (k.tasks j).state from
    congrArg TaskCore.state hcore] at hrun
  exact hrun

section

variable (h : Handled ext f t k ret k') (hone : OneRunning k)
include h hone

lemma Handled.other (hj : j ≠ t) (hrun : Runnable k' j) :
    (Runnable k j ∧ (k'.tasks j).regs = (k.tasks j).regs) ∨
      (Call.ofNr f.rax = .fork ∧ allocSlot k = some j ∧
        (k'.tasks j).regs = { (k.tasks t).regs with rax := 0#64 }) := by
  have hsettles (hs : Settles k k') : Runnable k j ∧ (k'.tasks j).regs = (k.tasks j).regs :=
    ⟨hs.runnable hrun, hs.regs j⟩
  cases h with
  | quiet _ hsame => exact .inl (hsettles hsame.settles)
  | setFs => exact .inl ⟨hrun, rfl⟩
  | yield => exact .inl (hsettles (taskYield_settles hone))
  | exit => exact .inl (hsettles (taskExitCurrent_settles hone _))
  | kill => exact .inl (hsettles (sysKill_settles hone _ _ t))
  | fork hcall =>
    rcases sysFork_cases k t with hab | ⟨i, kstack, pml4, -, -, hcre⟩
    · obtain ⟨hrun', heq⟩ := hab.tasks_eq hone hrun
      exact .inl ⟨hrun', congrArg Task.regs heq⟩
    · by_cases hji : j = i
      · subst hji
        exact .inr ⟨hcall, hcre.alloc, congrArg Task.regs hcre.self⟩
      · exact .inl ⟨(hcre.runnable_other hji).mp hrun, congrArg Task.regs (hcre.other j hji)⟩
  | wait =>
    rw [sysWait4_kernel] at hrun ⊢
    rcases taskWait_cases k (f.rdi.setWidth 32) with ⟨heq, -⟩ | ⟨p, i, -, -, hz, heq⟩
    · rw [heq] at hrun ⊢
      exact .inl ⟨hrun, rfl⟩
    · rw [heq] at hrun ⊢
      obtain ⟨hrun', hcore⟩ := (taskReap_reaps hz).runnable hone hrun
      exact .inl ⟨hrun', congrArg TaskCore.regs hcore⟩
  | execve hcall hexec =>
    rcases sysExecve_cases hexec with ⟨m, rfl⟩ | ⟨m, info, pml4, -, -, rfl⟩
    · exact .inl ⟨hrun, rfl⟩
    · rw [Runnable, Kernel.modify_other _ hj] at hrun
      rw [Kernel.modify_other _ hj]
      exact .inl ⟨hrun, rfl⟩

/-- The caller is still current with its registers, unless it has died, has started a new
program, or has yielded to another task. -/
theorem Handled.caller (hcur : k.current = some t) (hrun : Runnable k' t) :
    (k'.current = some t ∧ (k'.tasks t).regs = (k.tasks t).regs) ∨
      (Call.ofNr f.rax = .execve ∧ ret = 0#64 ∧ k'.current = some t) ∨
      (Call.ofNr f.rax = .yield ∧ ∃ n, (k.tasks n).state = .ready) := by
  cases h with
  | quiet _ hsame =>
    exact .inl ⟨hsame.current.trans hcur, congrArg TaskCore.regs (hsame.core t)⟩
  | setFs => exact .inl ⟨hcur, rfl⟩
  | yield hcall =>
    rcases taskYield_cases k with ⟨heq, -⟩ | ⟨t', n, -, hpick, -, -⟩
    · rw [heq]
      exact .inl ⟨hcur, rfl⟩
    · exact .inr (.inr ⟨hcall, n, pickNext_ready hpick⟩)
  | exit => exact absurd hrun (taskExitCurrent_not_runnable hcur _)
  | kill =>
    rcases sysKill_cases f.rdi f.rsi t k with hsame | ⟨k₀, code, hsame, heq⟩
    · exact .inl ⟨hsame.current.trans hcur, congrArg TaskCore.regs (hsame.core t)⟩
    · rw [heq] at hrun
      exact absurd hrun (taskExitCurrent_not_runnable (hsame.current.trans hcur) code)
  | fork hcall =>
    rcases sysFork_cases k t with hab | ⟨i, kstack, pml4, -, -, hcre⟩
    · obtain ⟨-, heq⟩ := hab.tasks_eq hone hrun
      exact .inl ⟨hab.current.trans hcur, congrArg Task.regs heq⟩
    · have hne : t ≠ i := by
        rintro rfl
        have hrunning := (hone t).mpr hcur
        simp [allocSlot_unused hcre.alloc] at hrunning
      exact .inl ⟨hcre.current.trans hcur, congrArg Task.regs (hcre.other t hne)⟩
  | wait =>
    rw [sysWait4_kernel] at hrun ⊢
    rcases taskWait_cases k (f.rdi.setWidth 32) with ⟨heq, -⟩ | ⟨p, i, -, -, hz, heq⟩
    · rw [heq]
      exact .inl ⟨hcur, rfl⟩
    · rw [heq] at hrun ⊢
      have hreap := taskReap_reaps hz
      exact .inl ⟨hreap.current.trans hcur,
        congrArg TaskCore.regs (hreap.runnable hone hrun).2⟩
  | execve hcall hexec =>
    rcases sysExecve_cases hexec with ⟨m, rfl⟩ | ⟨m, info, pml4, -, hret, rfl⟩
    · exact .inl ⟨hcur, rfl⟩
    · exact .inr (.inl ⟨hcall, hret, hcur⟩)

lemma Handled.fsBase : k'.fsBase = k.fsBase ∨ (Call.ofNr f.rax = .archPrctl ∧ f.rdi = archSetFs) ∧
      k' = { k with fsBase := f.rsi } := by
  cases h with
  | quiet _ hsame => exact .inl hsame.fsBase
  | setFs hcall hcode => exact .inr ⟨⟨hcall, hcode⟩, rfl⟩
  | yield => exact .inl (taskYield_settles hone).fsBase
  | exit => exact .inl (taskExitCurrent_settles hone _).fsBase
  | kill => exact .inl (sysKill_settles hone _ _ t).fsBase
  | fork =>
    rcases sysFork_cases k t with hab | ⟨i, kstack, pml4, -, -, hcre⟩
    · exact .inl hab.fsBase
    · exact .inl hcre.fsBase
  | wait =>
    rw [sysWait4_kernel]
    rcases taskWait_cases k (f.rdi.setWidth 32) with ⟨heq, -⟩ | ⟨p, i, -, -, hz, heq⟩
    · exact .inl (by rw [heq])
    · exact .inl (by rw [heq]; exact (taskReap_reaps hz).fsBase)
  | execve hcall hexec =>
    rcases sysExecve_cases hexec with ⟨m, rfl⟩ | ⟨m, info, pml4, -, -, rfl⟩
    · exact .inl rfl
    · exact .inl rfl

lemma Handled.idle (hcur : k.current = some t) (hnone : k'.current = none) (i) :
    (k'.tasks i).state ≠ .ready := by
  have hsettles (hs : Settles k k') : (k'.tasks i).state ≠ .ready := by
    rcases hs.idle hnone with hnone' | hidle
    · simp [hcur] at hnone'
    · exact hidle i
  have hsame (heq : k'.current = k.current) : (k'.tasks i).state ≠ .ready := by
    simp [heq, hcur] at hnone
  cases h with
  | quiet _ h => exact hsame h.current
  | setFs => exact hsame rfl
  | yield => exact hsettles (taskYield_settles hone)
  | exit => exact hsettles (taskExitCurrent_settles hone _)
  | kill => exact hsettles (sysKill_settles hone _ _ t)
  | fork =>
    rcases sysFork_cases k t with hab | ⟨i, kstack, pml4, -, -, hcre⟩
    · exact hsame hab.current
    · exact hsame hcre.current
  | wait =>
    refine hsame ?_
    rw [sysWait4_kernel]
    rcases taskWait_cases k (f.rdi.setWidth 32) with ⟨heq, -⟩ | ⟨p, i, -, -, hz, heq⟩
    · rw [heq]
    · rw [heq]
      exact (taskReap_reaps hz).current
  | execve hcall hexec =>
    rcases sysExecve_cases hexec with ⟨m, rfl⟩ | ⟨m, info, pml4, -, -, rfl⟩
    · exact hsame rfl
    · exact hsame rfl

end

/-! ## Histories by slot -/

def handlerResult (ext : External) (f : Regs) (t : Slot) (k : Kernel) : Word :=
  ((dispatch ext f t (saveFrame f t k)).map Prod.fst).getD 0#64

def noteNewSlot {α : Type*} (h : Slot → α) (k : Kernel) (a : α) : Slot → α :=
  match allocSlot k with
  | none => h
  | some i => Function.update h i a

lemma noteNewSlot_self {α : Type*} {h : Slot → α} {a : α} (halloc : allocSlot k = some i) :
    noteNewSlot h k a i = a := by
  simp [noteNewSlot, halloc]

lemma noteNewSlot_other {α : Type*} {h : Slot → α} {a : α} (hne : allocSlot k ≠ some j) :
    noteNewSlot h k a j = h j := by
  unfold noteNewSlot
  cases halloc : allocSlot k with
  | none => rfl
  | some i =>
    have hji : j ≠ i := by
      rintro rfl
      exact hne halloc
    simp [hji]

lemma Runnable.ne_newSlot (hone : OneRunning k) (hrun : Runnable k j) :
    allocSlot k ≠ some j :=
  fun halloc => hrun.not_unused hone (allocSlot_unused halloc)

end HelixOS
