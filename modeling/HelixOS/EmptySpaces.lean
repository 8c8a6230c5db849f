import HelixOS.KernelSteps
import HelixOS.LoopRules
import HelixOS.SyscallEffects
import HelixOS.TrackedRuns

/-!
# Tasks without user memory

As long as the kernel template and all page tables are empty, memory holds zeros only, and
creating, forking and destroying an address space moves single frames in and out of the
allocator.
-/

namespace HelixOS

open TrackedRuns Function Option

variable {s : Machine} {k : Kernel} {i t : Slot} {p q : ℕ}

def Machine.Blank (s : Machine) : Prop := s.mem = fun _ _ => 0#64

lemma allocZeroedPage_blank (hblank : s.Blank) (hfree : s.pmm.firstFree = some p) :
    allocZeroedPage s = (frameAddr p, { s with pmm := s.pmm.take p }) := by
  have hzero (f : ℕ) : zeroFrame s.mem f = s.mem := by
    rw [hblank]
    exact update_eq_self f _
  simp only [allocZeroedPage, pmmAllocPage, hfree, hzero]
  split_ifs with hp
  · rw [hp]
  · rfl

lemma foldl_unchanged {n : ℕ} {body : Machine → Fin n → Machine} (hbody : ∀ i, body s i = s) :
    Fin.foldl n body s = s :=
  LoopRules.foldl_invariant (fun _ t => t = s) rfl fun i t ht => by rw [ht, hbody i]

lemma fillTable_blank {value : Machine → Fin 512 → Word × Machine} (hblank : s.Blank)
    (hvalue : ∀ i, value s i = (0#64, s)) (tab : ℕ) : fillTable value tab s = s := by
  have hset (i : Fin 512) : s.setEntry tab i 0#64 = s := by
    unfold Machine.setEntry
    rw [show HelixOS.setEntry s.mem tab i 0#64 = s.mem from ?_]
    rw [hblank]
    simp [HelixOS.setEntry]
  exact foldl_unchanged fun i => by rw [hvalue i, hset i]

section

variable (hblank : s.Blank) (hfree : s.pmm.firstFree = some p) (hp : frameAddr p ≠ 0#64)
include hblank hfree hp

lemma makeTable_blank {value : Machine → Fin 512 → Word × Machine}
    (hvalue : ∀ t i, t.mem = s.mem → value t i = (0#64, t)) :
    makeTable value s = (frameAddr p, { s with pmm := s.pmm.take p }) := by
  unfold makeTable
  rw [allocTable, allocZeroedPage_blank hblank hfree]
  simp only [if_neg hp]
  rw [fillTable_blank (s := { s with pmm := s.pmm.take p }) hblank fun i => hvalue _ i rfl]

lemma vmmCloneKernelPml4_blank :
    vmmCloneKernelPml4 s = (frameAddr p, { s with pmm := s.pmm.take p }) := by
  refine makeTable_blank hblank hfree hp fun t i ht => ?_
  rw [ht, hblank]
  simp [cloneTopEntry, zero_hasFlag]

lemma vmmCopyUserPageTables_blank (parent : Word) :
    vmmCopyUserPageTables s parent = (frameAddr p, { s with pmm := s.pmm.take p }) := by
  refine makeTable_blank hblank hfree hp fun t i ht => ?_
  rw [ht, hblank]
  simp [copyTopEntry, zero_hasFlag]

end

lemma vmmDestroyAddressSpace_blank (hblank : s.Blank) {pml4 : Word} (hpml4 : pml4 ≠ 0#64)
    (hkernel : pml4 ≠ s.kernelPml4) :
    vmmDestroyAddressSpace s pml4 = s.freeFrame (frameOf pml4) := by
  unfold vmmDestroyAddressSpace
  rw [if_neg (by simp [hpml4, hkernel]), destroyLevel, foldl_unchanged fun i => ?_]
  simp only [show s.mem = fun _ _ => 0#64 from hblank, zero_hasFlag, Bool.not_false, if_true]

def Kernel.created (k : Kernel) (i : Slot) (entry sp : Word) (p q : ℕ) : Kernel :=
  { k with
    machine := { k.machine with pmm := (k.machine.pmm.take p).take q }
    tasks := update k.tasks i (createdTask k entry sp (frameAddr p) (frameAddr q))
    nextPid := k.nextPid + 1#32 }

lemma taskCreate_blank (hblank : k.machine.Blank) (halloc : allocSlot k = some i)
    (hfree : k.machine.pmm.firstFree = some p) (hfree' : (k.machine.pmm.take p).firstFree = some q)
    (hp : frameAddr p ≠ 0#64) (hq : frameAddr q ≠ 0#64) (entry sp : Word) :
    taskCreate k entry sp = (some i, k.created i entry sp p q) := by
  have hstack : allocStack (k.occupy i Task.zero) = (frameAddr p,
      (k.occupy i Task.zero).setMachine { k.machine with pmm := k.machine.pmm.take p }) := by
    simp [allocStack, pmmAllocPage, Kernel.occupy, Kernel.modify, hfree]
  have hclone := vmmCloneKernelPml4_blank (s := { k.machine with pmm := k.machine.pmm.take p })
    hblank hfree' hq
  unfold taskCreate
  simp only [halloc, hstack, if_neg hp, Kernel.modify_machine, Kernel.setMachine_machine,
    hclone, if_neg hq]
  simp [Kernel.created, Kernel.modify, Kernel.setMachine, Kernel.occupy, createdTask]

def Kernel.forked (k : Kernel) (t i : Slot) (p q : ℕ) : Kernel :=
  { k with
    machine := { k.machine with pmm := (k.machine.pmm.take p).take q }
    tasks := update k.tasks i (forkedTask k t (frameAddr p) (frameAddr q))
    nextPid := k.nextPid + 1#32
    files := holdAll (k.tasks t).fds k.files }

lemma taskFork_blank (hblank : k.machine.Blank) (halloc : allocSlot k = some i)
    (hfree : k.machine.pmm.firstFree = some p) (hfree' : (k.machine.pmm.take p).firstFree = some q)
    (hp : frameAddr p ≠ 0#64) (hq : frameAddr q ≠ 0#64) (t : Slot) :
    taskFork k t = (some i, k.forked t i p q) := by
  have hstack : allocStack (k.occupy i ((k.tasks t).forked t)) = (frameAddr p,
      (k.occupy i ((k.tasks t).forked t)).setMachine
        { k.machine with pmm := k.machine.pmm.take p }) := by
    simp [allocStack, pmmAllocPage, Kernel.occupy, Kernel.modify, hfree]
  have hcopy (dst src : ℕ) : copyFrame k.machine.mem dst src = k.machine.mem := by
    rw [hblank]
    exact update_eq_self dst _
  have htables := vmmCopyUserPageTables_blank
    (s := { k.machine with pmm := k.machine.pmm.take p }) hblank hfree' hq
  unfold taskFork
  simp only [halloc, hstack, if_neg hp, copyStack, hcopy, Kernel.modify_machine,
    Kernel.setMachine_machine, Kernel.holdFiles, htables, if_neg hq]
  simp [Kernel.forked, Kernel.modify, Kernel.setMachine, Kernel.occupy, forkedTask, Task.forked]

def Kernel.forkReturned (k : Kernel) (f : Regs) (t i : Slot) (p q : ℕ) : Kernel :=
  let k := ((saveFrame f t k).forked t i p q).modify i fun task =>
    { task with regs := { task.regs with rax := 0#64 } }
  saveResult t ((k.tasks i).pid.signExtend 64) k

lemma step_fork_blank {f : Regs} {t : Slot} (ext : External) (hcall : Call.ofNr f.rax = .fork)
    (hcur : k.current = some t) (hblank : k.machine.Blank) (halloc : allocSlot k = some i)
    (hfree : k.machine.pmm.firstFree = some p) (hfree' : (k.machine.pmm.take p).firstFree = some q)
    (hp : frameAddr p ≠ 0#64) (hq : frameAddr q ≠ 0#64) :
    k.step (.enter ext f) = some (k.forkReturned f t i p q) := by
  have hfork : taskFork (saveFrame f t k) t = (some i, (saveFrame f t k).forked t i p q) :=
    taskFork_blank (show (saveFrame f t k).machine.Blank from hblank)
      (by rwa [saveFrame_allocSlot]) hfree hfree' hp hq t
  simp only [Kernel.step, syscallEnter, hcur, dispatch, hcall, sysFork, hfork, map_some]
  rfl

def Kernel.exitSwitched (k : Kernel) (f : Regs) (t n : Slot) : Kernel :=
  runTask (becomeZombie (saveFrame f t k) t (f.rdi.setWidth 32)) n

def Kernel.exitReturned (k : Kernel) (f : Regs) (t n : Slot) : Kernel :=
  let k := k.exitSwitched f t n
  { k.modify t (fun task => { task with pml4 := 0#64 }) with
    machine := k.machine.freeFrame (frameOf (k.tasks t).pml4) }

lemma step_exit_blank {f : Regs} {t n : Slot} (ext : External)
    (hcall : Call.ofNr f.rax = .exit) (hcur : k.current = some t) (hne : n ≠ t)
    (hnext : pickNext (becomeZombie (saveFrame f t k) t (f.rdi.setWidth 32)) (some t) = some n)
    (hblank : (k.exitSwitched f t n).machine.Blank)
    (hpml4 : ((k.exitSwitched f t n).tasks t).pml4 ≠ 0#64)
    (hkernel : ((k.exitSwitched f t n).tasks t).pml4 ≠
      (k.exitSwitched f t n).machine.kernelPml4) :
    k.step (.enter ext f) = some (k.exitReturned f t n) := by
  have hdestroy := vmmDestroyAddressSpace_blank hblank hpml4 hkernel
  have hexit : taskExitCurrent (saveFrame f t k) (f.rdi.setWidth 32) = k.exitReturned f t n := by
    unfold taskExitCurrent
    rw [show (saveFrame f t k).current = some t from hcur]
    simp only [hnext]
    rw [← Kernel.exitSwitched, releaseSpace, hdestroy]
    rfl
  have hcurrent : (k.exitReturned f t n).current = some n := runTask_current _ n
  simp only [Kernel.step, syscallEnter, hcur, dispatch, hcall, hexit, map_some,
    saveResult, hcurrent, some.injEq, if_neg hne]

/-! ## A small kernel -/

/-- Sixteen frames, an empty kernel template in frame 1, and no tasks. -/
def bootKernel : Kernel :=
  taskInit
    { machine := emptyMachine 1 16
      tasks := fun _ => Task.zero
      current := none
      nextPid := 1#32
      activePml4 := 0#64
      fsBase := 0#64
      files := ⟨fun _ => ⟨.console, 0#32, 0, false⟩, 3⟩
      fbBump := userBase + 0x1000000#64
      anonBump := userBase + 0x2000000#64
      anonBump2 := userBase + 0x2800000#64
      stackGen := 0#32 }

def oneTask : Kernel := bootKernel.created 0 userBase userStackTop 2 3

def twoTasks : Kernel := oneTask.created 1 userBase userStackTop 4 5

lemma bootKernel_create : bootKernel.step (.create userBase userStackTop) = some oneTask := by
  have hcreate : taskCreate bootKernel userBase userStackTop = (some 0, oneTask) :=
    taskCreate_blank (show bootKernel.machine.Blank from rfl) (by decide) (by decide) (by decide)
      (by decide) (by decide) _ _
  rw [Kernel.step, if_pos (show bootKernel.current = none from rfl), hcreate]

lemma oneTask_create : oneTask.step (.create userBase userStackTop) = some twoTasks := by
  have hcreate : taskCreate oneTask userBase userStackTop = (some 1, twoTasks) :=
    taskCreate_blank (show oneTask.machine.Blank from rfl) (by decide) (by decide) (by decide)
      (by decide) (by decide) _ _
  rw [Kernel.step, if_pos (show oneTask.current = none from rfl), hcreate]

section Reached

variable {H : Type*} (note : Kernel → Event → Kernel → H → H) (allowed : Kernel → Event → Prop)
  (h₀ : H)

lemma oneTask_reached (hallowed : ∀ k, allowed k (.create userBase userStackTop)) :
    Reaches Kernel.step note allowed (taskInit bootKernel) h₀ oneTask
      (note bootKernel (.create userBase userStackTop) oneTask h₀) :=
  .step (s := bootKernel) .start (hallowed _) bootKernel_create

lemma twoTasks_reached (hallowed : ∀ k, allowed k (.create userBase userStackTop)) :
    Reaches Kernel.step note allowed (taskInit bootKernel) h₀ twoTasks
      (note oneTask (.create userBase userStackTop) twoTasks
        (note bootKernel (.create userBase userStackTop) oneTask h₀)) :=
  .step (oneTask_reached note allowed h₀ hallowed) (hallowed _) oneTask_create

end Reached

theorem one_of_two_tasks_runs : ∃ k, run Kernel.step (fun _ _ _ h => h) [.start] twoTasks () =
    some (k, ()) ∧ ((k.tasks 1).state = .running ↔ k.current = some 1) :=
  ⟨_, rfl, one_task_runs ((twoTasks_reached (fun _ _ _ h => h) (fun _ _ => True) ()
    fun _ => trivial).run [.start] (fun _ _ _ => trivial) rfl)⟩

def quietExternal : External where
  vfs := fun _ => none
  program := none
  sp := 0#64
  framebuffer := ⟨0#64, 0#64⟩
  made := false
  madeWriter := false
  error := .enoent
  word := 0#64
  interrupt := false
  value := 7#64

/-- The registers of a call with number `nr` and its first two arguments. -/
def callFrame (nr a b : Word) : Regs :=
  { Regs.zero with rip := userBase, rsp := userStackTop, rax := nr, rdi := a, rsi := b }

def forkFrame : Regs := callFrame 57#64 0#64 0#64

end HelixOS
