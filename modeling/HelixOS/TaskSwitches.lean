import HelixOS.SyscallEntry

/-!
# What switches, exits and signals do to the task table

Every function that changes which task runs is described once here: which task becomes
current, which tasks are ready afterwards, and which parts of the table stay as they are.
-/

namespace HelixOS

open List

variable {sig a b : Fin 32} {w pend : Word} {sigs : List (Fin 32)} {code : BitVec 32}
  {k k' k'' : Kernel} {i j n t : Slot}

@[simp] lemma Kernel.modify_self (k : Kernel) (i : Slot) (change : Task → Task) :
    (k.modify i change).tasks i = change (k.tasks i) := by
  simp [Kernel.modify]

@[simp] lemma Kernel.modify_other (change : Task → Task) (hne : j ≠ i) :
    (k.modify i change).tasks j = k.tasks j := by
  simp [Kernel.modify, hne]

lemma Kernel.modify_keeps {α : Type*} (part : Task → α) {change : Task → Task}
    (hkeep : ∀ task, part (change task) = part task) (k : Kernel) (i j : Slot) :
    part ((k.modify i change).tasks j) = part (k.tasks j) := by
  by_cases hj : j = i
  · subst hj
    simp [hkeep]
  · simp [hj]

@[simp] lemma taskActivate_tasks (k : Kernel) (n : Slot) :
    (taskActivate k n).tasks = k.tasks := by
  simp only [taskActivate]
  split <;> rfl

@[simp] lemma taskActivate_current (k : Kernel) (n : Slot) :
    (taskActivate k n).current = k.current := by
  simp only [taskActivate]
  split <;> rfl

@[simp] lemma taskActivate_fsBase (k : Kernel) (n : Slot) :
    (taskActivate k n).fsBase = k.fsBase := by
  simp only [taskActivate]
  split <;> rfl

@[simp] lemma runTask_current (k : Kernel) (n : Slot) : (runTask k n).current = some n := by
  simp [runTask]

@[simp] lemma runTask_fsBase (k : Kernel) (n : Slot) : (runTask k n).fsBase = k.fsBase := by
  simp [runTask, Kernel.modify]

lemma runTask_tasks (k) (n) : (runTask k n).tasks =
      (k.modify n fun task => { task with state := .running }).tasks := by
  simp [runTask]

lemma runTask_keeps {α : Type*} (part : Task → α)
    (hkeep : ∀ task : Task, part { task with state := .running } = part task)
    (k : Kernel) (n j : Slot) : part ((runTask k n).tasks j) = part (k.tasks j) := by
  rw [runTask_tasks]
  exact Kernel.modify_keeps part hkeep k n j

lemma pickNext_ready {except : Option Slot} (hpick : pickNext k except = some n) :
    (k.tasks n).state = .ready := by
  simpa using find?_some hpick

lemma pickNext_none {except : Option Slot} (hpick : pickNext k except = none) (j : Slot) :
    (k.tasks j).state ≠ .ready := by
  unfold pickNext at hpick
  rw [find?_eq_none] at hpick
  -- some round of the search looks at the slot `j`
  have hmem (start : ℕ) : j ∈ (List.range 8).map fun m => Fin.ofNat 8 (start + m) := by
    refine mem_map.mpr ⟨(j.val + 8 * start - start) % 8, ?_, ?_⟩
    · exact mem_range.mpr (Nat.mod_lt _ (by norm_num))
    · ext
      simp only [Fin.ofNat]
      omega
  simpa using hpick j (hmem _)

/-! ## One running task -/

/-- At most one task is running, and it is the current one. -/
def OneRunning (k : Kernel) : Prop :=
  ∀ i, (k.tasks i).state = .running ↔ k.current = some i

lemma oneRunning_init (k) : OneRunning (taskInit k) := by
  simp [OneRunning, taskInit, Task.zero]

/-- What switches, exits and signals leave alone: nothing is created, reaped or given
registers, and only ready tasks become current. -/
structure Settles (k k' : Kernel) : Prop where
  regs : ∀ i, (k'.tasks i).regs = (k.tasks i).regs
  parent : ∀ i, (k'.tasks i).parent = (k.tasks i).parent
  pid : ∀ i, (k'.tasks i).pid = (k.tasks i).pid
  fsBase : k'.fsBase = k.fsBase
  unused : ∀ i, (k'.tasks i).state = .unused ↔ (k.tasks i).state = .unused
  ready : ∀ i, (k'.tasks i).state = .ready →
    (k.tasks i).state = .ready ∨ k.current = some i
  zombie : ∀ i, (k.tasks i).state = .zombie →
    (k'.tasks i).state = .zombie ∧ (k'.tasks i).exitCode = (k.tasks i).exitCode
  current : ∀ i, k'.current = some i → (k.tasks i).state = .ready ∨ k.current = some i
  idle : k'.current = none → k.current = none ∨ ∀ i, (k'.tasks i).state ≠ .ready
  stopped : k.current = none → k'.current = none
  running : OneRunning k → OneRunning k'

lemma Settles.refl (k) : Settles k k where
  regs _ := rfl
  parent _ := rfl
  pid _ := rfl
  fsBase := rfl
  unused _ := Iff.rfl
  ready _ h := .inl h
  zombie _ h := ⟨h, rfl⟩
  current _ h := .inr h
  idle h := .inl h
  stopped h := h
  running h := h

lemma Settles.trans (h₁ : Settles k k') (h₂ : Settles k' k'') : Settles k k'' where
  regs i := (h₂.regs i).trans (h₁.regs i)
  parent i := (h₂.parent i).trans (h₁.parent i)
  pid i := (h₂.pid i).trans (h₁.pid i)
  fsBase := h₂.fsBase.trans h₁.fsBase
  unused i := (h₂.unused i).trans (h₁.unused i)
  ready i h := (h₂.ready i h).elim (h₁.ready i) (h₁.current i)
  zombie i h := by
    obtain ⟨hz, hcode⟩ := h₁.zombie i h
    obtain ⟨hz', hcode'⟩ := h₂.zombie i hz
    exact ⟨hz', hcode'.trans hcode⟩
  current i h := (h₂.current i h).elim (h₁.ready i) (h₁.current i)
  idle h := by
    rcases h₂.idle h with hnone | hidle
    · rcases h₁.idle hnone with hnone' | hidle
      · exact .inl hnone'
      · refine .inr fun i hi => ?_
        rcases h₂.ready i hi with hready | hcur
        · exact hidle i hready
        · simp [hnone] at hcur
    · exact .inr hidle
  stopped h := h₂.stopped (h₁.stopped h)
  running h := h₂.running (h₁.running h)

structure TaskCore where
  regs : Regs
  parent : Option Slot
  pid : BitVec 32
  state : TaskState
  exitCode : BitVec 32

def Task.core (task : Task) : TaskCore :=
  ⟨task.regs, task.parent, task.pid, task.state, task.exitCode⟩

structure SameTasks (k k' : Kernel) : Prop where
  current : k'.current = k.current
  fsBase : k'.fsBase = k.fsBase
  core : ∀ i, (k'.tasks i).core = (k.tasks i).core

lemma SameTasks.refl (k) : SameTasks k k := ⟨rfl, rfl, fun _ => rfl⟩

lemma SameTasks.trans (h₁ : SameTasks k k') (h₂ : SameTasks k' k'') : SameTasks k k'' :=
  ⟨h₂.current.trans h₁.current, h₂.fsBase.trans h₁.fsBase,
    fun i => (h₂.core i).trans (h₁.core i)⟩

lemma SameTasks.state (h : SameTasks k k') (i : Slot) : (k'.tasks i).state = (k.tasks i).state :=
  congrArg TaskCore.state (h.core i)

lemma SameTasks.settles (h : SameTasks k k') : Settles k k' where
  regs i := congrArg TaskCore.regs (h.core i)
  parent i := congrArg TaskCore.parent (h.core i)
  pid i := congrArg TaskCore.pid (h.core i)
  fsBase := h.fsBase
  unused i := by rw [h.state i]
  ready i hi := .inl ((h.state i).symm.trans hi)
  zombie i hi := ⟨(h.state i).trans hi, congrArg TaskCore.exitCode (h.core i)⟩
  current i hi := .inr (h.current.symm.trans hi)
  idle hi := .inl (h.current.symm.trans hi)
  stopped hi := h.current.trans hi
  running hone i := by
    rw [h.state i, h.current]
    exact hone i

lemma sameTasks_modify (i : Slot) (change : Task → Task)
    (hcore : ∀ task, (change task).core = task.core) (hcur : k'.current = k.current)
    (hfs : k'.fsBase = k.fsBase) (htasks : k'.tasks = (k.modify i change).tasks) :
    SameTasks k k' where
  current := hcur
  fsBase := hfs
  core j := by
    rw [htasks]
    exact Kernel.modify_keeps _ hcore k i j

lemma signalSend_same (k) (t) (sig) :
    SameTasks k (signalSend k t sig) := by
  unfold signalSend
  split_ifs
  · exact .refl k
  · exact .refl k
  · exact sameTasks_modify t
      (fun task => { task with sigPending := task.sigPending ||| sigBit sig }) (fun _ => rfl)
      rfl rfl rfl

lemma signalOnExit_same (k) (t) : SameTasks k (signalOnExit k t) := by
  unfold signalOnExit
  split
  · exact .refl k
  · split_ifs
    · exact .refl k
    · exact signalSend_same k _ _

lemma releaseFiles_same (k) (t) : SameTasks k (releaseFiles k t) :=
  sameTasks_modify t (fun task => { task with fds := (closeAll (k.tasks t).fds k.files).1 })
    (fun _ => rfl) rfl rfl rfl

lemma releaseSpace_same (k : Kernel) (t : Slot) : SameTasks k (releaseSpace k t) :=
  sameTasks_modify t (fun task => { task with pml4 := 0#64 }) (fun _ => rfl) rfl rfl rfl

lemma loadTemplate_same (k : Kernel) : SameTasks k (loadTemplate k) := by
  simp only [loadTemplate]
  split
  · exact ⟨rfl, rfl, fun _ => rfl⟩
  · exact .refl k

/-! ## Switches and exits -/

/-- The current task `t` has got the state `state` and the exit code `code`, and `next`, if
there is one, runs. -/
structure Switches (k k' : Kernel) (t : Slot) (state : TaskState) (code : BitVec 32)
    (next : Option Slot) : Prop where
  current : k'.current = next
  fsBase : k'.fsBase = k.fsBase
  core : ∀ i, i ≠ t → some i ≠ next → (k'.tasks i).core = (k.tasks i).core
  next : ∀ i, next = some i → i ≠ t ∧ (k.tasks i).state = .ready ∧
    (k'.tasks i).core = { (k.tasks i).core with state := .running }
  self : (k'.tasks t).core = { (k.tasks t).core with state := state, exitCode := code }
  idle : k'.current = none → ∀ i, (k'.tasks i).state ≠ .ready

lemma Switches.settles {state : TaskState} {next : Option Slot}
    (h : Switches k k' t state code next) (hcur : k.current = some t)
    (hrun : (k.tasks t).state = .running) (hstate : state = .ready ∨ state = .zombie) :
    Settles k k' := by
  have hkeep {α : Type} (part : TaskCore → α)
      (hpart : ∀ core state code,
        part { core with state := state, exitCode := code } = part core) (i : Slot) :
      part (k'.tasks i).core = part (k.tasks i).core := by
    by_cases ht : i = t
    · rw [ht, h.self, hpart]
    · by_cases hn : some i = next
      · rw [(h.next i hn.symm).2.2]
        exact hpart _ _ _
      · rw [h.core i ht hn]
  have hst (i : Slot) : (k'.tasks i).state =
      if next = some i then .running else if i = t then state else (k.tasks i).state := by
    split_ifs with hn ht
    · exact congrArg TaskCore.state (h.next i hn).2.2
    · rw [ht]
      exact congrArg TaskCore.state h.self
    · exact congrArg TaskCore.state (h.core i ht (Ne.symm hn))
  have hnext := fun i => h.next i
  refine ⟨hkeep TaskCore.regs fun _ _ _ => rfl, hkeep TaskCore.parent fun _ _ _ => rfl, hkeep
    TaskCore.pid fun _ _ _ => rfl, h.fsBase, fun i => ?_, fun i hi => ?_, fun i hi => ⟨?_, ?_⟩, fun
    i hi => ?_, fun hi => .inr (h.idle hi), fun hi => by simp [hcur] at hi, fun hone i => ?_⟩
  · rw [hst]
    grind
  · rw [hst] at hi
    grind
  · rw [hst]
    grind
  · -- a zombie is neither the current task nor the next one
    have ht : i ≠ t := by
      rintro rfl
      simp [hrun] at hi
    have hn : some i ≠ next := by
      intro hn
      simp [(hnext i hn.symm).2.1] at hi
    exact congrArg TaskCore.exitCode (h.core i ht hn)
  · rw [h.current] at hi
    exact .inl (hnext i hi).2.1
  · rw [hst, h.current]
    have hi := hone i
    grind

lemma Switches.of_same {state : TaskState} {next : Option Slot}
    (h : Switches k k' t state code next) (hsame : SameTasks k' k'') :
    Switches k k'' t state code next where
  current := hsame.current.trans h.current
  fsBase := hsame.fsBase.trans h.fsBase
  core i ht hn := (hsame.core i).trans (h.core i ht hn)
  next i hi := by
    obtain ⟨hne, hready, hcore⟩ := h.next i hi
    exact ⟨hne, hready, (hsame.core i).trans hcore⟩
  self := (hsame.core t).trans h.self
  idle hn i := by
    rw [hsame.state i]
    exact h.idle (hsame.current.symm.trans hn) i

lemma switches_runTask {state : TaskState} {k₀ : Kernel} (hcur : k₀.fsBase = k.fsBase)
    (hcore : ∀ i, i ≠ t → (k₀.tasks i).core = (k.tasks i).core)
    (hself : (k₀.tasks t).core = { (k.tasks t).core with state := state, exitCode := code })
    (hready : (k₀.tasks n).state = .ready) (hne : n ≠ t) :
    Switches k (runTask k₀ n) t state code (some n) where
  current := runTask_current k₀ n
  fsBase := (runTask_fsBase k₀ n).trans hcur
  core i ht hn := by
    rw [runTask_tasks, Kernel.modify_other _ (by simpa using hn)]
    exact hcore i ht
  next i hi := by
    obtain rfl : n = i := by simpa using hi
    have hn := hcore n hne
    refine ⟨hne, (congrArg TaskCore.state hn).symm.trans hready, ?_⟩
    rw [runTask_tasks, Kernel.modify_self, ← hn]
    rfl
  self := by
    rw [runTask_tasks, Kernel.modify_other _ hne.symm]
    exact hself
  idle := by simp [runTask_current]

lemma taskYield_cases (k) :
    (taskYield k = k ∧ ∀ t, k.current = some t → pickNext k (some t) = none ∨
        pickNext k (some t) = some t) ∨
      ∃ t n, k.current = some t ∧ pickNext k (some t) = some n ∧ n ≠ t ∧
        taskYield k = runTask (k.modify t fun task => { task with state := .ready }) n := by
  unfold taskYield
  cases hcur : k.current with
  | none => exact .inl ⟨rfl, by simp⟩
  | some t =>
    dsimp only
    cases hpick : pickNext k (some t) with
    | none => exact .inl ⟨rfl, by simp [hpick]⟩
    | some n =>
      dsimp only
      split_ifs with hn
      · exact .inl ⟨rfl, by simp [hpick, hn]⟩
      · exact .inr ⟨t, n, rfl, hpick, hn, rfl⟩

lemma taskYield_switches (hcur : k.current = some t) (hpick : pickNext k (some t) = some n)
    (hne : n ≠ t) : Switches k (taskYield k) t .ready (k.tasks t).exitCode (some n) := by
  have heq : taskYield k = runTask (k.modify t fun task => { task with state := .ready }) n := by
    simp [taskYield, hcur, hpick, hne]
  rw [heq]
  refine switches_runTask rfl (fun i hi => ?_) ?_ ?_ hne
  · rw [Kernel.modify_other _ hi]
  · rw [Kernel.modify_self]
    rfl
  · rw [Kernel.modify_other _ hne]
    exact pickNext_ready hpick

lemma taskYield_settles (hone : OneRunning k) : Settles k (taskYield k) := by
  rcases taskYield_cases k with ⟨heq, -⟩ | ⟨t, n, hcur, hpick, hne, -⟩
  · rw [heq]
    exact .refl k
  · exact (taskYield_switches hcur hpick hne).settles hcur ((hone t).mpr hcur) (.inl rfl)

lemma becomeZombie_same (k) (t) (code) :
    SameTasks (k.modify t fun task => { task with exitCode := code, state := .zombie })
      (becomeZombie k t code) :=
  (signalOnExit_same _ t).trans (releaseFiles_same _ t)

lemma becomeZombie_fsBase (k : Kernel) (t : Slot) (code : BitVec 32) :
    (becomeZombie k t code).fsBase = k.fsBase :=
  (becomeZombie_same k t code).fsBase

lemma becomeZombie_core (k : Kernel) (t : Slot) (code : BitVec 32) (i : Slot) :
    ((becomeZombie k t code).tasks i).core =
      if i = t then { (k.tasks i).core with state := .zombie, exitCode := code }
      else (k.tasks i).core := by
  refine ((becomeZombie_same k t code).core i).trans ?_
  split_ifs with hi
  · rw [hi, Kernel.modify_self]
    rfl
  · rw [Kernel.modify_other _ hi]

lemma taskExitCurrent_switches (hcur : k.current = some t) (code : BitVec 32) :
    Switches k (taskExitCurrent k code) t .zombie code
      (pickNext (becomeZombie k t code) (some t)) := by
  have hfs := becomeZombie_fsBase k t code
  have hcore (i : Slot) (hi : i ≠ t) :
      ((becomeZombie k t code).tasks i).core = (k.tasks i).core := by
    rw [becomeZombie_core, if_neg hi]
  have hself : ((becomeZombie k t code).tasks t).core =
      { (k.tasks t).core with state := .zombie, exitCode := code } := by
    rw [becomeZombie_core, if_pos rfl]
  unfold taskExitCurrent
  rw [hcur]
  dsimp only
  cases hpick : pickNext (becomeZombie k t code) (some t) with
  | none =>
    have hrest := (loadTemplate_same (becomeZombie k t code)).trans (releaseSpace_same _ t)
    exact
      { current := rfl
        fsBase := hrest.fsBase.trans hfs
        core := fun i hi _ => (hrest.core i).trans (hcore i hi)
        next := by simp
        self := (hrest.core t).trans hself
        idle := fun _ i hi => pickNext_none hpick i ((hrest.state i).symm.trans hi) }
  | some n =>
    have hready := pickNext_ready hpick
    have hne : n ≠ t := by
      rintro rfl
      have := congrArg TaskCore.state hself
      simp [Task.core, hready] at this
    exact (switches_runTask hfs hcore hself hready hne).of_same (releaseSpace_same _ t)

lemma taskExitCurrent_exitCode (hi : (k.tasks i).state ≠ .zombie)
    (hzombie : ((taskExitCurrent k code).tasks i).state = .zombie) :
    ((taskExitCurrent k code).tasks i).exitCode = code := by
  cases hcur : k.current with
  | none =>
    have heq : taskExitCurrent k code = k := by simp [taskExitCurrent, hcur]
    rw [heq] at hzombie
    exact absurd hzombie hi
  | some t =>
    have hsw := taskExitCurrent_switches hcur code
    have hstate {core : TaskCore} (h : ((taskExitCurrent k code).tasks i).core = core) :
        core.state = .zombie := (congrArg TaskCore.state h).symm.trans hzombie
    by_cases ht : i = t
    · rw [ht]
      exact congrArg TaskCore.exitCode hsw.self
    · by_cases hn : pickNext (becomeZombie k t code) (some t) = some i
      · cases hstate (hsw.next i hn).2.2
      · exact absurd (hstate (hsw.core i ht (Ne.symm hn))) hi

lemma taskExitCurrent_settles (hone : OneRunning k) (code) :
    Settles k (taskExitCurrent k code) := by
  cases hcur : k.current with
  | none =>
    have heq : taskExitCurrent k code = k := by simp [taskExitCurrent, hcur]
    rw [heq]
    exact .refl k
  | some t =>
    exact (taskExitCurrent_switches hcur code).settles hcur ((hone t).mpr hcur) (.inr rfl)

/-! ## Signals -/

lemma hasFlag_sigBit (w) (sig) :
    hasFlag w (sigBit sig) = w.getLsbD sig.val := by
  have hbit : sigBit sig = BitVec.twoPow 64 sig.val := by
    simp [sigBit, BitVec.twoPow_eq]
  rw [Bool.eq_iff_iff, hasFlag, hbit, bne_iff_ne, BitMasks.and_twoPow_ne_zero]

lemma getLsbD_sigBit (a b) : (sigBit a).getLsbD b.val = decide (a = b) := by
  simp only [sigBit, BitVec.getLsbD_shiftLeft, BitVec.getLsbD_one]
  grind

lemma hasFlag_clear (w) (a b) :
    hasFlag (w &&& ~~~sigBit a) (sigBit b) = (hasFlag w (sigBit b) && decide (a ≠ b)) := by
  have hlt : b.val < 64 := by omega
  rw [hasFlag_sigBit, hasFlag_sigBit, BitVec.getLsbD_and, BitVec.getLsbD_not, getLsbD_sigBit]
  simp [hlt]

lemma hasFlag_set (w) (a b) :
    hasFlag (w ||| sigBit a) (sigBit b) = (hasFlag w (sigBit b) || decide (a = b)) := by
  rw [hasFlag_sigBit, hasFlag_sigBit, BitVec.getLsbD_or, getLsbD_sigBit]

def Task.takes (task : Task) (sig : Fin 32) : Bool :=
  decide (sig = sigKill) || !hasFlag task.sigBlocked (sigBit sig)

def Kernel.setPending (k : Kernel) (t : Slot) (pending : Word) : Kernel :=
  k.modify t fun task => { task with sigPending := pending }

lemma setPending_same (k) (t) (pending : Word) :
    SameTasks k (k.setPending t pending) :=
  sameTasks_modify t (fun task => { task with sigPending := pending }) (fun _ => rfl) rfl rfl rfl

lemma setPending_setPending (k : Kernel) (t : Slot) (p q : Word) :
    (k.setPending t p).setPending t q = k.setPending t q := by
  simp [Kernel.setPending, Kernel.modify]

lemma deliverLoop_skip (sigs)
    (hskip : hasFlag pend (sigBit sig) = false ∨ (k.tasks t).takes sig = false) :
    deliverLoop t pend (sig :: sigs) k = deliverLoop t pend sigs k := by
  rw [deliverLoop]
  rcases hskip with hskip | hskip
  · simp [hskip]
  · simp only [Task.takes, Bool.or_eq_false_iff, decide_eq_false_iff_not,
      Bool.not_eq_false'] at hskip
    simp [hskip.1, hskip.2]

lemma deliverLoop_take (sigs)
    (hpend : hasFlag pend (sigBit sig)) (htake : (k.tasks t).takes sig) :
    deliverLoop t pend (sig :: sigs) k =
      if signalApplyOne (k.tasks t) sig then
        taskExitCurrent (k.setPending t ((k.tasks t).sigPending &&& ~~~sigBit sig))
          (BitVec.ofNat 32 sig.val)
      else
        deliverLoop t pend sigs
          (k.setPending t ((k.tasks t).sigPending &&& ~~~sigBit sig)) := by
  have hmod : (k.modify t fun task =>
      { task with sigPending := task.sigPending &&& ~~~sigBit sig }) =
      k.setPending t ((k.tasks t).sigPending &&& ~~~sigBit sig) := by
    simp [Kernel.setPending, Kernel.modify]
  have hnot : ¬ (sig ≠ sigKill ∧ hasFlag (k.tasks t).sigBlocked (sigBit sig)) := by
    simp only [Task.takes, Bool.or_eq_true, decide_eq_true_eq, Bool.not_eq_true'] at htake
    rintro ⟨hne, hblocked⟩
    rcases htake with htake | htake
    · exact hne htake
    · simp [htake] at hblocked
  rw [deliverLoop, hpend]
  simp only [Bool.not_true, Bool.false_eq_true, if_false, if_neg hnot, hmod]
  simp [Kernel.setPending, signalApplyOne]

/-- The loop of `signal_deliver_current` clears the signals that the task takes; it stops early
only at one that ends it. -/
theorem deliverLoop_cases (t : Slot) (pend : Word) (sigs : List (Fin 32)) (k : Kernel) :
    ∃ p done rest, sigs = done ++ rest ∧
      (∀ sig, hasFlag p (sigBit sig) = true ↔ hasFlag (k.tasks t).sigPending (sigBit sig) = true ∧
        ¬ (sig ∈ done ∧ hasFlag pend (sigBit sig) = true ∧ (k.tasks t).takes sig = true)) ∧
      ((rest = [] ∧ deliverLoop t pend sigs k = k.setPending t p ∧
          ∀ sig ∈ done, hasFlag pend (sigBit sig) → (k.tasks t).takes sig →
            signalApplyOne (k.tasks t) sig = false) ∨
        ∃ safe sig, done = safe ++ [sig] ∧ hasFlag pend (sigBit sig) ∧ (k.tasks t).takes sig ∧
          signalApplyOne (k.tasks t) sig ∧
          (∀ sig ∈ safe, hasFlag pend (sigBit sig) → (k.tasks t).takes sig →
            signalApplyOne (k.tasks t) sig = false) ∧
          deliverLoop t pend sigs k =
            taskExitCurrent (k.setPending t p) (BitVec.ofNat 32 sig.val)) := by
  induction sigs generalizing k with
  | nil =>
    refine ⟨(k.tasks t).sigPending, [], [], rfl, by simp, .inl ⟨rfl, ?_, by simp⟩⟩
    simp [deliverLoop, Kernel.setPending, Kernel.modify]
  | cons sig sigs ih =>
    by_cases hskip : hasFlag pend (sigBit sig) = false ∨ (k.tasks t).takes sig = false
    · -- not pending, or blocked
      obtain ⟨p, done, rest, hsigs, hp, hcases⟩ := ih k
      have hsafe : hasFlag pend (sigBit sig) → (k.tasks t).takes sig →
          signalApplyOne (k.tasks t) sig = false := by
        intro hpend htake
        simp [hpend, htake] at hskip
      refine ⟨p, sig :: done, rest, congrArg _ hsigs, fun sig' => ?_, ?_⟩
      · rw [hp sig', mem_cons]
        grind
      · rw [deliverLoop_skip sigs hskip]
        rcases hcases with ⟨hrest, hres, hall⟩ | ⟨safe, s, rfl, hpend, htake, happly, hall, hres⟩
        · exact .inl ⟨hrest, hres, forall_mem_cons.mpr ⟨hsafe, hall⟩⟩
        · exact .inr ⟨sig :: safe, s, rfl, hpend, htake, happly,
            forall_mem_cons.mpr ⟨hsafe, hall⟩, hres⟩
    · simp only [not_or, Bool.not_eq_false] at hskip
      obtain ⟨hpend, htake⟩ := hskip
      rw [deliverLoop_take sigs hpend htake]
      set q := (k.tasks t).sigPending &&& ~~~sigBit sig with hq
      have hclear (sig' : Fin 32) : hasFlag q (sigBit sig') = true ↔
          hasFlag (k.tasks t).sigPending (sigBit sig') = true ∧ sig ≠ sig' := by
        rw [hq, hasFlag_clear, Bool.and_eq_true, decide_eq_true_eq]
      cases happly : signalApplyOne (k.tasks t) sig with
      | true =>
        refine ⟨q, [sig], sigs, rfl, fun sig' => ?_,
          .inr ⟨[], sig, rfl, hpend, htake, happly, by simp, by simp⟩⟩
        grind
      | false =>
        obtain ⟨p, done, rest, hsigs, hp, hcases⟩ := ih (k.setPending t q)
        have htask : (k.setPending t q).tasks t = { k.tasks t with sigPending := q } := by
          simp [Kernel.setPending]
        have htakes (sig' : Fin 32) : ((k.setPending t q).tasks t).takes sig' =
            (k.tasks t).takes sig' := by rw [htask]; rfl
        have happlies (sig' : Fin 32) : signalApplyOne ((k.setPending t q).tasks t) sig' =
            signalApplyOne (k.tasks t) sig' := by rw [htask]; rfl
        have hsafe : hasFlag pend (sigBit sig) → (k.tasks t).takes sig →
            signalApplyOne (k.tasks t) sig = false := fun _ _ => happly
        simp only [htakes, happlies, setPending_setPending] at hcases hp
        refine ⟨p, sig :: done, rest, congrArg _ hsigs, fun sig' => ?_, ?_⟩
        · rw [hp sig', htask, hclear, mem_cons]
          grind
        · rcases hcases with ⟨hrest, hres, hall⟩ | ⟨safe, s, rfl, hpd, htk, hap, hall, hres⟩
          · exact .inl ⟨hrest, hres, forall_mem_cons.mpr ⟨hsafe, hall⟩⟩
          · exact .inr ⟨sig :: safe, s, rfl, hpd, htk, hap, forall_mem_cons.mpr ⟨hsafe, hall⟩, hres⟩

lemma signalDeliverCurrent_cases (k) :
    SameTasks k (signalDeliverCurrent k) ∨
      ∃ k₀ code, SameTasks k k₀ ∧ signalDeliverCurrent k = taskExitCurrent k₀ code := by
  unfold signalDeliverCurrent
  cases hcur : k.current with
  | none => exact .inl (.refl k)
  | some t =>
    dsimp only
    split_ifs
    · exact .inl (.refl k)
    · obtain ⟨p, done, rest, -, -, ⟨-, heq, -⟩ | ⟨safe, sig, -, -, -, -, -, heq⟩⟩ :=
        deliverLoop_cases t (k.tasks t).sigPending (finRange 32).tail k
      · rw [heq]
        exact .inl (setPending_same k t p)
      · exact .inr ⟨_, _, setPending_same k t p, heq⟩

lemma signalDeliverCurrent_settles (hone : OneRunning k) :
    Settles k (signalDeliverCurrent k) := by
  rcases signalDeliverCurrent_cases k with hsame | ⟨k₀, code, hsame, heq⟩
  · exact hsame.settles
  · rw [heq]
    exact hsame.settles.trans (taskExitCurrent_settles (hsame.settles.running hone) code)

lemma syscallLeave_settles (hone : OneRunning k) (preempt : Bool) :
    Settles k (syscallLeave preempt k) := by
  have hdeliver := signalDeliverCurrent_settles hone
  simp only [syscallLeave]
  split_ifs
  · exact hdeliver.trans (taskYield_settles (hdeliver.running hone))
  · exact hdeliver

/-! ## Tasks that can still run -/

/-- Ready or current. -/
def Runnable (k : Kernel) (i : Slot) : Prop :=
  (k.tasks i).state = .ready ∨ k.current = some i

lemma Settles.runnable (h : Settles k k') (hrun : Runnable k' i) : Runnable k i :=
  hrun.elim (h.ready i) (h.current i)

lemma Runnable.not_unused (hone : OneRunning k) (hrun : Runnable k i) :
    (k.tasks i).state ≠ .unused := by
  rcases hrun with hready | hcur
  · simp [hready]
  · simp [(hone i).mpr hcur]

lemma taskExitCurrent_not_runnable (hcur : k.current = some t) (code) :
    ¬ Runnable (taskExitCurrent k code) t := by
  have hsw := taskExitCurrent_switches hcur code
  rintro (hready | hcur')
  · have hzombie : ((taskExitCurrent k code).tasks t).state = .zombie :=
      congrArg TaskCore.state hsw.self
    simp [hzombie] at hready
  · rw [hsw.current] at hcur'
    exact (hsw.next t hcur').1 rfl

end HelixOS
