import HelixOS.EmptySpaces

/-!
# Parents and the children they wait for

`task_wait` looks for children by the slot of their parent, and a slot is used again after
its task has been reaped.  The history of a run gives every task a number of its own and
records by which task it was forked, how it exited and what `task_wait` has reported.
-/

namespace HelixOS

open TrackedRuns Function Option List

variable {parent : Option Slot} {want : BitVec 32} {ext : External} {f : Regs} {pid : BitVec 32}
  {k k' k₁ k₂ : Kernel} {i j n t : Slot}

/-! ## Steps as seen by parents and children -/

structure Kin where
  parent : Option Slot
  pid : BitVec 32
  state : TaskState
  exitCode : BitVec 32

def Task.kin (task : Task) : Kin := ⟨task.parent, task.pid, task.state, task.exitCode⟩

def TaskCore.kin (core : TaskCore) : Kin := ⟨core.parent, core.pid, core.state, core.exitCode⟩

def SameKin (k k' : Kernel) : Prop := ∀ i, (k'.tasks i).kin = (k.tasks i).kin

section Same

variable (h : (k'.tasks i).kin = (k.tasks j).kin)
include h

lemma Kin.parent_eq : (k'.tasks i).parent = (k.tasks j).parent := congrArg Kin.parent h

lemma Kin.pid_eq : (k'.tasks i).pid = (k.tasks j).pid := congrArg Kin.pid h

lemma Kin.state_eq : (k'.tasks i).state = (k.tasks j).state := congrArg Kin.state h

lemma Kin.exitCode_eq : (k'.tasks i).exitCode = (k.tasks j).exitCode := congrArg Kin.exitCode h

end Same

lemma SameKin.state (h : SameKin k k') (i) :
    (k'.tasks i).state = (k.tasks i).state := Kin.state_eq (h i)

structure KinSettles (k k' : Kernel) : Prop where
  parent : ∀ i, (k'.tasks i).parent = (k.tasks i).parent
  pid : ∀ i, (k'.tasks i).pid = (k.tasks i).pid
  unused : ∀ i, (k'.tasks i).state = .unused ↔ (k.tasks i).state = .unused
  zombie : ∀ i, (k.tasks i).state = .zombie →
    (k'.tasks i).state = .zombie ∧ (k'.tasks i).exitCode = (k.tasks i).exitCode

structure KinCreates (k k' : Kernel) (i : Slot) (parent : Option Slot) : Prop where
  alloc : allocSlot k = some i
  self : ∃ code, (k'.tasks i).kin = ⟨parent, k.nextPid, .ready, code⟩
  other : ∀ j, j ≠ i → (k'.tasks j).kin = (k.tasks j).kin

structure KinReaps (k k' : Kernel) (i : Slot) : Prop where
  zombie : (k.tasks i).state = .zombie
  self : (k'.tasks i).state = .unused
  other : ∀ j, j ≠ i → (k'.tasks j).kin = (k.tasks j).kin

lemma Settles.kin (h : Settles k₁ k₂) (hbefore : SameKin k k₁) (hafter : SameKin k₂ k') :
    KinSettles k k' where
  parent i := (Kin.parent_eq (hafter i)).trans ((h.parent i).trans (Kin.parent_eq (hbefore i)))
  pid i := (Kin.pid_eq (hafter i)).trans ((h.pid i).trans (Kin.pid_eq (hbefore i)))
  unused i := by
    rw [hafter.state i, ← hbefore.state i]
    exact h.unused i
  zombie i hi := by
    obtain ⟨hzombie, hcode⟩ := h.zombie i ((hbefore.state i).trans hi)
    exact ⟨(hafter.state i).trans hzombie,
      (Kin.exitCode_eq (hafter i)).trans (hcode.trans (Kin.exitCode_eq (hbefore i)))⟩

lemma Abandons.kin (h : Abandons k₁ k₂) (hbefore : SameKin k k₁) (hafter : SameKin k₂ k') :
    ∀ i, (k'.tasks i).kin = (k.tasks i).kin ∨
      (k'.tasks i).state = .unused ∧ (k.tasks i).state = .unused := by
  intro i
  rcases h.tasks i with heq | ⟨hunused, hunused'⟩
  · exact .inl ((hafter i).trans ((congrArg Task.kin heq).trans (hbefore i)))
  · exact .inr ⟨(hafter.state i).trans hunused', (hbefore.state i).symm.trans hunused⟩

lemma saveFrame_kin (f) (t) (k) : SameKin k (saveFrame f t k) := by
  intro i
  refine Kernel.modify_keeps Task.kin ?_ k t i
  exact fun _ => rfl

lemma saveResult_kin (t) (ret : Word) (k) : SameKin k (saveResult t ret k) := by
  intro i
  unfold saveResult
  split
  · refine Kernel.modify_keeps Task.kin ?_ k t i
    exact fun _ => rfl
  · rfl

/-- The task that calls `task_wait` in this event, and the pid it asks for. -/
def Event.waits (k : Kernel) : Event → Option (Slot × BitVec 32)
  | .enter _ f =>
    match k.current with
    | some t => if Call.ofNr f.rax = .wait4 then some (t, f.rdi.setWidth 32) else none
    | none => none
  | _ => none

lemma Event.waits_other (h : Call.ofNr f.rax ≠ .wait4) : (Event.enter ext f).waits k = none := by
  unfold Event.waits
  cases k.current with
  | none => rfl
  | some t => simp [h]

lemma Event.waits_wait4 (h : Call.ofNr f.rax = .wait4) (hcur : k.current = some t) :
    (Event.enter ext f).waits k = some (t, f.rdi.setWidth 32) := by
  simp [Event.waits, hcur, h]

/-- The status with which the task in the slot `i` ends: the argument of `exit`, or that of a task
the kernel kills. -/
def Event.lastCode (k' : Kernel) (i : Slot) : Event → BitVec 32
  | .enter _ f =>
    if Call.ofNr f.rax = .exit then f.rdi.setWidth 32 else (k'.tasks i).exitCode
  | _ => (k'.tasks i).exitCode

lemma Event.lastCode_other (h : Call.ofNr f.rax ≠ .exit)
    (i) : (Event.enter ext f).lastCode k' i = (k'.tasks i).exitCode := if_neg h

/-- What an event does to parents and children. -/
inductive KinStep (k k' : Kernel) : Event → Prop
  | settles {event : Event} (hwait : event.waits k = none) (h : KinSettles k k')
      (hcode : ∀ i, (k.tasks i).state ≠ .zombie → (k'.tasks i).state = .zombie →
        (k'.tasks i).exitCode = event.lastCode k' i) :
      KinStep k k' event
  | abandons {event : Event} (hwait : event.waits k = none)
      (h : ∀ i, (k'.tasks i).kin = (k.tasks i).kin ∨
        (k'.tasks i).state = .unused ∧ (k.tasks i).state = .unused) : KinStep k k' event
  | create {entry sp : Word} {i : Slot} (h : KinCreates k k' i none) :
      KinStep k k' (.create entry sp)
  | exec {ext : External} {img : Image} {i : Slot} (h : KinCreates k k' i none) :
      KinStep k k' (.exec ext img)
  | fork {ext : External} {f : Regs} {t i : Slot} (hcall : Call.ofNr f.rax = .fork)
      (hcur : k.current = some t) (h : KinCreates k k' i (some t)) :
      KinStep k k' (.enter ext f)
  | wait {event : Event} {t : Slot} {pid : BitVec 32} (hwait : event.waits k = some (t, pid))
      (hresult : ∀ p status, (taskWait k pid).1 ≠ .reaped p status) (h : SameKin k k') :
      KinStep k k' event
  | reap {event : Event} {t i : Slot} {pid : BitVec 32} (hwait : event.waits k = some (t, pid))
      (hwanted : isWanted k t (waitWant pid) i = true)
      (hresult : (taskWait k pid).1 =
        .reaped (k.tasks i).pid (((k.tasks i).exitCode &&& 0xFF#32) <<< 8))
      (h : KinReaps k k' i) : KinStep k k' event

lemma Creates.kin {task : Task} (h : Creates k₁ k₂ i task)
    (hbefore : SameKin k k₁) (hpid : k₁.nextPid = k.nextPid) (halloc : allocSlot k₁ = allocSlot k)
    (hafter : SameKin k₂ k') (hparent : task.parent = parent) (hnext : task.pid = k₁.nextPid) :
    KinCreates k k' i parent where
  alloc := halloc.symm.trans h.alloc
  self := by
    refine ⟨task.exitCode, (hafter i).trans ?_⟩
    rw [h.self, Task.kin, hparent, hnext, hpid, h.ready]
  other j hj := (hafter j).trans ((congrArg Task.kin (h.other j hj)).trans (hbefore j))

lemma isWanted_congr (h : SameKin k k') (t) (want) :
    isWanted k' t want = isWanted k t want := by
  funext i
  rw [isWanted, isWanted, h.state, Kin.parent_eq (h i), Kin.pid_eq (h i)]

lemma taskWait_result_congr (h : SameKin k k') (hcur : k'.current = k.current)
    (pid) : (taskWait k' pid).1 = (taskWait k pid).1 := by
  unfold taskWait
  rw [hcur]
  cases k.current with
  | none => rfl
  | some t =>
    simp only [isWanted_congr h, h.state]
    split
    · simp [fun i => Kin.pid_eq (h i), fun i => Kin.exitCode_eq (h i)]
    · by_cases hany : (finRange 8).any (isWanted k t (waitWant pid)) = true <;>
        simp [hany]

lemma taskStartUser_kin (hstart : taskStartUser k = some k') : KinSettles k k' := by
  obtain ⟨n, hready, -, -, hcore, hother⟩ := taskStartUser_cases hstart
  have hself : (k'.tasks n).kin = { (k.tasks n).kin with state := .running } :=
    congrArg TaskCore.kin hcore
  have hkin (i : Slot) (hi : i ≠ n) : (k'.tasks i).kin = (k.tasks i).kin :=
    congrArg Task.kin (hother i hi)
  refine ⟨fun i => ?_, fun i => ?_, fun i => ?_, fun i hi => ?_⟩
  all_goals by_cases hn : i = n
  · rw [hn]
    exact congrArg Kin.parent hself
  · exact Kin.parent_eq (hkin i hn)
  · rw [hn]
    exact congrArg Kin.pid hself
  · exact Kin.pid_eq (hkin i hn)
  · rw [hn, show (k'.tasks n).state = .running from congrArg Kin.state hself, hready]
    simp
  · rw [hother i hn]
  · rw [hn, hready] at hi
    cases hi
  · rw [hother i hn]
    exact ⟨hi, rfl⟩

lemma Handled.kin {ret : Word}
    (h : Handled ext f t (saveFrame f t k) ret k₁) (hone : OneRunning (saveFrame f t k))
    (hcur : k.current = some t) : KinStep k (saveResult t ret k₁) (.enter ext f) := by
  have hbefore := saveFrame_kin f t k
  have hafter := saveResult_kin t ret k₁
  have hcall_ne {call call' : Call} (hcall : Call.ofNr f.rax = call) (hne : call ≠ call') :
      Call.ofNr f.rax ≠ call' := hcall ▸ hne
  -- neither `wait4` nor `exit`
  have hsettles (hwait : Call.ofNr f.rax ≠ .wait4) (hexit : Call.ofNr f.rax ≠ .exit) (hs :
      KinSettles k (saveResult t ret k₁)) : KinStep k (saveResult t ret k₁) (.enter ext f) :=
    .settles (Event.waits_other hwait) hs fun i _ _ =>
      (Event.lastCode_other hexit i).symm
  cases h with
  | quiet hcall hsame =>
    refine hsettles (fun hwait => ?_) (fun hexit => ?_) (hsame.settles.kin hbefore hafter)
    · rw [hwait] at hcall
      cases hcall
    · rw [hexit] at hcall
      cases hcall
  | setFs hcall =>
    exact hsettles (hcall_ne hcall (by simp)) (hcall_ne hcall (by simp))
      ((Settles.refl _).kin hbefore hafter)
  | yield hcall =>
    exact hsettles (hcall_ne hcall (by simp)) (hcall_ne hcall (by simp))
      ((taskYield_settles hone).kin hbefore hafter)
  | exit hcall =>
    refine .settles (Event.waits_other (hcall_ne hcall (by simp)))
      ((taskExitCurrent_settles hone _).kin hbefore hafter) fun i hi hzombie => ?_
    rw [← hbefore.state i] at hi
    rw [hafter.state i] at hzombie
    rw [Event.lastCode, if_pos hcall]
    exact (Kin.exitCode_eq (hafter i)).trans (taskExitCurrent_exitCode hi hzombie)
  | kill hcall =>
    exact hsettles (hcall_ne hcall (by simp)) (hcall_ne hcall (by simp))
      ((sysKill_settles hone _ _ t).kin hbefore hafter)
  | fork hcall =>
    rcases sysFork_cases (saveFrame f t k) t with hab | ⟨i, kstack, pml4, -, -, hcre⟩
    · exact .abandons (Event.waits_other (hcall_ne hcall (by simp))) (hab.kin hbefore hafter)
    · exact .fork hcall hcur (hcre.kin hbefore rfl (saveFrame_allocSlot f t k) hafter rfl rfl)
  | wait hcall =>
    have hwait : (Event.enter ext f).waits k = some (t, f.rdi.setWidth 32) :=
      Event.waits_wait4 hcall hcur
    have hsame := taskWait_result_congr hbefore rfl (f.rdi.setWidth 32)
    rw [sysWait4_kernel] at hafter ⊢
    rcases taskWait_cases (saveFrame f t k) (f.rdi.setWidth 32) with
      ⟨heq, hnone⟩ | ⟨p, i, hp, hwanted, hz, heq⟩
    · rw [heq] at hafter ⊢
      exact .wait hwait (hsame ▸ hnone) fun i => (hafter i).trans (hbefore i)
    · rw [heq] at hafter ⊢
      have hreap := taskReap_reaps hz
      obtain rfl : t = p := some.inj (hcur.symm.trans hp)
      rw [isWanted_congr hbefore] at hwanted
      refine .reap hwait hwanted ?_
        ⟨(hbefore.state i).symm.trans hz, (hafter.state i).trans hreap.self, fun j hj => ?_⟩
      · rw [← hsame, heq, Kin.pid_eq (hbefore i), Kin.exitCode_eq (hbefore i)]
      · exact (hafter j).trans ((congrArg TaskCore.kin (hreap.other j hj)).trans (hbefore j))
  | execve hcall hexec =>
    rcases sysExecve_cases hexec with ⟨m, rfl⟩ | ⟨m, info, pml4, -, -, rfl⟩
    · exact hsettles (hcall_ne hcall (by simp)) (hcall_ne hcall (by simp))
        ((Settles.refl _).kin hbefore hafter)
    · refine hsettles (hcall_ne hcall (by simp)) (hcall_ne hcall (by simp))
        ((Settles.refl (saveFrame f t k)).kin hbefore fun i => ?_)
      refine (hafter i).trans (Kernel.modify_keeps Task.kin ?_ _ t i)
      exact fun _ => rfl

lemma Kernel.step_kin {event : Event} (hone : OneRunning k)
    (hstep : k.step event = some k') : KinStep k k' event := by
  cases event with
  | create entry sp =>
    obtain ⟨-, hab | ⟨i, task, hcre, htask⟩⟩ := Kernel.step_makes rfl hstep
    · exact .abandons rfl (hab.kin (fun _ => rfl) fun _ => rfl)
    · exact .create (hcre.kin (fun _ => rfl) rfl rfl (fun _ => rfl) htask.parent htask.pid)
  | exec ext img =>
    obtain ⟨-, hab | ⟨i, task, hcre, htask⟩⟩ := Kernel.step_makes rfl hstep
    · exact .abandons rfl (hab.kin (fun _ => rfl) fun _ => rfl)
    · exact .exec (hcre.kin (fun _ => rfl) rfl rfl (fun _ => rfl) htask.parent htask.pid)
  | start =>
    simp only [Kernel.step, ite_none_right_eq_some] at hstep
    exact .settles rfl (taskStartUser_kin hstep.2) fun _ _ _ => rfl
  | enter ext f =>
    rcases syscallEnter_cases hstep with ⟨hidle, rfl⟩ | ⟨t, ret, k₁, hcur, hdisp, rfl⟩
    · exact .settles (by simp [Event.waits, hidle]) ((Settles.refl _).kin (fun _ => rfl) fun _ =>
        rfl) fun i hi hzombie => absurd hzombie hi
    · have hsaved : OneRunning (saveFrame f t k) := hone.congr rfl (saveFrame_state f t k)
      exact (dispatch_handled hdisp).kin hsaved hcur
  | leave preempt =>
    obtain rfl := some.inj hstep
    exact .settles rfl ((syscallLeave_settles hone preempt).kin (fun _ => rfl) fun _ => rfl)
      fun _ _ _ => rfl

/-! ## The history of a run -/

/-- A call of `task_wait`: the tasks it looked at, the ones it reaped and what it returned. -/
structure WaitReport where
  waiter : ℕ
  seen : List ℕ
  gone : List ℕ
  result : WaitResult

/-- Tasks by numbers that are never used again; `id` is the number of the task in a slot. -/
structure Family where
  next : ℕ
  id : Slot → ℕ
  creator : ℕ → Option ℕ
  pid : ℕ → BitVec 32
  exited : ℕ → Option (BitVec 32)
  reports : List WaitReport

namespace Family

def empty : Family := ⟨0, fun _ => 0, fun _ => none, fun _ => 0#32, fun _ => none, []⟩

def forker (h : Family) (k : Kernel) : Event → Option ℕ
  | .enter _ _ => k.current.map h.id
  | _ => none

def noteBirth (k : Kernel) (event : Event) (k' : Kernel) (h : Family) : Family :=
  match allocSlot k with
  | none => h
  | some i =>
    if (k'.tasks i).state = .unused then h
    else
      { h with
        next := h.next + 1
        id := update h.id i h.next
        creator := update h.creator h.next (h.forker k event)
        pid := update h.pid h.next k.nextPid }

def died (k k' : Kernel) (i : Slot) : Bool :=
  (k.tasks i).state ≠ .zombie && (k'.tasks i).state = .zombie

def noteDeaths (k : Kernel) (event : Event) (k' : Kernel) (h : Family) : Family :=
  { h with
    exited := fun c =>
      match (finRange 8).find? fun i => died k k' i && h.id i = c with
      | some i => some (event.lastCode k' i)
      | none => h.exited c }

def vanished (k k' : Kernel) (i : Slot) : Bool :=
  (k.tasks i).state = .zombie && (k'.tasks i).state = .unused

def noteWait (k : Kernel) (event : Event) (k' : Kernel) (h : Family) : Family :=
  match event.waits k with
  | none => h
  | some (t, pid) =>
    { h with
      reports :=
        { waiter := h.id t
          seen := ((finRange 8).filter (isWanted k t (waitWant pid))).map h.id
          gone := ((finRange 8).filter (vanished k k')).map h.id
          result := (taskWait k pid).1 } :: h.reports }

def note (k : Kernel) (event : Event) (k' : Kernel) (h : Family) : Family :=
  noteWait k event k' (noteDeaths k event k' (noteBirth k event k' h))

end Family

/-- The call looked only at tasks that the caller has forked; it reaped none, or the one
whose pid and exit status it returned. -/
def WaitReport.Honest (h : Family) (report : WaitReport) : Prop :=
  (∀ c ∈ report.seen, h.creator c = some report.waiter) ∧
    match report.result with
    | .reaped pid status => ∃ c code, c ∈ report.seen ∧ report.gone = [c] ∧ h.pid c = pid ∧
        h.exited c = some code ∧ status = (code &&& 0xFF#32) <<< 8
    | .alive => report.gone = [] ∧ report.seen ≠ []
    | .noChild => report.gone = []

/-- No task in the table has its parent in the slot that the next one gets. -/
def NoStaleParent (k : Kernel) : Prop :=
  ∀ i j, allocSlot k = some i → (k.tasks j).state ≠ .unused → (k.tasks j).parent ≠ some i

def FreshSlots (k : Kernel) (event : Event) : Prop :=
  match event with
  | .create _ _ | .exec _ _ => NoStaleParent k
  | .enter _ f => Call.ofNr f.rax = .fork → NoStaleParent k
  | _ => True

/-! ## The history agrees with the task table -/

structure FamilyOk (k : Kernel) (h : Family) : Prop where
  running : OneRunning k
  old : ∀ i, (k.tasks i).state ≠ .unused → h.id i < h.next
  inj : ∀ i j, (k.tasks i).state ≠ .unused → (k.tasks j).state ≠ .unused →
    h.id i = h.id j → i = j
  creator : ∀ i p, (k.tasks i).state ≠ .unused → (k.tasks i).parent = some p →
    h.creator (h.id i) = some (h.id p)
  pid : ∀ i, (k.tasks i).state ≠ .unused → h.pid (h.id i) = (k.tasks i).pid
  exited : ∀ i, (k.tasks i).state = .zombie → h.exited (h.id i) = some (k.tasks i).exitCode
  known : ∀ report ∈ h.reports, ∀ c, c ∈ report.seen ∨ c ∈ report.gone → c < h.next
  gone : ∀ report ∈ h.reports, ∀ c ∈ report.gone, ∀ i, (k.tasks i).state ≠ .unused → h.id i ≠ c
  honest : ∀ report ∈ h.reports, report.Honest h
  once : (h.reports.flatMap WaitReport.gone).Nodup

variable {h h' : Family} {event : Event}

lemma WaitReport.Honest.mono {report : WaitReport} (hreport : report.Honest h)
    (hseen : ∀ c ∈ report.seen, h'.creator c = h.creator c ∧ h'.pid c = h.pid c)
    (hgone : ∀ c ∈ report.gone, h'.exited c = h.exited c) : report.Honest h' := by
  refine ⟨fun c hc => (hseen c hc).1.trans (hreport.1 c hc), ?_⟩
  have hresult := hreport.2
  cases hres : report.result with
  | reaped pid status =>
    rw [hres] at hresult
    obtain ⟨c, code, hc, hone, hpid, hcode, hstatus⟩ := hresult
    refine ⟨c, code, hc, hone, (hseen c hc).2.trans hpid, ?_, hstatus⟩
    rw [hgone c (by simp [hone]), hcode]
  | alive | noChild =>
    rw [hres] at hresult
    exact hresult

/-- The tasks of `k'` are tasks of `k`; `exited` knows the status of those that are dead. -/
theorem FamilyOk.kept {exited : ℕ → Option (BitVec 32)} (hinv : FamilyOk k h)
    (hone : OneRunning k')
    (hkept : ∀ i, (k'.tasks i).state ≠ .unused → (k.tasks i).state ≠ .unused ∧
      (k'.tasks i).parent = (k.tasks i).parent ∧ (k'.tasks i).pid = (k.tasks i).pid)
    (hexited : ∀ i, (k'.tasks i).state = .zombie → exited (h.id i) = some (k'.tasks i).exitCode)
    (hold : ∀ c, (∀ i, (k.tasks i).state ≠ .unused → h.id i ≠ c) → exited c = h.exited c) :
    FamilyOk k' { h with exited := exited } where
  running := hone
  old i hi := hinv.old i (hkept i hi).1
  inj i j hi hj := hinv.inj i j (hkept i hi).1 (hkept j hj).1
  creator i p hi hp := hinv.creator i p (hkept i hi).1 ((hkept i hi).2.1.symm.trans hp)
  pid i hi := (hinv.pid i (hkept i hi).1).trans (hkept i hi).2.2.symm
  exited := hexited
  known := hinv.known
  gone report hr c hc i hi := hinv.gone report hr c hc i (hkept i hi).1
  honest report hr := (hinv.honest report hr).mono (fun _ _ => ⟨rfl, rfl⟩) fun c hc =>
    hold c (hinv.gone report hr c hc)
  once := hinv.once

lemma FamilyOk.fewer (hinv : FamilyOk k h) (hone : OneRunning k')
    (hkept : ∀ i, (k'.tasks i).kin = (k.tasks i).kin ∨ (k'.tasks i).state = .unused) :
    FamilyOk k' h := by
  refine hinv.kept hone (fun i hi => ?_) (fun i hi => ?_) fun _ _ => rfl
  · have hkin := (hkept i).resolve_right hi
    exact ⟨Kin.state_eq hkin ▸ hi, Kin.parent_eq hkin, Kin.pid_eq hkin⟩
  · have hkin := (hkept i).resolve_right (by simp [hi])
    rw [hinv.exited i ((Kin.state_eq hkin).symm.trans hi), Kin.exitCode_eq hkin]

lemma FamilyOk.push {report : WaitReport} (hinv : FamilyOk k h) (hhonest : report.Honest h)
    (hknown : ∀ c, c ∈ report.seen ∨ c ∈ report.gone → c < h.next)
    (hgone : ∀ c ∈ report.gone, ∀ i, (k.tasks i).state ≠ .unused → h.id i ≠ c)
    (hnodup : report.gone.Nodup)
    (hnew : ∀ earlier ∈ h.reports, ∀ c ∈ earlier.gone, c ∉ report.gone) :
    FamilyOk k { h with reports := report :: h.reports } :=
  { hinv with
    known := forall_mem_cons.mpr ⟨hknown, hinv.known⟩
    gone := forall_mem_cons.mpr ⟨hgone, hinv.gone⟩
    honest := forall_mem_cons.mpr ⟨hhonest, hinv.honest⟩
    once := by
      rw [flatMap_cons, nodup_append]
      refine ⟨hnodup, hinv.once, fun c hc d hd => ?_⟩
      obtain ⟨earlier, hearlier, hmem⟩ := mem_flatMap.mp hd
      rintro rfl
      exact hnew earlier hearlier c hmem hc }

/-! ## Steps keep the agreement -/

lemma Family.noteBirth_none (hnew : ∀ i, allocSlot k = some i → (k'.tasks i).state = .unused) :
    Family.noteBirth k event k' h = h := by
  unfold Family.noteBirth
  split
  · rfl
  · exact if_pos (hnew _ ‹_›)

lemma Family.noteDeaths_none (hnone : ∀ i, Family.died k k' i = false) :
    Family.noteDeaths k event k' h = h := by
  have hfind (c : ℕ) : (finRange 8).find? (fun i => Family.died k k' i && h.id i = c) = none := by
    simp [hnone]
  simp only [Family.noteDeaths, hfind]

lemma Family.noteWait_none (hwait : event.waits k = none) :
    Family.noteWait k event k' h = h := by
  simp [Family.noteWait, hwait]

lemma Family.noteDeaths_exited {c : ℕ} (i)
    (hinj : ∀ j, Family.died k k' j = true → h.id j = c → j = i) :
    (Family.noteDeaths k event k' h).exited c =
      if Family.died k k' i = true ∧ h.id i = c then some (event.lastCode k' i)
      else h.exited c := by
  unfold Family.noteDeaths
  dsimp only
  split
  · rename_i j hfind
    have hj := find?_some hfind
    simp only [Bool.and_eq_true, decide_eq_true_eq] at hj
    obtain rfl := hinj j hj.1 hj.2
    rw [if_pos hj]
  · rename_i hfind
    rw [if_neg]
    rintro ⟨hdied, hid⟩
    have := find?_eq_none.mp hfind i (mem_finRange i)
    simp [hdied, hid] at this

lemma FamilyOk.settles (hinv : FamilyOk k h) (hone : OneRunning k') (hs : KinSettles k k')
    (hcode : ∀ i, (k.tasks i).state ≠ .zombie → (k'.tasks i).state = .zombie →
      (k'.tasks i).exitCode = event.lastCode k' i) :
    FamilyOk k' (Family.noteDeaths k event k' h) := by
  have hused (i : Slot) (hi : (k'.tasks i).state ≠ .unused) : (k.tasks i).state ≠ .unused :=
    mt (hs.unused i).mpr hi
  have hdied (i : Slot) (hi : Family.died k k' i = true) : (k.tasks i).state ≠ .unused := by
    simp only [Family.died, Bool.and_eq_true, decide_eq_true_eq] at hi
    exact hused i (by simp [hi.2])
  refine hinv.kept hone (fun i hi => ⟨hused i hi, hs.parent i, hs.pid i⟩) (fun i hi => ?_)
    fun c hc => ?_
  · have hi' : (k.tasks i).state ≠ .unused := hused i (by simp [hi])
    refine (Family.noteDeaths_exited i fun j hj hid =>
      hinv.inj j i (hdied j hj) hi' hid).trans ?_
    by_cases hz : (k.tasks i).state = .zombie
    · rw [if_neg (by simp [Family.died, hz]), (hs.zombie i hz).2]
      exact hinv.exited i hz
    · rw [if_pos ⟨by simp [Family.died, hz, hi], rfl⟩, hcode i hz hi]
  · refine (Family.noteDeaths_exited 0 fun j hj hid => absurd hid (hc j (hdied j hj))).trans ?_
    exact if_neg fun h0 => hc 0 (hdied 0 h0.1) h0.2

lemma FamilyOk.creates (hinv : FamilyOk k h) (hone : OneRunning k')
    (hcre : KinCreates k k' i parent) (hfresh : NoStaleParent k)
    (hparent : ∀ t, parent = some t → t ≠ i ∧ h.forker k event = some (h.id t)) :
    FamilyOk k' (Family.noteBirth k event k' h) := by
  obtain ⟨code, hself⟩ := hcre.self
  have hready : (k'.tasks i).state = .ready := congrArg Kin.state hself
  have hkin (j : Slot) (hj : j ≠ i) := hcre.other j hj
  have hstate (j : Slot) (hj : j ≠ i) : (k'.tasks j).state = (k.tasks j).state :=
    Kin.state_eq (hkin j hj)
  have hused (j : Slot) (hj : j ≠ i) (hused : (k'.tasks j).state ≠ .unused) :
      (k.tasks j).state ≠ .unused := by rwa [hstate j hj] at hused
  have hlt (j : Slot) (hj : j ≠ i) (hu : (k'.tasks j).state ≠ .unused) : h.id j < h.next :=
    hinv.old j (hused j hj hu)
  simp only [Family.noteBirth, hcre.alloc, hready, reduceCtorEq, ↓reduceIte]
  refine
    { running := hone
      old := fun j hu => ?_
      inj := fun j j' hu hu' hid => ?_
      creator := fun j p hu hp => ?_
      pid := fun j hu => ?_
      exited := fun j hz => ?_
      known := fun report hr c hc => (hinv.known report hr c hc).trans (Nat.lt_succ_self _)
      gone := fun report hr c hc j hu => ?_
      honest := fun report hr => (hinv.honest report hr).mono (fun c hc => ?_) fun _ _ => rfl
      once := hinv.once }
  · by_cases hj : j = i
    · simp [hj]
    · simpa [hj] using (hlt j hj hu).trans (Nat.lt_succ_self _)
  · by_cases hj : j = i <;> by_cases hj' : j' = i
    · rw [hj, hj']
    · have := hlt j' hj' hu'
      simp [hj, hj'] at hid
      omega
    · have := hlt j hj hu
      simp [hj, hj'] at hid
      omega
    · simp only [update_of_ne hj, update_of_ne hj'] at hid
      exact hinv.inj j j' (hused j hj hu) (hused j' hj' hu') hid
  · by_cases hj : j = i
    · have hpar : parent = some p := by
        rw [hj] at hp
        exact (congrArg Kin.parent hself).symm.trans hp
      obtain ⟨hne, hfork⟩ := hparent p hpar
      simp [hj, hfork, hne]
    · have hp' : (k.tasks j).parent = some p := (Kin.parent_eq (hkin j hj)).symm.trans hp
      have hne : p ≠ i := by
        rintro rfl
        exact hfresh p j hcre.alloc (hused j hj hu) hp'
      simp only [update_of_ne hj, update_of_ne (hlt j hj hu).ne, update_of_ne hne]
      exact hinv.creator j p (hused j hj hu) hp'
  · by_cases hj : j = i
    · simp only [hj, update_self]
      exact (congrArg Kin.pid hself).symm
    · simp only [update_of_ne hj, update_of_ne (hlt j hj hu).ne]
      exact (hinv.pid j (hused j hj hu)).trans (Kin.pid_eq (hkin j hj)).symm
  · have hj : j ≠ i := by
      rintro rfl
      simp [hready] at hz
    simp only [update_of_ne hj]
    rw [hinv.exited j ((hstate j hj).symm.trans hz), Kin.exitCode_eq (hkin j hj)]
  · by_cases hj : j = i
    · have := hinv.known report hr c (.inr hc)
      simp only [hj, update_self]
      omega
    · simp only [update_of_ne hj]
      exact hinv.gone report hr c hc j (hused j hj hu)
  · have := (hinv.known report hr c (.inl hc)).ne
    simp [this]

lemma isWanted_child (hwanted : isWanted k t want i = true) :
    (k.tasks i).state ≠ .unused ∧ (k.tasks i).parent = some t := by
  simp only [isWanted, Bool.and_eq_true, decide_eq_true_eq] at hwanted
  exact hwanted.1

lemma taskWait_alive (hcur : k.current = some t) (halive : (taskWait k pid).1 = .alive) :
    ∃ i, isWanted k t (waitWant pid) i = true := by
  simp only [taskWait, hcur] at halive
  split at halive
  · cases halive
  · split at halive
    · rename_i hany
      obtain ⟨i, -, hi⟩ := any_eq_true.mp hany
      exact ⟨i, hi⟩
    · cases halive

lemma Event.waits_current (hwait : event.waits k = some (t, pid)) :
    k.current = some t := by
  cases event with
  | enter ext f =>
    cases hcur : k.current with
    | none => simp [Event.waits, hcur] at hwait
    | some n =>
      simp only [Event.waits, hcur, ite_none_right_eq_some, some.injEq, Prod.mk.injEq] at hwait
      rw [hwait.2.1]
  | create | exec | start | leave => cases hwait

lemma FamilyOk.seen {c : ℕ} (hinv : FamilyOk k h)
    (hc : c ∈ ((finRange 8).filter (isWanted k t want)).map h.id) :
    h.creator c = some (h.id t) ∧ c < h.next := by
  obtain ⟨i, hi, rfl⟩ := mem_map.mp hc
  obtain ⟨hused, hparent⟩ := isWanted_child (mem_filter.mp hi).2
  exact ⟨hinv.creator i t hused hparent, hinv.old i hused⟩

lemma mem_seen (hwanted : isWanted k t want i = true) :
    h.id i ∈ ((finRange 8).filter (isWanted k t want)).map h.id :=
  mem_map.mpr ⟨i, mem_filter.mpr ⟨mem_finRange i, hwanted⟩, rfl⟩

lemma FamilyOk.wait (hinv : FamilyOk k h) (hone : OneRunning k')
    (hsame : SameKin k k') (hwait : event.waits k = some (t, pid))
    (hresult : ∀ p status, (taskWait k pid).1 ≠ .reaped p status) :
    FamilyOk k' (Family.noteWait k event k' h) := by
  have hgone : ((finRange 8).filter (Family.vanished k k')).map h.id = [] := by
    rw [map_eq_nil_iff, filter_eq_nil_iff]
    intro i _ hi
    simp only [Family.vanished, hsame.state, Bool.and_eq_true, decide_eq_true_eq] at hi
    simp [hi.1] at hi
  simp only [Family.noteWait, hwait, hgone]
  refine (hinv.fewer hone fun i => .inl (hsame i)).push ⟨fun c hc => (hinv.seen hc).1, ?_⟩
    (fun c hc => ?_) (by simp) (by simp) (by simp)
  · cases hres : (taskWait k pid).1 with
    | reaped p status => exact absurd hres (hresult p status)
    | alive =>
      obtain ⟨i, hi⟩ := taskWait_alive (Event.waits_current hwait) hres
      exact ⟨rfl, ne_nil_of_mem (mem_seen hi)⟩
    | noChild => rfl
  · rcases hc with hc | hc
    · exact (hinv.seen hc).2
    · simp at hc

lemma FamilyOk.reap (hinv : FamilyOk k h) (hone : OneRunning k')
    (hreap : KinReaps k k' i) (hwait : event.waits k = some (t, pid))
    (hwanted : isWanted k t (waitWant pid) i = true)
    (hresult : (taskWait k pid).1 =
      .reaped (k.tasks i).pid (((k.tasks i).exitCode &&& 0xFF#32) <<< 8)) :
    FamilyOk k' (Family.noteWait k event k' h) := by
  have hkept (j : Slot) : (k'.tasks j).kin = (k.tasks j).kin ∨ (k'.tasks j).state = .unused := by
    by_cases hj : j = i
    · exact .inr (hj ▸ hreap.self)
    · exact .inl (hreap.other j hj)
  have hused : (k.tasks i).state ≠ .unused := by simp [hreap.zombie]
  have hvanished (j : Slot) : Family.vanished k k' j = decide (j = i) := by
    by_cases hj : j = i
    · simp [Family.vanished, hj, hreap.zombie, hreap.self]
    · by_cases hz : (k.tasks j).state = .zombie <;>
        simp [Family.vanished, hj, Kin.state_eq (hreap.other j hj), hz]
  have hgone : ((finRange 8).filter (Family.vanished k k')).map h.id = [h.id i] := by
    have hfilter : (finRange 8).filter (Family.vanished k k') = [i] := by
      rw [funext hvanished]
      exact (by decide : ∀ i : Fin 8, (finRange 8).filter (fun j => j = i) = [i]) i
    rw [hfilter, map_singleton]
  simp only [Family.noteWait, hwait, hgone]
  refine (hinv.fewer hone hkept).push ⟨fun c hc => (hinv.seen hc).1, ?_⟩ (fun c hc => ?_)
    (fun c hc j hj => ?_) (nodup_singleton _) fun earlier hr c hc hmem => ?_
  · dsimp only
    rw [hresult]
    exact ⟨h.id i, (k.tasks i).exitCode, mem_seen hwanted, rfl, hinv.pid i hused,
      hinv.exited i hreap.zombie, rfl⟩
  · rcases hc with hc | hc
    · exact (hinv.seen hc).2
    · rw [mem_singleton.mp hc]
      exact hinv.old i hused
  · -- the numbers of the other slots are different
    rw [mem_singleton.mp hc]
    intro hid
    have hne : j ≠ i := by
      rintro rfl
      exact hj hreap.self
    rw [Kin.state_eq (hreap.other j hne)] at hj
    exact hne (hinv.inj j i hj hused hid)
  · exact hinv.gone earlier hr c hc i hused (mem_singleton.mp hmem).symm

lemma Family.note_quiet (hnew : ∀ i, allocSlot k = some i → (k'.tasks i).state = .unused)
    (hnone : ∀ i, Family.died k k' i = false) :
    Family.note k event k' h = Family.noteWait k event k' h := by
  rw [Family.note, Family.noteBirth_none hnew, Family.noteDeaths_none hnone]

lemma Family.died_of_state (hstate : (k'.tasks i).state = (k.tasks i).state) :
    Family.died k k' i = false := by
  by_cases hz : (k.tasks i).state = .zombie <;> simp [Family.died, hstate, hz]

lemma Family.note_created (hcre : KinCreates k k' i parent)
    (hwait : event.waits k = none) : Family.note k event k' h = Family.noteBirth k event k' h := by
  obtain ⟨code, hself⟩ := hcre.self
  have hready : (k'.tasks i).state = .ready := congrArg Kin.state hself
  rw [Family.note, Family.noteDeaths_none, Family.noteWait_none hwait]
  intro j
  by_cases hj : j = i
  · simp [Family.died, hj, hready]
  · exact Family.died_of_state (Kin.state_eq (hcre.other j hj))

lemma FamilyOk.step (hinv : FamilyOk k h) (hallowed : FreshSlots k event)
    (hstep : k.step event = some k') : FamilyOk k' (Family.note k event k' h) := by
  have hone : OneRunning k' := Kernel.step_oneRunning hinv.running hstep
  cases Kernel.step_kin hinv.running hstep with
  | settles hwait hs hcode =>
    have hnew (i : Slot) (hi : allocSlot k = some i) : (k'.tasks i).state = .unused :=
      (hs.unused i).mpr (allocSlot_unused hi)
    rw [Family.note, Family.noteBirth_none hnew, Family.noteWait_none hwait]
    exact hinv.settles hone hs hcode
  | abandons hwait hab =>
    have hstate (i : Slot) : (k'.tasks i).state = (k.tasks i).state := by
      rcases hab i with heq | ⟨hunused', hunused⟩
      · exact Kin.state_eq heq
      · rw [hunused, hunused']
    rw [Family.note_quiet (fun i hi => (hstate i).trans (allocSlot_unused hi))
      fun i => Family.died_of_state (hstate i), Family.noteWait_none hwait]
    exact hinv.fewer hone fun i => (hab i).imp_right And.left
  | create hcre =>
    rw [Family.note_created hcre rfl]
    exact hinv.creates hone hcre hallowed (by simp)
  | exec hcre =>
    rw [Family.note_created hcre rfl]
    exact hinv.creates hone hcre hallowed (by simp)
  | @fork ext f t i hcall hcur hcre =>
    rw [Family.note_created hcre (Event.waits_other (by simp [hcall]))]
    refine hinv.creates hone hcre (hallowed hcall) fun p hp => ?_
    obtain rfl := some.inj hp
    refine ⟨?_, by simp [Family.forker, hcur]⟩
    rintro rfl
    have hrunning := (hinv.running t).mpr hcur
    simp [allocSlot_unused hcre.alloc] at hrunning
  | wait hwait hresult hsame =>
    rw [Family.note_quiet (fun i hi => (hsame.state i).trans (allocSlot_unused hi))
      fun i => Family.died_of_state (hsame.state i)]
    exact hinv.wait hone hsame hwait hresult
  | @reap _ t i pid hwait hwanted hresult hreap =>
    have hkept (j : Slot) (hj : j ≠ i) := Kin.state_eq (hreap.other j hj)
    rw [Family.note_quiet (fun j hj => ?_) fun j => ?_]
    · exact hinv.reap hone hreap hwait hwanted hresult
    · have hunused := allocSlot_unused hj
      refine (hkept j ?_).trans hunused
      rintro rfl
      simp [hreap.zombie] at hunused
    · by_cases hj : j = i
      · simp [Family.died, hj, hreap.self]
      · exact Family.died_of_state (hkept j hj)

lemma familyOk_init (k₀ : Kernel) : FamilyOk (taskInit k₀) Family.empty := by
  have hunused (i : Slot) : ((taskInit k₀).tasks i).state = .unused := rfl
  exact
    { running := oneRunning_init k₀
      old := fun i hi => absurd (hunused i) hi
      inj := fun i _ hi => absurd (hunused i) hi
      creator := fun i _ hi => absurd (hunused i) hi
      pid := fun i hi => absurd (hunused i) hi
      exited := fun i hi => by simp [hunused] at hi
      known := by simp [Family.empty]
      gone := by simp [Family.empty]
      honest := by simp [Family.empty]
      once := by simp [Family.empty] }

/-- If no slot is given away while a task has its parent there, `task_wait` sees and reaps only
tasks that the caller has forked, reports the status they exited with, and reaps none of them
twice. -/
theorem taskWait_reports_own_children {k₀ k : Kernel} {h : Family}
    (hreach : Reaches Kernel.step Family.note FreshSlots (taskInit k₀) Family.empty k h) :
    (∀ report ∈ h.reports, report.Honest h) ∧ (h.reports.flatMap WaitReport.gone).Nodup := by
  have hinv : FamilyOk k h := hreach.invariant FamilyOk (familyOk_init k₀)
    fun _ _ _ _ hinv hallowed hstep => hinv.step hallowed hstep
  exact ⟨hinv.honest, hinv.once⟩

/-! ## Two runs -/

def exitFrame : Regs := callFrame 60#64 5#64 0#64

def yieldFrame : Regs := callFrame 24#64 0#64 0#64

def waitFrame : Regs := callFrame 61#64 (-1#64) 0#64

def call (f : Regs) : Event := .enter quietExternal f

lemma freshSlots_other (hcall : Call.ofNr f.rax ≠ .fork) (k) :
    FreshSlots k (call f) := fun hfork => absurd hfork hcall

def startedTask : Kernel := (taskStartUser oneTask).getD oneTask

def childRuns : Kernel :=
  taskYield (saveFrame yieldFrame 0 (startedTask.forkReturned forkFrame 0 1 4 5))

lemma startedTask_fork :
    startedTask.step (call forkFrame) = some (startedTask.forkReturned forkFrame 0 1 4 5) :=
  step_fork_blank _ (by decide) rfl rfl (by decide) (by decide) (by decide) (by decide)
    (by decide)

lemma childRuns_exit :
    childRuns.step (call exitFrame) = some (childRuns.exitReturned exitFrame 1 0) :=
  step_exit_blank _ (by decide) rfl (by decide) (by decide) rfl (by decide) (by decide)

theorem parent_reaps_child : ∃ k h,
    Reaches Kernel.step Family.note FreshSlots (taskInit bootKernel) Family.empty k h ∧
      h.reports.map WaitReport.result = [.reaped 2#32 0x500#32] ∧
      (∀ report ∈ h.reports, report.Honest h) ∧
      (h.reports.flatMap WaitReport.gone).Nodup := by
  have hboot : NoStaleParent bootKernel := fun i j _ hj => absurd rfl hj
  have hcreated := (Reaches.start : Reaches Kernel.step Family.note FreshSlots (taskInit bootKernel)
    Family.empty _ _).next (.create userBase userStackTop) hboot bootKernel_create
  have hstarted := hcreated.next .start trivial (show _ = some startedTask from rfl)
  have hforked := hstarted.next (call forkFrame)
    (fun _ => by unfold NoStaleParent; decide) startedTask_fork
  have hruns := hforked.next (call yieldFrame) (freshSlots_other (by decide) _)
    (show _ = some childRuns from rfl)
  have hexited := hruns.next (call exitFrame) (freshSlots_other (by decide) _) childRuns_exit
  have hreach := hexited.next (call waitFrame) (freshSlots_other (by decide) _) rfl
  exact ⟨_, _, hreach, by decide, taskWait_reports_own_children hreach⟩

def grandchildForked : Kernel := childRuns.forkReturned forkFrame 1 2 6 7

def childExited : Kernel :=
  taskYield (saveFrame yieldFrame 2 (grandchildForked.exitReturned exitFrame 1 2))

def childReaped : Kernel :=
  let result := sysWait4 (-1#64) (saveFrame waitFrame 0 childExited)
  saveResult 0 result.1 result.2

lemma childRuns_fork : childRuns.step (call forkFrame) = some grandchildForked :=
  step_fork_blank _ (by decide) rfl rfl (by decide) (by decide) (by decide) (by decide)
    (by decide)

lemma grandchildForked_exit :
    grandchildForked.step (call exitFrame) =
      some (grandchildForked.exitReturned exitFrame 1 2) :=
  step_exit_blank _ (by decide) rfl (by decide) (by decide) rfl (by decide) (by decide)

lemma childExited_wait : childExited.step (call waitFrame) = some childReaped := rfl

lemma childReaped_fork :
    childReaped.step (call forkFrame) = some (childReaped.forkReturned forkFrame 0 1 4 5) :=
  step_fork_blank _ (by decide) rfl rfl (by decide) (by decide) (by decide) (by decide)
    (by decide)

/-- The first task forks again, into the slot of its dead child; the new child waits and
finds the grandchild. -/
theorem wait_sees_child_of_dead_task : ∃ k h,
    Reaches Kernel.step Family.note (fun _ _ => True) (taskInit bootKernel) Family.empty k h ∧
      ∃ report ∈ h.reports, ¬ report.Honest h := by
  have hstarted := (oneTask_reached Family.note (fun _ _ => True) Family.empty
    fun _ => trivial).next .start trivial (show _ = some startedTask from rfl)
  have hruns := (hstarted.next (call forkFrame) trivial startedTask_fork).next (call yieldFrame)
    trivial (show _ = some childRuns from rfl)
  have hexited := (hruns.next (call forkFrame) trivial childRuns_fork).next (call exitFrame)
    trivial grandchildForked_exit
  have hreaped := (hexited.next (call yieldFrame) trivial
    (show _ = some childExited from rfl)).next (call waitFrame) trivial childExited_wait
  have hreach := ((hreaped.next (call forkFrame) trivial childReaped_fork).next
    (call yieldFrame) trivial rfl).next (call waitFrame) trivial rfl
  refine ⟨_, _, hreach, _, mem_cons_self, fun hhonest => ?_⟩
  have hcreator := hhonest.1 2 (by decide)
  revert hcreator
  decide

end HelixOS
