import HelixOS.EmptySpaces

/-!
# Registers across switches

A task that enters a system call expects to continue with the registers it entered with and
the result of its handler in `rax`; the child of a `fork` expects those of its parent with
`rax = 0`.  The history of a run records these expectations.

The result is written to the saved registers only if the caller is still current.
-/

namespace HelixOS

open TrackedRuns Function Option

/-- The registers each task expects to continue with. -/
abbrev Expected := Slot → Option Regs

variable {h : Expected} {k k' k₁ : Kernel} {i j n t : Slot}

/-- A new program starts with registers of its own. -/
def callerExpects (ext : External) (f : Regs) (t : Slot) (k : Kernel) : Option Regs :=
  if Call.ofNr f.rax = .execve ∧ handlerResult ext f t k = 0#64 then none
  else some { f with rax := handlerResult ext f t k }

def expect (k : Kernel) (event : Event) (_ : Kernel) (h : Expected) : Expected :=
  match event with
  | .create _ _ | .exec _ _ => noteNewSlot h k none
  | .enter ext f =>
    match k.current with
    | none => h
    | some t =>
      update
        (if Call.ofNr f.rax = .fork then noteNewSlot h k (some { f with rax := 0#64 }) else h)
        t (callerExpects ext f t k)
  | .start | .leave _ => h

/-- No `yield` while another task is ready. -/
def YieldsAlone (k : Kernel) : Event → Prop
  | .enter _ f => Call.ofNr f.rax = .yield → ∀ n, (k.tasks n).state ≠ .ready
  | _ => True

structure HoldsRegs (k : Kernel) (h : Expected) : Prop where
  running : OneRunning k
  regs : ∀ i, Runnable k i → ∀ r, h i = some r → (k.tasks i).regs = r

section

variable (hinv : HoldsRegs k h)
include hinv

lemma HoldsRegs.of_creates {task : Task} (hcre : Creates k k' i task) :
    HoldsRegs k' (noteNewSlot h k none) := by
  refine ⟨hcre.oneRunning hinv.running, fun j hrun r hr => ?_⟩
  by_cases hj : j = i
  · rw [hj, noteNewSlot_self hcre.alloc] at hr
    cases hr
  · have hrun' := (hcre.runnable_other hj).mp hrun
    rw [noteNewSlot_other (hrun'.ne_newSlot hinv.running)] at hr
    rw [hcre.other j hj]
    exact hinv.regs j hrun' r hr

lemma HoldsRegs.of_abandons (hab : Abandons k k') : HoldsRegs k' (noteNewSlot h k none) := by
  refine ⟨hinv.running.congr hab.current hab.state, fun j hrun r hr => ?_⟩
  obtain ⟨hrun', heq⟩ := hab.tasks_eq hinv.running hrun
  rw [noteNewSlot_other (hrun'.ne_newSlot hinv.running)] at hr
  rw [heq]
  exact hinv.regs j hrun' r hr

lemma HoldsRegs.of_settles (hs : Settles k k') : HoldsRegs k' h := by
  refine ⟨hs.running hinv.running, fun j hrun r hr => ?_⟩
  rw [hs.regs j]
  exact hinv.regs j (hs.runnable hrun) r hr

lemma HoldsRegs.of_start (hcur : k.current = none) (hstart : taskStartUser k = some k') :
    HoldsRegs k' h := by
  have hstep : k.step .start = some k' := by simp [Kernel.step, hcur, hstart]
  refine ⟨Kernel.step_oneRunning hinv.running hstep, fun j hrun r hr => ?_⟩
  obtain ⟨n, hready, hcur', -, hcore, hother⟩ := taskStartUser_cases hstart
  by_cases hj : j = n
  · subst hj
    rw [show (k'.tasks j).regs = (k.tasks j).regs from congrArg TaskCore.regs hcore]
    exact hinv.regs j (.inl hready) r hr
  · have hrun' : Runnable k j := by
      rcases hrun with hrun | hrun
      · exact .inl (by rwa [hother j hj] at hrun)
      · rw [hcur', some.injEq] at hrun
        exact absurd hrun.symm hj
    rw [hother j hj]
    exact hinv.regs j hrun' r hr

lemma HoldsRegs.of_enter {ext : External} {f : Regs} (hallowed : YieldsAlone k (.enter ext f))
    (henter : syscallEnter ext f k = some k') : HoldsRegs k' (expect k (.enter ext f) k' h) := by
  have hone' := syscallEnter_oneRunning hinv.running henter
  rcases syscallEnter_cases henter with ⟨hcur, rfl⟩ | ⟨t, ret, k₁, hcur, hdisp, rfl⟩
  · simpa [expect, hcur] using hinv
  · have hret : handlerResult ext f t k = ret := by simp [handlerResult, hdisp]
    have hhandled := dispatch_handled hdisp
    have hsaved : OneRunning (saveFrame f t k) :=
      hinv.running.congr rfl (saveFrame_state f t k)
    have hself : ((saveFrame f t k).tasks t).regs = f := by simp [saveFrame]
    refine ⟨hone', fun j hrun r hr => ?_⟩
    have hrun₁ : Runnable k₁ j := (saveResult_runnable t ret k₁ j).mp hrun
    simp only [expect, hcur] at hr
    by_cases hj : j = t
    · subst hj
      rw [update_self, callerExpects, hret] at hr
      rcases hhandled.caller hsaved hcur hrun₁ with ⟨hcur₁, hregs⟩ | ⟨hcall, hzero, -⟩ |
        ⟨hcall, n, hready⟩
      · -- the caller goes on with its registers and the result
        split_ifs at hr
        obtain rfl := some.inj hr
        simp [saveResult, hcur₁, hregs, hself]
      · simp [hcall, hzero] at hr
      · rw [saveFrame_state] at hready
        exact absurd hready (hallowed hcall n)
    · have hregs₁ : ((saveResult t ret k₁).tasks j).regs = (k₁.tasks j).regs := by
        unfold saveResult
        split
        · rw [Kernel.modify_other _ hj]
        · rfl
      rw [update_of_ne hj] at hr
      rw [hregs₁]
      rcases hhandled.other hsaved hj hrun₁ with ⟨hrun₀, hregs⟩ | ⟨hcall, halloc, hregs⟩
      · have hrun₀' := (saveFrame_runnable f t k j).mp hrun₀
        have hr' : h j = some r := by
          split_ifs at hr
          · rwa [noteNewSlot_other (hrun₀'.ne_newSlot hinv.running)] at hr
          · exact hr
        rw [hregs, saveFrame, Kernel.modify_other _ hj]
        exact hinv.regs j hrun₀' r hr'
      · rw [saveFrame_allocSlot] at halloc
        rw [if_pos hcall, noteNewSlot_self halloc, some.injEq] at hr
        rw [hregs, hself, hr]

lemma HoldsRegs.step {event : Event} (hallowed : YieldsAlone k event)
    (hstep : k.step event = some k') : HoldsRegs k' (expect k event k' h) := by
  cases event with
  | create | exec =>
    obtain ⟨-, hab | ⟨i, task, hcre, -⟩⟩ := Kernel.step_makes rfl hstep
    · exact hinv.of_abandons hab
    · exact hinv.of_creates hcre
  | start =>
    simp only [Kernel.step, ite_none_right_eq_some] at hstep
    exact hinv.of_start hstep.1 hstep.2
  | enter ext f => exact hinv.of_enter hallowed hstep
  | leave preempt =>
    obtain rfl := some.inj hstep
    exact hinv.of_settles (syscallLeave_settles hinv.running preempt)

end

lemma holdsRegs_init (k : Kernel) : HoldsRegs (taskInit k) fun _ => none := by
  refine ⟨oneRunning_init k, fun i _ r hr => ?_⟩
  cases hr

/-- If no task yields while another one is ready, then every task that returns to user mode
finds the registers it expects. -/
theorem resumes_with_expected {k₀ k : Kernel} {h : Expected}
    (hreach : Reaches Kernel.step expect YieldsAlone (taskInit k₀) (fun _ => none) k h)
    (preempt : Bool) {n : Slot} (hcur : (syscallLeave preempt k).current = some n) {r : Regs}
    (hexpect : h n = some r) :
    userFrame (syscallLeave preempt k) = some { r with rflags := r.rflags ||| 0x200#64 } := by
  have hinv : HoldsRegs k h := hreach.invariant HoldsRegs (holdsRegs_init k₀)
    fun _ _ _ _ hinv hallowed hstep => hinv.step hallowed hstep
  have hleft := hinv.of_settles (syscallLeave_settles hinv.running preempt)
  have hrunning := (hleft.running n).mpr hcur
  simp [userFrame, hcur, hrunning, hleft.regs n (.inr hcur) r hexpect]

def getpidRun : List Event :=
  [.start, .enter quietExternal (callFrame 39#64 0#64 0#64), .leave true,
    .enter quietExternal (callFrame 39#64 0#64 0#64)]

/-- The first task is preempted after its call, and resumed after the call of the second one. -/
theorem resumes_after_getpid :
    ∃ k h, run Kernel.step expect getpidRun twoTasks (fun _ => none) = some (k, h) ∧
      k.current = some 1 ∧ (syscallLeave true k).current = some 0 ∧
      h 0 = some { callFrame 39#64 0#64 0#64 with rax := 7#64 } ∧
      userFrame (syscallLeave true k) =
        some { callFrame 39#64 0#64 0#64 with rax := 7#64, rflags := 0x200#64 } := by
  have hall : ∀ e ∈ getpidRun, ∀ k, YieldsAlone k e := by
    simp only [getpidRun, List.forall_mem_cons]
    exact ⟨fun _ => trivial, fun _ hcall => absurd hcall (by decide), fun _ => trivial,
      fun _ hcall => absurd hcall (by decide), by simp⟩
  have hreach := (twoTasks_reached expect YieldsAlone (fun _ => none) fun _ => trivial).run
    getpidRun hall rfl
  exact ⟨_, _, rfl, rfl, rfl, rfl, resumes_with_expected hreach true rfl rfl⟩

def yieldRun : List Event :=
  [.start, .enter quietExternal (callFrame 24#64 0#64 0#64), .leave false,
    .enter quietExternal (callFrame 24#64 0#64 0#64)]

/-- The first task is resumed with the number of its call instead of the result 0. -/
theorem yield_loses_result : ∃ k h,
    Reaches Kernel.step expect (fun _ _ => True) (taskInit bootKernel) (fun _ => none) k h ∧
      (syscallLeave false k).current = some 0 ∧
      h 0 = some { callFrame 24#64 0#64 0#64 with rax := 0#64 } ∧
      userFrame (syscallLeave false k) =
        some { callFrame 24#64 0#64 0#64 with rax := 24#64, rflags := 0x200#64 } :=
  ⟨_, _, (twoTasks_reached expect (fun _ _ => True) (fun _ => none) fun _ => trivial).run
    yieldRun (fun _ _ _ => trivial) rfl, rfl, rfl, rfl⟩

end HelixOS
