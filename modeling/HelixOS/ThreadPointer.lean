import HelixOS.EmptySpaces

/-!
# The thread pointer

The FS base is a register of the processor that `arch_prctl` writes and that no switch saves
or loads.  The history of a run records the value each task would have on its own: the last
one it set since its program started, or its parent's at the `fork`.
-/

namespace HelixOS

open TrackedRuns Function Option

/-- The FS base each task would have on its own. -/
abbrev OwnBase := Slot → Word

variable {f : Regs} {ext : External} {h : OwnBase} {k k' : Kernel} {i j t : Slot}

def SetsFs (f : Regs) : Prop := Call.ofNr f.rax = .archPrctl ∧ f.rdi = archSetFs

instance (f : Regs) : Decidable (SetsFs f) := inferInstanceAs (Decidable (_ ∧ _))

def ownBase (k : Kernel) (event : Event) (_ : Kernel) (h : OwnBase) : OwnBase :=
  match event with
  | .create _ _ | .exec _ _ => noteNewSlot h k 0#64
  | .enter ext f =>
    match k.current with
    | none => h
    | some t =>
      if SetsFs f then update h t f.rsi
      else if Call.ofNr f.rax = .fork then noteNewSlot h k (h t)
      else if Call.ofNr f.rax = .execve ∧ handlerResult ext f t k = 0#64 then
        update h t 0#64
      else h
  | .start | .leave _ => h

/-- A task sets another FS base only while no other task is ready, and starts a new program
only while the FS base is zero. -/
def KeepsBase (k : Kernel) : Event → Prop
  | .enter _ f =>
    (SetsFs f → f.rsi = k.fsBase ∨ ∀ n, (k.tasks n).state ≠ .ready) ∧
      (Call.ofNr f.rax = .execve → k.fsBase = 0#64)
  | _ => True

/-- The FS base for which the ready tasks wait: before the start it is still to be
cleared. -/
def Kernel.commonBase (k : Kernel) : Word :=
  match k.current with
  | none => 0#64
  | some _ => k.fsBase

structure SharesBase (k : Kernel) (h : OwnBase) : Prop where
  running : OneRunning k
  base : ∀ i, Runnable k i → h i = k.commonBase

lemma SharesBase.of_settles (hinv : SharesBase k h) (hs : Settles k k') :
    SharesBase k' h := by
  refine ⟨hs.running hinv.running, fun j hrun => ?_⟩
  rw [hinv.base j (hs.runnable hrun)]
  unfold Kernel.commonBase
  rw [hs.fsBase]
  cases hcur : k.current with
  | none => rw [hs.stopped hcur]
  | some t =>
    cases hcur' : k'.current with
    | none =>
      -- then nothing is ready, and `j` cannot run
      rcases hs.idle hcur' with hnone | hidle
      · simp [hcur] at hnone
      · rcases hrun with hready | hrun
        · exact absurd hready (hidle j)
        · simp [hcur'] at hrun
    | some n => rfl

lemma SharesBase.of_creates {task : Task} (hinv : SharesBase k h)
    (hcre : Creates k k' i task) {a : Word} (ha : a = k.commonBase) :
    SharesBase k' (noteNewSlot h k a) := by
  have hbase : k'.commonBase = k.commonBase := by
    rw [Kernel.commonBase, Kernel.commonBase, hcre.current, hcre.fsBase]
  refine ⟨hcre.oneRunning hinv.running, fun j hrun => ?_⟩
  rw [hbase]
  by_cases hj : j = i
  · rw [hj, noteNewSlot_self hcre.alloc, ha]
  · have hrun' := (hcre.runnable_other hj).mp hrun
    rw [noteNewSlot_other (hrun'.ne_newSlot hinv.running)]
    exact hinv.base j hrun'

lemma SharesBase.of_abandons (hinv : SharesBase k h) (hab : Abandons k k')
    (a : Word) : SharesBase k' (noteNewSlot h k a) := by
  have hbase : k'.commonBase = k.commonBase := by
    rw [Kernel.commonBase, Kernel.commonBase, hab.current, hab.fsBase]
  refine ⟨hinv.running.congr hab.current hab.state, fun j hrun => ?_⟩
  obtain ⟨hrun', -⟩ := hab.tasks_eq hinv.running hrun
  rw [hbase, noteNewSlot_other (hrun'.ne_newSlot hinv.running)]
  exact hinv.base j hrun'

lemma SharesBase.of_start (hinv : SharesBase k h) (hcur : k.current = none)
    (hstart : taskStartUser k = some k') : SharesBase k' h := by
  have hstep : k.step .start = some k' := by simp [Kernel.step, hcur, hstart]
  refine ⟨Kernel.step_oneRunning hinv.running hstep, fun j hrun => ?_⟩
  obtain ⟨n, hready, hcur', hfs, hcore, hother⟩ := taskStartUser_cases hstart
  have hrun' : Runnable k j := by
    by_cases hj : j = n
    · exact .inl (hj ▸ hready)
    · rcases hrun with hrun | hrun
      · exact .inl (by rwa [hother j hj] at hrun)
      · rw [hcur', some.injEq] at hrun
        exact absurd hrun.symm hj
  rw [hinv.base j hrun', Kernel.commonBase, Kernel.commonBase, hcur, hcur']
  exact hfs.symm

lemma dispatch_setsFs (hset : SetsFs f) (ext) (t) (k) :
    dispatch ext f t k = some (0#64, { k with fsBase := f.rsi }) := by
  simp [dispatch, hset.1, sysArchPrctl, hset.2]

lemma SharesBase.of_dispatch {ret : Word}
    {k₁ : Kernel} (hinv : SharesBase k h) (hallowed : KeepsBase k (.enter ext f))
    (hcur : k.current = some t) (hdisp : dispatch ext f t (saveFrame f t k) = some (ret, k₁))
    (hrun : Runnable k₁ j) : ownBase k (.enter ext f) k' h j = k₁.fsBase := by
  have hret : handlerResult ext f t k = ret := by simp [handlerResult, hdisp]
  have hhandled := dispatch_handled hdisp
  have hsaved : OneRunning (saveFrame f t k) := hinv.running.congr rfl (saveFrame_state f t k)
  have hown (i : Slot) (hi : Runnable k i) : h i = k.fsBase := by
    rw [hinv.base i hi, Kernel.commonBase, hcur]
  have hcaller := hown t (.inr hcur)
  simp only [ownBase, hcur, hret]
  by_cases hset : SetsFs f
  · rw [dispatch_setsFs hset, some.injEq, Prod.mk.injEq] at hdisp
    rw [if_pos hset, ← hdisp.2]
    by_cases hj : j = t
    · simp [hj]
    · rw [update_of_ne hj]
      have hrun' : Runnable k j := by
        rw [← hdisp.2] at hrun
        exact (saveFrame_runnable f t k j).mp hrun
      rcases hallowed.1 hset with hsame | halone
      · rw [hown j hrun', hsame]
      · rcases hrun' with hready | hrun'
        · exact absurd hready (halone j)
        · exact absurd (some.inj (hrun'.symm.trans hcur)) hj
  · have hfs : k₁.fsBase = k.fsBase := by
      rcases hhandled.fsBase hsaved with hfs | ⟨hset', -⟩
      · exact hfs
      · exact absurd hset' hset
    rw [if_neg hset, hfs]
    by_cases hj : j = t
    · subst hj
      have hnew : allocSlot k ≠ some j := Runnable.ne_newSlot hinv.running (.inr hcur)
      split_ifs with hfork hexec
      · rw [noteNewSlot_other hnew, hcaller]
      · rw [update_self, hallowed.2 hexec.1]
      · exact hcaller
    · rcases hhandled.other hsaved hj hrun with ⟨hrun', -⟩ | ⟨hfork, halloc, -⟩
      · have hrun' := (saveFrame_runnable f t k j).mp hrun'
        split_ifs with hfork hexec
        · rw [noteNewSlot_other (hrun'.ne_newSlot hinv.running), hown j hrun']
        · rw [update_of_ne hj, hown j hrun']
        · exact hown j hrun'
      · rw [saveFrame_allocSlot] at halloc
        rw [if_pos hfork, noteNewSlot_self halloc, hcaller]

lemma SharesBase.of_enter (hinv : SharesBase k h)
    (hallowed : KeepsBase k (.enter ext f)) (henter : syscallEnter ext f k = some k') :
    SharesBase k' (ownBase k (.enter ext f) k' h) := by
  have hone' := syscallEnter_oneRunning hinv.running henter
  rcases syscallEnter_cases henter with ⟨hcur, rfl⟩ | ⟨t, ret, k₁, hcur, hdisp, rfl⟩
  · simpa [ownBase, hcur] using hinv
  · refine ⟨hone', fun j hrun => ?_⟩
    have hrun₁ : Runnable k₁ j := (saveResult_runnable t ret k₁ j).mp hrun
    rw [hinv.of_dispatch hallowed hcur hdisp hrun₁, Kernel.commonBase, saveResult_current,
      saveResult_fsBase]
    cases hcur₁ : k₁.current with
    | some n => rfl
    | none =>
      -- `j` could not run without a current task
      have hsaved : OneRunning (saveFrame f t k) :=
        hinv.running.congr rfl (saveFrame_state f t k)
      rcases hrun₁ with hready | hrun₁
      · exact absurd hready ((dispatch_handled hdisp).idle hsaved hcur hcur₁ j)
      · simp [hcur₁] at hrun₁

lemma SharesBase.step {event : Event} (hinv : SharesBase k h)
    (hallowed : KeepsBase k event) (hstep : k.step event = some k') :
    SharesBase k' (ownBase k event k' h) := by
  cases event with
  | create | exec =>
    obtain ⟨hcur, hab | ⟨i, task, hcre, -⟩⟩ := Kernel.step_makes rfl hstep
    · exact hinv.of_abandons hab 0#64
    · exact hinv.of_creates hcre (by rw [Kernel.commonBase, hcur])
  | start =>
    simp only [Kernel.step, ite_none_right_eq_some] at hstep
    exact hinv.of_start hstep.1 hstep.2
  | enter ext f => exact hinv.of_enter hallowed hstep
  | leave preempt =>
    obtain rfl := some.inj hstep
    exact hinv.of_settles (syscallLeave_settles hinv.running preempt)

/-- The FS base is the current task's own value in every state of a run whose steps keep
one value for all tasks. -/
theorem fsBase_is_own {k₀ k : Kernel} {h : OwnBase}
    (hreach : Reaches Kernel.step ownBase KeepsBase (taskInit k₀) (fun _ => 0#64) k h)
    {n : Slot} (hcur : k.current = some n) : k.fsBase = h n := by
  have hinv : SharesBase k h := hreach.invariant SharesBase ⟨oneRunning_init k₀, fun _ _ => rfl⟩ fun
    _ _ _ _ hinv hallowed hstep => hinv.step hallowed hstep
  rw [hinv.base n (.inr hcur), Kernel.commonBase, hcur]

def setFsFrame : Regs := callFrame 158#64 archSetFs 0x40001000#64

/-- The first task has started and set its FS base. -/
def fsBaseSet : Kernel :=
  ((taskStartUser oneTask).bind (syscallEnter quietExternal setFsFrame)).getD oneTask

lemma fsBaseSet_fork : fsBaseSet.step (.enter quietExternal forkFrame) =
    some (fsBaseSet.forkReturned forkFrame 0 1 4 5) :=
  step_fork_blank _ (by decide) rfl rfl (by decide) (by decide) (by decide) (by decide)
    (by decide)

/-- The child of a task that has set its FS base runs with the same one. -/
theorem fsBase_of_forked_child : ∃ k h,
    Reaches Kernel.step ownBase KeepsBase (taskInit bootKernel) (fun _ => 0#64) k h ∧
      k.current = some 1 ∧ k.fsBase = 0x40001000#64 ∧ k.fsBase = h 1 := by
  have hstarted := (oneTask_reached ownBase KeepsBase (fun _ => 0#64) fun _ => trivial).next
    .start trivial rfl
  have hset := hstarted.next (.enter quietExternal setFsFrame)
    ⟨fun _ => .inr (by decide), fun hcall => absurd hcall (by decide)⟩
    (show _ = some fsBaseSet from rfl)
  have hforked := hset.next (.enter quietExternal forkFrame)
    ⟨fun hsets => absurd hsets (by decide), fun hcall => absurd hcall (by decide)⟩ fsBaseSet_fork
  have hswitched := hforked.next (.leave true) trivial rfl
  exact ⟨_, _, hswitched, rfl, rfl, fsBase_is_own hswitched rfl⟩

def setFsTwiceRun : List Event :=
  [.start, .enter quietExternal (callFrame 158#64 archSetFs 0x40001000#64), .leave true,
    .enter quietExternal (callFrame 158#64 archSetFs 0x40002000#64), .leave true]

/-- The first task continues with the thread pointer of the second one. -/
theorem fsBase_of_other_task : ∃ k h,
    Reaches Kernel.step ownBase (fun _ _ => True) (taskInit bootKernel) (fun _ => 0#64) k h ∧
      k.current = some 0 ∧ h 0 = 0x40001000#64 ∧ k.fsBase = 0x40002000#64 :=
  ⟨_, _, (twoTasks_reached ownBase (fun _ _ => True) (fun _ => 0#64) fun _ => trivial).run
    setFsTwiceRun (fun _ _ _ => trivial) rfl, rfl, rfl, rfl⟩

end HelixOS
