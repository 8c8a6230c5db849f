import HelixOS.EmptySpaces

/-!
# Deadly signals at the return to user mode

`syscall_entry_c` delivers the signals of the current task once.  After that the task may
still change: the caller dies of a signal, or the tick preempts it.  The task that is
resumed then has not been looked at, and it may have a signal pending that ends it.
-/

namespace HelixOS

open TrackedRuns Option List

variable {k k' k'' : Kernel} {i j n t : Slot}

/-- A signal is pending that the task takes and that ends it. -/
def Task.Doomed (task : Task) : Prop :=
  ∃ sig : Fin 32, sig ≠ 0 ∧ hasFlag task.sigPending (sigBit sig) ∧ task.takes sig ∧
    signalApplyOne task sig

instance (task : Task) : Decidable task.Doomed := inferInstanceAs (Decidable (∃ _ : Fin 32, _))

lemma Task.Doomed.congr {task task' : Task} (h : task'.Doomed)
    (hpending : ∀ sig, hasFlag task'.sigPending (sigBit sig) →
      signalApplyOne task sig → hasFlag task.sigPending (sigBit sig))
    (hblocked : task'.sigBlocked = task.sigBlocked) (hhandler : task'.handler = task.handler) :
    task.Doomed := by
  obtain ⟨sig, hne, hpend, htakes, happly⟩ := h
  have happly' : signalApplyOne task sig := by
    rw [signalApplyOne, hhandler] at happly
    exact happly
  refine ⟨sig, hne, hpending sig hpend happly', ?_, happly'⟩
  rwa [Task.takes, hblocked] at htakes

/-! ## Operations that take no signal -/

/-- The signals of a task after an operation that takes none of them; `new` ones may come. -/
structure Task.KeepsSignals (new : Fin 32 → Prop) (task task' : Task) : Prop where
  blocked : task'.sigBlocked = task.sigBlocked
  handler : task'.handler = task.handler
  kept : ∀ sig, hasFlag task.sigPending (sigBit sig) → hasFlag task'.sigPending (sigBit sig)
  fresh : ∀ sig, hasFlag task'.sigPending (sigBit sig) →
    hasFlag task.sigPending (sigBit sig) ∨ new sig

def KeepsSignals (new : Fin 32 → Prop) (k k' : Kernel) : Prop :=
  ∀ j, (k.tasks j).KeepsSignals new (k'.tasks j)

variable {new : Fin 32 → Prop}

lemma Task.KeepsSignals.of_eq {task task' : Task} (hpending : task'.sigPending = task.sigPending)
    (hblocked : task'.sigBlocked = task.sigBlocked) (hhandler : task'.handler = task.handler) :
    task.KeepsSignals new task' where
  blocked := hblocked
  handler := hhandler
  kept sig h := by rwa [hpending]
  fresh sig h := .inl (by rwa [hpending] at h)

lemma KeepsSignals.refl (k) : KeepsSignals new k k := fun _ => .of_eq rfl rfl rfl

lemma KeepsSignals.trans (h₁ : KeepsSignals new k k') (h₂ : KeepsSignals new k' k'') :
    KeepsSignals new k k'' := fun j =>
  { blocked := (h₂ j).blocked.trans (h₁ j).blocked
    handler := (h₂ j).handler.trans (h₁ j).handler
    kept := fun sig h => (h₂ j).kept sig ((h₁ j).kept sig h)
    fresh := fun sig h => ((h₂ j).fresh sig h).elim ((h₁ j).fresh sig) .inr }

lemma keepsSignals_modify (i) (change : Task → Task)
    (htasks : k'.tasks = (k.modify i change).tasks)
    (hchange : ∀ task : Task, task.KeepsSignals new (change task)) : KeepsSignals new k k' := by
  intro j
  rw [htasks]
  by_cases hj : j = i
  · subst hj
    rw [Kernel.modify_self]
    exact hchange _
  · rw [Kernel.modify_other _ hj]
    exact .of_eq rfl rfl rfl

lemma signalSend_keepsSignals (t) {sig : Fin 32} (hnew : new sig) :
    KeepsSignals new k (signalSend k t sig) := by
  unfold signalSend
  split_ifs
  · exact .refl k
  · exact .refl k
  · refine keepsSignals_modify t _ rfl fun task => ⟨rfl, rfl, fun sig' h => ?_, fun sig' h => ?_⟩
    · rw [hasFlag_set, h, Bool.true_or]
    · rw [hasFlag_set, Bool.or_eq_true, decide_eq_true_eq] at h
      rcases h with h | rfl
      · exact .inl h
      · exact .inr hnew

lemma runTask_keepsSignals (k) (n) : KeepsSignals new k (runTask k n) :=
  keepsSignals_modify n _ (runTask_tasks k n) fun _ => .of_eq rfl rfl rfl

lemma becomeZombie_keepsSignals (hnew : new sigChld) (k) (t)
    (code : BitVec 32) : KeepsSignals new k (becomeZombie k t code) := by
  have hstate : KeepsSignals new k (k.modify t fun task =>
      { task with exitCode := code, state := .zombie }) :=
    keepsSignals_modify t _ rfl fun _ => .of_eq rfl rfl rfl
  have hsignal (k : Kernel) : KeepsSignals new k (signalOnExit k t) := by
    unfold signalOnExit
    split
    · exact .refl k
    · split_ifs
      · exact .refl k
      · exact signalSend_keepsSignals _ hnew
  have hfiles (k : Kernel) : KeepsSignals new k (releaseFiles k t) :=
    keepsSignals_modify t (fun task => { task with fds := (closeAll (k.tasks t).fds k.files).1 })
      rfl fun _ => .of_eq rfl rfl rfl
  exact (hstate.trans (hsignal _)).trans (hfiles _)

lemma releaseSpace_keepsSignals (k) (t) :
    KeepsSignals new k (releaseSpace k t) :=
  keepsSignals_modify t (fun task => { task with pml4 := 0#64 }) rfl fun _ => .of_eq rfl rfl rfl

lemma loadTemplate_tasks (k) : (loadTemplate k).tasks = k.tasks := by
  unfold loadTemplate
  dsimp only
  split_ifs <;> rfl

lemma taskExitCurrent_keepsSignals (hnew : new sigChld) (k) (code : BitVec 32) :
    KeepsSignals new k (taskExitCurrent k code) := by
  unfold taskExitCurrent
  cases hcur : k.current with
  | none => exact .refl k
  | some t =>
    dsimp only
    have hzombie := becomeZombie_keepsSignals hnew k t code
    cases hpick : pickNext (becomeZombie k t code) (some t) with
    | none =>
      have htemplate : KeepsSignals new (becomeZombie k t code)
          (loadTemplate (becomeZombie k t code)) := fun j => by
        rw [loadTemplate_tasks]
        exact .of_eq rfl rfl rfl
      exact (hzombie.trans htemplate).trans (releaseSpace_keepsSignals _ t)
    | some n =>
      exact (hzombie.trans (runTask_keepsSignals _ n)).trans (releaseSpace_keepsSignals _ t)

lemma taskYield_keepsSignals (k) : KeepsSignals new k (taskYield k) := by
  rcases taskYield_cases k with ⟨heq, -⟩ | ⟨t, n, -, -, -, heq⟩
  · rw [heq]
    exact .refl k
  · rw [heq]
    have hready : KeepsSignals new k (k.modify t fun task => { task with state := .ready }) :=
      keepsSignals_modify t _ rfl fun _ => .of_eq rfl rfl rfl
    exact hready.trans (runTask_keepsSignals _ n)

/-! ## Deadly signals -/

def Calms (k k' : Kernel) : Prop := ∀ j, (k'.tasks j).Doomed → (k.tasks j).Doomed

lemma Calms.trans (h₁ : Calms k k') (h₂ : Calms k' k'') : Calms k k'' :=
  fun j h => h₁ j (h₂ j h)

lemma KeepsSignals.calms (h : KeepsSignals (· = sigChld) k k') : Calms k k' := by
  intro j hdoomed
  refine hdoomed.congr (fun sig hflag happly => ?_) (h j).blocked (h j).handler
  refine ((h j).fresh sig hflag).resolve_right ?_
  rintro rfl
  simp [signalApplyOne, sigChld, sigKill] at happly

lemma setPending_calms {p : Word}
    (hp : ∀ sig, hasFlag p (sigBit sig) → hasFlag (k.tasks t).sigPending (sigBit sig)) :
    Calms k (k.setPending t p) := by
  intro j h
  by_cases hj : j = t
  · subst hj
    rw [Kernel.setPending, Kernel.modify_self] at h
    exact h.congr (fun sig hflag _ => hp sig hflag) rfl rfl
  · rwa [Kernel.setPending, Kernel.modify_other _ hj] at h

/-- After delivery the current task is not doomed, or it was doomed and is dead. -/
theorem signalDeliverCurrent_spec (hone : OneRunning k) (hcur : k.current = some t) :
    Calms k (signalDeliverCurrent k) ∧
      (((signalDeliverCurrent k).current = some t ∧
          ¬ ((signalDeliverCurrent k).tasks t).Doomed) ∨
        ((k.tasks t).Doomed ∧ ¬ Runnable (signalDeliverCurrent k) t)) := by
  have hrun := (hone t).mpr hcur
  obtain ⟨p, done, rest, hsplit, hp, hcases⟩ :=
    deliverLoop_cases t (k.tasks t).sigPending (finRange 32).tail k
  have hdeliver : signalDeliverCurrent k =
      deliverLoop t (k.tasks t).sigPending (finRange 32).tail k := by
    simp [signalDeliverCurrent, hcur, hrun]
  have htail (sig : Fin 32) : sig ∈ (finRange 32).tail ↔ sig ≠ 0 := by
    revert sig
    decide
  have hcalm : Calms k (k.setPending t p) := setPending_calms fun sig h => ((hp sig).mp h).1
  rw [hdeliver]
  rcases hcases with ⟨hrest, heq, hall⟩ | ⟨safe, sig, hdone, hpend, htakes, happly, -, heq⟩
  · rw [heq]
    refine ⟨hcalm, .inl ⟨hcur, ?_⟩⟩
    rintro ⟨sig, hne, hpend, htakes, -⟩
    rw [Kernel.setPending, Kernel.modify_self] at hpend htakes
    obtain ⟨hold, hnot⟩ := (hp sig).mp hpend
    refine hnot ⟨?_, hold, htakes⟩
    rw [hrest, append_nil] at hsplit
    rw [← hsplit]
    exact (htail sig).mpr hne
  · rw [heq]
    refine ⟨hcalm.trans (KeepsSignals.calms ?_), .inr ⟨?_, ?_⟩⟩
    · exact taskExitCurrent_keepsSignals (by rfl) _ _
    · refine ⟨sig, (htail sig).mp ?_, hpend, htakes, happly⟩
      rw [hsplit, hdone]
      simp
    · exact taskExitCurrent_not_runnable (k := k.setPending t p) hcur _

/-- When the task may change after delivery, no ready task is doomed. -/
def DoomedNotReady (k : Kernel) : Event → Prop
  | .leave preempt =>
    (preempt = true ∨ ∃ t, k.current = some t ∧ (k.tasks t).Doomed) →
      ∀ n, (k.tasks n).state = .ready → ¬ (k.tasks n).Doomed
  | _ => True

lemma syscallLeave_cases (preempt : Bool) (k) :
    syscallLeave preempt k = signalDeliverCurrent k ∨
      preempt = true ∧ syscallLeave preempt k = taskYield (signalDeliverCurrent k) := by
  simp only [syscallLeave]
  split_ifs with hcond
  · exact .inr ⟨hcond.2, rfl⟩
  · exact .inl rfl

lemma syscallLeave_not_doomed {preempt : Bool} (hone : OneRunning k)
    (hallowed : DoomedNotReady k (.leave preempt))
    (hcur : (syscallLeave preempt k).current = some n) :
    ¬ ((syscallLeave preempt k).tasks n).Doomed := by
  have hsettles := syscallLeave_settles hone preempt
  have hdeliver := signalDeliverCurrent_settles hone
  obtain ⟨t, hcur₀⟩ : ∃ t, k.current = some t := by
    rw [← ne_none_iff_exists']
    intro hnone
    simp [hsettles.stopped hnone] at hcur
  obtain ⟨hcalm, halive⟩ := signalDeliverCurrent_spec hone hcur₀
  -- what the preemption can add
  have hrest : Calms (signalDeliverCurrent k) (syscallLeave preempt k) ∧
      (Runnable (syscallLeave preempt k) n → Runnable (signalDeliverCurrent k) n) := by
    rcases syscallLeave_cases preempt k with heq | ⟨-, heq⟩
    · rw [heq]
      exact ⟨fun _ h => h, id⟩
    · rw [heq]
      exact ⟨(taskYield_keepsSignals _).calms, (taskYield_settles (hdeliver.running hone)).runnable⟩
  by_cases hn : n = t
  · subst hn
    rcases halive with ⟨-, hsafe⟩ | ⟨-, hdead⟩
    · exact fun h => hsafe (hrest.1 n h)
    · exact absurd (hrest.2 (.inr hcur)) hdead
  · have hready : (k.tasks n).state = .ready := by
      rcases hsettles.current n hcur with hready | hsame
      · exact hready
      · exact absurd (some.inj (hsame.symm.trans hcur₀)) hn
    -- the task has changed, so it was preempted or it died
    have hswitch : preempt = true ∨ ∃ t, k.current = some t ∧ (k.tasks t).Doomed := by
      rcases syscallLeave_cases preempt k with heq | ⟨hpreempt, -⟩
      · rcases halive with ⟨hstays, -⟩ | ⟨hdoomed, -⟩
        · rw [heq, hstays] at hcur
          exact absurd (some.inj hcur).symm hn
        · exact .inr ⟨t, hcur₀, hdoomed⟩
      · exact .inl hpreempt
    exact fun h => hallowed hswitch n hready (hcalm n (hrest.1 n h))

/-- If no ready task is doomed whenever the task may change after delivery, then no doomed
task is ever resumed. -/
theorem resumes_no_doomed_task {k₀ k : Kernel}
    (hreach : Reaches Kernel.step (fun _ _ _ h => h) DoomedNotReady (taskInit k₀) () k ())
    {preempt : Bool} (hallowed : DoomedNotReady k (.leave preempt))
    (hcur : (syscallLeave preempt k).current = some n) :
    ¬ ((syscallLeave preempt k).tasks n).Doomed := by
  have hone : OneRunning k := hreach.invariant (fun k _ => OneRunning k) (oneRunning_init k₀)
    fun _ _ _ _ hone _ hstep => Kernel.step_oneRunning hone hstep
  exact syscallLeave_not_doomed hone hallowed hcur

def killRun : List Event := [.start, .enter quietExternal (callFrame 62#64 2#64 9#64)]

theorem sender_resumes_not_doomed :
    ∃ k, run Kernel.step (fun _ _ _ h => h) killRun twoTasks () = some (k, ()) ∧
      (k.tasks 1).Doomed ∧ (syscallLeave false k).current = some 0 ∧
      ¬ ((syscallLeave false k).tasks 0).Doomed := by
  have hall : ∀ e ∈ killRun, ∀ k, DoomedNotReady k e := by
    simp only [killRun, forall_mem_cons]
    exact ⟨fun _ => trivial, fun _ => trivial, by simp⟩
  have hreach := (twoTasks_reached (fun _ _ _ h => h) DoomedNotReady () fun _ => trivial).run
    killRun hall rfl
  refine ⟨_, rfl, by decide, rfl, resumes_no_doomed_task hreach ?_ rfl⟩
  rintro (hpreempt | ⟨t, hcur, hdoomed⟩)
  · cases hpreempt
  · obtain rfl : (0 : Slot) = t := some.inj hcur
    exact absurd hdoomed (by decide)

/-- Preempted after the delivery, the sender makes place for a task with `SIGKILL`
pending. -/
theorem preemption_resumes_doomed_task : ∃ k,
    Reaches Kernel.step (fun _ _ _ h => h) (fun _ _ => True) (taskInit bootKernel) () k () ∧
      (syscallLeave true k).current = some 1 ∧ ((syscallLeave true k).tasks 1).Doomed :=
  ⟨_, (twoTasks_reached (fun _ _ _ h => h) (fun _ _ => True) () fun _ => trivial).run
    killRun (fun _ _ _ => trivial) rfl, rfl, by decide⟩

end HelixOS
