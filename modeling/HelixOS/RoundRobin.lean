import HelixOS.EmptySpaces

/-!
# Waiting for a turn

`pick_next` goes round the table from the slot after the current one.  The distance from the
current slot to a ready one therefore falls with every switch that passes the ready one
over.
-/

namespace HelixOS

open TrackedRuns Option List

variable {k k' k'' : Kernel} {i n t : Slot}

/-! ## Switches -/

def turn : Option Slot → Option Slot → ℕ
  | some b, some a => if a = b then 0 else 1
  | _, _ => 0

def switches : List (Option Slot) → ℕ
  | b :: a :: rest => turn b a + switches (a :: rest)
  | _ => 0

/-- On the way back to user mode the task may change twice. -/
def Kernel.noteTurn (k : Kernel) (e : Event) (k' : Kernel) (h : List (Option Slot)) :
    List (Option Slot) :=
  match e with
  | .leave _ => k'.current :: (signalDeliverCurrent k).current :: h
  | _ => k'.current :: h

/-- How many slots the search goes from the current task to the slot `i`. -/
def rank (i : Slot) : Option Slot → ℕ
  | none => 7
  | some c => (i - c).val

/-- What an operation does to the ready task `i`: it runs, or it is still ready and every
switch has brought it nearer. -/
def Waits (i : Slot) (k k' : Kernel) : Prop :=
  k'.current = some i ∨
    (k'.tasks i).state = .ready ∧ rank i k'.current + turn k'.current k.current ≤ rank i k.current

lemma turn_self (c : Option Slot) : turn c c = 0 := by
  cases c with
  | none => rfl
  | some c => exact if_pos rfl

lemma Waits.of_same (hready : (k.tasks i).state = .ready)
    (hstate : (k'.tasks i).state = (k.tasks i).state) (hcur : k'.current = k.current) :
    Waits i k k' := by
  refine .inr ⟨hstate.trans hready, ?_⟩
  rw [hcur, turn_self, add_zero]

lemma pickNext_rank (hready : (k.tasks i).state = .ready) (hit : i ≠ t)
    (hpick : pickNext k (some t) = some n) (hne : n ≠ t) (hi : n ≠ i) :
    (i - n).val + 1 ≤ (i - t).val := by
  obtain ⟨-, before, after, hsplit, hnone⟩ := find?_eq_some_iff_append.mp hpick
  have hlen : before.length < 8 := by
    have := congrArg List.length hsplit
    simp only [length_map, length_range, length_append, length_cons] at this
    omega
  have hget (m : ℕ) (hm : m < 8) :
      (before ++ n :: after)[m]? = some (Fin.ofNat 8 (t.val + 1 + m)) := by
    rw [← hsplit]
    simp [hm]
  have hn : n = Fin.ofNat 8 (t.val + 1 + before.length) := by
    have := hget before.length hlen
    simpa using this
  -- the ready task is not among those the search has passed
  have hfar (m : ℕ) (hm : m < before.length) : Fin.ofNat 8 (t.val + 1 + m) ≠ i := by
    intro heq
    have hmem : i ∈ before := by
      have := hget m (hm.trans hlen)
      rw [getElem?_append_left hm, heq] at this
      exact mem_of_getElem? this
    simpa [hready] using hnone i hmem
  have hle : before.length ≤ (i - t).val - 1 := by
    by_contra! hlt
    refine hfar ((i - t).val - 1) hlt (Fin.ext ?_)
    simp only [ne_eq, Fin.ext_iff, Fin.ofNat, Fin.sub_def] at hit hlt ⊢
    omega
  simp only [Fin.ext_iff, ne_eq, Fin.ofNat, Fin.sub_def] at hn hne hi hit hle ⊢
  omega

/-! ## One operation -/

lemma Switches.waits {state : TaskState} {code : BitVec 32} {next : Option Slot}
    (h : Switches k k' t state code next) (hcur : k.current = some t) (hit : i ≠ t)
    (hready : (k.tasks i).state = .ready)
    (hnext : ∀ n, next = some n → n ≠ i → (i - n).val + 1 ≤ (i - t).val)
    (hsome : next ≠ none) : Waits i k k' := by
  obtain ⟨n, rfl⟩ := ne_none_iff_exists'.mp hsome
  by_cases hn : n = i
  · exact .inl (h.current.trans (congrArg some hn))
  · refine .inr ⟨?_, ?_⟩
    · have hcore := h.core i hit (by simpa using Ne.symm hn)
      exact (congrArg TaskCore.state hcore).trans hready
    · have hlt := hnext n rfl hn
      have hne := (h.next n rfl).1
      rw [h.current, hcur]
      simpa [rank, turn, Ne.symm hne] using hlt

section

variable (hone : OneRunning k) (hready : (k.tasks i).state = .ready)
include hone hready

lemma taskYield_waits : Waits i k (taskYield k) := by
  rcases taskYield_cases k with ⟨heq, -⟩ | ⟨t, n, hcur, hpick, hne, -⟩
  · rw [heq]
    exact .of_same hready rfl rfl
  · have hit : i ≠ t := by
      rintro rfl
      have hrun := (hone i).mpr hcur
      simp [hready] at hrun
    refine (taskYield_switches hcur hpick hne).waits hcur hit hready ?_ (by simp)
    intro m hm hmi
    obtain rfl : n = m := some.inj hm
    exact pickNext_rank hready hit hpick hne hmi

lemma taskExitCurrent_waits (code : BitVec 32) : Waits i k (taskExitCurrent k code) := by
  cases hcur : k.current with
  | none =>
    have heq : taskExitCurrent k code = k := by simp [taskExitCurrent, hcur]
    rw [heq]
    exact .of_same hready rfl rfl
  | some t =>
    have hit : i ≠ t := by
      rintro rfl
      have hrun := (hone i).mpr hcur
      simp [hready] at hrun
    have hswitch := taskExitCurrent_switches hcur code
    have hready' : ((becomeZombie k t code).tasks i).state = .ready := by
      have hcore := becomeZombie_core k t code i
      rw [if_neg hit] at hcore
      exact (congrArg TaskCore.state hcore).trans hready
    refine hswitch.waits hcur hit hready (fun n hn hni => ?_) fun hnone => ?_
    · exact pickNext_rank hready' hit hn (hswitch.next n hn).1 hni
    · exact pickNext_none hnone i hready'

lemma exit_waits (h : SameTasks k k' ∨ ∃ k₀ code, SameTasks k k₀ ∧ k' = taskExitCurrent k₀ code) :
    Waits i k k' := by
  rcases h with hquiet | ⟨k₀, code, hquiet, rfl⟩
  · exact .of_same hready (hquiet.state i) hquiet.current
  · have hwaits := taskExitCurrent_waits (hquiet.settles.running hone)
      ((hquiet.state i).trans hready) code
    rwa [Waits, hquiet.current] at hwaits

lemma signalDeliverCurrent_waits : Waits i k (signalDeliverCurrent k) :=
  exit_waits hone hready (signalDeliverCurrent_cases k)

end

lemma Creates.waits {task : Task} {j : Slot} (hcre : Creates k k' j task)
    (hready : (k.tasks i).state = .ready) : Waits i k k' := by
  have hne : i ≠ j := by
    rintro rfl
    simp [allocSlot_unused hcre.alloc] at hready
  exact .of_same hready (congrArg Task.state (hcre.other i hne)) hcre.current

lemma Handled.waits {ext : External} {f : Regs} {ret : Word} (h : Handled ext f t k ret k')
    (hone : OneRunning k) (hready : (k.tasks i).state = .ready) : Waits i k k' := by
  cases h with
  | quiet _ hsame => exact .of_same hready (hsame.state i) hsame.current
  | setFs => exact .of_same hready rfl rfl
  | yield => exact taskYield_waits hone hready
  | exit => exact taskExitCurrent_waits hone hready _
  | kill => exact exit_waits hone hready (sysKill_cases _ _ t k)
  | fork =>
    rcases sysFork_cases k t with hab | ⟨j, kstack, pml4, -, -, hcre⟩
    · exact .of_same hready (hab.state i) hab.current
    · exact hcre.waits hready
  | wait =>
    rw [sysWait4_kernel]
    rcases taskWait_cases k (f.rdi.setWidth 32) with ⟨heq, -⟩ | ⟨p, j, -, -, hz, heq⟩
    · rw [heq]
      exact .of_same hready rfl rfl
    · rw [heq]
      have hreap := taskReap_reaps hz
      have hne : i ≠ j := by
        rintro rfl
        simp [hready] at hz
      exact .of_same hready (congrArg TaskCore.state (hreap.other i hne)) hreap.current
  | execve hcall hexec =>
    rcases sysExecve_cases hexec with ⟨m, rfl⟩ | ⟨m, info, pml4, -, -, rfl⟩
    · exact .of_same hready rfl rfl
    · refine .of_same hready (Kernel.modify_keeps Task.state ?_ (k.setMachine m) t i) rfl
      exact fun _ => rfl

lemma syscallEnter_waits {ext : External} {f : Regs} (hone : OneRunning k)
    (hready : (k.tasks i).state = .ready) (henter : syscallEnter ext f k = some k') :
    Waits i k k' := by
  rcases syscallEnter_cases henter with ⟨-, rfl⟩ | ⟨t, ret, k₁, hcur, hdisp, rfl⟩
  · exact .of_same hready rfl rfl
  · have hsaved : OneRunning (saveFrame f t k) := hone.congr rfl (saveFrame_state f t k)
    have hwaits := (dispatch_handled hdisp).waits hsaved ((saveFrame_state f t k i).trans hready)
    rw [Waits, saveResult_current, saveResult_state]
    exact hwaits

/-! ## Runs -/

/-- While `i` has not run it is ready, and the switches are paid for by its rank. -/
def Queued (i : Slot) (c₀ : Option Slot) (k : Kernel) (h : List (Option Slot)) : Prop :=
  h.head? = some k.current ∧
    (some i ∈ h ∨ (k.tasks i).state = .ready ∧ rank i k.current + switches h ≤ rank i c₀)

lemma Queued.next {c₀ : Option Slot} {h : List (Option Slot)} (hq : Queued i c₀ k h)
    (hwaits : (k.tasks i).state = .ready → Waits i k k') :
    Queued i c₀ k' (k'.current :: h) := by
  obtain ⟨hhead, hq⟩ := hq
  refine ⟨rfl, ?_⟩
  rcases hq with hran | ⟨hready, hrank⟩
  · exact .inl (mem_cons_of_mem _ hran)
  · rcases hwaits hready with hruns | ⟨hready', hturn⟩
    · exact .inl (by simp [hruns])
    · refine .inr ⟨hready', ?_⟩
      cases h with
      | nil => cases hhead
      | cons c rest =>
        obtain rfl : c = k.current := some.inj hhead
        rw [switches]
        omega

lemma Queued.step {c₀ : Option Slot} {h : List (Option Slot)} {e : Event} (hone : OneRunning k)
    (hq : Queued i c₀ k h) (hstep : k.step e = some k') :
    Queued i c₀ k' (k.noteTurn e k' h) := by
  cases e with
  | create | exec =>
    refine hq.next fun hready => ?_
    obtain ⟨-, hab | ⟨j, task, hcre, -⟩⟩ := Kernel.step_makes rfl hstep
    · exact .of_same hready (hab.state i) hab.current
    · exact hcre.waits hready
  | start =>
    simp only [Kernel.step, ite_none_right_eq_some] at hstep
    obtain ⟨hcur, hstart⟩ := hstep
    refine hq.next fun hready => ?_
    obtain ⟨n, -, hcur', -, -, hother⟩ := taskStartUser_cases hstart
    by_cases hn : i = n
    · exact .inl (hcur'.trans (congrArg some hn.symm))
    · -- the first task is not counted as a switch
      refine .inr ⟨(congrArg Task.state (hother i hn)).trans hready, ?_⟩
      rw [hcur', hcur]
      exact Nat.le_of_lt_succ (i - n).isLt
  | enter ext f => exact hq.next fun hready => syscallEnter_waits hone hready hstep
  | leave preempt =>
    obtain rfl := some.inj hstep
    have hdeliver : Queued i c₀ (signalDeliverCurrent k) _ :=
      hq.next fun hready => signalDeliverCurrent_waits hone hready
    refine hdeliver.next fun hready => ?_
    simp only [syscallLeave]
    split_ifs
    · exact taskYield_waits ((signalDeliverCurrent_settles hone).running hone) hready
    · exact .of_same hready rfl rfl

/-- A ready task runs before the seventh switch is over, and before any task that has made
way runs again. -/
theorem ready_task_runs {k₀ k₁ : Kernel} {h : List (Option Slot)}
    (hreach : Reaches Kernel.step (fun _ _ _ h => h) (fun _ _ => True) (taskInit k₀) () k₁ ())
    (hready : (k₁.tasks i).state = .ready)
    (hrun : Reaches Kernel.step Kernel.noteTurn (fun _ _ => True) k₁ [k₁.current] k h) :
    (7 ≤ switches h → some i ∈ h) ∧
      ∀ a, k₁.current = some a → k.current = some a → 0 < switches h → some i ∈ h := by
  have hone : OneRunning k₁ := hreach.invariant (fun k _ => OneRunning k) (oneRunning_init k₀)
    fun _ _ _ _ hone _ hstep => Kernel.step_oneRunning hone hstep
  obtain ⟨hone', -, hq⟩ := hrun.invariant
    (fun k h => OneRunning k ∧ Queued i k₁.current k h) ⟨hone, rfl, .inr ⟨hready, le_rfl⟩⟩
    fun _ _ _ _ hinv _ hstep => ⟨Kernel.step_oneRunning hinv.1 hstep, hinv.2.step hinv.1 hstep⟩
  rcases hq with hran | ⟨hready', hrank⟩
  · exact ⟨fun _ => hran, fun _ _ _ _ => hran⟩
  · have hle : rank i k₁.current ≤ 7 := by
      cases k₁.current with
      | none => exact le_rfl
      | some c => exact Nat.le_of_lt_succ (i - c).isLt
    have hpos : 0 < rank i k.current := by
      cases hcur : k.current with
      | none => exact Nat.succ_pos 6
      | some c =>
        refine Nat.pos_of_ne_zero fun hzero => ?_
        have hc : i = c := sub_eq_zero.mp (Fin.ext hzero)
        have hrunning := (hone' i).mpr (hcur.trans (congrArg some hc.symm))
        simp [hready'] at hrunning
    refine ⟨fun hmany => absurd hmany (by omega), fun a hfirst hlast hsome => ?_⟩
    rw [hfirst, hlast] at hrank
    omega

def turnsRun : List Event :=
  [.enter quietExternal (callFrame 24#64 0#64 0#64), .leave false,
    .enter quietExternal (callFrame 24#64 0#64 0#64)]

theorem yielding_tasks_take_turns : ∃ k₁ k h,
    run Kernel.step (fun _ _ _ h => h) [.start] twoTasks () = some (k₁, ()) ∧
      run Kernel.step Kernel.noteTurn turnsRun k₁ [k₁.current] = some (k, h) ∧
      k₁.current = some 0 ∧ k.current = some 0 ∧ (k₁.tasks 1).state = .ready ∧
      0 < switches h ∧ some 1 ∈ h := by
  have hreach := (twoTasks_reached (fun _ _ _ h => h) (fun _ _ => True) () fun _ => trivial).run
    [.start] (fun _ _ _ => trivial) rfl
  refine ⟨_, _, _, rfl, rfl, rfl, rfl, rfl, by decide, ?_⟩
  exact (ready_task_runs hreach rfl (Reaches.start.run turnsRun (fun _ _ _ => trivial) rfl)).2
    0 rfl rfl (by decide)

end HelixOS
