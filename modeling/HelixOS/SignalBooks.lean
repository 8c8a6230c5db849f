import HelixOS.SignalDelivery

/-!
# Bookkeeping of signals

What the masks of the tasks can hold, how long a blocked signal stays pending, and which
signals one pass of `signal_deliver_current` takes.
-/

namespace HelixOS

open TrackedRuns Option List

variable {task : Task} {ext : External} {k k' k'' : Kernel} {i j t : Slot} {sig : Fin 32}
  {new : Fin 32 → Prop}

def Task.Pending (task : Task) (sig : Fin 32) : Prop := hasFlag task.sigPending (sigBit sig) = true

def Task.Blocked (task : Task) (sig : Fin 32) : Prop := hasFlag task.sigBlocked (sigBit sig) = true

instance (task : Task) (sig : Fin 32) : Decidable (task.Pending sig) :=
  inferInstanceAs (Decidable (_ = _))

instance (task : Task) (sig : Fin 32) : Decidable (task.Blocked sig) :=
  inferInstanceAs (Decidable (_ = _))

/-- `SIGKILL` and `SIGSTOP` are not blocked and have their default actions. -/
structure Task.Sane (task : Task) : Prop where
  kill : ¬ task.Blocked sigKill
  stop : ¬ task.Blocked sigStop
  killAction : task.handler sigKill = sigDfl
  stopAction : task.handler sigStop = sigDfl

def Kernel.Sane (k : Kernel) : Prop := ∀ i, (k.tasks i).state ≠ .unused → (k.tasks i).Sane

lemma Task.Sane.congr {task' : Task} (h : task.Sane)
    (hblocked : task'.sigBlocked = task.sigBlocked) (hhandler : task'.handler = task.handler) :
    task'.Sane := by
  obtain ⟨hkill, hstop, hkillAction, hstopAction⟩ := h
  refine ⟨?_, ?_, ?_, ?_⟩
  · rwa [Task.Blocked, hblocked]
  · rwa [Task.Blocked, hblocked]
  · rwa [hhandler]
  · rwa [hhandler]

lemma Task.Sane.takes_iff (h : task.Sane) :
    task.takes sig = true ↔ ¬ task.Blocked sig := by
  rw [Task.takes, Bool.or_eq_true, decide_eq_true_eq, Bool.not_eq_true', Task.Blocked,
    Bool.not_eq_true]
  refine or_iff_right_of_imp ?_
  rintro rfl
  simpa [Task.Blocked] using h.kill

/-! ## One pass of delivery -/

def Task.Ends (task : Task) (sig : Fin 32) : Prop :=
  sig ≠ 0 ∧ task.Pending sig ∧ ¬ task.Blocked sig ∧ signalApplyOne task sig = true

structure DeliveryPass (t : Slot) (k k' : Kernel) : Prop where
  /-- Taken are the pending signals that are not blocked, up to the first that ends the
  task. -/
  self : ∀ sig, (k'.tasks t).Pending sig ↔ (k.tasks t).Pending sig ∧
    ¬ (sig ≠ 0 ∧ ¬ (k.tasks t).Blocked sig ∧ ∀ s < sig, ¬ (k.tasks t).Ends s)
  dies : (k'.tasks t).state = .zombie ↔ ∃ sig, (k.tasks t).Ends sig
  others : ∀ j, j ≠ t → ∀ sig, (k.tasks j).Pending sig → (k'.tasks j).Pending sig
  masks : ∀ j, (k'.tasks j).sigBlocked = (k.tasks j).sigBlocked ∧
    (k'.tasks j).handler = (k.tasks j).handler

lemma becomeZombie_pending (k) (t) (code : BitVec 32) :
    ((becomeZombie k t code).tasks t).sigPending = (k.tasks t).sigPending := by
  set k₁ := k.modify t fun task => { task with exitCode := code, state := .zombie } with hk₁
  have hself : k₁.tasks t = { k.tasks t with exitCode := code, state := .zombie } := by
    rw [hk₁, Kernel.modify_self]
  have hexit : ((signalOnExit k₁ t).tasks t).sigPending = (k₁.tasks t).sigPending := by
    unfold signalOnExit
    split
    · rfl
    · rename_i p _
      split_ifs with hgone
      · rfl
      · have hne : t ≠ p := by
          rintro rfl
          simp [hself] at hgone
        unfold signalSend
        split_ifs
        · rfl
        · rw [Kernel.modify_other _ hne]
  have hfiles : ((releaseFiles (signalOnExit k₁ t) t).tasks t).sigPending =
      ((signalOnExit k₁ t).tasks t).sigPending := by simp [releaseFiles]
  rw [becomeZombie, hfiles, hexit, hself]

lemma taskExitCurrent_pending (hcur : k.current = some t) (code : BitVec 32) :
    ((taskExitCurrent k code).tasks t).sigPending = (k.tasks t).sigPending := by
  have hspace (k : Kernel) : ((releaseSpace k t).tasks t).sigPending = (k.tasks t).sigPending := by
    simp [releaseSpace]
  unfold taskExitCurrent
  rw [hcur]
  dsimp only
  cases hpick : pickNext (becomeZombie k t code) (some t) with
  | none =>
    have hload := congrFun (loadTemplate_tasks (becomeZombie k t code)) t
    exact (hspace _).trans ((congrArg Task.sigPending hload).trans (becomeZombie_pending k t code))
  | some n =>
    refine (hspace _).trans ((?_ : _ = _).trans (becomeZombie_pending k t code))
    exact runTask_keeps Task.sigPending (fun _ => rfl) _ n t

lemma mem_signals (done rest : List (Fin 32)) (hsplit : (finRange 32).tail = done ++ rest) :
    (rest = [] → ∀ sig, sig ∈ done ↔ sig ≠ 0) ∧
      ∀ safe last, done = safe ++ [last] → last ≠ 0 ∧
        (∀ sig, sig ∈ safe ↔ sig ≠ 0 ∧ sig < last) := by
  have htail : ∀ sig : Fin 32, sig ∈ (finRange 32).tail ↔ sig ≠ 0 := by decide
  have hsorted : (finRange 32).tail.Pairwise (· < ·) := by decide
  rw [hsplit] at htail hsorted
  refine ⟨?_, ?_⟩
  · rintro rfl sig
    rw [← htail, append_nil]
  · rintro safe last rfl
    simp only [append_assoc, pairwise_append, mem_append,
      singleton_append, mem_cons] at htail hsorted
    obtain ⟨-, hlast, hsafe⟩ := hsorted
    refine ⟨(htail last).mp (by simp), fun sig => ⟨fun h => ?_, fun h => ?_⟩⟩
    · exact ⟨(htail sig).mp (.inl h), hsafe sig h last (.inl rfl)⟩
    · rcases (htail sig).mpr h.1 with hmem | rfl | hmem
      · exact hmem
      · exact absurd h.2 (lt_irrefl _)
      · exact absurd ((pairwise_cons.mp hlast).1 sig hmem) (lt_asymm h.2)

lemma signalDeliverCurrent_pass (hcur : k.current = some t)
    (hrun : (k.tasks t).state = .running) (hsane : (k.tasks t).Sane) :
    DeliveryPass t k (signalDeliverCurrent k) := by
  have hdeliver : signalDeliverCurrent k =
      deliverLoop t (k.tasks t).sigPending (finRange 32).tail k := by
    simp [signalDeliverCurrent, hcur, hrun]
  obtain ⟨p, done, rest, hsplit, hp, hcases⟩ :=
    deliverLoop_cases t (k.tasks t).sigPending (finRange 32).tail k
  obtain ⟨hall, hpart⟩ := mem_signals done rest hsplit
  have hself : (k.setPending t p).tasks t = { k.tasks t with sigPending := p } := by
    simp [Kernel.setPending]
  have hother (j : Slot) (hj : j ≠ t) : (k.setPending t p).tasks j = k.tasks j :=
    Kernel.modify_other _ hj
  have hmasks (j : Slot) : ((k.setPending t p).tasks j).sigBlocked = (k.tasks j).sigBlocked ∧
      ((k.setPending t p).tasks j).handler = (k.tasks j).handler := by
    by_cases hj : j = t
    · rw [hj, hself]
      exact ⟨rfl, rfl⟩
    · rw [hother j hj]
      exact ⟨rfl, rfl⟩
  simp only [hsane.takes_iff] at hp hcases
  rw [hdeliver]
  rcases hcases with ⟨hrest, heq, hsafe⟩ | ⟨safe, last, rfl, hpend, htakes, happly, hsafe, heq⟩
  · -- no signal ends the task
    have hends (s : Fin 32) : ¬ (k.tasks t).Ends s := by
      rintro ⟨hne, hpending, hblocked, hends⟩
      rw [hsafe s ((hall hrest s).mpr hne) hpending hblocked] at hends
      cases hends
    rw [heq]
    refine ⟨fun sig => ?_, ?_, fun j hj sig h => ?_, hmasks⟩
    · rw [hself, Task.Pending, hp sig, hall hrest sig]
      unfold Task.Pending
      grind
    · simp [hself, hrun, hends]
    · rwa [hother j hj]
  · -- the task ends at the signal `last`
    obtain ⟨hne, hmem⟩ := hpart safe last rfl
    have hlast : (k.tasks t).Ends last := ⟨hne, hpend, htakes, happly⟩
    have hfirst (s : Fin 32) (hs : s < last) : ¬ (k.tasks t).Ends s := by
      rintro ⟨hne', hpending, hblocked, hends⟩
      rw [hsafe s ((hmem s).mpr ⟨hne', hs⟩) hpending hblocked] at hends
      cases hends
    have hcur' : (k.setPending t p).current = some t := hcur
    have hkeeps : KeepsSignals (fun _ => True) (k.setPending t p)
        (taskExitCurrent (k.setPending t p) (BitVec.ofNat 32 last.val)) :=
      taskExitCurrent_keepsSignals trivial _ _
    rw [heq]
    refine ⟨fun sig => ?_, ?_, fun j hj sig h => (hkeeps j).kept sig ?_, fun j => ?_⟩
    · rw [Task.Pending, taskExitCurrent_pending hcur', hself, hp sig, mem_append,
        mem_singleton, hmem sig]
      unfold Task.Pending
      grind
    · refine iff_of_true ?_ ⟨last, hlast⟩
      exact congrArg TaskCore.state (taskExitCurrent_switches hcur' _).self
    · rwa [hother j hj]
    · exact ⟨(hkeeps j).blocked.trans (hmasks j).1, (hkeeps j).handler.trans (hmasks j).2⟩

/-! ## One event -/

/-- An operation that creates no task, changes no mask and takes no blocked signal. -/
structure Holds (k k' : Kernel) : Prop where
  used : ∀ i, (k'.tasks i).state ≠ .unused → (k.tasks i).state ≠ .unused
  masks : ∀ i, (k'.tasks i).sigBlocked = (k.tasks i).sigBlocked ∧
    (k'.tasks i).handler = (k.tasks i).handler
  held : ∀ i sig, (k.tasks i).Pending sig → (k.tasks i).Blocked sig → (k'.tasks i).Pending sig

/-- What every event does: a blocked signal stays pending or is no longer blocked. -/
structure Books (k k' : Kernel) : Prop where
  sane : k'.Sane
  held : ∀ i sig, (k.tasks i).state ≠ .unused → (k.tasks i).Pending sig →
    (k.tasks i).Blocked sig → (k'.tasks i).Pending sig ∨ ¬ (k'.tasks i).Blocked sig

lemma Holds.refl (k) : Holds k k := ⟨fun _ h => h, fun _ => ⟨rfl, rfl⟩, fun _ _ h _ => h⟩

lemma Holds.trans (h₁ : Holds k k') (h₂ : Holds k' k'') : Holds k k'' where
  used i h := h₁.used i (h₂.used i h)
  masks i := ⟨(h₂.masks i).1.trans (h₁.masks i).1, (h₂.masks i).2.trans (h₁.masks i).2⟩
  held i sig hpend hblocked := by
    refine h₂.held i sig (h₁.held i sig hpend hblocked) ?_
    rwa [Task.Blocked, (h₁.masks i).1]

lemma Holds.books (h : Holds k k') (hsane : k.Sane) : Books k k' where
  sane i hi := (hsane i (h.used i hi)).congr (h.masks i).1 (h.masks i).2
  held i sig _ hpend hblocked := .inl (h.held i sig hpend hblocked)

lemma KeepsSignals.holds (h : KeepsSignals new k k')
    (hused : ∀ i, (k'.tasks i).state ≠ .unused → (k.tasks i).state ≠ .unused) : Holds k k' :=
  ⟨hused, fun i => ⟨(h i).blocked, (h i).handler⟩, fun i sig hpend _ => (h i).kept sig hpend⟩

lemma holds_modify (i) (change : Task → Task) (htasks : k'.tasks = (k.modify i change).tasks)
    (hstate : ∀ task, (change task).state = task.state)
    (hchange : ∀ task : Task, task.KeepsSignals (fun _ => True) (change task)) : Holds k k' := by
  refine (keepsSignals_modify i change htasks hchange).holds fun j hj => ?_
  rwa [htasks, Kernel.modify_keeps Task.state hstate k i j] at hj

lemma Holds.of_settles (h : KeepsSignals (fun _ => True) k k') (hs : Settles k k') : Holds k k' :=
  h.holds fun i hi => fun hunused => hi ((hs.unused i).mpr hunused)

lemma signalSend_holds (k) (t) (sig) : Holds k (signalSend k t sig) :=
  .of_settles (signalSend_keepsSignals t trivial) (signalSend_same k t sig).settles

lemma OneRunning.used (hone : OneRunning k) (hcur : k.current = some t) :
    (k.tasks t).state ≠ .unused := by
  simp [(hone t).mpr hcur]

lemma signalDeliverCurrent_holds (hone : OneRunning k) (hsane : k.Sane) :
    Holds k (signalDeliverCurrent k) := by
  cases hcur : k.current with
  | none =>
    have heq : signalDeliverCurrent k = k := by simp [signalDeliverCurrent, hcur]
    rw [heq]
    exact .refl k
  | some t =>
    have hpass := signalDeliverCurrent_pass hcur ((hone t).mpr hcur) (hsane t (hone.used hcur))
    refine ⟨fun i hi hunused => ?_, hpass.masks, fun i sig hpend hblocked => ?_⟩
    · exact hi (((signalDeliverCurrent_settles hone).unused i).mpr hunused)
    · by_cases hi : i = t
      · subst hi
        exact (hpass.self sig).mpr ⟨hpend, fun h => h.2.1 hblocked⟩
      · exact hpass.others i hi sig hpend

lemma sysKill_holds (hone : OneRunning k) (hsane : k.Sane) (pid sig : Word) (t) :
    Holds k (sysKill pid sig t k).2 := by
  unfold sysKill
  dsimp only
  split
  · exact .refl k
  · rename_i s _
    split
    · exact .refl k
    · split
      · exact .refl k
      · rename_i target _
        have hsend := signalSend_holds k target s
        split_ifs
        · exact .refl k
        · exact .refl k
        · have hone' := (signalSend_same k target s).settles.running hone
          exact hsend.trans (signalDeliverCurrent_holds hone' (hsend.books hsane).sane)
        · exact hsend

lemma Abandons.books (hab : Abandons k k') (hsane : k.Sane) : Books k k' := by
  have hkeep (i : Slot) (hi : (k.tasks i).state ≠ .unused) : k'.tasks i = k.tasks i :=
    (hab.tasks i).resolve_right fun h => hi h.1
  refine ⟨fun i hi => ?_, fun i sig hi hpend _ => .inl ?_⟩
  · rw [hab.state i] at hi
    rw [hkeep i hi]
    exact hsane i hi
  · rwa [hkeep i hi]

lemma Creates.books (hcre : Creates k k' i task) (hsane : k.Sane)
    (htask : task.Sane) : Books k k' := by
  refine ⟨fun j hj => ?_, fun j sig hj hpend _ => .inl ?_⟩
  · by_cases hji : j = i
    · rw [hji, hcre.self]
      exact htask
    · rw [hcre.other j hji] at hj ⊢
      exact hsane j hj
  · have hji : j ≠ i := by
      rintro rfl
      exact hj (allocSlot_unused hcre.alloc)
    rwa [hcre.other j hji]

lemma taskReap_holds (k) (t) : Holds k (taskReap k t) := by
  have hkeeps : KeepsSignals (fun _ => True) k (taskReap k t) := by
    intro j
    unfold taskReap
    dsimp only
    by_cases hj : j = t
    · subst hj
      split_ifs <;> exact .of_eq (by simp [releaseFiles]) (by simp [releaseFiles])
        (by simp [releaseFiles])
    · split_ifs <;> exact .of_eq (by simp [releaseFiles, hj]) (by simp [releaseFiles, hj])
        (by simp [releaseFiles, hj])
  refine hkeeps.holds fun j hj hunused => hj ?_
  have hcore := congrArg TaskCore.state (taskReap_core k t j)
  refine hcore.trans ?_
  split_ifs
  · rfl
  · exact hunused

/-! ## The calls that change masks and actions -/

lemma sysSigaction_books (hsane : k.Sane) (ext) (signum act oldact : Word) (t) :
    Books k (sysSigaction ext signum act oldact t k).2 := by
  unfold sysSigaction
  split
  · exact (Holds.refl k).books hsane
  · rename_i sig _
    split_ifs with hsig
    · exact (Holds.refl k).books hsane
    · exact (Holds.refl k).books hsane
    · exact (Holds.refl k).books hsane
    · exact (Holds.refl k).books hsane
    · simp only [not_or] at hsig
      refine ⟨fun i hi => ?_, fun i s _ hpend _ => .inl ?_⟩
      · by_cases hit : i = t
        · subst hit
          simp only [Kernel.modify_self] at hi ⊢
          obtain ⟨hkill, hstop, hkillAction, hstopAction⟩ := hsane i hi
          refine ⟨hkill, hstop, ?_, ?_⟩
          · exact (Function.update_of_ne (Ne.symm hsig.2.1) _ _).trans hkillAction
          · exact (Function.update_of_ne (Ne.symm hsig.2.2) _ _).trans hstopAction
        · simp only [Kernel.modify_other _ hit] at hi ⊢
          exact hsane i hi
      · by_cases hit : i = t
        · subst hit
          simpa [Task.Pending] using hpend
        · simpa [hit] using hpend

lemma blocked_change (hsane : task.Sane) (news : Word) (sig)
    (hsig : sig = sigKill ∨ sig = sigStop) :
    let allowed := news &&& ~~~(sigBit sigKill ||| sigBit sigStop)
    hasFlag (task.sigBlocked ||| allowed) (sigBit sig) = false ∧
      hasFlag (task.sigBlocked &&& ~~~allowed) (sigBit sig) = false ∧
      hasFlag allowed (sigBit sig) = false := by
  have hold : task.sigBlocked.getLsbD sig.val = false := by
    rw [← hasFlag_sigBit, ← Bool.not_eq_true]
    rcases hsig with rfl | rfl
    · exact hsane.kill
    · exact hsane.stop
  have hmask : (~~~(sigBit sigKill ||| sigBit sigStop)).getLsbD sig.val = false := by
    rcases hsig with rfl | rfl
    · decide
    · decide
  simp only [hasFlag_sigBit, BitVec.getLsbD_or, BitVec.getLsbD_and, hold, hmask]
  simp

lemma sysSigprocmask_books (hsane : k.Sane) (ext) (how set oldset : Word) (t) :
    Books k (sysSigprocmask ext how set oldset t k).2 := by
  have hmasked (change : Word → Word)
      (hchange : ∀ task : Task, task.Sane → ∀ sig, sig = sigKill ∨ sig = sigStop →
        hasFlag (change task.sigBlocked) (sigBit sig) = false) :
      Books k (k.modify t fun task => { task with sigBlocked := change task.sigBlocked }) := by
    refine ⟨fun i hi => ?_, fun i s _ hpend _ => .inl ?_⟩
    · by_cases hit : i = t
      · subst hit
        simp only [Kernel.modify_self] at hi ⊢
        have hold := hsane i hi
        refine ⟨?_, ?_, hold.killAction, hold.stopAction⟩
        · exact Bool.not_eq_true _ ▸ hchange _ hold sigKill (.inl rfl)
        · exact Bool.not_eq_true _ ▸ hchange _ hold sigStop (.inr rfl)
      · simp only [Kernel.modify_other _ hit] at hi ⊢
        exact hsane i hi
    · by_cases hit : i = t
      · subst hit
        simpa [Task.Pending] using hpend
      · simpa [hit] using hpend
  unfold sysSigprocmask
  split_ifs
  · exact (Holds.refl k).books hsane
  · exact (Holds.refl k).books hsane
  · exact (Holds.refl k).books hsane
  · exact hmasked (· ||| ext.word &&& ~~~(sigBit sigKill ||| sigBit sigStop))
      fun task htask sig hsig => (blocked_change htask ext.word sig hsig).1
  · exact hmasked (· &&& ~~~(ext.word &&& ~~~(sigBit sigKill ||| sigBit sigStop)))
      fun task htask sig hsig => (blocked_change htask ext.word sig hsig).2.1
  · exact hmasked (fun _ => ext.word &&& ~~~(sigBit sigKill ||| sigBit sigStop))
      fun task htask sig hsig => (blocked_change htask ext.word sig hsig).2.2
  · exact (Holds.refl k).books hsane

/-! ## Runs -/

lemma dispatch_books {f : Regs} {ret : Word} (hone : OneRunning k)
    (hsane : k.Sane) (hcur : k.current = some t) (hdisp : dispatch ext f t k = some (ret, k')) :
    Books k k' := by
  have hpair {result : Word × Kernel} (heq : some result = some (ret, k'))
      (hresult : Books k result.2) : Books k k' := by
    obtain rfl : result = (ret, k') := some.inj heq
    exact hresult
  have hsame : Books k k := (Holds.refl k).books hsane
  have hfds {α : Type} (value : α → Word) (call : Descriptors → FileTable → α × Descriptors ×
      FileTable) : Books k (k.withFds t value call).2 := by
    refine Holds.books (holds_modify t
      (fun task => { task with fds := (call (k.tasks t).fds k.files).2.1 }) rfl ?_ ?_) hsane
    · exact fun _ => rfl
    · exact fun _ => .of_eq rfl rfl rfl
  have hmem (call : MemState → Word × MemState) : Books k (k.withMem t call).2 := by
    refine Holds.books (holds_modify t (fun task => task.setBrk (call (k.memState t)).2.brkStart
      (call (k.memState t)).2.brkCurr) rfl ?_ ?_) hsane
    · exact fun _ => rfl
    · exact fun _ => .of_eq rfl rfl rfl
  unfold dispatch at hdisp
  cases hcall : Call.ofNr f.rax
  all_goals
    rw [hcall] at hdisp
    dsimp only at hdisp
  case read =>
    refine hpair hdisp ?_
    unfold sysRead
    split_ifs
    · exact (signalSend_holds k t sigInt).books hsane
    · exact hsame
  case openFile | close | dup2 | accept => exact hpair hdisp (hfds _ _)
  case mmap | munmap | brk => exact hpair hdisp (hmem _)
  case sigaction => exact hpair hdisp (sysSigaction_books hsane ext _ _ _ t)
  case sigprocmask => exact hpair hdisp (sysSigprocmask_books hsane ext _ _ _ t)
  case pipe | socket =>
    split at hdisp
    · exact hpair hdisp hsame
    · exact hpair hdisp (hfds _ _)
  case yield =>
    exact hpair hdisp
      ((Holds.of_settles (taskYield_keepsSignals k) (taskYield_settles hone)).books hsane)
  case fork =>
    refine hpair hdisp ?_
    rcases sysFork_cases k t with hab | ⟨i, kstack, pml4, -, -, hcre⟩
    · exact hab.books hsane
    · exact hcre.books hsane ((hsane t (hone.used hcur)).congr rfl rfl)
  case execve =>
    rcases sysExecve_cases hdisp with ⟨m, rfl⟩ | ⟨m, info, pml4, -, -, rfl⟩
    · exact ⟨hsane, fun _ _ _ h _ => .inl h⟩
    · refine Holds.books
        (holds_modify t (fun task => task.replaced info ext.sp pml4) rfl ?_ ?_) hsane
      · exact fun _ => rfl
      · exact fun _ => .of_eq rfl rfl rfl
  case exit =>
    exact hpair hdisp ((Holds.of_settles (taskExitCurrent_keepsSignals trivial k _)
      (taskExitCurrent_settles hone _)).books hsane)
  case wait4 =>
    refine hpair hdisp ?_
    rw [sysWait4_kernel]
    rcases taskWait_cases k (f.rdi.setWidth 32) with ⟨heq, -⟩ | ⟨p, i, -, -, -, heq⟩
    · rwa [heq]
    · rw [heq]
      exact (taskReap_holds k i).books hsane
  case kill => exact hpair hdisp ((sysKill_holds hone hsane _ _ t).books hsane)
  case archPrctl =>
    refine hpair hdisp ?_
    unfold sysArchPrctl
    split_ifs
    · exact ⟨hsane, fun _ _ _ h _ => .inl h⟩
    · exact hsame
    · exact hsame
    · exact hsame
  case other => exact hpair hdisp hsame

def Task.signals (task : Task) : TaskState × Word × Word × (Fin 32 → Word) :=
  (task.state, task.sigPending, task.sigBlocked, task.handler)

lemma Books.congr {a b : Kernel} (h : Books a b)
    (ha : ∀ i, (a.tasks i).signals = (k.tasks i).signals)
    (hb : ∀ i, (k'.tasks i).signals = (b.tasks i).signals) : Books k k' := by
  simp only [Task.signals, Prod.mk.injEq] at ha hb
  refine ⟨fun i hi => ?_, fun i sig hi hpend hblocked => ?_⟩
  · rw [(hb i).1] at hi
    exact (h.sane i hi).congr (hb i).2.2.1 (hb i).2.2.2
  · have hheld := h.held i sig
    simp only [Task.Pending, Task.Blocked, ha i, (hb i).2.1, (hb i).2.2.1] at hheld hpend hblocked ⊢
    exact hheld hi hpend hblocked

lemma Kernel.step_books {e : Event} (hone : OneRunning k) (hsane : k.Sane)
    (hstep : k.step e = some k') : Books k k' := by
  cases e with
  | create | exec =>
    obtain ⟨-, hab | ⟨i, task, hcre, htask⟩⟩ := Kernel.step_makes rfl hstep
    · exact hab.books hsane
    · refine hcre.books hsane ⟨?_, ?_, ?_, ?_⟩
      · simp [Task.Blocked, htask.blocked, hasFlag]
      · simp [Task.Blocked, htask.blocked, hasFlag]
      all_goals
        rw [htask.handler]
        rfl
  | start =>
    simp only [Kernel.step, ite_none_right_eq_some, taskStartUser] at hstep
    obtain ⟨-, hstart⟩ := hstep
    cases hpick : pickNext k none with
    | none => simp [hpick] at hstart
    | some n =>
      simp only [hpick, some.injEq] at hstart
      obtain rfl := hstart
      have hrun : KeepsSignals (fun _ => True) k (runTask k n) := runTask_keepsSignals k n
      refine Holds.books ((hrun.holds fun i hi hunused => hi ?_).trans (holds_modify n
        (fun task => { task with fds := fdInitTaskStdio task.fds }) rfl ?_ ?_)) hsane
      · have hne : i ≠ n := by
          rintro rfl
          simp [pickNext_ready hpick] at hunused
        rw [runTask_tasks, Kernel.modify_other _ hne, hunused]
      · exact fun _ => rfl
      · exact fun _ => .of_eq rfl rfl rfl
  | enter ext f =>
    rcases syscallEnter_cases hstep with ⟨-, rfl⟩ | ⟨t, ret, k₁, hcur, hdisp, rfl⟩
    · exact (Holds.refl _).books hsane
    · have hframe (i : Slot) : ((saveFrame f t k).tasks i).signals = (k.tasks i).signals := by
        refine Kernel.modify_keeps Task.signals ?_ k t i
        exact fun _ => rfl
      have hresult (i : Slot) : ((saveResult t ret k₁).tasks i).signals = (k₁.tasks i).signals := by
        unfold saveResult
        split_ifs
        · refine Kernel.modify_keeps Task.signals ?_ k₁ t i
          exact fun _ => rfl
        · rfl
      have hone' : OneRunning (saveFrame f t k) := hone.congr rfl (saveFrame_state f t k)
      have hsane' := (Books.congr ((Holds.refl k).books hsane) (fun _ => rfl) hframe).sane
      exact (dispatch_books hone' hsane' hcur hdisp).congr hframe hresult
  | leave preempt =>
    obtain rfl := some.inj hstep
    have hdeliver := signalDeliverCurrent_holds hone hsane
    simp only [syscallLeave]
    split_ifs
    · have hone' := (signalDeliverCurrent_settles hone).running hone
      exact (hdeliver.trans (.of_settles (taskYield_keepsSignals _)
        (taskYield_settles hone'))).books hsane
    · exact hdeliver.books hsane

/-- In every reachable state the masks and actions are as they should be; every event leaves
blocked signals pending unless it unblocks them; and a pass of delivery, in any state with such
masks, takes what it should. -/
theorem signals_booked {k₀ : Kernel}
    (hreach : Reaches Kernel.step (fun _ _ _ h => h) (fun _ _ => True) (taskInit k₀) () k ()) :
    k.Sane ∧
      (∀ e k', k.step e = some k' → ∀ i sig, (k.tasks i).state ≠ .unused →
        (k.tasks i).Pending sig → (k.tasks i).Blocked sig →
        (k'.tasks i).Pending sig ∨ ¬ (k'.tasks i).Blocked sig) ∧
      ∀ k₁ t, k₁.Sane → k₁.current = some t → (k₁.tasks t).state = .running →
        DeliveryPass t k₁ (signalDeliverCurrent k₁) := by
  have hinit : (taskInit k₀).Sane := fun i hi => absurd rfl hi
  obtain ⟨hone, hsane⟩ := hreach.invariant (fun k _ => OneRunning k ∧ k.Sane)
    ⟨oneRunning_init k₀, hinit⟩ fun _ _ _ _ h _ hstep =>
      ⟨Kernel.step_oneRunning h.1 hstep, (Kernel.step_books h.1 h.2 hstep).sane⟩
  refine ⟨hsane, fun e k' hstep => (Kernel.step_books hone hsane hstep).held, ?_⟩
  intro k₁ t hsane₁ hcur hrun
  exact signalDeliverCurrent_pass hcur hrun (hsane₁ t (by simp [hrun]))

theorem killed_task_booked :
    ∃ k, run Kernel.step (fun _ _ _ h => h) killRun twoTasks () = some (k, ()) ∧
      (k.tasks 1).Pending sigKill ∧ k.Sane := by
  have hreach := (twoTasks_reached (fun _ _ _ h => h) (fun _ _ => True) () fun _ => trivial).run
    killRun (fun _ _ _ => trivial) rfl
  exact ⟨_, rfl, by decide, (signals_booked hreach).1⟩

end HelixOS
