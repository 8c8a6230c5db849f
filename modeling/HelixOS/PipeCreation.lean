import HelixOS.HeapBorrows
import HelixOS.MemorySyscalls
import HelixOS.Pipes

/-!
# The clean-up of `sys_pipe`

`sys_pipe` takes three blocks of the heap and two slots of the descriptor table.  A block
that it has to give back goes through `pipe_close` of an end, which frees the pipe only
with the last end that is linked to it.
-/

namespace HelixOS

open Function List

/-! ## The call -/

structure EndFile where
  pipe : ℕ
  writable : Bool
  refcount : BitVec 32
  deriving DecidableEq

/-- The heap, the descriptor table of the caller, and the objects by their addresses. -/
structure PipeStore where
  heap : HeapRun
  fds : Descriptors
  pipes : ℕ → HelixPipe
  files : ℕ → EndFile

/-- `sizeof(struct helix_pipe)` -/
def pipeSize : ℕ := 4128

/-- `sizeof(struct vfs_file)` -/
def fileSize : ℕ := 56

namespace PipeStore

/-- `helix_pipe_create` -/
def create (s : PipeStore) : Option (ℕ × PipeStore) :=
  (s.heap.malloc pipeSize).map fun (p, heap) =>
    (p, if p = 0 then { s with heap }
      else { s with heap, pipes := update s.pipes p (helixPipeCreate (s.pipes p).buf) })

/-- `helix_pipe_wrap` -/
def wrap (s : PipeStore) (p : ℕ) (isWrite : Bool) : Option (ℕ × PipeStore) :=
  (s.heap.malloc fileSize).map fun (f, heap) =>
    (f, if f = 0 then { s with heap }
      else
        { s with
          heap
          files := update s.files f ⟨p, isWrite, 0#32⟩
          pipes := update s.pipes p (helixPipeWrap (s.pipes p) f isWrite) })

/-- `vfs_close` of an end: `pipe_close` -/
def close (s : PipeStore) (f : ℕ) : Option PipeStore := do
  let p := (s.files f).pipe
  let closed := pipeClose (s.pipes p) f (s.files f).writable
  let heap ← if closed.2 then s.heap.free p else some s.heap
  let heap ← heap.free f
  some { s with heap, pipes := update s.pipes p closed.1 }

def put (s : PipeStore) (i : Fin 16) (f : ℕ) : PipeStore :=
  { s with
    fds := update s.fds i (some f)
    files := update s.files f { s.files f with refcount := 1#32 } }

/-- `fd_install` -/
def install (s : PipeStore) (f : ℕ) : Option (Fin 16) × PipeStore :=
  match (finRange 16).find? fun i => (s.fds i).isNone with
  | some i => (some i, s.put i f)
  | none => (none, s)

/-- `fd_close` of a slot that `sys_pipe` has filled, if it has. -/
def closeFd (s : PipeStore) (slot : Option (Fin 16)) : Option PipeStore :=
  match slot, slot.bind s.fds with
  | some i, some f =>
    let count := (s.files f).refcount - 1#32
    let s :=
      { s with
        fds := update s.fds i none
        files := update s.files f { s.files f with refcount := count } }
    if 0 < count.toInt then some s else s.close f
  | _, _ => some s

def closeIf (s : PipeStore) (f : ℕ) : Option PipeStore := if f ≠ 0 then s.close f else some s

def installBoth (s : PipeStore) (r w : ℕ) :
    Option (Except Errno (Fin 16 × Fin 16) × PipeStore) :=
  let rf := s.install r
  let wf := rf.2.install w
  match rf.1, wf.1 with
  | some i, some j => some (.ok (i, j), wf.2)
  | _, _ => do
      let s ← wf.2.closeFd rf.1
      let s ← s.closeFd wf.1
      some (.error .enospc, s)

def sysPipe (s : PipeStore) (ptr : Word) :
    Option (Except Errno (Fin 16 × Fin 16) × PipeStore) :=
  if userPtrOk ptr 8#64 = false then some (.error .efault, s)
  else do
    let (p, s) ← s.create
    if p = 0 then some (.error .enomem, s)
    else do
      let (r, s) ← s.wrap p false
      let (w, s) ← s.wrap p true
      if r = 0 ∨ w = 0 then do
        let s ← s.closeIf r
        let s ← s.closeIf w
        some (.error .enomem, s)
      else s.installBoth r w

/-! ## All or nothing -/

/-- The descriptors are two free slots that refer to the ends of a pipe that did not exist. -/
structure Opened (s s' : PipeStore) (i j : Fin 16) : Prop where
  ne : i ≠ j
  free : s.fds i = none ∧ s.fds j = none
  others : ∀ k, k ≠ i → k ≠ j → s'.fds k = s.fds k
  ends : ∃ p r w, s'.fds i = some r ∧ s'.fds j = some w ∧
    s'.files r = ⟨p, false, 1#32⟩ ∧ s'.files w = ⟨p, true, 1#32⟩ ∧
    (s'.pipes p).readEnd = some r ∧ (s'.pipes p).writeEnd = some w ∧ (s'.pipes p).count = 0 ∧
    s'.heap.live.Perm ((w, fileSize) :: (r, fileSize) :: (p, pipeSize) :: s.heap.live) ∧
    (s'.heap.live.map Prod.fst).Nodup

/-- After an error nothing has changed: the table, the live blocks, and where they lie. -/
def AllOrNothing (s : PipeStore) (result : Except Errno (Fin 16 × Fin 16)) (s' : PipeStore) :
    Prop :=
  match result with
  | .error _ => s'.fds = s.fds ∧ s'.heap.live.Perm s.heap.live ∧
      ∀ l ∈ s.heap.live, s'.heap.heap.usedBlock l.1 = s.heap.heap.usedBlock l.1
  | .ok (i, j) => Opened s s' i j

/-- How many of the requests the heap can serve one after the other. -/
def granted : List ℕ → HeapRun → ℕ
  | [], _ => 0
  | size :: sizes, heap =>
    match heap.malloc size with
    | none => 0
    | some (p, heap) => if p = 0 then 0 else granted sizes heap + 1

/-- The pointer is refused, or the heap has room for none, for all but the last, or for all blocks
and the table for both slots. -/
def CleansUp (s : PipeStore) (ptr : Word) : Prop :=
  userPtrOk ptr 8#64 = false ∨
    granted [pipeSize, fileSize, fileSize] s.heap = 0 ∨
    granted [pipeSize, fileSize, fileSize] s.heap = 2 ∨
    granted [pipeSize, fileSize, fileSize] s.heap = 3 ∧
      ∃ i j, i ≠ j ∧ s.fds i = none ∧ s.fds j = none

variable {s : PipeStore} {h : HeapRun} {p r w : ℕ}

def withEnds (s : PipeStore) (h : HeapRun) (p r w : ℕ) : PipeStore where
  heap := h
  fds := s.fds
  pipes := update s.pipes p
    (helixPipeWrap (helixPipeWrap (helixPipeCreate (s.pipes p).buf) r false) w true)
  files := update (update s.files r ⟨p, false, 0#32⟩) w ⟨p, true, 0#32⟩

@[simp] lemma closeFd_none (s : PipeStore) : s.closeFd none = some s := rfl

lemma install_none (hfull : ∀ i, s.fds i ≠ none) (f : ℕ) : s.install f = (none, s) := by
  have hfind : (finRange 16).find? (fun i => (s.fds i).isNone) = none := by
    simpa [find?_eq_none] using hfull
  rw [install, hfind]

lemma install_some {i : Fin 16} (hi : s.fds i = none) (f : ℕ) :
    ∃ j, s.fds j = none ∧ s.install f = (some j, s.put j f) := by
  cases hfind : (finRange 16).find? fun i => (s.fds i).isNone with
  | none =>
    have := find?_eq_none.mp hfind i (mem_finRange i)
    simp [hi] at this
  | some j =>
    refine ⟨j, by simpa using find?_some hfind, ?_⟩
    rw [install, hfind]

/-- With three blocks taken, all depends on the slots: with fewer than two, the pipe and at
least its write end stay. -/
theorem installBoth_iff (hne : r ≠ w)
    (hb : Borrows s.heap h [(w, fileSize), (r, fileSize), (p, pipeSize)]) :
    ∃ result s', (s.withEnds h p r w).installBoth r w = some (result, s') ∧
      (AllOrNothing s result s' ↔ ∃ i j, i ≠ j ∧ s.fds i = none ∧ s.fds j = none) := by
  obtain ⟨frees, hintact⟩ := hb.intact
  by_cases hfree : ∃ i, s.fds i = none
  · obtain ⟨i₀, hi₀⟩ := hfree
    obtain ⟨i, hi, hri⟩ := install_some (s := s.withEnds h p r w) hi₀ r
    have hfds : ((s.withEnds h p r w).put i r).fds = update s.fds i (some r) := rfl
    by_cases hsecond : ∃ j, ((s.withEnds h p r w).put i r).fds j = none
    · -- two slots
      obtain ⟨j₀, hj₀⟩ := hsecond
      obtain ⟨j, hj, hwj⟩ := install_some hj₀ w
      have hij : j ≠ i := by
        rintro rfl
        simp [hfds] at hj
      have hjs : s.fds j = none := by simpa [hfds, hij] using hj
      refine ⟨.ok (i, j), ((s.withEnds h p r w).put i r).put j w, by simp [installBoth, hri, hwj],
        iff_of_true ?_ ⟨i, j, hij.symm, hi, hjs⟩⟩
      refine ⟨hij.symm, ⟨hi, hjs⟩, fun k hki hkj => ?_, p, r, w, ?_, ?_, ?_, ?_, ?_, ?_, ?_,
        hb.live, hintact.ptr_nodup⟩
      · simp [put, withEnds, hki, hkj]
      · simp [put, hij.symm]
      · simp [put]
      · simp [put, withEnds, hne]
      · simp [put, withEnds, hne.symm]
      · simp [put, withEnds, helixPipeWrap]
      · simp [put, withEnds, helixPipeWrap]
      · simp [put, withEnds, helixPipeWrap, helixPipeCreate]
    · -- one slot: the read end is freed, but the write end is still linked to the pipe
      push Not at hsecond
      have hone : ¬ ∃ i j, i ≠ j ∧ s.fds i = none ∧ s.fds j = none := by
        rintro ⟨a, b, hab, ha, hb'⟩
        have honly (k : Fin 16) (hk : s.fds k = none) : k = i := by
          by_contra hki
          exact hsecond k (by simpa [hfds, hki] using hk)
        exact hab ((honly a ha).trans (honly b hb').symm)
      obtain ⟨h', hgone, hb'⟩ := (hb.perm (List.Perm.swap _ _ _)).free
      have hclosed : ∃ s', ((s.withEnds h p r w).put i r).closeFd (some i) = some s' ∧
          s'.heap = h' := by
        simp [closeFd, close, put, withEnds, hne, pipeClose, helixPipeWrap, hgone]
      obtain ⟨s', hs', hheap⟩ := hclosed
      refine ⟨.error .enospc, s', by
        simp [installBoth, hri, install_none hsecond, hs'], iff_of_false ?_ hone⟩
      rintro ⟨-, hlive, -⟩
      have hlen := hlive.length_eq
      have hlen' := hb'.live.length_eq
      rw [hheap] at hlen
      simp only [length_append, length_cons, length_nil] at hlen hlen'
      omega
  · -- no slot: all three blocks stay
    push Not at hfree
    have hfull := install_none (s := s.withEnds h p r w) hfree
    refine ⟨.error .enospc, s.withEnds h p r w, by simp [installBoth, hfull], iff_of_false ?_ ?_⟩
    · rintro ⟨-, hlive, -⟩
      have hlen := hb.live.length_eq.symm.trans hlive.length_eq
      simp only [length_append, length_cons, length_nil] at hlen
      omega
    · rintro ⟨i, -, -, hi, -⟩
      exact hfree i hi

lemma allOrNothing_error {s' : PipeStore} {e : Errno} (hfds : s'.fds = s.fds)
    (hb : Borrows s.heap s'.heap []) : AllOrNothing s (.error e) s' :=
  ⟨hfds, hb.live, hb.kept⟩

/-- Exactly when `sys_pipe` is all or nothing. -/
theorem sysPipe_all_or_nothing_iff {m : ByteMemory.Ram} {phys limit : ℕ} {h₀ : Heap}
    (hinit : heapInit m phys = some h₀) (hphys : phys + heapSize < 2 ^ 64)
    (hreach : HeapRun.Reached limit h₀ s.heap) (ptr : Word) :
    ∃ result s', s.sysPipe ptr = some (result, s') ∧
      (AllOrNothing s result s' ↔ CleansUp s ptr) := by
  obtain ⟨frees, hs⟩ := (hreach.intact hinit hphys).2
  unfold CleansUp
  by_cases hptr : userPtrOk ptr 8#64 = false
  · exact ⟨.error .efault, s, by rw [sysPipe, if_pos hptr],
      iff_of_true (allOrNothing_error rfl (.start hs)) (.inl hptr)⟩
  rw [sysPipe, if_neg hptr, or_iff_right hptr]
  obtain ⟨p, h₁, hp, ⟨rfl, hb₁⟩ | ⟨hp0, hb₁⟩⟩ := (Borrows.start hs).malloc pipeSize
  · -- no pipe
    refine ⟨.error .enomem, { s with heap := h₁ }, by simp [create, hp],
      iff_of_true (allOrNothing_error rfl hb₁) (.inl (by simp [granted, hp]))⟩
  obtain ⟨r, h₂, hr, ⟨rfl, hb₂⟩ | ⟨hr0, hb₂⟩⟩ := hb₁.malloc fileSize
  · -- neither end: nobody frees the pipe
    obtain rfl := hb₁.malloc_refused hr
    refine ⟨.error .enomem, _, by simp [create, wrap, hp, hp0, hr, closeIf]; rfl,
      iff_of_false ?_ ?_⟩
    · rintro ⟨-, hlive, -⟩
      have hlen := hb₁.live.length_eq.symm.trans hlive.length_eq
      simp only [length_append, length_cons, length_nil] at hlen
      omega
    · simp [granted, hp, hp0, hr]
  obtain ⟨w, h₃, hw, ⟨rfl, hb₃⟩ | ⟨hw0, hb₃⟩⟩ := hb₂.malloc fileSize
  · -- only the read end, which takes the pipe with it
    obtain ⟨h₄, hfree₄, hb₄⟩ := (hb₃.perm (List.Perm.swap _ _ _)).free
    obtain ⟨h₅, hfree₅, hb₅⟩ := hb₄.free
    have hcount : granted [pipeSize, fileSize, fileSize] s.heap = 2 := by
      simp [granted, hp, hp0, hr, hr0, hw]
    refine ⟨.error .enomem, { s with
        heap := h₅
        pipes := update s.pipes p (helixPipeCreate (s.pipes p).buf)
        files := update s.files r ⟨p, false, 0#32⟩ }, ?_,
      iff_of_true (allOrNothing_error rfl hb₅) (.inr (.inl hcount))⟩
    simp [create, wrap, hp, hp0, hr, hr0, hw, closeIf, close, pipeClose, helixPipeWrap,
      helixPipeCreate, hfree₄, hfree₅]
  · -- all three
    obtain ⟨frees₃, hs₃⟩ := hb₃.intact
    have hne : r ≠ w := by
      have hnodup := (hb₃.live.map Prod.fst).nodup_iff.mp hs₃.ptr_nodup
      simp only [cons_append, map_cons, nodup_cons, mem_cons, not_or] at hnodup
      exact Ne.symm hnodup.1.1
    have hcount : granted [pipeSize, fileSize, fileSize] s.heap = 3 := by
      simp [granted, hp, hp0, hr, hr0, hw, hw0]
    obtain ⟨result, s', hrun, hiff⟩ := installBoth_iff hne hb₃
    refine ⟨result, s', ?_, ?_⟩
    · rw [← hrun]
      simp [create, wrap, hp, hp0, hr, hr0, hw, hw0, withEnds]
    · simpa [hcount] using hiff

def onEmptyHeap (fds : Descriptors) : PipeStore where
  heap := ⟨emptyHeap, []⟩
  fds := fds
  pipes _ := helixPipeCreate fun _ => 0#8
  files _ := ⟨0, false, 0#32⟩

theorem sysPipe_opens_on_empty_heap : ∃ result s',
    (onEmptyHeap fun _ => none).sysPipe 0x40000000#64 = some (result, s') ∧
      AllOrNothing (onEmptyHeap fun _ => none) result s' := by
  obtain ⟨result, s', hrun, hiff⟩ := sysPipe_all_or_nothing_iff
    (s := onEmptyHeap fun _ => none) heapInit_emptyHeap (by decide)
    (show HeapRun.Reached 0 emptyHeap ⟨emptyHeap, []⟩ from .start) 0x40000000#64
  refine ⟨result, s', hrun, hiff.mpr (.inr (.inr (.inr ⟨?_, 0, 1, by decide, rfl, rfl⟩)))⟩
  decide +kernel

/-- One free slot: the call fails, and the pipe and its write end stay allocated. -/
theorem sysPipe_leaks_with_one_slot : ∃ result s',
    (onEmptyHeap fun i => if i = 3 then none else some 0).sysPipe 0x40000000#64 =
        some (result, s') ∧
      s'.heap.live.map Prod.snd = [fileSize, pipeSize] ∧
      ¬ AllOrNothing (onEmptyHeap fun i => if i = 3 then none else some 0) result s' := by
  have hcall : ((onEmptyHeap fun i => if i = 3 then none else some 0).sysPipe 0x40000000#64).map
      (fun r => (r.1.toBool, r.2.heap.live.map Prod.snd)) = some (false, [fileSize, pipeSize]) := by
    decide +kernel
  obtain ⟨⟨result, s'⟩, hrun, heq⟩ := Option.map_eq_some_iff.mp hcall
  obtain ⟨herror, hlive⟩ := Prod.mk.inj heq
  refine ⟨result, s', hrun, hlive, ?_⟩
  cases result with
  | ok ends => cases herror
  | error e =>
    rintro ⟨-, hperm, -⟩
    rw [hperm.eq_nil] at hlive
    cases hlive

end PipeStore

end HelixOS
