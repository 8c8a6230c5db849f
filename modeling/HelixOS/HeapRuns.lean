import HelixOS.HeapOperations
import HelixOS.TrackedRuns

/-!
# Runs of the heap

Sequences of `kmalloc` and `kfree` from `heap_init` on, with the owners of the blocks
writing into them in between.
-/

namespace HelixOS

open ByteMemory Tilings TrackedRuns Function Option List

/-- A heap and the pointers that it handed out and has not taken back, each with the
number of bytes that were asked for. -/
structure HeapRun where
  heap : Heap
  live : List (ℕ × ℕ)

inductive HeapEvent where
  | malloc (size : ℕ)
  | free (ptr : ℕ)
  | write (x : ℕ) (v : BitVec 8)

/-- The block of a pointer: its header is the word in front of it. -/
def Heap.usedBlock (h : Heap) (ptr : ℕ) : Block := ⟨ptr - 8, h.nodeSize (ptr - 8)⟩

namespace HeapRun

variable {s s' : HeapRun} {e : HeapEvent} {m : Ram} {h₀ : Heap} {phys limit : ℕ}

def step (s : HeapRun) : HeapEvent → Option HeapRun
  | .malloc size => (kmalloc s.heap size).map fun r =>
    ⟨r.2, if r.1 = 0 then s.live else (r.1, size) :: s.live⟩
  | .free ptr => (kfree s.heap ptr).map fun h => ⟨h, s.live.eraseP (·.1 == ptr)⟩
  | .write x v => some { s with heap := { s.heap with mem := update s.heap.mem x v } }

def Payload (s : HeapRun) (ptr x : ℕ) : Prop :=
  ptr ≤ x ∧ x < (s.heap.usedBlock ptr).finish

/-- Only live pointers are freed, and only the payload of live blocks is written. -/
def Allowed (limit : ℕ) (s : HeapRun) : HeapEvent → Prop
  | .malloc size => size ≤ limit
  | .free ptr => ptr = 0 ∨ ∃ l ∈ s.live, l.1 = ptr
  | .write x _ => ∃ l ∈ s.live, s.Payload l.1 x

/-- The states that a heap goes through; a request asks for at most `limit` bytes. -/
abbrev Reached (limit : ℕ) (h₀ : Heap) (s : HeapRun) : Prop :=
  Reaches step (fun _ _ _ _ => ()) (Allowed limit) ⟨h₀, []⟩ () s ()

def blocks (s : HeapRun) : List Block := s.live.map fun l => s.heap.usedBlock l.1

structure Intact (s : HeapRun) (frees : List Block) : Prop where
  sound : s.heap.Sound frees s.blocks
  ptr_ge : ∀ l ∈ s.live, 8 ≤ l.1
  asked : ∀ l ∈ s.live, l.2 + 23 < 2 ^ 64 → l.2 + 8 ≤ (s.heap.usedBlock l.1).size

/-! ## The start -/

lemma heapInit_sound (hinit : heapInit m phys = some h₀) (hphys : phys + heapSize < 2 ^ 64) :
    h₀.base = phys ∧ h₀.Sound [⟨phys, heapSize⟩] [] := by
  simp only [heapInit] at hinit
  split_ifs at hinit with hzero
  obtain rfl := some.inj hinit
  refine ⟨rfl, ⟨rfl, hzero, show minBlock ≤ heapSize by decide, ?_, ?_⟩, ?_, ?_, by simp, rfl,
    hphys,
    Nat.pos_of_ne_zero hzero⟩
  · exact (Heap.nodeSize_setNext phys).trans (Heap.nodeSize_setSize (by decide) phys)
  · exact Heap.nodeNext_setNext (by decide) phys
  · refine ⟨by simp [heapSize], by simp [Block.finish, Heap.setNext, Heap.setSize],
      by simp, fun x hlo hhi => ⟨_, mem_singleton.mpr rfl, hlo, hhi⟩⟩
  · intro b hb c hc
    rw [mem_singleton.mp hb, mem_singleton.mp hc]
    simp [Block.finish, heapSize]

/-! ## One step -/

section
variable {frees frees' : List Block} {h' : Heap} {live' : List (ℕ × ℕ)}

lemma Intact.header_mem (hs : s.Intact frees) {l : ℕ × ℕ} (hl : l ∈ s.live) {x : ℕ}
    (hlo : l.1 - 8 ≤ x) (hhi : x < l.1 + 8) : (s.heap.usedBlock l.1).Has x := by
  have hlarge := hs.sound.large _ (mem_map_of_mem hl)
  simp only [Block.Has, Block.finish, Heap.usedBlock, minBlock] at hlarge ⊢
  omega

lemma usedBlock_congr {h h' : Heap} {ptr : ℕ}
    (hsame : ∀ x, ptr - 8 ≤ x → x < ptr - 8 + 8 → h'.mem x = h.mem x) :
    h'.usedBlock ptr = h.usedBlock ptr := by
  simp only [Heap.usedBlock, Heap.nodeSize, load_congr hsame]

section

variable (hs : s.Intact frees) (hsub : live' ⊆ s.live)
  (hkept : s.heap.Untouched h' (live'.map fun l => s.heap.usedBlock l.1))
include hs hsub hkept

lemma Intact.usedBlock_kept {l : ℕ × ℕ} (hl : l ∈ live') :
    h'.usedBlock l.1 = s.heap.usedBlock l.1 := by
  refine usedBlock_congr fun x hlo hhi => hkept.bytes _ (mem_map_of_mem hl) x ?_
  exact hs.header_mem (hsub hl) hlo (by have := hs.ptr_ge l (hsub hl); omega)

lemma Intact.blocks_kept :
    (live'.map fun l => h'.usedBlock l.1) = live'.map fun l => s.heap.usedBlock l.1 :=
  map_congr_left fun _ hl => hs.usedBlock_kept hsub hkept hl

end

def PayloadKept (s s' : HeapRun) : Prop :=
  ∀ l ∈ s.live, l ∈ s'.live → ∀ x, s.Payload l.1 x → s'.heap.mem x = s.heap.mem x

def BlocksKept (s s' : HeapRun) : Prop :=
  ∀ l ∈ s.live, l ∈ s'.live → s'.heap.usedBlock l.1 = s.heap.usedBlock l.1

lemma le_needOf {size : ℕ} (hsize : size + 23 < 2 ^ 64) : size + 8 ≤ needOf size := by
  rw [needOf, Nat.mod_eq_of_lt (by omega)]
  omega

lemma Intact.malloc (hs : s.Intact frees) (size : ℕ) :
    ∃ s' frees', s.step (.malloc size) = some s' ∧ s'.Intact frees' ∧ s.PayloadKept s' ∧
      s.BlocksKept s' ∧ s'.heap.base = s.heap.base := by
  have hpayload : ∀ l ∈ s.live, ∀ x, s.Payload l.1 x → (s.heap.usedBlock l.1).Has x :=
    fun l _ x hx => ⟨(Nat.sub_le _ _).trans hx.1, hx.2⟩
  rcases kmalloc_spec hs.sound size with
    ⟨hrun, -⟩ | ⟨N, h', frees', hrun, hsound, hneed, hnode, hkept⟩
  · refine ⟨s, frees, ?_, hs, fun _ _ _ _ _ => rfl, fun _ _ _ => rfl, rfl⟩
    simp only [step, hrun, map_some, if_true]
  · have hN : h'.usedBlock (N.start + 8) = N := by
      simp only [Heap.usedBlock, Nat.add_sub_cancel, hnode]
    have hkeep := fun l hl => hs.usedBlock_kept (List.Subset.refl _) hkept (l := l) hl
    have hblocks := hs.blocks_kept (List.Subset.refl _) hkept
    refine ⟨⟨h', (N.start + 8, size) :: s.live⟩, frees', ?_, ⟨?_, ?_, ?_⟩, ?_,
      fun l hl _ => hkeep l hl, hkept.base⟩
    · simp only [step, hrun, map_some]
      rw [if_neg (by omega)]
    · simp only [blocks, map_cons, hN, hblocks]
      exact hsound
    · exact forall_mem_cons.mpr ⟨Nat.le_add_left _ _, hs.ptr_ge⟩
    · refine forall_mem_cons.mpr ⟨fun hsize => ?_, fun l hl hsize => ?_⟩
      · rw [hN]
        exact (le_needOf hsize).trans hneed
      · rw [hkeep l hl]
        exact hs.asked l hl hsize
    · exact fun l hl _ x hx =>
        hkept.bytes _ (mem_map_of_mem hl) x (hpayload l hl x hx)

lemma Intact.free (hs : s.Intact frees) (ptr : ℕ) (hlive : ptr = 0 ∨ ∃ l ∈ s.live, l.1 = ptr) :
    ∃ s' frees', s.step (.free ptr) = some s' ∧ s'.Intact frees' ∧ s.PayloadKept s' ∧
      s.BlocksKept s' ∧ s'.heap.base = s.heap.base := by
  rcases hlive with rfl | ⟨l, hl, rfl⟩
  · refine ⟨s, frees, ?_, hs, fun _ _ _ _ _ => rfl, fun _ _ _ => rfl, rfl⟩
    have hnone : s.live.eraseP (·.1 == 0) = s.live := by
      refine eraseP_of_forall_not fun l hl hzero => ?_
      have hge := hs.ptr_ge l hl
      have heq : l.1 = 0 := eq_of_beq hzero
      omega
    simp only [step, kfree, if_true, map_some, hnone]
  · obtain ⟨a, l₁, l₂, -, ha, hlist, herase⟩ :=
      exists_of_eraseP (p := (·.1 == l.1)) hl (by simp)
    have hptr : a.1 = l.1 := eq_of_beq ha
    have hperm : s.live.Perm (a :: (l₁ ++ l₂)) := by
      rw [hlist]
      exact perm_middle
    have hsub : l₁ ++ l₂ ⊆ s.live := fun b hb => hperm.mem_iff.mpr (mem_cons_of_mem _ hb)
    have hge := hs.ptr_ge a (hperm.mem_iff.mpr mem_cons_self)
    have hsound : s.heap.Sound frees (s.heap.usedBlock a.1 ::
        (l₁ ++ l₂).map fun l => s.heap.usedBlock l.1) := by
      have hblocks := hperm.map fun l => s.heap.usedBlock l.1
      exact { hs.sound with
        tiling := hs.sound.tiling.perm (hblocks.append_left frees)
        large := fun b hb => hs.sound.large b (hblocks.mem_iff.mpr hb) }
    obtain ⟨h', frees', hrun, hsound', hkept⟩ := kfree_spec hsound rfl
    have hstart : (s.heap.usedBlock a.1).start + 8 = l.1 := by
      rw [← hptr]
      exact Nat.sub_add_cancel hge
    rw [hstart] at hrun
    have hkeep := fun b hb => hs.usedBlock_kept hsub hkept (l := b) hb
    have hblocks := hs.blocks_kept hsub hkept
    refine ⟨⟨h', l₁ ++ l₂⟩, frees', ?_, ⟨?_, ?_, ?_⟩, ?_, fun b _ hb => hkeep b hb, hkept.base⟩
    · simp only [step, hrun, map_some, herase]
    · rw [blocks, hblocks]
      exact hsound'
    · exact fun b hb => hs.ptr_ge b (hsub hb)
    · intro b hb hsize
      rw [hkeep b hb]
      exact hs.asked b (hsub hb) hsize
    · exact fun b _ hb x hx =>
        hkept.bytes _ (mem_map_of_mem hb) x ⟨(Nat.sub_le _ _).trans hx.1, hx.2⟩

lemma Intact.write (hs : s.Intact frees) {x : ℕ} {v : BitVec 8}
    (hx : ∃ l ∈ s.live, s.Payload l.1 x) :
    ∃ s', s.step (.write x v) = some s' ∧ s'.Intact frees ∧ s.BlocksKept s' ∧
      s'.heap.base = s.heap.base := by
  obtain ⟨l, hl, hpay⟩ := hx
  have hin : (s.heap.usedBlock l.1).Has x := ⟨(Nat.sub_le _ _).trans hpay.1, hpay.2⟩
  have hmem : s.heap.usedBlock l.1 ∈ frees ++ s.blocks :=
    mem_append_right _ (mem_map_of_mem hl)
  have hother : ∀ b ∈ frees, ∀ y, b.Has y → update s.heap.mem x v y = s.heap.mem y := by
    intro b hb y hy
    refine update_of_ne (fun heq => ?_) _ _
    subst heq
    have hapart := (pairwise_append.mp hs.sound.tiling.apart).2.2 b hb _ (mem_map_of_mem hl)
    exact not_has_of_apart hapart hy hin
  have hheader : ∀ a ∈ s.live,
      Heap.usedBlock { s.heap with mem := update s.heap.mem x v } a.1 =
        s.heap.usedBlock a.1 := by
    intro a ha
    refine usedBlock_congr fun y hlo hhi => update_of_ne (fun heq => ?_) _ _
    have hay := hs.header_mem ha hlo (by omega)
    have hsame : s.heap.usedBlock a.1 = s.heap.usedBlock l.1 :=
      hs.sound.tiling.unique (mem_append_right _ (mem_map_of_mem ha)) hmem hay
        (heq ▸ hin)
    have hstart := congrArg Block.start hsame
    have hgel := hs.ptr_ge l hl
    simp only [Heap.usedBlock] at hstart
    have hlow := hpay.1
    omega
  have hblocks : blocks { s with heap := { s.heap with mem := update s.heap.mem x v } } =
      s.blocks := map_congr_left hheader
  refine ⟨_, rfl, ⟨?_, hs.ptr_ge, fun a ha hsize => ?_⟩, fun a ha _ => hheader a ha, rfl⟩
  · rw [hblocks]
    exact { hs.sound with list := hs.sound.list.congr hother }
  · rw [hheader a ha]
    exact hs.asked a ha hsize

end

/-! ## All runs -/

section

variable (hreach : Reached limit h₀ s) (hinit : heapInit m phys = some h₀)
  (hphys : phys + heapSize < 2 ^ 64)
include hreach hinit hphys

lemma Reached.intact : s.heap.base = phys ∧ ∃ frees, s.Intact frees := by
  refine hreach.invariant (fun s _ => s.heap.base = phys ∧ ∃ frees, s.Intact frees) ?_ ?_
  · obtain ⟨hbase, hsound⟩ := heapInit_sound hinit hphys
    exact ⟨hbase, _, hsound, by simp, by simp⟩
  · rintro s s' - e ⟨hbase, frees, hs⟩ hallowed hstep
    cases e with
    | malloc size =>
      obtain ⟨s₁, frees', hrun, hs', -, -, hbase'⟩ := hs.malloc size
      obtain rfl := some.inj (hstep.symm.trans hrun)
      exact ⟨hbase'.trans hbase, frees', hs'⟩
    | free ptr =>
      obtain ⟨s₁, frees', hrun, hs', -, -, hbase'⟩ := hs.free ptr hallowed
      obtain rfl := some.inj (hstep.symm.trans hrun)
      exact ⟨hbase'.trans hbase, frees', hs'⟩
    | write x v =>
      obtain ⟨s₁, hrun, hs', -, hbase'⟩ := hs.write (v := v) hallowed
      obtain rfl := some.inj (hstep.symm.trans hrun)
      exact ⟨hbase'.trans hbase, frees, hs'⟩

lemma Reached.tiled :
    ∃ frees, s.Intact frees ∧ Tiling phys (phys + heapSize) (frees ++ s.blocks) := by
  obtain ⟨hbase, frees, hs⟩ := hreach.intact hinit hphys
  have htiling := hs.sound.tiling
  rw [hs.sound.pool, hbase] at htiling
  exact ⟨frees, hs, htiling⟩

end

lemma Reached.asked_le (hreach : Reached limit h₀ s) : ∀ l ∈ s.live, l.2 ≤ limit := by
  refine hreach.invariant (fun s _ => ∀ l ∈ s.live, l.2 ≤ limit) (by simp) ?_
  intro s s' _ e hle hallowed hstep
  cases e with
  | malloc size =>
    obtain ⟨r, -, rfl⟩ := map_eq_some_iff.mp hstep
    by_cases hzero : r.1 = 0
    · simpa only [if_pos hzero] using hle
    · simp only [if_neg hzero]
      exact forall_mem_cons.mpr ⟨hallowed, hle⟩
  | free ptr =>
    obtain ⟨h, -, rfl⟩ := map_eq_some_iff.mp hstep
    exact fun l hl => hle l (eraseP_subset hl)
  | write x v =>
    obtain rfl := some.inj hstep
    exact hle

def IsCall : HeapEvent → Prop
  | .write _ _ => False
  | _ => True

lemma Intact.call {frees : List Block} (hs : s.Intact frees) (hallowed : Allowed limit s e)
    (hcall : IsCall e) : ∃ s', s.step e = some s' ∧ s.PayloadKept s' := by
  cases e with
  | malloc size =>
    obtain ⟨s', frees', hrun, -, hkept, -, -⟩ := hs.malloc size
    exact ⟨s', hrun, hkept⟩
  | free ptr =>
    obtain ⟨s', frees', hrun, -, hkept, -, -⟩ := hs.free ptr hallowed
    exact ⟨s', hrun, hkept⟩
  | write x v => exact hcall.elim

/-- Bytes that no block in use has. -/
def Gap (s : HeapRun) (a k : ℕ) : Prop :=
  s.heap.base ≤ a ∧ a + k ≤ s.heap.base + s.heap.size ∧
    ∀ b ∈ s.blocks, ∀ x, a ≤ x → x < a + k → ¬ b.Has x

def roundedUp (n : ℕ) : ℕ := (n + 8 + 15) / 16 * 16

lemma Intact.gap_small {frees : List Block} (hs : s.Intact frees) {n : ℕ} {h' : Heap}
    (hn : n ≠ 0) (hfail : kmalloc s.heap n = some (0, h')) {a k : ℕ} (hgap : s.Gap a k) :
    k < roundedUp n := by
  obtain ⟨hlo, hhi, hfree⟩ := hgap
  rcases kmalloc_spec hs.sound n with ⟨-, hsmall⟩ | ⟨N, h₁, frees', hrun, -, -, -, -⟩
  · by_contra hle
    have hpos : 0 < k := by
      simp only [roundedUp] at hle
      omega
    -- the gap lies in one free block, which is too small
    obtain ⟨b, hb, hstart, hfinish⟩ := hs.sound.tiling.gap hs.sound.spaced hpos hlo hhi hfree
    have hsize := hsmall hn b hb
    have hlarge := hs.sound.list.large b hb
    simp only [needOf, minBlock, roundedUp, Block.finish] at hsize hlarge hle hfinish
    omega
  · have hzero := congrArg (Option.map Prod.fst) (hrun.symm.trans hfail)
    simp only [map_some, some.injEq] at hzero
    omega

end HeapRun

open HeapRun

/-- In every reached state free and live blocks tile the pool, every live block has the
bytes that were asked for, and the next call ends and leaves the payloads alone. -/
theorem heap_safe {m : Ram} {phys : ℕ} {h₀ : Heap} {s : HeapRun}
    (hinit : heapInit m phys = some h₀) (hphys : phys + heapSize < 2 ^ 64)
    (hreach : Reached (4 * 2 ^ 20) h₀ s) :
    (∃ frees, FreeList s.heap.mem s.heap.free frees ∧
      Tiling phys (phys + heapSize) (frees ++ s.blocks)) ∧
    (∀ l ∈ s.live, phys ≤ l.1 ∧ l.1 + l.2 ≤ (s.heap.usedBlock l.1).finish ∧
      l.1 + l.2 ≤ phys + heapSize) ∧
    ∀ e, Allowed (4 * 2 ^ 20) s e → IsCall e → ∃ s', s.step e = some s' ∧ s.PayloadKept s' := by
  obtain ⟨frees, hs, htiling⟩ := hreach.tiled hinit hphys
  refine ⟨⟨frees, hs.sound.list, htiling⟩, fun l hl => ?_, fun e hallowed hcall =>
    hs.call hallowed hcall⟩
  have hle := hreach.asked_le l hl
  have hsize := hs.asked l hl (by omega)
  have hinside := htiling.inside _ (mem_append_right _ (mem_map_of_mem hl))
  simp only [Heap.usedBlock, Block.finish] at hinside hsize ⊢
  omega

def emptyHeap : Heap := (heapInit (fun _ => 0#8) 4096).getD ⟨fun _ => 0#8, 0, 0, 0⟩

lemma heapInit_emptyHeap : heapInit (fun _ => 0#8) 4096 = some emptyHeap := rfl

lemma reached_request {limit : ℕ} (hlimit : 10 ≤ limit) :
    ∃ h, Reached limit emptyHeap ⟨h, [(4104, 10)]⟩ := by
  have hfirst : (kmalloc emptyHeap 10).map Prod.fst = some 4104 := by decide +kernel
  obtain ⟨⟨ptr, h⟩, hrun, rfl⟩ := map_eq_some_iff.mp hfirst
  have hstart : Reached limit emptyHeap ⟨emptyHeap, []⟩ := .start
  refine ⟨h, hstart.next (.malloc 10) hlimit ?_⟩
  simp only [HeapRun.step, hrun, map_some]
  rfl

theorem heap_safe_request : ∃ s, s.live = [(4104, 10)] ∧ Reached (4 * 2 ^ 20) emptyHeap s ∧
    (∃ frees, FreeList s.heap.mem s.heap.free frees ∧
      Tiling 4096 (4096 + heapSize) (frees ++ s.blocks)) ∧
    4104 + 10 ≤ (s.heap.usedBlock 4104).finish := by
  obtain ⟨h, hreach⟩ := reached_request (show 10 ≤ 4 * 2 ^ 20 by decide)
  obtain ⟨htiling, hlive, -⟩ := heap_safe heapInit_emptyHeap (by decide) hreach
  exact ⟨_, rfl, hreach, htiling, (hlive _ mem_cons_self).2.1⟩

/-- In every reached state no two free blocks are neighbours, one block is the whole pool
when nothing is live, and a request of at least one byte fails only if no gap between the
live blocks would take it. -/
theorem heap_coalesced {m : Ram} {phys : ℕ} {h₀ : Heap} {s : HeapRun}
    (hinit : heapInit m phys = some h₀) (hphys : phys + heapSize < 2 ^ 64)
    (hreach : Reached (2 ^ 64 - 1) h₀ s) :
    (∃ frees, FreeList s.heap.mem s.heap.free frees ∧
      Tiling phys (phys + heapSize) (frees ++ s.blocks) ∧ Spaced frees ∧
      (s.live = [] → frees = [⟨phys, heapSize⟩])) ∧
    ∀ n h', 1 ≤ n → n < 2 ^ 64 → kmalloc s.heap n = some (0, h') →
      ∀ a k, s.Gap a k → k < roundedUp n := by
  obtain ⟨frees, hs, htiling⟩ := hreach.tiled hinit hphys
  refine ⟨⟨frees, hs.sound.list, htiling, hs.sound.spaced, fun hlive => ?_⟩, ?_⟩
  · have hall : Tiling phys (phys + heapSize) frees := by
      simpa [blocks, hlive] using htiling
    have hone := hall.single hs.sound.spaced (by simp [heapSize])
    rwa [Nat.add_sub_cancel_left] at hone
  · intro n h' hn _ hfail a k hgap
    exact hs.gap_small (by omega) hfail hgap

theorem heap_coalesced_released : ∃ s, s.live = [] ∧ Reached (2 ^ 64 - 1) emptyHeap s ∧
    FreeList s.heap.mem s.heap.free [⟨4096, heapSize⟩] := by
  obtain ⟨h, htaken⟩ := reached_request (show 10 ≤ 2 ^ 64 - 1 by decide)
  obtain ⟨-, frees, hs⟩ := htaken.intact heapInit_emptyHeap (by decide)
  obtain ⟨s, -, hfree, -, -, -⟩ := hs.free 4104 (Or.inr ⟨_, mem_cons_self, rfl⟩)
  have hreach : Reached (2 ^ 64 - 1) emptyHeap s :=
    htaken.next (.free 4104) (Or.inr ⟨_, mem_cons_self, rfl⟩) hfree
  rw [HeapRun.step, map_eq_some_iff] at hfree
  obtain ⟨h₁, -, rfl⟩ := hfree
  obtain ⟨⟨frees₁, hlist, -, -, hone⟩, -⟩ := heap_coalesced heapInit_emptyHeap (by decide) hreach
  refine ⟨_, rfl, hreach, ?_⟩
  rw [← hone rfl]
  exact hlist

/-- A request of no bytes fails although the whole pool is free. -/
theorem empty_request_fails : Reached (2 ^ 64 - 1) emptyHeap ⟨emptyHeap, []⟩ ∧
    kmalloc emptyHeap 0 = some (0, emptyHeap) ∧
    HeapRun.Gap ⟨emptyHeap, []⟩ 4096 heapSize ∧ roundedUp 0 ≤ heapSize := by
  refine ⟨.start, rfl, ⟨le_rfl, le_rfl, ?_⟩, by decide⟩
  intro b hb
  exact absurd hb not_mem_nil

end HelixOS
