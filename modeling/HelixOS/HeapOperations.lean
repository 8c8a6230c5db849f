import HelixOS.ByteMemory
import HelixOS.Tilings

/-!
# The kernel heap

`kernel/mm/heap.c`: a first-fit allocator over a fixed pool.  The nodes of its free list
lie in the free blocks themselves, so a heap is the memory and the address of the first
node; `0` is the null pointer.  A heap is sound for its free blocks and the blocks in use
when together they tile the pool and no two free ones are neighbours.
-/

namespace HelixOS

open ByteMemory Tilings

/-- `g_heap_base`, `g_heap_size`, `g_free` and the memory they point into. -/
structure Heap where
  mem : Ram
  base : ℕ
  size : ℕ
  free : ℕ

def heapSize : ℕ := 2048 * 4096

def minBlock : ℕ := 32

namespace Heap

def nodeSize (h : Heap) (n : ℕ) : ℕ := load h.mem n 8

def nodeNext (h : Heap) (n : ℕ) : ℕ := load h.mem (n + 8) 8

def setSize (h : Heap) (n v : ℕ) : Heap := { h with mem := store h.mem n v 8 }

def setNext (h : Heap) (n v : ℕ) : Heap := { h with mem := store h.mem (n + 8) v 8 }

/-- `*pp`; the pointer `pp` is `&g_free` or the `next` field of a node. -/
def deref (h : Heap) : Option ℕ → ℕ
  | none => h.free
  | some n => h.nodeNext n

def setDeref (h : Heap) (pp : Option ℕ) (v : ℕ) : Heap :=
  match pp with
  | none => { h with free := v }
  | some n => h.setNext n v

end Heap

/-- `phys` is what `pmm_alloc_pages` returned. -/
def heapInit (m : Ram) (phys : ℕ) : Option Heap :=
  if phys = 0 then none
  else
    let zeroed : Ram := fun x => if phys ≤ x ∧ x < phys + heapSize then 0#8 else m x
    let h : Heap := ⟨zeroed, phys, heapSize, phys⟩
    some ((h.setSize phys heapSize).setNext phys 0)

def splitNode (h : Heap) (n need : ℕ) : Heap :=
  if h.nodeSize n ≥ (need + minBlock) % 2 ^ 64 then
    let rest := n + need
    let h := h.setSize rest (h.nodeSize n - need)
    let h := h.setNext rest (h.nodeNext n)
    let h := h.setSize n need
    h.setNext n rest
  else h

def needOf (size : ℕ) : ℕ :=
  max ((size + 8 + 15) % 2 ^ 64 / 16 * 16) minBlock

/-- What `kmalloc` does with the node `n = *pp` once it is large enough. -/
def takeNode (h : Heap) (pp : Option ℕ) (n need : ℕ) : Heap :=
  let h := splitNode h n need
  let h := h.setDeref pp (h.nodeNext n)
  h.setSize n (h.nodeSize n)

def kmallocLoop (need : ℕ) (h : Heap) : ℕ → Option ℕ → Option (ℕ × Heap)
  | 0, _ => none
  | fuel + 1, pp =>
    let n := h.deref pp
    if n = 0 then some (0, h)
    else if h.nodeSize n ≥ need then some (n + 8, takeNode h pp n need)
    else kmallocLoop need h fuel (some n)

/-- Returns the pointer, `0` on failure.  A list that visits more nodes than the heap has
bytes does not end, and then there is no result. -/
def kmalloc (h : Heap) (size : ℕ) : Option (ℕ × Heap) :=
  if size = 0 then some (0, h)
  else kmallocLoop (needOf size) h (h.size + 1) none

/-- The scans of `kfree`: the first node with `hit`, or `0`. -/
def findNode (hit : ℕ → Bool) (h : Heap) : ℕ → ℕ → Option ℕ
  | 0, _ => none
  | fuel + 1, fp =>
    if fp = 0 then some 0
    else if hit fp then some fp
    else findNode hit h fuel (h.nodeNext fp)

/-- `while (*pp && *pp != fp) pp = &(*pp)->next;` -/
def unlinkLoop (fp : ℕ) (h : Heap) : ℕ → Option ℕ → Option (Option ℕ)
  | 0, _ => none
  | fuel + 1, pp =>
    if h.deref pp = 0 ∨ h.deref pp = fp then some pp
    else unlinkLoop fp h fuel (some (h.deref pp))

/-- `kfree`: the merge with the next physical neighbour. -/
def mergeNext (h : Heap) (n : ℕ) : Option Heap :=
  let nextPhys := (n + h.nodeSize n) % 2 ^ 64
  if nextPhys < h.base + h.size then do
    let fp ← findNode (· == nextPhys) h (h.size + 1) h.free
    if fp = 0 then some h
    else
      let h := h.setSize n (h.nodeSize n + h.nodeSize fp)
      let pp ← unlinkLoop fp h (h.size + 1) none
      if h.deref pp = fp then some (h.setDeref pp (h.nodeNext fp)) else some h
  else some h

/-- `kfree`: the merge with the previous physical neighbour, or the push to the front. -/
def mergePrev (h : Heap) (n : ℕ) : Option Heap :=
  let push : Heap := { h.setNext n h.free with free := n }
  if h.base < n then do
    let fp ← findNode (fun fp => (fp + h.nodeSize fp) % 2 ^ 64 == n) h (h.size + 1) h.free
    if fp = 0 then some push
    else some (h.setSize fp (h.nodeSize fp + h.nodeSize n))
  else some push

def kfree (h : Heap) (ptr : ℕ) : Option Heap :=
  if ptr = 0 then some h
  else
    let hdr := ptr - 8
    let sz := h.nodeSize hdr
    if sz < minBlock ∨ hdr < h.base ∨ h.base + h.size < (hdr + sz) % 2 ^ 64 then some h
    else do
      let h := (h.setSize hdr sz).setNext hdr 0
      let h ← mergeNext h hdr
      mergePrev h hdr

/-! ## The free list in memory -/

open List

variable {x : ℕ} {h : Heap} {m m' : Ram} {p n v need fuel : ℕ} {pp : Option ℕ} {b c : Block}
  {frees pre post l l' : List Block}

/-- The nodes from `p` on are the first words of the blocks, in this order. -/
def FreeList (m : Ram) : ℕ → List Block → Prop
  | p, [] => p = 0
  | p, b :: rest => p = b.start ∧ p ≠ 0 ∧ minBlock ≤ b.size ∧ load m p 8 = b.size ∧
      FreeList m (load m (p + 8) 8) rest

lemma FreeList.large (hlist : FreeList m p frees) : ∀ b ∈ frees, minBlock ≤ b.size := by
  induction frees generalizing p with
  | nil => simp
  | cons b rest ih =>
    obtain ⟨-, -, hlarge, -, hrest⟩ := hlist
    exact forall_mem_cons.mpr ⟨hlarge, ih hrest⟩

lemma FreeList.replace (hlist : FreeList m p (pre ++ l))
    (hsame : ∀ b ∈ pre, ∀ x, b.Has x → m' x = m x)
    (hrest : ∀ q, FreeList m q l → FreeList m' q l') : FreeList m' p (pre ++ l') := by
  induction pre generalizing p with
  | nil => exact hrest p hlist
  | cons b pre ih =>
    obtain ⟨hb, hsames⟩ := forall_mem_cons.mp hsame
    obtain ⟨rfl, hne, hlarge, hsize, hnext⟩ := hlist
    have hbytes : ∀ x, b.start ≤ x → x < b.start + 16 → m' x = m x := fun x hlo hhi =>
      hb x ⟨hlo, by simp only [minBlock, Block.finish] at hlarge ⊢; omega⟩
    refine ⟨rfl, hne, hlarge, ?_, ?_⟩
    · rw [load_congr fun x hlo hhi => hbytes x hlo (by omega), hsize]
    · rw [load_congr fun x hlo hhi => hbytes x (by omega) (by omega)]
      exact ih hnext hsames

lemma FreeList.congr (hlist : FreeList m p frees)
    (hsame : ∀ b ∈ frees, ∀ x, b.Has x → m' x = m x) : FreeList m' p frees := by
  rw [← append_nil frees] at hlist ⊢
  exact hlist.replace hsame fun q hq => hq

lemma FreeList.drop (hlist : FreeList m p (pre ++ l)) : ∃ q, FreeList m q l := by
  induction pre generalizing p with
  | nil => exact ⟨p, hlist⟩
  | cons b pre ih => exact ih hlist.2.2.2.2

lemma FreeList.node (hlist : FreeList m p (pre ++ b :: post)) : FreeList m b.start (b :: post) := by
  obtain ⟨q, hq⟩ := hlist.drop
  obtain ⟨rfl, hrest⟩ := hq
  exact ⟨rfl, hrest⟩

lemma FreeList.nodeSize_eq (hlist : FreeList h.mem p frees) (hb : b ∈ frees) :
    h.nodeSize b.start = b.size := by
  obtain ⟨pre, post, rfl⟩ := append_of_mem hb
  exact hlist.node.2.2.2.1

/-! ## The pointer `pp` -/

def slot (pp : Option ℕ) : List Block → Option ℕ
  | [] => pp
  | b :: rest => slot (some b.start) rest

lemma slot_cases (pp) (pre) :
    pre = [] ∧ slot pp pre = pp ∨ ∃ b ∈ pre, slot pp pre = some b.start := by
  induction pre generalizing pp with
  | nil => exact Or.inl ⟨rfl, rfl⟩
  | cons b pre ih =>
    rcases ih (some b.start) with ⟨rfl, hslot⟩ | ⟨c, hc, hslot⟩
    · exact Or.inr ⟨b, mem_cons_self, hslot⟩
    · exact Or.inr ⟨c, mem_cons_of_mem _ hc, hslot⟩

namespace Heap

@[simp] lemma setDeref_base (h : Heap) (pp : Option ℕ) (v : ℕ) :
    (h.setDeref pp v).base = h.base := by
  cases pp <;> rfl

@[simp] lemma setDeref_size (h : Heap) (pp : Option ℕ) (v : ℕ) :
    (h.setDeref pp v).size = h.size := by
  cases pp <;> rfl

lemma nodeNext_lt (h : Heap) (n : ℕ) : h.nodeNext n < 2 ^ 64 := load_lt h.mem (n + 8) 8

lemma setSize_nodeSize (h : Heap) (n : ℕ) : h.setSize n (h.nodeSize n) = h := by
  simp only [setSize, nodeSize, store_load]

lemma nodeSize_setSize (hv : v < 2 ^ 64) (n) : (h.setSize n v).nodeSize n = v := by
  rw [nodeSize, setSize, load_store_self]
  exact Nat.mod_eq_of_lt hv

lemma nodeNext_setNext (hv : v < 2 ^ 64) (n) : (h.setNext n v).nodeNext n = v := by
  rw [nodeNext, setNext, load_store_self]
  exact Nat.mod_eq_of_lt hv

@[simp] lemma nodeSize_setNext (n : ℕ) : (h.setNext n v).nodeSize n = h.nodeSize n :=
  load_store_of_disjoint (Or.inl le_rfl)

@[simp] lemma nodeNext_setSize (n : ℕ) : (h.setSize n v).nodeNext n = h.nodeNext n :=
  load_store_of_disjoint (Or.inr le_rfl)

section
variable {k : ℕ} (hk : n + 16 ≤ k ∨ k + 16 ≤ n)
include hk

lemma nodeSize_setSize_apart : (h.setSize n v).nodeSize k = h.nodeSize k :=
  load_store_of_disjoint (by omega)

lemma nodeNext_setSize_apart : (h.setSize n v).nodeNext k = h.nodeNext k :=
  load_store_of_disjoint (by omega)

lemma nodeSize_setNext_apart : (h.setNext n v).nodeSize k = h.nodeSize k :=
  load_store_of_disjoint (by omega)

lemma nodeNext_setNext_apart : (h.setNext n v).nodeNext k = h.nodeNext k :=
  load_store_of_disjoint (by omega)

end

lemma setSize_outside (hlarge : minBlock ≤ b.size) (hx : ¬ b.Has x) :
    (h.setSize b.start v).mem x = h.mem x := by
  refine store_outside ?_
  simp only [Block.Has, Block.finish, minBlock] at hx hlarge
  omega

lemma setNext_outside (hlarge : minBlock ≤ b.size) (hx : ¬ b.Has x) :
    (h.setNext b.start v).mem x = h.mem x := by
  refine store_outside ?_
  simp only [Block.Has, Block.finish, minBlock] at hx hlarge
  omega

lemma setDeref_slot_outside (hlarge : ∀ b ∈ pre, minBlock ≤ b.size)
    (hx : ∀ b ∈ pre, ¬ b.Has x) : (h.setDeref (slot none pre) v).mem x = h.mem x := by
  rcases slot_cases none pre with ⟨-, hslot⟩ | ⟨b, hb, hslot⟩
  · rw [hslot]
    rfl
  · rw [hslot]
    exact setNext_outside (hlarge b hb) (hx b hb)

end Heap

lemma not_has_of_apart (hapart : b.Apart c) (hx : b.Has x) : ¬ c.Has x := by
  simp only [Block.Apart, Block.Has, Block.finish] at hapart hx ⊢
  omega

lemma FreeList.relink_tail (hlist : FreeList h.mem c.start (c :: (pre ++ post)))
    (hnew : FreeList h.mem v l) (hapart : (c :: (pre ++ l)).Pairwise Block.Apart)
    (hv : v < 2 ^ 64) :
    FreeList (h.setDeref (slot (some c.start) pre) v).mem c.start (c :: (pre ++ l)) := by
  induction pre generalizing c with
  | nil =>
    obtain ⟨-, hne, hlarge, hsize, -⟩ := hlist
    obtain ⟨hfirst, -⟩ := pairwise_cons.mp hapart
    refine ⟨rfl, hne, hlarge, (Heap.nodeSize_setNext c.start).trans hsize, ?_⟩
    have hnext : load (h.setNext c.start v).mem (c.start + 8) 8 = v :=
      Heap.nodeNext_setNext hv c.start
    rw [nil_append, slot, Heap.setDeref, hnext]
    exact hnew.congr fun b hb x hx =>
      Heap.setNext_outside hlarge (not_has_of_apart (hfirst b hb).symm hx)
  | cons d pre ih =>
    obtain ⟨-, hne, hlarge, hsize, hnext⟩ := hlist
    obtain ⟨hfirst, hrest⟩ := pairwise_cons.mp hapart
    have hd : load h.mem (c.start + 8) 8 = d.start := hnext.1
    rw [hd] at hnext
    have htail := ih hnext hrest
    have hbytes : ∀ x, c.Has x → (h.setDeref (slot (some d.start) pre) v).mem x = h.mem x := by
      intro x hx
      have hlarge' : ∀ b ∈ d :: pre, minBlock ≤ b.size := fun b hb =>
        hnext.large b (mem_append_left post hb)
      exact Heap.setDeref_slot_outside hlarge' fun b hb =>
        not_has_of_apart (hfirst b (mem_append_left l hb)) hx
    have hin : ∀ x, c.start ≤ x → x < c.start + 16 → c.Has x := fun x hlo hhi =>
      ⟨hlo, by simp only [minBlock, Block.finish] at hlarge ⊢; omega⟩
    rw [slot]
    refine ⟨rfl, hne, hlarge, ?_, ?_⟩
    · rw [load_congr fun x hlo hhi => hbytes x (hin x hlo (by omega)), hsize]
    · rw [load_congr fun x hlo hhi => hbytes x (hin x (by omega) (by omega)), hd]
      exact htail

lemma FreeList.relink (hlist : FreeList h.mem h.free (pre ++ post))
    (hnew : FreeList h.mem v l) (hapart : (pre ++ l).Pairwise Block.Apart) (hv : v < 2 ^ 64) :
    FreeList (h.setDeref (slot none pre) v).mem (h.setDeref (slot none pre) v).free (pre ++ l) := by
  cases pre with
  | nil => exact hnew
  | cons c pre =>
    have hfree : (h.setDeref (slot none (c :: pre)) v).free = c.start := by
      rcases slot_cases none (c :: pre) with ⟨hnil, -⟩ | ⟨b, -, hslot⟩
      · cases hnil
      · rw [hslot]
        exact hlist.1
    have hstart : h.free = c.start := hlist.1
    rw [hfree]
    rw [hstart] at hlist
    exact hlist.relink_tail hnew hapart hv

lemma FreeList.unlink (hlist : FreeList h.mem h.free (pre ++ c :: post))
    (hapart : (pre ++ c :: post).Pairwise Block.Apart) :
    FreeList (h.setDeref (slot none pre) (h.nodeNext c.start)).mem
      (h.setDeref (slot none pre) (h.nodeNext c.start)).free (pre ++ post) := by
  have hnext : FreeList h.mem (h.nodeNext c.start) post := hlist.node.2.2.2.2
  refine hlist.relink hnext (hapart.sublist ?_) (h.nodeNext_lt c.start)
  exact (sublist_cons_self c post).append_left pre

/-! ## The loops -/

lemma kmallocLoop_spec (need) (hlist : FreeList h.mem (h.deref pp) frees)
    (hfuel : frees.length < fuel) :
    (kmallocLoop need h fuel pp = some (0, h) ∧ ∀ b ∈ frees, b.size < need) ∨
      ∃ pre b post, frees = pre ++ b :: post ∧ need ≤ b.size ∧
        kmallocLoop need h fuel pp = some (b.start + 8, takeNode h (slot pp pre) b.start need) := by
  induction frees generalizing fuel pp with
  | nil =>
    obtain ⟨fuel, rfl⟩ := Nat.exists_eq_succ_of_ne_zero (Nat.ne_zero_of_lt hfuel)
    have hzero : h.deref pp = 0 := hlist
    exact Or.inl ⟨by simp only [kmallocLoop, hzero, if_true], by simp⟩
  | cons b rest ih =>
    obtain ⟨fuel, rfl⟩ := Nat.exists_eq_succ_of_ne_zero (Nat.ne_zero_of_lt hfuel)
    obtain ⟨hstart, hne, -, hsize, hnext⟩ := hlist
    rw [hstart] at hne hsize hnext
    have hnode : h.nodeSize b.start = b.size := hsize
    rw [kmallocLoop, hstart]
    simp only [if_neg hne, hnode]
    by_cases hfits : b.size ≥ need
    · refine Or.inr ⟨[], b, rest, rfl, hfits, ?_⟩
      rw [if_pos hfits, slot]
    · rw [if_neg hfits]
      have htail : FreeList h.mem (h.deref (some b.start)) rest := hnext
      rcases ih htail (Nat.lt_of_succ_lt_succ hfuel) with
        ⟨hrun, hsmall⟩ | ⟨pre, c, post, rfl, hfits', hrun⟩
      · exact Or.inl ⟨hrun, forall_mem_cons.mpr ⟨Nat.lt_of_not_le hfits, hsmall⟩⟩
      · exact Or.inr ⟨b :: pre, c, post, rfl, hfits', hrun⟩

lemma findNode_spec (hit : ℕ → Bool) (hlist : FreeList h.mem p frees)
    (hfuel : frees.length < fuel) :
    (findNode hit h fuel p = some 0 ∧ ∀ b ∈ frees, hit b.start = false) ∨
      ∃ b ∈ frees, hit b.start = true ∧ findNode hit h fuel p = some b.start := by
  induction frees generalizing fuel p with
  | nil =>
    obtain ⟨fuel, rfl⟩ := Nat.exists_eq_succ_of_ne_zero (Nat.ne_zero_of_lt hfuel)
    have hzero : p = 0 := hlist
    exact Or.inl ⟨by simp only [findNode, hzero, if_true], by simp⟩
  | cons b rest ih =>
    obtain ⟨fuel, rfl⟩ := Nat.exists_eq_succ_of_ne_zero (Nat.ne_zero_of_lt hfuel)
    obtain ⟨rfl, hne, -, -, hnext⟩ := hlist
    rw [findNode, if_neg hne]
    by_cases hhit : hit b.start = true
    · rw [if_pos hhit]
      exact Or.inr ⟨b, mem_cons_self, hhit, rfl⟩
    · rw [if_neg hhit]
      rcases ih hnext (Nat.lt_of_succ_lt_succ hfuel) with ⟨hrun, hno⟩ | ⟨c, hc, hhit', hrun⟩
      · exact Or.inl ⟨hrun, forall_mem_cons.mpr ⟨Bool.eq_false_iff.mpr hhit, hno⟩⟩
      · exact Or.inr ⟨c, mem_cons_of_mem _ hc, hhit', hrun⟩

lemma unlinkLoop_spec (hlist : FreeList h.mem (h.deref pp) (pre ++ c :: post))
    (hother : ∀ b ∈ pre, b.start ≠ c.start) (hfuel : pre.length < fuel) :
    unlinkLoop c.start h fuel pp = some (slot pp pre) ∧ h.deref (slot pp pre) = c.start := by
  induction pre generalizing fuel pp with
  | nil =>
    obtain ⟨fuel, rfl⟩ := Nat.exists_eq_succ_of_ne_zero (Nat.ne_zero_of_lt hfuel)
    have hstart : h.deref pp = c.start := hlist.1
    exact ⟨by rw [unlinkLoop, if_pos (Or.inr hstart), slot], hstart⟩
  | cons b pre ih =>
    obtain ⟨fuel, rfl⟩ := Nat.exists_eq_succ_of_ne_zero (Nat.ne_zero_of_lt hfuel)
    obtain ⟨hb, hothers⟩ := forall_mem_cons.mp hother
    obtain ⟨hstart, hne, -, -, hnext⟩ := hlist
    rw [hstart] at hne hnext
    have hgo : ¬ (h.deref pp = 0 ∨ h.deref pp = c.start) := by
      rw [hstart]
      exact not_or.mpr ⟨hne, hb⟩
    rw [unlinkLoop, if_neg hgo, hstart]
    have htail : FreeList h.mem (h.deref (some b.start)) (pre ++ c :: post) := hnext
    exact ih htail hothers (Nat.lt_of_succ_lt_succ hfuel)

/-! ## What `kmalloc` and `kfree` do to the blocks -/

open Option

variable {h' h'' : Heap} {size : ℕ} {N : Block} {frees' used : List Block}

/-- The free blocks and those in use tile the heap. -/
structure Heap.Sound (h : Heap) (frees used : List Block) : Prop where
  list : FreeList h.mem h.free frees
  tiling : Tiling h.base (h.base + h.size) (frees ++ used)
  spaced : Spaced frees
  large : ∀ b ∈ used, minBlock ≤ b.size
  pool : h.size = heapSize
  bound : h.base + h.size < 2 ^ 64
  null : 0 < h.base

structure Heap.Untouched (h h' : Heap) (used : List Block) : Prop where
  base : h'.base = h.base
  size : h'.size = h.size
  bytes : ∀ b ∈ used, ∀ x, b.Has x → h'.mem x = h.mem x

lemma Heap.Untouched.trans (h₁ : h.Untouched h' used) (h₂ : h'.Untouched h'' used) :
    h.Untouched h'' used where
  base := h₂.base.trans h₁.base
  size := h₂.size.trans h₁.size
  bytes b hb x hx := (h₂.bytes b hb x hx).trans (h₁.bytes b hb x hx)

lemma Heap.Sound.length_lt (hs : h.Sound frees used) : frees.length < h.size + 1 := by
  have hlen := hs.tiling.length_le
  rw [length_append] at hlen
  omega

/-! ## Taking a block -/

def remainder (b : Block) (need : ℕ) : List Block :=
  if need + minBlock ≤ b.size then [⟨b.start + need, b.size - need⟩] else []

def handed (b : Block) (need : ℕ) : Block :=
  ⟨b.start, if need + minBlock ≤ b.size then need else b.size⟩

lemma le_handed (hneed : need ≤ b.size) : need ≤ (handed b need).size := by
  simp only [handed]
  split_ifs
  · exact le_rfl
  · exact hneed

lemma tiling_handed {lo hi : ℕ} (hpos : 0 < need) {rest : List Block}
    (htiling : Tiling lo hi (b :: rest)) :
    Tiling lo hi (handed b need :: (remainder b need ++ rest)) := by
  by_cases hsplit : need + minBlock ≤ b.size
  · simp only [handed, remainder, if_pos hsplit]
    exact htiling.cut hpos (by simp only [minBlock] at hsplit; omega)
  · simp only [handed, remainder, if_neg hsplit]
    exact htiling

lemma splitNode_cut (hneed : minBlock ≤ need) (hsize : h.nodeSize b.start = b.size)
    (hroom : b.size ≤ heapSize) (hbound : b.finish < 2 ^ 64) (hsplit : need + minBlock ≤ b.size) :
    (splitNode h b.start need).nodeSize b.start = need ∧
      (splitNode h b.start need).nodeNext b.start = b.start + need ∧
      (splitNode h b.start need).nodeSize (b.start + need) = b.size - need ∧
      (splitNode h b.start need).nodeNext (b.start + need) = h.nodeNext b.start ∧
      (splitNode h b.start need).base = h.base ∧ (splitNode h b.start need).size = h.size ∧
      (splitNode h b.start need).free = h.free ∧
      ∀ x, ¬ b.Has x → (splitNode h b.start need).mem x = h.mem x := by
  simp only [Block.finish, minBlock, heapSize] at hbound hneed hroom hsplit
  have hwrap : (need + minBlock) % 2 ^ 64 = need + minBlock :=
    Nat.mod_eq_of_lt (by simp only [minBlock]; omega)
  have hapart : b.start + need + 16 ≤ b.start ∨ b.start + 16 ≤ b.start + need := by omega
  rw [splitNode, hwrap, if_pos (by rw [hsize]; exact hsplit), hsize]
  simp only [Heap.nodeSize_setNext]
  refine ⟨Heap.nodeSize_setSize (by omega) _, Heap.nodeNext_setNext (by omega) _, ?_, ?_, rfl,
    rfl, rfl, fun x hx => ?_⟩
  · rw [Heap.nodeSize_setNext_apart hapart.symm, Heap.nodeSize_setSize_apart hapart.symm,
      Heap.nodeSize_setNext]
    exact Heap.nodeSize_setSize (by omega) _
  · rw [Heap.nodeNext_setNext_apart hapart.symm, Heap.nodeNext_setSize_apart hapart.symm,
      Heap.nodeNext_setNext (Heap.nodeNext_lt _ _), Heap.nodeNext_setSize_apart hapart]
  · simp only [Block.Has, Block.finish] at hx
    simp only [Heap.setNext, Heap.setSize]
    rw [store_outside (by omega), store_outside (by omega), store_outside (by omega),
      store_outside (by omega)]

lemma splitNode_spec (hlist : FreeList h.mem h.free (pre ++ b :: post))
    (hneed : minBlock ≤ need) (hfits : need ≤ b.size) (hroom : b.size ≤ heapSize)
    (hbound : b.finish < 2 ^ 64) (hapart : (pre ++ b :: post).Pairwise Block.Apart) :
    FreeList (splitNode h b.start need).mem (splitNode h b.start need).free
        (pre ++ handed b need :: (remainder b need ++ post)) ∧
      (splitNode h b.start need).base = h.base ∧ (splitNode h b.start need).size = h.size ∧
      ∀ x, ¬ b.Has x → (splitNode h b.start need).mem x = h.mem x := by
  have hsize : h.nodeSize b.start = b.size := hlist.node.2.2.2.1
  by_cases hsplit : need + minBlock ≤ b.size
  · obtain ⟨hsz, hnext, hsz', hnext', hbase, hsize', hfree, hsame⟩ :=
      splitNode_cut hneed hsize hroom hbound hsplit
    obtain ⟨-, hpair, hbetween⟩ := pairwise_append.mp hapart
    obtain ⟨hafter, -⟩ := pairwise_cons.mp hpair
    refine ⟨?_, hbase, hsize', hsame⟩
    rw [hfree]
    refine hlist.replace (fun c hc x hx => hsame x ?_) fun q hq => ?_
    · exact not_has_of_apart (hbetween c hc b mem_cons_self) hx
    · obtain ⟨rfl, hne, -, -, hpost⟩ := hq
      simp only [handed, remainder, if_pos hsplit]
      have hlink : load (splitNode h b.start need).mem (b.start + 8) 8 = b.start + need := hnext
      have hlink' : load (splitNode h b.start need).mem (b.start + need + 8) 8 =
          load h.mem (b.start + 8) 8 := hnext'
      refine ⟨rfl, hne, hneed, hsz, ?_⟩
      rw [hlink]
      refine ⟨rfl, by omega, by simp only [minBlock] at hsplit ⊢; omega, hsz', ?_⟩
      rw [hlink']
      exact hpost.congr fun c hc x hx => hsame x (not_has_of_apart (hafter c hc).symm hx)
  · have hkeep : splitNode h b.start need = h := by
      simp only [heapSize, minBlock] at hroom hsplit
      exact if_neg (by simp only [minBlock]; omega)
    rw [hkeep]
    refine ⟨?_, rfl, rfl, fun _ _ => rfl⟩
    simp only [handed, remainder, if_neg hsplit]
    exact hlist

lemma spaced_remainder (hspaced : Spaced (pre ++ b :: post)) (hneed : minBlock ≤ need)
    (hapart : (pre ++ b :: post).Pairwise Block.Apart) :
    Spaced (pre ++ (remainder b need ++ post)) := by
  have hperm : (pre ++ b :: post).Perm (b :: (pre ++ post)) := perm_middle
  obtain ⟨hother, -⟩ := pairwise_cons.mp ((hperm.pairwise_iff Block.Apart.symm).mp hapart)
  have hspaced' : Spaced (b :: (pre ++ post)) := fun c hc d hd =>
    hspaced c (hperm.mem_iff.mpr hc) d (hperm.mem_iff.mpr hd)
  have hmem : ∀ c ∈ pre ++ (remainder b need ++ post), c ∈ pre ++ post ∨
      need + minBlock ≤ b.size ∧ c = ⟨b.start + need, b.size - need⟩ := by
    intro c hc
    simp only [remainder] at hc
    split_ifs at hc with hsplit
    · simp only [mem_append, mem_singleton] at hc
      rcases hc with hc | hc | hc
      · exact Or.inl (mem_append_left _ hc)
      · exact Or.inr ⟨hsplit, hc⟩
      · exact Or.inl (mem_append_right _ hc)
    · exact Or.inl hc
  simp only [minBlock] at hneed
  intro c hc d hd
  rcases hmem c hc with hc | ⟨hsplit, rfl⟩
  · rcases hmem d hd with hd | ⟨hsplit, rfl⟩
    · exact hspaced' c (mem_cons_of_mem _ hc) d (mem_cons_of_mem _ hd)
    · have hbc := hother c hc
      simp only [Block.Apart, Block.finish, minBlock] at hbc hsplit ⊢
      omega
  · rcases hmem d hd with hd | ⟨-, rfl⟩
    · have hbd := hspaced' b mem_cons_self d (mem_cons_of_mem _ hd)
      simp only [Block.finish, minBlock] at hbd hsplit ⊢
      omega
    · simp only [Block.finish, minBlock] at hsplit ⊢
      omega

lemma takeNode_sound (hs : h.Sound (pre ++ b :: post) used) (hneed : minBlock ≤ need)
    (hfits : need ≤ b.size) :
    (takeNode h (slot none pre) b.start need).Sound (pre ++ (remainder b need ++ post))
        (handed b need :: used) ∧
      (takeNode h (slot none pre) b.start need).nodeSize b.start = (handed b need).size ∧
      h.Untouched (takeNode h (slot none pre) b.start need) used := by
  obtain ⟨hlist, htiling, hspaced, hlarge, hpool, hbound, hnull⟩ := hs
  have hb : b ∈ pre ++ b :: post ++ used := by simp
  have hinside := htiling.inside b hb
  have hlists := (pairwise_append.mp htiling.apart).1
  obtain ⟨hsplit, hbase, hsize, hsame⟩ := splitNode_spec hlist hneed hfits
    (by have := hinside; simp only [Block.finish] at this; omega) (by omega) hlists
  -- the same blocks with the one that is taken cut in two
  have hcut : Tiling h.base (h.base + h.size)
      (handed b need :: (remainder b need ++ (pre ++ post ++ used))) := by
    refine tiling_handed (by simp only [minBlock] at hneed; omega) (htiling.perm ?_)
    rw [append_assoc, append_assoc, cons_append]
    exact perm_middle
  have happart : (pre ++ handed b need :: (remainder b need ++ post)).Pairwise Block.Apart := by
    have hperm : (handed b need :: (remainder b need ++ (pre ++ post ++ used))).Perm
        ((pre ++ handed b need :: (remainder b need ++ post)) ++ used) :=
      perm_iff_count.mpr fun a => by
        simp only [count_append, count_cons]
        omega
    exact (pairwise_append.mp (hcut.perm hperm).apart).1
  have htake : takeNode h (slot none pre) b.start need =
      (splitNode h b.start need).setDeref (slot none pre)
        ((splitNode h b.start need).nodeNext b.start) := Heap.setSize_nodeSize _ _
  have hpre : ∀ c ∈ pre, minBlock ≤ c.size := fun c hc =>
    hlist.large c (mem_append_left _ hc)
  have hbefore := (pairwise_append.mp happart).2.2
  rw [htake]
  refine ⟨⟨hsplit.unlink happart, ?_, spaced_remainder hspaced hneed hlists, ?_, ?_, ?_, ?_⟩,
    ?_, ?_, ?_, fun c hc x hx => ?_⟩
  · rw [Heap.setDeref_base, Heap.setDeref_size, hbase, hsize]
    refine hcut.perm (perm_iff_count.mpr fun a => ?_)
    simp only [count_append, count_cons]
    omega
  · exact forall_mem_cons.mpr ⟨hneed.trans (le_handed hfits), hlarge⟩
  · rw [Heap.setDeref_size, hsize, hpool]
  · rw [Heap.setDeref_base, Heap.setDeref_size, hbase, hsize]
    exact hbound
  · rw [Heap.setDeref_base, hbase]
    exact hnull
  · have hnode : (splitNode h b.start need).nodeSize b.start = (handed b need).size :=
      hsplit.nodeSize_eq (b := handed b need) (by simp)
    have hsize' := hneed.trans (le_handed hfits)
    rw [← hnode]
    refine load_congr fun x hlo hhi => Heap.setDeref_slot_outside hpre fun c hc => ?_
    refine not_has_of_apart (hbefore c hc _ mem_cons_self).symm ⟨hlo, ?_⟩
    simp only [minBlock, Block.finish, handed] at hsize' ⊢
    omega
  · rw [Heap.setDeref_base, hbase]
  · rw [Heap.setDeref_size, hsize]
  · have hused := (pairwise_append.mp htiling.apart).2.2
    rw [Heap.setDeref_slot_outside hpre fun d hd =>
      not_has_of_apart (hused d (mem_append_left _ hd) c hc).symm hx]
    exact hsame x (not_has_of_apart (hused b (by simp) c hc).symm hx)

lemma minBlock_le_needOf (size : ℕ) : minBlock ≤ needOf size := le_max_right _ _

lemma kmalloc_spec (hs : h.Sound frees used) (size : ℕ) :
    (kmalloc h size = some (0, h) ∧ (size ≠ 0 → ∀ b ∈ frees, b.size < needOf size)) ∨
      ∃ N h' frees', kmalloc h size = some (N.start + 8, h') ∧ h'.Sound frees' (N :: used) ∧
        needOf size ≤ N.size ∧ h'.nodeSize N.start = N.size ∧ h.Untouched h' used := by
  by_cases hzero : size = 0
  · exact Or.inl ⟨if_pos hzero, fun hne => absurd hzero hne⟩
  rw [kmalloc, if_neg hzero]
  have hlist : FreeList h.mem (h.deref none) frees := hs.list
  rcases kmallocLoop_spec (needOf size) hlist hs.length_lt with
    ⟨hrun, hsmall⟩ | ⟨pre, b, post, rfl, hfits, hrun⟩
  · exact Or.inl ⟨hrun, fun _ => hsmall⟩
  · obtain ⟨hsound, hnode, hkept⟩ := takeNode_sound hs (minBlock_le_needOf size) hfits
    exact Or.inr ⟨handed b (needOf size), _, _, hrun, hsound, le_handed hfits, hnode, hkept⟩

/-! ## Giving a block back -/

structure Heap.Loose (h : Heap) (N : Block) (frees used : List Block) : Prop where
  list : FreeList h.mem h.free frees
  header : h.nodeSize N.start = N.size
  tiling : Tiling h.base (h.base + h.size) (N :: (frees ++ used))
  spaced : Spaced frees
  large : ∀ b ∈ N :: used, minBlock ≤ b.size
  pool : h.size = heapSize
  bound : h.base + h.size < 2 ^ 64
  null : 0 < h.base

namespace Heap.Loose

variable (hs : h.Loose N frees used)
include hs

lemma apart_free (hb : b ∈ frees) : N.Apart b :=
  (pairwise_cons.mp hs.tiling.apart).1 b (mem_append_left _ hb)

lemma apart_used (hb : b ∈ used) : N.Apart b :=
  (pairwise_cons.mp hs.tiling.apart).1 b (mem_append_right _ hb)

lemma free_apart_used (hb : b ∈ frees) (hc : c ∈ used) : b.Apart c :=
  (pairwise_append.mp (pairwise_cons.mp hs.tiling.apart).2).2.2 b hb c hc

lemma inside : h.base ≤ N.start ∧ N.finish ≤ h.base + h.size :=
  hs.tiling.inside N mem_cons_self

lemma length_lt : frees.length < h.size + 1 := by
  have hlen := hs.tiling.length_le
  rw [length_cons, length_append] at hlen
  omega

lemma absorb (hfrees : frees = pre ++ c :: post) (hnext : c.start = N.finish) :
    ∃ h', h' = (h.setSize N.start (N.size + c.size)).setDeref (slot none pre)
        ((h.setSize N.start (N.size + c.size)).nodeNext c.start) ∧
      h'.Loose ⟨N.start, N.size + c.size⟩ (pre ++ post) used ∧ h.Untouched h' used := by
  subst hfrees
  have hlargeN := hs.large N mem_cons_self
  have hpre : ∀ b ∈ pre, minBlock ≤ b.size := fun b hb =>
    hs.list.large b (mem_append_left _ hb)
  have hlist : FreeList (h.setSize N.start (N.size + c.size)).mem
      (h.setSize N.start (N.size + c.size)).free (pre ++ c :: post) :=
    hs.list.congr fun b hb x hx =>
      Heap.setSize_outside hlargeN (not_has_of_apart (hs.apart_free hb).symm hx)
  have hlists : (pre ++ c :: post).Pairwise Block.Apart :=
    (pairwise_append.mp (pairwise_cons.mp hs.tiling.apart).2).1
  have hinside := hs.tiling.inside c (by simp)
  have hbound := hs.bound
  simp only [Block.finish] at hinside hnext
  refine ⟨_, rfl, ⟨hlist.unlink hlists, ?_, ?_, ?_, ?_, ?_, ?_, ?_⟩, ?_, ?_, fun b hb x hx => ?_⟩
  · have hsize : (h.setSize N.start (N.size + c.size)).nodeSize N.start = N.size + c.size :=
      Heap.nodeSize_setSize (by omega) N.start
    refine Eq.trans (load_congr fun x hlo hhi => ?_) hsize
    refine Heap.setDeref_slot_outside hpre fun b hb => ?_
    refine not_has_of_apart (hs.apart_free (mem_append_left _ hb)) ⟨hlo, ?_⟩
    simp only [minBlock, Block.finish] at hlargeN hhi ⊢
    omega
  · rw [Heap.setDeref_base, Heap.setDeref_size]
    refine Tiling.join (hs.tiling.perm (perm_iff_count.mpr fun a => ?_)) hnext
    simp only [count_append, count_cons]
    omega
  · exact hs.spaced.subset ((sublist_cons_self c post).append_left pre).subset
  · refine forall_mem_cons.mpr ⟨hlargeN.trans (Nat.le_add_right _ _), ?_⟩
    exact fun b hb => hs.large b (mem_cons_of_mem _ hb)
  · rw [Heap.setDeref_size]
    exact hs.pool
  · rw [Heap.setDeref_base, Heap.setDeref_size]
    exact hs.bound
  · rw [Heap.setDeref_base]
    exact hs.null
  · exact Heap.setDeref_base _ _ _
  · exact Heap.setDeref_size _ _ _
  · rw [Heap.setDeref_slot_outside hpre fun d hd => not_has_of_apart
      (hs.free_apart_used (mem_append_left _ hd) hb).symm hx]
    exact Heap.setSize_outside hlargeN (not_has_of_apart (hs.apart_used hb).symm hx)

end Heap.Loose

lemma mergeNext_spec (hs : h.Loose N frees used) :
    ∃ h' N' frees', mergeNext h N.start = some h' ∧ h'.Loose N' frees' used ∧
      N'.start = N.start ∧ (∀ b ∈ frees', b.start ≠ N'.finish) ∧ h.Untouched h' used := by
  have hinside := hs.inside
  have hbound := hs.bound
  have hwrap : (N.start + h.nodeSize N.start) % 2 ^ 64 = N.finish := by
    rw [hs.header]
    exact Nat.mod_eq_of_lt (by simp only [Block.finish] at hinside; omega)
  simp only [mergeNext, hwrap]
  by_cases hend : N.finish < h.base + h.size
  · rw [if_pos hend]
    rcases findNode_spec (· == N.finish) hs.list hs.length_lt with
      ⟨hrun, hno⟩ | ⟨c, hc, hhit, hrun⟩
    · refine ⟨h, N, frees, ?_, hs, rfl, fun b hb hstart => ?_, rfl, rfl, fun _ _ _ _ => rfl⟩
      · rw [hrun]
        rfl
      · exact absurd (hno b hb) (by simp [hstart])
    · obtain ⟨pre, post, rfl⟩ := append_of_mem hc
      have hnext : c.start = N.finish := eq_of_beq hhit
      obtain ⟨h', heq, hloose, hkept⟩ := hs.absorb rfl hnext
      have hother : ∀ b ∈ pre, b.start ≠ c.start := fun b hb hstart => by
        have hlists := (pairwise_append.mp (pairwise_cons.mp hs.tiling.apart).2).1
        have hapart := (pairwise_append.mp hlists).2.2 b hb c mem_cons_self
        have hb' := hs.list.large b (mem_append_left _ hb)
        have hc' := hs.list.large c hc
        simp only [Block.Apart, Block.finish, minBlock] at hapart hb' hc'
        omega
      have hlist : FreeList (h.setSize N.start (N.size + c.size)).mem
          ((h.setSize N.start (N.size + c.size)).deref none) (pre ++ c :: post) :=
        hs.list.congr fun b hb x hx => Heap.setSize_outside (hs.large N mem_cons_self)
          (not_has_of_apart (hs.apart_free hb).symm hx)
      obtain ⟨hloop, hderef⟩ := unlinkLoop_spec hlist hother (show pre.length < h.size + 1 by
          have := hs.length_lt
          rw [length_append] at this
          omega)
      refine ⟨h', _, _, ?_, hloose, rfl, fun b hb hstart => ?_, hkept⟩
      · have hne : c.start ≠ 0 := hs.list.node.2.1
        have hstep : unlinkLoop c.start (h.setSize N.start (N.size + c.size))
            ((h.setSize N.start (N.size + c.size)).size + 1) none = some (slot none pre) := hloop
        simp only [hrun, hs.header, bind_eq_bind, bind_some, if_neg hne,
          hs.list.nodeSize_eq hc, hstep]
        rw [if_pos hderef, heq]
      · have hfinish : b.start = c.finish := by
          simp only [Block.finish] at hstart hnext ⊢
          omega
        have hsub := ((sublist_cons_self c post).append_left pre).subset hb
        exact hs.spaced c hc b hsub hfinish
  · rw [if_neg hend]
    refine ⟨h, N, frees, rfl, hs, rfl, fun b hb hstart => ?_, rfl, rfl, fun _ _ _ _ => rfl⟩
    have hb' := hs.tiling.inside b (by simp [hb])
    have hpos := hs.tiling.positive b (by simp [hb])
    simp only [Block.finish] at hb' hstart hend
    omega

lemma spaced_join (hspaced : Spaced (pre ++ c :: post)) (hnext : N.start = c.finish)
    (hlast : ∀ b ∈ pre ++ c :: post, b.start ≠ N.finish) :
    Spaced (pre ++ ⟨c.start, c.size + N.size⟩ :: post) := by
  have hfinish : Block.finish ⟨c.start, c.size + N.size⟩ = N.finish := by
    simp only [Block.finish] at hnext ⊢
    omega
  have hmem : ∀ b ∈ pre ++ ⟨c.start, c.size + N.size⟩ :: post,
      b ∈ pre ++ c :: post ∨ b = ⟨c.start, c.size + N.size⟩ := by
    intro b hb
    simp only [mem_append, mem_cons] at hb ⊢
    tauto
  have hc : c ∈ pre ++ c :: post := by simp
  intro a ha b hb
  rcases hmem a ha with ha | rfl
  · rcases hmem b hb with hb | rfl
    · exact hspaced a ha b hb
    · exact hspaced a ha c hc
  · rw [hfinish]
    rcases hmem b hb with hb | rfl
    · exact hlast b hb
    · exact hlast c hc

lemma Heap.Loose.push (hs : h.Loose N frees used) (hlast : ∀ b ∈ frees, b.start ≠ N.finish)
    (hfirst : ∀ b ∈ frees, N.start ≠ b.finish) :
    Heap.Sound { h.setNext N.start h.free with free := N.start } (N :: frees) used ∧
      h.Untouched { h.setNext N.start h.free with free := N.start } used := by
  have hlarge := hs.large N mem_cons_self
  have hfree : h.free < 2 ^ 64 := by
    cases frees with
    | nil =>
      have hzero : h.free = 0 := hs.list
      omega
    | cons b rest =>
      have hb := hs.tiling.inside b (by simp)
      have hbound := hs.bound
      have hstart : h.free = b.start := hs.list.1
      simp only [Block.finish] at hb
      omega
  refine ⟨⟨⟨rfl, ?_, hlarge, ?_, ?_⟩, hs.tiling, ?_, ?_, hs.pool, hs.bound, hs.null⟩, rfl, rfl,
    fun b hb x hx => ?_⟩
  · have hinside := hs.inside
    have hnull := hs.null
    show N.start ≠ 0
    omega
  · exact (Heap.nodeSize_setNext N.start).trans hs.header
  · have hnext : load (h.setNext N.start h.free).mem (N.start + 8) 8 = h.free :=
      Heap.nodeNext_setNext hfree N.start
    rw [hnext]
    exact hs.list.congr fun b hb x hx =>
      Heap.setNext_outside hlarge (not_has_of_apart (hs.apart_free hb).symm hx)
  · intro b hb c hc
    have hpos := hs.tiling.positive N mem_cons_self
    rcases mem_cons.mp hb with hb | hb
    · rcases mem_cons.mp hc with hc | hc
      · simp only [hb, hc, Block.finish]
        omega
      · rw [hb]
        exact hlast c hc
    · rcases mem_cons.mp hc with hc | hc
      · rw [hc]
        exact hfirst b hb
      · exact hs.spaced b hb c hc
  · exact fun b hb => hs.large b (mem_cons_of_mem _ hb)
  · exact Heap.setNext_outside hlarge (not_has_of_apart (hs.apart_used hb).symm hx)

lemma Heap.Loose.grow (hs : h.Loose N frees used) (hfrees : frees = pre ++ c :: post)
    (hnext : N.start = c.finish) (hlast : ∀ b ∈ frees, b.start ≠ N.finish) :
    (h.setSize c.start (c.size + N.size)).Sound (pre ++ ⟨c.start, c.size + N.size⟩ :: post) used ∧
      h.Untouched (h.setSize c.start (c.size + N.size)) used := by
  subst hfrees
  have hc : c ∈ pre ++ c :: post := by simp
  have hlarge := hs.list.large c hc
  have hlists : (pre ++ c :: post).Pairwise Block.Apart :=
    (pairwise_append.mp (pairwise_cons.mp hs.tiling.apart).2).1
  obtain ⟨-, hpair, hbefore⟩ := pairwise_append.mp hlists
  obtain ⟨hafter, -⟩ := pairwise_cons.mp hpair
  have hinside := hs.inside
  have hbound := hs.bound
  refine ⟨⟨?_, ?_, spaced_join hs.spaced hnext hlast, ?_, hs.pool, hs.bound, hs.null⟩, rfl, rfl,
    fun b hb x hx => ?_⟩
  · refine hs.list.replace (fun b hb x hx => ?_) fun q hq => ?_
    · exact Heap.setSize_outside hlarge (not_has_of_apart (hbefore b hb c mem_cons_self) hx)
    · obtain ⟨rfl, hne, -, -, hpost⟩ := hq
      have hsize : (h.setSize c.start (c.size + N.size)).nodeSize c.start = c.size + N.size :=
        Heap.nodeSize_setSize (by simp only [Block.finish] at hnext hinside; omega) c.start
      have hlink : load (h.setSize c.start (c.size + N.size)).mem (c.start + 8) 8 =
          load h.mem (c.start + 8) 8 := Heap.nodeNext_setSize c.start
      refine ⟨rfl, hne, hlarge.trans (Nat.le_add_right _ _), hsize, ?_⟩
      rw [hlink]
      exact hpost.congr fun b hb x hx =>
        Heap.setSize_outside hlarge (not_has_of_apart (hafter b hb).symm hx)
  · have hjoin : Tiling h.base (h.base + h.size)
        (⟨c.start, c.size + N.size⟩ :: (pre ++ post ++ used)) := by
      refine Tiling.join (hs.tiling.perm (perm_iff_count.mpr fun a => ?_)) hnext
      simp only [count_append, count_cons]
      omega
    refine hjoin.perm (perm_iff_count.mpr fun a => ?_)
    simp only [count_append, count_cons]
    omega
  · exact fun b hb => hs.large b (mem_cons_of_mem _ hb)
  · exact Heap.setSize_outside hlarge (not_has_of_apart (hs.free_apart_used hc hb).symm hx)

lemma mergePrev_spec (hs : h.Loose N frees used) (hlast : ∀ b ∈ frees, b.start ≠ N.finish) :
    ∃ h' frees', mergePrev h N.start = some h' ∧ h'.Sound frees' used ∧ h.Untouched h' used := by
  have hwrap : ∀ b ∈ frees, (b.start + h.nodeSize b.start) % 2 ^ 64 = b.finish := by
    intro b hb
    have hinside := hs.tiling.inside b (by simp [hb])
    have hbound := hs.bound
    rw [hs.list.nodeSize_eq hb]
    exact Nat.mod_eq_of_lt (by simp only [Block.finish] at hinside; omega)
  rw [mergePrev]
  by_cases hfirst : h.base < N.start
  · rw [if_pos hfirst]
    rcases findNode_spec (fun fp => (fp + h.nodeSize fp) % 2 ^ 64 == N.start) hs.list
      hs.length_lt with ⟨hrun, hno⟩ | ⟨c, hc, hhit, hrun⟩
    · have hbefore : ∀ b ∈ frees, N.start ≠ b.finish := by
        intro b hb heq
        have hmiss := hno b hb
        rw [hwrap b hb, ← heq] at hmiss
        simp at hmiss
      obtain ⟨hsound, hkept⟩ := hs.push hlast hbefore
      refine ⟨_, _, ?_, hsound, hkept⟩
      rw [hrun]
      rfl
    · have hnext : N.start = c.finish := by
        rw [hwrap c hc] at hhit
        exact (eq_of_beq hhit).symm
      obtain ⟨pre, post, rfl⟩ := append_of_mem hc
      obtain ⟨hsound, hkept⟩ := hs.grow rfl hnext hlast
      have hne : c.start ≠ 0 := hs.list.node.2.1
      refine ⟨_, _, ?_, hsound, hkept⟩
      simp only [hrun, bind_eq_bind, bind_some, if_neg hne, hs.list.nodeSize_eq hc, hs.header]
  · rw [if_neg hfirst]
    have hbefore : ∀ b ∈ frees, N.start ≠ b.finish := by
      intro b hb heq
      have hinside := hs.tiling.inside b (by simp [hb])
      have hpos := hs.tiling.positive b (by simp [hb])
      simp only [Block.finish] at heq
      omega
    obtain ⟨hsound, hkept⟩ := hs.push hlast hbefore
    exact ⟨_, _, rfl, hsound, hkept⟩

lemma kfree_spec (hs : h.Sound frees (N :: used)) (hheader : h.nodeSize N.start = N.size) :
    ∃ h' frees', kfree h (N.start + 8) = some h' ∧ h'.Sound frees' used ∧
      h.Untouched h' used := by
  have hinside := hs.tiling.inside N (by simp)
  have hlarge := hs.large N mem_cons_self
  have hbound := hs.bound
  have hnull := hs.null
  have hloose : h.Loose N frees used :=
    { list := hs.list
      header := hheader
      tiling := hs.tiling.perm perm_middle
      spaced := hs.spaced
      large := hs.large
      pool := hs.pool
      bound := hbound
      null := hnull }
  have hcleared : (h.setNext N.start 0).Loose N frees used :=
    { hloose with
      list := hs.list.congr fun b hb x hx =>
        Heap.setNext_outside hlarge (not_has_of_apart (hloose.apart_free hb).symm hx)
      header := (Heap.nodeSize_setNext N.start).trans hheader }
  have hkept : h.Untouched (h.setNext N.start 0) used :=
    ⟨rfl, rfl, fun b hb x hx =>
      Heap.setNext_outside hlarge (not_has_of_apart (hloose.apart_used hb).symm hx)⟩
  obtain ⟨h₁, N', frees₁, hrun₁, hloose₁, hstart, hlast, hkept₁⟩ := mergeNext_spec hcleared
  obtain ⟨h₂, frees₂, hrun₂, hsound, hkept₂⟩ := mergePrev_spec hloose₁ hlast
  refine ⟨h₂, frees₂, ?_, hsound, (hkept.trans hkept₁).trans hkept₂⟩
  simp only [Block.finish] at hinside
  have hguard : ¬ (N.size < minBlock ∨ N.start < h.base ∨
      h.base + h.size < (N.start + N.size) % 2 ^ 64) := by
    omega
  rw [kfree, if_neg (by omega)]
  simp only [Nat.add_sub_cancel, hheader]
  rw [if_neg hguard]
  have hsame : h.setSize N.start N.size = h := by
    rw [← hheader]
    exact h.setSize_nodeSize N.start
  rw [hsame, hrun₁]
  rw [← hstart]
  exact hrun₂

end HelixOS
