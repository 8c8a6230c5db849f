import HelixOS.HeapRuns

/-!
# Borrowed heap blocks

A kernel function takes blocks for its own use and gives them back when it fails.  The blocks of
the other owners stay where they are.
-/

namespace HelixOS

open ByteMemory Tilings TrackedRuns Option List

namespace HeapRun

/-- `kmalloc` with the pointer it returns, which is `0` if there is no block. -/
def malloc (s : HeapRun) (size : ℕ) : Option (ℕ × HeapRun) :=
  (kmalloc s.heap size).map fun r =>
    (r.1, ⟨r.2, if r.1 = 0 then s.live else (r.1, size) :: s.live⟩)

def free (s : HeapRun) (ptr : ℕ) : Option HeapRun := s.step (.free ptr)

end HeapRun

/-- From `s₀` on the blocks `ps` have been taken and not given back; the blocks of the other
owners are where they were. -/
structure Borrows (s₀ s : HeapRun) (ps : List (ℕ × ℕ)) : Prop where
  intact : ∃ frees, s.Intact frees
  base_eq : s.heap.base = s₀.heap.base
  live : s.live.Perm (ps ++ s₀.live)
  kept : ∀ l ∈ s₀.live, s.heap.usedBlock l.1 = s₀.heap.usedBlock l.1

section

variable {s₀ s : HeapRun} {ps qs : List (ℕ × ℕ)}

lemma Borrows.start {frees : List Block} (hs : s.Intact frees) : Borrows s s [] :=
  ⟨⟨frees, hs⟩, rfl, List.Perm.refl _, fun _ _ => rfl⟩

lemma Borrows.perm (hb : Borrows s₀ s ps) (hperm : ps.Perm qs) : Borrows s₀ s qs :=
  ⟨hb.intact, hb.base_eq, hb.live.trans (hperm.append_right _), hb.kept⟩

lemma HeapRun.Intact.ptr_nodup {frees : List Block} (hs : s.Intact frees) :
    (s.live.map Prod.fst).Nodup := by
  have happart := (pairwise_append.mp hs.sound.tiling.apart).2.1
  rw [HeapRun.blocks, pairwise_map] at happart
  rw [List.Nodup, pairwise_map]
  refine happart.imp_of_mem fun {a b} ha _ hapart heq => ?_
  have hlarge := hs.sound.large _ (mem_map_of_mem ha)
  rw [← heq] at hapart
  simp only [Block.Apart, Block.finish, minBlock] at hapart hlarge
  omega

lemma Borrows.malloc (hb : Borrows s₀ s ps) (size : ℕ) :
    ∃ p s', s.malloc size = some (p, s') ∧
      (p = 0 ∧ Borrows s₀ s' ps ∨ p ≠ 0 ∧ Borrows s₀ s' ((p, size) :: ps)) := by
  obtain ⟨frees, hs⟩ := hb.intact
  obtain ⟨s', frees', hstep, hs', -, hkept, hbase⟩ := hs.malloc size
  obtain ⟨⟨p, h⟩, hrun, rfl⟩ := map_eq_some_iff.mp hstep
  refine ⟨p, _, by rw [HeapRun.malloc, hrun]; rfl, ?_⟩
  have hsub : ∀ l ∈ s.live, l ∈ if p = 0 then s.live else (p, size) :: s.live := by
    intro l hl
    split_ifs
    · exact hl
    · exact mem_cons_of_mem _ hl
  have hold : ∀ l ∈ s₀.live, h.usedBlock l.1 = s₀.heap.usedBlock l.1 := by
    intro l hl
    have hmem : l ∈ s.live := hb.live.mem_iff.mpr (mem_append_right _ hl)
    exact (hkept l hmem (hsub l hmem)).trans (hb.kept l hl)
  by_cases hp : p = 0
  · refine Or.inl ⟨hp, ⟨frees', hs'⟩, hbase.trans hb.base_eq, ?_, hold⟩
    simpa only [if_pos hp] using hb.live
  · refine Or.inr ⟨hp, ⟨frees', hs'⟩, hbase.trans hb.base_eq, ?_, hold⟩
    simp only [if_neg hp]
    exact hb.live.cons (p, size)

lemma Borrows.malloc_refused {s' : HeapRun} {size : ℕ} (hb : Borrows s₀ s ps)
    (hrun : s.malloc size = some (0, s')) : s' = s := by
  obtain ⟨frees, hs⟩ := hb.intact
  rcases kmalloc_spec hs.sound size with ⟨hspec, -⟩ | ⟨N, h', frees', hspec, -⟩
  · rw [HeapRun.malloc, hspec] at hrun
    exact (Prod.mk.inj (some.inj hrun)).2.symm
  · rw [HeapRun.malloc, hspec] at hrun
    exact absurd (Prod.mk.inj (some.inj hrun)).1 (Nat.succ_ne_zero _)

lemma Borrows.free {p n : ℕ} (hb : Borrows s₀ s ((p, n) :: ps)) :
    ∃ s', s.free p = some s' ∧ Borrows s₀ s' ps := by
  obtain ⟨frees, hs⟩ := hb.intact
  have hmem : (p, n) ∈ s.live := hb.live.mem_iff.mpr mem_cons_self
  obtain ⟨s', frees', hstep, hs', -, hkept, hbase⟩ :=
    hs.free p (Or.inr ⟨(p, n), hmem, rfl⟩)
  obtain ⟨a, l₁, l₂, -, ha, hlist, herase⟩ :=
    exists_of_eraseP (p := (·.1 == p)) hmem (by simp)
  have hlive : s'.live = l₁ ++ l₂ := by
    obtain ⟨h, -, rfl⟩ := map_eq_some_iff.mp hstep
    exact herase
  -- pointers of live blocks are different, so the block taken off the list is this one
  obtain rfl : a = (p, n) := by
    refine inj_on_of_nodup_map hs.ptr_nodup ?_ hmem (eq_of_beq ha)
    rw [hlist]
    exact mem_append_right _ mem_cons_self
  have hmiddle : s.live.Perm ((p, n) :: (l₁ ++ l₂)) := by
    rw [hlist]
    exact perm_middle
  have hperm : (l₁ ++ l₂).Perm (ps ++ s₀.live) :=
    List.Perm.cons_inv (hmiddle.symm.trans hb.live)
  rw [← hlive] at hperm
  refine ⟨s', hstep, ⟨frees', hs'⟩, hbase.trans hb.base_eq, hperm, fun l hl => ?_⟩
  exact (hkept l (hb.live.mem_iff.mpr (mem_append_right _ hl))
    (hperm.mem_iff.mpr (mem_append_right _ hl))).trans (hb.kept l hl)

end

end HelixOS
