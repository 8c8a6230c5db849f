import HelixOS.MappingPages

/-!
# Splitting a 2 MiB page

`paging_map_4k` replaces a large leaf on its way by a table of 512 entries.  They map what
the leaf has mapped; of its attributes the mask `0x80000000000001EF` drops `PTE_PCD`.
-/

namespace HelixOS

open Function

variable {s t : Machine} {virt phys flags big : Word} {pd : ℕ} {j : Fin 512}

def leafAttributes : List Word :=
  [pteW, pteU, ptePwt, ptePcd, 0x100#64, 0x8000000000000000#64]

/-- The walk of `paging_map_4k` meets the large leaf `big` in the table `pd`, having changed the
two tables above at most. -/
structure MeetsLeaf (s t : Machine) (virt flags big : Word) (pd : ℕ) : Prop where
  walk : ∃ user pdpt s₁, user = (if hasFlag flags pteU then pteU else 0#64) ∧
    mapPml4Entry s (frameOf s.cr3) (tableIndex virt 3) user = (true, s₁) ∧
    tableFrame (s₁.mem (frameOf s.cr3) (tableIndex virt 3)) = pdpt ∧
    mapPdptEntry s₁ pdpt (tableIndex virt 2) user = (true, t) ∧
    tableFrame (t.mem pdpt (tableIndex virt 2)) = pd
  leaf : t.mem pd (tableIndex virt 1) = big
  present : hasFlag big pteP = true
  large : hasFlag big ptePs = true
  aligned : frameOf big % 512 = 0
  sound : t.pmm.Sound
  inUse : t.pmm.used pd = true

/-! ## The new table -/

/-- The entries of the table that takes the place of the leaf, the mapped one apart. -/
theorem pagingMap4k_splits (h : MeetsLeaf s t virt flags big pd)
    (hok : (pagingMap4k s virt phys flags).1 = true) (hj : j ≠ tableIndex virt 0) :
    (pagingMap4k s virt phys flags).2.mem
      (tableFrame ((pagingMap4k s virt phys flags).2.mem pd (tableIndex virt 1))) j =
        splitEntry big j := by
  obtain ⟨user, pdpt, s₁, huser, hpml4, hpdpt, hmap, hpd⟩ := h.walk
  have hlow : user.toNat < 4096 := by
    rw [huser]
    split <;> decide
  have heq : pagingMap4k s virt phys flags = mapWalk s virt phys flags user := by
    unfold pagingMap4k at hok ⊢
    rw [← huser] at hok ⊢
    split_ifs at hok ⊢
    rfl
  rw [heq] at hok ⊢
  simp only [mapWalk, hpml4, hpdpt, hmap, hpd, mapPdEntry, h.leaf, h.present, h.large, if_true,
    Bool.not_true, Bool.false_eq_true, if_false, splitLargePage, allocTable] at hok ⊢
  rcases allocZeroedPage_cases h.sound with ⟨p, hfree, hne, hframe, halloc⟩ | ⟨-, halloc⟩
  · have hother : p ≠ pd := by
      rintro rfl
      exact absurd h.inUse (by simp [hfree.2])
    have hedge :
        frameOf (frameAddr p ||| pteP ||| pteW ||| (splitFlags big &&& pteU) ||| user) = p := by
      rw [splitFlags_user, frameOf_or_flags _ hlow, frameOf_or_flags _ (by split <;> decide),
        frameOf_or_flags _ (by decide), frameOf_or_flags _ (by decide), hframe]
    simp [halloc, hne, hframe, Machine.setEntry, setEntry, hedge, hother, hother.symm, hj]
  · simp [halloc] at hok

/-! ## Its attributes -/

lemma splitEntry_attribute {flag : Word} (haligned : frameOf big % 512 = 0)
    (hflag : flag ∈ leafAttributes) :
    hasFlag (splitEntry big j) flag = if flag = ptePcd then false else hasFlag big flag := by
  obtain ⟨haddr, hp, hkept⟩ : pteAddr &&& flag = 0#64 ∧ hasFlag pteP flag = false ∧
      0x80000000000001EF#64 &&& ~~~ptePs &&& flag = if flag = ptePcd then 0#64 else flag := by
    simp only [leafAttributes, List.mem_cons, List.not_mem_nil, or_false] at hflag
    rcases hflag with rfl | rfl | rfl | rfl | rfl | rfl <;> decide
  have hbase : (big &&& pteAddr) + BitVec.ofNat 64 j.val * 4096#64 =
      ((big &&& pteAddr) + BitVec.ofNat 64 j.val * 4096#64) &&& pteAddr := by
    apply BitVec.eq_of_toNat_eq
    rw [toNat_and_pteAddr, toNat_splitBase _ _ haligned]
    omega
  rw [splitEntry, hasFlag_or, hasFlag_or, hbase, hasFlag_and, haddr, hasFlag_splitFlags, hkept, hp]
  split <;> simp

def leafMachine (big : Word) : Machine where
  pmm := ⟨5, fun p => p < 4, fun _ => 0, 1#64⟩
  mem f _ := if f = 1 then 0x2003#64 else if f = 2 then 0x3003#64 else big
  cr3 := 0x1000#64
  kernelPml4 := 0x1000#64

lemma leafMachine_meetsLeaf (hpresent : hasFlag big pteP = true)
    (hlarge : hasFlag big ptePs = true) (haligned : frameOf big % 512 = 0) :
    MeetsLeaf (leafMachine big) (leafMachine big) 0#64 pteW big 3 := by
  have hframes : frameOf 0x1000#64 = 1 ∧ frameOf 0x2003#64 = 2 ∧ frameOf 0x3003#64 = 3 := by decide
  have hflags : hasFlag 0x2003#64 pteP = true ∧ hasFlag 0x3003#64 pteP = true ∧
      hasFlag 0x3003#64 ptePs = false := by decide
  refine ⟨⟨0#64, 2, leafMachine big, rfl, ?_⟩, rfl, hpresent, hlarge, haligned,
    ⟨fun _ => rfl, by simp [leafMachine]⟩, rfl⟩
  simp [leafMachine, mapPml4Entry, mapPdptEntry, hframes, hflags]

end HelixOS
