import HelixOS.LoopRules
import HelixOS.UnmappingPages

/-!
# Destroying an address space

`destroy_level` walks a table that no other table shares, gives back every
managed frame it refers to exactly once, and touches no other memory.
-/

namespace HelixOS

open RadixMemory LoopRules

variable {m : Mem} {g : ℕ} {i : Fin 512} {A : Set ℕ}

def tableRefs (m : Mem) (l f g : ℕ) : ℕ :=
  (if f = g then 1 else 0) + tableSum pteFormat (refWeight g) m l f

lemma refsOf_eq (m) (root g : ℕ) : refsOf m root g = tableRefs m 3 root g := rfl

lemma entryRefs_table {w : Word} (htable : pteFormat.isTable w = true) (m) (l g : ℕ) :
    entrySum pteFormat (refWeight g) m (l + 1) w = tableRefs m l (frameOf w) g := by
  simp [entrySum, htable, refWeight_succ, edgeWeight_table htable, tableRefs, tableSum]

lemma entryRefs_large {w : Word} (hnot : pteFormat.isTable w = false) (m : Mem)
    (l g : ℕ) : entrySum pteFormat (refWeight g) m (l + 1) w = 0 := by
  simp [entrySum, hnot, refWeight_succ, edgeWeight]

structure Doomed (A : Set ℕ) (s : Machine) (l tab : ℕ) : Prop where
  unshared : Unshared pteFormat s.mem l tab
  tables : ∀ g, tableTabs pteFormat s.mem l tab g ≠ 0 → g ∈ A
  refs_le : ∀ g ∈ A, tableRefs s.mem l tab g ≤ s.pmm.usedCount g
  manages : s.pmm.Manages A

structure Destroyed (A : Set ℕ) (s t : Machine) (l tab : ℕ) : Prop where
  manages : t.pmm.Manages A
  total_eq : t.pmm.total = s.pmm.total
  cr3_eq : t.cr3 = s.cr3
  kernel_eq : t.kernelPml4 = s.kernelPml4
  count : ∀ g ∈ A, t.pmm.usedCount g + tableRefs s.mem l tab g = s.pmm.usedCount g
  frame : ∀ g, tableTabs pteFormat s.mem l tab g = 0 → t.mem g = s.mem g

structure Walked (A : Set ℕ) (s t : Machine) (l tab k : ℕ) : Prop where
  manages : t.pmm.Manages A
  total_eq : t.pmm.total = s.pmm.total
  cr3_eq : t.cr3 = s.cr3
  kernel_eq : t.kernelPml4 = s.kernelPml4
  count : ∀ g ∈ A, t.pmm.usedCount g +
      before (fun j => entrySum pteFormat (refWeight g) s.mem l (s.mem tab j)) k =
    s.pmm.usedCount g
  frame : ∀ g, g ≠ tab →
    before (fun j => entryTabs pteFormat s.mem l (s.mem tab j) g) k = 0 → t.mem g = s.mem g
  later : ∀ j : Fin 512, k ≤ j.val → t.mem tab j = s.mem tab j

section Walking

variable {s t u : Machine} {l tab : ℕ}

lemma Walked.init (hdoom : Doomed A s l tab) : Walked A s s l tab 0 :=
  ⟨hdoom.manages, rfl, rfl, rfl, fun _ _ => by simp, fun _ _ _ => rfl, fun _ _ => rfl⟩

lemma Walked.step (hwalk : Walked A s t l tab i.val)
    (hman : u.pmm.Manages A) (htotal : u.pmm.total = t.pmm.total) (hcr3 : u.cr3 = t.cr3)
    (hkernel : u.kernelPml4 = t.kernelPml4)
    (hcount : ∀ g ∈ A, u.pmm.usedCount g +
      entrySum pteFormat (refWeight g) s.mem l (s.mem tab i) = t.pmm.usedCount g)
    (hframe : ∀ g, g ≠ tab → entryTabs pteFormat s.mem l (s.mem tab i) g = 0 →
      u.mem g = t.mem g)
    (hothers : ∀ j, j ≠ i → u.mem tab j = t.mem tab j) :
    Walked A s u l tab (i.val + 1) := by
  refine ⟨hman, htotal.trans hwalk.total_eq, hcr3.trans hwalk.cr3_eq,
    hkernel.trans hwalk.kernel_eq, fun g hg => ?_, fun g hg hzero => ?_, fun j hj => ?_⟩
  · rw [before_succ]
    have h₁ := hwalk.count g hg
    have h₂ := hcount g hg
    omega
  · rw [before_succ] at hzero
    rw [hframe g hg (by omega), hwalk.frame g hg (by omega)]
  · rw [hothers j (by rintro rfl; omega), hwalk.later j (by omega)]

lemma Walked.agree (hdoom : Doomed A s l tab) (hwalk : Walked A s t l tab i.val)
    (hg : entryTabs pteFormat s.mem l (s.mem tab i) g ≠ 0) : t.mem g = s.mem g := by
  have hne : g ≠ tab := by
    rintro rfl
    exact hg (hdoom.unshared.not_below i)
  apply hwalk.frame g hne
  apply Finset.sum_eq_zero
  intro j _
  split
  · rename_i hj
    have hij : i ≠ j := by
      omega
    exact (hdoom.unshared.entry_disjoint hij hg).1
  · rfl

lemma Walked.held (hdoom : Doomed A s l tab) (hwalk : Walked A s t l tab i.val) (hg : g ∈ A) :
    entrySum pteFormat (refWeight g) s.mem l (s.mem tab i) ≤ t.pmm.usedCount g := by
  have hle := hdoom.refs_le g hg
  have hcount := hwalk.count g hg
  have hpart := before_mono (fun j => entrySum pteFormat (refWeight g) s.mem l (s.mem tab j))
    (show i.val + 1 ≤ 512 by omega)
  rw [before_succ, before_all] at hpart
  unfold tableRefs tableSum at hle
  omega

lemma Walked.destroyed (hdoom : Doomed A s l tab) (hwalk : Walked A s t l tab 512) :
    Destroyed A s (t.freeFrame tab) l tab := by
  have hmem : tab ∈ A := hdoom.tables tab (tableTabs_self_pos _ _ _ _)
  have haddr : frameOf (frameAddr tab) = tab :=
    frameOf_frameAddr (by have := hdoom.manages.lt hmem; omega)
  have hused : t.pmm.used tab = true := by
    have hle := hdoom.refs_le tab hmem
    have hcount := hwalk.count tab hmem
    rw [before_all] at hcount
    unfold tableRefs tableSum at hle
    rw [if_pos rfl] at hle
    exact Pmm.usedCount_pos.mp (by omega)
  have hrel := pmmFreePage_releases hwalk.manages haddr hmem hused
  refine ⟨hrel.manages, hrel.total_eq.trans hwalk.total_eq, hwalk.cr3_eq, hwalk.kernel_eq,
    fun g hg => ?_, fun g hzero => ?_⟩
  · have h₁ := hrel.count g
    have h₂ := hwalk.count g hg
    rw [before_all] at h₂
    unfold tableRefs tableSum
    change (pmmFreePage t.pmm (frameAddr tab)).usedCount g + _ = _
    omega
  · rw [tableTabs_eq] at hzero
    apply hwalk.frame g
    · rintro rfl
      simp at hzero
    · rw [before_all]
      omega

lemma Walked.step_plain (hwalk : Walked A s t l tab i.val)
    (hrefs : ∀ g, entrySum pteFormat (refWeight g) s.mem l (s.mem tab i) = 0)
    (hu : u = t ∨ u = t.setEntry tab i 0#64) : Walked A s u l tab (i.val + 1) := by
  have hpmm : u.pmm = t.pmm := by rcases hu with rfl | rfl <;> rfl
  refine hwalk.step (by rw [hpmm]; exact hwalk.manages) (by rw [hpmm]) ?_ ?_
    (fun g _ => by rw [hrefs, hpmm, add_zero]) (fun g hg _ => ?_) fun j hj => ?_
  · rcases hu with rfl | rfl <;> rfl
  · rcases hu with rfl | rfl <;> rfl
  · rcases hu with rfl | rfl
    · rfl
    · exact setEntry_frame_ne _ hg _ _
  · rcases hu with rfl | rfl
    · rfl
    · exact setEntry_slot_ne _ _ hj _

lemma destroyLevel_zero_step (hdoom : Doomed A s 0 tab) (i) (hwalk : Walked A s t 0 tab i.val)
    (hpresent : hasFlag (s.mem tab i) pteP = true) (huser : hasFlag (s.mem tab i) pteU = true) :
    Walked A s ({ t with pmm := pmmPageDeref t.pmm (s.mem tab i &&& pteAddr) }.setEntry
      tab i 0#64) 0 tab (i.val + 1) := by
  have hframe : frameOf (s.mem tab i &&& pteAddr) = frameOf (s.mem tab i) % 2 ^ 40 :=
    leafFrame_zero _ 0#64
  have hweight := entryRefs_user_leaf hpresent huser s.mem
  by_cases hmanaged : frameOf (s.mem tab i) % 2 ^ 40 ∈ A
  · have hheld := hwalk.held hdoom hmanaged
    rw [hweight, if_pos rfl] at hheld
    have hrel := pmmPageDeref_releases hwalk.manages hframe hmanaged
      (Pmm.usedCount_pos.mp (by omega))
    refine hwalk.step hrel.manages hrel.total_eq rfl rfl (fun g _ => ?_)
      (fun g hg _ => setEntry_frame_ne _ hg _ _) fun j hj => setEntry_slot_ne _ _ hj _
    rw [hweight]
    exact hrel.count g
  · have hkeep : pmmPageDeref t.pmm (s.mem tab i &&& pteAddr) = t.pmm :=
      pmmPageDeref_reserved hwalk.manages (by rwa [hframe])
    rw [hkeep]
    refine hwalk.step hwalk.manages rfl rfl rfl (fun g hg => ?_)
      (fun g hg _ => setEntry_frame_ne _ hg _ _) fun j hj => setEntry_slot_ne _ _ hj _
    rw [hweight, if_neg]
    · rfl
    · rintro rfl
      exact hmanaged hg

lemma destroyLevel_succ_step (hdoom : Doomed A s (l + 1) tab) (i)
    (hwalk : Walked A s t (l + 1) tab i.val)
    (htable : pteFormat.isTable (s.mem tab i) = true)
    (hsub : ∀ s', Doomed A s' l (frameOf (s.mem tab i)) →
      Destroyed A s' (destroyLevel l (frameOf (s.mem tab i)) s') l
        (frameOf (s.mem tab i))) :
    Walked A s ((destroyLevel l (frameOf (s.mem tab i)) t).setEntry tab i 0#64) (l + 1) tab
      (i.val + 1) := by
  set sub := frameOf (s.mem tab i) with hsubDef
  have hagree : ∀ g, tableTabs pteFormat s.mem l sub g ≠ 0 → t.mem g = s.mem g := by
    intro g hg
    apply hwalk.agree hdoom
    rwa [entryTabs_succ, if_pos htable, pteFormat_target]
  have htabs : ∀ g, tableTabs pteFormat t.mem l sub g = tableTabs pteFormat s.mem l sub g :=
    fun g => tableTabs_congr g hagree
  have hrefs : ∀ g, tableRefs t.mem l sub g = tableRefs s.mem l sub g := by
    intro g
    unfold tableRefs
    rw [tableSum_congr _ hagree]
  have hle : ∀ g, tableTabs pteFormat s.mem l sub g ≤ tableTabs pteFormat s.mem (l + 1) tab g := by
    intro g
    have := entryTabs_le_tableTabs pteFormat s.mem (l + 1) tab g i
    rwa [entryTabs_succ, if_pos htable, pteFormat_target] at this
  have hdoom' : Doomed A t l sub := by
    refine ⟨fun g => ?_, fun g hg => ?_, fun g hg => ?_, hwalk.manages⟩
    · rw [htabs]
      exact (hle g).trans (hdoom.unshared g)
    · rw [htabs] at hg
      exact hdoom.tables g (by have := hle g; omega)
    · rw [hrefs, ← entryRefs_table htable]
      exact hwalk.held hdoom hg
  have hdes := hsub t hdoom'
  have hnot : tableTabs pteFormat t.mem l sub tab = 0 := by
    have hnone := hdoom.unshared.not_below i
    rw [entryTabs_succ, if_pos htable, pteFormat_target] at hnone
    rw [htabs, hnone]
  refine hwalk.step hdes.manages hdes.total_eq hdes.cr3_eq hdes.kernel_eq (fun g hg => ?_)
    (fun g hg hzero => ?_) fun j hj => ?_
  · rw [entryRefs_table htable, ← hrefs]
    exact hdes.count g hg
  · rw [entryTabs_succ, if_pos htable, pteFormat_target] at hzero
    rw [Machine.setEntry_mem, setEntry_frame_ne _ hg, hdes.frame g (by rw [htabs, hzero])]
  · rw [Machine.setEntry_mem, setEntry_slot_ne _ _ hj, hdes.frame tab hnot]

end Walking

/-- `destroy_level` gives back what the table refers to, and nothing else. -/
theorem destroyLevel_destroyed {s : Machine} {l tab : ℕ} (hdoom : Doomed A s l tab) :
    Destroyed A s (destroyLevel l tab s) l tab := by
  induction l generalizing s tab with
  | zero =>
    apply Walked.destroyed hdoom
    refine foldl_invariant (fun k t => Walked A s t 0 tab k) (Walked.init hdoom) fun i t hwalk => ?_
    have hentry : t.mem tab i = s.mem tab i := hwalk.later i le_rfl
    simp only [hentry]
    by_cases hpresent : hasFlag (s.mem tab i) pteP = true
    · by_cases huser : hasFlag (s.mem tab i) pteU = true
      · simp only [hpresent, huser, Bool.not_true, Bool.false_eq_true, if_false, if_true]
        exact destroyLevel_zero_step hdoom i hwalk hpresent huser
      · simp only [hpresent, huser, Bool.not_true, Bool.false_eq_true, if_false]
        refine hwalk.step_plain (fun g => ?_) (Or.inr rfl)
        simp [entrySum, refWeight, edgeWeight, huser]
    · simp only [hpresent, Bool.not_false, if_true]
      exact hwalk.step_plain (entryRefs_absent (by simpa using hpresent) _ _) (Or.inl rfl)
  | succ l ih =>
    apply Walked.destroyed hdoom
    refine foldl_invariant (fun k t => Walked A s t (l + 1) tab k) (Walked.init hdoom)
      fun i t hwalk => ?_
    have hentry : t.mem tab i = s.mem tab i := hwalk.later i le_rfl
    simp only [hentry]
    by_cases hpresent : hasFlag (s.mem tab i) pteP = true
    · by_cases hlarge : hasFlag (s.mem tab i) ptePs = true
      · simp only [hpresent, hlarge, Bool.not_true, Bool.false_eq_true, if_false, if_true]
        refine hwalk.step_plain (entryRefs_large ?_ _ _) (Or.inr rfl)
        simp [pteFormat_isTable, hlarge]
      · have htable : pteFormat.isTable (s.mem tab i) = true := by
          simp [pteFormat_isTable, hpresent, hlarge]
        have hfits : frameOf (s.mem tab i) < 2 ^ 40 := by
          apply hdoom.manages.lt
          apply hdoom.tables
          have hle := entryTabs_le_tableTabs pteFormat s.mem (l + 1) tab (frameOf (s.mem tab i)) i
          have hpos := entryTabs_target_ne_zero (m := s.mem) (l := l) htable
          rw [pteFormat_target] at hpos
          omega
        have hnext := frameOf_and_addr hfits
        simp only [hpresent, hlarge, Bool.not_true, Bool.false_eq_true, if_false, hnext]
        exact destroyLevel_succ_step hdoom i hwalk htable fun s' hs' => ih hs'
    · simp only [hpresent, Bool.not_false, if_true]
      exact hwalk.step_plain (entryRefs_absent (by simpa using hpresent) _ _) (Or.inl rfl)

lemma SpaceIn.doomed {s : Machine} {root : ℕ} (hsp : SpaceIn A s root) :
    Doomed A s 3 root :=
  ⟨hsp.ok.unshared, hsp.tables, hsp.refs_le, hsp.manages⟩

lemma vmmDestroyAddressSpace_destroyed {s : Machine} {pml4 : Word}
    (hsp : SpaceIn A s (frameOf pml4)) (hzero : pml4 ≠ 0#64) (hkernel : pml4 ≠ s.kernelPml4) :
    Destroyed A s (vmmDestroyAddressSpace s pml4) 3 (frameOf pml4) := by
  rw [vmmDestroyAddressSpace, if_neg (by simp [hzero, hkernel])]
  exact destroyLevel_destroyed hsp.doomed

end HelixOS
