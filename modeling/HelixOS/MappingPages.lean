import HelixOS.AddressSpaceInvariant

/-!
# What `paging_map_4k` does to an address space

The function first makes sure that the three upper entries on the path lead to tables
(allocating a table or splitting a 2 MiB leaf where needed), which keeps every
translation, and then writes the leaf.
-/

namespace HelixOS

open RadixMemory Function

variable {j : Fin 512} {big flag phys : Word} {page : Mapping} {g p : ℕ} {m : Mem} {A : Set ℕ}

@[simp] lemma setEntry_same (m : Mem) (f : ℕ) (i : Fin 512) (w : Word) :
    setEntry m f i w f i = w := by
  simp [setEntry]

lemma setEntry_slot_ne (m) (f : ℕ) {i : Fin 512} (hj : j ≠ i) (w : Word) :
    setEntry m f i w f j = m f j := by
  simp [setEntry, hj]

lemma setEntry_frame_ne (m) {f : ℕ} (hg : g ≠ f) (i : Fin 512) (w : Word) :
    setEntry m f i w g = m g := by
  simp [setEntry, hg]

section

variable (s : Machine) (f : ℕ) (i : Fin 512) (w : Word)
include s f i w

@[simp] lemma Machine.setEntry_mem : (s.setEntry f i w).mem = HelixOS.setEntry s.mem f i w := rfl

@[simp] lemma Machine.setEntry_pmm : (s.setEntry f i w).pmm = s.pmm := rfl

end

/-! ## Folds of absent entries and of fresh tables -/

lemma not_isTable_of_absent {w : Word} (hw : hasFlag w pteP = false) :
    pteFormat.isTable w = false := by
  simp [pteFormat_isTable, hw]

lemma edgeWeight_absent {w : Word} (hw : hasFlag w pteP = false) (g l : ℕ) :
    edgeWeight pteFormat g l w = 0 := by
  simp [edgeWeight, not_isTable_of_absent hw]

lemma refWeight_absent {w : Word} (hw : hasFlag w pteP = false) (g l : ℕ) :
    refWeight g l w = 0 := by
  simp [refWeight, edgeWeight_absent hw, hw]

lemma entrySum_absent {φ : ℕ → Word → ℕ} {w : Word}
    (hφ : ∀ l, φ l w = 0) (hw : hasFlag w pteP = false) (m : Mem) (l : ℕ) :
    entrySum pteFormat φ m l w = 0 := by
  cases l with
  | zero => exact hφ 0
  | succ l => simp [entrySum, hφ, not_isTable_of_absent hw]

lemma entryTabs_absent {w : Word} (hw : hasFlag w pteP = false) (m : Mem)
    (l g : ℕ) : entryTabs pteFormat m l w g = 0 :=
  entrySum_absent (edgeWeight_absent hw g) hw m l

lemma entryRefs_absent {w : Word} (hw : hasFlag w pteP = false) (m : Mem)
    (l g : ℕ) : entrySum pteFormat (refWeight g) m l w = 0 :=
  entrySum_absent (refWeight_absent hw g) hw m l

lemma entryRefs_user_leaf {w : Word} (hP : hasFlag w pteP = true)
    (hU : hasFlag w pteU = true) (m : Mem) (g : ℕ) :
    entrySum pteFormat (refWeight g) m 0 w = if frameOf w % 2 ^ 40 = g then 1 else 0 := by
  simp [entrySum, refWeight, edgeWeight, hP, hU]

lemma entryView_absent {w : Word} (hw : hasFlag w pteP = false) (m)
    (virt : Word) (l : ℕ) : entryView m virt l w = none := by
  cases l <;> simp [entryView, entryLookup, not_isTable_of_absent hw, hw]

lemma edgeWeight_table {w : Word} (htable : pteFormat.isTable w = true) (g l : ℕ) :
    edgeWeight pteFormat g (l + 1) w = if frameOf w = g then 1 else 0 := by
  simp [edgeWeight, htable]

lemma refWeight_succ (g l : ℕ) (w : Word) :
    refWeight g (l + 1) w = edgeWeight pteFormat g (l + 1) w := by
  simp [refWeight]

lemma entryLookup_table {w : Word} (htable : pteFormat.isTable w = true) (m)
    (path : ℕ → Fin 512) (l : ℕ) :
    entryLookup pteFormat m path (l + 1) w =
      entryLookup pteFormat m path l (m (frameOf w) (path l)) := by
  rw [entryLookup, if_pos htable, pteFormat_target]

lemma entryView_table {w : Word} (htable : pteFormat.isTable w = true) (m) (virt : Word) (l : ℕ) :
    entryView m virt (l + 1) w =
      entryView m virt l (m (frameOf w) (tableIndex virt l)) := by
  rw [entryView, entryLookup_table htable, entryView]

/-! ## The entries of a split leaf -/

lemma hasFlag_splitFlags (big flag) :
    hasFlag (splitFlags big) flag =
      hasFlag big (0x80000000000001EF#64 &&& ~~~ptePs &&& flag) := by
  simp only [splitFlags, hasFlag_and, BitVec.and_assoc]

lemma toNat_splitBase (big) (j : Fin 512) (haligned : frameOf big % 512 = 0) :
    ((big &&& pteAddr) + BitVec.ofNat 64 j.val * 4096#64).toNat =
      (frameOf big % 2 ^ 40 + j.val) * 4096 := by
  rw [BitVec.toNat_add, toNat_and_pteAddr, BitVec.toNat_mul, BitVec.toNat_ofNat,
    BitVec.toNat_ofNat, ← frameOf_eq]
  omega

lemma splitEntry_frame (big) (j) (haligned : frameOf big % 512 = 0) :
    frameOf (splitEntry big j) % 2 ^ 40 = frameOf big % 2 ^ 40 + j.val := by
  have hflags : frameOf (splitFlags big) % 2 ^ 40 = 0 := by
    unfold splitFlags
    rw [frameOf_and, frameOf_and]
    have hmask : frameOf 0x80000000000001EF#64 = 2 ^ 51 := by decide
    have hnot : frameOf (~~~ptePs) = 2 ^ 52 - 1 := by decide
    rw [hmask, hnot, Nat.and_assoc]
    have hlit : (2 ^ 51 &&& (2 ^ 52 - 1) : ℕ) = 2 ^ 51 := by decide
    rw [hlit, Nat.and_two_pow]
    cases (frameOf big).testBit 51 <;> simp
  have hone : frameOf pteP = 0 := by decide
  unfold splitEntry
  rw [frameOf_or, frameOf_or, hone, Nat.or_zero, Nat.or_mod_two_pow, hflags,
    Nat.or_zero, frameOf_eq, toNat_splitBase _ _ haligned]
  omega


/-! ## Growing an address space -/

/-- A page table inside a machine: well formed, its tables and user pages on
managed frames in use, no such frame referred to twice. -/
structure SpaceIn (A : Set ℕ) (s : Machine) (root : ℕ) : Prop where
  ok : SpaceOk A s.mem root
  tables : ∀ g, tabsOf s.mem root g ≠ 0 → g ∈ A
  refs_le : ∀ g ∈ A, refsOf s.mem root g ≤ s.pmm.usedCount g
  manages : s.pmm.Manages A

/-- The page table `root` has gained tables, and no frame but these has been written. -/
structure Grown (A : Set ℕ) (s t : Machine) (root : ℕ) : Prop where
  pmm : s.pmm.Grows t.pmm
  cr3_eq : t.cr3 = s.cr3
  kernel_eq : t.kernelPml4 = s.kernelPml4
  space : SpaceOk A t.mem root
  frame : ∀ g, tabsOf t.mem root g = 0 → t.mem g = s.mem g
  tabs : ∀ g, tabsOf t.mem root g + s.pmm.usedCount g =
    tabsOf s.mem root g + t.pmm.usedCount g

structure Extends (A : Set ℕ) (s t : Machine) (root : ℕ) : Prop extends Grown A s t root where
  view : ∀ virt, pageView t.mem root virt = pageView s.mem root virt
  refs : ∀ g ∈ A, refsOf t.mem root g + s.pmm.usedCount g =
    refsOf s.mem root g + t.pmm.usedCount g

section Growth

variable {s t u : Machine} {root : ℕ}

lemma Extends.refl (hsp : SpaceIn A s root) : Extends A s s root :=
  ⟨⟨Pmm.Grows.refl _, rfl, rfl, hsp.ok, fun _ _ => rfl, fun _ => rfl⟩, fun _ => rfl,
    fun _ _ => rfl⟩

lemma SpaceIn.held (hsp : SpaceIn A s root) (hg : tabsOf s.mem root g ≠ 0) :
    s.pmm.used g = true := by
  have hle := tabsOf_le_refsOf s.mem root g
  have hrefs := hsp.refs_le g (hsp.tables g hg)
  exact Pmm.usedCount_pos.mp (by omega)

lemma SpaceIn.sound (hsp : SpaceIn A s root) : s.pmm.Sound := hsp.manages.sound

lemma Grown.tables (hgrown : Grown A s t root) (hsp : SpaceIn A s root)
    (hg : tabsOf t.mem root g ≠ 0) : g ∈ A := by
  by_cases hold : tabsOf s.mem root g = 0
  · have hcount := hgrown.tabs g
    have hle := t.pmm.usedCount_le g
    have hnot : s.pmm.used g = false := by
      by_contra hused
      have := Pmm.usedCount_pos.mpr (by simpa using hused)
      omega
    have hnow : t.pmm.used g = true := Pmm.usedCount_pos.mp (by omega)
    exact hsp.manages.mem_of_free ⟨(hgrown.pmm.refs_new g hnot hnow).1, hnot⟩
  · exact hsp.tables g hold

lemma Grown.spaceIn (hgrown : Grown A s t root) (hsp : SpaceIn A s root)
    (hrefs : ∀ g ∈ A, refsOf t.mem root g + s.pmm.usedCount g ≤
      refsOf s.mem root g + t.pmm.usedCount g) : SpaceIn A t root := by
  refine ⟨hgrown.space, fun g hg => hgrown.tables hsp hg, fun g hg => ?_,
    hgrown.pmm.manages hsp.manages⟩
  have hcount := hrefs g hg
  have hle := hsp.refs_le g hg
  omega

lemma Grown.trans (hst : Grown A s t root) (htu : Grown A t u root) : Grown A s u root := by
  refine ⟨hst.pmm.trans htu.pmm, htu.cr3_eq.trans hst.cr3_eq, htu.kernel_eq.trans hst.kernel_eq,
    htu.space, fun g hzero => ?_, fun g => ?_⟩
  · have hcount := htu.tabs g
    have hmono := htu.pmm.usedCount_le g
    rw [htu.frame g hzero, hst.frame g (by omega)]
  · have h₁ := hst.tabs g
    have h₂ := htu.tabs g
    omega

lemma Extends.spaceIn (hext : Extends A s t root) (hsp : SpaceIn A s root) :
    SpaceIn A t root :=
  hext.toGrown.spaceIn hsp fun g hg => (hext.refs g hg).le

lemma Extends.trans (hst : Extends A s t root) (htu : Extends A t u root) :
    Extends A s u root := by
  refine ⟨hst.toGrown.trans htu.toGrown, fun virt => (htu.view virt).trans (hst.view virt),
    fun g hg => ?_⟩
  have h₁ := hst.refs g hg
  have h₂ := htu.refs g hg
  omega

end Growth

def Machine.takeFrame (s : Machine) (p : ℕ) : Machine :=
  { s with pmm := s.pmm.take p, mem := zeroFrame s.mem p }

@[simp] lemma Machine.takeFrame_pmm (s : Machine) (p : ℕ) :
    (s.takeFrame p).pmm = s.pmm.take p := rfl

lemma Machine.takeFrame_of_ne (s : Machine) (hne : g ≠ p) :
    (s.takeFrame p).mem g = s.mem g := update_of_ne hne ..

lemma allocZeroedPage_cases {s : Machine} (hs : s.pmm.Sound) :
    (∃ p, s.pmm.IsFree p ∧ frameAddr p ≠ 0#64 ∧ frameOf (frameAddr p) = p ∧
      allocZeroedPage s = (frameAddr p, s.takeFrame p)) ∨
    (s.pmm.freeCount = 0 ∧ allocZeroedPage s = (0#64, s)) := by
  rcases pmmAllocPage_cases hs with ⟨p, hfree, halloc, hne⟩ | ⟨hnone, halloc⟩
  · left
    have hbound := hs.free_bounds hfree
    have hframe : frameOf (frameAddr p) = p := frameOf_frameAddr (by omega)
    refine ⟨p, hfree, hne, hframe, ?_⟩
    simp [allocZeroedPage, halloc, hne, hframe, Machine.takeFrame]
  · right
    exact ⟨hnone, by simp [allocZeroedPage, halloc]⟩

/-! ## Edges and slots -/

lemma edge_flags {t : ℕ} (ht : t < 2 ^ 40) {flags : Word} (hflags : flags.toNat < 4096)
    (hps : hasFlag flags ptePs = false) (hp : hasFlag flags pteP = true) :
    frameOf (frameAddr t ||| flags) = t ∧
      pteFormat.isTable (frameAddr t ||| flags) = true ∧
      ∀ flag : Word, flag.toNat < 4096 →
        hasFlag (frameAddr t ||| flags) flag = hasFlag flags flag := by
  have hlow : ∀ flag : Word, flag.toNat < 4096 →
      hasFlag (frameAddr t ||| flags) flag = hasFlag flags flag := by
    intro flag hflag
    rw [hasFlag_or, hasFlag_frameAddr hflag, Bool.false_or]
  refine ⟨?_, ?_, hlow⟩
  · rw [frameOf_or_flags _ hflags, frameOf_frameAddr (by omega)]
  · rw [pteFormat_isTable, hlow pteP (by decide), hlow ptePs (by decide), hp, hps]
    rfl

lemma edge_entryOk {t : ℕ} (ht : t < 2 ^ 40) {flags q : Word}
    (hflags : flags.toNat < 4096) (hps : hasFlag flags ptePs = false)
    (hp : hasFlag flags pteP = true) (hw : hasFlag flags pteW = true)
    (hu : hasFlag flags pteU = true → hasFlag q pteU = true) (l : ℕ) :
    EntryOk A l q (frameAddr t ||| flags) := by
  obtain ⟨hframe, -, hlow⟩ := edge_flags ht hflags hps hp
  have hlarge : hasFlag (frameAddr t ||| flags) ptePs = false := by
    rw [hlow ptePs (by decide), hps]
  constructor
  · intro _ huser
    rw [hlow pteU (by decide)] at huser
    exact hu huser
  · intros
    exact hlarge
  all_goals
    simp_all

lemma slotWrite_setEntry {m₁ : Mem} {root : ℕ} {virt : Word} {l : ℕ} {q : Word}
    {f : ℕ} (hreach : ReachSlot m virt root l q f)
    (hagree : ∀ g, tabsOf m root g ≠ 0 → m₁ g = m g) (w : Word) :
    SlotWrite pteFormat m (setEntry m₁ f (tableIndex virt l) w)
      (tableIndex virt) 3 root l f := by
  have hself : m₁ f = m f := by
    apply hagree
    have hpos := tableTabs_self_pos pteFormat m l f
    have hle := hreach.tabs_le f
    unfold tabsOf
    omega
  constructor
  · intro j hj
    rw [setEntry_slot_ne _ _ hj, hself]
  · intro g hg htabs _
    rw [setEntry_frame_ne _ hg, hagree g htabs]

lemma ReachSlot.tabs_ne_zero {root : ℕ} {virt : Word} {l : ℕ} {q : Word}
    {f : ℕ} (hreach : ReachSlot m virt root l q f) : tabsOf m root f ≠ 0 := by
  have hpos := tableTabs_self_pos pteFormat m l f
  have hle := hreach.tabs_le f
  unfold tabsOf
  omega

lemma hasFlag_or_user (w : Word) : hasFlag (w ||| pteU) pteU = true := by
  rw [hasFlag_or, show hasFlag pteU pteU = true by decide, Bool.or_true]

lemma hasFlag_or_user_of_ne (w : Word) (hflag : hasFlag pteU flag = false) :
    hasFlag (w ||| pteU) flag = hasFlag w flag := by
  rw [hasFlag_or, hflag, Bool.or_false]

lemma sameEdge_user {root : ℕ} {virt : Word} {l : ℕ} {q : Word} {f : ℕ}
    (hreach : ReachSlot m virt root (l + 1) q f) (hun : Unshared pteFormat m 3 root)
    (htable : pteFormat.isTable (m f (tableIndex virt (l + 1))) = true) :
    SameEdge pteFormat m (setEntry m f (tableIndex virt (l + 1))
        (m f (tableIndex virt (l + 1)) ||| pteU)) l
      (m f (tableIndex virt (l + 1))) (m f (tableIndex virt (l + 1)) ||| pteU) := by
  refine ⟨htable, ?_, ?_, fun g hg => setEntry_frame_ne _ ?_ _ _⟩
  · rw [pteFormat_isTable, hasFlag_or_user_of_ne _ (by decide),
      hasFlag_or_user_of_ne _ (by decide), ← pteFormat_isTable, htable]
  · rw [pteFormat_target, pteFormat_target, frameOf_or_flags _ (by decide)]
  · rintro rfl
    have hnone := (hreach.unshared hun).not_below (tableIndex virt (l + 1))
    rw [entryTabs_succ, if_pos htable] at hnone
    exact hg hnone

lemma update_agrees {root : ℕ} (hnot : tabsOf m root p = 0)
    (content : Fin 512 → Word) (g) (hg : tabsOf m root g ≠ 0) :
    update m p content g = m g := by
  apply update_of_ne
  rintro rfl
  exact hg hnot

lemma slotWrite_hang {root : ℕ} {virt : Word} {l : ℕ} {q : Word} {f : ℕ}
    (hreach : ReachSlot m virt root l q f) (hnot : tabsOf m root p = 0)
    (content : Fin 512 → Word) (w : Word) :
    SlotWrite pteFormat m (setEntry (update m p content) f (tableIndex virt l) w)
        (tableIndex virt) 3 root l f ∧
      setEntry (update m p content) f (tableIndex virt l) w p = content := by
  refine ⟨slotWrite_setEntry hreach (update_agrees hnot content) w, ?_⟩
  rw [setEntry_frame_ne, update_self]
  rintro rfl
  exact hreach.tabs_ne_zero hnot

lemma entryTabs_hang {l : ℕ} {w : Word} (htable : pteFormat.isTable w = true)
    (hframe : frameOf w = p) (htabs : ∀ j g, entryTabs pteFormat m l (m p j) g = 0) (g) :
    entryTabs pteFormat m (l + 1) w g = if p = g then 1 else 0 := by
  rw [entryTabs_succ, if_pos htable, tableTabs_eq, pteFormat_target, hframe]
  simp [htabs]

/-! ## One edge on the path -/

structure EdgeStep (A : Set ℕ) (s t : Machine) (virt : Word) (root l f : ℕ)
    (user : Word) : Prop where
  ext : Extends A s t root
  next : ReachSlot t.mem virt root l (t.mem f (tableIndex virt (l + 1)))
    (frameOf (t.mem f (tableIndex virt (l + 1))))
  userSet : user ≠ 0#64 → hasFlag (t.mem f (tableIndex virt (l + 1))) pteU = true
  count : s.pmm.freeCount ≤ t.pmm.freeCount + 1

lemma EntryOk.parent {l : ℕ} {p p' w : Word} (hok : EntryOk A l p w)
    (hp' : hasFlag p' pteU = true) : EntryOk A l p' w :=
  { hok with userUp := fun _ _ => hp' }

section Steps

variable {s t : Machine} {root : ℕ} {virt : Word} {l : ℕ} {q : Word} {f : ℕ}

lemma edgeStep_of_slot {w w' user : Word} (hsp : SpaceIn A s root)
    (hreach : ReachSlot s.mem virt root (l + 1) q f)
    (hwrite : SlotWrite pteFormat s.mem t.mem (tableIndex virt) 3 root (l + 1) f)
    (hw : s.mem f (tableIndex virt (l + 1)) = w)
    (hw' : t.mem f (tableIndex virt (l + 1)) = w')
    (htable : pteFormat.isTable w' = true)
    (hall : entryAll pteFormat (EntryOk A) t.mem (l + 1) q w')
    (hgrow : s.pmm.Grows t.pmm) (hcr3 : t.cr3 = s.cr3)
    (hkernel : t.kernelPml4 = s.kernelPml4)
    (hcount : s.pmm.freeCount ≤ t.pmm.freeCount + 1)
    (htabs : ∀ g, entryTabs pteFormat t.mem (l + 1) w' g + s.pmm.usedCount g =
      entryTabs pteFormat s.mem (l + 1) w g + t.pmm.usedCount g)
    (hrefs : ∀ g ∈ A,
      entrySum pteFormat (refWeight g) t.mem (l + 1) w' + s.pmm.usedCount g =
        entrySum pteFormat (refWeight g) s.mem (l + 1) w + t.pmm.usedCount g)
    (hview : ∀ virt', SameSlot (l + 1) virt virt' →
      entryView t.mem virt' (l + 1) w' = entryView s.mem virt' (l + 1) w)
    (hframe : ∀ g, g ≠ f → t.pmm.usedCount g = s.pmm.usedCount g →
      t.mem g = s.mem g)
    (huser : user ≠ 0#64 → hasFlag w' pteU = true) :
    EdgeStep A s t virt root l f user := by
  subst hw hw'
  have hspace : SpaceOk A t.mem root := by
    apply hsp.ok.slot hreach hwrite hall
    intro g _
    have hold : tabsOf s.mem root g ≤ 1 := hsp.ok.unshared g
    have hsum := htabs g
    have hone := t.pmm.usedCount_le g
    by_cases hused : s.pmm.used g = true
    · have hs : s.pmm.usedCount g = 1 := by simp [Pmm.usedCount, hused]
      omega
    · have hzero : tabsOf s.mem root g = 0 := by
        by_contra hne
        exact hused (hsp.held hne)
      omega
  have htabsRoot : ∀ g, tabsOf t.mem root g + s.pmm.usedCount g =
      tabsOf s.mem root g + t.pmm.usedCount g := by
    intro g
    have hsum := tabsOf_slot hsp.ok.unshared hreach hwrite g
    have := htabs g
    omega
  refine ⟨⟨⟨hgrow, hcr3, hkernel, hspace, fun g hzero => ?_, htabsRoot⟩,
    pageView_slot_same hsp.ok hreach hwrite hview, fun g hg => ?_⟩, ?_, huser, hcount⟩
  · apply hframe
    · rintro rfl
      exact ReachSlot.tabs_ne_zero (hwrite.reach hreach hsp.ok.unshared) hzero
    · have hsum := htabsRoot g
      have hmono := hgrow.usedCount_le g
      omega
  · have hsum := refsOf_slot hsp.ok hreach hwrite g
    have := hrefs g hg
    omega
  · have hdown := (hwrite.reach hreach hsp.ok.unshared).down htable
    rwa [pteFormat_target] at hdown

lemma edgeStep_flag (hsp : SpaceIn A s root) (hreach : ReachSlot s.mem virt root (l + 1) q f)
    (htable : pteFormat.isTable (s.mem f (tableIndex virt (l + 1))) = true)
    (hq : hasFlag q pteU = true) (user : Word) :
    EdgeStep A s (s.setEntry f (tableIndex virt (l + 1))
      (s.mem f (tableIndex virt (l + 1)) ||| pteU)) virt root l f user := by
  have hsame := sameEdge_user hreach hsp.ok.unshared htable
  have hall := hreach.tableAll hsp.ok.entries (tableIndex virt (l + 1))
  set w := s.mem f (tableIndex virt (l + 1))
  have hframe : frameOf (w ||| pteU) = frameOf w := frameOf_or_flags w (by decide)
  have hentry : EntryOk A (l + 1) q (w ||| pteU) := by
    constructor
    · exact fun _ _ => hq
    · intro htop hpresent
      rw [hasFlag_or_user_of_ne _ (by decide)] at hpresent ⊢
      exact hall.1.topTable htop hpresent
    · intro hl _
      rw [hasFlag_or, hall.1.tableWritable hl htable, Bool.true_or]
    · intro hl _
      rw [hframe]
      exact hall.1.tableFits hl htable
    all_goals
      intro _ _ hlarge
      have htable' := hsame.table'
      simp [pteFormat_isTable, hlarge] at htable'
  refine edgeStep_of_slot hsp hreach (slotWrite_setEntry hreach (fun _ _ => rfl) _) rfl
    (setEntry_same _ _ _ _) hsame.table'
    (hsame.all hentry (fun x hx => hx.parent (hasFlag_or_user w)) hall) (Pmm.Grows.refl _)
    rfl rfl (by simp) (fun g => congrArg (· + _) (hsame.tabs g))
    (fun g _ => congrArg (· + _) (hsame.sum _ ?_)) (fun v _ => ?_)
    (fun g hg _ => setEntry_frame_ne _ hg _ _) fun _ => hasFlag_or_user w
  · rw [refWeight_succ, refWeight_succ, edgeWeight_table hsame.table',
      edgeWeight_table htable, hframe]
  · unfold entryView
    rw [← hsame.lookup]
    rfl

lemma fresh_tabs_zero (hsp : SpaceIn A s root) (hfree : s.pmm.IsFree p) :
    tabsOf s.mem root p = 0 := by
  by_contra hne
  have := hsp.held hne
  simp [hfree.2] at this

lemma splitFlags_user (big) :
    splitFlags big &&& pteU = if hasFlag big pteU then pteU else 0#64 := by
  have hmask : splitFlags big &&& pteU = big &&& pteU := by
    unfold splitFlags
    rw [BitVec.and_assoc, BitVec.and_assoc]
    rfl
  rw [hmask]
  have htwo : pteU = BitVec.twoPow 64 2 := by decide
  have hflag : hasFlag big pteU = big.getLsbD 2 := by
    rw [Bool.eq_iff_iff, ← BitMasks.and_twoPow_ne_zero, ← htwo]
    simp [hasFlag]
  rw [hflag, htwo, BitVec.and_twoPow]

lemma hasFlag_splitEntry (big) (j) (hflag : flag.toNat < 4096)
    (hp : hasFlag pteP flag = false) (hkeep : 0x80000000000001EF#64 &&& ~~~ptePs &&& flag = flag) :
    hasFlag (splitEntry big j) flag = hasFlag big flag := by
  have hbase : hasFlag ((big &&& pteAddr) + BitVec.ofNat 64 j.val * 4096#64) flag = false := by
    apply hasFlag_of_aligned _ hflag
    rw [BitVec.toNat_add, toNat_and_pteAddr, BitVec.toNat_mul, BitVec.toNat_ofNat,
      BitVec.toNat_ofNat]
    omega
  rw [splitEntry, hasFlag_or, hasFlag_or, hbase, hasFlag_splitFlags, hkeep, hp,
    Bool.false_or, Bool.or_false]

lemma splitEntry_user (big) (j) :
    hasFlag (splitEntry big j) pteU = hasFlag big pteU :=
  hasFlag_splitEntry big j (by decide) (by decide) (by decide)

lemma splitEntry_writable (big) (j) :
    hasFlag (splitEntry big j) pteW = hasFlag big pteW :=
  hasFlag_splitEntry big j (by decide) (by decide) (by decide)

lemma splitEntry_present (big) (j) :
    hasFlag (splitEntry big j) pteP = true := by
  rw [splitEntry, hasFlag_or, show hasFlag pteP pteP = true by decide, Bool.or_true]

lemma entryView_splitEntry {virt : Word} (hpresent : hasFlag big pteP = true)
    (hlarge : hasFlag big ptePs = true) (haligned : frameOf big % 512 = 0) (m m' : Mem) :
    entryView m virt 0 (splitEntry big (tableIndex virt 0)) = entryView m' virt 1 big := by
  have hnot : pteFormat.isTable big = false := by simp [pteFormat_isTable, hlarge]
  simp only [entryView, entryLookup, pteFormat_present, splitEntry_present, hpresent, hnot,
    if_true, Bool.false_eq_true, if_false, Option.map_some, viewLeaf, leafMapping,
    splitEntry_user, splitEntry_writable, leafFrame_zero, splitEntry_frame big _ haligned,
    leafFrame_one big virt haligned, zero_add]

/-- The table that is hung below an entry `w` without one: an empty one, or the parts of a
2 MiB leaf. -/
structure NewTable (w user : Word) (l : ℕ) (flags : Word) (content : Fin 512 → Word) : Prop where
  flags_eq : flags = pteP ||| pteW ∨ flags = pteP ||| pteW ||| pteU
  user_eq : hasFlag flags pteU = (hasFlag w pteP && hasFlag w pteU || hasFlag user pteU)
  content_eq : (hasFlag w pteP = false ∧ content = fun _ => 0#64) ∨
    (l = 0 ∧ hasFlag w pteP = true ∧ hasFlag w ptePs = true ∧ content = splitEntry w)

/-- What each of the three upper steps of `paging_map_4k` can do to the entry `i` of the table
`f`, of level `l + 1`. -/
inductive UpperStep (s : Machine) (f : ℕ) (i : Fin 512) (user : Word) (l : ℕ) :
    Bool × Machine → Prop where
  | keep (htable : pteFormat.isTable (s.mem f i) = true) (huser : user = 0#64) :
      UpperStep s f i user l (true, s)
  | flag (htable : pteFormat.isTable (s.mem f i) = true) (huser : user = pteU) :
      UpperStep s f i user l (true, s.setEntry f i (s.mem f i ||| pteU))
  | hang {p : ℕ} {flags : Word} {content : Fin 512 → Word} (hfree : s.pmm.IsFree p)
    (huser : user = 0#64 ∨ user = pteU)
      (hnew : NewTable (s.mem f i) user l flags content) :
      UpperStep s f i user l (true, { s with
        pmm := s.pmm.take p
        mem := setEntry (update s.mem p content) f i (frameAddr p ||| flags) })
  | full (hnone : s.pmm.freeCount = 0) (hleaf : pteFormat.isTable (s.mem f i) = false) :
      UpperStep s f i user l (false, s)
  | huge (hl : l = 1) (hpresent : hasFlag (s.mem f i) pteP = true)
      (hlarge : hasFlag (s.mem f i) ptePs = true) : UpperStep s f i user l (false, s)

section NewTables

variable {w user flags : Word} {content : Fin 512 → Word}

section

variable (hnew : NewTable w user l flags content)
include hnew

lemma NewTable.edge :
    flags.toNat < 4096 ∧ hasFlag flags ptePs = false ∧ hasFlag flags pteP = true ∧
      hasFlag flags pteW = true := by
  rcases hnew.flags_eq with h | h <;> rw [h] <;> decide

lemma NewTable.leaf : pteFormat.isTable w = false := by
  rcases hnew.content_eq with ⟨habsent, -⟩ | ⟨-, -, hlarge, -⟩
  · exact not_isTable_of_absent habsent
  · simp [pteFormat_isTable, hlarge]

lemma NewTable.tabs (m : Mem) (j : Fin 512) (g : ℕ) :
    entryTabs pteFormat m l (content j) g = 0 := by
  rcases hnew.content_eq with ⟨-, rfl⟩ | ⟨rfl, -⟩
  · exact entryTabs_absent (zero_hasFlag _) m l g
  · exact entryTabs_zero _ _ _

lemma NewTable.userSet (huser : user = 0#64 ∨ user = pteU) (hne : user ≠ 0#64) :
    hasFlag flags pteU = true := by
  rw [hnew.user_eq, huser.resolve_left hne, show hasFlag pteU pteU = true by decide, Bool.or_true]

/-- Nothing is mapped by an empty table, and the parts of a leaf map what the leaf does. -/
theorem NewTable.view
    (haligned : l = 0 → hasFlag w pteP = true → hasFlag w ptePs = true → frameOf w % 512 = 0)
    (m m' : Mem) (v : Word) :
    entryView m v l (content (tableIndex v l)) = entryView m' v (l + 1) w := by
  rcases hnew.content_eq with ⟨habsent, rfl⟩ | ⟨rfl, hpresent, hlarge, rfl⟩
  · rw [entryView_absent habsent, entryView_absent (zero_hasFlag _)]
  · exact entryView_splitEntry hpresent hlarge (haligned rfl hpresent hlarge) m m'

end

end NewTables

section Upper

variable {user : Word} {i : Fin 512} (hs : s.pmm.Sound) (huser : user = 0#64 ∨ user = pteU)
include hs huser

lemma installTable_upper (l : ℕ) (habsent : hasFlag (s.mem f i) pteP = false) :
    UpperStep s f i user l (installTable s f i user) := by
  rcases allocZeroedPage_cases hs with ⟨p, hfree, hne, -, halloc⟩ | ⟨hnone, halloc⟩
  · simp only [installTable, allocTable, halloc, hne, if_false, BitVec.or_assoc]
    refine @UpperStep.hang s f i user l p (pteP ||| (pteW ||| user)) _ hfree huser
      ⟨?_, ?_, Or.inl ⟨habsent, rfl⟩⟩
    · rcases huser with rfl | rfl <;> decide
    · rw [habsent, Bool.false_and]
      rcases huser with rfl | rfl <;> decide
  · simp only [installTable, allocTable, halloc, if_true]
    exact UpperStep.full hnone (not_isTable_of_absent habsent)

lemma splitLargePage_upper (hpresent : hasFlag (s.mem f i) pteP = true)
    (hlarge : hasFlag (s.mem f i) ptePs = true) :
    UpperStep s f i user 0 (splitLargePage s f i user) := by
  rcases allocZeroedPage_cases hs with ⟨p, hfree, hne, hframe, halloc⟩ | ⟨hnone, halloc⟩
  · have hmem : update (s.takeFrame p).mem p (splitEntry (s.mem f i)) =
        update s.mem p (splitEntry (s.mem f i)) := update_idem ..
    simp only [splitLargePage, allocTable, halloc, hne, if_false, hframe, hmem, BitVec.or_assoc]
    refine @UpperStep.hang s f i user 0 p
      (pteP ||| (pteW ||| (splitFlags (s.mem f i) &&& pteU ||| user))) _ hfree huser
      ⟨?_, ?_, Or.inr ⟨rfl, hpresent, hlarge, rfl⟩⟩
    · rw [splitFlags_user]
      rcases huser with rfl | rfl <;> split <;> decide
    · rw [splitFlags_user, hpresent]
      cases hasFlag (s.mem f i) pteU <;> rcases huser with rfl | rfl <;> decide
  · simp only [splitLargePage, allocTable, halloc, if_true]
    exact UpperStep.full hnone (by simp [pteFormat_isTable, hlarge])

omit hs in
lemma existing_upper (l : ℕ) (htable : pteFormat.isTable (s.mem f i) = true) :
    UpperStep s f i user l
      (if user ≠ 0#64 then (true, s.setEntry f i (s.mem f i ||| pteU)) else (true, s)) := by
  by_cases hzero : user = 0#64
  · rw [if_neg (not_not.mpr hzero)]
    exact UpperStep.keep htable hzero
  · rw [if_pos hzero]
    exact UpperStep.flag htable (huser.resolve_left hzero)

lemma mapPml4Entry_upper
    (htop : hasFlag (s.mem f i) pteP = true → hasFlag (s.mem f i) ptePs = false) :
    UpperStep s f i user 2 (mapPml4Entry s f i user) := by
  unfold mapPml4Entry
  cases hpresent : hasFlag (s.mem f i) pteP
  · exact installTable_upper hs huser 2 hpresent
  · exact existing_upper huser 2 (by simp [pteFormat_isTable, hpresent, htop hpresent])

lemma mapPdptEntry_upper : UpperStep s f i user 1 (mapPdptEntry s f i user) := by
  unfold mapPdptEntry
  cases hpresent : hasFlag (s.mem f i) pteP
  · exact installTable_upper hs huser 1 hpresent
  cases hlarge : hasFlag (s.mem f i) ptePs
  · exact existing_upper huser 1 (by simp [pteFormat_isTable, hpresent, hlarge])
  · exact UpperStep.huge rfl hpresent hlarge

lemma mapPdEntry_upper : UpperStep s f i user 0 (mapPdEntry s f i user) := by
  unfold mapPdEntry
  cases hpresent : hasFlag (s.mem f i) pteP
  · exact installTable_upper hs huser 0 hpresent
  cases hlarge : hasFlag (s.mem f i) ptePs
  · exact existing_upper huser 0 (by simp [pteFormat_isTable, hpresent, hlarge])
  · exact splitLargePage_upper hs huser hpresent hlarge

end Upper

lemma UpperStep.eq_of_failed {user : Word} {i : Fin 512}
    (hstep : UpperStep s f i user l (false, t)) : t = s := by
  cases hstep <;> rfl

/-- Induction over `paging_map_4k`: `Q l f t` says that the walk has come to the table `f` of
level `l` in `t`. -/
theorem pagingMap4k_induct {flags user : Word} {Q : ℕ → ℕ → Machine → Prop}
    {R : Bool × Machine → Prop} (huser : user = if hasFlag flags pteU then pteU else 0#64)
    (hrefused : s.cr3 = 0#64 ∨ virt &&& 0xFFF#64 ≠ 0#64 ∨ phys &&& 0xFFF#64 ≠ 0#64 →
      R (false, s))
    (hstart : Q 3 (frameOf s.cr3) s) (hsound : ∀ {l f t}, Q l f t → t.pmm.Sound)
    (htop : ∀ {f t}, Q 3 f t → hasFlag (t.mem f (tableIndex virt 3)) pteP = true →
      hasFlag (t.mem f (tableIndex virt 3)) ptePs = false)
    (hstep : ∀ {l f t u}, Q (l + 1) f t →
      UpperStep t f (tableIndex virt (l + 1)) user l (true, u) →
      Q l (frameOf (u.mem f (tableIndex virt (l + 1)))) u)
    (hfailed : ∀ {l f t}, Q (l + 1) f t →
      UpperStep t f (tableIndex virt (l + 1)) user l (false, t) → R (false, t))
    (hleaf : ∀ {f t}, Q 0 f t →
      R (true, t.setEntry f (tableIndex virt 0) (leafEntry phys flags))) :
    R (pagingMap4k s virt phys flags) := by
  have huser' : user = 0#64 ∨ user = pteU := by
    rw [huser]
    split
    · exact Or.inr rfl
    · exact Or.inl rfl
  have hnext : ∀ {l f t r}, Q (l + 1) f t → UpperStep t f (tableIndex virt (l + 1)) user l r →
      (r.1 = true ∧ Q l (frameOf (r.2.mem f (tableIndex virt (l + 1)))) r.2) ∨
        (r.1 = false ∧ R (false, r.2)) := by
    rintro l f t ⟨ok, u⟩ hQ hupper
    cases ok with
    | true => exact Or.inl ⟨rfl, hstep hQ hupper⟩
    | false =>
      obtain rfl := hupper.eq_of_failed
      exact Or.inr ⟨rfl, hfailed hQ hupper⟩
  unfold pagingMap4k
  by_cases hcr3 : s.cr3 = 0#64
  · rw [if_pos hcr3]
    exact hrefused (Or.inl hcr3)
  rw [if_neg hcr3]
  by_cases haligned : virt &&& 0xFFF#64 ≠ 0#64 ∨ phys &&& 0xFFF#64 ≠ 0#64
  · rw [if_pos haligned]
    exact hrefused (Or.inr haligned)
  rw [if_neg haligned, ← huser, mapWalk]
  simp only [tableFrame_eq]
  rcases hnext hstart (mapPml4Entry_upper (hsound hstart) huser' (htop hstart)) with
    ⟨hok, h₂⟩ | ⟨hok, hend⟩
  swap
  · simpa only [hok, Bool.not_false, if_true] using hend
  rw [hok, if_neg (by decide)]
  rcases hnext h₂ (mapPdptEntry_upper (hsound h₂) huser') with ⟨hok, h₁⟩ | ⟨hok, hend⟩
  swap
  · simpa only [hok, Bool.not_false, if_true] using hend
  rw [hok, if_neg (by decide)]
  rcases hnext h₁ (mapPdEntry_upper (hsound h₁) huser') with ⟨hok, h₀⟩ | ⟨hok, hend⟩
  swap
  · simpa only [hok, Bool.not_false, if_true] using hend
  rw [hok, if_neg (by decide)]
  exact hleaf h₀

/-- The free frame `p` is taken, filled with `content` and hung below the slot. -/
theorem NewTable.edgeStep {user flags : Word} {content : Fin 512 → Word}
    (hnew : NewTable (s.mem f (tableIndex virt (l + 1))) user l flags content)
    (hsp : SpaceIn A s root) (hreach : ReachSlot s.mem virt root (l + 1) q f)
    (hq : user ≠ 0#64 → hasFlag q pteU = true) (huser : user = 0#64 ∨ user = pteU)
    (hfree : s.pmm.IsFree p) :
    EdgeStep A s { s with
      pmm := s.pmm.take p
      mem := setEntry (update s.mem p content) f (tableIndex virt (l + 1))
        (frameAddr p ||| flags) } virt root l f user := by
  have hok := (hreach.tableAll hsp.ok.entries (tableIndex virt (l + 1))).1
  have hbound := (hsp.sound.free_bounds hfree).2
  obtain ⟨hflags, hps, hpresent, hwritable⟩ := hnew.edge
  obtain ⟨hframe, htable, hflag⟩ := edge_flags hbound hflags hps hpresent
  obtain ⟨hwrite, hcontent⟩ := slotWrite_hang hreach (fresh_tabs_zero hsp hfree) content
    (frameAddr p ||| flags)
  refine edgeStep_of_slot hsp hreach hwrite rfl (setEntry_same ..) htable
    ⟨edge_entryOk hbound hflags hps hpresent hwritable (fun hU => ?_) _, fun _ j => ?_⟩
    (Pmm.Grows.take hfree) rfl rfl (Pmm.freeCount_take hfree).le (fun g => ?_)
    (fun g hg => ?_) (fun v _ => ?_) (fun g hg hused => ?_) fun hne => ?_
  · rw [hnew.user_eq, Bool.or_eq_true, Bool.and_eq_true] at hU
    rcases hU with ⟨hpresent, hU⟩ | hU
    · exact hok.userUp hpresent hU
    · refine hq fun hzero => ?_
      simp [hzero] at hU
  · dsimp only
    rw [pteFormat_target, hframe, hcontent]
    rcases hnew.content_eq with ⟨-, rfl⟩ | ⟨rfl, hpresent, -, rfl⟩
    · exact entryAll_of_absent _ l (zero_hasFlag _)
    · constructor
      · intro _ hU
        rw [splitEntry_user] at hU
        rw [hasFlag_or, hnew.user_eq, hpresent, hU]
        simp
      all_goals
        omega
  · dsimp only
    rw [entryTabs_hang htable hframe (by rw [hcontent]; exact hnew.tabs _), entryTabs_succ,
      hnew.leaf, Pmm.usedCount_take hfree]
    simp only [Bool.false_eq_true, if_false]
    omega
  · have hbelow (j : Fin 512) (m : Mem) : entrySum pteFormat (refWeight g) m l (content j) = 0 := by
      rcases hnew.content_eq with ⟨-, rfl⟩ | ⟨rfl, hpresent, hlarge, rfl⟩
      · exact entryRefs_absent (zero_hasFlag _) _ l g
      · simp only [entrySum, refWeight, edgeWeight, ne_eq, not_true_eq_false, false_and,
          if_false, splitEntry_present, splitEntry_user, true_and, zero_add,
          splitEntry_frame _ j (hok.largeAligned rfl hpresent hlarge)]
        rw [if_neg]
        rintro ⟨hU, rfl⟩
        exact hok.largeUser rfl hpresent hlarge hU j.val j.isLt hg
    rw [Pmm.usedCount_take hfree]
    simp only [entrySum, htable, hnew.leaf, if_true, refWeight_succ, edgeWeight_table htable,
      pteFormat_target, hframe, hcontent, hbelow, Finset.sum_const_zero, Bool.false_eq_true,
      if_false]
    simp only [edgeWeight, hnew.leaf, Bool.false_eq_true, false_and, and_false, if_false]
    omega
  · dsimp only
    rw [entryView_table htable, hframe, hcontent]
    exact hnew.view (fun hl => hok.largeAligned (by rw [hl])) _ _ v
  · dsimp only at hused ⊢
    rw [setEntry_frame_ne _ hg]
    apply update_of_ne
    rintro rfl
    rw [Pmm.usedCount_take hfree] at hused
    simp at hused
  · rw [hflag pteU (by decide)]
    exact hnew.userSet huser hne

lemma UpperStep.edgeStep {user : Word} (hsp : SpaceIn A s root)
    (hreach : ReachSlot s.mem virt root (l + 1) q f) (hq : user ≠ 0#64 → hasFlag q pteU = true)
    (hstep : UpperStep s f (tableIndex virt (l + 1)) user l (true, t)) :
    EdgeStep A s t virt root l f user := by
  cases hstep with
  | keep htable huser =>
    have hdown := hreach.down htable
    rw [pteFormat_target] at hdown
    exact ⟨Extends.refl hsp, hdown, fun hne => absurd huser hne, by simp⟩
  | flag htable huser =>
    exact edgeStep_flag hsp hreach htable (hq (by rw [huser]; decide)) user
  | hang hfree huser hnew => exact hnew.edgeStep hsp hreach hq huser hfree

structure MapStage (A : Set ℕ) (s : Machine) (virt user : Word) (root l f : ℕ) (t : Machine) :
    Prop where
  ext : Extends A s t root
  reach : ∃ q, ReachSlot t.mem virt root l q f ∧ (user ≠ 0#64 → hasFlag q pteU = true)
  count : s.pmm.freeCount + l ≤ t.pmm.freeCount + 3

lemma mapStage_start (hsp : SpaceIn A s root) (virt user : Word) :
    MapStage A s virt user root 3 root s :=
  ⟨Extends.refl hsp, ⟨rootWord, Reach.top, fun _ => by decide⟩, le_rfl⟩

lemma MapStage.step {u : Machine} {user : Word} (hsp : SpaceIn A s root)
    (hstage : MapStage A s virt user root (l + 1) f t)
    (hstep : UpperStep t f (tableIndex virt (l + 1)) user l (true, u)) :
    MapStage A s virt user root l (frameOf (u.mem f (tableIndex virt (l + 1)))) u := by
  obtain ⟨hext, ⟨q, hreach, hq⟩, hcount⟩ := hstage
  have hedge := hstep.edgeStep (hext.spaceIn hsp) hreach hq
  have := hedge.count
  exact ⟨hext.trans hedge.ext, ⟨_, hedge.next, hedge.userSet⟩, by omega⟩

lemma MapStage.topTable {user : Word} (hstage : MapStage A s virt user root 3 f t)
    (hpresent : hasFlag (t.mem f (tableIndex virt 3)) pteP = true) :
    hasFlag (t.mem f (tableIndex virt 3)) ptePs = false := by
  obtain ⟨q, hreach, -⟩ := hstage.reach
  exact (hreach.tableAll hstage.ext.space.entries (tableIndex virt 3)).1.topTable rfl hpresent

end Steps

/-! ## The leaf -/

lemma frameOf_high_bit (w mask : Word) (hmask : frameOf mask = 2 ^ 51) :
    frameOf (w &&& mask) % 2 ^ 40 = 0 := by
  rw [frameOf_and, hmask, Nat.and_two_pow]
  cases (frameOf w).testBit 51 <;> simp

lemma leafEntry_frame (phys flags : Word) :
    frameOf (leafEntry phys flags) % 2 ^ 40 = frameOf phys % 2 ^ 40 := by
  have haddr : frameOf (phys &&& pteAddr) = frameOf phys % 2 ^ 40 := by
    rw [frameOf_eq, frameOf_eq, toNat_and_pteAddr]
    omega
  have hflags := frameOf_high_bit flags 0x8000000000000FFF#64 (by decide)
  have hone : frameOf pteP = 0 := by decide
  rw [leafEntry, frameOf_or, frameOf_or, hone, Nat.or_zero, Nat.or_mod_two_pow, hflags,
    Nat.or_zero, haddr, Nat.mod_mod]

lemma hasFlag_leafEntry (phys flags : Word) (hflag : flag.toNat < 4096)
    (hkeep : 0x8000000000000FFF#64 &&& flag = flag) :
    hasFlag (leafEntry phys flags) flag = (hasFlag flags flag || hasFlag pteP flag) := by
  have haddr : hasFlag (phys &&& pteAddr) flag = false := by
    apply hasFlag_of_aligned _ hflag
    rw [toNat_and_pteAddr]
    omega
  rw [leafEntry, hasFlag_or, hasFlag_or, haddr, hasFlag_and, hkeep, Bool.false_or]

lemma leafEntry_present (phys flags : Word) :
    hasFlag (leafEntry phys flags) pteP = true := by
  rw [hasFlag_leafEntry phys flags (by decide) (by decide),
    show hasFlag pteP pteP = true by decide, Bool.or_true]

lemma leafEntry_user (phys flags : Word) :
    hasFlag (leafEntry phys flags) pteU = hasFlag flags pteU := by
  rw [hasFlag_leafEntry phys flags (by decide) (by decide),
    show hasFlag pteP pteU = false by decide, Bool.or_false]

lemma leafEntry_writable (phys flags : Word) :
    hasFlag (leafEntry phys flags) pteW = hasFlag flags pteW := by
  rw [hasFlag_leafEntry phys flags (by decide) (by decide),
    show hasFlag pteP pteW = false by decide, Bool.or_false]

def userRef (page : Option Mapping) (g : ℕ) : ℕ :=
  match page with
  | some p => if p.user = true ∧ p.frame = g then 1 else 0
  | none => 0

def newMapping (phys flags : Word) : Mapping :=
  ⟨frameOf phys % 2 ^ 40, hasFlag flags pteW, hasFlag flags pteU⟩

lemma entryView_leafEntry (m) (virt phys flags : Word) :
    entryView m virt 0 (leafEntry phys flags) = some (newMapping phys flags) := by
  simp only [entryView, entryLookup, pteFormat_present, leafEntry_present, if_true,
    Option.map_some, viewLeaf, leafMapping, leafEntry_user, leafEntry_writable,
    leafFrame_zero, leafEntry_frame, newMapping]

lemma entryRefs_zero (m) (virt w : Word) (g) :
    entrySum pteFormat (refWeight g) m 0 w = userRef (entryView m virt 0 w) g := by
  by_cases hpresent : hasFlag w pteP = true
  · simp [entrySum, refWeight, edgeWeight, entryView, entryLookup, hpresent, userRef,
      viewLeaf, leafMapping]
  · simp [entrySum, refWeight, edgeWeight, entryView, entryLookup, hpresent, userRef]

structure MapsPage (A : Set ℕ) (s t : Machine) (root : ℕ) (virt phys flags : Word) :
    Prop extends Grown A s t root where
  view : ∀ v, pageView t.mem root v =
    if SameSlot 0 virt v then some (newMapping phys flags) else pageView s.mem root v
  refs : ∀ g ∈ A,
    refsOf t.mem root g + s.pmm.usedCount g + userRef (pageView s.mem root virt) g =
      refsOf s.mem root g + t.pmm.usedCount g + userRef (some (newMapping phys flags)) g

lemma mapsPage_of_leaf {s u : Machine} {root : ℕ} {virt flags q : Word} {pt : ℕ}
    (hext : Extends A s u root) (hreach : ReachSlot u.mem virt root 0 q pt)
    (huser : hasFlag flags pteU = true → hasFlag q pteU = true) :
    MapsPage A s (u.setEntry pt (tableIndex virt 0) (leafEntry phys flags)) root virt
      phys flags := by
  have hwrite : SlotWrite pteFormat u.mem (u.setEntry pt (tableIndex virt 0) (leafEntry phys
      flags)).mem (tableIndex virt) 3 root 0 pt :=
    slotWrite_setEntry hreach (fun _ _ => rfl) _
  have hslot : (u.setEntry pt (tableIndex virt 0) (leafEntry phys flags)).mem pt
      (tableIndex virt 0) = leafEntry phys flags := setEntry_same ..
  have htabs : ∀ g, tabsOf
      (u.setEntry pt (tableIndex virt 0) (leafEntry phys flags)).mem root g =
        tabsOf u.mem root g := by
    intro g
    have hsum := tabsOf_slot hext.space.unshared hreach hwrite g
    exact Nat.add_right_cancel hsum
  refine ⟨⟨hext.pmm, hext.cr3_eq, hext.kernel_eq, ?_, fun g hzero => ?_, fun g => ?_⟩,
    fun v => ?_, fun g hg => ?_⟩
  · apply hext.space.slot hreach hwrite
    · rw [hslot]
      constructor
      · intro _ hU
        rw [leafEntry_user] at hU
        exact huser hU
      all_goals
        omega
    · intro g hne
      exact absurd (entryTabs_zero _ _ _) hne
  · rw [htabs] at hzero
    rw [Machine.setEntry_mem, setEntry_frame_ne, hext.frame g hzero]
    rintro rfl
    exact hreach.tabs_ne_zero hzero
  · rw [htabs]
    exact hext.tabs g
  · rw [pageView_slot hext.space hreach hwrite, hslot, entryView_leafEntry, hext.view]
  · have hsum := refsOf_slot hext.space hreach hwrite g
    have hold : pageView u.mem root virt = entryView u.mem virt 0 (u.mem pt (tableIndex virt 0)) :=
      hreach.pageView fun _ _ _ => rfl
    rw [hslot, entryRefs_zero _ virt, entryRefs_zero _ virt, entryView_leafEntry, ← hold,
      hext.view] at hsum
    have := hext.refs g hg
    rw [Machine.setEntry_pmm]
    omega

/-! ## References of user pages -/

lemma SpaceOk.clear_user {root : ℕ} (hok : SpaceOk A m root) {virt : Word}
    {page : Mapping} (hpage : pageView m root virt = some page) (huser : page.user = true)
    (hmanaged : page.frame ∈ A) :
    ∃ m', SpaceOk A m' root ∧
      (∀ g, refsOf m' root g + (if page.frame = g then 1 else 0) = refsOf m root g) ∧
      (∀ g, tabsOf m' root g = tabsOf m root g) ∧
      ∀ v, pageView m' root v =
        if pageNum v = pageNum virt then none else pageView m root v := by
  obtain ⟨q, f, hreach, hP, hU, hframe⟩ := user_slot hok.entries hpage huser hmanaged
  have hwrite : SlotWrite pteFormat m (setEntry m f (tableIndex virt 0) 0#64)
      (tableIndex virt) 3 root 0 f :=
    slotWrite_setEntry hreach (fun _ _ => rfl) _
  refine ⟨setEntry m f (tableIndex virt 0) 0#64, ?_, fun g => ?_, fun g => ?_, fun v => ?_⟩
  · apply hok.slot hreach hwrite
    · rw [setEntry_same]
      exact entryAll_of_absent _ 0 (zero_hasFlag _)
    · intro g hne
      exact absurd (entryTabs_zero _ _ _) hne
  · have hsum := refsOf_slot hok hreach hwrite g
    rw [setEntry_same, entryRefs_absent (zero_hasFlag _)] at hsum
    rw [entryRefs_user_leaf hP hU, hframe] at hsum
    omega
  · have hsum := tabsOf_slot hok.unshared hreach hwrite g
    exact Nat.add_right_cancel hsum
  · rw [pageView_slot hok hreach hwrite, setEntry_same, entryView_absent (zero_hasFlag _)]
    simp only [sameSlot_zero_iff]

lemma userRef_le_one (page : Option Mapping) (g) : userRef page g ≤ 1 := by
  unfold userRef
  split
  · split <;> omega
  · omega

lemma userRef_ne_zero {page : Option Mapping} (hne : userRef page g ≠ 0) :
    ∃ p, page = some p ∧ p.user = true ∧ p.frame = g := by
  unfold userRef at hne
  split at hne
  · rename_i p
    split at hne
    · rename_i hp
      exact ⟨p, rfl, hp⟩
    · exact absurd rfl hne
  · exact absurd rfl hne

lemma SpaceOk.tabs_add_userRef {root : ℕ} (hok : SpaceOk A m root) (virt : Word) (hg : g ∈ A) :
    tabsOf m root g + userRef (pageView m root virt) g ≤ refsOf m root g := by
  by_cases hzero : userRef (pageView m root virt) g = 0
  · have := tabsOf_le_refsOf m root g
    omega
  · obtain ⟨page, hpage, huser, rfl⟩ := userRef_ne_zero hzero
    obtain ⟨m', -, hrefs, htabs, -⟩ := hok.clear_user hpage huser hg
    have hsum := hrefs page.frame
    have hle := tabsOf_le_refsOf m' root page.frame
    have hone := userRef_le_one (pageView m root virt) page.frame
    rw [htabs] at hle
    rw [if_pos rfl] at hsum
    omega

lemma SpaceOk.userRef_add_userRef {root : ℕ} (hok : SpaceOk A m root)
    {virt virt' : Word} (hne : pageNum virt' ≠ pageNum virt) (hg : g ∈ A) :
    userRef (pageView m root virt) g + userRef (pageView m root virt') g ≤
      refsOf m root g := by
  by_cases hzero : userRef (pageView m root virt) g = 0
  · have := hok.tabs_add_userRef virt' hg
    omega
  · obtain ⟨page, hpage, huser, rfl⟩ := userRef_ne_zero hzero
    obtain ⟨m', hok', hrefs, -, hview⟩ := hok.clear_user hpage huser hg
    have hle := hok'.tabs_add_userRef virt' hg
    have hsum := hrefs page.frame
    have hone := userRef_le_one (pageView m root virt) page.frame
    rw [hview, if_neg hne] at hle
    rw [if_pos rfl] at hsum
    omega

lemma userRef_self (huser : page.user = true) :
    userRef (some page) page.frame = 1 := by
  simp [userRef, huser]

lemma SpaceOk.user_alone {root : ℕ} (hok : SpaceOk A m root) {virt : Word}
    (hpage : pageView m root virt = some page) (huser : page.user = true)
    (hmanaged : page.frame ∈ A) (hone : refsOf m root page.frame ≤ 1) :
    tabsOf m root page.frame = 0 ∧
      ∀ virt' page', pageView m root virt' = some page' → page'.user = true →
        pageNum virt' ≠ pageNum virt → page'.frame ≠ page.frame := by
  have hself : userRef (pageView m root virt) page.frame = 1 := by
    rw [hpage, userRef_self huser]
  refine ⟨?_, fun virt' page' hpage' huser' hne hframe => ?_⟩
  · have := hok.tabs_add_userRef virt hmanaged
    omega
  · have hother : userRef (pageView m root virt') page.frame = 1 := by
      rw [hpage', ← hframe, userRef_self huser']
    have := hok.userRef_add_userRef hne hmanaged
    omega

lemma entryRefs_cases {l : ℕ} {w : Word} (hne : entrySum pteFormat (refWeight g) m l w ≠ 0) :
    entryTabs pteFormat m l w g ≠ 0 ∨
      ∃ path x, entryLookup pteFormat m path l w = some (x, 0) ∧ hasFlag x pteU = true ∧
        frameOf x % 2 ^ 40 = g := by
  induction l generalizing w with
  | zero =>
    right
    simp only [entrySum, refWeight, edgeWeight, ne_eq, not_true_eq_false, false_and,
      if_false, zero_add, ite_eq_right_iff, one_ne_zero, imp_false, not_not, true_and] at hne
    obtain ⟨hpresent, huser, hframe⟩ := hne
    exact ⟨fun _ => 0, w, by simp [entryLookup, hpresent], huser, hframe⟩
  | succ l ih =>
    by_cases hedge : edgeWeight pteFormat g (l + 1) w = 0
    · simp only [entrySum, refWeight_succ, hedge, zero_add] at hne
      split at hne
      · rename_i htable
        obtain ⟨j, -, hj⟩ := Finset.exists_ne_zero_of_sum_ne_zero hne
        rcases ih hj with htab | ⟨path, x, hfound, hx⟩
        · exact Or.inl (entryTabs_child_ne_zero htable htab)
        · right
          refine ⟨update path l j, x, ?_, hx⟩
          rw [entryLookup_table htable, update_self, ← hfound, pteFormat_target]
          apply entryLookup_path_congr
          intro k hk
          exact update_of_ne (by omega) _ _
      · exact absurd rfl hne
    · left
      unfold entryTabs entrySum
      omega

lemma refsOf_cases {root : ℕ} (hne : refsOf m root g ≠ 0) :
    tabsOf m root g ≠ 0 ∨ ∃ v page, pageView m root v = some page ∧ page.user = true ∧
      page.frame = g := by
  by_cases hroot : root = g
  · subst hroot
    exact Or.inl (tableTabs_self_pos _ _ _ _)
  · rw [refsOf, if_neg hroot, zero_add] at hne
    obtain ⟨j, -, hj⟩ := Finset.exists_ne_zero_of_sum_ne_zero hne
    rcases entryRefs_cases hj with htab | ⟨path, x, hfound, huser, hframe⟩
    · have hle := entryTabs_le_tableTabs pteFormat m 3 root g j
      exact Or.inl (by unfold tabsOf; omega)
    · right
      obtain ⟨v, hv⟩ := exists_virt (update path 3 j)
      refine ⟨v, viewLeaf v (x, 0), ?_, huser, (leafFrame_zero x v).trans hframe⟩
      unfold pageView tableLookup
      rw [hv 3 le_rfl, update_self, entryLookup_path_congr, hfound]
      · rfl
      · intro k hk
        rw [hv k (by omega), update_of_ne (by omega)]

def HugeAt (m : Mem) (root : ℕ) (virt : Word) : Prop :=
  ∃ w, tableLookup pteFormat m (tableIndex virt) 3 root = some (w, 2)

lemma hugeAt_of_reach {root : ℕ} {virt q : Word} {f : ℕ} (hreach : ReachSlot m virt root 2 q f)
    (hpresent : hasFlag (m f (tableIndex virt 2)) pteP = true)
    (hlarge : hasFlag (m f (tableIndex virt 2)) ptePs = true) : HugeAt m root virt := by
  refine ⟨m f (tableIndex virt 2), ?_⟩
  rw [hreach.lookup fun _ _ _ => rfl]
  simp [tableLookup, entryLookup, pteFormat_isTable, hpresent, hlarge]

lemma HugeAt.mapped {root : ℕ} {virt : Word} (hhuge : HugeAt m root virt) :
    pageView m root virt ≠ none := by
  obtain ⟨w, hw⟩ := hhuge
  simp [pageView, hw]

lemma HugeAt.kernel {root : ℕ} {virt : Word} (hok : SpaceOk A m root)
    (hhuge : HugeAt m root virt) :
    ∃ page, pageView m root virt = some page ∧ page.user = false := by
  obtain ⟨w, hw⟩ := hhuge
  obtain ⟨q, f, hreach, rfl, hpresent, hleaf⟩ :=
    (Reach.top : ReachSlot m virt root 3 rootWord root).of_lookup hw
  refine ⟨viewLeaf virt (m f (tableIndex virt 2), 2), by simp [pageView, hw], ?_⟩
  have hentry := (hreach.tableAll hok.entries (tableIndex virt 2)).1
  apply hentry.hugeKernel rfl hpresent
  have hnot := hleaf.resolve_left (by decide)
  rw [pteFormat_isTable, show hasFlag (m f (tableIndex virt 2)) pteP = true from hpresent,
    Bool.true_and, Bool.not_eq_false'] at hnot
  exact hnot

lemma pagingMap4k_cases {s : Machine} {virt : Word}
    (hsp : SpaceIn A s (frameOf s.cr3)) (hcr3 : s.cr3 ≠ 0#64)
    (hvirt : virt &&& 0xFFF#64 = 0#64) (hphys : phys &&& 0xFFF#64 = 0#64) (flags : Word) :
    (∃ t, pagingMap4k s virt phys flags = (true, t) ∧
      MapsPage A s t (frameOf s.cr3) virt phys flags ∧
      s.pmm.freeCount ≤ t.pmm.freeCount + 3) ∨
    (∃ t, pagingMap4k s virt phys flags = (false, t) ∧
      Extends A s t (frameOf s.cr3) ∧
      (s.pmm.freeCount ≤ 2 ∨ HugeAt t.mem (frameOf s.cr3) virt)) := by
  refine pagingMap4k_induct (R := fun r =>
      (∃ t, r = (true, t) ∧ MapsPage A s t (frameOf s.cr3) virt phys flags ∧
        s.pmm.freeCount ≤ t.pmm.freeCount + 3) ∨
      (∃ t, r = (false, t) ∧ Extends A s t (frameOf s.cr3) ∧
        (s.pmm.freeCount ≤ 2 ∨ HugeAt t.mem (frameOf s.cr3) virt)))
    rfl (fun h => ?_) (mapStage_start hsp virt _)
    (fun hstage => (hstage.ext.spaceIn hsp).sound) MapStage.topTable
    (fun hstage hstep => hstage.step hsp hstep)
    (fun hstage hstep => Or.inr ⟨_, rfl, hstage.ext, ?_⟩)
    fun hstage => Or.inl ⟨_, rfl, ?_, hstage.count⟩
  · simp [hcr3, hvirt, hphys] at h
  · obtain ⟨q, hreach, -⟩ := hstage.reach
    have hcount := hstage.count
    cases hstep with
    | full hnone => exact Or.inl (by omega)
    | huge hl hpresent hlarge =>
      subst hl
      exact Or.inr (hugeAt_of_reach hreach hpresent hlarge)
  · obtain ⟨q, hreach, hq⟩ := hstage.reach
    refine mapsPage_of_leaf hstage.ext hreach fun hU => hq ?_
    rw [if_pos hU]
    decide

end HelixOS
