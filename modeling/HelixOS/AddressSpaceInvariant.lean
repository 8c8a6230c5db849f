import HelixOS.PagingOperations

/-!
# Well-formed address spaces

The conditions every page table of the kernel satisfies, for a fixed set `A` of frames the
page allocator manages: each table is referenced once, a user page has the user bit on all
levels above it, edges are writable, and large user pages lie outside `A`.
-/

namespace HelixOS

open RadixMemory Option

variable {g : ℕ} {w p virt' : Word} {A : Set ℕ}

/-- The condition on an entry `w` of level `l` whose table is entered through
the entry `p`. -/
structure EntryOk (A : Set ℕ) (l : ℕ) (p w : Word) : Prop where
  userUp : hasFlag w pteP = true → hasFlag w pteU = true → hasFlag p pteU = true
  topTable : l = 3 → hasFlag w pteP = true → hasFlag w ptePs = false
  tableWritable : l ≠ 0 → pteFormat.isTable w = true → hasFlag w pteW = true
  tableFits : l ≠ 0 → pteFormat.isTable w = true → frameOf w < 2 ^ 40
  largeAligned : l = 1 → hasFlag w pteP = true → hasFlag w ptePs = true →
    frameOf w % 512 = 0
  largeWritable : l = 1 → hasFlag w pteP = true → hasFlag w ptePs = true →
    hasFlag w pteW = true
  largeUser : l = 1 → hasFlag w pteP = true → hasFlag w ptePs = true →
    hasFlag w pteU = true → ∀ j, j < 512 → frameOf w % 2 ^ 40 + j ∉ A
  hugeKernel : l = 2 → hasFlag w pteP = true → hasFlag w ptePs = true →
    hasFlag w pteU = false

abbrev rootWord : Word := pteU

abbrev tabsOf (m : Mem) (root g : ℕ) : ℕ := tableTabs pteFormat m 3 root g

/-- Weight of an entry for the frame `g`: an edge to the table `g` or a 4 KiB
user leaf on the frame `g`. -/
def refWeight (g l : ℕ) (w : Word) : ℕ :=
  edgeWeight pteFormat g l w +
    if l = 0 ∧ hasFlag w pteP = true ∧ hasFlag w pteU = true ∧
      frameOf w % 2 ^ 40 = g then 1 else 0

/-- How often the page table `root` refers to the frame `g`, as a table or as a
4 KiB user page. -/
def refsOf (m : Mem) (root g : ℕ) : ℕ :=
  (if root = g then 1 else 0) + tableSum pteFormat (refWeight g) m 3 root

lemma tabsOf_le_refsOf (m : Mem) (root g : ℕ) : tabsOf m root g ≤ refsOf m root g := by
  apply Nat.add_le_add_left
  exact tableSum_mono (fun l w => Nat.le_add_right _ _) m 3 root

structure SpaceOk (A : Set ℕ) (m : Mem) (root : ℕ) : Prop where
  entries : tableAll pteFormat (EntryOk A) m 3 rootWord root
  unshared : Unshared pteFormat m 3 root

def viewLeaf (virt : Word) (leaf : Word × ℕ) : Mapping :=
  leafMapping virt leaf.2 leaf.1

def entryView (m : Mem) (virt : Word) (l : ℕ) (w : Word) : Option Mapping :=
  (entryLookup pteFormat m (tableIndex virt) l w).map (viewLeaf virt)

/-- The page table as a map from virtual pages to mappings. -/
def pageView (m : Mem) (root : ℕ) (virt : Word) : Option Mapping :=
  (tableLookup pteFormat m (tableIndex virt) 3 root).map (viewLeaf virt)

@[simp] lemma pteFormat_present (w : Word) :
    pteFormat.present w = hasFlag w pteP := rfl

@[simp] lemma pteFormat_target (w : Word) :
    pteFormat.target w = frameOf w := tableFrame_eq w

lemma pteFormat_isTable (w) :
    pteFormat.isTable w = (hasFlag w pteP && !hasFlag w ptePs) := rfl

lemma EntryOk.of_absent {l : ℕ} (hw : hasFlag w pteP = false) :
    EntryOk A l p w := by
  constructor <;> intros <;> simp_all [pteFormat_isTable]

lemma entryAll_of_absent (m : Mem) (l : ℕ) (hw : hasFlag w pteP = false) :
    entryAll pteFormat (EntryOk A) m l p w := by
  cases l with
  | zero => exact EntryOk.of_absent hw
  | succ l =>
    refine ⟨EntryOk.of_absent hw, fun htable => ?_⟩
    simp [pteFormat_isTable, hw] at htable

/-! ## The walk of the processor is a lookup -/

lemma entryLookup_user {m : Mem} {path : ℕ → Fin 512} {l : ℕ}
    (hall : entryAll pteFormat (EntryOk A) m l p w) {x : Word} {k : ℕ}
    (hfound : entryLookup pteFormat m path l w = some (x, k))
    (huser : hasFlag x pteU = true) : hasFlag p pteU = true := by
  induction l generalizing p w with
  | zero =>
    simp only [entryLookup] at hfound
    split at hfound
    · rename_i hpresent
      obtain ⟨rfl, -⟩ := Prod.mk.inj (some.inj hfound)
      exact hall.userUp hpresent huser
    · contradiction
  | succ l ih =>
    obtain ⟨hok, hbelow⟩ := hall
    simp only [entryLookup] at hfound
    split at hfound
    · rename_i htable
      have hup := ih (hbelow htable _) hfound
      have hpresent : hasFlag w pteP = true := by
        simp only [pteFormat_isTable, Bool.and_eq_true] at htable
        exact htable.1
      exact hok.userUp hpresent hup
    · split at hfound
      · rename_i hpresent
        obtain ⟨rfl, -⟩ := Prod.mk.inj (some.inj hfound)
        exact hok.userUp hpresent huser
      · contradiction

lemma entryTranslate_eq_entryView {m : Mem} {virt : Word} {l : ℕ}
    (hall : entryAll pteFormat (EntryOk A) m l p w) :
    entryTranslate m virt l w = entryView m virt l w := by
  unfold entryView
  induction l generalizing p w with
  | zero =>
    by_cases hpresent : hasFlag w pteP = true
    · simp [entryTranslate, entryLookup, hpresent, viewLeaf]
    · simp [entryTranslate, entryLookup, hpresent]
  | succ l ih =>
    obtain ⟨hok, hbelow⟩ := hall
    by_cases hpresent : hasFlag w pteP = true
    · by_cases hlarge : hasFlag w ptePs = true
      · simp [entryTranslate, entryLookup, pteFormat_isTable, hpresent, hlarge, viewLeaf]
      · have htable : pteFormat.isTable w = true := by
          simp [pteFormat_isTable, hpresent, hlarge]
        have hsub := ih (hbelow htable (tableIndex virt l))
        have hwritable := hok.tableWritable (by omega) htable
        simp only [pteFormat_target] at hsub
        simp only [entryTranslate, entryLookup, htable, hpresent, hlarge, if_true, Bool.not_true,
          Bool.false_eq_true, if_false, tableFrame_eq, pteFormat_target, hsub, Option.map_map]
        apply Option.map_congr
        rintro ⟨x, k⟩ hfound
        have hup : hasFlag x pteU = true → hasFlag w pteU = true :=
          entryLookup_user (hbelow htable (tableIndex virt l)) (by simpa using hfound)
        simp only [Function.comp, viewLeaf, leafMapping, hwritable,
          Bool.and_true, Mapping.mk.injEq, true_and]
        cases hx : hasFlag x pteU
        · rfl
        · simp [hup hx]
    · simp [entryTranslate, entryLookup, pteFormat_isTable, hpresent]

lemma translate_eq_pageView {m : Mem} {root : Word}
    (hall : tableAll pteFormat (EntryOk A) m 3 p (frameOf root)) (virt : Word) :
    translate m root virt = pageView m (frameOf root) virt :=
  entryTranslate_eq_entryView (hall (tableIndex virt 3))

/-! ## Address spaces only depend on their tables -/

section Congruence

variable {m m' : Mem} {root : ℕ}

lemma SpaceOk.congr (hok : SpaceOk A m root)
    (hagree : ∀ g, tabsOf m root g ≠ 0 → m' g = m g) : SpaceOk A m' root := by
  refine ⟨(tableAll_congr _ hagree).mpr hok.entries, fun g => ?_⟩
  rw [tableTabs_congr g hagree]
  exact hok.unshared g

lemma pageView_congr (virt : Word) (hagree : ∀ g, tabsOf m root g ≠ 0 → m' g = m g) :
    pageView m' root virt = pageView m root virt := by
  unfold pageView
  rw [tableLookup_congr _ hagree]

lemma refsOf_congr (g) (hagree : ∀ g, tabsOf m root g ≠ 0 → m' g = m g) :
    refsOf m' root g = refsOf m root g := by
  unfold refsOf
  rw [tableSum_congr _ hagree]

end Congruence

/-! ## Rewriting one slot -/

section Slot

variable {m m' : Mem} {root : ℕ} {virt : Word} {l : ℕ} {q : Word} {f : ℕ}

abbrev ReachSlot (m : Mem) (virt : Word) (root l : ℕ) (q : Word) (f : ℕ) : Prop :=
  Reach pteFormat m (tableIndex virt) 3 rootWord root l q f

lemma SpaceOk.slot (hok : SpaceOk A m root)
    (hreach : ReachSlot m virt root l q f)
    (hwrite : SlotWrite pteFormat m m' (tableIndex virt) 3 root l f)
    (hnew : entryAll pteFormat (EntryOk A) m' l q (m' f (tableIndex virt l)))
    (htabs : ∀ g, entryTabs pteFormat m' l (m' f (tableIndex virt l)) g ≠ 0 →
      tabsOf m root g + entryTabs pteFormat m' l (m' f (tableIndex virt l)) g ≤
        1 + entryTabs pteFormat m l (m f (tableIndex virt l)) g) :
    SpaceOk A m' root :=
  ⟨hwrite.tableAll hreach hok.unshared hok.entries hnew,
    hwrite.unshared hreach hok.unshared htabs⟩

lemma tabsOf_slot (hun : Unshared pteFormat m 3 root) (hreach : ReachSlot m virt root l q f)
    (hwrite : SlotWrite pteFormat m m' (tableIndex virt) 3 root l f) (g) :
    tabsOf m' root g + entryTabs pteFormat m l (m f (tableIndex virt l)) g =
      tabsOf m root g + entryTabs pteFormat m' l (m' f (tableIndex virt l)) g :=
  hwrite.tabs hreach hun g

lemma refsOf_slot (hok : SpaceOk A m root) (hreach : ReachSlot m virt root l q f)
    (hwrite : SlotWrite pteFormat m m' (tableIndex virt) 3 root l f) (g) :
    refsOf m' root g +
        entrySum pteFormat (refWeight g) m l (m f (tableIndex virt l)) =
      refsOf m root g +
        entrySum pteFormat (refWeight g) m' l (m' f (tableIndex virt l)) := by
  have hsum := hwrite.tableSum (refWeight g) hreach hok.unshared
  unfold refsOf
  omega

def SameSlot (l : ℕ) (virt virt' : Word) : Prop :=
  ∀ k, l ≤ k → k ≤ 3 → tableIndex virt' k = tableIndex virt k

instance (l : ℕ) (virt virt' : Word) : Decidable (SameSlot l virt virt') :=
  decidable_of_iff (∀ k : Fin 4, l ≤ k.val →
      tableIndex virt' k.val = tableIndex virt k.val)
    ⟨fun h k hl hk => h ⟨k, by omega⟩ hl, fun h k hl => h k.val hl (by omega)⟩

lemma ReachSlot.pageView (hreach : ReachSlot m virt root l q f) (hsame : SameSlot l virt virt') :
    pageView m root virt' = entryView m virt' l (m f (tableIndex virt l)) := by
  unfold HelixOS.pageView entryView
  rw [hreach.lookup fun k hk hk3 => hsame k (by omega) hk3]
  unfold tableLookup
  rw [hsame l le_rfl hreach.level_le]

section

variable (hok : SpaceOk A m root) (hreach : ReachSlot m virt root l q f)
  (hwrite : SlotWrite pteFormat m m' (tableIndex virt) 3 root l f)
include hok hreach hwrite

lemma pageView_slot (virt') : pageView m' root virt' =
      if SameSlot l virt virt' then entryView m' virt' l (m' f (tableIndex virt l))
      else pageView m root virt' := by
  split
  · rename_i hsame
    unfold pageView entryView
    rw [hwrite.lookup_of_eq hreach hok.unshared hsame]
  · rename_i hleave
    unfold pageView
    rw [hwrite.lookup_of_ne hreach hok.unshared]
    unfold SameSlot at hleave
    push Not at hleave
    exact hleave

lemma pageView_slot_same
    (hsame : ∀ virt', SameSlot l virt virt' →
      entryView m' virt' l (m' f (tableIndex virt l)) =
        entryView m virt' l (m f (tableIndex virt l)))
    (virt') : pageView m' root virt' = pageView m root virt' := by
  rw [pageView_slot hok hreach hwrite]
  split
  · rename_i hslot
    rw [hsame virt' hslot, hreach.pageView hslot]
  · rfl

end

end Slot

/-! ## Pages and their slots -/

def pageNum (virt : Word) : ℕ := virt.toNat / 4096 % 2 ^ 36

lemma pageNum_eq (virt : Word) :
    pageNum virt = (tableIndex virt 0).val + 512 * (tableIndex virt 1).val +
      512 ^ 2 * (tableIndex virt 2).val + 512 ^ 3 * (tableIndex virt 3).val := by
  simp only [pageNum, tableIndex_val]
  omega

lemma sameSlot_zero_iff (virt virt' : Word) :
    SameSlot 0 virt virt' ↔ pageNum virt' = pageNum virt := by
  constructor
  · intro hsame
    rw [pageNum_eq, pageNum_eq, hsame 0 (by omega) (by omega), hsame 1 (by omega) (by omega),
      hsame 2 (by omega) (by omega), hsame 3 (by omega) (by omega)]
  · intro heq k _ hk
    rw [pageNum_eq, pageNum_eq] at heq
    interval_cases k <;> omega

lemma exists_virt (path : ℕ → Fin 512) :
    ∃ virt : Word, ∀ k, k ≤ 3 → tableIndex virt k = path k := by
  refine ⟨BitVec.ofNat 64 ((path 0).val * 2 ^ 12 + (path 1).val * 2 ^ 21 +
    (path 2).val * 2 ^ 30 + (path 3).val * 2 ^ 39), fun k hk => Fin.ext ?_⟩
  rw [tableIndex_val, BitVec.toNat_ofNat]
  interval_cases k <;> omega

lemma pageView_slot_of_some {m : Mem} {root : ℕ} {virt : Word} {page : Mapping}
    (hpage : pageView m root virt = some page) :
    ∃ k q f, ReachSlot m virt root k q f ∧
      hasFlag (m f (tableIndex virt k)) pteP = true ∧
      (k = 0 ∨ hasFlag (m f (tableIndex virt k)) ptePs = true) ∧
      page = leafMapping virt k (m f (tableIndex virt k)) := by
  unfold pageView at hpage
  rw [map_eq_some_iff] at hpage
  obtain ⟨⟨w, k⟩, hfound, rfl⟩ := hpage
  obtain ⟨q, f, hreach, rfl, hpresent, hleaf⟩ :=
    (Reach.top : ReachSlot m virt root 3 rootWord root).of_lookup hfound
  refine ⟨k, q, f, hreach, hpresent, hleaf.imp_right fun hnot => ?_, rfl⟩
  rw [pteFormat_isTable, show hasFlag (m f (tableIndex virt k)) pteP = true from hpresent,
    Bool.true_and, Bool.not_eq_false'] at hnot
  exact hnot

lemma user_slot {m : Mem} {root : ℕ} (hall : tableAll pteFormat (EntryOk A) m 3 rootWord root)
    {virt : Word} {page : Mapping} (hpage : pageView m root virt = some page)
    (huser : page.user = true) (hmanaged : page.frame ∈ A) :
    ∃ q f, ReachSlot m virt root 0 q f ∧
      hasFlag (m f (tableIndex virt 0)) pteP = true ∧
      hasFlag (m f (tableIndex virt 0)) pteU = true ∧
      frameOf (m f (tableIndex virt 0)) % 2 ^ 40 = page.frame := by
  obtain ⟨k, q, f, hreach, hpresent, hleaf, rfl⟩ := pageView_slot_of_some hpage
  have hk := hreach.level_le
  have hentry : EntryOk A k q (m f (tableIndex virt k)) := by
    have hbelow := hreach.tableAll hall (tableIndex virt k)
    cases k with
    | zero => exact hbelow
    | succ k => exact hbelow.1
  have hcases : k = 0 ∨ k = 1 ∨ k = 2 ∨ k = 3 := by omega
  rcases hcases with rfl | rfl | rfl | rfl
  · exact ⟨q, f, hreach, hpresent, huser, (leafFrame_zero _ virt).symm⟩
  · have hlarge := hleaf.resolve_left (by omega)
    have haligned := hentry.largeAligned rfl hpresent hlarge
    have hout := hentry.largeUser rfl hpresent hlarge huser _ (tableIndex virt 0).isLt
    rw [← leafFrame_one _ virt haligned] at hout
    exact absurd hmanaged hout
  · have hkernel := hentry.hugeKernel rfl hpresent (hleaf.resolve_left (by omega))
    have hflag : hasFlag (m f (tableIndex virt 2)) pteU = true := huser
    simp [hkernel] at hflag
  · have hnot := hentry.topTable rfl hpresent
    simp [hleaf.resolve_left (by omega)] at hnot

end HelixOS
