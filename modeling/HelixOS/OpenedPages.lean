import HelixOS.MmapWindows

/-!
# Opening pages to user mode

`paging_set_user_range` sets the user bit on the way to a page and on its leaf, be it a
page of 4 KiB or of 2 MiB. Below entries that were closed no leaf has the bit, so that
only the pages of the leaf are opened.
-/

namespace HelixOS

open RadixMemory Function Option

variable {m m' : Mem} {w : Word} {A : Set ℕ}

/-! ## Large pages of 1 GiB -/

def NoNewHuge (m m' : Mem) (root : ℕ) : Prop := ∀ v, HugeAt m' root v → HugeAt m root v

lemma NoNewHuge.refl (m : Mem) (root : ℕ) : NoNewHuge m m root := fun _ h => h

lemma NoNewHuge.trans {m'' : Mem} {root : ℕ} (hfirst : NoNewHuge m m' root)
    (hsecond : NoNewHuge m' m'' root) : NoNewHuge m m'' root :=
  fun v h => hfirst v (hsecond v h)

lemma noNewHuge_congr {root : ℕ}
    (hagree : ∀ g, tabsOf m root g ≠ 0 → m' g = m g) : NoNewHuge m m' root := by
  rintro v ⟨w, hw⟩
  rw [tableLookup_congr _ hagree] at hw
  exact ⟨w, hw⟩

lemma entryLookup_level {path : ℕ → Fin 512} {l k : ℕ} {w' : Word}
    (hfound : entryLookup pteFormat m path l w = some (w', k)) : k ≤ l := by
  induction l generalizing w with
  | zero =>
    simp only [entryLookup, ite_none_right_eq_some, some.injEq, Prod.mk.injEq] at hfound
    omega
  | succ l ih =>
    simp only [entryLookup] at hfound
    split at hfound
    · exact (ih hfound).trans (Nat.le_succ l)
    · simp only [ite_none_right_eq_some, some.injEq, Prod.mk.injEq] at hfound
      omega

section Writes

variable {s t : Machine} {root : ℕ} {virt : Word} {l : ℕ} {q : Word} {f : ℕ}

section

variable (hok : SpaceOk A m root) (hreach : ReachSlot m virt root l q f)
  (hwrite : SlotWrite pteFormat m m' (tableIndex virt) 3 root l f)
include hok hreach hwrite

lemma noNewHuge_slot
    (hnew : ∀ v w, SameSlot l virt v →
      entryLookup pteFormat m' (tableIndex v) l (m' f (tableIndex virt l)) = some (w, 2) →
      HugeAt m root v) :
    NoNewHuge m m' root := by
  rintro v ⟨w, hw⟩
  by_cases hsame : SameSlot l virt v
  · rw [hwrite.lookup_of_eq hreach hok.unshared hsame] at hw
    exact hnew v w hsame hw
  · unfold SameSlot at hsame
    push Not at hsame
    rw [hwrite.lookup_of_ne hreach hok.unshared hsame] at hw
    exact ⟨w, hw⟩

lemma noNewHuge_low (hlow : l ≤ 1 ∨ l = 2 ∧ pteFormat.isTable (m' f (tableIndex virt l)) = true) :
    NoNewHuge m m' root := by
  refine noNewHuge_slot hok hreach hwrite fun v w _ hfound => ?_
  rcases hlow with hl | ⟨rfl, htable⟩
  · have hlevel := entryLookup_level hfound
    omega
  · rw [entryLookup_table htable] at hfound
    have hlevel := entryLookup_level hfound
    omega

end

lemma noNewHuge_flag (hsp : SpaceIn A s root) (hreach : ReachSlot s.mem virt root (l + 1) q f)
    (htable : pteFormat.isTable (s.mem f (tableIndex virt (l + 1))) = true) :
    NoNewHuge s.mem (s.setEntry f (tableIndex virt (l + 1))
      (s.mem f (tableIndex virt (l + 1)) ||| pteU)).mem root := by
  refine noNewHuge_slot hsp.ok hreach (slotWrite_setEntry hreach (fun _ _ => rfl) _)
    fun v w hsame hfound => ⟨w, ?_⟩
  rw [Machine.setEntry_mem, setEntry_same,
    (sameEdge_user hreach hsp.ok.unshared htable).lookup] at hfound
  rw [hreach.lookup fun k hk hk3 => hsame k (by omega) hk3]
  unfold tableLookup
  rw [hsame _ le_rfl hreach.level_le]
  exact hfound

lemma UpperStep.noNewHuge {user : Word} (hsp : SpaceIn A s root)
    (hreach : ReachSlot s.mem virt root (l + 1) q f)
    (hstep : UpperStep s f (tableIndex virt (l + 1)) user l (true, t)) :
    NoNewHuge s.mem t.mem root := by
  cases hstep with
  | keep => exact NoNewHuge.refl _ _
  | flag htable => exact noNewHuge_flag hsp hreach htable
  | @hang p flags content hfree huser hnew =>
    obtain ⟨hwrite, hfill⟩ := slotWrite_hang hreach (fresh_tabs_zero hsp hfree) content
      (frameAddr p ||| flags)
    rcases hnew.content_eq with ⟨-, rfl⟩ | ⟨rfl, -⟩
    · obtain ⟨hflags, hps, hp, -⟩ := hnew.edge
      obtain ⟨hframe, htable, -⟩ :=
        edge_flags (hsp.sound.free_bounds hfree).2 hflags hps hp
      refine noNewHuge_slot hsp.ok hreach hwrite fun v w' _ hfound => ?_
      simp only [setEntry_same, entryLookup_table htable, hframe, hfill] at hfound
      cases l <;> simp [entryLookup, pteFormat_isTable] at hfound
    · exact noNewHuge_low hsp.ok hreach hwrite (Or.inl le_rfl)

end Writes

lemma pagingMap4k_noNewHuge {s : Machine} (hsp : SpaceIn A s (frameOf s.cr3))
    (virt phys flags : Word) :
    NoNewHuge s.mem (pagingMap4k s virt phys flags).2.mem (frameOf s.cr3) := by
  refine pagingMap4k_induct (R := fun r => NoNewHuge s.mem r.2.mem (frameOf s.cr3))
    (Q := fun l f t => MapStage A s virt _ (frameOf s.cr3) l f t ∧
      NoNewHuge s.mem t.mem (frameOf s.cr3))
    rfl (fun _ => NoNewHuge.refl _ _) ⟨mapStage_start hsp virt _, NoNewHuge.refl _ _⟩
    (fun hQ => (hQ.1.ext.spaceIn hsp).sound) (fun hQ => hQ.1.topTable)
    (fun hQ hstep => ⟨hQ.1.step hsp hstep, ?_⟩) (fun hQ _ => hQ.2) fun hQ => ?_
  · obtain ⟨q, hreach, -⟩ := hQ.1.reach
    exact hQ.2.trans (hstep.noNewHuge (hQ.1.ext.spaceIn hsp) hreach)
  · obtain ⟨q, hreach, -⟩ := hQ.1.reach
    exact hQ.2.trans (noNewHuge_low hQ.1.ext.space hreach
      (slotWrite_setEntry hreach (fun _ _ => rfl) _) (Or.inl (by omega)))

lemma allocUserPage_noNewHuge {s : Machine} (hsp : SpaceIn A s (frameOf s.cr3)) (va : Word)
    (writable : Bool) :
    NoNewHuge s.mem (allocUserPage s va writable).2.mem (frameOf s.cr3) := by
  rcases allocZeroedPage_cases hsp.sound with ⟨p, hfree, hne, -, halloc⟩ | ⟨-, halloc⟩
  swap
  · simp only [allocUserPage, halloc, if_true]
    exact NoNewHuge.refl _ _
  have htake : NoNewHuge s.mem (s.takeFrame p).mem (frameOf s.cr3) :=
    noNewHuge_congr (update_agrees (fresh_tabs_zero hsp hfree) _)
  have hmap := pagingMap4k_noNewHuge (hsp.takeFrame hfree).1 va (frameAddr p) (userFlags writable)
  simp only [allocUserPage, halloc, hne, if_false]
  generalize pagingMap4k (s.takeFrame p) va (frameAddr p) (userFlags writable) = result at hmap
  obtain ⟨ok, t⟩ := result
  cases ok with
  | true => exact htake.trans hmap
  | false => exact htake.trans hmap

/-! ## The leaf of an opened page -/

def Mapping.opened (page : Mapping) : Mapping := { page with user := true }

structure OpensLeaf (A : Set ℕ) (s t : Machine) (root k : ℕ) (virt : Word) : Prop extends
    Grown A s t root where
  view : ∀ v, pageView t.mem root v =
    if SameSlot k virt v then (pageView s.mem root v).map Mapping.opened
    else pageView s.mem root v
  refs : ∀ g ∈ A, refsOf t.mem root g + s.pmm.usedCount g =
    refsOf s.mem root g + t.pmm.usedCount g
  mapped : pageView s.mem root virt ≠ none

section Leaf

variable {s t u : Machine} {root : ℕ} {virt : Word} {k : ℕ} {q : Word} {f : ℕ}

lemma OpensLeaf.spaceIn (hopen : OpensLeaf A s t root k virt) (hsp : SpaceIn A s root) :
    SpaceIn A t root :=
  hopen.toGrown.spaceIn hsp fun g hg => (hopen.refs g hg).le

lemma OpensLeaf.of_extends (hext : Extends A s u root) (hopen : OpensLeaf A u t root k virt) :
    OpensLeaf A s t root k virt := by
  refine ⟨hext.toGrown.trans hopen.toGrown, fun v => ?_, fun g hg => ?_, ?_⟩
  · rw [hopen.view, hext.view]
  · have h₁ := hext.refs g hg
    have h₂ := hopen.refs g hg
    omega
  · rw [← hext.view]
    exact hopen.mapped

lemma entryView_leaf (v : Word) (hpresent : hasFlag w pteP = true)
    (hleaf : k = 0 ∨ hasFlag w ptePs = true) :
    entryView m v k w = some (leafMapping v k w) := by
  cases k with
  | zero => simp [entryView, entryLookup, hpresent, viewLeaf]
  | succ k =>
    have hlarge := hleaf.resolve_left (by omega)
    simp [entryView, entryLookup, pteFormat_isTable, hpresent, hlarge, viewLeaf]

lemma leafMapping_user (v w : Word) (k : ℕ) :
    leafMapping v k (w ||| pteU) = (leafMapping v k w).opened := by
  have hmask : ∀ mask : Word, pteU &&& mask = 0#64 → (w ||| pteU) &&& mask = w &&& mask := by
    intro mask hmask
    rw [BitVec.and_comm, BitVec.and_or_distrib_left, BitVec.and_comm mask pteU, hmask,
      BitVec.or_zero, BitVec.and_comm]
  have hframe : leafFrame k (w ||| pteU) v = leafFrame k w v := by
    unfold leafFrame
    split <;> rw [hmask _ (by decide)]
  rw [leafMapping, leafMapping, hframe, Mapping.opened, hasFlag_or, hasFlag_or,
    show hasFlag pteU pteW = false by decide, show hasFlag pteU pteU = true by decide,
    Bool.or_false, Bool.or_true]

lemma hasFlag_user_or (w : Word) :
    hasFlag (w ||| pteU) pteP = hasFlag w pteP ∧ hasFlag (w ||| pteU) ptePs = hasFlag w ptePs ∧
      hasFlag (w ||| pteU) pteW = hasFlag w pteW := by
  simp only [hasFlag_or, show hasFlag pteU pteP = false by decide,
    show hasFlag pteU ptePs = false by decide, show hasFlag pteU pteW = false by decide,
    Bool.or_false, and_self]

lemma leaf_tabs (hleaf : k = 0 ∨ hasFlag w ptePs = true) (g : ℕ) :
    entryTabs pteFormat m k w g = 0 := by
  cases k with
  | zero => exact entryTabs_zero _ _ _
  | succ k =>
    have hlarge := hleaf.resolve_left (by omega)
    rw [entryTabs_succ, if_neg (by simp [pteFormat_isTable, hlarge])]

lemma leaf_refs {v : Word} (hpresent : hasFlag w pteP = true)
    (hleaf : k = 0 ∨ hasFlag w ptePs = true) {g : ℕ} (hg : (leafMapping v k w).frame ≠ g) :
    entrySum pteFormat (refWeight g) m k w = 0 := by
  cases k with
  | zero =>
    rw [entryRefs_zero m v, entryView_leaf v hpresent (Or.inl rfl), userRef, if_neg fun h => hg h.2]
  | succ k =>
    have hlarge := hleaf.resolve_left (by omega)
    simp [entrySum, refWeight_succ, edgeWeight, pteFormat_isTable, hlarge]

/-- The leaf of a page on frames the allocator does not manage may get the user bit. -/
theorem opensLeaf_of_slot (hsp : SpaceIn A u root) (hreach : ReachSlot u.mem virt root k q f)
    (hq : hasFlag q pteU = true) (hk : k ≤ 1)
    (hpresent : hasFlag (u.mem f (tableIndex virt k)) pteP = true)
    (hleaf : k = 0 ∨ hasFlag (u.mem f (tableIndex virt k)) ptePs = true)
    (hout : ∀ v page, SameSlot k virt v → pageView u.mem root v = some page →
      page.frame ∉ A) :
    OpensLeaf A u (u.setEntry f (tableIndex virt k) (u.mem f (tableIndex virt k) ||| pteU))
      root k virt := by
  set w := u.mem f (tableIndex virt k) with hw
  obtain ⟨hp, hps, hwr⟩ := hasFlag_user_or w
  have hwrite : SlotWrite pteFormat u.mem
      (u.setEntry f (tableIndex virt k) (w ||| pteU)).mem (tableIndex virt) 3 root k f :=
    slotWrite_setEntry hreach (fun _ _ => rfl) _
  have hslot : (u.setEntry f (tableIndex virt k) (w ||| pteU)).mem f (tableIndex virt k) =
      w ||| pteU := setEntry_same ..
  have hentry : EntryOk A k q w := by
    have hall := hreach.tableAll hsp.ok.entries (tableIndex virt k)
    cases k with
    | zero => exact hall
    | succ k => exact hall.1
  have hview : ∀ v, SameSlot k virt v → pageView u.mem root v = some (leafMapping v k w) := by
    intro v hsame
    rw [hreach.pageView hsame, entryView_leaf v hpresent hleaf]
  have hself : SameSlot k virt virt := fun _ _ _ => rfl
  have hleaf' : k = 0 ∨ hasFlag (w ||| pteU) ptePs = true := by rwa [hps]
  have htabs : ∀ g, tabsOf (u.setEntry f (tableIndex virt k) (w ||| pteU)).mem root g =
      tabsOf u.mem root g := by
    intro g
    have hsum := tabsOf_slot hsp.ok.unshared hreach hwrite g
    rw [hslot, leaf_tabs hleaf, leaf_tabs hleaf'] at hsum
    exact Nat.add_right_cancel hsum
  refine ⟨⟨Pmm.Grows.refl _, rfl, rfl, ?_, fun g hzero => ?_, fun g => ?_⟩, fun v => ?_,
    fun g hg => ?_, ?_⟩
  · apply hsp.ok.slot hreach hwrite
    · rw [hslot]
      have hok : EntryOk A k q (w ||| pteU) := by
        refine ⟨fun _ _ => hq, fun h => by omega, fun hne htable => ?_, fun hne htable => ?_,
          fun h _ _ => ?_, fun h _ _ => ?_, fun h _ _ _ => ?_, fun h => by omega⟩
        · simp [pteFormat_isTable, hleaf'.resolve_left hne] at htable
        · simp [pteFormat_isTable, hleaf'.resolve_left hne] at htable
        · rw [frameOf_or_flags w (by decide)]
          exact hentry.largeAligned h hpresent (hleaf.resolve_left (by omega))
        · rw [hwr]
          exact hentry.largeWritable h hpresent (hleaf.resolve_left (by omega))
        · -- every page of the leaf is on a frame that is not managed
          subst h
          intro j hj
          obtain ⟨v, hv⟩ := exists_virt (update (tableIndex virt) 0 ⟨j, hj⟩)
          have hsame : SameSlot 1 virt v := fun i hi hi3 => by
            rw [hv i hi3, update_of_ne (by omega)]
          have hframe := hout v _ hsame (hview v hsame)
          have haligned := hentry.largeAligned rfl hpresent (hleaf.resolve_left (by omega))
          rw [leafMapping, leafFrame_one w v haligned, hv 0 (by omega), update_self] at hframe
          rwa [frameOf_or_flags w (by decide)]
      cases k with
      | zero => exact hok
      | succ k =>
        refine ⟨hok, fun htable => ?_⟩
        simp [pteFormat_isTable, hleaf'.resolve_left (by omega)] at htable
    · intro g hne
      rw [hslot, leaf_tabs hleaf'] at hne
      exact absurd rfl hne
  · rw [htabs] at hzero
    refine setEntry_frame_ne _ ?_ _ _
    rintro rfl
    exact hreach.tabs_ne_zero hzero
  · rw [htabs]
    rfl
  · rw [pageView_slot hsp.ok hreach hwrite, hslot]
    split
    · rename_i hsame
      rw [entryView_leaf v (hp.trans hpresent) hleaf', leafMapping_user, hview v hsame]
      rfl
    · rfl
  · have hsum := refsOf_slot hsp.ok hreach hwrite g
    have hne : (leafMapping virt k w).frame ≠ g := by
      rintro rfl
      exact hout virt _ hself (hview virt hself) hg
    have hne' : (leafMapping virt k (w ||| pteU)).frame ≠ g := by
      rw [leafMapping_user]
      exact hne
    rw [hslot, leaf_refs hpresent hleaf hne, leaf_refs (hp.trans hpresent) hleaf' hne'] at hsum
    rw [Nat.add_right_cancel hsum, Machine.setEntry_pmm]
  · rw [hview virt hself]
    exact some_ne_none _

lemma setUserStep_cases (hsp : SpaceIn A s (frameOf s.cr3))
    (hhuge : ¬ HugeAt s.mem (frameOf s.cr3) virt)
    (hout : ∀ v page, SameSlot 1 virt v → pageView s.mem (frameOf s.cr3) v = some page →
      page.frame ∉ A) :
    (∃ t, setUserStep s virt = (none, t) ∧ Extends A s t (frameOf s.cr3) ∧
      NoNewHuge s.mem t.mem (frameOf s.cr3)) ∨
    ∃ t next k, setUserStep s virt = (some next, t) ∧ k ≤ 1 ∧
      OpensLeaf A s t (frameOf s.cr3) k virt ∧ NoNewHuge s.mem t.mem (frameOf s.cr3) := by
  set root := frameOf s.cr3 with hroot
  have hreach : ReachSlot s.mem virt root 3 rootWord root := Reach.top
  simp only [setUserStep, ← hroot, tableFrame_eq]
  by_cases hp₃ : hasFlag (s.mem root (tableIndex virt 3)) pteP = true
  swap
  · exact Or.inl ⟨s, by simp [hp₃], Extends.refl hsp, NoNewHuge.refl _ _⟩
  have htop := (hsp.ok.entries (tableIndex virt 3)).1.topTable rfl hp₃
  have htable₃ : pteFormat.isTable (s.mem root (tableIndex virt 3)) = true := by
    simp [pteFormat_isTable, hp₃, htop]
  have hstep₃ := edgeStep_flag hsp hreach htable₃ (by decide) pteU
  have n₃ := noNewHuge_flag hsp hreach htable₃
  simp only [hp₃, Bool.not_true, Bool.false_eq_true, if_false]
  generalize s.setEntry root (tableIndex virt 3) (s.mem root (tableIndex virt 3) ||| pteU) = s₁
    at hstep₃ n₃
  have hsp₁ := hstep₃.ext.spaceIn hsp
  have hreach₂ := hstep₃.next
  set e₃ := s₁.mem root (tableIndex virt 3)
  by_cases hp₂ : hasFlag (s₁.mem (frameOf e₃) (tableIndex virt 2)) pteP = true
  swap
  · exact Or.inl ⟨s₁, by simp [hp₂], hstep₃.ext, n₃⟩
  have hplain : hasFlag (s₁.mem (frameOf e₃) (tableIndex virt 2)) ptePs = false := by
    by_contra hlarge
    exact hhuge (n₃ virt (hugeAt_of_reach hreach₂ hp₂ (by simpa using hlarge)))
  have htable₂ : pteFormat.isTable (s₁.mem (frameOf e₃) (tableIndex virt 2)) = true := by
    simp [pteFormat_isTable, hp₂, hplain]
  have hstep₂ := edgeStep_flag hsp₁ hreach₂ htable₂ (hstep₃.userSet (by decide)) pteU
  have n₂ := n₃.trans (noNewHuge_flag hsp₁ hreach₂ htable₂)
  have hsame₂ : hasFlag ((s₁.setEntry (frameOf e₃) (tableIndex virt 2) (s₁.mem (frameOf e₃)
      (tableIndex virt 2) ||| pteU)).mem (frameOf e₃) (tableIndex virt 2)) ptePs = false := by
    rw [Machine.setEntry_mem, setEntry_same, (hasFlag_user_or _).2.1, hplain]
  simp only [hp₂, Bool.not_true, Bool.false_eq_true, if_false]
  generalize s₁.setEntry (frameOf e₃) (tableIndex virt 2)
    (s₁.mem (frameOf e₃) (tableIndex virt 2) ||| pteU) = s₂ at hstep₂ n₂ hsame₂
  simp only [hsame₂, Bool.false_eq_true, if_false]
  have hext₂ := hstep₃.ext.trans hstep₂.ext
  have hsp₂ := hext₂.spaceIn hsp
  have hreach₁ := hstep₂.next
  set e₂ := s₂.mem (frameOf e₃) (tableIndex virt 2)
  by_cases hp₁ : hasFlag (s₂.mem (frameOf e₂) (tableIndex virt 1)) pteP = true
  swap
  · exact Or.inl ⟨s₂, by simp [hp₁], hext₂, n₂⟩
  simp only [hp₁, Bool.not_true, Bool.false_eq_true, if_false]
  by_cases hlarge : hasFlag (s₂.mem (frameOf e₂) (tableIndex virt 1)) ptePs = true
  · right
    refine ⟨_, _, 1, by rw [if_pos hlarge], le_rfl, OpensLeaf.of_extends hext₂ ?_, ?_⟩
    · refine opensLeaf_of_slot hsp₂ hreach₁ (hstep₂.userSet (by decide)) le_rfl hp₁
        (Or.inr hlarge) fun v page hsame hpage => hout v page hsame ?_
      rwa [hext₂.view] at hpage
    · exact n₂.trans (noNewHuge_low hsp₂.ok hreach₁
        (slotWrite_setEntry hreach₁ (fun _ _ => rfl) _) (Or.inl le_rfl))
  have htable₁ : pteFormat.isTable (s₂.mem (frameOf e₂) (tableIndex virt 1)) = true := by
    simp [pteFormat_isTable, hp₁, hlarge]
  have hstep₁ := edgeStep_flag hsp₂ hreach₁ htable₁ (hstep₂.userSet (by decide)) pteU
  have n₁ := n₂.trans (noNewHuge_flag hsp₂ hreach₁ htable₁)
  simp only [hlarge, Bool.false_eq_true, if_false]
  generalize s₂.setEntry (frameOf e₂) (tableIndex virt 1)
    (s₂.mem (frameOf e₂) (tableIndex virt 1) ||| pteU) = s₃ at hstep₁ n₁
  have hext₁ := hext₂.trans hstep₁.ext
  have hsp₃ := hext₁.spaceIn hsp
  have hreach₀ := hstep₁.next
  set e₁ := s₃.mem (frameOf e₂) (tableIndex virt 1)
  by_cases hp₀ : hasFlag (s₃.mem (frameOf e₁) (tableIndex virt 0)) pteP = true
  swap
  · exact Or.inl ⟨s₃, by simp [hp₀], hext₁, n₁⟩
  simp only [hp₀, Bool.not_true, Bool.false_eq_true, if_false]
  refine Or.inr ⟨_, _, 0, rfl, Nat.zero_le 1, OpensLeaf.of_extends hext₁ ?_, ?_⟩
  · refine opensLeaf_of_slot hsp₃ hreach₀ (hstep₁.userSet (by decide)) (Nat.zero_le 1) hp₀
      (Or.inl rfl) fun v page hsame hpage => hout v page (fun k hk hk3 => hsame k ?_ hk3) ?_
    · omega
    · rwa [hext₁.view] at hpage
  · exact n₁.trans (noNewHuge_low hsp₃.ok hreach₀
      (slotWrite_setEntry hreach₀ (fun _ _ => rfl) _) (Or.inl (Nat.zero_le 1)))

lemma pagingSetUserRange_cases (hsp : SpaceIn A s (frameOf s.cr3)) (hcr3 : s.cr3 ≠ 0#64)
    (hvirt : virt &&& 0xFFF#64 = 0#64) (hlow : virt.toNat < 2 ^ 48)
    (hhuge : ¬ HugeAt s.mem (frameOf s.cr3) virt)
    (hout : ∀ v page, SameSlot 1 virt v → pageView s.mem (frameOf s.cr3) v = some page →
      page.frame ∉ A) :
    (∃ t, pagingSetUserRange s virt 4096#64 = (false, t) ∧ Extends A s t (frameOf s.cr3) ∧
      NoNewHuge s.mem t.mem (frameOf s.cr3)) ∨
    ∃ t k, pagingSetUserRange s virt 4096#64 = (true, t) ∧ k ≤ 1 ∧
      OpensLeaf A s t (frameOf s.cr3) k virt ∧ NoNewHuge s.mem t.mem (frameOf s.cr3) := by
  have hva := (aligned_iff virt).mp hvirt
  have hstart : pageDown virt = virt := by
    apply BitVec.eq_of_toNat_eq
    rw [pageDown_toNat]
    omega
  have hnext : (virt + 4096#64).toNat = virt.toNat + 4096 := by
    rw [BitVec.toNat_add, show (4096#64 : Word).toNat = 4096 from rfl]
    omega
  have hstop : pageUp (virt + 4096#64) = virt + 4096#64 := by
    apply BitVec.eq_of_toNat_eq
    rw [pageUp_toNat, hnext]
    omega
  have hround : (virt + 4096#64 - virt).toNat / 4096 = 1 := by
    rw [BitVec.toNat_sub, hnext]
    omega
  have hlt : virt < virt + 4096#64 := by
    rw [BitVec.lt_def, hnext]
    omega
  have hrange : pagingSetUserRange s virt 4096#64 = setUserLoop (virt + 4096#64) 1 virt s := by
    rw [pagingSetUserRange, if_neg (by simp [hcr3])]
    simp only [hstart, hstop, hround]
  rw [hrange, setUserLoop, if_pos hlt]
  rcases setUserStep_cases hsp hhuge hout with
    ⟨t, hstep, hext, hnew⟩ | ⟨t, next, k, hstep, hk, hopen, hnew⟩
  · exact Or.inl ⟨t, by rw [hstep], hext, hnew⟩
  · exact Or.inr ⟨t, k, by rw [hstep]; rfl, hk, hopen, hnew⟩

end Leaf

end HelixOS
