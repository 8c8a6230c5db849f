import HelixOS.SyscallEffects

/-!
# The page-table operations as updates of a map

`paging_map_4k` first makes the three upper entries on the path lead to tables.  A user bit
that it adds to an edge opens no page: below an edge without the bit there is no user leaf.
-/

namespace HelixOS

open RadixMemory Option

variable {w v : Word} {page : Mapping}

/-! ## Translations as walks -/

def Mapping.below (w : Word) (page : Mapping) : Mapping :=
  { page with
    writable := page.writable && hasFlag w pteW
    user := page.user && hasFlag w pteU }

def Mapping.under (ws : List Word) (page : Mapping) : Mapping :=
  { page with
    writable := page.writable && ws.all (hasFlag · pteW)
    user := page.user && ws.all (hasFlag · pteU) }

def tableTranslate (m : Mem) (root : ℕ) (virt : Word) : Option Mapping :=
  entryTranslate m virt 3 (m root (tableIndex virt 3))

lemma entryTranslate_eq_walk (m : Mem) (virt : Word) (l : ℕ) (w) :
    entryTranslate m virt l w =
      entryWalk pteFormat Mapping.below (leafMapping virt) m (tableIndex virt) l w := by
  induction l generalizing w with
  | zero => rfl
  | succ l ih =>
    cases hpresent : hasFlag w pteP
    · simp [entryTranslate, entryWalk, pteFormat_isTable, hpresent]
    · cases hlarge : hasFlag w ptePs
      · simp only [entryTranslate, entryWalk, pteFormat_isTable, hpresent, hlarge, Bool.not_true,
          Bool.false_eq_true, if_false, Bool.not_false, Bool.and_true, if_true, ih]
        rfl
      · simp [entryTranslate, entryWalk, pteFormat_isTable, hpresent, hlarge]

lemma entryTranslate_congr {m m' : Mem} (virt : Word) {l : ℕ}
    (hagree : ∀ g, entryTabs pteFormat m l w g ≠ 0 → m' g = m g) :
    entryTranslate m' virt l w = entryTranslate m virt l w := by
  rw [entryTranslate_eq_walk, entryTranslate_eq_walk]
  exact entryWalk_congr _ _ _ hagree

lemma entryTranslate_table (htable : pteFormat.isTable w = true) (m : Mem) (virt : Word) (l : ℕ) :
    entryTranslate m virt (l + 1) w =
      (entryTranslate m virt l (m (frameOf w) (tableIndex virt l))).map (Mapping.below w) := by
  rw [entryTranslate_eq_walk, entryWalk, if_pos htable, pteFormat_target, entryTranslate_eq_walk]

lemma entryTranslate_absent (hw : hasFlag w pteP = false) (m : Mem)
    (virt : Word) (l : ℕ) : entryTranslate m virt l w = none := by
  cases l <;> simp [entryTranslate, hw]

lemma foldl_below (ws : List Word) (page) :
    ws.foldl (fun page w => Mapping.below w page) page = page.under ws := by
  induction ws generalizing page with
  | nil => simp [Mapping.under]
  | cons w ws ih =>
    rw [List.foldl_cons, ih]
    simp [Mapping.under, Mapping.below, Bool.and_assoc]

section Slots

variable {m m' : Mem} {root l f : ℕ} {virt : Word} {ws : List Word}

abbrev DescendsTo (m : Mem) (virt : Word) (root l f : ℕ) (ws : List Word) : Prop :=
  Descends pteFormat m (tableIndex virt) 3 root l f ws

lemma DescendsTo.translate (hdesc : DescendsTo m virt root l f ws) (hsame : SameSlot l virt v) :
    tableTranslate m root v =
      (entryTranslate m v l (m f (tableIndex virt l))).map (Mapping.under ws) := by
  have hwalk : tableWalk pteFormat Mapping.below (leafMapping v) m (tableIndex v) 3 root = _ :=
    hdesc.walk Mapping.below (leafMapping v) fun k hk hk3 => hsame k (by omega) hk3
  obtain ⟨q, hreach⟩ := hdesc.reach rootWord
  simp only [tableWalk, foldl_below] at hwalk
  rw [tableTranslate, entryTranslate_eq_walk, hwalk, hsame l le_rfl hreach.level_le,
    entryTranslate_eq_walk]

lemma translate_slot (hdesc : DescendsTo m virt root l f ws) (hun : Unshared pteFormat m 3 root)
    (hwrite : SlotWrite pteFormat m m' (tableIndex virt) 3 root l f) (v) :
    tableTranslate m' root v =
      if SameSlot l virt v then
        (entryTranslate m' v l (m' f (tableIndex virt l))).map (Mapping.under ws)
      else tableTranslate m root v := by
  split
  · rename_i hsame
    exact DescendsTo.translate (hwrite.descends hdesc hun) hsame
  · rename_i hleave
    unfold SameSlot at hleave
    push Not at hleave
    have hwalk := hwrite.walk_of_ne Mapping.below (leafMapping v) hdesc hun hleave
    rw [tableTranslate, tableTranslate, entryTranslate_eq_walk, entryTranslate_eq_walk]
    exact hwalk

end Slots

/-! ## Well-formed trees -/

/-- No large pages in the PML4, edges without bits above the address, and 2 MiB leaves with an
aligned address. -/
structure EntryFormed (l : ℕ) (w : Word) : Prop where
  topTable : l = 3 → hasFlag w pteP = true → hasFlag w ptePs = false
  tableFits : l ≠ 0 → pteFormat.isTable w = true → frameOf w < 2 ^ 40
  largeAligned : l = 1 → hasFlag w pteP = true → hasFlag w ptePs = true → frameOf w % 512 = 0

/-- Each table is referenced once, and every user leaf has the user bit on all levels above. -/
structure TreeOk (m : Mem) (root : ℕ) : Prop where
  unshared : Unshared pteFormat m 3 root
  formed : tableAll pteFormat (fun l _ w => EntryFormed l w) m 3 rootWord root
  userUp : ∀ v page, pageView m root v = some page → page.user = true →
    ∃ page', tableTranslate m root v = some page' ∧ page'.user = true

lemma EntryFormed.of_absent {l : ℕ} (hw : hasFlag w pteP = false) :
    EntryFormed l w := by
  constructor <;> intros <;> simp_all [pteFormat_isTable]

lemma entryView_of_translate {m : Mem} {l : ℕ}
    (hpage : entryTranslate m v l w = some page) (huser : page.user = true) :
    ∃ leaf, entryView m v l w = some leaf ∧ leaf.user = true := by
  induction l generalizing w page with
  | zero =>
    rw [entryTranslate] at hpage
    split at hpage
    · rename_i hpresent
      obtain rfl := some.inj hpage
      exact ⟨_, by simp [entryView, entryLookup, hpresent, viewLeaf], huser⟩
    · cases hpage
  | succ l ih =>
    rw [entryTranslate] at hpage
    cases hpresent : hasFlag w pteP
    · simp [hpresent] at hpage
    · cases hlarge : hasFlag w ptePs
      · have htable : pteFormat.isTable w = true := by
          simp [pteFormat_isTable, hpresent, hlarge]
        simp only [hpresent, hlarge, Bool.not_true, Bool.false_eq_true, if_false,
          map_eq_some_iff] at hpage
        obtain ⟨sub, hsub, rfl⟩ := hpage
        simp only [Bool.and_eq_true] at huser
        rw [entryView_table htable, ← tableFrame_eq]
        exact ih hsub huser.1
      · simp only [hpresent, hlarge, Bool.not_true, Bool.false_eq_true, if_false, if_true] at hpage
        obtain rfl := some.inj hpage
        exact ⟨_, by simp [entryView, entryLookup, pteFormat_isTable, hpresent, hlarge,
          viewLeaf], huser⟩

lemma TreeOk.edge_user {m : Mem} {root : ℕ} (hok : TreeOk m root) {virt : Word} {l f : ℕ}
    {ws : List Word} (hdesc : DescendsTo m virt root (l + 1) f ws)
    (htable : pteFormat.isTable (m f (tableIndex virt (l + 1))) = true)
    (hsame : SameSlot (l + 1) virt v)
    (hpage : entryTranslate m v l
      (m (frameOf (m f (tableIndex virt (l + 1)))) (tableIndex v l)) = some page)
    (huser : page.user = true) : hasFlag (m f (tableIndex virt (l + 1))) pteU = true := by
  obtain ⟨q, hreach⟩ := hdesc.reach rootWord
  obtain ⟨leaf, hleaf, hu⟩ := entryView_of_translate hpage huser
  have hview : pageView m root v = some leaf := by
    rw [ReachSlot.pageView hreach hsame, entryView_table htable, hleaf]
  obtain ⟨page', hpage', hu'⟩ := hok.userUp v leaf hview hu
  rw [hdesc.translate hsame, entryTranslate_table htable, hpage, map_some, map_some] at hpage'
  obtain rfl := some.inj hpage'
  simp only [Mapping.under, Mapping.below, Bool.and_eq_true] at hu'
  exact hu'.1.2

section Rewriting

variable {m m' : Mem} {root l f : ℕ} {virt : Word} {ws : List Word} (hok : TreeOk m root)
  (hdesc : DescendsTo m virt root l f ws)
  (hwrite : SlotWrite pteFormat m m' (tableIndex virt) 3 root l f)
  (hformed : ∀ q, entryAll pteFormat (fun l _ w => EntryFormed l w) m' l q
    (m' f (tableIndex virt l)))
  (htabs : ∀ g, entryTabs pteFormat m' l (m' f (tableIndex virt l)) g ≠ 0 →
    tabsOf m root g + entryTabs pteFormat m' l (m' f (tableIndex virt l)) g ≤
      1 + entryTabs pteFormat m l (m f (tableIndex virt l)) g)
include hok hdesc hwrite hformed htabs

lemma TreeOk.slot
    (huser : ∀ v leaf, SameSlot l virt v →
      entryView m' v l (m' f (tableIndex virt l)) = some leaf → leaf.user = true →
      ∃ page, tableTranslate m' root v = some page ∧ page.user = true) :
    TreeOk m' root := by
  obtain ⟨q, hreach⟩ := hdesc.reach rootWord
  refine ⟨hwrite.unshared hreach hok.unshared htabs,
    hwrite.tableAll hreach hok.unshared hok.formed (hformed q), fun v leaf hleaf hu => ?_⟩
  by_cases hsame : SameSlot l virt v
  · apply huser v leaf hsame _ hu
    rwa [← ReachSlot.pageView (hwrite.reach hreach hok.unshared) hsame]
  · rw [translate_slot hdesc hok.unshared hwrite, if_neg hsame]
    apply hok.userUp v leaf _ hu
    rw [← hleaf]
    unfold pageView
    rw [hwrite.lookup_of_ne hreach hok.unshared]
    unfold SameSlot at hsame
    push Not at hsame
    exact hsame

lemma TreeOk.slot_same
    (hview : ∀ v, SameSlot l virt v → entryView m' v l (m' f (tableIndex virt l)) =
      entryView m v l (m f (tableIndex virt l)))
    (htranslate : ∀ v, SameSlot l virt v → entryTranslate m' v l (m' f (tableIndex virt l)) =
      entryTranslate m v l (m f (tableIndex virt l))) :
    TreeOk m' root ∧ ∀ v, tableTranslate m' root v = tableTranslate m root v := by
  have hkept : ∀ v, tableTranslate m' root v = tableTranslate m root v := by
    intro v
    rw [translate_slot hdesc hok.unshared hwrite]
    split
    · rename_i hsame
      rw [htranslate v hsame, hdesc.translate hsame]
    · rfl
  refine ⟨hok.slot hdesc hwrite hformed htabs fun v leaf hsame hleaf hu => ?_, hkept⟩
  obtain ⟨q, hreach⟩ := hdesc.reach rootWord
  rw [hkept]
  apply hok.userUp v leaf _ hu
  rw [ReachSlot.pageView hreach hsame, ← hview v hsame, hleaf]

end Rewriting

/-! ## Updates -/

open Function

variable {flags : Word} {P : Word → Prop} {writable : Bool} {m : Mem} {pdpt pd : ℕ}

/-- A sound tree, none of whose tables is free. -/
structure TreeIn (s : Machine) (root : ℕ) : Prop where
  tree : TreeOk s.mem root
  sound : s.pmm.Sound
  held : ∀ g, tabsOf s.mem root g ≠ 0 → ¬ s.pmm.IsFree g

/-! ## One edge on the path -/

section Edges

variable {s t : Machine} {root l f : ℕ} {virt user : Word} {ws : List Word}

structure EdgeMade (s t : Machine) (virt : Word) (root l f : ℕ) (ws : List Word) (user : Word) :
    Prop where
  cr3_eq : t.cr3 = s.cr3
  tree : TreeIn t root
  kept : ∀ v, tableTranslate t.mem root v = tableTranslate s.mem root v
  desc : DescendsTo t.mem virt root l (frameOf (t.mem f (tableIndex virt (l + 1))))
    (t.mem f (tableIndex virt (l + 1)) :: ws)
  opened : user ≠ 0#64 → hasFlag (t.mem f (tableIndex virt (l + 1))) pteU = true

lemma edgeMade_refl (hs : TreeIn s root) (hdesc : DescendsTo s.mem virt root (l + 1) f ws)
    (htable : pteFormat.isTable (s.mem f (tableIndex virt (l + 1))) = true)
    (huser : user = 0#64) : EdgeMade s s virt root l f ws user := by
  have hdown := hdesc.down htable
  rw [pteFormat_target] at hdown
  exact ⟨rfl, hs, fun _ => rfl, hdown, fun hne => absurd huser hne⟩

lemma edgeMade_of_slot {m' : Mem} (hs : TreeIn s root)
    (hdesc : DescendsTo s.mem virt root (l + 1) f ws)
    (hwrite : SlotWrite pteFormat s.mem m' (tableIndex virt) 3 root (l + 1) f)
    (hmem : t.mem = m') (hcr3 : t.cr3 = s.cr3) (hsound : t.pmm.Sound)
    (hmade : TreeOk m' root ∧ ∀ v, tableTranslate m' root v = tableTranslate s.mem root v)
    (hslot : m' f (tableIndex virt (l + 1)) = w) (htable : pteFormat.isTable w = true)
    (hheld : ∀ g, tabsOf m' root g ≠ 0 → ¬ t.pmm.IsFree g)
    (huser : user ≠ 0#64 → hasFlag w pteU = true) : EdgeMade s t virt root l f ws user := by
  subst hslot hmem
  have hdown := (hwrite.descends hdesc hs.tree.unshared).down htable
  rw [pteFormat_target] at hdown
  exact ⟨hcr3, ⟨hmade.1, hsound, hheld⟩, hmade.2, hdown, huser⟩

lemma formed_absent (m : Mem) (l : ℕ) {p w : Word} (hw : hasFlag w pteP = false) :
    entryAll pteFormat (fun l _ w => EntryFormed l w) m l p w := by
  cases l with
  | zero => exact EntryFormed.of_absent hw
  | succ l => exact ⟨EntryFormed.of_absent hw, fun h => by simp [pteFormat_isTable, hw] at h⟩

lemma edgeMade_flag (hs : TreeIn s root) (hdesc : DescendsTo s.mem virt root (l + 1) f ws)
    (htable : pteFormat.isTable (s.mem f (tableIndex virt (l + 1))) = true) :
    EdgeMade s (s.setEntry f (tableIndex virt (l + 1))
      (s.mem f (tableIndex virt (l + 1)) ||| pteU)) virt root l f ws user := by
  obtain ⟨q, hreach⟩ := hdesc.reach rootWord
  have hsame := sameEdge_user hreach hs.tree.unshared htable
  have hwrite := slotWrite_setEntry hreach (fun _ _ => rfl)
    (s.mem f (tableIndex virt (l + 1)) ||| pteU)
  have hold := hreach.tableAll hs.tree.formed (tableIndex virt (l + 1))
  have hslot := setEntry_same s.mem f (tableIndex virt (l + 1))
    (s.mem f (tableIndex virt (l + 1)) ||| pteU)
  set w := s.mem f (tableIndex virt (l + 1)) with hw
  have hframe : frameOf (w ||| pteU) = frameOf w := frameOf_or_flags w (by decide)
  have hps := hasFlag_or_user_of_ne w (show hasFlag pteU ptePs = false by decide)
  obtain ⟨hpresent, hsmall⟩ : hasFlag w pteP = true ∧ hasFlag w ptePs = false := by
    simpa [pteFormat_isTable] using htable
  have hformed : EntryFormed (l + 1) (w ||| pteU) :=
    ⟨fun htop _ => by rw [hps]; exact hold.1.topTable htop hpresent,
      fun hl _ => by rw [hframe]; exact hold.1.tableFits hl htable,
      fun _ _ hlarge => by simp [hps, hsmall] at hlarge⟩
  refine edgeMade_of_slot hs hdesc hwrite rfl rfl hs.sound (hs.tree.slot_same hdesc hwrite
    (fun q => ?_) (fun g _ => ?_) (fun v _ => ?_) fun v hv => ?_) hslot hsame.table'
    (fun g hg => hs.held g ?_) fun _ => hasFlag_or_user w
  · rw [hslot]
    exact hsame.all hformed (fun _ hx => hx) hold
  · rw [hslot, hsame.tabs]
    exact Nat.add_le_add_right (hs.tree.unshared g) _
  · rw [hslot, entryView, hsame.lookup, entryView]
  · have hself := hsame.self
    have hchild := hsame.child (tableIndex v l)
    simp only [pteFormat_target] at hself hchild
    rw [hslot, entryTranslate_table hsame.table', entryTranslate_table htable, hframe, hself,
      entryTranslate_congr v hchild]
    apply Option.map_congr
    intro page hpage
    simp only [Mapping.below, hasFlag_or_user, hasFlag_or_user_of_ne w
      (show hasFlag pteU pteW = false by decide)]
    cases hu : page.user
    · rfl
    · rw [hs.tree.edge_user hdesc htable hv hpage hu]
  · have hsum := tabsOf_slot hs.tree.unshared hreach hwrite g
    rw [hslot, hsame.tabs, ← hw] at hsum
    omega

lemma NewTable.translate {content : Fin 512 → Word} (hnew : NewTable w user l flags content)
    (hformed : EntryFormed (l + 1) w) {p : ℕ} (hp : p < 2 ^ 40) (m m' : Mem) (v : Word) :
    (entryTranslate m v l (content (tableIndex v l))).map (Mapping.below (frameAddr p ||| flags)) =
      entryTranslate m' v (l + 1) w := by
  obtain ⟨hlow, hps, hpr, hwr⟩ := hnew.edge
  obtain ⟨-, -, hflag⟩ := edge_flags hp hlow hps hpr
  rcases hnew.content_eq with ⟨habsent, rfl⟩ | ⟨rfl, hpresent, hlarge, rfl⟩
  · rw [entryTranslate_absent habsent, entryTranslate_absent (zero_hasFlag _)]
    rfl
  · have hview := @entryView_splitEntry w v hpresent hlarge
      (hformed.largeAligned rfl hpresent hlarge) m m
    simp only [entryView, entryLookup, pteFormat_present, splitEntry_present, hpresent,
      pteFormat_isTable, hlarge, if_true, Bool.not_true, Bool.and_false, Bool.false_eq_true,
      if_false, map_some, viewLeaf, some.injEq] at hview
    simp only [entryTranslate, splitEntry_present, hpresent, hlarge, if_true, Bool.not_true,
      Bool.false_eq_true, if_false, map_some, hview]
    simp only [Mapping.below, hflag pteW (by decide), hflag pteU (by decide), hwr, hnew.user_eq,
      hpresent, Bool.and_true, Bool.true_and, leafMapping, some.injEq, Mapping.mk.injEq, true_and]
    cases hasFlag w pteU <;> simp

lemma NewTable.edgeMade {flags : Word} {p : ℕ} {content : Fin 512 → Word}
    (hnew : NewTable (s.mem f (tableIndex virt (l + 1))) user l flags content) (hs : TreeIn s root)
    (hdesc : DescendsTo s.mem virt root (l + 1) f ws) (huser : user = 0#64 ∨ user = pteU)
    (hfree : s.pmm.IsFree p) :
    EdgeMade s { s with
      pmm := s.pmm.take p
      mem := setEntry (update s.mem p content) f (tableIndex virt (l + 1))
        (frameAddr p ||| flags) } virt root l f ws user := by
  obtain ⟨q, hreach⟩ := hdesc.reach rootWord
  have hold := (hreach.tableAll hs.tree.formed (tableIndex virt (l + 1))).1
  have hbound := (hs.sound.free_bounds hfree).2
  obtain ⟨hflags, hps, hpresent, -⟩ := hnew.edge
  obtain ⟨hframe, htable, hflag⟩ := edge_flags hbound hflags hps hpresent
  have hnot : tabsOf s.mem root p = 0 := by
    by_contra hne
    exact hs.held p hne hfree
  obtain ⟨hwrite, hcontent⟩ := slotWrite_hang hreach hnot content (frameAddr p ||| flags)
  have hslot := setEntry_same (update s.mem p content) f (tableIndex virt (l + 1))
    (frameAddr p ||| flags)
  set m' := setEntry (update s.mem p content) f (tableIndex virt (l + 1))
    (frameAddr p ||| flags)
  have hone := entryTabs_hang htable hframe (m := m') (l := l) (by rw [hcontent]; exact hnew.tabs _)
  have hzero : ∀ g, entryTabs pteFormat s.mem (l + 1)
      (s.mem f (tableIndex virt (l + 1))) g = 0 := by
    intro g
    rw [entryTabs_succ, hnew.leaf]
    rfl
  refine edgeMade_of_slot hs hdesc hwrite rfl rfl (hs.sound.take p) (hs.tree.slot_same hdesc
    hwrite (fun q => ?_) (fun g hg => ?_) (fun v _ => ?_) fun v _ => ?_) hslot htable
    (fun g hg hgfree => ?_) fun hne => by
      rw [hflag pteU (by decide)]
      exact hnew.userSet huser hne
  · rw [hslot]
    have hlarge : hasFlag (frameAddr p ||| flags) ptePs = false := by
      rw [hflag ptePs (by decide), hps]
    refine ⟨⟨fun _ _ => hlarge, fun _ _ => by rw [hframe]; exact hbound,
      fun _ _ h => by simp [hlarge] at h⟩, fun _ j => ?_⟩
    rw [pteFormat_target, hframe, hcontent]
    rcases hnew.content_eq with ⟨-, rfl⟩ | ⟨rfl, -, -, rfl⟩
    · exact formed_absent _ l (zero_hasFlag _)
    · exact ⟨fun h => by omega, fun h => absurd rfl h, fun h => by omega⟩
  · rw [hslot, hone] at hg ⊢
    obtain rfl : p = g := by
      by_contra hne
      exact hg (if_neg hne)
    rw [hzero, if_pos rfl, hnot]
  · rw [hslot, entryView_table htable, hframe, hcontent]
    exact hnew.view (fun hl => hold.largeAligned (by rw [hl])) _ _ v
  · rw [hslot, entryTranslate_table htable, hframe, hcontent]
    exact hnew.translate hold hbound _ _ v
  · have hsum := tabsOf_slot hs.tree.unshared hreach hwrite g
    rw [hslot, hone, hzero] at hsum
    by_cases hp : g = p
    · subst hp
      simp [Pmm.IsFree, Pmm.take] at hgfree
    · rw [if_neg (Ne.symm hp)] at hsum
      refine hs.held g (by omega) ⟨hgfree.1, ?_⟩
      have := hgfree.2
      simpa [Pmm.take, update, hp] using this

lemma UpperStep.edgeMade (hs : TreeIn s root) (hdesc : DescendsTo s.mem virt root (l + 1) f ws)
    (hstep : UpperStep s f (tableIndex virt (l + 1)) user l (true, t)) :
    EdgeMade s t virt root l f ws user := by
  cases hstep with
  | keep htable huser => exact edgeMade_refl hs hdesc htable huser
  | flag htable huser => exact edgeMade_flag hs hdesc htable
  | hang hfree huser hnew => exact hnew.edgeMade hs hdesc huser hfree

structure UpdateStage (s : Machine) (virt user : Word) (root l f : ℕ) (t : Machine) : Prop where
  cr3_eq : t.cr3 = s.cr3
  tree : TreeIn t root
  kept : ∀ v, tableTranslate t.mem root v = tableTranslate s.mem root v
  desc : ∃ ws, DescendsTo t.mem virt root l f ws ∧
    (user ≠ 0#64 → ws.all (hasFlag · pteU) = true)

lemma UpdateStage.step {u : Machine} (hstage : UpdateStage s virt user root (l + 1) f t)
    (hstep : UpperStep t f (tableIndex virt (l + 1)) user l (true, u)) :
    UpdateStage s virt user root l (frameOf (u.mem f (tableIndex virt (l + 1)))) u := by
  obtain ⟨hcr3, htree, hkept, ws, hdesc, hws⟩ := hstage
  have hmade := hstep.edgeMade htree hdesc
  refine ⟨hmade.cr3_eq.trans hcr3, hmade.tree, fun v => (hmade.kept v).trans (hkept v), _,
    hmade.desc, fun hne => ?_⟩
  rw [List.all_cons, hmade.opened hne, hws hne]
  rfl

end Edges

/-! ## The leaf -/

section Leaves

variable {s t : Machine} {root pt : ℕ} {virt : Word} {ws : List Word}

lemma TreeOk.leaf (hok : TreeOk m root) (hdesc : DescendsTo m virt root 0 pt ws)
    (w) (huser : hasFlag w pteP = true → hasFlag w pteU = true →
      ws.all (hasFlag · pteU) = true) :
    TreeOk (setEntry m pt (tableIndex virt 0) w) root ∧
      ∀ v, tableTranslate (setEntry m pt (tableIndex virt 0) w) root v =
        if SameSlot 0 virt v then
          if hasFlag w pteP then some ((leafMapping v 0 w).under ws) else none
        else tableTranslate m root v := by
  obtain ⟨q, hreach⟩ := hdesc.reach rootWord
  set m' := setEntry m pt (tableIndex virt 0) w with hm'
  have hslot : m' pt (tableIndex virt 0) = w := setEntry_same _ _ _ _
  have hwrite : SlotWrite pteFormat m m' (tableIndex virt) 3 root 0 pt :=
    slotWrite_setEntry hreach (fun _ _ => rfl) w
  have hview : ∀ v, tableTranslate m' root v =
      if SameSlot 0 virt v then
        if hasFlag w pteP then some ((leafMapping v 0 w).under ws) else none
      else tableTranslate m root v := by
    intro v
    rw [translate_slot hdesc hok.unshared hwrite, hslot, entryTranslate]
    split
    · split <;> rfl
    · rfl
  refine ⟨?_, hview⟩
  refine hok.slot hdesc hwrite (fun q => ?_) (fun g hg => absurd (entryTabs_zero _ _ _) hg)
    fun v leaf hsame hleaf hu => ?_
  · exact ⟨fun h => by omega, fun h => absurd rfl h, fun h => by omega⟩
  · rw [hslot] at hleaf
    rw [hview v, if_pos hsame]
    by_cases hpresent : hasFlag w pteP = true
    · simp only [entryView, entryLookup, pteFormat_present, hpresent, if_true,
        map_some, some.injEq] at hleaf
      subst hleaf
      refine ⟨_, if_pos hpresent, ?_⟩
      simp only [viewLeaf, leafMapping] at hu
      simp only [Mapping.under, leafMapping, hu, huser hpresent hu, Bool.and_self]
    · rw [entryView_absent (by simpa using hpresent)] at hleaf
      cases hleaf

lemma tabsOf_leaf (hok : TreeOk m root) (hdesc : DescendsTo m virt root 0 pt ws)
    (w) (g : ℕ) : tabsOf (setEntry m pt (tableIndex virt 0) w) root g = tabsOf m root g := by
  obtain ⟨q, hreach⟩ := hdesc.reach rootWord
  have hsum := tabsOf_slot hok.unshared hreach (slotWrite_setEntry hreach (fun _ _ => rfl) w) g
  exact Nat.add_right_cancel hsum

lemma TreeIn.leaf (hs : TreeIn s root) (hdesc : DescendsTo s.mem virt root 0 pt ws) (w)
    (huser : hasFlag w pteP = true → hasFlag w pteU = true →
      ws.all (hasFlag · pteU) = true) :
    TreeIn (s.setEntry pt (tableIndex virt 0) w) root ∧
      ∀ v, tableTranslate (s.setEntry pt (tableIndex virt 0) w).mem root v =
        if SameSlot 0 virt v then
          if hasFlag w pteP then some ((leafMapping v 0 w).under ws) else none
        else tableTranslate s.mem root v := by
  obtain ⟨htree, hview⟩ := hs.tree.leaf hdesc w huser
  refine ⟨⟨htree, hs.sound, fun g hg => hs.held g ?_⟩, hview⟩
  rwa [Machine.setEntry_mem, tabsOf_leaf hs.tree hdesc] at hg

structure Updates (s t : Machine) (P : Word → Prop) : Prop where
  cr3_eq : t.cr3 = s.cr3
  tree : TreeOk t.mem (frameOf s.cr3)
  kept : ∀ v, ¬ P v →
    tableTranslate t.mem (frameOf s.cr3) v = tableTranslate s.mem (frameOf s.cr3) v

lemma updates_refl (hs : TreeOk s.mem (frameOf s.cr3)) (P) : Updates s s P :=
  ⟨rfl, hs, fun _ _ => rfl⟩

/-- The addresses are on one page. -/
def SamePage (virt v : Word) : Prop := pageNum v = pageNum virt

lemma pagingMap4k_updates (hs : TreeIn s (frameOf s.cr3)) (virt phys flags : Word) :
    Updates s (pagingMap4k s virt phys flags).2 (SamePage virt) ∧
      TreeIn (pagingMap4k s virt phys flags).2 (frameOf s.cr3) ∧
      ((pagingMap4k s virt phys flags).1 = true → ∀ v, SamePage virt v →
        ∃ page, tableTranslate (pagingMap4k s virt phys flags).2.mem (frameOf s.cr3) v =
          some page ∧ page.frame = frameOf phys % 2 ^ 40) := by
  have hrefl : UpdateStage s virt (if hasFlag flags pteU then pteU else 0#64) (frameOf s.cr3) 3
      (frameOf s.cr3) s :=
    ⟨rfl, hs, fun _ => rfl, [], Descends.top, fun _ => rfl⟩
  refine pagingMap4k_induct (R := fun r => Updates s r.2 (SamePage virt) ∧
      TreeIn r.2 (frameOf s.cr3) ∧ (r.1 = true → ∀ v, SamePage virt v →
        ∃ page, tableTranslate r.2.mem (frameOf s.cr3) v = some page ∧
          page.frame = frameOf phys % 2 ^ 40))
    rfl (fun _ => ⟨updates_refl hs.tree _, hs, fun h => by cases h⟩) hrefl
    (fun hstage => hstage.tree.sound) (fun hstage hpresent => ?_)
    (fun hstage hstep => hstage.step hstep)
    (fun hstage _ => ⟨⟨hstage.cr3_eq, hstage.tree.tree, fun v _ => hstage.kept v⟩, hstage.tree,
      fun h => by cases h⟩) fun hstage => ?_
  · obtain ⟨ws, hdesc, -⟩ := hstage.desc
    obtain ⟨q, hreach⟩ := hdesc.reach rootWord
    exact (hreach.tableAll hstage.tree.tree.formed (tableIndex virt 3)).1.topTable rfl hpresent
  obtain ⟨hcr3, htree, hkept, ws, hdesc, hws⟩ := hstage
  obtain ⟨htree', hview⟩ := htree.leaf hdesc (leafEntry phys flags) fun _ hU => by
    rw [leafEntry_user] at hU
    refine hws ?_
    rw [if_pos hU]
    decide
  refine ⟨⟨hcr3, htree'.tree, fun v hv => ?_⟩, htree', fun _ v hv => ?_⟩
  · rw [hview, if_neg fun hsame => hv ((sameSlot_zero_iff virt v).mp hsame), hkept]
  · rw [hview, if_pos ((sameSlot_zero_iff virt v).mpr hv), if_pos (leafEntry_present _ _)]
    refine ⟨_, rfl, ?_⟩
    change leafFrame 0 (leafEntry phys flags) v = _
    rw [leafFrame_zero, leafEntry_frame]

/-! ## Removing a page -/

lemma TreeOk.drop {l f : ℕ} (hok : TreeOk m root) (hdesc : DescendsTo m virt root (l + 1) f ws)
    (htable : pteFormat.isTable (m f (tableIndex virt (l + 1))) = true)
    (hempty : tableCountPresent m (frameOf (m f (tableIndex virt (l + 1)))) = 0) :
    TreeOk (setEntry m f (tableIndex virt (l + 1)) 0#64) root ∧
      ∀ v, tableTranslate (setEntry m f (tableIndex virt (l + 1)) 0#64) root v =
        tableTranslate m root v := by
  obtain ⟨q, hreach⟩ := hdesc.reach rootWord
  rw [tableCountPresent_eq_zero] at hempty
  set m' := setEntry m f (tableIndex virt (l + 1)) 0#64
  have hslot : m' f (tableIndex virt (l + 1)) = 0#64 := setEntry_same _ _ _ _
  have hzero : hasFlag 0#64 pteP = false := zero_hasFlag _
  refine hok.slot_same hdesc (slotWrite_setEntry hreach (fun _ _ => rfl) 0#64) (fun q => ?_)
    (fun g hg => ?_) (fun v _ => ?_) fun v _ => ?_
  · rw [hslot]
    exact formed_absent _ _ hzero
  · rw [hslot, entryTabs_absent hzero] at hg
    exact absurd rfl hg
  · rw [hslot, entryView_absent hzero, entryView_table htable, entryView_absent (hempty _)]
  · rw [hslot, entryTranslate_absent hzero, entryTranslate_table htable,
      entryTranslate_absent (hempty _)]
    rfl

lemma isFree_of_pmmFreePage {p : Pmm} {phys : Word} {g : ℕ} (h : (pmmFreePage p phys).IsFree g) :
    p.IsFree g ∨ g = frameOf phys := by
  unfold pmmFreePage at h
  dsimp only at h
  split_ifs at h
  · exact .inl h
  · exact .inl h
  · by_cases hg : g = frameOf phys
    · exact .inr hg
    · exact .inl ⟨h.1, (update_of_ne hg ..).symm.trans h.2⟩

lemma isFree_of_pmmPageDeref {p : Pmm} {phys : Word} {g : ℕ} (h : (pmmPageDeref p phys).IsFree g) :
    p.IsFree g ∨ g = frameOf phys := by
  unfold pmmPageDeref at h
  dsimp only at h
  split_ifs at h
  · exact .inl h
  · exact .inl h
  · have hafter := isFree_of_pmmFreePage h
    exact hafter
  · exact .inl h

/-- No table of the tree is free in the allocator. -/
def TablesHeld (s : Machine) (root : ℕ) : Prop := ∀ g, tabsOf s.mem root g ≠ 0 → ¬ s.pmm.IsFree g

lemma TablesHeld.dropTable {l f : ℕ} {q : Word} (h : TablesHeld s root)
    (hun : Unshared pteFormat s.mem 3 root) (hreach : ReachSlot s.mem virt root (l + 1) q f)
    (htable : pteFormat.isTable (s.mem f (tableIndex virt (l + 1))) = true) :
    TablesHeld (s.dropTable f (tableIndex virt (l + 1))
      (frameOf (s.mem f (tableIndex virt (l + 1))))) root := by
  intro g hg hfree
  have hsum := tabsOf_slot hun hreach (slotWrite_setEntry hreach (fun _ _ => rfl) 0#64) g
  rw [setEntry_same, entryTabs_absent (zero_hasFlag _)] at hsum
  have hg' : tabsOf (setEntry s.mem f (tableIndex virt (l + 1)) 0#64) root g ≠ 0 := hg
  rcases isFree_of_pmmFreePage hfree with hfree | rfl
  · exact h g (by omega) hfree
  · have hlt : frameOf (s.mem f (tableIndex virt (l + 1))) < 2 ^ 52 := by
      rw [frameOf_eq]
      omega
    rw [frameOf_frameAddr hlt] at hsum hg'
    have htarget := entryTabs_target_ne_zero (m := s.mem) (l := l) htable
    have hone := hun (frameOf (s.mem f (tableIndex virt (l + 1))))
    rw [pteFormat_target] at htarget
    unfold tabsOf at hsum hg'
    omega

lemma freeEmptyTables_kept (hok : TreeOk s.mem root) {pt : ℕ}
    (hpath : TablePath s.mem root virt pdpt pd pt) :
    (freeEmptyTables s virt root pdpt pd pt).cr3 = s.cr3 ∧
      TreeOk (freeEmptyTables s virt root pdpt pd pt).mem root ∧
      (∀ v, tableTranslate (freeEmptyTables s virt root pdpt pd pt).mem root v =
        tableTranslate s.mem root v) ∧
      (TablesHeld s root → TablesHeld (freeEmptyTables s virt root pdpt pd pt) root) := by
  refine freeEmptyTables_keeps (P := fun t => t.cr3 = s.cr3 ∧ TreeOk t.mem root ∧
    (∀ v, tableTranslate t.mem root v = tableTranslate s.mem root v) ∧
    (TablesHeld s root → TablesHeld t root)) (fun h => h.2.1.unshared) ?_
    ⟨rfl, hok, fun _ => rfl, id⟩ hpath
  rintro t l q f _ ⟨hcr3, htree, hkept, hheld⟩ hreach htable rfl hempty
  obtain ⟨ws, hdesc⟩ := hreach.descends
  obtain ⟨htree', hkept'⟩ := htree.drop hdesc htable hempty
  exact ⟨hcr3, htree', fun v => (hkept' v).trans (hkept v),
    fun h => (hheld h).dropTable htree.unshared hreach htable⟩

def pathEdges (m : Mem) (root : ℕ) (virt : Word) (pdpt pd : ℕ) : List Word :=
  [m pd (tableIndex virt 1), m pdpt (tableIndex virt 2), m root (tableIndex virt 3)]

lemma TablePath.desc₂ {pt : ℕ} (hpath : TablePath m root virt pdpt pd pt) :
    DescendsTo m virt root 2 pdpt [m root (tableIndex virt 3)] := by
  have hdown := (Descends.top : DescendsTo m virt root 3 root []).down hpath.table₃
  rwa [pteFormat_target, hpath.pdpt_eq] at hdown

lemma TablePath.desc₁ {pt : ℕ} (hpath : TablePath m root virt pdpt pd pt) :
    DescendsTo m virt root 1 pd [m pdpt (tableIndex virt 2), m root (tableIndex virt 3)] := by
  have hdown := hpath.desc₂.down hpath.table₂
  rwa [pteFormat_target, hpath.pd_eq] at hdown

lemma TablePath.desc {pt : ℕ} (hpath : TablePath m root virt pdpt pd pt) :
    DescendsTo m virt root 0 pt (pathEdges m root virt pdpt pd) := by
  have hdown := hpath.desc₁.down hpath.table₁
  rwa [pteFormat_target, hpath.pt_eq] at hdown

lemma LeafPath.edges_user {pt : ℕ} (hok : TreeOk m root) (hpath : LeafPath m root virt pdpt pd pt)
    : (pathEdges m root virt pdpt pd).all (hasFlag · pteU) = true := by
  have hsame : SameSlot 0 virt virt := fun _ _ _ => rfl
  obtain ⟨q, hreach⟩ := hpath.desc.reach rootWord
  have hview : pageView m root virt = some (leafMapping virt 0 (m pt (tableIndex virt 0))) := by
    rw [ReachSlot.pageView hreach hsame]
    simp [entryView, entryLookup, hpath.present, viewLeaf]
  obtain ⟨page, hpage, huser⟩ := hok.userUp virt _ hview hpath.user
  rw [hpath.desc.translate hsame, entryTranslate, if_pos hpath.present, map_some] at hpage
  obtain rfl := some.inj hpage
  simp only [Mapping.under, Bool.and_eq_true] at huser
  exact huser.2

lemma pagingUnmap4k_updates (hok : TreeOk s.mem (frameOf s.cr3)) (virt : Word) :
    Updates s (pagingUnmap4k s virt).2 (SamePage virt) ∧
      ((pagingUnmap4k s virt).1 = true → ∀ v, SamePage virt v →
        tableTranslate (pagingUnmap4k s virt).2.mem (frameOf s.cr3) v = none) ∧
      ((∀ page, tableTranslate s.mem (frameOf s.cr3) virt = some page →
          tabsOf s.mem (frameOf s.cr3) page.frame = 0) →
        TablesHeld s (frameOf s.cr3) → TablesHeld (pagingUnmap4k s virt).2 (frameOf s.cr3)) := by
  rcases pagingUnmap4k_path ((hok.formed (tableIndex virt 3)).1.topTable rfl) with
    hrun | ⟨pdpt, pd, pt, hpath, hrun⟩
  · rw [hrun]
    exact ⟨updates_refl hok _, (fun h => by cases h), fun _ h => h⟩
  rw [hrun]
  obtain ⟨htree, hview⟩ := hok.leaf hpath.desc 0#64 fun h => by simp at h
  set s₁ := { s with pmm := pmmPageDeref s.pmm (s.mem pt (tableIndex virt 0) &&& pteAddr) }
    |>.setEntry pt (tableIndex virt 0) 0#64
  obtain ⟨hcr3, htree', hkept, hheld⟩ := freeEmptyTables_kept (s := s₁) htree
    (hpath.write_leaf hok.unshared 0#64)
  refine ⟨⟨hcr3, htree', fun v hv => ?_⟩, fun _ v hv => ?_, fun hleaf h => ?_⟩
  · rw [hkept, Machine.setEntry_mem, hview,
      if_neg fun hsame => hv ((sameSlot_zero_iff virt v).mp hsame)]
  · rw [hkept, Machine.setEntry_mem, hview, if_pos ((sameSlot_zero_iff virt v).mpr hv)]
    rfl
  · dsimp only
    refine hheld fun g hg hfree => ?_
    rw [Machine.setEntry_mem, tabsOf_leaf hok hpath.desc] at hg
    rcases isFree_of_pmmPageDeref hfree with hfree | rfl
    · exact h g hg hfree
    · have hpage := hpath.desc.translate (v := virt) fun _ _ _ => rfl
      rw [entryTranslate, if_pos hpath.present, map_some] at hpage
      have hzero := hleaf _ hpage
      simp only [Mapping.under, leafMapping, leafFrame] at hzero
      exact hg hzero

/-! ## Protecting a range -/

/-- Entries that lead to tables have the write bit. -/
def EdgesWritable (m : Mem) (root : ℕ) : Prop :=
  tableAll pteFormat
    (fun l _ w => l ≠ 0 → pteFormat.isTable w = true → hasFlag w pteW = true) m 3 rootWord root

lemma LeafPath.edges_writable {pt : ℕ} (hedges : EdgesWritable m root)
    (hpath : LeafPath m root virt pdpt pd pt) :
    (pathEdges m root virt pdpt pd).all (hasFlag · pteW) = true := by
  obtain ⟨q₂, hreach₂⟩ := hpath.desc₂.reach rootWord
  obtain ⟨q₁, hreach₁⟩ := hpath.desc₁.reach rootWord
  have h₃ := (hedges (tableIndex virt 3)).1 (by decide) hpath.table₃
  have h₂ := (hreach₂.tableAll hedges (tableIndex virt 2)).1 (by decide) hpath.table₂
  have h₁ := (hreach₁.tableAll hedges (tableIndex virt 1)).1 (by decide) hpath.table₁
  simp [pathEdges, h₃, h₂, h₁]

def protEntry (writable : Bool) (pte : Word) : Word :=
  if writable then pte ||| pteW else pte &&& ~~~pteW

lemma protEntry_flag (writable) (pte : Word) {flag : Word}
    (hor : hasFlag pteW flag = false) (hand : ~~~pteW &&& flag = flag) :
    hasFlag (protEntry writable pte) flag = hasFlag pte flag := by
  cases writable with
  | true => rw [protEntry, if_pos rfl, hasFlag_or, hor, Bool.or_false]
  | false => rw [protEntry, if_neg (by decide), hasFlag_and, hand]

lemma protEntry_writable (writable) (pte : Word) :
    hasFlag (protEntry writable pte) pteW = writable := by
  cases writable with
  | true =>
    rw [protEntry, if_pos rfl, hasFlag_or, show hasFlag pteW pteW = true by decide, Bool.or_true]
  | false =>
    rw [protEntry, if_neg (by decide), hasFlag_and, show ~~~pteW &&& pteW = 0#64 by decide]
    simp [hasFlag]

lemma setProtStep_path (hok : TreeOk s.mem (frameOf s.cr3)) (writable) (virt : Word) :
    setProtStep writable s virt = (false, s) ∨
      ∃ pdpt pd pt, LeafPath s.mem (frameOf s.cr3) virt pdpt pd pt ∧
        setProtStep writable s virt = (true, s.setEntry pt (tableIndex virt 0)
          (protEntry writable (s.mem pt (tableIndex virt 0)))) := by
  have htop := (hok.formed (tableIndex virt 3)).1.topTable rfl
  unfold setProtStep
  simp only [tableFrame_eq]
  split
  · exact Or.inl rfl
  split
  · exact Or.inl rfl
  split
  · exact Or.inl rfl
  split
  · exact Or.inl rfl
  rename_i h₃ h₂ h₁ h₀
  simp only [Bool.not_eq_true', Bool.not_eq_false, Bool.or_eq_true, not_or,
    Bool.not_eq_true] at h₃ h₂ h₁ h₀
  refine Or.inr ⟨_, _, _, ⟨⟨?_, rfl, ?_, rfl, ?_, rfl⟩, h₀.1, h₀.2⟩, rfl⟩
  · simp [pteFormat_isTable, h₃, htop h₃]
  · simp [pteFormat_isTable, h₂]
  · simp [pteFormat_isTable, h₁]

structure Protects (s t : Machine) (writable ok : Bool) (P : Word → Prop) : Prop where
  updates : Updates s t P
  tree : TreeIn s (frameOf s.cr3) → TreeIn t (frameOf s.cr3)
  edges : EdgesWritable s.mem (frameOf s.cr3) → EdgesWritable t.mem (frameOf s.cr3)
  requested : ok = true → (writable = true → EdgesWritable s.mem (frameOf s.cr3)) →
    ∀ v, P v → ∃ page, tableTranslate t.mem (frameOf s.cr3) v = some page ∧
      page.writable = writable

lemma setProtStep_protects (hok : TreeOk s.mem (frameOf s.cr3)) (writable) (virt : Word) :
    Protects s (setProtStep writable s virt).2 writable (setProtStep writable s virt).1
      (SamePage virt) := by
  rcases setProtStep_path hok writable virt with hrun | ⟨pdpt, pd, pt, hpath, hrun⟩
  · rw [hrun]
    exact ⟨updates_refl hok _, id, id, fun h => by cases h⟩
  rw [hrun]
  set w := protEntry writable (s.mem pt (tableIndex virt 0))
  have hpresent : hasFlag w pteP = true := by
    rw [protEntry_flag writable _ (by decide) (by decide), hpath.present]
  obtain ⟨htree, hview⟩ := hok.leaf hpath.desc w fun _ _ => hpath.edges_user hok
  refine ⟨⟨rfl, htree, fun v hv => ?_⟩, fun hs => (hs.leaf hpath.desc w fun _ _ =>
    hpath.edges_user hok).1, fun hedges => ?_, fun _ hedges v hv => ?_⟩
  · rw [Machine.setEntry_mem, hview, if_neg fun hsame => hv ((sameSlot_zero_iff virt v).mp hsame)]
  · obtain ⟨q, hreach⟩ := hpath.desc.reach rootWord
    exact (slotWrite_setEntry hreach (fun _ _ => rfl) w).tableAll hreach hok.unshared hedges
      fun h => absurd rfl h
  · rw [Machine.setEntry_mem, hview, if_pos ((sameSlot_zero_iff virt v).mpr hv), if_pos hpresent]
    refine ⟨_, rfl, ?_⟩
    simp only [Mapping.under, leafMapping]
    rw [protEntry_writable]
    cases writable with
    | true => rw [hpath.edges_writable (hedges rfl), Bool.true_and]
    | false => rw [Bool.false_and]

lemma Protects.mono {ok : Bool} {Q : Word → Prop} (hprot : Protects s t writable ok P)
    (hPQ : ∀ v, Q v ↔ P v) : Protects s t writable ok Q := by
  have hsame : Q = P := funext fun v => propext (hPQ v)
  rw [hsame]
  exact hprot

lemma Protects.trans {u : Machine} {ok : Bool} {Q : Word → Prop}
    (hfirst : Protects s t writable true P) (hrest : Protects t u writable ok Q)
    (hdisj : ∀ v, P v → ¬ Q v) : Protects s u writable ok (fun v => P v ∨ Q v) := by
  obtain ⟨⟨hcr3, htree, hkept⟩, hin, hedges, hreq⟩ := hfirst
  obtain ⟨⟨hcr3', htree', hkept'⟩, hin', hedges', hreq'⟩ := hrest
  rw [hcr3] at htree' hkept' hin' hedges' hreq'
  refine ⟨⟨hcr3'.trans hcr3, htree', fun v hv => ?_⟩, fun hs => hin' (hin hs),
    fun he => hedges' (hedges he), fun hok he v hv => ?_⟩
  · rw [not_or] at hv
    rw [hkept' v hv.2, hkept v hv.1]
  · rcases hv with hP | hQ
    · rw [hkept' v (hdisj v hP)]
      exact hreq rfl he v hP
    · exact hreq' hok (fun hw => hedges (he hw)) v hQ

/-- The page begins in the range. -/
def PagesIn (lo hi : ℕ) (v : Word) : Prop := lo ≤ pageNum v * 4096 ∧ pageNum v * 4096 < hi

lemma protLoop_protects (writable) {stop : Word} (hstop : stop.toNat % 4096 = 0)
    (hlow : stop.toNat ≤ 2 ^ 48) {fuel : ℕ} {va : Word} (hva : va.toNat % 4096 = 0)
    (hle : va.toNat ≤ stop.toNat) (hfuel : stop.toNat ≤ va.toNat + fuel * 4096)
    (hok : TreeOk s.mem (frameOf s.cr3)) :
    Protects s (forPages (setProtStep writable) stop fuel va s).2 writable
      (forPages (setProtStep writable) stop fuel va s).1 (PagesIn va.toNat stop.toNat) := by
  have hnone : ∀ {va : Word}, ¬ va.toNat < stop.toNat → ∀ v, ¬ PagesIn va.toNat stop.toNat v :=
    fun hge v hv => by
      have := hv.1
      have := hv.2
      omega
  have hdone : ∀ {va : Word} {s : Machine}, TreeOk s.mem (frameOf s.cr3) → ¬ va.toNat < stop.toNat →
      Protects s s writable true (PagesIn va.toNat stop.toNat) := fun hok hge =>
    ⟨updates_refl hok _, id, id, fun _ _ v hv => (hnone hge v hv).elim⟩
  induction fuel generalizing va s with
  | zero => exact hdone hok (by omega)
  | succ fuel ih =>
    unfold forPages
    by_cases hlt : va < stop
    swap
    · rw [if_neg hlt]
      exact hdone hok fun h => hlt (BitVec.lt_def.mpr h)
    rw [if_pos hlt]
    have hlt' := BitVec.lt_def.mp hlt
    have hnext := toNat_next hva hstop hlt'
    have hround := setProtStep_protects hok writable va
    generalize setProtStep writable s va = result at hround
    obtain ⟨b, t⟩ := result
    have hpage : pageNum va * 4096 = va.toNat := by
      unfold pageNum
      omega
    cases b with
    | false =>
      obtain ⟨⟨hcr3, htree, hkept⟩, hin, hedges, -⟩ := hround
      refine ⟨⟨hcr3, htree, fun v hv => hkept v fun hsame => hv ?_⟩, hin, hedges,
        fun h => by cases h⟩
      unfold PagesIn
      rw [hsame]
      omega
    | true =>
      have hrest : Protects t (forPages (setProtStep writable) stop fuel (va + 4096#64) t).2
          writable (forPages (setProtStep writable) stop fuel (va + 4096#64) t).1 (PagesIn (va +
          4096#64).toNat stop.toNat) :=
        ih (by omega) (by omega) (by omega)
          (by rw [hround.updates.cr3_eq]; exact hround.updates.tree)
      refine (hround.trans hrest fun v hv hin => ?_).mono fun v => ?_
      · have := hin.1
        rw [hv] at this
        omega
      · unfold PagesIn SamePage
        omega

lemma pagingSetProtRange_protects (hok : TreeOk s.mem (frameOf s.cr3)) {virt len : Word}
    (hvirt : virt.toNat % 4096 = 0) (hrange : virt.toNat + len.toNat ≤ 2 ^ 48) (writable) :
    Protects s (pagingSetProtRange s virt len writable).2 writable
      (pagingSetProtRange s virt len writable).1
      (PagesIn virt.toNat (virt.toNat + len.toNat)) := by
  unfold pagingSetProtRange
  by_cases hcr3 : s.cr3 = 0#64
  · rw [if_pos hcr3]
    exact ⟨updates_refl hok _, id, id, fun h => by cases h⟩
  rw [if_neg hcr3]
  have hsum : (virt + len).toNat = virt.toNat + len.toNat := by
    rw [BitVec.toNat_add]
    omega
  have hstart := pageDown_toNat virt
  have hstop := pageUp_toNat (virt + len)
  have hfuel : (pageUp (virt + len)).toNat ≤ (pageDown virt).toNat +
      pagesBetween (pageDown virt) (pageUp (virt + len)) * 4096 := by
    unfold pagesBetween
    rw [BitVec.toNat_sub]
    omega
  refine (protLoop_protects writable (by omega) (by omega) (by omega) (by omega) hfuel
    hok).mono fun v => ?_
  unfold PagesIn
  omega

end Leaves

/-! ## The three operations -/

lemma SpaceIn.treeIn {A : Set ℕ} {s : Machine} {root : ℕ} (hsp : SpaceIn A s root) :
    TreeIn s root ∧ EdgesWritable s.mem root := by
  refine ⟨⟨⟨hsp.ok.unshared, fun j => ?_, fun v page hpage huser => ⟨page, ?_, huser⟩⟩,
    hsp.sound, fun g hg hfree => ?_⟩, fun j => ?_⟩
  · exact entryAll_mono (fun _ _ _ hok => ⟨hok.topTable, hok.tableFits, hok.largeAligned⟩)
      (hsp.ok.entries j)
  · rw [tableTranslate, entryTranslate_eq_entryView (hsp.ok.entries _)]
    exact hpage
  · have hused := hsp.held hg
    simp [hfree.2] at hused
  · exact entryAll_mono (fun _ _ _ hok => hok.tableWritable) (hsp.ok.entries j)

/-- The address that the processor comes to. -/
def physAddr (s : Machine) (v : Word) : Option ℕ :=
  (translate s.mem s.cr3 v).map fun page => page.frame * 4096 + v.toNat % 4096

/-- The pages that do not satisfy `P` have the same translation and the same rights. -/
def Kept (s t : Machine) (P : Word → Prop) : Prop :=
  ∀ v, ¬ P v → translate t.mem t.cr3 v = translate s.mem s.cr3 v

lemma Updates.after {s t : Machine} (hup : Updates s t P) :
    TreeOk t.mem (frameOf t.cr3) ∧ Kept s t P := by
  refine ⟨by rw [hup.cr3_eq]; exact hup.tree, fun v hv => ?_⟩
  rw [hup.cr3_eq]
  exact hup.kept v hv

lemma emptyMachine_tree : TreeIn (emptyMachine 1 16) (frameOf (emptyMachine 1 16).cr3) :=
  (emptyMachine_space (by decide) (by decide) (by decide)).treeIn.1

end HelixOS
