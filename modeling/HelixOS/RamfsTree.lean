import HelixOS.RamfsOperations
import HelixOS.TrackedRuns

/-!
# The tree below `/tmp`

The nodes form a tree with unique names as long as `unlink` is not called for a directory
that has entries.
-/

namespace HelixOS.Ramfs

open ParentPointers TrackedRuns Function Option List

variable {cs : List (List Byte)} {nodes nodes' : Nodes} {i j p idx : Fin 64} {name : List Byte}
  {isDir : Bool}

/-! ## The tree -/

def Nodes.up (nodes : Nodes) : Fin 64 → Option (Fin 64) := fun i => (nodes i).parent

structure Tree (nodes : Nodes) : Prop where
  root_dir : nodes.IsDirAt tmpRoot
  root_top : (nodes tmpRoot).parent = none
  parent_dir : ∀ i, (nodes i).used → i ≠ tmpRoot →
    ∃ p, nodes.IsDirAt p ∧ (nodes i).parent = some p
  rooted : ∀ i, (nodes i).used → Rooted nodes.up tmpRoot i
  unique : ∀ i j, (nodes i).used → (nodes j).used → (nodes i).parent = (nodes j).parent →
    (nodes i).name = (nodes j).name → i = j
  named : ∀ i, (nodes i).used → i ≠ tmpRoot → ValidName (nodes i).name

lemma SameTree.isDirAt (h : SameTree nodes nodes') : nodes'.IsDirAt i ↔ nodes.IsDirAt i := by
  simp [Nodes.IsDirAt, (h i).1, (h i).2.1]

section

variable (ht : Tree nodes)
include ht

lemma Tree.congr (h : SameTree nodes nodes') : Tree nodes' where
  root_dir := h.isDirAt.mpr ht.root_dir
  root_top := (h tmpRoot).2.2.2.trans ht.root_top
  parent_dir := by
    intro i hused hi
    obtain ⟨p, hp, hparent⟩ := ht.parent_dir i ((h i).1 ▸ hused) hi
    exact ⟨p, h.isDirAt.mpr hp, (h i).2.2.2.trans hparent⟩
  rooted := by
    have hup : nodes'.up = nodes.up := funext fun i => (h i).2.2.2
    intro i hused
    rw [hup]
    exact ht.rooted i ((h i).1 ▸ hused)
  unique := by
    intro i j hi hj hparent hname
    rw [(h i).1] at hi
    rw [(h j).1] at hj
    rw [(h i).2.2.2, (h j).2.2.2] at hparent
    rw [(h i).2.2.1, (h j).2.2.1] at hname
    exact ht.unique i j hi hj hparent hname
  named := by
    intro i hused hi
    rw [(h i).2.2.1]
    exact ht.named i ((h i).1 ▸ hused) hi

lemma Tree.ne_root (h : (nodes i).parent = some p) : i ≠ tmpRoot := by
  rintro rfl
  rw [ht.root_top] at h
  cases h

lemma Tree.put {n : Node} (hi : i ≠ tmpRoot) (hused : n.used) (hdir : nodes.IsDirAt i → n.isDir)
    (hparent : n.parent = some p) (hp : nodes.IsDirAt p) (hvalid : ValidName n.name)
    (hfree : ∀ j, j ≠ i → (nodes j).used → (nodes j).parent = some p → (nodes j).name ≠ n.name)
    (hrooted : Rooted (update nodes.up i (some p)) tmpRoot p) : Tree (update nodes i n) := by
  have hold : ∀ {j}, j ≠ i → update nodes i n j = nodes j :=
    fun hj => update_of_ne hj _ _
  have hnew : update nodes i n i = n := update_self ..
  have hdirs : ∀ {j}, nodes.IsDirAt j → Nodes.IsDirAt (update nodes i n) j := by
    intro j hj
    by_cases hji : j = i
    · subst hji
      simpa only [Nodes.IsDirAt, hnew] using ⟨hused, hdir hj⟩
    · simpa only [Nodes.IsDirAt, hold hji] using hj
  have hup : Nodes.up (update nodes i n) = update nodes.up i (some p) := by
    funext j
    by_cases hji : j = i
    · subst hji
      rw [Nodes.up, hnew, update_self, hparent]
    · rw [Nodes.up, hold hji, update_of_ne hji, Nodes.up]
  constructor
  case root_dir => exact hdirs ht.root_dir
  case root_top => rw [hold hi.symm, ht.root_top]
  case parent_dir =>
    intro j hj hjroot
    by_cases hji : j = i
    · subst hji
      exact ⟨p, hdirs hp, by rw [hnew, hparent]⟩
    · rw [hold hji] at hj ⊢
      obtain ⟨q, hq, hparent⟩ := ht.parent_dir j hj hjroot
      exact ⟨q, hdirs hq, hparent⟩
  case rooted =>
    intro j hj
    rw [hup]
    by_cases hji : j = i
    · subst hji
      exact .up (update_self ..) hrooted
    · rw [hold hji] at hj
      exact hrooted.reparent (ht.rooted j hj)
  case unique =>
    intro j k hj hk hparents hname
    by_cases hji : j = i <;> by_cases hki : k = i
    · rw [hji, hki]
    · subst hji
      rw [hold hki] at hk hparents hname
      rw [hnew] at hparents hname
      exact absurd hname.symm (hfree k hki hk (hparents.symm.trans hparent))
    · subst hki
      rw [hold hji] at hj hparents hname
      rw [hnew] at hparents hname
      exact absurd hname (hfree j hji hj (hparents.trans hparent))
    · rw [hold hji] at hj hparents hname
      rw [hold hki] at hk hparents hname
      exact ht.unique j k hj hk hparents hname
  case named =>
    intro j hj hjroot
    by_cases hji : j = i
    · subst hji
      rwa [hnew]
    · rw [hold hji] at hj ⊢
      exact ht.named j hj hjroot

lemma Tree.known (i) (hi : (nodes i).used) (hroot : i ≠ tmpRoot) :
    ∃ p, (nodes p).used ∧ nodes.up i = some p := by
  obtain ⟨p, hp, hparent⟩ := ht.parent_dir i hi hroot
  exact ⟨p, hp.1, hparent⟩

lemma Tree.add (h : Adds nodes i p name isDir nodes') : Tree nodes' := by
  obtain ⟨⟨hunused, -⟩, hdir, hvalid, hfree, rfl⟩ := h
  have hp := hdir ht.root_dir
  have hne : ∀ {j}, (nodes j).used → j ≠ i := by
    rintro j hused rfl
    rw [hunused] at hused
    cases hused
  refine ht.put (p := p) (hne ht.root_dir.1).symm rfl ?_ rfl hp hvalid ?_ ?_
  · intro hi
    exact absurd rfl (hne hi.1)
  · intro j _ hused
    exact findChild_none.mp hfree j hused
  · refine (ht.rooted p hp.1).congr (fun j => (nodes j).used = true) ?_ hp.1
    intro j hj hjroot
    obtain ⟨q, hq, hup⟩ := ht.known j hj hjroot
    exact ⟨q, hq, hup, by rw [update_of_ne (hne hj), hup]⟩

lemma Tree.move {q : Fin 64} (hidx : (nodes idx).used) (hq : (nodes idx).parent = some q)
    (hp : nodes.IsDirAt p) (hvalid : ValidName name) (hfree : findChild nodes p name = none)
    (hbelow : (nodes idx).isDir → climb nodes.up tmpRoot idx 64 (some p) = some false) :
    Tree (moveNode nodes idx p name) := by
  refine ht.put (p := p) (ht.ne_root hq) hidx And.right rfl hp hvalid ?_ ?_
  · intro j _ hused
    exact findChild_none.mp hfree j hused
  · by_cases hdir : (nodes idx).isDir
    · exact rooted_of_climb (fun i => (nodes i).used = true) ht.known 64 _ hp.1 (hbelow hdir)
    · -- all ancestors are directories, and the node is none
      refine (ht.rooted p hp.1).congr nodes.IsDirAt ?_ hp
      intro j hj hjroot
      obtain ⟨r, hr, hparent⟩ := ht.parent_dir j hj.1 hjroot
      have hji : j ≠ idx := by
        rintro rfl
        exact hdir hj.2
      exact ⟨r, hr, hparent, by rw [update_of_ne hji, Nodes.up, hparent]⟩

lemma Tree.release (hp : (nodes idx).parent = some p)
    (hempty : ∀ j, (nodes j).used → (nodes j).parent ≠ some idx) :
    Tree (nodeRelease nodes idx) := by
  have hold : ∀ {j}, j ≠ idx → nodeRelease nodes idx j = nodes j :=
    fun hj => update_of_ne hj _ _
  have hgone : ¬ (nodeRelease nodes idx idx).used := by
    simp [nodeRelease, clearNode]
  have hused : ∀ {j}, (nodeRelease nodes idx j).used → j ≠ idx ∧ (nodes j).used := by
    intro j hj
    have hne : j ≠ idx := by
      rintro rfl
      exact hgone hj
    exact ⟨hne, hold hne ▸ hj⟩
  have hroot : tmpRoot ≠ idx := (ht.ne_root hp).symm
  have hparent : ∀ {j}, (nodeRelease nodes idx j).used → j ≠ tmpRoot →
      ∃ q, q ≠ idx ∧ nodes.IsDirAt q ∧ (nodes j).parent = some q := by
    intro j hj hjroot
    obtain ⟨q, hq, hup⟩ := ht.parent_dir j (hused hj).2 hjroot
    refine ⟨q, ?_, hq, hup⟩
    rintro rfl
    exact hempty j (hused hj).2 hup
  constructor
  case root_dir => simpa only [Nodes.IsDirAt, hold hroot] using ht.root_dir
  case root_top => rw [hold hroot, ht.root_top]
  case parent_dir =>
    intro j hj hjroot
    obtain ⟨q, hne, hq, hup⟩ := hparent hj hjroot
    refine ⟨q, ?_, by rw [hold (hused hj).1, hup]⟩
    simpa only [Nodes.IsDirAt, hold hne] using hq
  case rooted =>
    intro j hj
    refine (ht.rooted j (hused hj).2).congr (fun j => (nodeRelease nodes idx j).used = true) ?_ hj
    intro j hj hjroot
    obtain ⟨q, hne, hq, hup⟩ := hparent hj hjroot
    refine ⟨q, by rw [hold hne]; exact hq.1, hup, ?_⟩
    rw [Nodes.up, hold (hused hj).1, hup]
  case unique =>
    intro j k hj hk
    rw [hold (hused hj).1, hold (hused hk).1]
    exact ht.unique j k (hused hj).2 (hused hk).2
  case named =>
    intro j hj hjroot
    rw [hold (hused hj).1]
    exact ht.named j (hused hj).2 hjroot

end

lemma nodeChildCount_eq_zero :
    nodeChildCount nodes idx = 0 ↔
      ∀ j, (nodes j).used → (nodes j).parent ≠ some idx := by
  simp [nodeChildCount, length_eq_zero_iff, filter_eq_nil_iff]

/-! ## Every node has one path -/

/-- The components of a path below `/tmp`; the empty path has none. -/
def relComponents (rel : List Byte) : List (List Byte) :=
  if rel = [] then [] else components rel

def walkTo (nodes : Nodes) (cs : List (List Byte)) : Option (Fin 64) :=
  if cs = [] then some tmpRoot else walk nodes tmpRoot cs

lemma resolve_eq_walkTo (nodes) (rel : List Byte) :
    resolve nodes rel = walkTo nodes (relComponents rel) := by
  unfold resolve walkTo relComponents
  by_cases hrel : rel = []
  · simp [hrel]
  · simp [hrel, components, componentsFrom_ne_nil]

lemma walk_concat (cs) (c : List Byte) (p) (hcs : cs ≠ []) :
    walk nodes p (cs ++ [c]) =
      (walk nodes p cs).bind fun q => if (nodes q).isDir then findChild nodes q c else none := by
  induction cs generalizing p with
  | nil => exact absurd rfl hcs
  | cons x cs ih =>
    cases cs with
    | nil =>
      simp only [cons_append, nil_append, walk]
      cases findChild nodes p x <;> rfl
    | cons y cs =>
      simp only [cons_append, walk]
      cases findChild nodes p x with
      | none => rfl
      | some q =>
        by_cases hdir : (nodes q).isDir
        · simpa [hdir] using ih q (cons_ne_nil _ _)
        · simp [hdir]

lemma walkTo_concat (hroot : nodes.IsDirAt tmpRoot) (cs) (c : List Byte) :
    walkTo nodes (cs ++ [c]) = some i ↔
      ∃ q, walkTo nodes cs = some q ∧ (nodes q).isDir ∧ findChild nodes q c = some i := by
  by_cases hcs : cs = []
  · subst hcs
    simp [walkTo, walk, hroot.2]
  · simp [walkTo, hcs, walk_concat, bind_eq_some_iff]

lemma Tree.findChild (ht : Tree nodes) (hi : (nodes i).used)
    (hp : (nodes i).parent = some p) : findChild nodes p (nodes i).name = some i := by
  rcases hfind : Ramfs.findChild nodes p (nodes i).name with _ | j
  · exact absurd rfl (findChild_none.mp hfind i hi hp)
  · obtain ⟨hj, hparent, hname⟩ := findChild_some hfind
    rw [ht.unique j i hj hi (hparent.trans hp.symm) hname]

lemma Tree.exists_walkTo (ht : Tree nodes) (hi : (nodes i).used) :
    ∃ cs, walkTo nodes cs = some i ∧ ∀ c ∈ cs, ValidName c := by
  induction ht.rooted i hi with
  | root => exact ⟨[], rfl, by simp⟩
  | @up i p hup _ ih =>
    by_cases hroot : i = tmpRoot
    · exact ⟨[], hroot ▸ rfl, by simp⟩
    · obtain ⟨q, hq, hparent⟩ := ht.parent_dir i hi hroot
      obtain rfl : p = q := some.inj (hup.symm.trans hparent)
      obtain ⟨cs, hcs, hvalid⟩ := ih hq.1
      refine ⟨cs ++ [(nodes i).name], ?_, ?_⟩
      · exact (walkTo_concat ht.root_dir cs _).mpr ⟨p, hcs, hq.2, ht.findChild hi hparent⟩
      · intro c hc
        rcases mem_append.mp hc with hc | hc
        · exact hvalid c hc
        · exact mem_singleton.mp hc ▸ ht.named i hi hroot

lemma Tree.walkTo_root (ht : Tree nodes) (h : walkTo nodes cs = some tmpRoot) : cs = [] := by
  rcases eq_nil_or_concat cs with rfl | ⟨ds, c, rfl⟩
  · rfl
  · rw [concat_eq_append] at h
    obtain ⟨q, -, -, hfind⟩ := (walkTo_concat ht.root_dir ds c).mp h
    exact absurd rfl (ht.ne_root (findChild_some hfind).2.1)

lemma Tree.walkTo_unique (ht : Tree nodes) {cs' : List (List Byte)}
    (hi : Rooted nodes.up tmpRoot i)
    (h : walkTo nodes cs = some i) (h' : walkTo nodes cs' = some i) : cs = cs' := by
  induction hi generalizing cs cs' with
  | root => rw [ht.walkTo_root h, ht.walkTo_root h']
  | @up i p hup _ ih =>
    -- the last step to `i` starts at its parent and takes its name
    have hlast : ∀ {cs}, walkTo nodes cs = some i →
        ∃ ds, cs = ds ++ [(nodes i).name] ∧ walkTo nodes ds = some p := by
      intro cs h
      rcases eq_nil_or_concat cs with rfl | ⟨ds, c, rfl⟩
      · obtain rfl : tmpRoot = i := some.inj h
        exact absurd rfl (ht.ne_root hup)
      · rw [concat_eq_append] at h ⊢
        obtain ⟨q, hq, -, hfind⟩ := (walkTo_concat ht.root_dir ds c).mp h
        obtain ⟨-, hparent, rfl⟩ := findChild_some hfind
        obtain rfl : p = q := some.inj (hup.symm.trans hparent)
        exact ⟨ds, rfl, hq⟩
    obtain ⟨ds, rfl, hds⟩ := hlast h
    obtain ⟨ds', rfl, hds'⟩ := hlast h'
    rw [ih hds hds']

def joinPath (cs : List (List Byte)) : List Byte :=
  [slashByte, 0x74#8, 0x6D#8, 0x70#8] ++ cs.flatMap (slashByte :: ·)

lemma componentsFrom_name (name tail : List Byte) {comp : List Byte}
    (hslash : slashByte ∉ name) (hlen : comp.length + name.length ≤ 31) :
    componentsFrom comp false (name ++ tail) = componentsFrom (comp ++ name) false tail := by
  induction name generalizing comp with
  | nil => simp
  | cons b name ih =>
    obtain ⟨hb, hslash⟩ : slashByte ≠ b ∧ slashByte ∉ name := by simpa using hslash
    have hfull : comp.length ≠ 31 := by
      simp only [length_cons] at hlen
      omega
    have hrest : (comp ++ [b]).length + name.length ≤ 31 := by
      simp only [length_cons, length_append, length_nil] at hlen ⊢
      omega
    rw [cons_append, componentsFrom, if_neg hb.symm, if_neg (by simpa using hfull),
      ih hslash hrest, append_assoc, singleton_append]

lemma componentsFrom_join (cs) (comp : List Byte) (hcs : ∀ c ∈ cs, ValidName c) :
    componentsFrom comp false (cs.flatMap (slashByte :: ·)) = comp :: cs := by
  induction cs generalizing comp with
  | nil => rfl
  | cons c cs ih =>
    obtain ⟨hne, hshort, hslash⟩ := hcs c (by simp)
    cases c with
    | nil => exact absurd rfl hne
    | cons b name =>
      obtain ⟨hb, hslash⟩ : slashByte ≠ b ∧ slashByte ∉ name := by simpa using hslash
      have hlen : [b].length + name.length ≤ 31 := by
        simpa [Nat.add_comm] using hshort
      have hnext := componentsFrom_name name (cs.flatMap (slashByte :: ·)) hslash hlen
      have hrest := ih (b :: name) fun c hc => hcs c (mem_cons_of_mem _ hc)
      simp only [flatMap_cons, cons_append, componentsFrom, if_true, if_neg hb.symm, Bool.true_or]
      rw [hnext, singleton_append, hrest]

lemma stripTmpPrefix_join (cs) (hcs : ∀ c ∈ cs, ValidName c) :
    ∃ rel, stripTmpPrefix (joinPath cs) = some rel ∧ relComponents rel = cs := by
  have hstrip : stripTmpPrefix (joinPath cs) =
      some ((cs.flatMap (slashByte :: ·)).dropWhile (· = slashByte)) := by
    cases cs with
    | nil => rfl
    | cons c cs => rfl
  refine ⟨_, hstrip, ?_⟩
  cases cs with
  | nil => rfl
  | cons c cs =>
    obtain ⟨hne, hshort, hslash⟩ := hcs c (by simp)
    cases c with
    | nil => exact absurd rfl hne
    | cons b name =>
      have hb : b ≠ slashByte := by
        rintro rfl
        simp at hslash
      have hdrop : (((b :: name) :: cs).flatMap (slashByte :: ·)).dropWhile
          (· = slashByte) = (b :: name) ++ cs.flatMap (slashByte :: ·) := by
        simp [hb]
      rw [hdrop, relComponents, if_neg (by simp), components, componentsFrom_name (b :: name) _
        hslash (by simpa using hshort), nil_append]
      exact componentsFrom_join cs _ fun c hc => hcs c (mem_cons_of_mem _ hc)

lemma Tree.one_path (ht : Tree nodes) (hi : (nodes i).used) :
    ∃! cs, ∃ path rel, stripTmpPrefix path = some rel ∧ resolve nodes rel = some i ∧
      relComponents rel = cs := by
  obtain ⟨cs, hcs, hvalid⟩ := ht.exists_walkTo hi
  obtain ⟨rel, hstrip, hrel⟩ := stripTmpPrefix_join cs hvalid
  refine ⟨cs, ⟨joinPath cs, rel, hstrip, ?_, hrel⟩, ?_⟩
  · rw [resolve_eq_walkTo, hrel, hcs]
  · rintro _ ⟨path, rel', -, hresolve, rfl⟩
    rw [resolve_eq_walkTo] at hresolve
    exact ht.walkTo_unique (ht.rooted i hi) hresolve hcs

/-! ## Runs -/

lemma tree_ramfsInit : Tree ramfsInit.nodes := by
  have hother : ∀ i, (ramfsInit.nodes i).used → i = tmpRoot := by
    intro i hi
    by_contra hne
    simp [ramfsInit, update_of_ne hne, clearNode] at hi
  constructor
  case root_dir => exact ⟨rfl, rfl⟩
  case root_top => rfl
  case parent_dir => exact fun i hi hne => absurd (hother i hi) hne
  case rooted => exact fun i hi => hother i hi ▸ .root
  case unique => exact fun i j hi hj _ _ => (hother i hi).trans (hother j hj).symm
  case named => exact fun i hi hne => absurd (hother i hi) hne

lemma Tree.open_file (ht : Tree nodes) (path : List Byte) (flags : OpenFlags)
    (memory : Bool) : Tree (ramfsOpen nodes path flags memory).2 := by
  obtain ⟨created, hcreated, hresult⟩ := ramfsOpen_spec nodes path flags memory
  have htree : Tree created := by
    rcases hcreated with rfl | ⟨-, i, p, name, hadds⟩
    · exact ht
    · exact ht.add hadds
  rcases hresult with hresult | ⟨idx, hresult⟩ <;> rw [hresult]
  · exact htree
  · exact htree.congr (sameTree_truncate created idx flags.trunc)

/-- What `unlink` would remove has no entries. -/
def NoEntriesLost (s : State) : Event → Prop
  | .unlink path => ∀ idx, removalTarget s.nodes path = some idx → nodeChildCount s.nodes idx = 0
  | _ => True

variable {s s' : State} {e : Event}

lemma Tree.step (ht : Tree s.nodes) (hallowed : NoEntriesLost s e)
    (hstep : s.step e = some s') : Tree s'.nodes := by
  cases e with
  | mkdir path =>
    obtain rfl := some.inj hstep
    rcases hmkdir : ramfsMkdir s.nodes path with _ | nodes'
    · simpa [hmkdir] using ht
    · rcases ramfsMkdir_spec hmkdir with rfl | ⟨i, p, name, hadds⟩
      · simpa [hmkdir] using ht
      · simpa [hmkdir] using ht.add hadds
  | openFile path flags memory =>
    obtain rfl := some.inj hstep
    rw [install_nodes]
    exact ht.open_file path flags memory
  | read h len =>
    obtain ⟨handle, -, rfl⟩ := map_eq_some_iff.mp hstep
    split <;> exact ht
  | write h bytes fresh =>
    obtain ⟨handle, -, rfl⟩ := map_eq_some_iff.mp hstep
    split
    · rename_i hwrite
      exact ht.congr (ramfsWrite_sameTree hwrite)
    · exact ht
  | close h =>
    obtain ⟨handle, -, rfl⟩ := map_eq_some_iff.mp hstep
    exact ht
  | unlink path =>
    obtain rfl := some.inj hstep
    rcases hunlink : ramfsUnlinkOp s.nodes path with _ | nodes'
    · simpa [hunlink] using ht
    · obtain ⟨idx, htarget, rfl⟩ := ramfsUnlinkOp_spec hunlink
      obtain ⟨-, p, hparent⟩ := removalTarget_spec htarget
      have hempty := nodeChildCount_eq_zero.mp (hallowed idx htarget)
      simpa [hunlink] using ht.release hparent hempty
  | rmdir path =>
    obtain rfl := some.inj hstep
    rcases hrmdir : ramfsRmdirOp s.nodes path with _ | nodes'
    · simpa [hrmdir] using ht
    · obtain ⟨idx, htarget, hcount, rfl⟩ := ramfsRmdirOp_spec hrmdir
      obtain ⟨-, p, hparent⟩ := removalTarget_spec htarget
      simpa [hrmdir] using ht.release hparent (nodeChildCount_eq_zero.mp hcount)
  | rename old new =>
    simp only [State.step] at hstep
    split at hstep
    · rename_i hrename
      obtain rfl := some.inj hstep
      obtain ⟨idx, p, name, htarget, hbelow, rfl⟩ := ramfsRenameOp_spec hrename
      obtain ⟨⟨hused, q, hparent⟩, hp, hvalid, hfree⟩ :=
        renameTarget_spec htarget
      exact ht.move hused hparent (hp ht.root_dir) hvalid hfree hbelow
    · exact some.inj hstep ▸ ht
    · cases hstep

lemma step_used (hstep : s.step e = some s') (hi : (s.nodes i).used) :
    (s'.nodes i).used ∨ ∃ path, (e = .unlink path ∨ e = .rmdir path) ∧
      removalTarget s.nodes path = some i := by
  cases step_node hstep i with
  | kept hsame => exact .inl (hsame.used ▸ hi)
  | added _ _ hnew => exact .inl (by rw [hnew]; rfl)
  | emptied _ _ _ _ hsame => exact .inl (hsame.used ▸ hi)
  | removed path hremoves htarget => exact .inr ⟨path, hremoves, htarget⟩
  | written _ _ _ _ _ _ _ _ hwrite => exact .inl ((ramfsWrite_sameTree hwrite i).1 ▸ hi)

/-- As long as `unlink` removes no directory with entries, the nodes are a tree of
directories with unique names, every node has exactly one path, and it keeps one until it
is removed. -/
theorem nodes_stay_tree {h : Unit}
    (hreach : Reaches State.step (fun _ _ _ _ => ()) NoEntriesLost ramfsInit () s h) :
    (∀ i, (s.nodes i).used → i ≠ tmpRoot →
      ∃ p, (s.nodes i).parent = some p ∧ (s.nodes p).used ∧ (s.nodes p).isDir) ∧
    (∀ i, (s.nodes i).used → Rooted (fun i => (s.nodes i).parent) tmpRoot i) ∧
    (∀ i j, (s.nodes i).used → (s.nodes j).used → (s.nodes i).parent = (s.nodes j).parent →
      (s.nodes i).name = (s.nodes j).name → i = j) ∧
    (∀ i, (s.nodes i).used →
      ∃! cs, ∃ path rel, stripTmpPrefix path = some rel ∧ resolve s.nodes rel = some i ∧
        relComponents rel = cs) ∧
    ∀ e s', s.step e = some s' → ∀ i, (s.nodes i).used →
      (s'.nodes i).used ∨ ∃ path, (e = .unlink path ∨ e = .rmdir path) ∧
        removalTarget s.nodes path = some i := by
  have ht : Tree s.nodes :=
    hreach.invariant (fun s _ => Tree s.nodes) tree_ramfsInit
      fun _ _ _ _ ht hallowed hstep => ht.step hallowed hstep
  refine ⟨?_, ht.rooted, ht.unique, fun i hi => ht.one_path hi,
    fun e s' hstep i hi => step_used hstep hi⟩
  intro i hi hroot
  obtain ⟨p, hp, hparent⟩ := ht.parent_dir i hi hroot
  exact ⟨p, hparent, hp⟩

theorem nodes_stay_tree_moved_file :
    let events : List Event :=
      [.mkdir (joinPath [[0x61#8]]),
        .openFile (joinPath [[0x61#8], [0x62#8]]) ⟨true, false, true, false, false⟩ true,
        .rename (joinPath [[0x61#8], [0x62#8]]) (joinPath [[0x63#8]])]
    ∃ s, run State.step (fun _ _ _ _ => ()) events ramfsInit () = some (s, ()) ∧
      (s.nodes 2).used ∧ (s.nodes 2).parent = some tmpRoot ∧
      ∃! cs, ∃ path rel, stripTmpPrefix path = some rel ∧ resolve s.nodes rel = some 2 ∧
        relComponents rel = cs := by
  intro events
  have hall : ∀ e ∈ events, ∀ s, NoEntriesLost s e := by
    intro e he s
    simp only [events, mem_cons, not_mem_nil, or_false] at he
    rcases he with rfl | rfl | rfl <;> trivial
  refine ⟨_, rfl, by decide +kernel, by decide +kernel, ?_⟩
  exact (nodes_stay_tree (Reaches.start.run events hall rfl)).2.2.2.1 2 (by decide +kernel)

/-- Unlinking the directory leaves its file behind without a parent. -/
theorem unlink_orphans_file :
    let events : List Event :=
      [.mkdir (joinPath [[0x61#8]]),
        .openFile (joinPath [[0x61#8], [0x62#8]]) ⟨true, false, true, false, false⟩ true,
        .unlink (joinPath [[0x61#8]])]
    ∃ s, run State.step (fun _ _ _ _ => ()) events ramfsInit () = some (s, ()) ∧
      (s.nodes 2).used ∧ (s.nodes 2).parent = some 1 ∧ ¬ (s.nodes 1).used := by
  refine ⟨_, rfl, ?_⟩
  decide +kernel

end HelixOS.Ramfs
