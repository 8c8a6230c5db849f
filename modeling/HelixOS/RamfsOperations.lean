import HelixOS.Ramfs

/-!
# What the operations on `/tmp` do

One statement for each operation: which slot of the table it changes, and what it has
found out about the paths before.
-/

namespace HelixOS.Ramfs

open ParentPointers Function Option List

variable {rel : List Byte} {fresh : Option (ℕ → Byte)} {path : List Byte} {nodes nodes' : Nodes}
  {i j p idx : Fin 64} {name : List Byte} {isDir : Bool}

/-! ## Components of paths -/

structure ValidName (name : List Byte) : Prop where
  ne_nil : name ≠ []
  short : name.length ≤ 31
  no_slash : slashByte ∉ name

lemma validName_single {c : Byte} (hc : c ≠ slashByte) : ValidName [c] :=
  ⟨cons_ne_nil _ _, by simp, by simpa using hc.symm⟩

lemma ValidName.snoc {c : Byte} (h : ValidName name) (hc : c ≠ slashByte)
    (hlen : name.length ≠ 31) : ValidName (name ++ [c]) where
  ne_nil := by simp
  short := by
    have := h.short
    simp only [length_append, length_singleton]
    omega
  no_slash := by simpa [h.no_slash] using hc.symm

lemma componentsFrom_valid (rest : List Byte) {comp : List Byte} (ended : Bool)
    (hcomp : ValidName comp) : ∀ c ∈ componentsFrom comp ended rest, ValidName c := by
  induction rest generalizing comp ended with
  | nil =>
    intro c hc
    exact mem_singleton.mp hc ▸ hcomp
  | cons b rest ih =>
    simp only [componentsFrom]
    split_ifs with hslash hend
    · exact ih true hcomp
    · intro c hc
      rcases mem_cons.mp hc with rfl | hc
      · exact hcomp
      · exact ih false (validName_single hslash) c hc
    · have hlen : comp.length ≠ 31 := by
        intro hlen
        simp [hlen] at hend
      exact ih false (hcomp.snoc hslash hlen)

structure Relative (rel : List Byte) : Prop where
  ne_nil : rel ≠ []
  head : rel.head? ≠ some slashByte

lemma Relative.components_valid (h : Relative rel) :
    ∀ c ∈ components rel, ValidName c := by
  obtain ⟨hne, hhead⟩ := h
  cases rel with
  | nil => exact absurd rfl hne
  | cons b rest =>
    have hb : b ≠ slashByte := by simpa using hhead
    have hfirst : components (b :: rest) = componentsFrom [b] false rest := by
      simp [components, componentsFrom, hb]
    rw [hfirst]
    exact componentsFrom_valid rest false (validName_single hb)

lemma componentsFrom_ne_nil (rest comp : List Byte) (ended : Bool) :
    componentsFrom comp ended rest ≠ [] := by
  induction rest generalizing comp ended with
  | nil => simp [componentsFrom]
  | cons b rest ih =>
    simp only [componentsFrom]
    split_ifs
    · exact ih _ _
    · exact cons_ne_nil _ _
    · exact ih _ _

lemma head_dropWhile_slash (path : List Byte) :
    (path.dropWhile (· = slashByte)).head? ≠ some slashByte := by
  intro h
  have := head?_dropWhile_not (fun b => decide (b = slashByte)) path
  rw [h] at this
  simp at this

lemma stripTmpPrefix_relative (h : stripTmpPrefix path = some rel)
    (hne : rel ≠ []) : Relative rel := by
  refine ⟨hne, ?_⟩
  unfold stripTmpPrefix at h
  split at h
  · split_ifs at h
    obtain rfl := some.inj h
    exact head_dropWhile_slash _
  · cases h

/-! ## Looking up names -/

lemma findChild_some {parent : Fin 64} (h : findChild nodes parent name = some i) :
    (nodes i).used ∧ (nodes i).parent = some parent ∧ (nodes i).name = name := by
  have := find?_some h
  simpa [and_assoc] using this

lemma findChild_none {parent : Fin 64} :
    findChild nodes parent name = none ↔
      ∀ i, (nodes i).used → (nodes i).parent = some parent → (nodes i).name ≠ name := by
  simp [findChild, find?_eq_none]

def Nodes.IsDirAt (nodes : Nodes) (i : Fin 64) : Prop := (nodes i).used ∧ (nodes i).isDir

lemma walkParent_spec (cs : List (List Byte)) {q : Fin 64}
    (h : walkParent nodes p cs = some (q, name)) :
    (nodes.IsDirAt p → nodes.IsDirAt q) ∧ name ∈ cs := by
  induction cs generalizing p with
  | nil => cases h
  | cons c cs ih =>
    cases cs with
    | nil =>
      obtain ⟨rfl, rfl⟩ := Prod.mk.inj (some.inj h)
      exact ⟨id, mem_singleton_self _⟩
    | cons c' cs =>
      simp only [walkParent] at h
      rcases hchild : findChild nodes p c with _ | child
      · simp [hchild] at h
      · simp only [hchild] at h
        split_ifs at h with hdir
        obtain ⟨hrest, hmem⟩ := ih h
        exact ⟨fun _ => hrest ⟨(findChild_some hchild).1, hdir⟩, mem_cons_of_mem _ hmem⟩

lemma resolveParent_spec (hstrip : stripTmpPrefix path = some rel)
    (h : resolveParent nodes rel = some (p, name)) :
    (nodes.IsDirAt tmpRoot → nodes.IsDirAt p) ∧ ValidName name := by
  unfold resolveParent at h
  split_ifs at h with hne
  obtain ⟨hdir, hmem⟩ := walkParent_spec _ h
  exact ⟨hdir, (stripTmpPrefix_relative hstrip hne).components_valid _ hmem⟩

/-! ## What the operations do to the table -/

def LowestUnused (nodes : Nodes) (i : Fin 64) : Prop :=
  (nodes i).used = false ∧ ∀ j < i, (nodes j).used

def newNode (parent : Fin 64) (name : List Byte) (isDir : Bool) : Node :=
  { clearNode with used := true, isDir := isDir, parent := some parent, name := name }

structure Adds (nodes : Nodes) (i p : Fin 64) (name : List Byte) (isDir : Bool)
    (nodes' : Nodes) : Prop where
  lowest : LowestUnused nodes i
  dir : nodes.IsDirAt tmpRoot → nodes.IsDirAt p
  valid : ValidName name
  free : findChild nodes p name = none
  result : nodes' = update nodes i (newNode p name isDir)

lemma find_finRange {n : ℕ} {test : Fin n → Bool} {i : Fin n}
    (h : (finRange n).find? test = some i) : test i ∧ ∀ j < i, test j = false := by
  obtain ⟨htest, k, hk, rfl, hfirst⟩ := find?_eq_some_iff_getElem.mp h
  refine ⟨htest, fun j hj => ?_⟩
  have := hfirst j.val (by simpa [Fin.lt_def] using hj)
  simpa using this

lemma addNode_spec (h : addNode nodes p name isDir = some (i, nodes')) :
    LowestUnused nodes i ∧ nodes' = update nodes i (newNode p name isDir) := by
  unfold addNode nodeAlloc at h
  rcases hfind : (finRange 64).find? fun i => !(nodes i).used with _ | k
  · simp [hfind] at h
  · obtain ⟨hunused, hbelow⟩ := find_finRange hfind
    simp only [hfind, map_some, some.injEq, Prod.mk.injEq, update_idem, update_self] at h
    obtain ⟨rfl, rfl⟩ := h
    exact ⟨⟨by simpa using hunused, fun j hj => by simpa using hbelow j hj⟩, rfl⟩

lemma ramfsMkdir_spec (h : ramfsMkdir nodes path = some nodes') :
    nodes' = nodes ∨ ∃ i p name, Adds nodes i p name true nodes' := by
  simp only [ramfsMkdir, Option.bind_eq_bind, Option.pure_def, Option.bind_eq_some_iff] at h
  obtain ⟨rel, hstrip, h⟩ := h
  split_ifs at h with hrel
  · exact .inl (Option.some.inj h).symm
  · obtain ⟨⟨p, leaf⟩, hparent, h⟩ := Option.bind_eq_some_iff.mp h
    obtain ⟨hdir, hvalid⟩ := resolveParent_spec hstrip hparent
    split_ifs at h with hleaf hfree
    obtain ⟨⟨i, added⟩, hadd, rfl⟩ := Option.map_eq_some_iff.mp h
    obtain ⟨hlowest, hresult⟩ := addNode_spec hadd
    exact .inr ⟨i, p, leaf, hlowest, hdir, hvalid, by simpa using hfree, hresult⟩

lemma ramfsCreateFile_spec (h : ramfsCreateFile nodes path = some (i, nodes')) :
    ∃ p name, Adds nodes i p name false nodes' := by
  simp only [ramfsCreateFile, bind_eq_bind, bind_eq_some_iff] at h
  obtain ⟨rel, hstrip, h⟩ := h
  split_ifs at h with hrel
  obtain ⟨⟨p, leaf⟩, hparent, h⟩ := bind_eq_some_iff.mp h
  obtain ⟨hdir, hvalid⟩ := resolveParent_spec hstrip hparent
  split_ifs at h with hfree
  obtain ⟨hlowest, hresult⟩ := addNode_spec h
  exact ⟨p, leaf, hlowest, hdir, hvalid, by simpa using hfree, hresult⟩

lemma openNode_spec {creat : Bool} (h : openNode nodes path creat = some (idx, nodes')) :
    nodes' = nodes ∨ creat ∧ ∃ i p name, Adds nodes i p name false nodes' := by
  simp only [openNode, Option.bind_eq_bind, Option.pure_def, Option.bind_eq_some_iff] at h
  obtain ⟨rel, -, h⟩ := h
  by_cases hrel : rel = []
  · rw [if_pos hrel] at h
    obtain ⟨-, rfl⟩ := Prod.mk.inj (Option.some.inj h)
    exact .inl rfl
  · rw [if_neg hrel] at h
    rcases hresolve : resolve nodes rel with _ | found
    · simp only [hresolve] at h
      split_ifs at h with hcreat
      obtain ⟨⟨i, created⟩, hcreate, h⟩ := Option.bind_eq_some_iff.mp h
      obtain ⟨found, -, h⟩ := Option.map_eq_some_iff.mp h
      obtain ⟨-, rfl⟩ := Prod.mk.inj h
      obtain ⟨p, name, hadds⟩ := ramfsCreateFile_spec hcreate
      exact .inr ⟨hcreat, i, p, name, hadds⟩
    · simp only [hresolve] at h
      obtain ⟨-, rfl⟩ := Prod.mk.inj (Option.some.inj h)
      exact .inl rfl

lemma removalTarget_spec (h : removalTarget nodes path = some idx) :
    (nodes idx).used ∧ ∃ p, (nodes idx).parent = some p := by
  simp only [removalTarget, bind_eq_bind, bind_eq_some_iff] at h
  obtain ⟨rel, -, h⟩ := h
  split_ifs at h
  obtain ⟨⟨p, leaf⟩, -, h⟩ := bind_eq_some_iff.mp h
  split_ifs at h
  obtain ⟨hused, hparent, -⟩ := findChild_some h
  exact ⟨hused, p, hparent⟩

lemma ramfsUnlinkOp_spec (h : ramfsUnlinkOp nodes path = some nodes') :
    ∃ idx, removalTarget nodes path = some idx ∧ nodes' = nodeRelease nodes idx := by
  obtain ⟨idx, htarget, h⟩ := bind_eq_some_iff.mp h
  exact ⟨idx, htarget, (some.inj h).symm⟩

lemma ramfsRmdirOp_spec (h : ramfsRmdirOp nodes path = some nodes') :
    ∃ idx, removalTarget nodes path = some idx ∧ nodeChildCount nodes idx = 0 ∧
      nodes' = nodeRelease nodes idx := by
  obtain ⟨idx, htarget, h⟩ := bind_eq_some_iff.mp h
  split_ifs at h with hdir hempty
  exact ⟨idx, htarget, Nat.eq_zero_of_not_pos hempty, (some.inj h).symm⟩

lemma renameTarget_spec {old new : List Byte}
    (h : renameTarget nodes old new = some (idx, p, name)) :
    ((nodes idx).used ∧ ∃ q, (nodes idx).parent = some q) ∧
      (nodes.IsDirAt tmpRoot → nodes.IsDirAt p) ∧ ValidName name ∧
      findChild nodes p name = none := by
  simp only [renameTarget, Option.bind_eq_bind, Option.pure_def, Option.bind_eq_some_iff] at h
  obtain ⟨oldRel, -, newRel, hstrip, h⟩ := h
  split_ifs at h with hempty
  obtain ⟨⟨q, oldLeaf⟩, -, h⟩ := Option.bind_eq_some_iff.mp h
  obtain ⟨⟨p', newLeaf⟩, hparent, h⟩ := Option.bind_eq_some_iff.mp h
  split_ifs at h with hleaf hfree
  · simp at h
  obtain ⟨found, hfound, h⟩ := Option.bind_eq_some_iff.mp h
  obtain ⟨rfl, rfl, rfl⟩ : found = idx ∧ p' = p ∧ newLeaf = name := by
    simpa using Option.some.inj h
  obtain ⟨hused, holdParent, -⟩ := findChild_some hfound
  obtain ⟨hdir, hvalid⟩ := resolveParent_spec hstrip hparent
  exact ⟨⟨hused, q, holdParent⟩, hdir, hvalid, by simpa using hfree⟩

lemma ramfsRenameOp_spec {old new : List Byte} (h : ramfsRenameOp nodes old new = .done nodes') :
    ∃ idx p name, renameTarget nodes old new = some (idx, p, name) ∧
      ((nodes idx).isDir →
        climb (fun i => (nodes i).parent) tmpRoot idx 64 (some p) = some false) ∧
      nodes' = moveNode nodes idx p name := by
  unfold ramfsRenameOp at h
  rcases htarget : renameTarget nodes old new with _ | ⟨idx, p, name⟩
  · simp [htarget] at h
  · simp only [htarget] at h
    refine ⟨idx, p, name, rfl, ?_⟩
    by_cases hdir : (nodes idx).isDir
    · rw [if_pos hdir] at h
      split at h
      · cases h
      · cases h
      · rename_i hclimb
        exact ⟨fun _ => hclimb, (RenameResult.done.inj h).symm⟩
    · rw [if_neg hdir] at h
      exact ⟨fun h => absurd h hdir, (RenameResult.done.inj h).symm⟩

lemma ramfsOpen_spec (nodes) (path) (flags : OpenFlags) (memory : Bool) :
    ∃ created, (created = nodes ∨
        flags.creat ∧ ∃ i p name, Adds nodes i p name false created) ∧
      ((ramfsOpen nodes path flags memory).2 = created ∨
        ∃ idx, (ramfsOpen nodes path flags memory).2 = truncate created idx flags.trunc) := by
  unfold ramfsOpen
  rcases hopen : openNode nodes path flags.creat with _ | ⟨idx, created⟩
  · exact ⟨nodes, .inl rfl, .inl rfl⟩
  · refine ⟨created, openNode_spec hopen, ?_⟩
    dsimp only
    split_ifs
    · exact .inl rfl
    · exact .inr ⟨idx, rfl⟩
    · exact .inr ⟨idx, rfl⟩
    · exact .inr ⟨idx, rfl⟩

def SameTree (nodes nodes' : Nodes) : Prop :=
  ∀ i, (nodes' i).used = (nodes i).used ∧ (nodes' i).isDir = (nodes i).isDir ∧
    (nodes' i).name = (nodes i).name ∧ (nodes' i).parent = (nodes i).parent

lemma sameTree_update {n : Node} (hn : n.used = (nodes i).used ∧ n.isDir = (nodes i).isDir ∧
    n.name = (nodes i).name ∧ n.parent = (nodes i).parent) :
    SameTree nodes (update nodes i n) := by
  intro j
  by_cases hj : j = i
  · subst hj
    simpa using hn
  · simp [update_of_ne hj]

lemma sameTree_truncate (nodes) (idx) (trunc : Bool) :
    SameTree nodes (truncate nodes idx trunc) := by
  unfold truncate
  split_ifs
  · exact sameTree_update ⟨rfl, rfl, rfl, rfl⟩
  · exact fun i => ⟨rfl, rfl, rfl, rfl⟩

lemma enlarge_tree {n n' : Node} {need : ℕ} (h : enlarge n need fresh = some n') :
    n'.used = n.used ∧ n'.isDir = n.isDir ∧ n'.name = n.name ∧ n'.parent = n.parent := by
  unfold enlarge at h
  split_ifs at h
  · obtain ⟨_, -, rfl⟩ := map_eq_some_iff.mp h
    exact ⟨rfl, rfl, rfl, rfl⟩
  · obtain rfl := some.inj h
    exact ⟨rfl, rfl, rfl, rfl⟩

def Node.stored (n : Node) (pos : ℕ) (data : List Byte) (need : ℕ) : Node :=
  { n with
    data := n.data.map fun memory => store memory pos data
    size := max n.size need }

lemma ramfsWrite_some {h h' : Handle} {bytes : List Byte}
    (hwrite : ramfsWrite nodes h bytes fresh = some (h', nodes')) :
    ∃ n, enlarge (nodes h.node) (u64 (h.pos + bytes.length)) fresh = some n ∧
      u64 (h.pos + bytes.length) ≤ 65536 ∧
      h' = { h with pos := u64 (h.pos + bytes.length) } ∧
      nodes' = update nodes h.node
        (n.stored h.pos bytes (u64 (h.pos + bytes.length))) := by
  unfold ramfsWrite at hwrite
  dsimp only at hwrite
  split_ifs at hwrite with hrefused hbig
  obtain ⟨n, henlarge, hresult⟩ := map_eq_some_iff.mp hwrite
  obtain ⟨rfl, rfl⟩ := Prod.mk.inj hresult
  exact ⟨n, henlarge, not_lt.mp hbig, rfl, rfl⟩

lemma ramfsWrite_sameTree {h h' : Handle} {bytes : List Byte}
    (hwrite : ramfsWrite nodes h bytes fresh = some (h', nodes')) : SameTree nodes nodes' := by
  obtain ⟨n, henlarge, -, -, rfl⟩ := ramfsWrite_some hwrite
  obtain ⟨hused, hdir, hname, hparent⟩ := enlarge_tree henlarge
  exact sameTree_update ⟨hused, hdir, hname, hparent⟩

/-! ## One step and one node -/

variable {s s' : State} {e : Event}

def Event.creates : Event → Bool
  | .mkdir _ => true
  | .openFile _ flags _ => flags.creat
  | _ => false

structure SameData (n n' : Node) : Prop where
  used : n'.used = n.used
  isDir : n'.isDir = n.isDir
  data : n'.data = n.data
  cap : n'.cap = n.cap

inductive NodeStep (s : State) (e : Event) (s' : State) (j : Fin 64) : Prop
  | kept (hsame : SameData (s.nodes j) (s'.nodes j))
      (hsize : (s'.nodes j).size = (s.nodes j).size)
  | added {p : Fin 64} {name : List Byte} {isDir : Bool} (hlowest : LowestUnused s.nodes j)
      (hcreates : e.creates) (hnew : s'.nodes j = newNode p name isDir)
  | emptied (path : List Byte) (flags : OpenFlags) (memory : Bool)
      (hevent : e = .openFile path flags memory) (hsame : SameData (s.nodes j) (s'.nodes j))
      (hsize : (s'.nodes j).size = 0)
  | removed (path : List Byte) (hremoves : e = .unlink path ∨ e = .rmdir path)
      (htarget : removalTarget s.nodes path = some j) (hgone : s'.nodes j = clearNode)
  | written (hd : ℕ) (bytes : List Byte) (fresh : Option (ℕ → Byte)) (handle handle' : Handle)
      (hevent : e = .write hd bytes fresh) (hopen : s.handles hd = some handle)
      (hnode : handle.node = j)
      (hwrite : ramfsWrite s.nodes handle bytes fresh = some (handle', s'.nodes))

lemma NodeStep.refl (hsame : s'.nodes j = s.nodes j) : NodeStep s e s' j :=
  .kept ⟨by rw [hsame], by rw [hsame], by rw [hsame], by rw [hsame]⟩ (by rw [hsame])

lemma Adds.node (h : Adds nodes i p name isDir nodes') (j) :
    nodes' j = nodes j ∨ LowestUnused nodes j ∧ nodes' j = newNode p name isDir := by
  obtain ⟨hlowest, -, -, -, rfl⟩ := h
  by_cases hj : j = i
  · subst hj
    exact .inr ⟨hlowest, update_self ..⟩
  · exact .inl (update_of_ne hj _ _)

lemma truncate_node (nodes) (idx) (trunc : Bool) (j) :
    truncate nodes idx trunc j = nodes j ∨
      truncate nodes idx trunc j = { nodes j with size := 0 } := by
  unfold truncate
  split_ifs
  · by_cases hj : j = idx
    · subst hj
      exact .inr (update_self ..)
    · exact .inl (update_of_ne hj _ _)
  · exact .inl rfl

lemma nodeRelease_node (nodes) (idx j) :
    nodeRelease nodes idx j = nodes j ∨ idx = j ∧ nodeRelease nodes idx j = clearNode := by
  by_cases hj : j = idx
  · subst hj
    exact .inr ⟨rfl, update_self ..⟩
  · exact .inl (update_of_ne hj _ _)

@[simp] lemma install_nodes (s : State) (result : Option Handle × Nodes) :
    (s.install result).nodes = result.2 := by
  unfold State.install
  split <;> rfl

lemma step_node (hstep : s.step e = some s') (j) : NodeStep s e s' j := by
  cases e with
  | mkdir path =>
    obtain rfl := some.inj hstep
    rcases hmkdir : ramfsMkdir s.nodes path with _ | nodes'
    · exact .refl (by simp)
    · rcases ramfsMkdir_spec hmkdir with rfl | ⟨i, p, name, hadds⟩
      · exact .refl (by simp)
      · rcases hadds.node j with hkept | ⟨hlowest, hnew⟩
        · exact .refl (by simpa [hmkdir] using hkept)
        · exact .added hlowest rfl (by simpa [hmkdir] using hnew)
  | openFile path flags memory =>
    obtain rfl := some.inj hstep
    have hnodes := install_nodes s (ramfsOpen s.nodes path flags memory)
    obtain ⟨created, hcreated, hresult⟩ := ramfsOpen_spec s.nodes path flags memory
    have hfinal : (ramfsOpen s.nodes path flags memory).2 j = created j ∨
        (ramfsOpen s.nodes path flags memory).2 j = { created j with size := 0 } := by
      rcases hresult with hresult | ⟨idx, hresult⟩ <;> rw [hresult]
      · exact .inl rfl
      · exact truncate_node created idx flags.trunc j
    have hnode : created j = s.nodes j ∨ flags.creat ∧ ∃ p name, LowestUnused s.nodes j ∧
        created j = newNode p name false := by
      rcases hcreated with rfl | ⟨hcreat, i, p, name, hadds⟩
      · exact .inl rfl
      · rcases hadds.node j with hkept | ⟨hlowest, hnew⟩
        · exact .inl hkept
        · exact .inr ⟨hcreat, p, name, hlowest, hnew⟩
    rw [← hnodes] at hfinal
    rcases hnode with hkept | ⟨hcreat, p, name, hlowest, hnew⟩
    · rw [hkept] at hfinal
      rcases hfinal with hfinal | hfinal
      · exact .refl hfinal
      · exact .emptied path flags memory rfl
          ⟨by rw [hfinal], by rw [hfinal], by rw [hfinal], by rw [hfinal]⟩ (by rw [hfinal])
    · rw [hnew] at hfinal
      exact .added hlowest hcreat (hfinal.elim id id)
  | read h len =>
    obtain ⟨handle, -, rfl⟩ := map_eq_some_iff.mp hstep
    refine .refl ?_
    split <;> rfl
  | write h bytes fresh =>
    obtain ⟨handle, hopen, rfl⟩ := map_eq_some_iff.mp hstep
    rcases hwrite : ramfsWrite s.nodes handle bytes fresh with _ | ⟨handle', nodes'⟩
    · exact .refl (by simp)
    · by_cases hnode : handle.node = j
      · exact .written h bytes fresh handle handle' rfl hopen hnode (by simp [hwrite])
      · obtain ⟨n, -, -, -, rfl⟩ := ramfsWrite_some hwrite
        exact .refl (update_of_ne (Ne.symm hnode) _ _)
  | close h =>
    obtain ⟨handle, -, rfl⟩ := map_eq_some_iff.mp hstep
    exact .refl rfl
  | unlink path =>
    obtain rfl := some.inj hstep
    rcases hunlink : ramfsUnlinkOp s.nodes path with _ | nodes'
    · exact .refl (by simp)
    · obtain ⟨idx, htarget, rfl⟩ := ramfsUnlinkOp_spec hunlink
      rcases nodeRelease_node s.nodes idx j with hkept | ⟨rfl, hgone⟩
      · exact .refl (by simpa [hunlink] using hkept)
      · exact .removed path (.inl rfl) htarget (by simpa [hunlink] using hgone)
  | rmdir path =>
    obtain rfl := some.inj hstep
    rcases hrmdir : ramfsRmdirOp s.nodes path with _ | nodes'
    · exact .refl (by simp)
    · obtain ⟨idx, htarget, -, rfl⟩ := ramfsRmdirOp_spec hrmdir
      rcases nodeRelease_node s.nodes idx j with hkept | ⟨rfl, hgone⟩
      · exact .refl (by simpa [hrmdir] using hkept)
      · exact .removed path (.inr rfl) htarget (by simpa [hrmdir] using hgone)
  | rename old new =>
    simp only [State.step] at hstep
    split at hstep
    · rename_i hrename
      obtain rfl := some.inj hstep
      obtain ⟨idx, p, name, -, -, rfl⟩ := ramfsRenameOp_spec hrename
      by_cases hj : j = idx
      · subst hj
        exact .kept ⟨by simp [moveNode], by simp [moveNode], by simp [moveNode],
          by simp [moveNode]⟩ (by simp [moveNode])
      · exact .refl (update_of_ne hj _ _)
    · exact .refl (some.inj hstep ▸ rfl)
    · cases hstep

end HelixOS.Ramfs
