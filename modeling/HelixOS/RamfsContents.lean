import HelixOS.RamfsTree

/-!
# The contents of a file below `/tmp`

A file is a list of at most 65536 bytes with a position for each of its handles, as long
as no write begins behind the end of the file.
-/

namespace HelixOS.Ramfs

open ParentPointers TrackedRuns Function Option List

variable {data : List Byte} {pos need : ℕ} {flags : OpenFlags} {memory trunc : Bool}
  {fresh : Option (ℕ → Byte)} {path : List Byte} {created : Nodes} {nodes nodes' : Nodes}
  {n n' : Node} {i idx : Fin 64}

/-! ## One node -/

def Node.content (n : Node) : List Byte :=
  (range n.size).map (n.data.getD fun _ => 0#8)

structure Node.Sound (n : Node) : Prop where
  size_le : n.size ≤ n.cap
  cap_le : n.cap ≤ 65536
  memory : n.cap ≠ 0 → ∃ memory, n.data = some memory

@[simp] lemma length_content (n : Node) : n.content.length = n.size := by
  simp [Node.content]

lemma getElem_content {k : ℕ} (h : k < n.content.length) :
    n.content[k] = (n.data.getD fun _ => 0#8) k := by
  simp [Node.content]

/-- The bytes `data` at the position `pos`; what is missing before it is filled with
zeros. -/
def splice (bytes : List Byte) (pos : ℕ) (data : List Byte) : List Byte :=
  bytes.take pos ++ replicate (pos - bytes.length) 0#8 ++ data ++
    bytes.drop (pos + data.length)

lemma length_splice (bytes data) (pos) :
    (splice bytes pos data).length = max bytes.length (pos + data.length) := by
  simp only [splice, length_append, length_take, length_replicate, length_drop]
  omega

lemma splice_of_le (bytes data) (hpos : pos ≤ bytes.length) :
    splice bytes pos data = bytes.take pos ++ data ++ bytes.drop (pos + data.length) := by
  simp [splice, Nat.sub_eq_zero_of_le hpos]

lemma le_growCap (need rounds ncap : ℕ) (hpos : 0 < ncap) (hrounds : need ≤ ncap + rounds) :
    need ≤ growCap need rounds ncap := by
  induction rounds generalizing ncap with
  | zero => simpa [growCap] using hrounds
  | succ rounds ih =>
    rw [growCap]
    split_ifs with hlt
    · exact ih (ncap * 2) (by omega) (by omega)
    · omega

lemma le_newCap (cap : ℕ) (hneed : need ≤ 65536) : need ≤ newCap cap need := by
  have hstart : 0 < if cap = 0 then 256 else cap * 2 := by
    split_ifs <;> omega
  exact le_min (le_growCap need need _ hstart (Nat.le_add_left _ _)) hneed

lemma enlarge_spec (hn : n.Sound) (hneed : need ≤ 65536) (h : enlarge n need fresh = some n') :
    n'.Sound ∧ need ≤ n'.cap ∧ n'.size = n.size ∧ n'.content = n.content := by
  unfold enlarge at h
  split_ifs at h with hcap
  · obtain ⟨memory, -, rfl⟩ := map_eq_some_iff.mp h
    have hroom := le_newCap n.cap hneed
    refine ⟨⟨?_, min_le_right _ _, fun _ => ⟨_, rfl⟩⟩, hroom, rfl, ?_⟩
    · exact hn.size_le.trans (hcap.le.trans hroom)
    · apply ext_getElem (by simp)
      intro k hk hk'
      have hsize : k < n.size := by simpa using hk'
      have hcapPos : n.cap ≠ 0 := by
        have := hn.size_le
        omega
      obtain ⟨old, hold⟩ := hn.memory hcapPos
      simp [getElem_content, hold, hsize]
  · obtain rfl := some.inj h
    exact ⟨hn, not_lt.mp hcap, rfl, rfl⟩

lemma sound_stored (hn : n.Sound) (hneed : need ≤ n.cap) : (n.stored pos data need).Sound where
  size_le := max_le hn.size_le hneed
  cap_le := hn.cap_le
  memory := by
    intro hcap
    obtain ⟨memory, hmemory⟩ := hn.memory hcap
    exact ⟨_, by rw [Node.stored, hmemory]; rfl⟩

lemma content_stored (hn : n.Sound) (hpos : pos ≤ n.size) (hneed : pos + data.length ≤ n.cap) :
    (n.stored pos data (pos + data.length)).content = splice n.content pos data := by
  apply ext_getElem
  · simp [Node.stored, length_splice]
  intro k hk hk'
  have hsize : k < max n.size (pos + data.length) := by simpa [Node.stored] using hk
  have hcap : n.cap ≠ 0 := by
    have := hn.size_le
    omega
  obtain ⟨memory, hmemory⟩ := hn.memory hcap
  have hlen : (n.content.take pos).length = pos := by simpa using hpos
  rw [getElem_content, Node.stored, hmemory]
  simp only [map_some, getD_some, store]
  simp only [splice_of_le n.content data (by simpa using hpos)]
  by_cases hbefore : k < pos
  · have hleft : k < (n.content.take pos ++ data).length := by
      rw [length_append, hlen]
      omega
    rw [if_neg (by omega), getElem_append_left hleft,
      getElem_append_left (by omega), getElem_take, getElem_content, hmemory]
    rfl
  · by_cases hinside : k < pos + data.length
    · have hleft : k < (n.content.take pos ++ data).length := by
        rw [length_append, hlen]
        omega
      rw [if_pos ⟨not_lt.mp hbefore, hinside⟩, getElem_append_left hleft, getElem_append_right (by
        omega), getD_eq_getElem?_getD, getElem?_eq_getElem (by omega), getD_some]
      simp only [hlen]
    · have hright : (n.content.take pos ++ data).length ≤ k := by
        rw [length_append, hlen]
        omega
      rw [if_neg (by omega), getElem_append_right hright, getElem_drop, getElem_content, hmemory]
      simp only [length_append, hlen, getD_some]
      congr 1
      omega

/-! ## Reading and writing -/

variable {h h' : Handle} {bytes : List Byte}

def readAt (content : List Byte) (pos len : ℕ) : List Byte := (content.drop pos).take len

lemma ramfsRead_node {len : ℕ} (hread : ramfsRead nodes h len = some (bytes, h')) :
    h'.node = h.node := by
  unfold ramfsRead at hread
  dsimp only at hread
  split_ifs at hread
  · obtain ⟨-, rfl⟩ := Prod.mk.inj (some.inj hread)
    rfl
  · obtain ⟨-, rfl⟩ := Prod.mk.inj (some.inj hread)
    rfl

lemma ramfsRead_spec (hfile : (nodes h.node).isDir = false) (len : ℕ) :
    ramfsRead nodes h len =
      some (readAt (nodes h.node).content h.pos len,
        { h with pos := h.pos + (readAt (nodes h.node).content h.pos len).length }) := by
  rw [ramfsRead]
  simp only [hfile, Bool.false_eq_true, if_false]
  by_cases hend : (nodes h.node).size ≤ h.pos
  · have hnil : readAt (nodes h.node).content h.pos len = [] := by
      simp [readAt, drop_eq_nil_of_le, hend]
    rw [if_pos hend, hnil]
    rfl
  · rw [if_neg hend]
    have hlen : (readAt (nodes h.node).content h.pos len).length =
        min ((nodes h.node).size - h.pos) len := by
      simp [readAt, Nat.min_comm]
    have hbytes : readAt (nodes h.node).content h.pos len =
        (range (min ((nodes h.node).size - h.pos) len)).map fun i =>
          ((nodes h.node).data.getD fun _ => 0#8) (h.pos + i) := by
      apply ext_getElem
      · simpa using hlen
      · intro k hk hk'
        simp [readAt, getElem_content]
    rw [hlen, hbytes]

lemma u64_of_lt {k : ℕ} (hk : k < 2 ^ 64) : u64 k = k := Nat.mod_eq_of_lt hk

lemma ramfsWrite_spec (hn : (nodes h.node).Sound) (hpos : h.pos ≤ (nodes h.node).size)
    (hwrap : h.pos + bytes.length < 2 ^ 64)
    (hwrite : ramfsWrite nodes h bytes fresh = some (h', nodes')) :
    h' = { h with pos := h.pos + bytes.length } ∧ h.pos + bytes.length ≤ 65536 ∧
      (nodes' h.node).content = splice (nodes h.node).content h.pos bytes ∧
      ∀ j, j ≠ h.node → nodes' j = nodes j := by
  obtain ⟨n, henlarge, hneed, rfl, rfl⟩ := ramfsWrite_some hwrite
  rw [u64_of_lt hwrap] at hneed henlarge ⊢
  obtain ⟨hsound, hroom, hsize, hcontent⟩ := enlarge_spec hn hneed henlarge
  refine ⟨rfl, hneed, ?_, fun j hj => update_of_ne hj _ _⟩
  rw [update_self, content_stored hsound (hsize ▸ hpos) hroom, hcontent]

lemma ramfsWrite_none (hwrap : h.pos + bytes.length < 2 ^ 64) :
    ramfsWrite nodes h bytes fresh = none ↔
      h.writable = false ∨ (nodes h.node).isDir ∨ 65536 < h.pos + bytes.length ∨
        (nodes h.node).cap < h.pos + bytes.length ∧ fresh = none := by
  simp only [ramfsWrite, u64_of_lt hwrap]
  by_cases hrefused : (!h.writable || (nodes h.node).isDir) = true
  · rw [if_pos hrefused]
    simp only [Bool.or_eq_true, Bool.not_eq_true', true_iff] at hrefused ⊢
    tauto
  · rw [if_neg hrefused]
    simp only [Bool.or_eq_true, Bool.not_eq_true', not_or] at hrefused
    by_cases hbig : 65536 < h.pos + bytes.length
    · simp [hbig]
    · rw [if_neg hbig, map_eq_none_iff, enlarge]
      by_cases hcap : (nodes h.node).cap < h.pos + bytes.length
      · simp [hcap, hbig, hrefused]
      · simp [hcap, hbig, hrefused]

/-! ## All nodes -/

variable {s s' : State} {e : Event}

lemma SameData.sound (hsame : SameData n n') (hn : n.Sound) (hsize : n'.size ≤ n.size) :
    n'.Sound where
  size_le := by
    rw [hsame.cap]
    exact hsize.trans hn.size_le
  cap_le := hsame.cap ▸ hn.cap_le
  memory := by
    rw [hsame.cap, hsame.data]
    exact hn.memory

lemma sound_newNode (p : Fin 64) (name : List Byte) (isDir : Bool) :
    (newNode p name isDir).Sound :=
  ⟨le_rfl, Nat.zero_le _, fun h => absurd rfl h⟩

lemma step_sound (hs : ∀ j, (s.nodes j).Sound) (hstep : s.step e = some s') (j : Fin 64) :
    (s'.nodes j).Sound := by
  cases step_node hstep j with
  | kept hsame hsize => exact hsame.sound (hs j) hsize.le
  | added hlowest hcreates hnew => exact hnew ▸ sound_newNode _ _ _
  | emptied _ _ _ _ hsame hsize => exact hsame.sound (hs j) (by omega)
  | removed path hremoves htarget hgone =>
    rw [hgone]
    exact ⟨le_rfl, Nat.zero_le _, fun h => absurd rfl h⟩
  | written hd bytes fresh handle handle' hevent hopen hnode hwrite =>
    obtain ⟨n, henlarge, hneed, -, hnodes⟩ := ramfsWrite_some hwrite
    obtain ⟨hsound, hroom, -, -⟩ := enlarge_spec (hs handle.node) hneed henlarge
    rw [hnodes, ← hnode, update_self]
    exact sound_stored hsound hroom

lemma sound_ramfsInit (j : Fin 64) : (ramfsInit.nodes j).Sound := by
  unfold ramfsInit
  by_cases hj : j = tmpRoot
  · subst hj
    exact ⟨le_rfl, Nat.zero_le _, fun h => absurd rfl h⟩
  · simp only [update_of_ne hj]
    exact ⟨le_rfl, Nat.zero_le _, fun h => absurd rfl h⟩

/-! ## A file and its handles -/

/-- A file as its users see it: the bytes, and the position of each handle. -/
structure FileModel where
  bytes : List Byte
  pos : ℕ → ℕ

namespace FileModel

def truncated (a : FileModel) (trunc : Bool) : FileModel :=
  if trunc then { a with bytes := [] } else a

def opened (a : FileModel) (hd : ℕ) (append : Bool) : FileModel :=
  { a with pos := update a.pos hd (if append then a.bytes.length else 0) }

def read (a : FileModel) (hd len : ℕ) : List Byte × FileModel :=
  let bytes := readAt a.bytes (a.pos hd) len
  (bytes, { a with pos := update a.pos hd (a.pos hd + bytes.length) })

def write (a : FileModel) (hd : ℕ) (data : List Byte) : FileModel where
  bytes := splice a.bytes (a.pos hd) data
  pos := update a.pos hd (a.pos hd + data.length)

end FileModel

/-- The file that a node stands for. -/
def fileModel (i : Fin 64) (s : State) : FileModel where
  bytes := (s.nodes i).content
  pos := fun hd => ((s.handles hd).map Handle.pos).getD 0

def State.onFile (s : State) (i : Fin 64) (hd : ℕ) : Bool :=
  (s.handles hd).any fun handle => decide (handle.node = i)

def State.accepts (s : State) (hd : ℕ) (data : List Byte) (fresh : Option (ℕ → Byte)) : Bool :=
  (s.handles hd).any fun handle => (ramfsWrite s.nodes handle data fresh).isSome

/-- What the events of the file system mean for the file in the slot `i`. -/
def fileNote (i : Fin 64) (s : State) (e : Event) (_ : State) (a : FileModel) : FileModel :=
  match e with
  | .openFile path flags memory =>
    if (openNode s.nodes path flags.creat).map Prod.fst = some i then
      if memory then (a.truncated flags.trunc).opened s.opened flags.append
      else a.truncated flags.trunc
    else a
  | .read hd len => if s.onFile i hd then (a.read hd len).2 else a
  | .write hd data fresh =>
    if s.onFile i hd && s.accepts hd data fresh then a.write hd data else a
  | _ => a

/-- The file is not removed. -/
def KeepsFile (i : Fin 64) (s : State) : Event → Prop
  | .unlink path => removalTarget s.nodes path ≠ some i
  | .rmdir path => removalTarget s.nodes path ≠ some i
  | _ => True

/-- A write to the file does not begin behind its end, nor does the sum of its position and
length wrap around. -/
def NoGap (i : Fin 64) (s : State) : Event → Prop
  | .write hd data _ => ∀ handle, s.handles hd = some handle → handle.node = i →
      handle.pos ≤ (s.nodes i).size ∧ handle.pos + data.length < 2 ^ 64
  | _ => True

structure Follows (i : Fin 64) (s : State) (a : FileModel) : Prop where
  sound : ∀ j, (s.nodes j).Sound
  used : (s.nodes i).used
  isFile : (s.nodes i).isDir = false
  content : (s.nodes i).content = a.bytes
  positions : ∀ hd handle, s.handles hd = some handle → handle.node = i → handle.pos = a.pos hd

variable {a : FileModel}

lemma content_eq_of_same (hsame : SameData n n') (hsize : n'.size = n.size) :
    n'.content = n.content := by
  rw [Node.content, Node.content, hsize, hsame.data]

lemma Follows.quiet (hf : Follows i s a) (hsound : ∀ j, (s'.nodes j).Sound)
    (hsame : SameData (s.nodes i) (s'.nodes i)) (hsize : (s'.nodes i).size = (s.nodes i).size)
    (hhandles : ∀ hd handle, s'.handles hd = some handle → handle.node = i →
      s.handles hd = some handle) : Follows i s' a where
  sound := hsound
  used := hsame.used ▸ hf.used
  isFile := hsame.isDir ▸ hf.isFile
  content := (content_eq_of_same hsame hsize).trans hf.content
  positions := fun hd handle hopen hi => hf.positions hd handle (hhandles hd handle hopen hi) hi

lemma SameData.refl (n) : SameData n n := ⟨rfl, rfl, rfl, rfl⟩

lemma Follows.other (hf : Follows i s a) (hstep : s.step e = some s')
    (hopens : ∀ path flags memory, e ≠ .openFile path flags memory)
    (hwrites : ∀ hd data fresh, e ≠ .write hd data fresh) (hkeeps : KeepsFile i s e)
    (hhandles : ∀ hd handle, s'.handles hd = some handle → handle.node = i →
      s.handles hd = some handle) : Follows i s' a := by
  have hsound := step_sound hf.sound hstep
  cases step_node hstep i with
  | kept hsame hsize => exact hf.quiet hsound hsame hsize hhandles
  | added hlowest =>
    have hused := hf.used
    rw [hlowest.1] at hused
    cases hused
  | emptied path flags memory hevent => exact absurd hevent (hopens path flags memory)
  | removed path hremoves htarget =>
    rcases hremoves with rfl | rfl
    · exact absurd htarget hkeeps
    · exact absurd htarget hkeeps
  | written hd data fresh handle handle' hevent => exact absurd hevent (hwrites hd data fresh)

lemma openNode_node {creat : Bool}
    (h : openNode nodes path creat = some (idx, created)) (hi : (nodes i).used) :
    created i = nodes i := by
  rcases openNode_spec h with rfl | ⟨-, k, p, name, hadds⟩
  · rfl
  · rcases hadds.node i with hkept | ⟨hlowest, -⟩
    · exact hkept
    · rw [hlowest.1] at hi
      cases hi

def newHandle (idx : Fin 64) (flags : OpenFlags) (size : ℕ) : Handle where
  node := idx
  pos := if flags.append then size else 0
  writable := flags.wronly || flags.rdwr || flags.creat || flags.trunc || flags.append

lemma ramfsOpen_file (memory) (hopen : openNode nodes path flags.creat = some (idx, created))
    (hfile : (created idx).isDir = false) :
    ramfsOpen nodes path flags memory =
      (if memory then
        some (newHandle idx flags (truncate created idx flags.trunc idx).size) else none,
        truncate created idx flags.trunc) := by
  simp only [ramfsOpen, hopen, hfile, Bool.and_false, Bool.false_eq_true, if_false]
  cases memory <;> rfl

lemma truncate_other (hne : i ≠ idx) : truncate nodes idx trunc i = nodes i := by
  unfold truncate
  split_ifs
  · exact update_of_ne hne _ _
  · rfl

lemma truncate_file (hfile : (nodes i).isDir = false) :
    truncate nodes i trunc i = if trunc then { nodes i with size := 0 } else nodes i := by
  cases trunc <;> simp [truncate, hfile]

lemma ramfsOpen_other (memory) (hopen : openNode nodes path flags.creat = some (idx, created))
    (hne : i ≠ idx) : (ramfsOpen nodes path flags memory).2 i = created i ∧
      ∀ handle, (ramfsOpen nodes path flags memory).1 = some handle → handle.node = idx := by
  simp only [ramfsOpen, hopen]
  by_cases hdir : ((flags.wronly || flags.rdwr || flags.trunc || flags.creat) &&
      (created idx).isDir) = true
  · simp [hdir]
  · rw [if_neg hdir]
    cases memory with
    | false => simp [truncate_other hne]
    | true =>
      refine ⟨truncate_other hne, ?_⟩
      intro handle hhandle
      exact (some.inj hhandle) ▸ rfl

lemma install_handles (s : State) (result : Option Handle × Nodes) (hd : ℕ) :
    (s.install result).handles hd = s.handles hd ∨
      hd = s.opened ∧ (s.install result).handles hd = result.1 := by
  unfold State.install
  split
  · by_cases hhd : hd = s.opened
    · subst hhd
      exact .inr ⟨rfl, by simp [*]⟩
    · exact .inl (update_of_ne hhd _ _)
  · exact .inl rfl

lemma Follows.truncated_content (hf : Follows i s a) (hcreated : created i = s.nodes i)
    (trunc) : (truncate created i trunc i).content = (a.truncated trunc).bytes := by
  have hfile : (created i).isDir = false := hcreated ▸ hf.isFile
  rw [truncate_file hfile, hcreated]
  cases trunc with
  | false => exact hf.content
  | true => rfl

lemma Follows.open_this (hf : Follows i s a) (memory)
    (hopen : openNode s.nodes path flags.creat = some (i, created))
    (hsound : ∀ j, ((s.install (ramfsOpen s.nodes path flags memory)).nodes j).Sound) :
    Follows i (s.install (ramfsOpen s.nodes path flags memory))
      (if memory then (a.truncated flags.trunc).opened s.opened flags.append
        else a.truncated flags.trunc) := by
  have hcreated : created i = s.nodes i := openNode_node hopen hf.used
  have hfile : (created i).isDir = false := hcreated ▸ hf.isFile
  have hcontent := hf.truncated_content hcreated flags.trunc
  have hsize : (truncate created i flags.trunc i).size =
      (a.truncated flags.trunc).bytes.length := by
    rw [← hcontent, length_content]
  have hpos : (a.truncated flags.trunc).pos = a.pos := by
    cases flags.trunc <;> rfl
  obtain ⟨hused, hdir, -⟩ := sameTree_truncate created i flags.trunc i
  rw [hcreated] at hused hdir
  rw [ramfsOpen_file memory hopen hfile] at hsound ⊢
  cases memory with
  | false =>
    refine ⟨hsound, hused.trans hf.used, hdir.trans hf.isFile, hcontent, ?_⟩
    intro hd handle hhandle hi
    rw [if_neg Bool.false_ne_true, hpos]
    exact hf.positions hd handle hhandle hi
  | true =>
    refine ⟨hsound, hused.trans hf.used, hdir.trans hf.isFile, hcontent, ?_⟩
    intro hd handle hhandle hi
    simp only [if_true, FileModel.opened, hpos]
    by_cases hhd : hd = s.opened
    · subst hhd
      obtain rfl : _ = handle := by
        simpa [State.install] using hhandle
      simp [newHandle, hsize]
    · rw [update_of_ne hhd]
      exact hf.positions hd handle (by simpa [State.install, hhd] using hhandle) hi

lemma Follows.open_file (hf : Follows i s a) (path : List Byte) (flags : OpenFlags)
    (memory : Bool) (hstep : s.step (.openFile path flags memory) = some s') :
    Follows i s' (fileNote i s (.openFile path flags memory) s' a) := by
  have hsound := step_sound hf.sound hstep
  obtain rfl := some.inj hstep
  simp only [fileNote]
  rcases hopen : openNode s.nodes path flags.creat with _ | ⟨idx, created⟩
  · have hresult : ramfsOpen s.nodes path flags memory = (none, s.nodes) := by
      simp [ramfsOpen, hopen]
    refine hf.quiet hsound ?_ ?_ ?_ <;> rw [hresult]
    · exact .refl _
    · rfl
    · exact fun hd handle hhandle _ => hhandle
  · have hcreated : created i = s.nodes i := openNode_node hopen hf.used
    by_cases hidx : idx = i
    · subst hidx
      rw [if_pos (by simp)]
      exact hf.open_this memory hopen hsound
    · rw [if_neg (by simpa using hidx)]
      obtain ⟨hnode, hhandle⟩ := ramfsOpen_other memory hopen (Ne.symm hidx)
      have hsame : (s.install (ramfsOpen s.nodes path flags memory)).nodes i = s.nodes i := by
        rw [install_nodes, hnode, hcreated]
      refine hf.quiet hsound (hsame ▸ .refl _) (by rw [hsame]) ?_
      intro hd handle hopened hi
      rcases install_handles s (ramfsOpen s.nodes path flags memory) hd with hold | ⟨-, hnew⟩
      · rw [← hold, hopened]
      · rw [hnew] at hopened
        exact absurd ((hhandle handle hopened).symm.trans hi) hidx

lemma onFile_iff {hd : ℕ} {handle : Handle} (hopen : s.handles hd = some handle) :
    s.onFile i hd = decide (handle.node = i) := by
  simp [State.onFile, hopen]

lemma Follows.read (hf : Follows i s a) (hd len : ℕ) (hstep : s.step (.read hd len) = some s') :
    Follows i s' (fileNote i s (.read hd len) s' a) := by
  have hsound := step_sound hf.sound hstep
  obtain ⟨handle, hopen, rfl⟩ := map_eq_some_iff.mp hstep
  simp only [fileNote, onFile_iff hopen, decide_eq_true_eq]
  by_cases hi : handle.node = i
  · subst hi
    rw [if_pos rfl]
    have hread := ramfsRead_spec hf.isFile len
    simp only [hread] at hsound ⊢
    refine ⟨hsound, hf.used, hf.isFile, hf.content, ?_⟩
    intro hd' handle' hopen' hnode
    simp only [FileModel.read]
    by_cases hhd : hd' = hd
    · subst hhd
      obtain rfl : _ = handle' := by simpa using hopen'
      simp [hf.positions hd' handle hopen rfl, hf.content]
    · simp only [update_of_ne hhd] at hopen' ⊢
      exact hf.positions hd' handle' hopen' hnode
  · rw [if_neg hi]
    rcases hread : ramfsRead s.nodes handle len with _ | ⟨bytes, handle'⟩
    · exact hf
    · refine hf.quiet (by simpa [hread] using hsound) (.refl _) rfl ?_
      intro hd' handle'' hopen' hnode
      by_cases hhd : hd' = hd
      · subst hhd
        obtain rfl : handle' = handle'' := by simpa using hopen'
        exact absurd ((ramfsRead_node hread).symm.trans hnode) hi
      · simpa [update_of_ne hhd] using hopen'

lemma Follows.write (hf : Follows i s a) (hd : ℕ) (data) (fresh)
    (hgap : NoGap i s (.write hd data fresh)) (hstep : s.step (.write hd data fresh) = some s') :
    Follows i s' (fileNote i s (.write hd data fresh) s' a) := by
  have hsound := step_sound hf.sound hstep
  obtain ⟨handle, hopen, rfl⟩ := map_eq_some_iff.mp hstep
  simp only [fileNote, onFile_iff hopen, State.accepts, hopen, any_some]
  rcases hwrite : ramfsWrite s.nodes handle data fresh with _ | ⟨handle', nodes'⟩
  · rw [if_neg (by simp)]
    exact hf
  · obtain ⟨-, -, -, hhandle', -⟩ := ramfsWrite_some hwrite
    simp only [hwrite] at hsound
    by_cases hi : handle.node = i
    · subst hi
      rw [if_pos (by simp)]
      obtain ⟨hpos, hwrap⟩ := hgap handle hopen rfl
      obtain ⟨rfl, -, hcontent, -⟩ := ramfsWrite_spec (hf.sound _) hpos hwrap hwrite
      have hstart := hf.positions hd handle hopen rfl
      obtain ⟨hused, hdir, -⟩ := ramfsWrite_sameTree hwrite handle.node
      refine ⟨hsound, hused.trans hf.used, hdir.trans hf.isFile, ?_, ?_⟩
      · rw [hcontent, hf.content, hstart]
        rfl
      · intro hd' handle'' hopen' hnode
        simp only [FileModel.write]
        by_cases hhd : hd' = hd
        · subst hhd
          obtain rfl : _ = handle'' := by simpa using hopen'
          simp [hstart]
        · simp only [update_of_ne hhd] at hopen' ⊢
          exact hf.positions hd' handle'' hopen' hnode
    · rw [if_neg (by simp [hi])]
      have hnode : nodes' i = s.nodes i := by
        obtain ⟨n, -, -, -, rfl⟩ := ramfsWrite_some hwrite
        exact update_of_ne (Ne.symm hi) _ _
      refine hf.quiet hsound (hnode ▸ .refl _) (congrArg Node.size hnode) ?_
      intro hd' handle'' hopen' hnode'
      by_cases hhd : hd' = hd
      · subst hhd
        obtain rfl : handle' = handle'' := by simpa using hopen'
        rw [hhandle'] at hnode'
        exact absurd hnode' hi
      · simpa [update_of_ne hhd] using hopen'

lemma Follows.step (hf : Follows i s a) (hkeeps : KeepsFile i s e) (hgap : NoGap i s e)
    (hstep : s.step e = some s') : Follows i s' (fileNote i s e s' a) := by
  cases e with
  | mkdir path =>
    refine hf.other hstep (by simp) (by simp) hkeeps ?_
    obtain rfl := some.inj hstep
    exact fun _ _ hopen _ => hopen
  | openFile path flags memory => exact hf.open_file path flags memory hstep
  | read hd len => exact hf.read hd len hstep
  | write hd data fresh => exact hf.write hd data fresh hgap hstep
  | close hd =>
    refine hf.other hstep (by simp) (by simp) hkeeps ?_
    obtain ⟨_, -, rfl⟩ := map_eq_some_iff.mp hstep
    intro hd' handle hopen _
    by_cases hhd : hd' = hd
    · simp [hhd] at hopen
    · simpa [update_of_ne hhd] using hopen
  | unlink path =>
    refine hf.other hstep (by simp) (by simp) hkeeps ?_
    obtain rfl := some.inj hstep
    exact fun _ _ hopen _ => hopen
  | rmdir path =>
    refine hf.other hstep (by simp) (by simp) hkeeps ?_
    obtain rfl := some.inj hstep
    exact fun _ _ hopen _ => hopen
  | rename old new =>
    refine hf.other hstep (by simp) (by simp) hkeeps ?_
    simp only [State.step] at hstep
    split at hstep
    · obtain rfl := some.inj hstep
      exact fun _ _ hopen _ => hopen
    · obtain rfl := some.inj hstep
      exact fun _ _ hopen _ => hopen
    · cases hstep

lemma sound_of_reach {u : Unit} {s₀ : State}
    (hinit : Reaches State.step (fun _ _ _ _ => ()) (fun _ _ => True) ramfsInit () s₀ u) :
    ∀ j, (s₀.nodes j).Sound :=
  hinit.invariant (fun s _ => ∀ j, (s.nodes j).Sound) sound_ramfsInit
    fun _ _ _ _ hs _ hstep => step_sound hs hstep

lemma follows_fileModel (hsound : ∀ j, (s.nodes j).Sound) (hused : (s.nodes i).used)
    (hfile : (s.nodes i).isDir = false) : Follows i s (fileModel i s) := by
  refine ⟨hsound, hused, hfile, rfl, ?_⟩
  intro hd handle hopen _
  simp [fileModel, hopen]

/-- As long as no write begins behind the end of the file, a file that is not removed
behaves as a list of at most 65536 bytes: its handles read what the list holds, and a write
is refused only for want of permission, room or memory. -/
theorem file_follows_model {u : Unit} {s₀ : State}
    (hinit : Reaches State.step (fun _ _ _ _ => ()) (fun _ _ => True) ramfsInit () s₀ u)
    (hused : (s₀.nodes i).used) (hfile : (s₀.nodes i).isDir = false)
    (hreach : Reaches State.step (fileNote i) (fun s e => KeepsFile i s e ∧ NoGap i s e)
      s₀ (fileModel i s₀) s a) :
    (s.nodes i).content = a.bytes ∧ a.bytes.length ≤ 65536 ∧
    ∀ hd handle, s.handles hd = some handle → handle.node = i →
      handle.pos = a.pos hd ∧
      (∀ len, ramfsRead s.nodes handle len =
        some ((a.read hd len).1, { handle with pos := (a.read hd len).2.pos hd })) ∧
      ∀ data fresh, a.pos hd + data.length < 2 ^ 64 →
        (ramfsWrite s.nodes handle data fresh = none ↔
          handle.writable = false ∨ 65536 < a.pos hd + data.length ∨
            (s.nodes i).cap < a.pos hd + data.length ∧ fresh = none) := by
  have hf : Follows i s a :=
    hreach.invariant (Follows i) (follows_fileModel (sound_of_reach hinit) hused hfile)
      fun _ _ _ _ hf hallowed hstep => hf.step hallowed.1 hallowed.2 hstep
  refine ⟨hf.content, ?_, ?_⟩
  · rw [← hf.content, length_content]
    exact (hf.sound i).size_le.trans (hf.sound i).cap_le
  · rintro hd handle hopen rfl
    have hpos := hf.positions hd handle hopen rfl
    refine ⟨hpos, ?_, ?_⟩
    · intro len
      rw [ramfsRead_spec hf.isFile, hf.content, hpos]
      simp [FileModel.read]
    · intro data fresh hwrap
      rw [ramfsWrite_none (hpos ▸ hwrap), hpos, hf.isFile]
      simp

theorem file_follows_model_three_bytes :
    let creation : Event := .openFile (joinPath [[0x66#8]]) ⟨true, false, true, false, false⟩ true
    let writing : Event := .write 0 [1#8, 2#8, 3#8] (some fun _ => 0xEE#8)
    ∃ s₀ s a, run State.step (fun _ _ _ _ => ()) [creation] ramfsInit () = some (s₀, ()) ∧
      run State.step (fileNote 1) [writing] s₀ (fileModel 1 s₀) = some (s, a) ∧
      (s.nodes 1).content = a.bytes ∧ a.bytes = [1#8, 2#8, 3#8] ∧
      ∀ handle, s.handles 0 = some handle → handle.node = 1 → handle.pos = a.pos 0 := by
  intro creation writing
  refine ⟨_, _, _, rfl, rfl, ?_⟩
  have hmodel := file_follows_model (i := 1)
    (Reaches.start.next creation trivial rfl) (by decide +kernel) (by decide +kernel)
    (Reaches.start.next writing
      ⟨trivial, by
        intro handle hhandle _
        obtain rfl := some.inj hhandle
        decide +kernel⟩ rfl)
  exact ⟨hmodel.1, by decide +kernel, fun handle hopen hnode => (hmodel.2.2 0 handle hopen hnode).1⟩

/-- Three bytes are written, the file is emptied through a second handle, and the first
one writes on: the three old bytes are back where zeros should stand. -/
theorem truncated_bytes_return :
    let path := joinPath [[0x66#8]]
    let events : List Event :=
      [.openFile path ⟨true, false, true, false, false⟩ true,
        .write 0 [1#8, 2#8, 3#8] (some fun _ => 0xEE#8),
        .openFile path ⟨true, false, false, true, false⟩ true,
        .write 0 [9#8] none]
    ∃ s a, run State.step (fileNote 1) events ramfsInit (fileModel 1 ramfsInit) = some (s, a) ∧
      (s.nodes 1).content = [1#8, 2#8, 3#8, 9#8] ∧ a.bytes = [0#8, 0#8, 0#8, 9#8] := by
  refine ⟨_, _, rfl, ?_⟩
  decide +kernel

/-! ## Appending -/

def appendNote (i : Fin 64) (s : State) (e : Event) (_ : State) (records : List (List Byte)) :
    List (List Byte) :=
  match e with
  | .write hd data fresh =>
    if s.onFile i hd && s.accepts hd data fresh then records ++ [data] else records
  | _ => records

/-- The file is neither removed nor emptied, and no write goes past its 65536 bytes. -/
def Appending (i : Fin 64) (s : State) : Event → Prop
  | .openFile path flags _ =>
    (openNode s.nodes path flags.creat).map Prod.fst = some i → flags.trunc = false
  | .write hd data _ => ∀ handle, s.handles hd = some handle → handle.node = i →
      handle.pos + data.length ≤ 65536
  | e => KeepsFile i s e

/-- Writes go to the end of the file. -/
def AtEnd (i : Fin 64) (s : State) : Event → Prop
  | .write hd _ _ => ∀ handle, s.handles hd = some handle → handle.node = i →
      handle.pos = (s.nodes i).size
  | _ => True

lemma Appending.keepsFile (happend : Appending i s e) : KeepsFile i s e := by
  cases e with
  | openFile => trivial
  | write => trivial
  | _ => exact happend

lemma AtEnd.noGap (hend : AtEnd i s e) (happend : Appending i s e) : NoGap i s e := by
  cases e with
  | write hd data fresh =>
    intro handle hopen hi
    have hroom := happend handle hopen hi
    exact ⟨(hend handle hopen hi).le, by omega⟩
  | _ => trivial

lemma AtEnd.appends {records : List (List Byte)} {old : List Byte} (hend : AtEnd i s e)
    (happend : Appending i s e) (hcontent : (s.nodes i).content = old ++ records.flatten) :
    (fileNote i s e s' (fileModel i s)).bytes =
      old ++ (appendNote i s e s' records).flatten := by
  cases e with
  | openFile path flags memory =>
    simp only [fileNote]
    split_ifs with hthis
    · rw [happend hthis]
      exact hcontent
    · rw [happend hthis]
      exact hcontent
    · exact hcontent
  | read hd len =>
    simp only [fileNote]
    split_ifs
    · exact hcontent
    · exact hcontent
  | write hd data fresh =>
    simp only [fileNote, appendNote]
    split_ifs with haccepted
    · obtain ⟨handle, hopen, hi⟩ : ∃ handle, s.handles hd = some handle ∧ handle.node = i := by
        simpa [State.onFile, Option.any_eq_true] using (Bool.and_eq_true_iff.mp haccepted).1
      have hpos : (fileModel i s).pos hd = (fileModel i s).bytes.length := by
        simpa [fileModel, hopen] using hend handle hopen hi
      rw [FileModel.write, hpos, splice_of_le _ _ le_rfl, take_length,
        drop_eq_nil_of_le (Nat.le_add_right _ _)]
      simp [fileModel, hcontent]
    · exact hcontent
  | _ => exact hcontent

/-- As long as each write begins at the end of the file, the file holds what it held before
and then the records in the order of the writes, and no write at its end is refused for
another reason than permission or memory. -/
theorem appended_in_order {u : Unit} {s₀ : State} {records : List (List Byte)}
    (hinit : Reaches State.step (fun _ _ _ _ => ()) (fun _ _ => True) ramfsInit () s₀ u)
    (hused : (s₀.nodes i).used) (hfile : (s₀.nodes i).isDir = false)
    (hreach : Reaches State.step (appendNote i) (fun s e => Appending i s e ∧ AtEnd i s e)
      s₀ [] s records) :
    (s.nodes i).content = (s₀.nodes i).content ++ records.flatten ∧
    ∀ hd data memory, Appending i s (.write hd data (some memory)) →
      AtEnd i s (.write hd data (some memory)) →
      ∀ handle, s.handles hd = some handle → handle.node = i → handle.writable = true →
        (ramfsWrite s.nodes handle data (some memory)).isSome := by
  obtain ⟨hf, hcontent⟩ := hreach.invariant
    (fun s records => Follows i s (fileModel i s) ∧
      (s.nodes i).content = (s₀.nodes i).content ++ records.flatten)
    ⟨follows_fileModel (sound_of_reach hinit) hused hfile, by simp⟩
    fun _ _ _ _ hinv hallowed hstep => by
      have hf := hinv.1.step hallowed.1.keepsFile (hallowed.2.noGap hallowed.1) hstep
      exact ⟨follows_fileModel hf.sound hf.used hf.isFile,
        hf.content.trans (hallowed.2.appends hallowed.1 hinv.2)⟩
  refine ⟨hcontent, ?_⟩
  rintro hd data memory happend hend handle hopen rfl hwritable
  have hroom := happend handle hopen rfl
  rw [isSome_iff_ne_none, Ne, ramfsWrite_none (by omega), hf.isFile, hwritable]
  simp [hroom]

theorem appended_in_order_twice :
    let creation : Event := .openFile (joinPath [[0x66#8]]) ⟨true, false, true, false, true⟩ true
    let writing (b : Byte) : Event := .write 0 [b] (some fun _ => 0xEE#8)
    ∃ s₀ s, run State.step (fun _ _ _ _ => ()) [creation] ramfsInit () = some (s₀, ()) ∧
      run State.step (appendNote 1) [writing 1#8, writing 2#8] s₀ [] = some (s, [[1#8], [2#8]]) ∧
      (s.nodes 1).content = (s₀.nodes 1).content ++ [1#8, 2#8] := by
  intro creation writing
  have hallowed {s : State} {handle : Handle} {b : Byte} (hhandle : s.handles 0 = some handle)
      (hpos : handle.pos = (s.nodes 1).size ∧ handle.pos + 1 ≤ 65536) :
      Appending 1 s (writing b) ∧ AtEnd 1 s (writing b) := by
    refine ⟨fun handle' hopen _ => ?_, fun handle' hopen _ => ?_⟩
    · obtain rfl := some.inj (hhandle.symm.trans hopen)
      exact hpos.2
    · obtain rfl := some.inj (hhandle.symm.trans hopen)
      exact hpos.1
  refine ⟨_, _, rfl, rfl, ?_⟩
  exact (appended_in_order (Reaches.start.next creation trivial rfl) (by decide +kernel)
    (by decide +kernel) ((Reaches.start.next (writing 1#8)
      (hallowed rfl (by decide +kernel)) rfl).next (writing 2#8)
      (hallowed rfl (by decide +kernel)) rfl)).1

/-- Two handles are opened for appending, and each writes one byte: the second one
overwrites the first. -/
theorem second_appender_overwrites :
    let opening : Event := .openFile (joinPath [[0x66#8]]) ⟨true, false, true, false, true⟩ true
    let events : List Event :=
      [opening, .write 0 [1#8] (some fun _ => 0xEE#8), .write 1 [2#8] none]
    ∃ s₀ s, run State.step (fun _ _ _ _ => ()) [opening] ramfsInit () = some (s₀, ()) ∧
      run State.step (appendNote 1) events s₀ [] = some (s, [[1#8], [2#8]]) ∧
      (s₀.nodes 1).content = [] ∧ (s.nodes 1).content = [2#8] := by
  refine ⟨_, _, rfl, rfl, ?_⟩
  decide +kernel

end HelixOS.Ramfs
