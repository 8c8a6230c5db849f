import HelixOS.RamfsContents

/-!
# Handles and the files they were opened on

A handle keeps the number of a slot.  A slot is used again after its file has been unlinked,
so a handle that is still open may come to refer to another file.
-/

namespace HelixOS.Ramfs

open ParentPointers TrackedRuns Function Option List

variable {s s' : State} {e : Event} {i j : Fin 64}

/-- Files are numbered by the step that created them: the file of a slot, the file a handle was
opened on, and the bytes written to each. -/
structure Owners where
  file : Fin 64 → ℕ
  next : ℕ
  owner : ℕ → ℕ
  written : Set (ℕ × ℕ × Byte)

def noOwners : Owners := ⟨fun _ => 0, 1, fun _ => 0, ∅⟩

def Owners.enter (o : Owners) (s s' : State) : Owners :=
  { o with
    file := fun i => if (s'.nodes i).used && !(s.nodes i).used then o.next else o.file i
    next := o.next + 1 }

def Owners.open (o : Owners) (s s' : State) : Owners :=
  match s'.handles s.opened with
  | some handle => { o with owner := update o.owner s.opened (o.file handle.node) }
  | none => o

def Owners.write (o : Owners) (s : State) (hd : ℕ) (bytes : List Byte)
    (fresh : Option (ℕ → Byte)) : Owners :=
  match s.handles hd with
  | some handle =>
    if (ramfsWrite s.nodes handle bytes fresh).isSome then
      { o with
        written := o.written ∪
          {w | w.1 = o.owner hd ∧ handle.pos ≤ w.2.1 ∧ bytes[w.2.1 - handle.pos]? = some w.2.2} }
    else o
  | none => o

def ownersNote (s : State) (e : Event) (s' : State) (o : Owners) : Owners :=
  match e with
  | .openFile _ _ _ => (o.enter s s').open s s'
  | .write hd bytes fresh => (o.enter s s').write s hd bytes fresh
  | _ => o.enter s s'

/-- A new node does not take a slot that an open handle refers to, and no write begins
behind the end of its file or wraps around. -/
def KeepsApart (s : State) (e : Event) : Prop :=
  (e.creates → ∀ i, LowestUnused s.nodes i →
    ∀ hd handle, s.handles hd = some handle → handle.node ≠ i) ∧
  ∀ i, NoGap i s e

/-- Every slot has its own file, every handle refers to its file, and the files hold what
has been written to them. -/
structure Apart (s : State) (o : Owners) : Prop where
  sound : ∀ i, (s.nodes i).Sound
  below : ∀ i, o.file i < o.next
  distinct : ∀ i j, (s.nodes i).used → (s.nodes j).used → o.file i = o.file j → i = j
  owned : ∀ hd handle, s.handles hd = some handle → o.file handle.node = o.owner hd
  content : ∀ i k b, (s.nodes i).content[k]? = some b → (o.file i, k, b) ∈ o.written

variable {o : Owners}

/-! ## Slots -/

lemma step_newly_used (hstep : s.step e = some s') (hnew : (s'.nodes i).used)
    (hold : (s.nodes i).used = false) : LowestUnused s.nodes i ∧ e.creates := by
  have hkept : (s'.nodes i).used ≠ (s.nodes i).used := by simp [hnew, hold]
  cases step_node hstep i with
  | kept hsame => exact absurd hsame.used hkept
  | added hlowest hcreates => exact ⟨hlowest, hcreates⟩
  | emptied _ _ _ _ hsame => exact absurd hsame.used hkept
  | removed _ _ _ hgone =>
    rw [hgone] at hnew
    cases hnew
  | written _ _ _ _ _ _ _ _ hwrite => exact absurd (ramfsWrite_sameTree hwrite i).1 hkept

lemma LowestUnused.unique {nodes : Nodes} (hi : LowestUnused nodes i)
    (hj : LowestUnused nodes j) : i = j := by
  rcases lt_trichotomy i j with hlt | rfl | hlt
  · have hused := hj.2 i hlt
    rw [hi.1] at hused
    cases hused
  · rfl
  · have hused := hi.2 j hlt
    rw [hj.1] at hused
    cases hused

lemma enter_file (hold : (s'.nodes i).used = false ∨ (s.nodes i).used) :
    (o.enter s s').file i = o.file i := by
  rcases hold with hold | hold <;> simp [Owners.enter, hold]

lemma enter_file_new (hnew : (s'.nodes i).used) (hold : (s.nodes i).used = false) :
    (o.enter s s').file i = o.next := by
  simp [Owners.enter, hnew, hold]

lemma enter_file_cases (hstep : s.step e = some s') (o : Owners) (i : Fin 64) :
    (o.enter s s').file i = o.file i ∨
      (o.enter s s').file i = o.next ∧ LowestUnused s.nodes i ∧ e.creates := by
  by_cases hnew : (s'.nodes i).used
  · rcases hold : (s.nodes i).used with _ | _
    · exact .inr ⟨enter_file_new hnew hold, step_newly_used hstep hnew hold⟩
    · exact .inl (enter_file (.inr hold))
  · exact .inl (enter_file (.inl (by simpa using hnew)))

lemma Apart.below_enter (ha : Apart s o) (hstep : s.step e = some s') (i : Fin 64) :
    (o.enter s s').file i < (o.enter s s').next := by
  have hnext : (o.enter s s').next = o.next + 1 := rfl
  rcases enter_file_cases hstep o i with hfile | ⟨hfile, -⟩
  · rw [hfile, hnext]
    exact (ha.below i).trans (Nat.lt_succ_self _)
  · rw [hfile, hnext]
    exact Nat.lt_succ_self _

lemma Apart.distinct_enter (ha : Apart s o) (hstep : s.step e = some s') (hi : (s'.nodes i).used)
    (hj : (s'.nodes j).used) (heq : (o.enter s s').file i = (o.enter s s').file j) : i = j := by
  rcases hold : (s.nodes i).used with _ | _ <;> rcases hold' : (s.nodes j).used with _ | _
  · exact (step_newly_used hstep hi hold).1.unique (step_newly_used hstep hj hold').1
  · rw [enter_file_new hi hold, enter_file (.inr hold')] at heq
    exact absurd heq.symm (ha.below j).ne
  · rw [enter_file (.inr hold), enter_file_new hj hold'] at heq
    exact absurd heq (ha.below i).ne
  · rw [enter_file (.inr hold), enter_file (.inr hold')] at heq
    exact ha.distinct i j hold hold' heq

lemma Apart.owned_enter (ha : Apart s o) (hallowed : KeepsApart s e) (hstep : s.step e = some s')
    {hd : ℕ} {handle : Handle} (hopen : s.handles hd = some handle) : (o.enter s s').file
    handle.node = o.owner hd := by
  rcases enter_file_cases hstep o handle.node with hfile | ⟨-, hlowest, hcreates⟩
  · rw [hfile, ha.owned hd handle hopen]
  · exact absurd rfl (hallowed.1 hcreates _ hlowest hd handle hopen)

/-! ## Contents -/

lemma Apart.content_enter (ha : Apart s o) (hstep : s.step e = some s')
    (hwrites : ∀ hd bytes fresh, e ≠ .write hd bytes fresh) {k : ℕ} {b : Byte}
    (hb : (s'.nodes i).content[k]? = some b) : ((o.enter s s').file i, k, b) ∈ o.written := by
  have hempty : (s'.nodes i).size = 0 → False := by
    intro hsize
    have hk : k < (s'.nodes i).content.length := (List.getElem?_eq_some_iff.mp hb).1
    rw [length_content, hsize] at hk
    exact Nat.not_lt_zero _ hk
  cases step_node hstep i with
  | kept hsame hsize =>
    rw [content_eq_of_same hsame hsize] at hb
    have hfile : (o.enter s s').file i = o.file i := by
      rcases hold : (s.nodes i).used with _ | _
      · exact enter_file (.inl (hsame.used.trans hold))
      · exact enter_file (.inr hold)
    rw [hfile]
    exact ha.content i k b hb
  | added _ _ hnew => exact (hempty (by rw [hnew]; rfl)).elim
  | emptied _ _ _ _ _ hsize => exact (hempty hsize).elim
  | removed _ _ _ hgone => exact (hempty (by rw [hgone]; rfl)).elim
  | written hd bytes fresh _ _ hevent => exact absurd hevent (hwrites hd bytes fresh)

lemma getElem?_splice {content data : List Byte} {pos k : ℕ} {b : Byte}
    (hpos : pos ≤ content.length) (hb : (splice content pos data)[k]? = some b) :
    content[k]? = some b ∨ pos ≤ k ∧ data[k - pos]? = some b := by
  rw [splice_of_le content data hpos, append_assoc] at hb
  have hlen : (content.take pos).length = pos := by simpa using hpos
  by_cases hbefore : k < pos
  · rw [getElem?_append_left (by omega), getElem?_take_of_lt hbefore] at hb
    exact .inl hb
  · rw [getElem?_append_right (by omega), hlen] at hb
    by_cases hinside : k - pos < data.length
    · rw [getElem?_append_left hinside] at hb
      exact .inr ⟨not_lt.mp hbefore, hb⟩
    · rw [getElem?_append_right (not_lt.mp hinside), getElem?_drop] at hb
      have hplace : pos + data.length + (k - pos - data.length) = k := by omega
      exact .inl (hplace ▸ hb)

/-! ## Steps -/

lemma Apart.plain (ha : Apart s o) (hallowed : KeepsApart s e) (hstep : s.step e = some s')
    (hwrites : ∀ hd bytes fresh, e ≠ .write hd bytes fresh)
    (hhandles : ∀ hd handle', s'.handles hd = some handle' →
      ∃ handle, s.handles hd = some handle ∧ handle'.node = handle.node) :
    Apart s' (o.enter s s') where
  sound := step_sound ha.sound hstep
  below := ha.below_enter hstep
  distinct := fun _ _ hi hj heq => ha.distinct_enter hstep hi hj heq
  owned := by
    intro hd handle' hopen'
    obtain ⟨handle, hopen, hnode⟩ := hhandles hd handle' hopen'
    rw [hnode]
    exact ha.owned_enter hallowed hstep hopen
  content := fun _ _ _ hb => ha.content_enter hstep hwrites hb

lemma Apart.open_file (ha : Apart s o) (path : List Byte) (flags : OpenFlags) (memory : Bool)
    (hallowed : KeepsApart s (.openFile path flags memory))
    (hstep : s.step (.openFile path flags memory) = some s') :
    Apart s' ((o.enter s s').open s s') := by
  have hsound := step_sound ha.sound hstep
  have hbelow := ha.below_enter hstep
  have hcontent : ∀ i k b, (s'.nodes i).content[k]? = some b →
      ((o.enter s s').file i, k, b) ∈ o.written :=
    fun _ _ _ hb => ha.content_enter hstep (by simp) hb
  have hdistinct : ∀ i j, (s'.nodes i).used → (s'.nodes j).used →
      (o.enter s s').file i = (o.enter s s').file j → i = j :=
    fun _ _ hi hj heq => ha.distinct_enter hstep hi hj heq
  -- the handles that were open before
  have howned : ∀ hd handle, hd ≠ s.opened → s'.handles hd = some handle →
      (o.enter s s').file handle.node = o.owner hd := by
    intro hd handle hhd hopen'
    refine ha.owned_enter hallowed hstep ?_
    obtain rfl := some.inj hstep
    rcases install_handles s (ramfsOpen s.nodes path flags memory) hd with hkept | ⟨heq, -⟩
    · rw [← hkept, hopen']
    · exact absurd heq hhd
  unfold Owners.open
  rcases hnew : s'.handles s.opened with _ | newHandle
  · refine ⟨hsound, hbelow, hdistinct, ?_, hcontent⟩
    intro hd handle hopen'
    have hhd : hd ≠ s.opened := by
      rintro rfl
      rw [hnew] at hopen'
      cases hopen'
    exact howned hd handle hhd hopen'
  · refine ⟨hsound, hbelow, hdistinct, ?_, hcontent⟩
    intro hd handle hopen'
    by_cases hhd : hd = s.opened
    · subst hhd
      obtain rfl := some.inj (hnew.symm.trans hopen')
      simp
    · exact (howned hd handle hhd hopen').trans (update_of_ne hhd _ _).symm

lemma Apart.write (ha : Apart s o) (hd : ℕ) (bytes : List Byte) (fresh : Option (ℕ → Byte))
    (hallowed : KeepsApart s (.write hd bytes fresh))
    (hstep : s.step (.write hd bytes fresh) = some s') :
    Apart s' ((o.enter s s').write s hd bytes fresh) := by
  have hsound := step_sound ha.sound hstep
  have hbelow := ha.below_enter hstep
  have hdistinct : ∀ i j, (s'.nodes i).used → (s'.nodes j).used →
      (o.enter s s').file i = (o.enter s s').file j → i = j :=
    fun _ _ hi hj heq => ha.distinct_enter hstep hi hj heq
  have hfile : ∀ i, (o.enter s s').file i = o.file i := by
    intro i
    rcases enter_file_cases hstep o i with hfile | ⟨-, -, hcreates⟩
    · exact hfile
    · cases hcreates
  obtain ⟨handle, hopen, hs'⟩ := map_eq_some_iff.mp hstep
  simp only [Owners.write, hopen]
  rcases hwrite : ramfsWrite s.nodes handle bytes fresh with _ | ⟨handle', nodes'⟩
  · simp only [hwrite] at hs'
    subst hs'
    refine ⟨hsound, hbelow, hdistinct, ?_, ?_⟩
    · intro hd' handle' hopen'
      exact (hfile _).trans (ha.owned hd' handle' hopen')
    · intro i k b hb
      exact (hfile i).symm ▸ ha.content i k b hb
  · simp only [hwrite] at hs'
    have hnodes : s'.nodes = nodes' := hs' ▸ rfl
    obtain ⟨hpos, hwrap⟩ := hallowed.2 handle.node handle hopen rfl
    obtain ⟨rfl, -, hcontent, hother⟩ := ramfsWrite_spec (ha.sound _) hpos hwrap hwrite
    refine ⟨hsound, hbelow, hdistinct, ?_, ?_⟩
    · intro hd' handle'' hopen'
      refine (hfile _).trans ?_
      subst hs'
      by_cases hhd : hd' = hd
      · subst hhd
        obtain rfl : _ = handle'' := by simpa using hopen'
        exact ha.owned hd' handle hopen
      · exact ha.owned hd' handle'' (by simpa [update_of_ne hhd] using hopen')
    · intro i k b hb
      simp only [isSome_some, if_true, hfile]
      rw [hnodes] at hb
      by_cases hi : i = handle.node
      · subst hi
        rw [hcontent] at hb
        rcases getElem?_splice (by simpa using hpos) hb with hold | ⟨hk, hnew⟩
        · exact .inl (ha.content handle.node k b hold)
        · exact .inr ⟨ha.owned hd handle hopen, hk, hnew⟩
      · rw [hother i hi] at hb
        exact .inl (ha.content i k b hb)

lemma Apart.step (ha : Apart s o) (hallowed : KeepsApart s e) (hstep : s.step e = some s') :
    Apart s' (ownersNote s e s' o) := by
  cases e with
  | mkdir path =>
    refine ha.plain hallowed hstep (by simp) ?_
    obtain rfl := some.inj hstep
    exact fun _ handle hopen => ⟨handle, hopen, rfl⟩
  | openFile path flags memory => exact ha.open_file path flags memory hallowed hstep
  | read hd len =>
    refine ha.plain hallowed hstep (by simp) ?_
    obtain ⟨handle, hopen, rfl⟩ := map_eq_some_iff.mp hstep
    intro hd' handle' hopen'
    rcases hread : ramfsRead s.nodes handle len with _ | ⟨bytes, handle''⟩
    · exact ⟨handle', by simpa [hread] using hopen', rfl⟩
    · by_cases hhd : hd' = hd
      · subst hhd
        obtain rfl : handle'' = handle' := by simpa [hread] using hopen'
        exact ⟨handle, hopen, ramfsRead_node hread⟩
      · exact ⟨handle', by simpa [hread, update_of_ne hhd] using hopen', rfl⟩
  | write hd bytes fresh => exact ha.write hd bytes fresh hallowed hstep
  | close hd =>
    refine ha.plain hallowed hstep (by simp) ?_
    obtain ⟨_, -, rfl⟩ := map_eq_some_iff.mp hstep
    intro hd' handle hopen
    by_cases hhd : hd' = hd
    · simp [hhd] at hopen
    · exact ⟨handle, by simpa [update_of_ne hhd] using hopen, rfl⟩
  | unlink path =>
    refine ha.plain hallowed hstep (by simp) ?_
    obtain rfl := some.inj hstep
    exact fun _ handle hopen => ⟨handle, hopen, rfl⟩
  | rmdir path =>
    refine ha.plain hallowed hstep (by simp) ?_
    obtain rfl := some.inj hstep
    exact fun _ handle hopen => ⟨handle, hopen, rfl⟩
  | rename old new =>
    refine ha.plain hallowed hstep (by simp) ?_
    simp only [State.step] at hstep
    split at hstep
    · obtain rfl := some.inj hstep
      exact fun _ handle hopen => ⟨handle, hopen, rfl⟩
    · obtain rfl := some.inj hstep
      exact fun _ handle hopen => ⟨handle, hopen, rfl⟩
    · cases hstep

lemma apart_ramfsInit : Apart ramfsInit noOwners where
  sound := sound_ramfsInit
  below := fun _ => Nat.one_pos
  distinct := by
    have hroot : ∀ i, (ramfsInit.nodes i).used → i = tmpRoot := by
      intro i hi
      by_contra hne
      simp [ramfsInit, update_of_ne hne, clearNode] at hi
    intro i j hi hj _
    rw [hroot i hi, hroot j hj]
  owned := by
    intro hd handle hopen
    cases hopen
  content := by
    have hempty : ∀ i, (ramfsInit.nodes i).content = [] := by
      intro i
      by_cases hi : i = tmpRoot
      · subst hi
        rfl
      · simp [ramfsInit, update_of_ne hi, clearNode, Node.content]
    intro i k b hb
    simp [hempty] at hb

/-- As long as no slot is taken that an open handle refers to and no write begins behind
the end of a file, every byte a handle reads has been written there through a handle of
the file it was opened on, and a write changes no other file. -/
theorem handles_stay_apart
    (hreach : Reaches State.step ownersNote KeepsApart ramfsInit noOwners s o) :
    (∀ i j, (s.nodes i).used → (s.nodes j).used → o.file i = o.file j → i = j) ∧
    (∀ hd handle len bytes handle', s.handles hd = some handle →
      ramfsRead s.nodes handle len = some (bytes, handle') →
      ∀ k b, bytes[k]? = some b → (o.owner hd, handle.pos + k, b) ∈ o.written) ∧
    ∀ hd handle bytes fresh handle' nodes', s.handles hd = some handle →
      ramfsWrite s.nodes handle bytes fresh = some (handle', nodes') →
      ∀ i, o.file i ≠ o.owner hd → nodes' i = s.nodes i := by
  have ha : Apart s o :=
    hreach.invariant Apart apart_ramfsInit
      fun _ _ _ _ ha hallowed hstep => ha.step hallowed hstep
  refine ⟨ha.distinct, ?_, ?_⟩
  · intro hd handle len bytes handle' hopen hread k b hb
    have hfile : (s.nodes handle.node).isDir = false := by
      by_contra hdir
      simp [ramfsRead, hdir] at hread
    rw [ramfsRead_spec hfile] at hread
    obtain ⟨rfl, -⟩ := Prod.mk.inj (Option.some.inj hread)
    have hplace : (s.nodes handle.node).content[handle.pos + k]? = some b := by
      have hk : k < len := by
        have hlt := (List.getElem?_eq_some_iff.mp hb).1
        rw [readAt, List.length_take] at hlt
        omega
      rwa [readAt, List.getElem?_take_of_lt hk, List.getElem?_drop] at hb
    rw [← ha.owned hd handle hopen]
    exact ha.content _ _ _ hplace
  · intro hd handle bytes fresh handle' nodes' hopen hwrite i hi
    obtain ⟨n, -, -, -, rfl⟩ := ramfsWrite_some hwrite
    have hne : i ≠ handle.node := by
      rintro rfl
      exact hi (ha.owned hd handle hopen)
    exact Function.update_of_ne hne _ _

theorem handles_stay_apart_two_handles :
    let creation : Event := .openFile (joinPath [[0x61#8]]) ⟨false, true, true, false, false⟩ true
    let writing : Event := .write 0 [7#8] (some fun _ => 0#8)
    let opening : Event := .openFile (joinPath [[0x61#8]]) ⟨false, false, false, false, false⟩ true
    ∃ s o, run State.step ownersNote [creation, writing, opening] ramfsInit noOwners =
        some (s, o) ∧
      ∃ handle, s.handles 1 = some handle ∧
        (ramfsRead s.nodes handle 1).map Prod.fst = some [7#8] ∧
        (o.owner 1, 0, 7#8) ∈ o.written := by
  intro creation writing opening
  have hcreated : KeepsApart ramfsInit creation := by
    refine ⟨?_, fun _ => trivial⟩
    rintro _ i _ hd handle ⟨⟩
  have hwritten : ∀ s, State.step ramfsInit creation = some s → KeepsApart s writing := by
    rintro s hs
    obtain rfl := some.inj hs
    refine ⟨fun h => absurd h (by decide), ?_⟩
    intro i handle hopen _
    obtain rfl := some.inj hopen
    exact ⟨Nat.zero_le _, by decide⟩
  have hopened : ∀ s, KeepsApart s opening :=
    fun _ => ⟨fun h => absurd h (by decide), fun _ => trivial⟩
  refine ⟨_, _, rfl, _, rfl, by decide +kernel, ?_⟩
  have hstart : Reaches State.step ownersNote KeepsApart ramfsInit noOwners ramfsInit noOwners :=
    .start
  have hfirst := hstart.next creation hcreated rfl
  have hsecond := hfirst.next writing (hwritten _ rfl) rfl
  have hthird := hsecond.next opening (hopened _) rfl
  exact (handles_stay_apart hthird).2.1 1 _ 1 _ _ rfl rfl 0 _ rfl

/-- `/tmp/a` is unlinked while it is open, and `/tmp/b` takes its slot: the old handle reads
the byte written to the new file. -/
theorem stale_handle_reads_new_file :
    ∃ s o, run State.step ownersNote
        [.openFile (joinPath [[0x61#8]]) ⟨false, true, true, false, false⟩ true,
          .unlink (joinPath [[0x61#8]]),
          .openFile (joinPath [[0x62#8]]) ⟨false, true, true, false, false⟩ true,
          .write 1 [7#8] (some fun _ => 0#8)] ramfsInit noOwners = some (s, o) ∧
      ∃ handle, s.handles 0 = some handle ∧
        (ramfsRead s.nodes handle 1).map Prod.fst = some [7#8] ∧
        o.owner 0 ≠ o.owner 1 ∧ (o.owner 0, 0, 7#8) ∉ o.written := by
  refine ⟨_, _, rfl, _, rfl, by decide +kernel, by decide +kernel, ?_⟩
  rintro (hnone | ⟨howner, -⟩)
  · exact hnone
  · exact absurd howner (by decide +kernel)

end HelixOS.Ramfs
