import HelixOS.LoadedPages

/-!
# The bytes of a segment

The loops of `map_segment` write page by page, through the physical address of each page.
Over pages that have been prepared they reach every byte of their range and no other.
-/

namespace HelixOS

open RadixMemory Option BitVec List

variable {n : ℕ} {source : ℕ → Byte} {v va vaddr filesz memsz : Word} {A : Set ℕ}

/-! ## Bytes of a frame -/

def wordByte (w : Word) (k : ℕ) : Byte := (w >>> (8 * k)).setWidth 8

def frameByte (m : Mem) (f j : ℕ) : Byte := wordByte (m f (Fin.ofNat 512 (j / 8))) (j % 8)

lemma wordByte_replaceByte (w : Word) {i k : ℕ} (hi : i < 8) (hk : k < 8) (b : Byte) :
    wordByte (replaceByte w k b) i = if i = k then b else wordByte w i := by
  apply eq_of_getLsbD_eq
  intro x hx
  have hmask : (0xFF#64 : Word).getLsbD (8 * i + x - 8 * k) =
      decide (8 * i + x - 8 * k < 8) := by
    have hall : ∀ y : Fin 64, (0xFF#64 : Word).getLsbD y = decide (y.val < 8) := by decide
    exact hall ⟨8 * i + x - 8 * k, by omega⟩
  have hin : 8 * i + x < 64 := by omega
  simp only [wordByte, replaceByte, getLsbD_setWidth, getLsbD_ushiftRight, getLsbD_or, getLsbD_and,
    getLsbD_not, getLsbD_shiftLeft, hmask, hx, hin, decide_true, Bool.true_and]
  by_cases heq : i = k
  · subst heq
    simp [hx, show x < 64 by omega]
  · rw [if_neg heq]
    by_cases hlt : 8 * i + x < 8 * k
    · simp [hlt, hx]
    · have hfar : ¬ 8 * i + x - 8 * k < 8 := by omega
      have hb : b.getLsbD (8 * i + x - 8 * k) = false := getLsbD_of_ge _ _ (by omega)
      simp [hlt, hfar, hb, hx]

lemma wordByte_foldl (w : Word) (change : ℕ → Prop) [DecidablePred change] (b : ℕ → Byte)
    {i : ℕ} (hn : n ≤ 8) (hi : i < 8) :
    wordByte ((List.range n).foldl (fun w k => if change k then replaceByte w k (b k) else w) w) i =
      if i < n ∧ change i then b i else wordByte w i := by
  induction n with
  | zero => simp
  | succ n ih =>
    rw [range_succ, foldl_append, foldl_cons, foldl_nil]
    by_cases hchange : change n
    · rw [if_pos hchange, wordByte_replaceByte _ hi (by omega), ih (by omega)]
      by_cases heq : i = n
      · subst heq
        simp [hchange]
      · have hlt : i < n + 1 ↔ i < n := by omega
        simp [heq, hlt]
    · rw [if_neg hchange, ih (by omega)]
      by_cases heq : i = n
      · subst heq
        simp [hchange]
      · have hlt : i < n + 1 ↔ i < n := by omega
        simp [hlt]

lemma frameByte_setBytes (m : Mem) (f off n : ℕ) (source) {j : ℕ} (hj : j < 4096) :
    frameByte (setBytes m f off n source) f j =
      if off ≤ j ∧ j < off + n then source (j - off) else frameByte m f j := by
  have hslot : (Fin.ofNat 512 (j / 8)).val = j / 8 := Nat.mod_eq_of_lt (by omega)
  have hbyte : 8 * (Fin.ofNat 512 (j / 8)).val + j % 8 = j := by omega
  rw [frameByte, setBytes, Function.update_self]
  have hfold := wordByte_foldl (m f (Fin.ofNat 512 (j / 8)))
    (fun k => off ≤ 8 * (Fin.ofNat 512 (j / 8)).val + k ∧
      8 * (Fin.ofNat 512 (j / 8)).val + k < off + n)
    (fun k => source (8 * (Fin.ofNat 512 (j / 8)).val + k - off)) le_rfl
    (Nat.mod_lt j (by omega))
  rw [hbyte] at hfold
  refine Eq.trans hfold ?_
  have hlt : j % 8 < 8 := Nat.mod_lt j (by omega)
  simp only [hlt, true_and]
  rfl

lemma setBytes_of_ne (m : Mem) {f g : ℕ} (hne : g ≠ f) (off n : ℕ) (source) :
    setBytes m f off n source g = m g := Function.update_of_ne hne _ _

/-! ## The physical address of a page -/

lemma pagingVirtToPhys_frame {s : Machine} (hok : SpaceOk A s.mem (frameOf s.cr3))
    (hcr3 : s.cr3 ≠ 0#64) {page : Mapping} (hpage : pageView s.mem (frameOf s.cr3) v = some page) :
    frameOf (pagingVirtToPhys s v) = page.frame := by
  have hleaf : ∀ e : Word, frameOf ((e &&& pteAddr) ||| (v &&& 0xFFF#64)) = leafFrame 0 e v := by
    intro e
    have hsmall : (v &&& 0xFFF#64).toNat < 4096 := by
      have hlow : (v &&& 0xFFF#64).toNat = v.toNat % 2 ^ 12 := BitMasks.toNat_and_low v 12
      omega
    exact frameOf_or_flags _ hsmall
  have htop := (hok.entries (tableIndex v 3)).1.topTable rfl
  simp only [pageView, tableLookup] at hpage
  simp only [pagingVirtToPhys, if_neg hcr3, tableFrame_eq]
  set e₃ := s.mem (frameOf s.cr3) (tableIndex v 3)
  by_cases hp₃ : hasFlag e₃ pteP = true
  swap
  · simp [entryLookup, pteFormat_isTable, hp₃] at hpage
  rw [entryLookup_table (by simp [pteFormat_isTable, hp₃, htop hp₃])] at hpage
  simp only [hp₃, Bool.not_true, Bool.false_eq_true, if_false]
  set e₂ := s.mem (frameOf e₃) (tableIndex v 2)
  by_cases hp₂ : hasFlag e₂ pteP = true
  swap
  · simp [entryLookup, pteFormat_isTable, hp₂] at hpage
  simp only [hp₂, Bool.not_true, Bool.false_eq_true, if_false]
  by_cases hps₂ : hasFlag e₂ ptePs = true
  · simp only [entryLookup, pteFormat_isTable, hp₂, hps₂, pteFormat_present, Bool.not_true,
      Bool.and_false, Bool.false_eq_true, if_false, if_true, map_some, some.injEq] at hpage ⊢
    rw [← hpage]
    rfl
  rw [entryLookup_table (by simp [pteFormat_isTable, hp₂, hps₂])] at hpage
  simp only [hps₂, Bool.false_eq_true, if_false]
  set e₁ := s.mem (frameOf e₂) (tableIndex v 1)
  by_cases hp₁ : hasFlag e₁ pteP = true
  swap
  · simp [entryLookup, pteFormat_isTable, hp₁] at hpage
  simp only [hp₁, Bool.not_true, Bool.false_eq_true, if_false]
  by_cases hps₁ : hasFlag e₁ ptePs = true
  · simp only [entryLookup, pteFormat_isTable, hp₁, hps₁, pteFormat_present, Bool.not_true,
      Bool.and_false, Bool.false_eq_true, if_false, if_true, map_some, some.injEq] at hpage ⊢
    rw [← hpage]
    rfl
  rw [entryLookup_table (by simp [pteFormat_isTable, hp₁, hps₁])] at hpage
  simp only [hps₁, Bool.false_eq_true, if_false]
  set e₀ := s.mem (frameOf e₁) (tableIndex v 0)
  by_cases hp₀ : hasFlag e₀ pteP = true
  swap
  · simp [entryLookup, hp₀] at hpage
  simp only [entryLookup, pteFormat_present, hp₀, Bool.not_true, Bool.false_eq_true, if_false,
    if_true, map_some, some.injEq] at hpage ⊢
  rw [← hpage, hleaf]
  rfl

/-! ## Writing to prepared pages -/

def LoadState.byte (s : LoadState) (v : Word) : Option Byte :=
  (s.view v).map fun page => frameByte s.machine.mem page.frame (v.toNat % 4096)

/-- The bytes from `lo` to `hi` have been written; `byte` is counted from `lo`. -/
structure Writes (s t : LoadState) (lo hi : ℕ) (byte : ℕ → Byte) : Prop where
  state : ∃ m overrun, t = { s with machine := { s.machine with mem := m }, overrun := overrun }
  tables : ∀ g, tabsOf s.machine.mem s.root g ≠ 0 → t.machine.mem g = s.machine.mem g
  frames : ∀ g, (∀ v page, s.Ready v → s.view v = some page → page.frame ≠ g) →
    t.machine.mem g = s.machine.mem g
  inside : ∀ v : Word, s.Ready v → lo ≤ v.toNat → v.toNat < hi →
    t.byte v = some (byte (v.toNat - lo))
  outside : ∀ v : Word, s.Ready v → v.toNat < 2 ^ 48 → v.toNat < lo ∨ hi ≤ v.toNat →
    t.byte v = s.byte v

lemma Writes.refl (s : LoadState) {lo hi : ℕ} (hempty : hi ≤ lo) (byte : ℕ → Byte) :
    Writes s s lo hi byte :=
  ⟨⟨s.machine.mem, s.overrun, rfl⟩, fun _ _ => rfl, fun _ _ => rfl,
    fun v _ hlo hhi => by omega, fun _ _ _ _ => rfl⟩

lemma Writes.noted {s t : LoadState} {lo hi : ℕ} {byte : ℕ → Byte} {overrun : Bool}
    (hwrites : Writes { s with overrun := overrun } t lo hi byte) : Writes s t lo hi byte :=
  ⟨hwrites.state, hwrites.tables, hwrites.frames, hwrites.inside, hwrites.outside⟩

section Same

variable {s t : LoadState} {lo hi : ℕ} {byte : ℕ → Byte}

section

variable (hwrites : Writes s t lo hi byte)
include hwrites

lemma Writes.view (v) : t.view v = s.view v := by
  obtain ⟨m, overrun, rfl⟩ := hwrites.state
  exact pageView_congr v hwrites.tables

lemma Writes.ready (v) : t.Ready v ↔ s.Ready v := by
  have hview := hwrites.view v
  obtain ⟨m, overrun, rfl⟩ := hwrites.state
  unfold LoadState.Ready
  rw [hview]
  rfl

lemma Writes.marks (hmarks : MarksSound A s) : MarksSound A t := by
  intro v hv
  rw [hwrites.view]
  obtain ⟨m, overrun, rfl⟩ := hwrites.state
  exact hmarks v hv

lemma Writes.spaceIn (hs : SpaceIn A s.machine s.root) : SpaceIn A t.machine t.root := by
  have hagree := hwrites.tables
  obtain ⟨m, overrun, rfl⟩ := hwrites.state
  exact ⟨hs.ok.congr hagree,
    fun g hg => hs.tables g fun hzero => hg ((tableTabs_congr g hagree).trans hzero),
    fun g hg => (refsOf_congr g hagree).le.trans (hs.refs_le g hg), hs.manages⟩

lemma Writes.space (hs : LoadSpace A s) : LoadSpace A t := by
  have hspace := hwrites.spaceIn hs.space
  have hview := hwrites.view
  have hagree := hwrites.tables
  obtain ⟨m, overrun, rfl⟩ := hwrites.state
  exact ⟨hspace, hs.loaded, fun v hv hhuge => hs.plain v hv (noNewHuge_congr hagree v hhuge),
    fun v page hv hpage => hs.identity v page hv ((hview v).symm.trans hpage), hs.reserved⟩

lemma Writes.sound (hs : ReadySound A s) : ReadySound A t := by
  refine ⟨hwrites.spaceIn hs.space, ?_, fun v hv => ?_, fun hv hw => ?_⟩
  · obtain ⟨m, overrun, rfl⟩ := hwrites.state
    exact hs.loaded
  · rw [hwrites.view]
    exact hs.mapped v ((hwrites.ready v).mp hv)
  · rw [hwrites.view, hwrites.view]
    exact hs.alone ((hwrites.ready _).mp hv) ((hwrites.ready _).mp hw)

end

lemma Writes.trans {u : LoadState} {mid : ℕ} {first second : ℕ → Byte}
    (hst : Writes s t lo mid first) (htu : Writes t u mid hi second) (hmid : lo ≤ mid)
    (hhi : mid ≤ hi) (hlow : hi ≤ 2 ^ 48) (hfirst : ∀ k, lo + k < mid → byte k = first k)
    (hsecond : ∀ k, mid + k < hi → byte (mid - lo + k) = second k) : Writes s u lo hi byte := by
  have hready : ∀ v, s.Ready v → t.Ready v := fun v => (hst.ready v).mpr
  have htables : ∀ g, tabsOf s.machine.mem s.root g ≠ 0 → u.machine.mem g = s.machine.mem g := by
    intro g hg
    have hsame := tableTabs_congr g hst.tables
    have hsecond := htu.tables g
    obtain ⟨m, overrun, rfl⟩ := hst.state
    exact (hsecond (hsame.trans_ne hg)).trans (hst.tables g hg)
  refine ⟨?_, htables, fun g hg => ?_, fun v hv hlo hv' => ?_, fun v hv hsmall hout => ?_⟩
  · obtain ⟨m, overrun, rfl⟩ := hst.state
    obtain ⟨m', overrun', rfl⟩ := htu.state
    exact ⟨m', overrun', rfl⟩
  · refine (htu.frames g fun v page hv hpage => ?_).trans (hst.frames g hg)
    exact hg v page ((hst.ready v).mp hv) ((hst.view v).symm.trans hpage)
  · by_cases hside : v.toNat < mid
    · rw [htu.outside v (hready v hv) (by omega) (Or.inl hside), hst.inside v hv hlo hside,
        hfirst _ (by omega)]
    · rw [htu.inside v (hready v hv) (by omega) hv', ← hsecond _ (by omega)]
      congr 2
      omega
  · rw [htu.outside v (hready v hv) hsmall (by omega), hst.outside v hv hsmall (by omega)]

end Same

lemma sub_pageDown_toNat (va) : (va - pageDown va).toNat = va.toNat % 4096 := by
  have hdown := pageDown_toNat va
  rw [toNat_sub_of_le (by rw [le_def]; omega)]
  omega

lemma pageNum_pageDown (va) : pageNum (pageDown va) = pageNum va := by
  rw [pageNum, pageNum, pageDown_toNat]
  omega

lemma writeChunk_ready {s : LoadState} (hs : ReadySound A s) (chunk : Word)
    (hready : s.Ready va) (hlow : va.toNat < 2 ^ 48)
    (hroom : va.toNat % 4096 + chunk.toNat ≤ 4096) (source) :
    ∃ m, writeChunk s.machine va (va - pageDown va) chunk source =
        some { s.machine with mem := m } ∧
      Writes s { s with machine := { s.machine with mem := m } } va.toNat
        (va.toNat + chunk.toNat) source := by
  obtain ⟨page, hpage, huser, hne⟩ := hs.mapped va hready
  have hframe : frameOf (pagingVirtToPhys s.machine (pageDown va)) = page.frame :=
    pagingVirtToPhys_frame hs.space.ok hs.loaded ((pageView_num (pageNum_pageDown va)).trans hpage)
  have hphys : pagingVirtToPhys s.machine (pageDown va) ≠ 0#64 := by
    intro hzero
    rw [hzero] at hframe
    exact hne hframe.symm
  have htables : ∀ g, tabsOf s.machine.mem s.root g ≠ 0 → setBytes s.machine.mem page.frame
      (va.toNat % 4096) chunk.toNat source g = s.machine.mem g := by
    intro g hg
    apply setBytes_of_ne
    rintro rfl
    exact hg (hs.space.held_of_user hpage huser).2
  refine ⟨setBytes s.machine.mem page.frame (va.toNat % 4096) chunk.toNat source, ?_,
    ⟨⟨_, _, rfl⟩, htables,
      fun g hg => setBytes_of_ne _ (hg va page hready hpage).symm _ _ _,
      fun v hv hlo hhi => ?_, fun v hv hsmall hout => ?_⟩⟩
  · rw [writeChunk, if_pos hphys, hframe, sub_pageDown_toNat]
    rfl
  · -- the address is in the page of `va`
    have hnum : pageNum v = pageNum va := by
      rw [pageNum, pageNum]
      omega
    rw [LoadState.byte, LoadState.view, pageView_congr v htables, pageView_num hnum]
    change (s.view va).map _ = _
    rw [hpage, map_some, frameByte_setBytes _ _ _ _ _ (by omega), if_pos (by omega)]
    congr 2
    omega
  · rw [LoadState.byte, LoadState.byte, LoadState.view, pageView_congr v htables]
    change (s.view v).map _ = (s.view v).map _
    obtain ⟨page', hpage', -⟩ := hs.mapped v hv
    rw [hpage', map_some, map_some]
    by_cases hsame : page'.frame = page.frame
    · have hnum := hs.alone hready hv hpage hpage' hsame
      rw [pageNum, pageNum] at hnum
      rw [hsame, frameByte_setBytes _ _ _ _ _ (by omega), if_neg (by omega)]
    · simp only [frameByte, setBytes_of_ne _ hsame]

lemma chunk_toNat (va) {len done : Word} (hdone : done.toNat ≤ len.toNat) :
    (if 4096#64 - (va - pageDown va) > len - done then len - done
      else 4096#64 - (va - pageDown va)).toNat =
      min (4096 - va.toNat % 4096) (len.toNat - done.toNat) := by
  have hoff := sub_pageDown_toNat va
  have hroom : (4096#64 - (va - pageDown va)).toNat = 4096 - va.toNat % 4096 := by
    rw [toNat_sub_of_le, hoff]
    · rfl
    · rw [le_def, hoff, show (4096#64 : Word).toNat = 4096 from rfl]
      omega
  have hrest : (len - done).toNat = len.toNat - done.toNat :=
    toNat_sub_of_le (le_def.mpr hdone)
  split_ifs with hgt
  · rw [gt_iff_lt, lt_def, hroom, hrest] at hgt
    omega
  · rw [gt_iff_lt, lt_def, hroom, hrest] at hgt
    omega

lemma writeLoop_ready {base len : Word} {note : Word → ℕ → LoadState → LoadState}
    {source : Word → ℕ → Byte} (byte : ℕ → Byte) (hlow : base.toNat + len.toNat ≤ 2 ^ 48)
    (hnote : ∀ d n s, ∃ overrun, note d n s = { s with overrun := overrun })
    (hsource : ∀ d k, d.toNat + k < len.toNat → source d k = byte (d.toNat + k)) (fuel : ℕ)
    (done : Word) {s : LoadState} (hs : ReadySound A s)
    (hready : ∀ v : Word, base.toNat ≤ v.toNat → v.toNat < base.toNat + len.toNat → s.Ready v)
    (hdone : done.toNat ≤ len.toNat) (hfuel : len.toNat ≤ done.toNat + fuel) :
    ∃ t, writeLoop base len note source fuel done s = (.ok (), t) ∧
      Writes s t (base.toNat + done.toNat) (base.toNat + len.toNat)
        fun k => byte (done.toNat + k) := by
  induction fuel generalizing done s with
  | zero => exact ⟨s, rfl, Writes.refl s (by omega) _⟩
  | succ fuel ih =>
    unfold writeLoop
    by_cases hlt : done < len
    swap
    · rw [if_neg hlt]
      rw [lt_def] at hlt
      exact ⟨s, rfl, Writes.refl s (by omega) _⟩
    rw [if_pos hlt]
    rw [lt_def] at hlt
    have hva : (base + done).toNat = base.toNat + done.toNat := by
      rw [toNat_add]
      omega
    have hchunk := chunk_toNat (base + done) hdone
    set chunk : Word := if 4096#64 - (base + done - pageDown (base + done)) > len - done then
      len - done else 4096#64 - (base + done - pageDown (base + done))
    simp only
    obtain ⟨overrun, hnoted⟩ := hnote done chunk.toNat s
    rw [hnoted]
    have hs' : ReadySound A { s with overrun := overrun } :=
      ⟨hs.space, hs.loaded, hs.mapped, hs.alone⟩
    obtain ⟨m, hwrite, hwrites⟩ := writeChunk_ready hs' chunk
      (hready (base + done) (by omega) (by omega)) (by omega) (by omega) (source done)
    have hwrites := hwrites.noted
    rw [hwrite]
    have hnext : (done + chunk).toNat = done.toNat + chunk.toNat := by
      rw [toNat_add]
      omega
    obtain ⟨t, hrun, hrest⟩ := ih (done + chunk) (hwrites.sound hs)
      (fun v hlo hhi => (hwrites.ready v).mpr (hready v hlo hhi)) (by omega) (by omega)
    refine ⟨t, hrun, ?_⟩
    rw [hva] at hwrites
    rw [hnext, ← Nat.add_assoc] at hrest
    refine hwrites.trans hrest (by omega) (by omega) hlow (fun k hk => ?_) fun k hk => ?_
    · exact (hsource done k (by omega)).symm
    · exact congrArg byte (by omega)

/-! ## Segments -/

/-- A part of a load: nothing outside the windows has changed, and prepared pages have kept
their frames. -/
structure Loads (A : Set ℕ) (s t : LoadState) : Prop where
  cr3_eq : t.machine.cr3 = s.machine.cr3
  space : LoadSpace A t
  marks : MarksSound A t
  outside : ∀ v, ¬ LoaderPage v → t.view v = s.view v
  ready : ∀ v, s.Ready v → t.Ready v

lemma Prepares.loads {s t : LoadState} (hprep : Prepares A s t) : Loads A s t :=
  ⟨hprep.cr3_eq, hprep.space, hprep.marks, hprep.outside, fun v hv => (hprep.ready v hv).1⟩

lemma Loads.refl {s : LoadState} (hs : LoadSpace A s) (hmarks : MarksSound A s) :
    Loads A s s :=
  (Prepares.refl hs hmarks).loads

lemma Loads.trans {s t u : LoadState} (hst : Loads A s t) (htu : Loads A t u) : Loads A s u :=
  ⟨htu.cr3_eq.trans hst.cr3_eq, htu.space, htu.marks,
    fun v hv => (htu.outside v hv).trans (hst.outside v hv),
    fun v hv => htu.ready v (hst.ready v hv)⟩

lemma Writes.loads {s t : LoadState} {lo hi : ℕ} {byte : ℕ → Byte}
    (hwrites : Writes s t lo hi byte) (hs : LoadSpace A s) (hmarks : MarksSound A s) :
    Loads A s t := by
  refine ⟨?_, hwrites.space hs, hwrites.marks hmarks, fun v _ => hwrites.view v,
    fun v => (hwrites.ready v).mpr⟩
  obtain ⟨m, overrun, rfl⟩ := hwrites.state
  rfl

/-- The loop of `map_segment` goes through its pages and the file has no more bytes than memory;
or its end wraps and it is refused. -/
def SegmentFits (vaddr memsz filesz : Word) : Prop :=
  2 ^ 64 ≤ vaddr.toNat + memsz.toNat ∨
    vaddr.toNat + memsz.toNat ≤ 2 ^ 64 - 4096 ∧ filesz ≤ memsz

def segmentByte (img : Image) (offset filesz : Word) (k : ℕ) : Byte :=
  if k < filesz.toNat then img.byte (offset + BitVec.ofNat 64 k) else 0#8

lemma copyFile_ready (img : Image) (offset : Word) {s : LoadState}
    (hs : ReadySound A s) (hlow : vaddr.toNat + filesz.toNat ≤ 2 ^ 48)
    (hready : ∀ v : Word, vaddr.toNat ≤ v.toNat → v.toNat < vaddr.toNat + filesz.toNat →
      s.Ready v) :
    copyFile img vaddr offset filesz s = (.error .refused, s) ∨
      ∃ t, copyFile img vaddr offset filesz s = (.ok (), t) ∧
        Writes s t vaddr.toNat (vaddr.toNat + filesz.toNat) (segmentByte img offset filesz) := by
  unfold copyFile
  by_cases hzero : filesz = 0#64
  · rw [if_pos hzero]
    refine Or.inr ⟨s, rfl, Writes.refl s ?_ _⟩
    rw [hzero]
    exact le_rfl
  rw [if_neg hzero]
  by_cases hend : offset + filesz > img.size
  · rw [if_pos hend]
    exact Or.inl rfl
  rw [if_neg hend]
  have hsource : ∀ (d : Word) (k : ℕ), d.toNat + k < filesz.toNat →
      img.byte (offset + d + BitVec.ofNat 64 k) = segmentByte img offset filesz (d.toNat + k) := by
    intro d k hk
    rw [segmentByte, if_pos hk, BitVec.add_assoc, BitVec.ofNat_add, BitVec.ofNat_toNat,
      BitVec.setWidth_eq]
  have hnote : ∀ (d : Word) (n : ℕ) (s : LoadState), ∃ overrun,
      s.read img (offset + d) n = { s with overrun := overrun } := fun d n s => ⟨_, rfl⟩
  obtain ⟨t, hrun, hwrites⟩ := writeLoop_ready (segmentByte img offset filesz) hlow hnote hsource
    filesz.toNat 0#64 hs hready (Nat.zero_le _) (Nat.le_add_left _ _)
  refine Or.inr ⟨t, hrun, ?_⟩
  simpa using hwrites

lemma zeroRest_ready {s : LoadState}
    (hs : ReadySound A s) (hle : filesz ≤ memsz)
    (hlow : vaddr.toNat + memsz.toNat ≤ 2 ^ 48)
    (hready : ∀ v : Word, vaddr.toNat ≤ v.toNat → v.toNat < vaddr.toNat + memsz.toNat →
      s.Ready v) :
    ∃ t, zeroRest vaddr filesz memsz s = (.ok (), t) ∧
      Writes s t (vaddr.toNat + filesz.toNat) (vaddr.toNat + memsz.toNat) fun _ => 0#8 := by
  unfold zeroRest
  rw [le_def] at hle
  by_cases hmore : memsz > filesz
  · rw [if_pos hmore]
    have hbase : (vaddr + filesz).toNat = vaddr.toNat + filesz.toNat := by
      rw [toNat_add]
      omega
    have hlen : (memsz - filesz).toNat = memsz.toNat - filesz.toNat :=
      toNat_sub_of_le (le_def.mpr hle)
    have hnote : ∀ (d : Word) (n : ℕ) (s : LoadState), ∃ overrun,
        s = { s with overrun := overrun } := fun d n s => ⟨s.overrun, rfl⟩
    have hend : (vaddr + filesz).toNat + (memsz - filesz).toNat ≤ 2 ^ 48 := by omega
    obtain ⟨t, hrun, hwrites⟩ := writeLoop_ready (fun _ => 0#8) hend hnote (fun d k hk => rfl)
      (memsz - filesz).toNat 0#64 hs
      (fun v hlo hhi => hready v (by omega) (by omega)) (Nat.zero_le _) (Nat.le_add_left _ _)
    refine ⟨t, hrun, ?_⟩
    rw [hbase, hlen, show vaddr.toNat + filesz.toNat + (memsz.toNat - filesz.toNat) =
      vaddr.toNat + memsz.toNat by omega] at hwrites
    simpa using hwrites
  · rw [if_neg hmore]
    rw [gt_iff_lt, lt_def] at hmore
    exact ⟨s, rfl, Writes.refl s (by omega) _⟩

lemma segment_pages (hend : vaddr.toNat + memsz.toNat ≤ 2 ^ 64 - 4096) :
    (vaddr + memsz).toNat = vaddr.toNat + memsz.toNat ∧
      (pageUp (vaddr + memsz)).toNat = (vaddr.toNat + memsz.toNat + 4095) / 4096 * 4096 ∧
      (pageUp (vaddr + memsz)).toNat = (pageDown vaddr).toNat +
        4096 * pagesBetween (pageDown vaddr) (pageUp (vaddr + memsz)) := by
  have hsum : (vaddr + memsz).toNat = vaddr.toNat + memsz.toNat := by
    rw [toNat_add]
    omega
  have hbegin := pageDown_toNat vaddr
  have hstop := pageUp_toNat (vaddr + memsz)
  rw [pagesBetween, toNat_sub_of_le (by rw [le_def]; omega)]
  omega

/-- The loop of `map_segment` over the pages of a segment. -/
def preparePages (vaddr memsz : Word) (s : LoadState) : Bool × LoadState :=
  forPages ensureUserPage (pageUp (vaddr + memsz))
    (pagesBetween (pageDown vaddr) (pageUp (vaddr + memsz))) (pageDown vaddr) s

lemma preparePages_prepares {s u : LoadState} {ok : Bool} (hs : LoadSpace A s)
    (hmarks : MarksSound A s) (hend : vaddr.toNat + memsz.toNat ≤ 2 ^ 64 - 4096)
    (hsize : memsz ≠ 0#64) (hrun : preparePages vaddr memsz s = (ok, u)) :
    Prepares A s u ∧ (ok = true → (pageUp (vaddr + memsz)).toNat ≤ 2 ^ 48 ∧
      ∀ v : Word, vaddr.toNat ≤ v.toNat → v.toNat < (pageUp (vaddr + memsz)).toNat →
        u.Ready v) := by
  obtain ⟨-, hstop, hpages⟩ := segment_pages hend
  have hbegin := pageDown_toNat vaddr
  obtain ⟨hprep, hready⟩ := forPages_prepares (by omega) hs hmarks (by omega) hpages.le
  rw [preparePages] at hrun
  rw [hrun] at hprep hready
  refine ⟨hprep, fun hok => ⟨?_, fun v hlo hhi => (hready hok v (by omega) hhi).1⟩⟩
  -- the last byte of the pages is below the bound of the tables
  have hpos : 0 < memsz.toNat := Nat.pos_of_ne_zero fun hzero => hsize (eq_of_toNat_eq hzero)
  have hlast : (pageUp (vaddr + memsz) - 1#64).toNat = (pageUp (vaddr + memsz)).toNat - 1 := by
    rw [toNat_sub_of_le]
    · rfl
    · rw [le_def, show (1#64 : Word).toNat = 1 from rfl]
      omega
  have hbound := (hready hok (pageUp (vaddr + memsz) - 1#64) (by omega) (by omega)).2
  omega

lemma mapSegment_writes (img : Image) (offset : Word) {s : LoadState} (hs : LoadSpace A s)
    (hmarks : MarksSound A s) (hfits : SegmentFits vaddr memsz filesz) (hsize : memsz ≠ 0#64) :
    (∃ t, mapSegment img vaddr memsz offset filesz s = (.error .refused, t)) ∨
      ∃ t u, mapSegment img vaddr memsz offset filesz s = (.ok (), t) ∧ Prepares A s u ∧
        vaddr.toNat + memsz.toNat ≤ 2 ^ 48 ∧
        (∀ v : Word, vaddr.toNat ≤ v.toNat → v.toNat < vaddr.toNat + memsz.toNat →
          u.Ready v) ∧
        Writes u t vaddr.toNat (vaddr.toNat + memsz.toNat) (segmentByte img offset filesz) := by
  unfold mapSegment
  by_cases hwrap : vaddr + memsz < vaddr
  · rw [if_pos hwrap]
    exact Or.inl ⟨s, rfl⟩
  rw [if_neg hwrap]
  have hnowrap : vaddr.toNat + memsz.toNat < 2 ^ 64 := by
    rw [lt_def, toNat_add] at hwrap
    omega
  obtain ⟨hend, hle⟩ := hfits.resolve_left (by omega)
  have hstop := (segment_pages hend).2.1
  simp only
  rw [← preparePages]
  cases hloop : preparePages vaddr memsz s with
  | mk ok u =>
    obtain ⟨hprep, hready⟩ := preparePages_prepares hs hmarks hend hsize hloop
    cases ok with
    | false => exact Or.inl ⟨u, rfl⟩
    | true =>
      obtain ⟨hlow, hready⟩ := hready rfl
      have hsound := hprep.space.readySound hprep.marks
      rw [le_def] at hle
      have hcopy := copyFile_ready img offset hsound (show vaddr.toNat + filesz.toNat ≤ 2 ^ 48 by
        omega) fun v hlo hhi => hready v hlo (by omega)
      rcases hcopy with hcopy | ⟨w, hcopy, hfile⟩
      · exact Or.inl ⟨u, by simp only [hcopy]⟩
      · obtain ⟨t, hrest, hzeros⟩ := zeroRest_ready (hfile.sound hsound) (le_def.mpr hle)
          (by omega) fun v hlo hhi => (hfile.ready v).mpr (hready v hlo (by omega))
        refine Or.inr ⟨t, u, by simp only [hcopy, hrest], hprep, by omega,
          fun v hlo hhi => hready v hlo (by omega), ?_⟩
        refine hfile.trans hzeros (by omega) (by omega) (by omega) (fun k hk => rfl) fun k hk => ?_
        rw [segmentByte, if_neg (by omega)]

end HelixOS
