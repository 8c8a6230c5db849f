import HelixOS.FatChains

/-!
# What a listing returns

The records of all calls up to the first that returns none are compared with the entries of
the directory.
-/

namespace HelixOS.Fat

open List

variable {fuel : ℕ} {live l r : List Bytes} {it : DirIter} {g : Geometry} {V : View}
  {behind : Bytes} {f f' : VfsFile} {es : List Bytes} {e : Bytes}

/-! ## Entries -/

def liveEntries : List Bytes → List Bytes
  | [] => []
  | e :: es =>
    if e 0 = entryEnd then []
    else if unlisted e then liveEntries es
    else e :: liveEntries es

lemma recordSize_le (e) : recordSize e ≤ 32 := by
  have hname : (entToName e).length ≤ 12 := by
    have hbase := (takeWhile_sublist (fun c => decide (c ≠ spaceByte))
      (l := (range 8).map e)).length_le
    have hext := (takeWhile_sublist (fun c => decide (c ≠ spaceByte))
      (l := (range 3).map fun i => e (8 + i))).length_le
    have hall := (takeWhile_sublist (fun c => decide (c ≠ 0#8))
      (l := ((range 8).map e).takeWhile (· ≠ spaceByte) ++
        if e 8 ≠ spaceByte then
          dotByte :: ((range 3).map fun i => e (8 + i)).takeWhile (· ≠ spaceByte)
        else [])).length_le
    refine hall.trans ?_
    rw [length_append]
    simp only [length_map, length_range] at hbase hext
    split_ifs
    · rw [length_cons]
      omega
    · rw [length_nil]
      omega
  unfold recordSize
  omega

/-! ## The loop -/

/-- Between calls the position is the number in the handle, or the iterator alone. -/
def Kept (P : VfsFile → ℕ → List Bytes → Prop) (f f' : VfsFile) (es : List Bytes) : Prop :=
  f' = f ∨ ∀ j, P f' j es

/-- `P f i es` says that the loop with the handle `f` and the number `i` has the entries `es`
before it. -/
structure Lister (g : Geometry) (behind : Bytes) (V : View) (n : ℕ)
    (P : VfsFile → ℕ → List Bytes → Prop) : Prop where
  isDir : ∀ {f i es}, P f i es → f.isDir = true
  bound : ∀ {f i es}, P f i es → es.length ≤ n
  setPos : ∀ {f i es}, P f i es → ∀ pos, P { f with pos } i es
  done : ∀ {f i}, P f i [] →
    ∃ f', Runs g (fetch g behind f i) V (.ok (.done, f')) V ∧ Kept P f f' []
  entry : ∀ {f i e es}, P f i (e :: es) →
    ∃ f', Runs g (fetch g behind f i) V (.ok (.entry e, f')) V ∧ Kept P f f' (e :: es) ∧
      Kept P f f'.atEnd [] ∧
      (e 0 ≠ entryEnd → P f'.advance (i + 1) es ∧ Kept P f f'.advance es)

def Rest (P : VfsFile → ℕ → List Bytes → Prop) (f : VfsFile) (live : List Bytes) : Prop :=
  ∃ es, P f f.pos es ∧ liveEntries es = live

lemma Kept.rest {P : VfsFile → ℕ → List Bytes → Prop} (hkept : Kept P f f' es)
    (hrest : Rest P f (liveEntries es)) : Rest P f' (liveEntries es) := by
  rcases hkept with rfl | hkept
  · exact hrest
  · exact ⟨es, hkept _, rfl⟩

structure Served (P : VfsFile → ℕ → List Bytes → Prop) (live : List Bytes) (rs got : List Dirent)
    (f' : VfsFile) (now later : List Bytes) : Prop where
  split : live = now ++ later
  names : got.map Dirent.name = now.map entToName
  rest : Rest P f' later
  ends : rs = [] → now = [] → later = []

section Loop

variable {P : VfsFile → ℕ → List Bytes → Prop} {n len : ℕ}

lemma liveEntries_end (hend : e 0 = entryEnd) : liveEntries (e :: es) = [] := if_pos hend

lemma liveEntries_skip (hend : e 0 ≠ entryEnd) (hskip : unlisted e = true) :
    liveEntries (e :: es) = liveEntries es := by
  rw [liveEntries, if_neg hend, if_pos hskip]

lemma liveEntries_live (hend : e 0 ≠ entryEnd) (hlisted : ¬ unlisted e = true) :
    liveEntries (e :: es) = e :: liveEntries es := by
  rw [liveEntries, if_neg hend, if_neg hlisted]

lemma Lister.loop (hP : Lister g behind V n P) {i : ℕ} (hfuel : es.length < fuel)
    (hpos : P f i es) (hrest : Rest P f (liveEntries es))
    (hlen : ∀ e ∈ liveEntries es, recordSize e ≤ len) (rs : List Dirent) :
    ∃ got f' now later,
      Runs g (getdentsLoop g behind len fuel f i rs) V (.ok (.records (rs ++ got), f')) V ∧
        Served P (liveEntries es) rs got f' now later := by
  induction es generalizing f i rs fuel with
  | nil =>
    obtain ⟨fuel, rfl⟩ := Nat.exists_eq_succ_of_ne_zero (by omega : fuel ≠ 0)
    obtain ⟨f', hrun, hkept⟩ := hP.done hpos
    refine ⟨[], f', [], [], hrun.bind ?_, rfl, rfl, hkept.rest hrest, fun _ _ => rfl⟩
    rw [append_nil]
    exact runs_pure _
  | cons e es ih =>
    obtain ⟨fuel, rfl⟩ := Nat.exists_eq_succ_of_ne_zero (by omega : fuel ≠ 0)
    have hfuel' : es.length < fuel := by
      rw [length_cons] at hfuel
      omega
    obtain ⟨f', hrun, hkept, hatEnd, hnext⟩ := hP.entry hpos
    by_cases hend : e 0 = entryEnd
    · refine ⟨[], f'.atEnd, [], [], hrun.bind ?_, liveEntries_end hend, rfl, ?_, fun _ _ => rfl⟩
      · dsimp only
        rw [if_pos hend, append_nil]
        exact runs_pure _
      · rw [liveEntries_end hend] at hrest
        exact hatEnd.rest hrest
    obtain ⟨hpos', hkept'⟩ := hnext hend
    by_cases hskip : unlisted e = true
    · rw [liveEntries_skip hend hskip] at hrest hlen ⊢
      obtain ⟨got, f₁, now, later, hrun', hserved⟩ :=
        ih hfuel' hpos' (hkept'.rest hrest) hlen rs
      refine ⟨got, f₁, now, later, hrun.bind ?_, hserved⟩
      dsimp only
      rw [if_neg hend, if_pos hskip]
      exact hrun'
    by_cases hfull : produced rs + recordSize e > len
    · have hsome : produced rs ≠ 0 := by
        rw [liveEntries_live hend hskip] at hlen
        have hfits := hlen e mem_cons_self
        omega
      have hrs : rs ≠ [] := by
        rintro rfl
        exact hsome rfl
      refine ⟨[], f', [], _, hrun.bind ?_, rfl, rfl, hkept.rest hrest, fun h => absurd h hrs⟩
      dsimp only
      rw [if_neg hend, if_neg hskip, if_pos hfull, if_neg hsome, append_nil]
      exact runs_pure _
    · rw [liveEntries_live hend hskip] at hlen ⊢
      have hadvance : { f' with pos := i + 1 }.advance = { f'.advance with pos := i + 1 } := by
        simp only [VfsFile.advance]
        split <;> rfl
      have hpos'' := hP.setPos hpos' (i + 1)
      obtain ⟨got, f₁, now, later, hrun', hserved⟩ :=
        ih hfuel' hpos'' ⟨es, hpos'', rfl⟩ (fun x hx => hlen x (mem_cons_of_mem _ hx))
          (rs ++ [dirent (i + 1) e])
      refine ⟨dirent (i + 1) e :: got, f₁, e :: now, later, hrun.bind ?_, ?_, ?_, hserved.rest, ?_⟩
      · dsimp only
        rw [if_neg hend, if_neg hskip, if_neg hfull, hadvance, append_cons rs _ got]
        exact hrun'
      · rw [hserved.split, cons_append]
      · rw [map_cons, map_cons, hserved.names]
        rfl
      · exact fun _ h => absurd h (cons_ne_nil _ _)

lemma Lister.call (hP : Lister g behind V n P) (hrest : Rest P f live) (hfuel : n < fuel)
    (hlen : ∀ e ∈ live, recordSize e ≤ len) :
    ∃ got f' now later,
      Runs g (fatGetdents64 g behind fuel f len) V (.ok (.records got, f')) V ∧
        Served P live [] got f' now later := by
  obtain ⟨es, hpos, rfl⟩ := hrest
  have hbound := hP.bound hpos
  have hdir := hP.isDir hpos
  rw [fatGetdents64, hdir]
  exact hP.loop (by omega) hpos ⟨es, hpos, rfl⟩ hlen []

lemma Lister.lists (hP : Lister g behind V n P) (hrest : Rest P f live)
    (fuel rounds : ℕ) (hfuel : n < fuel) (hrounds : live.length < rounds) (len : ℕ → ℕ)
    (hlen : ∀ k, ∀ e ∈ live, recordSize e ≤ len k) :
    ∃ rs, Runs g (listDir g behind fuel rounds len f) V (.ok rs) V ∧
      rs.map Dirent.name = live.map entToName := by
  induction rounds generalizing f live len with
  | zero => omega
  | succ rounds ih =>
    obtain ⟨got, f', now, later, hrun, hserved⟩ := hP.call hrest hfuel (hlen 0)
    cases got with
    | nil =>
      have hnow : now = [] := map_eq_nil_iff.mp hserved.names.symm
      have hlive : live = [] := by
        rw [hserved.split, hnow, hserved.ends rfl hnow, append_nil]
      exact ⟨[], hrun.bind (runs_pure _), by rw [hlive]; rfl⟩
    | cons r rs =>
      have hlength : later.length < rounds := by
        have hcount := congrArg length hserved.names
        have hsum := congrArg length hserved.split
        rw [length_map, length_map, length_cons] at hcount
        rw [length_append] at hsum
        omega
      have hlen' : ∀ k, ∀ e ∈ later, recordSize e ≤ len (k + 1) := by
        intro k e he
        refine hlen (k + 1) e ?_
        rw [hserved.split]
        exact mem_append_right _ he
      obtain ⟨rest, hrun', hnames⟩ := ih hserved.rest hlength _ hlen'
      refine ⟨r :: rs ++ rest, hrun.bind (hrun'.bind (runs_pure _)), ?_⟩
      rw [map_append, hserved.names, hnames, hserved.split, map_append]

end Loop

/-! ## Directories -/

def sectorEntry (s : Sector) (off : ℕ) : Bytes := bufferAt (fun _ => 0#8) s off

lemma bufferAt_eq (behind : Bytes) (s : Sector) {off : ℕ} (hoff : off + 32 ≤ 512) :
    bufferAt behind s off = sectorEntry s off := by
  funext i
  unfold sectorEntry bufferAt
  split_ifs
  · rfl
  · rfl
  · omega

def rootEntries (g : Geometry) (V : View) : List Bytes :=
  (range g.rootEntCnt).map fun i => sectorEntry (V.sector (.root (i / 16))) (32 * (i % 16))

def clusterEntries (g : Geometry) (V : View) (c : ℕ) : List Bytes :=
  (range (16 * g.secPerClus)).map fun i =>
    sectorEntry (V.sector (.data c (i / 16))) (32 * (i % 16))

def chainEntries (g : Geometry) (V : View) (cs : List ℕ) : List Bytes :=
  cs.flatMap (clusterEntries g V)

lemma runs_fetchAt {p : Place} (hg : g.Sound) (hp : g.ValidPlace p) {lba off : ℕ}
    (hlba : lba = g.lba p) :
    Runs g (fetchAt behind lba off) V (.ok (.entry (bufferAt behind (V.sector p) off))) V := by
  rw [hlba, fetchAt, u32_of_lt (hg.lba_lt hp)]
  exact (runs_readSector hp).attempt.bind (runs_pure _)

/-! ### The root directory -/

def AtRoot (all : List Bytes) (f : VfsFile) (i : ℕ) (es : List Bytes) : Prop :=
  f.isDir = true ∧ f.priv = .root ∧ es = all.drop i

lemma lister_root {all : List Bytes}
    (hdone : ∀ i, all.length ≤ i → Runs g (fetchRoot g behind i) V (.ok .done) V)
    (hentry : ∀ i (hi : i < all.length), Runs g (fetchRoot g behind i) V (.ok (.entry all[i])) V) :
    Lister g behind V all.length (AtRoot all) where
  isDir h := h.1
  bound := by
    rintro f i es ⟨-, -, rfl⟩
    rw [length_drop]
    omega
  setPos h _ := h
  done := by
    rintro f i ⟨hdir, hpriv, hes⟩
    refine ⟨f, ?_, .inl rfl⟩
    rw [fetch, hpriv]
    exact (hdone i (drop_eq_nil_iff.mp hes.symm)).bind (runs_pure _)
  entry := by
    rintro f i e es ⟨hdir, hpriv, hes⟩
    have hi : i < all.length := by
      by_contra hle
      rw [drop_eq_nil_of_le (by omega)] at hes
      exact absurd hes (cons_ne_nil _ _)
    rw [drop_eq_getElem_cons hi, cons.injEq] at hes
    obtain ⟨rfl, rfl⟩ := hes
    have hstays : f.atEnd = f ∧ f.advance = f := by
      simp [VfsFile.atEnd, VfsFile.advance, hpriv]
    refine ⟨f, ?_, .inl rfl, .inl hstays.1, fun _ => ⟨?_, .inl hstays.2⟩⟩
    · rw [fetch, hpriv]
      exact (hentry i hi).bind (runs_pure _)
    · rw [hstays.2]
      exact ⟨hdir, hpriv, rfl⟩

lemma lister_fixedRoot (hg : g.Sound) (htype : g.fatType ≠ .fat32)
    (hcnt : g.rootEntCnt ≤ 16 * g.rootSectors) :
    Lister g behind V (rootEntries g V).length (AtRoot (rootEntries g V)) := by
  have hmax : rootMaxEntries g = g.rootEntCnt := if_neg htype
  have hlength : (rootEntries g V).length = g.rootEntCnt := by
    rw [rootEntries, length_map, length_range]
  refine lister_root (fun i hi => ?_) fun i hi => ?_
  · rw [fetchRoot, if_pos (by omega)]
    exact runs_pure _
  · have hsec : i / 16 < g.rootSectors := by omega
    have hplace : g.ValidPlace (.root (i / 16)) := hsec
    have hlt := hg.lba_lt hplace
    have hu32 : u32 (i * 32 / 512) = i / 16 := by
      rw [u32_of_lt (by simp only [Geometry.lba] at hlt; omega)]
      omega
    rw [fetchRoot, if_neg (by omega)]
    simp only [hu32, if_neg htype, if_neg (not_le.mpr hsec)]
    have hfetch := @runs_fetchAt g V behind _ hg hplace (g.rootLba + i / 16) (i * 32 % 512) rfl
    rw [bufferAt_eq behind _ (by omega), show i * 32 % 512 = 32 * (i % 16) by omega] at hfetch
    simpa only [rootEntries, getElem_map, getElem_range,
      show i * 32 % 512 = 32 * (i % 16) by omega] using hfetch

lemma lister_chainRoot (hg : g.Sound) (htype : g.fatType = .fat32) :
    Lister g behind V (clusterEntries g V g.rootClus).length
      (AtRoot (clusterEntries g V g.rootClus)) := by
  have hmax : rootMaxEntries g = 16 * g.secPerClus := by
    rw [rootMaxEntries, if_pos htype, hg.sector]
    omega
  have hlength : (clusterEntries g V g.rootClus).length = 16 * g.secPerClus := by
    rw [clusterEntries, length_map, length_range]
  have hvalid : g.Valid g.rootClus := hg.root_clus htype
  refine lister_root (fun i hi => ?_) fun i hi => ?_
  · rw [fetchRoot, if_pos (by omega)]
    exact runs_pure _
  · have hsec : i / 16 < g.secPerClus := by omega
    have hplace := hvalid.place hsec
    have hlt := hg.lba_lt hplace
    have hu32 : u32 (i * 32 / 512) = i / 16 := by
      rw [u32_of_lt (by simp only [Geometry.lba] at hlt; omega)]
      omega
    rw [fetchRoot, if_neg (by omega)]
    simp only [hu32, if_pos htype]
    have hfetch := @runs_fetchAt g V behind _ hg hplace (clusToLba g g.rootClus + i / 16)
      (i * 32 % 512) (lba_sector hg hvalid _)
    rw [bufferAt_eq behind _ (by omega)] at hfetch
    simpa only [clusterEntries, getElem_map, getElem_range,
      show i * 32 % 512 = 32 * (i % 16) by omega] using hfetch

/-! ### Other directories -/

def AtIter (Q : DirIter → List Bytes → Prop) (f : VfsFile) (_ : ℕ) (es : List Bytes) : Prop :=
  f.isDir = true ∧ ∃ it, f.priv = .dir it ∧ (it.eof = true ∧ es = [] ∨ it.eof = false ∧ Q it es)

lemma lister_iter {n : ℕ} {Q : DirIter → List Bytes → Prop}
    (hbound : ∀ it es, Q it es → es.length ≤ n)
    (hdone : ∀ it, it.eof = false → Q it [] →
      ∃ it', Runs g (fetchDir g behind it) V (.ok (.done, it')) V ∧
        (it'.eof = true ∨ it'.eof = false ∧ Q it' []))
    (hentry : ∀ it e es, it.eof = false → Q it (e :: es) →
      ∃ it', Runs g (fetchDir g behind it) V (.ok (.entry e, it')) V ∧ it'.eof = false ∧
        Q it' (e :: es) ∧ (e 0 ≠ entryEnd → Q { it' with off := (it'.off + 32) % 65536 } es)) :
    Lister g behind V n (AtIter Q) where
  isDir h := h.1
  bound := by
    rintro f i es ⟨-, it, -, ⟨-, rfl⟩ | ⟨-, hQ⟩⟩
    · exact Nat.zero_le _
    · exact hbound it es hQ
  setPos h _ := h
  done := by
    rintro f i ⟨hdir, it, hpriv, ⟨heof, -⟩ | ⟨heof, hQ⟩⟩
    · refine ⟨f, ?_, .inl rfl⟩
      have hfetch : Runs g (fetchDir g behind it) V (.ok (.done, it)) V := by
        rw [fetchDir, if_pos heof]
        exact runs_pure _
      have hsame : { f with priv := .dir it } = f := by rw [← hpriv]
      rw [fetch, hpriv]
      conv => arg 4; rw [← hsame]
      exact hfetch.bind (runs_pure _)
    · obtain ⟨it', hfetch, hafter⟩ := hdone it heof hQ
      refine ⟨{ f with priv := .dir it' }, ?_, .inr fun j => ⟨hdir, it', rfl, ?_⟩⟩
      · rw [fetch, hpriv]
        exact hfetch.bind (runs_pure _)
      · exact hafter.imp (fun h => ⟨h, rfl⟩) id
  entry := by
    rintro f i e es ⟨hdir, it, hpriv, ⟨-, hnil⟩ | ⟨heof, hQ⟩⟩
    · exact absurd hnil (cons_ne_nil _ _)
    · obtain ⟨it', hfetch, heof', hQ', hnext⟩ := hentry it e es heof hQ
      refine ⟨{ f with priv := .dir it' }, ?_, .inr fun j => ?_, .inr fun j => ?_, fun hend => ?_⟩
      · rw [fetch, hpriv]
        exact hfetch.bind (runs_pure _)
      · exact ⟨hdir, it', rfl, .inr ⟨heof', hQ'⟩⟩
      · exact ⟨hdir, _, rfl, .inl ⟨rfl, rfl⟩⟩
      · have hafter : ∀ j, AtIter Q { f with priv := .dir it' }.advance j es :=
          fun j => ⟨hdir, _, rfl, .inr ⟨heof', hnext hend⟩⟩
        exact ⟨hafter (i + 1), .inr hafter⟩

lemma lister_nothing (htype : g.fatType ≠ .fat32) :
    Lister g behind V 0 (AtIter fun it es => it.clus = 0 ∧ es = []) := by
  refine lister_iter ?_ ?_ ?_
  · rintro it es ⟨-, rfl⟩
    exact le_rfl
  · rintro it heof ⟨hclus, -⟩
    refine ⟨it, ?_, .inr ⟨heof, hclus, rfl⟩⟩
    rw [fetchDir, heof, if_neg Bool.false_ne_true, if_pos ⟨hclus, htype⟩]
    exact runs_pure _
  · rintro it e es - ⟨-, hnil⟩
    exact absurd hnil (cons_ne_nil _ _)

def bufferEntries (behind : Bytes) (V : View) (c m : ℕ) : List Bytes :=
  (range (m + 1)).map fun k => bufferAt behind (V.sector (.data c 0)) (32 * k)

lemma runs_fetchDir_buffer (hg : g.Sound) (htype : g.fatType = .fat32) (heof : it.eof = false)
    (hvalid : g.Valid it.clus) (hsec : it.sec = 0) (hoff : it.off < g.secPerClus * 512) :
    Runs g (fetchDir g behind it) V
      (.ok (.entry (bufferAt behind (V.sector (.data it.clus 0)) it.off), it)) V := by
  rw [fetchDir, heof, if_neg Bool.false_ne_true, if_neg (by simp [htype]), hg.sector,
    if_neg (not_le.mpr hoff), hsec]
  exact (runs_fetchAt hg (hvalid.place hg.clus_pos) (lba_sector hg hvalid 0)).bind (runs_pure _)

lemma lister_mark (hg : g.Sound) (htype : g.fatType = .fat32) {c m : ℕ} (hvalid : g.Valid c)
    (hm : 32 * m < g.secPerClus * 512) (hsmall : m < 100)
    (hend : bufferAt behind (V.sector (.data c 0)) (32 * m) 0 = entryEnd) :
    Lister g behind V (m + 1) (AtIter fun it es => it.clus = c ∧ it.sec = 0 ∧
      ∃ k, k ≤ m ∧ it.off = 32 * k ∧ es = (bufferEntries behind V c m).drop k) := by
  have hlength : (bufferEntries behind V c m).length = m + 1 := by
    rw [bufferEntries, length_map, length_range]
  have hdrop : ∀ k, k ≤ m → (bufferEntries behind V c m).drop k =
      bufferAt behind (V.sector (.data c 0)) (32 * k) ::
        (bufferEntries behind V c m).drop (k + 1) := by
    intro k hk
    rw [drop_eq_getElem_cons (by omega)]
    simp only [bufferEntries, getElem_map, getElem_range]
  refine lister_iter ?_ ?_ ?_
  · rintro it es ⟨-, -, k, -, -, rfl⟩
    rw [length_drop]
    omega
  · rintro it - ⟨-, -, k, hk, -, hnil⟩
    rw [hdrop k hk] at hnil
    exact absurd hnil.symm (cons_ne_nil _ _)
  · rintro ⟨clus, sec, off, eof⟩ e es heof ⟨rfl, rfl, k, hk, rfl, hes⟩
    rw [hdrop k hk, cons.injEq] at hes
    obtain ⟨rfl, rfl⟩ := hes
    refine ⟨_, runs_fetchDir_buffer hg htype heof hvalid rfl (by dsimp only; omega), heof,
      ⟨rfl, rfl, k, hk, rfl, (hdrop k hk).symm⟩, fun hlive => ⟨rfl, rfl, k + 1, ?_, ?_, rfl⟩⟩
    · by_contra hlt
      obtain rfl : k = m := by omega
      exact hlive hend
    · dsimp only
      omega

/-- The clusters that the listing of a chain comes to: it goes on from a cluster only if this is
one sector without an end mark. -/
def listedClusters (g : Geometry) (V : View) : List ℕ → List ℕ
  | [] => []
  | c :: cs => c :: if g.secPerClus = 1 ∧ ∀ e ∈ clusterEntries g V c, e 0 ≠ entryEnd then
      listedClusters g V cs else []

def InChain (g : Geometry) (V : View) (n : ℕ) (it : DirIter) (es : List Bytes) : Prop :=
  es.length ≤ n ∧ it.sec = 0 ∧ g.Valid it.clus ∧
    ∃ k cs, k ≤ 16 ∧ it.off = 32 * k ∧ V.Chain g (V.fat it.clus) cs ∧
      ((∀ e ∈ (clusterEntries g V it.clus).drop k, e 0 ≠ entryEnd) →
        ∀ c ∈ listedClusters g V cs, c < 65536) ∧
      es = (clusterEntries g V it.clus).drop k ++ chainEntries g V cs

section OneSector

variable (hg : g.Sound) (htype : g.fatType = .fat32) (hone : g.secPerClus = 1)

lemma clusterEntries_drop (hone : g.secPerClus = 1) (c : ℕ) {k : ℕ} (hk : k < 16) :
    (clusterEntries g V c).drop k =
      sectorEntry (V.sector (.data c 0)) (32 * k) :: (clusterEntries g V c).drop (k + 1) := by
  have hlength : (clusterEntries g V c).length = 16 := by
    rw [clusterEntries, length_map, length_range, hone]
  rw [drop_eq_getElem_cons (by omega)]
  simp only [clusterEntries, getElem_map, getElem_range,
    show k / 16 = 0 by omega, show k % 16 = k by omega]

lemma clusterEntries_end (hone : g.secPerClus = 1) (c : ℕ) :
    (clusterEntries g V c).drop 16 = [] := by
  refine drop_eq_nil_of_le ?_
  rw [clusterEntries, length_map, length_range, hone]

include hg htype hone

lemma runs_fetchDir_last (heof : it.eof = false) (hvalid : g.Valid it.clus)
    (hoff : it.off = 512) (hlast : fatIsEof g (V.fat it.clus) = true) :
    Runs g (fetchDir g behind it) V (.ok (.done, { it with eof := true })) V := by
  rw [fetchDir, heof, if_neg Bool.false_ne_true, if_neg (by simp [htype]), hg.sector, hone, hoff,
    if_pos (by omega)]
  refine (runs_fatGet hg hvalid).bind ?_
  rw [hlast]
  exact runs_pure _

lemma runs_fetchDir_next (heof : it.eof = false) (hvalid : g.Valid it.clus)
    (hoff : it.off = 512) (hnext : g.Valid (V.fat it.clus)) (hlow : V.fat it.clus < 65536) :
    Runs g (fetchDir g behind it) V
      (.ok (.entry (sectorEntry (V.sector (.data (V.fat it.clus) 0)) 0),
        { it with clus := V.fat it.clus, sec := 0, off := 0 })) V := by
  rw [fetchDir, heof, if_neg Bool.false_ne_true, if_neg (by simp [htype]), hg.sector, hone, hoff,
    if_pos (by omega)]
  refine (runs_fatGet hg hvalid).bind ?_
  have hgo : ¬ (fatIsEof g (V.fat it.clus) || decide (V.fat it.clus < 2)) = true := by
    have hge := hnext.1
    simp only [fatIsEof_of_valid hg hnext, Bool.false_or, decide_eq_true_eq]
    omega
  rw [if_neg hgo]
  simp only [Nat.mod_eq_of_lt hlow]
  have hread := @runs_fetchAt g V behind _ hg (hnext.place hg.clus_pos) _ 0 (lba_sector hg hnext 0)
  rw [bufferAt_eq behind _ (by omega)] at hread
  exact hread.bind (runs_pure _)

lemma lister_chain (n : ℕ) : Lister g behind V n (AtIter (InChain g V n)) := by
  refine lister_iter (fun it es h => h.1) ?_ ?_
  · rintro it heof ⟨-, -, hvalid, k, cs, hk, hoff, hchain, -, hnil⟩
    obtain ⟨hdone, hcs⟩ := append_eq_nil_iff.mp hnil.symm
    obtain rfl : k = 16 := by
      by_contra hne
      rw [clusterEntries_drop hone _ (by omega)] at hdone
      exact absurd hdone (cons_ne_nil _ _)
    cases cs with
    | nil => exact ⟨_, runs_fetchDir_last hg htype hone heof hvalid hoff hchain, .inl rfl⟩
    | cons c cs =>
      have hfirst := @clusterEntries_drop g V hone c 0 (by omega)
      rw [drop_zero] at hfirst
      rw [chainEntries, flatMap_cons, hfirst] at hcs
      exact absurd hcs (by simp)
  · rintro it e es heof ⟨hn, hsec, hvalid, k, cs, hk, hoff, hchain, hlow, hes⟩
    by_cases hk16 : k < 16
    · have hall := hes
      have hdrop := @clusterEntries_drop g V hone it.clus k hk16
      rw [hdrop, cons_append, cons.injEq] at hes
      obtain ⟨rfl, rfl⟩ := hes
      have hfetch : Runs g (fetchDir g behind it) V
          (.ok (.entry (bufferAt behind (V.sector (.data it.clus 0)) it.off), it)) V :=
        runs_fetchDir_buffer hg htype heof hvalid hsec (by rw [hone]; omega)
      rw [hoff, bufferAt_eq behind _ (by omega)] at hfetch
      rw [length_cons] at hn
      refine ⟨it, hfetch, heof, ⟨by rw [length_cons]; omega, hsec, hvalid, k, cs, hk, hoff,
        hchain, hlow, hall⟩, fun hlive => ⟨by omega, hsec, hvalid, k + 1, cs, by omega, ?_, hchain,
        fun hrest => hlow ?_, rfl⟩⟩
      · dsimp only
        omega
      · rw [hdrop]
        exact forall_mem_cons.mpr ⟨hlive, hrest⟩
    · obtain rfl : k = 16 := by omega
      rw [clusterEntries_end hone, nil_append] at hes
      cases cs with
      | nil => exact absurd hes (cons_ne_nil _ _)
      | cons c cs =>
        obtain ⟨rfl, hnext, hchain⟩ := hchain
        rw [clusterEntries_end hone, listedClusters] at hlow
        obtain ⟨hlow, hlows⟩ := forall_mem_cons.mp (hlow (by simp))
        have hdrop := @clusterEntries_drop g V hone (V.fat it.clus) 0 (by omega)
        rw [chainEntries, flatMap_cons] at hes
        have hall := hes
        rw [drop_zero] at hdrop
        rw [hdrop, cons_append, cons.injEq] at hes
        obtain ⟨rfl, rfl⟩ := hes
        rw [length_cons] at hn
        refine ⟨_, runs_fetchDir_next hg htype hone heof hvalid hoff hnext hlow, heof,
          ⟨by rw [length_cons]; omega, rfl, hnext, 0, cs, by omega, rfl, hchain,
            fun hrest => ?_, hall⟩,
          fun hlive => ⟨by omega, rfl, hnext, 1, cs, by omega, rfl, hchain, fun hrest => ?_, rfl⟩⟩
        · rwa [if_pos ⟨hone, hrest⟩] at hlows
        · have hall : ∀ e ∈ clusterEntries g V (V.fat it.clus), e 0 ≠ entryEnd := by
            rw [hdrop]
            exact forall_mem_cons.mpr ⟨hlive, hrest⟩
          rwa [if_pos ⟨hone, hall⟩] at hlows

end OneSector

/-! ## All records of a directory -/

/-- The root directory, or the directory with the first cluster `c`. -/
inductive Directory where
  | root
  | sub (c : ℕ)

/-- The handle that `fat_open` makes. -/
def Directory.handle (g : Geometry) : Directory → VfsFile
  | .root => { priv := .root, size := 0, pos := 0, isDir := true, writable := false }
  | .sub c =>
    { priv := .dir ⟨if g.fatType = .fat32 then c % 65536 else 0, 0, 0, false⟩
      size := 0, pos := 0, isDir := true, writable := false }

/-- The chain of the directory. -/
def Directory.Clusters (g : Geometry) (V : View) (cs : List ℕ) : Directory → Prop
  | .root => g.fatType = .fat32 → V.Chain g g.rootClus cs
  | .sub c => V.Chain g c cs ∧ cs ≠ []

def Directory.entries (g : Geometry) (V : View) (cs : List ℕ) : Directory → List Bytes
  | .root => if g.fatType = .fat32 then chainEntries g V cs else rootEntries g V
  | .sub _ => chainEntries g V cs

/-- Whatever stands behind the buffer and whatever lengths the buffers have, the calls end, and
their records name the live entries in order. -/
def ListsAll (g : Geometry) (d : Drive) (f : VfsFile) (es : List Bytes) : Prop :=
  ∀ (behind : Bytes) (len : ℕ → ℕ), (∀ k, ∀ e ∈ liveEntries es, recordSize e ≤ len k) →
    ∃ bound, ∀ fuel, bound ≤ fuel → ∃ rs d', listDir g behind fuel fuel len f d = (.ok rs, d') ∧
      rs.map Dirent.name = (liveEntries es).map entToName

section Complete

variable {d : Drive} {n : ℕ} {P : VfsFile → ℕ → List Bytes → Prop}

lemma listsAll_of_listers (hd : d.Reliable)
    (h : ∀ behind, ∃ n P, Lister g behind (d.view g) n P ∧ Rest P f (liveEntries es)) :
    ListsAll g d f es := by
  intro behind len hlen
  obtain ⟨n, P, hP, hrest⟩ := h behind
  refine ⟨max (n + 1) ((liveEntries es).length + 1), fun fuel hfuel => ?_⟩
  obtain ⟨rs, hrun, hnames⟩ := hP.lists hrest fuel fuel (by omega) (by omega) len hlen
  obtain ⟨d', hrun, -⟩ := hrun d hd rfl
  exact ⟨rs, d', hrun, hnames⟩

lemma ListsAll.names_eq (hall : ListsAll g d f es) (hd : d.Reliable)
    (hP : Lister g behind (d.view g) n P) (hrest : Rest P f live) :
    live.map entToName = (liveEntries es).map entToName := by
  obtain ⟨bound, hbound⟩ := hall behind (fun _ => 32) fun _ e _ => recordSize_le e
  have hfuel : bound ≤ bound + n + live.length + 1 := by omega
  obtain ⟨rs, d₁, hrun₁, hnames₁⟩ := hbound _ hfuel
  obtain ⟨rs', hrun, hnames₂⟩ := hP.lists hrest (bound + n + live.length + 1)
    (bound + n + live.length + 1) (by omega) (by omega) (fun _ => 32) fun _ e _ => recordSize_le e
  obtain ⟨d₂, hrun₂, -⟩ := hrun d hd rfl
  rw [hrun₁, Prod.mk.injEq, Outcome.ok.injEq] at hrun₂
  rw [← hnames₁, ← hnames₂, hrun₂.1]

lemma liveEntries_append_end {l : List Bytes} (hend : ∃ e ∈ l, e 0 = entryEnd)
    (r : List Bytes) : liveEntries (l ++ r) = liveEntries l := by
  induction l with
  | nil => exact absurd hend (by simp)
  | cons e l ih =>
    by_cases hmark : e 0 = entryEnd
    · rw [cons_append, liveEntries_end hmark, liveEntries_end hmark]
    · have hrest : ∃ e ∈ l, e 0 = entryEnd := by
        obtain ⟨x, hx, hend⟩ := hend
        rcases mem_cons.mp hx with rfl | hx
        · exact absurd hend hmark
        · exact ⟨x, hx, hend⟩
      rw [cons_append, liveEntries, liveEntries, if_neg hmark, if_neg hmark, ih hrest]

lemma liveEntries_append (hno : ∀ e ∈ l, e 0 ≠ entryEnd) (r) :
    liveEntries (l ++ r) = liveEntries l ++ liveEntries r := by
  induction l with
  | nil => rfl
  | cons e l ih =>
    obtain ⟨hmark, hrest⟩ := forall_mem_cons.mp hno
    rw [cons_append, liveEntries, liveEntries, if_neg hmark, if_neg hmark, ih hrest]
    split_ifs
    · rfl
    · rw [cons_append]

lemma liveEntries_prefix (l r) : liveEntries l <+: liveEntries (l ++ r) := by
  by_cases hend : ∃ e ∈ l, e 0 = entryEnd
  · rw [liveEntries_append_end hend]
  · rw [liveEntries_append (by simpa using hend)]
    exact prefix_append _ _

/-! ### The root directory -/

lemma rest_root (all : List Bytes) :
    Rest (AtRoot all) (Directory.root.handle g) (liveEntries all) :=
  ⟨all, ⟨rfl, rfl, rfl⟩, rfl⟩

lemma listsAll_chainRoot_iff (hg : g.Sound) (htype : g.fatType = .fat32) (hd : d.Reliable)
    {cs : List ℕ} (hchain : (d.view g).Chain g g.rootClus cs) :
    ListsAll g d (Directory.root.handle g) (chainEntries g (d.view g) cs) ↔
      liveEntries (chainEntries g (d.view g) cs) =
        liveEntries (clusterEntries g (d.view g) g.rootClus) := by
  constructor
  · intro hall
    have hnames := hall.names_eq hd (@lister_chainRoot g _ (fun _ => 0#8) hg htype) (rest_root _)
    cases cs with
    | nil =>
      have heof : fatIsEof g g.rootClus = true := hchain
      rw [fatIsEof_of_valid hg (hg.root_clus htype)] at heof
      exact absurd heof Bool.false_ne_true
    | cons c cs =>
      obtain ⟨rfl, -, -⟩ := hchain
      have hpart := liveEntries_prefix (clusterEntries g (d.view g) g.rootClus)
        (chainEntries g (d.view g) cs)
      have hlength := congrArg length hnames
      rw [length_map, length_map] at hlength
      exact (hpart.eq_of_length hlength).symm
  · intro hfirst
    refine listsAll_of_listers hd fun behind => ⟨_, _, lister_chainRoot hg htype, ?_⟩
    rw [hfirst]
    exact rest_root _

lemma listsAll_fixedRoot (hg : g.Sound) (htype : g.fatType ≠ .fat32)
    (hcnt : g.rootEntCnt ≤ 16 * g.rootSectors) (hd : d.Reliable) :
    ListsAll g d (Directory.root.handle g) (rootEntries g (d.view g)) :=
  listsAll_of_listers hd fun _ => ⟨_, _, lister_fixedRoot hg htype hcnt, rest_root _⟩

/-! ### Other directories -/

lemma listsAll_nothing_iff (htype : g.fatType ≠ .fat32) (hd : d.Reliable) {c : ℕ} :
    ListsAll g d ((Directory.sub c).handle g) es ↔ liveEntries es = [] := by
  have hrest : Rest (AtIter fun it es => it.clus = 0 ∧ es = []) ((Directory.sub c).handle g) [] :=
    ⟨[], ⟨rfl, _, rfl, .inr ⟨rfl, if_neg htype, rfl⟩⟩, rfl⟩
  constructor
  · intro hall
    have hnames := hall.names_eq hd (@lister_nothing g _ (fun _ => 0#8) htype) hrest
    exact map_eq_nil_iff.mp hnames.symm
  · intro hnone
    refine listsAll_of_listers hd fun _ => ⟨_, _, lister_nothing htype, ?_⟩
    rw [hnone]
    exact hrest

section Chained

variable {c : ℕ} {cs : List ℕ}

lemma rest_mark (htype : g.fatType = .fat32) (hlow : c < 65536) (m : ℕ) :
    Rest (AtIter fun it es => it.clus = c ∧ it.sec = 0 ∧
        ∃ k, k ≤ m ∧ it.off = 32 * k ∧ es = (bufferEntries behind V c m).drop k)
      ((Directory.sub c).handle g) (liveEntries (bufferEntries behind V c m)) := by
  refine ⟨_, ⟨rfl, _, rfl, .inr ⟨rfl, ?_, rfl, 0, Nat.zero_le m, rfl, rfl⟩⟩, rfl⟩
  rw [if_pos htype, Nat.mod_eq_of_lt hlow]

lemma bufferEntries_eq_take (hg : g.Sound) {m : ℕ} (hm : m < 16) :
    bufferEntries behind V c m = (clusterEntries g V c).take (m + 1) := by
  have hpos := hg.clus_pos
  rw [clusterEntries, ← map_take, take_range, Nat.min_eq_left (by omega), bufferEntries]
  refine map_congr_left fun k hk => ?_
  have hk' := mem_range.mp hk
  rw [bufferAt_eq behind _ (by omega), show k / 16 = 0 by omega, show k % 16 = k by omega]

lemma listsAll_mark (hg : g.Sound) (htype : g.fatType = .fat32) (hd : d.Reliable)
    (hvalid : g.Valid c) (hlow : c < 65536) {m : ℕ} (hm : m < 16)
    (hend : sectorEntry ((d.view g).sector (.data c 0)) (32 * m) 0 = entryEnd) :
    ListsAll g d ((Directory.sub c).handle g) (chainEntries g (d.view g) (c :: cs)) := by
  have hpos := hg.clus_pos
  refine listsAll_of_listers hd fun behind => ?_
  have hmark : bufferAt behind ((d.view g).sector (.data c 0)) (32 * m) 0 = entryEnd := by
    rw [bufferAt_eq behind _ (by omega), hend]
  refine ⟨_, _, lister_mark hg htype hvalid (by omega) (by omega) hmark, ?_⟩
  have hlive : liveEntries (chainEntries g (d.view g) (c :: cs)) =
      liveEntries (bufferEntries behind (d.view g) c m) := by
    rw [chainEntries, flatMap_cons, ← take_append_drop (m + 1) (clusterEntries g (d.view
      g) c), append_assoc, ← @bufferEntries_eq_take g _ behind _ hg _ hm]
    refine liveEntries_append_end ⟨_, ?_, hmark⟩ _
    exact mem_map.mpr ⟨m, mem_range.mpr (by omega), rfl⟩
  rw [hlive]
  exact rest_mark htype hlow m

lemma listsAll_oneSector (hg : g.Sound) (htype : g.fatType = .fat32) (hone : g.secPerClus = 1)
    (hd : d.Reliable) (hchain : (d.view g).Chain g c (c :: cs))
    (hlow : ∀ x ∈ listedClusters g (d.view g) (c :: cs), x < 65536) :
    ListsAll g d ((Directory.sub c).handle g) (chainEntries g (d.view g) (c :: cs)) := by
  obtain ⟨-, hvalid, hrest⟩ := hchain
  obtain ⟨hfirst, hlows⟩ := forall_mem_cons.mp hlow
  refine listsAll_of_listers hd fun behind =>
    ⟨_, _, lister_chain hg htype hone (chainEntries g (d.view g) (c :: cs)).length, _,
      ⟨rfl, _, rfl, .inr ⟨rfl, le_rfl, rfl, ?_⟩⟩, rfl⟩
  simp only [if_pos htype, Nat.mod_eq_of_lt hfirst]
  exact ⟨hvalid, 0, cs, by omega, rfl, hrest, fun hno => by rwa [if_pos ⟨hone, hno⟩] at hlows, rfl⟩

/-- Memory that looks like an entry, followed by an end mark. -/
def strayEntry : Bytes := fun i => if i = 0 then 0x41#8 else 0#8

lemma bufferEntries_succ (m : ℕ) : bufferEntries behind V c (m + 1) =
    bufferEntries behind V c m ++ [bufferAt behind (V.sector (.data c 0)) (32 * (m + 1))] := by
  rw [bufferEntries, range_succ, map_append]
  rfl

lemma bufferAt_strayEntry (s : Sector) : bufferAt strayEntry s (32 * (15 + 1)) = strayEntry := by
  funext i
  unfold bufferAt strayEntry
  split_ifs <;> first | rfl | omega

/-- Without an end mark in the first sector of a larger cluster, what is listed depends on the
memory behind the buffer. -/
theorem not_listsAll_of_full (hg : g.Sound) (htype : g.fatType = .fat32) (hd : d.Reliable)
    (hvalid : g.Valid c) (hlow : c < 65536) (hlarge : g.secPerClus ≠ 1)
    (hfull : ∀ k, k < 16 → sectorEntry ((d.view g).sector (.data c 0)) (32 * k) 0 ≠ entryEnd) :
    ¬ ListsAll g d ((Directory.sub c).handle g) es := by
  intro hall
  have hpos := hg.clus_pos
  let first : List Bytes := (range 16).map fun k =>
    sectorEntry ((d.view g).sector (.data c 0)) (32 * k)
  have hbuffer : ∀ behind, bufferEntries behind (d.view g) c 15 = first := by
    intro behind
    refine map_congr_left fun k hk => bufferAt_eq behind _ ?_
    have := mem_range.mp hk
    omega
  have hno : ∀ e ∈ first, e 0 ≠ entryEnd := by
    intro e he
    obtain ⟨k, hk, rfl⟩ := mem_map.mp he
    exact hfull k (mem_range.mp hk)
  have hcount : ∀ behind m, 16 ≤ m → m < 20 →
      bufferAt behind ((d.view g).sector (.data c 0)) (32 * m) 0 = entryEnd →
      (liveEntries (bufferEntries behind (d.view g) c m)).length = (liveEntries es).length := by
    intro behind m hm hm' hend
    have hnames := hall.names_eq hd
      (lister_mark hg htype hvalid (by omega) (by omega) hend) (rest_mark htype hlow m)
    simpa using congrArg length hnames
  have hend : bufferAt (fun _ => 0#8) ((d.view g).sector (.data c 0)) (32 * 16) 0 = entryEnd := rfl
  have hend' : bufferAt strayEntry ((d.view g).sector (.data c 0)) (32 * 17) 0 = entryEnd := rfl
  have hzero := hcount (fun _ => 0#8) 16 le_rfl (by omega) hend
  have hstray := hcount strayEntry 17 (by omega) (by omega) hend'
  rw [bufferEntries_succ, hbuffer, liveEntries_append hno, liveEntries_end hend,
    append_nil] at hzero
  rw [bufferEntries_succ, bufferEntries_succ, hbuffer, append_assoc, liveEntries_append hno,
    bufferAt_strayEntry, singleton_append, liveEntries_live (by decide) (by decide),
    liveEntries_end hend', length_append, length_singleton] at hstray
  omega

lemma listsAll_sub_iff (hg : g.Sound) (htype : g.fatType = .fat32) (hd : d.Reliable)
    (hchain : (d.view g).Chain g c cs) (hne : cs ≠ [])
    (hlow : ∀ x ∈ listedClusters g (d.view g) cs, x < 65536) :
    ListsAll g d ((Directory.sub c).handle g) (chainEntries g (d.view g) cs) ↔
      g.secPerClus = 1 ∨
        ∃ k, k < 16 ∧ sectorEntry ((d.view g).sector (.data c 0)) (32 * k) 0 = entryEnd := by
  cases cs with
  | nil => exact absurd rfl hne
  | cons x cs =>
    obtain ⟨rfl, hvalid, hrest⟩ := hchain
    have hfirst := hlow x mem_cons_self
    constructor
    · intro hall
      by_contra hnot
      rw [not_or, not_exists] at hnot
      exact not_listsAll_of_full hg htype hd hvalid hfirst hnot.1
        (fun k hk hend => hnot.2 k ⟨hk, hend⟩) hall
    · rintro (hone | ⟨m, hm, hend⟩)
      · exact listsAll_oneSector hg htype hone hd ⟨rfl, hvalid, hrest⟩ hlow
      · exact listsAll_mark hg htype hd hvalid hfirst hm hend

end Chained

end Complete

def Directory.Listable (g : Geometry) (V : View) (cs : List ℕ) : Directory → Prop
  | .root => g.fatType = .fat32 →
      liveEntries (chainEntries g V cs) = liveEntries (clusterEntries g V g.rootClus)
  | .sub c =>
    if g.fatType = .fat32 then
      g.secPerClus = 1 ∨ ∃ k, k < 16 ∧ sectorEntry (V.sector (.data c 0)) (32 * k) 0 = entryEnd
    else liveEntries (chainEntries g V cs) = []

/-- If it comes to clusters below 65536 only, the listing names all live entries once and in order
iff the root directory of FAT32 has them in its first cluster, another directory of FAT32 has
clusters of one sector or an end mark in the first, and one of FAT16 has none. -/
theorem listing_complete_iff (hg : g.Sound) (hcnt : g.rootEntCnt ≤ 16 * g.rootSectors) (d : Drive)
    (hd : d.Reliable) (dir : Directory) (cs : List ℕ) (hdir : dir.Clusters g (d.view g) cs)
    (hlow : ∀ c, dir = .sub c → g.fatType = .fat32 →
      ∀ x ∈ listedClusters g (d.view g) cs, x < 65536) :
    ListsAll g d (dir.handle g) (dir.entries g (d.view g) cs) ↔ dir.Listable g (d.view g) cs := by
  cases dir with
  | root =>
    by_cases htype : g.fatType = .fat32
    · simp only [Directory.entries, if_pos htype, Directory.Listable]
      rw [listsAll_chainRoot_iff hg htype hd (hdir htype)]
      exact ⟨fun h _ => h, fun h => h htype⟩
    · simp only [Directory.entries, if_neg htype, Directory.Listable]
      exact iff_of_true (listsAll_fixedRoot hg htype hcnt hd) fun h => absurd h htype
  | sub c =>
    by_cases htype : g.fatType = .fat32
    · simp only [Directory.Listable, if_pos htype]
      exact listsAll_sub_iff hg htype hd hdir.1 hdir.2 (hlow c rfl htype)
    · simp only [Directory.Listable, if_neg htype]
      exact listsAll_nothing_iff htype hd

/-- A FAT16 volume of 4085 clusters. -/
def smallVolume : Geometry := ⟨512, 1, 1, 1, 16, 16, 4103, .fat16, 0, 1, 17, 1, 18, 4085⟩

lemma smallVolume_sound : smallVolume.Sound := by
  constructor <;> decide

def smallDrive : Drive where
  sectors := fun lba =>
    if lba = 1 then toSector (patch (fun _ => 0#8) 4 (bytes16 0xFFF8))
    else if lba = 17 then
      toSector (patch (fun _ => 0#8) 0 (padded 11 [0x44#8] ++ [attrDirectory] ++
        replicate 14 0#8 ++ bytes16 2))
    else if lba = 18 then
      toSector (patch (fun _ => 0#8) 0 (padded 11 [dotByte] ++ [attrDirectory]))
    else zeroSector
  faults := fun _ _ => false
  clock := fun _ => 0

theorem listing_complete_iff_root :
    ListsAll smallVolume smallDrive (Directory.root.handle smallVolume)
      (rootEntries smallVolume (smallDrive.view smallVolume)) ∧
    (liveEntries (rootEntries smallVolume (smallDrive.view smallVolume))).map entToName =
      [[0x44#8]] := by
  refine ⟨?_, by decide +kernel⟩
  exact (listing_complete_iff smallVolume_sound (by decide) smallDrive rfl .root []
    (fun h => absurd h (by decide)) fun c h => by cases h).mpr fun h => absurd h (by decide)

/-- The listing of the directory `D` is empty. -/
theorem subdirectory_lists_nothing :
    smallDrive.Reliable ∧
      (Directory.sub 2).Clusters smallVolume (smallDrive.view smallVolume) [2] ∧
      (liveEntries ((Directory.sub 2).entries smallVolume (smallDrive.view smallVolume) [2])).map
        entToName = [[dotByte]] ∧
      ∀ behind, ∃ d', listDir smallVolume behind 1 1 (fun _ => 32)
        ((Directory.sub 2).handle smallVolume) smallDrive = (.ok [], d') := by
  have hchain : (smallDrive.view smallVolume).Chain smallVolume 2 [2] := by
    refine ⟨rfl, by decide, ?_⟩
    change fatIsEof smallVolume _ = true
    decide +kernel
  exact ⟨rfl, ⟨hchain, by decide⟩, by decide +kernel, fun behind => ⟨_, rfl⟩⟩

end HelixOS.Fat
