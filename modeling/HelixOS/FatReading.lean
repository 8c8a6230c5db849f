import HelixOS.FatOpening

/-!
# Reading files

`fat_read_file` follows the chain to the cluster of the position and copies out of one
cluster after the other.
-/

namespace HelixOS.Fat

open List

variable {g : Geometry} {V : View} {c fuel len off : ℕ} {cs : List ℕ} {f : VfsFile} {ff : FatFile}

def View.clusterBytes (g : Geometry) (V : View) (c : ℕ) : List Byte :=
  (List.range (clusSize g)).map fun i => byteAt (V.sector (.data c (i / 512))) (i % 512)

/-- The bytes of a chain. -/
def View.content (g : Geometry) (V : View) (cs : List ℕ) : List Byte :=
  cs.flatMap (V.clusterBytes g)

@[simp] lemma View.length_clusterBytes (V : View) (c) :
    (V.clusterBytes g c).length = clusSize g := by
  simp [View.clusterBytes]

lemma View.content_drop (V : View) (cs) (n : ℕ) :
    V.content g (cs.drop n) = (V.content g cs).drop (n * clusSize g) := by
  induction n generalizing cs with
  | zero => simp
  | succ n ih =>
    cases cs with
    | nil => simp [View.content]
    | cons c cs =>
      rw [drop_succ_cons, ih, View.content, View.content, flatMap_cons, Nat.succ_mul,
        Nat.add_comm, ← drop_drop, drop_left' (V.length_clusterBytes c)]

lemma Geometry.Sound.clusSize_pos (hg : g.Sound) : 0 < clusSize g :=
  Nat.mul_pos hg.clus_pos (by simp [hg.sector])

/-- What is copied out of the buffer is a part of the cluster. -/
lemma runs_readCluster (hg : g.Sound) (hc : g.Valid c) :
    ∃ buf : Bytes, Runs g (readSectors (clusToLba g c) g.secPerClus) V (.ok buf) V ∧
      ∀ off len, (List.range (min (clusSize g - off) len)).map (fun i => buf (off + i)) =
        ((V.clusterBytes g c).drop off).take len := by
  refine ⟨fun i => if i < g.secPerClus * 512 then byteAt (V.sector (.data c (i / 512))) (i % 512)
    else 0#8, runs_request (fun d hV => funext fun i => ?_) fun d hV => hV, fun off len => ?_⟩
  · by_cases hi : i < g.secPerClus * 512
    · simp only [if_pos hi, ← hV, Drive.view]
      rw [if_pos (hc.place (by omega)), lba_sector hg hc]
    · simp only [if_neg hi]
  · refine ext_getElem (by simp; omega) fun i hi _ => ?_
    have hlt : off + i < g.secPerClus * 512 := by
      rw [length_map, length_range, clusSize, hg.sector] at hi
      omega
    simp [View.clusterBytes, hlt]

lemma View.Chain.runs_readLoop (hg : g.Sound) (h : V.Chain g c cs) (hfuel : len ≤ fuel)
    (hoff : off < clusSize g) (hlen : off + len ≤ cs.length * clusSize g) :
    Runs g (readLoop g fuel c off len) V (.ok (((V.content g cs).drop off).take len)) V := by
  induction cs generalizing c fuel len off with
  | nil =>
    obtain rfl : len = 0 := by simp at hlen; omega
    unfold readLoop
    exact runs_pure _
  | cons x cs ih =>
    obtain ⟨rfl, hvalid, hrest⟩ := h
    obtain ⟨buf, hread, hbuf⟩ := runs_readCluster (V := V) hg hvalid
    rw [length_cons, Nat.succ_mul] at hlen
    unfold readLoop
    split_ifs with hzero
    · rw [hzero]
      exact runs_pure _
    obtain ⟨fuel, rfl⟩ := Nat.exists_eq_add_one_of_ne_zero (show fuel ≠ 0 by omega)
    refine hread.bind ?_
    dsimp only
    -- the rest of this cluster, and what is still missing then
    rw [hbuf, View.content, flatMap_cons, drop_append_of_le_length (by simp; omega), take_append,
      length_drop, View.length_clusterBytes,
      show len - min (clusSize g - off) len = len - (clusSize g - off) by omega]
    split_ifs with hdone
    · rw [hdone, take_zero, append_nil]
      exact runs_pure _
    · refine (runs_fatGet hg hvalid).bind ?_
      cases cs with
      | nil =>
        rw [length_nil, Nat.zero_mul] at hlen
        omega
      | cons y cs =>
        rw [if_pos (hrest.2.1.inChain hg)]
        exact (ih hrest (by omega) hg.clusSize_pos (by omega)).bind (runs_pure _)

lemma View.Chain.runs_skipRead (hg : g.Sound) {skip : ℕ} (h : V.Chain g c cs)
    (hskip : skip < cs.length) :
    ∃ c', V.Chain g c' (cs.drop skip) ∧ Runs g (skipRead g skip c) V (.ok c') V := by
  induction skip generalizing c cs with
  | zero => exact ⟨c, h, runs_pure c⟩
  | succ skip ih =>
    obtain ⟨x, y, cs, rfl⟩ : ∃ x y cs', cs = x :: y :: cs' := by
      rcases cs with _ | ⟨x, _ | ⟨y, cs⟩⟩ <;> simp at hskip ⊢
    obtain ⟨rfl, hvalid, hrest⟩ := h
    obtain ⟨c', hchain, hruns⟩ := ih hrest (by simpa using hskip)
    refine ⟨c', hchain, (runs_fatGet hg hvalid).bind ?_⟩
    rw [if_pos (hrest.2.1.inChain hg)]
    exact hruns

/-- The bytes of the file behind the position of the handle. -/
def View.ahead (g : Geometry) (V : View) (cs : List ℕ) (ff : FatFile) : List Byte :=
  ((V.content g cs).take ff.size).drop ff.pos

lemma runs_fatReadFile (hg : g.Sound) (hchain : V.Chain g ff.startClus cs)
    (hsize : ff.size ≤ cs.length * clusSize g) (hpriv : f.priv = .file ff) (len : ℕ) :
    ∃ f' pos, Runs g (fatReadFile g f len) V (.ok ((V.ahead g cs ff).take len, f')) V ∧
      f'.priv = .file { ff with pos } ∧
      V.ahead g cs { ff with pos } = (V.ahead g cs ff).drop len := by
  have hahead : (V.ahead g cs ff).length = ff.size - ff.pos := by
    simp [View.ahead, View.content, length_flatMap, hsize]
  rw [fatReadFile, hpriv]
  dsimp only
  split_ifs with hpos
  · have hend : V.ahead g cs ff = [] := length_eq_zero_iff.mp (by omega)
    rw [hend]
    exact ⟨f, ff.pos, by simpa using runs_pure _, hpriv, by simpa using hend⟩
  · have hmod := Nat.mod_lt ff.pos hg.clusSize_pos
    have hdiv := Nat.div_add_mod' ff.pos (clusSize g)
    obtain ⟨c, hrest, hskip⟩ := hchain.runs_skipRead hg
      ((Nat.div_lt_iff_lt_mul hg.clusSize_pos).mpr (by omega : ff.pos < _))
    have hloop := hrest.runs_readLoop hg (le_refl (min len (ff.size - ff.pos))) hmod
      (by rw [length_drop, Nat.sub_mul]; omega)
    rw [View.content_drop, drop_drop, hdiv, ← take_take, ← drop_take] at hloop
    refine ⟨_, _, hskip.bind (runs_kmalloc.bind (hloop.bind (runs_pure _))), rfl, ?_⟩
    change ((V.content g cs).take ff.size).drop (ff.pos + ((V.ahead g cs ff).take len).length) = _
    rw [← drop_drop, length_take]
    change (V.ahead g cs ff).drop _ = _
    rcases le_total len (V.ahead g cs ff).length with hle | hge
    · rw [Nat.min_eq_left hle]
    · rw [Nat.min_eq_right hge, drop_length, drop_of_length_le hge]

def readPieces (g : Geometry) : List ℕ → VfsFile → FatM (List Byte)
  | [], _ => pure []
  | len :: lens, f => do
      let (got, f) ← fatReadFile g f len
      let rest ← readPieces g lens f
      pure (got ++ rest)

/-- However the reads are cut, they give the bytes of the file behind the position in their
order, and they leave the volume alone. -/
theorem reads_follow_file (hg : g.Sound) (hchain : V.Chain g ff.startClus cs)
    (hsize : ff.size ≤ cs.length * clusSize g) (hpriv : f.priv = .file ff) (lens : List ℕ) :
    Runs g (readPieces g lens f) V (.ok ((V.ahead g cs ff).take lens.sum)) V := by
  induction lens generalizing f ff with
  | nil => exact runs_pure _
  | cons len lens ih =>
    obtain ⟨f', pos, hread, hpriv', hahead⟩ := runs_fatReadFile hg hchain hsize hpriv len
    have hrest := @ih f' { ff with pos } hchain hsize hpriv'
    rw [hahead] at hrest
    rw [sum_cons, take_add]
    exact hread.bind (hrest.bind (runs_pure _))

theorem reads_follow_new_file :
    let V := (drive (fatCreateRoot smallVolume 4085 namedF false)).view smallVolume
    let ff : FatFile := ⟨2, 5, 1, []⟩
    Runs smallVolume (readPieces smallVolume [1, 2] ⟨.file ff, 5, 1, false, false⟩) V
      (.ok ((V.ahead smallVolume [2] ff).take 3)) V := by
  have hone : ((drive (fatCreateRoot smallVolume 4085 namedF false)).view smallVolume).single
      smallVolume 2 = true := by decide +kernel
  have hsize : 5 ≤ [2].length * clusSize smallVolume := by decide
  exact reads_follow_file smallVolume_sound (View.single_chain hone) hsize rfl [1, 2]

end HelixOS.Fat
