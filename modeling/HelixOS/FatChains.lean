import HelixOS.FatRuns

/-!
# Clusters and chains

Writing and clearing a cluster, what `fat_alloc_cluster` finds, and the clusters of a file
or a directory in the order of the table, up to the mark of the end.
-/

namespace HelixOS.Fat

variable {g : Geometry} {V : View} {c : ℕ}

/-! ## The content of a cluster -/

def View.setSectors (V : View) (c n : ℕ) (b : Bytes) : View :=
  { V with
    sector := fun p =>
      match p with
      | .root s => V.sector (.root s)
      | .data c' s =>
        if c' = c ∧ s < n then toSector (fun o => b (s * 512 + o)) else V.sector (.data c' s) }

def View.setCluster (g : Geometry) (V : View) (c : ℕ) (b : Bytes) : View :=
  V.setSectors c g.secPerClus b

lemma Geometry.Valid.place (hc : g.Valid c) {s : ℕ} (hs : s < g.secPerClus) :
    g.ValidPlace (.data c s) :=
  ⟨hc, hs⟩

lemma clusToLba_eq (hg : g.Sound) (hc : g.Valid c) : clusToLba g c = g.lba (.data c 0) := by
  have hlt := hg.lba_lt (hc.place hg.clus_pos)
  have hbound := hc.lt hg
  have hsub : u32 (c + 2 ^ 32 - 2) = c - 2 := by
    have := hc.1
    unfold u32
    omega
  rw [clusToLba, hsub]
  exact u32_of_lt hlt

lemma lba_sector (hg : g.Sound) (hc : g.Valid c) (s : ℕ) :
    clusToLba g c + s = g.lba (.data c s) := by
  rw [clusToLba_eq hg hc, Geometry.lba, Geometry.lba, Nat.add_zero]

lemma runs_forUpTo {body : ℕ → FatM Unit} {W : ℕ → View} (n : ℕ)
    (hbody : ∀ i, i < n → Runs g (body i) (W i) (.ok ()) (W (i + 1))) :
    Runs g (forUpTo n body) (W 0) (.ok ()) (W n) := by
  induction n with
  | zero => exact runs_pure ()
  | succ n ih =>
    exact (ih fun i hi => hbody i (by omega)).bind (hbody n (by omega))

lemma View.setSectors_succ (V : View) (c n : ℕ) (b : Bytes) :
    (V.setSectors c n b).setSector (.data c n) (toSector fun o => b (n * 512 + o)) =
      V.setSectors c (n + 1) b := by
  simp only [View.setSectors, View.setSector, View.mk.injEq, true_and, and_true]
  funext p
  cases p with
  | root s => exact Function.update_of_ne (by simp) ..
  | data c' s =>
    by_cases hp : c' = c ∧ s = n
    · obtain ⟨rfl, rfl⟩ := hp
      simp
    · rw [Function.update_of_ne (by simpa using hp)]
      exact if_congr (by omega) rfl rfl

lemma View.setSectors_zero (V : View) (c : ℕ) (b : Bytes) : V.setSectors c 0 b = V := by
  obtain ⟨fat, sector, clock⟩ := V
  simp only [View.setSectors, View.mk.injEq, true_and, and_true]
  funext p
  cases p <;> simp

lemma runs_clusterLoop (hg : g.Sound) (hc : g.Valid c) (b : Bytes) {body : ℕ → FatM Unit}
    (hbody : ∀ i, i < g.secPerClus →
      body i = writeSector (g.lba (.data c i)) (toSector fun o => b (i * 512 + o))) :
    Runs g (forUpTo g.secPerClus body) V (.ok ()) (V.setCluster g c b) := by
  have hround : ∀ i, i < g.secPerClus →
      Runs g (body i) (V.setSectors c i b) (.ok ()) (V.setSectors c (i + 1) b) := by
    intro i hi
    rw [hbody i hi, ← View.setSectors_succ]
    exact runs_writeSector hg (hc.place hi) _
  have hloop := runs_forUpTo (W := fun i => V.setSectors c i b) g.secPerClus hround
  rw [View.setSectors_zero] at hloop
  exact hloop

lemma runs_zeroCluster (hg : g.Sound) (hc : g.Valid c) :
    Runs g (zeroCluster g c) V (.ok ()) (V.setCluster g c fun _ => 0#8) :=
  runs_clusterLoop hg hc _ fun i hi => by
    rw [lba_sector hg hc, u32_of_lt (hg.lba_lt (hc.place hi))]
    rfl

/-! ## Allocating -/

def View.freeClusters (g : Geometry) (V : View) : Finset ℕ :=
  (Finset.Ico 2 (g.dataClusters + 2)).filter fun c => V.fat c = 0

lemma View.mem_freeClusters : c ∈ V.freeClusters g ↔ g.Valid c ∧ V.fat c = 0 := by
  simp [View.freeClusters, Geometry.Valid]

structure View.NextFree (g : Geometry) (V : View) (c : ℕ) : Prop where
  valid : g.Valid c
  free : V.fat c = 0
  first : ∀ c', g.Valid c' → c' < c → V.fat c' ≠ 0

lemma View.exists_nextFree (hne : V.freeClusters g ≠ ∅) : ∃ c, V.NextFree g c := by
  have hfound : ∃ c, g.Valid c ∧ V.fat c = 0 := by
    obtain ⟨c, hc⟩ := Finset.nonempty_iff_ne_empty.mpr hne
    exact ⟨c, View.mem_freeClusters.mp hc⟩
  classical
  obtain ⟨hvalid, hfree⟩ := Nat.find_spec hfound
  exact ⟨Nat.find hfound, hvalid, hfree, fun c' hc' hlt hzero =>
    Nat.find_min hfound hlt ⟨hc', hzero⟩⟩

def View.alloc (g : Geometry) (V : View) (c : ℕ) : View :=
  (V.setFat c (g.mask (fatEofMark g))).setCluster g c fun _ => 0#8

lemma runs_allocFrom (hg : g.Sound) (hnext : V.NextFree g c) {n c₀ : ℕ} (hc₀ : 2 ≤ c₀)
    (hle : c₀ ≤ c) (hlt : c < c₀ + n) :
    Runs g (allocFrom g n c₀) V (.ok c) (V.alloc g c) := by
  induction n generalizing c₀ with
  | zero => omega
  | succ n ih =>
    have hvalid : g.Valid c₀ := ⟨hc₀, hle.trans_lt hnext.valid.2⟩
    refine (runs_fatGet hg hvalid).bind ?_
    by_cases heq : c₀ = c
    · subst heq
      rw [if_pos hnext.free]
      exact (runs_fatPut hg hvalid _).bind ((runs_zeroCluster hg hvalid).bind (runs_pure _))
    · rw [if_neg (hnext.first c₀ hvalid (by omega))]
      exact ih (by omega) (by omega) (by omega)

lemma allocRange (hg : g.Sound) : u32 (g.dataClusters + 2) - 2 = g.dataClusters := by
  have hnumbers := hg.numbers
  rw [u32_of_lt (by split at hnumbers <;> omega)]
  omega

lemma runs_fatAllocCluster (hg : g.Sound) (hnext : V.NextFree g c) :
    Runs g (fatAllocCluster g) V (.ok c) (V.alloc g c) := by
  rw [fatAllocCluster, if_pos hg.writable, allocRange hg]
  have hvalid := hnext.valid
  exact runs_allocFrom hg hnext le_rfl hvalid.1 (by have := hvalid.2; omega)

/-! ## Chains -/

open List

variable {cs : List ℕ}

lemma Geometry.Valid.mask_eq (hg : g.Sound) (hc : g.Valid c) : g.mask c = c := by
  have hnumbers := hg.numbers
  have hlt := hc.2
  unfold Geometry.mask
  split_ifs at hnumbers ⊢ <;> exact Nat.mod_eq_of_lt (by omega)

lemma fatIsEof_of_valid (hg : g.Sound) (hc : g.Valid c) : fatIsEof g c = false := by
  have hnumbers := hg.numbers
  have hlt := hc.2
  rcases hg.fatType_cases with htype | htype
  · simp only [htype, reduceCtorEq, if_false] at hnumbers
    simp only [fatIsEof, htype, decide_eq_false_iff_not]
    omega
  · simp only [htype, if_true] at hnumbers
    simp only [fatIsEof, htype, decide_eq_false_iff_not]
    omega

lemma Geometry.Valid.inChain (hg : g.Sound) (hc : g.Valid c) : inChain g c = true := by
  simp [Fat.inChain, fatIsEof_of_valid hg hc, hc.1]

/-- The table leads through these clusters. -/
def View.Chain (g : Geometry) (V : View) : ℕ → List ℕ → Prop
  | c, [] => fatIsEof g c = true
  | c, x :: cs => x = c ∧ g.Valid c ∧ V.Chain g (V.fat c) cs

lemma View.Chain.valid (h : V.Chain g c cs) : ∀ x ∈ cs, g.Valid x := by
  induction cs generalizing c with
  | nil => exact fun x hx => absurd hx not_mem_nil
  | cons y cs ih =>
    obtain ⟨rfl, hvalid, hrest⟩ := h
    exact forall_mem_cons.mpr ⟨hvalid, ih hrest⟩

lemma View.Chain.congr {V' : View} (h : V.Chain g c cs)
    (hfat : ∀ x ∈ cs, V'.fat x = V.fat x) : V'.Chain g c cs := by
  induction cs generalizing c with
  | nil => exact h
  | cons y cs ih =>
    obtain ⟨rfl, hvalid, hrest⟩ := h
    obtain ⟨hy, htail⟩ := forall_mem_cons.mp hfat
    refine ⟨rfl, hvalid, ?_⟩
    rw [hy]
    exact ih hrest htail

lemma View.Chain.unique (hg : g.Sound) {cs' : List ℕ} (h : V.Chain g c cs)
    (h' : V.Chain g c cs') : cs = cs' := by
  induction cs generalizing c cs' with
  | nil =>
    cases cs' with
    | nil => rfl
    | cons y cs' =>
      have heof : fatIsEof g c = true := h
      rw [fatIsEof_of_valid hg h'.2.1] at heof
      exact absurd heof Bool.false_ne_true
  | cons x cs ih =>
    cases cs' with
    | nil =>
      have heof : fatIsEof g c = true := h'
      rw [fatIsEof_of_valid hg h.2.1] at heof
      exact absurd heof Bool.false_ne_true
    | cons y cs' =>
      obtain ⟨rfl, -, hrest⟩ := h
      obtain ⟨rfl, -, hrest'⟩ := h'
      rw [ih hrest hrest']

lemma View.Chain.from {x : ℕ} {front back : List ℕ}
    (h : V.Chain g c (front ++ x :: back)) : V.Chain g x (x :: back) := by
  induction front generalizing c with
  | nil =>
    obtain ⟨rfl, hvalid, hrest⟩ := h
    exact ⟨rfl, hvalid, hrest⟩
  | cons y front ih => exact ih h.2.2

lemma View.Chain.nodup (hg : g.Sound) (h : V.Chain g c cs) : cs.Nodup := by
  induction cs generalizing c with
  | nil => exact nodup_nil
  | cons x cs ih =>
    obtain ⟨rfl, hvalid, hrest⟩ := h
    refine nodup_cons.mpr ⟨fun hmem => ?_, ih hrest⟩
    -- a second occurrence would start a shorter chain of the same cluster
    obtain ⟨front, back, rfl⟩ := append_of_mem hmem
    have hback : V.Chain g x (x :: back) := hrest.from
    have heq : x :: (front ++ x :: back) = x :: back :=
      View.Chain.unique hg ⟨rfl, hvalid, hrest⟩ hback
    have hlength := congrArg List.length heq
    simp only [length_cons, length_append] at hlength
    omega

lemma fatIsEof_ne_zero (h : fatIsEof g c = true) : c ≠ 0 := by
  rintro rfl
  unfold fatIsEof at h
  split at h <;> simp at h

lemma View.Chain.fat_ne_zero (h : V.Chain g c cs) {x : ℕ} (hx : x ∈ cs) : V.fat x ≠ 0 := by
  obtain ⟨front, back, rfl⟩ := append_of_mem hx
  obtain ⟨-, -, hrest⟩ := h.from
  cases back with
  | nil => exact fatIsEof_ne_zero hrest
  | cons y back =>
    have hge := hrest.2.1.1
    omega

lemma View.Chain.head (h : V.Chain g c cs) (hne : cs ≠ []) : c ∈ cs := by
  cases cs with
  | nil => exact absurd rfl hne
  | cons x cs =>
    obtain ⟨rfl, -⟩ := h
    exact mem_cons_self

lemma View.Chain.valid_start (h : V.Chain g c cs) (hne : cs ≠ []) : g.Valid c :=
  h.valid c (h.head hne)

lemma Geometry.length_le_of_valid (hnodup : cs.Nodup) (hvalid : ∀ x ∈ cs, g.Valid x) :
    cs.length ≤ g.dataClusters := by
  have hsub : cs.toFinset ⊆ Finset.Ico 2 (g.dataClusters + 2) := by
    intro x hx
    obtain ⟨hge, hlt⟩ := hvalid x (mem_toFinset.mp hx)
    exact Finset.mem_Ico.mpr ⟨hge, hlt⟩
  have hcard := Finset.card_le_card hsub
  rw [toFinset_card_of_nodup hnodup, Nat.card_Ico] at hcard
  omega

lemma View.Chain.length_le (hg : g.Sound) (h : V.Chain g c cs) : cs.length ≤ g.dataClusters :=
  Geometry.length_le_of_valid (h.nodup hg) h.valid

end HelixOS.Fat
