import Mathlib.Algebra.BigOperators.Fin
import Mathlib.Algebra.Order.BigOperators.Group.Finset
import Mathlib.Tactic

/-!
# Radix tables in a word memory

A memory assigns to every frame a family of words.  Some words are edges to a lower table,
the others are leaves or holes.  The three folds of this file (a weighted sum, a local
predicate and a lookup) read the tree below a word; `Reach` names the slots on one path.
When one slot of a tree without sharing is written, every fold of the tree changes by
exactly the fold of that slot.
-/

namespace RadixMemory

open Option

/-- How a stored word is read: whether it is in use at all, whether it is an
edge to a lower table, and to which frame that edge leads. -/
structure Format (W F : Type*) where
  present : W → Bool
  isTable : W → Bool
  target : W → F

variable {W F I : Type*} [Fintype I] (fmt : Format W F) {φ : ℕ → W → ℕ} {Q : ℕ → W → W → Prop}
  {g : F}

def entrySum (φ : ℕ → W → ℕ) (m : F → I → W) : ℕ → W → ℕ
  | 0, w => φ 0 w
  | l + 1, w => φ (l + 1) w +
      if fmt.isTable w then ∑ j, entrySum φ m l (m (fmt.target w) j) else 0

def tableSum (φ : ℕ → W → ℕ) (m : F → I → W) (l : ℕ) (f : F) : ℕ :=
  ∑ j, entrySum fmt φ m l (m f j)

/-- A condition on every word together with the word that leads to its table. -/
def entryAll (Q : ℕ → W → W → Prop) (m : F → I → W) : ℕ → W → W → Prop
  | 0, p, w => Q 0 p w
  | l + 1, p, w => Q (l + 1) p w ∧
      (fmt.isTable w = true → ∀ j, entryAll Q m l w (m (fmt.target w) j))

def tableAll (Q : ℕ → W → W → Prop) (m : F → I → W) (l : ℕ) (p : W) (f : F) :
    Prop :=
  ∀ j, entryAll fmt Q m l p (m f j)

/-- The leaf word met by following one index per level, with its level. -/
def entryLookup (m : F → I → W) (path : ℕ → I) : ℕ → W → Option (W × ℕ)
  | 0, w => if fmt.present w then some (w, 0) else none
  | l + 1, w =>
    if fmt.isTable w then entryLookup m path l (m (fmt.target w) (path l))
    else if fmt.present w then some (w, l + 1) else none

def tableLookup (m : F → I → W) (path : ℕ → I) (l : ℕ) (f : F) :
    Option (W × ℕ) :=
  entryLookup fmt m path l (m f (path l))

/-- A walk to a leaf on whose result every edge acts on the way back. -/
def entryWalk {α : Type*} (edge : W → α → α) (leaf : ℕ → W → α) (m : F → I → W)
    (path : ℕ → I) : ℕ → W → Option α
  | 0, w => if fmt.present w then some (leaf 0 w) else none
  | l + 1, w =>
    if fmt.isTable w then
      (entryWalk edge leaf m path l (m (fmt.target w) (path l))).map (edge w)
    else if fmt.present w then some (leaf (l + 1) w) else none

def tableWalk {α : Type*} (edge : W → α → α) (leaf : ℕ → W → α) (m : F → I → W)
    (path : ℕ → I) (l : ℕ) (f : F) : Option α :=
  entryWalk fmt edge leaf m path l (m f (path l))

omit [Fintype I] in
lemma entryLookup_eq_walk (m : F → I → W) (path : ℕ → I) (l : ℕ) (w : W) :
    entryLookup fmt m path l w =
      entryWalk fmt (fun _ leaf => leaf) (fun l w => (w, l)) m path l w := by
  induction l generalizing w with
  | zero => rfl
  | succ l ih => simp only [entryLookup, entryWalk, ih, map_id']

variable {fmt} in
lemma entrySum_mono {φ ψ : ℕ → W → ℕ} (hle : ∀ l w, φ l w ≤ ψ l w) (m : F → I → W)
    (l : ℕ) (w : W) : entrySum fmt φ m l w ≤ entrySum fmt ψ m l w := by
  induction l generalizing w with
  | zero => exact hle 0 w
  | succ l ih =>
    unfold entrySum
    apply Nat.add_le_add (hle (l + 1) w)
    split
    · exact Finset.sum_le_sum fun j _ => ih _
    · exact le_rfl

variable {fmt} in
lemma tableSum_mono {φ ψ : ℕ → W → ℕ} (hle : ∀ l w, φ l w ≤ ψ l w) (m : F → I → W)
    (l : ℕ) (f : F) : tableSum fmt φ m l f ≤ tableSum fmt ψ m l f :=
  Finset.sum_le_sum fun _ _ => entrySum_mono hle m l _

omit [Fintype I] in
variable {fmt} in
lemma entryAll_mono {Q R : ℕ → W → W → Prop} (hle : ∀ l p w, Q l p w → R l p w)
    {m : F → I → W} {l : ℕ} {p w : W} (hall : entryAll fmt Q m l p w) :
    entryAll fmt R m l p w := by
  induction l generalizing p w with
  | zero => exact hle 0 p w hall
  | succ l ih => exact ⟨hle _ _ _ hall.1, fun htable j => ih (hall.2 htable j)⟩

omit [Fintype I] in
variable {fmt} in
lemma entryAll_parent {Q : ℕ → W → W → Prop} {m : F → I → W} {l : ℕ} {p p' w : W}
    (hQ : Q l p w → Q l p' w) (hall : entryAll fmt Q m l p w) : entryAll fmt Q m l p' w := by
  cases l with
  | zero => exact hQ hall
  | succ l => exact ⟨hQ hall.1, hall.2⟩

variable {fmt} in
lemma entryAll_elim_sum {φ : ℕ → W → ℕ} {R : Prop} {m : F → I → W} {l : ℕ} {p w : W}
    (hall : entryAll fmt (fun l _ w => φ l w ≠ 0 → R) m l p w)
    (hsum : entrySum fmt φ m l w ≠ 0) : R := by
  induction l generalizing p w with
  | zero => exact hall hsum
  | succ l ih =>
    obtain ⟨hhere, hbelow⟩ := hall
    by_cases hweight : φ (l + 1) w = 0
    · simp only [entrySum, hweight, zero_add] at hsum
      split at hsum
      · rename_i htable
        obtain ⟨j, -, hj⟩ := Finset.exists_ne_zero_of_sum_ne_zero hsum
        exact ih (hbelow htable j) hj
      · exact absurd rfl hsum
    · exact hhere hweight

omit [Fintype I] in
variable {fmt} in
lemma entryLookup_path_congr (m : F → I → W) {path path' : ℕ → I} {l : ℕ} (w : W)
    (hsame : ∀ k, k < l → path' k = path k) :
    entryLookup fmt m path' l w = entryLookup fmt m path l w := by
  induction l generalizing w with
  | zero => rfl
  | succ l ih =>
    simp only [entryLookup, hsame l (by omega)]
    rw [ih _ fun k hk => hsame k (by omega)]

section TableCount

variable [DecidableEq F]

def edgeWeight (g : F) (l : ℕ) (w : W) : ℕ :=
  if l ≠ 0 ∧ fmt.isTable w = true ∧ fmt.target w = g then 1 else 0

def entryTabs (m : F → I → W) (l : ℕ) (w : W) (g : F) : ℕ :=
  entrySum fmt (edgeWeight fmt g) m l w

def tableTabs (m : F → I → W) (l : ℕ) (f g : F) : ℕ :=
  (if f = g then 1 else 0) + tableSum fmt (edgeWeight fmt g) m l f

/-- No frame is reached twice from the table `f`. -/
def Unshared (m : F → I → W) (l : ℕ) (f : F) : Prop :=
  ∀ g, tableTabs fmt m l f g ≤ 1

variable {fmt}

lemma entryTabs_zero (m : F → I → W) (w : W) (g) :
    entryTabs fmt m 0 w g = 0 := by
  simp [entryTabs, entrySum, edgeWeight]

lemma entryTabs_succ (m : F → I → W) (l : ℕ) (w : W) (g) :
    entryTabs fmt m (l + 1) w g =
      if fmt.isTable w then tableTabs fmt m l (fmt.target w) g else 0 := by
  by_cases htable : fmt.isTable w
  · simp [entryTabs, entrySum, edgeWeight, htable, tableTabs, tableSum]
  · simp [entryTabs, entrySum, edgeWeight, htable]

lemma tableTabs_eq (m : F → I → W) (l : ℕ) (f g : F) :
    tableTabs fmt m l f g =
      (if f = g then 1 else 0) + ∑ j, entryTabs fmt m l (m f j) g := rfl

variable (fmt) in
lemma tableTabs_self_pos (m : F → I → W) (l : ℕ) (f : F) :
    tableTabs fmt m l f f ≠ 0 := by
  simp [tableTabs]

variable (fmt) in
lemma entryTabs_le_tableTabs (m : F → I → W) (l : ℕ) (f g : F) (j : I) :
    entryTabs fmt m l (m f j) g ≤ tableTabs fmt m l f g := by
  rw [tableTabs_eq]
  have hsum := Finset.single_le_sum (f := fun j => entryTabs fmt m l (m f j) g) (fun _ _ =>
    Nat.zero_le _) (Finset.mem_univ j)
  exact hsum.trans (Nat.le_add_left _ _)

/-- Two different entries of a table and the table itself never share a frame. -/
theorem Unshared.entry_disjoint {m : F → I → W} {l : ℕ} {f : F} (hun : Unshared fmt m l f) {i j : I}
    (hij : j ≠ i) {g : F} (hj : entryTabs fmt m l (m f j) g ≠ 0) :
    entryTabs fmt m l (m f i) g = 0 ∧ g ≠ f := by
  classical
  have hle := hun g
  rw [tableTabs_eq] at hle
  have hpair : entryTabs fmt m l (m f j) g + entryTabs fmt m l (m f i) g ≤
      ∑ k, entryTabs fmt m l (m f k) g := by
    rw [← Finset.add_sum_erase _ _ (Finset.mem_univ j)]
    apply Nat.add_le_add_left
    exact Finset.single_le_sum (f := fun k => entryTabs fmt m l (m f k) g) (fun _ _ => Nat.zero_le
      _) (Finset.mem_erase.mpr ⟨hij.symm, Finset.mem_univ i⟩)
  constructor
  · omega
  · rintro rfl
    rw [if_pos rfl] at hle
    omega

lemma Unshared.not_below {m : F → I → W} {l : ℕ} {f : F} (hun : Unshared fmt m l f) (i : I) :
    entryTabs fmt m l (m f i) f = 0 := by
  have hle := hun f
  rw [tableTabs_eq] at hle
  have hone := Finset.single_le_sum (f := fun j => entryTabs fmt m l (m f j) f) (fun _ _ =>
    Nat.zero_le _) (Finset.mem_univ i)
  rw [if_pos rfl] at hle
  omega

/-! ## Folds only read the tables of the tree -/

section Congruence

variable {m m' : F → I → W}

lemma entryTabs_child_ne_zero {l : ℕ} {w : W} (htable : fmt.isTable w = true) {j : I} {g : F}
    (hne : entryTabs fmt m l (m (fmt.target w) j) g ≠ 0) :
    entryTabs fmt m (l + 1) w g ≠ 0 := by
  rw [entryTabs_succ, if_pos htable]
  have hle := entryTabs_le_tableTabs fmt m l (fmt.target w) g j
  omega

lemma entryTabs_target_ne_zero {l : ℕ} {w : W} (htable : fmt.isTable w = true) :
    entryTabs fmt m (l + 1) w (fmt.target w) ≠ 0 := by
  rw [entryTabs_succ, if_pos htable]
  exact tableTabs_self_pos fmt m l _

lemma entrySum_congr (φ) {l : ℕ} {w : W} (hagree : ∀ g, entryTabs fmt m l w g ≠ 0 → m' g = m g) :
    entrySum fmt φ m' l w = entrySum fmt φ m l w := by
  induction l generalizing w with
  | zero => rfl
  | succ l ih =>
    by_cases htable : fmt.isTable w = true
    · have htarget : m' (fmt.target w) = m (fmt.target w) :=
        hagree _ (entryTabs_target_ne_zero htable)
      simp only [entrySum, htable, if_true, htarget]
      congr 1
      apply Finset.sum_congr rfl
      intro j _
      exact ih fun g hg => hagree g (entryTabs_child_ne_zero htable hg)
    · simp [entrySum, htable]

lemma entryAll_congr (Q) {l : ℕ} {p w : W}
    (hagree : ∀ g, entryTabs fmt m l w g ≠ 0 → m' g = m g) :
    entryAll fmt Q m' l p w ↔ entryAll fmt Q m l p w := by
  induction l generalizing p w with
  | zero => rfl
  | succ l ih =>
    by_cases htable : fmt.isTable w = true
    · have htarget : m' (fmt.target w) = m (fmt.target w) :=
        hagree _ (entryTabs_target_ne_zero htable)
      simp only [entryAll, htable, htarget, true_implies]
      apply and_congr_right
      intro _
      apply forall_congr'
      intro j
      exact ih fun g hg => hagree g (entryTabs_child_ne_zero htable hg)
    · simp [entryAll, htable]

lemma entryWalk_congr {α : Type*} (edge : W → α → α) (leaf : ℕ → W → α) (path : ℕ → I)
    {l : ℕ} {w : W} (hagree : ∀ g, entryTabs fmt m l w g ≠ 0 → m' g = m g) :
    entryWalk fmt edge leaf m' path l w = entryWalk fmt edge leaf m path l w := by
  induction l generalizing w with
  | zero => rfl
  | succ l ih =>
    by_cases htable : fmt.isTable w
    · have htarget := hagree (fmt.target w) (entryTabs_target_ne_zero htable)
      simp only [entryWalk, htable, if_true, htarget]
      rw [ih fun g hg => hagree g (entryTabs_child_ne_zero htable hg)]
    · simp [entryWalk, htable]

lemma entryLookup_congr (path : ℕ → I) {l : ℕ} {w : W}
    (hagree : ∀ g, entryTabs fmt m l w g ≠ 0 → m' g = m g) :
    entryLookup fmt m' path l w = entryLookup fmt m path l w := by
  rw [entryLookup_eq_walk, entryLookup_eq_walk, entryWalk_congr _ _ _ hagree]

variable {l : ℕ} {f : F}

lemma tableSum_congr (φ) (hagree : ∀ g, tableTabs fmt m l f g ≠ 0 → m' g = m g) :
    tableSum fmt φ m' l f = tableSum fmt φ m l f := by
  unfold tableSum
  rw [hagree f (tableTabs_self_pos fmt m l f)]
  apply Finset.sum_congr rfl
  intro j _
  apply entrySum_congr
  intro g hg
  have hle := entryTabs_le_tableTabs fmt m l f g j
  exact hagree g (by omega)

lemma tableTabs_congr (g) (hagree : ∀ g, tableTabs fmt m l f g ≠ 0 → m' g = m g) :
    tableTabs fmt m' l f g = tableTabs fmt m l f g := by
  unfold tableTabs
  rw [tableSum_congr _ hagree]

lemma tableAll_congr (Q) {p : W} (hagree : ∀ g, tableTabs fmt m l f g ≠ 0 → m' g = m g) :
    tableAll fmt Q m' l p f ↔ tableAll fmt Q m l p f := by
  unfold tableAll
  rw [hagree f (tableTabs_self_pos fmt m l f)]
  apply forall_congr'
  intro j
  apply entryAll_congr
  intro g hg
  have hle := entryTabs_le_tableTabs fmt m l f g j
  exact hagree g (by omega)

lemma tableLookup_congr (path : ℕ → I) (hagree : ∀ g, tableTabs fmt m l f g ≠ 0 → m' g = m g) :
    tableLookup fmt m' path l f = tableLookup fmt m path l f := by
  unfold tableLookup
  rw [hagree f (tableTabs_self_pos fmt m l f)]
  apply entryLookup_congr
  intro g hg
  have hle := entryTabs_le_tableTabs fmt m l f g (path l)
  exact hagree g (by omega)

/-- `w'` is an edge to the table of `w`, and the tables below are as they were. -/
structure SameEdge (fmt : Format W F) (m m' : F → I → W) (l : ℕ) (w w' : W) : Prop where
  table : fmt.isTable w = true
  table' : fmt.isTable w' = true
  target : fmt.target w' = fmt.target w
  below : ∀ g, tableTabs fmt m l (fmt.target w) g ≠ 0 → m' g = m g

section SameEdge

variable {w w' : W} (hsame : SameEdge fmt m m' l w w')
include hsame

lemma SameEdge.self : m' (fmt.target w) = m (fmt.target w) :=
  hsame.below _ (tableTabs_self_pos fmt m l _)

lemma SameEdge.child (j : I) (g)
    (hg : entryTabs fmt m l (m (fmt.target w) j) g ≠ 0) : m' g = m g := by
  have hle := entryTabs_le_tableTabs fmt m l (fmt.target w) g j
  exact hsame.below g (by omega)

lemma SameEdge.sum (φ) (hφ : φ (l + 1) w' = φ (l + 1) w) :
    entrySum fmt φ m' (l + 1) w' = entrySum fmt φ m (l + 1) w := by
  simp only [entrySum, hsame.table, hsame.table', if_true, hφ, hsame.target, hsame.self]
  congr 1
  exact Finset.sum_congr rfl fun j _ => entrySum_congr φ (hsame.child j)

lemma SameEdge.tabs (g) :
    entryTabs fmt m' (l + 1) w' g = entryTabs fmt m (l + 1) w g :=
  hsame.sum _ (by simp [edgeWeight, hsame.table, hsame.table', hsame.target])

lemma SameEdge.lookup (path : ℕ → I) :
    entryLookup fmt m' path (l + 1) w' = entryLookup fmt m path (l + 1) w := by
  simp only [entryLookup, hsame.table, hsame.table', if_true, hsame.target, hsame.self]
  exact entryLookup_congr _ (hsame.child _)

lemma SameEdge.all {Q : ℕ → W → W → Prop} {p p' : W} (hQ : Q (l + 1) p' w')
    (hparent : ∀ x, Q l w x → Q l w' x) (hall : entryAll fmt Q m (l + 1) p w) :
    entryAll fmt Q m' (l + 1) p' w' := by
  refine ⟨hQ, fun _ j => ?_⟩
  rw [hsame.target, hsame.self]
  exact entryAll_parent (hparent _) ((entryAll_congr Q (hsame.child j)).mpr (hall.2 hsame.table j))

end SameEdge

end Congruence

/-! ## Slots on a path -/

/-- Following `path` from the table `root` of level `L`, entered through `p`, leads to the table
`f` of level `l`, entered through `q`. -/
inductive Reach (fmt : Format W F) (m : F → I → W) (path : ℕ → I)
    (L : ℕ) (p : W) (root : F) : ℕ → W → F → Prop where
  | top : Reach fmt m path L p root L p root
  | down {l : ℕ} {q : W} {f : F}
      (hreach : Reach fmt m path L p root (l + 1) q f)
      (htable : fmt.isTable (m f (path (l + 1))) = true) :
      Reach fmt m path L p root l (m f (path (l + 1)))
        (fmt.target (m f (path (l + 1))))

section Slots

variable {m m' : F → I → W} {path : ℕ → I} {L : ℕ} {p : W} {root : F}
  {l : ℕ} {q : W} {f : F}

omit [Fintype I] [DecidableEq F] in
lemma Reach.level_le (hreach : Reach fmt m path L p root l q f) : l ≤ L := by
  induction hreach with
  | top => exact le_rfl
  | down _ _ ih => omega

lemma Reach.tabs_le (hreach : Reach fmt m path L p root l q f) (g) :
    tableTabs fmt m l f g ≤ tableTabs fmt m L root g := by
  induction hreach with
  | top => exact le_rfl
  | @down l q f hreach htable ih =>
    have hle := entryTabs_le_tableTabs fmt m (l + 1) f g (path (l + 1))
    rw [entryTabs_succ, if_pos htable] at hle
    exact hle.trans ih

lemma Reach.unshared (hreach : Reach fmt m path L p root l q f)
    (hun : Unshared fmt m L root) : Unshared fmt m l f :=
  fun g => (hreach.tabs_le g).trans (hun g)

omit [Fintype I] [DecidableEq F] in
lemma Reach.tableAll {Q : ℕ → W → W → Prop} (hreach : Reach fmt m path L p root l q f)
    (hall : tableAll fmt Q m L p root) : tableAll fmt Q m l q f := by
  induction hreach with
  | top => exact hall
  | @down l q f hreach htable ih => exact (ih (path (l + 1))).2 htable

/-- Following `path` from the table `root` of level `L` leads to the table `f` of level `l`,
through the edges `ws`, the lowest first. -/
inductive Descends (fmt : Format W F) (m : F → I → W) (path : ℕ → I) (L : ℕ) (root : F) :
    ℕ → F → List W → Prop where
  | top : Descends fmt m path L root L root []
  | down {l : ℕ} {f : F} {ws : List W}
      (hdesc : Descends fmt m path L root (l + 1) f ws)
      (htable : fmt.isTable (m f (path (l + 1))) = true) :
      Descends fmt m path L root l (fmt.target (m f (path (l + 1))))
        (m f (path (l + 1)) :: ws)

variable {ws : List W} {α : Type*} (edge : W → α → α) (leaf : ℕ → W → α)

omit [Fintype I] [DecidableEq F] in
lemma Descends.reach (hdesc : Descends fmt m path L root l f ws) (p : W) :
    ∃ q, Reach fmt m path L p root l q f := by
  induction hdesc with
  | top => exact ⟨p, Reach.top⟩
  | down _ htable ih =>
    obtain ⟨q, hreach⟩ := ih
    exact ⟨_, hreach.down htable⟩

omit [Fintype I] [DecidableEq F] in
lemma Reach.descends (hreach : Reach fmt m path L p root l q f) :
    ∃ ws, Descends fmt m path L root l f ws := by
  induction hreach with
  | top => exact ⟨[], Descends.top⟩
  | down _ htable ih =>
    obtain ⟨ws, hdesc⟩ := ih
    exact ⟨_, hdesc.down htable⟩

omit [Fintype I] [DecidableEq F] in
/-- A walk through a slot is the walk below it, on which the edges above act. -/
theorem Descends.walk (hdesc : Descends fmt m path L root l f ws) {path' : ℕ → I}
    (hsame : ∀ k, l < k → k ≤ L → path' k = path k) :
    tableWalk fmt edge leaf m path' L root =
      (tableWalk fmt edge leaf m path' l f).map fun a => ws.foldl (fun a w => edge w a) a := by
  induction hdesc with
  | top => simp
  | @down l f ws hdesc htable ih =>
    obtain ⟨q, hreach⟩ := hdesc.reach (m root (path L))
    have hstep : path' (l + 1) = path (l + 1) := hsame (l + 1) (by omega) hreach.level_le
    rw [ih fun k hk hkL => hsame k (by omega) hkL]
    simp only [tableWalk, entryWalk, hstep, htable, if_true, map_map, List.foldl_cons]
    rfl

omit [Fintype I] [DecidableEq F] in
/-- The slot `path l` of the reached table holds the same lookup as the root,
for every path that agrees above the slot. -/
theorem Reach.lookup (hreach : Reach fmt m path L p root l q f)
    {path' : ℕ → I} (hsame : ∀ k, l < k → k ≤ L → path' k = path k) :
    tableLookup fmt m path' L root = tableLookup fmt m path' l f := by
  obtain ⟨ws, hdesc⟩ := hreach.descends
  have hwalk := hdesc.walk (fun _ leaf => leaf) (fun l w => (w, l)) hsame
  simpa only [tableLookup, tableWalk, entryLookup_eq_walk, List.foldl_fixed, map_id'] using hwalk

/-- A write to the slot `path l` of the table `f` leaves its other slots alone, and every table
that is not below the slot. -/
structure SlotWrite (fmt : Format W F) (m m' : F → I → W) (path : ℕ → I)
    (L : ℕ) (root : F) (l : ℕ) (f : F) : Prop where
  others : ∀ j, j ≠ path l → m' f j = m f j
  frame : ∀ g, g ≠ f → tableTabs fmt m L root g ≠ 0 →
    entryTabs fmt m l (m f (path l)) g = 0 → m' g = m g

lemma SlotWrite.beside (hwrite : SlotWrite fmt m m' path L root l f)
    (hreach : Reach fmt m path L p root l q f) (hun : Unshared fmt m L root) {j : I}
    (hj : j ≠ path l) {g : F} (hg : entryTabs fmt m l (m f j) g ≠ 0) : m' g = m g := by
  obtain ⟨hbelow, hne⟩ := (hreach.unshared hun).entry_disjoint hj hg
  apply hwrite.frame g hne _ hbelow
  have hone := entryTabs_le_tableTabs fmt m l f g j
  have htwo := hreach.tabs_le g
  omega

/-- Seen from the table above, the write happens below one of its entries and
leaves the entry itself alone. -/
theorem SlotWrite.up
    (hreach : Reach fmt m path L p root (l + 1) q f)
    (htable : fmt.isTable (m f (path (l + 1))) = true)
    (hun : Unshared fmt m L root)
    (hwrite : SlotWrite fmt m m' path L root l
      (fmt.target (m f (path (l + 1))))) :
    SlotWrite fmt m m' path L root (l + 1) f ∧ m' f = m f := by
  have hself : m' f = m f := by
    have hnone := (hreach.unshared hun).not_below (path (l + 1))
    rw [entryTabs_succ, if_pos htable] at hnone
    apply hwrite.frame f
    · rintro hf
      rw [← hf] at hnone
      exact tableTabs_self_pos fmt m l _ hnone
    · have hpos := tableTabs_self_pos fmt m (l + 1) f
      have hle := hreach.tabs_le f
      omega
    · have hle := entryTabs_le_tableTabs fmt m l (fmt.target (m f (path (l + 1)))) f (path l)
      omega
  refine ⟨⟨fun j _ => by rw [hself], ?_⟩, hself⟩
  intro g hgf hroot hbelow
  rw [entryTabs_succ, if_pos htable] at hbelow
  apply hwrite.frame g _ hroot
  · have hle := entryTabs_le_tableTabs fmt m l (fmt.target (m f (path (l + 1)))) g (path l)
    omega
  · rintro rfl
    exact tableTabs_self_pos fmt m l _ hbelow

omit [Fintype I] [DecidableEq F] in
lemma Reach.of_lookup (hreach : Reach fmt m path L p root l q f) {w : W} {k : ℕ}
    (hfound : entryLookup fmt m path l (m f (path l)) = some (w, k)) :
    ∃ q' f', Reach fmt m path L p root k q' f' ∧ m f' (path k) = w ∧
      fmt.present w = true ∧ (k = 0 ∨ fmt.isTable w = false) := by
  induction l generalizing q f with
  | zero =>
    simp only [entryLookup] at hfound
    split at hfound
    · rename_i hpresent
      obtain ⟨rfl, rfl⟩ := Prod.mk.inj (some.inj hfound)
      exact ⟨q, f, hreach, rfl, hpresent, Or.inl rfl⟩
    · contradiction
  | succ l ih =>
    simp only [entryLookup] at hfound
    split at hfound
    · rename_i htable
      exact ih (hreach.down htable) hfound
    · split at hfound
      · rename_i hleaf hpresent
        obtain ⟨rfl, rfl⟩ := Prod.mk.inj (some.inj hfound)
        exact ⟨q, f, hreach, rfl, hpresent, Or.inr (by simpa using hleaf)⟩
      · contradiction

omit [Fintype I] [DecidableEq F] in
lemma Reach.unique (hreach : Reach fmt m path L p root l q f) {q' : W} {f' : F}
    (hother : Reach fmt m path L p root l q' f') : q' = q ∧ f' = f := by
  induction hreach generalizing q' f' with
  | top =>
    cases hother with
    | top => exact ⟨rfl, rfl⟩
    | down hreach' _ =>
      have := hreach'.level_le
      omega
  | @down l q f hreach htable ih =>
    cases hother with
    | top =>
      have := hreach.level_le
      omega
    | down hreach' _ =>
      obtain ⟨-, rfl⟩ := ih hreach'
      exact ⟨rfl, rfl⟩

lemma SlotWrite.above (hwrite : SlotWrite fmt m m' path L root l f)
    (hreach : Reach fmt m path L p root l q f) (hun : Unshared fmt m L root) {l' : ℕ} {q' : W}
    {f' : F} (habove : Reach fmt m path L p root l' q' f') (hl : l < l') : m' f' = m f' := by
  induction hreach with
  | top =>
    have := habove.level_le
    omega
  | @down l q f hreach htable ih =>
    obtain ⟨hup, hself⟩ := hwrite.up hreach htable hun
    by_cases heq : l' = l + 1
    · subst heq
      obtain ⟨-, rfl⟩ := hreach.unique habove
      exact hself
    · exact ih hup (by omega)

lemma tableSum_slot (φ) (i : I) (hothers : ∀ j, j ≠ i → m' f j = m f j)
    (hbeside : ∀ j, j ≠ i → ∀ g, entryTabs fmt m l (m f j) g ≠ 0 → m' g = m g) :
    tableSum fmt φ m' l f + entrySum fmt φ m l (m f i) =
      tableSum fmt φ m l f + entrySum fmt φ m' l (m' f i) := by
  classical
  unfold tableSum
  rw [← Finset.add_sum_erase _ _ (Finset.mem_univ i),
    ← Finset.add_sum_erase Finset.univ
      (fun j => entrySum fmt φ m l (m f j)) (Finset.mem_univ i)]
  have hrest : ∑ j ∈ Finset.univ.erase i, entrySum fmt φ m' l (m' f j) =
      ∑ j ∈ Finset.univ.erase i, entrySum fmt φ m l (m f j) := by
    apply Finset.sum_congr rfl
    intro j hj
    have hne : j ≠ i := (Finset.mem_erase.mp hj).1
    rw [hothers j hne]
    exact entrySum_congr φ (hbeside j hne)
  rw [hrest]
  ring

/-- A slot write changes a weighted sum by the weight of the slot. -/
theorem SlotWrite.tableSum (φ) (hreach : Reach fmt m path L p root l q f)
    (hun : Unshared fmt m L root) (hwrite : SlotWrite fmt m m' path L root l f) :
    tableSum fmt φ m' L root + entrySum fmt φ m l (m f (path l)) =
      tableSum fmt φ m L root + entrySum fmt φ m' l (m' f (path l)) := by
  induction hreach with
  | top =>
    exact tableSum_slot φ (path L) hwrite.others
      fun j hj g hg => hwrite.beside (Reach.top (p := p)) hun hj hg
  | @down l q f hreach htable ih =>
    obtain ⟨hup, hself⟩ := hwrite.up hreach htable hun
    have hparent := ih hup
    have hslot := tableSum_slot (l := l) φ (path l) hwrite.others
      fun j hj g hg => hwrite.beside (hreach.down htable) hun hj hg
    simp only [entrySum, hself, htable, if_true] at hparent
    unfold RadixMemory.tableSum at hslot
    omega

section

variable (hreach : Reach fmt m path L p root l q f) (hun : Unshared fmt m L root)
  (hwrite : SlotWrite fmt m m' path L root l f)
include hreach hun hwrite

lemma SlotWrite.tabs (g) : tableTabs fmt m' L root g + entryTabs fmt m l (m f (path l)) g =
      tableTabs fmt m L root g + entryTabs fmt m' l (m' f (path l)) g := by
  have hsum := hwrite.tableSum (edgeWeight fmt g) hreach hun
  unfold tableTabs entryTabs
  omega

lemma SlotWrite.unshared
    (htabs : ∀ g, entryTabs fmt m' l (m' f (path l)) g ≠ 0 →
      tableTabs fmt m L root g + entryTabs fmt m' l (m' f (path l)) g ≤
        1 + entryTabs fmt m l (m f (path l)) g) :
    Unshared fmt m' L root := by
  intro g
  have hsum := hwrite.tabs hreach hun g
  have hold := hun g
  by_cases hzero : entryTabs fmt m' l (m' f (path l)) g = 0
  · omega
  · have := htabs g hzero
    omega

lemma SlotWrite.reach : Reach fmt m' path L p root l q f := by
  induction hreach with
  | top => exact Reach.top
  | @down l q f hreach htable ih =>
    obtain ⟨hup, hself⟩ := hwrite.up hreach htable hun
    have hdown := (ih hup).down (l := l) (by rw [hself]; exact htable)
    rwa [hself] at hdown

lemma SlotWrite.tableAll {Q : ℕ → W → W → Prop} (hall : RadixMemory.tableAll fmt Q m L p root)
    (hnew : entryAll fmt Q m' l q (m' f (path l))) : RadixMemory.tableAll fmt Q m' L p root := by
  induction hreach with
  | top =>
    intro j
    by_cases hj : j = path L
    · rw [hj]
      exact hnew
    · rw [hwrite.others j hj]
      exact (entryAll_congr Q fun g hg =>
        hwrite.beside (Reach.top (p := p)) hun hj hg).mpr (hall j)
  | @down l q f hreach htable ih =>
    obtain ⟨hup, hself⟩ := hwrite.up hreach htable hun
    have htab := (hreach.down htable).tableAll hall
    apply ih hup
    rw [hself]
    refine ⟨?_, fun _ j => ?_⟩
    · exact (hreach.tableAll hall (path (l + 1))).1
    · by_cases hj : j = path l
      · rw [hj]
        exact hnew
      · rw [hwrite.others j hj]
        exact (entryAll_congr Q fun g hg =>
          hwrite.beside (hreach.down htable) hun hj hg).mpr (htab j)

end

section

variable (hdesc : Descends fmt m path L root l f ws) (hun : Unshared fmt m L root)
  (hwrite : SlotWrite fmt m m' path L root l f)
include hdesc hun hwrite

lemma SlotWrite.descends : Descends fmt m' path L root l f ws := by
  induction hdesc with
  | top => exact Descends.top
  | @down l f ws hdesc htable ih =>
    obtain ⟨q, hreach⟩ := hdesc.reach (m root (path L))
    obtain ⟨hup, hself⟩ := hwrite.up hreach htable hun
    have hdown := (ih hup).down (l := l) (by rw [hself]; exact htable)
    rwa [hself] at hdown

lemma SlotWrite.walk_of_ne {path' : ℕ → I} (hleave : ∃ k, l ≤ k ∧ k ≤ L ∧ path' k ≠ path k) :
    tableWalk fmt edge leaf m' path' L root = tableWalk fmt edge leaf m path' L root := by
  induction hdesc with
  | top =>
    obtain ⟨k, hlk, hkL, hne⟩ := hleave
    obtain rfl : k = L := by omega
    unfold tableWalk
    rw [hwrite.others _ hne]
    exact entryWalk_congr edge leaf path' fun g hg =>
      hwrite.beside (Reach.top (p := m root (path k))) hun hne hg
  | @down l f ws hdesc htable ih =>
    obtain ⟨q, hreach⟩ := hdesc.reach (m root (path L))
    obtain ⟨hup, -⟩ := hwrite.up hreach htable hun
    by_cases hhigh : ∃ k, l + 1 ≤ k ∧ k ≤ L ∧ path' k ≠ path k
    · exact ih hup hhigh
    · push Not at hhigh
      obtain ⟨k, hlk, hkL, hne⟩ := hleave
      obtain rfl : k = l := by
        by_contra hkne
        exact hne (hhigh k (by omega) hkL)
      have hdesc' := hwrite.descends (hdesc.down htable) hun
      rw [hdesc'.walk edge leaf fun i hi hiL => hhigh i (by omega) hiL,
        (hdesc.down htable).walk edge leaf fun i hi hiL => hhigh i (by omega) hiL]
      unfold tableWalk
      rw [hwrite.others _ hne, entryWalk_congr edge leaf path' fun g hg =>
        hwrite.beside (hreach.down htable) hun hne hg]

end

section

variable (hreach : Reach fmt m path L p root l q f) (hun : Unshared fmt m L root)
  (hwrite : SlotWrite fmt m m' path L root l f)
include hreach hun hwrite

lemma SlotWrite.lookup_of_ne {path' : ℕ → I} (hleave : ∃ k, l ≤ k ∧ k ≤ L ∧ path' k ≠ path k) :
    tableLookup fmt m' path' L root = tableLookup fmt m path' L root := by
  obtain ⟨ws, hdesc⟩ := hreach.descends
  simp only [tableLookup, entryLookup_eq_walk]
  exact hwrite.walk_of_ne _ _ hdesc hun hleave

lemma SlotWrite.lookup_of_eq {path' : ℕ → I} (hsame : ∀ k, l ≤ k → k ≤ L → path' k = path k) :
    tableLookup fmt m' path' L root =
      entryLookup fmt m' path' l (m' f (path l)) := by
  have hreach' := hwrite.reach hreach hun
  rw [hreach'.lookup fun k hk hkL => hsame k (by omega) hkL]
  unfold tableLookup
  rw [hsame l le_rfl hreach.level_le]

end

end Slots

end TableCount

end RadixMemory
