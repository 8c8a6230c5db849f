import Mathlib.Tactic

/-!
# Tilings of a range

Blocks that fill a range of numbers without gap or overlap.  A block may be cut in two, and
two blocks that follow each other may be joined.
-/

namespace Tilings

open List

/-- The numbers from `start` on, `size` of them. -/
structure Block where
  start : ℕ
  size : ℕ
  deriving DecidableEq

namespace Block

def finish (b : Block) : ℕ := b.start + b.size

def Has (b : Block) (x : ℕ) : Prop := b.start ≤ x ∧ x < b.finish

def Apart (b c : Block) : Prop := b.finish ≤ c.start ∨ c.finish ≤ b.start

lemma Apart.symm {b c : Block} (h : b.Apart c) : c.Apart b := Or.symm h

instance : Std.Symm Apart := ⟨fun _ _ => Apart.symm⟩

end Block

/-- The blocks lie in the range, apart from each other, and leave no gap. -/
structure Tiling (lo hi : ℕ) (blocks : List Block) : Prop where
  positive : ∀ b ∈ blocks, 0 < b.size
  inside : ∀ b ∈ blocks, lo ≤ b.start ∧ b.finish ≤ hi
  apart : blocks.Pairwise Block.Apart
  covered : ∀ x, lo ≤ x → x < hi → ∃ b ∈ blocks, b.Has x

variable {lo hi n x : ℕ} {b c : Block} {blocks blocks' rest : List Block}

lemma Tiling.perm (h : Tiling lo hi blocks) (hperm : blocks.Perm blocks') :
    Tiling lo hi blocks' where
  positive b hb := h.positive b (hperm.mem_iff.mpr hb)
  inside b hb := h.inside b (hperm.mem_iff.mpr hb)
  apart := (hperm.pairwise_iff Block.Apart.symm).mp h.apart
  covered x hlo hhi := by
    obtain ⟨b, hb, hx⟩ := h.covered x hlo hhi
    exact ⟨b, hperm.mem_iff.mp hb, hx⟩

lemma Tiling.cut (h : Tiling lo hi (b :: rest)) (hpos : 0 < n) (hn : n < b.size) :
    Tiling lo hi (⟨b.start, n⟩ :: ⟨b.start + n, b.size - n⟩ :: rest) := by
  obtain ⟨hfirst, hrest⟩ := pairwise_cons.mp h.apart
  obtain ⟨hb, hinside⟩ := forall_mem_cons.mp h.inside
  obtain ⟨-, hpositive⟩ := forall_mem_cons.mp h.positive
  simp only [Block.finish] at hb
  refine ⟨?_, ?_, ?_, fun x hlo hhi => ?_⟩
  · refine forall_mem_cons.mpr ⟨hpos, forall_mem_cons.mpr ⟨?_, hpositive⟩⟩
    exact Nat.sub_pos_of_lt hn
  · refine forall_mem_cons.mpr ⟨?_, forall_mem_cons.mpr ⟨?_, hinside⟩⟩
    · simp only [Block.finish]
      omega
    · simp only [Block.finish]
      omega
  · refine pairwise_cons.mpr ⟨forall_mem_cons.mpr ⟨Or.inl le_rfl, fun c hc => ?_⟩,
      pairwise_cons.mpr ⟨fun c hc => ?_, hrest⟩⟩
    · have hapart := hfirst c hc
      simp only [Block.Apart, Block.finish] at hapart ⊢
      omega
    · have hapart := hfirst c hc
      simp only [Block.Apart, Block.finish] at hapart ⊢
      omega
  · obtain ⟨c, hc, hx⟩ := h.covered x hlo hhi
    rcases mem_cons.mp hc with rfl | hc
    · simp only [Block.Has, Block.finish] at hx
      by_cases hlt : x < c.start + n
      · exact ⟨_, mem_cons_self, by simp only [Block.Has, Block.finish]; omega⟩
      · exact ⟨_, mem_cons_of_mem _ mem_cons_self, by simp only [Block.Has, Block.finish]; omega⟩
    · exact ⟨c, mem_cons_of_mem _ (mem_cons_of_mem _ hc), hx⟩

lemma Tiling.join (h : Tiling lo hi (b :: c :: rest)) (hnext : c.start = b.finish) :
    Tiling lo hi (⟨b.start, b.size + c.size⟩ :: rest) := by
  obtain ⟨hfirst, hapart⟩ := pairwise_cons.mp h.apart
  obtain ⟨hsecond, hrest⟩ := pairwise_cons.mp hapart
  obtain ⟨hb, hinside⟩ := forall_mem_cons.mp h.inside
  obtain ⟨hc, hinside⟩ := forall_mem_cons.mp hinside
  obtain ⟨hbpos, hpositive⟩ := forall_mem_cons.mp h.positive
  obtain ⟨hcpos, hpositive⟩ := forall_mem_cons.mp hpositive
  simp only [Block.finish] at hb hc hnext
  refine ⟨forall_mem_cons.mpr ⟨Nat.add_pos_left hbpos _, hpositive⟩, forall_mem_cons.mpr
    ⟨?_, hinside⟩, pairwise_cons.mpr ⟨fun d hd => ?_, hrest⟩, fun x hlo hhi => ?_⟩
  · simp only [Block.finish]
    omega
  · have h₁ := hfirst d (mem_cons_of_mem _ hd)
    have h₂ := hsecond d hd
    have hdpos := hpositive d hd
    simp only [Block.Apart, Block.finish] at h₁ h₂ ⊢
    omega
  · obtain ⟨d, hd, hx⟩ := h.covered x hlo hhi
    rcases mem_cons.mp hd with rfl | hd
    · exact ⟨_, mem_cons_self, by simp only [Block.Has, Block.finish] at hx ⊢; omega⟩
    rcases mem_cons.mp hd with rfl | hd
    · exact ⟨_, mem_cons_self, by simp only [Block.Has, Block.finish] at hx ⊢; omega⟩
    · exact ⟨d, mem_cons_of_mem _ hd, hx⟩

/-! ## Neighbours -/

lemma Tiling.unique (h : Tiling lo hi blocks) (hb : b ∈ blocks) (hc : c ∈ blocks) (hx : b.Has x)
    (hx' : c.Has x) : b = c := by
  by_contra hne
  have hapart := h.apart.forall hb hc hne
  simp only [Block.Apart, Block.Has, Block.finish] at hapart hx hx'
  omega

lemma Tiling.follower (h : Tiling lo hi blocks) (hb : b ∈ blocks) (hend : b.finish < hi) :
    ∃ c ∈ blocks, c.start = b.finish := by
  have hpos := h.positive b hb
  have hlo := (h.inside b hb).1
  obtain ⟨c, hc, hx⟩ := h.covered b.finish (by simp only [Block.finish]; omega) hend
  refine ⟨c, hc, ?_⟩
  by_contra hne
  -- otherwise the last number of `b` would be in both
  have hlast : b.Has (b.finish - 1) := by
    simp only [Block.Has, Block.finish]
    omega
  have heq : b = c := by
    refine h.unique hb hc hlast ?_
    simp only [Block.Has, Block.finish] at hx hne ⊢
    omega
  subst heq
  exact lt_irrefl _ hx.2

def Spaced (blocks : List Block) : Prop := ∀ b ∈ blocks, ∀ c ∈ blocks, c.start ≠ b.finish

lemma Spaced.subset (hspaced : Spaced blocks) (hsub : blocks' ⊆ blocks) : Spaced blocks' :=
  fun b hb c hc => hspaced b (hsub hb) c (hsub hc)

lemma Tiling.gap (h : Tiling lo hi (blocks ++ rest)) (hspaced : Spaced blocks) {a k : ℕ}
    (hk : 0 < k) (hlo : lo ≤ a) (hhi : a + k ≤ hi)
    (hfree : ∀ c ∈ rest, ∀ x, a ≤ x → x < a + k → ¬ c.Has x) :
    ∃ b ∈ blocks, b.start ≤ a ∧ a + k ≤ b.finish := by
  have hcover : ∀ x, a ≤ x → x < a + k → ∃ b ∈ blocks, b.Has x := by
    intro x hax hxk
    obtain ⟨b, hb, hx⟩ := h.covered x (by omega) (by omega)
    rcases mem_append.mp hb with hb | hb
    · exact ⟨b, hb, hx⟩
    · exact absurd hx (hfree b hb x hax hxk)
  obtain ⟨b, hb, hx⟩ := hcover a le_rfl (by omega)
  refine ⟨b, hb, hx.1, ?_⟩
  by_contra hlt
  push Not at hlt
  obtain ⟨c, hc, hstart⟩ := h.follower (mem_append_left _ hb) (by omega)
  obtain ⟨d, hd, hx'⟩ := hcover b.finish (by have := hx.2; omega) hlt
  have hcx : c.Has b.finish := by
    have := h.positive c hc
    simp only [Block.Has, Block.finish] at hstart ⊢
    omega
  have heq : c = d := h.unique hc (mem_append_left _ hd) hcx hx'
  exact hspaced b hb d hd (heq ▸ hstart)

lemma Tiling.single (h : Tiling lo hi blocks) (hspaced : Spaced blocks) (hlt : lo < hi) :
    blocks = [⟨lo, hi - lo⟩] := by
  have hall : ∀ b ∈ blocks, b = ⟨lo, hi - lo⟩ := by
    obtain ⟨b, hb, hstart, hfinish⟩ :=
      (show Tiling lo hi (blocks ++ []) by simpa using h).gap hspaced
      (a := lo) (k := hi - lo) (by omega) le_rfl (by omega) (by simp)
    have hinside := h.inside b hb
    have hbeq : b = ⟨lo, hi - lo⟩ := by
      obtain ⟨start, size⟩ := b
      simp only [Block.finish] at hinside hstart hfinish
      simp only [Block.mk.injEq]
      omega
    intro c hc
    have hcin := h.inside c hc
    have hcpos := h.positive c hc
    simp only [Block.finish] at hcin
    rw [← hbeq]
    refine h.unique hc hb (x := c.start) ?_ ?_
    · simp only [Block.Has, Block.finish]
      omega
    · rw [hbeq]
      simp only [Block.Has, Block.finish]
      omega
  have hnodup : blocks.Nodup := by
    refine h.apart.imp_of_mem fun {a b} ha _ hab heq => ?_
    have hpos := h.positive a ha
    subst heq
    simp only [Block.Apart, Block.finish] at hab
    omega
  obtain ⟨b, hb, -⟩ := h.covered lo le_rfl hlt
  cases blocks with
  | nil => exact absurd hb not_mem_nil
  | cons c rest =>
    obtain ⟨hfirst, -⟩ := nodup_cons.mp hnodup
    obtain ⟨hc, hrest⟩ := forall_mem_cons.mp hall
    cases rest with
    | nil => rw [hc]
    | cons d rest =>
      have hd := hrest d mem_cons_self
      exact absurd (by simp [hc, hd]) hfirst

lemma Tiling.length_le (h : Tiling lo hi blocks) : blocks.length ≤ hi - lo := by
  have hnodup : (blocks.map Block.start).Nodup := by
    refine pairwise_map.mpr (h.apart.imp_of_mem fun {a b} ha hb hab heq => ?_)
    have ha := h.positive a ha
    have hb := h.positive b hb
    simp only [Block.Apart, Block.finish] at hab
    omega
  have hsub : (blocks.map Block.start).toFinset ⊆ Finset.Ico lo hi := by
    intro x hx
    obtain ⟨b, hb, rfl⟩ := mem_map.mp (mem_toFinset.mp hx)
    have hin := h.inside b hb
    have hpos := h.positive b hb
    simp only [Block.finish] at hin
    exact Finset.mem_Ico.mpr (by omega)
  have hcard := Finset.card_le_card hsub
  rw [toFinset_card_of_nodup hnodup, length_map, Nat.card_Ico] at hcard
  exact hcard

end Tilings
