import HelixOS.PmmInit
import HelixOS.TrackedRuns

/-!
# Runs of the page allocator

Reservations, allocations and frees in any order after `pmm_init`.  Beside the allocator
a run remembers the frames that are handed out and the ranges that were reserved before
the first allocation.
-/

namespace HelixOS

open TrackedRuns Function Option List

/-- The allocator, and what it has handed out. -/
structure PmmRun where
  pmm : Pmm
  live : List ℕ
  reserved : List (ℕ × ℕ)
  started : Bool

inductive PmmEvent where
  | reserve (physStart physEnd : Word)
  | allocPage
  | allocPages (n : ℕ)
  | freePage (phys : Word)
  | freePages (phys : Word) (n : ℕ)
  | deref (phys : Word)

def pagesFrom (phys : Word) (n : ℕ) : List Word :=
  (List.range n).map fun i => phys + BitVec.ofNat 64 i * 4096#64

namespace PmmRun

def step (s : PmmRun) : PmmEvent → Option PmmRun
  | .reserve a b => some { s with
      pmm := pmmReserve s.pmm a b
      reserved := if s.started then s.reserved else (a.toNat, b.toNat) :: s.reserved }
  | .allocPage =>
    let r := pmmAllocPage s.pmm
    some { s with
      pmm := r.2
      live := if r.1 = 0#64 then s.live else frameOf r.1 :: s.live
      started := true }
  | .allocPages n =>
    let r := pmmAllocPages s.pmm n
    some { s with
      pmm := r.2
      live := if r.1 = 0#64 then s.live
        else ((List.range n).map (frameOf r.1 + ·)).reverse ++ s.live
      started := true }
  | .freePage phys => some { s with
      pmm := pmmFreePage s.pmm phys
      live := s.live.erase (frameOf phys) }
  | .freePages phys n => some { s with
      pmm := pmmFreePages s.pmm phys n
      live := s.live.diff ((pagesFrom phys n).map frameOf) }
  | .deref phys => some { s with
      pmm := pmmPageDeref s.pmm phys
      live := s.live.erase (frameOf phys) }

/-- Only frames that are handed out are freed. -/
def Valid (s : PmmRun) : PmmEvent → Prop
  | .freePage phys => frameOf phys ∈ s.live
  | .freePages phys n => ((pagesFrom phys n).map frameOf).Nodup ∧
      ∀ phys' ∈ pagesFrom phys n, frameOf phys' ∈ s.live
  | .deref phys => frameOf phys ∈ s.live
  | _ => True

def Roundable : PmmEvent → Prop
  | .reserve a b => b ≤ a ∨ b.toNat + 4095 < 2 ^ 64
  | _ => True

abbrev Reached (info : BootInfo) (pmm : Pmm) (s : PmmRun) : Prop :=
  Reaches step (fun _ _ _ _ => ()) (fun s e => s.Valid e ∧ Roundable e)
    ⟨pmm, [], info.ranges, false⟩ () s ()

variable {info : BootInfo} {bitmapPhys p n : ℕ} {s s' : PmmRun} {phys : Word}

structure Inv (info : BootInfo) (bitmapPhys : ℕ) (s : PmmRun) : Prop where
  counted : s.pmm.Counted
  free : ∀ p, p < s.pmm.total → s.pmm.used p = false → Usable info bitmapPhys s.reserved p
  taken : ∀ p ∈ s.live, p < s.pmm.total ∧ s.pmm.used p = true ∧ s.pmm.refs p = 1
  usable : ∀ p ∈ s.live, Usable info bitmapPhys s.reserved p
  nodup : s.live.Nodup
  fresh : s.started = false → s.live = []

lemma Inv.take (hs : s.Inv info bitmapPhys) (hfree : s.pmm.IsFree p) :
    Inv info bitmapPhys ⟨s.pmm.take p, p :: s.live, s.reserved, true⟩ where
  counted := hs.counted.take hfree
  free q hq hused := by
    have hne : q ≠ p := by
      rintro rfl
      simp [Pmm.take] at hused
    exact hs.free q hq (by simpa [Pmm.take, update_of_ne hne] using hused)
  taken q hq := by
    by_cases hqp : q = p
    · subst hqp
      exact ⟨hfree.1, by simp [Pmm.take], by simp [Pmm.take]⟩
    · obtain ⟨hlt, hused, hrefs⟩ := hs.taken q (mem_of_ne_of_mem hqp hq)
      exact ⟨hlt, by simpa [Pmm.take, update_of_ne hqp] using hused,
        by simpa [Pmm.take, update_of_ne hqp] using hrefs⟩
  usable := forall_mem_cons.mpr ⟨hs.free p hfree.1 hfree.2, hs.usable⟩
  nodup := by
    refine nodup_cons.mpr ⟨fun hmem => ?_, hs.nodup⟩
    have hused := (hs.taken p hmem).2.1
    rw [hfree.2] at hused
    cases hused
  fresh hstarted := by cases hstarted

lemma Inv.clear (hs : s.Inv info bitmapPhys) (hp : p ∈ s.live) {refs : ℕ → ℕ}
    (hrefs : ∀ q, q ≠ p → refs q = s.pmm.refs q) :
    Inv info bitmapPhys ⟨⟨s.pmm.total, update s.pmm.used p false, refs,
      s.pmm.freePages + 1⟩, s.live.erase p, s.reserved, s.started⟩ where
  counted := hs.counted.clear (hs.taken p hp).1 (hs.taken p hp).2.1 refs
  free q hq hused := by
    by_cases hqp : q = p
    · subst hqp
      exact hs.usable q hp
    · exact hs.free q hq (by simpa [update_of_ne hqp] using hused)
  taken q hq := by
    obtain ⟨hne, hq⟩ := hs.nodup.mem_erase_iff.mp hq
    obtain ⟨hlt, hused, hold⟩ := hs.taken q hq
    exact ⟨hlt, by simpa [update_of_ne hne] using hused, (hrefs q hne).trans hold⟩
  usable q hq := hs.usable q (mem_of_mem_erase hq)
  nodup := hs.nodup.erase p
  fresh hstarted := by
    have hnil := hs.fresh hstarted
    simp [hnil]

/-! ## One step -/

lemma reserve_spec {pmm : Pmm} {a b : Word} (hs : pmm.Counted) (hround : Roundable (.reserve a b))
    : (pmmReserve pmm a b).Counted ∧ (pmmReserve pmm a b).total = pmm.total ∧
      (pmmReserve pmm a b).refs = pmm.refs ∧
      ∀ p, p < pmm.total → (pmmReserve pmm a b).used p = false →
        pmm.used p = false ∧ ¬ Touches p a.toNat b.toNat := by
  by_cases hempty : b ≤ a
  · rw [pmmReserve, if_pos hempty]
    refine ⟨hs, rfl, rfl, fun p _ hfree => ⟨hfree, ?_⟩⟩
    rintro ⟨x, hlo, hhi, -⟩
    have hle := BitVec.le_def.mp hempty
    omega
  · rw [pmmReserve, if_neg hempty]
    obtain ⟨hcounted, htotal, hrefs, -⟩ := reserveRange_spec hs a.toNat b.toNat
    refine ⟨hcounted, htotal, hrefs, fun p hp hfree => ?_⟩
    obtain ⟨hfree, hout⟩ := reserveRange_free hs hp hfree
    exact ⟨hfree, not_touches_of_range (hround.resolve_left hempty) hout⟩

lemma Inv.reserve (hs : s.Inv info bitmapPhys) {a b : Word} (hround : Roundable (.reserve a b)) :
    Inv info bitmapPhys ⟨pmmReserve s.pmm a b, s.live,
      if s.started then s.reserved else (a.toNat, b.toNat) :: s.reserved, s.started⟩ := by
  obtain ⟨hcounted, htotal, hrefs, hkeep⟩ := reserve_spec hs.counted hround
  have hlive : ∀ p ∈ s.live, p < (pmmReserve s.pmm a b).total ∧
      (pmmReserve s.pmm a b).used p = true ∧ (pmmReserve s.pmm a b).refs p = 1 := by
    intro p hp
    obtain ⟨hlt, hused, hone⟩ := hs.taken p hp
    refine ⟨htotal ▸ hlt, ?_, hrefs ▸ hone⟩
    by_contra hfree
    have hold := (hkeep p hlt (Bool.eq_false_iff.mpr hfree)).1
    rw [hused] at hold
    cases hold
  by_cases hstarted : s.started = true
  · simp only [hstarted, if_true]
    refine ⟨hcounted, fun p hp hfree => ?_, hlive, hs.usable, hs.nodup,
      fun hfalse => by cases hfalse⟩
    rw [htotal] at hp
    exact hs.free p hp (hkeep p hp hfree).1
  · -- nothing is handed out yet, so only the free frames matter
    have hnil := hs.fresh (Bool.eq_false_iff.mpr hstarted)
    simp only [hstarted, Bool.false_eq_true, if_false]
    refine ⟨hcounted, fun p hp hfree => ?_, hlive, ?_, hs.nodup, fun _ => hnil⟩
    · rw [htotal] at hp
      obtain ⟨hfree, hout⟩ := hkeep p hp hfree
      exact { hs.free p hp hfree with
        reserved := forall_mem_cons.mpr ⟨hout, (hs.free p hp hfree).reserved⟩ }
    · simp [hnil]

lemma pmmAllocPage_eq (pmm : Pmm) : pmmAllocPage pmm = (0#64, pmm) ∨
    ∃ p, pmm.IsFree p ∧ pmmAllocPage pmm = (frameAddr p, pmm.take p) := by
  cases hfirst : pmm.firstFree with
  | none => exact Or.inl (by simp [pmmAllocPage, hfirst])
  | some p =>
    obtain ⟨hlt, hused, -⟩ := Pmm.firstFree_eq_some.mp hfirst
    exact Or.inr ⟨p, ⟨hlt, hused⟩, by simp [pmmAllocPage, hfirst]⟩

section

variable (hs : s.Inv info bitmapPhys)
include hs

lemma Inv.frameAddr_free (hfree : s.pmm.IsFree p) :
    frameAddr p ≠ 0#64 ∧ frameOf (frameAddr p) = p := by
  have hhigh := (hs.free p hfree.1 hfree.2).high
  have hlt : p < 2 ^ 52 := hfree.1.trans_le hs.counted.fits
  exact ⟨frameAddr_ne_zero hlt (by omega), frameOf_frameAddr hlt⟩

lemma Inv.started : Inv info bitmapPhys { s with started := true } :=
  ⟨hs.counted, hs.free, hs.taken, hs.usable, hs.nodup, fun hfalse => by cases hfalse⟩

lemma Inv.allocPage (hstep : s.step .allocPage = some s') : s'.Inv info bitmapPhys := by
  obtain rfl := some.inj hstep
  rcases pmmAllocPage_eq s.pmm with heq | ⟨p, hfree, heq⟩
  · simp only [heq, if_true]
    exact hs.started
  · obtain ⟨hne, hframe⟩ := hs.frameAddr_free hfree
    simp only [heq, if_neg hne, hframe]
    exact hs.take hfree

lemma Inv.takeAll {l : List ℕ} (hfree : ∀ p ∈ l, s.pmm.IsFree p) (hnodup : l.Nodup) :
    Inv info bitmapPhys ⟨l.foldl Pmm.take s.pmm, l.reverse ++ s.live, s.reserved, true⟩ := by
  induction l generalizing s with
  | nil => exact hs.started
  | cons p l ih =>
    obtain ⟨hp, hrest⟩ := forall_mem_cons.mp hfree
    obtain ⟨hnotin, hnodup⟩ := nodup_cons.mp hnodup
    have hnext := ih (hs.take hp) (fun q hq => ?_) hnodup
    · simpa only [foldl_cons, reverse_cons, append_assoc, cons_append, nil_append] using hnext
    · have hne : q ≠ p := by
        rintro rfl
        exact hnotin hq
      exact ⟨(hrest q hq).1, by simpa [Pmm.take, update_of_ne hne] using (hrest q hq).2⟩

lemma Inv.allocPages (hstep : s.step (.allocPages n) = some s') : s'.Inv info bitmapPhys := by
  obtain rfl := some.inj hstep
  by_cases hzero : n = 0
  · simp only [pmmAllocPages, if_pos hzero, if_true]
    exact hs.started
  by_cases hone : n = 1
  · subst hone
    have hpage := hs.allocPage rfl
    simpa only [pmmAllocPages, if_neg hzero, if_true, range_one, map_cons, map_nil, Nat.add_zero,
      reverse_cons, reverse_nil, nil_append, cons_append] using hpage
  cases hrun : s.pmm.findRun n (s.pmm.total + 1) 0 with
  | none =>
    simp only [pmmAllocPages, if_neg hzero, if_neg hone, hrun, if_true]
    exact hs.started
  | some p =>
    obtain ⟨⟨hend, hrunFree⟩, -⟩ := (s.pmm.findRun_spec n _ 0 (by omega)).1 p hrun
    have hfree (i : ℕ) (hi : i < n) : s.pmm.IsFree (p + i) := ⟨by omega, hrunFree i hi⟩
    have hfirst : s.pmm.IsFree p := hfree 0 (by omega)
    obtain ⟨hne, hframe⟩ := hs.frameAddr_free hfirst
    have hall := hs.takeAll (l := (List.range n).map (p + ·)) (fun q hq => ?_) ?_
    · simp only [pmmAllocPages, if_neg hzero, if_neg hone, hrun]
      rw [if_neg hne]
      simpa only [foldl_map, hframe] using hall
    · obtain ⟨i, hi, rfl⟩ := mem_map.mp hq
      exact hfree i (mem_range.mp hi)
    · exact nodup_range.map fun i j hij => Nat.add_left_cancel hij

lemma Inv.freePage (hlive : frameOf phys ∈ s.live) : Inv info bitmapPhys
      ⟨pmmFreePage s.pmm phys, s.live.erase (frameOf phys), s.reserved, s.started⟩ := by
  obtain ⟨hlt, hused, -⟩ := hs.taken _ hlive
  have heq : pmmFreePage s.pmm phys = ⟨s.pmm.total,
      update s.pmm.used (frameOf phys) false, s.pmm.refs, s.pmm.freePages + 1⟩ := by
    simp [pmmFreePage, hused, not_le.mpr hlt]
  rw [heq]
  exact hs.clear hlive fun q _ => rfl

lemma Inv.freeAll {l : List Word} (hnodup : (l.map frameOf).Nodup)
    (hlive : ∀ phys ∈ l, frameOf phys ∈ s.live) : Inv info bitmapPhys
      ⟨l.foldl pmmFreePage s.pmm, s.live.diff (l.map frameOf), s.reserved, s.started⟩ := by
  induction l generalizing s with
  | nil => exact hs
  | cons phys l ih =>
    obtain ⟨hp, hrest⟩ := forall_mem_cons.mp hlive
    obtain ⟨hnotin, hnodup⟩ := nodup_cons.mp hnodup
    rw [map_cons, diff_cons, foldl_cons]
    refine ih (hs.freePage hp) hnodup fun phys' hphys' => ?_
    refine (mem_erase_of_ne fun heq => hnotin ?_).mpr (hrest phys' hphys')
    rw [← heq]
    exact mem_map_of_mem hphys'

lemma Inv.deref (hlive : frameOf phys ∈ s.live) : Inv info bitmapPhys
      ⟨pmmPageDeref s.pmm phys, s.live.erase (frameOf phys), s.reserved, s.started⟩ := by
  obtain ⟨hlt, hused, hrefs⟩ := hs.taken _ hlive
  have heq : pmmPageDeref s.pmm phys = ⟨s.pmm.total, update s.pmm.used (frameOf phys)
      false, update s.pmm.refs (frameOf phys) 0, s.pmm.freePages + 1⟩ := by
    simp [pmmPageDeref, pmmFreePage, hused, not_le.mpr hlt, hrefs]
  rw [heq]
  exact hs.clear hlive fun q hq => update_of_ne hq _ _

lemma Inv.step {e : PmmEvent} (hvalid : s.Valid e) (hround : Roundable e)
    (hstep : s.step e = some s') : s'.Inv info bitmapPhys := by
  cases e with
  | reserve a b =>
    obtain rfl := some.inj hstep
    exact hs.reserve hround
  | allocPage => exact hs.allocPage hstep
  | allocPages n => exact hs.allocPages hstep
  | freePage phys =>
    obtain rfl := some.inj hstep
    exact hs.freePage hvalid
  | freePages phys n =>
    obtain rfl := some.inj hstep
    have hall := hs.freeAll hvalid.1 hvalid.2
    rw [pagesFrom, foldl_map] at hall
    exact hall
  | deref phys =>
    obtain rfl := some.inj hstep
    exact hs.deref hvalid

end

end PmmRun

open PmmRun

/-- After boot and any run whose reservations can be rounded up, every frame that is handed
out may be used, none is handed out twice, and the count of free pages is the number of
clear bits. -/
theorem pmm_sound {info : BootInfo} {pmm : Pmm} {bitmapPhys : ℕ} {s : PmmRun}
    (hinfo : info.WellFormed) (hinit : pmmInit info = some (pmm, bitmapPhys))
    (hround : ∀ r ∈ info.ranges, r.2 + 4095 < 2 ^ 64) (hreach : Reached info pmm s) :
    (∀ p ∈ s.live, Usable info bitmapPhys s.reserved p) ∧ s.live.Nodup ∧
      s.pmm.freePages.toNat = s.pmm.freeCount := by
  have hs : s.Inv info bitmapPhys := by
    refine hreach.invariant (fun s _ => s.Inv info bitmapPhys) ?_ ?_
    · obtain ⟨hcounted, -, hfree⟩ := pmmInit_usable hinit hinfo hround
      exact ⟨hcounted, hfree, by simp, by simp, nodup_nil, fun _ => rfl⟩
    · intro s s' _ e hs hallowed hstep
      exact hs.step hallowed.1 hallowed.2 hstep
  exact ⟨hs.usable, hs.nodup, hs.counted.count⟩

def smallInfo : BootInfo where
  addr := 0x1000#64
  mmapAddr := 0x2000#64
  mmap := [⟨conventionalMemory, 0x200000#64, 4#64⟩]
  physCeiling := 0x204000#64
  imageBase := 0#64
  imageSize := 0#64

lemma smallInfo_wellFormed : smallInfo.WellFormed :=
  ⟨by decide, by simp [smallInfo]⟩

def afterReservation (pmm : Pmm) (a b : Word) : PmmRun :=
  ⟨(pmmAllocPage (pmmReserve pmm a b)).2, [514], (a.toNat, b.toNat) :: smallInfo.ranges, true⟩

theorem pmm_sound_small : ∃ pmm, pmmInit smallInfo = some (pmm, 0x200000) ∧
    Reached smallInfo pmm (afterReservation pmm 0x203000#64 0x204000#64) ∧
    Usable smallInfo 0x200000 ((0x203000, 0x204000) :: smallInfo.ranges) 514 := by
  have hrun : (pmmInit smallInfo).map (fun r =>
      (r.2, (pmmAllocPage (pmmReserve r.1 0x203000#64 0x204000#64)).1)) =
      some (0x200000, 0x202000#64) := by decide +kernel
  obtain ⟨⟨pmm, place⟩, hinit, hpage⟩ := map_eq_some_iff.mp hrun
  obtain ⟨rfl, hpage⟩ := Prod.mk.inj hpage
  have hstart : Reached smallInfo pmm ⟨pmm, [], smallInfo.ranges, false⟩ := .start
  have hreserved := hstart.next (.reserve 0x203000#64 0x204000#64) ⟨trivial, Or.inr (by decide)⟩ rfl
  have hreach : Reached smallInfo pmm (afterReservation pmm 0x203000#64 0x204000#64) :=
    hreserved.next .allocPage ⟨trivial, trivial⟩ (by
      simp only [PmmRun.step, hpage]
      rfl)
  obtain ⟨husable, -, -⟩ := pmm_sound smallInfo_wellFormed hinit (by decide) hreach
  exact ⟨pmm, hinit, hreach, husable 514 mem_cons_self⟩

/-- A range that ends in the last page of the address space is not reserved at all: the
rounding of its end wraps to page 0. -/
theorem reserved_frame_handed_out : ∃ pmm, smallInfo.WellFormed ∧
    pmmInit smallInfo = some (pmm, 0x200000) ∧
    Reaches PmmRun.step (fun _ _ _ _ => ()) PmmRun.Valid ⟨pmm, [], smallInfo.ranges, false⟩ ()
      (afterReservation pmm 0x202000#64 0xFFFFFFFFFFFFFFFF#64) () ∧
    Touches 514 (0x202000#64).toNat (0xFFFFFFFFFFFFFFFF#64).toNat := by
  have hrun : (pmmInit smallInfo).map (fun r =>
      (r.2, (pmmAllocPage (pmmReserve r.1 0x202000#64 0xFFFFFFFFFFFFFFFF#64)).1)) =
      some (0x200000, 0x202000#64) := by decide +kernel
  obtain ⟨⟨pmm, place⟩, hinit, hpage⟩ := map_eq_some_iff.mp hrun
  obtain ⟨rfl, hpage⟩ := Prod.mk.inj hpage
  have hstart : Reaches PmmRun.step (fun _ _ _ _ => ()) PmmRun.Valid
      ⟨pmm, [], smallInfo.ranges, false⟩ () ⟨pmm, [], smallInfo.ranges, false⟩ () := .start
  have hreserved := hstart.next (.reserve 0x202000#64 0xFFFFFFFFFFFFFFFF#64) trivial rfl
  refine ⟨pmm, smallInfo_wellFormed, hinit, hreserved.next .allocPage trivial ?_, 0x202000,
    by simp, by simp, by decide⟩
  simp only [PmmRun.step, hpage]
  rfl

end HelixOS
