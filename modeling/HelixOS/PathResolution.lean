import Mathlib.Data.List.TakeWhile
import Mathlib.Tactic

/-!
# Resolving paths

`vfs_path_resolve` joins the working directory and a path in a buffer of 256 bytes, cuts the
text into components of at most 63 bytes and keeps at most 32 of them.
-/

namespace HelixOS.Paths

open Option List

abbrev Byte := BitVec 8

def slash : Byte := 0x2F#8
def dot : Byte := 0x2E#8

/-! ## The code -/

/-- The text in `tmp`, which has room for 255 bytes and the terminator. -/
def joinInto (cwd path : List Byte) : Option (List Byte) :=
  let cwd := if cwd = [] then [slash] else cwd
  if path.head? = some slash then some (path.take 255)
  else
    let base := cwd.take 255
    let started :=
      if base = [] ∨ base.getLast? ≠ some slash then
        if base.length + 1 ≥ 256 then none else some (base ++ [slash])
      else some base
    started.map fun base => base ++ path.take (255 - base.length)

def pushComp (comps : List (List Byte)) (comp : List Byte) : Option (List (List Byte)) :=
  if comp = [] ∨ comp = [dot] then some comps
  else if comp = [dot, dot] then some comps.dropLast
  else if comps.length ≥ 32 then none
  else some (comps ++ [comp])

/-- The loop over the text; every round reads at least one byte. -/
def collapse : ℕ → List Byte → List (List Byte) → Option (List (List Byte))
  | _, [], comps => some comps
  | 0, _ :: _, _ => none
  | fuel + 1, c :: rest, comps =>
    let comp := ((c :: rest).take 63).takeWhile (· ≠ slash)
    (pushComp comps comp).bind
      (collapse fuel (((c :: rest).drop comp.length).dropWhile (· = slash)))

def putByte (cap : ℕ) (out : List Byte) (b : Byte) : Option (List Byte) :=
  if out.length + 1 ≥ cap then none else some (out ++ [b])

def writeOut (cap : ℕ) (comps : List (List Byte)) : Option (List Byte) :=
  if comps = [] then some [slash]
  else (comps.flatMap (slash :: ·)).foldlM (putByte cap) []

def vfsPathResolve (cwd path : List Byte) (cap : ℕ) : Option (List Byte) :=
  if cap < 2 then none
  else
    (joinInto cwd path).bind fun tmp =>
      let p := tmp.dropWhile (· = slash)
      (collapse p.length p []).bind (writeOut cap)

/-! ## The reference -/

/-- The components between the slashes. -/
def parts (text : List Byte) : List (List Byte) := text.splitOn slash

def follow (comps : List (List Byte)) (comp : List Byte) : List (List Byte) :=
  if comp = [] ∨ comp = [dot] then comps
  else if comp = [dot, dot] then comps.dropLast
  else comps ++ [comp]

/-- The text of an absolute path. -/
def spell (comps : List (List Byte)) : List Byte :=
  if comps = [] then [slash] else comps.flatMap (slash :: ·)

def isAbsolute (path : List Byte) : Bool := path.head? = some slash

def pathParts (cwd path : List Byte) : List (List Byte) :=
  if isAbsolute path then parts path else parts cwd ++ parts path

/-- The path that the components stand for. -/
def reference (cwd path : List Byte) : List Byte := spell ((pathParts cwd path).foldl follow [])

/-- A component of 63 bytes or more is taken for several. -/
def pieces (comp : List Byte) : List (List Byte) :=
  (range (comp.length / 63 + 1)).map fun k => (comp.drop (63 * k)).take 63

def readParts (text : List Byte) : List (List Byte) := (parts text).flatMap pieces

/-- More than 32 components pile up, or the buffer of the caller is too short for them. -/
def TooLong (text : List Byte) (cap : ℕ) : Prop :=
  (readParts text).foldlM pushComp [] = none ∨
    cap ≤ (spell ((readParts text).foldl follow [])).length

/-- The components that are left of the text in the buffer, taken in pieces, are those that are
left of the path. -/
def Harmless (cwd path text : List Byte) : Prop :=
  (readParts text).foldl follow [] = (pathParts cwd path).foldl follow []

/-! ## Cutting the text -/

variable {cwd path text comp : List Byte} {comps : List (List Byte)} {cap : ℕ}

lemma parts_append_slash (front back : List Byte) :
    parts (front ++ slash :: back) = parts front ++ parts back :=
  splitOn_append_cons_self ..

lemma parts_of_not_mem (h : slash ∉ text) : parts text = [text] := by
  refine splitOnP_eq_singleton fun b hb => ?_
  rw [beq_eq_false_iff_ne]
  rintro rfl
  exact h hb

@[simp] lemma pushComp_nil : pushComp comps [] = some comps := if_pos (Or.inl rfl)

lemma not_mem_parts (h : comp ∈ parts text) : slash ∉ comp := by
  induction hn : text.length using Nat.strong_induction_on generalizing text with
  | _ n ih =>
    by_cases hslash : slash ∈ text
    · obtain ⟨front, back, rfl, hfront⟩ := eq_append_cons_of_mem hslash
      rw [parts_append_slash, parts_of_not_mem hfront, singleton_append] at h
      rcases mem_cons.mp h with rfl | h
      · exact hfront
      · exact ih _ (by simp at hn; omega) h rfl
    · rw [parts_of_not_mem hslash] at h
      exact mem_singleton.mp h ▸ hslash

lemma mem_readParts (h : comp ∈ readParts text) : slash ∉ comp ∧ comp.length ≤ 63 := by
  obtain ⟨whole, hwhole, hpiece⟩ := mem_flatMap.mp h
  obtain ⟨k, -, rfl⟩ := mem_map.mp hpiece
  exact ⟨fun hmem => not_mem_parts hwhole (mem_of_mem_drop (mem_of_mem_take hmem)),
    length_take_le ..⟩

lemma readParts_append_slash (front back : List Byte) :
    readParts (front ++ slash :: back) = readParts front ++ readParts back := by
  rw [readParts, parts_append_slash, flatMap_append]
  rfl

lemma readParts_of_not_mem (h : slash ∉ text) : readParts text = pieces text := by
  rw [readParts, parts_of_not_mem h, flatMap_singleton]

lemma pieces_short (h : comp.length < 63) : pieces comp = [comp] := by
  rw [pieces, Nat.div_eq_of_lt h]
  simp [take_of_length_le h.le]

lemma pieces_long (h : 63 ≤ comp.length) :
    pieces comp = comp.take 63 :: pieces (comp.drop 63) := by
  have hcount : comp.length / 63 + 1 = (comp.drop 63).length / 63 + 1 + 1 := by
    rw [length_drop]
    omega
  rw [pieces, hcount, range_succ_eq_map, map_cons, List.map_map]
  refine congrArg _ (map_congr_left fun k _ => ?_)
  simp only [Function.comp_apply, drop_drop]
  rw [Nat.mul_succ, Nat.add_comm]

lemma foldlM_pieces (h : comp.length ≤ 63) :
    (pieces comp).foldlM pushComp comps = pushComp comps comp := by
  rcases h.lt_or_eq with hlt | heq
  · rw [pieces_short hlt]
    simp
  · rw [pieces_long heq.ge, take_of_length_le h, drop_eq_nil_of_le h]
    simp [pieces]

lemma foldlM_flatMap_pieces {list : List (List Byte)} (h : ∀ comp ∈ list, comp.length ≤ 63) :
    (list.flatMap pieces).foldlM pushComp comps = list.foldlM pushComp comps := by
  induction list generalizing comps with
  | nil => rfl
  | cons comp list ih =>
    obtain ⟨hcomp, hlist⟩ := forall_mem_cons.mp h
    rw [flatMap_cons, foldlM_append, foldlM_pieces hcomp, foldlM_cons]
    exact congrArg _ (funext fun next => ih hlist)

lemma foldlM_dropWhile (text) (comps) :
    (readParts (text.dropWhile (· = slash))).foldlM pushComp comps =
      (readParts text).foldlM pushComp comps := by
  induction text with
  | nil => rfl
  | cons b text ih =>
    by_cases hb : b = slash
    · rw [dropWhile_cons_of_pos (by simpa using hb), ih, hb, ← nil_append (slash :: text),
        readParts_append_slash]
      simp [readParts_of_not_mem, pieces]
    · rw [dropWhile_cons_of_neg (by simpa using hb)]

/-- What one round of the loop reads of a text without a leading slash. -/
lemma readParts_round (front rest : List Byte) (hfront : slash ∉ front)
    (hrest : rest.head? ≠ some slash → rest = []) :
    let comp := ((front ++ rest).take 63).takeWhile (· ≠ slash)
    (readParts (front ++ rest)).foldlM pushComp comps = (pushComp comps comp).bind
      ((readParts ((front ++ rest).drop comp.length)).foldlM pushComp) := by
  have hpass (n : ℕ) : ∀ b ∈ front.take n, decide (b ≠ slash) = true := by
    rintro b hb
    rw [decide_eq_true_iff]
    rintro rfl
    exact hfront (mem_of_mem_take hb)
  have hback : ∃ back, ∀ fr : List Byte, slash ∉ fr →
      readParts (fr ++ rest) = pieces fr ++ back := by
    cases rest with
    | nil => exact ⟨[], fun fr hfr => by simp [readParts_of_not_mem hfr]⟩
    | cons b rest =>
      obtain rfl : b = slash := by
        by_contra hb
        exact absurd (hrest (by simpa using hb)) (by simp)
      exact ⟨readParts rest, fun fr hfr => by
        rw [readParts_append_slash, readParts_of_not_mem hfr]⟩
  obtain ⟨back, hback⟩ := hback
  by_cases hlong : 63 ≤ front.length
  · have hread : ((front ++ rest).take 63).takeWhile (· ≠ slash) = front.take 63 := by
      rw [take_append_of_le_length hlong]
      exact takeWhile_eq_self_iff.mpr (hpass 63)
    simp only [hread, length_take, min_eq_left hlong]
    rw [drop_append_of_le_length hlong, hback front hfront,
      hback _ fun hmem => hfront (mem_of_mem_drop hmem), pieces_long hlong]
    rfl
  · have hread : ((front ++ rest).take 63).takeWhile (· ≠ slash) = front := by
      have hstop : (rest.take (63 - front.length)).takeWhile (· ≠ slash) = [] := by
        cases rest with
        | nil => simp
        | cons b rest =>
          obtain rfl : b = slash := by
            by_contra hb
            exact absurd (hrest (by simpa using hb)) (by simp)
          cases 63 - front.length <;> simp
      rw [take_append, takeWhile_append_of_pos (hpass 63), hstop, append_nil,
        take_of_length_le (by omega)]
    simp only [hread, drop_left]
    rw [hback front hfront, pieces_short (by omega)]
    have hempty := hback [] (by simp)
    rw [nil_append] at hempty
    rw [hempty]
    simp [pieces]

lemma head?_dropWhile (text : List Byte) : (text.dropWhile (· = slash)).head? ≠ some slash := by
  induction text with
  | nil => simp
  | cons b text ih => by_cases hb : b = slash <;> simp [hb, ih]

lemma collapse_eq {fuel : ℕ} (hfuel : text.length ≤ fuel) (hhead : text.head? ≠ some slash) :
    collapse fuel text comps = (readParts text).foldlM pushComp comps := by
  induction fuel generalizing text comps with
  | zero =>
    obtain rfl := length_eq_zero_iff.mp (Nat.le_zero.mp hfuel)
    rfl
  | succ fuel ih =>
    cases text with
    | nil => rfl
    | cons b text =>
      obtain ⟨front, rest, heq, hfront, hrest⟩ : ∃ front rest, b :: text = front ++ rest ∧
          slash ∉ front ∧ (rest.head? ≠ some slash → rest = []) := by
        by_cases hslash : slash ∈ b :: text
        · obtain ⟨front, back, heq, hfront⟩ := eq_append_cons_of_mem hslash
          exact ⟨front, slash :: back, heq, hfront, by simp⟩
        · exact ⟨b :: text, [], (append_nil _).symm, hslash, fun _ => rfl⟩
      rw [collapse, heq, readParts_round front rest hfront hrest]
      refine congrArg _ (funext fun next => ?_)
      have hread : 1 ≤ (((front ++ rest).take 63).takeWhile (· ≠ slash)).length := by
        rw [← heq, take_succ_cons, takeWhile_cons_of_pos (by simpa using hhead), length_cons]
        omega
      rw [ih ?_ (head?_dropWhile _), foldlM_dropWhile]
      have hle := (dropWhile_suffix (· = slash) (l := (front ++ rest).drop
        (((front ++ rest).take 63).takeWhile (· ≠ slash)).length)).length_le
      rw [length_drop, ← heq] at hle
      rw [← heq] at hread ⊢
      exact hle.trans (by rw [length_cons] at hfuel ⊢; omega)

/-! ## The result -/

lemma pushComp_some {comps' : List (List Byte)}
    (h : pushComp comps comp = some comps') : comps' = follow comps comp := by
  unfold pushComp at h
  unfold follow
  split_ifs at h ⊢ <;> exact (some.inj h).symm

lemma foldlM_pushComp {list comps' : List (List Byte)}
    (h : list.foldlM pushComp comps = some comps') : comps' = list.foldl follow comps := by
  induction list generalizing comps with
  | nil => exact (some.inj h).symm
  | cons comp list ih =>
    obtain ⟨next, hpush, hrest⟩ := bind_eq_some_iff.mp h
    rw [foldl_cons, ← pushComp_some hpush]
    exact ih hrest

lemma foldlM_putByte {bytes out : List Byte} (hlt : out.length < cap) :
    bytes.foldlM (putByte cap) out =
      if out.length + bytes.length < cap then some (out ++ bytes) else none := by
  induction bytes generalizing out with
  | nil => simp [hlt]
  | cons b bytes ih =>
    rw [foldlM_cons, putByte, length_cons]
    by_cases hroom : out.length + 1 < cap
    · rw [if_neg (by omega), bind_eq_bind, bind_some, ih (by simpa using hroom)]
      simp only [length_append, length_singleton, append_assoc, singleton_append,
        Nat.add_assoc, Nat.add_comm 1]
    · rw [if_pos (by omega), if_neg (by omega)]
      rfl

lemma writeOut_eq (hcap : 2 ≤ cap) (comps) :
    writeOut cap comps = if (spell comps).length < cap then some (spell comps) else none := by
  unfold writeOut spell
  split_ifs with hempty hroom hroom
  · rfl
  · exact absurd hroom (by simp; omega)
  · rw [foldlM_putByte (by simp; omega), if_pos (by simpa using hroom), nil_append]
  · rw [foldlM_putByte (by simp; omega), if_neg (by simpa using hroom)]

/-- What `vfs_path_resolve` does with the text in its buffer. -/
lemma vfsPathResolve_eq (hcap : 2 ≤ cap) (hjoin : joinInto cwd path = some text) :
    vfsPathResolve cwd path cap =
      ((readParts text).foldlM pushComp []).bind (writeOut cap) := by
  rw [vfsPathResolve, if_neg (by omega), hjoin, bind_some]
  dsimp only
  rw [collapse_eq le_rfl (head?_dropWhile text), foldlM_dropWhile]

lemma parts_spelled {front : List Byte} (hfront : slash ∉ front)
    (hcomps : ∀ comp ∈ comps, slash ∉ comp) :
    parts (front ++ comps.flatMap (slash :: ·)) = front :: comps := by
  induction comps generalizing front with
  | nil => simpa using parts_of_not_mem hfront
  | cons comp comps ih =>
    rw [forall_mem_cons] at hcomps
    rw [flatMap_cons, cons_append, parts_append_slash, parts_of_not_mem hfront,
      ih hcomps.1 hcomps.2]
    rfl

lemma mem_foldl_follow {list : List (List Byte)} (h : comp ∈ list.foldl follow comps) :
    comp ∈ comps ∨ comp ∈ list ∧ comp ≠ [] := by
  induction list generalizing comps with
  | nil => exact .inl h
  | cons next list ih =>
    rcases ih h with hcomp | ⟨hmem, hne⟩
    · unfold follow at hcomp
      split_ifs at hcomp with hskip
      · exact .inl hcomp
      · exact .inl (mem_of_mem_dropLast hcomp)
      · rcases mem_append.mp hcomp with hcomp | hcomp
        · exact .inl hcomp
        · obtain rfl := mem_singleton.mp hcomp
          exact .inr ⟨mem_cons_self, fun hempty => hskip (.inl hempty)⟩
    · exact .inr ⟨mem_cons_of_mem _ hmem, hne⟩

lemma parts_spell (h : ∀ comp ∈ comps, slash ∉ comp ∧ comp ≠ []) :
    (parts (spell comps)).filter (· ≠ []) = comps := by
  unfold spell
  split_ifs with hempty
  · rw [hempty]
    decide
  · have hparts := parts_spelled not_mem_nil fun comp hcomp => (h comp hcomp).1
    rw [nil_append] at hparts
    rw [hparts, filter_cons_of_neg (by simp)]
    exact filter_eq_self.mpr fun comp hcomp => by simpa using (h comp hcomp).2

lemma spell_foldl_follow {list list' : List (List Byte)} (h : ∀ comp ∈ list, slash ∉ comp)
    (h' : ∀ comp ∈ list', slash ∉ comp) :
    spell (list.foldl follow []) = spell (list'.foldl follow []) ↔
      list.foldl follow [] = list'.foldl follow [] := by
  refine ⟨fun hspell => ?_, congrArg spell⟩
  have hleft {l : List (List Byte)} (hl : ∀ comp ∈ l, slash ∉ comp) :
      (parts (spell (l.foldl follow []))).filter (· ≠ []) = l.foldl follow [] := by
    refine parts_spell fun comp hcomp => ?_
    obtain ⟨hmem, hne⟩ := (mem_foldl_follow hcomp).resolve_left not_mem_nil
    exact ⟨hl comp hmem, hne⟩
  rw [← hleft h, hspell, hleft h']

def textOf (s : String) : List Byte := s.toList.map fun c => BitVec.ofNat 8 c.toNat

variable {out : List Byte} {comps' : List (List Byte)}

def Plain (comp : List Byte) : Prop :=
  (comp ≠ [] ∧ comp ≠ [dot]) ∧ comp ≠ [dot, dot] ∧ slash ∉ comp ∧ comp.length ≤ 63

def Normal (comps : List (List Byte)) : Prop := (∀ comp ∈ comps, Plain comp) ∧ comps.length ≤ 32

lemma Normal.push (h : Normal comps) (hslash : slash ∉ comp) (hlength : comp.length ≤ 63)
    (hpush : pushComp comps comp = some comps') : Normal comps' := by
  unfold pushComp at hpush
  split_ifs at hpush with hempty hup hfull <;> obtain rfl := some.inj hpush
  · exact h
  · exact ⟨fun c hc => h.1 c (dropLast_subset _ hc), (dropLast_sublist _).length_le.trans h.2⟩
  · refine ⟨forall_mem_append.mpr ⟨h.1, ?_⟩, by rw [length_append, length_singleton]; omega⟩
    exact forall_mem_singleton.mpr ⟨not_or.mp hempty, hup, hslash, hlength⟩

lemma Normal.foldlM_pushComp {list : List (List Byte)} (h : Normal comps)
    (hlist : ∀ comp ∈ list, slash ∉ comp ∧ comp.length ≤ 63)
    (hrun : list.foldlM pushComp comps = some comps') : Normal comps' := by
  induction list generalizing comps with
  | nil => exact some.inj hrun ▸ h
  | cons comp list ih =>
    obtain ⟨hcomp, hlist⟩ := forall_mem_cons.mp hlist
    obtain ⟨next, hpush, hrest⟩ := bind_eq_some_iff.mp hrun
    exact ih (h.push hcomp.1 hcomp.2 hpush) hlist hrest

lemma Normal.foldlM {acc : List (List Byte)} (h : Normal (acc ++ comps)) :
    comps.foldlM pushComp acc = some (acc ++ comps) := by
  induction comps generalizing acc with
  | nil => simp
  | cons comp comps ih =>
    obtain ⟨hempty, hup, -⟩ := h.1 comp (by simp)
    have hroom := h.2
    rw [length_append, length_cons] at hroom
    have hpush : pushComp acc comp = some (acc ++ [comp]) := by
      rw [pushComp, if_neg (not_or.mpr hempty), if_neg hup, if_neg (by omega)]
    rw [foldlM_cons, hpush, bind_eq_bind, bind_some, ih (by simpa using h), append_assoc]
    rfl

/-- A resolved path is in normal form, and from any directory it resolves to itself. -/
theorem resolved_path_fixed (hcap : cap ≤ 256) (h : vfsPathResolve cwd path cap = some out) :
    (∃ comps, Normal comps ∧ out = spell comps) ∧ out.length < cap ∧
      ∀ cwd', vfsPathResolve cwd' out cap = some out := by
  have hcap2 : 2 ≤ cap := by
    by_contra hsmall
    rw [vfsPathResolve, if_pos (by omega)] at h
    cases h
  obtain ⟨text, hjoin⟩ : ∃ text, joinInto cwd path = some text := by
    cases hjoin : joinInto cwd path with
    | none =>
      rw [vfsPathResolve, if_neg (by omega), hjoin] at h
      cases h
    | some text => exact ⟨text, rfl⟩
  rw [vfsPathResolve_eq hcap2 hjoin] at h
  obtain ⟨comps, hcomps, hwrite⟩ := bind_eq_some_iff.mp h
  have hnormal : Normal comps :=
    Normal.foldlM_pushComp ⟨by simp, by simp⟩ (fun _ => mem_readParts) hcomps
  rw [writeOut_eq hcap2] at hwrite
  split_ifs at hwrite with hlt
  obtain rfl := some.inj hwrite
  refine ⟨⟨comps, hnormal, rfl⟩, hlt, fun cwd' => ?_⟩
  have habs : (spell comps).head? = some slash := by
    unfold spell
    cases comps <;> rfl
  have hjoin' : joinInto cwd' (spell comps) = some (spell comps) := by
    rw [joinInto, if_pos habs, take_of_length_le (by omega)]
  -- the text is read back as the components it was written from
  have hread : (readParts (spell comps)).foldlM pushComp [] = some comps := by
    unfold spell readParts
    split_ifs with hempty
    · subst hempty
      decide
    · have hparts := parts_spelled not_mem_nil fun c hc => (hnormal.1 c hc).2.2.1
      rw [nil_append] at hparts
      rw [hparts, flatMap_cons, foldlM_append, foldlM_pieces (by simp), pushComp_nil,
        bind_eq_bind, bind_some, foldlM_flatMap_pieces fun c hc => (hnormal.1 c hc).2.2.2]
      exact (show Normal ([] ++ comps) from hnormal).foldlM
  rw [vfsPathResolve_eq hcap2 hjoin', hread, bind_some, writeOut_eq hcap2, if_pos hlt]

theorem resolved_path_fixed_sh :
    vfsPathResolve (textOf "/tmp") (textOf "/bin/sh") 256 = some (textOf "/bin/sh") :=
  (resolved_path_fixed le_rfl (show vfsPathResolve (textOf "/etc") (textOf "../bin/./sh") 256 =
    some (textOf "/bin/sh") by decide +kernel)).2.2 _

end HelixOS.Paths
