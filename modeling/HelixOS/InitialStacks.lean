import HelixOS.ByteMemory

/-!
# The stack of a new program

`setup_user_stack` of `exec.c` writes the strings, sixteen bytes for `AT_RANDOM` and a block
of words below the top of the stack, each below the last.  `ld_helix_main` of `ld_helix.c`
reads the words back.
-/

namespace HelixOS

open ByteMemory Option List

variable {i name : ℕ} {ws : List ℕ}

abbrev CString := List (BitVec 8)

/-! ## The encoder -/

def putBytes (m : Ram) (a : ℕ) (bytes : List (BitVec 8)) : Ram := fun x =>
  if a ≤ x ∧ x < a + bytes.length then bytes.getD (x - a) 0#8 else m x

def alignDown16 (x : ℕ) : ℕ := x / 16 * 16

def pushStr (sp : ℕ) (m : Ram) (s : CString) : ℕ × Ram :=
  (sp - (s.length + 1), putBytes m (sp - (s.length + 1)) (s ++ [0#8]))

def pushArgs : List CString → ℕ → Ram → List ℕ × ℕ × Ram
  | [], sp, m => ([], sp, m)
  | s :: rest, sp, m =>
    let (ptrs, sp, m) := pushArgs rest sp m
    let (p, m) := pushStr sp m s
    (p :: ptrs, p, m)

/-- What the stack needs of `struct elf_load_info`. -/
structure AuxInfo where
  entry : BitVec 64
  phdrAddr : BitVec 64
  phnum : BitVec 16
  phentsize : BitVec 16
  interpBase : BitVec 64
  mainEntry : BitVec 64

/-- The auxiliary vector without its end, for the addresses of the random bytes and of the
name of the program. -/
def auxPairs (info : AuxInfo) (atRandom execfn : ℕ) : List (ℕ × ℕ) :=
  [(6, 4096), (4, info.phentsize.toNat), (5, info.phnum.toNat)] ++
    (if info.phdrAddr ≠ 0#64 then [(3, info.phdrAddr.toNat)] else []) ++
    [(9, (if info.mainEntry ≠ 0#64 then info.mainEntry else info.entry).toNat)] ++
    (if info.interpBase ≠ 0#64 then [(7, info.interpBase.toNat)] else []) ++
    [(8, 0), (11, 0), (12, 0), (13, 0), (14, 0), (25, atRandom)] ++
    (if execfn ≠ 0 then [(31, execfn)] else [])

def pairWords (pairs : List (ℕ × ℕ)) : List ℕ := pairs.flatMap fun kv => [kv.1, kv.2]

def stackWords (ptrs : List ℕ) (pairs : List (ℕ × ℕ)) : List ℕ :=
  ptrs.length :: ptrs ++ [0, 0] ++ pairWords pairs ++ [0, 0]

def wordBytes (words : List ℕ) : List (BitVec 8) :=
  words.flatMap fun w => (List.range 8).map fun i => BitVec.ofNat 8 (w / 256 ^ i)

def randomBytes : List (BitVec 8) := (List.range 16).map fun i => 0x5A#8 ^^^ BitVec.ofNat 8 i

def pushName (sp : ℕ) (m : Ram) : Option CString → ℕ × ℕ × Ram
  | none => (0, sp, m)
  | some name => let (p, m) := pushStr sp m name; (p, p, m)

def setupUserStack (stackTop : ℕ) (argv : List CString) (info : AuxInfo)
    (execfn : Option CString) (m : Ram) : ℕ × Ram :=
  let (ptrs, sp, m) := pushArgs (argv.take 8) (alignDown16 stackTop) m
  let (name, sp, m) := pushName sp m execfn
  let atRandom := alignDown16 (sp - 16)
  let m := putBytes m atRandom randomBytes
  let words := stackWords ptrs (auxPairs info atRandom name)
  let sp := alignDown16 (atRandom - words.length * 8)
  (sp, putBytes m sp (wordBytes words))

/-! ## The decoder -/

/-- `while (*p) p++; p++` -/
def skipEnv (m : Ram) : ℕ → ℕ → Option ℕ
  | 0, _ => none
  | fuel + 1, p => if load m p 8 = 0 then some (p + 8) else skipEnv m fuel (p + 8)

/-- The auxiliary vector as `ld_helix_main` finds it. -/
def findAux (m : Ram) (fuel sp : ℕ) : Option ℕ :=
  skipEnv m fuel (sp + 8 + 8 * (load m sp 8 + 1))

def auxGet (m : Ram) (key : ℕ) : ℕ → ℕ → Option ℕ
  | 0, _ => none
  | fuel + 1, aux =>
    if load m aux 8 = 0 then some 0
    else if load m aux 8 = key then some (load m (aux + 8) 8)
    else auxGet m key fuel (aux + 16)

/-- The string is there, with its terminator. -/
def CStringAt (m : Ram) (p : ℕ) (s : CString) : Prop :=
  0#8 ∉ s ∧ ∀ i (h : i < (s ++ [0#8]).length), m (p + i) = (s ++ [0#8])[i]

/-- The arguments that the program finds. -/
def HoldsArgs (m : Ram) (sp : ℕ) (args : List CString) : Prop :=
  load m sp 8 = args.length ∧
    ∀ i (h : i < args.length), CStringAt m (load m (sp + 8 + 8 * i) 8) args[i]

/-! ## Blocks below each other -/

variable {m m' : Ram} {top sp a : ℕ} {bytes : List (BitVec 8)}
  {blocks : List (ℕ × List (BitVec 8))}

/-- The blocks below `top`, the lowest first; nothing outside has changed. -/
structure Stacked (m m' : Ram) (top sp : ℕ) (blocks : List (ℕ × List (BitVec 8))) :
    Prop where
  ordered : blocks.Pairwise fun lower upper => lower.1 + lower.2.length ≤ upper.1
  inside : ∀ b ∈ blocks, sp ≤ b.1 ∧ b.1 + b.2.length ≤ top
  content : ∀ b ∈ blocks, ∀ i (h : i < b.2.length), m' (b.1 + i) = b.2[i]
  outside : ∀ x, x < sp ∨ top ≤ x → m' x = m x
  le : sp ≤ top

lemma putBytes_inside (hi : i < bytes.length) : putBytes m a bytes (a + i) = bytes[i] := by
  rw [putBytes, if_pos (by omega), Nat.add_sub_cancel_left, getD_eq_getElem?_getD,
    getElem?_eq_getElem hi, getD_some]

lemma putBytes_outside {x : ℕ} (hx : x < a ∨ a + bytes.length ≤ x) : putBytes m a bytes x = m x :=
  if_neg (by omega)

lemma Stacked.push (h : Stacked m m' top sp blocks) (hle : a + bytes.length ≤ sp) :
    Stacked m (putBytes m' a bytes) top a ((a, bytes) :: blocks) where
  ordered := by
    refine pairwise_cons.mpr ⟨fun b hb => ?_, h.ordered⟩
    exact hle.trans (h.inside b hb).1
  inside := by
    have hsp := h.le
    refine forall_mem_cons.mpr ⟨⟨le_rfl, by dsimp only; omega⟩, fun b hb => ?_⟩
    obtain ⟨hlo, hhi⟩ := h.inside b hb
    exact ⟨by omega, hhi⟩
  content := by
    refine forall_mem_cons.mpr ⟨fun i hi => putBytes_inside hi, fun b hb i hi => ?_⟩
    obtain ⟨hlo, -⟩ := h.inside b hb
    rw [putBytes_outside (by omega)]
    exact h.content b hb i hi
  outside x hx := by
    have hsp := h.le
    rw [putBytes_outside (by omega)]
    exact h.outside x (by omega)
  le := by
    have hsp := h.le
    omega

/-! ## Strings -/

def stringRoom (strings : List CString) : ℕ := (strings.map (·.length + 1)).sum

def stringBlocks (ptrs : List ℕ) (strings : List CString) : List (ℕ × List (BitVec 8)) :=
  ptrs.zip (strings.map (· ++ [0#8]))

lemma pushArgs_stacked (args : List CString) (h : Stacked m m' top sp blocks)
    (hroom : stringRoom args ≤ sp) :
    ∃ ptrs m'', pushArgs args sp m' = (ptrs, sp - stringRoom args, m'') ∧
      ptrs.length = args.length ∧
      Stacked m m'' top (sp - stringRoom args) (stringBlocks ptrs args ++ blocks) := by
  induction args with
  | nil => exact ⟨[], m', rfl, rfl, h⟩
  | cons s rest ih =>
    have hsum : stringRoom (s :: rest) = s.length + 1 + stringRoom rest := rfl
    obtain ⟨ptrs, m₁, hrun, hlen, hstack⟩ := ih (by omega)
    have hsp : sp - stringRoom rest - (s.length + 1) = sp - stringRoom (s :: rest) := by omega
    refine ⟨(sp - stringRoom (s :: rest)) :: ptrs,
      putBytes m₁ (sp - stringRoom (s :: rest)) (s ++ [0#8]), ?_, congrArg (· + 1) hlen, ?_⟩
    · simp only [pushArgs, hrun, pushStr, hsp]
    · refine hstack.push ?_
      simp only [length_append, length_singleton]
      omega

lemma pushName_eq (sp) (m) (execfn) :
    pushName sp m execfn =
      ((pushArgs execfn.toList sp m).1.headD 0, (pushArgs execfn.toList sp m).2) := by
  cases execfn with
  | none => rfl
  | some name => rfl

lemma mem_stringBlocks {ptrs : List ℕ} {args : List CString} (hi : i < args.length)
    (hi' : i < ptrs.length) : (ptrs[i], args[i] ++ [0#8]) ∈ stringBlocks ptrs args := by
  refine mem_iff_getElem.mpr ⟨i, by simp [stringBlocks, hi, hi'], ?_⟩
  simp [stringBlocks]

lemma Stacked.cstringAt {ptrs : List ℕ} {args : List CString}
    (h : Stacked m m' top sp blocks) (hsub : stringBlocks ptrs args ⊆ blocks)
    (hargs : ∀ s ∈ args, 0#8 ∉ s) (hi : i < args.length) (hi' : i < ptrs.length) :
    CStringAt m' ptrs[i] args[i] :=
  ⟨hargs _ (getElem_mem hi), h.content _ (hsub (mem_stringBlocks hi hi'))⟩

lemma Stacked.pointer_le {ptrs : List ℕ} {args : List CString}
    (h : Stacked m m' top sp blocks) (hsub : stringBlocks ptrs args ⊆ blocks)
    (hlen : ptrs.length = args.length) : ∀ p ∈ ptrs, p ≤ top := by
  intro p hp
  obtain ⟨i, hi, rfl⟩ := mem_iff_getElem.mp hp
  obtain ⟨-, hle⟩ := h.inside _ (hsub (mem_stringBlocks (hlen ▸ hi) hi))
  omega

/-! ## Words -/

def WordsAt (m : Ram) (a : ℕ) (ws : List ℕ) : Prop :=
  ∀ i (h : i < ws.length), load m (a + 8 * i) 8 = ws[i]

lemma length_wordBytes (ws) : (wordBytes ws).length = ws.length * 8 := by
  simp [wordBytes, length_flatMap]

lemma getElem?_wordBytes (ws) (i j : ℕ) (hi : i < ws.length) (hj : j < 8) :
    (wordBytes ws)[8 * i + j]? = some (BitVec.ofNat 8 (ws[i] / 256 ^ j)) := by
  induction ws generalizing i with
  | nil => cases hi
  | cons w ws ih =>
    have hcons : wordBytes (w :: ws) =
        (List.range 8).map (fun i => BitVec.ofNat 8 (w / 256 ^ i)) ++ wordBytes ws := rfl
    rw [hcons]
    cases i with
    | zero =>
      rw [getElem?_append_left (by simpa using hj)]
      simp [hj]
    | succ i =>
      rw [getElem?_append_right (by simp; omega)]
      have hidx : 8 * (i + 1) + j - ((List.range 8).map
          fun i => BitVec.ofNat 8 (w / 256 ^ i)).length = 8 * i + j := by
        simp
        omega
      rw [hidx, ih i (by simpa using hi)]
      rfl

lemma wordsAt_wordBytes (hsmall : ∀ w ∈ ws, w < 2 ^ 64)
    (h : ∀ i (h : i < (wordBytes ws).length), m (a + i) = (wordBytes ws)[i]) : WordsAt m a ws := by
  intro i hi
  have hlen := length_wordBytes ws
  have hload : load m (a + 8 * i) 8 = ws[i] % 256 ^ 8 := by
    refine load_of_bytes fun j hj => ?_
    have hbyte := h (8 * i + j) (by omega)
    rw [← Nat.add_assoc] at hbyte
    rw [hbyte, ← some.injEq, ← getElem?_eq_getElem, getElem?_wordBytes ws i j hi hj]
  rw [hload]
  exact Nat.mod_eq_of_lt (hsmall _ (getElem_mem hi))

lemma WordsAt.append {ws' : List ℕ} (h : WordsAt m a (ws ++ ws')) :
    WordsAt m a ws ∧ WordsAt m (a + 8 * ws.length) ws' := by
  refine ⟨fun i hi => ?_, fun i hi => ?_⟩
  · rw [h i (by simp; omega), getElem_append_left hi]
  · have := h (ws.length + i) (by simp; omega)
    simpa [Nat.mul_add, Nat.add_assoc] using this

lemma WordsAt.head {w : ℕ} (h : WordsAt m a (w :: ws)) : load m a 8 = w :=
  h 0 (by simp)

lemma WordsAt.tail {w : ℕ} (h : WordsAt m a (w :: ws)) : WordsAt m (a + 8) ws := by
  have hone : WordsAt m a ([w] ++ ws) := h
  exact hone.append.2

lemma auxGet_eq {pairs : List (ℕ × ℕ)} (hwords : WordsAt m a (pairWords pairs ++ [0, 0]))
    (hzero : ∀ kv ∈ pairs, kv.1 ≠ 0) (key : ℕ) {fuel : ℕ} (hfuel : pairs.length < fuel) :
    auxGet m key fuel a = some ((pairs.lookup key).getD 0) := by
  induction pairs generalizing a fuel with
  | nil =>
    obtain ⟨fuel, rfl⟩ : ∃ n, fuel = n + 1 := ⟨fuel - 1, by simp at hfuel; omega⟩
    rw [auxGet, hwords.head, if_pos rfl]
    rfl
  | cons kv rest ih =>
    obtain ⟨fuel, rfl⟩ : ∃ n, fuel = n + 1 := ⟨fuel - 1, by simp at hfuel; omega⟩
    rw [auxGet, hwords.head, if_neg (hzero kv mem_cons_self)]
    by_cases hkey : kv.1 = key
    · rw [if_pos hkey, hwords.tail.head, ← hkey, lookup_cons_self]
      rfl
    · rw [if_neg hkey, lookup_cons, beq_false_of_ne (Ne.symm hkey)]
      exact ih hwords.tail.tail (fun kv h => hzero kv (mem_cons_of_mem _ h)) (by simpa using hfuel)

/-! ## The round trip -/

variable {stackTop : ℕ} {argv : List CString} {info : AuxInfo} {execfn : Option CString}

def wordCount (argc : ℕ) (info : AuxInfo) (named : Bool) : ℕ :=
  25 + argc + (if info.phdrAddr ≠ 0#64 then 2 else 0) + (if info.interpBase ≠ 0#64 then 2 else 0) +
    (if named then 2 else 0)

/-- Nothing is put below address 0. -/
def StackFits (stackTop : ℕ) (argv : List CString) (info : AuxInfo) (execfn : Option CString) :
    Prop :=
  let strings := stringRoom (argv.take 8) + stringRoom execfn.toList
  strings + 16 ≤ alignDown16 stackTop ∧
    wordCount (argv.take 8).length info execfn.isSome * 8 ≤
      alignDown16 (alignDown16 stackTop - strings - 16)

lemma length_stackWords (ptrs : List ℕ) (info) (atRandom name : ℕ) :
    (stackWords ptrs (auxPairs info atRandom name)).length =
      wordCount ptrs.length info (decide (name ≠ 0)) := by
  simp only [stackWords, pairWords, auxPairs, wordCount, length_append, length_flatMap]
  split_ifs <;> simp_all <;> omega

/-- What a program is told under each key of the auxiliary vector. -/
def auxValue (info : AuxInfo) (atRandom name : ℕ) : ℕ → ℕ
  | 3 => info.phdrAddr.toNat
  | 4 => info.phentsize.toNat
  | 5 => info.phnum.toNat
  | 6 => 4096
  | 7 => info.interpBase.toNat
  | 9 => if info.mainEntry = 0#64 then info.entry.toNat else info.mainEntry.toNat
  | 25 => atRandom
  | 31 => name
  | _ => 0

lemma auxPairs_keys (info) (atRandom name : ℕ) :
    (∀ kv ∈ auxPairs info atRandom name, kv.1 ≠ 0) ∧
      (auxPairs info atRandom name).length ≤ 13 := by
  unfold auxPairs
  split_ifs <;> simp

lemma lookup_auxPairs (info) (atRandom name key : ℕ) :
    ((auxPairs info atRandom name).lookup key).getD 0 = auxValue info atRandom name key := by
  have hcons (k v : ℕ) (rest : List (ℕ × ℕ)) :
      (((k, v) :: rest).lookup key).getD 0 = if key = k then v else (rest.lookup key).getD 0 := by
    by_cases hkey : key = k
    · rw [if_pos hkey, hkey, lookup_cons_self, getD_some]
    · rw [if_neg hkey, lookup_cons, beq_false_of_ne hkey]
  have hif (p : Prop) [Decidable p] (k v : ℕ) (rest : List (ℕ × ℕ)) :
      (((if p then [(k, v)] else []) ++ rest).lookup key).getD 0 =
        if p ∧ key = k then v else (rest.lookup key).getD 0 := by
    by_cases hp : p <;> simp [hp, hcons]
  rw [auxPairs, ← append_nil (if name ≠ 0 then _ else _)]
  simp only [append_assoc, cons_append, nil_append, hcons, hif]
  -- a key that is left out is read as zero, which is then its value
  clear hcons hif
  generalize hvalue : auxValue info atRandom name key = value
  unfold auxValue at hvalue
  split at hvalue <;> subst hvalue
  case h_1 | h_5 | h_8 => simp +contextual
  case h_6 => by_cases hmain : info.mainEntry = 0#64 <;> simp [hmain]
  all_goals simp_all

lemma auxPairs_small {atRandom : ℕ} (hr : atRandom < 2 ^ 64) (hn : name < 2 ^ 64) :
    ∀ w ∈ pairWords (auxPairs info atRandom name), w < 2 ^ 64 := by
  have hwide (w : BitVec 64) : w.toNat < 2 ^ 64 := w.isLt
  have hnarrow (w : BitVec 16) : w.toNat < 2 ^ 64 := w.isLt.trans (by norm_num)
  have hall : (auxPairs info atRandom name).all
      (fun kv => decide (kv.1 < 2 ^ 64) && decide (kv.2 < 2 ^ 64)) = true := by
    unfold auxPairs
    split_ifs <;> simp_all
  intro w hw
  obtain ⟨kv, hkv, hw⟩ := mem_flatMap.mp hw
  have hsmall := all_eq_true.mp hall kv hkv
  simp only [Bool.and_eq_true, decide_eq_true_eq] at hsmall
  rcases mem_pair.mp hw with rfl | rfl
  · exact hsmall.1
  · exact hsmall.2

lemma stackWords_small {ptrs : List ℕ} {atRandom : ℕ} (hptrs : ∀ p ∈ ptrs, p < 2 ^ 64)
    (hlen : ptrs.length < 2 ^ 64) (hr : atRandom < 2 ^ 64) (hn : name < 2 ^ 64) :
    ∀ w ∈ stackWords ptrs (auxPairs info atRandom name), w < 2 ^ 64 := by
  intro w hw
  simp only [stackWords, mem_append, mem_cons, not_mem_nil, or_false] at hw
  rcases hw with (((rfl | hw) | rfl | rfl) | hw) | rfl | rfl
  · exact hlen
  · exact hptrs w hw
  · norm_num
  · norm_num
  · exact auxPairs_small hr hn w hw
  · norm_num
  · norm_num

/-- The stack that a program finds: the pointers to its arguments and to its name, and the
address of the random bytes. -/
structure InitialStack (m m' : Ram) (stackTop sp : ℕ) (args : List CString)
    (info : AuxInfo) (execfn : Option CString) (ptrs : List ℕ) (name atRandom : ℕ) : Prop where
  aligned : sp % 16 = 0
  length : ptrs.length = args.length
  unnamed : execfn = none → name = 0
  words : WordsAt m' sp (stackWords ptrs (auxPairs info atRandom name))
  blocks : Stacked m m' stackTop sp
    ((sp, wordBytes (stackWords ptrs (auxPairs info atRandom name))) :: (atRandom, randomBytes) ::
      (execfn.toList.map (fun s => (name, s ++ [0#8])) ++ stringBlocks ptrs args))

lemma stringBlocks_name {names : List ℕ} (hlen : names.length = execfn.toList.length) :
    stringBlocks names execfn.toList =
      execfn.toList.map fun s => (names.headD 0, s ++ [0#8]) := by
  cases execfn with
  | none => cases names <;> rfl
  | some name =>
    obtain ⟨p, rfl⟩ := length_eq_one_iff.mp hlen
    rfl

lemma setupUserStack_spec (m) (htop : stackTop < 2 ^ 64)
    (hfit : StackFits stackTop argv info execfn) :
    ∃ ptrs name atRandom,
      InitialStack m (setupUserStack stackTop argv info execfn m).2 stackTop
        (setupUserStack stackTop argv info execfn m).1 (argv.take 8) info execfn
        ptrs name atRandom := by
  obtain ⟨hstrings, hwords⟩ := hfit
  have halign (x : ℕ) : alignDown16 x ≤ x ∧ x < alignDown16 x + 16 ∧ alignDown16 x % 16 = 0 := by
    unfold alignDown16
    omega
  have hstart : Stacked m m stackTop (alignDown16 stackTop) [] :=
    ⟨List.Pairwise.nil, by simp, by simp, fun _ _ => rfl, (halign _).1⟩
  obtain ⟨ptrs, m₁, hargs, hlen, hs₁⟩ := pushArgs_stacked (argv.take 8) hstart (by omega)
  rw [append_nil] at hs₁
  obtain ⟨names, m₂, hname, hlen', hs₂⟩ := pushArgs_stacked execfn.toList hs₁ (by omega)
  set sp₂ := alignDown16 stackTop - stringRoom (argv.take 8) - stringRoom execfn.toList with hsp₂
  set atRandom := alignDown16 (sp₂ - 16) with hrandom
  have hs₃ : Stacked m (putBytes m₂ atRandom randomBytes) stackTop atRandom _ :=
    hs₂.push (by
      have := (halign (sp₂ - 16)).1
      simp only [randomBytes, length_map, length_range]
      omega)
  -- the name is at the bottom of the strings, so its address is not zero
  have hnamed : decide (names.headD 0 ≠ 0) = execfn.isSome := by
    cases execfn with
    | none =>
      obtain rfl := eq_nil_of_length_eq_zero hlen'
      rfl
    | some name =>
      have hfirst : names.headD 0 = sp₂ := by
        obtain ⟨hnames, hrest⟩ := Prod.mk.inj hname
        rw [← hnames]
        exact (Prod.mk.inj hrest).1
      simp only [hfirst, isSome_some, decide_eq_true_eq]
      omega
  set ws := stackWords ptrs (auxPairs info atRandom (names.headD 0)) with hws
  have hcount : ws.length * 8 ≤ atRandom := by
    rw [← Nat.sub_sub] at hwords
    rw [hws, length_stackWords, hlen, hnamed]
    exact hwords
  have hresult : setupUserStack stackTop argv info execfn m =
      (alignDown16 (atRandom - ws.length * 8),
        putBytes (putBytes m₂ atRandom randomBytes) (alignDown16 (atRandom - ws.length * 8))
          (wordBytes ws)) := by
    simp only [setupUserStack, pushName_eq, hargs, hname]
    rfl
  have hroom : alignDown16 (atRandom - ws.length * 8) + (wordBytes ws).length ≤ atRandom := by
    have := (halign (atRandom - ws.length * 8)).1
    rw [length_wordBytes]
    omega
  have hs₄ := hs₃.push hroom
  rw [hresult]
  refine ⟨ptrs, names.headD 0, atRandom, (halign _).2.2, hlen, fun hnone => ?_, ?_,
    stringBlocks_name hlen' ▸ hs₄⟩
  · rw [hnone, isSome_none, decide_eq_false_iff_not, not_not] at hnamed
    exact hnamed
  have hptrs := hs₂.pointer_le (subset_append_right _ _) hlen
  have hhead : names.headD 0 < 2 ^ 64 := by
    cases names with
    | nil => simp
    | cons p rest =>
      exact (hs₂.pointer_le (subset_append_left _ _) hlen' p mem_cons_self).trans_lt htop
  have hargc : ptrs.length < 2 ^ 64 := by
    have := length_take_le 8 argv
    omega
  exact wordsAt_wordBytes (stackWords_small (fun p hp => (hptrs p hp).trans_lt htop) hargc
    (hs₃.le.trans_lt htop) hhead) (hs₄.content _ mem_cons_self)

section Decoding

variable {args : List CString} {ptrs : List ℕ} {atRandom : ℕ}

lemma stackWords_eq (ptrs : List ℕ) (pairs : List (ℕ × ℕ)) :
    stackWords ptrs pairs = ptrs.length :: (ptrs ++ 0 :: 0 :: (pairWords pairs ++ [0, 0])) := by
  simp [stackWords]

lemma InitialStack.holdsArgs
    (h : InitialStack m m' stackTop sp args info execfn ptrs name atRandom)
    (hargs : ∀ s ∈ args, 0#8 ∉ s) : HoldsArgs m' sp args := by
  have hwords := h.words
  rw [stackWords_eq] at hwords
  refine ⟨hwords.head.trans h.length, fun i hi => ?_⟩
  have hi' : i < ptrs.length := h.length ▸ hi
  rw [hwords.tail.append.1 i hi']
  refine h.blocks.cstringAt (fun b hb => ?_) hargs hi hi'
  exact mem_cons_of_mem _ (mem_cons_of_mem _ (mem_append_right _ hb))

lemma InitialStack.decodes
    (h : InitialStack m m' stackTop sp args info execfn ptrs name atRandom) :
    (∀ fuel, 0 < fuel → findAux m' fuel sp = some (sp + 8 * (ptrs.length + 3))) ∧
      ∀ key fuel, 13 < fuel → auxGet m' key fuel (sp + 8 * (ptrs.length + 3)) =
        some (auxValue info atRandom name key) := by
  have hwords := h.words
  rw [stackWords_eq] at hwords
  have hrest := hwords.tail.append.2.tail
  have haddr : sp + 8 + 8 * ptrs.length + 8 = sp + 8 + 8 * (ptrs.length + 1) := by omega
  rw [haddr] at hrest
  have hnext : sp + 8 + 8 * (ptrs.length + 1) + 8 = sp + 8 * (ptrs.length + 3) := by omega
  refine ⟨fun fuel hfuel => ?_, fun key fuel hfuel => ?_⟩
  · obtain ⟨fuel, rfl⟩ : ∃ n, fuel = n + 1 := ⟨fuel - 1, by omega⟩
    rw [findAux, hwords.head, skipEnv, hrest.head, if_pos rfl, hnext]
  · obtain ⟨hzero, hlen⟩ := auxPairs_keys info atRandom name
    have haux := hrest.tail
    rw [hnext] at haux
    rw [auxGet_eq haux hzero key (by omega), lookup_auxPairs]

lemma InitialStack.named {s : CString} (hs : 0#8 ∉ s)
    (h : InitialStack m m' stackTop sp args info (some s) ptrs name atRandom) :
    CStringAt m' name s :=
  ⟨hs, h.blocks.content (name, s ++ [0#8]) (by simp)⟩

end Decoding

/-- What `ld_helix_main` reads is what `setup_user_stack` was given, under each key the value that
belongs to it; the blocks lie below the top of the stack and below each other, and nothing else
changes. -/
theorem initial_stack_round_trip (m : Ram) (hlen : argv.length ≤ 8)
    (hargs : ∀ s ∈ argv, 0#8 ∉ s) (hname : ∀ s ∈ execfn, 0#8 ∉ s) (htop : stackTop < 2 ^ 64)
    (hfit : StackFits stackTop argv info execfn) :
    let r := setupUserStack stackTop argv info execfn m
    r.1 % 16 = 0 ∧ HoldsArgs r.2 r.1 argv ∧
      ∃ aux ptrs name atRandom,
        (∀ fuel, 0 < fuel → findAux r.2 fuel r.1 = some aux) ∧
        (∀ key fuel, 13 < fuel →
          auxGet r.2 key fuel aux = some (auxValue info atRandom name key)) ∧
        (execfn = none → name = 0) ∧ (∀ s ∈ execfn, CStringAt r.2 name s) ∧
        Stacked m r.2 stackTop r.1
          ((r.1, wordBytes (stackWords ptrs (auxPairs info atRandom name))) ::
            (atRandom, randomBytes) ::
              (execfn.toList.map (fun s => (name, s ++ [0#8])) ++ stringBlocks ptrs argv)) := by
  obtain ⟨ptrs, name, atRandom, h⟩ := setupUserStack_spec m htop hfit
  rw [take_of_length_le hlen] at h
  refine ⟨h.aligned, h.holdsArgs hargs, _, ptrs, name, atRandom, h.decodes.1, h.decodes.2,
    h.unnamed, ?_, h.blocks⟩
  rintro s ⟨⟩
  exact h.named (hname s rfl)

theorem initial_stack_of_echo :
    let args : List CString := [[101#8, 99#8, 104#8, 111#8], [104#8, 105#8]]
    let info : AuxInfo := ⟨0x400000#64, 0#64, 3#16, 56#16, 0x50000000#64, 0x401000#64⟩
    let r := setupUserStack 0x10000 args info (args.head?) fun _ => 0#8
    HoldsArgs r.2 r.1 args ∧ ∃ aux, findAux r.2 1 r.1 = some aux ∧
      auxGet r.2 7 14 aux = some 0x50000000 ∧ auxGet r.2 9 14 aux = some 0x401000 := by
  intro args info r
  obtain ⟨-, hargs, aux, _, _, _, hfind, hget, -⟩ :=
    @initial_stack_round_trip 0x10000 args info args.head? (fun _ => 0#8) (by decide) (by decide)
      (by decide) (by norm_num) ⟨by decide, by decide⟩
  exact ⟨hargs, aux, hfind 1 (by decide), hget 7 14 (by decide), hget 9 14 (by decide)⟩

end HelixOS
