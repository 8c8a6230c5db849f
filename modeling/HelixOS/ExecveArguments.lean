import HelixOS.InitialStacks
import HelixOS.MemorySyscalls

/-!
# The arguments of `execve`

`sys_execve` copies the caller's strings into kernel memory before it changes the address
space.  The resolved path becomes the first argument and the caller's `argv[0]` the second
one; `setup_user_stack` takes at most eight of them.
-/

namespace HelixOS

open ByteMemory List

/-! ## The copy loop -/

def copyString (m : Ram) : ℕ → ℕ → CString
  | 0, _ => []
  | n + 1, p => if m p = 0#8 then [] else m p :: copyString m n (p + 1)

/-- `n` rounds of the loop from the round `i` on; `granted i` says that `kmalloc` has a block
for the copy of the round. -/
def copyArgv (m : Ram) (uargv : ℕ) (granted : ℕ → Bool) : ℕ → ℕ → List CString
  | 0, _ => []
  | n + 1, i =>
    let p := load m (uargv + 8 * (i - 1)) 8
    if p = 0 then []
    else if userPtrOk (BitVec.ofNat 64 p) 1#64 = false then []
    else if granted i = false then []
    else copyString m 127 p :: copyArgv m uargv granted n (i + 1)

/-- The array `argv` of `sys_execve`, for the resolved path and the memory of the caller. -/
def execArgv (path : CString) (m : Ram) (uargv : ℕ) (granted : ℕ → Bool) : List CString :=
  path :: if uargv ≠ 0 then copyArgv m uargv granted 14 1 else []

/-! ## What the program finds -/

/-- An array of pointers to the strings `strings`, with a null pointer at its end. -/
structure UserArgv (m : Ram) (uargv : ℕ) (strings : List CString) : Prop where
  nonzero : uargv ≠ 0
  string : ∀ i (h : i < strings.length), CStringAt m (load m (uargv + 8 * i) 8) strings[i]
  valid : ∀ i < strings.length, load m (uargv + 8 * i) 8 ≠ 0 ∧
    userPtrOk (BitVec.ofNat 64 (load m (uargv + 8 * i) 8)) 1#64 = true
  short : ∀ s ∈ strings, s.length < 127
  last : load m (uargv + 8 * strings.length) 8 = 0

def copies (granted : ℕ → Bool) : ℕ → ℕ → ℕ
  | 0, _ => 0
  | n + 1, i => if granted i then copies granted n (i + 1) + 1 else 0

variable {m : Ram} {p uargv : ℕ} {s : CString} {strings : List CString} {granted : ℕ → Bool}

lemma CStringAt.tail {b : BitVec 8} (h : CStringAt m p (b :: s)) :
    m p = b ∧ b ≠ 0#8 ∧ CStringAt m (p + 1) s := by
  obtain ⟨hzero, hbytes⟩ := h
  rw [mem_cons, not_or] at hzero
  refine ⟨hbytes 0 (by simp), Ne.symm hzero.1, hzero.2, fun i hi => ?_⟩
  have := hbytes (i + 1) (by simpa using hi)
  rw [Nat.add_assoc, Nat.add_comm 1 i, this]
  rfl

lemma copyString_eq (h : CStringAt m p s) {n : ℕ} (hn : s.length < n) : copyString m n p = s := by
  induction s generalizing n p with
  | nil =>
    obtain ⟨n, rfl⟩ : ∃ k, n = k + 1 := ⟨n - 1, by simp at hn; omega⟩
    rw [copyString, if_pos]
    exact h.2 0 (by simp)
  | cons b s ih =>
    obtain ⟨n, rfl⟩ : ∃ k, n = k + 1 := ⟨n - 1, by simp at hn; omega⟩
    obtain ⟨hb, hne, htail⟩ := h.tail
    rw [copyString, hb, if_neg hne, ih htail (by simpa using hn)]

lemma CStringAt.unique {s' : CString} (h : CStringAt m p s) (h' : CStringAt m p s') : s = s' := by
  rw [← copyString_eq h (show s.length < max s.length s'.length + 1 by omega),
    copyString_eq h' (by omega)]

lemma HoldsArgs.unique {sp : ℕ} {args args' : List CString} (h : HoldsArgs m sp args)
    (h' : HoldsArgs m sp args') : args = args' := by
  refine ext_getElem (h.1.symm.trans h'.1) fun i hi hi' => ?_
  exact (h.2 i hi).unique (h'.2 i hi')

lemma copyArgv_eq (hu : UserArgv m uargv strings) (k n : ℕ) (hk : k ≤ strings.length)
    (hn : strings.length < k + n) : copyArgv m uargv granted n (k + 1) =
      (strings.drop k).take (copies granted (strings.length - k) (k + 1)) := by
  induction n generalizing k with
  | zero => omega
  | succ n ih =>
    rw [copyArgv, Nat.add_sub_cancel]
    rcases hk.lt_or_eq with hlt | rfl
    · obtain ⟨hne, hok⟩ := hu.valid k hlt
      have hcount : strings.length - k = strings.length - (k + 1) + 1 := by omega
      rw [if_neg hne, hok, if_neg (by simp), hcount, copies, drop_eq_getElem_cons hlt]
      cases hg : granted (k + 1) with
      | false => rfl
      | true =>
        rw [copyString_eq (hu.string k hlt) (hu.short _ (getElem_mem hlt)),
          ih (k + 1) hlt (by omega), if_neg (by simp), if_pos rfl, take_succ_cons]
    · rw [hu.last, if_pos rfl, drop_length, take_nil]

lemma execArgv_eq (hu : UserArgv m uargv strings) (hlen : strings.length ≤ 8) (path : CString)
    (granted : ℕ → Bool) :
    execArgv path m uargv granted = path :: strings.take (copies granted strings.length 1) := by
  rw [execArgv, if_pos hu.nonzero, copyArgv_eq hu 0 14 (Nat.zero_le _) (by omega), drop_zero,
    Nat.sub_zero]

lemma copies_le (granted : ℕ → Bool) (n i : ℕ) : copies granted n i ≤ n := by
  induction n generalizing i with
  | zero => exact le_rfl
  | succ n ih =>
    rw [copies]
    split_ifs
    · exact Nat.succ_le_succ (ih (i + 1))
    · exact Nat.zero_le _

lemma tail_eq_take_iff {α : Type*} (l : List α) :
    l.tail = l.take (l.length - 1) ↔ ∀ a ∈ l, ∀ b ∈ l, a = b := by
  constructor
  · intro heq
    have hfirst (i : ℕ) (hi : i < l.length) : l[i]? = l[0]? := by
      induction i with
      | zero => rfl
      | succ i ih =>
        rw [← ih (by omega), ← getElem?_tail, heq, getElem?_take_of_lt (by omega)]
    intro a ha b hb
    obtain ⟨i, hi, rfl⟩ := mem_iff_getElem.mp ha
    obtain ⟨j, hj, rfl⟩ := mem_iff_getElem.mp hb
    have := (hfirst i hi).trans (hfirst j hj).symm
    rwa [getElem?_eq_getElem hi, getElem?_eq_getElem hj, Option.some.injEq] at this
  · intro hall
    refine ext_getElem (by simp) fun i hi hi' => ?_
    exact hall _ (mem_of_mem_tail (getElem_mem hi)) _ (mem_of_mem_take (getElem_mem hi'))

/-- The stack holds the caller's arguments with the path in place of the first exactly if all
the strings are equal and the last of them is not copied or not taken. -/
theorem execve_arguments_iff {m₀ : Ram} {path : CString} {stackTop : ℕ} {info : AuxInfo}
    (hu : UserArgv m uargv strings) (hpos : 1 ≤ strings.length) (hlen : strings.length ≤ 8)
    (hpath : 0#8 ∉ path) (htop : stackTop < 2 ^ 64)
    (hfit : StackFits stackTop (execArgv path m uargv granted) info (some path)) :
    HoldsArgs (setupUserStack stackTop (execArgv path m uargv granted) info (some path) m₀).2
        (setupUserStack stackTop (execArgv path m uargv granted) info (some path) m₀).1
        (path :: strings.tail) ↔
      min (copies granted strings.length 1 + 1) 8 = strings.length ∧
        ∀ s ∈ strings, ∀ s' ∈ strings, s = s' := by
  have hargv := execArgv_eq hu hlen path granted
  have hstrings : ∀ s ∈ execArgv path m uargv granted, 0#8 ∉ s := by
    rw [hargv]
    refine forall_mem_cons.mpr ⟨hpath, fun s hs => ?_⟩
    obtain ⟨i, hi, rfl⟩ := mem_iff_getElem.mp (mem_of_mem_take hs)
    exact (hu.string i hi).1
  obtain ⟨ptrs, names, atRandom, h⟩ := setupUserStack_spec m₀ htop hfit
  have hholds := h.holdsArgs fun s hs => hstrings s (mem_of_mem_take hs)
  have htaken : (execArgv path m uargv granted).take 8 =
      path :: strings.take (min 7 (copies granted strings.length 1)) := by
    rw [hargv, take_succ_cons, take_take]
  rw [htaken] at hholds
  have hle := copies_le granted strings.length 1
  rw [← tail_eq_take_iff]
  constructor
  · intro hclaim
    have htail := (List.cons.inj (hclaim.unique hholds)).2
    have hcount := congrArg List.length htail
    rw [length_tail, length_take] at hcount
    have hmin : min 7 (copies granted strings.length 1) = strings.length - 1 := by omega
    rw [hmin] at htail
    exact ⟨by omega, htail⟩
  · rintro ⟨hcount, htail⟩
    have hmin : min 7 (copies granted strings.length 1) = strings.length - 1 := by omega
    rwa [htail, ← hmin]

def shellMemory : Ram :=
  putBytes (putBytes (putBytes (fun _ => 0#8) 0x40000000 (wordBytes [0x40000100, 0x40000200]))
    0x40000100 [115#8, 104#8]) 0x40000200 [120#8]

def shellInfo : AuxInfo := ⟨0x400000#64, 0#64, 3#16, 56#16, 0#64, 0#64⟩

def shellPath : CString := [47#8, 115#8, 104#8]

lemma shellMemory_strings :
    CStringAt shellMemory (load shellMemory 0x40000000 8) [115#8, 104#8] ∧
      CStringAt shellMemory (load shellMemory 0x40000008 8) [120#8] :=
  ⟨⟨by decide, by decide +kernel⟩, ⟨by decide, by decide +kernel⟩⟩

/-- Two pointers to the same string. -/
def twiceMemory : Ram :=
  putBytes (putBytes (fun _ => 0#8) 0x40000000 (wordBytes [0x40000200, 0x40000200]))
    0x40000200 [120#8]

theorem execve_keeps_equal_arguments :
    HoldsArgs
      (setupUserStack 0x10000 (execArgv shellPath twiceMemory 0x40000000 (· == 1)) shellInfo
        (some shellPath) fun _ => 0#8).2
      (setupUserStack 0x10000 (execArgv shellPath twiceMemory 0x40000000 (· == 1)) shellInfo
        (some shellPath) fun _ => 0#8).1 [shellPath, [120#8]] := by
  have hstrings : CStringAt twiceMemory (load twiceMemory 0x40000000 8) [120#8] ∧
      CStringAt twiceMemory (load twiceMemory 0x40000008 8) [120#8] :=
    ⟨⟨by decide, by decide +kernel⟩, ⟨by decide, by decide +kernel⟩⟩
  have hu : UserArgv twiceMemory 0x40000000 [[120#8], [120#8]] := by
    refine ⟨by decide, fun i hi => ?_, fun i hi => ?_, by decide, by decide +kernel⟩ <;>
      obtain rfl | rfl : i = 0 ∨ i = 1 := by simp at hi; omega
    · exact hstrings.1
    · exact hstrings.2
    · decide +kernel
    · decide +kernel
  refine (execve_arguments_iff hu (by decide) (by decide) (by decide) (by norm_num) ?_).mpr
    ⟨rfl, by decide⟩
  exact ⟨by decide +kernel, by decide +kernel⟩

/-- `sh x` gets three arguments: the path, `sh` and `x`. -/
theorem execve_shifts_arguments :
    UserArgv shellMemory 0x40000000 [[115#8, 104#8], [120#8]] ∧
      load (setupUserStack 0x10000 (execArgv shellPath shellMemory 0x40000000 fun _ => true)
          shellInfo (some shellPath) fun _ => 0#8).2
        (setupUserStack 0x10000 (execArgv shellPath shellMemory 0x40000000 fun _ => true)
          shellInfo (some shellPath) fun _ => 0#8).1 8 = 3 ∧
      execArgv shellPath shellMemory 0x40000000 (fun _ => true) =
        [shellPath, [115#8, 104#8], [120#8]] := by
  refine ⟨⟨by decide, fun i hi => ?_, fun i hi => ?_, by decide, by decide +kernel⟩,
    by decide +kernel, by decide +kernel⟩
  · obtain rfl | rfl : i = 0 ∨ i = 1 := by
      simp at hi
      omega
    · exact shellMemory_strings.1
    · exact shellMemory_strings.2
  · obtain rfl | rfl : i = 0 ∨ i = 1 := by
      simp at hi
      omega
    · decide +kernel
    · decide +kernel

end HelixOS
