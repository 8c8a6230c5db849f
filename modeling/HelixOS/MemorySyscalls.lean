import HelixOS.PagingOperations

/-!
# The memory system calls

`sys_brk`, `sys_mmap` and `sys_munmap` of `syscall.c` with the framebuffer mapping of
`fb.c`, for a calling task whose page table is loaded.  The three bump pointers are
function-local statics of `sys_mmap`: they are shared by all tasks and never reset.
-/

namespace HelixOS

/-! ## Layout of the user address space (`mm_layout.h`) -/

def userBase : Word := 0x40000000#64
def userStackTop : Word := 0x44000000#64
def userStackSize : Word := 0x40000#64
def userLowMin : Word := 0x400000#64
def userLowMax : Word := 0xA00000#64
def interpBase : Word := 0x50000000#64
def interpMax : Word := 0x51000000#64

def userPtrOk (ptr len : Word) : Bool :=
  if len ≠ 0#64 ∧ ptr + len < ptr then false
  else
    (ptr ≥ userBase && ptr < userStackTop && ptr + len ≤ userStackTop) ||
      (ptr ≥ 0x50000000#64 && ptr + len ≤ 0x51000000#64) ||
      (ptr ≥ userLowMin && ptr + len ≤ userLowMax) ||
      (ptr ≥ 0x3F000000#64 && ptr + len ≤ userBase)

inductive Errno where
  | enoent
  | esrch
  | enoexec
  | ebadf
  | echild
  | enomem
  | efault
  | einval
  | enospc
  | enosys
  | eopnotsupp
  deriving DecidableEq

def Errno.code : Errno → Word
  | .enoent => 2#64
  | .esrch => 3#64
  | .enoexec => 8#64
  | .ebadf => 9#64
  | .echild => 10#64
  | .enomem => 12#64
  | .efault => 14#64
  | .einval => 22#64
  | .enospc => 28#64
  | .enosys => 38#64
  | .eopnotsupp => 95#64

def err (e : Errno) : Word := -e.code

structure Framebuffer where
  phys : Word
  size : Word

structure MemState where
  machine : Machine
  brkStart : Word
  brkCurr : Word
  fbBump : Word
  anonBump : Word
  anonBump2 : Word

/-- A task before its first memory call, and the initial values of the bump pointers. -/
def MemState.initial (m : Machine) : MemState where
  machine := m
  brkStart := 0#64
  brkCurr := 0#64
  fbBump := userBase + 0x1000000#64
  anonBump := userBase + 0x2000000#64
  anonBump2 := userBase + 0x2800000#64

/-! ## The break -/

def brkCeiling (brkStart : Word) : Word :=
  if brkStart ≥ userBase then userStackTop - userStackSize else 0x3F000000#64

def MemState.initBrk (s : MemState) : MemState :=
  if s.brkStart = 0#64 then
    { s with brkStart := userBase + 0x100000#64, brkCurr := userBase + 0x100000#64 }
  else s

def sysBrk (s : MemState) (addr : Word) : Word × MemState :=
  let s := s.initBrk
  if addr = 0#64 then (s.brkCurr, s)
  else if addr < s.brkStart then (s.brkCurr, s)
  else if addr ≥ brkCeiling s.brkStart then (s.brkCurr, s)
  else
    let old := pageUp s.brkCurr
    let neu := pageUp addr
    let (ok, m) := forPages (fun m va => vmmAllocUserPages m va 1#64 true) neu
      (pagesBetween old neu) old s.machine
    if !ok then (s.brkCurr, { s with machine := m })
    else (addr, { s with machine := m, brkCurr := addr })

/-! ## Anonymous and framebuffer mappings -/

def mapFixed : Word := 0x10#64
def mapAnonymous : Word := 0x20#64

def fbFd : Word := 0xFFFFFFFFFFFFFFFC#64

def fbMapLoop : ℕ → Word → Word → Machine → Bool × Machine
  | 0, _, _, s => (true, s)
  | n + 1, va, phys, s =>
    match pagingMap4k s va phys (pteP ||| pteU ||| pteW) with
    | (false, s₁) => (false, s₁)
    | (true, s₁) => fbMapLoop n (va + 4096#64) (phys + 4096#64) s₁

def Framebuffer.pages (fb : Framebuffer) : ℕ := ((fb.size + 4096#64 - 1#64) / 4096#64).toNat

def fbMapUser (fb : Framebuffer) (s : Machine) (va : Word) : Bool × Machine :=
  if fb.phys = 0#64 ∨ fb.size = 0#64 then (false, s)
  else fbMapLoop fb.pages (pageDown va) fb.phys s

/-- The windows `sys_mmap` and `sys_munmap` accept for the range from `lo` to `hi`. -/
def okRange (lo hi : Word) : Bool :=
  (lo ≥ userBase && hi ≤ userStackTop) || (lo ≥ userLowMin && hi ≤ userLowMax) ||
    (lo ≥ 0x50000000#64 && hi ≤ 0x51000000#64) || (lo ≥ 0x400000#64 && hi ≤ 0x1000000#64)

inductive MmapTarget where
  | nothing (error : Errno)
  | framebuffer (va : Word)
  | anonymous (va npages : Word)

def bumpLimit : Word := userStackTop - userStackSize

/-- The part of `sys_mmap` that chooses the range and moves the bump pointers. -/
def mmapTarget (s : MemState) (addr len flags fd : Word) : MmapTarget × MemState :=
  if len = 0#64 then (.nothing .einval, s)
  else if fd = fbFd then
    if addr = 0#64 then
      let bump := s.fbBump + pageUp len
      (if bump ≥ bumpLimit then .nothing .enomem else .framebuffer s.fbBump,
        { s with fbBump := bump })
    else (.framebuffer (pageDown addr), s)
  else if !(hasFlag flags mapAnonymous || fd == 0xFFFFFFFFFFFFFFFF#64) then
    (.nothing .enosys, s)
  else
    let len := pageUp len
    let npages := len / 4096#64
    if addr = 0#64 ∧ hasFlag flags mapFixed = false then
      let bump := s.anonBump + len
      (if bump ≥ bumpLimit then .nothing .enomem else .anonymous s.anonBump npages,
        { s with anonBump := bump })
    else
      let va := pageDown addr
      if okRange va (va + len) then (.anonymous va npages, s)
      else if hasFlag flags mapFixed then (.nothing .einval, s)
      else if addr ≠ 0#64 then
        -- a hint outside the windows
        let bump := s.anonBump2 + len
        (if bump ≥ bumpLimit then .nothing .enomem else .anonymous s.anonBump2 npages,
          { s with anonBump2 := bump })
      else (.anonymous va npages, s)

def sysMmap (fb : Framebuffer) (s : MemState) (addr len _prot flags fd _off : Word) :
    Word × MemState :=
  match mmapTarget s addr len flags fd with
  | (.nothing e, s) => (err e, s)
  | (.framebuffer va, s) =>
    let (ok, m) := fbMapUser fb s.machine va
    (if ok then va else err .enomem, { s with machine := m })
  | (.anonymous va npages, s) =>
    let (ok, m) := vmmAllocUserPages s.machine va npages true
    (if ok then va else err .enomem, { s with machine := m })

def sysMunmap (s : MemState) (addr len : Word) : Word × MemState :=
  if len = 0#64 ∨ addr &&& 0xFFF#64 ≠ 0#64 then (err .einval, s)
  else
    let stop := addr + len
    if stop < addr then (err .einval, s)
    else if !okRange addr stop then (err .einval, s)
    else (0#64, { s with machine := vmmUnmapUserRange s.machine addr (stop - addr) })

end HelixOS
