import HelixOS.RingBuffer
import HelixOS.TableSizes
import HelixOS.TrackedRuns

/-!
# Keyboard and mouse

The interrupt handlers of `ps2.c` turn the bytes of the two devices into characters and mouse
events, which wait in a ring until they are read.
-/

namespace HelixOS.Ps2

open TrackedRuns

abbrev Byte := BitVec 8

/-! ## The keyboard -/

structure Keyboard where
  ring : GapRing Byte 256
  shift : Bool
  e0Pending : Bool

/-- The rows from `0x40` on of both tables; what is missing is unmapped. -/
def keypadRows : List ℕ := List.replicate 34 0 ++ [45, 0, 53, 0, 43]

def gSc1 : List ℕ :=
  [0, 27, 49, 50, 51, 52, 53, 54, 55, 56, 57, 48, 45, 61, 8, 9,
    113, 119, 101, 114, 116, 121, 117, 105, 111, 112, 91, 93, 13, 0, 0, 0,
    97, 115, 100, 102, 103, 104, 106, 107, 108, 59, 39, 96, 0, 92, 0, 0,
    122, 120, 99, 118, 98, 110, 109, 44, 46, 47, 0, 42, 0, 32, 0, 0] ++ keypadRows

def gSc1Sh : List ℕ :=
  [0, 27, 33, 64, 35, 36, 37, 94, 38, 42, 40, 41, 95, 43, 8, 9,
    81, 87, 69, 82, 84, 89, 85, 73, 79, 80, 123, 125, 13, 0, 0, 0,
    65, 83, 68, 70, 71, 72, 74, 75, 76, 58, 34, 126, 0, 124, 0, 0,
    90, 88, 67, 86, 66, 78, 77, 60, 62, 63, 0, 42, 0, 32, 0, 0] ++ keypadRows

/-- The character of a plain make code, `0` if it has none. -/
def character (shift : Bool) (sc : Byte) : Byte :=
  BitVec.ofNat 8 ((if shift then gSc1Sh else gSc1).getD sc.toNat 0)

def ps2Handler (k : Keyboard) (sc : Byte) : Keyboard :=
  if sc = 0x2A#8 ∨ sc = 0x36#8 then { k with shift := true }
  else if sc = 0xAA#8 ∨ sc = 0xB6#8 then { k with shift := false }
  else if sc = 0xE0#8 then { k with e0Pending := true }
  else if k.e0Pending then
    let final : Byte :=
      if sc = 0x48#8 then 0x41#8 else if sc = 0x50#8 then 0x42#8
      else if sc = 0x4B#8 then 0x44#8 else if sc = 0x4D#8 then 0x43#8 else 0#8
    if final ≠ 0#8 then
      { k with e0Pending := false, ring := ((k.ring.put 0x1B#8).put 0x5B#8).put final }
    else { k with e0Pending := false }
  else if sc &&& 0x80#8 ≠ 0#8 ∨ 0x80#8 ≤ sc then k
  else if character k.shift sc ≠ 0#8 then { k with ring := k.ring.put (character k.shift sc) }
  else k

def ps2Read (k : Keyboard) (len : ℕ) : List Byte × Keyboard :=
  ((k.ring.take len).1, { k with ring := (k.ring.take len).2 })

inductive KeyEvent where
  | scancode (sc : Byte)
  | read (len : ℕ)

def Keyboard.step (k : Keyboard) : KeyEvent → Option Keyboard
  | .scancode sc => some (ps2Handler k sc)
  | .read len => some (ps2Read k len).2

def Keyboard.init (buf : Fin 256 → Byte) : Keyboard := ⟨⟨buf, 0, 0⟩, false, false⟩

/-! ### The reference decoder -/

/-- The decoder with all the bytes it has typed; `extended` applies to the next scancode. -/
structure Decoder where
  shift : Bool
  extended : Bool
  typed : List Byte

def escapeSequence (sc : Byte) : List Byte :=
  if sc = 0x48#8 then [0x1B#8, 0x5B#8, 0x41#8]
  else if sc = 0x50#8 then [0x1B#8, 0x5B#8, 0x42#8]
  else if sc = 0x4D#8 then [0x1B#8, 0x5B#8, 0x43#8]
  else if sc = 0x4B#8 then [0x1B#8, 0x5B#8, 0x44#8]
  else []

def Decoder.press (d : Decoder) (sc : Byte) : Decoder :=
  if d.extended then { d with extended := false, typed := d.typed ++ escapeSequence sc }
  else if sc = 0xE0#8 then { d with extended := true }
  else if sc = 0x2A#8 ∨ sc = 0x36#8 then { d with shift := true }
  else if sc = 0xAA#8 ∨ sc = 0xB6#8 then { d with shift := false }
  else if sc < 0x80#8 ∧ character d.shift sc ≠ 0#8 then
    { d with typed := d.typed ++ [character d.shift sc] }
  else d

structure Typing where
  decoder : Decoder
  returned : List Byte

def Typing.note (k : Keyboard) (e : KeyEvent) (_ : Keyboard) (h : Typing) : Typing :=
  match e with
  | .scancode sc => { h with decoder := h.decoder.press sc }
  | .read len => { h with returned := h.returned ++ (ps2Read k len).1 }

def Typing.start : Typing := ⟨⟨false, false, []⟩, []⟩

abbrev Keyboard.NeverFull (k : Keyboard) : KeyEvent → Prop
  | .scancode sc => ¬ (ps2Handler k sc).ring.Full
  | .read _ => True

/-- The codes that the handler looks for before it looks at the prefix do not follow one. -/
abbrev Keyboard.PlainPrefix (k : Keyboard) : KeyEvent → Prop
  | .scancode sc => k.e0Pending = true → sc ∉ [0x2A#8, 0x36#8, 0xAA#8, 0xB6#8, 0xE0#8]
  | .read _ => True

structure Keyboard.Decodes (k : Keyboard) (h : Typing) : Prop where
  shift : k.shift = h.decoder.shift
  prefixed : k.e0Pending = h.decoder.extended
  ring : h.returned ++ k.ring.values = h.decoder.typed

variable {k k' : Keyboard} {h : Typing} {e : KeyEvent}

lemma isBreak_iff (sc : Byte) : (sc &&& 0x80#8 ≠ 0#8 ∨ 0x80#8 ≤ sc) ↔ ¬ sc < 0x80#8 := by
  revert sc
  decide

/-- What the handler adds to the ring, and where the two decoders are afterwards. -/
theorem Keyboard.Decodes.press (hk : k.Decodes h) {sc : Byte}
    (hplain : k.PlainPrefix (.scancode sc)) :
    ∃ bytes, (ps2Handler k sc).ring = bytes.foldl GapRing.put k.ring ∧
      (h.decoder.press sc).typed = h.decoder.typed ++ bytes ∧
      (ps2Handler k sc).shift = (h.decoder.press sc).shift ∧
      (ps2Handler k sc).e0Pending = (h.decoder.press sc).extended := by
  have hpending := hk.prefixed
  cases hext : h.decoder.extended with
  | true =>
    rw [hext] at hpending
    have hcodes := hplain hpending
    simp only [List.mem_cons, List.not_mem_nil, or_false, not_or] at hcodes
    refine ⟨escapeSequence sc, ?_, ?_⟩
    · simp only [ps2Handler, escapeSequence, hcodes, hpending, or_self, if_false, if_true]
      split_ifs <;> simp_all
    · simp only [Decoder.press, ps2Handler, hext, hcodes, hpending, hk.shift, or_self, if_false,
        if_true, true_and]
      split_ifs <;> exact ⟨rfl, rfl⟩
  | false =>
    by_cases hprefix : sc = 0xE0#8
    · exact ⟨[], by simp [ps2Handler, Decoder.press, hext, hprefix, hk.shift]⟩
    by_cases hdown : sc = 0x2A#8 ∨ sc = 0x36#8
    · exact ⟨[], by simp [ps2Handler, Decoder.press, hext, hprefix, hdown, hpending]⟩
    by_cases hup : sc = 0xAA#8 ∨ sc = 0xB6#8
    · exact ⟨[], by simp [ps2Handler, Decoder.press, hext, hprefix, hdown, hup, hpending]⟩
    simp only [ps2Handler, Decoder.press, hext, hprefix, hdown, hup, hpending, isBreak_iff,
      hk.shift, Bool.false_eq_true, if_false]
    by_cases hchar : sc < 0x80#8 ∧ character h.decoder.shift sc ≠ 0#8
    · exact ⟨[character h.decoder.shift sc], by simp [hchar]⟩
    · refine ⟨[], ?_⟩
      split_ifs with hbreak hzero
      · exact absurd ⟨hbreak, hzero⟩ hchar
      · simp [hext, hpending, hk.shift]
      · simp [hext, hpending, hk.shift]

lemma Keyboard.Decodes.step (hk : k.Decodes h) (hplain : k.PlainPrefix e)
    (hroom : k.NeverFull e) (hstep : k.step e = some k') : k'.Decodes (h.note k e k') := by
  cases e with
  | scancode sc =>
    obtain rfl := Option.some.inj hstep
    obtain ⟨bytes, hring, htyped, hshift, hprefixed⟩ := hk.press hplain
    refine ⟨hshift, hprefixed, ?_⟩
    rw [Keyboard.NeverFull, hring] at hroom
    rw [hring, GapRing.values_foldl_put bytes hroom, ← List.append_assoc]
    exact (congrArg (· ++ bytes) hk.ring).trans htyped.symm
  | read len =>
    obtain rfl := Option.some.inj hstep
    exact ⟨hk.shift, hk.prefixed, GapRing.append_take hk.ring len⟩

/-- As long as none of these codes follows a prefix, the bytes that are read are those of the
reference decoder. -/
theorem keyboard_decodes (buf : Fin 256 → Byte)
    (hreach : Reaches Keyboard.step Typing.note (fun k e => k.PlainPrefix e ∧ k.NeverFull e)
      (.init buf) .start k h) :
    h.returned <+: h.decoder.typed ∧
      ∀ len, (ps2Read k len).1 = (h.decoder.typed.drop h.returned.length).take len := by
  have hk := hreach.invariant (fun k h => k.Decodes h) ⟨rfl, rfl, rfl⟩
    fun _ _ _ _ hk hallowed hstep => hk.step hallowed.1 hallowed.2 hstep
  exact GapRing.take_eq hk.ring

theorem keyboard_decodes_up :
    ∃ k h, run Keyboard.step Typing.note [.scancode 0xE0#8, .scancode 0x48#8]
        (.init fun _ => 0#8) .start = some (k, h) ∧
      h.decoder.typed = [0x1B#8, 0x5B#8, 0x41#8] ∧ (ps2Read k 3).1 = h.decoder.typed := by
  refine ⟨_, _, rfl, rfl, ?_⟩
  exact (keyboard_decodes (fun _ => 0#8) ((Reaches.start.next (.scancode 0xE0#8)
    ⟨by decide, by decide +kernel⟩ rfl).next (.scancode 0x48#8)
    ⟨by decide, by decide +kernel⟩ rfl)).2 3

/-- The fake shift before an arrow key: the shift stays on, and the prefix swallows the next
key. -/
theorem fake_shift_swallows :
    ∃ k h, run Keyboard.step Typing.note
        [.scancode 0xE0#8, .scancode 0x2A#8, .scancode 0x20#8, .scancode 0x20#8]
        (.init fun _ => 0#8) .start = some (k, h) ∧
      h.decoder.typed = [97#8, 97#8] ∧ (ps2Read k 2).1 = [65#8] := by
  refine ⟨_, _, rfl, ?_⟩
  decide +kernel

/-! ## The mouse -/

structure MouseEvent where
  dx : BitVec 16
  dy : BitVec 16
  buttons : Byte
  deriving DecidableEq

structure Mouse where
  ring : GapRing MouseEvent 64
  packet : Fin 3 → Byte
  byteIdx : Fin 3

def isResponse (b : Byte) : Prop := b = 0xAA#8 ∨ b = 0xFA#8 ∨ b = 0xFE#8 ∨ b = 0xFF#8

instance (b : Byte) : Decidable (isResponse b) := inferInstanceAs (Decidable (_ ∨ _))

def ps2MouseHandler (m : Mouse) (b : Byte) : Mouse :=
  if m.byteIdx = 0 ∧ isResponse b then m
  else
    let m := { m with packet := Function.update m.packet m.byteIdx b }
    if m.byteIdx.val + 1 < 3 then { m with byteIdx := m.byteIdx + 1 }
    else
      let m := { m with byteIdx := 0 }
      let status := m.packet 0
      if status &&& 0xC0#8 ≠ 0#8 then m
      else
        let event : MouseEvent :=
          ⟨(m.packet 1).signExtend 16, -(m.packet 2).signExtend 16, status &&& 0x07#8⟩
        { m with ring := m.ring.put event }

def ps2MouseRead (m : Mouse) (max : ℕ) : List MouseEvent × Mouse :=
  ((m.ring.take max).1, { m with ring := (m.ring.take max).2 })

inductive MouseInput where
  | byte (b : Byte)
  | read (max : ℕ)

def Mouse.step (m : Mouse) : MouseInput → Option Mouse
  | .byte b => some (ps2MouseHandler m b)
  | .read max => some (ps2MouseRead m max).2

def Mouse.Idle (m : Mouse) : Prop := m.byteIdx = 0 ∧ m.ring.values = []

/-- What a packet reports, if it has no overflow bits. -/
def reported : Byte × Byte × Byte → Option MouseEvent
  | (status, x, y) =>
    if status &&& 0xC0#8 = 0#8 then
      some ⟨x.signExtend 16, -y.signExtend 16, status &&& 0x07#8⟩
    else none

/-- The packets that have come, the bytes of the next one, and the events that have been
read. -/
structure Packets where
  all : List (Byte × Byte × Byte)
  part : List Byte
  returned : List MouseEvent

def Packets.receive (h : Packets) (b : Byte) : Packets :=
  match h.part with
  | [status, x] => { h with all := h.all ++ [(status, x, b)], part := [] }
  | part => { h with part := part ++ [b] }

def Packets.note (m : Mouse) (e : MouseInput) (_ : Mouse) (h : Packets) : Packets :=
  match e with
  | .byte b => h.receive b
  | .read max => { h with returned := h.returned ++ (ps2MouseRead m max).1 }

abbrev Mouse.NeverFull (m : Mouse) : MouseInput → Prop
  | .byte b => ¬ (ps2MouseHandler m b).ring.Full
  | .read _ => True

/-- The first byte of a packet is not one that the handler takes for a response. -/
abbrev Mouse.NoResponse (m : Mouse) : MouseInput → Prop
  | .byte b => m.byteIdx = 0 → ¬ isResponse b
  | .read _ => True

structure Mouse.Frames (m : Mouse) (h : Packets) : Prop where
  part : m.byteIdx = 0 ∧ h.part = [] ∨ m.byteIdx = 1 ∧ h.part = [m.packet 0] ∨
    m.byteIdx = 2 ∧ h.part = [m.packet 0, m.packet 1]
  ring : h.returned ++ m.ring.values = h.all.filterMap reported

variable {m m' : Mouse} {p : Packets} {input : MouseInput}

lemma Mouse.Frames.byte (hm : m.Frames p) {b : Byte} (hfirst : m.NoResponse (.byte b))
    (hroom : m.NeverFull (.byte b)) : (ps2MouseHandler m b).Frames (p.receive b) := by
  rcases hm.part with ⟨hidx, hpart⟩ | ⟨hidx, hpart⟩ | ⟨hidx, hpart⟩
  · have hnext : ps2MouseHandler m b =
        { m with packet := Function.update m.packet 0 b, byteIdx := 1 } := by
      simp [ps2MouseHandler, hidx, hfirst hidx]
    rw [hnext, Packets.receive, hpart]
    exact ⟨.inr (.inl ⟨rfl, by simp⟩), hm.ring⟩
  · have hnext : ps2MouseHandler m b =
        { m with packet := Function.update m.packet 1 b, byteIdx := 2 } := by
      simp [ps2MouseHandler, hidx]
    rw [hnext, Packets.receive, hpart]
    exact ⟨.inr (.inr ⟨rfl, by simp⟩), hm.ring⟩
  · have hnext : ps2MouseHandler m b =
        { m with
          packet := Function.update m.packet 2 b
          byteIdx := 0
          ring := (reported (m.packet 0, m.packet 1, b)).toList.foldl GapRing.put m.ring } := by
      by_cases hover : m.packet 0 &&& 0xC0#8 = 0#8
      · simp [ps2MouseHandler, reported, hidx, hover]
      · simp [ps2MouseHandler, reported, hidx, hover]
    rw [Mouse.NeverFull, hnext] at hroom
    rw [hnext, Packets.receive, hpart]
    refine ⟨.inl ⟨rfl, rfl⟩, ?_⟩
    rw [GapRing.values_foldl_put _ hroom, ← List.append_assoc, hm.ring, List.filterMap_append]
    cases h : reported (m.packet 0, m.packet 1, b) <;> simp [h]

lemma Mouse.Frames.step (hm : m.Frames p) (hfirst : m.NoResponse input)
    (hroom : m.NeverFull input) (hstep : m.step input = some m') :
    m'.Frames (p.note m input m') := by
  cases input with
  | byte b =>
    obtain rfl := Option.some.inj hstep
    exact hm.byte hfirst hroom
  | read max =>
    obtain rfl := Option.some.inj hstep
    exact ⟨hm.part, GapRing.append_take hm.ring max⟩

/-- As long as no packet begins with one of the four bytes, the events that are read are those
of the packets without overflow bits. -/
theorem mouse_packets_reported (m₀ : Mouse) (hidle : m₀.Idle)
    (hreach : Reaches Mouse.step Packets.note (fun m e => m.NoResponse e ∧ m.NeverFull e)
      m₀ ⟨[], [], []⟩ m p) :
    p.returned <+: p.all.filterMap reported ∧ ∀ max,
      (ps2MouseRead m max).1 = ((p.all.filterMap reported).drop p.returned.length).take max := by
  have hm := hreach.invariant (fun m p => m.Frames p)
    ⟨.inl ⟨hidle.1, rfl⟩, hidle.2⟩
    fun _ _ _ _ hm hallowed hstep => hm.step hallowed.1 hallowed.2 hstep
  exact GapRing.take_eq hm.ring

def idleMouse : Mouse := ⟨⟨fun _ => ⟨0#16, 0#16, 0#8⟩, 0, 0⟩, fun _ => 0#8, 0⟩

theorem mouse_packets_reported_one :
    ∃ m p, run Mouse.step Packets.note [.byte 0x09#8, .byte 5#8, .byte 6#8] idleMouse
        ⟨[], [], []⟩ = some (m, p) ∧
      (ps2MouseRead m 1).1 = [⟨5#16, -6#16, 1#8⟩] := by
  refine ⟨_, _, rfl, ?_⟩
  exact (mouse_packets_reported idleMouse ⟨rfl, rfl⟩ (((Reaches.start.next (.byte 0x09#8)
    ⟨by decide, by decide +kernel⟩ rfl).next (.byte 5#8) ⟨by decide, by decide +kernel⟩ rfl).next
    (.byte 6#8) ⟨by decide, by decide +kernel⟩ rfl)).2 1

/-- The first packet has an overflow bit and begins like a response: its second byte begins
the packet that is reported instead of the second one. -/
theorem overflow_shifts_packets :
    ∃ m p, run Mouse.step Packets.note
        ([0xAA#8, 1#8, 2#8, 0x08#8, 5#8, 6#8].map MouseInput.byte) idleMouse
        ⟨[], [], []⟩ = some (m, p) ∧
      p.all = [(0xAA#8, 1#8, 2#8), (0x08#8, 5#8, 6#8)] ∧
      p.all.filterMap reported = [⟨5#16, -6#16, 0#8⟩] ∧
      (ps2MouseRead m 2).1 = [⟨2#16, -8#16, 1#8⟩] := by
  refine ⟨_, _, rfl, ?_⟩
  decide +kernel

end HelixOS.Ps2
