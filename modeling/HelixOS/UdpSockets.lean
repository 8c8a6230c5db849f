import HelixOS.NetFrames
import HelixOS.RingBuffer

/-!
# UDP sockets

The socket table of `udp.c`.  Datagrams wait in a ring of eight places per socket; those for
an own address are delivered directly, and every datagram goes out on the wire as well.
-/

namespace HelixOS.Net

open ByteOrder

structure UdpRxPkt where
  /-- Network order. -/
  src : BitVec 32
  sport : BitVec 16
  data : List Byte
  deriving DecidableEq

structure HelixSock where
  used : Bool
  bound : Bool
  laddr : BitVec 32
  lport : BitVec 16
  rxq : RingBuffer UdpRxPkt 8

structure UdpTable where
  socks : Fin 8 → HelixSock
  /-- The next port that is given away, in host order. -/
  ephemeral : BitVec 16

def HelixSock.cleared : HelixSock where
  used := false
  bound := false
  laddr := 0#32
  lport := 0#16
  rxq := { buf := fun _ => ⟨0#32, 0#16, []⟩, head := 0, tail := 0, count := 0 }

def UdpTable.put (t : UdpTable) (i : Fin 8) (s : HelixSock) : UdpTable :=
  { t with socks := Function.update t.socks i s }

@[simp] lemma UdpTable.put_self (t : UdpTable) (i : Fin 8) (s : HelixSock) :
    (t.put i s).socks i = s := Function.update_self ..

def einval : ℤ := -22
def eagain : ℤ := -11
def eaddrinuse : ℤ := -98

def netSockAllocUdp (t : UdpTable) : Option (Fin 8) × UdpTable :=
  match (List.finRange 8).find? fun i => !(t.socks i).used with
  | some i => (some i, t.put i { HelixSock.cleared with used := true })
  | none => (none, t)

def netSockFree (t : UdpTable) (i : Fin 8) : UdpTable := t.put i HelixSock.cleared

/-- The port a socket gets if it does not ask for one. -/
def UdpTable.choosePort (t : UdpTable) (port : BitVec 16) : BitVec 16 × UdpTable :=
  if port = 0#16 then
    let next := t.ephemeral + 1#16
    (swap16 t.ephemeral, { t with ephemeral := if next < 40000#16 then 40000#16 else next })
  else (port, t)

def netSockBind (t : UdpTable) (i : Fin 8) (addr : BitVec 32) (port : BitVec 16) : ℤ × UdpTable :=
  if !(t.socks i).used then (einval, t)
  else
    let (port, t) := t.choosePort port
    if ∃ j, j ≠ i ∧ (t.socks j).used ∧ (t.socks j).bound ∧ (t.socks j).lport = port then
      (eaddrinuse, t)
    else (0, t.put i { t.socks i with laddr := addr, lport := port, bound := true })

def ensureBound (t : UdpTable) (i : Fin 8) : UdpTable :=
  if (t.socks i).bound then t else (netSockBind t i 0#32 0#16).2

def UdpTable.boundTo (t : UdpTable) (port : BitVec 16) : Option (Fin 8) :=
  (List.finRange 8).find? fun i => (t.socks i).used && (t.socks i).bound && (t.socks i).lport = port

/-- A datagram waits at the socket, unless eight others do. -/
def UdpTable.enqueue (t : UdpTable) (i : Fin 8) (p : UdpRxPkt) : UdpTable :=
  if (t.socks i).rxq.count ≥ 8 then t
  else t.put i { t.socks i with rxq := (t.socks i).rxq.push p }

/-- At most 512 bytes of a datagram are kept. -/
def UdpTable.deliver (t : UdpTable) (src : BitVec 32) (sport dport : BitVec 16)
    (payload : List Byte) : UdpTable :=
  match t.boundTo dport with
  | some i => t.enqueue i ⟨src, sport, payload.take 512⟩
  | none => t

def netUdpInput (t : UdpTable) (src : BitVec 32) (sport dport : BitVec 16) (payload : List Byte) :
    UdpTable := t.deliver src sport dport payload

def loopbackBe : BitVec 32 := 0x0100007F#32

/-- The result counts the bytes if the frame has gone to the adapter. -/
def netSockSendto (dev : Device) (t : UdpTable) (i : Fin 8) (data : List Byte) (dst : BitVec 32)
    (dport : BitVec 16) : (ℤ × Sent) × Device × UdpTable :=
  if !(t.socks i).used then ((einval, .refused), dev, t)
  else if data = [] then ((0, .refused), dev, t)
  else
    let data := data.take 1400
    let t := ensureBound t i
    let sport := (t.socks i).lport
    let t :=
      if netIsLocalIpBe dev dst ∨ dst = loopbackBe then
        t.deliver (netLocalIpBe dev) sport dport data
      else t
    let (sent, dev) := netUdpOutput dev dst sport dport data
    let r : ℤ :=
      match sent with
      | .frame (some _) => data.length
      | _ => -1
    ((r, sent), dev, t)

/-- The number of bytes or an error, the bytes, and the peer. -/
def netSockRecvfrom (t : UdpTable) (i : Fin 8) (buflen : ℕ) :
    (ℤ × List Byte × BitVec 32 × BitVec 16) × UdpTable :=
  if !(t.socks i).used then ((einval, [], 0#32, 0#16), t)
  else
    let t := ensureBound t i
    let s := t.socks i
    if s.rxq.count = 0 then ((eagain, [], 0#32, 0#16), t)
    else
      let p := s.rxq.buf s.rxq.tail
      let data := p.data.take buflen
      ((data.length, data, p.src, p.sport), t.put i { s with rxq := s.rxq.pop })

/-- What `handle_frame` does to the sockets. -/
def UdpTable.receive (dev : Device) (t : UdpTable) (frame : List Byte) : UdpTable :=
  match handleFrame dev frame with
  | some (.udp src _ sport dport payload) => netUdpInput t src sport dport payload
  | _ => t

/-! ## Ports in use -/

open List

variable {t : UdpTable} {i : Fin 8} {s : HelixSock}

def UdpTable.Holds (t : UdpTable) (i : Fin 8) (port : BitVec 16) : Prop :=
  (t.socks i).used = true ∧ (t.socks i).bound = true ∧ (t.socks i).lport = port

def HelixSock.Queued (s : HelixSock) : Prop :=
  s.rxq.Sound ∧ ∀ p ∈ s.rxq.contents, p.data.length ≤ 512

/-- No port is bound twice, and the queues are in order. -/
structure UdpTable.Sound (t : UdpTable) : Prop where
  apart : ∀ port i j, t.Holds i port → t.Holds j port → i = j
  queued : ∀ i, (t.socks i).Queued
  ephemeral : 40000#16 ≤ t.ephemeral

lemma HelixSock.cleared_queued : HelixSock.cleared.Queued := ⟨⟨by decide, by decide⟩, by decide⟩

/-- A socket may get a port that no other socket has. -/
lemma UdpTable.Sound.put (h : t.Sound) (hqueued : s.Queued)
    (hport : s.used = true → s.bound = true → ∀ j, j ≠ i → ¬ t.Holds j s.lport) :
    (t.put i s).Sound where
  apart port j k hj hk := by
    have hother {j : Fin 8} (hne : j ≠ i) (hj : (t.put i s).Holds j port) : t.Holds j port := by
      simpa [Holds, UdpTable.put, hne] using hj
    have hself {j : Fin 8} (hne : j ≠ i) (hi : (t.put i s).Holds i port) : ¬ t.Holds j port := by
      rw [Holds, t.put_self] at hi
      exact hi.2.2 ▸ hport hi.1 hi.2.1 j hne
    by_cases hji : j = i <;> by_cases hki : k = i
    · rw [hji, hki]
    · exact absurd (hother hki hk) (hself hki (hji ▸ hj))
    · exact absurd (hother hji hj) (hself hji (hki ▸ hk))
    · exact h.apart port j k (hother hji hj) (hother hki hk)
  queued j := by
    by_cases hj : j = i
    · simpa [hj] using hqueued
    · simpa [UdpTable.put, hj] using h.queued j
  ephemeral := h.ephemeral

lemma UdpTable.Sound.put_rxq (h : t.Sound) {q : RingBuffer UdpRxPkt 8}
    (hq : { t.socks i with rxq := q }.Queued) : (t.put i { t.socks i with rxq := q }).Sound :=
  h.put hq fun hused hbound j hj hholds => hj (h.apart _ j i hholds ⟨hused, hbound, rfl⟩)

lemma UdpTable.Sound.choosePort (h : t.Sound) (port) : (t.choosePort port).2.Sound := by
  unfold UdpTable.choosePort
  split_ifs
  · refine ⟨h.apart, h.queued, ?_⟩
    dsimp only
    split_ifs with hnext
    · exact BitVec.le_refl _
    · exact BitVec.not_lt.mp hnext
  · exact h

lemma netSockBind_sound (h : t.Sound) (i) (addr) (port) : (netSockBind t i addr port).2.Sound := by
  have hchosen := h.choosePort port
  unfold netSockBind
  split_ifs
  · exact h
  · dsimp only
    split_ifs with htaken
    · exact hchosen
    · exact hchosen.put (hchosen.queued i) fun _ _ j hj hholds => htaken ⟨j, hj, hholds⟩

lemma ensureBound_sound (h : t.Sound) (i) : (ensureBound t i).Sound := by
  unfold ensureBound
  split_ifs
  · exact h
  · exact netSockBind_sound h i _ _

lemma deliver_sound (h : t.Sound) (src) (sport dport) (payload) :
    (t.deliver src sport dport payload).Sound := by
  unfold UdpTable.deliver UdpTable.enqueue
  split
  · rename_i i _
    obtain ⟨hring, hshort⟩ := h.queued i
    split_ifs with hfull
    · exact h
    · refine h.put_rxq ⟨hring.push _ (by omega), fun p hp => ?_⟩
      rw [RingBuffer.contents_push hring _ (by omega), mem_append, mem_singleton] at hp
      rcases hp with hp | rfl
      · exact hshort p hp
      · exact length_take_le ..
  · exact h

lemma netSockSendto_sound (h : t.Sound) (dev) (i) (data) (dst) (dport) :
    (netSockSendto dev t i data dst dport).2.2.Sound := by
  have hbound := ensureBound_sound h i
  unfold netSockSendto
  split_ifs
  · exact h
  · exact h
  · exact deliver_sound hbound ..
  · exact hbound

lemma netSockRecvfrom_sound (h : t.Sound) (i) (buflen) : (netSockRecvfrom t i buflen).2.Sound := by
  have hbound := ensureBound_sound h i
  obtain ⟨hring, hshort⟩ := hbound.queued i
  unfold netSockRecvfrom
  split_ifs
  · exact h
  · dsimp only
    split_ifs with hempty
    · exact hbound
    · have hpos := Nat.pos_of_ne_zero hempty
      refine hbound.put_rxq ⟨hring.pop hpos, fun p hp => hshort p ?_⟩
      rw [RingBuffer.contents_pop _ hpos]
      exact mem_cons_of_mem _ hp

/-! ## Runs -/

inductive UdpOp where
  | alloc
  | free (i : Fin 8)
  | bind (i : Fin 8) (addr : BitVec 32) (port : BitVec 16)
  | sendto (dev : Device) (i : Fin 8) (data : List Byte) (dst : BitVec 32) (dport : BitVec 16)
  | recvfrom (i : Fin 8) (buflen : ℕ)
  | frame (dev : Device) (bytes : List Byte)

def UdpTable.run (t : UdpTable) : UdpOp → UdpTable
  | .alloc => (netSockAllocUdp t).2
  | .free i => netSockFree t i
  | .bind i addr port => (netSockBind t i addr port).2
  | .sendto dev i data dst dport => (netSockSendto dev t i data dst dport).2.2
  | .recvfrom i buflen => (netSockRecvfrom t i buflen).2
  | .frame dev bytes => t.receive dev bytes

def UdpTable.initial : UdpTable := ⟨fun _ => HelixSock.cleared, 40000#16⟩

lemma UdpTable.Sound.run (h : t.Sound) (op : UdpOp) : (t.run op).Sound := by
  cases op with
  | alloc =>
    change (netSockAllocUdp t).2.Sound
    unfold netSockAllocUdp
    split
    · exact h.put (s := { HelixSock.cleared with used := true }) HelixSock.cleared_queued
        fun _ hbound => nomatch hbound
    · exact h
  | free i => exact h.put HelixSock.cleared_queued fun hused => nomatch hused
  | bind i addr port => exact netSockBind_sound h i addr port
  | sendto dev i data dst dport => exact netSockSendto_sound h dev i data dst dport
  | recvfrom i buflen => exact netSockRecvfrom_sound h i buflen
  | frame dev bytes =>
    change (t.receive dev bytes).Sound
    unfold UdpTable.receive
    split
    · exact deliver_sound h ..
    · exact h

/-- In every run a port has one socket at most, and its datagrams go there; no queue is
overrun. -/
theorem udp_ports_apart (ops : List UdpOp) :
    let t := ops.foldl UdpTable.run UdpTable.initial
    t.Sound ∧ ∀ port i, t.boundTo port = some i ↔ t.Holds i port := by
  have h : (ops.foldl UdpTable.run UdpTable.initial).Sound :=
    foldlRecOn ops _ ⟨fun _ _ _ hi => (nomatch hi.1), fun _ => HelixSock.cleared_queued, by decide⟩
      fun _ h op _ => h.run op
  refine ⟨h, fun port i => ?_⟩
  generalize ops.foldl UdpTable.run UdpTable.initial = t at h ⊢
  have hfound {j : Fin 8} (hj : t.boundTo port = some j) : t.Holds j port := by
    simpa [UdpTable.Holds, and_assoc] using find?_some hj
  refine ⟨hfound, fun hi => ?_⟩
  cases hfirst : t.boundTo port with
  | none =>
    have hnone := find?_eq_none.mp hfirst i (mem_finRange i)
    exact absurd hi (by simpa [UdpTable.Holds, and_assoc] using hnone)
  | some j => rw [h.apart port i j hi (hfound hfirst)]

end HelixOS.Net
