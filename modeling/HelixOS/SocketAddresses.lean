import HelixOS.Tcp
import HelixOS.UdpSockets

/-!
# Socket addresses

The system calls that write the address of a peer into sixteen bytes of user memory, and those
that read such an address.  The readers take the port with its first byte as the low one, the
writers put its high byte first.
-/

namespace HelixOS.Net

open ByteOrder Option

/-! ## Writing an address -/

def fillSockaddr (addr : BitVec 32) (port : BitVec 16) : List Byte :=
  [2#8, 0#8, byte port 1, byte port 0] ++ store32 addr ++ List.replicate 8 0#8

/-- `sys_recvfrom` on a TCP socket: the result, the bytes, and the address if it is filled in. -/
def sysRecvfromTcp (t : Tcp) (i : SockId) (len : ℕ) (sockaddr : Bool) :
    (ℤ × List Byte × Option (List Byte)) × Tcp :=
  if len = 0 then ((0, [], none), t)
  else
    let ((r, data), t) := tcpRecvData t i len
    if r < 0 then ((r, [], none), t)
    else
      let ts := t.socks i
      ((r, data, if sockaddr ∧ 0 < r then some (fillSockaddr ts.raddr ts.rport) else none), t)

def sysRecvfromUdp (t : UdpTable) (i : Fin 8) (len : ℕ) (sockaddr : Bool) :
    (ℤ × List Byte × Option (List Byte)) × UdpTable :=
  if len = 0 then ((0, [], none), t)
  else
    let ((r, data, src, sport), t) := netSockRecvfrom t i len
    if r < 0 then ((r, [], none), t)
    else ((r, data, if sockaddr ∧ 0 < r then some (fillSockaddr src sport) else none), t)

/-- `sys_recvmsg` on a TCP socket, up to the distribution over the buffers of the message; `name`
says that there is room for an address. -/
def sysRecvmsgTcp (t : Tcp) (i : SockId) (name : Bool) :
    (ℤ × List Byte × Option (List Byte)) × Tcp :=
  let ((r, data), t) := tcpRecvData t i 4096
  if r < 0 then ((r, [], none), t)
  else
    let ts := t.socks i
    ((r, data, if name then some (fillSockaddr ts.raddr ts.rport) else none), t)

def sysRecvmsgUdp (t : UdpTable) (i : Fin 8) (name : Bool) :
    (ℤ × List Byte × Option (List Byte)) × UdpTable :=
  let ((r, data, src, sport), t) := netSockRecvfrom t i 4096
  if r < 0 then ((r, [], none), t)
  else ((r, data, if name ∧ 0 < r then some (fillSockaddr src sport) else none), t)

/-- `sys_accept`, if there is a file and a descriptor for the connection. -/
def sysAcceptSockaddr (t : Tcp) (l : SockId) : Option (SockId × List Byte) × Tcp :=
  match tcpAccept t l with
  | (none, t) => (none, t)
  | (some c, t) => (some (c, fillSockaddr (t.socks c).raddr (t.socks c).rport), t)

/-! ## Reading an address -/

def sockaddrFamily (sa : List Byte) : BitVec 16 := load16At sa 0

def sockaddrPort (sa : List Byte) : BitVec 16 := load16At sa 2

def sockaddrAddr (sa : List Byte) : BitVec 32 := load32At sa 4

def eopnotsupp : ℤ := -95

def sysSendto (dev : Device) (t : UdpTable) (i : Fin 8) (data sa : List Byte) :
    (ℤ × Sent) × Device × UdpTable :=
  if data = [] then ((0, .refused), dev, t)
  else netSockSendto dev t i data (sockaddrAddr sa) (sockaddrPort sa)

/-- `sys_sendmsg` on a UDP socket: the buffers of the message are joined, up to 4096 bytes. -/
def sysSendmsg (dev : Device) (t : UdpTable) (i : Fin 8) (iov : List (List Byte)) (sa : List Byte) :
    (ℤ × Sent) × Device × UdpTable :=
  let data := iov.flatten.take 4096
  if data = [] then ((0, .refused), dev, t)
  else netSockSendto dev t i data (sockaddrAddr sa) (sockaddrPort sa)

def sysConnect (env : NetEnv) (t : Tcp) (i : SockId) (sa : List Byte) :
    (ℤ × List Outgoing) × Tcp :=
  let ((r, out), t) := tcpConnect env t i (sockaddrAddr sa) (sockaddrPort sa)
  ((if r < 0 then r else 0, out), t)

def sysBind (t : UdpTable) (i : Fin 8) (sa : List Byte) : ℤ × UdpTable :=
  if sockaddrFamily sa ≠ 2#16 then (eopnotsupp, t)
  else netSockBind t i (sockaddrAddr sa) (sockaddrPort sa)

/-! ## Peers -/

inductive PeerKind where
  | tcp
  | udpWire
  | udpHost
  deriving DecidableEq

/-- A datagram in a queue and its peer, as in a packet: one from the wire, and one of a socket of
the same host. -/
inductive Came : PeerKind → BitVec 32 → BitVec 16 → UdpRxPkt → Prop
  | wire {dev : Device} {frame payload : List Byte} {src dst : BitVec 32} {sport dport : BitVec 16}
      (harrives : handleFrame dev frame = some (.udp src dst sport dport payload)) :
      Came .udpWire (load32At (frame.drop 14) 12) sport ⟨src, sport, payload.take 512⟩
  | host (dev : Device) (t : UdpTable) (i : Fin 8) (data : List Byte) :
      Came .udpHost (netLocalIpBe dev) (t.socks i).lport
        ⟨netLocalIpBe dev, (t.socks i).lport, data.take 512⟩

/-- The address that a system call fills in for a peer. -/
inductive Filled : PeerKind → BitVec 32 → BitVec 16 → List Byte → Prop
  | recvfromTcp {t : Tcp} {i : SockId} {len : ℕ} {sa : List Byte}
      (hsa : (sysRecvfromTcp t i len true).1.2.2 = some sa) :
      Filled .tcp (t.socks i).raddr (t.socks i).rport sa
  | recvmsgTcp {t : Tcp} {i : SockId} {sa : List Byte}
      (hsa : (sysRecvmsgTcp t i true).1.2.2 = some sa) :
      Filled .tcp (t.socks i).raddr (t.socks i).rport sa
  | accept {t : Tcp} {l c : SockId} {sa : List Byte}
      (hsa : (sysAcceptSockaddr t l).1 = some (c, sa)) :
      Filled .tcp (t.socks c).raddr (t.socks c).rport sa
  | recvfromUdp {t : UdpTable} {i : Fin 8} {len : ℕ} {sa : List Byte} {kind : PeerKind}
      {addr : BitVec 32} {port : BitVec 16}
      (hcame : Came kind addr port
        (((ensureBound t i).socks i).rxq.buf ((ensureBound t i).socks i).rxq.tail))
      (hsa : (sysRecvfromUdp t i len true).1.2.2 = some sa) : Filled kind addr port sa
  | recvmsgUdp {t : UdpTable} {i : Fin 8} {sa : List Byte} {kind : PeerKind}
      {addr : BitVec 32} {port : BitVec 16}
      (hcame : Came kind addr port
        (((ensureBound t i).socks i).rxq.buf ((ensureBound t i).socks i).rxq.tail))
      (hsa : (sysRecvmsgUdp t i true).1.2.2 = some sa) : Filled kind addr port sa

/-- The calls that are given the bytes go to the peer. -/
structure Addressed (sa : List Byte) (addr : BitVec 32) (port : BitVec 16) : Prop where
  sendto : ∀ dev t i data, data ≠ [] →
    sysSendto dev t i data sa = netSockSendto dev t i data addr port
  sendmsg : ∀ dev t i iov, iov.flatten.take 4096 ≠ [] →
    sysSendmsg dev t i iov sa = netSockSendto dev t i (iov.flatten.take 4096) addr port
  connect : ∀ env t i, (sysConnect env t i sa).2 = (tcpConnect env t i addr port).2

variable {kind : PeerKind} {addr : BitVec 32} {port : BitVec 16} {sa : List Byte}

/-! ## Round trips -/

@[simp] lemma sockaddrAddr_fillSockaddr (addr : BitVec 32) (port : BitVec 16) :
    sockaddrAddr (fillSockaddr addr port) = addr := by
  simp [sockaddrAddr, fillSockaddr, load32At, byteAt, store32]

@[simp] lemma sockaddrPort_fillSockaddr (addr : BitVec 32) (port : BitVec 16) :
    sockaddrPort (fillSockaddr addr port) = swap16 port := by
  simp [sockaddrPort, fillSockaddr, load16At, byteAt, swap16_eq]

def recordedAddr (kind : PeerKind) (addr : BitVec 32) : BitVec 32 :=
  if kind = .udpWire then swap32 addr else addr

lemma demux_udp {packet body payload : List Byte} {src dst : BitVec 32} {sport dport : BitVec 16}
    (h : demux packet body = some (.udp src dst sport dport payload)) :
    src = swap32 (load32At packet 12) := by
  simp only [demux] at h
  split_ifs at h
  · simp at h
  · simp at h
  · simp only [udpUpcall, some.injEq, Upcall.udp.injEq] at h
    exact h.1.symm

lemma handleFrame_udp_src {dev : Device} {frame payload : List Byte} {src dst : BitVec 32}
    {sport dport : BitVec 16}
    (h : handleFrame dev frame = some (.udp src dst sport dport payload)) :
    src = swap32 (load32At (frame.drop 14) 12) := by
  rw [handleFrame] at h
  dsimp only at h
  split_ifs at h
  · simp at h
  · rw [handleIp] at h
    dsimp only at h
    -- every refusal of the packet excludes an upcall
    split_ifs at h
    all_goals exact demux_udp h

lemma Came.recorded {p : UdpRxPkt} (h : Came kind addr port p) :
    p.src = recordedAddr kind addr ∧ p.sport = port := by
  cases h with
  | wire harrives => exact ⟨handleFrame_udp_src harrives, rfl⟩
  | host dev t i data => exact ⟨rfl, rfl⟩

lemma tcpRecvData_peer (t : Tcp) (i : SockId) (len : ℕ) :
    ((tcpRecvData t i len).2.socks i).raddr = (t.socks i).raddr ∧
      ((tcpRecvData t i len).2.socks i).rport = (t.socks i).rport := by
  simp only [tcpRecvData]
  split_ifs
  · exact ⟨rfl, rfl⟩
  · exact ⟨rfl, rfl⟩
  · rw [Tcp.put_self]
    exact ⟨rfl, rfl⟩

lemma netSockRecvfrom_peer {t : UdpTable} {i : Fin 8} {len : ℕ}
    (hpos : 0 < (netSockRecvfrom t i len).1.1) : (netSockRecvfrom t i len).1.2.2.1 =
        (((ensureBound t i).socks i).rxq.buf ((ensureBound t i).socks i).rxq.tail).src ∧
      (netSockRecvfrom t i len).1.2.2.2 =
        (((ensureBound t i).socks i).rxq.buf ((ensureBound t i).socks i).rxq.tail).sport := by
  rw [netSockRecvfrom] at hpos ⊢
  dsimp only at hpos ⊢
  split_ifs at hpos ⊢
  · simp [einval] at hpos
  · simp [eagain] at hpos
  · exact ⟨rfl, rfl⟩

lemma tcpAccept_peer {t : Tcp} {l c : SockId} (h : (tcpAccept t l).1 = some c) :
    ((tcpAccept t l).2.socks c).raddr = (t.socks c).raddr ∧
      ((tcpAccept t l).2.socks c).rport = (t.socks c).rport := by
  rcases tcpAccept_cases t l with hnone | ⟨child, rest, -, -, hsome⟩
  · rw [hnone] at h
    cases h
  · rw [hsome] at h ⊢
    obtain rfl : child = c := some.inj h
    simp only [Tcp.accepting, Tcp.put_self]
    by_cases hc : child = l
    · rw [hc, Tcp.put_self]
      exact ⟨rfl, rfl⟩
    · rw [Tcp.put_other _ _ hc]
      exact ⟨rfl, rfl⟩

lemma Filled.eq (h : Filled kind addr port sa) :
    sa = fillSockaddr (recordedAddr kind addr) port := by
  cases h with
  | @recvfromTcp t i len sa hsa =>
    obtain ⟨haddr, hport⟩ := tcpRecvData_peer t i len
    simp only [sysRecvfromTcp] at hsa
    split_ifs at hsa
    · rw [haddr, hport] at hsa
      exact (some.inj hsa).symm
  | @recvmsgTcp t i sa hsa =>
    obtain ⟨haddr, hport⟩ := tcpRecvData_peer t i 4096
    simp only [sysRecvmsgTcp] at hsa
    split_ifs at hsa
    · rw [haddr, hport] at hsa
      exact (some.inj hsa).symm
  | @accept t l c sa hsa =>
    rw [sysAcceptSockaddr] at hsa
    cases haccept : tcpAccept t l with
    | mk child t' =>
      rw [haccept] at hsa
      cases child with
      | none => cases hsa
      | some c' =>
        obtain ⟨rfl, rfl⟩ := Prod.mk.inj (some.inj hsa)
        have hpeer := tcpAccept_peer (t := t) (l := l) (c := c') (by rw [haccept])
        rw [haccept] at hpeer
        rw [hpeer.1, hpeer.2]
        rfl
  | @recvfromUdp t i len sa kind addr port hcame hsa =>
    obtain ⟨hsrc, hsport⟩ := hcame.recorded
    simp only [sysRecvfromUdp] at hsa
    split_ifs at hsa with hlen hneg hpos
    · obtain ⟨haddr, hport⟩ := netSockRecvfrom_peer hpos.2
      rw [← some.inj hsa, haddr, hport, hsrc, hsport]
  | @recvmsgUdp t i sa kind addr port hcame hsa =>
    obtain ⟨hsrc, hsport⟩ := hcame.recorded
    simp only [sysRecvmsgUdp] at hsa
    split_ifs at hsa with hneg hpos
    · obtain ⟨haddr, hport⟩ := netSockRecvfrom_peer hpos.2
      rw [← some.inj hsa, haddr, hport, hsrc, hsport]

lemma addressed_iff : Addressed sa addr port ↔ sockaddrAddr sa = addr ∧ sockaddrPort sa = port := by
  constructor
  · intro h
    -- a socket that can connect shows what it connects to
    obtain ⟨t, hused, hclosed, hbound⟩ : ∃ t : Tcp, (t.socks 0).used = true ∧
        (t.socks 0).state = .closed ∧ (t.socks 0).bound = true :=
      ⟨⟨fun _ => { TcpSock.cleared with used := true, bound := true }, [], 0#16⟩, rfl, rfl, rfl⟩
    let env : NetEnv := ⟨deviceAt 0#32, ⟨none, true, true⟩, 0#64⟩
    have hends : ∀ addr port, ((tcpConnect env t 0 addr port).2.socks 0).raddr = addr ∧
        ((tcpConnect env t 0 addr port).2.socks 0).rport = port := by
      simp [tcpConnect, hused, hclosed, hbound]
    have hconnect := h.connect env t 0
    have hread := hends (sockaddrAddr sa) (sockaddrPort sa)
    have hpeer := hends addr port
    rw [← hconnect] at hpeer
    exact ⟨hread.1.symm.trans hpeer.1, hread.2.symm.trans hpeer.2⟩
  · rintro ⟨rfl, rfl⟩
    exact ⟨fun dev t i data hdata => if_neg hdata, fun dev t i iov hdata => if_neg hdata,
      fun env t i => rfl⟩

lemma sysBind_port {t t' : UdpTable} {i : Fin 8} {sb : List Byte} (hport : sockaddrPort sb ≠ 0#16)
    (hbind : sysBind t i sb = (0, t')) : (t'.socks i).lport = sockaddrPort sb := by
  simp only [sysBind, netSockBind, UdpTable.choosePort, hport, if_false] at hbind
  split_ifs at hbind
  · simp [eopnotsupp] at hbind
  · simp [einval] at hbind
  · simp [eaddrinuse] at hbind
  · rw [← (Prod.mk.inj hbind).2, UdpTable.put_self]

/-- The bytes that are filled in for a peer lead back to it only if its port reads the same with
its bytes swapped, and so does the address of a peer whose datagram came over the wire. -/
theorem sockaddr_round_trip_iff (h : Filled kind addr port sa) :
    (Addressed sa addr port ↔
        swap16 port = port ∧ (kind = .udpWire → swap32 addr = addr)) ∧
      ∀ t t' i sb, sockaddrPort sb ≠ 0#16 → sysBind t i sb = (0, t') → (t'.socks i).lport = port →
        (sockaddrPort sa = sockaddrPort sb ↔ swap16 port = port) := by
  obtain rfl := h.eq
  constructor
  · rw [addressed_iff, sockaddrAddr_fillSockaddr, sockaddrPort_fillSockaddr, recordedAddr]
    by_cases hwire : kind = .udpWire
    · simp only [hwire, if_true, forall_const]
      exact and_comm
    · simp only [hwire, if_false, true_and, false_imp_iff, and_true]
  · intro t t' i sb hport hbind hlport
    rw [sockaddrPort_fillSockaddr, ← sysBind_port hport hbind, hlport]

def oneByteFrom (port : BitVec 16) : Tcp where
  socks := fun _ => { TcpSock.cleared with
    used := true
    state := .established
    raddr := 0x0202000A#32
    rport := port
    rxq := TcpSock.cleared.rxq.push ⟨0#32, [7#8]⟩ }
  pending := []
  ephemeral := 41000#16

lemma oneByteFrom_filled (port : BitVec 16) :
    Filled .tcp 0x0202000A#32 port (fillSockaddr 0x0202000A#32 port) :=
  @Filled.recvfromTcp (oneByteFrom port) 0 16 _ rfl

theorem sockaddr_round_trip_same_bytes :
    Addressed (fillSockaddr 0x0202000A#32 0x5050#16) 0x0202000A#32 0x5050#16 :=
  (sockaddr_round_trip_iff (oneByteFrom_filled 0x5050#16)).1.mpr ⟨by decide, nofun⟩

/-- The address of a peer on port 8080 leads to port 36895. -/
theorem sockaddr_port_swapped :
    Filled .tcp 0x0202000A#32 0x901F#16 (fillSockaddr 0x0202000A#32 0x901F#16) ∧
      ¬ Addressed (fillSockaddr 0x0202000A#32 0x901F#16) 0x0202000A#32 0x901F#16 := by
  refine ⟨oneByteFrom_filled 0x901F#16, fun h => ?_⟩
  have hport := (addressed_iff.mp h).2
  exact absurd hport (by decide)

end HelixOS.Net
