import HelixOS.TcpConnections
import HelixOS.WireTrips

/-!
# The results of sending

What a caller of `tcp_send_data` or `net_sock_sendto` can conclude from the result.  Both change
their queues first and then return what the layers below have to say about the frame.
-/

namespace HelixOS.Net

open ByteOrder List

/-! ## Streams -/

/-- A positive result is the number of bytes that go to the stream, as a segment and into the
queue; an error leaves the stream as it was. -/
structure TcpSock.SendTold (s : TcpSock) (data : List Byte) (r : ℤ) (out : List Outgoing)
    (s' : TcpSock) : Prop where
  sent : 0 < r → r ≤ data.length ∧ s'.sndNxt = s.sndNxt + BitVec.ofNat 32 r.toNat ∧
    s'.txq = s.txq.push ⟨s.sndNxt, data.take r.toNat, 0#8⟩ ∧
    ∃ o ∈ out, o.seg.seq = s.sndNxt ∧ o.seg.payload = data.take r.toNat
  failed : r < 0 → s'.sndNxt = s.sndNxt ∧ s'.txq = s.txq

lemma result_tcpSendSegment (nic : Nic) {dev : Device} {laddr raddr : BitVec 32} {seg : Segment}
    (hlength : seg.payload.length ≤ 1400) :
    (tcpSendSegment dev laddr raddr seg).1.result nic = -1 ∨
      (tcpSendSegment dev laddr raddr seg).1.result nic = seg.payload.length + 54 := by
  cases hsent : (tcpSendSegment dev laddr raddr seg).1 with
  | refused => exact .inl rfl
  | asked frame => exact .inl rfl
  | frame frame =>
    cases frame with
    | none => exact .inl rfl
    | some frame =>
      rw [Sent.result, nicSend]
      cases nic.backend with
      | none => exact .inl rfl
      | some b =>
        dsimp only
        split_ifs
        · exact .inl rfl
        · exact .inr (by rw [length_tcpSendSegment hlength hsent]; rfl)

/-- The result is the length of the frame, or an error although the bytes are in the stream. -/
theorem sendData_told_iff {env : NetEnv} {t : Tcp} {i : SockId} {data : List Byte}
    (hstate : (t.socks i).state = .established) :
    (t.socks i).SendTold data (tcpSendData env t i data).1.1 (tcpSendData env t i data).1.2
        ((tcpSendData env t i data).2.socks i) ↔ data = [] := by
  set s := t.socks i
  by_cases hdata : data = []
  · have hcall : tcpSendData env t i data = ((0, []), t) := by
      rw [tcpSendData, if_neg (not_not.mpr hstate), if_pos hdata]
    rw [hcall]
    exact iff_of_true ⟨fun h => absurd h (lt_irrefl 0), fun h => absurd h (lt_irrefl 0)⟩ hdata
  set out := sendSegment env s (flagPsh ||| flagAck) s.sndNxt s.rcvNxt (data.take 1400) with hout
  have hcall : tcpSendData env t i data =
      ((sendStatus env out, out), t.put i (s.sentData env (data.take 1400))) := by
    rw [tcpSendData, if_neg (not_not.mpr hstate), if_neg hdata]
    rfl
  have hlen := length_pos_of_ne_nil hdata
  have htake := length_take (i := 1400) (l := data)
  rw [hcall]
  refine iff_of_false (fun h => ?_) hdata
  simp only [Tcp.put_self] at h
  have hnxt : (s.sentData env (data.take 1400)).sndNxt =
      s.sndNxt + BitVec.ofNat 32 (data.take 1400).length := rfl
  have hresult : sendStatus env out = -1 ∨ sendStatus env out = (data.take 1400).length + 54 := by
    rw [hout, sendSegment]
    split_ifs
    · exact result_tcpSendSegment env.nic (length_take_le ..)
    · exact .inl rfl
  rcases hresult with hfailed | hsent
  · have hkept := (h.failed (by omega)).1
    rw [hnxt] at hkept
    bv_omega
  · obtain ⟨hle, hadded, -⟩ := h.sent (by omega)
    rw [hnxt] at hadded
    bv_omega

theorem sendData_told_nothing :
    let t := oneConnection 7#32 0#32
    let call (data : List Byte) := tcpSendData quietEnv t 0 data
    (t.socks 0).SendTold [] (call []).1.1 (call []).1.2 ((call []).2.socks 0) ∧
      ¬ (t.socks 0).SendTold [1#8] (call [1#8]).1.1 (call [1#8]).1.2 ((call [1#8]).2.socks 0) := by
  intro t call
  have hstate : (t.socks 0).state = .established := rfl
  exact ⟨(sendData_told_iff hstate).mpr rfl,
    fun h => absurd ((sendData_told_iff hstate).mp h) (by decide)⟩

/-- The hardware address of the gateway is not known, and the byte is in the stream for all that. -/
theorem failed_send_in_stream :
    let t := oneConnection 7#32 0#32
    let env := { quietEnv with dev := { quietEnv.dev with gwMacValid := false } }
    let call := tcpSendData env t 0 [1#8]
    (t.socks 0).state = .established ∧ call.1.1 = -1 ∧
      ¬ (t.socks 0).SendTold [1#8] call.1.1 call.1.2 (call.2.socks 0) := by
  refine ⟨rfl, by decide +kernel, fun h => ?_⟩
  have hnxt := (h.failed (by decide +kernel)).1
  revert hnxt
  decide +kernel

/-! ## Datagrams -/

/-- `net_sock_sendto` with the answer of the driver, which may refuse the frame. -/
def netSockSendtoOn (nic : ℤ) (dev : Device) (t : UdpTable) (i : Fin 8) (data : List Byte)
    (dst : BitVec 32) (dport : BitVec 16) : (ℤ × Sent) × Device × UdpTable :=
  let out := netSockSendto dev t i data dst dport
  match out.1.2 with
  | .frame (some _) => if nic < 0 then ((nic, .frame none), out.2) else out
  | _ => out

/-- After an error every queue is as before; otherwise the bytes are in a queue or in the frame. -/
structure UdpTable.SendTold (t : UdpTable) (data : List Byte) (r : ℤ) (sent : Sent)
    (t' : UdpTable) : Prop where
  failed : r < 0 → ∀ j, (t'.socks j).rxq = (t.socks j).rxq
  sent : 0 < r → r ≤ data.length ∧
    ((∃ j p, (t'.socks j).rxq = (t.socks j).rxq.push p ∧ p.data = data.take r.toNat) ∨
      ∃ frame, sent = .frame (some frame) ∧ data.take r.toNat <:+ frame)

/-- The datagram is put into a queue of this host. -/
def UdpTable.DeliversHere (dev : Device) (t : UdpTable) (i : Fin 8) (data : List Byte)
    (dst : BitVec 32) (dport : BitVec 16) : Prop :=
  (t.socks i).used ∧ data ≠ [] ∧ (netIsLocalIpBe dev dst ∨ dst = loopbackBe) ∧
    ∃ j, (ensureBound t i).boundTo dport = some j ∧ (t.socks j).rxq.count < 8

/-- The next hop is the gateway, and its hardware address is known. -/
def Device.Reaches (dev : Device) (dst : BitVec 32) : Prop :=
  dev.ready ∧ (if dst &&& netIpMask = dev.ip &&& netIpMask then dst else dev.gw) = dev.gw ∧
    dev.gwMacValid

variable {dev : Device} {t : UdpTable} {i : Fin 8} {data : List Byte} {dst : BitVec 32}

lemma netUdpOutput_reaches (sport dport : BitVec 16) (hlen : data.length ≤ 1400)
    (h : dev.Reaches (swap32 dst)) :
    ∃ frame, (netUdpOutput dev dst sport dport data).1 = .frame (some frame) ∧ data <:+ frame := by
  obtain ⟨hready, hhop⟩ := h
  have hsize : (udpDatagram sport dport data).length = 8 + data.length := by
    simp [udpDatagram, store16]
    omega
  have hpacket : ∀ id,
      (ipPacket dev.ip (swap32 dst) id 17#8 (udpDatagram sport dport data)).length =
      28 + data.length := by
    intro id
    rw [ipPacket, length_append, length_ipHeader, hsize]
    omega
  rw [netUdpOutput, if_neg (by simpa using hready), if_neg (by omega), ipSend, if_neg (by omega)]
  dsimp only
  rw [if_pos hhop, ethSend, if_neg (by rw [hpacket]; omega)]
  refine ⟨_, rfl, ?_⟩
  rw [ipPacket, udpDatagram, ← append_assoc, ← append_assoc]
  exact suffix_append _ _

lemma netUdpOutput_fails (sport dport : BitVec 16) (h : ¬ dev.Reaches (swap32 dst))
    (frame : Option (List Byte)) : (netUdpOutput dev dst sport dport data).1 ≠ .frame frame := by
  rw [netUdpOutput]
  split_ifs with hready hlong
  · simp
  · simp
  · rw [ipSend]
    by_cases hlong' : 20 + (udpDatagram sport dport data).length > 1500
    · simp [hlong']
    · rw [if_neg hlong', if_neg fun hhop => h ⟨by simpa using hready, hhop⟩]
      simp

lemma ensureBound_rxq (t : UdpTable) (i j : Fin 8) :
    ((ensureBound t i).socks j).rxq = (t.socks j).rxq := by
  unfold ensureBound netSockBind UdpTable.choosePort
  by_cases hj : j = i
  · subst hj
    dsimp only
    split_ifs <;> simp [UdpTable.put]
  · dsimp only
    split_ifs <;> simp [UdpTable.put, hj]

def UdpTable.delivered (dev : Device) (t : UdpTable) (i : Fin 8) (data : List Byte)
    (dst : BitVec 32) (dport : BitVec 16) : UdpTable :=
  let t := ensureBound t i
  if netIsLocalIpBe dev dst ∨ dst = loopbackBe then
    t.deliver (netLocalIpBe dev) (t.socks i).lport dport (data.take 1400)
  else t

lemma UdpTable.delivered_rxq_iff (dev : Device) (dst : BitVec 32) (dport : BitVec 16)
    (hused : (t.socks i).used) (hdata : data ≠ []) :
    (∀ j, ((t.delivered dev i data dst dport).socks j).rxq = (t.socks j).rxq) ↔
      ¬ t.DeliversHere dev i data dst dport := by
  have hsame := ensureBound_rxq t i
  unfold UdpTable.delivered UdpTable.DeliversHere UdpTable.deliver UdpTable.enqueue
  by_cases hlocal : netIsLocalIpBe dev dst ∨ dst = loopbackBe
  · rw [if_pos hlocal]
    cases hbound : (ensureBound t i).boundTo dport with
    | none => simp [hsame]
    | some j =>
      dsimp only
      by_cases hroom : (t.socks j).rxq.count < 8
      · rw [if_neg (by rw [hsame]; omega)]
        refine iff_of_false (fun hall => ?_) (not_not.mpr ⟨hused, hdata, hlocal, j, rfl, hroom⟩)
        have hcount := congrArg RingBuffer.count (hall j)
        simp [RingBuffer.push, hsame] at hcount
      · rw [if_pos (by rw [hsame]; omega)]
        refine iff_of_true hsame ?_
        rintro ⟨-, -, -, k, hk, hfree⟩
        exact hroom (Option.some.inj hk ▸ hfree)
  · rw [if_neg hlocal]
    exact iff_of_true hsame fun h => hlocal h.2.2.1

/-- A result of `net_sock_sendto` is the truth unless a datagram that is queued on this host does
not reach the adapter as well. -/
theorem sendto_told_iff (nic : ℤ) (dev : Device) (t : UdpTable) (i : Fin 8) (data : List Byte)
    (dst : BitVec 32) (dport : BitVec 16) :
    let out := netSockSendtoOn nic dev t i data dst dport
    t.SendTold data out.1.1 out.1.2 out.2.2 ↔
      (t.DeliversHere dev i data dst dport → dev.Reaches (swap32 dst) ∧ 0 ≤ nic) := by
  intro out
  by_cases hused : (t.socks i).used
  case neg =>
    have hout : out = ((einval, .refused), dev, t) := by
      simp [out, netSockSendtoOn, netSockSendto, hused]
    rw [hout]
    exact iff_of_true ⟨fun _ _ => rfl, fun h => absurd h (by simp [einval])⟩
      fun h => absurd h.1 hused
  by_cases hdata : data = []
  · have hout : out = ((0, .refused), dev, t) := by
      simp [out, netSockSendtoOn, netSockSendto, hused, hdata]
    rw [hout]
    exact iff_of_true ⟨fun _ _ => rfl, fun h => absurd h (lt_irrefl 0)⟩ fun h => absurd hdata h.2.1
  set t' := t.delivered dev i data dst dport with ht'
  set sport := ((ensureBound t i).socks i).lport with hsport
  have hkept := UdpTable.delivered_rxq_iff dev dst dport hused hdata
  have hfailed : ∀ (r : ℤ) (sent : Sent), r < 0 →
      (t.SendTold data r sent t' ↔ ¬ t.DeliversHere dev i data dst dport) := by
    intro r sent hr
    rw [← hkept]
    exact ⟨fun h => h.failed hr, fun h => ⟨fun _ => h, fun hpos => absurd hpos (by omega)⟩⟩
  obtain ⟨⟨sent, dev'⟩, hsent⟩ : ∃ o, netUdpOutput dev dst sport dport (data.take 1400) = o :=
    ⟨_, rfl⟩
  by_cases hreach : dev.Reaches (swap32 dst)
  · obtain ⟨frame, hframe, hsuffix⟩ := netUdpOutput_reaches sport dport
      (length_take_le 1400 data) hreach
    rw [hsent] at hframe
    obtain rfl : sent = .frame (some frame) := hframe
    have hcall : netSockSendto dev t i data dst dport =
        ((((data.take 1400).length : ℤ), .frame (some frame)), dev', t') := by
      simp only [netSockSendto, hused, hdata, ← hsport, hsent]
      rfl
    by_cases hnic : nic < 0
    · have hout : out = ((nic, .frame none), dev', t') := by
        simp only [out, netSockSendtoOn, hcall, if_pos hnic]
      rw [hout, hfailed nic _ hnic]
      exact ⟨fun h h' => absurd h' h, fun h h' => absurd (h h').2 (not_le.mpr hnic)⟩
    · have hout : out = ((((data.take 1400).length : ℤ), .frame (some frame)), dev', t') := by
        simp only [out, netSockSendtoOn, hcall, if_neg hnic]
      rw [hout]
      refine iff_of_true ⟨fun h => absurd h (by simp), fun _ => ⟨by simp, Or.inr ⟨frame, rfl, ?_⟩⟩⟩
        fun _ => ⟨hreach, not_lt.mp hnic⟩
      rwa [Int.toNat_natCast, take_eq_take_iff.mpr (show _ = min 1400 data.length by simp)]
  · have hout : out = ((-1, sent), dev', t') := by
      simp only [out, netSockSendtoOn, netSockSendto, hused, hdata, ← hsport, hsent]
      cases sent with
      | refused => rfl
      | asked frame => rfl
      | frame frame =>
        exact absurd (congrArg Prod.fst hsent) (netUdpOutput_fails sport dport hreach frame)
    rw [hout, hfailed (-1) sent (by decide)]
    exact ⟨fun h h' => absurd h' h, fun h h' => absurd (h h').1 hreach⟩

/-- A datagram to the own address is queued, and the caller learns of an error because nobody
answers for that address on the wire. -/
theorem queued_datagram_refused :
    let t := udpTableWith 0x3500#16
    let out := netSockSendtoOn 0 (deviceAt 0x0A00020F#32) t 0 [1#8] 0x0F02000A#32 0x3500#16
    out.1.1 = -1 ∧ (out.2.2.socks 0).rxq.count = 1 ∧
      ¬ t.SendTold [1#8] out.1.1 out.1.2 out.2.2 := by
  intro t out
  have hresult : out.1.1 = -1 := by decide +kernel
  have hqueued : (out.2.2.socks 0).rxq.count = 1 := by decide +kernel
  refine ⟨hresult, hqueued, fun h => ?_⟩
  have hcount := congrArg RingBuffer.count (h.failed (by rw [hresult]; decide) 0)
  exact absurd hcount (by decide)

end HelixOS.Net
