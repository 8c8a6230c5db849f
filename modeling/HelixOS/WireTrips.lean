import HelixOS.UdpSockets

/-!
# From one stack to another

What a second instance of the stack makes of the frames that the first one sends.  Each
header is taken apart again by the code that reads it; the lengths decide what is lost.
-/

namespace HelixOS.Net

open ByteOrder List

variable {checksum : BitVec 16} {s : Segment} {frame : List Byte} {dev peer : Device}
  {payload : List Byte}

/-! ## Headers -/

lemma length_ethHeader (dev) (dst : Fin 6 → Byte) (type : BitVec 16) :
    (ethHeader dev dst type).length = 14 := by
  simp [ethHeader, store16]

lemma handleFrame_ethHeader (dst : Fin 6 → Byte) :
    handleFrame peer (ethHeader dev dst ethTypeIp ++ payload) = handleIp peer payload := by
  have hlength := length_ethHeader dev dst ethTypeIp
  have htype : load16At (ethHeader dev dst ethTypeIp ++ payload) 12 = swap16 ethTypeIp := by
    simp [load16At, byteAt, ethHeader, store16, ofFn_succ]
  rw [handleFrame, if_neg (by simp [hlength]), htype, swap16_swap16, drop_left' hlength]
  rfl

section Ip

variable {src dst : BitVec 32} {id : BitVec 16} {proto : Byte}

lemma length_ipHeader (src dst : BitVec 32) (id : BitVec 16) (proto : Byte) (length : ℕ)
    (checksum) : (ipHeader src dst id proto length checksum).length = 20 := by
  simp [ipHeader, store16, store32]

lemma ipHeader_fields (src dst : BitVec 32) (id : BitVec 16) (proto : Byte) (length : ℕ)
    (checksum) (rest : List Byte) :
    let packet := ipHeader src dst id proto length checksum ++ rest
    byteAt packet 0 = 0x45#8 ∧ load16At packet 2 = swap16 (BitVec.ofNat 16 length) ∧
      byteAt packet 9 = proto ∧ load32At packet 12 = swap32 src ∧
      load32At packet 16 = swap32 dst := by
  simp [byteAt, load16At, load32At, ipHeader, store16, store32]

lemma byteAt_proto : byteAt (ipPacket src dst id proto payload) 9 = proto :=
  (ipHeader_fields src dst id proto (20 + payload.length) _ payload).2.2.1

lemma load32At_src : load32At (ipPacket src dst id proto payload) 12 = swap32 src :=
  (ipHeader_fields src dst id proto (20 + payload.length) _ payload).2.2.2.1

lemma load32At_dst : load32At (ipPacket src dst id proto payload) 16 = swap32 dst :=
  (ipHeader_fields src dst id proto (20 + payload.length) _ payload).2.2.2.2

lemma handleIp_ipPacket (hlength : 20 + payload.length ≤ 1500) (hdst : peer.ip = dst) :
    handleIp peer (ipPacket src dst id proto payload) =
      demux (ipPacket src dst id proto payload) payload := by
  generalize hpacket : ipPacket src dst id proto payload = packet
  obtain ⟨checksum, hheader⟩ : ∃ checksum, packet =
      ipHeader src dst id proto (20 + payload.length) checksum ++ payload := ⟨_, hpacket.symm⟩
  have hheaderLength := length_ipHeader src dst id proto (20 + payload.length) checksum
  obtain ⟨hversion, htotal, -, -, hto⟩ := ipHeader_fields src dst id proto
    (20 + payload.length) checksum payload
  rw [← hheader] at hversion htotal hto
  have hlen : packet.length = 20 + payload.length := by
    rw [hheader, length_append, hheaderLength]
  have hbody : packet.drop 20 = payload := by rw [hheader, drop_left' hheaderLength]
  have hsize : (swap16 (load16At packet 2)).toNat = 20 + payload.length := by
    rw [htotal, swap16_swap16, BitVec.toNat_ofNat, Nat.mod_eq_of_lt (by omega)]
  have hihl : (0x45#8 &&& 0xF#8).toNat * 4 = 20 := by decide
  rw [handleIp]
  dsimp only
  rw [hsize, hversion, hto, hihl, hlen, if_neg (by omega), if_neg (by decide), if_neg (by omega),
    if_neg (show ¬ (20 + payload.length < 20 ∨ 20 + payload.length > 20 + payload.length) by omega),
    swap32_swap32, if_neg (fun h => h.1 hdst.symm), hbody, Nat.add_sub_cancel_left,
    take_length]

end Ip

lemma length_tcpHeader (s) (checksum) : (tcpHeader s checksum).length = 20 := by
  simp [tcpHeader, store16, store32]

lemma parseSegment_tcpSegment (laddr raddr : BitVec 32) (s) :
    parseSegment (tcpSegment laddr raddr s) = some s := by
  obtain ⟨sport, dport, flags, seq, ack, data⟩ := s
  rw [tcpSegment]
  generalize swap16 (tcpChecksum _ laddr raddr) = checksum
  have hlength := length_tcpHeader ⟨sport, dport, flags, seq, ack, data⟩ checksum
  have hoffset : byteAt (tcpHeader ⟨sport, dport, flags, seq, ack, data⟩ checksum ++ data) 12 =
      0x50#8 := by
    simp [byteAt, tcpHeader, store16, store32]
  rw [parseSegment, if_neg (by simp [hlength]), hoffset]
  simp [byteAt, load16At, load32At, tcpHeader, store16, store32]

lemma ipSend_frame {dst : BitVec 32} {proto : Byte}
    (hsent : (ipSend dev dst proto payload).1 = .frame (some frame)) :
    20 + payload.length ≤ 1500 ∧ ∃ id, frame =
      ethHeader dev dev.gwMac ethTypeIp ++ ipPacket dev.ip dst id proto payload := by
  rw [ipSend] at hsent
  by_cases hfits : 20 + payload.length > 1500
  · rw [if_pos hfits] at hsent
    cases hsent
  rw [if_neg hfits] at hsent
  generalize (if dst &&& netIpMask = dev.ip &&& netIpMask then dst else dev.gw) = l2 at hsent
  by_cases hmac : l2 = dev.gw ∧ dev.gwMacValid = true
  · rw [if_pos hmac] at hsent
    have hframe : ethSend dev dev.gwMac ethTypeIp
        (ipPacket dev.ip dst (dev.ipId + 1#16) proto payload) = some frame := Sent.frame.inj hsent
    rw [ethSend] at hframe
    split_ifs at hframe
    exact ⟨by omega, _, (Option.some.inj hframe).symm⟩
  · rw [if_neg hmac] at hsent
    cases hsent

lemma handleFrame_ipSend {dst : BitVec 32} {proto : Byte}
    (hsent : (ipSend dev dst proto payload).1 = .frame (some frame)) (hdst : peer.ip = dst) :
    ∃ id, handleFrame peer frame = demux (ipPacket dev.ip dst id proto payload) payload := by
  obtain ⟨hfits, id, rfl⟩ := ipSend_frame hsent
  exact ⟨id, by rw [handleFrame_ethHeader, handleIp_ipPacket hfits hdst]⟩

/-! ## Segments -/

def tcpArrival (peer : Device) (frame : List Byte) : Option Segment :=
  match handleFrame peer frame with
  | some (.tcp _ _ packet) => if peer.ready then parseSegment packet else none
  | _ => none

lemma length_tcpSegment (laddr raddr : BitVec 32) (s) :
    (tcpSegment laddr raddr s).length = 20 + s.payload.length := by
  rw [tcpSegment, length_append, length_tcpHeader]

/-- The headers of a segment take 54 bytes of its frame. -/
lemma length_tcpSendSegment {laddr raddr : BitVec 32} (hlength : s.payload.length ≤ 1400)
    (hsent : (tcpSendSegment dev laddr raddr s).1 = .frame (some frame)) :
    frame.length = s.payload.length + 54 := by
  rw [tcpSendSegment] at hsent
  split_ifs at hsent with hdown hlong
  · omega
  · obtain ⟨-, id, rfl⟩ := ipSend_frame hsent
    rw [length_append, length_ethHeader, ipPacket, length_append, length_ipHeader,
      length_tcpSegment]
    omega

lemma tcpArrival_sent {laddr raddr : BitVec 32} (hlength : s.payload.length ≤ 1400)
    (hsent : (tcpSendSegment dev laddr raddr s).1 = .frame (some frame))
    (hready : peer.ready = true) (hdst : peer.ip = swap32 raddr) :
    tcpArrival peer frame = if s.payload = [] then none else some s := by
  rw [tcpSendSegment] at hsent
  by_cases hdown : !dev.ready
  · rw [if_pos hdown] at hsent
    cases hsent
  · rw [if_neg hdown] at hsent
    rw [if_neg (by omega)] at hsent
    obtain ⟨id, hframe⟩ := handleFrame_ipSend hsent hdst
    have hproto :
        byteAt (ipPacket dev.ip (swap32 raddr) id 6#8 (tcpSegment laddr raddr s)) 9 = 6#8 :=
      byteAt_proto
    rw [tcpArrival, hframe, demux, hproto, if_neg (by decide), length_tcpSegment]
    by_cases hempty : s.payload = []
    · rw [if_pos hempty, if_neg (by simp [hempty]), if_neg (by simp)]
    · have hpos := length_pos_iff.mpr hempty
      rw [if_neg hempty, if_pos ⟨rfl, by omega⟩]
      dsimp only
      rw [if_pos hready, parseSegment_tcpSegment]

/-- Every segment with data arrives as it was sent, and no other one does. -/
theorem segment_arrives_iff {laddr raddr : BitVec 32} {s : Segment} {frame : List Byte}
    (hlength : s.payload.length ≤ 1400)
    (hsent : (tcpSendSegment dev laddr raddr s).1 = .frame (some frame))
    (hready : peer.ready = true) (hdst : peer.ip = swap32 raddr) :
    tcpArrival peer frame = some s ↔ s.payload ≠ [] := by
  rw [tcpArrival_sent hlength hsent hready hdst]
  by_cases hempty : s.payload = []
  · simp [hempty]
  · simp [hempty]

theorem segment_arrives_one_byte :
    let s : Segment := ⟨0x901F#16, 0x5000#16, 0x18#8, 1000#32, 2000#32, [7#8]⟩
    ∃ frame, (tcpSendSegment (deviceAt 0x0A00020F#32) 0x0F02000A#32 0x0501A8C0#32 s).1 =
        .frame (some frame) ∧
      tcpArrival (deviceAt 0xC0A80105#32) frame = some s := by
  intro s
  obtain ⟨frame, hframe⟩ : ∃ frame,
      (tcpSendSegment (deviceAt 0x0A00020F#32) 0x0F02000A#32 0x0501A8C0#32 s).1 =
        .frame (some frame) := ⟨_, rfl⟩
  exact ⟨frame, hframe, (segment_arrives_iff (by decide) hframe rfl (by decide)).mpr (by decide)⟩

/-- A segment without data, here a SYN, is dropped on the way to `tcp_input`. -/
theorem empty_segment_dropped :
    let s : Segment := ⟨0x901F#16, 0x5000#16, 0x02#8, 1000#32, 0#32, []⟩
    ∃ frame, (tcpSendSegment (deviceAt 0x0A00020F#32) 0x0F02000A#32 0x0501A8C0#32 s).1 =
        .frame (some frame) ∧
      tcpArrival (deviceAt 0xC0A80105#32) frame = none := by
  intro s
  obtain ⟨frame, hframe⟩ : ∃ frame,
      (tcpSendSegment (deviceAt 0x0A00020F#32) 0x0F02000A#32 0x0501A8C0#32 s).1 =
        .frame (some frame) := ⟨_, rfl⟩
  exact ⟨frame, hframe, tcpArrival_sent (by decide) hframe rfl (by decide)⟩

/-! ## Datagrams -/

/-- The number of bytes that the receiver takes from the length field of a datagram with `n`
bytes of data. -/
def readLength (n : ℕ) : ℕ :=
  let udpLen := (swap16 (BitVec.ofNat 16 (8 + n))).toNat
  if udpLen > 8 then udpLen - 8 else 0

lemma le_readLength_iff {n : ℕ} (hn : n ≤ 512) :
    n ≤ readLength n ↔ n ≠ 248 ∧ n ≠ 504 ∧ n ≠ 505 := by
  have hall : ∀ n < 513, n ≤ readLength n ↔ n ≠ 248 ∧ n ≠ 504 ∧ n ≠ 505 := by decide +kernel
  exact hall n (by omega)

lemma handleFrame_udp {dst : BitVec 32} {sport dport : BitVec 16}
    (hsent : (netUdpOutput dev dst sport dport payload).1 = .frame (some frame))
    (hdst : peer.ip = swap32 dst) :
    handleFrame peer frame =
      if payload = [] then none
      else some (.udp dev.ip (swap32 dst) sport dport
        (payload.take (readLength payload.length))) := by
  rw [netUdpOutput] at hsent
  by_cases hdown : !dev.ready
  · rw [if_pos hdown] at hsent
    cases hsent
  rw [if_neg hdown] at hsent
  by_cases hlong : 8 + payload.length > 1500 - 20 - 14
  · rw [if_pos hlong] at hsent
    cases hsent
  rw [if_neg hlong] at hsent
  obtain ⟨id, hframe⟩ := handleFrame_ipSend hsent hdst
  have hbody : (udpDatagram sport dport payload).length = 8 + payload.length := by
    simp [udpDatagram, store16]
    omega
  rw [hframe, demux, byteAt_proto, load32At_src, load32At_dst, swap32_swap32, swap32_swap32,
    if_neg (by decide), if_neg (by simp), hbody]
  by_cases hempty : payload = []
  · rw [if_pos hempty, if_neg (by simp [hempty])]
  · have hpos := length_pos_iff.mpr hempty
    have hfields : load16At (udpDatagram sport dport payload) 0 = sport ∧ load16At (udpDatagram
        sport dport payload) 2 = dport ∧ load16At (udpDatagram sport dport payload) 4 =
          swap16 (BitVec.ofNat 16 (8 + payload.length)) := by
      simp [load16At, byteAt, udpDatagram, store16]
    obtain ⟨hfrom, hto, hlen⟩ := hfields
    have hdrop : (udpDatagram sport dport payload).drop 8 = payload := by
      simp [udpDatagram, store16]
    rw [if_neg hempty, if_pos ⟨rfl, by omega⟩, udpUpcall, hfrom, hto, hlen, hdrop, hbody,
      Nat.add_sub_cancel_left]
    change some (Upcall.udp _ _ _ _ (payload.take (min (readLength payload.length) _))) = _
    rw [← take_take, take_length]

lemma contents_receive {dst : BitVec 32} {sport dport : BitVec 16} {t : UdpTable} {j : Fin 8}
    (hsent : (netUdpOutput dev dst sport dport payload).1 = .frame (some frame))
    (hdst : peer.ip = swap32 dst) (hbound : t.boundTo dport = some j)
    (hsound : (t.socks j).rxq.Sound) : ((t.receive peer frame).socks j).rxq.contents =
      if payload ≠ [] ∧ (t.socks j).rxq.count < 8 then
        (t.socks j).rxq.contents ++
          [⟨dev.ip, sport, (payload.take (readLength payload.length)).take 512⟩]
      else (t.socks j).rxq.contents := by
  rw [UdpTable.receive, handleFrame_udp hsent hdst]
  by_cases hempty : payload = []
  · simp [hempty]
  · rw [if_neg hempty]
    dsimp only
    rw [netUdpInput, UdpTable.deliver, hbound]
    dsimp only
    rw [UdpTable.enqueue]
    by_cases hroom : (t.socks j).rxq.count < 8
    · rw [if_neg (by omega), if_pos ⟨hempty, hroom⟩, UdpTable.put_self]
      exact RingBuffer.contents_push hsound _ hroom
    · rw [if_pos (by omega), if_neg (fun h => hroom h.2)]

/-- A datagram is recorded as it was sent exactly if the queue has room, the swapped length
covers the data, and the sender's address reads the same in both byte orders. -/
theorem datagram_queued_iff {dst : BitVec 32} {sport dport : BitVec 16} {frame : List Byte}
    {t : UdpTable} {j : Fin 8} (hlength : payload.length ≤ 512)
    (hsent : (netUdpOutput dev dst sport dport payload).1 = .frame (some frame))
    (hdst : peer.ip = swap32 dst) (hbound : t.boundTo dport = some j)
    (hsound : (t.socks j).rxq.Sound) : ((t.receive peer frame).socks j).rxq.contents =
        (t.socks j).rxq.contents ++ [⟨netLocalIpBe dev, sport, payload⟩] ↔
      (t.socks j).rxq.count < 8 ∧ swap32 dev.ip = dev.ip ∧
        payload.length ∉ ({0, 248, 504, 505} : Finset ℕ) := by
  have hread := le_readLength_iff hlength
  have hkept : (payload.take (readLength payload.length)).take 512 = payload ↔
      payload.length ≤ readLength payload.length := by
    rw [take_take, take_eq_self_iff]
    omega
  rw [contents_receive hsent hdst hbound hsound]
  by_cases hcase : payload ≠ [] ∧ (t.socks j).rxq.count < 8
  · obtain ⟨hne, hroom⟩ := hcase
    have hpos := length_pos_iff.mpr hne
    rw [if_pos ⟨hne, hroom⟩, append_cancel_left_eq, List.cons.injEq, UdpRxPkt.mk.injEq,
      hkept, hread, netLocalIpBe]
    simp only [Finset.mem_insert, Finset.mem_singleton, not_or, and_true, true_and, hroom]
    constructor
    · rintro ⟨haddr, hlen⟩
      exact ⟨haddr.symm, by omega, hlen⟩
    · rintro ⟨haddr, -, hlen⟩
      exact ⟨haddr.symm, hlen⟩
  · rw [if_neg hcase]
    constructor
    · intro h
      exact absurd h (by simp)
    · rintro ⟨hroom, -, hlen⟩
      have hempty : payload = [] := by
        by_contra hne
        exact hcase ⟨hne, hroom⟩
      simp [hempty] at hlen

def udpTableWith (port : BitVec 16) : UdpTable where
  socks i := if i = 0 then { HelixSock.cleared with used := true, bound := true, lport := port }
    else HelixSock.cleared
  ephemeral := 40000#16

theorem datagram_queued_two_bytes :
    ∃ frame, (netUdpOutput (deviceAt 0x0A07070A#32) 0x0501A8C0#32 0x409C#16 0x3500#16
        [1#8, 2#8]).1 = .frame (some frame) ∧
      (((udpTableWith 0x3500#16).receive (deviceAt 0xC0A80105#32) frame).socks 0).rxq.contents =
        [⟨0x0A07070A#32, 0x409C#16, [1#8, 2#8]⟩] := by
  obtain ⟨frame, hframe⟩ : ∃ frame, (netUdpOutput (deviceAt 0x0A07070A#32) 0x0501A8C0#32 0x409C#16
      0x3500#16 [1#8, 2#8]).1 = .frame (some frame) := ⟨_, rfl⟩
  refine ⟨frame, hframe, ?_⟩
  exact (datagram_queued_iff (j := 0) (by decide) hframe (by decide) (by decide)
    ⟨by decide, by decide⟩).mpr ⟨by decide, by decide, by decide⟩

/-- The address 10.0.2.15 of the stack itself is recorded as 15.2.0.10. -/
theorem datagram_from_swapped_address :
    ∃ frame, (netUdpOutput (deviceAt 0x0A00020F#32) 0x0501A8C0#32 0x409C#16 0x3500#16
        [1#8, 2#8]).1 = .frame (some frame) ∧
      (((udpTableWith 0x3500#16).receive (deviceAt 0xC0A80105#32) frame).socks 0).rxq.contents =
        [⟨0x0A00020F#32, 0x409C#16, [1#8, 2#8]⟩] ∧
      netLocalIpBe (deviceAt 0x0A00020F#32) ≠ 0x0A00020F#32 := by
  obtain ⟨frame, hframe⟩ : ∃ frame, (netUdpOutput (deviceAt 0x0A00020F#32) 0x0501A8C0#32 0x409C#16
      0x3500#16 [1#8, 2#8]).1 = .frame (some frame) := ⟨_, rfl⟩
  refine ⟨frame, hframe, ?_, by decide⟩
  rw [contents_receive (j := 0) hframe (by decide) (by decide) ⟨by decide, by decide⟩]
  decide

end HelixOS.Net
