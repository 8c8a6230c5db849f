import HelixOS.ByteOrder
import HelixOS.TableSizes

/-!
# Frames

The packets that `net.c` builds and takes apart: Ethernet, IPv4, and the headers of TCP and
UDP.  A packet is a list of bytes; the fields of a packed header are stored one after the
other, each with its least significant byte first, and numbers of the wire are swapped before.
What the demultiplexer hands on to the protocols is an `Upcall`.
-/

namespace HelixOS.Net

open ByteOrder

structure Device where
  ready : Bool
  mac : Fin 6 → Byte
  /-- Own address and gateway, in host order. -/
  ip : BitVec 32
  gw : BitVec 32
  gwMac : Fin 6 → Byte
  gwMacValid : Bool
  ipId : BitVec 16

/-- A device that knows its gateway. -/
def deviceAt (ip : BitVec 32) : Device where
  ready := true
  mac _ := 0x52#8
  ip := ip
  gw := 0x0A000202#32
  gwMac _ := 0x53#8
  gwMacValid := true
  ipId := 1#16

def netIpMask : BitVec 32 := 0xFFFFFF00#32

def netLocalIpBe (dev : Device) : BitVec 32 := swap32 dev.ip

def netIsLocalIpBe (dev : Device) (addr : BitVec 32) : Bool :=
  addr = netLocalIpBe dev || addr = 0#32

/-! ## Checksums -/

def sumWords : List Byte → ℕ
  | [] => 0
  | [b] => b.toNat * 256
  | b₀ :: b₁ :: rest => b₀.toNat * 256 + b₁.toNat + sumWords rest

def foldCarry (sum : ℕ) : ℕ :=
  if sum < 65536 then sum else foldCarry (sum % 65536 + sum / 65536)
  termination_by sum

def checksum16 (data : List Byte) : BitVec 16 := ~~~ BitVec.ofNat 16 (foldCarry (sumWords data))

def tcpChecksum (segment : List Byte) (src dst : BitVec 32) : BitVec 16 :=
  let header := store32 src ++ store32 dst ++
    [0#8, 6#8, BitVec.ofNat 8 (segment.length / 256), BitVec.ofNat 8 segment.length]
  ~~~ BitVec.ofNat 16 (foldCarry (foldCarry (sumWords header) + foldCarry (sumWords segment)))

/-! ## Sending -/

def ethTypeArp : BitVec 16 := 0x0806#16
def ethTypeIp : BitVec 16 := 0x0800#16

def ethHeader (dev : Device) (dst : Fin 6 → Byte) (ethertype : BitVec 16) : List Byte :=
  List.ofFn dst ++ List.ofFn dev.mac ++ store16 (swap16 ethertype)

def ethSend (dev : Device) (dst : Fin 6 → Byte) (ethertype : BitVec 16) (payload : List Byte) :
    Option (List Byte) :=
  if payload.length + 14 > 1518 then none else some (ethHeader dev dst ethertype ++ payload)

def ipToBytes (ip : BitVec 32) : List Byte := [byte ip 3, byte ip 2, byte ip 1, byte ip 0]

/-- `arp_send` with the operation for a request, which is broadcast. -/
def arpRequest (dev : Device) (target : BitVec 32) : Option (List Byte) :=
  ethSend dev (fun _ => 0xFF#8) ethTypeArp
    (store16 (swap16 1#16) ++ store16 (swap16 ethTypeIp) ++ [6#8, 4#8] ++ store16 (swap16 1#16) ++
      List.ofFn dev.mac ++ ipToBytes dev.ip ++ List.replicate 6 0#8 ++ ipToBytes target)

/-- The header of `ip_send` with the given checksum field. -/
def ipHeader (src dst : BitVec 32) (id : BitVec 16) (proto : Byte) (length : ℕ)
    (checksum : BitVec 16) : List Byte :=
  [0x45#8, 0#8] ++ store16 (swap16 (BitVec.ofNat 16 length)) ++ store16 (swap16 id) ++
    store16 0#16 ++ [64#8, proto] ++ store16 checksum ++ store32 (swap32 src) ++
    store32 (swap32 dst)

def ipPacket (src dst : BitVec 32) (id : BitVec 16) (proto : Byte) (payload : List Byte) :
    List Byte :=
  let header := ipHeader src dst id proto (20 + payload.length)
  header (swap16 (checksum16 (header 0#16))) ++ payload

inductive Sent where
  | refused
  /-- The hardware address is not known: only a request for it goes out. -/
  | asked (frame : Option (List Byte))
  | frame (frame : Option (List Byte))

inductive NicBackend where
  | e1000
  | virtio

/-- The adapter, if one was found; `room` says that a transmit descriptor is free. -/
structure Nic where
  backend : Option NicBackend
  ready : Bool
  room : Bool

def NicBackend.bufferSize : NicBackend → ℕ
  | .e1000 => 2048
  | .virtio => 2048 - 10

/-- `e1000_send` and `virtio_net_send` return the length of a frame that they take. -/
def nicSend (nic : Nic) (frame : List Byte) : ℤ :=
  match nic.backend with
  | none => -1
  | some b =>
    if !nic.ready ∨ frame = [] ∨ b.bufferSize < frame.length ∨ !nic.room then -1 else frame.length

/-- What `ip_send` returns. -/
def Sent.result (nic : Nic) : Sent → ℤ
  | .frame (some bytes) => nicSend nic bytes
  | _ => -1

/-- Only the hardware address of the gateway is ever kept. -/
def ipSend (dev : Device) (dst : BitVec 32) (proto : Byte) (payload : List Byte) : Sent × Device :=
  if 20 + payload.length > 1500 then (.refused, dev)
  else
    let l2 := if dst &&& netIpMask = dev.ip &&& netIpMask then dst else dev.gw
    if l2 = dev.gw ∧ dev.gwMacValid then
      let id := dev.ipId + 1#16
      (.frame (ethSend dev dev.gwMac ethTypeIp (ipPacket dev.ip dst id proto payload)),
        { dev with ipId := id })
    else (.asked (arpRequest dev l2), dev)

structure Segment where
  sport : BitVec 16
  dport : BitVec 16
  flags : Byte
  seq : BitVec 32
  ack : BitVec 32
  payload : List Byte
  deriving DecidableEq

def tcpHeader (s : Segment) (checksum : BitVec 16) : List Byte :=
  store16 s.sport ++ store16 s.dport ++ store32 (swap32 s.seq) ++ store32 (swap32 s.ack) ++
    [0x50#8, s.flags] ++ store16 (swap16 4096#16) ++ store16 checksum ++ store16 0#16

def tcpSegment (laddr raddr : BitVec 32) (s : Segment) : List Byte :=
  tcpHeader s (swap16 (tcpChecksum (tcpHeader s 0#16 ++ s.payload) laddr raddr)) ++ s.payload

/-- The addresses are in network order; data beyond 1460 bytes is cut off. -/
def tcpSendSegment (dev : Device) (laddr raddr : BitVec 32) (s : Segment) : Sent × Device :=
  if !dev.ready then (.refused, dev)
  else
    let s := if 20 + s.payload.length > 1480 then { s with payload := s.payload.take 1460 } else s
    ipSend dev (swap32 raddr) 6#8 (tcpSegment laddr raddr s)

def udpDatagram (sport dport : BitVec 16) (payload : List Byte) : List Byte :=
  store16 sport ++ store16 dport ++ store16 (swap16 (BitVec.ofNat 16 (8 + payload.length))) ++
    store16 0#16 ++ payload

def netUdpOutput (dev : Device) (dst : BitVec 32) (sport dport : BitVec 16) (payload : List Byte) :
    Sent × Device :=
  if !dev.ready then (.refused, dev)
  else if 8 + payload.length > 1500 - 20 - 14 then (.refused, dev)
  else ipSend dev (swap32 dst) 17#8 (udpDatagram sport dport payload)

/-! ## Receiving -/

def byteAt (p : List Byte) (i : ℕ) : Byte := p.getD i 0#8

def load16At (p : List Byte) (i : ℕ) : BitVec 16 := load16 (byteAt p i) (byteAt p (i + 1))

def load32At (p : List Byte) (i : ℕ) : BitVec 32 :=
  load32 (byteAt p i) (byteAt p (i + 1)) (byteAt p (i + 2)) (byteAt p (i + 3))

/-- What is handed on by `handle_frame`. -/
inductive Upcall where
  | arp (packet : List Byte)
  | icmp (src : BitVec 32) (packet : List Byte)
  /-- `tcp_input` gets the addresses as they stand in the packet. -/
  | tcp (src dst : BitVec 32) (packet : List Byte)
  /-- `net_udp_input` gets the addresses in host order. -/
  | udp (src dst : BitVec 32) (sport dport : BitVec 16) (payload : List Byte)
  deriving DecidableEq

/-- The length field of the datagram is read without a swap. -/
def udpUpcall (src dst : BitVec 32) (udp : List Byte) : Upcall :=
  let udpLen := (load16At udp 4).toNat
  let plen := if udpLen > 8 then udpLen - 8 else 0
  let plen := min plen (udp.length - 8)
  .udp src dst (load16At udp 0) (load16At udp 2) ((udp.drop 8).take plen)

/-- `body` is what follows the header, `total - ihl` bytes. -/
def demux (packet body : List Byte) : Option Upcall :=
  let src := swap32 (load32At packet 12)
  let dst := swap32 (load32At packet 16)
  let proto := byteAt packet 9
  if proto = 1#8 then some (.icmp src body)
  else if proto = 6#8 ∧ body.length > 20 then
    some (.tcp (load32At packet 12) (load32At packet 16) body)
  else if proto = 17#8 ∧ body.length > 8 then some (udpUpcall src dst body)
  else none

def handleIp (dev : Device) (packet : List Byte) : Option Upcall :=
  let len := packet.length
  if len < 20 then none
  else if (byteAt packet 0) >>> 4 ≠ 4#8 then none
  else
    let ihl := ((byteAt packet 0) &&& 0xF#8).toNat * 4
    if ihl < 20 ∨ len < ihl then none
    else
      let total := (swap16 (load16At packet 2)).toNat
      let total := if total < ihl ∨ total > len then len else total
      let dst := swap32 (load32At packet 16)
      if dst ≠ dev.ip ∧ dst ≠ 0xFFFFFFFF#32 then none
      else demux packet ((packet.drop ihl).take (total - ihl))

def handleFrame (dev : Device) (frame : List Byte) : Option Upcall :=
  if frame.length < 14 then none
  else
    let type := swap16 (load16At frame 12)
    if type = ethTypeArp then some (.arp (frame.drop 14))
    else if type = ethTypeIp then handleIp dev (frame.drop 14)
    else none

/-- The beginning of `tcp_input`, up to the search for a socket. -/
def parseSegment (packet : List Byte) : Option Segment :=
  if packet.length < 20 then none
  else
    let hdrLen := ((byteAt packet 12) >>> 4).toNat * 4
    if hdrLen < 20 ∨ hdrLen > packet.length then none
    else
      some
        { sport := load16At packet 0
          dport := load16At packet 2
          flags := byteAt packet 13
          seq := swap32 (load32At packet 4)
          ack := swap32 (load32At packet 8)
          payload := packet.drop hdrLen }

end HelixOS.Net
