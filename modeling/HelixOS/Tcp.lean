import HelixOS.NetFrames
import HelixOS.RingBuffer

/-!
# The TCP socket table

The functions of `tcp.c` on the table of eight sockets.  A pointer to a socket is its place in
the table; a socket that is cleared is the socket of all zeros.  What a function sends is
returned as a list of segments.
-/

namespace HelixOS.Net

open ByteOrder Function List

inductive TcpState where
  | closed
  | listen
  | synSent
  | synReceived
  | established
  | finWait1
  | finWait2
  | closeWait
  | lastAck
  | timeWait
  deriving DecidableEq

def flagFin : Byte := 0x01#8
def flagSyn : Byte := 0x02#8
def flagPsh : Byte := 0x08#8
def flagAck : Byte := 0x10#8

def hasFlag (flags flag : Byte) : Bool := flags &&& flag ≠ 0#8

structure RxSeg where
  seq : BitVec 32
  data : List Byte
  deriving DecidableEq

structure TxSeg where
  seq : BitVec 32
  data : List Byte
  retries : BitVec 8
  deriving DecidableEq

abbrev SockId := Fin 8

structure TcpSock where
  used : Bool
  state : TcpState
  laddr : BitVec 32
  lport : BitVec 16
  bound : Bool
  raddr : BitVec 32
  rport : BitVec 16
  sndUna : BitVec 32
  sndNxt : BitVec 32
  rcvNxt : BitVec 32
  iss : BitVec 32
  rxq : RingBuffer RxSeg 8
  txq : RingBuffer TxSeg 16
  backlog : List SockId
  lastSendTick : BitVec 64
  retries : BitVec 32
  parent : Option SockId

structure PendingChild where
  sock : SockId
  hasAck : Bool
  ackSeq : BitVec 32
  data : List Byte

/-- The state of `tcp.c`. -/
structure Tcp where
  socks : SockId → TcpSock
  pending : List PendingChild
  ephemeral : BitVec 16

/-- What the functions ask of the rest of the kernel. -/
structure NetEnv where
  dev : Device
  nic : Nic
  now : BitVec 64

def NetEnv.ready (env : NetEnv) : Bool := env.dev.ready

def NetEnv.localIp (env : NetEnv) : BitVec 32 := netLocalIpBe env.dev

/-- A segment on its way out, with the addresses of its socket. -/
structure Outgoing where
  laddr : BitVec 32
  raddr : BitVec 32
  seg : Segment
  deriving DecidableEq

def TcpSock.cleared : TcpSock where
  used := false
  state := .closed
  laddr := 0#32
  lport := 0#16
  bound := false
  raddr := 0#32
  rport := 0#16
  sndUna := 0#32
  sndNxt := 0#32
  rcvNxt := 0#32
  iss := 0#32
  rxq := { buf := fun _ => ⟨0#32, []⟩, head := 0, tail := 0, count := 0 }
  txq := { buf := fun _ => ⟨0#32, [], 0#8⟩, head := 0, tail := 0, count := 0 }
  backlog := []
  lastSendTick := 0#64
  retries := 0#32
  parent := none

def Tcp.put (t : Tcp) (i : SockId) (s : TcpSock) : Tcp :=
  { t with socks := update t.socks i s }

@[simp] lemma Tcp.put_self (t : Tcp) (i : SockId) (s : TcpSock) : (t.put i s).socks i = s :=
  update_self ..

lemma Tcp.put_other (t : Tcp) {i j : SockId} (s : TcpSock) (h : j ≠ i) :
    (t.put i s).socks j = t.socks j := update_of_ne h ..

@[simp] lemma Tcp.put_pending (t : Tcp) (i : SockId) (s : TcpSock) :
    (t.put i s).pending = t.pending := rfl

/-! ## Allocation -/

def freshSock (env : NetEnv) (i : SockId) : TcpSock :=
  let iss := BitVec.ofNat 32 (env.now.toNat * 1000 + i.val * 101)
  { TcpSock.cleared with used := true, iss, sndUna := iss, sndNxt := iss + 1#32 }

def tcpAllocConn (env : NetEnv) (t : Tcp) : Option SockId × Tcp :=
  match (finRange 8).find? fun i => !(t.socks i).used with
  | some i => (some i, t.put i (freshSock env i))
  | none => (none, t)

def tcpFree (t : Tcp) (i : SockId) : Tcp := t.put i TcpSock.cleared

def tcpFindBound (t : Tcp) (port : BitVec 16) : Option SockId :=
  (finRange 8).find? fun i => (t.socks i).used && (t.socks i).bound && (t.socks i).lport = port

def tcpEinval : ℤ := -22
def tcpEaddrinuse : ℤ := -98
def tcpEagain : ℤ := -11

def tcpBind (env : NetEnv) (t : Tcp) (i : SockId) (addr : BitVec 32) (port : BitVec 16) : ℤ × Tcp :=
  if !(t.socks i).used then (tcpEinval, t)
  else
    let (port, t) :=
      if port = 0#16 then
        let next := t.ephemeral + 1#16
        (swap16 t.ephemeral, { t with ephemeral := if next < 41000#16 then 41000#16 else next })
      else (port, t)
    if (tcpFindBound t port).isSome then (tcpEaddrinuse, t)
    else
      let addr := if addr = 0#32 then env.localIp else addr
      (0, t.put i { t.socks i with laddr := addr, lport := port, bound := true })

/-! ## Sending -/

def sendSegment (env : NetEnv) (s : TcpSock) (flags : Byte) (seq ack : BitVec 32)
    (data : List Byte) : List Outgoing :=
  if env.ready then [⟨s.laddr, s.raddr, ⟨s.lport, s.rport, flags, seq, ack, data⟩⟩] else []

/-- What `tcp_send_segment` returns for the segment. -/
def sendStatus (env : NetEnv) : List Outgoing → ℤ
  | [] => -1
  | o :: _ => (tcpSendSegment env.dev o.laddr o.raddr o.seg).1.result env.nic

def tcpConnect (env : NetEnv) (t : Tcp) (i : SockId) (raddr : BitVec 32) (rport : BitVec 16) :
    (ℤ × List Outgoing) × Tcp :=
  if !(t.socks i).used ∨ (t.socks i).state ≠ .closed then ((tcpEinval, []), t)
  else
    let t := if (t.socks i).bound then t else (tcpBind env t i 0#32 0#16).2
    let s : TcpSock :=
      { t.socks i with
        raddr, rport
        rcvNxt := 0#32
        state := .synSent
        sndNxt := (t.socks i).iss
        retries := 0#32
        lastSendTick := env.now }
    let out := sendSegment env s flagSyn s.sndNxt 0#32 []
    ((sendStatus env out, out), t.put i s)

/-- Data is kept for retransmission if there is a place for it, and sent in any case. -/
def tcpSendData (env : NetEnv) (t : Tcp) (i : SockId) (data : List Byte) :
    (ℤ × List Outgoing) × Tcp :=
  let s := t.socks i
  if s.state ≠ .established then ((tcpEinval, []), t)
  else if data = [] then ((0, []), t)
  else
    let data := data.take 1400
    let txq := if s.txq.count < 16 then s.txq.push ⟨s.sndNxt, data, 0#8⟩ else s.txq
    let out := sendSegment env s (flagPsh ||| flagAck) s.sndNxt s.rcvNxt data
    ((sendStatus env out, out),
      t.put i
        { s with txq, lastSendTick := env.now, sndNxt := s.sndNxt + BitVec.ofNat 32 data.length })

/-- The result and the bytes; a segment that is longer than the buffer loses its end. -/
def tcpRecvData (t : Tcp) (i : SockId) (buflen : ℕ) : (ℤ × List Byte) × Tcp :=
  let s := t.socks i
  if s.state ≠ .established then ((tcpEinval, []), t)
  else if s.rxq.count = 0 then ((tcpEagain, []), t)
  else
    let data := (s.rxq.buf s.rxq.tail).data.take buflen
    ((data.length, data),
      t.put i
        { s with rxq := s.rxq.pop, rcvNxt := s.rcvNxt + BitVec.ofNat 32 data.length })

/-! ## Listening -/

/-- Early data of a child goes into its queue. -/
def TcpSock.takeEarly (child : TcpSock) (data : List Byte) : TcpSock :=
  if data ≠ [] ∧ child.rxq.count < 8 then
    { child with
      rxq := child.rxq.push ⟨child.rcvNxt, data⟩
      rcvNxt := child.rcvNxt + BitVec.ofNat 32 data.length }
  else child

/-- A child that has waited for the listener `i`. -/
def TcpSock.adopted (child : TcpSock) (i : SockId) (pc : PendingChild) : TcpSock :=
  let child := { child with parent := some i }
  let child :=
    if pc.hasAck then
      { child with
        state := .established, rcvNxt := pc.ackSeq, sndUna := pc.ackSeq, sndNxt := pc.ackSeq }
    else child
  child.takeEarly pc.data

/-- One round of the first loop of `tcp_listen`. -/
def adopt (i : SockId) (t : Tcp) (pc : PendingChild) : Tcp :=
  if (t.socks pc.sock).lport = (t.socks i).lport ∧ (t.socks i).backlog.length < 4 then
    let t := t.put pc.sock ((t.socks pc.sock).adopted i pc)
    t.put i { t.socks i with backlog := (t.socks i).backlog ++ [pc.sock] }
  else t

def tcpListen (env : NetEnv) (t : Tcp) (i : SockId) (port : BitVec 16) : ℤ × Tcp :=
  if !(t.socks i).used then (tcpEinval, t)
  else
    let t :=
      if (t.socks i).bound then t
      else
        let (port, t) :=
          if port = 0#16 then (swap16 t.ephemeral, { t with ephemeral := t.ephemeral + 1#16 })
          else (port, t)
        t.put i { t.socks i with laddr := env.localIp, lport := port, bound := true }
    let t := t.put i { t.socks i with state := .listen, backlog := [] }
    let t := t.pending.foldl (adopt i) t
    (0, { t with
      pending := t.pending.filter fun pc => (t.socks pc.sock).lport ≠ (t.socks i).lport })

def tcpAccept (t : Tcp) (i : SockId) : Option SockId × Tcp :=
  if (t.socks i).state ≠ .listen then (none, t)
  else
    match (t.socks i).backlog with
    | [] => (none, t)
    | child :: rest =>
      let t := t.put i { t.socks i with backlog := rest }
      (some child, t.put child { t.socks child with parent := none })

def Tcp.accepting (t : Tcp) (i child : SockId) (rest : List SockId) : Tcp :=
  let t := t.put i { t.socks i with backlog := rest }
  t.put child { t.socks child with parent := none }

lemma tcpAccept_cases (t : Tcp) (i : SockId) :
    tcpAccept t i = (none, t) ∨ ∃ child rest, (t.socks i).state = .listen ∧
      (t.socks i).backlog = child :: rest ∧
      tcpAccept t i = (some child, t.accepting i child rest) := by
  by_cases hlisten : (t.socks i).state = .listen
  · cases hbacklog : (t.socks i).backlog with
    | nil =>
      left
      simp [tcpAccept, hlisten, hbacklog]
    | cons child rest =>
      right
      refine ⟨child, rest, hlisten, rfl, ?_⟩
      rw [tcpAccept, if_neg (not_not.mpr hlisten), hbacklog]
      rfl
  · left
    simp [tcpAccept, hlisten]

/-! ## Incoming segments -/

def TcpSock.listensOn (s : TcpSock) (port : BitVec 16) : Bool :=
  s.used && s.state = .listen && s.bound && s.lport = port

def TcpSock.isPeerOf (s : TcpSock) (src : BitVec 32) (seg : Segment) : Bool :=
  s.used && s.state ≠ .listen && s.state ≠ .closed && s.lport = seg.dport &&
    s.rport = seg.sport && s.raddr = src

/-- The first connection with this peer; without one, the last listener of the port. -/
def findSocket (t : Tcp) (src : BitVec 32) (seg : Segment) : Option SockId :=
  ((finRange 8).find? fun i => (t.socks i).isPeerOf src seg).or
    ((finRange 8).filter fun i => (t.socks i).listensOn seg.dport).getLast?

def childSock (env : NetEnv) (i : SockId) (laddr : BitVec 32) (bound : Bool)
    (parent : Option SockId) (src : BitVec 32) (seg : Segment) : TcpSock :=
  let iss := BitVec.ofNat 32 (env.now.toNat * 997)
  { freshSock env i with
    laddr
    lport := seg.dport
    raddr := src
    rport := seg.sport
    bound
    state := .synReceived
    rcvNxt := seg.seq + 1#32
    iss
    sndNxt := iss
    sndUna := iss
    parent }

def isSyn (seg : Segment) : Bool := hasFlag seg.flags flagSyn && !hasFlag seg.flags flagAck

def PendingChild.keep (pc : PendingChild) (payload : List Byte) : PendingChild :=
  if payload ≠ [] ∧ pc.data = [] ∧ payload.length ≤ 1400 then { pc with data := payload } else pc

/-- A segment for a waiting child that has no match in the socket table. -/
def PendingChild.input (pc : PendingChild) (seg : Segment) : PendingChild :=
  let pc :=
    if hasFlag seg.flags flagAck && !hasFlag seg.flags flagSyn then
      { pc with hasAck := true, ackSeq := seg.seq }
    else pc
  pc.keep seg.payload

def Tcp.waitsFor (t : Tcp) (seg : Segment) (pc : PendingChild) : Bool :=
  (t.socks pc.sock).rport = seg.sport && (t.socks pc.sock).lport = seg.dport

def modifyFirst {α : Type*} (p : α → Bool) (f : α → α) : List α → List α
  | [] => []
  | a :: as => if p a then f a :: as else a :: modifyFirst p f as

def sendSynAck (env : NetEnv) (child : TcpSock) : List Outgoing :=
  sendSegment env child (flagSyn ||| flagAck) child.sndNxt child.rcvNxt []

def inputPending (env : NetEnv) (t : Tcp) (src : BitVec 32) (seg : Segment) :
    List Outgoing × Tcp :=
  if t.pending.any (t.waitsFor seg) then
    ([], { t with
      pending := modifyFirst (t.waitsFor seg) (fun pc => pc.input seg) t.pending })
  else if isSyn seg ∧ t.pending.length < 4 then
    match tcpAllocConn env t with
    | (some i, t) =>
      let child := childSock env i env.localIp false none src seg
      (sendSynAck env child,
        { t.put i child with pending := t.pending ++ [⟨i, false, 0#32, []⟩] })
    | (none, t) => ([], t)
  else ([], t)

def inputListen (env : NetEnv) (t : Tcp) (i : SockId) (src : BitVec 32) (seg : Segment) :
    List Outgoing × Tcp :=
  if (t.socks i).backlog.length ≥ 4 then ([], t)
  else
    match tcpAllocConn env t with
    | (some c, t) =>
      let child := childSock env c (t.socks i).laddr true (some i) src seg
      (sendSynAck env child, t.put c child)
    | (none, t) => ([], t)

def inputSynReceived (t : Tcp) (i : SockId) (seg : Segment) : Tcp :=
  let s := { t.socks i with
    state := .established, rcvNxt := seg.seq, sndUna := seg.ack, sndNxt := seg.ack }
  let t := t.put i s
  match s.parent with
  | none =>
    { t with
      pending := modifyFirst (fun pc => pc.sock = i)
        (fun pc => { pc with hasAck := true, ackSeq := seg.seq }.keep seg.payload) t.pending }
  | some p =>
    if (t.socks p).backlog.length < 4 then
      t.put p { t.socks p with backlog := (t.socks p).backlog ++ [i] }
    else t

def inputSynSent (env : NetEnv) (t : Tcp) (i : SockId) (seg : Segment) : List Outgoing × Tcp :=
  let s := { t.socks i with
    state := .established, rcvNxt := seg.seq + 1#32, sndUna := seg.ack, sndNxt := seg.ack }
  (sendSegment env s flagAck s.sndNxt s.rcvNxt [], t.put i s)

/-- The loop that takes confirmed segments out of the transmit queue. -/
def drainTx (una : BitVec 32) : ℕ → RingBuffer TxSeg 16 → RingBuffer TxSeg 16
  | 0, q => q
  | n + 1, q =>
    if 0 < q.count then
      let oldest := q.buf q.tail
      if oldest.seq + BitVec.ofNat 32 oldest.data.length ≤ una then drainTx una n q.pop else q
    else q

def TcpSock.onAck (s : TcpSock) (ack : BitVec 32) : TcpSock :=
  let una := if ack > s.sndUna then ack else s.sndUna
  { s with sndUna := una, txq := drainTx una s.txq.count s.txq }

/-- Data is queued as it comes, whatever its sequence number. -/
def TcpSock.onData (s : TcpSock) (seg : Segment) : TcpSock :=
  if seg.payload ≠ [] ∧ s.rxq.count < 8 then
    { s with rxq := s.rxq.push ⟨seg.seq, seg.payload.take 1400⟩ }
  else s

def dataAck (env : NetEnv) (s : TcpSock) (seg : Segment) : List Outgoing :=
  if seg.payload ≠ [] ∧ s.rxq.count < 8 then
    sendSegment env s flagAck s.sndNxt
      (seg.seq + BitVec.ofNat 32 (seg.payload.take 1400).length) []
  else []

def TcpSock.onEstablished (s : TcpSock) (seg : Segment) : TcpSock :=
  let s := if hasFlag seg.flags flagAck then s.onAck seg.ack else s
  let s := s.onData seg
  if hasFlag seg.flags flagFin then { s with state := .closeWait } else s

def inputEstablished (env : NetEnv) (t : Tcp) (i : SockId) (seg : Segment) :
    List Outgoing × Tcp :=
  let s := t.socks i
  (dataAck env s seg ++
      (if hasFlag seg.flags flagFin then sendSegment env s flagAck s.sndNxt (seg.seq + 1#32) []
        else []),
    t.put i (s.onEstablished seg))

/-- The last `FIN` clears the socket. -/
def inputFin (env : NetEnv) (t : Tcp) (i : SockId) (seg : Segment) : List Outgoing × Tcp :=
  (sendSegment env (t.socks i) flagAck (t.socks i).sndNxt (seg.seq + 1#32) [], tcpFree t i)

def tcpInput (env : NetEnv) (t : Tcp) (src : BitVec 32) (seg : Segment) : List Outgoing × Tcp :=
  if !env.ready then ([], t)
  else
    match findSocket t src seg with
    | none => inputPending env t src seg
    | some i =>
      match (t.socks i).state with
      | .listen => if isSyn seg then inputListen env t i src seg else ([], t)
      | .synReceived =>
        if hasFlag seg.flags flagAck then ([], inputSynReceived t i seg) else ([], t)
      | .synSent =>
        if hasFlag seg.flags flagSyn && hasFlag seg.flags flagAck then inputSynSent env t i seg
        else ([], t)
      | .established => inputEstablished env t i seg
      | .finWait1 =>
        if hasFlag seg.flags flagAck then
          if hasFlag seg.flags flagFin then inputFin env t i seg
          else ([], t.put i { t.socks i with state := .finWait2 })
        else ([], t)
      | .finWait2 => if hasFlag seg.flags flagFin then inputFin env t i seg else ([], t)
      | .closed | .closeWait | .lastAck | .timeWait => ([], t)

/-! ## Retransmission -/

def retransTimeoutTicks : BitVec 64 := 50#64

def retransMaxRetries : ℕ := 3

/-- The next `n` segments of the queue, from place `k` on; `none` when one of them has been sent
too often. -/
def resendFrom (env : NetEnv) : ℕ → ℕ → TcpSock → List Outgoing × Option TcpSock
  | 0, _, s => ([], some s)
  | n + 1, k, s =>
    let tx := s.txq.buf (s.txq.cell k)
    let tx := { tx with retries := tx.retries + 1#8 }
    let s := { s with txq := { s.txq with buf := update s.txq.buf (s.txq.cell k) tx } }
    if tx.retries.toNat > retransMaxRetries then ([], none)
    else
      let rest := resendFrom env n (k + 1) s
      (sendSegment env s (flagPsh ||| flagAck) tx.seq s.rcvNxt tx.data ++ rest.1, rest.2)

def TcpSock.retransmit (env : NetEnv) (s : TcpSock) : List Outgoing × TcpSock :=
  if !s.used then ([], s)
  else if s.state = .synSent then
    if env.now - s.lastSendTick < retransTimeoutTicks ∨ s.retries.toNat ≥ retransMaxRetries then
      ([], s)
    else
      (sendSegment env s flagSyn s.sndNxt 0#32 [],
        { s with retries := s.retries + 1#32, lastSendTick := env.now })
  else if (s.state ≠ .established ∧ s.state ≠ .finWait1) ∨ s.txq.count = 0 ∨
      env.now - s.lastSendTick < retransTimeoutTicks then ([], s)
  else
    match resendFrom env s.txq.count 0 s with
    | (sent, some s) => (sent, { s with lastSendTick := env.now })
    | (sent, none) => (sent, TcpSock.cleared)

def tcpRetransmit (env : NetEnv) (t : Tcp) : List Outgoing × Tcp :=
  ((finRange 8).flatMap fun i => ((t.socks i).retransmit env).1,
    { t with socks := fun i => ((t.socks i).retransmit env).2 })

end HelixOS.Net
