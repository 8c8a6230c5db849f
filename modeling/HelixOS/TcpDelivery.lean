import HelixOS.SequenceNumbers
import HelixOS.TcpConnections

/-!
# The receive queue

A peer sends the bytes of a stream, cut into segments; the application reads them from a queue
of eight segments.  The code queues a segment whatever its sequence number is, hands out the
oldest segment as far as the buffer holds it and drops the rest, and hands out nothing more
after the peer has closed its side.
-/

namespace HelixOS.Net

open ByteOrder SequenceNumbers TrackedRuns List

variable {out : List Outgoing}

/-- The peer of a connection and what it sends. -/
structure Peer where
  ends : Endpoint
  /-- The sequence number of the first byte. -/
  isn : BitVec 32
  stream : List Byte

def Peer.piece (p : Peer) (off len : ℕ) : List Byte := (p.stream.drop off).take len

def Peer.segment (p : Peer) (off len : ℕ) (flags : Byte) (ack : BitVec 32) : Segment :=
  ⟨p.ends.rport, p.ends.lport, flags, seqAt p.isn off, ack, p.piece off len⟩

structure Delivery where
  tcp : Tcp
  /-- The bytes that the application has read. -/
  returned : List Byte
  /-- The acknowledgement numbers that were sent, each with the number of sequence numbers that
  the peer had used by then. -/
  acks : List (BitVec 32 × ℕ)
  /-- The number of bytes that the peer has sent. -/
  next : ℕ
  finished : Bool

inductive PeerEvent where
  | data (env : NetEnv) (off len : ℕ) (flags : Byte) (ack : BitVec 32)
  | send (env : NetEnv) (bytes : List Byte)
  | recv (buflen : ℕ)
  | tick (env : NetEnv)

def Delivery.used (d : Delivery) : ℕ := d.next + d.finished.toNat

def ackNumbers (out : List Outgoing) : List (BitVec 32) :=
  (out.filter fun o => hasFlag o.seg.flags flagAck).map fun o => o.seg.ack

def Delivery.note (d : Delivery) (t : Tcp) (out : List Outgoing) : Delivery :=
  { d with tcp := t, acks := d.acks ++ (ackNumbers out).map fun a => (a, d.used) }

def Delivery.step (p : Peer) (i : SockId) (d : Delivery) : PeerEvent → Delivery
  | .data env off len flags ack =>
    let ev := ConnEvent.input env (p.segment off len flags ack)
    let d' := { d with
      next := off + (p.piece off len).length, finished := d.finished || hasFlag flags flagFin }
    d'.note (d.tcp.connStep p.ends i ev) (d.tcp.connOutput p.ends i ev)
  | .send env bytes =>
    d.note (d.tcp.connStep p.ends i (.send env bytes))
      (d.tcp.connOutput p.ends i (.send env bytes))
  | .recv buflen =>
    { d with
      tcp := d.tcp.connStep p.ends i (.recv buflen)
      returned := d.returned ++ d.tcp.connBytes i (.recv buflen) }
  | .tick env => d.note (tcpRetransmit env d.tcp).2 ((d.tcp.socks i).retransmit env).1

def TcpSock.queued (s : TcpSock) : List Byte := s.rxq.contents.flatMap RxSeg.data

def TcpSock.HoldsOldest (s : TcpSock) (buflen : ℕ) : Prop :=
  0 < s.rxq.count → (s.rxq.buf s.rxq.tail).data.length ≤ buflen

/-- A network that may lose, repeat and reorder the segments of the stream, and an application
whose buffers hold a whole segment. -/
def AnyOrder (p : Peer) (i : SockId) (d : Delivery) : PeerEvent → Prop
  | .data _ off len _ _ => (p.piece off len).length ≤ 1400
  | .send _ _ => True
  | .recv buflen => (d.tcp.socks i).HoldsOldest buflen
  | .tick env => ((d.tcp.socks i).retransmit env).2.used

/-- Data that is queued begins with the first byte that is neither read nor queued. -/
def QueuedInOrder (p : Peer) (i : SockId) (d : Delivery) : PeerEvent → Prop
  | .data env off len _ _ =>
    env.ready → (d.tcp.socks i).state = .established → (d.tcp.socks i).rxq.count < 8 →
      p.piece off len ≠ [] → off = (d.returned ++ (d.tcp.socks i).queued).length
  | _ => True

variable {t : Tcp} {p : Peer} {i : SockId} {s : TcpSock} {d d₀ : Delivery} {ev : PeerEvent}
  {env : NetEnv} {seg : Segment} {off len buflen : ℕ} {flags : Byte} {ack : BitVec 32}

/-! ## The receive queue of one socket -/

def TcpSock.Accepts (s : TcpSock) (seg : Segment) : Prop := seg.payload ≠ [] ∧ s.rxq.count < 8

instance (s : TcpSock) (seg : Segment) : Decidable (s.Accepts seg) :=
  inferInstanceAs (Decidable (_ ∧ _))

lemma TcpSock.onData_rx (s : TcpSock) (seg : Segment) : (s.onData seg).rcvNxt = s.rcvNxt ∧
      (s.onData seg).rxq =
        if s.Accepts seg then s.rxq.push ⟨seg.seq, seg.payload.take 1400⟩ else s.rxq := by
  by_cases hacc : s.Accepts seg
  · rw [if_pos hacc, TcpSock.onData, if_pos (show seg.payload ≠ [] ∧ s.rxq.count < 8 from hacc)]
    exact ⟨rfl, rfl⟩
  · rw [if_neg hacc, TcpSock.onData, if_neg (show ¬ (seg.payload ≠ [] ∧ s.rxq.count < 8) from hacc)]
    exact ⟨rfl, rfl⟩

lemma TcpSock.onEstablished_rx (s : TcpSock) (seg : Segment) :
    (s.onEstablished seg).rcvNxt = s.rcvNxt ∧
      (s.onEstablished seg).rxq =
        if s.Accepts seg then s.rxq.push ⟨seg.seq, seg.payload.take 1400⟩ else s.rxq := by
  obtain ⟨s', hs', hrcv, hrxq⟩ :
      ∃ s', s' = (if hasFlag seg.flags flagAck then s.onAck seg.ack else s) ∧
        s'.rcvNxt = s.rcvNxt ∧ s'.rxq = s.rxq := by
    refine ⟨_, rfl, ?_⟩
    split_ifs <;> exact ⟨rfl, rfl⟩
  have hacc : s'.Accepts seg ↔ s.Accepts seg := by
    rw [TcpSock.Accepts, TcpSock.Accepts, hrxq]
  have hdata := s'.onData_rx seg
  simp only [hacc, hrcv, hrxq] at hdata
  unfold TcpSock.onEstablished
  rw [← hs']
  by_cases hfin : hasFlag seg.flags flagFin
  · simp only [if_pos hfin]
    exact hdata
  · simp only [if_neg hfin]
    exact hdata

lemma TcpSock.onEstablished_queued (s : TcpSock) (seg : Segment) (hsound : s.rxq.Sound) :
    (s.onEstablished seg).rxq.Sound ∧
      (s.onEstablished seg).queued =
        s.queued ++ if s.Accepts seg then seg.payload.take 1400 else [] := by
  have hrxq := (s.onEstablished_rx seg).2
  by_cases hacc : s.Accepts seg
  · rw [if_pos hacc] at hrxq ⊢
    rw [TcpSock.queued, hrxq, RingBuffer.contents_push hsound _ hacc.2]
    exact ⟨hsound.push _ hacc.2, by simp [TcpSock.queued]⟩
  · rw [if_neg hacc] at hrxq ⊢
    rw [TcpSock.queued, hrxq, append_nil]
    exact ⟨hsound, rfl⟩

lemma TcpSock.connStep_input_queued (env : NetEnv) (seg : Segment) (hsound : s.rxq.Sound) :
    (s.connStep (.input env seg)).rxq.Sound ∧
      (s.connStep (.input env seg)).queued = s.queued ++
        if env.ready ∧ s.state = .established ∧ s.Accepts seg then seg.payload.take 1400
        else [] := by
  simp only [TcpSock.connStep]
  by_cases hopen : env.ready ∧ s.state = .established
  · rw [if_pos hopen]
    simp only [hopen.1, hopen.2, true_and]
    exact s.onEstablished_queued seg hsound
  · have hnot : ¬ (env.ready ∧ s.state = .established ∧ s.Accepts seg) :=
      fun h => hopen ⟨h.1, h.2.1⟩
    rw [if_neg hopen, if_neg hnot, append_nil]
    exact ⟨hsound, rfl⟩

lemma TcpSock.connStep_send_rx (s : TcpSock) (env : NetEnv) (bytes : List Byte) :
    (s.connStep (.send env bytes)).rxq = s.rxq ∧
      (s.connStep (.send env bytes)).rcvNxt = s.rcvNxt ∧
      (s.connStep (.send env bytes)).state = s.state := by
  simp only [TcpSock.connStep]
  split_ifs <;> exact ⟨rfl, rfl, rfl⟩

lemma TcpSock.queued_congr {s' : TcpSock} (h : s'.rxq = s.rxq) : s'.queued = s.queued := by
  rw [TcpSock.queued, h, TcpSock.queued]

lemma TcpSock.queued_eq_nil (h : s.rxq.count = 0) : s.queued = [] := by
  have hempty : s.rxq.contents = [] := eq_nil_of_length_eq_zero (by simpa using h)
  rw [TcpSock.queued, hempty, flatMap_nil]

lemma TcpSock.takenData_queued (hpos : 0 < s.rxq.count) (hholds : s.HoldsOldest buflen) :
    s.firstData buflen ++ (s.takenData buflen).queued = s.queued := by
  have hcontents := RingBuffer.contents_pop s.rxq hpos
  rw [TcpSock.firstData, take_of_length_le (hholds hpos), TcpSock.queued, TcpSock.queued,
    hcontents, flatMap_cons]
  rfl

/-! ## Delivery in order -/

structure Delivery.InOrder (p : Peer) (i : SockId) (d : Delivery) : Prop where
  connected : d.tcp.Connected p.ends i
  sound : (d.tcp.socks i).rxq.Sound
  bytes : d.returned ++ (d.tcp.socks i).queued <+: p.stream

lemma Peer.segment_isFor (p : Peer) (off len : ℕ) (flags : Byte) (ack : BitVec 32) :
    (p.segment off len flags ack).IsFor p.ends := ⟨rfl, rfl⟩

lemma Peer.prefix_piece {part : List Byte} (h : part <+: p.stream) (len) :
    part ++ p.piece part.length len <+: p.stream := by
  obtain ⟨rest, hrest⟩ := h
  rw [Peer.piece, ← hrest, drop_left]
  exact (prefix_append_right_inj part).mpr ⟨rest.drop len, take_append_drop len rest⟩

def TcpSock.peerStep (p : Peer) (s : TcpSock) : PeerEvent → TcpSock
  | .data env off len flags ack => s.connStep (.input env (p.segment off len flags ack))
  | .send env bytes => s.connStep (.send env bytes)
  | .recv buflen => s.connStep (.recv buflen)
  | .tick env => (s.retransmit env).2

lemma Delivery.step_sock (h : d.tcp.Connected p.ends i) (ev : PeerEvent) :
    (d.step p i ev).tcp.socks i = (d.tcp.socks i).peerStep p ev := by
  have hconn : ∀ cev : ConnEvent, cev.IsFor p.ends →
      (d.tcp.connStep p.ends i cev).socks i = (d.tcp.socks i).connStep cev := by
    intro cev hcev
    rw [h.connStep_eq hcev, Tcp.put_self]
  cases ev with
  | data env off len flags ack => exact hconn _ (p.segment_isFor off len flags ack)
  | send env bytes => exact hconn (.send env bytes) trivial
  | recv buflen => exact hconn (.recv buflen) trivial
  | tick env => rfl

/-- The timer does not give the connection up. -/
def StaysOpen (i : SockId) (d : Delivery) : PeerEvent → Prop
  | .tick env => ((d.tcp.socks i).retransmit env).2.used
  | _ => True

lemma Delivery.step_connected (h : d.tcp.Connected p.ends i) (hopen : StaysOpen i d ev) :
    (d.step p i ev).tcp.Connected p.ends i := by
  cases ev with
  | data env off len flags ack =>
    exact h.step (show ConnEvent.IsFor p.ends (.input env (p.segment off len flags ack)) from
      p.segment_isFor off len flags ack)
  | send env bytes => exact h.step (show ConnEvent.IsFor p.ends (.send env bytes) from trivial)
  | recv buflen => exact h.step (show ConnEvent.IsFor p.ends (.recv buflen) from trivial)
  | tick env => exact h.tick hopen

lemma TcpSock.retransmit_rx (hused : (s.retransmit env).2.used) :
    (s.retransmit env).2.rxq = s.rxq ∧ (s.retransmit env).2.rcvNxt = s.rcvNxt ∧
      (s.retransmit env).2.state = s.state := by
  rcases s.retransmit_cases env with hcleared | ⟨q, r, k, hsame⟩
  · rw [hcleared] at hused
    exact absurd hused (by decide)
  · rw [hsame]
    exact ⟨rfl, rfl, rfl⟩

lemma Tcp.connBytes_queued (hsound : (t.socks i).rxq.Sound)
    (hholds : (t.socks i).HoldsOldest buflen) : ((t.socks i).connStep (.recv buflen)).rxq.Sound ∧
      t.connBytes i (.recv buflen) ++ ((t.socks i).connStep (.recv buflen)).queued =
        (t.socks i).queued := by
  rw [Tcp.connBytes_recv]
  simp only [TcpSock.connStep]
  by_cases hread : (t.socks i).state = .established ∧ 0 < (t.socks i).rxq.count
  · rw [if_pos hread, if_pos hread]
    exact ⟨hsound.pop hread.2, TcpSock.takenData_queued hread.2 hholds⟩
  · rw [if_neg hread, if_neg hread]
    exact ⟨hsound, rfl⟩

lemma AnyOrder.staysOpen (h : AnyOrder p i d ev) : StaysOpen i d ev := by
  cases ev with
  | data env off len flags ack => trivial
  | send env bytes => trivial
  | recv buflen => trivial
  | tick env => exact h

lemma Delivery.InOrder.step (h : d.InOrder p i) (hany : AnyOrder p i d ev)
    (horder : QueuedInOrder p i d ev) : (d.step p i ev).InOrder p i := by
  have hconn := Delivery.step_connected h.connected hany.staysOpen
  have hsock := Delivery.step_sock h.connected ev
  suffices hrx : ((d.tcp.socks i).peerStep p ev).rxq.Sound ∧
      (d.step p i ev).returned ++ ((d.tcp.socks i).peerStep p ev).queued <+: p.stream from
    ⟨hconn, hsock ▸ hrx.1, hsock ▸ hrx.2⟩
  cases ev with
  | data env off len flags ack =>
    obtain ⟨hsound, hqueued⟩ :=
      TcpSock.connStep_input_queued env (p.segment off len flags ack) h.sound
    refine ⟨hsound, ?_⟩
    simp only [TcpSock.peerStep, Delivery.step, Delivery.note]
    rw [hqueued, ← append_assoc]
    split_ifs with hacc
    · obtain ⟨hready, hstate, hne, hroom⟩ := hacc
      obtain rfl := horder hready hstate hroom hne
      rw [Peer.segment, take_of_length_le hany]
      exact Peer.prefix_piece h.bytes len
    · rw [append_nil]
      exact h.bytes
  | send env bytes =>
    have hrxq := ((d.tcp.socks i).connStep_send_rx env bytes).1
    rw [TcpSock.peerStep, TcpSock.queued_congr hrxq, hrxq]
    exact ⟨h.sound, h.bytes⟩
  | recv buflen =>
    obtain ⟨hsound, hqueued⟩ := Tcp.connBytes_queued h.sound hany
    refine ⟨hsound, ?_⟩
    simp only [TcpSock.peerStep, Delivery.step]
    rw [append_assoc, hqueued]
    exact h.bytes
  | tick env =>
    have hrxq := (TcpSock.retransmit_rx hany).1
    rw [TcpSock.peerStep, TcpSock.queued_congr hrxq, hrxq]
    exact ⟨h.sound, h.bytes⟩

/-- An established connection of which nothing has been read yet; what is queued is the beginning
of the stream. -/
structure Delivery.Opens (p : Peer) (i : SockId) (d : Delivery) : Prop where
  connected : d.tcp.Connected p.ends i
  state : (d.tcp.socks i).state = .established
  sound : (d.tcp.socks i).rxq.Sound
  returned : d.returned = []
  acks : d.acks = []
  unfinished : d.finished = false
  queued : (d.tcp.socks i).queued = p.stream.take d.next
  next_le : d.next ≤ p.stream.length

lemma Delivery.Opens.inOrder (h : d.Opens p i) : d.InOrder p i where
  connected := h.connected
  sound := h.sound
  bytes := by
    rw [h.returned, h.queued, nil_append]
    exact take_prefix _ _

/-- The application reads a part of the peer's stream, as long as data is queued in order only. -/
theorem returned_prefix (hstart : d₀.Opens p i)
    (hreach : Reaches (fun d ev => some (d.step p i ev)) (fun _ _ _ _ => ())
      (fun d ev => AnyOrder p i d ev ∧ QueuedInOrder p i d ev) d₀ () d ()) :
    d.returned <+: p.stream := by
  have hinv := hreach.invariant (fun d _ => d.InOrder p i) hstart.inOrder
    fun d d' _ ev h hallowed hstep => by
      obtain rfl := Option.some.inj hstep
      exact h.step hallowed.1 hallowed.2
  exact (prefix_append _ _).trans hinv.bytes

def threeBytes : Peer := ⟨onePeer, 5#32, [1#8, 2#8, 3#8]⟩

def unread : Delivery := ⟨oneConnection 0#32 5#32, [], [], 0, false⟩

lemma unread_opens : unread.Opens threeBytes 0 where
  connected := oneConnection_connected 0#32 5#32
  state := rfl
  sound := ⟨rfl, Nat.zero_le _⟩
  returned := rfl
  acks := rfl
  unfinished := rfl
  queued := rfl
  next_le := by decide

def oneByteAt (off : ℕ) : PeerEvent := .data quietEnv off 1 flagAck 0#32

lemma oneByteAt_anyOrder (off) (d) : AnyOrder threeBytes 0 d (oneByteAt off) :=
  (length_take_le 1 _).trans (by decide)

theorem returned_prefix_two_bytes :
    ∃ d, Reaches (fun d ev => some (d.step threeBytes 0 ev)) (fun _ _ _ _ => ())
      (fun d ev => AnyOrder threeBytes 0 d ev ∧ QueuedInOrder threeBytes 0 d ev) unread () d () ∧
      d.returned = [1#8, 2#8] ∧ d.returned <+: threeBytes.stream := by
  have hstart : Reaches (fun d ev => some (d.step threeBytes 0 ev)) (fun _ _ _ _ => ()) (fun d ev =>
      AnyOrder threeBytes 0 d ev ∧ QueuedInOrder threeBytes 0 d ev) unread () unread () := .start
  have hreach := (((hstart.next (oneByteAt 0)
    ⟨oneByteAt_anyOrder 0 _, fun _ _ _ _ => by decide⟩ rfl).next (oneByteAt 1)
      ⟨oneByteAt_anyOrder 1 _, fun _ _ _ _ => by decide +kernel⟩ rfl).next (.recv 1400)
        ⟨fun _ => by decide +kernel, trivial⟩ rfl).next (.recv 1400)
          ⟨fun _ => by decide +kernel, trivial⟩ rfl
  exact ⟨_, hreach, by decide +kernel, returned_prefix unread_opens hreach⟩

/-- A segment that the network delivers twice is read twice. -/
theorem repeated_segment_read_twice :
    ∃ d, Reaches (fun d ev => some (d.step threeBytes 0 ev)) (fun _ _ _ _ => ())
      (AnyOrder threeBytes 0) unread () d () ∧ ¬ d.returned <+: threeBytes.stream := by
  have hstart : Reaches (fun d ev => some (d.step threeBytes 0 ev)) (fun _ _ _ _ => ())
      (AnyOrder threeBytes 0) unread () unread () := .start
  have hreach := (((hstart.next (oneByteAt 0) (oneByteAt_anyOrder 0 _) rfl).next (oneByteAt 0)
    (oneByteAt_anyOrder 0 _) rfl).next (.recv 1400) (fun _ => by decide +kernel) rfl).next
      (.recv 1400) (fun _ => by decide +kernel) rfl
  refine ⟨_, hreach, ?_⟩
  decide +kernel

/-! ## Delivery of everything that is acknowledged -/

/-- The peer sends its stream in order, nothing is lost, and nothing follows its end. -/
def InOrderPeer (p : Peer) (i : SockId) (d : Delivery) : PeerEvent → Prop
  | .data env off len _ _ => env.ready ∧ off = d.next ∧ (d.finished → p.piece off len = [])
  | .send _ _ => True
  | .recv buflen => 1 ≤ buflen
  | .tick env => ((d.tcp.socks i).retransmit env).2.used

/-- Data finds a place in the queue, the end of the stream finds an empty queue, and a buffer
holds the segment it is filled from. -/
def NothingDropped (p : Peer) (i : SockId) (d : Delivery) : PeerEvent → Prop
  | .data _ off len flags _ =>
    (d.tcp.socks i).state = .established →
      (p.piece off len ≠ [] → (d.tcp.socks i).rxq.count < 8 ∧ (p.piece off len).length ≤ 1400) ∧
      (hasFlag flags flagFin → p.piece off len = [] ∧ (d.tcp.socks i).rxq.count = 0)
  | .recv buflen => (d.tcp.socks i).HoldsOldest buflen
  | _ => True

def Delivery.reads (p : Peer) (i : SockId) (sizes : List ℕ) (d : Delivery) : Delivery :=
  sizes.foldl (fun d buflen => d.step p i (.recv buflen)) d

def Delivery.ReadsWhole (p : Peer) (i : SockId) : List ℕ → Delivery → Prop
  | [], _ => True
  | buflen :: sizes, d =>
    1 ≤ buflen ∧ (d.tcp.socks i).HoldsOldest buflen ∧
      Delivery.ReadsWhole p i sizes (d.step p i (.recv buflen))

/-- Every acknowledgement number is one that the peer has used, and what it covers of the stream
is obtained by reading the queue. -/
def Delivery.AckedObtained (p : Peer) (i : SockId) (d : Delivery) : Prop :=
  ∀ x ∈ d.acks, (∃ r ≤ x.2, x.1 = seqAt p.isn r) ∧
    ∀ r ≤ x.2, x.1 = seqAt p.isn r → ∀ j < r, j < d.next →
      ∀ sizes, Delivery.ReadsWhole p i sizes d → (d.tcp.socks i).rxq.count ≤ sizes.length →
        (d.reads p i sizes).returned[j]? = p.stream[j]?

structure Delivery.Complete (p : Peer) (i : SockId) (d : Delivery) : Prop where
  connected : d.tcp.Connected p.ends i
  sound : (d.tcp.socks i).rxq.Sound
  bytes : d.returned ++ (d.tcp.socks i).queued = p.stream.take d.next
  next_le : d.next ≤ p.stream.length
  rcv : (d.tcp.socks i).rcvNxt = seqAt p.isn d.returned.length
  state : (d.tcp.socks i).state = .established ∧ d.finished = false ∨
    (d.tcp.socks i).state = .closeWait ∧ d.finished = true ∧ (d.tcp.socks i).queued = []
  acks : ∀ x ∈ d.acks, x.2 ≤ d.used ∧ ∃ r ≤ x.2, x.1 = seqAt p.isn r

lemma Delivery.Complete.returned_le (h : d.Complete p i) : d.returned.length ≤ d.next := by
  have hlen := congrArg List.length h.bytes
  rw [length_append, length_take] at hlen
  omega

lemma Tcp.Connected.mem_output {e : Endpoint} {o : Outgoing} (h : t.Connected e i)
    (hseg : seg.IsFor e) (ho : o ∈ t.connOutput e i (.input env seg)) :
    (t.socks i).state = .established ∧
      ((t.socks i).Accepts seg ∧
          o.seg.ack = seg.seq + BitVec.ofNat 32 (seg.payload.take 1400).length ∨
        hasFlag seg.flags flagFin ∧ o.seg.ack = seg.seq + BitVec.ofNat 32 1) := by
  simp only [Tcp.connOutput, tcpInput, h.findSocket hseg] at ho
  cases hready : env.ready with
  | false => simp [hready] at ho
  | true =>
    rcases h.state with hstate | hstate
    · rw [hready, hstate] at ho
      refine ⟨hstate, ?_⟩
      rcases mem_append.mp ho with hdata | hfin
      · left
        rw [dataAck] at hdata
        split_ifs at hdata with hacc
        · exact ⟨hacc, ack_of_mem_sendSegment hdata⟩
        · simp at hdata
      · right
        split_ifs at hfin with hflag
        · exact ⟨hflag, ack_of_mem_sendSegment hfin⟩
        · simp at hfin
    · simp [hready, hstate] at ho

lemma Tcp.send_ack {e : Endpoint} {o : Outgoing} {bytes : List Byte}
    (ho : o ∈ t.connOutput e i (.send env bytes)) : o.seg.ack = (t.socks i).rcvNxt := by
  simp only [Tcp.connOutput, tcpSendData] at ho
  by_cases hstate : (t.socks i).state = .established
  · by_cases hbytes : bytes = []
    · simp [hstate, hbytes] at ho
    · rw [if_neg (not_not.mpr hstate), if_neg hbytes] at ho
      exact ack_of_mem_sendSegment ho
  · simp [hstate] at ho

lemma Delivery.mem_note {x : BitVec 32 × ℕ}
    (h : x ∈ (d.note t out).acks) : x ∈ d.acks ∨ ∃ o ∈ out, x = (o.seg.ack, d.used) := by
  rcases mem_append.mp h with hold | hnew
  · exact Or.inl hold
  · obtain ⟨a, ha, rfl⟩ := mem_map.mp hnew
    obtain ⟨o, ho, rfl⟩ := mem_map.mp ha
    exact Or.inr ⟨o, (mem_filter.mp ho).1, rfl⟩

lemma Delivery.Complete.note_rcv (h : d.Complete p i)
    (hout : ∀ o ∈ out, o.seg.ack = (d.tcp.socks i).rcvNxt) :
    ∀ x ∈ (d.note t out).acks, x.2 ≤ d.used ∧ ∃ r ≤ x.2, x.1 = seqAt p.isn r := by
  intro x hx
  rcases Delivery.mem_note hx with hold | ⟨o, ho, rfl⟩
  · exact h.acks x hold
  · have hle : d.returned.length ≤ d.used := h.returned_le.trans (Nat.le_add_right _ _)
    exact ⟨le_rfl, _, hle, (hout o ho).trans h.rcv⟩

lemma Peer.take_add_piece (p : Peer) (off len : ℕ) :
    p.stream.take (off + (p.piece off len).length) = p.stream.take off ++ p.piece off len := by
  rw [take_add, Peer.piece, length_take, ← take_eq_take_min]

section

variable (h : d.Complete p i) (hpeer : InOrderPeer p i d (.data env off len flags ack))
  (hkept : NothingDropped p i d (.data env off len flags ack))
include h hpeer hkept

lemma Delivery.Complete.data_sock :
    let s' := (d.tcp.socks i).peerStep p (.data env off len flags ack)
    s'.rxq.Sound ∧ s'.rcvNxt = (d.tcp.socks i).rcvNxt ∧
      s'.queued = (d.tcp.socks i).queued ++ p.piece off len ∧
      (s'.state = .established ∧ (d.finished || hasFlag flags flagFin) = false ∨
        s'.state = .closeWait ∧ (d.finished || hasFlag flags flagFin) = true ∧ s'.queued = []) := by
  obtain ⟨hready, rfl, hend⟩ := hpeer
  set seg := p.segment d.next len flags ack
  obtain ⟨hsound, hqueued⟩ := TcpSock.connStep_input_queued env seg h.sound
  rcases h.state with ⟨hstate, hopen⟩ | ⟨hstate, hclosed, hempty⟩
  · obtain ⟨hroom, hfin⟩ := hkept hstate
    have hstep : (d.tcp.socks i).connStep (.input env seg) = (d.tcp.socks i).onEstablished seg :=
      if_pos ⟨hready, hstate⟩
    have hpiece : (d.tcp.socks i).queued ++ p.piece d.next len =
        ((d.tcp.socks i).connStep (.input env seg)).queued := by
      rw [hqueued]
      congr 1
      by_cases hne : p.piece d.next len = []
      · have hnot : ¬ (env.ready ∧ (d.tcp.socks i).state = .established ∧
            (d.tcp.socks i).Accepts seg) := fun hacc => hacc.2.2.1 hne
        rw [if_neg hnot, hne]
      · obtain ⟨hcount, hlen⟩ := hroom hne
        rw [if_pos ⟨hready, hstate, hne, hcount⟩]
        exact (take_of_length_le hlen).symm
    refine ⟨hsound, ?_, hpiece.symm, ?_⟩
    · show ((d.tcp.socks i).connStep (.input env seg)).rcvNxt = _
      rw [hstep]
      exact ((d.tcp.socks i).onEstablished_rx seg).1
    · have hafter : ((d.tcp.socks i).connStep (.input env seg)).state =
          if hasFlag flags flagFin then .closeWait else .established := by
        rw [hstep, TcpSock.onEstablished_state, hstate]
        rfl
      rw [hopen, Bool.false_or]
      by_cases hflag : hasFlag flags flagFin
      · right
        obtain ⟨hne, hcount⟩ := hfin hflag
        rw [if_pos hflag] at hafter
        refine ⟨hafter, hflag, ?_⟩
        show ((d.tcp.socks i).connStep (.input env seg)).queued = []
        rw [← hpiece, hne, TcpSock.queued_eq_nil hcount, append_nil]
      · left
        rw [if_neg hflag] at hafter
        exact ⟨hafter, by simpa using hflag⟩
  · have hstep : (d.tcp.socks i).connStep (.input env seg) = d.tcp.socks i :=
      if_neg fun hest => by simp [hstate] at hest
    simp only [TcpSock.peerStep]
    rw [hstep, hend hclosed, append_nil, hclosed, Bool.true_or]
    exact ⟨h.sound, rfl, rfl, Or.inr ⟨hstate, rfl, hempty⟩⟩

lemma Delivery.Complete.data : (d.step p i (.data env off len flags ack)).Complete p i := by
  obtain ⟨hsound, hrcv, hqueued, hstate⟩ := h.data_sock hpeer hkept
  have hsock := Delivery.step_sock h.connected (.data env off len flags ack)
  obtain ⟨hready, rfl, hend⟩ := hpeer
  have hlen : (p.piece d.next len).length ≤ p.stream.length - d.next := by
    rw [Peer.piece, length_take, length_drop]
    exact Nat.min_le_right _ _
  have hle := h.next_le
  refine ⟨Delivery.step_connected h.connected trivial, hsock ▸ hsound, ?_, ?_, ?_, ?_, ?_⟩
  · rw [hsock, hqueued]
    show d.returned ++ (_ ++ _) = p.stream.take (d.next + _)
    rw [Peer.take_add_piece, ← h.bytes, append_assoc]
  · show d.next + _ ≤ _
    omega
  · rw [hsock, hrcv]
    exact h.rcv
  · rw [hsock]
    exact hstate
  · intro x hx
    rcases Delivery.mem_note hx with hold | ⟨o, ho, rfl⟩
    · obtain ⟨hused, hr⟩ := h.acks x hold
      refine ⟨hused.trans ?_, hr⟩
      have hfin : d.finished.toNat ≤ (d.finished || hasFlag flags flagFin).toNat := by
        cases d.finished <;> simp
      simp only [Delivery.used, Delivery.step, Delivery.note]
      omega
    · refine ⟨le_rfl, ?_⟩
      obtain ⟨hest, hnumber⟩ := h.connected.mem_output (p.segment_isFor d.next len flags ack) ho
      rcases hnumber with ⟨hacc, hnumber⟩ | ⟨hfin, hnumber⟩
      · refine ⟨d.next + (p.piece d.next len).length, Nat.le_add_right _ _, ?_⟩
        obtain ⟨-, hshort⟩ := (hkept hest).1 hacc.1
        rw [hnumber]
        show seqAt p.isn d.next + BitVec.ofNat 32 ((p.piece d.next len).take 1400).length = _
        rw [take_of_length_le hshort, seqAt_add]
      · refine ⟨d.next + 1, ?_, ?_⟩
        · have hflag : hasFlag flags flagFin = true := hfin
          simp [Delivery.used, hflag]
        · rw [hnumber]
          exact seqAt_add p.isn d.next 1

end

lemma Delivery.Complete.recv (h : d.Complete p i) (hholds : (d.tcp.socks i).HoldsOldest buflen) :
    (d.step p i (.recv buflen)).Complete p i := by
  obtain ⟨hsound, hqueued⟩ := Tcp.connBytes_queued h.sound hholds
  have hsock := Delivery.step_sock h.connected (.recv buflen)
  have hbytes : (d.step p i (.recv buflen)).returned ++
      ((d.tcp.socks i).connStep (.recv buflen)).queued = p.stream.take d.next := by
    rw [← h.bytes, ← hqueued, ← append_assoc]
    rfl
  refine ⟨Delivery.step_connected h.connected trivial, hsock ▸ hsound, hsock ▸ hbytes, h.next_le,
    ?_, ?_, h.acks⟩
  · rw [hsock]
    simp only [TcpSock.peerStep, TcpSock.connStep, Delivery.step, Tcp.connBytes_recv]
    split_ifs
    · rw [length_append, ← seqAt_add, ← h.rcv]
      rfl
    · rw [append_nil]
      exact h.rcv
  · rw [hsock]
    rcases h.state with ⟨hstate, hopen⟩ | ⟨hstate, hclosed, hempty⟩
    · left
      refine ⟨?_, hopen⟩
      simp only [TcpSock.peerStep, TcpSock.connStep]
      split_ifs <;> exact hstate
    · right
      have hsame : (d.tcp.socks i).connStep (.recv buflen) = d.tcp.socks i :=
        if_neg fun hest => by simp [hstate] at hest
      rw [TcpSock.peerStep, hsame]
      exact ⟨hstate, hclosed, hempty⟩

lemma Delivery.Complete.untouched (h : d.Complete p i)
    (hconn : t.Connected p.ends i) (hrxq : (t.socks i).rxq = (d.tcp.socks i).rxq)
    (hrcv : (t.socks i).rcvNxt = (d.tcp.socks i).rcvNxt)
    (hstate : (t.socks i).state = (d.tcp.socks i).state)
    (hout : ∀ o ∈ out, o.seg.ack = (d.tcp.socks i).rcvNxt) : (d.note t out).Complete p i where
  connected := hconn
  sound := hrxq ▸ h.sound
  bytes := by
    show d.returned ++ (t.socks i).queued = _
    rw [TcpSock.queued_congr hrxq]
    exact h.bytes
  next_le := h.next_le
  rcv := hrcv.trans h.rcv
  state := by
    show (t.socks i).state = _ ∧ _ ∨ (t.socks i).state = _ ∧ _ ∧ (t.socks i).queued = []
    rw [TcpSock.queued_congr hrxq, hstate]
    exact h.state
  acks := h.note_rcv hout

lemma Delivery.Complete.step (h : d.Complete p i) (hpeer : InOrderPeer p i d ev)
    (hkept : NothingDropped p i d ev) : (d.step p i ev).Complete p i := by
  cases ev with
  | data env off len flags ack => exact h.data hpeer hkept
  | send env bytes =>
    have hsock : (d.tcp.connStep p.ends i (.send env bytes)).socks i = _ :=
      Delivery.step_sock h.connected (.send env bytes)
    have hconn : (d.step p i (.send env bytes)).tcp.Connected p.ends i :=
      Delivery.step_connected h.connected trivial
    obtain ⟨hrxq, hrcv, hstate⟩ := (d.tcp.socks i).connStep_send_rx env bytes
    refine h.untouched hconn ?_ ?_ ?_ fun o ho => Tcp.send_ack ho
    · exact (congrArg TcpSock.rxq hsock).trans hrxq
    · exact (congrArg TcpSock.rcvNxt hsock).trans hrcv
    · exact (congrArg TcpSock.state hsock).trans hstate
  | recv buflen => exact h.recv hkept
  | tick env =>
    obtain ⟨hrxq, hrcv, hstate⟩ := TcpSock.retransmit_rx hpeer
    exact h.untouched (h.connected.tick hpeer) hrxq hrcv hstate fun o ho =>
      TcpSock.retransmit_ack h.connected.state ho

lemma Delivery.Complete.reads (h : d.Complete p i) (sizes : List ℕ)
    (hsizes : Delivery.ReadsWhole p i sizes d)
    (hlen : (d.tcp.socks i).state = .established → (d.tcp.socks i).rxq.count ≤ sizes.length) :
    (d.reads p i sizes).returned = p.stream.take d.next := by
  induction sizes generalizing d with
  | nil =>
    have hempty : (d.tcp.socks i).queued = [] := by
      rcases h.state with ⟨hstate, -⟩ | ⟨-, -, hempty⟩
      · exact TcpSock.queued_eq_nil (Nat.le_zero.mp (hlen hstate))
      · exact hempty
    have hbytes := h.bytes
    rwa [hempty, append_nil] at hbytes
  | cons buflen sizes ih =>
    obtain ⟨-, hholds, hrest⟩ := hsizes
    refine ih (h.recv hholds) hrest fun hafter => ?_
    rw [Delivery.step_sock h.connected] at hafter ⊢
    simp only [TcpSock.peerStep, TcpSock.connStep] at hafter ⊢
    rw [length_cons] at hlen
    split_ifs at hafter ⊢ with hread
    · have hcount := hlen hread.1
      show (d.tcp.socks i).rxq.count - 1 ≤ _
      omega
    · have hnone : ¬ 0 < (d.tcp.socks i).rxq.count := fun hpos => hread ⟨hafter, hpos⟩
      omega

lemma Delivery.Opens.complete (h : d.Opens p i) (hrcv : (d.tcp.socks i).rcvNxt = p.isn) :
    d.Complete p i where
  connected := h.connected
  sound := h.sound
  bytes := by rw [h.returned, h.queued, nil_append]
  next_le := h.next_le
  rcv := by rw [h.returned, length_nil, seqAt_zero, hrcv]
  state := Or.inl ⟨h.state, h.unfinished⟩
  acks := by simp [h.acks]

/-- What has been acknowledged can be read, as long as nothing is dropped on the way. -/
theorem acked_obtained (hstart : d₀.Opens p i) (hrcv : (d₀.tcp.socks i).rcvNxt = p.isn)
    (hreach : Reaches (fun d ev => some (d.step p i ev)) (fun _ _ _ _ => ())
      (fun d ev => InOrderPeer p i d ev ∧ NothingDropped p i d ev) d₀ () d ()) :
    d.AckedObtained p i := by
  have hinv := hreach.invariant (fun d _ => d.Complete p i) (hstart.complete hrcv)
    fun d d' _ ev h hallowed hstep => by
      obtain rfl := Option.some.inj hstep
      exact h.step hallowed.1 hallowed.2
  intro x hx
  refine ⟨(hinv.acks x hx).2, fun r hr hnumber j hj hnext sizes hsizes hlen => ?_⟩
  rw [hinv.reads sizes hsizes fun _ => hlen, getElem?_take_of_lt hnext]

theorem acked_obtained_two_bytes :
    ∃ d, Reaches (fun d ev => some (d.step threeBytes 0 ev)) (fun _ _ _ _ => ())
      (fun d ev => InOrderPeer threeBytes 0 d ev ∧ NothingDropped threeBytes 0 d ev) unread () d
      () ∧ d.acks = [(6#32, 1), (7#32, 2)] ∧ d.AckedObtained threeBytes 0 := by
  have hstart : Reaches (fun d ev => some (d.step threeBytes 0 ev)) (fun _ _ _ _ => ())
      (fun d ev => InOrderPeer threeBytes 0 d ev ∧ NothingDropped threeBytes 0 d ev) unread ()
      unread () := .start
  have hreach := (hstart.next (oneByteAt 0)
    ⟨⟨rfl, rfl, nofun⟩, fun _ => ⟨fun _ => by decide, by decide⟩⟩ rfl).next (oneByteAt 1)
      ⟨⟨rfl, rfl, nofun⟩, fun _ => ⟨fun _ => by decide +kernel, by decide⟩⟩ rfl
  exact ⟨_, hreach, by decide +kernel, acked_obtained unread_opens rfl hreach⟩

/-- A byte that is queued when the peer closes its side is acknowledged and lost. -/
theorem byte_lost_after_fin :
    ∃ d, Reaches (fun d ev => some (d.step threeBytes 0 ev)) (fun _ _ _ _ => ())
      (InOrderPeer threeBytes 0) unread () d () ∧ ¬ d.AckedObtained threeBytes 0 := by
  have hstart : Reaches (fun d ev => some (d.step threeBytes 0 ev)) (fun _ _ _ _ => ())
      (InOrderPeer threeBytes 0) unread () unread () := .start
  have hreach := (hstart.next (oneByteAt 0) ⟨rfl, rfl, nofun⟩ rfl).next
    (.data quietEnv 1 0 (flagFin ||| flagAck) 0#32) ⟨rfl, rfl, nofun⟩ rfl
  refine ⟨_, hreach, fun hobtained => ?_⟩
  have hbyte := (hobtained (6#32, 1) (by decide +kernel)).2 1 le_rfl (by decide) 0 (by decide)
    (by decide +kernel) [1400] ⟨by decide, fun _ => by decide +kernel, trivial⟩ (by decide +kernel)
  revert hbyte
  decide +kernel

end HelixOS.Net
