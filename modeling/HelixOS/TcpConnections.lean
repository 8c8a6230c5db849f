import HelixOS.Tcp
import HelixOS.TrackedRuns

/-!
# One connection in the table

The calls and segments of one established connection.  As long as the segments of its peer
are routed to its socket, every event changes this socket only.
-/

namespace HelixOS.Net

open ByteOrder Function List

variable {o : Outgoing} {env : NetEnv}

structure Endpoint where
  src : BitVec 32
  lport : BitVec 16
  rport : BitVec 16

def Segment.IsFor (seg : Segment) (e : Endpoint) : Prop := seg.dport = e.lport ∧ seg.sport = e.rport

def Tcp.Routes (t : Tcp) (e : Endpoint) (i : SockId) : Prop :=
  ∀ seg : Segment, seg.IsFor e →
    (finRange 8).find? (fun j => (t.socks j).isPeerOf e.src seg) = some i

/-- The segments of the peer are routed to the socket. -/
structure Tcp.Connected (t : Tcp) (e : Endpoint) (i : SockId) : Prop where
  routes : t.Routes e i
  state : (t.socks i).state = .established ∨ (t.socks i).state = .closeWait

/-- What happens to one connection. -/
inductive ConnEvent where
  | input (env : NetEnv) (seg : Segment)
  | send (env : NetEnv) (data : List Byte)
  | recv (buflen : ℕ)

def Tcp.connStep (e : Endpoint) (i : SockId) (t : Tcp) : ConnEvent → Tcp
  | .input env seg => (tcpInput env t e.src seg).2
  | .send env data => (tcpSendData env t i data).2
  | .recv buflen => (tcpRecvData t i buflen).2

def Tcp.connOutput (e : Endpoint) (i : SockId) (t : Tcp) : ConnEvent → List Outgoing
  | .input env seg => (tcpInput env t e.src seg).1
  | .send env data => (tcpSendData env t i data).1.2
  | .recv _ => []

def Tcp.connBytes (i : SockId) (t : Tcp) : ConnEvent → List Byte
  | .recv buflen => (tcpRecvData t i buflen).1.2
  | _ => []

def ConnEvent.IsFor (e : Endpoint) : ConnEvent → Prop
  | .input _ seg => seg.IsFor e
  | _ => True

/-! ## The socket alone -/

def TcpSock.sentData (s : TcpSock) (env : NetEnv) (data : List Byte) : TcpSock :=
  { s with
    txq := if s.txq.count < 16 then s.txq.push ⟨s.sndNxt, data, 0#8⟩ else s.txq
    lastSendTick := env.now
    sndNxt := s.sndNxt + BitVec.ofNat 32 data.length }

def TcpSock.firstData (s : TcpSock) (buflen : ℕ) : List Byte :=
  (s.rxq.buf s.rxq.tail).data.take buflen

def TcpSock.takenData (s : TcpSock) (buflen : ℕ) : TcpSock :=
  { s with
    rxq := s.rxq.pop
    rcvNxt := s.rcvNxt + BitVec.ofNat 32 (s.firstData buflen).length }

def TcpSock.connStep (s : TcpSock) : ConnEvent → TcpSock
  | .input env seg => if env.ready ∧ s.state = .established then s.onEstablished seg else s
  | .send env data =>
    if s.state = .established ∧ data ≠ [] then s.sentData env (data.take 1400) else s
  | .recv buflen => if s.state = .established ∧ 0 < s.rxq.count then s.takenData buflen else s

variable {t : Tcp} {e : Endpoint} {i : SockId} {ev : ConnEvent} {s : TcpSock} {seg : Segment}

@[simp] lemma Tcp.put_socks (t : Tcp) (i : SockId) : t.put i (t.socks i) = t := by
  simp only [Tcp.put, update_eq_self]

@[simp] lemma Tcp.put_put (t : Tcp) (i : SockId) (s s' : TcpSock) :
    (t.put i s).put i s' = t.put i s' := by
  simp only [Tcp.put, update_idem]

lemma Tcp.put_comm (t : Tcp) {j : SockId} (h : i ≠ j) (s s' : TcpSock) :
    (t.put i s).put j s' = (t.put j s').put i s := by
  simp only [Tcp.put, update_comm h]

lemma Tcp.Connected.findSocket (h : t.Connected e i) (hseg : seg.IsFor e) :
    findSocket t e.src seg = some i := by
  rw [Net.findSocket, h.routes seg hseg]
  rfl

lemma Tcp.Connected.connStep_eq (h : t.Connected e i) (hev : ev.IsFor e) :
    t.connStep e i ev = t.put i ((t.socks i).connStep ev) := by
  cases ev with
  | input env seg =>
    simp only [Tcp.connStep, TcpSock.connStep, tcpInput, h.findSocket hev]
    cases hready : env.ready with
    | false => simp
    | true =>
      rcases h.state with hstate | hstate
      · simp [hstate, inputEstablished]
      · simp [hstate]
  | send env data =>
    simp only [Tcp.connStep, TcpSock.connStep, tcpSendData]
    by_cases hstate : (t.socks i).state = .established
    · by_cases hdata : data = []
      · simp [hstate, hdata]
      · have hsend : (t.socks i).state = .established ∧ data ≠ [] := ⟨hstate, hdata⟩
        rw [if_neg (not_not.mpr hstate), if_neg hdata, if_pos hsend]
        rfl
    · simp [hstate]
  | recv buflen =>
    simp only [Tcp.connStep, TcpSock.connStep, tcpRecvData]
    by_cases hstate : (t.socks i).state = .established
    · by_cases hcount : (t.socks i).rxq.count = 0
      · simp [hstate, hcount]
      · rw [if_neg (not_not.mpr hstate), if_neg hcount, if_pos ⟨hstate, Nat.pos_of_ne_zero hcount⟩]
        rfl
    · simp [hstate]

lemma Tcp.connBytes_recv (buflen : ℕ) :
    t.connBytes i (.recv buflen) =
      if (t.socks i).state = .established ∧ 0 < (t.socks i).rxq.count then
        (t.socks i).firstData buflen
      else [] := by
  simp only [Tcp.connBytes, tcpRecvData]
  by_cases hstate : (t.socks i).state = .established
  · by_cases hcount : (t.socks i).rxq.count = 0
    · simp [hstate, hcount]
    · rw [if_neg (not_not.mpr hstate), if_neg hcount, if_pos ⟨hstate, Nat.pos_of_ne_zero hcount⟩]
      rfl
  · simp [hstate]

/-! ## The connection stays in its place -/

structure TcpSock.SameEnds (s s' : TcpSock) : Prop where
  used : s'.used = s.used
  lport : s'.lport = s.lport
  rport : s'.rport = s.rport
  raddr : s'.raddr = s.raddr
  laddr : s'.laddr = s.laddr

lemma TcpSock.SameEnds.refl (s : TcpSock) : s.SameEnds s := ⟨rfl, rfl, rfl, rfl, rfl⟩

lemma TcpSock.SameEnds.trans {s₁ s₂ s₃ : TcpSock} (h : s₁.SameEnds s₂) (h' : s₂.SameEnds s₃) :
    s₁.SameEnds s₃ :=
  ⟨h'.used.trans h.used, h'.lport.trans h.lport, h'.rport.trans h.rport, h'.raddr.trans h.raddr,
    h'.laddr.trans h.laddr⟩

lemma TcpSock.onEstablished_ends (s : TcpSock) (seg : Segment) :
    s.SameEnds (s.onEstablished seg) := by
  unfold TcpSock.onEstablished TcpSock.onData
  dsimp only
  split_ifs <;> exact ⟨rfl, rfl, rfl, rfl, rfl⟩

lemma TcpSock.connStep_ends (s : TcpSock) (ev : ConnEvent) : s.SameEnds (s.connStep ev) := by
  cases ev with
  | input env seg =>
    simp only [TcpSock.connStep]
    split_ifs
    · exact s.onEstablished_ends seg
    · exact .refl s
  | send env data =>
    simp only [TcpSock.connStep]
    split_ifs <;> exact ⟨rfl, rfl, rfl, rfl, rfl⟩
  | recv buflen =>
    simp only [TcpSock.connStep]
    split_ifs <;> exact ⟨rfl, rfl, rfl, rfl, rfl⟩

lemma TcpSock.onEstablished_state (s : TcpSock) (seg : Segment) :
    (s.onEstablished seg).state = if hasFlag seg.flags flagFin then .closeWait else s.state := by
  unfold TcpSock.onEstablished TcpSock.onData
  dsimp only
  split_ifs <;> rfl

lemma TcpSock.connStep_state (h : s.state = .established ∨ s.state = .closeWait) (ev : ConnEvent)
    : (s.connStep ev).state = .established ∨ (s.connStep ev).state = .closeWait := by
  cases ev with
  | input env seg =>
    simp only [TcpSock.connStep]
    split_ifs
    · rw [TcpSock.onEstablished_state]
      split_ifs
      · exact Or.inr rfl
      · exact h
    · exact h
  | send env data =>
    simp only [TcpSock.connStep]
    split_ifs <;> exact h
  | recv buflen =>
    simp only [TcpSock.connStep]
    split_ifs <;> exact h

lemma Tcp.Connected.step (h : t.Connected e i) (hev : ev.IsFor e) :
    (t.connStep e i ev).Connected e i := by
  have hends := (t.socks i).connStep_ends ev
  have hstate := TcpSock.connStep_state h.state ev
  rw [h.connStep_eq hev]
  refine ⟨fun seg hseg => ?_, by rw [Tcp.put_self]; exact hstate⟩
  rw [← h.routes seg hseg]
  congr 1
  funext j
  by_cases hj : j = i
  · subst hj
    have hopen : ∀ {s : TcpSock}, s.state = .established ∨ s.state = .closeWait →
        (decide (s.state ≠ .listen) && decide (s.state ≠ .closed)) = true := by
      rintro s (hs | hs) <;> simp [hs]
    rw [Tcp.put_self]
    simp only [TcpSock.isPeerOf, hends.used, hends.lport, hends.rport, hends.raddr, Bool.and_assoc]
    have hold := hopen h.state
    have hnew := hopen hstate
    rw [Bool.and_eq_true] at hold hnew
    simp only [hold.1, hold.2, hnew.1, hnew.2]
  · rw [Tcp.put_other _ _ hj]

/-! ## The timer -/

lemma ack_of_mem_sendSegment {flags : Byte} {seq ack : BitVec 32}
    {data : List Byte} (h : o ∈ sendSegment env s flags seq ack data) :
    o.seg.ack = ack := by
  rw [sendSegment] at h
  split_ifs at h
  · rw [mem_singleton.mp h]
  · simp at h

lemma resendFrom_left (n k : ℕ) (s s' : TcpSock)
    (h : (resendFrom env n k s).2 = some s') : ∃ q, s' = { s with txq := q } := by
  induction n generalizing k s with
  | zero => exact ⟨s.txq, (Option.some.inj h).symm⟩
  | succ n ih =>
    simp only [resendFrom] at h
    split_ifs at h
    obtain ⟨q, hq⟩ := ih _ _ h
    exact ⟨q, hq⟩

lemma TcpSock.retransmit_cases (env : NetEnv) (s : TcpSock) :
    (s.retransmit env).2 = TcpSock.cleared ∨ ∃ q r k,
      (s.retransmit env).2 = { s with txq := q, retries := r, lastSendTick := k } := by
  unfold TcpSock.retransmit
  split_ifs
  · exact Or.inr ⟨_, _, _, rfl⟩
  · exact Or.inr ⟨_, _, _, rfl⟩
  · exact Or.inr ⟨_, _, _, rfl⟩
  · exact Or.inr ⟨_, _, _, rfl⟩
  · cases hround : resendFrom env s.txq.count 0 s with
    | mk out left =>
      cases left with
      | none => exact Or.inl rfl
      | some s' =>
        obtain ⟨q, rfl⟩ := resendFrom_left s.txq.count 0 s s' (by rw [hround])
        exact Or.inr ⟨_, _, _, rfl⟩

lemma resendFrom_ack (n k : ℕ) (s) (h : o ∈ (resendFrom env n k s).1) : o.seg.ack = s.rcvNxt := by
  induction n generalizing k s with
  | zero => simp [resendFrom] at h
  | succ n ih =>
    simp only [resendFrom] at h
    split_ifs at h
    · simp at h
    · rcases mem_append.mp h with hfirst | hrest
      · exact ack_of_mem_sendSegment hfirst
      · exact (ih _ _ hrest).trans rfl

lemma TcpSock.retransmit_ack
    (hstate : s.state = .established ∨ s.state = .closeWait) (h : o ∈ (s.retransmit env).1) :
    o.seg.ack = s.rcvNxt := by
  have hsyn : s.state ≠ .synSent := by
    rintro hsyn
    simp [hsyn] at hstate
  unfold TcpSock.retransmit at h
  split_ifs at h
  · simp at h
  · simp at h
  · cases hround : resendFrom env s.txq.count 0 s with
    | mk out left =>
      have hout : o ∈ (resendFrom env s.txq.count 0 s).1 := by
        rw [hround] at h ⊢
        cases left <;> exact h
      exact resendFrom_ack _ _ _ hout

lemma Tcp.Connected.tick (h : t.Connected e i)
    (hused : ((t.socks i).retransmit env).2.used) : (tcpRetransmit env t).2.Connected e i := by
  have hpeer : ∀ (s : TcpSock) (seg : Segment),
      (s.retransmit env).2 = TcpSock.cleared ∨
        (s.retransmit env).2.isPeerOf e.src seg = s.isPeerOf e.src seg := by
    intro s seg
    rcases s.retransmit_cases env with hcleared | ⟨q, r, k, hsame⟩
    · exact Or.inl hcleared
    · exact Or.inr (by rw [hsame]; rfl)
  have hkept : ¬ ((t.socks i).retransmit env).2 = TcpSock.cleared := by
    intro hcleared
    rw [hcleared] at hused
    exact absurd hused (by decide)
  constructor
  · intro seg hseg
    have hfind := h.routes seg hseg
    rw [find?_eq_some_iff_append] at hfind ⊢
    obtain ⟨hi, before, after, hsplit, hbefore⟩ := hfind
    refine ⟨?_, before, after, hsplit, ?_⟩
    · exact ((hpeer (t.socks i) seg).resolve_left hkept).trans hi
    · intro j hj
      rcases hpeer (t.socks j) seg with hcleared | hsame
      · simp only [tcpRetransmit, hcleared]
        rfl
      · simp only [tcpRetransmit, hsame]
        exact hbefore j hj
  · rcases (t.socks i).retransmit_cases env with hcleared | ⟨q, r, k, hsame⟩
    · exact absurd hcleared hkept
    · simp only [tcpRetransmit, hsame]
      exact h.state

/-! ## A table with one connection -/

def connectedSock (snd rcv : BitVec 32) : TcpSock :=
  { TcpSock.cleared with
    used := true
    state := .established
    laddr := 2#32
    lport := 80#16
    bound := true
    raddr := 1#32
    rport := 9#16
    sndUna := snd
    sndNxt := snd
    rcvNxt := rcv }

def oneConnection (snd rcv : BitVec 32) : Tcp where
  socks := fun j => if j = 0 then connectedSock snd rcv else TcpSock.cleared
  pending := []
  ephemeral := 41000#16

def onePeer : Endpoint := ⟨1#32, 80#16, 9#16⟩

def quietEnv : NetEnv := ⟨deviceAt 0x02000000#32, ⟨some .e1000, true, true⟩, 0#64⟩

lemma oneConnection_connected (snd rcv : BitVec 32) :
    (oneConnection snd rcv).Connected onePeer 0 := by
  refine ⟨fun seg hseg => ?_, Or.inl rfl⟩
  have hfirst : finRange 8 = 0 :: (finRange 7).map Fin.succ := by decide
  rw [hfirst, find?_cons_of_pos]
  simp [TcpSock.isPeerOf, oneConnection, connectedSock, onePeer, hseg.1, hseg.2]

end HelixOS.Net
