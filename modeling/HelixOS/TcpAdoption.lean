import HelixOS.TcpDelivery
import HelixOS.TcpRetransmission

/-!
# Adopted connections

A client may connect before the server has called `listen`; its connection then waits in the
pending table and is adopted by the listener.  This module follows a client that sends `SYN`,
`ACK` and data, for every place of the call of `listen` among its segments.
-/

namespace HelixOS.Net

open ByteOrder Function List Option

variable {data : List (NetEnv × Segment)} {pend : List PendingChild} {pc : PendingChild}

structure Client where
  ends : Endpoint
  syn : NetEnv × Segment
  ack : NetEnv × Segment
  data : List (NetEnv × Segment)

structure Client.WellFormed (cl : Client) : Prop where
  synFor : cl.syn.1.ready ∧ cl.syn.2.IsFor cl.ends
  ackFor : cl.ack.1.ready ∧ cl.ack.2.IsFor cl.ends
  dataFor : ∀ x ∈ cl.data, x.1.ready ∧ x.2.IsFor cl.ends
  isSyn : isSyn cl.syn.2
  isAck : hasFlag cl.ack.2.flags flagAck
  bareAck : cl.ack.2.payload = []
  unfinished : ∀ x ∈ cl.data, hasFlag x.2.flags flagFin = false

def Client.segments (cl : Client) : List (NetEnv × Segment) := cl.syn :: cl.ack :: cl.data

def Tcp.receive (src : BitVec 32) (t : Tcp) (x : NetEnv × Segment) : Tcp :=
  (tcpInput x.1 t src x.2).2

def Client.listenAfter (cl : Client) (env : NetEnv) (l : SockId) (t : Tcp) (cut : ℕ) : Tcp :=
  let before := (cl.segments.take cut).foldl (Tcp.receive cl.ends.src) t
  (cl.segments.drop cut).foldl (Tcp.receive cl.ends.src)
    (tcpListen env before l cl.ends.lport).2

/-- What matters of a connection to the application that accepts it. -/
structure ConnState where
  sndUna : BitVec 32
  sndNxt : BitVec 32
  rcvNxt : BitVec 32
  bytes : List Byte
  deriving DecidableEq

def TcpSock.connState (s : TcpSock) : ConnState := ⟨s.sndUna, s.sndNxt, s.rcvNxt, s.queued⟩

def Tcp.acceptedState (t : Tcp) (l : SockId) : Option ConnState :=
  (tcpAccept t l).1.map fun c => ((tcpAccept t l).2.socks c).connState

/-- The server's socket is bound to the port and unused, nobody else listens there, and there is
room for the client. -/
structure Tcp.AwaitsClient (t : Tcp) (l : SockId) (e : Endpoint) : Prop where
  used : (t.socks l).used
  closed : (t.socks l).state = .closed
  bound : (t.socks l).bound
  lport : (t.socks l).lport = e.lport
  noPeer : ∀ j, ∀ seg : Segment, seg.IsFor e → (t.socks j).isPeerOf e.src seg = false
  noListener : ∀ j, (t.socks j).listensOn e.lport = false
  pending : ∀ pc ∈ t.pending, (t.socks pc.sock).used ∧ (t.socks pc.sock).lport ≠ e.lport
  room : t.pending.length < 4
  free : ∃ c, (t.socks c).used = false

def highestAck (una : BitVec 32) (data : List (NetEnv × Segment)) : BitVec 32 :=
  data.foldl (fun una x => if hasFlag x.2.flags flagAck ∧ x.2.ack > una then x.2.ack else una) una

variable {t : Tcp} {e : Endpoint} {l c : SockId} {s : TcpSock} {seg : Segment} {env : NetEnv}
  {cl : Client} {x : NetEnv × Segment}

/-! ## The data segments -/

def queueSegment (q : RingBuffer RxSeg 8) (x : NetEnv × Segment) : RingBuffer RxSeg 8 :=
  if x.2.payload ≠ [] ∧ q.count < 8 then q.push ⟨x.2.seq, x.2.payload.take 1400⟩ else q

def TcpSock.afterData (s : TcpSock) (data : List (NetEnv × Segment)) : TcpSock :=
  data.foldl (fun s x => s.onEstablished x.2) s

lemma TcpSock.onEstablished_una (s : TcpSock) (seg : Segment) : (s.onEstablished seg).sndUna =
      if hasFlag seg.flags flagAck ∧ seg.ack > s.sndUna then seg.ack else s.sndUna := by
  rw [(s.onEstablished_tx seg).2.1]
  by_cases hack : hasFlag seg.flags flagAck
  · simp [hack, TcpSock.onAck]
  · simp [hack]

lemma TcpSock.afterData_fields (s : TcpSock) (data : List (NetEnv × Segment)) :
    (s.afterData data).sndUna = highestAck s.sndUna data ∧
      (s.afterData data).sndNxt = s.sndNxt ∧ (s.afterData data).rcvNxt = s.rcvNxt ∧
      (s.afterData data).rxq = data.foldl queueSegment s.rxq := by
  induction data generalizing s with
  | nil => exact ⟨rfl, rfl, rfl, rfl⟩
  | cons x data ih =>
    obtain ⟨huna, hnxt, hrcv, hrxq⟩ := ih (s.onEstablished x.2)
    obtain ⟨hrcv', hrxq'⟩ := s.onEstablished_rx x.2
    have hqueue : (s.onEstablished x.2).rxq = queueSegment s.rxq x := hrxq'
    refine ⟨?_, ?_, ?_, ?_⟩
    · exact huna.trans (by rw [s.onEstablished_una]; rfl)
    · exact hnxt.trans (s.onEstablished_tx x.2).1
    · exact hrcv.trans hrcv'
    · exact hrxq.trans (by rw [hqueue]; rfl)

lemma TcpSock.afterData_ends (s : TcpSock) (data : List (NetEnv × Segment)) :
    s.SameEnds (s.afterData data) := by
  induction data generalizing s with
  | nil => exact .refl s
  | cons x data ih => exact (s.onEstablished_ends x.2).trans (ih (s.onEstablished x.2))

lemma TcpSock.afterData_state (hfin : ∀ x ∈ data, hasFlag x.2.flags flagFin = false) :
    (s.afterData data).state = s.state := by
  induction data generalizing s with
  | nil => rfl
  | cons x data ih =>
    have hrest := ih (s := s.onEstablished x.2) fun y hy => hfin y (mem_cons_of_mem _ hy)
    rw [TcpSock.onEstablished_state, hfin x (by simp)] at hrest
    exact hrest

/-! ## The table around the child -/

/-- The child of the client is in slot `c`, the server's socket in slot `l`, and nobody else
answers the client. -/
structure Tcp.Stage (t : Tcp) (e : Endpoint) (l c : SockId) : Prop where
  ne : c ≠ l
  used : (t.socks c).used
  lport : (t.socks c).lport = e.lport
  rport : (t.socks c).rport = e.rport
  raddr : (t.socks c).raddr = e.src
  state : (t.socks c).state = .synReceived ∨ (t.socks c).state = .established
  others : ∀ j, j ≠ c → ∀ seg : Segment, seg.IsFor e → (t.socks j).isPeerOf e.src seg = false
  pending : ∀ pc ∈ t.pending, pc.sock ≠ c → (t.socks pc.sock).lport ≠ e.lport

section

variable (h : t.Stage e l c)
include h

lemma Tcp.Stage.isPeerOf (hseg : seg.IsFor e) : (t.socks c).isPeerOf e.src seg = true := by
  rcases h.state with hstate | hstate <;>
    simp [TcpSock.isPeerOf, h.used, h.lport, h.rport, h.raddr, hstate, hseg.1, hseg.2]

lemma Tcp.Stage.find (hseg : seg.IsFor e) :
    (finRange 8).find? (fun j => (t.socks j).isPeerOf e.src seg) = some c := by
  cases hfind : (finRange 8).find? (fun j => (t.socks j).isPeerOf e.src seg) with
  | none =>
    have hnone := find?_eq_none.mp hfind c (mem_finRange c)
    exact absurd (h.isPeerOf hseg) hnone
  | some j =>
    have hj := find?_some hfind
    by_cases hjc : j = c
    · rw [hjc]
    · rw [h.others j hjc seg hseg] at hj
      cases hj

lemma Tcp.Stage.findSocket (hseg : seg.IsFor e) : findSocket t e.src seg = some c := by
  rw [Net.findSocket, h.find hseg]
  rfl

lemma Tcp.Stage.putChild (hends : (t.socks c).SameEnds s)
    (hstate : s.state = .synReceived ∨ s.state = .established) : (t.put c s).Stage e l c where
  ne := h.ne
  used := by rw [Tcp.put_self, hends.used]; exact h.used
  lport := by rw [Tcp.put_self, hends.lport]; exact h.lport
  rport := by rw [Tcp.put_self, hends.rport]; exact h.rport
  raddr := by rw [Tcp.put_self, hends.raddr]; exact h.raddr
  state := by rw [Tcp.put_self]; exact hstate
  others := fun j hj seg hseg => by rw [Tcp.put_other _ _ hj]; exact h.others j hj seg hseg
  pending := fun pc hpc hne => by rw [Tcp.put_other _ _ hne]; exact h.pending pc hpc hne

lemma Tcp.Stage.putListener (hlport : s.lport = (t.socks l).lport) (hstate : s.state = .listen) :
    (t.put l s).Stage e l c where
  ne := h.ne
  used := by rw [Tcp.put_other _ _ h.ne]; exact h.used
  lport := by rw [Tcp.put_other _ _ h.ne]; exact h.lport
  rport := by rw [Tcp.put_other _ _ h.ne]; exact h.rport
  raddr := by rw [Tcp.put_other _ _ h.ne]; exact h.raddr
  state := by rw [Tcp.put_other _ _ h.ne]; exact h.state
  others := fun j hj seg hseg => by
    by_cases hjl : j = l
    · subst hjl
      rw [Tcp.put_self]
      simp [TcpSock.isPeerOf, hstate]
    · rw [Tcp.put_other _ _ hjl]
      exact h.others j hj seg hseg
  pending := fun pc hpc hne => by
    by_cases hpl : pc.sock = l
    · rw [hpl, Tcp.put_self, hlport, ← hpl]
      exact h.pending pc hpc hne
    · rw [Tcp.put_other _ _ hpl]
      exact h.pending pc hpc hne

/-! ## Segments of an established child -/

lemma Tcp.Stage.receive_data (hstate : (t.socks c).state = .established) (hready : x.1.ready)
    (hseg : x.2.IsFor e) : t.receive e.src x = t.put c ((t.socks c).onEstablished x.2) := by
  simp [Tcp.receive, tcpInput, hready, h.findSocket hseg, hstate, inputEstablished]

lemma Tcp.Stage.receive_all (data)
    (hstate : (t.socks c).state = .established) (hfor : ∀ x ∈ data, x.1.ready ∧ x.2.IsFor e)
    (hfin : ∀ x ∈ data, hasFlag x.2.flags flagFin = false) :
    data.foldl (Tcp.receive e.src) t = t.put c ((t.socks c).afterData data) := by
  induction data generalizing t with
  | nil => simp [TcpSock.afterData]
  | cons x data ih =>
    have hx := hfor x (by simp)
    have hafter : ((t.socks c).onEstablished x.2).state = .established := by
      rw [TcpSock.onEstablished_state, hfin x (by simp)]
      exact hstate
    have hstage := h.putChild ((t.socks c).onEstablished_ends x.2) (.inr hafter)
    rw [foldl_cons, h.receive_data hstate hx.1 hx.2,
      ih hstage (by rw [Tcp.put_self]; exact hafter)
        (fun y hy => hfor y (mem_cons_of_mem _ hy))
        (fun y hy => hfin y (mem_cons_of_mem _ hy)), Tcp.put_self, Tcp.put_put]
    rfl

end

/-! ## The call of `listen` -/

def TcpSock.listening (s : TcpSock) (backlog : List SockId) : TcpSock :=
  { s with state := .listen, backlog }

lemma foldl_adopt_skip (pend : List PendingChild)
    (hskip : ∀ pc ∈ pend, (t.socks pc.sock).lport ≠ (t.socks l).lport) :
    pend.foldl (adopt l) t = t := by
  induction pend with
  | nil => rfl
  | cons pc pend ih =>
    have hno : adopt l t pc = t := if_neg fun h => hskip pc (by simp) h.1
    rw [foldl_cons, hno]
    exact ih fun pc' hpc' => hskip pc' (mem_cons_of_mem _ hpc')

lemma Tcp.lport_put_listening (t : Tcp) (l j : SockId) (backlog : List SockId) :
    ((t.put l ((t.socks l).listening backlog)).socks j).lport = (t.socks j).lport := by
  by_cases hj : j = l
  · subst hj
    rw [Tcp.put_self]
    rfl
  · rw [Tcp.put_other _ _ hj]

lemma tcpListen_bound (port : BitVec 16) (hused : (t.socks l).used) (hbound : (t.socks l).bound) :
    (tcpListen env t l port).2 =
      let t' := t.pending.foldl (adopt l) (t.put l ((t.socks l).listening []))
      { t' with pending :=
          t'.pending.filter fun pc => (t'.socks pc.sock).lport ≠ (t'.socks l).lport } := by
  rw [tcpListen, if_neg (by simp [hused])]
  simp only [if_pos hbound]
  rfl

lemma Tcp.AwaitsClient.listen (h : t.AwaitsClient l e) (port : BitVec 16) :
    (tcpListen env t l port).2 = t.put l ((t.socks l).listening []) := by
  have hports := t.lport_put_listening l
  have hskip : ∀ pc ∈ t.pending,
      ((t.put l ((t.socks l).listening [])).socks pc.sock).lport ≠
        ((t.put l ((t.socks l).listening [])).socks l).lport := by
    intro pc hpc
    rw [hports, hports, h.lport]
    exact (h.pending pc hpc).2
  rw [tcpListen_bound port h.used h.bound, foldl_adopt_skip _ hskip]
  have hfilter : (t.put l ((t.socks l).listening [])).pending.filter (fun pc =>
      ((t.put l ((t.socks l).listening [])).socks pc.sock).lport ≠
        ((t.put l ((t.socks l).listening [])).socks l).lport) = t.pending :=
    filter_eq_self.mpr fun pc hpc => by simpa using hskip pc hpc
  simp only [hfilter]
  rfl

lemma TcpSock.takeEarly_ends (s : TcpSock) (data : List Byte) : s.SameEnds (s.takeEarly data) := by
  unfold TcpSock.takeEarly
  split_ifs <;> exact ⟨rfl, rfl, rfl, rfl, rfl⟩

lemma TcpSock.adopted_ends (s : TcpSock) (l : SockId) (pc : PendingChild) :
    s.SameEnds (s.adopted l pc) := by
  refine TcpSock.SameEnds.trans ?_ (TcpSock.takeEarly_ends _ pc.data)
  split_ifs <;> exact ⟨rfl, rfl, rfl, rfl, rfl⟩

theorem Tcp.Stage.listen (h : t.Stage e l c) (env : NetEnv) (port : BitVec 16)
    (pend : List PendingChild) (pc : PendingChild) (hused : (t.socks l).used)
    (hbound : (t.socks l).bound) (hlport : (t.socks l).lport = e.lport)
    (hpending : t.pending = pend ++ [pc]) (hchild : pc.sock = c)
    (hothers : ∀ pc ∈ pend, pc.sock ≠ c) : (tcpListen env t l port).2 =
      { (t.put c ((t.socks c).adopted l pc)).put l ((t.socks l).listening [c]) with
        pending := pend } := by
  have hports := t.lport_put_listening l
  have hskip : ∀ pc ∈ pend, ((t.put l ((t.socks l).listening [])).socks pc.sock).lport ≠
      ((t.put l ((t.socks l).listening [])).socks l).lport := by
    intro pc' hpc'
    rw [hports, hports, hlport]
    exact h.pending pc' (by rw [hpending]; simp [hpc']) (hothers pc' hpc')
  have hadopt : adopt l (t.put l ((t.socks l).listening [])) pc =
      (t.put c ((t.socks c).adopted l pc)).put l ((t.socks l).listening [c]) := by
    have hmatch : ((t.put l ((t.socks l).listening [])).socks pc.sock).lport =
        ((t.put l ((t.socks l).listening [])).socks l).lport := by
      rw [hports, hports, hlport, hchild, h.lport]
    have hroom : ((t.put l ((t.socks l).listening [])).socks l).backlog.length < 4 := by
      rw [Tcp.put_self]
      exact Nat.zero_lt_succ 3
    rw [adopt, if_pos ⟨hmatch, hroom⟩, hchild, Tcp.put_other _ _ h.ne]
    simp only [Tcp.put_other _ _ h.ne.symm, Tcp.put_self]
    rw [t.put_comm h.ne.symm, Tcp.put_put]
    rfl
  rw [tcpListen_bound port hused hbound, hpending, foldl_append, foldl_adopt_skip _ hskip,
    foldl_cons, foldl_nil, hadopt]
  simp only [Tcp.put_pending, hpending]
  have hkept : ∀ j, (((t.put c ((t.socks c).adopted l pc)).put l
      ((t.socks l).listening [c])).socks j).lport = (t.socks j).lport := by
    intro j
    by_cases hjl : j = l
    · rw [hjl, Tcp.put_self]
      rfl
    · rw [Tcp.put_other _ _ hjl]
      by_cases hjc : j = c
      · rw [hjc, Tcp.put_self, ((t.socks c).adopted_ends l pc).lport]
      · rw [Tcp.put_other _ _ hjc]
  have hpend : pend.filter (fun pc' => (t.socks pc'.sock).lport ≠ (t.socks l).lport) = pend :=
    filter_eq_self.mpr fun pc' hpc' => by
      simpa [hlport] using h.pending pc' (by rw [hpending]; simp [hpc']) (hothers pc' hpc')
  have hlast : [pc].filter (fun pc' => (t.socks pc'.sock).lport ≠ (t.socks l).lport) = [] := by
    simp [hchild, h.lport, hlport]
  simp only [hkept, filter_append, hpend, hlast, append_nil]

/-! ## The first segment -/

lemma Tcp.AwaitsClient.exists_free (h : t.AwaitsClient l e) :
    ∃ c, (finRange 8).find? (fun j => !(t.socks j).used) = some c ∧ c ≠ l := by
  cases hfind : (finRange 8).find? (fun j => !(t.socks j).used) with
  | none =>
    obtain ⟨c, hc⟩ := h.free
    have hnone := find?_eq_none.mp hfind c (mem_finRange c)
    simp [hc] at hnone
  | some c =>
    have hc := find?_some hfind
    refine ⟨c, rfl, fun hcl => ?_⟩
    simp [hcl, h.used] at hc

lemma filter_finRange_eq (l) : (finRange 8).filter (fun j => j = l) = [l] := by
  revert l
  decide

lemma Tcp.AwaitsClient.findSocket_listening (h : t.AwaitsClient l e) (hseg : seg.IsFor e) :
    findSocket (t.put l ((t.socks l).listening [])) e.src seg = some l := by
  have hpeer : (finRange 8).find? (fun j =>
      ((t.put l ((t.socks l).listening [])).socks j).isPeerOf e.src seg) = none := by
    refine find?_eq_none.mpr fun j _ => ?_
    by_cases hj : j = l
    · subst hj
      simp [TcpSock.isPeerOf, TcpSock.listening]
    · rw [Tcp.put_other _ _ hj, h.noPeer j seg hseg]
      exact Bool.false_ne_true
  have hlisten : ∀ j, ((t.put l ((t.socks l).listening [])).socks j).listensOn seg.dport =
      decide (j = l) := by
    intro j
    by_cases hj : j = l
    · subst hj
      simp [TcpSock.listensOn, TcpSock.listening, h.used, h.bound, h.lport, hseg.1]
    · rw [Tcp.put_other _ _ hj, hseg.1, h.noListener j]
      simp [hj]
  rw [Net.findSocket, hpeer]
  simp only [hlisten]
  rw [filter_finRange_eq]
  rfl

section

variable (h : t.AwaitsClient l e) (hfree : (finRange 8).find? (fun j => !(t.socks j).used) = some c)
include h hfree

lemma Tcp.AwaitsClient.receive_syn (hne : c ≠ l) (hready : x.1.ready) (hseg : x.2.IsFor e)
    (hsyn : isSyn x.2) : (t.put l ((t.socks l).listening [])).receive e.src x =
      (t.put l ((t.socks l).listening [])).put c
        (childSock x.1 c (t.socks l).laddr true (some l) e.src x.2) := by
  have hused : ∀ j, ((t.put l ((t.socks l).listening [])).socks j).used = (t.socks j).used := by
    intro j
    by_cases hj : j = l
    · rw [hj, Tcp.put_self]
      rfl
    · rw [Tcp.put_other _ _ hj]
  have halloc : tcpAllocConn x.1 (t.put l ((t.socks l).listening [])) =
      (some c, (t.put l ((t.socks l).listening [])).put c (freshSock x.1 c)) := by
    simp only [tcpAllocConn, hused, hfree]
  have hinput : inputListen x.1 (t.put l ((t.socks l).listening [])) l e.src x.2 =
      (sendSynAck x.1 (childSock x.1 c (t.socks l).laddr true (some l) e.src x.2),
        (t.put l ((t.socks l).listening [])).put c
          (childSock x.1 c (t.socks l).laddr true (some l) e.src x.2)) := by
    rw [inputListen, if_neg (by simp [TcpSock.listening]), halloc]
    simp only [Tcp.put_other _ _ hne.symm, Tcp.put_self, Tcp.put_put]
    rfl
  have hstate : ((t.put l ((t.socks l).listening [])).socks l).state = .listen := by
    rw [Tcp.put_self]
    rfl
  simp only [Tcp.receive, tcpInput, hready, h.findSocket_listening hseg, hstate, hsyn, if_true,
    hinput]
  rfl

lemma Tcp.AwaitsClient.receive_syn_pending (hready : x.1.ready) (hseg : x.2.IsFor e)
    (hsyn : isSyn x.2) : t.receive e.src x =
      { t.put c (childSock x.1 c x.1.localIp false none e.src x.2) with
        pending := t.pending ++ [⟨c, false, 0#32, []⟩] } := by
  have hnone : findSocket t e.src x.2 = none := by
    have hpeer : (finRange 8).find? (fun j => (t.socks j).isPeerOf e.src x.2) = none :=
      find?_eq_none.mpr fun j _ => by simp [h.noPeer j x.2 hseg]
    have hlisten : (finRange 8).filter (fun j => (t.socks j).listensOn x.2.dport) = [] :=
      filter_eq_nil_iff.mpr fun j _ => by simp [hseg.1, h.noListener j]
    rw [Net.findSocket, hpeer, hlisten]
    rfl
  have hwaits : t.pending.any (t.waitsFor x.2) = false := by
    refine any_eq_false.mpr fun pc hpc => ?_
    simp [Tcp.waitsFor, hseg.1, (h.pending pc hpc).2]
  have hroom := h.room
  simp only [Tcp.receive, tcpInput, hready, hnone, inputPending, hwaits, hsyn, hroom, and_self,
    if_true, tcpAllocConn, hfree]
  simp [Tcp.put, update_idem]

end

lemma Tcp.AwaitsClient.stage (h : t.AwaitsClient l e) (hne : c ≠ l) (hseg : x.2.IsFor e)
    (laddr : BitVec 32) (bound : Bool) (parent : Option SockId) :
    (t.put c (childSock x.1 c laddr bound parent e.src x.2)).Stage e l c where
  ne := hne
  used := by rw [Tcp.put_self]; rfl
  lport := by rw [Tcp.put_self]; exact hseg.1
  rport := by rw [Tcp.put_self]; exact hseg.2
  raddr := by rw [Tcp.put_self]; rfl
  state := by rw [Tcp.put_self]; exact .inl rfl
  others := fun j hj seg hseg => by rw [Tcp.put_other _ _ hj]; exact h.noPeer j seg hseg
  pending := fun pc hpc hne => by rw [Tcp.put_other _ _ hne]; exact (h.pending pc hpc).2

/-! ## The second segment -/

def TcpSock.completed (s : TcpSock) (seg : Segment) : TcpSock :=
  { s with state := .established, rcvNxt := seg.seq, sndUna := seg.ack, sndNxt := seg.ack }

lemma Tcp.Stage.receive_ack (h : t.Stage e l c) (hstate : (t.socks c).state = .synReceived)
    (hready : x.1.ready) (hseg : x.2.IsFor e) (hack : hasFlag x.2.flags flagAck) :
    t.receive e.src x = inputSynReceived t c x.2 := by
  simp [Tcp.receive, tcpInput, hready, h.findSocket hseg, hstate, hack]

lemma inputSynReceived_eq (t) (c) (seg) :
    inputSynReceived t c seg =
      let t' := t.put c ((t.socks c).completed seg)
      match (t.socks c).parent with
      | none =>
        { t' with
          pending := modifyFirst (fun pc => pc.sock = c)
            (fun pc => { pc with hasAck := true, ackSeq := seg.seq }.keep seg.payload) t'.pending }
      | some p =>
        if (t'.socks p).backlog.length < 4 then
          t'.put p { t'.socks p with backlog := (t'.socks p).backlog ++ [c] }
        else t' := rfl

lemma inputSynReceived_parent (hparent : (t.socks c).parent = some l) (hne : c ≠ l)
    (hroom : (t.socks l).backlog.length < 4) :
    inputSynReceived t c seg = (t.put c ((t.socks c).completed seg)).put l
      { t.socks l with backlog := (t.socks l).backlog ++ [c] } := by
  have hl : (t.put c ((t.socks c).completed seg)).socks l = t.socks l :=
    Tcp.put_other _ _ hne.symm
  have hbacklog : ((t.put c ((t.socks c).completed seg)).socks l).backlog.length < 4 := by
    rw [hl]
    exact hroom
  rw [inputSynReceived_eq, hparent]
  dsimp only
  rw [if_pos hbacklog, hl]

lemma modifyFirst_last {α : Type*} {p : α → Bool} (f : α → α) {as : List α} {a : α}
    (has : ∀ b ∈ as, p b = false) (ha : p a = true) :
    modifyFirst p f (as ++ [a]) = as ++ [f a] := by
  induction as with
  | nil => simp [modifyFirst, ha]
  | cons b as ih =>
    have hb : p b = false := has b (by simp)
    simp [modifyFirst, hb, ih fun b' hb' => has b' (mem_cons_of_mem _ hb')]

lemma inputSynReceived_pending (hparent : (t.socks c).parent = none) (hpayload : seg.payload = [])
    (hpending : t.pending = pend ++ [⟨c, false, 0#32, []⟩]) (hothers : ∀ pc ∈ pend, pc.sock ≠ c) :
    inputSynReceived t c seg =
      { t.put c ((t.socks c).completed seg) with pending := pend ++ [⟨c, true, seg.seq, []⟩] } := by
  have hlast : modifyFirst (fun pc => pc.sock = c) (fun pc => { pc with hasAck := true, ackSeq :=
      seg.seq }.keep seg.payload) t.pending = pend ++ [⟨c, true, seg.seq, []⟩] := by
    rw [hpending, modifyFirst_last _ (fun pc hpc => by simpa using hothers pc hpc) (by simp)]
    simp [PendingChild.keep, hpayload]
  rw [inputSynReceived_eq, hparent]
  simp only [Tcp.put_pending, hlast]

/-! ## The accepted connection -/

lemma Tcp.acceptedState_eq {rest : List SockId} (hlisten : (t.socks l).state = .listen)
    (hbacklog : (t.socks l).backlog = c :: rest) (hne : c ≠ l) :
    t.acceptedState l = some (t.socks c).connState := by
  simp only [Tcp.acceptedState, tcpAccept, hlisten, hbacklog, ne_eq, not_true, if_false,
    map_some, Tcp.put_self, Tcp.put_other _ _ hne]
  rfl

lemma Tcp.Stage.accepted_after {rest : List SockId} (h : t.Stage e l c)
    (hstate : (t.socks c).state = .established) (hlisten : (t.socks l).state = .listen)
    (hbacklog : (t.socks l).backlog = c :: rest) (hfor : ∀ x ∈ data, x.1.ready ∧ x.2.IsFor e)
    (hfin : ∀ x ∈ data, hasFlag x.2.flags flagFin = false) :
    (data.foldl (Tcp.receive e.src) t).acceptedState l =
      some ((t.socks c).afterData data).connState := by
  have hl : (t.put c ((t.socks c).afterData data)).socks l = t.socks l :=
    Tcp.put_other _ _ h.ne.symm
  rw [h.receive_all data hstate hfor hfin, Tcp.acceptedState_eq (hl ▸ hlisten) (hl ▸ hbacklog)
    h.ne, Tcp.put_self]

lemma TcpSock.connState_afterData (s : TcpSock) (data : List (NetEnv × Segment)) :
    (s.afterData data).connState = ⟨highestAck s.sndUna data, s.sndNxt, s.rcvNxt,
      (data.foldl queueSegment s.rxq).contents.flatMap RxSeg.data⟩ := by
  obtain ⟨huna, hnxt, hrcv, hrxq⟩ := s.afterData_fields data
  rw [TcpSock.connState, TcpSock.queued, huna, hnxt, hrcv, hrxq]

def Client.bytes (cl : Client) : List Byte :=
  (cl.data.foldl queueSegment TcpSock.cleared.rxq).contents.flatMap RxSeg.data

/-- What the server accepts when it has called `listen` in time. -/
def Client.expected (cl : Client) : ConnState :=
  ⟨highestAck cl.ack.2.ack cl.data, cl.ack.2.ack, cl.ack.2.seq, cl.bytes⟩

theorem Tcp.Stage.accepted_handshake (h : t.Stage e l c) (hends : e = cl.ends) (hcl : cl.WellFormed)
    (hstate : (t.socks c).state = .synReceived) (hparent : (t.socks c).parent = some l)
    (hrxq : (t.socks c).rxq = TcpSock.cleared.rxq) (hlisten : (t.socks l).state = .listen)
    (hbacklog : (t.socks l).backlog = [] ∨ (t.socks l).backlog = [c]) :
    ((cl.ack :: cl.data).foldl (Tcp.receive e.src) t).acceptedState l = some cl.expected := by
  subst hends
  have hroom : (t.socks l).backlog.length < 4 := by
    rcases hbacklog with hbacklog | hbacklog <;> simp [hbacklog]
  have hstage : ((t.put c ((t.socks c).completed cl.ack.2)).put l
      { t.socks l with backlog := (t.socks l).backlog ++ [c] }).Stage cl.ends l c := by
    have hchild := h.putChild (s := (t.socks c).completed cl.ack.2)
      ⟨rfl, rfl, rfl, rfl, rfl⟩ (.inr rfl)
    refine hchild.putListener ?_ hlisten
    rw [Tcp.put_other _ _ h.ne.symm]
  have hc : ((t.put c ((t.socks c).completed cl.ack.2)).put l { t.socks l with backlog := (t.socks
      l).backlog ++ [c] }).socks c = (t.socks c).completed cl.ack.2 := by
    rw [Tcp.put_other _ _ h.ne, Tcp.put_self]
  obtain ⟨rest, hrest⟩ : ∃ rest, (t.socks l).backlog ++ [c] = c :: rest := by
    rcases hbacklog with hbacklog | hbacklog
    · exact ⟨[], by rw [hbacklog]; rfl⟩
    · exact ⟨[c], by rw [hbacklog]; rfl⟩
  rw [foldl_cons, h.receive_ack hstate hcl.ackFor.1 hcl.ackFor.2 hcl.isAck,
    inputSynReceived_parent hparent h.ne hroom,
    hstage.accepted_after (by rw [hc]; rfl) (by rw [Tcp.put_self]; exact hlisten)
      (by rw [Tcp.put_self]; exact hrest) hcl.dataFor hcl.unfinished,
    hc, TcpSock.connState_afterData]
  simp only [TcpSock.completed, hrxq]
  rfl

/-! ## Every place of the call -/

lemma Tcp.Stage.withPending (h : t.Stage e l c) (pend)
    (hpend : ∀ pc ∈ pend, pc.sock ≠ c → (t.socks pc.sock).lport ≠ e.lport) :
    { t with pending := pend }.Stage e l c :=
  { h with pending := hpend }

lemma Client.listenAfter_zero (hcl : cl.WellFormed) (h : t.AwaitsClient l cl.ends) :
    (cl.listenAfter env l t 0).acceptedState l = some cl.expected := by
  obtain ⟨c, hfree, hne⟩ := h.exists_free
  have hswap := t.put_comm hne.symm ((t.socks l).listening [])
  have hstage := (h.stage (x := cl.syn) hne hcl.synFor.2 (t.socks l).laddr true
    (some l)).putListener (s := (t.socks l).listening [])
      (by rw [Tcp.put_other _ _ hne.symm]; rfl) rfl
  rw [← hswap] at hstage
  have hrun : cl.listenAfter env l t 0 = (cl.ack :: cl.data).foldl (Tcp.receive cl.ends.src)
      ((t.put l ((t.socks l).listening [])).put c
        (childSock cl.syn.1 c (t.socks l).laddr true (some l) cl.ends.src cl.syn.2)) := by
    rw [← h.receive_syn hfree hne hcl.synFor.1 hcl.synFor.2 hcl.isSyn, ← h.listen cl.ends.lport]
    rfl
  rw [hrun]
  refine hstage.accepted_handshake rfl hcl ?_ ?_ ?_ ?_ (.inl ?_)
  · rw [Tcp.put_self]
    rfl
  · rw [Tcp.put_self]
    rfl
  · rw [Tcp.put_self]
    rfl
  · rw [Tcp.put_other _ _ hne.symm, Tcp.put_self]
    rfl
  · rw [Tcp.put_other _ _ hne.symm, Tcp.put_self]
    rfl

def Client.afterSyn (cl : Client) (c : SockId) (t : Tcp) : Tcp :=
  { t.put c (childSock cl.syn.1 c cl.syn.1.localIp false none cl.ends.src cl.syn.2) with
    pending := t.pending ++ [⟨c, false, 0#32, []⟩] }

lemma Tcp.AwaitsClient.afterSyn_stage (hcl : cl.WellFormed) (h : t.AwaitsClient l cl.ends)
    (hne : c ≠ l) : (cl.afterSyn c t).Stage cl.ends l c := by
  have hstage := h.stage (x := cl.syn) hne hcl.synFor.2 cl.syn.1.localIp false none
  refine hstage.withPending _ fun pc hpc hpcne => ?_
  rcases mem_append.mp hpc with hold | hnew
  · exact hstage.pending pc hold hpcne
  · exact absurd (by rw [mem_singleton.mp hnew]) hpcne

lemma Tcp.AwaitsClient.pending_ne (h : t.AwaitsClient l e)
    (hfree : (finRange 8).find? (fun j => !(t.socks j).used) = some c) :
    ∀ pc ∈ t.pending, pc.sock ≠ c := by
  intro pc hpc hpcc
  have hc := find?_some hfree
  have hused := (h.pending pc hpc).1
  rw [hpcc] at hused
  simp [hused] at hc

lemma Tcp.AwaitsClient.afterSyn_server (hne : c ≠ l) :
    (cl.afterSyn c t).socks l = t.socks l := Tcp.put_other _ _ hne.symm

def Tcp.adopting (t : Tcp) (l c : SockId) (pend : List PendingChild) (pc : PendingChild) : Tcp :=
  { (t.put c ((t.socks c).adopted l pc)).put l ((t.socks l).listening [c]) with pending := pend }

lemma Tcp.adopting_child (hne : c ≠ l) (pend) (pc) :
    (t.adopting l c pend pc).socks c = (t.socks c).adopted l pc := by
  show ((t.put c _).put l _).socks c = _
  rw [Tcp.put_other _ _ hne, Tcp.put_self]

lemma Tcp.adopting_server (pend) (pc) :
    (t.adopting l c pend pc).socks l = (t.socks l).listening [c] := by
  show ((t.put c _).put l _).socks l = _
  rw [Tcp.put_self]

lemma Tcp.Stage.adopting {pend : List PendingChild} {pc : PendingChild} (h : t.Stage e l c)
    (hstate : ((t.socks c).adopted l pc).state = .synReceived ∨
      ((t.socks c).adopted l pc).state = .established)
    (hpend : ∀ pc' ∈ pend, pc' ∈ t.pending) : (t.adopting l c pend pc).Stage e l c := by
  have hchild := h.putChild ((t.socks c).adopted_ends l pc) hstate
  have hserver := hchild.putListener (s := (t.socks l).listening [c])
    (by rw [Tcp.put_other _ _ h.ne.symm]; rfl) rfl
  exact hserver.withPending pend fun pc' hpc' => hserver.pending pc' (hpend pc' hpc')

lemma Client.listenAfter_one (hcl : cl.WellFormed) (h : t.AwaitsClient l cl.ends) :
    (cl.listenAfter env l t 1).acceptedState l = some cl.expected := by
  obtain ⟨c, hfree, hne⟩ := h.exists_free
  have hstage := h.afterSyn_stage hcl hne
  have hserver : (cl.afterSyn c t).socks l = t.socks l := Tcp.AwaitsClient.afterSyn_server hne
  have hchild : ((cl.afterSyn c t).socks c).adopted l ⟨c, false, 0#32, []⟩ =
      childSock cl.syn.1 c cl.syn.1.localIp false (some l) cl.ends.src cl.syn.2 := by
    show (((t.put c _).socks c).adopted l _) = _
    rw [Tcp.put_self]
    rfl
  have hlisten : (tcpListen env (cl.afterSyn c t) l cl.ends.lport).2 =
      (cl.afterSyn c t).adopting l c t.pending ⟨c, false, 0#32, []⟩ :=
    hstage.listen env cl.ends.lport t.pending ⟨c, false, 0#32, []⟩ (by rw [hserver]; exact h.used)
      (by rw [hserver]; exact h.bound) (by rw [hserver]; exact h.lport) rfl rfl
      (h.pending_ne hfree)
  have hadopted : ((cl.afterSyn c t).adopting l c t.pending ⟨c, false, 0#32, []⟩).Stage cl.ends l
      c := hstage.adopting (by rw [hchild]; exact .inl rfl) fun pc hpc =>
        mem_append_left _ hpc
  have hrun : cl.listenAfter env l t 1 = (cl.ack :: cl.data).foldl (Tcp.receive cl.ends.src)
      ((cl.afterSyn c t).adopting l c t.pending ⟨c, false, 0#32, []⟩) := by
    rw [← hlisten, Client.afterSyn, ← h.receive_syn_pending hfree hcl.synFor.1 hcl.synFor.2
      hcl.isSyn]
    rfl
  have hc := (Tcp.adopting_child hne t.pending ⟨c, false, 0#32, []⟩).trans hchild
  have hl := Tcp.adopting_server (t := cl.afterSyn c t) (l := l) (c := c) t.pending
  rw [hrun]
  refine hadopted.accepted_handshake rfl hcl ?_ ?_ ?_ ?_ (.inr ?_)
  · rw [hc]
    rfl
  · rw [hc]
    rfl
  · rw [hc]
    rfl
  · rw [hl]
    rfl
  · rw [hl]
    rfl

/-- The number of the acknowledgement takes the place of what has been acknowledged. -/
def Client.adoptedLate (cl : Client) (k : ℕ) : ConnState :=
  ⟨highestAck cl.ack.2.seq (cl.data.drop k), cl.ack.2.seq, cl.ack.2.seq, cl.bytes⟩

def Client.afterEarly (cl : Client) (c : SockId) (t : Tcp) (k : ℕ) : Tcp :=
  let child := childSock cl.syn.1 c cl.syn.1.localIp false none cl.ends.src cl.syn.2
  { t.put c ((child.completed cl.ack.2).afterData (cl.data.take k)) with
    pending := t.pending ++ [⟨c, true, cl.ack.2.seq, []⟩] }

lemma Client.afterEarly_child (cl : Client) (c : SockId) (t : Tcp) (k : ℕ) :
    (cl.afterEarly c t k).socks c =
      ((childSock cl.syn.1 c cl.syn.1.localIp false none cl.ends.src cl.syn.2).completed
        cl.ack.2).afterData (cl.data.take k) := Tcp.put_self ..

lemma Client.afterEarly_state (hcl : cl.WellFormed) (k : ℕ) :
    ((cl.afterEarly c t k).socks c).state = .established := by
  rw [cl.afterEarly_child, TcpSock.afterData_state fun x hx => hcl.unfinished x
    (mem_of_mem_take hx)]
  rfl

lemma Tcp.AwaitsClient.afterEarly_stage (hcl : cl.WellFormed) (h : t.AwaitsClient l cl.ends)
    (hne : c ≠ l) (k : ℕ) : (cl.afterEarly c t k).Stage cl.ends l c := by
  have hstage := h.afterSyn_stage hcl hne
  have hchild : (cl.afterSyn c t).socks c =
      childSock cl.syn.1 c cl.syn.1.localIp false none cl.ends.src cl.syn.2 := Tcp.put_self ..
  have hends : ((cl.afterSyn c t).socks c).SameEnds ((cl.afterEarly c t k).socks c) := by
    rw [hchild, cl.afterEarly_child]
    have hcompleted : (childSock cl.syn.1 c cl.syn.1.localIp false none cl.ends.src
        cl.syn.2).SameEnds ((childSock cl.syn.1 c cl.syn.1.localIp false none cl.ends.src
        cl.syn.2).completed cl.ack.2) := ⟨rfl, rfl, rfl, rfl, rfl⟩
    exact hcompleted.trans (TcpSock.afterData_ends _ _)
  have hput := (hstage.putChild hends (.inr (cl.afterEarly_state hcl k))).withPending
    (cl.afterEarly c t k).pending fun pc hpc hpcne => ?_
  · have heq : { (cl.afterSyn c t).put c ((cl.afterEarly c t k).socks c) with
        pending := (cl.afterEarly c t k).pending } = cl.afterEarly c t k := by
      rw [cl.afterEarly_child]
      simp only [Client.afterSyn, Client.afterEarly, Tcp.put, update_idem]
    rwa [heq] at hput
  · rw [Tcp.put_other _ _ hpcne]
    rcases mem_append.mp hpc with hold | hnew
    · exact hstage.pending pc (mem_append_left _ hold) hpcne
    · exact absurd (by rw [mem_singleton.mp hnew]) hpcne

lemma Tcp.AwaitsClient.afterEarly_reached (hcl : cl.WellFormed) (h : t.AwaitsClient l cl.ends)
    (hfree : (finRange 8).find? (fun j => !(t.socks j).used) = some c) (hne : c ≠ l) (k : ℕ) :
    (cl.segments.take (k + 2)).foldl (Tcp.receive cl.ends.src) t = cl.afterEarly c t k := by
  have hstage := h.afterSyn_stage hcl hne
  have hchild : (cl.afterSyn c t).socks c =
      childSock cl.syn.1 c cl.syn.1.localIp false none cl.ends.src cl.syn.2 := Tcp.put_self ..
  have hack : (cl.afterSyn c t).receive cl.ends.src cl.ack = cl.afterEarly c t 0 := by
    rw [hstage.receive_ack (by rw [hchild]; rfl) hcl.ackFor.1 hcl.ackFor.2 hcl.isAck,
      inputSynReceived_pending (by rw [hchild]; rfl) hcl.bareAck rfl (h.pending_ne hfree), hchild]
    simp only [Client.afterSyn, Client.afterEarly, Tcp.put, update_idem, take_zero]
    rfl
  have hsyn : t.receive cl.ends.src cl.syn = cl.afterSyn c t :=
    h.receive_syn_pending hfree hcl.synFor.1 hcl.synFor.2 hcl.isSyn
  have hdata := (h.afterEarly_stage hcl hne 0).receive_all (cl.data.take k)
    (cl.afterEarly_state hcl 0) (fun x hx => hcl.dataFor x (mem_of_mem_take hx))
    (fun x hx => hcl.unfinished x (mem_of_mem_take hx))
  rw [Client.segments, take_succ_cons, take_succ_cons, foldl_cons, foldl_cons,
    hsyn, hack, hdata, cl.afterEarly_child]
  simp only [Client.afterEarly, Tcp.put, update_idem, take_zero]
  rfl

lemma TcpSock.adopted_acked (s : TcpSock) (l c : SockId) (seq : BitVec 32) :
    s.adopted l ⟨c, true, seq, []⟩ =
      { s with
        parent := some l, state := .established, rcvNxt := seq, sndUna := seq, sndNxt := seq } := by
  simp [TcpSock.adopted, TcpSock.takeEarly]

lemma Client.listenAfter_late (hcl : cl.WellFormed) (h : t.AwaitsClient l cl.ends) (k : ℕ) :
    (cl.listenAfter env l t (k + 2)).acceptedState l = some (cl.adoptedLate k) := by
  obtain ⟨c, hfree, hne⟩ := h.exists_free
  have hstage := h.afterEarly_stage hcl hne k
  have hserver : (cl.afterEarly c t k).socks l = t.socks l := Tcp.put_other _ _ hne.symm
  have hadopt := ((cl.afterEarly c t k).socks c).adopted_acked l c cl.ack.2.seq
  have hlisten : (tcpListen env (cl.afterEarly c t k) l cl.ends.lport).2 =
      (cl.afterEarly c t k).adopting l c t.pending ⟨c, true, cl.ack.2.seq, []⟩ :=
    hstage.listen env cl.ends.lport t.pending ⟨c, true, cl.ack.2.seq, []⟩
      (by rw [hserver]; exact h.used) (by rw [hserver]; exact h.bound)
      (by rw [hserver]; exact h.lport) rfl rfl (h.pending_ne hfree)
  have hadopted : ((cl.afterEarly c t k).adopting l c t.pending
      ⟨c, true, cl.ack.2.seq, []⟩).Stage cl.ends l c :=
    hstage.adopting (by rw [hadopt]; exact .inr rfl) fun pc hpc => mem_append_left _ hpc
  have hc := (Tcp.adopting_child (t := cl.afterEarly c t k) hne t.pending
    ⟨c, true, cl.ack.2.seq, []⟩).trans hadopt
  have hl := Tcp.adopting_server (t := cl.afterEarly c t k) (l := l) (c := c) t.pending
  have hrun : cl.listenAfter env l t (k + 2) = (cl.data.drop k).foldl (Tcp.receive cl.ends.src)
      ((cl.afterEarly c t k).adopting l c t.pending ⟨c, true, cl.ack.2.seq, []⟩) := by
    rw [← hlisten, ← h.afterEarly_reached hcl hfree hne k]
    rfl
  rw [hrun, hadopted.accepted_after (by rw [hc]) (by rw [hl]; rfl) (by rw [hl]; rfl)
    (fun x hx => hcl.dataFor x (mem_of_mem_drop hx))
    (fun x hx => hcl.unfinished x (mem_of_mem_drop hx)), hc, TcpSock.connState_afterData]
  have hrxq : ((cl.afterEarly c t k).socks c).rxq =
      (cl.data.take k).foldl queueSegment TcpSock.cleared.rxq := by
    rw [cl.afterEarly_child, (TcpSock.afterData_fields _ _).2.2.2]
    rfl
  simp only [hrxq, ← foldl_append, take_append_drop]
  rfl

/-- The accepted connection does not depend on the place of the call of `listen` up to the first
segment; later it does, unless the client's own number is the one it acknowledges. -/
theorem adoption_alike_iff (hcl : cl.WellFormed) (h : t.AwaitsClient l cl.ends) (cut : ℕ) :
    (cl.listenAfter env l t 0).acceptedState l ≠ none ∧
      ((cl.listenAfter env l t cut).acceptedState l = (cl.listenAfter env l t 0).acceptedState l ↔
        cut ≤ 1 ∨ cl.ack.2.seq = cl.ack.2.ack ∧
          highestAck cl.ack.2.ack (cl.data.drop (cut - 2)) = highestAck cl.ack.2.ack cl.data) := by
  have hzero : (cl.listenAfter env l t 0).acceptedState l = some cl.expected :=
    Client.listenAfter_zero hcl h
  refine ⟨by rw [hzero]; simp, ?_⟩
  rw [hzero]
  match cut with
  | 0 => simp [hzero]
  | 1 => simp [Client.listenAfter_one hcl h]
  | k + 2 =>
    rw [Client.listenAfter_late hcl h k, Nat.add_sub_cancel]
    simp only [some.injEq, Client.adoptedLate, Client.expected, ConnState.mk.injEq]
    constructor
    · rintro ⟨hhighest, hseq, -, -⟩
      exact .inr ⟨hseq, hseq ▸ hhighest⟩
    · rintro (hcut | ⟨hseq, hhighest⟩)
      · omega
      · exact ⟨hseq ▸ hhighest, hseq, trivial, trivial⟩

def oneServer : Tcp where
  socks := fun j =>
    if j = 0 then
      { TcpSock.cleared with used := true, bound := true, laddr := 2#32, lport := 80#16 }
    else TcpSock.cleared
  pending := []
  ephemeral := 41000#16

def oneByteClient : Client where
  ends := onePeer
  syn := (quietEnv, ⟨9#16, 80#16, flagSyn, 100#32, 0#32, []⟩)
  ack := (quietEnv, ⟨9#16, 80#16, flagAck, 101#32, 1#32, []⟩)
  data := [(quietEnv, ⟨9#16, 80#16, flagAck, 101#32, 1#32, [7#8]⟩)]

lemma oneByteClient_wellFormed : oneByteClient.WellFormed where
  synFor := ⟨rfl, rfl, rfl⟩
  ackFor := ⟨rfl, rfl, rfl⟩
  dataFor := by
    intro x hx
    rw [mem_singleton.mp hx]
    exact ⟨rfl, rfl, rfl⟩
  isSyn := by decide
  isAck := by decide
  bareAck := rfl
  unfinished := by
    intro x hx
    rw [mem_singleton.mp hx]
    decide

lemma oneServer_awaits : oneServer.AwaitsClient 0 onePeer where
  used := rfl
  closed := rfl
  bound := rfl
  lport := rfl
  noPeer := fun j seg _ => by
    have hclosed : (oneServer.socks j).state = .closed := by
      revert j
      decide
    simp [TcpSock.isPeerOf, hclosed]
  noListener := by decide
  pending := nofun
  room := by decide
  free := ⟨1, rfl⟩

theorem adoption_alike_after_syn :
    (oneByteClient.listenAfter quietEnv 0 oneServer 1).acceptedState 0 =
      (oneByteClient.listenAfter quietEnv 0 oneServer 0).acceptedState 0 :=
  (adoption_alike_iff oneByteClient_wellFormed oneServer_awaits 1).2.mpr (.inl le_rfl)

/-- The call of `listen` after the handshake makes a difference. -/
theorem adoption_differs_after_ack :
    oneByteClient.WellFormed ∧ oneServer.AwaitsClient 0 oneByteClient.ends ∧
      (oneByteClient.listenAfter quietEnv 0 oneServer 2).acceptedState 0 ≠
        (oneByteClient.listenAfter quietEnv 0 oneServer 0).acceptedState 0 :=
  ⟨oneByteClient_wellFormed, oneServer_awaits, by decide +kernel⟩

end HelixOS.Net
