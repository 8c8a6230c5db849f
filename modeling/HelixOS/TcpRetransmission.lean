import HelixOS.SequenceNumbers
import HelixOS.TcpConnections
import Mathlib.Data.List.TakeWhile

/-!
# The transmit queue

What has been sent and not yet acknowledged is kept in a ring of sixteen segments.
-/

namespace HelixOS.Net

open ByteOrder SequenceNumbers TrackedRuns BitVec List

def TxSeg.numbered (x : TxSeg) : BitVec 32 × List Byte := (x.seq, x.data)

def TxSeg.finish (x : TxSeg) : BitVec 32 := x.seq + BitVec.ofNat 32 x.data.length

/-- A segment that has been sent once more. -/
def TxSeg.again (x : TxSeg) : TxSeg := { x with retries := x.retries + 1#8 }

/-- Of the bytes sent so far `acked` are acknowledged, and the queue begins with byte `first`,
in the segment of the oldest byte that is not. -/
structure TcpSock.Keeps (s : TcpSock) (base : BitVec 32) (sent : List Byte) (first acked : ℕ) :
    Prop where
  nxt : s.sndNxt = seqAt base sent.length
  una : s.sndUna = seqAt base acked
  first_le : first ≤ acked
  acked_le : acked ≤ sent.length
  covers : Covers base first (s.txq.contents.map TxSeg.numbered) (sent.drop first)
  oldest : ∀ x ∈ s.txq.contents.head?, acked < first + x.data.length

def TcpSock.resent (s : TcpSock) (x : TxSeg) : Outgoing :=
  ⟨s.laddr, s.raddr, ⟨s.lport, s.rport, flagPsh ||| flagAck, x.seq, s.rcvNxt, x.data⟩⟩

/-- The queue holds what is needed, no segment has been sent again more often than the timer has
ticked, and a retransmission that is due sends all of the queue. -/
structure Tcp.Retransmits (t : Tcp) (i : SockId) (base : BitVec 32) (sent : List Byte)
    (ticks : ℕ) : Prop where
  keeps : ∃ first acked, (t.socks i).Keeps base sent first acked
  tries : ∀ x ∈ (t.socks i).txq.contents, x.retries.toNat ≤ ticks
  resends : ∀ env : NetEnv, env.ready → (t.socks i).state = .established →
    retransTimeoutTicks ≤ env.now - (t.socks i).lastSendTick →
    (∀ x ∈ (t.socks i).txq.contents, x.retries.toNat < retransMaxRetries) →
    ∀ x ∈ (t.socks i).txq.contents, (t.socks i).resent x ∈ (tcpRetransmit env t).1

/-- What happens to one connection: its calls and segments, and the timer. -/
def Tcp.timedStep (e : Endpoint) (i : SockId) (t : Tcp) : ConnEvent ⊕ NetEnv → Tcp
  | .inl ev => t.connStep e i ev
  | .inr env => (tcpRetransmit env t).2

/-- The bytes sent so far, and the ticks of the timer. -/
def noteSent (i : SockId) (t : Tcp) (ev : ConnEvent ⊕ NetEnv) (_ : Tcp) (h : List Byte × ℕ) :
    List Byte × ℕ :=
  match ev with
  | .inl (.send _ data) =>
    if (t.socks i).state = .established then (h.1 ++ data.take 1400, h.2) else h
  | .inl _ => h
  | .inr _ => (h.1, h.2 + 1)

/-- The peer acknowledges nothing that has not been sent, and the timer does not give the
connection up. -/
def AcksSent (e : Endpoint) (i : SockId) (t : Tcp) : ConnEvent ⊕ NetEnv → Prop
  | .inl (.input _ seg) =>
    seg.IsFor e ∧ (hasFlag seg.flags flagAck → seg.ack ≤ (t.socks i).sndNxt)
  | .inl _ => True
  | .inr env => ((t.socks i).retransmit env).2.used

/-- There is a place for what is sent, and its sequence numbers do not wrap around. -/
def RoomToSend (i : SockId) (t : Tcp) : ConnEvent ⊕ NetEnv → Prop
  | .inl (.send _ data) =>
    (t.socks i).state = .established → data ≠ [] →
      (t.socks i).txq.count < 16 ∧ (t.socks i).sndNxt.toNat + (data.take 1400).length < 2 ^ 32
  | _ => True

variable {t t₀ : Tcp} {e : Endpoint} {i : SockId} {s : TcpSock} {base : BitVec 32}
  {sent data : List Byte} {first acked ticks : ℕ} {env : NetEnv} {seg : Segment}

/-! ## Sending -/

lemma TcpSock.Keeps.empty (h : s.Keeps base sent first acked) (hempty : s.txq.contents = []) :
    first = sent.length ∧ acked = sent.length := by
  have hdrop : sent.drop first = [] := by simpa [hempty, Covers] using h.covers
  have hlen := drop_eq_nil_iff.mp hdrop
  have hfirst := h.first_le
  have hacked := h.acked_le
  omega

lemma TcpSock.Keeps.sentData (h : s.Keeps base sent first acked) (hsound : s.txq.Sound)
    (hroom : s.txq.count < 16) (hdata : data ≠ []) (env : NetEnv) :
    (s.sentData env data).Keeps base (sent ++ data) first acked := by
  have hle : first ≤ sent.length := h.first_le.trans h.acked_le
  have hcontents : (s.sentData env data).txq.contents =
      s.txq.contents ++ [⟨s.sndNxt, data, 0#8⟩] := by
    simp only [TcpSock.sentData, hroom, if_true]
    exact RingBuffer.contents_push hsound _ hroom
  refine ⟨?_, h.una, h.first_le, ?_, ?_, ?_⟩
  · show s.sndNxt + _ = _
    rw [h.nxt, seqAt_add, length_append]
  · exact h.acked_le.trans (by simp)
  · have hend := h.covers.append hdata
    rw [length_drop, Nat.add_sub_cancel' hle, ← h.nxt] at hend
    rw [hcontents, map_append, drop_append_of_le_length hle]
    exact hend
  · intro x hx
    rw [hcontents] at hx
    cases hqueue : s.txq.contents with
    | nil =>
      obtain ⟨hfirst, hacked⟩ := h.empty hqueue
      rw [hqueue] at hx
      obtain rfl : _ = x := by simpa using hx
      have hpos := length_pos_of_ne_nil hdata
      simp only
      omega
    | cons y ys =>
      exact h.oldest x (by simpa [hqueue] using hx)

/-! ## Acknowledgements -/

lemma drainTx_contents (n : ℕ) {q : RingBuffer TxSeg 16} {una : BitVec 32} (hn : q.count ≤ n)
    (hq : q.Sound) :
    (drainTx una n q).Sound ∧
      (drainTx una n q).contents = q.contents.dropWhile fun x => x.finish ≤ una := by
  induction n generalizing q with
  | zero =>
    have hempty : q.contents = [] := eq_nil_of_length_eq_zero (by simp; omega)
    exact ⟨hq, by simp [drainTx, hempty]⟩
  | succ n ih =>
    by_cases hpos : 0 < q.count
    · have hcontents := RingBuffer.contents_pop q hpos
      have hround : drainTx una (n + 1) q =
          if (q.buf q.tail).finish ≤ una then drainTx una n q.pop else q := by
        rw [drainTx, if_pos hpos]
        rfl
      rw [hround]
      by_cases hend : (q.buf q.tail).finish ≤ una
      · rw [if_pos hend, hcontents, dropWhile_cons_of_pos (by simpa using hend)]
        exact ih (by simp only [RingBuffer.pop]; omega) (hq.pop hpos)
      · rw [if_neg hend, hcontents, dropWhile_cons_of_neg (by simpa using hend)]
        exact ⟨hq, rfl⟩
    · have hempty : q.contents = [] := eq_nil_of_length_eq_zero (by simp; omega)
      rw [drainTx, if_neg hpos, hempty]
      exact ⟨hq, rfl⟩

lemma Covers.released {xs : List TxSeg} {bytes : List Byte}
    (hcovers : Covers base first (xs.map TxSeg.numbered) bytes)
    (hwrap : base.toNat + (first + bytes.length) < 2 ^ 32) (hfirst : first ≤ acked)
    (hacked : acked ≤ first + bytes.length) :
    let left := xs.dropWhile fun x => x.finish ≤ seqAt base acked
    ∃ k, first + k ≤ acked ∧ Covers base (first + k) (left.map TxSeg.numbered) (bytes.drop k) ∧
      ∀ x ∈ left.head?, acked < first + k + x.data.length := by
  induction xs generalizing first bytes with
  | nil => exact ⟨0, by simpa using hfirst, by simpa using hcovers, by simp⟩
  | cons x xs ih =>
    have hwhole := hcovers
    obtain ⟨hseq, hne, ⟨rest, rfl⟩, htail⟩ := hcovers
    rw [drop_left] at htail
    simp only [TxSeg.numbered, length_append] at hseq htail hwrap hacked
    have hend : x.finish = seqAt base (first + x.data.length) := by
      rw [TxSeg.finish, hseq, seqAt_add]
    have hle : x.finish ≤ seqAt base acked ↔ first + x.data.length ≤ acked := by
      rw [hend]
      exact seqAt_le_seqAt (by omega) (by omega)
    by_cases hdone : first + x.data.length ≤ acked
    · rw [dropWhile_cons_of_pos (by simpa using hle.mpr hdone)]
      obtain ⟨k, hk, hcov, holdest⟩ := ih htail (by omega) hdone (by omega)
      refine ⟨x.data.length + k, by omega, ?_, fun y hy => ?_⟩
      · rw [← Nat.add_assoc, ← drop_drop, TxSeg.numbered, drop_left]
        exact hcov
      · have := holdest y hy
        omega
    · rw [dropWhile_cons_of_neg (by simpa [hle] using hdone)]
      refine ⟨0, hfirst, hwhole, fun y hy => ?_⟩
      obtain rfl : x = y := by simpa using hy
      omega

lemma exists_acked {una ack : BitVec 32} (hwrap : base.toNat + sent.length < 2 ^ 32)
    (huna : una = seqAt base acked) (hacked : acked ≤ sent.length)
    (hack : ack ≤ seqAt base sent.length) :
    ∃ acked', acked ≤ acked' ∧ acked' ≤ sent.length ∧
      (if ack > una then ack else una) = seqAt base acked' := by
  by_cases hlater : ack > una
  · rw [if_pos hlater]
    have hlo : base.toNat + acked < ack.toNat := by
      have := lt_def.mp hlater
      rwa [huna, toNat_seqAt (by omega)] at this
    have hhi : ack.toNat ≤ base.toNat + sent.length := by
      have := le_def.mp hack
      rwa [toNat_seqAt hwrap] at this
    refine ⟨ack.toNat - base.toNat, by omega, by omega, eq_of_toNat_eq ?_⟩
    rw [toNat_seqAt (by omega)]
    omega
  · rw [if_neg hlater]
    exact ⟨acked, le_rfl, hacked, huna⟩

lemma TcpSock.Keeps.onAck {ack : BitVec 32} (h : s.Keeps base sent first acked)
    (hsound : s.txq.Sound) (hwrap : base.toNat + sent.length < 2 ^ 32) (hack : ack ≤ s.sndNxt) :
    (s.onAck ack).txq.Sound ∧ (∃ first' acked', (s.onAck ack).Keeps base sent first' acked') ∧
      ∀ x ∈ (s.onAck ack).txq.contents, x ∈ s.txq.contents := by
  obtain ⟨acked', hle, hacked', huna⟩ := exists_acked hwrap h.una h.acked_le (h.nxt ▸ hack)
  have hfirst := h.first_le
  have htxq : (s.onAck ack).txq = drainTx (seqAt base acked') s.txq.count s.txq := by
    simp only [TcpSock.onAck, huna]
  obtain ⟨hsound', hleft⟩ := drainTx_contents s.txq.count le_rfl hsound
  obtain ⟨k, hk, hcovers, holdest⟩ := Covers.released h.covers (by rw [length_drop]; omega)
    (hfirst.trans hle) (by rw [length_drop]; omega)
  rw [drop_drop] at hcovers
  rw [← hleft, ← htxq] at hcovers holdest
  refine ⟨htxq ▸ hsound', ⟨first + k, acked', h.nxt, huna, hk, hacked', hcovers, holdest⟩, ?_⟩
  rw [htxq, hleft]
  exact fun x hx => (dropWhile_sublist _).subset hx

/-! ## Retransmission -/

lemma resendFrom_sends (hready : env.ready) (n k : ℕ) (s : TcpSock) (hn : k + n ≤ 16)
    (hretries : ∀ j < n, (s.txq.buf (s.txq.cell (k + j))).retries.toNat < retransMaxRetries) :
    (resendFrom env n k s).1 =
      (List.range n).map fun j => s.resent (s.txq.buf (s.txq.cell (k + j))) := by
  induction n generalizing k s with
  | zero => rfl
  | succ n ih =>
    have hfirst := hretries 0 (by omega)
    rw [Nat.add_zero] at hfirst
    set tx := s.txq.buf (s.txq.cell k) with htx
    have hmore : ¬ (tx.retries + 1#8).toNat > retransMaxRetries := by
      rw [toNat_add]
      simp only [toNat_ofNat]
      omega
    simp only [resendFrom]
    rw [← htx, if_neg hmore]
    set s' : TcpSock := { s with txq := { s.txq with
      buf := Function.update s.txq.buf (s.txq.cell k) ⟨tx.seq, tx.data, tx.retries + 1#8⟩ } }
    have hlater : ∀ j < n, s'.txq.buf (s'.txq.cell (k + 1 + j)) =
        s.txq.buf (s.txq.cell (k + (j + 1))) := by
      intro j hj
      have hne : s.txq.cell (k + (j + 1)) ≠ s.txq.cell k :=
        (RingBuffer.cell_ne (by omega) (by omega)).symm
      rw [show k + 1 + j = k + (j + 1) by omega]
      exact Function.update_of_ne hne _ _
    have hrest := ih (k + 1) s' (by omega) fun j hj => by
      rw [hlater j hj]
      exact hretries (j + 1) (by omega)
    rw [hrest, range_succ_eq_map, map_cons, map_map, sendSegment, if_pos hready]
    refine congrArg _ (map_congr_left fun j hj => ?_)
    rw [hlater j (mem_range.mp hj)]
    rfl

lemma TcpSock.retransmit_sends (hready : env.ready) (hused : s.used)
    (hstate : s.state = .established) (hsound : s.txq.Sound)
    (hretries : ∀ x ∈ s.txq.contents, x.retries.toNat < retransMaxRetries)
    (hdue : retransTimeoutTicks ≤ env.now - s.lastSendTick) :
    (s.retransmit env).1 = s.txq.contents.map s.resent := by
  by_cases hcount : s.txq.count = 0
  · have hempty : s.txq.contents = [] := List.eq_nil_of_length_eq_zero (by simpa using hcount)
    simp [TcpSock.retransmit, hused, hstate, hcount, hempty]
  · have hnot : ¬ env.now - s.lastSendTick < retransTimeoutTicks := BitVec.not_lt.mpr hdue
    have hsends := resendFrom_sends hready s.txq.count 0 s (by simpa using hsound.fits)
      (fun j hj => hretries _ (List.mem_map.mpr
        ⟨j, List.mem_range.mpr hj, by rw [Nat.zero_add]⟩))
    simp only [TcpSock.retransmit, hused, hstate, hcount, hnot]
    rw [RingBuffer.contents, List.map_map]
    cases hround : resendFrom env s.txq.count 0 s with
    | mk out left =>
      rw [hround] at hsends
      cases left with
      | none => simpa [Function.comp_def] using hsends
      | some s' => simpa [Function.comp_def] using hsends

lemma resendFrom_buf (n k : ℕ) {s s' : TcpSock} (hn : k + n ≤ 16)
    (h : (resendFrom env n k s).2 = some s') :
    ∃ buf, s' = { s with txq := { s.txq with buf } } ∧ ∀ j < 16,
      buf (s.txq.cell j) = if k ≤ j ∧ j < k + n then (s.txq.buf (s.txq.cell j)).again
        else s.txq.buf (s.txq.cell j) := by
  induction n generalizing k s with
  | zero =>
    refine ⟨s.txq.buf, (Option.some.inj h).symm, fun j hj => ?_⟩
    rw [if_neg (by omega)]
  | succ n ih =>
    simp only [resendFrom] at h
    split_ifs at h
    obtain ⟨buf, rfl, hbuf⟩ := ih (k + 1) (by omega) h
    refine ⟨buf, rfl, fun j hj => ?_⟩
    -- the cell of this round is not touched again
    refine (hbuf j hj).trans ?_
    by_cases hk : j = k
    · subst hk
      rw [if_neg (by omega), if_pos (by omega)]
      exact Function.update_self _ _ _
    · have hne : s.txq.cell j ≠ s.txq.cell k := by
        rcases Nat.lt_or_gt_of_ne hk with hlt | hlt
        · exact RingBuffer.cell_ne hlt (by omega)
        · exact (RingBuffer.cell_ne hlt hj).symm
      simp only [show k + 1 ≤ j ∧ j < k + 1 + n ↔ k ≤ j ∧ j < k + (n + 1) by omega]
      exact congrArg (fun x : TxSeg => if k ≤ j ∧ j < k + (n + 1) then x.again else x)
        (Function.update_of_ne hne _ _)

/-- A connection that is not given up keeps its queue, apart from the counts of retries. -/
lemma TcpSock.retransmit_queue (hsound : s.txq.Sound) (hused : (s.retransmit env).2.used) :
    ∃ q r k, (s.retransmit env).2 = { s with txq := q, retries := r, lastSendTick := k } ∧
      q.Sound ∧ (q.contents = s.txq.contents ∨ q.contents = s.txq.contents.map TxSeg.again) := by
  unfold TcpSock.retransmit at hused ⊢
  split_ifs at hused ⊢
  · exact ⟨_, _, _, rfl, hsound, .inl rfl⟩
  · exact ⟨_, _, _, rfl, hsound, .inl rfl⟩
  · exact ⟨_, _, _, rfl, hsound, .inl rfl⟩
  · exact ⟨_, _, _, rfl, hsound, .inl rfl⟩
  · cases hround : resendFrom env s.txq.count 0 s with
    | mk out left =>
      cases left with
      | none => simp [hround, TcpSock.cleared] at hused
      | some s' =>
        have hfits : 0 + s.txq.count ≤ 16 := by simpa using hsound.fits
        obtain ⟨buf, rfl, hbuf⟩ := resendFrom_buf s.txq.count 0 hfits (congrArg Prod.snd hround)
        refine ⟨_, _, _, rfl, ⟨hsound.head_eq, hsound.fits⟩, .inr ?_⟩
        simp only [RingBuffer.contents, map_map]
        refine map_congr_left fun j hj => ?_
        have hlt := mem_range.mp hj
        exact (hbuf j (by omega)).trans (if_pos (by omega))

/-! ## Runs -/

/-- Established, and nothing has been sent. -/
structure TcpSock.Fresh (s : TcpSock) (base : BitVec 32) : Prop where
  state : s.state = .established
  una : s.sndUna = base
  nxt : s.sndNxt = base
  sound : s.txq.Sound
  empty : s.txq.count = 0

structure TcpSock.TxInvariant (s : TcpSock) (base : BitVec 32) (sent : List Byte) (ticks : ℕ) :
    Prop where
  sound : s.txq.Sound
  wrap : base.toNat + sent.length < 2 ^ 32
  keeps : ∃ first acked, s.Keeps base sent first acked
  tries : ∀ x ∈ s.txq.contents, x.retries.toNat ≤ ticks

lemma TcpSock.Keeps.congr {s' : TcpSock} (h : s.Keeps base sent first acked)
    (hnxt : s'.sndNxt = s.sndNxt) (huna : s'.sndUna = s.sndUna)
    (hdata : s'.txq.contents.map TxSeg.numbered = s.txq.contents.map TxSeg.numbered) :
    s'.Keeps base sent first acked where
  nxt := hnxt.trans h.nxt
  una := huna.trans h.una
  first_le := h.first_le
  acked_le := h.acked_le
  covers := by rw [hdata]; exact h.covers
  oldest x hx := by
    have hhead : x.numbered ∈ (s.txq.contents.map TxSeg.numbered).head? := by
      rw [← hdata, head?_map]
      exact Option.mem_map_of_mem _ hx
    rw [head?_map] at hhead
    obtain ⟨y, hy, heq⟩ := Option.mem_map.mp hhead
    have hlength := congrArg (fun z => z.2.length) heq
    exact (h.oldest y hy).trans_eq (congrArg (first + ·) hlength)

lemma TcpSock.onEstablished_tx (s : TcpSock) (seg : Segment) :
    (s.onEstablished seg).sndNxt = s.sndNxt ∧
      (s.onEstablished seg).sndUna =
        (if hasFlag seg.flags flagAck then s.onAck seg.ack else s).sndUna ∧
      (s.onEstablished seg).txq =
        (if hasFlag seg.flags flagAck then s.onAck seg.ack else s).txq := by
  unfold TcpSock.onEstablished TcpSock.onData
  dsimp only
  split_ifs <;> exact ⟨rfl, rfl, rfl⟩

lemma TcpSock.Fresh.txInvariant (h : s.Fresh base) : s.TxInvariant base [] 0 := by
  have hempty : s.txq.contents = [] := eq_nil_of_length_eq_zero (by simpa using h.empty)
  refine ⟨h.sound, by simpa using base.isLt, ⟨0, 0, ?_⟩, by simp [hempty]⟩
  exact ⟨by simpa using h.nxt, by simpa using h.una, le_rfl, le_rfl, by simp [hempty, Covers],
    by simp [hempty]⟩

lemma TcpSock.TxInvariant.congr {s' : TcpSock} (h : s.TxInvariant base sent ticks)
    (hnxt : s'.sndNxt = s.sndNxt) (huna : s'.sndUna = s.sndUna) (htxq : s'.txq = s.txq) :
    s'.TxInvariant base sent ticks := by
  obtain ⟨first, acked, hkeeps⟩ := h.keeps
  exact ⟨htxq ▸ h.sound, h.wrap, ⟨first, acked, hkeeps.congr hnxt huna (by rw [htxq])⟩,
    htxq ▸ h.tries⟩

lemma TcpSock.TxInvariant.onEstablished (h : s.TxInvariant base sent ticks)
    (hack : hasFlag seg.flags flagAck → seg.ack ≤ s.sndNxt) :
    (s.onEstablished seg).TxInvariant base sent ticks := by
  obtain ⟨hnxt, huna, htxq⟩ := s.onEstablished_tx seg
  by_cases hflag : hasFlag seg.flags flagAck
  · rw [if_pos hflag] at huna htxq
    obtain ⟨first, acked, hkeeps⟩ := h.keeps
    obtain ⟨hsound, hkeeps', hmem⟩ := hkeeps.onAck h.sound h.wrap (hack hflag)
    have honAck : (s.onAck seg.ack).TxInvariant base sent ticks :=
      ⟨hsound, h.wrap, hkeeps', fun x hx => h.tries x (hmem x hx)⟩
    exact honAck.congr hnxt huna htxq
  · rw [if_neg hflag] at huna htxq
    exact h.congr hnxt huna htxq

lemma TcpSock.TxInvariant.sentData (h : s.TxInvariant base sent ticks) (hroom : s.txq.count < 16)
    (hdata : data ≠ []) (hwrap : s.sndNxt.toNat + data.length < 2 ^ 32) (env : NetEnv) :
    (s.sentData env data).TxInvariant base (sent ++ data) ticks := by
  obtain ⟨first, acked, hkeeps⟩ := h.keeps
  rw [hkeeps.nxt, toNat_seqAt h.wrap] at hwrap
  have htxq : (s.sentData env data).txq = s.txq.push ⟨s.sndNxt, data, 0#8⟩ := by
    simp only [TcpSock.sentData, hroom, if_true]
  refine ⟨htxq ▸ h.sound.push _ hroom, by rw [length_append]; omega,
    ⟨first, acked, hkeeps.sentData h.sound hroom hdata env⟩, ?_⟩
  rw [htxq, RingBuffer.contents_push h.sound _ hroom]
  intro x hx
  rcases mem_append.mp hx with hold | hnew
  · exact h.tries x hold
  · rw [mem_singleton.mp hnew]
    exact Nat.zero_le _

lemma TcpSock.TxInvariant.retransmit (h : s.TxInvariant base sent ticks)
    (hused : (s.retransmit env).2.used) :
    (s.retransmit env).2.TxInvariant base sent (ticks + 1) := by
  obtain ⟨q, r, k, hs, hsound, hcontents⟩ := s.retransmit_queue h.sound hused
  obtain ⟨first, acked, hkeeps⟩ := h.keeps
  rw [hs]
  refine ⟨hsound, h.wrap, ⟨first, acked, hkeeps.congr rfl rfl ?_⟩, fun x hx => ?_⟩
  · rcases hcontents with hsame | hagain
    · exact congrArg _ hsame
    · exact (congrArg _ hagain).trans (map_map ..)
  · rcases hcontents with hsame | hagain
    · exact (h.tries x (hsame ▸ hx)).trans (Nat.le_succ _)
    · obtain ⟨y, hy, rfl⟩ := mem_map.mp (hagain ▸ hx)
      have hle := h.tries y hy
      simp only [TxSeg.again, toNat_add, toNat_ofNat]
      omega

lemma TcpSock.TxInvariant.step {ev : ConnEvent} (h : (t.socks i).TxInvariant base sent ticks)
    (hack : AcksSent e i t (.inl ev)) (hroom : RoomToSend i t (.inl ev)) (t' : Tcp) :
    ((t.socks i).connStep ev).TxInvariant base (noteSent i t (.inl ev) t' (sent, ticks)).1
      (noteSent i t (.inl ev) t' (sent, ticks)).2 := by
  cases ev with
  | input env seg =>
    simp only [TcpSock.connStep]
    split_ifs
    · exact h.onEstablished hack.2
    · exact h
  | send env data =>
    simp only [TcpSock.connStep, noteSent]
    by_cases hstate : (t.socks i).state = .established
    · rw [if_pos hstate]
      by_cases hdata : data = []
      · simpa [hdata] using h
      · have hne : data.take 1400 ≠ [] := by simpa using hdata
        rw [if_pos ⟨hstate, hdata⟩]
        obtain ⟨hplace, hwrap⟩ := hroom hstate hdata
        exact h.sentData hplace hne hwrap env
    · simpa [hstate] using h
  | recv buflen =>
    simp only [TcpSock.connStep]
    split_ifs
    · exact h.congr rfl rfl rfl
    · exact h

lemma Tcp.Connected.used (h : t.Connected e i) : (t.socks i).used := by
  obtain ⟨seg, hseg⟩ : ∃ seg : Segment, seg.IsFor e :=
    ⟨⟨e.rport, e.lport, 0#8, 0#32, 0#32, []⟩, rfl, rfl⟩
  have hpeer := find?_some (h.routes seg hseg)
  simp only [TcpSock.isPeerOf, Bool.and_eq_true] at hpeer
  exact hpeer.1.1.1.1.1

lemma Tcp.Connected.retransmits (hconn : t.Connected e i)
    (h : (t.socks i).TxInvariant base sent ticks) : t.Retransmits i base sent ticks where
  keeps := h.keeps
  tries := h.tries
  resends := by
    intro env hready hstate hdue hretries x hx
    have hsends := TcpSock.retransmit_sends hready hconn.used hstate h.sound hretries hdue
    refine mem_flatMap.mpr ⟨i, mem_finRange i, ?_⟩
    rw [hsends]
    exact mem_map_of_mem hx

/-- What has been sent and not acknowledged can be sent again, as long as the queue has room for
everything that is sent and the sequence numbers do not wrap around; also after the timer has sent
it before. -/
theorem unacked_retransmitted (hconn : t₀.Connected e i) (hfresh : (t₀.socks i).Fresh base)
    (hreach : Reaches (fun t ev => some (t.timedStep e i ev)) (noteSent i)
      (fun t ev => AcksSent e i t ev ∧ RoomToSend i t ev) t₀ ([], 0) t (sent, ticks)) :
    t.Retransmits i base sent ticks := by
  have hinv := hreach.invariant
    (fun t h => t.Connected e i ∧ (t.socks i).TxInvariant base h.1 h.2)
    ⟨hconn, hfresh.txInvariant⟩ fun t t' h ev hinv hallowed hstep => by
      obtain rfl : t.timedStep e i ev = t' := Option.some.inj hstep
      cases ev with
      | inl ev =>
        have hev : ev.IsFor e := by
          cases ev with
          | input env seg => exact hallowed.1.1
          | send env data => trivial
          | recv buflen => trivial
        refine ⟨hinv.1.step hev, ?_⟩
        have hstep := hinv.2.step hallowed.1 hallowed.2 (t.connStep e i ev)
        simp only [Tcp.timedStep]
        rw [hinv.1.connStep_eq hev] at hstep ⊢
        rwa [Tcp.put_self]
      | inr env => exact ⟨hinv.1.tick hallowed.1, hinv.2.retransmit hallowed.1⟩
  exact hinv.1.retransmits hinv.2

lemma connectedSock_fresh (snd rcv : BitVec 32) :
    ((oneConnection snd rcv).socks 0).Fresh snd where
  state := rfl
  una := rfl
  nxt := rfl
  sound := ⟨rfl, Nat.zero_le _⟩
  empty := rfl

/-- Two bytes are sent and, when the timer ticks, sent again. -/
theorem unacked_retransmitted_two_bytes :
    let t := (oneConnection 7#32 0#32).connStep onePeer 0 (.send quietEnv [1#8, 2#8])
    (tcpRetransmit { quietEnv with now := 100#64 } t).1 ≠ [] ∧
      (tcpRetransmit { quietEnv with now := 100#64 } t).2.Retransmits 0 7#32 [1#8, 2#8] 1 := by
  have hstart : Reaches (fun t ev => some (t.timedStep onePeer 0 ev)) (noteSent 0)
      (fun t ev => AcksSent onePeer 0 t ev ∧ RoomToSend 0 t ev) (oneConnection 7#32 0#32) ([], 0)
      (oneConnection 7#32 0#32) ([], 0) := .start
  have hsent := hstart.next (.inl (.send quietEnv [1#8, 2#8])) ⟨trivial, fun _ _ => by decide⟩ rfl
  have hticked := hsent.next (.inr { quietEnv with now := 100#64 })
    ⟨show TcpSock.used _ = true by decide +kernel, trivial⟩ rfl
  exact ⟨by decide +kernel, unacked_retransmitted (oneConnection_connected 7#32 0#32)
    (connectedSock_fresh 7#32 0#32) hticked⟩

def sendOneByte : ConnEvent := .send quietEnv [5#8]

def afterBytes : ℕ → Tcp
  | 0 => oneConnection 0#32 0#32
  | n + 1 => (afterBytes n).connStep onePeer 0 sendOneByte

/-- The seventeenth byte that waits for its acknowledgement is not kept. -/
theorem seventeenth_byte_lost :
    ∃ t sent, Reaches (fun t ev => some (t.timedStep onePeer 0 ev)) (noteSent 0)
      (AcksSent onePeer 0) (oneConnection 0#32 0#32) ([], 0) t (sent, 0) ∧
      ¬ t.Retransmits 0 0#32 sent 0 := by
  refine ⟨afterBytes 17, replicate 17 5#8, ?_, ?_⟩
  · refine Reaches.run .start (replicate 17 (.inl sendOneByte)) ?_ rfl
    intro ev hev t
    rw [eq_of_mem_replicate hev]
    trivial
  · rintro ⟨⟨first, acked, hkeeps⟩, -⟩
    have hacked : acked = 0 := by
      have hle : acked ≤ 17 := by simpa using hkeeps.acked_le
      have huna : (seqAt 0#32 acked).toNat = 0 := by rw [← hkeeps.una]; decide +kernel
      rwa [toNat_seqAt (by simp; omega), toNat_ofNat, Nat.zero_add] at huna
    have hfirst : first = 0 := Nat.le_zero.mp (hacked ▸ hkeeps.first_le)
    subst hfirst
    have hbytes := congrArg List.length hkeeps.covers.flatMap
    revert hbytes
    decide +kernel

end HelixOS.Net
