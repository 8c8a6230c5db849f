import HelixOS.TcpRetransmission

/-!
# Acknowledgement numbers

An acknowledgement counts when it lies in the window of the outstanding bytes, in the cyclic
order of the sequence numbers, and it releases the segments that end in front of it.  The code
compares the numbers as plain ones and never looks at the end of the window.
-/

namespace HelixOS.Net

open ByteOrder TrackedRuns List

def TcpSock.offset (s : TcpSock) (v : BitVec 32) : BitVec 32 := v - s.sndUna

/-- The number lies after `snd_una` and not after `snd_nxt`. -/
def TcpSock.Outstanding (s : TcpSock) (ack : BitVec 32) : Prop :=
  ack ≠ s.sndUna ∧ s.offset ack ≤ s.offset s.sndNxt

instance (s : TcpSock) (ack : BitVec 32) : Decidable (s.Outstanding ack) :=
  inferInstanceAs (Decidable (_ ∧ _))

/-- What an acknowledgement with this number does. -/
def TcpSock.Acknowledges (s s' : TcpSock) (ack : BitVec 32) : Prop :=
  if s.Outstanding ack then
    s'.sndUna = ack ∧
      s'.txq.contents = s.txq.contents.filter fun x => s.offset ack < s.offset x.finish
  else s'.sndUna = s.sndUna ∧ s'.txq.contents = s.txq.contents

/-- The plain order of the numbers agrees with the cyclic one, for the acknowledgement and for the
ends of the queued segments. -/
def TcpSock.AckFits (s : TcpSock) (ack : BitVec 32) : Prop :=
  (s.sndUna ≤ s.sndNxt ↔ ack ≤ s.sndNxt) ∧
    ((∀ x ∈ s.txq.contents, s.sndUna < x.finish) ∨
      ∃ x ∈ s.txq.contents, s.sndUna < x.finish ∧ ack < x.finish)

/-- The queued segments end in the window of the outstanding bytes, one after the other. -/
structure TcpSock.Ordered (s : TcpSock) : Prop where
  sound : s.txq.Sound
  window : ∀ v ∈ s.txq.contents.map TxSeg.finish, v ≠ s.sndUna ∧ s.offset v ≤ s.offset s.sndNxt
  sorted : (s.txq.contents.map TxSeg.finish).Pairwise fun v w => s.offset v < s.offset w

variable {t t₀ : Tcp} {e : Endpoint} {i : SockId} {s s' : TcpSock} {base ack una v w : BitVec 32}
  {data : List Byte} {env : NetEnv} {seg : Segment}

/-! ## The released segments -/

/-- Segments in cyclic order, none of which ends at `snd_una`, are released up to `una` as plain
numbers. -/
theorem TcpSock.dropWhile_finish {xs : List TxSeg} (huna : s.sndUna ≤ una)
    (hne : ∀ x ∈ xs, x.finish ≠ s.sndUna)
    (hsorted : xs.Pairwise fun x y => s.offset x.finish < s.offset y.finish) :
    (xs.dropWhile fun x => x.finish ≤ una) =
        (xs.filter fun x => s.offset una < s.offset x.finish) ↔
      (∀ x ∈ xs, s.sndUna < x.finish) ∨ ∃ x ∈ xs, una < x.finish := by
  constructor
  · intro hdrop
    by_contra hnot
    push Not at hnot
    obtain ⟨⟨x, hx, hwrapped⟩, hall⟩ := hnot
    have hnil : (xs.dropWhile fun x => x.finish ≤ una) = [] :=
      List.dropWhile_eq_nil_iff.mpr fun y hy => by simpa using hall y hy
    rw [hnil] at hdrop
    have hout : ¬ s.offset una < s.offset x.finish := by
      simpa using List.filter_eq_nil_iff.mp hdrop.symm x hx
    have hxne := hne x hx
    simp only [TcpSock.offset] at hout
    bv_omega
  · intro hplain
    induction xs with
    | nil => rfl
    | cons y ys ih =>
      obtain ⟨hlater, hrest⟩ := List.pairwise_cons.mp hsorted
      by_cases hend : y.finish ≤ una
      · have hyne := hne y List.mem_cons_self
        have hy : s.sndUna < y.finish := by
          rcases hplain with hall | ⟨x, hx, hlast⟩
          · exact hall y List.mem_cons_self
          · rcases List.mem_cons.mp hx with rfl | hx
            · exact absurd hend (BitVec.not_le.mpr hlast)
            · have hbefore := hlater x hx
              simp only [TcpSock.offset] at hbefore
              bv_omega
        have hcovered : ¬ s.offset una < s.offset y.finish := by
          simp only [TcpSock.offset]
          bv_omega
        rw [List.dropWhile_cons_of_pos (by simpa using hend),
          List.filter_cons_of_neg (by simpa using hcovered)]
        refine ih (fun x hx => hne x (List.mem_cons_of_mem _ hx)) hrest ?_
        rcases hplain with hall | ⟨x, hx, hlast⟩
        · exact Or.inl fun x hx => hall x (List.mem_cons_of_mem _ hx)
        · rcases List.mem_cons.mp hx with rfl | hx
          · exact absurd hend (BitVec.not_le.mpr hlast)
          · exact Or.inr ⟨x, hx, hlast⟩
      · have hy : s.offset una < s.offset y.finish := by
          simp only [TcpSock.offset]
          bv_omega
        rw [List.dropWhile_cons_of_neg (by simpa using hend)]
        refine (List.filter_eq_self.mpr fun x hx => ?_).symm
        rcases List.mem_cons.mp hx with rfl | hx
        · simpa using hy
        · simpa using BitVec.lt_trans hy (hlater x hx)

lemma TcpSock.onAck_una (s : TcpSock) (ack : BitVec 32) :
    s.sndUna < ack ∧ (s.onAck ack).sndUna = ack ∨
      ack ≤ s.sndUna ∧ (s.onAck ack).sndUna = s.sndUna := by
  by_cases hafter : s.sndUna < ack
  · exact Or.inl ⟨hafter, if_pos hafter⟩
  · exact Or.inr ⟨BitVec.not_lt.mp hafter, if_neg hafter⟩

lemma TcpSock.onAck_una_iff (s : TcpSock) (ack : BitVec 32) :
    (s.onAck ack).sndUna = (if s.Outstanding ack then ack else s.sndUna) ↔
      (s.sndUna ≤ s.sndNxt ↔ ack ≤ s.sndNxt) := by
  have hout : s.Outstanding ack ↔ ack ≠ s.sndUna ∧ ack - s.sndUna ≤ s.sndNxt - s.sndUna := Iff.rfl
  rcases s.onAck_una ack with ⟨hle, huna⟩ | ⟨hle, huna⟩
  · rw [huna]
    split_ifs with hin
    · rw [hout] at hin
      simp only [true_iff]
      bv_omega
    · rw [hout] at hin
      bv_omega
  · rw [huna]
    split_ifs with hin
    · rw [hout] at hin
      bv_omega
    · rw [hout] at hin
      simp only [true_iff]
      bv_omega

lemma TcpSock.offset_pos (hne : v ≠ s.sndUna) : s.offset s.sndUna < s.offset v := by
  simp only [TcpSock.offset]
  bv_omega

lemma TcpSock.Ordered.acknowledges_iff (h : s.Ordered) (ack : BitVec 32) :
    s.Acknowledges (s.onAck ack) ack ↔ s.AckFits ack := by
  have hne : ∀ x ∈ s.txq.contents, x.finish ≠ s.sndUna := fun x hx =>
    (h.window _ (List.mem_map_of_mem hx)).1
  have hdrain : (s.onAck ack).txq.contents =
      s.txq.contents.dropWhile fun x => x.finish ≤ (s.onAck ack).sndUna :=
    (drainTx_contents s.txq.count le_rfl h.sound).2
  have hle : s.sndUna ≤ (s.onAck ack).sndUna := by
    rcases s.onAck_una ack with ⟨hle, huna⟩ | ⟨hle, huna⟩ <;> rw [huna]
    · exact BitVec.le_of_lt hle
    · exact BitVec.le_refl _
  have hbound : ∀ v, (s.onAck ack).sndUna < v ↔ s.sndUna < v ∧ ack < v := by
    rcases s.onAck_una ack with ⟨hle, huna⟩ | ⟨hle, huna⟩ <;> rw [huna] <;> clear huna <;> bv_omega
  have hsorted : s.txq.contents.Pairwise fun x y => s.offset x.finish < s.offset y.finish := by
    simpa only [List.pairwise_map] using h.sorted
  have hdrop := dropWhile_finish hle hne hsorted
  unfold TcpSock.AckFits TcpSock.Acknowledges
  simp only [← s.onAck_una_iff ack, ← hbound, ← hdrop]
  by_cases hout : s.Outstanding ack
  · simp only [if_pos hout]
    refine and_congr_right fun huna => ?_
    rw [hdrain, huna]
  · simp only [if_neg hout]
    refine and_congr_right fun huna => ?_
    have hall : (s.txq.contents.filter fun x => s.offset s.sndUna < s.offset x.finish) =
        s.txq.contents :=
      List.filter_eq_self.mpr fun x hx => by simpa using s.offset_pos (hne x hx)
    rw [hdrain, huna, hall]

/-! ## The queue stays in order -/

lemma TcpSock.Ordered.of_ends (h : s.Ordered) (hsound : s'.txq.Sound)
    (huna : s'.sndUna = s.sndUna) (hnxt : s'.sndNxt = s.sndNxt)
    (hends : s'.txq.contents.map TxSeg.finish = s.txq.contents.map TxSeg.finish) :
    s'.Ordered := by
  refine ⟨hsound, ?_, ?_⟩
  · rw [hends]
    simpa only [TcpSock.offset, huna, hnxt] using h.window
  · rw [hends]
    simpa only [TcpSock.offset, huna] using h.sorted

lemma TcpSock.Ordered.acknowledged (h : s.Ordered) (hsound : s'.txq.Sound)
    (hnxt : s'.sndNxt = s.sndNxt) (hack : s.Acknowledges s' ack) : s'.Ordered := by
  unfold TcpSock.Acknowledges at hack
  split_ifs at hack with hout
  · obtain ⟨huna, htxq⟩ := hack
    have hkept : ∀ v ∈ s'.txq.contents.map TxSeg.finish,
        v ∈ s.txq.contents.map TxSeg.finish ∧ s.offset ack < s.offset v := by
      intro v hv
      obtain ⟨x, hx, rfl⟩ := mem_map.mp hv
      rw [htxq, mem_filter, decide_eq_true_eq] at hx
      exact ⟨mem_map_of_mem hx.1, hx.2⟩
    have hsub : (s'.txq.contents.map TxSeg.finish).Sublist (s.txq.contents.map TxSeg.finish) := by
      rw [htxq]
      exact filter_sublist.map _
    obtain ⟨-, hlast⟩ := hout
    refine ⟨hsound, fun v hv => ?_, (h.sorted.sublist hsub).imp_of_mem fun {v w} hv hw hlt => ?_⟩
    · obtain ⟨hmem, hafter⟩ := hkept v hv
      have hin := (h.window v hmem).2
      rw [TcpSock.offset, TcpSock.offset, huna, hnxt]
      simp only [TcpSock.offset] at hlast hafter hin
      constructor <;> bv_omega
    · have hv' := (hkept v hv).2
      rw [TcpSock.offset, TcpSock.offset, huna]
      simp only [TcpSock.offset] at hv' hlt
      bv_omega
  · exact h.of_ends hsound hack.1 hnxt (by rw [hack.2])

lemma TcpSock.Ordered.onEstablished (h : s.Ordered)
    (hfits : hasFlag seg.flags flagAck → s.AckFits seg.ack) : (s.onEstablished seg).Ordered := by
  obtain ⟨hnxt, huna, htxq⟩ := s.onEstablished_tx seg
  by_cases hflag : hasFlag seg.flags flagAck
  · rw [if_pos hflag] at huna htxq
    have hsound : (s.onAck seg.ack).txq.Sound :=
      (drainTx_contents s.txq.count le_rfl h.sound).1
    have hacked := h.acknowledged hsound rfl ((h.acknowledges_iff seg.ack).mpr (hfits hflag))
    exact hacked.of_ends (htxq ▸ hsound) huna hnxt (by rw [htxq])
  · rw [if_neg hflag] at huna htxq
    exact h.of_ends (htxq ▸ h.sound) huna hnxt (by rw [htxq])

lemma TcpSock.Ordered.sentData (h : s.Ordered) (hdata : data ≠ [])
    (hspan : (s.offset s.sndNxt).toNat + data.length < 2 ^ 32) (env) :
    (s.sentData env data).Ordered := by
  have hpos := List.length_pos_of_ne_nil hdata
  have hlate : ∀ v ∈ s.txq.contents.map TxSeg.finish,
      v ≠ s.sndUna ∧ s.offset v < s.offset (s.sndNxt + BitVec.ofNat 32 data.length) := by
    intro v hv
    obtain ⟨hne, hle⟩ := h.window v hv
    simp only [TcpSock.offset] at hspan hle ⊢
    bv_omega
  by_cases hroom : s.txq.count < 16
  · have htxq : (s.sentData env data).txq = s.txq.push ⟨s.sndNxt, data, 0#8⟩ := by
      simp only [TcpSock.sentData, hroom, if_true]
    have hends : (s.sentData env data).txq.contents.map TxSeg.finish =
        s.txq.contents.map TxSeg.finish ++ [s.sndNxt + BitVec.ofNat 32 data.length] := by
      rw [htxq, RingBuffer.contents_push h.sound _ hroom, List.map_append]
      rfl
    refine ⟨htxq ▸ h.sound.push _ hroom, ?_, ?_⟩
    · rw [hends]
      intro v hv
      rcases List.mem_append.mp hv with hold | hnew
      · exact ⟨(hlate v hold).1, BitVec.le_of_lt (hlate v hold).2⟩
      · rw [List.mem_singleton.mp hnew]
        simp only [TcpSock.offset] at hspan
        exact ⟨by simp only [TcpSock.sentData]; bv_omega, BitVec.le_refl _⟩
    · rw [hends]
      refine List.pairwise_append.mpr ⟨h.sorted, List.pairwise_singleton _ _, ?_⟩
      intro v hv w hw
      rw [List.mem_singleton.mp hw]
      exact (hlate v hv).2
  · have htxq : (s.sentData env data).txq = s.txq := by
      simp only [TcpSock.sentData, hroom, if_false]
    refine ⟨htxq ▸ h.sound, ?_, by rw [htxq]; exact h.sorted⟩
    rw [htxq]
    exact fun v hv => ⟨(hlate v hv).1, BitVec.le_of_lt (hlate v hv).2⟩

lemma TcpSock.Ordered.retransmit (h : s.Ordered) (hused : (s.retransmit env).2.used) :
    (s.retransmit env).2.Ordered := by
  obtain ⟨q, r, k, hs, hsound, hcontents⟩ := s.retransmit_queue h.sound hused
  rw [hs]
  refine h.of_ends hsound rfl rfl ?_
  rcases hcontents with hsame | hagain
  · exact congrArg _ hsame
  · exact (congrArg _ hagain).trans (map_map ..)

/-! ## Runs -/

/-- The acknowledgements of the peer fit, less than `2 ^ 32` bytes are outstanding, and the timer
does not give the connection up. -/
def AcksFit (e : Endpoint) (i : SockId) (t : Tcp) : ConnEvent ⊕ NetEnv → Prop
  | .inl (.input _ seg) =>
    seg.IsFor e ∧ (hasFlag seg.flags flagAck → (t.socks i).AckFits seg.ack)
  | .inl (.send _ data) =>
    ((t.socks i).offset (t.socks i).sndNxt).toNat + (data.take 1400).length < 2 ^ 32
  | .inl (.recv _) => True
  | .inr env => ((t.socks i).retransmit env).2.used

lemma TcpSock.Fresh.ordered (h : s.Fresh base) : s.Ordered := by
  have hempty : s.txq.contents = [] := eq_nil_of_length_eq_zero (by simpa using h.empty)
  exact ⟨h.sound, by simp [hempty], by simp [hempty]⟩

lemma TcpSock.Ordered.step {ev : ConnEvent} (h : (t.socks i).Ordered)
    (hfit : AcksFit e i t (.inl ev)) : ((t.socks i).connStep ev).Ordered := by
  cases ev with
  | input env seg =>
    simp only [TcpSock.connStep]
    split_ifs
    · exact h.onEstablished hfit.2
    · exact h
  | send env data =>
    simp only [TcpSock.connStep]
    split_ifs with hsend
    · exact h.sentData (by simpa using hsend.2) hfit env
    · exact h
  | recv buflen =>
    simp only [TcpSock.connStep]
    split_ifs
    · exact h.of_ends h.sound rfl rfl rfl
    · exact h

lemma ordered_of_reaches (hconn : t₀.Connected e i) (hfresh : (t₀.socks i).Fresh base)
    (hreach : Reaches (fun t ev => some (t.timedStep e i ev)) (fun _ _ _ h => h) (AcksFit e i) t₀
      () t ()) : t.Connected e i ∧ (t.socks i).Ordered := by
  refine hreach.invariant (fun t _ => t.Connected e i ∧ (t.socks i).Ordered)
    ⟨hconn, hfresh.ordered⟩ fun t t' _ ev h hfit hstep => ?_
  obtain rfl : t.timedStep e i ev = t' := Option.some.inj hstep
  cases ev with
  | inl ev =>
    have hev : ev.IsFor e := by
      cases ev with
      | input env seg => exact hfit.1
      | send env data => trivial
      | recv buflen => trivial
    refine ⟨h.1.step hev, ?_⟩
    have hordered := h.2.step hfit
    simp only [Tcp.timedStep]
    rw [h.1.connStep_eq hev, Tcp.put_self]
    exact hordered
  | inr env => exact ⟨h.1.tick hfit, h.2.retransmit hfit⟩

/-- Whatever the initial sequence number, an acknowledgement on the established connection does
what it should exactly when the plain order of the numbers agrees with the cyclic one. -/
theorem acknowledgement_handled_iff (hconn : t₀.Connected e i) (hfresh : (t₀.socks i).Fresh base)
    (hreach : Reaches (fun t ev => some (t.timedStep e i ev)) (fun _ _ _ h => h) (AcksFit e i) t₀
      () t ())
    (hstate : (t.socks i).state = .established) (hready : env.ready) (hseg : seg.IsFor e)
    (hflag : hasFlag seg.flags flagAck) :
    (t.socks i).Acknowledges ((tcpInput env t e.src seg).2.socks i) seg.ack ↔
      (t.socks i).AckFits seg.ack := by
  obtain ⟨hconn, hordered⟩ := ordered_of_reaches hconn hfresh hreach
  have hstep : (tcpInput env t e.src seg).2 = t.put i ((t.socks i).onEstablished seg) := by
    have hput : t.connStep e i (.input env seg) = _ := hconn.connStep_eq hseg
    rw [TcpSock.connStep, if_pos (And.intro hready hstate)] at hput
    exact hput
  obtain ⟨-, huna, htxq⟩ := (t.socks i).onEstablished_tx seg
  rw [if_pos hflag] at huna htxq
  rw [← hordered.acknowledges_iff, hstep, Tcp.put_self]
  simp only [TcpSock.Acknowledges, huna, htxq]

def ackSegment (ack : BitVec 32) : Segment := ⟨9#16, 80#16, flagAck, 0#32, ack, []⟩

theorem acknowledgement_handled_one_byte :
    let t := (oneConnection 7#32 0#32).connStep onePeer 0 (.send quietEnv [1#8])
    (t.socks 0).Acknowledges ((tcpInput quietEnv t 1#32 (ackSegment 8#32)).2.socks 0) 8#32 := by
  have hstart : Reaches (fun t ev => some (t.timedStep onePeer 0 ev)) (fun _ _ _ h => h)
      (AcksFit onePeer 0) (oneConnection 7#32 0#32) () (oneConnection 7#32 0#32) () := .start
  have hsent := hstart.next (.inl (.send quietEnv [1#8])) (show _ < _ by decide) rfl
  have hseg : (ackSegment 8#32).IsFor onePeer := ⟨rfl, rfl⟩
  exact (acknowledgement_handled_iff (oneConnection_connected 7#32 0#32) (connectedSock_fresh 7#32
    0#32) hsent rfl rfl hseg (by decide)).mpr ⟨by decide +kernel, Or.inl (by decide +kernel)⟩

/-- A number that was never sent is taken as an acknowledgement. -/
theorem unsent_number_acknowledged :
    let t := oneConnection 7#32 0#32
    t.Connected onePeer 0 ∧ (t.socks 0).Fresh 7#32 ∧ (ackSegment 12#32).IsFor onePeer ∧
      ¬ (t.socks 0).Acknowledges ((tcpInput quietEnv t 1#32 (ackSegment 12#32)).2.socks 0)
        12#32 := by
  refine ⟨oneConnection_connected 7#32 0#32, connectedSock_fresh 7#32 0#32, ⟨rfl, rfl⟩, ?_⟩
  rintro ⟨huna, -⟩
  exact absurd huna (by decide +kernel)

end HelixOS.Net
