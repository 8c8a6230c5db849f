import HelixOS.TcpTable

/-!
# Owners of TCP sockets

A slot of the table belongs to an open descriptor, to the backlog of a listener or to the
pending children, and to one of them only.  `Owned` says so for the slots that descriptors
refer to.
-/

namespace HelixOS.Net

open Option List

variable {port : BitVec 16} {env : NetEnv} {t t' : Tcp} {s : TcpSock} {i j l c : SockId}
  {seg : Segment} {src : BitVec 32} {held held' : SockId → Prop}

structure Tcp.Owned (t : Tcp) (held : SockId → Prop) : Prop where
  held_used : ∀ i, held i → (t.socks i).used ∧ (t.socks i).parent = none
  child_used : ∀ i p, (t.socks i).parent = some p →
    (t.socks i).used ∧ i ≠ p ∧ (t.socks i).txq.count = 0
  entry : ∀ l, ∀ c ∈ (t.socks l).backlog, (t.socks c).parent = some l
  nodup : ∀ l, (t.socks l).backlog.Nodup
  pending : ∀ pc ∈ t.pending, (t.socks pc.sock).used ∧ (t.socks pc.sock).parent = none ∧
    ¬ held pc.sock ∧ (t.socks pc.sock).txq.count = 0
  pending_nodup : (t.pending.map PendingChild.sock).Nodup
  pending_fits : t.pending.length ≤ 4
  active : ∀ i, (t.socks i).state ≠ .finWait1 ∧ (t.socks i).state ≠ .finWait2
  txq_fits : ∀ i, (t.socks i).txq.count ≤ 16

lemma Tcp.Owned.alloc_not_held (h : t.Owned held) (halloc : (tcpAllocConn env t).1 = some i) :
    ¬ held i := by
  rcases tcpAllocConn_cases env t with ⟨heq, -⟩ | ⟨c, hfree, heq⟩
  · rw [heq] at halloc
    cases halloc
  · rw [heq] at halloc
    cases halloc
    intro hheld
    simp [(h.held_used i hheld).1] at hfree

/-- The states that the kernel enters: nothing calls `tcp_close`. -/
def TcpState.Active (state : TcpState) : Prop := state ≠ .finWait1 ∧ state ≠ .finWait2

instance (state : TcpState) : Decidable state.Active := inferInstanceAs (Decidable (_ ∧ _))

structure TcpSock.Same (s s' : TcpSock) : Prop where
  used : s'.used = s.used
  parent : s'.parent = s.parent
  backlog : s'.backlog = s.backlog
  active : s.state.Active → s'.state.Active
  txq : s.txq.count ≤ 16 → s'.txq.count ≤ 16

lemma TcpSock.Quiet.same {s' : TcpSock} (h : s.Quiet s') : s.Same s' := by
  refine ⟨h.used, h.parent, h.backlog, fun hs => ?_, h.txq.trans⟩
  rcases h.state with hsame | ⟨-, hstate⟩ | ⟨-, hstate⟩ | ⟨-, -, hstate⟩
  · rwa [hsame]
  all_goals exact hstate ▸ by decide

/-! ## Sockets that stay or go -/

structure TcpSock.Dropped (s s' : TcpSock) : Prop where
  parent : s'.parent = none
  backlog : s'.backlog = [] ∨ s'.backlog = s.backlog
  active : s'.state.Active
  txq : s'.txq.count ≤ 16

section

variable (h : t.Owned held)
include h

/-- Slots of closed descriptors and lost slots are cleared; data is queued only for sockets with a
descriptor. -/
theorem Tcp.Owned.drop (hsub : ∀ i, held' i → held i)
    (hpending : t'.pending.map PendingChild.sock = t.pending.map PendingChild.sock)
    (hsocks : ∀ i, (t.socks i).Same (t'.socks i) ∧
        (held i ∨ (t'.socks i).txq.count ≤ (t.socks i).txq.count) ∨
      (t.socks i).Dropped (t'.socks i) ∧ ¬ held' i ∧ (t.socks i).parent = none ∧
        ∀ pc ∈ t.pending, pc.sock ≠ i) :
    t'.Owned held' := by
  have hchild (c p : SockId) (hp : (t.socks c).parent = some p) : (t'.socks c).parent = some p := by
    rcases hsocks c with ⟨hsame, -⟩ | ⟨-, -, hnone, -⟩
    · rw [hsame.parent, hp]
    · simp [hp] at hnone
  have hbacklog (l : SockId) :
      (t'.socks l).backlog = [] ∨ (t'.socks l).backlog = (t.socks l).backlog := by
    rcases hsocks l with ⟨hsame, -⟩ | ⟨hdrop, -⟩
    · exact .inr hsame.backlog
    · exact hdrop.backlog
  refine ⟨fun i hi => ?_, fun i p hp => ?_, fun l c hc => ?_, fun l => ?_, fun pc' hpc' => ?_, ?_,
    ?_, fun i => ?_, fun i => ?_⟩
  · rcases hsocks i with ⟨hsame, -⟩ | ⟨-, hnot, -⟩
    · rw [hsame.used, hsame.parent]
      exact h.held_used i (hsub i hi)
    · exact absurd hi hnot
  · rcases hsocks i with ⟨hsame, hdata⟩ | ⟨hdrop, -⟩
    · rw [hsame.parent] at hp
      obtain ⟨hused, hne, hempty⟩ := h.child_used i p hp
      rcases hdata with hheld | hle
      · simp [(h.held_used i hheld).2] at hp
      · exact ⟨hsame.used.trans hused, hne, by omega⟩
    · simp [hdrop.parent] at hp
  · rcases hbacklog l with hnil | hsame
    · rw [hnil] at hc
      cases hc
    · rw [hsame] at hc
      exact hchild c l (h.entry l c hc)
  · rcases hbacklog l with hnil | hsame
    · rw [hnil]
      exact nodup_nil
    · rw [hsame]
      exact h.nodup l
  · have hmem := mem_map_of_mem (f := PendingChild.sock) hpc'
    rw [hpending] at hmem
    obtain ⟨pc, hpc, hsock⟩ := mem_map.mp hmem
    obtain ⟨hused, hnone, hheld, hempty⟩ := h.pending pc hpc
    rw [hsock] at hused hnone hheld hempty
    rcases hsocks pc'.sock with ⟨hsame, hdata⟩ | ⟨-, -, -, hnot⟩
    · have hle := hdata.resolve_left hheld
      exact ⟨hsame.used.trans hused, hsame.parent.trans hnone, fun hi => hheld (hsub _ hi),
        by omega⟩
    · exact absurd hsock (hnot pc hpc)
  · rw [hpending]
    exact h.pending_nodup
  · have hlength := congrArg List.length hpending
    simp only [length_map] at hlength
    exact hlength ▸ h.pending_fits
  · rcases hsocks i with ⟨hsame, -⟩ | ⟨hdrop, -⟩
    · exact hsame.active (h.active i)
    · exact hdrop.active
  · rcases hsocks i with ⟨hsame, -⟩ | ⟨hdrop, -⟩
    · exact hsame.txq (h.txq_fits i)
    · exact hdrop.txq

lemma Tcp.Owned.quiet (hquiet : t.Quiet t') : t'.Owned held :=
  h.drop (fun _ hi => hi) hquiet.pending fun i =>
    .inl ⟨(hquiet.socks i).same, .inr (hquiet.socks i).txq⟩

lemma Tcp.Owned.mono (hsub : ∀ i, held' i → held i) : t.Owned held' :=
  h.drop hsub rfl fun _ => .inl ⟨(TcpSock.Quiet.refl _).same, .inr le_rfl⟩

lemma Tcp.Owned.own (hheld : held i) (hown : t.Own i t') : t'.Owned held := by
  refine h.drop (fun _ hi => hi) (by rw [hown.pending]) fun j => .inl ?_
  by_cases hj : j = i
  · subst hj
    refine ⟨⟨hown.used, hown.parent, hown.backlog, fun hactive => ?_, hown.txq⟩, .inl hheld⟩
    rcases hown.state with hsame | ⟨-, hsent⟩
    · rwa [hsame]
    · exact hsent ▸ by decide
  · rw [hown.others j hj]
    exact ⟨(TcpSock.Quiet.refl _).same, .inr le_rfl⟩

lemma Tcp.Owned.tick (hkeeps : ∀ i, held i → ¬ (t.socks i).GivesUp env) :
    (tcpRetransmit env t).2.Owned held := by
  refine h.drop (fun _ hi => hi) rfl fun i => ?_
  rcases (t.socks i).retransmit_spec env (h.txq_fits i) with ⟨hclear, hgives⟩ | ⟨hquiet, -⟩
  · -- data waits for an acknowledgement, so this is no child
    have hdata : (t.socks i).txq.count ≠ 0 := by
      obtain ⟨-, -, -, k, hk, -⟩ := hgives
      omega
    refine .inr ⟨?_, fun hi => hkeeps i hi hgives, ?_, fun pc hpc hsock => ?_⟩
    · rw [show (tcpRetransmit env t).2.socks i = TcpSock.cleared from hclear]
      exact ⟨rfl, .inl rfl, by decide, Nat.zero_le _⟩
    · cases hparent : (t.socks i).parent with
      | none => rfl
      | some p => exact absurd (h.child_used i p hparent).2.2 hdata
    · exact hdata (hsock ▸ (h.pending pc hpc).2.2.2)
  · exact .inl ⟨hquiet.same, .inr hquiet.txq⟩

/-! ## New slots -/

lemma Tcp.Owned.entry_used (hc : c ∈ (t.socks l).backlog) :
    (t.socks c).used := (h.child_used c l (h.entry l c hc)).1

lemma Tcp.Owned.fill (hfree : (t.socks c).used = false) (hused : s.used)
    (hparent : s.parent ≠ some c) (hbacklog : s.backlog = []) (htxq : s.txq.count = 0)
    (hactive : s.state.Active) : (t.put c s).Owned held := by
  have hne (i : SockId) (hi : (t.socks i).used) : (t.put c s).socks i = t.socks i :=
    Tcp.put_other _ _ fun hic => by simp [hic, hfree] at hi
  refine ⟨fun i hi => ?_, fun i p hp => ?_, fun l c' hc' => ?_, fun l => ?_, fun pc hpc => ?_,
    h.pending_nodup, h.pending_fits, fun i => ?_, fun i => ?_⟩
  · rw [hne i (h.held_used i hi).1]
    exact h.held_used i hi
  · by_cases hic : i = c
    · subst hic
      rw [Tcp.put_self] at hp ⊢
      exact ⟨hused, fun hip => hparent (hip ▸ hp), htxq⟩
    · rw [Tcp.put_other _ _ hic] at hp ⊢
      exact h.child_used i p hp
  · by_cases hlc : l = c
    · subst hlc
      rw [Tcp.put_self, hbacklog] at hc'
      cases hc'
    · rw [Tcp.put_other _ _ hlc] at hc'
      rw [hne c' (h.entry_used hc')]
      exact h.entry l c' hc'
  · by_cases hlc : l = c
    · subst hlc
      rw [Tcp.put_self, hbacklog]
      exact nodup_nil
    · rw [Tcp.put_other _ _ hlc]
      exact h.nodup l
  · rw [hne pc.sock (h.pending pc hpc).1]
    exact h.pending pc hpc
  · by_cases hic : i = c
    · subst hic
      rw [Tcp.put_self]
      exact hactive
    · rw [Tcp.put_other _ _ hic]
      exact h.active i
  · by_cases hic : i = c
    · subst hic
      rw [Tcp.put_self, htxq]
      exact Nat.zero_le _
    · rw [Tcp.put_other _ _ hic]
      exact h.txq_fits i

lemma Tcp.Owned.hold (hused : (t.socks c).used) (hparent : (t.socks c).parent = none)
    (hpending : ∀ pc ∈ t.pending, pc.sock ≠ c) : t.Owned fun i => held i ∨ i = c := by
  refine { h with held_used := fun i hi => ?_, pending := fun pc hpc => ?_ }
  · rcases hi with hi | rfl
    · exact h.held_used i hi
    · exact ⟨hused, hparent⟩
  · obtain ⟨hused', hparent', hheld, hempty⟩ := h.pending pc hpc
    refine ⟨hused', hparent', fun hi => ?_, hempty⟩
    rcases hi with hi | hi
    · exact hheld hi
    · exact hpending pc hpc hi

lemma Tcp.Owned.waiting (hfree : (t.socks c).used = false) (hroom : t.pending.length < 4)
    (hused : s.used) (hparent : s.parent = none) (hbacklog : s.backlog = [])
    (htxq : s.txq.count = 0) (hactive : s.state.Active) : (t.waiting c s).Owned held := by
  have hfill := h.fill hfree hused (by simp [hparent]) hbacklog htxq hactive
  have hnew : c ∉ t.pending.map PendingChild.sock := by
    intro hmem
    obtain ⟨pc, hpc, rfl⟩ := mem_map.mp hmem
    simp [(h.pending pc hpc).1] at hfree
  refine ⟨hfill.held_used, hfill.child_used, hfill.entry, hfill.nodup, fun pc hpc => ?_, ?_, ?_,
    hfill.active, hfill.txq_fits⟩
  · rcases mem_append.mp hpc with hold | hlast
    · exact hfill.pending pc hold
    · rw [mem_singleton] at hlast
      subst hlast
      have hself : (t.waiting c s).socks c = s := Tcp.put_self ..
      rw [hself]
      refine ⟨hused, hparent, fun hi => ?_, htxq⟩
      simp [(h.held_used c hi).1] at hfree
  · rw [Tcp.waiting, map_append, nodup_append]
    refine ⟨h.pending_nodup, nodup_singleton _, fun a ha b hb hab => ?_⟩
    rw [map_singleton, mem_singleton] at hb
    rw [hab, hb] at ha
    exact hnew ha
  · simpa [Tcp.waiting] using hroom

/-! ## Incoming segments -/

lemma Tcp.Owned.append (hparent : (t.socks c).parent = some l) (hnew : c ∉ (t.socks l).backlog) :
    (t.put l { t.socks l with backlog := (t.socks l).backlog ++ [c] }).Owned held := by
  have hfields (i : SockId) :
      ((t.put l { t.socks l with backlog := (t.socks l).backlog ++ [c] }).socks i) =
        { t.socks i with
          backlog := if i = l then (t.socks l).backlog ++ [c] else (t.socks i).backlog } := by
    by_cases hi : i = l
    · subst hi
      rw [Tcp.put_self, if_pos rfl]
    · rw [Tcp.put_other _ _ hi, if_neg hi]
  refine ⟨fun i hi => ?_, fun i p hp => ?_, fun l' c' hc' => ?_, fun l' => ?_, fun pc hpc => ?_,
    h.pending_nodup, h.pending_fits, fun i => ?_, fun i => ?_⟩
  · rw [hfields]
    exact h.held_used i hi
  · rw [hfields] at hp ⊢
    exact h.child_used i p hp
  · rw [hfields] at hc' ⊢
    split_ifs at hc' with hl
    · rcases mem_append.mp hc' with hold | hlast
      · exact hl ▸ h.entry l c' hold
      · rw [mem_singleton.mp hlast, hl, hparent]
    · exact h.entry l' c' hc'
  · rw [hfields]
    split_ifs
    · exact nodup_append.mpr ⟨h.nodup l, nodup_singleton c, fun a ha b hb hab =>
        hnew (mem_singleton.mp hb ▸ hab ▸ ha)⟩
    · exact h.nodup l'
  · rw [hfields]
    exact h.pending pc hpc
  · rw [hfields]
    exact h.active i
  · rw [hfields]
    exact h.txq_fits i

lemma Tcp.Owned.complete {p : SockId} (hparent : (t.socks c).parent = some p)
    (hnew : c ∉ (t.socks p).backlog) : (inputSynReceived t c seg).Owned held := by
  have hne := (h.child_used c p hparent).2.1
  have hcompleted : (t.put c ((t.socks c).completed seg)).Owned held := by
    refine h.drop (fun _ hi => hi) rfl fun i => .inl ?_
    by_cases hi : i = c
    · subst hi
      rw [Tcp.put_self]
      exact ⟨⟨rfl, rfl, rfl, fun _ => (by decide : TcpState.established.Active), id⟩, .inr le_rfl⟩
    · rw [Tcp.put_other _ _ hi]
      exact ⟨(TcpSock.Quiet.refl _).same, .inr le_rfl⟩
  rw [inputSynReceived_eq, hparent]
  dsimp only
  split_ifs
  · refine hcompleted.append ?_ ?_
    · rw [Tcp.put_self]
      exact hparent
    · rw [Tcp.put_other _ _ hne.symm]
      exact hnew
  · exact hcompleted

lemma Tcp.Owned.input
    (honce : ∀ c p, findSocket t src seg = some c → hasFlag seg.flags flagAck →
      (t.socks c).state = .synReceived → (t.socks c).parent = some p →
      c ∉ (t.socks p).backlog) :
    (tcpInput env t src seg).2.Owned held := by
  rcases tcpInput_cases env t src seg h.active with hquiet | ⟨c, hfree, hroom, -, heq⟩ |
    ⟨l, c, laddr, hfree, hlistens, heq⟩ | ⟨c, p, hfind, hack, hstate, hparent, heq⟩
  · exact h.quiet hquiet
  · rw [heq]
    exact h.waiting hfree hroom rfl rfl rfl rfl (by decide : TcpState.synReceived.Active)
  · have hused : (t.socks l).used := by
      simp only [TcpSock.listensOn, Bool.and_eq_true] at hlistens
      exact hlistens.1.1.1
    rw [heq]
    refine h.fill hfree rfl (fun hself => ?_) rfl rfl (by decide : TcpState.synReceived.Active)
    have hlc : l = c := some.inj hself
    simp [hlc, hfree] at hused
  · rw [heq]
    exact h.complete hparent (honce c p hfind hack hstate hparent)

end

/-! ## `listen` and `accept` -/

lemma Tcp.mem_waitingOn {pc : PendingChild} (h : pc ∈ t.waitingOn port) :
    pc ∈ t.pending := (mem_filter.mp h).1

theorem Tcp.Listening.cases (hlisten : t.Listening l port t') (i : SockId) :
    i = l ∨ (∃ pc ∈ t.waitingOn port, pc.sock = i) ∨ i ≠ l ∧ t'.socks i = t.socks i := by
  by_cases hl : i = l
  · exact .inl hl
  · by_cases hmem : ∃ pc ∈ t.waitingOn port, pc.sock = i
    · exact .inr (.inl hmem)
    · exact .inr (.inr ⟨hl, hlisten.others i hl fun pc hpc hsock => hmem ⟨pc, hpc, hsock⟩⟩)

section

variable (h : t.Owned held) (hheld : held l) (hlisten : t.Listening l port t')
include h hheld hlisten

lemma Tcp.Owned.still_pending {pc : PendingChild} (hpc : pc ∈ t'.pending) :
    pc ∈ t.pending ∧ (t.socks pc.sock).lport ≠ port ∧ t'.socks pc.sock = t.socks pc.sock := by
  rw [hlisten.pending] at hpc
  obtain ⟨hmem, hport⟩ := mem_filter.mp hpc
  simp only [decide_eq_true_eq] at hport
  refine ⟨hmem, hport, ?_⟩
  rcases hlisten.cases pc.sock with hl | ⟨pc', hpc', hsock⟩ | ⟨-, hsame⟩
  · exact absurd (hl ▸ hheld) (h.pending pc hmem).2.2.1
  · have hport' := (mem_filter.mp hpc').2
    rw [hsock] at hport'
    simp only [decide_eq_true_eq] at hport'
    exact absurd hport' hport
  · exact hsame

lemma Tcp.Owned.still_child {p : SockId} (hp : (t.socks c).parent = some p) :
    c ≠ l ∧ t'.socks c = t.socks c := by
  rcases hlisten.cases c with rfl | ⟨pc, hpc, rfl⟩ | hsame
  · simp [(h.held_used c hheld).2] at hp
  · simp [(h.pending pc (Tcp.mem_waitingOn hpc)).2.1] at hp
  · exact hsame

lemma Tcp.Owned.listening : t'.Owned held := by
  have hchild (pc : PendingChild) (hpc : pc ∈ t.waitingOn port) : pc.sock ≠ l := fun hsock =>
    (h.pending pc (Tcp.mem_waitingOn hpc)).2.2.1 (hsock ▸ hheld)
  have hcases := hlisten.cases
  refine ⟨fun i hi => ?_, fun i p hp => ?_, fun l' c hc => ?_, fun l' => ?_, fun pc hpc => ?_, ?_,
    ?_, fun i => ?_, fun i => ?_⟩
  · rcases hcases i with rfl | ⟨pc, hpc, rfl⟩ | ⟨-, hsame⟩
    · rw [hlisten.used, hlisten.parent]
      exact h.held_used i hi
    · exact absurd hi (h.pending pc (Tcp.mem_waitingOn hpc)).2.2.1
    · rw [hsame]
      exact h.held_used i hi
  · rcases hcases i with rfl | ⟨pc, hpc, rfl⟩ | ⟨-, hsame⟩
    · rw [hlisten.parent, (h.held_used i hheld).2] at hp
      cases hp
    · obtain ⟨hused, -, -, hempty⟩ := h.pending pc (Tcp.mem_waitingOn hpc)
      obtain ⟨hparent, -, -, htxq, -⟩ := (t.socks pc.sock).adopted_fields l pc
      rw [hlisten.adopted pc hpc, hparent] at hp
      rw [hlisten.adopted pc hpc, (TcpSock.adopted_ends _ l pc).used, htxq]
      exact ⟨hused, some.inj hp ▸ hchild pc hpc, hempty⟩
    · rw [hsame] at hp ⊢
      exact h.child_used i p hp
  · rcases hcases l' with rfl | ⟨pc, hpc, rfl⟩ | ⟨-, hsame⟩
    · rw [hlisten.backlog] at hc
      obtain ⟨pc, hpc, rfl⟩ := mem_map.mp hc
      rw [hlisten.adopted pc hpc]
      exact ((t.socks pc.sock).adopted_fields l' pc).1
    · rw [hlisten.adopted pc hpc, ((t.socks pc.sock).adopted_fields l pc).2.1] at hc
      have hp := h.entry pc.sock c hc
      rw [(h.still_child hheld hlisten hp).2, hp]
    · rw [hsame] at hc
      have hp := h.entry l' c hc
      rw [(h.still_child hheld hlisten hp).2, hp]
  · rcases hcases l' with rfl | ⟨pc, hpc, rfl⟩ | ⟨-, hsame⟩
    · rw [hlisten.backlog]
      exact h.pending_nodup.sublist (List.Sublist.map _ filter_sublist)
    · rw [hlisten.adopted pc hpc, ((t.socks pc.sock).adopted_fields l pc).2.1]
      exact h.nodup pc.sock
    · rw [hsame]
      exact h.nodup l'
  · obtain ⟨hmem, -, hsame⟩ := h.still_pending hheld hlisten hpc
    rw [hsame]
    exact h.pending pc hmem
  · rw [hlisten.pending]
    exact h.pending_nodup.sublist (List.Sublist.map _ filter_sublist)
  · rw [hlisten.pending]
    exact (length_filter_le _ _).trans h.pending_fits
  · rcases hcases i with rfl | ⟨pc, hpc, rfl⟩ | ⟨-, hsame⟩
    · rw [hlisten.state]
      decide
    · rw [hlisten.adopted pc hpc, ((t.socks pc.sock).adopted_fields l pc).2.2.2.2]
      split_ifs
      · decide
      · exact h.active pc.sock
    · rw [hsame]
      exact h.active i
  · rcases hcases i with rfl | ⟨pc, hpc, rfl⟩ | ⟨-, hsame⟩
    · rw [hlisten.txq]
      exact h.txq_fits i
    · rw [hlisten.adopted pc hpc, ((t.socks pc.sock).adopted_fields l pc).2.2.2.1]
      exact h.txq_fits pc.sock
    · rw [hsame]
      exact h.txq_fits i

end

lemma Tcp.Owned.listen (h : t.Owned held) (hheld : held l) (port : BitVec 16) :
    (tcpListen env t l port).2.Owned held :=
  h.listening hheld (tcpListen_listening env port (h.held_used l hheld).1 h.pending_nodup
    (fun pc hpc hsock => (h.pending pc hpc).2.2.1 (hsock ▸ hheld)) h.pending_fits)

lemma Tcp.accepting_socks (t : Tcp) (i : SockId) (hne : c ≠ l) (rest : List SockId) :
    (t.accepting l c rest).socks i =
      { t.socks i with
        backlog := if i = l then rest else (t.socks i).backlog
        parent := if i = c then none else (t.socks i).parent } := by
  rw [Tcp.accepting]
  by_cases hic : i = c
  · subst hic
    rw [Tcp.put_self, Tcp.put_other _ _ hne, if_neg hne, if_pos rfl]
  · rw [Tcp.put_other _ _ hic, if_neg hic]
    by_cases hil : i = l
    · subst hil
      rw [Tcp.put_self, if_pos rfl]
    · rw [Tcp.put_other _ _ hil, if_neg hil]

/-- The first connection leaves the backlog; it belongs to nobody until a descriptor takes it
over. -/
theorem Tcp.Owned.accepting {rest : List SockId} (h : t.Owned held)
    (hbacklog : (t.socks l).backlog = c :: rest) :
    (t.accepting l c rest).Owned held ∧ ((t.accepting l c rest).socks c).used ∧
      ((t.accepting l c rest).socks c).parent = none ∧
      ∀ pc ∈ (t.accepting l c rest).pending, pc.sock ≠ c := by
  have hentry : (t.socks c).parent = some l := h.entry l c (by simp [hbacklog])
  obtain ⟨hused, hne, hempty⟩ := h.child_used c l hentry
  have hnodup := h.nodup l
  rw [hbacklog, nodup_cons] at hnodup
  have hfields (i : SockId) := t.accepting_socks i hne rest
  have hwaits : ∀ pc ∈ t.pending, pc.sock ≠ c := fun pc hpc hsock => by
    simp [← hsock, (h.pending pc hpc).2.1] at hentry
  have hown : ∀ pc ∈ (t.accepting l c rest).pending, pc.sock ≠ c := hwaits
  refine ⟨⟨fun i hi => ?_, fun i p hp => ?_, fun l' c' hc' => ?_, fun l' => ?_, fun pc hpc => ?_,
    h.pending_nodup, h.pending_fits, fun i => ?_, fun i => ?_⟩, ?_, ?_, hown⟩
  · rw [hfields]
    refine ⟨(h.held_used i hi).1, ?_⟩
    dsimp only
    split_ifs
    · rfl
    · exact (h.held_used i hi).2
  · rw [hfields] at hp ⊢
    dsimp only at hp ⊢
    split_ifs at hp with hic
    exact h.child_used i p hp
  · rw [hfields] at hc' ⊢
    dsimp only at hc' ⊢
    have hold : c' ∈ (t.socks l').backlog := by
      split_ifs at hc' with hl
      · rw [hl, hbacklog]
        exact mem_cons_of_mem _ hc'
      · exact hc'
    have hparent := h.entry l' c' hold
    rw [if_neg, hparent]
    rintro rfl
    -- it has been in one backlog, and there only at the front
    have hl : l' = l := some.inj (hparent.symm.trans hentry)
    rw [if_pos hl] at hc'
    exact hnodup.1 hc'
  · rw [hfields]
    dsimp only
    split_ifs
    · exact hnodup.2
    · exact h.nodup l'
  · rw [hfields]
    obtain ⟨hused', hparent, hheld, hempty'⟩ := h.pending pc hpc
    exact ⟨hused', by dsimp only; rw [if_neg (hwaits pc hpc), hparent], hheld, hempty'⟩
  · rw [hfields]
    exact h.active i
  · rw [hfields]
    exact h.txq_fits i
  · rw [hfields]
    exact hused
  · rw [hfields]
    exact if_pos rfl

end HelixOS.Net
