import HelixOS.SocketDescriptors

/-!
# Backlogs

What becomes of a connection that a peer has opened: it waits for its handshake, then in the
backlog of its listener, or among the pending children until there is a listener, and `accept`
hands it out.  A history counts for each slot how often its connection has been put into a
backlog and returned.
-/

namespace HelixOS

open TrackedRuns Net Function Option List

namespace Net

variable {port : BitVec 16} {passive memory : Bool} {e : SockEvent} {env : NetEnv} {t t' : Tcp}
  {s s' : TcpSock} {i j l c : SockId} {seg : Segment} {src : BitVec 32} {held held' : SockId → Prop}

/-! ## The history of the slots -/

structure Backlogs where
  /-- A peer has opened the connection in the slot. -/
  passive : SockId → Bool
  placed : SockId → ℕ
  returned : SockId → ℕ

variable {h h' : Backlogs}

def Backlogs.open (h : Backlogs) (i : SockId) (passive : Bool) : Backlogs where
  passive := update h.passive i passive
  placed := update h.placed i 0
  returned := update h.returned i 0

def Backlogs.place (h : Backlogs) (entries : List SockId) : Backlogs :=
  { h with placed := fun c => h.placed c + entries.count c }

def Backlogs.accept (h : Backlogs) (c : SockId) : Backlogs :=
  { h with returned := update h.returned c (h.returned c + 1) }

/-! ## Connections on their way to `accept` -/

def TcpState.Arrived (state : TcpState) : Prop := state = .established ∨ state = .closeWait

structure Tcp.Orderly (t : Tcp) (h : Backlogs) : Prop where
  listens : ∀ c l, (t.socks c).parent = some l → (t.socks l).listensOn (t.socks c).lport
  arrived : ∀ c l, (t.socks c).parent = some l → (t.socks c).state.Arrived →
    c ∈ (t.socks l).backlog
  passive_state : ∀ c l, (t.socks c).parent = some l → (t.socks c).state ≠ .synSent
  unlistened : ∀ pc ∈ t.pending, (t.socks pc.sock).state ≠ .synSent ∧
    ∀ l, (t.socks l).listensOn (t.socks pc.sock).lport = false
  unique : ∀ l l' port, (t.socks l).listensOn port → (t.socks l').listensOn port → l = l'
  child : ∀ c l, (t.socks c).parent = some l → h.passive c ∧ h.returned c = 0 ∧
    h.placed c = if c ∈ (t.socks l).backlog then 1 else 0
  waits : ∀ pc ∈ t.pending, h.passive pc.sock ∧ h.returned pc.sock = 0 ∧ h.placed pc.sock = 0
  unaccepted : ∀ c, (t.socks c).used → h.passive c → h.returned c = 0 →
    (∃ l, (t.socks c).parent = some l) ∨ ∃ pc ∈ t.pending, pc.sock = c
  once : ∀ c, h.placed c ≤ 1 ∧ h.returned c ≤ 1

structure Tcp.Child (t : Tcp) (h : Backlogs) (c l : SockId) : Prop where
  listens : (t.socks l).listensOn (t.socks c).lport
  arrived : (t.socks c).state.Arrived → c ∈ (t.socks l).backlog
  state : (t.socks c).state ≠ .synSent
  history : h.passive c ∧ h.returned c = 0 ∧
    h.placed c = if c ∈ (t.socks l).backlog then 1 else 0

structure Tcp.Waiting (t : Tcp) (h : Backlogs) (c : SockId) : Prop where
  unlistened : (t.socks c).state ≠ .synSent ∧ ∀ l, (t.socks l).listensOn (t.socks c).lport = false
  history : h.passive c ∧ h.returned c = 0 ∧ h.placed c = 0

lemma Tcp.Orderly.childOf (ho : t.Orderly h) (hp : (t.socks c).parent = some l) :
    t.Child h c l :=
  ⟨ho.listens c l hp, ho.arrived c l hp, ho.passive_state c l hp, ho.child c l hp⟩

lemma Tcp.Orderly.waiting {pc : PendingChild} (ho : t.Orderly h) (hpc : pc ∈ t.pending) :
    t.Waiting h pc.sock :=
  ⟨ho.unlistened pc hpc, ho.waits pc hpc⟩

lemma Tcp.Orderly.of_parts (hchild : ∀ c l, (t.socks c).parent = some l → t.Child h c l)
    (hwaits : ∀ pc ∈ t.pending, t.Waiting h pc.sock)
    (hunique : ∀ l l' port, (t.socks l).listensOn port → (t.socks l').listensOn port → l = l')
    (hunaccepted : ∀ c, (t.socks c).used → h.passive c → h.returned c = 0 →
      (∃ l, (t.socks c).parent = some l) ∨ ∃ pc ∈ t.pending, pc.sock = c)
    (honce : ∀ c, h.placed c ≤ 1 ∧ h.returned c ≤ 1) : t.Orderly h :=
  ⟨fun c l hp => (hchild c l hp).listens, fun c l hp => (hchild c l hp).arrived,
    fun c l hp => (hchild c l hp).state, fun pc hpc => (hwaits pc hpc).unlistened, hunique,
    fun c l hp => (hchild c l hp).history, fun pc hpc => (hwaits pc hpc).history, hunaccepted,
    honce⟩

def Backlogs.SameAt (h h' : Backlogs) (c : SockId) : Prop :=
  h'.passive c = h.passive c ∧ h'.placed c = h.placed c ∧ h'.returned c = h.returned c

lemma Tcp.Child.kept (hchild : t.Child h c l) (hsame : h.SameAt h' c)
    (hstate : (t'.socks c).state = (t.socks c).state)
    (hlport : (t'.socks c).lport = (t.socks c).lport)
    (hlistens : ∀ port, (t'.socks l).listensOn port = (t.socks l).listensOn port)
    (hentry : c ∈ (t'.socks l).backlog ↔ c ∈ (t.socks l).backlog) : t'.Child h' c l := by
  obtain ⟨hl, harrived, hsent, hhistory⟩ := hchild
  obtain ⟨hpassive, hplaced, hreturned⟩ := hsame
  refine ⟨?_, ?_, hstate ▸ hsent, ?_⟩
  · rwa [hlistens, hlport]
  · rwa [hstate, hentry]
  · simpa only [hpassive, hplaced, hreturned, hentry] using hhistory

lemma Tcp.Waiting.kept (hwaits : t.Waiting h c) (hsame : h.SameAt h' c)
    (hstate : (t'.socks c).state = (t.socks c).state)
    (hlport : (t'.socks c).lport = (t.socks c).lport)
    (hlistens : ∀ l, (t'.socks l).listensOn (t.socks c).lport →
      (t.socks l).listensOn (t.socks c).lport) : t'.Waiting h' c := by
  obtain ⟨⟨hsent, hnone⟩, hhistory⟩ := hwaits
  obtain ⟨hpassive, hplaced, hreturned⟩ := hsame
  refine ⟨⟨hstate ▸ hsent, fun l => Bool.eq_false_iff.mpr fun hl => ?_⟩, ?_⟩
  · rw [hlport] at hl
    simpa [hnone l] using hlistens l hl
  · rwa [hpassive, hplaced, hreturned]

lemma TcpSock.listensOn_iff :
    s.listensOn port ↔ s.used ∧ s.state = .listen ∧ s.bound ∧ s.lport = port := by
  simp [TcpSock.listensOn, and_assoc]

/-! ### Quiet steps -/

lemma TcpSock.Quiet.listensOn (hq : s.Quiet s') (port) :
    s'.listensOn port = s.listensOn port := by
  have hstate : s'.state = .listen ↔ s.state = .listen := by
    rcases hq.state with h | ⟨h, h'⟩ | ⟨h, h'⟩ | ⟨h, -, h'⟩
    · rw [h]
    all_goals simp [h, h']
  rw [Bool.eq_iff_iff, TcpSock.listensOn_iff, TcpSock.listensOn_iff, hq.used, hq.bound, hq.lport,
    hstate]

lemma TcpSock.Quiet.arrived (hq : s.Quiet s') (hparent : s.parent ≠ none)
    (hstate : s.state ≠ .synSent) (harrived : s'.state.Arrived) : s.state.Arrived := by
  rcases hq.state with h | ⟨h, -⟩ | ⟨h, -⟩ | ⟨-, h, -⟩
  · rwa [← h]
  · exact absurd h hstate
  · exact .inl h
  · exact absurd h hparent

lemma TcpSock.Quiet.not_synSent (hq : s.Quiet s') (hstate : s.state ≠ .synSent) :
    s'.state ≠ .synSent := by
  rcases hq.state with h | ⟨-, h⟩ | ⟨-, h⟩ | ⟨-, -, h⟩
  · rwa [h]
  all_goals simp [h]

lemma Tcp.Orderly.keep (ho : t.Orderly h)
    (hchild : ∀ c l, (t'.socks c).parent = some l → (t.socks c).parent = some l ∧
      (t.socks c).Quiet (t'.socks c) ∧ (t'.socks l).backlog = (t.socks l).backlog ∧
      ∀ port, (t'.socks l).listensOn port = (t.socks l).listensOn port)
    (hlistens : ∀ l port, (t'.socks l).listensOn port → (t.socks l).listensOn port)
    (hwaiting : ∀ pc' ∈ t'.pending, ∃ pc ∈ t.pending, pc.sock = pc'.sock ∧
      (t.socks pc'.sock).Quiet (t'.socks pc'.sock))
    (hused : ∀ c, (t'.socks c).used → (t.socks c).used ∧
      (∀ l, (t.socks c).parent = some l → (t'.socks c).parent = some l) ∧
      ∀ pc ∈ t.pending, pc.sock = c → ∃ pc' ∈ t'.pending, pc'.sock = c) : t'.Orderly h := by
  refine .of_parts (fun c l hp => ?_) (fun pc' hpc' => ?_) (fun l l' port hl hl' => ?_)
    (fun c hc hpass hret => ?_) ho.once
  · obtain ⟨hold, hc, hbacklog, hl⟩ := hchild c l hp
    obtain ⟨hlistens, harrived, hstate, hhistory⟩ := ho.childOf hold
    refine ⟨?_, fun h => ?_, hc.not_synSent hstate, hbacklog ▸ hhistory⟩
    · rwa [hl, hc.lport]
    · rw [hbacklog]
      exact harrived (hc.arrived (by simp [hold]) hstate h)
  · obtain ⟨pc, hpc, hsock, hq⟩ := hwaiting pc' hpc'
    obtain ⟨⟨hstate, hnone⟩, hhistory⟩ := ho.waiting hpc
    rw [hsock] at hstate hnone hhistory
    refine ⟨⟨hq.not_synSent hstate, fun l => Bool.eq_false_iff.mpr fun hl => ?_⟩, hhistory⟩
    rw [hq.lport] at hl
    simpa [hnone l] using hlistens l _ hl
  · exact ho.unique l l' port (hlistens l port hl) (hlistens l' port hl')
  · obtain ⟨hold, hparent, hpending⟩ := hused c hc
    rcases ho.unaccepted c hold hpass hret with ⟨l, hl⟩ | ⟨pc, hpc, hsock⟩
    · exact .inl ⟨l, hparent l hl⟩
    · exact .inr (hpending pc hpc hsock)

lemma Tcp.Orderly.drop (ho : t.Orderly h)
    (hpending : t'.pending.map PendingChild.sock = t.pending.map PendingChild.sock)
    (hsocks : ∀ i, (t.socks i).Quiet (t'.socks i) ∨
      (t'.socks i).used = false ∧ (t'.socks i).parent = none ∧
        (∀ pc ∈ t.pending, pc.sock ≠ i) ∧ ∀ c, (t.socks c).parent ≠ some i) : t'.Orderly h := by
  have hmem {p q : List PendingChild} (hpq : p.map PendingChild.sock = q.map PendingChild.sock)
      (pc : PendingChild) (hpc : pc ∈ p) : ∃ pc' ∈ q, pc'.sock = pc.sock := by
    have hsock := mem_map_of_mem (f := PendingChild.sock) hpc
    rw [hpq] at hsock
    exact mem_map.mp hsock
  refine ho.keep (fun c l hp => ?_) (fun l port hl => ?_) (fun pc' hpc' => ?_) fun c hused => ?_
  · rcases hsocks c with hq | ⟨-, hnone, -⟩
    · rw [hq.parent] at hp
      rcases hsocks l with hl | ⟨-, -, -, hchildless⟩
      · exact ⟨hp, hq, hl.backlog, hl.listensOn⟩
      · exact absurd hp (hchildless c)
    · simp [hnone] at hp
  · rcases hsocks l with hq | ⟨hunused, -⟩
    · rwa [← hq.listensOn]
    · rw [TcpSock.listensOn_iff] at hl
      simp [hunused] at hl
  · obtain ⟨pc, hpc, hsock⟩ := hmem hpending pc' hpc'
    rcases hsocks pc'.sock with hq | ⟨-, -, hnot, -⟩
    · exact ⟨pc, hpc, hsock, hq⟩
    · exact absurd hsock (hnot pc hpc)
  · rcases hsocks c with hq | ⟨hunused, -⟩
    · refine ⟨hq.used ▸ hused, fun l hl => hq.parent.trans hl, fun pc hpc hsock => ?_⟩
      obtain ⟨pc', hpc', hsock'⟩ := hmem hpending.symm pc hpc
      exact ⟨pc', hpc', hsock'.trans hsock⟩
    · simp [hunused] at hused

lemma Tcp.Orderly.quiet (ho : t.Orderly h) (hq : t.Quiet t') : t'.Orderly h :=
  ho.drop hq.pending fun i => .inl (hq.socks i)

lemma Tcp.Orderly.own (ho : t.Orderly h) (howned : t.Owned held) (hheld : held i)
    (hown : t.Own i t') (hport : (t.socks i).state = .listen → t' = t) : t'.Orderly h := by
  have hlistens (l : SockId) (port : BitVec 16) :
      (t'.socks l).listensOn port = (t.socks l).listensOn port := by
    by_cases hl : l = i
    · subst hl
      by_cases hstate : (t.socks l).state = .listen
      · rw [hport hstate]
      · have hstate' : (t'.socks l).state ≠ .listen := by
          rcases hown.state with hsame | ⟨-, hsent⟩
          · rwa [hsame]
          · simp [hsent]
        simp [TcpSock.listensOn, hstate, hstate']
    · rw [hown.others l hl]
  have hbacklog (l : SockId) : (t'.socks l).backlog = (t.socks l).backlog := by
    by_cases hl : l = i
    · rw [hl, hown.backlog]
    · rw [hown.others l hl]
  have hparent := (howned.held_used i hheld).2
  refine ho.keep (fun c l hp => ?_) (fun l port hl => hlistens l port ▸ hl) (fun pc hpc => ?_)
    fun c hused => ?_
  · have hc : c ≠ i := by
      rintro rfl
      rw [hown.parent, hparent] at hp
      cases hp
    rw [hown.others c hc] at hp ⊢
    exact ⟨hp, .refl _, hbacklog l, hlistens l⟩
  · rw [hown.pending] at hpc
    have hc : pc.sock ≠ i := fun hsock => (howned.pending pc hpc).2.2.1 (hsock ▸ hheld)
    rw [hown.others _ hc]
    exact ⟨pc, hpc, rfl, .refl _⟩
  · rw [hown.pending]
    by_cases hc : c = i
    · subst hc
      exact ⟨hown.used ▸ hused, fun l hl => hown.parent.trans hl, fun pc hpc hsock =>
        ⟨pc, hpc, hsock⟩⟩
    · rw [hown.others c hc] at hused ⊢
      exact ⟨hused, fun _ hl => hl, fun pc hpc hsock => ⟨pc, hpc, hsock⟩⟩

/-! ### New sockets -/

lemma Backlogs.open_self (h : Backlogs) (i : SockId) (passive) :
    (h.open i passive).passive i = passive ∧ (h.open i passive).placed i = 0 ∧
      (h.open i passive).returned i = 0 := by
  simp [Backlogs.open]

lemma Backlogs.open_other (h : Backlogs) (passive) (hij : j ≠ i) :
    h.SameAt (h.open i passive) j := by
  simp [Backlogs.SameAt, Backlogs.open, hij]

section

variable (ho : t.Orderly h) (howned : t.Owned held)
include ho howned

/-- A free slot is taken: by a socket of a task, by a child of a listener, or by a child that
waits for one. -/
theorem Tcp.Orderly.fill {extra : List PendingChild}
    (hfree : (t.socks c).used = false) (hstate : s.state = .closed ∨ s.state = .synReceived)
    (hextra : ∀ pc ∈ extra, pc.sock = c ∧ passive ∧ ∀ l, (t.socks l).listensOn s.lport = false)
    (hparent : ∀ l, s.parent = some l → passive ∧ (t.socks l).listensOn s.lport)
    (hway : passive → (∃ l, s.parent = some l) ∨ ∃ pc ∈ extra, pc.sock = c) :
    Tcp.Orderly { t.put c s with pending := t.pending ++ extra } (h.open c passive) := by
  set t' : Tcp := { t.put c s with pending := t.pending ++ extra }
  have hself : t'.socks c = s := Tcp.put_self t c s
  have hother {i : SockId} (hi : i ≠ c) : t'.socks i = t.socks i := Tcp.put_other t s hi
  have hused {i : SockId} (hi : (t.socks i).used) : i ≠ c := fun hic => by
    simp [hic, hfree] at hi
  have hnew : s.state ≠ .listen ∧ s.state ≠ .synSent ∧ ¬ s.state.Arrived := by
    rcases hstate with h | h <;> simp [h, TcpState.Arrived]
  have hlistens {l : SockId} {port : BitVec 16} (hl : (t'.socks l).listensOn port) :
      (t.socks l).listensOn port ∧ l ≠ c := by
    by_cases hlc : l = c
    · rw [hlc, hself, TcpSock.listensOn_iff] at hl
      exact absurd hl.2.1 hnew.1
    · exact ⟨hother hlc ▸ hl, hlc⟩
  have hkept {l : SockId} {port : BitVec 16} (hl : (t.socks l).listensOn port) :
      t'.socks l = t.socks l := hother (hused (TcpSock.listensOn_iff.mp hl).1)
  -- a child is the new one or an old one with its old listener
  have hcases {i l : SockId} (hp : (t'.socks i).parent = some l) :
      i = c ∧ s.parent = some l ∨ i ≠ c ∧ (t.socks i).parent = some l := by
    by_cases hi : i = c
    · rw [hi, hself] at hp
      exact .inl ⟨hi, hp⟩
    · rw [hother hi] at hp
      exact .inr ⟨hi, hp⟩
  have hpend {pc : PendingChild} (hpc : pc ∈ t'.pending) :
      pc ∈ extra ∨ pc ∈ t.pending ∧ pc.sock ≠ c := by
    rcases mem_append.mp hpc with hold | hlast
    · exact .inr ⟨hold, hused (howned.pending pc hold).1⟩
    · exact .inl hlast
  have hentry (l : SockId) : c ∉ (t.socks l).backlog := fun hc =>
    absurd rfl (hused (howned.entry_used hc))
  refine .of_parts (fun i l hp => ?_) (fun pc hpc => ?_) (fun l l' port hl hl' => ?_)
    (fun i hi hpass hret => ?_) fun i => ?_
  · rcases hcases hp with ⟨rfl, hs⟩ | ⟨hi, hold⟩
    · obtain ⟨hpass, hl⟩ := hparent l hs
      obtain ⟨hpassive, hplaced, hreturned⟩ := h.open_self i passive
      refine ⟨?_, ?_, ?_, ?_⟩
      · rwa [hself, hkept hl]
      · rw [hself]
        exact fun harrived => absurd harrived hnew.2.2
      · rw [hself]
        exact hnew.2.1
      · rw [hpassive, hplaced, hreturned, hkept hl, if_neg (hentry l)]
        exact ⟨hpass, rfl, rfl⟩
    · have hl := hkept (ho.listens i l hold)
      exact (ho.childOf hold).kept (h.open_other passive hi) (by rw [hother hi])
        (by rw [hother hi]) (fun _ => by rw [hl]) (by rw [hl])
  · rcases hpend hpc with hlast | ⟨hold, hne⟩
    · obtain ⟨hsock, hpass, hnone⟩ := hextra pc hlast
      obtain ⟨hpassive, hplaced, hreturned⟩ := h.open_self c passive
      rw [hsock]
      refine ⟨?_, by rw [hpassive, hplaced, hreturned]; exact ⟨hpass, rfl, rfl⟩⟩
      rw [hself]
      refine ⟨hnew.2.1, fun l => Bool.eq_false_iff.mpr fun hl => ?_⟩
      exact absurd (hlistens hl).1 (by simp [hnone l])
    · exact (ho.waiting hold).kept (h.open_other passive hne) (by rw [hother hne])
        (by rw [hother hne]) fun l hl => (hlistens hl).1
  · exact ho.unique l l' port (hlistens hl).1 (hlistens hl').1
  · by_cases hic : i = c
    · subst hic
      rw [(h.open_self i passive).1] at hpass
      rw [hself]
      rcases hway hpass with hl | ⟨pc, hpc, hsock⟩
      · exact .inl hl
      · exact .inr ⟨pc, mem_append_right _ hpc, hsock⟩
    · obtain ⟨hpassive, -, hreturned⟩ := h.open_other passive hic
      rw [hpassive] at hpass
      rw [hreturned] at hret
      rw [hother hic] at hi ⊢
      rcases ho.unaccepted i hi hpass hret with hl | ⟨pc, hpc, hsock⟩
      · exact .inl hl
      · exact .inr ⟨pc, mem_append_left _ hpc, hsock⟩
  · by_cases hic : i = c
    · subst hic
      obtain ⟨-, hplaced, hreturned⟩ := h.open_self i passive
      omega
    · obtain ⟨-, hplaced, hreturned⟩ := h.open_other passive hic
      rw [hplaced, hreturned]
      exact ho.once i

/-! ### Into the backlog and out of it -/

lemma Tcp.Orderly.complete {p : SockId} (hstate : (t.socks c).state = .synReceived)
    (hparent : (t.socks c).parent = some p) (hnew : c ∉ (t.socks p).backlog)
    (hroom : (t.socks p).backlog.length < 4) :
    (inputSynReceived t c seg).Orderly (h.place [c]) := by
  have hne := (howned.child_used c p hparent).2.1
  rw [inputSynReceived_parent hparent hne hroom]
  set t' := (t.put c ((t.socks c).completed seg)).put p
    { t.socks p with backlog := (t.socks p).backlog ++ [c] }
  have hc : t'.socks c = (t.socks c).completed seg := by
    rw [Tcp.put_other _ _ hne, Tcp.put_self]
  have hp : t'.socks p = { t.socks p with backlog := (t.socks p).backlog ++ [c] } := Tcp.put_self ..
  have hother {i : SockId} (hi : i ≠ c) : t'.socks i = { t.socks i with
        backlog := if i = p then (t.socks p).backlog ++ [c] else (t.socks i).backlog } := by
    by_cases hip : i = p
    · subst hip
      rw [hp, if_pos rfl]
    · rw [Tcp.put_other _ _ hip, Tcp.put_other _ _ hi, if_neg hip]
  have hplaces (i : SockId) : (t'.socks i).parent = (t.socks i).parent ∧
      (t'.socks i).lport = (t.socks i).lport ∧ (t'.socks i).used = (t.socks i).used := by
    by_cases hi : i = c
    · rw [hi, hc]
      exact ⟨rfl, rfl, rfl⟩
    · rw [hother hi]
      exact ⟨rfl, rfl, rfl⟩
  have hlistens (l : SockId) (port : BitVec 16) :
      (t'.socks l).listensOn port = (t.socks l).listensOn port := by
    by_cases hl : l = c
    · rw [hl, hc]
      simp [TcpSock.listensOn, TcpSock.completed, hstate]
    · rw [hother hl]
      rfl
  have hentries {i l : SockId} (hi : i ≠ c) (hold : (t.socks i).parent = some l) :
      i ∈ (t'.socks l).backlog ↔ i ∈ (t.socks l).backlog := by
    by_cases hl : l = c
    · -- a child in its handshake is nobody's parent
      have hlisten := (TcpSock.listensOn_iff.mp (ho.listens i l hold)).2.1
      rw [hl, hstate] at hlisten
      cases hlisten
    · rw [hother hl]
      split_ifs with hlp
      · subst hlp
        simp [hi]
      · rfl
  have hsame {i : SockId} (hi : i ≠ c) : h.SameAt (h.place [c]) i := by
    simp [Backlogs.SameAt, Backlogs.place, Ne.symm hi]
  have hplaced := (ho.child c p hparent).2.2
  rw [if_neg hnew] at hplaced
  refine .of_parts (fun i l hp' => ?_) (fun pc hpc => ?_) (fun l l' port hl hl' => ?_)
    (fun i hi hpass hret => ?_) fun i => ⟨?_, (ho.once i).2⟩
  · rw [(hplaces i).1] at hp'
    by_cases hi : i = c
    · subst hi
      obtain rfl : p = l := some.inj (hparent.symm.trans hp')
      obtain ⟨hpassive, hreturned, -⟩ := ho.child i p hp'
      refine ⟨?_, ?_, ?_, hpassive, hreturned, ?_⟩
      · rw [hlistens, (hplaces i).2.1]
        exact ho.listens i p hp'
      · simp [hp]
      · simp [hc, TcpSock.completed]
      · simp [Backlogs.place, hplaced, hp]
    · exact (ho.childOf hp').kept (hsame hi) (by rw [hother hi]) (hplaces i).2.1 (hlistens l)
        (hentries hi hp')
  · have hpc' : pc.sock ≠ c := fun hsock => by
      simp [← hsock, (howned.pending pc hpc).2.1] at hparent
    exact (ho.waiting hpc).kept (hsame hpc') (by rw [hother hpc']) (hplaces _).2.1
      fun l hl => hlistens l _ ▸ hl
  · rw [hlistens] at hl hl'
    exact ho.unique l l' port hl hl'
  · rw [(hplaces i).2.2] at hi
    rw [(hplaces i).1]
    exact ho.unaccepted i hi hpass hret
  · by_cases hi : i = c
    · simp [hi, Backlogs.place, hplaced]
    · rw [(hsame hi).2.1]
      exact (ho.once i).1

lemma Tcp.Orderly.accepting {rest : List SockId} (hbacklog : (t.socks l).backlog = c :: rest) :
    (t.accepting l c rest).Orderly (h.accept c) := by
  have hentry : (t.socks c).parent = some l := howned.entry l c (by simp [hbacklog])
  have hne := (howned.child_used c l hentry).2.1
  have hfields (i : SockId) := t.accepting_socks i hne rest
  have hlistens (j : SockId) (port : BitVec 16) :
      ((t.accepting l c rest).socks j).listensOn port = (t.socks j).listensOn port := by
    rw [hfields]
    rfl
  have hparent {i p : SockId} (hp : ((t.accepting l c rest).socks i).parent = some p) :
      i ≠ c ∧ (t.socks i).parent = some p := by
    rw [hfields] at hp
    dsimp only at hp
    split_ifs at hp with hi
    exact ⟨hi, hp⟩
  have hentries {i : SockId} (hi : i ≠ c) (p : SockId) :
      i ∈ ((t.accepting l c rest).socks p).backlog ↔ i ∈ (t.socks p).backlog := by
    rw [hfields]
    dsimp only
    split_ifs with hp
    · rw [hp, hbacklog]
      simp [hi]
    · rfl
  have hsame {i : SockId} (hi : i ≠ c) : h.SameAt (h.accept c) i :=
    ⟨rfl, rfl, update_of_ne hi ..⟩
  refine .of_parts (fun i p hp => ?_) (fun pc hpc => ?_) (fun j j' port hj hj' => ?_)
    (fun i hi hpass hret => ?_) fun i => ⟨(ho.once i).1, ?_⟩
  · obtain ⟨hi, hold⟩ := hparent hp
    exact (ho.childOf hold).kept (hsame hi) (by rw [hfields]) (by rw [hfields]) (hlistens p)
      (hentries hi p)
  · have hpc' : pc.sock ≠ c := fun hsock => by
      simp [← hsock, (howned.pending pc hpc).2.1] at hentry
    exact (ho.waiting hpc).kept (hsame hpc') (by rw [hfields]) (by rw [hfields])
      fun j hj => hlistens j _ ▸ hj
  · rw [hlistens] at hj hj'
    exact ho.unique j j' port hj hj'
  · by_cases hic : i = c
    · subst hic
      simp [Backlogs.accept] at hret
    · rw [(hsame hic).2.2] at hret
      rw [hfields] at hi ⊢
      rw [if_neg hic]
      exact ho.unaccepted i hi hpass hret
  · by_cases hic : i = c
    · subst hic
      simp [Backlogs.accept, (ho.child i l hentry).2.1]
    · rw [(hsame hic).2.2]
      exact (ho.once i).2

lemma Tcp.Orderly.listening (hheld : held l) (hlisten : t.Listening l port t')
    (hchildless : ∀ c, (t.socks c).parent ≠ some l)
    (hfree : ∀ l', l' ≠ l → (t.socks l').listensOn port = false) :
    t'.Orderly (h.place (t'.socks l).backlog) := by
  have howned' := howned.listening hheld hlisten
  have hused : (t'.socks l).used := (howned'.held_used l hheld).1
  have hbacklog {c : SockId} (hc : c ∈ (t'.socks l).backlog) :
      ∃ pc ∈ t.waitingOn port, pc.sock = c := by
    rw [hlisten.backlog] at hc
    exact mem_map.mp hc
  have hadopted {pc : PendingChild} (hpc : pc ∈ t.waitingOn port) :
      pc.sock ∈ (t'.socks l).backlog := by
    rw [hlisten.backlog]
    exact mem_map_of_mem hpc
  have hlport {pc : PendingChild} (hpc : pc ∈ t.waitingOn port) :
      (t.socks pc.sock).lport = port := by
    simpa using (mem_filter.mp hpc).2
  -- the listeners are the new one on its port and the old ones
  have hlistens {i : SockId} {port' : BitVec 16} (hi : (t'.socks i).listensOn port') :
      i = l ∧ port' = port ∨ i ≠ l ∧ (t.socks i).listensOn port' := by
    rcases hlisten.cases i with rfl | ⟨pc, hpc, rfl⟩ | ⟨hil, hsame⟩
    · refine .inl ⟨rfl, ?_⟩
      rw [← (TcpSock.listensOn_iff.mp hi).2.2.2, hlisten.lport]
    · have hpc' := Tcp.mem_waitingOn hpc
      refine .inr ⟨fun hsock => (howned.pending pc hpc').2.2.1 (hsock ▸ hheld), ?_⟩
      obtain ⟨-, -, hbound, -, hstate⟩ := (t.socks pc.sock).adopted_fields l pc
      have hends := (t.socks pc.sock).adopted_ends l pc
      rw [hlisten.adopted pc hpc, TcpSock.listensOn_iff, hends.used, hends.lport, hbound,
        hstate] at hi
      split_ifs at hi
      · simp at hi
      · exact TcpSock.listensOn_iff.mpr hi
    · exact .inr ⟨hil, hsame ▸ hi⟩
  -- an old listener is no adopted child, since that would have been listened for
  have hkept {i : SockId} {port' : BitVec 16} (hi : (t.socks i).listensOn port') (hil : i ≠ l) :
      t'.socks i = t.socks i := by
    rcases hlisten.cases i with hl | ⟨pc, hpc, rfl⟩ | ⟨-, hsame⟩
    · exact absurd hl hil
    · have hnone := (ho.unlistened pc (Tcp.mem_waitingOn hpc)).2 pc.sock
      rw [(TcpSock.listensOn_iff.mp hi).2.2.2] at hnone
      simp [hi] at hnone
    · exact hsame
  -- a child is adopted or has its old listener
  have hcases {c p : SockId} (hp : (t'.socks c).parent = some p) :
      (p = l ∧ ∃ pc ∈ t.waitingOn port, pc.sock = c) ∨
        ((t.socks c).parent = some p ∧ t'.socks c = t.socks c ∧ t'.socks p = t.socks p) := by
    rcases hlisten.cases c with rfl | ⟨pc, hpc, rfl⟩ | ⟨-, hsame⟩
    · simp [(howned'.held_used c hheld).2] at hp
    · rw [hlisten.adopted pc hpc, ((t.socks pc.sock).adopted_fields l pc).1] at hp
      exact .inl ⟨(some.inj hp).symm, pc, hpc, rfl⟩
    · rw [hsame] at hp
      have hpl : p ≠ l := fun h => hchildless c (h ▸ hp)
      exact .inr ⟨hp, hsame, hkept (ho.listens c p hp) hpl⟩
  have hnot {c p : SockId} (hp : (t.socks c).parent = some p) : c ∉ (t'.socks l).backlog := by
    intro hc
    obtain ⟨pc, hpc, rfl⟩ := hbacklog hc
    simp [(howned.pending pc (Tcp.mem_waitingOn hpc)).2.1] at hp
  have hsame {c : SockId} (hc : c ∉ (t'.socks l).backlog) :
      h.SameAt (h.place (t'.socks l).backlog) c := by
    simp [Backlogs.SameAt, Backlogs.place, count_eq_zero.mpr hc]
  have hcountOne {pc : PendingChild} (hpc : pc ∈ t.waitingOn port) :
      (h.place (t'.socks l).backlog).placed pc.sock = 1 := by
    rw [Backlogs.place]
    dsimp only
    rw [count_eq_one_of_mem (howned'.nodup l) (hadopted hpc),
      (ho.waits pc (Tcp.mem_waitingOn hpc)).2.2]
  refine .of_parts (fun c p hp => ?_) (fun pc hpc => ?_) (fun i i' port' hi hi' => ?_)
    (fun c hc hpass hret => ?_) fun c => ⟨?_, (ho.once c).2⟩
  · rcases hcases hp with ⟨rfl, pc, hpc, rfl⟩ | ⟨hold, hc, hp'⟩
    · have hwaits := ho.waiting (Tcp.mem_waitingOn hpc)
      refine ⟨?_, fun _ => hadopted hpc, ?_, hwaits.history.1, hwaits.history.2.1, ?_⟩
      · rw [hlisten.adopted pc hpc, ((t.socks pc.sock).adopted_ends p pc).lport, hlport hpc]
        exact TcpSock.listensOn_iff.mpr ⟨hused, hlisten.state, hlisten.bound, hlisten.lport⟩
      · rw [hlisten.adopted pc hpc, ((t.socks pc.sock).adopted_fields p pc).2.2.2.2]
        split_ifs
        · simp
        · exact hwaits.unlistened.1
      · rw [hcountOne hpc, if_pos (hadopted hpc)]
    · exact (ho.childOf hold).kept (hsame (hnot hold)) (by rw [hc]) (by rw [hc])
        (fun _ => by rw [hp']) (by rw [hp'])
  · obtain ⟨hmem, hother, hsock⟩ := howned.still_pending hheld hlisten hpc
    refine (ho.waiting hmem).kept (hsame fun hc => ?_) (by rw [hsock]) (by rw [hsock])
      fun i hi => ?_
    · obtain ⟨pc', hpc', hsock⟩ := hbacklog hc
      exact hother (hsock ▸ hlport hpc')
    · rcases hlistens hi with ⟨-, hport⟩ | ⟨-, hold⟩
      · exact absurd hport hother
      · exact hold
  · rcases hlistens hi with ⟨hil, hport⟩ | ⟨hil, hold⟩
    · rcases hlistens hi' with ⟨hil', -⟩ | ⟨hil', hold'⟩
      · rw [hil, hil']
      · simp [hport, hfree i' hil'] at hold'
    · rcases hlistens hi' with ⟨-, hport⟩ | ⟨-, hold'⟩
      · simp [hport, hfree i hil] at hold
      · exact ho.unique i i' port' hold hold'
  · have hold : (t.socks c).used := by
      rcases hlisten.cases c with rfl | ⟨pc, hpc, rfl⟩ | ⟨-, hsame⟩
      · exact (howned.held_used c hheld).1
      · exact (howned.pending pc (Tcp.mem_waitingOn hpc)).1
      · exact hsame ▸ hc
    rcases ho.unaccepted c hold hpass hret with ⟨p, hp⟩ | ⟨pc, hpc, rfl⟩
    · rw [(howned.still_child hheld hlisten hp).2]
      exact .inl ⟨p, hp⟩
    · by_cases hport : (t.socks pc.sock).lport = port
      · have hmem : pc ∈ t.waitingOn port := mem_filter.mpr ⟨hpc, by simpa using hport⟩
        rw [hlisten.adopted pc hmem]
        exact .inl ⟨l, ((t.socks pc.sock).adopted_fields l pc).1⟩
      · rw [hlisten.pending]
        exact .inr ⟨pc, mem_filter.mpr ⟨hpc, by simpa using hport⟩, rfl⟩
  · by_cases hc : c ∈ (t'.socks l).backlog
    · obtain ⟨pc, hpc, rfl⟩ := hbacklog hc
      rw [hcountOne hpc]
    · rw [(hsame hc).2.1]
      exact (ho.once c).1

end

end Net

/-! ## The system with its history -/

variable {s s' : SockDesk} {h : Backlogs} {e : SockEvent} {env : NetEnv} {src : BitVec 32}
  {seg : Segment} {memory : Bool} {t : Slot} {i l c : SockId}

def SockDesk.opened (s s' : SockDesk) : List SockId :=
  (finRange 8).filter fun i => !(s.tcp.socks i).used && (s'.tcp.socks i).used

def SockEvent.isInput : SockEvent → Bool
  | .input .. => true
  | _ => false

/-- The connections that are put into a backlog: `listen` fills an empty one, and a segment
appends to one. -/
def SockEvent.placed (s s' : SockDesk) : SockEvent → List SockId
  | .listen t fd _ =>
    match s.sock t fd with
    | some l => if (s.tcp.socks l).used then (s'.tcp.socks l).backlog else []
    | none => []
  | .input .. => (finRange 8).filter fun c =>
    ∃ l, (s'.tcp.socks l).backlog = (s.tcp.socks l).backlog ++ [c]
  | _ => []

def SockEvent.returned (s : SockDesk) : SockEvent → Option SockId
  | .accept t fd _ => (s.sock t fd).bind fun l => (tcpAccept s.tcp l).1
  | _ => none

def SockDesk.note (s : SockDesk) (e : SockEvent) (s' : SockDesk) (h : Backlogs) : Backlogs :=
  let h := (s.opened s').foldl (fun h i => h.open i e.isInput) h
  let h := h.place (e.placed s s')
  match e.returned s with
  | some c => h.accept c
  | none => h

/-- A listener is closed only without children, and keeps its port; `listen` is called on a
socket without children and for a port that nobody listens on; a handshake ends only while the
listener has room. -/
def SockEvent.Orderly (s : SockDesk) : SockEvent → Prop
  | .desk op => ∀ d' i c, s.desk.step op = some d' → s.gone d' i →
      (s.tcp.socks c).parent ≠ some i
  | .bind t fd _ _ _ => ∀ i, s.sock t fd = some i → (s.tcp.socks i).state ≠ .listen
  | .listen t fd _ => ∀ l, s.sock t fd = some l →
      (∀ c, (s.tcp.socks c).parent ≠ some l) ∧
        ∀ l', l' ≠ l → (s.tcp.socks l').listensOn
          (s.tcp.listenPort l (s.tcp.socks l).lport) = false
  | .input _ src seg => ∀ c p, findSocket s.tcp src seg = some c →
      Net.hasFlag seg.flags flagAck → (s.tcp.socks c).state = .synReceived →
      (s.tcp.socks c).parent = some p → (s.tcp.socks p).backlog.length < 4
  | _ => True

instance (env : NetEnv) (src : BitVec 32) (seg : Segment) (s : SockDesk) :
    Decidable ((SockEvent.input env src seg).Orderly s) :=
  inferInstanceAs (Decidable (∀ c p, findSocket s.tcp src seg = some c →
    Net.hasFlag seg.flags flagAck → (s.tcp.socks c).state = .synReceived →
    (s.tcp.socks c).parent = some p → (s.tcp.socks p).backlog.length < 4))

/-! ### The history of one step -/

lemma Net.Backlogs.place_nil (h : Backlogs) : h.place [] = h := by
  simp [Backlogs.place]

lemma SockDesk.opened_none (hused : ∀ i, (s'.tcp.socks i).used → (s.tcp.socks i).used) :
    s.opened s' = [] := by
  refine filter_eq_nil_iff.mpr fun i _ hi => ?_
  simp only [Bool.and_eq_true, Bool.not_eq_true'] at hi
  simp [hused i hi.2] at hi

lemma SockDesk.opened_one (hfree : (s.tcp.socks c).used = false)
    (hused : (s'.tcp.socks c).used) (hother : ∀ i, i ≠ c → s'.tcp.socks i = s.tcp.socks i) :
    s.opened s' = [c] := by
  rw [← filter_finRange_eq c]
  refine filter_congr fun i _ => ?_
  by_cases hi : i = c
  · subst hi
    simp [hfree, hused]
  · simp [hother i hi, hi]

lemma SockDesk.note_eq (hopened : s.opened s' = []) (hplaced : e.placed s s' = [])
    (hreturned : e.returned s = none) : s.note e s' h = h := by
  simp [SockDesk.note, hopened, hplaced, hreturned, Backlogs.place_nil]

lemma input_placed_none
    (hlength : ∀ l, (s'.tcp.socks l).backlog.length ≤ (s.tcp.socks l).backlog.length) :
    (SockEvent.input env src seg).placed s s' = [] := by
  refine filter_eq_nil_iff.mpr fun c _ hc => ?_
  simp only [decide_eq_true_eq] at hc
  obtain ⟨l, hl⟩ := hc
  have hle := hlength l
  rw [hl, length_append] at hle
  simp at hle

/-! ### Steps -/

lemma Net.Tcp.Orderly.deskOp {op : DeskOp} (ho : s.tcp.Orderly h) (hs : s.Owners)
    (hsafe : (SockEvent.desk op).Safe s) (horderly : (SockEvent.desk op).Orderly s)
    (hstep : s.step (.desk op) = some s') : s'.tcp.Orderly (s.note (.desk op) s' h) := by
  obtain ⟨d', whole, hd', rfl⟩ := SockDesk.step_desk hstep
  obtain ⟨hmoves, hcounts⟩ := hs.deskOp op hsafe.1 hsafe.2 hd'
  have hfreed (i : SockId) (hgone : s.gone d' i) :
      ((s.withDesk d' whole).tcp.socks i).used = false ∧
        ((s.withDesk d' whole).tcp.socks i).parent = none := by
    have hparent := (hs.table.held_used i (hs.gone_held hmoves hcounts hgone).1).2
    simp only [SockDesk.withDesk, Tcp.freeing, hgone, if_true]
    split_ifs
    · exact ⟨rfl, rfl⟩
    · exact ⟨rfl, hparent⟩
  have hkept (i : SockId) (hgone : ¬ s.gone d' i) :
      (s.withDesk d' whole).tcp.socks i = s.tcp.socks i := if_neg hgone
  rw [SockDesk.note_eq (SockDesk.opened_none fun i hi => ?_) rfl rfl]
  · refine ho.drop rfl fun i => ?_
    by_cases hgone : s.gone d' i = true
    · have hheld := (hs.gone_held hmoves hcounts hgone).1
      exact .inr ⟨(hfreed i hgone).1, (hfreed i hgone).2, fun pc hpc hsock =>
        (hs.table.pending pc hpc).2.2.1 (hsock ▸ hheld), fun c => horderly d' i c hd' hgone⟩
    · rw [hkept i hgone]
      exact .inl (.refl _)
  · by_cases hgone : s.gone d' i = true
    · simp [(hfreed i hgone).1] at hi
    · rwa [hkept i hgone] at hi

lemma SockDesk.sysSocket_tcp (hstep : s.sysSocket t env memory = some s') :
    s'.tcp = s.tcp ∨ ∃ i, (s.tcp.socks i).used = false ∧
      (s'.tcp = s.tcp.put i TcpSock.cleared ∨ s'.tcp = s.tcp.put i (freshSock env i)) := by
  unfold SockDesk.sysSocket at hstep
  rcases tcpAllocConn_cases env s.tcp with ⟨halloc, -⟩ | ⟨i, hfree, halloc⟩
  · rw [halloc] at hstep
    obtain rfl := some.inj hstep
    exact .inl rfl
  · rw [halloc] at hstep
    refine .inr ⟨i, hfree, ?_⟩
    have hfreed : tcpFree (s.tcp.put i (freshSock env i)) i = s.tcp.put i TcpSock.cleared := by
      rw [tcpFree, Tcp.put_put]
    cases memory with
    | false =>
      obtain rfl := some.inj hstep
      exact .inl hfreed
    | true =>
      obtain ⟨d', -, rfl⟩ := map_eq_some_iff.mp hstep
      split_ifs
      · exact .inr rfl
      · exact .inl hfreed

lemma SockDesk.sysAccept_tcp (hstep : s.sysAccept t l memory = some s') :
    s'.tcp = (tcpAccept s.tcp l).2 := by
  unfold SockDesk.sysAccept at hstep
  rcases hresult : tcpAccept s.tcp l with ⟨_ | c, tcp⟩
  · rw [hresult] at hstep
    obtain rfl := some.inj hstep
    rfl
  · rw [hresult] at hstep
    cases memory with
    | false =>
      obtain rfl := some.inj hstep
      rfl
    | true =>
      obtain ⟨d', -, rfl⟩ := map_eq_some_iff.mp hstep
      split_ifs <;> rfl

section

variable (ho : s.tcp.Orderly h) (hs : s.Owners)
include ho hs

lemma Net.Tcp.Orderly.sysSocket (hstep : s.sysSocket t env memory = some s') :
    s'.tcp.Orderly (s.note (.socket t env memory) s' h) := by
  rcases SockDesk.sysSocket_tcp hstep with heq | ⟨i, hfree, heq | heq⟩
  · rw [SockDesk.note_eq (SockDesk.opened_none fun i hi => heq ▸ hi) rfl rfl, heq]
    exact ho
  · have hunused (j : SockId) (hj : (s'.tcp.socks j).used) : j ≠ i := by
      rintro rfl
      rw [heq, Tcp.put_self] at hj
      cases hj
    rw [SockDesk.note_eq (SockDesk.opened_none fun j hj => ?_) rfl rfl, heq]
    · refine ho.drop rfl fun j => ?_
      by_cases hj : j = i
      · subst hj
        rw [Tcp.put_self]
        refine .inr ⟨rfl, rfl, fun pc hpc hsock => ?_, fun c hp => ?_⟩
        · simp [← hsock, (hs.table.pending pc hpc).1] at hfree
        · simp [(TcpSock.listensOn_iff.mp (ho.listens c j hp)).1] at hfree
      · rw [Tcp.put_other _ _ hj]
        exact .inl (.refl _)
    · have hne := hunused j hj
      rwa [heq, Tcp.put_other _ _ hne] at hj
  · have hopened : s.opened s' = [i] := by
      refine SockDesk.opened_one hfree ?_ fun j hj => ?_
      · rw [heq, Tcp.put_self]
        rfl
      · rw [heq, Tcp.put_other _ _ hj]
    have hnote : s.note (.socket t env memory) s' h = h.open i false := by
      simp [SockDesk.note, hopened, SockEvent.placed, SockEvent.returned, SockEvent.isInput,
        Backlogs.place_nil]
    have hfill : Tcp.Orderly { s.tcp.put i (freshSock env i) with
        pending := s.tcp.pending ++ [] } (h.open i false) :=
      ho.fill hs.table hfree (.inl rfl) (by simp) (fun l hl => by cases hl) (by simp)
    rw [append_nil] at hfill
    rw [hnote, heq]
    exact hfill

lemma Net.Tcp.Orderly.sysAccept {fd : Word} (hsock : s.sock t fd = some l)
    (hstep : s.sysAccept t l memory = some s') :
    s'.tcp.Orderly (s.note (.accept t fd memory) s' h) := by
  have htcp := SockDesk.sysAccept_tcp hstep
  rcases tcpAccept_cases s.tcp l with haccept | ⟨c, rest, -, hbacklog, haccept⟩
  · have hsame : s'.tcp = s.tcp := by rw [htcp, haccept]
    rw [SockDesk.note_eq (SockDesk.opened_none fun i hi => hsame ▸ hi) rfl, hsame]
    · exact ho
    · simp [SockEvent.returned, hsock, haccept]
  · rw [haccept] at htcp
    have hentry := hs.table.entry l c (by simp [hbacklog])
    have hne := (hs.table.child_used c l hentry).2.1
    have hopened : s.opened s' = [] := SockDesk.opened_none fun i hi => by
      rw [htcp, Tcp.accepting_socks _ _ hne] at hi
      exact hi
    have hnote : s.note (.accept t fd memory) s' h = h.accept c := by
      simp [SockDesk.note, hopened, SockEvent.placed, SockEvent.returned, hsock, haccept,
        Backlogs.place_nil]
    rw [hnote, htcp]
    exact ho.accepting hs.table hbacklog

lemma Net.Tcp.Orderly.ownCall {tcp : Tcp} (hheld : s.Held i)
    (hown : s.tcp.Own i tcp) (hport : (s.tcp.socks i).state = .listen → tcp = s.tcp)
    (hplaced : e.placed s { s with tcp } = []) (hreturned : e.returned s = none) :
    tcp.Orderly (s.note e { s with tcp } h) := by
  rw [SockDesk.note_eq (SockDesk.opened_none fun j hj => ?_) hplaced hreturned]
  · exact ho.own hs.table hheld hown hport
  · by_cases hji : j = i
    · subst hji
      exact hown.used ▸ hj
    · have hsame := hown.others j hji
      exact hsame ▸ hj

lemma Net.Tcp.Orderly.sysListen {fd : Word} (hsock : s.sock t fd = some l)
    (horderly : (SockEvent.listen t fd env).Orderly s) :
    let tcp := (tcpListen env s.tcp l (s.tcp.socks l).lport).2
    tcp.Orderly (s.note (.listen t fd env) { s with tcp } h) := by
  intro tcp
  have hheld := SockDesk.sock_held hsock
  have hused := (hs.table.held_used l hheld).1
  obtain ⟨hchildless, hfree⟩ := horderly l hsock
  have hlisten : s.tcp.Listening l (s.tcp.listenPort l (s.tcp.socks l).lport) tcp :=
    tcpListen_listening env _ hused hs.table.pending_nodup
      (fun pc hpc heq => (hs.table.pending pc hpc).2.2.1 (heq ▸ hheld)) hs.table.pending_fits
  have hopened : s.opened { s with tcp } = [] := SockDesk.opened_none fun j hj => by
    rcases hlisten.cases j with rfl | ⟨pc, hpc, rfl⟩ | ⟨-, hsame⟩
    · exact hused
    · exact (hs.table.pending pc (Tcp.mem_waitingOn hpc)).1
    · exact hsame ▸ hj
  have hnote : s.note (.listen t fd env) { s with tcp } h = h.place (tcp.socks l).backlog := by
    simp [SockDesk.note, hopened, SockEvent.placed, SockEvent.returned, hsock, hused]
  rw [hnote]
  exact ho.listening hs.table hheld hlisten hchildless hfree

lemma Net.Tcp.Orderly.input (hsafe : (SockEvent.input env src seg).Safe s)
    (horderly : (SockEvent.input env src seg).Orderly s) : let tcp := (tcpInput env s.tcp src seg).2
    tcp.Orderly (s.note (.input env src seg) { s with tcp } h) := by
  intro tcp
  -- a new child opens its slot and places nothing
  have hchild (c : SockId) (child : TcpSock) (hfree : (s.tcp.socks c).used = false)
      (hused : child.used) (hbacklog : child.backlog = []) (hself : tcp.socks c = child)
      (hother : ∀ i, i ≠ c → tcp.socks i = s.tcp.socks i) :
      s.note (.input env src seg) { s with tcp } h = h.open c true := by
    have hopened : s.opened { s with tcp } = [c] :=
      SockDesk.opened_one hfree (hself ▸ hused) hother
    have hplaced : (SockEvent.input env src seg).placed s { s with tcp } = [] := by
      refine input_placed_none fun l => ?_
      by_cases hl : l = c
      · subst hl
        rw [hself, hbacklog]
        exact Nat.zero_le _
      · dsimp only
        rw [hother l hl]
    simp [SockDesk.note, hopened, hplaced, SockEvent.returned, SockEvent.isInput,
      Backlogs.place_nil]
  rcases tcpInput_cases env s.tcp src seg hs.table.active with hquiet | ⟨c, hfree, -, hnone, heq⟩ |
    ⟨l, c, laddr, hfree, hlistens, heq⟩ | ⟨c, p, hfind, hack, hstate, hparent, heq⟩
  · rw [SockDesk.note_eq (SockDesk.opened_none fun i hi => ?_) (input_placed_none fun l => ?_) rfl]
    · exact ho.quiet hquiet
    · exact (hquiet.socks i).used ▸ hi
    · exact (congrArg List.length (hquiet.socks l).backlog).le
  · have htcp : tcp = s.tcp.waiting c (childSock env c env.localIp false none src seg) := heq
    have hself : tcp.socks c = childSock env c env.localIp false none src seg := by
      rw [htcp]
      exact Tcp.put_self ..
    have hother (i : SockId) (hi : i ≠ c) : tcp.socks i = s.tcp.socks i := by
      rw [htcp]
      exact Tcp.put_other _ _ hi
    rw [hchild c _ hfree rfl rfl hself hother, htcp]
    exact ho.fill hs.table hfree (.inr rfl) (fun pc hpc => by rw [mem_singleton.mp hpc]; exact
      ⟨rfl, rfl, hnone⟩) (fun l hl => by cases hl) fun _ => .inr ⟨_, mem_singleton_self _, rfl⟩
  · have htcp : tcp = s.tcp.put c (childSock env c laddr true (some l) src seg) := heq
    have hfill : Tcp.Orderly { s.tcp.put c (childSock env c laddr true (some l) src seg) with
        pending := s.tcp.pending ++ [] } (h.open c true) :=
      ho.fill hs.table hfree (.inr rfl) (by simp)
        (fun l' hl' => ⟨rfl, some.inj hl' ▸ hlistens⟩) fun _ => .inl ⟨l, rfl⟩
    have hself : tcp.socks c = childSock env c laddr true (some l) src seg := by
      rw [htcp, Tcp.put_self]
    have hother (i : SockId) (hi : i ≠ c) : tcp.socks i = s.tcp.socks i := by
      rw [htcp, Tcp.put_other _ _ hi]
    rw [hchild c _ hfree rfl rfl hself hother, htcp]
    rw [append_nil] at hfill
    exact hfill
  · have hnew := hsafe c p hfind hack hstate hparent
    have hroom := horderly c p hfind hack hstate hparent
    have hne := (hs.table.child_used c p hparent).2.1
    have htcp : tcp = inputSynReceived s.tcp c seg := heq
    have hput : inputSynReceived s.tcp c seg = (s.tcp.put c ((s.tcp.socks c).completed seg)).put p
        { s.tcp.socks p with backlog := (s.tcp.socks p).backlog ++ [c] } :=
      inputSynReceived_parent hparent hne hroom
    have hbacklog (l : SockId) : (tcp.socks l).backlog =
        if l = p then (s.tcp.socks p).backlog ++ [c] else (s.tcp.socks l).backlog := by
      rw [htcp, hput]
      split_ifs with hl
      · rw [hl, Tcp.put_self]
      · rw [Tcp.put_other _ _ hl]
        by_cases hlc : l = c
        · rw [hlc, Tcp.put_self]
          rfl
        · rw [Tcp.put_other _ _ hlc]
    have hopened : s.opened { s with tcp } = [] := SockDesk.opened_none fun i hi => by
      by_cases hic : i = c
      · exact hic ▸ (hs.table.child_used c p hparent).1
      · by_cases hip : i = p
        · exact hip ▸ (TcpSock.listensOn_iff.mp (ho.listens c p hparent)).1
        · dsimp only at hi
          rwa [htcp, hput, Tcp.put_other _ _ hip, Tcp.put_other _ _ hic] at hi
    have hplaced : (SockEvent.input env src seg).placed s { s with tcp } = [c] := by
      rw [← filter_finRange_eq c]
      refine filter_congr fun j _ => decide_eq_decide.mpr ⟨fun ⟨l, hl⟩ => ?_, fun hj => ?_⟩
      · dsimp only at hl
        rw [hbacklog] at hl
        split_ifs at hl with hlp
        · rw [hlp] at hl
          simpa using (append_cancel_left hl).symm
        · simp at hl
      · refine ⟨p, ?_⟩
        rw [hbacklog, if_pos rfl, hj]
    have hnote : s.note (.input env src seg) { s with tcp } h = h.place [c] := by
      simp [SockDesk.note, hopened, hplaced, SockEvent.returned]
    rw [hnote, htcp]
    exact ho.complete hs.table hstate hparent hnew hroom

lemma Net.Tcp.Orderly.tick : let tcp := (tcpRetransmit env s.tcp).2
    tcp.Orderly (s.note (.tick env) { s with tcp } h) := by
  intro tcp
  have hspec (i : SockId) := (s.tcp.socks i).retransmit_spec env (hs.table.txq_fits i)
  rw [SockDesk.note_eq (SockDesk.opened_none fun i hi => ?_) rfl rfl]
  · refine ho.drop rfl fun i => ?_
    rcases hspec i with ⟨hclear, -, hstate, -, k, hk, -⟩ | ⟨hquiet, -⟩
    · have hcleared : tcp.socks i = TcpSock.cleared := hclear
      rw [hcleared]
      refine .inr ⟨rfl, rfl, fun pc hpc hsock => ?_, fun c hp => ?_⟩
      · have hempty := (hs.table.pending pc hpc).2.2.2
        rw [hsock] at hempty
        omega
      · have hlisten := (TcpSock.listensOn_iff.mp (ho.listens c i hp)).2.1
        simp [hlisten] at hstate
    · exact .inl hquiet
  · rcases hspec i with ⟨hclear, hgives⟩ | ⟨hquiet, -⟩
    · exact hgives.1
    · exact hquiet.used ▸ hi

lemma Net.Tcp.Orderly.step (hsafe : e.Safe s) (horderly : e.Orderly s)
    (hstep : s.step e = some s') : s'.tcp.Orderly (s.note e s' h) := by
  cases e with
  | desk op => exact ho.deskOp hs hsafe horderly hstep
  | socket t env memory =>
    simp only [SockDesk.step, ite_none_right_eq_some] at hstep
    exact ho.sysSocket hs hstep.2
  | bind t fd env addr port =>
    obtain ⟨i, hi, rfl⟩ := map_eq_some_iff.mp hstep
    exact ho.ownCall hs (SockDesk.sock_held hi) (tcpBind_own ..).1
      (fun hlisten => absurd hlisten (horderly i hi)) rfl rfl
  | connect t fd env addr port =>
    obtain ⟨i, hi, rfl⟩ := map_eq_some_iff.mp hstep
    refine ho.ownCall hs (SockDesk.sock_held hi) (tcpConnect_own ..) (fun hlisten => ?_) rfl rfl
    rw [tcpConnect, if_pos (.inr (by simp [hlisten]))]
  | listen t fd env =>
    obtain ⟨l, hl, rfl⟩ := map_eq_some_iff.mp hstep
    exact ho.sysListen hs hl horderly
  | accept t fd memory =>
    obtain ⟨l, hl, haccept⟩ := bind_eq_some_iff.mp hstep
    exact ho.sysAccept hs hl haccept
  | send t fd env data =>
    obtain ⟨i, hi, rfl⟩ := map_eq_some_iff.mp hstep
    refine ho.ownCall hs (SockDesk.sock_held hi) (tcpSendData_own ..) (fun hlisten => ?_) rfl rfl
    simp [tcpSendData, hlisten]
  | recv t fd buflen =>
    obtain ⟨i, hi, rfl⟩ := map_eq_some_iff.mp hstep
    refine ho.ownCall hs (SockDesk.sock_held hi) (tcpRecvData_own ..) (fun hlisten => ?_) rfl rfl
    simp [tcpRecvData, hlisten]
  | input env src seg =>
    obtain rfl := some.inj hstep
    exact ho.input hs hsafe horderly
  | tick env =>
    obtain rfl := some.inj hstep
    exact ho.tick hs

end

/-! ## Runs -/

def noBacklogs : Backlogs := ⟨fun _ => false, fun _ => 0, fun _ => 0⟩

lemma SockDesk.Booted.orderly (hboot : s.Booted) : s.tcp.Orderly noBacklogs := by
  have hnone (i : SockId) : (s.tcp.socks i).parent = none := by
    rw [hboot.socks i]
    rfl
  refine .of_parts (fun c l hp => ?_) (by simp [hboot.pending]) (fun l l' port hl => ?_)
    (fun c _ hpass => ?_) fun c => ⟨Nat.zero_le _, Nat.zero_le _⟩
  · simp [hnone c] at hp
  · simp [hboot.socks l, TcpSock.listensOn, TcpSock.cleared] at hl
  · cases hpass

/-- Each connection is placed and returned at most once, and one that has arrived for an open
listener is in its backlog until it is returned. -/
structure SockDesk.AcceptOnce (s : SockDesk) (h : Backlogs) : Prop where
  once : ∀ c, h.placed c ≤ 1 ∧ h.returned c ≤ 1
  reached : ∀ c l, (s.tcp.socks c).used → h.passive c → h.returned c = 0 →
    (s.tcp.socks c).state.Arrived → (s.tcp.socks l).listensOn (s.tcp.socks c).lport →
    c ∈ (s.tcp.socks l).backlog
  entries : ∀ l, ∀ c ∈ (s.tcp.socks l).backlog,
    (s.tcp.socks l).listensOn (s.tcp.socks c).lport ∧ (s.tcp.socks c).used ∧ h.passive c ∧
      h.returned c = 0
  parents : ∀ c l, (s.tcp.socks c).parent = some l →
    (s.tcp.socks l).listensOn (s.tcp.socks c).lport

theorem accepted_exactly_once {s₀ s : SockDesk} {h : Backlogs} (hboot : s₀.Booted)
    (hreach : Reaches SockDesk.step SockDesk.note (fun s e => e.Safe s ∧ e.Orderly s)
      s₀ noBacklogs s h) : s.AcceptOnce h := by
  obtain ⟨hs, ho⟩ : s.Owners ∧ s.tcp.Orderly h :=
    hreach.invariant (fun s h => s.Owners ∧ s.tcp.Orderly h) ⟨hboot.owners, hboot.orderly⟩
      fun _ _ _ _ ⟨hs, ho⟩ ⟨hsafe, horderly⟩ hstep =>
        ⟨hs.step hsafe hstep, ho.step hs hsafe horderly hstep⟩
  refine ⟨ho.once, fun c l hused hpass hret harrived hl => ?_, fun l c hc => ?_, ho.listens⟩
  · rcases ho.unaccepted c hused hpass hret with ⟨p, hp⟩ | ⟨pc, hpc, rfl⟩
    · -- there is one listener on the port, and that is the parent
      rw [ho.unique l p _ hl (ho.listens c p hp)]
      exact ho.arrived c p hp harrived
    · simp [(ho.unlistened pc hpc).2 l] at hl
  · have hparent := hs.table.entry l c hc
    obtain ⟨hpassive, hreturned, -⟩ := ho.child c l hparent
    exact ⟨ho.listens c l hparent, hs.table.entry_used hc, hpassive, hreturned⟩

/-! ### One client -/

abbrev clientSyn : SockEvent := .input quietEnv 1#32 ⟨9#16, 80#16, 0x02#8, 5#32, 0#32, []⟩

abbrev clientAck : SockEvent := .input quietEnv 1#32 ⟨9#16, 80#16, 0x10#8, 6#32, 1#32, []⟩

theorem one_client_accepted : ∃ s h,
    run SockDesk.step SockDesk.note [.desk (.create 0), .socket 0 quietEnv true,
      .bind 0 0#64 quietEnv 0#32 80#16, .listen 0 0#64 quietEnv, clientSyn, clientAck]
      bootSockets noBacklogs = some (s, h) ∧
      (s.tcp.socks 0).backlog = [1] ∧ h.placed 1 = 1 ∧ s.AcceptOnce h := by
  have hstart : Reaches SockDesk.step SockDesk.note (fun s e => e.Safe s ∧ e.Orderly s)
      bootSockets noBacklogs bootSockets noBacklogs := .start
  have hcreate := hstart.next (.desk (.create 0)) ⟨⟨trivial, trivial⟩, fun d' i c hd' hgone => by
    cases hd'
    revert i c
    decide +kernel⟩ rfl
  have hsocket := hcreate.next (.socket 0 quietEnv true) ⟨trivial, trivial⟩ rfl
  have hbind := hsocket.next (.bind 0 0#64 quietEnv 0#32 80#16) ⟨trivial, fun i hi => by
    cases hi
    decide +kernel⟩ rfl
  have hlisten := hbind.next (.listen 0 0#64 quietEnv) ⟨trivial, fun l hl => by
    cases hl
    decide +kernel⟩ rfl
  have hsyn := hlisten.next clientSyn ⟨by decide +kernel, by decide +kernel⟩ rfl
  have hack := hsyn.next clientAck ⟨by decide +kernel, by decide +kernel⟩ rfl
  exact ⟨_, _, rfl, by decide +kernel, by decide +kernel,
    accepted_exactly_once bootSockets_booted hack⟩

/-- The client connects before the task listens, and its child is put into the backlog by
`listen` and once more by the end of the handshake. -/
theorem early_client_placed_twice : ∃ s h,
    Reaches SockDesk.step SockDesk.note (fun _ _ => True) bootSockets noBacklogs s h ∧
      (s.tcp.socks 1).backlog = [0, 0] ∧ h.placed 0 = 2 :=
  ⟨_, _, Reaches.start.run [.desk (.create 0), clientSyn, .socket 0 quietEnv true,
    .bind 0 0#64 quietEnv 0#32 80#16, .listen 0 0#64 quietEnv, clientAck]
    (fun _ _ _ => trivial) rfl,
    by decide +kernel, by decide +kernel⟩

end HelixOS
