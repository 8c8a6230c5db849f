import HelixOS.TcpAdoption

/-!
# How the TCP table changes

What each function of `tcp.c` does to the sockets as far as they refer to each other:
which slots are in use, the parents of connections that wait for `accept`, the backlogs
and the table of pending children.
-/

namespace HelixOS.Net

open ByteOrder Option List

variable {n : ℕ} {port : BitVec 16} {env : NetEnv} {t : Tcp} {s s' : TcpSock} {i j l c : SockId}
  {seg : Segment} {src : BitVec 32}

/-! ## Quiet changes -/

structure TcpSock.Quiet (s s' : TcpSock) : Prop where
  used : s'.used = s.used
  parent : s'.parent = s.parent
  backlog : s'.backlog = s.backlog
  lport : s'.lport = s.lport
  bound : s'.bound = s.bound
  state : s'.state = s.state ∨ s.state = .synSent ∧ s'.state = .established ∨
    s.state = .established ∧ s'.state = .closeWait ∨
    s.state = .synReceived ∧ s.parent = none ∧ s'.state = .established
  txq : s'.txq.count ≤ s.txq.count

lemma TcpSock.Quiet.refl (s : TcpSock) : s.Quiet s :=
  ⟨rfl, rfl, rfl, rfl, rfl, .inl rfl, le_rfl⟩

structure Tcp.Quiet (t t' : Tcp) : Prop where
  socks : ∀ i, (t.socks i).Quiet (t'.socks i)
  pending : t'.pending.map PendingChild.sock = t.pending.map PendingChild.sock

lemma Tcp.Quiet.refl (t : Tcp) : t.Quiet t := ⟨fun _ => .refl _, rfl⟩

lemma Tcp.Quiet.put (h : (t.socks i).Quiet s) : t.Quiet (t.put i s) where
  socks j := by
    by_cases hj : j = i
    · subst hj
      rwa [Tcp.put_self]
    · rw [Tcp.put_other _ _ hj]
      exact .refl _
  pending := rfl

lemma drainTx_count_le (una : BitVec 32) (n) (q : RingBuffer TxSeg 16) :
    (drainTx una n q).count ≤ q.count := by
  induction n generalizing q with
  | zero => exact le_rfl
  | succ n ih =>
    simp only [drainTx]
    split_ifs
    · exact (ih q.pop).trans (Nat.sub_le _ _)
    · exact le_rfl
    · exact le_rfl

lemma TcpSock.onEstablished_quiet (seg) (hstate : s.state = .established) :
    s.Quiet (s.onEstablished seg) := by
  have hends : (s.onEstablished seg).parent = s.parent ∧
      (s.onEstablished seg).backlog = s.backlog ∧ (s.onEstablished seg).bound = s.bound := by
    unfold TcpSock.onEstablished TcpSock.onData
    dsimp only
    split_ifs <;> exact ⟨rfl, rfl, rfl⟩
  have htxq : (s.onEstablished seg).txq.count ≤ s.txq.count := by
    unfold TcpSock.onEstablished TcpSock.onData
    dsimp only
    split_ifs
    all_goals first | exact drainTx_count_le _ _ _ | exact le_rfl
  have hsame := s.onEstablished_ends seg
  refine ⟨hsame.used, hends.1, hends.2.1, hsame.lport, hends.2.2, ?_, htxq⟩
  rw [TcpSock.onEstablished_state]
  split_ifs
  · exact .inr (.inr (.inl ⟨hstate, rfl⟩))
  · exact .inl rfl

lemma map_modifyFirst {α β : Type*} (p : α → Bool) (f : α → α) (g : α → β)
    (hg : ∀ a, g (f a) = g a) (as : List α) : (modifyFirst p f as).map g = as.map g := by
  induction as with
  | nil => rfl
  | cons a as ih =>
    simp only [modifyFirst]
    split_ifs
    · simp [hg]
    · simp [ih]

lemma PendingChild.keep_sock (pc : PendingChild) (payload : List Byte) :
    (pc.keep payload).sock = pc.sock := by
  unfold PendingChild.keep
  split_ifs <;> rfl

lemma PendingChild.input_sock (pc : PendingChild) (seg : Segment) :
    (pc.input seg).sock = pc.sock := by
  unfold PendingChild.input
  rw [PendingChild.keep_sock]
  split_ifs <;> rfl

/-! ## Allocation -/

lemma tcpAllocConn_cases (env) (t) : (tcpAllocConn env t = (none, t) ∧ ∀ i, (t.socks i).used) ∨
      ∃ i, (t.socks i).used = false ∧ tcpAllocConn env t = (some i, t.put i (freshSock env i)) := by
  unfold tcpAllocConn
  cases hfind : (finRange 8).find? (fun i => !(t.socks i).used) with
  | none =>
    refine .inl ⟨rfl, fun i => ?_⟩
    simpa using find?_eq_none.mp hfind i (mem_finRange i)
  | some i => exact .inr ⟨i, by simpa using find?_some hfind, rfl⟩

/-! ## Incoming segments -/

lemma findSocket_some (h : findSocket t src seg = some i) :
    (t.socks i).used ∧ ((t.socks i).state = .listen → (t.socks i).listensOn seg.dport) := by
  rcases or_eq_some_iff.mp h with hpeer | ⟨-, hlisten⟩
  · have hp := find?_some hpeer
    simp only [TcpSock.isPeerOf, Bool.and_eq_true, decide_eq_true_eq] at hp
    exact ⟨hp.1.1.1.1.1, fun hstate => absurd hstate hp.1.1.1.1.2⟩
  · have hl := (mem_filter.mp (mem_of_getLast? hlisten)).2
    have hused : (t.socks i).used = true := by
      simp only [TcpSock.listensOn, Bool.and_eq_true] at hl
      exact hl.1.1.1
    exact ⟨hused, fun _ => hl⟩

lemma findSocket_none (h : findSocket t src seg = none) (l) :
    (t.socks l).listensOn seg.dport = false := by
  unfold findSocket at h
  rw [or_eq_none_iff, getLast?_eq_none_iff, filter_eq_nil_iff] at h
  simpa using h.2 l (mem_finRange l)

def Tcp.waiting (t : Tcp) (c : SockId) (s : TcpSock) : Tcp :=
  { t.put c s with pending := t.pending ++ [⟨c, false, 0#32, []⟩] }

lemma inputPending_cases (env : NetEnv) (t : Tcp) (src : BitVec 32) (seg : Segment) :
    t.Quiet (inputPending env t src seg).2 ∨
      ∃ c, (t.socks c).used = false ∧ t.pending.length < 4 ∧
        (inputPending env t src seg).2 =
          t.waiting c (childSock env c env.localIp false none src seg) := by
  unfold inputPending
  split_ifs with hany hsyn
  · exact .inl ⟨fun _ => .refl _, map_modifyFirst _ _ _ (fun pc => pc.input_sock seg) _⟩
  · rcases tcpAllocConn_cases env t with ⟨halloc, -⟩ | ⟨c, hfree, halloc⟩
    · rw [halloc]
      exact .inl (.refl t)
    · rw [halloc]
      exact .inr ⟨c, hfree, hsyn.2, by simp [Tcp.waiting]⟩
  · exact .inl (.refl t)

lemma inputListen_cases (env) (t) (l) (src) (seg) : (inputListen env t l src seg).2 = t ∨
      ∃ c laddr, (t.socks c).used = false ∧
        (inputListen env t l src seg).2 =
          t.put c (childSock env c laddr true (some l) src seg) := by
  unfold inputListen
  split_ifs
  · exact .inl rfl
  · rcases tcpAllocConn_cases env t with ⟨halloc, -⟩ | ⟨c, hfree, halloc⟩
    · rw [halloc]
      exact .inl rfl
    · rw [halloc]
      exact .inr ⟨c, _, hfree, by simp; rfl⟩

lemma inputSynReceived_orphan (hstate : (t.socks c).state = .synReceived)
    (hparent : (t.socks c).parent = none) : t.Quiet (inputSynReceived t c seg) := by
  rw [inputSynReceived_eq, hparent]
  have hput : t.Quiet (t.put c ((t.socks c).completed seg)) :=
    .put ⟨rfl, rfl, rfl, rfl, rfl, .inr (.inr (.inr ⟨hstate, hparent, rfl⟩)), le_rfl⟩
  exact ⟨hput.socks, map_modifyFirst _ _ _ (fun pc => by rw [PendingChild.keep_sock]) _⟩

/-- A segment leaves the references alone, makes a child with or without a listener, or ends the
handshake of a child. -/
theorem tcpInput_cases (env : NetEnv) (t : Tcp) (src : BitVec 32) (seg : Segment)
    (hfin : ∀ i, (t.socks i).state ≠ .finWait1 ∧ (t.socks i).state ≠ .finWait2) :
    t.Quiet (tcpInput env t src seg).2 ∨
      (∃ c, (t.socks c).used = false ∧ t.pending.length < 4 ∧
        (∀ l, (t.socks l).listensOn seg.dport = false) ∧
        (tcpInput env t src seg).2 =
          t.waiting c (childSock env c env.localIp false none src seg)) ∨
      (∃ l c laddr, (t.socks c).used = false ∧ (t.socks l).listensOn seg.dport ∧
        (tcpInput env t src seg).2 =
          t.put c (childSock env c laddr true (some l) src seg)) ∨
      ∃ c p, findSocket t src seg = some c ∧ hasFlag seg.flags flagAck ∧
        (t.socks c).state = .synReceived ∧ (t.socks c).parent = some p ∧
        (tcpInput env t src seg).2 = inputSynReceived t c seg := by
  by_cases hready : env.ready
  swap
  · rw [tcpInput, if_pos (by simpa using hready)]
    exact .inl (.refl t)
  rw [tcpInput, if_neg (by simp [hready])]
  cases hfind : findSocket t src seg with
  | none =>
    rcases inputPending_cases env t src seg with hquiet | ⟨c, hfree, hroom, heq⟩
    · exact .inl hquiet
    · exact .inr (.inl ⟨c, hfree, hroom, findSocket_none hfind, heq⟩)
  | some i =>
    obtain ⟨-, hlistens⟩ := findSocket_some hfind
    dsimp only
    cases hstate : (t.socks i).state with
    | listen =>
      dsimp only
      split_ifs
      · rcases inputListen_cases env t i src seg with heq | ⟨c, laddr, hfree, heq⟩
        · rw [heq]
          exact .inl (.refl t)
        · exact .inr (.inr (.inl ⟨i, c, laddr, hfree, hlistens hstate, heq⟩))
      · exact .inl (.refl t)
    | synReceived =>
      dsimp only
      split_ifs with hack
      · cases hparent : (t.socks i).parent with
        | none => exact .inl (inputSynReceived_orphan hstate hparent)
        | some p => exact .inr (.inr (.inr ⟨i, p, rfl, hack, hstate, hparent, rfl⟩))
      · exact .inl (.refl t)
    | synSent =>
      dsimp only
      split_ifs
      · exact .inl (.put ⟨rfl, rfl, rfl, rfl, rfl, .inr (.inl ⟨hstate, rfl⟩), le_rfl⟩)
      · exact .inl (.refl t)
    | established => exact .inl (.put (TcpSock.onEstablished_quiet seg hstate))
    | finWait1 => exact absurd hstate (hfin i).1
    | finWait2 => exact absurd hstate (hfin i).2
    | closed | closeWait | lastAck | timeWait => exact .inl (.refl t)

/-! ## `listen` -/

def Tcp.listenPort (t : Tcp) (l : SockId) (port : BitVec 16) : BitVec 16 :=
  if (t.socks l).bound then (t.socks l).lport
  else if port = 0#16 then swap16 t.ephemeral else port

def Tcp.waitingOn (t : Tcp) (port : BitVec 16) : List PendingChild :=
  t.pending.filter fun pc => (t.socks pc.sock).lport = port

/-- The table after `listen`: the waiting children of the port are in the backlog of the
listener, and no longer pending. -/
structure Tcp.Listening (t : Tcp) (l : SockId) (port : BitVec 16) (t' : Tcp) : Prop where
  used : (t'.socks l).used = (t.socks l).used
  parent : (t'.socks l).parent = (t.socks l).parent
  state : (t'.socks l).state = .listen
  bound : (t'.socks l).bound
  lport : (t'.socks l).lport = port
  txq : (t'.socks l).txq = (t.socks l).txq
  backlog : (t'.socks l).backlog = (t.waitingOn port).map PendingChild.sock
  adopted : ∀ pc ∈ t.waitingOn port, t'.socks pc.sock = (t.socks pc.sock).adopted l pc
  others : ∀ j, j ≠ l → (∀ pc ∈ t.waitingOn port, pc.sock ≠ j) → t'.socks j = t.socks j
  pending : t'.pending = t.pending.filter fun pc => (t.socks pc.sock).lport ≠ port

/-- The loop of `tcp_listen` over the pending children, as long as the backlog has room for
all of them. -/
theorem foldl_adopt (ps : List PendingChild) (t) (hnodup : (ps.map PendingChild.sock).Nodup)
    (hself : ∀ pc ∈ ps, pc.sock ≠ l) (hfits : (t.socks l).backlog.length + ps.length ≤ 4) :
    let mine := ps.filter fun pc => (t.socks pc.sock).lport = (t.socks l).lport
    let t' := ps.foldl (adopt l) t
    t'.pending = t.pending ∧
      t'.socks l = { t.socks l with
        backlog := (t.socks l).backlog ++ mine.map PendingChild.sock } ∧
      (∀ pc ∈ mine, t'.socks pc.sock = (t.socks pc.sock).adopted l pc) ∧
      ∀ j, j ≠ l → (∀ pc ∈ mine, pc.sock ≠ j) → t'.socks j = t.socks j := by
  induction ps generalizing t with
  | nil => simp
  | cons pc ps ih =>
    rw [map_cons, nodup_cons] at hnodup
    have hne : pc.sock ≠ l := hself pc (by simp)
    have hrest : ∀ pc' ∈ ps, pc'.sock ≠ pc.sock := fun pc' hpc' heq =>
      hnodup.1 (heq ▸ mem_map_of_mem hpc')
    simp only [length_cons] at hfits
    by_cases hport : (t.socks pc.sock).lport = (t.socks l).lport
    · -- the child joins the backlog; the ports stay as they are
      have hround : adopt l t pc = (t.put pc.sock ((t.socks pc.sock).adopted l pc)).put l
          { t.socks l with backlog := (t.socks l).backlog ++ [pc.sock] } := by
        rw [adopt, if_pos ⟨hport, by omega⟩]
        dsimp only
        rw [Tcp.put_other _ _ hne.symm]
      have hl : (adopt l t pc).socks l =
          { t.socks l with backlog := (t.socks l).backlog ++ [pc.sock] } := by
        rw [hround, Tcp.put_self]
      have hc : (adopt l t pc).socks pc.sock = (t.socks pc.sock).adopted l pc := by
        rw [hround, Tcp.put_other _ _ hne, Tcp.put_self]
      have hother (j : SockId) (hjl : j ≠ l) (hjc : j ≠ pc.sock) :
          (adopt l t pc).socks j = t.socks j := by
        rw [hround, Tcp.put_other _ _ hjl, Tcp.put_other _ _ hjc]
      have hmine : (ps.filter fun pc' => ((adopt l t pc).socks pc'.sock).lport =
          ((adopt l t pc).socks l).lport) =
          ps.filter fun pc' => (t.socks pc'.sock).lport = (t.socks l).lport := by
        refine filter_congr fun pc' hpc' => ?_
        rw [hl, hother pc'.sock (hself pc' (mem_cons_of_mem _ hpc')) (hrest pc' hpc')]
      obtain ⟨hpend, hlist, hadopted, hothers⟩ := ih (adopt l t pc) hnodup.2
        (fun pc' hpc' => hself pc' (mem_cons_of_mem _ hpc'))
        (by rw [hl, length_append]; simpa [add_assoc, add_comm 1] using hfits)
      rw [hmine] at hlist hadopted hothers
      rw [foldl_cons, filter_cons_of_pos (by simpa using hport)]
      refine ⟨hpend.trans (by rw [hround]; rfl), ?_, ?_, fun j hjl hj => ?_⟩
      · rw [hlist, hl]
        simp
      · intro pc' hpc'
        rcases mem_cons.mp hpc' with rfl | hmem
        · rw [hothers pc'.sock hne fun pc'' h => hrest pc'' (mem_filter.mp h).1, hc]
        · have hin := (mem_filter.mp hmem).1
          rw [hadopted pc' hmem, hother pc'.sock (hself pc' (mem_cons_of_mem _ hin))
            (hrest pc' hin)]
      · rw [hothers j hjl fun pc' h => hj pc' (mem_cons_of_mem _ h),
          hother j hjl (hj pc (by simp)).symm]
    · have hround : adopt l t pc = t := if_neg fun h => hport h.1
      rw [foldl_cons, hround, filter_cons_of_neg (by simpa using hport)]
      exact ih t hnodup.2 (fun pc' hpc' => hself pc' (mem_cons_of_mem _ hpc')) (by omega)

def TcpSock.opening (s : TcpSock) (laddr : BitVec 32) (port : BitVec 16) : TcpSock :=
  { s with laddr, lport := port, bound := true, state := .listen, backlog := [] }

lemma tcpListen_eq (env) (port) (hused : (t.socks l).used) :
    ∃ laddr ephemeral,
      let t₀ := { t with ephemeral }.put l ((t.socks l).opening laddr (t.listenPort l port))
      (tcpListen env t l port).2 = { t.pending.foldl (adopt l) t₀ with
        pending := (t.pending.foldl (adopt l) t₀).pending.filter fun pc =>
          ((t.pending.foldl (adopt l) t₀).socks pc.sock).lport ≠
            ((t.pending.foldl (adopt l) t₀).socks l).lport } := by
  rw [tcpListen, if_neg (by simp [hused])]
  by_cases hbound : (t.socks l).bound
  · refine ⟨(t.socks l).laddr, t.ephemeral, ?_⟩
    have hstart : t.put l ((t.socks l).opening (t.socks l).laddr (t.listenPort l port)) =
        t.put l { t.socks l with state := .listen, backlog := [] } := by
      rw [TcpSock.opening, Tcp.listenPort, if_pos hbound, ← hbound]
    simp only [if_pos hbound, hstart]
    rfl
  · by_cases hport : port = 0#16
    · refine ⟨env.localIp, t.ephemeral + 1#16, ?_⟩
      simp only [if_neg hbound, if_pos hport, Tcp.listenPort, Tcp.put_self, Tcp.put_put]
      rfl
    · refine ⟨env.localIp, t.ephemeral, ?_⟩
      simp only [if_neg hbound, if_neg hport, Tcp.listenPort, Tcp.put_self, Tcp.put_put]
      rfl

lemma tcpListen_listening (env) (port) (hused : (t.socks l).used)
    (hnodup : (t.pending.map PendingChild.sock).Nodup) (hself : ∀ pc ∈ t.pending, pc.sock ≠ l)
    (hfits : t.pending.length ≤ 4) :
    t.Listening l (t.listenPort l port) (tcpListen env t l port).2 := by
  obtain ⟨laddr, ephemeral, heq⟩ := tcpListen_eq env port hused
  generalize hport : t.listenPort l port = lp at heq ⊢
  dsimp only at heq
  generalize hstart : { t with ephemeral }.put l ((t.socks l).opening laddr lp) = t₀ at heq
  have hl : t₀.socks l = (t.socks l).opening laddr lp := by rw [← hstart, Tcp.put_self]
  have hother (j : SockId) (hj : j ≠ l) : t₀.socks j = t.socks j := by
    rw [← hstart, Tcp.put_other _ _ hj]
  have hpend₀ : t₀.pending = t.pending := by rw [← hstart]; rfl
  have hmine : (t.pending.filter fun pc => (t₀.socks pc.sock).lport = (t₀.socks l).lport) =
      t.waitingOn lp :=
    filter_congr fun pc hpc => by rw [hl, hother _ (hself pc hpc)]; rfl
  obtain ⟨hpend, hlist, hadopted, hothers⟩ := foldl_adopt t.pending t₀ hnodup hself
    (by rw [hl]; simpa [TcpSock.opening] using hfits)
  rw [hmine] at hlist hadopted hothers
  generalize t.pending.foldl (adopt l) t₀ = t₁ at heq hpend hlist hadopted hothers
  have hself' : ∀ pc ∈ t.waitingOn lp, pc.sock ≠ l := fun pc hpc =>
    hself pc (mem_filter.mp hpc).1
  rw [hl] at hlist
  have hfield {α : Type} (field : TcpSock → α) : field (t₁.socks l) = _ := congrArg field hlist
  rw [heq]
  refine ⟨hfield (·.used), hfield (·.parent), hfield (·.state), hfield (·.bound), hfield (·.lport),
    hfield (·.txq), hfield (·.backlog), fun pc hpc => ?_, fun j hj hfree => ?_, ?_⟩
  · exact (hadopted pc hpc).trans (by rw [hother _ (hself' pc hpc)])
  · exact (hothers j hj hfree).trans (hother j hj)
  · -- adoption does not change a port
    rw [hpend, hpend₀]
    refine filter_congr fun pc hpc => ?_
    have hlport : (t₁.socks pc.sock).lport = (t.socks pc.sock).lport := by
      by_cases hmem : ∃ pc' ∈ t.waitingOn lp, pc'.sock = pc.sock
      · obtain ⟨pc', hpc', hsock⟩ := hmem
        rw [← hsock, hadopted pc' hpc', (TcpSock.adopted_ends _ l pc').lport,
          hother _ (hself' pc' hpc')]
      · rw [hothers pc.sock (hself pc hpc) fun pc' hpc' hsock => hmem ⟨pc', hpc', hsock⟩,
          hother _ (hself pc hpc)]
    have hlp : (t₁.socks l).lport = lp := congrArg TcpSock.lport hlist
    rw [hlport, hlp]

lemma TcpSock.adopted_fields (s : TcpSock) (l : SockId) (pc : PendingChild) :
    (s.adopted l pc).parent = some l ∧ (s.adopted l pc).backlog = s.backlog ∧
      (s.adopted l pc).bound = s.bound ∧ (s.adopted l pc).txq = s.txq ∧
      (s.adopted l pc).state = if pc.hasAck then .established else s.state := by
  unfold TcpSock.adopted TcpSock.takeEarly
  dsimp only
  split_ifs <;> exact ⟨rfl, rfl, rfl, rfl, rfl⟩

/-! ## Calls on one socket -/

/-- `bind`, `connect`, `send` and `recv` change one socket only, and not its place in the
table. -/
structure Tcp.Own (t : Tcp) (i : SockId) (t' : Tcp) : Prop where
  others : ∀ j, j ≠ i → t'.socks j = t.socks j
  pending : t'.pending = t.pending
  used : (t'.socks i).used = (t.socks i).used
  parent : (t'.socks i).parent = (t.socks i).parent
  backlog : (t'.socks i).backlog = (t.socks i).backlog
  state : (t'.socks i).state = (t.socks i).state ∨
    (t.socks i).state = .closed ∧ (t'.socks i).state = .synSent
  txq : (t.socks i).txq.count ≤ 16 → (t'.socks i).txq.count ≤ 16

lemma Tcp.Own.refl (t : Tcp) (i : SockId) (ephemeral : BitVec 16) :
    t.Own i { t with ephemeral } :=
  ⟨fun _ _ => rfl, rfl, rfl, rfl, rfl, .inl rfl, id⟩

lemma Tcp.Own.trans {t₁ t₂ : Tcp} (h : t.Own i t₁) (h' : t₁.Own i t₂) : t.Own i t₂ where
  others j hj := (h'.others j hj).trans (h.others j hj)
  pending := h'.pending.trans h.pending
  used := h'.used.trans h.used
  parent := h'.parent.trans h.parent
  backlog := h'.backlog.trans h.backlog
  state := by
    rcases h'.state with hsame | ⟨hclosed, hsent⟩
    · rw [hsame]
      exact h.state
    · rcases h.state with hsame | ⟨-, hsent'⟩
      · exact .inr ⟨hsame ▸ hclosed, hsent⟩
      · rw [hsent'] at hclosed
        cases hclosed
  txq hfits := h'.txq (h.txq hfits)

lemma Tcp.Own.put (hused : s.used = (t.socks i).used) (hparent : s.parent = (t.socks i).parent)
    (hbacklog : s.backlog = (t.socks i).backlog)
    (hstate : s.state = (t.socks i).state ∨ (t.socks i).state = .closed ∧ s.state = .synSent)
    (htxq : (t.socks i).txq.count ≤ 16 → s.txq.count ≤ 16) : t.Own i (t.put i s) := by
  refine ⟨fun j hj => Tcp.put_other _ _ hj, rfl, ?_, ?_, ?_, ?_, ?_⟩
  all_goals rwa [Tcp.put_self]

lemma tcpBind_cases (env) (t) (i) (addr : BitVec 32)
    (port) : ∃ ephemeral, (tcpBind env t i addr port).2 = { t with ephemeral } ∨
      ∃ laddr lport, (tcpBind env t i addr port).2 =
        { t with ephemeral }.put i { t.socks i with laddr, lport, bound := true } := by
  by_cases hused : (t.socks i).used
  swap
  · exact ⟨t.ephemeral, .inl (by rw [tcpBind, if_pos (by simpa using hused)])⟩
  rw [tcpBind, if_neg (by simp [hused])]
  generalize hpick : (if port = 0#16 then _ else (port, t)) = pick
  have hsame : ∃ ephemeral, pick.2 = { t with ephemeral } := by
    rw [← hpick]
    split_ifs
    all_goals exact ⟨_, rfl⟩
  obtain ⟨port', t'⟩ := pick
  obtain ⟨ephemeral, rfl⟩ := hsame
  dsimp only
  split_ifs
  · exact ⟨ephemeral, .inl rfl⟩
  · exact ⟨ephemeral, .inr ⟨_, _, rfl⟩⟩
  · exact ⟨ephemeral, .inr ⟨_, _, rfl⟩⟩

lemma tcpBind_own (env : NetEnv) (t : Tcp) (i : SockId) (addr : BitVec 32) (port : BitVec 16) :
    t.Own i (tcpBind env t i addr port).2 ∧
      ((tcpBind env t i addr port).2.socks i).state = (t.socks i).state := by
  obtain ⟨ephemeral, heq | ⟨laddr, lport, heq⟩⟩ := tcpBind_cases env t i addr port
  · rw [heq]
    exact ⟨.refl t i ephemeral, rfl⟩
  · rw [heq]
    exact ⟨(Tcp.Own.refl t i ephemeral).trans (.put rfl rfl rfl (.inl rfl) id), by
      rw [Tcp.put_self]⟩

lemma tcpConnect_own (env : NetEnv) (t : Tcp) (i : SockId) (raddr : BitVec 32)
    (rport : BitVec 16) : t.Own i (tcpConnect env t i raddr rport).2 := by
  by_cases hstate : !(t.socks i).used ∨ (t.socks i).state ≠ .closed
  · rw [tcpConnect, if_pos hstate]
    exact .refl t i t.ephemeral
  · have hclosed : (t.socks i).state = .closed := by
      by_contra hne
      exact hstate (.inr hne)
    obtain ⟨hbind, hsame⟩ := tcpBind_own env t i 0#32 0#16
    rw [tcpConnect, if_neg hstate]
    split_ifs
    · exact .put rfl rfl rfl (.inr ⟨hclosed, rfl⟩) id
    · exact hbind.trans (.put rfl rfl rfl (.inr ⟨hsame.trans hclosed, rfl⟩) id)

lemma tcpSendData_own (env : NetEnv) (t : Tcp) (i : SockId) (data : List Byte) :
    t.Own i (tcpSendData env t i data).2 := by
  unfold tcpSendData
  dsimp only
  split_ifs
  · exact .refl t i t.ephemeral
  · exact .refl t i t.ephemeral
  · exact .put rfl rfl rfl (.inl rfl) fun _ => by simpa [RingBuffer.push] using by omega
  · exact .put rfl rfl rfl (.inl rfl) id

lemma tcpRecvData_own (t : Tcp) (i : SockId) (buflen : ℕ) :
    t.Own i (tcpRecvData t i buflen).2 := by
  unfold tcpRecvData
  dsimp only
  split_ifs
  · exact .refl t i t.ephemeral
  · exact .refl t i t.ephemeral
  · exact .put rfl rfl rfl (.inl rfl) id

/-! ## The timer -/

/-- A queued segment of the socket is due and has been sent too often. -/
def TcpSock.GivesUp (s : TcpSock) (env : NetEnv) : Prop :=
  s.used ∧ (s.state = .established ∨ s.state = .finWait1) ∧
    retransTimeoutTicks ≤ env.now - s.lastSendTick ∧
    ∃ k < s.txq.count, retransMaxRetries < ((s.txq.buf (s.txq.cell k)).retries + 1#8).toNat

lemma resendFrom_none (n k : ℕ) (s) (hn : k + n ≤ 16)
    (h : (resendFrom env n k s).2 = none) : ∃ j, k ≤ j ∧ j < k + n ∧
      retransMaxRetries < ((s.txq.buf (s.txq.cell j)).retries + 1#8).toNat := by
  induction n generalizing k s with
  | zero => cases h
  | succ n ih =>
    simp only [resendFrom] at h
    split_ifs at h with hmany
    · exact ⟨k, le_rfl, by omega, hmany⟩
    · obtain ⟨j, hkj, hj, hretries⟩ := ih _ _ (by omega) h
      -- the cells of the rest have not been touched
      have hne : s.txq.cell j ≠ s.txq.cell k :=
        (RingBuffer.cell_ne (show k < j by omega) (by omega)).symm
      refine ⟨j, by omega, by omega, ?_⟩
      have hcell : (Function.update s.txq.buf (s.txq.cell k) { s.txq.buf (s.txq.cell k) with
            retries := (s.txq.buf (s.txq.cell k)).retries + 1#8 }) (s.txq.cell j) =
          s.txq.buf (s.txq.cell j) := Function.update_of_ne hne ..
      rw [← hcell]
      exact hretries

lemma resendFrom_count (n k : ℕ) (s s') (h : (resendFrom env n k s).2 = some s') :
    s'.txq.count = s.txq.count := by
  induction n generalizing k s with
  | zero => rw [← some.inj h]
  | succ n ih =>
    simp only [resendFrom] at h
    split_ifs at h
    rw [ih _ _ h]

lemma TcpSock.retransmit_spec (env : NetEnv) (s : TcpSock) (hfits : s.txq.count ≤ 16) :
    (s.retransmit env).2 = TcpSock.cleared ∧ s.GivesUp env ∨
      s.Quiet (s.retransmit env).2 ∧ (s.retransmit env).2.state = s.state := by
  unfold TcpSock.retransmit
  split_ifs with hused hsyn hwait hidle
  · exact .inr ⟨.refl s, rfl⟩
  · exact .inr ⟨.refl s, rfl⟩
  · exact .inr ⟨⟨rfl, rfl, rfl, rfl, rfl, .inl rfl, le_rfl⟩, rfl⟩
  · exact .inr ⟨.refl s, rfl⟩
  · cases hround : resendFrom env s.txq.count 0 s with
    | mk out left =>
      cases left with
      | none =>
        obtain ⟨j, -, hj, hretries⟩ := @resendFrom_none env s.txq.count 0 s (by omega)
          (by rw [hround])
        simp only [not_or, not_and_or, not_not] at hidle
        exact .inl ⟨rfl, by simpa using hused, hidle.1, BitVec.not_lt.mp hidle.2.2, j,
          by omega, hretries⟩
      | some s' =>
        have hcount := resendFrom_count s.txq.count 0 s s' (by rw [hround])
        obtain ⟨q, rfl⟩ := resendFrom_left s.txq.count 0 s s' (by rw [hround])
        exact .inr ⟨⟨rfl, rfl, rfl, rfl, rfl, .inl rfl, hcount.le⟩, rfl⟩

end HelixOS.Net
