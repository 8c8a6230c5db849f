import HelixOS.FileCounts
import HelixOS.TcpOwners

/-!
# TCP sockets behind descriptors

The descriptor tables of all tasks together with the TCP table.  A file object of a TCP
socket points to its slot; the slot is freed when the last reference of the file goes.
-/

namespace HelixOS

open Relation SlotCounts TrackedRuns Net Function Option

variable {tcp : Tcp} {fds : Descriptors} {files : FileTable}

/-- `net_sock_free` on a TCP socket: the 4180 bytes of a `struct helix_sock` reach into the third
entry of the receive queue. -/
def Net.TcpSock.netSockFree (s : TcpSock) : TcpSock :=
  { s with
    used := false
    state := .closed
    laddr := 0#32
    lport := 0#16
    bound := false
    raddr := 0#32
    rport := 0#16
    sndUna := 0#32
    sndNxt := 0#32
    rcvNxt := 0#32
    iss := 0#32
    rxq := { s.rxq with buf := fun k => if k < 3 then ⟨0#32, []⟩ else s.rxq.buf k } }

def Net.Tcp.freeing (t : Tcp) (gone : SockId → Bool) (whole : Bool) : Tcp :=
  { t with
    socks := fun i =>
      if gone i then if whole then TcpSock.cleared else (t.socks i).netSockFree else t.socks i }

/-- The descriptors, and the sockets behind them. -/
structure SockDesk where
  desk : Desk
  tcp : Tcp
  /-- `fs_priv` of the files of TCP sockets. -/
  sockOf : ℕ → Option SockId

inductive SockEvent where
  /-- All operations on descriptors but `accept`; a socket that is made here is none of TCP. -/
  | desk (op : DeskOp)
  | socket (t : Slot) (env : NetEnv) (memory : Bool)
  | bind (t : Slot) (fd : Word) (env : NetEnv) (addr : BitVec 32) (port : BitVec 16)
  | connect (t : Slot) (fd : Word) (env : NetEnv) (addr : BitVec 32) (port : BitVec 16)
  | listen (t : Slot) (fd : Word) (env : NetEnv)
  | accept (t : Slot) (fd : Word) (memory : Bool)
  | send (t : Slot) (fd : Word) (env : NetEnv) (data : List (BitVec 8))
  | recv (t : Slot) (fd : Word) (buflen : ℕ)
  | input (env : NetEnv) (src : BitVec 32) (seg : Segment)
  | tick (env : NetEnv)

def SockDesk.sock (s : SockDesk) (t : Slot) (fd : Word) : Option SockId :=
  if s.desk.life t = .alive then ((fdIndex fd).bind (s.desk.fds t)).bind s.sockOf else none

/-- The last reference of a file with this slot goes. -/
def SockDesk.gone (s : SockDesk) (d : Desk) (i : SockId) : Bool :=
  decide (∃ f < s.desk.files.next, s.sockOf f = some i ∧
    (s.desk.files.file f).closed < (d.files.file f).closed)

def SockDesk.withDesk (s : SockDesk) (d : Desk) (whole : Bool) : SockDesk :=
  { s with desk := d, tcp := s.tcp.freeing (s.gone d) whole }

/-- `sys_socket` with the type `SOCK_STREAM`; `memory` is the success of `kmalloc`. -/
def SockDesk.sysSocket (s : SockDesk) (t : Slot) (env : NetEnv) (memory : Bool) :
    Option SockDesk :=
  match tcpAllocConn env s.tcp with
  | (none, tcp) => some { s with tcp }
  | (some i, tcp) =>
    if !memory then some { s with tcp := tcpFree tcp i }
    else
      (s.desk.step (.call t (.socket true))).map fun d =>
        if (HelixOS.sysSocket (s.desk.fds t) s.desk.files true).1.isSome then
          { desk := d, tcp, sockOf := update s.sockOf s.desk.files.next (some i) }
        else { s with desk := d, tcp := tcpFree tcp i }

def SockDesk.sysAccept (s : SockDesk) (t : Slot) (l : SockId) (memory : Bool) : Option SockDesk :=
  match tcpAccept s.tcp l with
  | (none, tcp) => some { s with tcp }
  | (some c, tcp) =>
    if !memory then some { s with tcp }
    else
      (s.desk.step (.call t (.accept true))).map fun d =>
        if (HelixOS.sysAccept (s.desk.fds t) s.desk.files true).1.isSome then
          { desk := d, tcp, sockOf := update s.sockOf s.desk.files.next (some c) }
        else { s with desk := d, tcp }

def SockDesk.step (s : SockDesk) : SockEvent → Option SockDesk
  | .desk (.call _ (.accept _)) => none
  | .desk (.call t call) => (s.desk.step (.call t call)).map (s.withDesk · true)
  | .desk op => (s.desk.step op).map (s.withDesk · false)
  | .socket t env memory => if s.desk.life t = .alive then s.sysSocket t env memory else none
  | .bind t fd env addr port =>
    (s.sock t fd).map fun i => { s with tcp := (tcpBind env s.tcp i addr port).2 }
  | .connect t fd env addr port =>
    (s.sock t fd).map fun i => { s with tcp := (tcpConnect env s.tcp i addr port).2 }
  | .listen t fd env =>
    (s.sock t fd).map fun i =>
      { s with tcp := (tcpListen env s.tcp i (s.tcp.socks i).lport).2 }
  | .accept t fd memory => (s.sock t fd).bind fun l => s.sysAccept t l memory
  | .send t fd env data =>
    (s.sock t fd).map fun i => { s with tcp := (tcpSendData env s.tcp i data).2 }
  | .recv t fd buflen =>
    (s.sock t fd).map fun i => { s with tcp := (tcpRecvData s.tcp i buflen).2 }
  | .input env src seg => some { s with tcp := (tcpInput env s.tcp src seg).2 }
  | .tick env => some { s with tcp := (tcpRetransmit env s.tcp).2 }

def SockDesk.Held (s : SockDesk) (i : SockId) : Prop :=
  ∃ f, s.sockOf f = some i ∧ 0 < s.desk.slots f

/-- The counts are right, the timer gives up no socket with a descriptor, and no child is
confirmed twice. -/
def SockEvent.Safe (s : SockDesk) : SockEvent → Prop
  | .desk op => op.Distinct ∧ op.NoOverflow s.desk
  | .input _ src seg => ∀ c p, findSocket s.tcp src seg = some c →
      Net.hasFlag seg.flags flagAck →
      (s.tcp.socks c).state = .synReceived → (s.tcp.socks c).parent = some p →
      c ∉ (s.tcp.socks p).backlog
  | .tick env => ∀ i, s.Held i → ¬ (s.tcp.socks i).GivesUp env
  | _ => True

instance (env : NetEnv) (src : BitVec 32) (seg : Segment) (s : SockDesk) :
    Decidable ((SockEvent.input env src seg).Safe s) :=
  inferInstanceAs (Decidable (∀ c p, findSocket s.tcp src seg = some c →
    Net.hasFlag seg.flags flagAck → (s.tcp.socks c).state = .synReceived →
    (s.tcp.socks c).parent = some p → c ∉ (s.tcp.socks p).backlog))

/-! ## Slots and files -/

variable {s s' : SockDesk} {d d' : Desk} {t : Slot} {f : ℕ} {i : SockId}

structure SockDesk.Owners (s : SockDesk) : Prop where
  counts : s.desk.Counts Covered
  sockets : ∀ f i, s.sockOf f = some i →
    f < s.desk.files.next ∧ (s.desk.files.file f).kind = .socket
  table : s.tcp.Owned s.Held
  apart : ∀ f g i, s.sockOf f = some i → s.sockOf g = some i → 0 < s.desk.slots f →
    0 < s.desk.slots g → f = g

lemma FileMove.slots_pos {strict : Prop} {v v' : FileView} (h : FileMove strict v v') :
    0 < v.slots := by
  cases h with
  | hold m hheld => exact hheld
  | leak m _ hheld => exact hheld
  | release => exact Nat.succ_pos _
  | replace => exact Nat.succ_pos _
  | overwrite => exact Nat.succ_pos _

lemma DeskMoves.unreferenced {strict : Prop} (h : DeskMoves strict d d') (hf : f < d.files.next)
    (hkind : (d.files.file f).kind ≠ .console) (hzero : d.slots f = 0) :
    d'.slots f = d.slots f ∧ d'.files.file f = d.files.file f := by
  rcases ReflTransGen.cases_head (h.old f hf hkind) with hsame | ⟨v, hmove, -⟩
  · rw [Desk.view, Desk.view, FileView.mk.injEq] at hsame
    exact ⟨hsame.1.symm, hsame.2.symm⟩
  · have hpos : 0 < d.slots f := hmove.slots_pos
    omega

lemma SockDesk.Owners.slots_pos (hs : s.Owners) (h : DeskMoves False s.desk d')
    (hsock : s.sockOf f = some i) (hpos : 0 < d'.slots f) : 0 < s.desk.slots f := by
  obtain ⟨hf, hkind⟩ := hs.sockets f i hsock
  have hconsole : (s.desk.files.file f).kind ≠ .console := by simp [hkind]
  refine Nat.pos_of_ne_zero fun hzero => ?_
  exact hpos.ne' ((h.unreferenced hf hconsole hzero).1.trans hzero)

lemma SockDesk.sock_held {fd : Word} (hsock : s.sock t fd = some i) : s.Held i := by
  unfold SockDesk.sock at hsock
  split_ifs at hsock with halive
  obtain ⟨f, hfd, hf⟩ := bind_eq_some_iff.mp hsock
  obtain ⟨k, -, hk⟩ := bind_eq_some_iff.mp hfd
  refine ⟨f, hf, ?_⟩
  rw [Desk.slots_row halive]
  exact Nat.add_pos_right _ (count_pos hk)

/-! ### Steps -/

lemma Net.TcpSock.netSockFree_dropped {s : TcpSock} (hparent : s.parent = none)
    (hfits : s.txq.count ≤ 16) : s.Dropped s.netSockFree :=
  ⟨hparent, .inr rfl, (by decide : TcpState.closed.Active), hfits⟩

lemma Net.TcpSock.cleared_dropped (s : TcpSock) : s.Dropped TcpSock.cleared :=
  ⟨rfl, .inl rfl, by decide, Nat.zero_le _⟩

lemma SockDesk.Owners.gone_held (hs : s.Owners) (h : DeskMoves False s.desk d')
    (hcounts : d'.Counts Covered) (hgone : s.gone d' i) :
    s.Held i ∧ ∀ g, s.sockOf g = some i → d'.slots g = 0 := by
  simp only [SockDesk.gone, decide_eq_true_eq] at hgone
  obtain ⟨f, hf, hsock, hrose⟩ := hgone
  have hkind : (s.desk.files.file f).kind ≠ .console := by simp [(hs.sockets f i hsock).2]
  have hslots : d'.slots f = 0 := by
    have hcov := hcounts.counted f (hf.trans_le h.next) ((h.kind f hf).trans_ne hkind)
    by_contra hne
    have := hcov.kept (Nat.pos_of_ne_zero hne)
    omega
  have hpos : 0 < s.desk.slots f := by
    refine Nat.pos_of_ne_zero fun hzero => ?_
    rw [(h.unreferenced hf hkind hzero).2] at hrose
    exact lt_irrefl _ hrose
  refine ⟨⟨f, hsock, hpos⟩, fun g hg => Nat.eq_zero_of_not_pos fun hgpos => ?_⟩
  have hfg := hs.apart f g i hsock hg hpos (hs.slots_pos h hg hgpos)
  subst hfg
  exact absurd hslots hgpos.ne'

/-- An operation on the descriptors frees the slots whose last reference goes. -/
theorem SockDesk.Owners.withDesk (hs : s.Owners) (h : DeskMoves False s.desk d')
    (hcounts : d'.Counts Covered) (whole : Bool) : (s.withDesk d' whole).Owners := by
  have hheld (i : SockId) (hi : (s.withDesk d' whole).Held i) : s.Held i := by
    obtain ⟨f, hsock, hpos⟩ := hi
    exact ⟨f, hsock, hs.slots_pos h hsock hpos⟩
  refine ⟨hcounts, fun f i hsock => ?_, ?_, fun f g i hf hg hfpos hgpos => ?_⟩
  · obtain ⟨hf, hsocket⟩ := hs.sockets f i hsock
    exact ⟨hf.trans_le h.next, (h.kind f hf).trans hsocket⟩
  · refine hs.table.drop hheld rfl fun i => ?_
    by_cases hgone : s.gone d' i = true
    · obtain ⟨hi, hlast⟩ := hs.gone_held h hcounts hgone
      have hparent := (hs.table.held_used i hi).2
      refine .inr ⟨?_, fun ⟨g, hg, hgpos⟩ => hgpos.ne' (hlast g hg), hparent,
        fun pc hpc hsock => (hs.table.pending pc hpc).2.2.1 (hsock ▸ hi)⟩
      simp only [SockDesk.withDesk, Tcp.freeing, hgone, if_true]
      split_ifs
      · exact TcpSock.cleared_dropped _
      · exact TcpSock.netSockFree_dropped hparent (hs.table.txq_fits i)
    · have hsame : (s.withDesk d' whole).tcp.socks i = s.tcp.socks i := if_neg hgone
      rw [hsame]
      exact .inl ⟨(TcpSock.Quiet.refl _).same, .inr le_rfl⟩
  · exact hs.apart f g i hf hg (hs.slots_pos h hf hfpos) (hs.slots_pos h hg hgpos)

lemma SockDesk.Owners.deskOp (op : DeskOp) (hs : s.Owners) (hdistinct : op.Distinct)
    (hover : op.NoOverflow s.desk) (hstep : s.desk.step op = some d') :
    DeskMoves False s.desk d' ∧ d'.Counts Covered := by
  have hmoves : DeskMoves False s.desk d' :=
    hs.counts.moves (fun _ _ h => h) hdistinct hover (fun h => h.elim) hstep
  exact ⟨hmoves, hmoves.counts hs.counts (fun _ _ hv h => hv.move h) fun _ h => h.covered⟩

lemma SockDesk.Owners.withTcp (hs : s.Owners) (htable : tcp.Owned s.Held) :
    { s with tcp }.Owners := ⟨hs.counts, hs.sockets, htable, hs.apart⟩

section

variable (hs : s.Owners) (h : DeskMoves False s.desk d') (hcounts : d'.Counts Covered)
  (htable : tcp.Owned s.Held)
include hs h hcounts htable

lemma SockDesk.Owners.moved : { s with desk := d', tcp }.Owners := by
  refine ⟨hcounts, fun f i hsock => ?_, htable.mono fun i hi => ?_, fun f g i hf hg hfpos hgpos =>
    hs.apart f g i hf hg (hs.slots_pos h hf hfpos) (hs.slots_pos h hg hgpos)⟩
  · obtain ⟨hf, hsocket⟩ := hs.sockets f i hsock
    exact ⟨hf.trans_le h.next, (h.kind f hf).trans hsocket⟩
  · obtain ⟨f, hsock, hpos⟩ := hi
    exact ⟨f, hsock, hs.slots_pos h hsock hpos⟩

lemma SockDesk.Owners.install {c : SockId}
    (hnew : s.desk.files.next < d'.files.next ∧ (d'.files.file s.desk.files.next).kind = .socket)
    (hused : (tcp.socks c).used) (hparent : (tcp.socks c).parent = none)
    (hpending : ∀ pc ∈ tcp.pending, pc.sock ≠ c) (hfree : ¬ s.Held c) :
    SockDesk.Owners ⟨d', tcp, update s.sockOf s.desk.files.next (some c)⟩ := by
  -- the file is the new one, or an old one with an old slot
  have hcases (f : ℕ) (i : SockId) (hsock : update s.sockOf s.desk.files.next (some c) f =
      some i) : f = s.desk.files.next ∧ i = c ∨ s.sockOf f = some i := by
    by_cases hf : f = s.desk.files.next
    · rw [hf, update_self, some.injEq] at hsock
      exact .inl ⟨hf, hsock.symm⟩
    · rw [update_of_ne hf] at hsock
      exact .inr hsock
  refine ⟨hcounts, fun f i hsock => ?_, (htable.hold hused hparent hpending).mono fun i hi => ?_,
    fun f g i hf hg hfpos hgpos => ?_⟩
  · rcases hcases f i hsock with ⟨rfl, -⟩ | hold
    · exact hnew
    · obtain ⟨hf, hsocket⟩ := hs.sockets f i hold
      exact ⟨hf.trans_le h.next, (h.kind f hf).trans hsocket⟩
  · obtain ⟨f, hsock, hpos⟩ := hi
    rcases hcases f i hsock with ⟨-, hi⟩ | hold
    · exact .inr hi
    · exact .inl ⟨f, hold, hs.slots_pos h hold hpos⟩
  · rcases hcases f i hf with ⟨hfnew, hic⟩ | hfold
    · rcases hcases g i hg with ⟨hgnew, -⟩ | hgold
      · rw [hfnew, hgnew]
      · exact absurd ⟨g, hic ▸ hgold, hs.slots_pos h hgold hgpos⟩ hfree
    · rcases hcases g i hg with ⟨-, hic⟩ | hgold
      · exact absurd ⟨f, hic ▸ hfold, hs.slots_pos h hfold hfpos⟩ hfree
      · exact hs.apart f g i hfold hgold (hs.slots_pos h hfold hfpos) (hs.slots_pos h hgold hgpos)

end

lemma fdInstall_created {fds' : Descriptors} {files' : FileTable} {kind : FileKind}
    {i : Fin 16}
    (hinstall : fdInstall fds (files.create kind).2 files.next = (some i, fds', files')) :
    files.next < files'.next ∧ (files'.file files.next).kind = kind := by
  rcases fdInstall_cases fds (files.create kind).2 files.next with ⟨heq, -⟩ | ⟨j, -, heq⟩
  · simp [heq] at hinstall
  · simp only [heq, Prod.mk.injEq] at hinstall
    simp [← hinstall.2.2, FileTable.firstRef, FileTable.modify, FileTable.create]

lemma sysSocket_made (hsome : (sysSocket fds files true).1.isSome) :
    files.next < (sysSocket fds files true).2.2.next ∧
      ((sysSocket fds files true).2.2.file files.next).kind = .socket := by
  simp only [sysSocket, Bool.not_true, Bool.false_eq_true, if_false] at hsome ⊢
  split at hsome
  case h_1 hinstall => exact fdInstall_created hinstall
  case h_2 => cases hsome

lemma sysAccept_made (hsome : (sysAccept fds files true).1.isSome) :
    files.next < (sysAccept fds files true).2.2.next ∧
      ((sysAccept fds files true).2.2.file files.next).kind = .socket := by
  simp only [sysAccept, Bool.not_true, Bool.false_eq_true, if_false] at hsome ⊢
  split at hsome
  case h_1 hinstall => exact fdInstall_created hinstall
  case h_2 => cases hsome

lemma Desk.call_files {call : FdCall} (hstep : d.step (.call t call) = some d') :
    d'.files = (call.run (d.fds t) d.files).2 := by
  simp only [Desk.step, ite_none_right_eq_some, some.injEq] at hstep
  rw [← hstep.2]

lemma Net.Tcp.Owned.free_put {t : Tcp} {held : SockId → Prop} (h : t.Owned held)
    (hfree : (t.socks i).used = false) : (t.put i TcpSock.cleared).Owned held := by
  refine h.drop (fun _ hi => hi) rfl fun j => ?_
  by_cases hj : j = i
  · subst hj
    rw [Tcp.put_self]
    refine .inr ⟨TcpSock.cleared_dropped _, fun hi => ?_, ?_, fun pc hpc hsock => ?_⟩
    · simp [(h.held_used j hi).1] at hfree
    · cases hparent : (t.socks j).parent with
      | none => rfl
      | some p => simp [(h.child_used j p hparent).1] at hfree
    · simp [← hsock, (h.pending pc hpc).1] at hfree
  · rw [Tcp.put_other _ _ hj]
    exact .inl ⟨(TcpSock.Quiet.refl _).same, .inr le_rfl⟩

lemma SockDesk.Owners.sysSocket {env : NetEnv} {memory : Bool} (hs : s.Owners)
    (hstep : s.sysSocket t env memory = some s') : s'.Owners := by
  unfold SockDesk.sysSocket at hstep
  rcases tcpAllocConn_cases env s.tcp with ⟨halloc, -⟩ | ⟨i, hfree, halloc⟩
  · rw [halloc] at hstep
    obtain rfl := some.inj hstep
    exact hs
  · rw [halloc] at hstep
    have hfilled : (s.tcp.put i (freshSock env i)).Owned s.Held :=
      hs.table.fill hfree rfl (by simp [freshSock, TcpSock.cleared]) rfl rfl
        (by decide : TcpState.closed.Active)
    have hfreed : (tcpFree (s.tcp.put i (freshSock env i)) i).Owned s.Held := by
      rw [tcpFree, Tcp.put_put]
      exact hs.table.free_put hfree
    have hheld : ¬ s.Held i := fun hi => by simp [(hs.table.held_used i hi).1] at hfree
    cases memory with
    | false =>
      obtain rfl := some.inj hstep
      exact hs.withTcp hfreed
    | true =>
      obtain ⟨d', hd', rfl⟩ := map_eq_some_iff.mp hstep
      obtain ⟨hmoves, hcounts⟩ := hs.deskOp (.call t (.socket true)) trivial trivial hd'
      split_ifs with hsome
      · have hmade := sysSocket_made hsome
        rw [show (HelixOS.sysSocket (s.desk.fds t) s.desk.files true).2.2 = d'.files from
          (Desk.call_files hd').symm] at hmade
        refine hs.install hmoves hcounts hfilled hmade ?_ ?_ (fun pc hpc hsock => ?_) hheld
        · rw [Tcp.put_self]
          rfl
        · rw [Tcp.put_self]
          rfl
        · simp [← hsock, (hs.table.pending pc hpc).1] at hfree
      · exact hs.moved hmoves hcounts hfreed

lemma SockDesk.Owners.sysAccept {l : SockId} {memory : Bool} (hs : s.Owners)
    (hstep : s.sysAccept t l memory = some s') : s'.Owners := by
  unfold SockDesk.sysAccept at hstep
  rcases tcpAccept_cases s.tcp l with haccept | ⟨c, rest, -, hbacklog, haccept⟩
  · rw [haccept] at hstep
    obtain rfl := some.inj hstep
    exact hs
  · rw [haccept] at hstep
    obtain ⟨htable, hused, hparent, hpending⟩ := hs.table.accepting hbacklog
    have hheld : ¬ s.Held c := fun hi => by
      have hentry := hs.table.entry l c (by simp [hbacklog])
      simp [(hs.table.held_used c hi).2] at hentry
    cases memory with
    | false =>
      obtain rfl := some.inj hstep
      exact hs.withTcp htable
    | true =>
      obtain ⟨d', hd', rfl⟩ := map_eq_some_iff.mp hstep
      obtain ⟨hmoves, hcounts⟩ := hs.deskOp (.call t (.accept true)) trivial trivial hd'
      split_ifs with hsome
      · have hmade := sysAccept_made hsome
        rw [show (HelixOS.sysAccept (s.desk.fds t) s.desk.files true).2.2 = d'.files from
          (Desk.call_files hd').symm] at hmade
        exact hs.install hmoves hcounts htable hmade hused hparent hpending hheld
      · exact hs.moved hmoves hcounts htable

lemma SockDesk.step_desk {op : DeskOp} (hstep : s.step (.desk op) = some s') :
    ∃ d' whole, s.desk.step op = some d' ∧ s' = s.withDesk d' whole := by
  cases op with
  | call t call =>
    cases call with
    | accept found => cases hstep
    | _ =>
      obtain ⟨d', hd', rfl⟩ := map_eq_some_iff.mp hstep
      exact ⟨d', true, hd', rfl⟩
  | _ =>
    obtain ⟨d', hd', rfl⟩ := map_eq_some_iff.mp hstep
    exact ⟨d', false, hd', rfl⟩

lemma SockDesk.Owners.step {e : SockEvent} (hs : s.Owners) (hsafe : e.Safe s)
    (hstep : s.step e = some s') : s'.Owners := by
  cases e with
  | desk op =>
    obtain ⟨d', whole, hd', rfl⟩ := SockDesk.step_desk hstep
    obtain ⟨hmoves, hcounts⟩ := hs.deskOp op hsafe.1 hsafe.2 hd'
    exact hs.withDesk hmoves hcounts whole
  | socket t env memory =>
    simp only [SockDesk.step, ite_none_right_eq_some] at hstep
    exact hs.sysSocket hstep.2
  | bind t fd env addr port =>
    obtain ⟨i, hi, rfl⟩ := map_eq_some_iff.mp hstep
    exact hs.withTcp (hs.table.own (sock_held hi) (tcpBind_own ..).1)
  | connect t fd env addr port =>
    obtain ⟨i, hi, rfl⟩ := map_eq_some_iff.mp hstep
    exact hs.withTcp (hs.table.own (sock_held hi) (tcpConnect_own ..))
  | listen t fd env =>
    obtain ⟨i, hi, rfl⟩ := map_eq_some_iff.mp hstep
    exact hs.withTcp (hs.table.listen (sock_held hi) _)
  | accept t fd memory =>
    obtain ⟨l, -, haccept⟩ := bind_eq_some_iff.mp hstep
    exact hs.sysAccept haccept
  | send t fd env data =>
    obtain ⟨i, hi, rfl⟩ := map_eq_some_iff.mp hstep
    exact hs.withTcp (hs.table.own (sock_held hi) (tcpSendData_own ..))
  | recv t fd buflen =>
    obtain ⟨i, hi, rfl⟩ := map_eq_some_iff.mp hstep
    exact hs.withTcp (hs.table.own (sock_held hi) (tcpRecvData_own ..))
  | input env src seg =>
    obtain rfl := some.inj hstep
    exact hs.withTcp (hs.table.input hsafe)
  | tick env =>
    obtain rfl := some.inj hstep
    exact hs.withTcp (hs.table.tick hsafe)

/-! ## Runs -/

structure SockDesk.Booted (s : SockDesk) : Prop where
  desk : s.desk.Booted
  socks : ∀ i, s.tcp.socks i = TcpSock.cleared
  pending : s.tcp.pending = []
  sockOf : ∀ f, s.sockOf f = none

lemma SockDesk.Booted.owners (hboot : s.Booted) : s.Owners where
  counts := hboot.desk.counts
  sockets f i hsock := by simp [hboot.sockOf f] at hsock
  table := by
    have hheld (i : SockId) (hi : s.Held i) : False := by
      obtain ⟨f, hsock, -⟩ := hi
      simp [hboot.sockOf f] at hsock
    refine ⟨fun i hi => (hheld i hi).elim, fun i p hp => ?_, fun l c hc => ?_, fun l => ?_, ?_, ?_,
      ?_, fun i => ?_, fun i => ?_⟩
    · simp [hboot.socks i, TcpSock.cleared] at hp
    · simp [hboot.socks l, TcpSock.cleared] at hc
    · simp [hboot.socks l, TcpSock.cleared]
    · simp [hboot.pending]
    · simp [hboot.pending]
    · simp [hboot.pending]
    · simp [hboot.socks i, TcpSock.cleared]
    · simp [hboot.socks i, TcpSock.cleared]
  apart f g i hf := by simp [hboot.sockOf f] at hf

/-- No slot that an open descriptor refers to is handed out again, and no two open files share
one. -/
theorem sockets_have_one_owner {s₀ s : SockDesk} (hboot : s₀.Booted)
    (hreach : Reaches SockDesk.step (fun _ _ _ h => h) (fun s e => e.Safe s) s₀ () s ()) :
    (∀ env i f, (tcpAllocConn env s.tcp).1 = some i → s.sockOf f = some i →
        s.desk.slots f = 0) ∧
      ∀ f g i, s.sockOf f = some i → s.sockOf g = some i → 0 < s.desk.slots f →
        0 < s.desk.slots g → f = g := by
  have hs : s.Owners := hreach.invariant (fun s _ => s.Owners) hboot.owners
    fun _ _ _ _ hs hsafe hstep => hs.step hsafe hstep
  refine ⟨fun env i f halloc hsock => ?_, hs.apart⟩
  refine Nat.eq_zero_of_not_pos fun hpos => ?_
  exact hs.table.alloc_not_held halloc ⟨f, hsock, hpos⟩

/-! ### Two tables -/

def bootSockets : SockDesk where
  desk := bootDesk
  tcp := ⟨fun _ => TcpSock.cleared, [], 41000#16⟩
  sockOf _ := none

lemma bootSockets_booted : bootSockets.Booted :=
  ⟨bootDesk_booted, fun _ => rfl, rfl, fun _ => rfl⟩

def twoSockets : List SockEvent :=
  [.desk (.create 0), .socket 0 quietEnv true, .socket 0 quietEnv true]

theorem two_sockets_have_owners : ∃ s,
    run SockDesk.step (fun _ _ _ h => h) twoSockets bootSockets () = some (s, ()) ∧
      s.sockOf 3 = some 0 ∧ s.sockOf 4 = some 1 ∧ 0 < s.desk.slots 3 ∧
      ∀ g, s.sockOf g = some 0 → 0 < s.desk.slots g → 3 = g := by
  have hall : ∀ e ∈ twoSockets, ∀ s, SockEvent.Safe s e := by
    simp [twoSockets, SockEvent.Safe, DeskOp.Distinct, DeskOp.NoOverflow]
  have howners := sockets_have_one_owner bootSockets_booted
    ((Reaches.start : Reaches SockDesk.step (fun _ _ _ h => h) (fun s e => e.Safe s)
      bootSockets () _ _).run twoSockets hall rfl)
  exact ⟨_, rfl, rfl, rfl, by decide +kernel,
    fun g hg => howners.2 3 g 0 rfl hg (by decide +kernel)⟩

def envAt (now : BitVec 64) : NetEnv := { quietEnv with now }

def unanswered : List SockEvent :=
  [.desk (.create 0), .socket 0 (envAt 0#64) true, .connect 0 0#64 (envAt 0#64) 1#32 80#16,
    .input (envAt 0#64) 1#32 ⟨80#16, ByteOrder.swap16 41000#16, 0x12#8, 7#32, 0#32, []⟩,
    .send 0 0#64 (envAt 0#64) [5#8],
    .tick (envAt 100#64), .tick (envAt 200#64), .tick (envAt 300#64), .tick (envAt 400#64),
    .socket 0 (envAt 400#64) true]

/-- The timer has cleared the slot of the first socket, and the second one has got it. -/
theorem unanswered_socket_shared : ∃ s,
    Reaches SockDesk.step (fun _ _ _ h => h) (fun _ _ => True) bootSockets () s () ∧
      s.sockOf 3 = some 0 ∧ s.sockOf 4 = some 0 ∧ 0 < s.desk.slots 3 ∧ 0 < s.desk.slots 4 :=
  ⟨_, Reaches.start.run unanswered (fun _ _ _ => trivial) rfl, rfl, rfl, by decide +kernel,
    by decide +kernel⟩

end HelixOS
