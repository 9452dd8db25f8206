import Tmet.Lib.Relay
import Tmet.Proofs.Tproxy.Partition

/-!
# `Tmet.Proofs.Tproxy.Delivery`: messages reach the right connection, in order

The cells of a connection are allocated once, and no later connection has them even if
it has the same descriptors. An `End` of a connection is therefore known by its cells.
`receivedOn` and `writtenTo` are the message bodies that the log has for an end.

A message that is queued refers to the cell of the end it is for. `Net.Addresses` says
that this cell is either -1 or the descriptor of that very end, in the channel of the
queue. For each end the queue is then a lossy first-in first-out buffer
(`Tmet.Lib.Relay`): what comes in is what is received on the end, and what goes out is
what is written to its peer.

`Traffic` says what one change may do to the log and the queues. It treats
`deliver_msg` apart: with a `write` that takes everything, taking a message off the
queue and writing it is one step (`Delivers`).
-/

set_option autoImplicit false

namespace Tmet.Tproxy

open Tmet.Lib Tmet.Posix

variable {κ : Type} {K : Kernel κ Ctl Addr} {cfg : ConfigFile} {R : Scope}

/-! ### Ends of connections -/

/-- An end of a connection: its channel, its cell, and the cell of the other end. -/
structure End where
  channel : Channel
  selfFd : ℕ
  fd : ℕ
deriving DecidableEq, Repr

/-- The other end. -/
def End.peer (e : End) : End := ⟨e.channel.swap, e.fd, e.selfFd⟩

@[simp] theorem Channel.swap_swap (c : Channel) : c.swap.swap = c := rfl

@[simp] theorem End.peer_peer (e : End) : e.peer.peer = e := rfl

theorem End.peer_inj {e e' : End} (h : e.peer = e'.peer) : e = e' := by
  rw [← e.peer_peer, h, e'.peer_peer]

/-- The end that an entry is of, whatever its tag is. -/
def ChannelStatus.toEnd (st : ChannelStatus) : End := ⟨st.channel, st.selfFd, st.fd⟩

theorem Net.Pair.toEnd_eq {s : Net κ} {fd : Fd} {st st' : ChannelStatus} (h : s.Pair fd st st') :
    st'.toEnd = st.toEnd.peer := by
  rw [ChannelStatus.toEnd, h.channel_eq, h.selfFd_eq, h.fd_eq]
  rfl

theorem Remains.toEnd_eq {st st' : ChannelStatus} (h : Remains st st') : st'.toEnd = st.toEnd := by
  rw [ChannelStatus.toEnd, h.channel, h.selfFd, h.fd]
  rfl

/-! ### Messages in the log -/

/-- The body, if these bytes are one message. -/
def messageBody (data : Bytes) : Option Bytes :=
  match msgFraming.parse data with
  | some [body] => some body
  | _ => none

/-- The entry that the descriptor had. -/
def Event.conn : Event → Option ChannelStatus
  | .received _ conn _ => conn
  | .wrote _ conn _ => conn

/-- The body of a message that was received on the end. -/
def Event.receivedOn (e : End) : Event → Option Bytes
  | .received _ (some st) data => if st.toEnd = e then messageBody data else none
  | _ => none

/-- What was written to the end. -/
def Event.writtenTo (e : End) : Event → Option Bytes
  | .wrote _ (some st) data => if st.toEnd = e then some data else none
  | _ => none

/-- The bodies of the messages that were received on the end, in order. -/
def receivedOn (log : List Event) (e : End) : List Bytes := log.filterMap (Event.receivedOn e)

/-- What was written to the end, in order. -/
def writtenTo (log : List Event) (e : End) : List Bytes := log.filterMap (Event.writtenTo e)

theorem receivedOn_snoc (log : List Event) (ev : Event) (e : End) :
    receivedOn (log ++ [ev]) e = receivedOn log e ++ (ev.receivedOn e).toList :=
  filterMap_snoc (Event.receivedOn e) log ev

theorem writtenTo_snoc (log : List Event) (ev : Event) (e : End) :
    writtenTo (log ++ [ev]) e = writtenTo log e ++ (ev.writtenTo e).toList :=
  filterMap_snoc (Event.writtenTo e) log ev

/-- What was taken is one message. -/
theorem Taken.messageBody_eq {s : Net κ} {fd : Fd} {st : ChannelStatus} {m : Msg} {k : κ}
    (h : Taken K s fd st m k) (hpeek : K.PeekKeeps) : messageBody m.content = some m.body := by
  obtain ⟨k₀, header, hseen, hvalid, hsize⟩ := h.peek
  have hlen := h.length
  have hheader : m.content.take 8 = header.bytes := by
    have hrecv : (K.recv s.kernel fd (8 + m.size) .waitall).1 = .ok m.content := by rw [h.recv]
    -- the peek saw eight bytes, and the message has no fewer
    rcases hpeek hseen hrecv with hpre | hpre
    · obtain ⟨rest, hrest⟩ := hpre
      rw [← hrest, List.take_left' header.length_bytes]
    · have hle := hpre.length_le
      rw [header.length_bytes] at hle
      rw [← hpre.eq_of_length_le (by rw [header.length_bytes]; omega),
        List.take_of_length_le hle]
  have hframe : msgFraming.size header.bytes = some m.body.length := by
    have hbody : m.body.length = header.size := by
      rw [Msg.body, List.length_drop, hlen]
      omega
    rw [msgFraming_size, if_pos hvalid, hbody]
  have hcontent : m.content = header.bytes ++ (m.body ++ []) := by
    rw [List.append_nil, ← hheader, Msg.body, List.take_append_drop]
  have hparse : msgFraming.parse m.content = some [m.body] := by
    rw [Framing.parse_eq_some_iff, hcontent]
    exact .cons header.length_bytes hframe .nil
  rw [messageBody, hparse]

/-! ### What a change does to the log and the queues -/

/-- What one change does to the log and the queues. -/
inductive Traffic (K : Kernel κ Ctl Addr) (R : Scope) (s s' : Net κ) : Prop
  | quiet : s'.log = s.log → Thinned s.network s'.network → Traffic K R s s'
  | received {fd : Fd} {data : Bytes} :
      s'.log = s.log ++ [.received fd (s.fdToChannelStatus.get fd) data] →
      s'.network = s.network → Traffic K R s s'
  | message {fd : Fd} {st : ChannelStatus} {m : Msg} {k : κ} :
      Taken K s fd st m k → s'.log = s.log ++ [.received fd (some st) m.content] →
      s'.network = s.network.insert st.channel ((s.network.get st.channel).getD [] ++ [m]) →
      Traffic K R s s'
  | command {fd : Fd} {data : Bytes} :
      R.command → s'.log = s.log ++ [.wrote fd none data] → s'.network = s.network →
      Traffic K R s s'
  | raw {inFd fd : Fd} {src dst : ChannelStatus} {data : Bytes} :
      R.raw inFd → s.fdToChannelStatus.get inFd = some src → dst.toEnd = src.toEnd.peer →
      s.fdToChannelStatus.get fd = some dst → s'.log = s.log ++ [.wrote fd (some dst) data] →
      s'.network = s.network → Traffic K R s s'
  | delivery {fd : Fd} {dst : ChannelStatus} {data : Bytes} :
      R.deliver → s.fdToChannelStatus.get fd = some dst →
      s'.log = s.log ++ [.wrote fd (some dst) data] → s'.network = s.network → Traffic K R s s'

theorem Atom.traffic {s s' : Net κ} (hs : s.Consistent K) (h : Atom K R s s') :
    Traffic K R s s' := by
  cases h with
  | received _ => exact .received rfl rfl
  | @wrote k fd data _ hreason =>
      cases hreason with
      | message hdeliver hst _ => exact .delivery hdeliver hst (by rw [hst]) rfl
      | @transfer inFd st hraw hst hpeer =>
          obtain ⟨st', hp⟩ := hs.linked inFd st hst
          have hst' := hp.peer
          rw [hpeer] at hst'
          exact .raw hraw hst hp.toEnd_eq hst' (by rw [hst']) rfl
      | command hcommand hclient =>
          exact .command hcommand (by rw [hs.get_of_client hclient]) rfl
  | @tag fd =>
      have hrest := onlyTable_closeConnection (K := K) s fd true
      exact .quiet hrest.log (.of_eq hrest.network)
  | @closePair fd =>
      have hrest := onlyTable_closeConnection (K := K) s fd false
      exact .quiet hrest.log (.of_eq hrest.network)
  | message htaken => exact .message htaken (by rw [htaken.entry]) rfl
  | unqueue hsub => exact .quiet rfl hsub
  | _ => exact .quiet rfl (.refl _)

/-! ### What a queued message refers to -/

/-- What is known of a message in the queue of the channel. It was received in this
channel. The cell it refers to is the one of the other end, and holds the descriptor
of this end unless it is negative. -/
structure Net.Addresses (s : Net κ) (channel : Channel) (m : Msg) : Prop where
  cell_lt : m.fd < s.nextCell
  length : m.content.length = 8 + m.size
  entry : 0 ≤ s.heap m.fd → ∃ st, s.fdToChannelStatus.get (s.heap m.fd) = some st
    ∧ st.selfFd = m.fd ∧ st.channel = channel.swap
  received : ∃ fd src, Event.received fd (some src) m.content ∈ s.log ∧ src.channel = channel
    ∧ src.fd = m.fd

/-- This holds of all the messages that are queued. -/
def Net.Addressed (s : Net κ) : Prop :=
  ∀ c q, s.network.get c = some q → ∀ m ∈ q, s.Addresses c m

/-- The cells and the descriptors of the connections that are left are the same. -/
def CellsKept (s s' : Net κ) : Prop :=
  ∀ c, c < s.nextCell → 0 ≤ s'.heap c → s'.heap c = s.heap c
    ∧ ∀ st, s.fdToChannelStatus.get (s.heap c) = some st → st.selfFd = c →
      ∃ st', s'.fdToChannelStatus.get (s.heap c) = some st' ∧ st'.toEnd = st.toEnd

theorem CellsKept.of_same {s s' : Net κ} (hheap : s'.heap = s.heap)
    (htable : ∀ x st, s.fdToChannelStatus.get x = some st →
      ∃ st', s'.fdToChannelStatus.get x = some st' ∧ st'.toEnd = st.toEnd) : CellsKept s s' :=
  fun c _ _ => ⟨by rw [hheap], fun st hst _ => htable _ st hst⟩

theorem cellsKept_setDisconnected (s : Net κ) (fd : Fd) (b : Bool) :
    CellsKept s (s.setDisconnected fd b) := by
  refine .of_same rfl fun x st hst => ?_
  obtain ⟨st', hst', hchannel, hself, hfd, -⟩ := get_setDisconnected_of_get hst fd b
  refine ⟨st', hst', ?_⟩
  rw [ChannelStatus.toEnd, hchannel, hself, hfd]
  rfl

theorem Atom.cellsKept {s s' : Net κ} (hs : s.Consistent K) (h : Atom K R s s') :
    CellsKept s s' ∧ s.nextCell ≤ s'.nextCell := by
  cases h with
  | @tag fd st hst =>
      rw [closeConnection_tag s hst]
      refine ⟨.of_same rfl fun x t ht => ?_, le_rfl⟩
      obtain ⟨t₁, ht₁, hchannel₁, hself₁, hfd₁, -⟩ := get_setDisconnected_of_get ht fd true
      obtain ⟨t₂, ht₂, hchannel₂, hself₂, hfd₂, -⟩ :=
        get_setDisconnected_of_get ht₁ (s.heap st.fd) true
      refine ⟨t₂, ht₂, ?_⟩
      rw [ChannelStatus.toEnd, hchannel₂, hself₂, hfd₂, hchannel₁, hself₁, hfd₁]
      rfl
  | @closePair fd st hst =>
      obtain ⟨st', hp⟩ := hs.linked fd st hst
      have hclosed := pairClosed_closeConnection (K := K) hst hp
      have hrest := onlyTable_closeConnection (K := K) s fd false
      -- a cell that is open after this is of neither end
      refine ⟨fun c _ hopen => ?_, hrest.nextCell.ge⟩
      -- the cells of the two that are closed are negative now
      have hne : c ≠ st.selfFd := by
        rintro rfl
        rw [hclosed.closed.1] at hopen
        exact absurd hopen (by decide)
      have hne' : c ≠ st.fd := by
        rintro rfl
        rw [hclosed.closed.2] at hopen
        exact absurd hopen (by decide)
      refine ⟨hclosed.heap c hne hne', fun t ht hself => ⟨t, ?_, rfl⟩⟩
      rw [hclosed.get, if_neg]
      · exact ht
      · rintro (heq | heq)
        · rw [heq, hst] at ht
          cases ht
          exact hne hself.symm
        · rw [heq, hp.peer] at ht
          cases ht
          exact hne' (hself.symm.trans hp.selfFd_eq)
  | untag _ => exact ⟨cellsKept_setDisconnected s _ false, le_rfl⟩
  | @connect k fd fd' src dst _ hfd hfd' _ _ =>
      refine ⟨fun c hc _ => ⟨?_, fun t ht _ => ⟨t, ?_, rfl⟩⟩, Nat.le_add_right _ 2⟩
      · exact heap_addFdToChannel_of_lt s fd fd' src dst hc
      · exact hs.get_addFdToChannel hfd hfd' src dst ht
  | _ => exact ⟨.of_same rfl fun _ st hst => ⟨st, hst, rfl⟩, le_rfl⟩

theorem Traffic.log_subset {s s' : Net κ} (h : Traffic K R s s') {ev : Event} (hev : ev ∈ s.log) :
    ev ∈ s'.log := by
  cases h with
  | quiet hlog _ =>
      rw [hlog]
      exact hev
  | received hlog _ | message _ hlog _ | command _ hlog _ | raw _ _ _ _ hlog _
  | delivery _ _ hlog _ =>
      rw [hlog]
      exact List.mem_append_left _ hev

/-- A message in a queue was there before, or is the one that was just taken. -/
theorem Traffic.mem_network {s s' : Net κ} (h : Traffic K R s s') {c : Channel} {q : List Msg}
    {m : Msg} (hq : s'.network.get c = some q) (hm : m ∈ q) :
    (∃ q₀, s.network.get c = some q₀ ∧ m ∈ q₀)
      ∨ ∃ fd st k, Taken K s fd st m k ∧ c = st.channel
        ∧ s'.log = s.log ++ [.received fd (some st) m.content] := by
  cases h with
  | quiet _ hthinned =>
      obtain ⟨q₀, hq₀, hsub⟩ := hthinned c q hq
      exact Or.inl ⟨q₀, hq₀, hsub.subset hm⟩
  | message htaken hlog hnetwork =>
      rw [hnetwork, FinFn.get_insert] at hq
      split at hq
      · rename_i hc
        cases hq
        -- in the queue of the channel the message that was taken is the last one
        rcases List.mem_append.mp hm with hm | hm
        · rw [← hc] at hm
          cases hq₀ : s.network.get c with
          | none =>
              rw [hq₀] at hm
              cases hm
          | some q₀ =>
              rw [hq₀] at hm
              exact Or.inl ⟨q₀, rfl, hm⟩
        · rw [List.mem_singleton.mp hm]
          exact Or.inr ⟨_, _, _, htaken, hc, hlog⟩
      · exact Or.inl ⟨q, hq, hm⟩
  | received _ hnetwork | command _ _ hnetwork | raw _ _ _ _ _ hnetwork | delivery _ _ _ hnetwork =>
      rw [hnetwork] at hq
      exact Or.inl ⟨q, hq, hm⟩

/-- The cell `c` was made for an end with this channel: it is negative, or it holds the
descriptor of that end. -/
structure Net.Names (s : Net κ) (c : ℕ) (channel : Channel) : Prop where
  lt : c < s.nextCell
  entry : 0 ≤ s.heap c → ∃ st, s.fdToChannelStatus.get (s.heap c) = some st
    ∧ st.selfFd = c ∧ st.channel = channel

/-- The other cell of an entry names the other end. -/
theorem Net.Consistent.names {s : Net κ} (hs : s.Consistent K) {fd : Fd} {st : ChannelStatus}
    (hst : s.fdToChannelStatus.get fd = some st) : s.Names st.fd st.channel.swap := by
  obtain ⟨st', hp⟩ := hs.linked fd st hst
  exact ⟨hs.fd_lt hst, fun _ => ⟨st', hp.peer, hp.selfFd_eq, hp.channel_eq⟩⟩

/-- A cell never names another end: if it is open after a change, it was before, and held
the same descriptor. -/
theorem Net.Names.atom {s s' : Net κ} {c : ℕ} {channel : Channel} (h : s.Names c channel)
    (hs : s.Consistent K) (hatom : Atom K R s s') : s'.Names c channel := by
  obtain ⟨hkept, hle⟩ := hatom.cellsKept hs
  refine ⟨h.lt.trans_le hle, fun hopen => ?_⟩
  obtain ⟨hheap, hstays⟩ := hkept c h.lt hopen
  rw [hheap] at hopen ⊢
  obtain ⟨st, hst, hself, hchannel⟩ := h.entry hopen
  obtain ⟨st', hst', hend⟩ := hstays st hst hself
  have hself' : st'.selfFd = st.selfFd := congrArg End.selfFd hend
  have hchannel' : st'.channel = st.channel := congrArg End.channel hend
  exact ⟨st', hst', hself'.trans hself, hchannel'.trans hchannel⟩

theorem Net.Addressed.atom {s s' : Net κ} (h : s.Addressed) (hs : s.Consistent K)
    (hatom : Atom K R s s') : s'.Addressed := by
  have htraffic := hatom.traffic hs
  intro c q hq m hm
  obtain ⟨q₀, hq₀, hm₀⟩ | ⟨fd, st, k, htaken, rfl, hlog⟩ := htraffic.mem_network hq hm
  · -- an old message: its cell still names the end that the message is for
    obtain ⟨hlt, hlen, hentry, fd, src, hrecv, hsrc⟩ := h c q₀ hq₀ m hm₀
    have hnames := (Net.Names.mk hlt hentry).atom hs hatom
    exact ⟨hnames.lt, hlen, hnames.entry, fd, src, htraffic.log_subset hrecv, hsrc⟩
  · -- a new message refers to the cell of the peer
    have hnames := (hs.names htaken.entry).atom hs hatom
    rw [← htaken.fd_eq] at hnames
    refine ⟨hnames.lt, htaken.length, hnames.entry, fd, st, ?_, rfl, htaken.fd_eq.symm⟩
    rw [hlog]
    simp

theorem Net.Addressed.path {s s' : Net κ} (h : s.Addressed) (hs : s.Consistent K)
    (hpath : Path K R s s') : s'.Addressed := by
  induction hpath with
  | refl => exact h
  | tail hrest hatom ih => exact ih.atom (hs.path hrest) hatom

theorem Net.Addressed.of_run {tr : List (Step (Net κ) Act)} {s : Net κ}
    (h : (tcpNetwork K cfg).Run tr s) : s.Addressed := by
  refine h.invariant (P := fun _ s => s.Addressed) ?_ ?_
  · rintro s ⟨-, hnetwork, -⟩ c q hq
    rw [hnetwork] at hq
    cases hq
  · intro tr s act s' hrun ih hstep
    have hs : s.Consistent K := .of_run hrun
    exact ih.path hs (Act.Step.path hs.apart hstep)

/-! ### Cells identify ends -/

/-- `reg c` is the end whose other cell is `c`. It covers the table and the log. -/
structure Net.Registered (reg : ℕ → Option End) (s : Net κ) : Prop where
  lt : ∀ c e, reg c = some e → c < s.nextCell
  table : ∀ fd st, s.fdToChannelStatus.get fd = some st → reg st.fd = some st.toEnd
  log : ∀ ev ∈ s.log, ∀ st, ev.conn = some st →
    reg st.fd = some st.toEnd ∧ reg st.selfFd = some st.toEnd.peer

/-- An entry and the one of its peer. -/
theorem Net.Registered.entry {reg : ℕ → Option End} {s : Net κ} (h : s.Registered reg)
    (hs : s.Consistent K) {fd : Fd} {st : ChannelStatus}
    (hst : s.fdToChannelStatus.get fd = some st) :
    reg st.fd = some st.toEnd ∧ reg st.selfFd = some st.toEnd.peer := by
  obtain ⟨st', hp⟩ := hs.linked fd st hst
  have hpeer := h.table _ st' hp.peer
  rw [hp.fd_eq, hp.toEnd_eq] at hpeer
  exact ⟨h.table fd st hst, hpeer⟩

/-- What a change appends to the log has an entry of the table, or none. -/
theorem Traffic.conn_of_mem {s s' : Net κ} (h : Traffic K R s s') {ev : Event} (hev : ev ∈ s'.log) :
    ev ∈ s.log ∨ ∀ st, ev.conn = some st → ∃ fd, s.fdToChannelStatus.get fd = some st := by
  -- one event at most is new
  have hnew {last : Event} (hlog : s'.log = s.log ++ [last])
      (hlast : ∀ st, last.conn = some st → ∃ fd, s.fdToChannelStatus.get fd = some st) :
      ev ∈ s.log ∨ ∀ st, ev.conn = some st → ∃ fd, s.fdToChannelStatus.get fd = some st := by
    rw [hlog, List.mem_append, List.mem_singleton] at hev
    rcases hev with hev | rfl
    · exact Or.inl hev
    · exact Or.inr hlast
  cases h with
  | quiet hlog _ =>
      rw [hlog] at hev
      exact Or.inl hev
  | @received fd data hlog _ => exact hnew hlog fun st hst => ⟨fd, hst⟩
  | @message fd st m k htaken hlog _ =>
      exact hnew hlog fun t ht => ⟨fd, htaken.entry.trans ht⟩
  | command _ hlog _ => exact hnew hlog fun st hst => by cases hst
  | @raw inFd fd src dst data _ _ _ hdst hlog _ => exact hnew hlog fun t ht => ⟨fd, hdst.trans ht⟩
  | @delivery fd dst data _ hdst hlog _ => exact hnew hlog fun t ht => ⟨fd, hdst.trans ht⟩

/-- A new connection, registered at its two cells. -/
def registerEnds (reg : ℕ → Option End) (e : End) : ℕ → Option End :=
  Function.update (Function.update reg e.fd (some e)) e.selfFd (some e.peer)

theorem registerEnds_selfFd (reg : ℕ → Option End) (e : End) :
    registerEnds reg e e.selfFd = some e.peer := Function.update_self _ _ _

theorem registerEnds_fd (reg : ℕ → Option End) {e : End} (h : e.fd ≠ e.selfFd) :
    registerEnds reg e e.fd = some e := by
  rw [registerEnds, Function.update_of_ne h, Function.update_self]

theorem registerEnds_of_ne (reg : ℕ → Option End) {e : End} {c : ℕ} (hfd : c ≠ e.fd)
    (hself : c ≠ e.selfFd) : registerEnds reg e c = reg c := by
  rw [registerEnds, Function.update_of_ne hself, Function.update_of_ne hfd]

/-- The cells of a new connection are not registered before. -/
theorem Net.Registered.connect {reg : ℕ → Option End} {s : Net κ} (h : s.Registered reg) (k : κ)
    (fd fd' : Fd) (src dst : Addr) :
    (({ s with kernel := k } : Net κ).addFdToChannel fd fd' src dst).Registered
      (registerEnds reg ⟨⟨src.host, dst.host⟩, s.nextCell, s.nextCell + 1⟩) := by
  let new : End := ⟨⟨src.host, dst.host⟩, s.nextCell, s.nextCell + 1⟩
  have hother {c : ℕ} (hc : c ≠ s.nextCell) (hc' : c ≠ s.nextCell + 1) :
      registerEnds reg new c = reg c := registerEnds_of_ne reg hc' hc
  have hold {c : ℕ} {e : End} (hc : reg c = some e) : registerEnds reg new c = some e := by
    have hlt := h.lt c e hc
    rw [hother (by omega) (by omega), hc]
  refine ⟨?_, ?_, fun ev hev st hst => ?_⟩
  · intro c e hc
    show c < s.nextCell + 2
    by_contra hge
    -- so `c` is a cell of before, and those are below `nextCell`
    rw [hother (by omega) (by omega)] at hc
    have hlt := h.lt c e hc
    omega
  · intro x st hst
    rcases get_addFdToChannel hst with ⟨-, rfl⟩ | ⟨-, -, rfl⟩ | ⟨-, -, hst₀⟩
    · exact registerEnds_selfFd reg new
    · exact registerEnds_fd reg (e := new) (Nat.succ_ne_self _)
    · exact hold (h.table x st hst₀)
  · obtain ⟨hfd, hself⟩ := h.log ev hev st hst
    exact ⟨hold hfd, hold hself⟩

/-- A change that establishes no connection leaves the register as it is: the entries
that are left have their ends of before, and the log gets no other. -/
theorem Net.Registered.atom {reg : ℕ → Option End} {s s' : Net κ} (h : s.Registered reg)
    (hs : s.Consistent K) (hatom : Atom K R s s') : ∃ reg', s'.Registered reg' := by
  have htraffic := hatom.traffic hs
  have hle := (hatom.cellsKept hs).2
  -- what a new event was on has an entry in `s`, so it is registered already
  have hlog : ∀ ev ∈ s'.log, ∀ st, ev.conn = some st →
      reg st.fd = some st.toEnd ∧ reg st.selfFd = some st.toEnd.peer := by
    intro ev hev st hst
    rcases htraffic.conn_of_mem hev with hold | hnew
    · exact h.log ev hold st hst
    · obtain ⟨fd, hget⟩ := hnew st hst
      exact h.entry hs hget
  -- every other change but `connect` only removes or tags entries
  have hshrinks (htable : ∀ fd st, s'.fdToChannelStatus.get fd = some st →
      ∃ st₀, s.fdToChannelStatus.get fd = some st₀ ∧ st.toEnd = st₀.toEnd) :
      ∃ reg', s'.Registered reg' := by
    refine ⟨reg, fun c e hc => (h.lt c e hc).trans_le hle, fun fd st hst => ?_, hlog⟩
    obtain ⟨st₀, hst₀, hend⟩ := htable fd st hst
    have hfd : st.fd = st₀.fd := congrArg End.fd hend
    rw [hfd, hend]
    exact h.table fd st₀ hst₀
  cases hatom with
  | @tag fd =>
      refine hshrinks fun x st hst => ?_
      obtain ⟨st₀, hst₀, hr⟩ := shrinks_closeConnection (K := K) s fd true x st hst
      exact ⟨st₀, hst₀, hr.toEnd_eq⟩
  | @closePair fd =>
      refine hshrinks fun x st hst => ?_
      obtain ⟨st₀, hst₀, hr⟩ := shrinks_closeConnection (K := K) s fd false x st hst
      exact ⟨st₀, hst₀, hr.toEnd_eq⟩
  | @untag fd _ =>
      refine hshrinks fun x st hst => ?_
      obtain ⟨st₀, hst₀, hchannel, hself, hfd, -⟩ := get_setDisconnected hst
      refine ⟨st₀, hst₀, ?_⟩
      rw [ChannelStatus.toEnd, hchannel, hself, hfd]
      rfl
  | @connect k fd fd' src dst _ _ _ _ _ => exact ⟨_, h.connect k fd fd' src dst⟩
  | _ => exact hshrinks fun _ st hst => ⟨st, hst, rfl⟩

theorem Net.Registered.path {reg : ℕ → Option End} {s s' : Net κ} (h : s.Registered reg)
    (hs : s.Consistent K) (hpath : Path K R s s') : ∃ reg', s'.Registered reg' := by
  induction hpath with
  | refl => exact ⟨reg, h⟩
  | tail hrest hatom ih =>
      obtain ⟨reg', h'⟩ := ih
      exact h'.atom (hs.path hrest) hatom

theorem Net.Registered.of_run {tr : List (Step (Net κ) Act)} {s : Net κ}
    (h : (tcpNetwork K cfg).Run tr s) : ∃ reg, s.Registered reg := by
  refine h.invariant (P := fun _ s => ∃ reg, s.Registered reg) ?_ ?_
  · rintro s ⟨hst, -, -, -, -, -, hlog⟩
    refine ⟨fun _ => none, nofun, fun fd st hget => ?_, fun ev hev => ?_⟩
    · rw [hst] at hget
      cases hget
    · rw [hlog] at hev
      cases hev
  · rintro tr s act s' hrun ⟨reg, hreg⟩ hstep
    have hs : s.Consistent K := .of_run hrun
    exact hreg.path hs (Act.Step.path hs.apart hstep)

/-! ### The queue of an end is a lossy buffer -/

/-- The bodies that are queued and were received on the end. -/
def Net.queuedFor (s : Net κ) (e : End) : List Bytes :=
  (((s.network.get e.channel).getD []).filter fun m => m.fd = e.fd).map Msg.body

theorem queuedFor_congr {s s' : Net κ} (h : s'.network = s.network) (e : End) :
    s'.queuedFor e = s.queuedFor e := by
  rw [Net.queuedFor, h]
  rfl

theorem queuedFor_sublist {s s' : Net κ} (h : Thinned s.network s'.network) (e : End) :
    (s'.queuedFor e).Sublist (s.queuedFor e) := by
  rw [Net.queuedFor, Net.queuedFor]
  cases hq : s'.network.get e.channel with
  | none => exact List.nil_sublist _
  | some q =>
      obtain ⟨q₀, hq₀, hsub⟩ := h e.channel q hq
      rw [hq₀]
      exact (hsub.filter _).map _

/-- The end and its peer, the queue between them as a buffer. -/
def Net.Relays (s : Net κ) (e : End) : Prop :=
  Relay (receivedOn s.log e) (s.queuedFor e) (writtenTo s.log e.peer)

/-- In the log, the other cell of `e` is that of `e` only. -/
def Net.Identifies (s : Net κ) (e : End) : Prop :=
  ∀ ev ∈ s.log, ∀ st, ev.conn = some st → st.fd = e.fd → st.toEnd = e

/-- Nothing passes through from the end. -/
def Framed (R : Scope) (s : Net κ) (e : End) : Prop :=
  ∀ fd st, R.raw fd → s.fdToChannelStatus.get fd = some st → st.toEnd ≠ e

theorem Net.Relays.traffic (hR : ¬ R.deliver) (hpeek : K.PeekKeeps) {s s' : Net κ} {e : End}
    (h : s.Relays e) (hid : s'.Identifies e) (hframed : Framed R s e) (htraffic : Traffic K R s s') :
    s'.Relays e := by
  rw [Net.Relays] at h ⊢
  cases htraffic with
  | quiet hlog hthinned =>
      rw [hlog]
      exact h.drop (queuedFor_sublist hthinned e)
  | received hlog hnetwork =>
      -- what is received and not queued is lost
      rw [hlog, receivedOn_snoc, writtenTo_snoc, queuedFor_congr hnetwork]
      simpa [Event.writtenTo] using h.refuse _
  | @message fd st m k htaken hlog hnetwork =>
      rw [hlog, receivedOn_snoc, writtenTo_snoc]
      have hreceived : (Event.received fd (some st) m.content).receivedOn e
          = if st.toEnd = e then some m.body else none := by
        rw [Event.receivedOn, htaken.messageBody_eq hpeek]
      have hwritten : (Event.received fd (some st) m.content).writtenTo e.peer = none := rfl
      rw [hreceived, hwritten, Option.toList_none, List.append_nil]
      by_cases hend : st.toEnd = e
      · -- the message goes to the back of the queue
        subst hend
        have hqueued : s'.queuedFor st.toEnd = s.queuedFor st.toEnd ++ [m.body] := by
          have hfd : m.fd = st.toEnd.fd := htaken.fd_eq
          rw [Net.queuedFor, hnetwork]
          show (((s.network.insert st.channel _).get st.channel).getD [] |>.filter _).map _ = _
          rw [FinFn.get_insert, if_pos rfl, Option.getD_some, List.filter_append, List.map_append]
          simp [hfd, Net.queuedFor, ChannelStatus.toEnd]
        rw [if_pos rfl, hqueued]
        exact h.take m.body
      · -- it refers to another cell, or is in another queue
        have hother : st.fd ≠ e.fd := by
          intro heq
          exact hend (hid (.received fd (some st) m.content) (by rw [hlog]; simp) st rfl heq)
        have hqueued : s'.queuedFor e = s.queuedFor e := by
          rw [Net.queuedFor, Net.queuedFor, hnetwork, FinFn.get_insert]
          split
          · rename_i hc
            have hfd : ¬ m.fd = e.fd := by
              rw [htaken.fd_eq]
              exact hother
            rw [Option.getD_some, List.filter_append, ← hc]
            simp [hfd]
          · rfl
        rw [if_neg hend, hqueued, Option.toList_none, List.append_nil]
        exact h
  | command _ hlog hnetwork =>
      rw [hlog, receivedOn_snoc, writtenTo_snoc, queuedFor_congr hnetwork]
      simpa [Event.receivedOn, Event.writtenTo] using h
  | @raw inFd fd src dst data hraw hsrc hends hdst hlog hnetwork =>
      -- what passes through comes from another end than `e`
      have hne : dst.toEnd ≠ e.peer := by
        intro heq
        rw [hends] at heq
        exact hframed inFd src hraw hsrc (End.peer_inj heq)
      rw [hlog, receivedOn_snoc, writtenTo_snoc, queuedFor_congr hnetwork]
      simpa [Event.receivedOn, Event.writtenTo, hne] using h
  | delivery hdeliver _ _ _ => exact absurd hdeliver hR

theorem Net.Registered.identifies {reg : ℕ → Option End} {s : Net κ} (h : s.Registered reg) {e : End}
    {data : Bytes} (hdata : data ∈ writtenTo s.log e.peer) : s.Identifies e := by
  obtain ⟨ev, hev, hwritten⟩ := List.mem_filterMap.mp hdata
  intro ev' hev' st hst hfd
  cases ev with
  | received fd conn bytes => cases hwritten
  | wrote fd conn bytes =>
      cases conn with
      | none => cases hwritten
      | some dst =>
          rw [Event.writtenTo] at hwritten
          split at hwritten
          · rename_i hend
            -- the register has `e` for the cell, and has one end for a cell
            have hself : dst.selfFd = e.fd := congrArg End.selfFd hend
            have hdst := (h.log _ hev dst rfl).2
            have hsrc := (h.log ev' hev' st hst).1
            rw [hself, hend, End.peer_peer] at hdst
            rw [hfd, hdst] at hsrc
            exact (Option.some.inj hsrc).symm
          · cases hwritten

theorem Net.Identifies.of_subset {s s' : Net κ} {e : End} (h : s'.Identifies e)
    (hsub : ∀ ev ∈ s.log, ev ∈ s'.log) : s.Identifies e :=
  fun ev hev => h ev (hsub ev hev)

/-- What passes through does not change along a path that establishes no connection. -/
theorem Framed.atom {s s' : Net κ} {e : End} (h : Framed R s e)
    (hR : ∀ fd, R.raw fd → (∀ c, ¬ R.connect c) ∧ ¬ R.untag) (hatom : Atom K R s s') :
    Framed R s' e := by
  intro fd st' hraw hst'
  obtain ⟨hconnect, huntag⟩ := hR fd hraw
  obtain ⟨st, hst, hr⟩ | ⟨c, hc, -⟩ := hatom.entry huntag hst'
  · rw [hr.toEnd_eq]
    exact h fd st hraw hst
  · exact absurd hc (hconnect c)

theorem Net.Relays.path (hR : ¬ R.deliver) (hraw : ∀ fd, R.raw fd → (∀ c, ¬ R.connect c) ∧ ¬ R.untag)
    (hpeek : K.PeekKeeps) {s s' : Net κ} {e : End} (hs : s.Consistent K)
    (h : s.Identifies e → s.Relays e) (hframed : Framed R s e) (hpath : Path K R s s') :
    (s'.Identifies e → s'.Relays e) ∧ Framed R s' e ∧ ∀ ev ∈ s.log, ev ∈ s'.log := by
  induction hpath with
  | refl => exact ⟨h, hframed, fun _ hev => hev⟩
  | @tail s₁ s₂ hrest hatom ih =>
      obtain ⟨hrelays, hframed₁, hsub⟩ := ih
      have htraffic := hatom.traffic (hs.path hrest)
      refine ⟨fun hid => ?_, hframed₁.atom hraw hatom, fun ev hev => ?_⟩
      · have hid₁ : s₁.Identifies e := hid.of_subset fun ev hev => htraffic.log_subset hev
        exact (hrelays hid₁).traffic hR hpeek hid hframed₁ htraffic
      · exact htraffic.log_subset (hsub ev hev)

/-! ### `deliver_msg` -/

/-- The loop writes the body at once, or nothing. -/
theorem log_writeLoop (hfull : K.WritesInFull) {s s' : Net κ} {fd : Fd} {body : Bytes}
    {size size' : ℤ} (h : s.writeLoop K body.length fd body body.length size = (size', s')) :
    s'.log = s.log ∨ s'.log = s.log ++ [.wrote fd (s.fdToChannelStatus.get fd) body] := by
  cases hlen : body.length with
  | zero =>
      rw [hlen, Net.writeLoop] at h
      cases h
      exact Or.inl rfl
  | succ n =>
      rw [hlen, Net.writeLoop, if_neg (Nat.succ_ne_zero n), ← hlen, List.take_length] at h
      rw [Net.write] at h
      have hn : ∀ n, (K.write s.kernel fd body).1 = .ok n → n = body.length := fun _ => hfull
      cases hw : K.write s.kernel fd body with
      | mk r k =>
          rw [hw] at h hn
          cases r with
          | error e =>
              cases h
              exact Or.inl (List.append_nil _)
          | ok taken =>
              have htaken := hn taken rfl
              subst htaken
              dsimp only at h
              rw [Nat.sub_self, List.take_length] at h
              -- nothing is left to write
              have hdone {s₁ : Net κ} {z : ℤ} : s₁.writeLoop K n fd body 0 z = (z, s₁) := by
                cases n <;> rfl
              rw [hdone] at h
              cases h
              exact Or.inr rfl

theorem log_deliverTaken (hfull : K.WritesInFull) (cfg : ConfigFile) (s : Net κ) {m : Msg}
    (hlen : m.content.length = 8 + m.size) :
    (s.deliverTaken K cfg m).network = s.network
      ∧ ((s.deliverTaken K cfg m).log = s.log
        ∨ ∃ st, s.fdToChannelStatus.get (s.heap m.fd) = some st
          ∧ (s.deliverTaken K cfg m).log = s.log ++ [.wrote (s.heap m.fd) (some st) m.body]) := by
  rw [Net.deliverTaken]
  cases hst : s.fdToChannelStatus.get (s.heap m.fd) with
  | none => exact ⟨rfl, Or.inl rfl⟩
  | some st =>
      dsimp only
      cases htag : st.disconnected with
      | true => exact ⟨rfl, Or.inl rfl⟩
      | false =>
          rw [if_neg (by decide)]
          -- the size in the header is that of the body, so the loop writes all of it
          have hbody : m.body.length = m.size := by
            rw [Msg.body, List.length_drop, hlen]
            omega
          rw [← hbody]
          cases hloop : s.writeLoop K m.body.length (s.heap m.fd) m.body m.body.length
            (K.garbage s.kernel) with
          | mk size s₁ =>
              have hio := (Path.writeLoop (R := .delivering) trivial _ hloop hst htag).2
              have hlog := log_writeLoop hfull hloop
              rw [hst] at hlog
              have hclose := onlyTable_closeConnection (K := K) s₁ (s.heap m.fd) (!cfg.isDirect)
              dsimp only
              split
              · rw [hclose.network, hclose.log]
                exact ⟨hio.network, hlog.imp id fun hlog => ⟨st, rfl, hlog⟩⟩
              · exact ⟨hio.network, hlog.imp id fun hlog => ⟨st, rfl, hlog⟩⟩

/-- A command that is taken in full appears on the descriptor with its header. -/
theorem log_sendCmd {s : Net κ} {node : String} {text : Bytes} {fd : Fd}
    (hport : (cfg.getNodeAddr node).sinPort ≠ INVALID_PORT)
    (hfd : s.clientToFd.get (cfg.getNodeAddr node) = some fd)
    (hfull : (K.write s.kernel fd (cmdFrame text)).1 = .ok (cmdFrame text).length) :
    (s.sendCmd K cfg node text).log
      = s.log ++ [.wrote fd (s.fdToChannelStatus.get fd) (cmdFrame text)] := by
  rw [Net.sendCmd]
  dsimp only
  rw [if_neg hport, hfd]
  dsimp only
  rw [← cmdFrame, Net.write]
  cases hw : K.write s.kernel fd (cmdFrame text) with
  | mk r k =>
      rw [hw] at hfull
      dsimp only at hfull ⊢
      rw [hfull]
      show s.log ++ [.wrote fd _ ((cmdFrame text).take (cmdFrame text).length)] = _
      rw [List.take_length]

/-- A command is written at once, or nothing is. -/
theorem log_sendCmd_full (hfull : K.WritesInFull) (cfg : ConfigFile) (s : Net κ) (node : String)
    (text : Bytes) :
    (s.sendCmd K cfg node text).log = s.log
      ∨ ∃ fd, s.clientToFd.get (cfg.getNodeAddr node) = some fd
        ∧ (s.sendCmd K cfg node text).log
          = s.log ++ [.wrote fd (s.fdToChannelStatus.get fd) (cmdFrame text)] := by
  by_cases hport : (cfg.getNodeAddr node).sinPort = INVALID_PORT
  · left
    rw [Net.sendCmd]
    dsimp only
    rw [if_pos hport]
  cases hfd : s.clientToFd.get (cfg.getNodeAddr node) with
  | none =>
      left
      rw [Net.sendCmd]
      dsimp only
      rw [if_neg hport, hfd]
  | some fd =>
      cases hw : K.write s.kernel fd (cmdFrame text) with
      | mk r k =>
          cases r with
          | ok n =>
              have hn : n = (cmdFrame text).length := hfull (congrArg Prod.fst hw)
              exact Or.inr ⟨fd, rfl, log_sendCmd hport hfd (by rw [hw, hn])⟩
          | error e =>
              left
              rw [Net.sendCmd]
              dsimp only
              rw [if_neg hport, hfd]
              dsimp only
              rw [← cmdFrame, Net.write, hw]
              exact List.append_nil _

/-- Messages are dropped; or a message is taken off a queue and written to the end that
it is for. -/
def Delivers (s s' : Net κ) : Prop :=
  (s'.log = s.log ∧ Thinned s.network s'.network)
    ∨ ∃ c lost m rest fd st, s.network.get c = some (lost ++ m :: rest) ∧ st.selfFd = m.fd
      ∧ st.channel = c.swap ∧ s.fdToChannelStatus.get fd = some st
      ∧ s'.network = s.network.insert c rest ∧ s'.log = s.log ++ [.wrote fd (some st) m.body]

theorem Delivers.log_subset {s s' : Net κ} (h : Delivers s s') {ev : Event} (hev : ev ∈ s.log) :
    ev ∈ s'.log := by
  obtain ⟨hlog, -⟩ | ⟨_, _, _, _, _, _, -, -, -, -, -, hlog⟩ := h
  · rw [hlog]
    exact hev
  · rw [hlog]
    exact List.mem_append_left _ hev

theorem delivers_deliverMsg (hfull : K.WritesInFull) (cfg : ConfigFile) {s : Net κ}
    (haddressed : s.Addressed) (c : Channel) : Delivers s (s.deliverMsg K cfg c) := by
  rw [Net.deliverMsg]
  cases hq : s.network.get c with
  | none => exact Or.inl ⟨rfl, .refl _⟩
  | some q =>
      dsimp only
      cases hm : Net.dequeueOpen s.heap q with
      | mk m rest =>
          obtain ⟨lost, rfl, hopen⟩ := dequeueOpen_eq hm
          have hsub : rest.Sublist (lost ++ (m.toList ++ rest)) :=
            (List.sublist_append_right m.toList rest).trans (List.sublist_append_right lost _)
          have hthinned := thinned_insert hq hsub
          cases m with
          | none => exact Or.inl ⟨rfl, hthinned⟩
          | some msg =>
              have haddr := haddressed c _ hq msg (by simp)
              obtain ⟨st, hst, hself, hchannel⟩ := haddr.entry (hopen msg rfl)
              obtain ⟨hnetwork, hlog⟩ := log_deliverTaken hfull cfg
                { s with network := s.network.insert c rest } haddr.length
              rcases hlog with hlog | ⟨st', hst', hlog⟩
              · -- nothing was written: the message is dropped
                exact Or.inl ⟨hlog, hnetwork ▸ hthinned⟩
              · replace hst' : s.fdToChannelStatus.get (s.heap msg.fd) = some st' := hst'
                rw [hst] at hst'
                cases hst'
                exact Or.inr ⟨c, lost, msg, rest, _, st, hq, hself, hchannel, hst, hnetwork, hlog⟩

theorem delivers_deliverCmd (hfull : K.WritesInFull) (cfg : ConfigFile) {s : Net κ}
    (haddressed : s.Addressed) (src dst : String) : Delivers s (s.deliverCmd K cfg src dst) := by
  rw [Net.deliverCmd]
  dsimp only
  split
  · exact Or.inl ⟨rfl, .refl _⟩
  · exact delivers_deliverMsg hfull cfg haddressed _

theorem Net.Relays.delivers {s s' : Net κ} {e : End} (h : s.Relays e) (hdelivers : Delivers s s') :
    s'.Relays e := by
  rw [Net.Relays] at h ⊢
  obtain ⟨hlog, hthinned⟩ | ⟨c, lost, m, rest, fd, st, hq, hself, hchannel, -, hnetwork, hlog⟩ :=
    hdelivers
  -- nothing is written, and messages that are dropped leave the rest in order
  · rw [hlog]
    exact h.drop (queuedFor_sublist hthinned e)
  · have hwritten : (Event.wrote fd (some st) m.body).writtenTo e.peer
        = if st.toEnd = e.peer then some m.body else none := rfl
    have hreceived : (Event.wrote fd (some st) m.body).receivedOn e = none := rfl
    rw [hlog, receivedOn_snoc, writtenTo_snoc, hwritten, hreceived, Option.toList_none,
      List.append_nil]
    by_cases hend : st.toEnd = e.peer
    · -- the message was received on `e`, and it is the next one
      have hfd : m.fd = e.fd := hself.symm.trans (congrArg End.selfFd hend)
      have hc : e.channel = c := by
        have hswap : st.channel = e.channel.swap := congrArg End.channel hend
        rw [hchannel] at hswap
        rw [← e.channel.swap_swap, ← hswap, Channel.swap_swap]
      have hbefore : s.queuedFor e = (lost.filter fun m => m.fd = e.fd).map Msg.body
          ++ m.body :: (rest.filter fun m => m.fd = e.fd).map Msg.body := by
        rw [Net.queuedFor, hc, hq]
        simp [hfd]
      have hafter : s'.queuedFor e
          = (rest.filter fun m => m.fd = e.fd).map Msg.body := by
        rw [Net.queuedFor, hnetwork, hc]
        simp
      rw [hbefore] at h
      rw [if_pos hend, hafter]
      exact h.give
    · -- a message for another end of the channel
      have hsub : rest.Sublist (lost ++ m :: rest) :=
        (List.sublist_cons_self m rest).trans (List.sublist_append_right lost _)
      have hthinned : Thinned s.network s'.network := by
        rw [hnetwork]
        exact thinned_insert hq hsub
      rw [if_neg hend, Option.toList_none, List.append_nil]
      exact h.drop (queuedFor_sublist hthinned e)

/-! ### Runs -/

/-- `do_receive` goes on to the pass-through on the end: its descriptor is tagged as
unintercepted, or is being tagged. -/
def PassesFrom (K : Kernel κ Ctl Addr) (cfg : ConfigFile) (e : End) (t : Step (Net κ) Act) : Prop :=
  ∃ fd st, t.act = .readable fd ∧ t.src.fdToChannelStatus.get fd = some st ∧ st.toEnd = e
    ∧ t.src.PassesThrough K cfg fd

/-- The bytes come from the other end of the connection. They are the body of a message that
is queued for this end, and that was received on the other one; or they pass through from
there. -/
def FromPeer (K : Kernel κ Ctl Addr) (cfg : ConfigFile) (t : Step (Net κ) Act)
    (st : ChannelStatus) (data : Bytes) : Prop :=
  (∃ c q m fd src, t.src.network.get c = some q ∧ m ∈ q ∧ m.fd = st.selfFd ∧ data = m.body
    ∧ Event.received fd (some src) m.content ∈ t.src.log ∧ src.toEnd = st.toEnd.peer)
  ∨ PassesFrom K cfg st.toEnd.peer t

/-- The step is a command for a client of the router, and the bytes are this command, on
the descriptor of the client. -/
def IsCommand (cfg : ConfigFile) (t : Step (Net κ) Act) (fd : Fd) (data : Bytes) : Prop :=
  ∃ node text, t.act = .cmd node text ∧ t.src.clientToFd.get (cfg.getNodeAddr node) = some fd
    ∧ data = cmdFrame text

/-- What the step writes to connections comes from their other ends. What it writes to a
descriptor of no connection, which may have been one before, is a command. -/
def WritesToPeers (K : Kernel κ Ctl Addr) (cfg : ConfigFile) (t : Step (Net κ) Act) : Prop :=
  ∃ new, t.dst.log = t.src.log ++ new ∧
    (∀ fd st data, Event.wrote fd (some st) data ∈ new → FromPeer K cfg t st data)
    ∧ ∀ fd data, Event.wrote fd none data ∈ new → IsCommand cfg t fd data

theorem Act.scope_raw {a : Act} {s : Net κ} (fd : Fd) (h : (a.scope K cfg s).raw fd) :
    a = .readable fd ∧ s.PassesThrough K cfg fd
      ∧ (∀ c, ¬ (a.scope K cfg s).connect c) ∧ ¬ (a.scope K cfg s).untag := by
  cases a with
  | readable fd' =>
      obtain ⟨rfl, hpasses⟩ := h
      exact ⟨rfl, hpasses, fun _ hf => hf, fun hf => hf⟩
  | _ => exact False.elim h

/-- Only a command `deliver` writes messages, in the other strategies. -/
theorem Act.scope_deliver (hdirect : cfg.isDirect = false) {a : Act} {s : Net κ}
    (h : (a.scope K cfg s).deliver) : ∃ src dst, a = .deliver src dst := by
  cases a with
  | deliver src dst => exact ⟨src, dst, rfl⟩
  | readable fd =>
      replace h : cfg.isDirect = true := h
      rw [hdirect] at h
      cases h
  | _ => exact False.elim h

theorem Act.scope_command {a : Act} {s : Net κ} (h : (a.scope K cfg s).command) :
    ∃ node text, a = .cmd node text := by
  cases a with
  | cmd node text => exact ⟨node, text, rfl⟩
  | _ => exact False.elim h

/-- One step keeps the queue of an end a buffer, if nothing passes through from it. -/
theorem Net.Relays.step (hdirect : cfg.isDirect = false) (hfull : K.WritesInFull)
    (hpeek : K.PeekKeeps) {s s' : Net κ} {act : Act} {e : End} (hs : s.Consistent K)
    (haddressed : s.Addressed) (h : s.Identifies e → s.Relays e) (hstep : act.Step K cfg s s')
    (hpasses : ¬ PassesFrom K cfg e ⟨s, act, s'⟩) : s'.Identifies e → s'.Relays e := by
  have hpath := Act.Step.path hs.apart hstep
  by_cases hdeliver : (act.scope K cfg s).deliver
  · -- taken as one step, since in between the message is neither queued nor written
    obtain ⟨src, dst, rfl⟩ := Act.scope_deliver hdirect hdeliver
    obtain ⟨-, rfl⟩ := hstep
    have hdelivers := delivers_deliverCmd hfull cfg haddressed src dst
    exact fun hid => (h (hid.of_subset fun _ => hdelivers.log_subset)).delivers hdelivers
  · have hframed : Framed (act.scope K cfg s) s e := by
      intro fd st hraw hst hend
      obtain ⟨hact, hthrough, -⟩ := Act.scope_raw fd hraw
      exact hpasses ⟨fd, st, hact, hst, hend, hthrough⟩
    exact (Net.Relays.path hdeliver (fun fd hraw => (Act.scope_raw fd hraw).2.2) hpeek hs h hframed
      hpath).1

/-- A path that establishes no connection leaves some of the entries. -/
theorem Path.shrinks (hconnect : ∀ c, ¬ R.connect c) (huntag : ¬ R.untag) {s s' : Net κ}
    (hpath : Path K R s s') : Shrinks s s' := by
  induction hpath with
  | refl => exact .refl s
  | tail _ hatom ih =>
      refine ih.trans fun x st' hst' => ?_
      obtain hentry | ⟨c, hc, -⟩ := hatom.entry huntag hst'
      · exact hentry
      · exact absurd hc (hconnect c)

/-- What is written along a path that writes neither messages nor commands passes through,
and every descriptor it is written to has an entry. -/
theorem Path.writes (hdeliver : ¬ R.deliver) (hcommand : ¬ R.command)
    (hraw : ∀ fd, R.raw fd → (∀ c, ¬ R.connect c) ∧ ¬ R.untag)
    {s s' : Net κ} (hs : s.Consistent K) (hpath : Path K R s s') :
    ∃ new, s'.log = s.log ++ new ∧ ∀ fd conn data, Event.wrote fd conn data ∈ new →
      ∃ st inFd src, conn = some st ∧ R.raw inFd ∧ s.fdToChannelStatus.get inFd = some src
        ∧ src.toEnd = st.toEnd.peer := by
  induction hpath with
  | refl => exact ⟨[], (List.append_nil _).symm, fun _ _ _ hmem => by cases hmem⟩
  | @tail s₁ s₂ hrest hatom ih =>
      obtain ⟨new, hnew, hwrites⟩ := ih
      -- one more event, or none
      have hsnoc (last : List Event) (hlog : s₂.log = s₁.log ++ last)
          (hlast : ∀ fd conn data, Event.wrote fd conn data ∈ last →
            ∃ st inFd src, conn = some st ∧ R.raw inFd ∧ s.fdToChannelStatus.get inFd = some src
              ∧ src.toEnd = st.toEnd.peer) :
          ∃ new, s₂.log = s.log ++ new ∧ ∀ fd conn data, Event.wrote fd conn data ∈ new →
            ∃ st inFd src, conn = some st ∧ R.raw inFd ∧ s.fdToChannelStatus.get inFd = some src
              ∧ src.toEnd = st.toEnd.peer := by
        refine ⟨new ++ last, by rw [hlog, hnew, List.append_assoc], fun fd conn data hmem => ?_⟩
        rcases List.mem_append.mp hmem with hmem | hmem
        · exact hwrites fd conn data hmem
        · exact hlast fd conn data hmem
      cases hatom.traffic (hs.path hrest) with
      | quiet hlog _ =>
          exact hsnoc [] (hlog.trans (List.append_nil _).symm) fun _ _ _ hmem => by cases hmem
      | received hlog _ => exact hsnoc _ hlog (by simp)
      | message _ hlog _ => exact hsnoc _ hlog (by simp)
      | command hR _ _ => exact absurd hR hcommand
      | @raw inFd fd src dst data hfd hsrc hends _ hlog _ =>
          refine hsnoc _ hlog fun fd' conn data' hmem => ?_
          obtain ⟨-, rfl, -⟩ : fd' = fd ∧ conn = some dst ∧ data' = data := by simpa using hmem
          -- the entry at the time of the write is left from the start of the path
          obtain ⟨hconnect, huntag⟩ := hraw inFd hfd
          obtain ⟨src₀, hsrc₀, hr⟩ := Path.shrinks hconnect huntag hrest inFd src hsrc
          refine ⟨dst, inFd, src₀, rfl, hfd, hsrc₀, ?_⟩
          rw [hends, End.peer_peer, hr.toEnd_eq]
      | delivery hR _ _ _ => exact absurd hR hdeliver

/-- `deliver` takes a message off the queue, and writes it to the end that is registered for
its cell. -/
theorem writesToPeers_deliver (hfull : K.WritesInFull) {s : Net κ} {reg : ℕ → Option End}
    (hs : s.Consistent K) (haddressed : s.Addressed) (hreg : s.Registered reg)
    (src dst : String) :
    WritesToPeers K cfg ⟨s, .deliver src dst, s.deliverCmd K cfg src dst⟩ := by
  obtain ⟨hlog, -⟩ | ⟨c, lost, m, rest, fd, st, hq, hself, -, hst, -, hlog⟩ :=
    delivers_deliverCmd hfull cfg haddressed src dst
  · exact ⟨[], hlog.trans (List.append_nil _).symm, by simp, by simp⟩
  · refine ⟨_, hlog, fun fd' st' data hmem => Or.inl ?_, by simp⟩
    obtain ⟨-, rfl, rfl⟩ : fd' = fd ∧ st' = st ∧ data = m.body := by simpa using hmem
    obtain ⟨-, -, -, fd₀, src₀, hreceived, -, hcell⟩ := haddressed c _ hq m (by simp)
    refine ⟨c, _, m, fd₀, src₀, hq, by simp, hself.symm, rfl, hreceived, ?_⟩
    -- both ends are registered for the cell that the message refers to
    have hsrc := (hreg.log _ hreceived src₀ rfl).1
    have hdst := (hreg.entry hs hst).2
    rw [hcell, ← hself, hdst] at hsrc
    exact (Option.some.inj hsrc).symm

/-- `cmd` writes the command to the descriptor of the client, which has no entry. -/
theorem writesToPeers_cmd (hfull : K.WritesInFull) {s : Net κ} (hs : s.Consistent K)
    (node : String) (text : Bytes) :
    WritesToPeers K cfg ⟨s, .cmd node text, s.sendCmd K cfg node text⟩ := by
  obtain hlog | ⟨fd, hclient, hlog⟩ := log_sendCmd_full hfull cfg s node text
  · exact ⟨[], hlog.trans (List.append_nil _).symm, by simp, by simp⟩
  · rw [hs.get_of_client hclient] at hlog
    refine ⟨_, hlog, by simp, fun fd' data hmem => ?_⟩
    obtain ⟨rfl, rfl⟩ : fd' = fd ∧ data = cmdFrame text := by simpa using hmem
    exact ⟨node, text, rfl, hclient, rfl⟩

theorem writesToPeers_step (hdirect : cfg.isDirect = false) (hfull : K.WritesInFull) {s s' : Net κ}
    {act : Act} {reg : ℕ → Option End} (hs : s.Consistent K) (haddressed : s.Addressed)
    (hreg : s.Registered reg) (hstep : act.Step K cfg s s') : WritesToPeers K cfg ⟨s, act, s'⟩ := by
  have hpath := Act.Step.path hs.apart hstep
  by_cases hdeliver : (act.scope K cfg s).deliver
  · obtain ⟨src, dst, rfl⟩ := Act.scope_deliver hdirect hdeliver
    obtain ⟨-, rfl⟩ := hstep
    exact writesToPeers_deliver hfull hs haddressed hreg src dst
  by_cases hcommand : (act.scope K cfg s).command
  · obtain ⟨node, text, rfl⟩ := Act.scope_command hcommand
    obtain ⟨-, rfl⟩ := hstep
    exact writesToPeers_cmd hfull hs node text
  -- any other step only passes on what came in
  obtain ⟨new, hnew, hwrites⟩ :=
    Path.writes hdeliver hcommand (fun fd hraw => (Act.scope_raw fd hraw).2.2) hs hpath
  refine ⟨new, hnew, fun fd st data hmem => Or.inr ?_, fun fd data hmem => ?_⟩
  · obtain ⟨_, inFd, src, ⟨⟩, hraw, hsrc, hend⟩ := hwrites fd (some st) data hmem
    obtain ⟨hact, hthrough, -⟩ := Act.scope_raw inFd hraw
    exact ⟨inFd, src, hact, hsrc, hend, hthrough⟩
  · obtain ⟨_, _, _, ⟨⟩, -⟩ := hwrites fd none data hmem

/-- In every run, in which the strategy is not the direct one and a `write` takes a body
or fails: what is written to an end that nothing passes through to is a subsequence of
the messages received on the other end; whatever is written to a connection in a step comes
from its other end; and what is written to any other descriptor is a command for a client of
the router. -/
theorem messages_delivered_in_order (hdirect : cfg.isDirect = false) (hfull : K.WritesInFull)
    (hpeek : K.PeekKeeps) {tr : List (Step (Net κ) Act)} {s : Net κ}
    (h : (tcpNetwork K cfg).Run tr s) :
    (∀ e : End, (∀ t ∈ tr, ¬ PassesFrom K cfg e t) →
        (writtenTo s.log e.peer).Sublist (receivedOn s.log e))
      ∧ ∀ t ∈ tr, WritesToPeers K cfg t := by
  refine ⟨fun e hpasses => ?_, fun t ht => ?_⟩
  · have hrelays : s.Identifies e → s.Relays e := by
      refine h.invariant (P := fun tr s =>
        (∀ t ∈ tr, ¬ PassesFrom K cfg e t) → s.Identifies e → s.Relays e) ?_ ?_ hpasses
      · rintro s ⟨-, hnetwork, -, -, -, -, hlog⟩ - -
        rw [Net.Relays, Net.queuedFor, hlog, hnetwork]
        exact .nil
      · intro tr s act s' hrun ih hstep hpasses
        refine Net.Relays.step hdirect hfull hpeek (.of_run hrun) (.of_run hrun) (ih fun t ht => ?_)
          hstep (hpasses _ (by simp))
        exact hpasses t (List.mem_append_left _ ht)
    -- what was written identifies the ends of the connection
    by_cases hnil : writtenTo s.log e.peer = []
    · rw [hnil]
      exact List.nil_sublist _
    · obtain ⟨data, hdata⟩ := List.exists_mem_of_ne_nil _ hnil
      obtain ⟨reg, hreg⟩ := Net.Registered.of_run h
      exact (hrelays (hreg.identifies hdata)).sublist
  · obtain ⟨hstep, pre, post, -, hpre⟩ := h.mem_split ht
    obtain ⟨reg, hreg⟩ := Net.Registered.of_run hpre
    exact writesToPeers_step hdirect hfull (.of_run hpre) (.of_run hpre) hreg hstep

namespace Demo

/-- The end of `n1` in the first connection. -/
def firstEnd : End := ⟨⟨⟨n1.sAddr, 0⟩, ⟨n2.sAddr, 0⟩⟩, 0, 1⟩

/-- Two messages of `n1`. -/
def twoFramed : Bytes := framed ++ [0xde, 0xad, 0xbe, 0xef, 0, 0, 0, 1, 66]

/-- Both are queued by one event. -/
def queuedTwo : Net (Stream Addr) := handled (sent accepted twoFramed)

/-- The first is delivered, and then the other. -/
def deliveredOne : Net (Stream Addr) := queuedTwo.deliverCmd kernel config "n1" "n2"

def deliveredTwo : Net (Stream Addr) := deliveredOne.deliverCmd kernel config "n1" "n2"

/-- The steps up to the queue. -/
def queueingTwo : List (Step (Net (Stream Addr)) Act) :=
  [⟨start, .accept, accepted⟩, ⟨accepted, .environment, sent accepted twoFramed⟩,
    ⟨sent accepted twoFramed, .readable 1, queuedTwo⟩]

theorem run_queuedTwo : (tcpNetwork kernel config).Run queueingTwo queuedTwo :=
  run_step (run_step run_accepted (step_sent (by decide) twoFramed))
    (step_handled (by decide) (by decide))

theorem run_deliveredTwo : (tcpNetwork kernel config).Run
    (queueingTwo ++ [⟨queuedTwo, .deliver "n1" "n2", deliveredOne⟩]
      ++ [⟨deliveredOne, .deliver "n1" "n2", deliveredTwo⟩]) deliveredTwo := by
  have hfirst : Act.Step kernel config (.deliver "n1" "n2") queuedTwo deliveredOne :=
    ⟨by decide, rfl⟩
  have hsecond : Act.Step kernel config (.deliver "n1" "n2") deliveredOne deliveredTwo :=
    ⟨by decide, rfl⟩
  exact run_step (run_step run_queuedTwo hfirst) hsecond

/-- The event of the messages does not go on to the pass-through. -/
theorem not_passesThrough_twoFramed :
    ¬ (sent accepted twoFramed).PassesThrough kernel config 1 := by
  rintro ⟨fuel, s, h⟩
  have hphase : ((sent accepted twoFramed).receivePhase kernel config fuel 1).map Prod.fst
      = some true := by
    rw [h]
    rfl
  match fuel with
  | 0 => exact absurd hphase (by decide)
  | 1 => exact absurd hphase (by decide)
  | 2 => exact absurd hphase (by decide)
  | n + 3 =>
      -- after the messages the receive queue is empty
      have hdone : ((sent accepted twoFramed).receivePhase kernel config (n + 3) 1).map Prod.fst
          = some false := rfl
      rw [hdone] at hphase
      cases hphase

theorem not_passesFrom_queueingTwo :
    ∀ t ∈ queueingTwo, ¬ PassesFrom kernel config firstEnd t := by
  rintro t ht ⟨fd, st, hact, -, -, hthrough⟩
  simp only [queueingTwo, List.mem_cons, List.not_mem_nil, or_false] at ht
  rcases ht with rfl | rfl | rfl
  · cases hact
  · cases hact
  · cases hact
    exact not_passesThrough_twoFramed hthrough

/-- A command `deliver` passes nothing through. -/
theorem not_passesFrom_deliveredTwo {t : Step (Net (Stream Addr)) Act}
    (ht : t ∈ queueingTwo ++ [⟨queuedTwo, .deliver "n1" "n2", deliveredOne⟩]
      ++ [⟨deliveredOne, .deliver "n1" "n2", deliveredTwo⟩]) :
    ¬ PassesFrom kernel config firstEnd t := by
  simp only [List.mem_append, List.mem_singleton] at ht
  rcases ht with (ht | rfl) | rfl
  · exact not_passesFrom_queueingTwo t ht
  · rintro ⟨fd, st, hact, -⟩
    cases hact
  · rintro ⟨fd, st, hact, -⟩
    cases hact

/-- The two messages that were received from `n1` were written to `n2`, in this order. -/
theorem messages_delivered_in_order_queued :
    writtenTo deliveredTwo.log firstEnd.peer = [[65], [66]]
      ∧ (writtenTo deliveredTwo.log firstEnd.peer).Sublist (receivedOn deliveredTwo.log firstEnd) :=
  ⟨by decide, (messages_delivered_in_order rfl (writesInFull_streamKernel Addr Ctl)
    (peekKeeps_streamKernel Addr Ctl) run_deliveredTwo).1 firstEnd
    fun _ => not_passesFrom_deliveredTwo⟩

end Demo

end Tmet.Tproxy
