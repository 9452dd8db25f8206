import Tmet.Proofs.Tproxy.Atoms

/-!
# `Tmet.Proofs.Tproxy.Tables`: the tables of the proxy are consistent

`Net.Consistent` holds in every state of every run (`Consistent.of_run`). Its
heart is `Linked`: the two entries of a connection point at each other through the
same two cells, and their channels are reverse to each other. The rest keeps this
from being disturbed. Keys are open descriptors, so that a new descriptor is not a
key; cells are allocated below `nextCell`; a descriptor belongs to a connection or
to a client of the router, not to both.

Every handler is a path of atoms, so each atom is one case.
-/

set_option autoImplicit false

namespace Tmet.Tproxy

open Tmet.Lib Tmet.Posix

variable {κ : Type} {K : Kernel κ Ctl Addr} {cfg : ConfigFile} {R : Scope}

/-- The entry `st` of `fd` and the entry of its peer, `st'`. -/
structure Net.Pair (s : Net κ) (fd : Fd) (st st' : ChannelStatus) : Prop where
  self : s.heap st.selfFd = fd
  peer : s.fdToChannelStatus.get (s.heap st.fd) = some st'
  ne : s.heap st.fd ≠ fd
  fd_eq : st'.fd = st.selfFd
  selfFd_eq : st'.selfFd = st.fd
  channel_eq : st'.channel = st.channel.swap

/-- Every entry has a peer. -/
def Net.Linked (s : Net κ) : Prop :=
  ∀ fd st, s.fdToChannelStatus.get fd = some st → ∃ st', s.Pair fd st st'

/-- What holds of the tables in every state. -/
structure Net.Consistent (K : Kernel κ Ctl Addr) (s : Net κ) : Prop where
  linked : s.Linked
  cell_lt : ∀ fd st, s.fdToChannelStatus.get fd = some st → st.selfFd < s.nextCell
  conn_open : ∀ fd st, s.fdToChannelStatus.get fd = some st → fd ∈ K.fds s.kernel
  client_open : ∀ fd a, s.fdToClient.get fd = some a → fd ∈ K.fds s.kernel
  apart : s.Apart
  client : ∀ a fd, s.clientToFd.get a = some fd → s.fdToClient.get fd = some a
  unintercepted : ∀ fd ∈ s.uninterceptedFd, ∃ st, s.fdToChannelStatus.get fd = some st

/-- The descriptor of a client has no entry. -/
theorem Net.Consistent.get_of_client {s : Net κ} (hs : s.Consistent K) {a : Addr} {fd : Fd}
    (hclient : s.clientToFd.get a = some fd) : s.fdToChannelStatus.get fd = none := by
  have hfd := hs.client a fd hclient
  cases hst : s.fdToChannelStatus.get fd with
  | none => rfl
  | some st =>
      rw [hs.apart fd st hst] at hfd
      cases hfd

theorem Net.Linked.congr {s s' : Net κ} (h : s.Linked)
    (hst : s'.fdToChannelStatus = s.fdToChannelStatus) (hheap : s'.heap = s.heap) :
    s'.Linked := by
  intro fd st hget
  rw [hst] at hget
  obtain ⟨st', hp⟩ := h fd st hget
  refine ⟨st', ?_, ?_, ?_, hp.fd_eq, hp.selfFd_eq, hp.channel_eq⟩
  · rw [hheap]
    exact hp.self
  · rw [hheap, hst]
    exact hp.peer
  · rw [hheap]
    exact hp.ne

namespace Net.Consistent

/-- The tables are the same, and no descriptor was closed. -/
theorem congr {s s' : Net κ} (h : s.Consistent K)
    (hst : s'.fdToChannelStatus = s.fdToChannelStatus) (hclient : s'.clientToFd = s.clientToFd)
    (hfd : s'.fdToClient = s.fdToClient) (hui : s'.uninterceptedFd = s.uninterceptedFd)
    (hheap : s'.heap = s.heap) (hnext : s'.nextCell = s.nextCell)
    (hfds : K.fds s.kernel ⊆ K.fds s'.kernel) : s'.Consistent K where
  linked := h.linked.congr hst hheap
  cell_lt fd st hget := by
    rw [hst] at hget
    rw [hnext]
    exact h.cell_lt fd st hget
  conn_open fd st hget := by
    rw [hst] at hget
    exact hfds (h.conn_open fd st hget)
  client_open fd a hget := by
    rw [hfd] at hget
    exact hfds (h.client_open fd a hget)
  apart fd st hget := by
    rw [hst] at hget
    rw [hfd]
    exact h.apart fd st hget
  client a fd hget := by
    rw [hclient] at hget
    rw [hfd]
    exact h.client a fd hget
  unintercepted fd hmem := by
    rw [hui] at hmem
    rw [hst]
    exact h.unintercepted fd hmem

end Net.Consistent

/-! ### Tags -/

/-- An entry after a tag, and the one it was. -/
theorem get_setDisconnected {s : Net κ} {fd x : Fd} {b : Bool} {st : ChannelStatus}
    (h : (s.setDisconnected fd b).fdToChannelStatus.get x = some st) :
    ∃ st₀, s.fdToChannelStatus.get x = some st₀ ∧ st.channel = st₀.channel
      ∧ st.selfFd = st₀.selfFd ∧ st.fd = st₀.fd
      ∧ st.disconnected = if x = fd then b else st₀.disconnected := by
  replace h : (s.fdToChannelStatus.except fd _).get x = some st := h
  rw [FinFn.get_except] at h
  split at h
  · obtain ⟨st₀, hst₀, rfl⟩ := Option.map_eq_some_iff.mp h
    exact ⟨st₀, hst₀, rfl, rfl, rfl, by rw [if_pos ‹_›]⟩
  · exact ⟨st, h, rfl, rfl, rfl, by rw [if_neg ‹_›]⟩

/-- An entry before a tag, and what becomes of it. -/
theorem get_setDisconnected_of_get {s : Net κ} {x : Fd} {st₀ : ChannelStatus}
    (h : s.fdToChannelStatus.get x = some st₀) (fd : Fd) (b : Bool) :
    ∃ st, (s.setDisconnected fd b).fdToChannelStatus.get x = some st ∧ st.channel = st₀.channel
      ∧ st.selfFd = st₀.selfFd ∧ st.fd = st₀.fd
      ∧ st.disconnected = if x = fd then b else st₀.disconnected := by
  show ∃ st, (s.fdToChannelStatus.except fd _).get x = some st ∧ _
  rw [FinFn.get_except, h]
  by_cases hx : x = fd
  · rw [if_pos hx]
    exact ⟨_, rfl, rfl, rfl, rfl, by rw [if_pos hx]⟩
  · rw [if_neg hx]
    exact ⟨st₀, rfl, rfl, rfl, rfl, by rw [if_neg hx]⟩

theorem Net.Consistent.setDisconnected {s : Net κ} (h : s.Consistent K) (fd : Fd) (b : Bool) :
    (s.setDisconnected fd b).Consistent K where
  linked x st hst := by
    obtain ⟨st₀, hst₀, hchannel, hself, hfd, -⟩ := get_setDisconnected hst
    obtain ⟨st', hp⟩ := h.linked x st₀ hst₀
    -- neither the entry nor that of its peer changes in anything but the tag
    obtain ⟨st'', hst'', hchannel', hself', hfd', -⟩ := get_setDisconnected_of_get hp.peer fd b
    refine ⟨st'', ?_, ?_, ?_, ?_, ?_, ?_⟩
    · rw [hself]; exact hp.self
    · rw [hfd]; exact hst''
    · rw [hfd]; exact hp.ne
    · rw [hfd', hp.fd_eq, hself]
    · rw [hself', hp.selfFd_eq, hfd]
    · rw [hchannel', hp.channel_eq, hchannel]
  cell_lt x st hst := by
    obtain ⟨st₀, hst₀, -, hself, -, -⟩ := get_setDisconnected hst
    rw [hself]
    exact h.cell_lt x st₀ hst₀
  conn_open x st hst := by
    obtain ⟨st₀, hst₀, -⟩ := get_setDisconnected hst
    exact h.conn_open x st₀ hst₀
  client_open := h.client_open
  apart := apart_setDisconnected h.apart fd b
  client := h.client
  unintercepted x hx := by
    obtain ⟨st₀, hst₀⟩ := h.unintercepted x hx
    obtain ⟨st, hst, -⟩ := get_setDisconnected_of_get hst₀ fd b
    exact ⟨st, hst⟩

theorem closeConnection_tag (s : Net κ) {fd : Fd} {st : ChannelStatus}
    (hst : s.fdToChannelStatus.get fd = some st) :
    s.closeConnection K fd true
      = (s.setDisconnected fd true).setDisconnected (s.heap st.fd) true := by
  rw [Net.closeConnection, hst]
  rfl

/-! ### Closing -/

theorem doClose_of_get {s : Net κ} {fd : Fd} {st : ChannelStatus}
    (hst : s.fdToChannelStatus.get fd = some st) :
    s.doClose K fd = { s with
      kernel := K.close s.kernel fd
      uninterceptedFd := s.uninterceptedFd.erase fd
      heap := Function.update s.heap st.selfFd (-1)
      fdToChannelStatus := s.fdToChannelStatus.erase fd } := by
  rw [Net.doClose, hst]
  rfl

/-- The table after `do_close`. -/
theorem get_doClose (s : Net κ) (fd x : Fd) :
    (s.doClose K fd).fdToChannelStatus.get x
      = if x = fd then none else s.fdToChannelStatus.get x := by
  cases hst : s.fdToChannelStatus.get fd with
  | none =>
      rw [Net.doClose, hst]
      by_cases hx : x = fd
      · rw [if_pos hx, hx, hst]
      · rw [if_neg hx]
  | some st =>
      rw [doClose_of_get hst]
      exact FinFn.get_erase _ _ _

/-- The table after a connection is closed. -/
theorem get_closeConnection {s : Net κ} {fd : Fd} {st : ChannelStatus}
    (hst : s.fdToChannelStatus.get fd = some st) (x : Fd) :
    (s.closeConnection K fd false).fdToChannelStatus.get x
      = if x = fd ∨ x = s.heap st.fd then none else s.fdToChannelStatus.get x := by
  have hclose : s.closeConnection K fd false = (((s.setDisconnected fd true).setDisconnected
      (s.heap st.fd) true).doClose K fd).doClose K (s.heap st.fd) := by
    rw [Net.closeConnection, hst]
    rfl
  rw [hclose, get_doClose, get_doClose]
  by_cases hx : x = fd
  · simp [hx]
  · by_cases hx' : x = s.heap st.fd
    · simp [hx']
    · simp [Net.setDisconnected, hx, hx']

/-- What closing a connection does to the tables. -/
structure Net.PairClosed (K : Kernel κ Ctl Addr) (s : Net κ) (fd : Fd) (st : ChannelStatus)
    (s' : Net κ) : Prop where
  get : ∀ x, s'.fdToChannelStatus.get x
    = if x = fd ∨ x = s.heap st.fd then none else s.fdToChannelStatus.get x
  heap : ∀ c, c ≠ st.selfFd → c ≠ st.fd → s'.heap c = s.heap c
  closed : s'.heap st.selfFd = -1 ∧ s'.heap st.fd = -1
  fds : K.fds s'.kernel = ((K.fds s.kernel).erase fd).erase (s.heap st.fd)
  uninterceptedFd : s'.uninterceptedFd = (s.uninterceptedFd.erase fd).erase (s.heap st.fd)

/-- Closing a connection closes the descriptor and its peer, and stores -1 in their
cells. -/
theorem closeConnection_pair {s : Net κ} {fd : Fd} {st st' : ChannelStatus}
    (hst : s.fdToChannelStatus.get fd = some st) (hp : s.Pair fd st st') :
    (s.closeConnection K fd false).kernel = K.close (K.close s.kernel fd) (s.heap st.fd)
      ∧ (s.closeConnection K fd false).heap
        = Function.update (Function.update s.heap st.selfFd (-1)) st.fd (-1)
      ∧ (s.closeConnection K fd false).uninterceptedFd
        = (s.uninterceptedFd.erase fd).erase (s.heap st.fd) := by
  have hne := hp.ne
  -- both entries are still there once they are tagged
  generalize hs₁ : (s.setDisconnected fd true).setDisconnected (s.heap st.fd) true = s₁
  have hst₁ : s₁.fdToChannelStatus.get fd = some { st with disconnected := true } := by
    subst hs₁
    simp [Net.setDisconnected, Ne.symm hne, hst]
  have hst₁' : s₁.fdToChannelStatus.get (s.heap st.fd) = some { st' with disconnected := true } := by
    subst hs₁
    simp [Net.setDisconnected, hne, hp.peer]
  have hclose : s.closeConnection K fd false = (s₁.doClose K fd).doClose K (s.heap st.fd) := by
    rw [Net.closeConnection, hst, ← hs₁]
    rfl
  have hst₂ : (s₁.fdToChannelStatus.erase fd).get (s.heap st.fd)
      = some { st' with disconnected := true } := by
    rw [FinFn.get_erase, if_neg hne]
    exact hst₁'
  rw [hclose, doClose_of_get hst₁, doClose_of_get (by exact hst₂), ← hp.selfFd_eq, ← hs₁]
  exact ⟨rfl, rfl, rfl⟩

theorem pairClosed_closeConnection {s : Net κ} {fd : Fd} {st st' : ChannelStatus}
    (hst : s.fdToChannelStatus.get fd = some st) (hp : s.Pair fd st st') :
    s.PairClosed K fd st (s.closeConnection K fd false) := by
  obtain ⟨hkernel, hheap, hui⟩ := closeConnection_pair (K := K) hst hp
  refine ⟨get_closeConnection hst, fun c hc hc' => ?_, ⟨?_, ?_⟩, ?_, hui⟩
  · rw [hheap, Function.update_of_ne hc', Function.update_of_ne hc]
  · rw [hheap]
    by_cases hc : st.selfFd = st.fd
    · rw [hc, Function.update_self]
    · rw [Function.update_of_ne hc, Function.update_self]
  · rw [hheap, Function.update_self]
  · rw [hkernel, K.fds_close, K.fds_close]

/-- The entries of another connection have nothing to do with a connection. -/
theorem Net.Pair.disjoint {s : Net κ} {fd x : Fd} {st t st' t' : ChannelStatus}
    (hp : s.Pair fd st st') (hst : s.fdToChannelStatus.get fd = some st) (hq : s.Pair x t t')
    (hne : x ≠ fd) (hne' : x ≠ s.heap st.fd) :
    t.selfFd ≠ st.selfFd ∧ t.selfFd ≠ st.fd ∧ t.fd ≠ st.selfFd ∧ t.fd ≠ st.fd
      ∧ s.heap t.fd ≠ fd ∧ s.heap t.fd ≠ s.heap st.fd := by
  have hself : t.selfFd ≠ st.selfFd := by
    intro heq
    exact hne (by rw [← hq.self, heq, hp.self])
  have hself' : t.selfFd ≠ st.fd := by
    intro heq
    exact hne' (by rw [← hq.self, heq])
  -- the peer of `x` points back at `x`, so it is neither of the two
  have hpeer : s.heap t.fd ≠ fd := by
    intro heq
    have hentry := hq.peer
    rw [heq, hst] at hentry
    cases hentry
    exact hself' hq.fd_eq.symm
  have hpeer' : s.heap t.fd ≠ s.heap st.fd := by
    intro heq
    have hentry := hq.peer
    rw [heq, hp.peer] at hentry
    cases hentry
    exact hself (hq.fd_eq.symm.trans hp.fd_eq)
  refine ⟨hself, hself', ?_, ?_, hpeer, hpeer'⟩
  · intro heq
    exact hpeer (by rw [heq, hp.self])
  · intro heq
    exact hpeer' (by rw [heq])

theorem Net.Consistent.closePair {s : Net κ} (h : s.Consistent K) {fd : Fd} {st : ChannelStatus}
    (hst : s.fdToChannelStatus.get fd = some st) :
    (s.closeConnection K fd false).Consistent K := by
  obtain ⟨st', hp⟩ := h.linked fd st hst
  have hclosed := pairClosed_closeConnection (K := K) hst hp
  have hrest := onlyTable_closeConnection (K := K) s fd false
  generalize s.closeConnection K fd false = s' at hclosed hrest
  -- an entry that is left is an entry of another connection, with other cells
  have hleft : ∀ {x t}, s'.fdToChannelStatus.get x = some t →
      x ≠ fd ∧ x ≠ s.heap st.fd ∧ s.fdToChannelStatus.get x = some t := by
    intro x t ht
    rw [hclosed.get] at ht
    split at ht
    · cases ht
    · rename_i hx
      rw [not_or] at hx
      exact ⟨hx.1, hx.2, ht⟩
  have hkept : ∀ {x}, x ≠ fd → x ≠ s.heap st.fd → x ∈ K.fds s.kernel → x ∈ K.fds s'.kernel := by
    intro x hx hx' hmem
    rw [hclosed.fds, Finset.mem_erase, Finset.mem_erase]
    exact ⟨hx', hx, hmem⟩
  constructor
  · intro x t ht
    obtain ⟨hne, hne', ht₀⟩ := hleft ht
    obtain ⟨t', hq⟩ := h.linked x t ht₀
    obtain ⟨h₁, h₂, h₃, h₄, h₅, h₆⟩ := hp.disjoint hst hq hne hne'
    have hheap : s'.heap t.fd = s.heap t.fd := hclosed.heap _ h₃ h₄
    refine ⟨t', ?_, ?_, ?_, hq.fd_eq, hq.selfFd_eq, hq.channel_eq⟩
    · rw [hclosed.heap _ h₁ h₂]
      exact hq.self
    · rw [hheap, hclosed.get, if_neg (not_or.mpr ⟨h₅, h₆⟩)]
      exact hq.peer
    · rw [hheap]
      exact hq.ne
  · intro x t ht
    rw [hrest.nextCell]
    exact h.cell_lt x t (hleft ht).2.2
  · intro x t ht
    obtain ⟨hne, hne', ht₀⟩ := hleft ht
    exact hkept hne hne' (h.conn_open x t ht₀)
  · intro x a ha
    rw [hrest.fdToClient] at ha
    -- a client's descriptor is of no connection, so it is not one of the two
    refine hkept ?_ ?_ (h.client_open x a ha)
    · rintro rfl
      rw [h.apart x st hst] at ha
      cases ha
    · rintro rfl
      rw [h.apart _ st' hp.peer] at ha
      cases ha
  · intro x t ht
    rw [hrest.fdToClient]
    exact h.apart x t (hleft ht).2.2
  · intro a x hx
    rw [hrest.clientToFd] at hx
    rw [hrest.fdToClient]
    exact h.client a x hx
  · intro x hx
    rw [hclosed.uninterceptedFd, Finset.mem_erase, Finset.mem_erase] at hx
    rw [hclosed.get, if_neg (not_or.mpr ⟨hx.2.1, hx.1⟩)]
    exact h.unintercepted x hx.2.2

theorem Net.Consistent.closeLoose {s : Net κ} (h : s.Consistent K) {fd : Fd}
    (hst : s.fdToChannelStatus.get fd = none) (hclient : s.fdToClient.get fd = none) :
    (s.close K fd).Consistent K := by
  -- no entry is about the descriptor that goes
  have hkept : ∀ {x}, x ≠ fd → x ∈ K.fds s.kernel → x ∈ K.fds (s.close K fd).kernel := by
    intro x hx hmem
    show x ∈ K.fds (K.close s.kernel fd)
    rw [K.fds_close, Finset.mem_erase]
    exact ⟨hx, hmem⟩
  refine ⟨h.linked.congr rfl rfl, h.cell_lt, ?_, ?_, h.apart, h.client, h.unintercepted⟩
  · intro x t ht
    refine hkept ?_ (h.conn_open x t ht)
    rintro rfl
    cases hst.symm.trans ht
  · intro x a ha
    refine hkept ?_ (h.client_open x a ha)
    rintro rfl
    cases hclient.symm.trans ha

/-! ### New entries -/

/-- A descriptor that is not open is in no table. -/
theorem Net.Consistent.fresh {s : Net κ} (h : s.Consistent K) {fd : Fd}
    (hfd : fd ∉ K.fds s.kernel) :
    s.fdToChannelStatus.get fd = none ∧ s.fdToClient.get fd = none := by
  constructor
  · cases hst : s.fdToChannelStatus.get fd with
    | none => rfl
    | some st => exact absurd (h.conn_open fd st hst) hfd
  · cases ha : s.fdToClient.get fd with
    | none => rfl
    | some a => exact absurd (h.client_open fd a ha) hfd

/-- The table after `add_fd_to_channel`. -/
theorem get_addFdToChannel {s : Net κ} {fd fd' x : Fd} {src dst : Addr} {st : ChannelStatus}
    (h : (s.addFdToChannel fd fd' src dst).fdToChannelStatus.get x = some st) :
    x = fd' ∧ st = ⟨⟨dst.host, src.host⟩, s.nextCell + 1, s.nextCell, false⟩
      ∨ x ≠ fd' ∧ x = fd ∧ st = ⟨⟨src.host, dst.host⟩, s.nextCell, s.nextCell + 1, false⟩
      ∨ x ≠ fd' ∧ x ≠ fd ∧ s.fdToChannelStatus.get x = some st := by
  replace h : ((s.fdToChannelStatus.insert fd _).insert fd' _).get x = some st := h
  rw [FinFn.get_insert, FinFn.get_insert] at h
  split at h
  · exact Or.inl ⟨‹_›, (Option.some.inj h).symm⟩
  · split at h
    · exact Or.inr (Or.inl ⟨‹_›, ‹_›, (Option.some.inj h).symm⟩)
    · exact Or.inr (Or.inr ⟨‹_›, ‹_›, h⟩)

theorem get_addFdToChannel_dst (s : Net κ) (fd fd' : Fd) (src dst : Addr) :
    (s.addFdToChannel fd fd' src dst).fdToChannelStatus.get fd'
      = some ⟨⟨dst.host, src.host⟩, s.nextCell + 1, s.nextCell, false⟩ := by
  simp [Net.addFdToChannel]

theorem get_addFdToChannel_src (s : Net κ) {fd fd' : Fd} (hne : fd ≠ fd') (src dst : Addr) :
    (s.addFdToChannel fd fd' src dst).fdToChannelStatus.get fd
      = some ⟨⟨src.host, dst.host⟩, s.nextCell, s.nextCell + 1, false⟩ := by
  simp [Net.addFdToChannel, hne]

theorem get_addFdToChannel_of_ne (s : Net κ) {fd fd' x : Fd} (hx : x ≠ fd) (hx' : x ≠ fd')
    (src dst : Addr) : (s.addFdToChannel fd fd' src dst).fdToChannelStatus.get x
      = s.fdToChannelStatus.get x := by
  simp [Net.addFdToChannel, hx, hx']

theorem heap_addFdToChannel_dst (s : Net κ) (fd fd' : Fd) (src dst : Addr) :
    (s.addFdToChannel fd fd' src dst).heap (s.nextCell + 1) = fd' :=
  Function.update_self _ _ _

theorem heap_addFdToChannel_src (s : Net κ) (fd fd' : Fd) (src dst : Addr) :
    (s.addFdToChannel fd fd' src dst).heap s.nextCell = fd := by
  show Function.update (Function.update s.heap s.nextCell fd) (s.nextCell + 1) fd' _ = _
  rw [Function.update_of_ne (by omega), Function.update_self]

/-- The cells of before keep what they hold. -/
theorem heap_addFdToChannel_of_lt (s : Net κ) (fd fd' : Fd) (src dst : Addr) {c : ℕ}
    (hc : c < s.nextCell) : (s.addFdToChannel fd fd' src dst).heap c = s.heap c := by
  show Function.update (Function.update s.heap s.nextCell fd) (s.nextCell + 1) fd' c = _
  rw [Function.update_of_ne (by omega), Function.update_of_ne (by omega)]

/-- The entries of before are not overwritten. -/
theorem Net.Consistent.get_addFdToChannel {s : Net κ} (h : s.Consistent K) {fd fd' x : Fd}
    (hfd : fd ∉ K.fds s.kernel) (hfd' : fd' ∉ K.fds s.kernel) (src dst : Addr) {t : ChannelStatus}
    (ht : s.fdToChannelStatus.get x = some t) :
    (s.addFdToChannel fd fd' src dst).fdToChannelStatus.get x = some t := by
  have hopen := h.conn_open x t ht
  have hx : x ≠ fd := by
    rintro rfl
    exact hfd hopen
  have hx' : x ≠ fd' := by
    rintro rfl
    exact hfd' hopen
  rw [get_addFdToChannel_of_ne s hx hx', ht]

/-- The other cell of an entry is the one of its peer. -/
theorem Net.Consistent.fd_lt {s : Net κ} (h : s.Consistent K) {fd : Fd} {st : ChannelStatus}
    (hst : s.fdToChannelStatus.get fd = some st) : st.fd < s.nextCell := by
  obtain ⟨st', hp⟩ := h.linked fd st hst
  rw [← hp.selfFd_eq]
  exact h.cell_lt _ st' hp.peer

/-- The two new entries are linked, and the others stay so. -/
theorem Net.Consistent.linked_connect {s : Net κ} (h : s.Consistent K) {fd fd' : Fd}
    {src dst : Addr} (hfd : fd ∉ K.fds s.kernel) (hfd' : fd' ∉ K.fds s.kernel) (hne : fd ≠ fd') :
    (s.addFdToChannel fd fd' src dst).Linked := by
  intro x t ht
  -- the entry is that of `fd'`, that of `fd`, or an old one
  rcases Tproxy.get_addFdToChannel ht with ⟨rfl, rfl⟩ | ⟨-, rfl, rfl⟩ | ⟨-, -, ht₀⟩
  · have hsrc := heap_addFdToChannel_src s fd x src dst
    refine ⟨⟨⟨src.host, dst.host⟩, s.nextCell, s.nextCell + 1, false⟩,
      heap_addFdToChannel_dst s fd x src dst, ?_, ?_, rfl, rfl, rfl⟩
    · show (s.addFdToChannel fd x src dst).fdToChannelStatus.get
        ((s.addFdToChannel fd x src dst).heap s.nextCell) = _
      rw [hsrc]
      exact get_addFdToChannel_src s hne src dst
    · show (s.addFdToChannel fd x src dst).heap s.nextCell ≠ x
      rw [hsrc]
      exact hne
  · have hdst := heap_addFdToChannel_dst s x fd' src dst
    refine ⟨⟨⟨dst.host, src.host⟩, s.nextCell + 1, s.nextCell, false⟩,
      heap_addFdToChannel_src s x fd' src dst, ?_, ?_, rfl, rfl, rfl⟩
    · show (s.addFdToChannel x fd' src dst).fdToChannelStatus.get
        ((s.addFdToChannel x fd' src dst).heap (s.nextCell + 1)) = _
      rw [hdst]
      exact get_addFdToChannel_dst s x fd' src dst
    · show (s.addFdToChannel x fd' src dst).heap (s.nextCell + 1) ≠ x
      rw [hdst]
      exact hne.symm
  · obtain ⟨t', hq⟩ := h.linked x t ht₀
    -- the two cells are new, so those of an old entry hold what they held
    have hself := heap_addFdToChannel_of_lt s fd fd' src dst (h.cell_lt x t ht₀)
    have hpeer := heap_addFdToChannel_of_lt s fd fd' src dst (h.fd_lt ht₀)
    refine ⟨t', ?_, ?_, ?_, hq.fd_eq, hq.selfFd_eq, hq.channel_eq⟩
    · rw [hself]
      exact hq.self
    · rw [hpeer]
      exact h.get_addFdToChannel hfd hfd' src dst hq.peer
    · rw [hpeer]
      exact hq.ne

theorem Net.Consistent.connect {s : Net κ} (h : s.Consistent K) {k : κ} {fd fd' : Fd}
    {src dst : Addr} (hfd : fd ∉ K.fds s.kernel) (hfd' : fd' ∉ K.fds s.kernel) (hne : fd ≠ fd')
    (hk : K.fds k = insert fd' (insert fd (K.fds s.kernel))) :
    (({ s with kernel := k } : Net κ).addFdToChannel fd fd' src dst).Consistent K := by
  have hopen : K.fds s.kernel ⊆ K.fds k := by
    rw [hk]
    exact (Finset.subset_insert fd _).trans (Finset.subset_insert fd' _)
  have hget {x : Fd} {t : ChannelStatus}
      (ht : (({ s with kernel := k } : Net κ).addFdToChannel fd fd' src dst).fdToChannelStatus.get x
        = some t) := Tproxy.get_addFdToChannel (s := s) ht
  refine ⟨(h.linked_connect hfd hfd' hne).congr rfl rfl, ?_, ?_, ?_, ?_, h.client, ?_⟩
  · intro x t ht
    show t.selfFd < s.nextCell + 2
    rcases hget ht with ⟨-, rfl⟩ | ⟨-, -, rfl⟩ | ⟨-, -, ht₀⟩
    · exact Nat.lt_succ_self _
    · exact Nat.lt_add_of_pos_right (by decide)
    · exact (h.cell_lt x t ht₀).trans (by omega)
  · intro x t ht
    show x ∈ K.fds k
    rcases hget ht with ⟨rfl, -⟩ | ⟨-, rfl, -⟩ | ⟨-, -, ht₀⟩
    · rw [hk]
      exact Finset.mem_insert_self _ _
    · rw [hk]
      exact Finset.mem_insert_of_mem (Finset.mem_insert_self _ _)
    · exact hopen (h.conn_open x t ht₀)
  · intro x a ha
    exact hopen (h.client_open x a ha)
  · intro x t ht
    show s.fdToClient.get x = none
    -- a client's descriptor is open, a new one was not
    rcases hget ht with ⟨rfl, -⟩ | ⟨-, rfl, -⟩ | ⟨-, -, ht₀⟩
    · exact (h.fresh hfd').2
    · exact (h.fresh hfd).2
    · exact h.apart x t ht₀
  · intro x hx
    obtain ⟨t, ht⟩ := h.unintercepted x hx
    exact ⟨t, h.get_addFdToChannel hfd hfd' src dst ht⟩

theorem Net.Consistent.routerUp {s : Net κ} (h : s.Consistent K) {k : κ} {fd : Fd} {a : Addr}
    (hfd : fd ∉ K.fds s.kernel) (hk : K.fds k = insert fd (K.fds s.kernel)) :
    ({ s with
      kernel := k
      clientToFd := s.clientToFd.insert a fd
      fdToClient := s.fdToClient.insert fd a } : Net κ).Consistent K := by
  obtain ⟨hst, hclient⟩ := h.fresh hfd
  have hopen : K.fds s.kernel ⊆ K.fds k := by
    rw [hk]
    exact Finset.subset_insert fd _
  refine ⟨h.linked.congr rfl rfl, h.cell_lt, ?_, ?_, ?_, ?_, h.unintercepted⟩
  · intro x t ht
    exact hopen (h.conn_open x t ht)
  · intro x b hb
    replace hb : (s.fdToClient.insert fd a).get x = some b := hb
    rw [FinFn.get_insert] at hb
    show x ∈ K.fds k
    split at hb
    · rw [hk, ‹x = fd›]
      exact Finset.mem_insert_self _ _
    · exact hopen (h.client_open x b hb)
  · intro x t ht
    show (s.fdToClient.insert fd a).get x = none
    -- an entry's descriptor is open, so it is not the new one
    have hx : x ≠ fd := by
      rintro rfl
      replace ht : s.fdToChannelStatus.get x = some t := ht
      rw [hst] at ht
      cases ht
    rw [FinFn.get_insert, if_neg hx]
    exact h.apart x t ht
  · intro b x hx
    replace hx : (s.clientToFd.insert a fd).get b = some x := hx
    show (s.fdToClient.insert fd a).get x = some b
    rw [FinFn.get_insert] at hx ⊢
    split at hx
    · rw [if_pos (Option.some.inj hx).symm, ‹b = a›]
    · -- the new descriptor is no other client's
      have hb := h.client b x hx
      have hne : x ≠ fd := by
        rintro rfl
        rw [hclient] at hb
        cases hb
      rw [if_neg hne]
      exact hb

theorem Net.Consistent.routerDown {s : Net κ} (h : s.Consistent K) {fd : Fd} {a : Addr}
    (hfd : s.fdToClient.get fd = some a) :
    ({ s.close K fd with
      clientToFd := s.clientToFd.erase a
      fdToClient := s.fdToClient.erase fd } : Net κ).Consistent K := by
  have hkept : ∀ {x}, x ≠ fd → x ∈ K.fds s.kernel → x ∈ K.fds (K.close s.kernel fd) := by
    intro x hx hmem
    rw [K.fds_close, Finset.mem_erase]
    exact ⟨hx, hmem⟩
  refine ⟨h.linked.congr rfl rfl, h.cell_lt, ?_, ?_, ?_, ?_, h.unintercepted⟩
  · intro x t ht
    -- a descriptor of a channel is not a client's
    refine hkept ?_ (h.conn_open x t ht)
    rintro rfl
    rw [h.apart x t ht] at hfd
    cases hfd
  · intro x b hb
    replace hb : (s.fdToClient.erase fd).get x = some b := hb
    rw [FinFn.get_erase] at hb
    split at hb
    · cases hb
    · exact hkept ‹_› (h.client_open x b hb)
  · intro x t ht
    show (s.fdToClient.erase fd).get x = none
    rw [FinFn.get_erase]
    split
    · rfl
    · exact h.apart x t ht
  · intro b x hx
    replace hx : (s.clientToFd.erase a).get b = some x := hx
    show (s.fdToClient.erase fd).get x = some b
    rw [FinFn.get_erase] at hx ⊢
    split at hx
    · cases hx
    · -- another client has another descriptor
      have hb := h.client b x hx
      have hne : x ≠ fd := by
        rintro rfl
        rw [hfd] at hb
        exact ‹¬ b = a› (Option.some.inj hb).symm
      rw [if_neg hne]
      exact hb

/-! ### Runs -/

/-- Every change keeps the tables consistent. -/
theorem Net.Consistent.atom {s s' : Net κ} (h : s.Consistent K) (hatom : Atom K R s s') :
    s'.Consistent K := by
  cases hatom with
  | kernel hk => exact h.congr rfl rfl rfl rfl rfl rfl hk.ge
  | received hk => exact h.congr rfl rfl rfl rfl rfl rfl hk.ge
  | wrote hk _ => exact h.congr rfl rfl rfl rfl rfl rfl hk.ge
  | leaked _ hk =>
      refine h.congr rfl rfl rfl rfl rfl rfl ?_
      rw [hk]
      exact Finset.subset_insert _ _
  | tag hst =>
      rw [closeConnection_tag s hst]
      exact (h.setDisconnected _ true).setDisconnected _ true
  | closePair hst => exact h.closePair hst
  | closeLoose hst hclient => exact h.closeLoose hst hclient
  | untag _ => exact h.setDisconnected _ false
  | @unintercept fd st hst =>
      refine ⟨h.linked.congr rfl rfl, h.cell_lt, h.conn_open, h.client_open, h.apart, h.client,
        fun x hx => ?_⟩
      rcases Finset.mem_insert.mp hx with rfl | hx
      · exact ⟨st, hst⟩
      · exact h.unintercepted x hx
  | message htaken => exact h.congr rfl rfl rfl rfl rfl rfl htaken.fds.ge
  | unqueue _ => exact h.congr rfl rfl rfl rfl rfl rfl (Finset.Subset.refl _)
  | connect _ hfd hfd' hne hk => exact h.connect hfd hfd' hne hk
  | routerUp _ hfd hk => exact h.routerUp hfd hk
  | routerDown _ hfd =>
      -- found by its descriptor, or by its address
      refine h.routerDown ?_
      rcases hfd with hfd | hfd
      · exact hfd
      · exact h.client _ _ hfd
  | throw => exact h.congr rfl rfl rfl rfl rfl rfl (Finset.Subset.refl _)

theorem Net.Consistent.path {s s' : Net κ} (h : s.Consistent K) (hpath : Path K R s s') :
    s'.Consistent K := by
  induction hpath with
  | refl => exact h
  | tail _ hatom ih => exact ih.atom hatom

theorem Net.Consistent.init {s : Net κ} (h : s.Initial) : s.Consistent K := by
  obtain ⟨hst, -, hclient, hfd, hui, -⟩ := h
  -- all tables are empty
  constructor
  · intro x t ht
    rw [hst] at ht
    cases ht
  · intro x t ht
    rw [hst] at ht
    cases ht
  · intro x t ht
    rw [hst] at ht
    cases ht
  · intro x a ha
    rw [hfd] at ha
    cases ha
  · intro x t ht
    rw [hst] at ht
    cases ht
  · intro a x hx
    rw [hclient] at hx
    cases hx
  · intro x hx
    rw [hui] at hx
    exact absurd hx (Finset.notMem_empty x)

/-- The tables are consistent in every state of every run. -/
theorem Net.Consistent.of_run {tr : List (Step (Net κ) Act)} {s : Net κ}
    (h : (tcpNetwork K cfg).Run tr s) : s.Consistent K :=
  System.Run.state_invariant (P := fun s => s.Consistent K) (fun _ hi => .init hi)
    (fun _ _ _ hc hstep => hc.path (Act.Step.path hc.apart hstep)) h

/-! ### Entries that remain -/

/-- The entry `st'` is what became of `st`: a tag stays. -/
structure Remains (st st' : ChannelStatus) : Prop where
  channel : st'.channel = st.channel
  selfFd : st'.selfFd = st.selfFd
  fd : st'.fd = st.fd
  tag : st.disconnected = true → st'.disconnected = true

theorem Remains.refl (st : ChannelStatus) : Remains st st := ⟨rfl, rfl, rfl, fun h => h⟩

theorem Remains.trans {st st' st'' : ChannelStatus} (h : Remains st st') (h' : Remains st' st'') :
    Remains st st'' :=
  ⟨h'.channel.trans h.channel, h'.selfFd.trans h.selfFd, h'.fd.trans h.fd,
    fun ht => h'.tag (h.tag ht)⟩

/-- Every entry of `s'` is one of `s`. -/
def Shrinks (s s' : Net κ) : Prop :=
  ∀ fd st', s'.fdToChannelStatus.get fd = some st' →
    ∃ st, s.fdToChannelStatus.get fd = some st ∧ Remains st st'

theorem Shrinks.refl (s : Net κ) : Shrinks s s := fun _ st h => ⟨st, h, .refl st⟩

theorem Shrinks.of_eq {s s' : Net κ} (h : s'.fdToChannelStatus = s.fdToChannelStatus) :
    Shrinks s s' := by
  intro fd st hst
  rw [h] at hst
  exact ⟨st, hst, .refl st⟩

theorem Shrinks.trans {s s' s'' : Net κ} (h : Shrinks s s') (h' : Shrinks s' s'') :
    Shrinks s s'' := by
  intro fd st'' hst''
  obtain ⟨st', hst', hr'⟩ := h' fd st'' hst''
  obtain ⟨st, hst, hr⟩ := h fd st' hst'
  exact ⟨st, hst, hr.trans hr'⟩

theorem shrinks_tag (s : Net κ) (fd : Fd) : Shrinks s (s.setDisconnected fd true) := by
  intro x st hst
  obtain ⟨st₀, hst₀, hchannel, hself, hfd, hdisc⟩ := get_setDisconnected hst
  refine ⟨st₀, hst₀, hchannel, hself, hfd, fun ht => ?_⟩
  rw [hdisc, ht, ite_self]

theorem shrinks_doClose (s : Net κ) (fd : Fd) : Shrinks s (s.doClose K fd) := by
  intro x t ht
  rw [get_doClose] at ht
  split at ht
  · cases ht
  · exact ⟨t, ht, .refl t⟩

theorem shrinks_closeConnection (s : Net κ) (fd : Fd) (tag : Bool) :
    Shrinks s (s.closeConnection K fd tag) := by
  rw [Net.closeConnection]
  cases s.fdToChannelStatus.get fd with
  | none =>
      cases tag with
      | true => exact .refl s
      | false => exact .of_eq rfl
  | some st =>
      have htag := (shrinks_tag s fd).trans (shrinks_tag _ (s.heap st.fd))
      cases tag with
      | true => exact htag
      | false => exact (htag.trans (shrinks_doClose _ fd)).trans (shrinks_doClose _ _)

/-- A closed descriptor has no entry. -/
theorem get_closeConnection_self (s : Net κ) (fd : Fd) :
    (s.closeConnection K fd false).fdToChannelStatus.get fd = none := by
  cases hst : s.fdToChannelStatus.get fd with
  | none =>
      rw [Net.closeConnection, hst]
      exact hst
  | some st => rw [get_closeConnection hst, if_pos (Or.inl rfl)]

end Tmet.Tproxy
