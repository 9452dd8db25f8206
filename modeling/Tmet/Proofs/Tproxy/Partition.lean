import Tmet.Posix.Stream
import Tmet.Proofs.Tproxy.Tables

/-!
# `Tmet.Proofs.Tproxy.Partition`: what a partition keeps from being written

`partition` tags the connections of a node. `Net.Isolated` says that all of them
are tagged, and `isolated_partition` that this is so right after a partition: the
loop looks at the source of a channel only, and `close_connection` tags the peer
as well, so with `Linked` both directions are covered.

From then on a change of the tables keeps the tags (`Atom.entry`), and the two paths
that look at the tag write nothing to the node. Two things are not covered.
`transfer_unintercepted` does not look at the tag, and `add_fd_to_channel` starts
a connection without one. `Spares` excludes the two, and `partition_isolates` is
the result for every run whose steps do. `partition_leaks` is a run of the first
kind.
-/

set_option autoImplicit false

namespace Tmet.Tproxy

open Tmet.Lib Tmet.Posix

variable {κ : Type} {K : Kernel κ Ctl Addr} {cfg : ConfigFile} {R : Scope}

/-! ### Entries along a path -/

/-- An entry after a change that marks nothing as connected again: what became of an
entry, or an entry of a new connection. -/
theorem Atom.entry (hR : ¬ R.untag) {s s' : Net κ} (h : Atom K R s s') {x : Fd}
    {st' : ChannelStatus} (hst' : s'.fdToChannelStatus.get x = some st') :
    (∃ st, s.fdToChannelStatus.get x = some st ∧ Remains st st')
      ∨ ∃ c, R.connect c ∧ (st'.channel = c ∨ st'.channel = c.swap) := by
  cases h with
  | tag _ => exact Or.inl (shrinks_closeConnection s _ true x st' hst')
  | closePair _ => exact Or.inl (shrinks_closeConnection s _ false x st' hst')
  | untag hu => exact absurd hu hR
  | connect hc _ _ _ _ =>
      rcases get_addFdToChannel hst' with ⟨-, rfl⟩ | ⟨-, -, rfl⟩ | ⟨-, -, hst⟩
      · exact Or.inr ⟨_, hc, Or.inr rfl⟩
      · exact Or.inr ⟨_, hc, Or.inl rfl⟩
      · exact Or.inl ⟨st', hst, .refl st'⟩
  | _ => exact Or.inl ⟨st', hst', .refl st'⟩

/-! ### What is written -/

/-- Bytes were written to a connection of the node. -/
def Event.WritesTo (a : Addr) : Event → Prop
  | .wrote _ (some st) _ => st.channel.Touches a
  | .wrote _ none _ => False
  | .received _ _ _ => False

instance (a : Addr) (e : Event) : Decidable (e.WritesTo a) :=
  match e with
  | .wrote _ (some st) _ => inferInstanceAs (Decidable (st.channel.Touches a))
  | .wrote _ none _ => .isFalse fun h => h
  | .received _ _ _ => .isFalse fun h => h

/-- From `s` to `s'` nothing was written to a connection of the node. -/
def Silent (a : Addr) (s s' : Net κ) : Prop :=
  ∃ new, s'.log = s.log ++ new ∧ ∀ e ∈ new, ¬ e.WritesTo a

theorem Silent.of_eq {a : Addr} {s s' : Net κ} (h : s'.log = s.log) : Silent a s s' :=
  ⟨[], by rw [h, List.append_nil], nofun⟩

theorem Silent.trans {a : Addr} {s s' s'' : Net κ} (h : Silent a s s') (h' : Silent a s' s'') :
    Silent a s s'' := by
  obtain ⟨new, hnew, hsilent⟩ := h
  obtain ⟨new', hnew', hsilent'⟩ := h'
  refine ⟨new ++ new', by rw [hnew', hnew, List.append_assoc], fun e he => ?_⟩
  rcases List.mem_append.mp he with he | he
  · exact hsilent e he
  · exact hsilent' e he

/-- Every connection of the node is tagged. -/
def Net.Isolated (s : Net κ) (a : Addr) : Prop :=
  ∀ fd st, s.fdToChannelStatus.get fd = some st → st.channel.Touches a → st.disconnected = true

theorem Net.Isolated.shrinks {s s' : Net κ} {a : Addr} (h : s.Isolated a) (hs : Shrinks s s') :
    s'.Isolated a := by
  intro fd st' hst' htouch
  obtain ⟨st, hst, hr⟩ := hs fd st' hst'
  rw [hr.channel] at htouch
  exact hr.tag (h fd st hst htouch)

theorem Channel.touches_swap {c : Channel} {a : Addr} : c.swap.Touches a ↔ c.Touches a :=
  or_comm

/-- The scope spares the node: it establishes no connection of it, and passes nothing
through from one. -/
structure Spared (R : Scope) (a : Addr) (s : Net κ) : Prop where
  isolated : s.Isolated a
  raw : ∀ fd st, R.raw fd → s.fdToChannelStatus.get fd = some st → ¬ st.channel.Touches a
  connect : ∀ c, R.connect c → ¬ c.Touches a

/-- A reason to write to a descriptor is none to write to an isolated node. -/
theorem Spared.not_writesTo {a : Addr} {s : Net κ} (h : Spared R a s) (hs : s.Consistent K)
    {fd : Fd} (hreason : WriteReason R s fd) (data : Bytes) :
    ¬ (Event.wrote fd (s.fdToChannelStatus.get fd) data).WritesTo a := by
  cases hreason with
  | message _ hst htag =>
      -- only a connection without a tag is written to
      rw [hst]
      intro htouch
      rw [h.isolated _ _ hst htouch] at htag
      cases htag
  | @transfer inFd st hraw hst hpeer =>
      -- the other end has the reverse channel
      obtain ⟨st', hp⟩ := hs.linked inFd st hst
      rw [← hpeer, hp.peer]
      intro htouch
      replace htouch : st'.channel.Touches a := htouch
      rw [hp.channel_eq, Channel.touches_swap] at htouch
      exact h.raw inFd st hraw hst htouch
  | command _ hclient =>
      rw [hs.get_of_client hclient]
      exact fun hf => hf

theorem Spared.atom (hR : ¬ R.untag) {a : Addr} {s s' : Net κ} (h : Spared R a s)
    (hs : s.Consistent K) (hatom : Atom K R s s') : Spared R a s' ∧ Silent a s s' := by
  -- an entry of the node is what became of one: no connection of it is new
  have hold {x : Fd} {st' : ChannelStatus} (hst' : s'.fdToChannelStatus.get x = some st')
      (htouch : st'.channel.Touches a) :
      ∃ st, s.fdToChannelStatus.get x = some st ∧ Remains st st' ∧ st.channel.Touches a := by
    rcases hatom.entry hR hst' with ⟨st, hst, hr⟩ | ⟨c, hc, hchannel⟩
    · exact ⟨st, hst, hr, by rw [← hr.channel]; exact htouch⟩
    · refine absurd ?_ (h.connect c hc)
      rcases hchannel with hchannel | hchannel
      · rwa [hchannel] at htouch
      · rwa [hchannel, Channel.touches_swap] at htouch
  refine ⟨⟨fun x st' hst' htouch => ?_, fun x st' hraw hst' htouch => ?_, h.connect⟩, ?_⟩
  · obtain ⟨st, hst, hr, htouch⟩ := hold hst' htouch
    exact hr.tag (h.isolated x st hst htouch)
  · obtain ⟨st, hst, -, htouch⟩ := hold hst' htouch
    exact h.raw x st hraw hst htouch
  · cases hatom with
    | received _ => exact ⟨_, rfl, by simp [Event.WritesTo]⟩
    | message _ => exact ⟨_, rfl, by simp [Event.WritesTo]⟩
    | wrote _ hreason =>
        refine ⟨_, rfl, fun e he => ?_⟩
        rw [List.mem_singleton.mp he]
        exact h.not_writesTo hs hreason _
    | tag _ => exact .of_eq (onlyTable_closeConnection s _ true).log
    | closePair _ => exact .of_eq (onlyTable_closeConnection s _ false).log
    | _ => exact .of_eq rfl

/-- A path of a scope that spares the node keeps it isolated and writes nothing to
it. -/
theorem Spared.path (hR : ¬ R.untag) {a : Addr} {s s' : Net κ} (h : Spared R a s)
    (hs : s.Consistent K) (hpath : Path K R s s') : Spared R a s' ∧ Silent a s s' := by
  induction hpath with
  | refl => exact ⟨h, .of_eq rfl⟩
  | tail hrest hatom ih =>
      obtain ⟨hspared, hsilent⟩ := ih
      obtain ⟨hspared', hsilent'⟩ := hspared.atom hR (hs.path hrest) hatom
      exact ⟨hspared', hsilent.trans hsilent'⟩

/-! ### `recover` -/

theorem shrinks_closeAll (fds : List Fd) :
    ∀ (s : Net κ), Shrinks s (s.closeAll K fds) ∧ (s.closeAll K fds).log = s.log := by
  induction fds with
  | nil => intro s; exact ⟨.refl s, rfl⟩
  | cons fd fds ih =>
      intro s
      obtain ⟨hrest, hlog⟩ := ih (s.closeConnection K fd false)
      exact ⟨(shrinks_closeConnection s fd false).trans hrest,
        hlog.trans (onlyTable_closeConnection s fd false).log⟩

theorem get_closeAll_of_mem (fds : List Fd) :
    ∀ {s : Net κ} {fd : Fd}, fd ∈ fds → (s.closeAll K fds).fdToChannelStatus.get fd = none := by
  induction fds with
  | nil =>
      intro s fd hfd
      cases hfd
  | cons fd fds ih =>
      intro s x hx
      rcases List.mem_cons.mp hx with rfl | hx
      · cases hlast : (s.closeAll K (x :: fds)).fdToChannelStatus.get x with
        | none => rfl
        | some t =>
            -- an entry that is gone does not come back
            obtain ⟨t₀, ht₀, -⟩ := (shrinks_closeAll fds (s.closeConnection K x false)).1 x t hlast
            rw [get_closeConnection_self] at ht₀
            cases ht₀
      · exact ih hx

/-- The loop of `recover`: it takes the tag off what is going to be closed. -/
theorem partitionLoop_recover {addr : Addr} {clearMsg : Bool} {fds toClose : List Fd}
    {s s' : Net κ} (h : s.partitionLoop K addr clearMsg true fds = (toClose, s')) :
    s'.log = s.log ∧ ∀ x t, s'.fdToChannelStatus.get x = some t →
      x ∈ toClose ∨ ∃ st, s.fdToChannelStatus.get x = some st ∧ Remains st t := by
  replace h := partitionLoop_marks fds h
  induction h with
  | nil s => exact ⟨rfl, fun x t ht => Or.inr ⟨t, ht, .refl t⟩⟩
  | other _ _ ih => exact ih
  | @mark fd fds toClose s s' st _ _ _ ih =>
      obtain ⟨network, heq⟩ := mark_eq (K := K) s fd st.channel clearMsg true
      obtain ⟨hlog, hentry⟩ := ih
      rw [heq] at hlog hentry
      refine ⟨hlog, fun x t ht => ?_⟩
      rw [if_pos rfl]
      rcases hentry x t ht with hmem | ⟨t₁, ht₁, hr⟩
      · exact Or.inl (List.mem_cons_of_mem _ hmem)
      · obtain ⟨t₀, ht₀, hchannel, hself, hfd, hdisc⟩ := get_setDisconnected ht₁
        -- only the entry of `fd` may lose its tag, and `fd` is going to be closed
        by_cases hx : x = fd
        · exact Or.inl (by rw [hx]; exact List.mem_cons_self ..)
        · rw [if_neg hx] at hdisc
          have hr₀ : Remains t₀ t₁ := ⟨hchannel, hself, hfd, fun htag => hdisc.trans htag⟩
          exact Or.inr ⟨t₀, ht₀, hr₀.trans hr⟩

/-- `recover` takes no tag off a connection that stays, and writes nothing. -/
theorem shrinks_recover (s : Net κ) (node : String) :
    Shrinks s (s.recover K cfg node) ∧ (s.recover K cfg node).log = s.log := by
  rw [Net.recover, Net.partitionWith]
  dsimp only
  split
  · exact ⟨.refl s, rfl⟩
  · cases hloop : s.partitionLoop K (cfg.getNodeAddr node) true true s.keys with
    | mk toClose s₁ =>
        obtain ⟨hlog, hentry⟩ := partitionLoop_recover hloop
        obtain ⟨hshrinks, hlog'⟩ := shrinks_closeAll (K := K) toClose s₁
        refine ⟨fun x t ht => ?_, hlog'.trans hlog⟩
        obtain ⟨t₁, ht₁, hr⟩ := hshrinks x t ht
        -- an entry that has lost its tag is closed afterwards
        rcases hentry x t₁ ht₁ with hmem | ⟨st, hst, hr₀⟩
        · rw [get_closeAll_of_mem toClose hmem] at ht
          cases ht
        · exact ⟨st, hst, hr₀.trans hr⟩

/-! ### `partition` -/

theorem tagged_closeConnection {s : Net κ} {fd x : Fd} {st t : ChannelStatus}
    (hst : s.fdToChannelStatus.get fd = some st) (hx : x = fd ∨ x = s.heap st.fd)
    (ht : (s.closeConnection K fd true).fdToChannelStatus.get x = some t) :
    t.disconnected = true := by
  rw [closeConnection_tag s hst] at ht
  obtain ⟨t₁, ht₁, -, -, -, hdisc⟩ := get_setDisconnected ht
  obtain ⟨t₀, -, -, -, -, hdisc₁⟩ := get_setDisconnected ht₁
  rw [hdisc, hdisc₁]
  rcases hx with hx | hx
  · rw [if_pos hx, ite_self]
  · rw [if_pos hx]

theorem heap_closeConnection_tag (s : Net κ) (fd : Fd) :
    (s.closeConnection K fd true).heap = s.heap := by
  rw [Net.closeConnection]
  cases s.fdToChannelStatus.get fd <;> rfl

theorem get_closeConnection_tag {s : Net κ} {fd x : Fd} {st t : ChannelStatus}
    (hst : s.fdToChannelStatus.get fd = some st) (ht : s.fdToChannelStatus.get x = some t) :
    ∃ t', (s.closeConnection K fd true).fdToChannelStatus.get x = some t' ∧ t'.channel = t.channel
      ∧ t'.fd = t.fd := by
  rw [closeConnection_tag s hst]
  obtain ⟨t₁, ht₁, hchannel₁, -, hfd₁, -⟩ := get_setDisconnected_of_get ht fd true
  obtain ⟨t₂, ht₂, hchannel₂, -, hfd₂, -⟩ := get_setDisconnected_of_get ht₁ (s.heap st.fd) true
  exact ⟨t₂, ht₂, hchannel₂.trans hchannel₁, hfd₂.trans hfd₁⟩

/-- The loop of `partition` tags every matching entry that it comes across, and the
entry of its peer. -/
theorem partitionLoop_partition {addr : Addr} {fds toClose : List Fd} {s s' : Net κ}
    (h : s.partitionLoop K addr false false fds = (toClose, s')) :
    toClose = [] ∧ Shrinks s s' ∧
      ∀ fd ∈ fds, ∀ st, s.fdToChannelStatus.get fd = some st → st.channel.first = addr →
        ∀ x t, x = fd ∨ x = s.heap st.fd → s'.fdToChannelStatus.get x = some t →
          t.disconnected = true := by
  replace h := partitionLoop_marks fds h
  induction h with
  | nil s => exact ⟨rfl, .refl s, List.forall_mem_nil _⟩
  | other hother _ ih =>
      obtain ⟨hnil, hshrinks, htags⟩ := ih
      refine ⟨hnil, hshrinks, fun y hy sty hsty hfirst => ?_⟩
      rcases List.mem_cons.mp hy with rfl | hy
      · exact absurd hfirst (hother sty hsty)
      · exact htags y hy sty hsty hfirst
  | @mark fd fds toClose s s' st hst _ _ ih =>
      have hmark : s.mark K fd st.channel false false = s.closeConnection K fd true := rfl
      rw [hmark] at ih
      obtain ⟨hnil, hshrinks, htags⟩ := ih
      refine ⟨hnil, (shrinks_closeConnection s fd true).trans hshrinks, ?_⟩
      intro y hy sty hsty hfirst x t hx ht
      rcases List.mem_cons.mp hy with rfl | hy
      · -- tagged now, and a tag stays
        rw [hst] at hsty
        cases hsty
        obtain ⟨t₁, ht₁, hr⟩ := hshrinks x t ht
        exact hr.tag (tagged_closeConnection hst hx ht₁)
      · -- tagged later: until then only the tags of the entry change
        obtain ⟨st₁, hst₁, hchannel, hfd⟩ := get_closeConnection_tag hst hsty
        refine htags y hy st₁ hst₁ (by rw [hchannel]; exact hfirst) x t ?_ ht
        rw [heap_closeConnection_tag, hfd]
        exact hx

/-- An entry is found by the loop of `partition`. -/
theorem Net.mem_keys {s : Net κ} {fd : Fd} {st : ChannelStatus}
    (h : s.fdToChannelStatus.get fd = some st) : fd ∈ s.keys := by
  rw [Net.keys, Choose.mem_order]
  exact FinFn.mem_dom_of_get h

/-- After `partition(n)` every connection of the node `n` is tagged. -/
theorem isolated_partition {s : Net κ} (hs : s.Consistent K) {node : String}
    (hnode : (cfg.getNodeAddr node).sinPort ≠ INVALID_PORT) :
    (s.partition K cfg node).Isolated (cfg.getNodeAddr node) := by
  rw [Net.partition, Net.partitionWith]
  dsimp only
  rw [if_neg hnode]
  cases hloop : s.partitionLoop K (cfg.getNodeAddr node) false false s.keys with
  | mk toClose s₁ =>
      obtain ⟨rfl, hshrinks, htags⟩ := partitionLoop_partition hloop
      show s₁.Isolated _
      intro x t ht htouch
      obtain ⟨st, hst, hr⟩ := hshrinks x t ht
      rw [hr.channel] at htouch
      rcases htouch with hfirst | hsecond
      · exact htags x (Net.mem_keys hst) st hst hfirst x t (Or.inl rfl) ht
      · -- the peer's channel starts at the node, and its peer is `x`
        obtain ⟨st', hp⟩ := hs.linked x st hst
        refine htags _ (Net.mem_keys hp.peer) st' hp.peer ?_ x t (Or.inr ?_) ht
        · rw [hp.channel_eq]
          exact hsecond
        · rw [hp.fd_eq, hp.self]

/-! ### Runs -/

/-- The step spares the node. No connection of it is established; on a connection of
it, `do_receive` does not go on to the pass-through. -/
def Spares (K : Kernel κ Ctl Addr) (cfg : ConfigFile) (a : Addr) (t : Step (Net κ) Act) : Prop :=
  match t.act with
  | .accept => ∀ c, t.src.establishedChannel K cfg = some c → ¬ c.Touches a
  | .readable fd =>
      ∀ st, t.src.fdToChannelStatus.get fd = some st → st.channel.Touches a →
        ¬ t.src.PassesThrough K cfg fd
  | _ => True

/-- One step that spares an isolated node. -/
theorem isolated_step {a : Addr} {s s' : Net κ} {act : Act} (hs : s.Consistent K)
    (hiso : s.Isolated a) (hstep : act.Step K cfg s s') (hspares : Spares K cfg a ⟨s, act, s'⟩) :
    s'.Isolated a ∧ Silent a s s' := by
  have hpath := Act.Step.path hs.apart hstep
  cases act with
  | accept =>
      have hspared₀ : Spared (Act.accept.scope K cfg s) a s :=
        ⟨hiso, fun _ _ hf => False.elim hf, hspares⟩
      obtain ⟨hspared, hsilent⟩ := hspared₀.path (fun hf => hf) hs hpath
      exact ⟨hspared.isolated, hsilent⟩
  | readable fd =>
      have hraw : ∀ x st, (Act.scope K cfg s (.readable fd)).raw x →
          s.fdToChannelStatus.get x = some st → ¬ st.channel.Touches a := by
        rintro x st ⟨rfl, hpasses⟩ hst htouch
        exact hspares st hst htouch hpasses
      obtain ⟨hspared, hsilent⟩ := Spared.path (fun hf => hf)
        ⟨hiso, hraw, fun _ hf => False.elim hf⟩ hs hpath
      exact ⟨hspared.isolated, hsilent⟩
  | recover node =>
      -- `recover` takes tags off, so it is no path that spares the node; it shrinks the tables
      obtain ⟨-, rfl⟩ := hstep
      obtain ⟨hshrinks, hlog⟩ := shrinks_recover (K := K) s node
      exact ⟨hiso.shrinks hshrinks, .of_eq hlog⟩
  | _ =>
      obtain ⟨hspared, hsilent⟩ := Spared.path (fun hf => hf)
        ⟨hiso, fun _ _ hf => False.elim hf, fun _ hf => False.elim hf⟩ hs hpath
      exact ⟨hspared.isolated, hsilent⟩

/-- In every run in which the steps since a `partition(n)` spare the node, no byte is
written to a connection of it since then. A `recover` in between closes the
connections of the node and does no harm. -/
theorem partition_isolates {tr post : List (Step (Net κ) Act)} {s₀ s₁ s : Net κ} {node : String}
    (h : (tcpNetwork K cfg).Run (tr ++ ⟨s₀, .partition node, s₁⟩ :: post) s)
    (hnode : (cfg.getNodeAddr node).sinPort ≠ INVALID_PORT)
    (hspares : ∀ t ∈ post, Spares K cfg (cfg.getNodeAddr node) t) :
    ∃ new, s.log = s₁.log ++ new ∧ ∀ e ∈ new, ¬ e.WritesTo (cfg.getNodeAddr node) := by
  have hafter : s.Isolated (cfg.getNodeAddr node) ∧ Silent (cfg.getNodeAddr node) s₁ s := by
    refine System.Run.after (P := fun s => s.Isolated (cfg.getNodeAddr node)
      ∧ Silent (cfg.getNodeAddr node) s₁ s) h ?_ ?_
    -- the partition isolates the node, and each later step keeps it so
    · rintro hrun ⟨-, hs₁⟩
      replace hs₁ : s₁ = s₀.partition K cfg node := hs₁
      have hiso := isolated_partition (Net.Consistent.of_run hrun) hnode
      exact ⟨hs₁ ▸ hiso, .of_eq rfl⟩
    · rintro pre ⟨u, act, u'⟩ hmem hrun ⟨hiso, hsilent⟩ hstep
      obtain ⟨hiso', hsilent'⟩ :=
        isolated_step (Net.Consistent.of_run hrun) hiso hstep (hspares _ hmem)
      exact ⟨hiso', hsilent.trans hsilent'⟩
  exact hafter.2

/-! ### Two nodes -/

namespace Demo

abbrev kernel : Kernel (Stream Addr) Ctl Addr := streamKernel Addr Ctl

/-- Nothing has happened, and `n1` is going to connect to `n2`. -/
def start : Net (Stream Addr) where
  kernel := ⟨∅, [(⟨n1.sAddr, 0x0190⟩, ⟨n2.sAddr, 0x5000⟩)], none, fun _ => [], 1, [], false, []⟩
  fdToChannelStatus := .empty
  network := .empty
  clientToFd := .empty
  fdToClient := .empty
  uninterceptedFd := ∅
  heap _ := 0
  nextCell := 0
  terminated := false
  log := []

/-- The connection is accepted; descriptor 1 is the end of `n1`. -/
def accepted : Net (Stream Addr) := start.acceptEvent kernel config

/-- `n1` sends `data`. -/
def sent (s : Net (Stream Addr)) (data : Bytes) : Net (Stream Addr) :=
  { s with kernel := { s.kernel with inbox := fun fd => if fd = 1 then data else [] } }

/-- The event of the data is handled. -/
def handled (s : Net (Stream Addr)) : Net (Stream Addr) := (s.readEvent kernel config 3 1).getD s

/-- A message with its header. -/
def framed : Bytes := [0xde, 0xad, 0xbe, 0xef, 0, 0, 0, 1, 65]

/-- Eight bytes that are no header. -/
def unframed : Bytes := [71, 69, 84, 32, 47, 13, 10, 10]

/-- A message is queued, then `n1` is partitioned. -/
def queued : Net (Stream Addr) := handled (sent accepted framed)

def partedQueued : Net (Stream Addr) := queued.partition kernel config "n1"

/-- `n1` is partitioned, then bytes arrive that are no message. -/
def parted : Net (Stream Addr) := accepted.partition kernel config "n1"

def leaked : Net (Stream Addr) := handled (sent parted unframed)

theorem run_step {tr : List (Step (Net (Stream Addr)) Act)} {s s' : Net (Stream Addr)} {act : Act}
    (h : (tcpNetwork kernel config).Run tr s) (hstep : act.Step kernel config s s') :
    (tcpNetwork kernel config).Run (tr ++ [⟨s, act, s'⟩]) s' :=
  h.snoc hstep

theorem run_accepted : (tcpNetwork kernel config).Run [⟨start, .accept, accepted⟩] accepted :=
  have hstart : (tcpNetwork kernel config).Run [] start :=
    .nil ⟨rfl, rfl, rfl, rfl, rfl, rfl, rfl⟩
  run_step hstart ⟨rfl, rfl⟩

theorem step_sent {s : Net (Stream Addr)} (hlive : s.terminated = false) (data : Bytes) :
    Act.Step kernel config .environment s (sent s data) :=
  ⟨hlive, (sent s data).kernel, rfl, rfl⟩

theorem step_handled {s : Net (Stream Addr)} (hlive : s.terminated = false)
    (h : (s.readEvent kernel config 3 1).isSome = true) :
    Act.Step kernel config (.readable 1) s (handled s) := by
  obtain ⟨s', hs'⟩ := Option.isSome_iff_exists.mp h
  exact ⟨hlive, 3, by rw [handled, hs', Option.getD_some]⟩

/-- A queued message is not delivered after the partition. -/
theorem partition_isolates_queued :
    ∃ new, (partedQueued.deliverCmd kernel config "n1" "n2").log = partedQueued.log ++ new
      ∧ ∀ e ∈ new, ¬ e.WritesTo (config.getNodeAddr "n1") := by
  have hsent := run_step run_accepted (step_sent (by decide) framed)
  have hqueued := run_step hsent (step_handled (by decide) (by decide))
  have hpartition : Act.Step kernel config (.partition "n1") queued partedQueued :=
    ⟨by decide, rfl⟩
  have hdeliver : Act.Step kernel config (.deliver "n1" "n2") partedQueued
      (partedQueued.deliverCmd kernel config "n1" "n2") := ⟨by decide, rfl⟩
  have hrun := run_step (run_step hqueued hpartition) hdeliver
  rw [List.append_assoc] at hrun
  refine partition_isolates hrun (by decide) fun t ht => ?_
  obtain rfl := List.mem_singleton.mp ht
  trivial

/-- Bytes that are no message pass through to `n2`. -/
theorem partition_leaks :
    ¬ ∀ tr post s₀ s₁ s, (tcpNetwork kernel config).Run (tr ++ ⟨s₀, .partition "n1", s₁⟩ :: post) s →
      (∀ t ∈ post, t.act ≠ .recover "n1") →
      ∃ new, s.log = s₁.log ++ new ∧ ∀ e ∈ new, ¬ e.WritesTo (config.getNodeAddr "n1") := by
  intro hall
  have hpartition : Act.Step kernel config (.partition "n1") accepted parted := ⟨by decide, rfl⟩
  have hparted := run_step run_accepted hpartition
  have hsent := run_step hparted (step_sent (by decide) unframed)
  have hleaked := run_step hsent (step_handled (by decide) (by decide))
  rw [List.append_assoc, List.append_assoc] at hleaked
  obtain ⟨new, hlog, hnew⟩ := hall _ _ _ _ leaked hleaked (by simp)
  have hwrites : ∃ e ∈ leaked.log.drop parted.log.length,
      e.WritesTo (config.getNodeAddr "n1") := by decide
  obtain ⟨e, he, hw⟩ := hwrites
  rw [hlog, List.drop_left] at he
  exact hnew e he hw

end Demo

end Tmet.Tproxy
