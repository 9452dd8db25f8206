import Tmet.Proofs.Tproxy.Delivery
import Tmet.Proofs.Tproxy.Descriptors

/-!
# `Tmet.Proofs.Tproxy.Recover`: what `recover` leaves behind

`recover(n)` lists the entries whose channels start at `n`, and closes them together
with their peers. Since the entries of a connection have reverse channels, no entry of
`n` is left (`not_touches_recover`), and no other is lost (`get_recover`). The queues
of the channels that start at `n` are cleared, the others are kept.

A queue of a channel that leads to `n` keeps its messages. They refer to a cell of a
connection that is closed, so the cell is negative, and stays so whatever is connected
afterwards: a cell never names another end (`Net.Names`). `deliver_msg` drops such a
message. `writeSource_step` says where the bytes come from that a step writes, and
`recover_forgets` puts the two together.
-/

set_option autoImplicit false

namespace Tmet.Tproxy

open Tmet.Lib Tmet.Posix

variable {κ : Type} {K : Kernel κ Ctl Addr} {cfg : ConfigFile} {R : Scope}

/-! ### Entries -/

theorem Net.Consistent.recover {s : Net κ} (hs : s.Consistent K) (node : String) :
    (s.recover K cfg node).Consistent K :=
  hs.path (Path.partitionWith (R := { Scope.plain with untag := True }) (fun hf => hf) hs.apart node
    true fun _ => trivial)

/-- After `recover(n)` there is no entry of the node `n`. -/
theorem not_touches_recover {s : Net κ} (hs : s.Consistent K) {node : String}
    (hnode : (cfg.getNodeAddr node).sinPort ≠ INVALID_PORT) {fd : Fd} {st : ChannelStatus}
    (hst : (s.recover K cfg node).fdToChannelStatus.get fd = some st) :
    ¬ st.channel.Touches (cfg.getNodeAddr node) := by
  -- an entry whose channel starts at the node was listed, and is closed
  have hfirst {x : Fd} {t : ChannelStatus}
      (ht : (s.recover K cfg node).fdToChannelStatus.get x = some t) :
      t.channel.first ≠ cfg.getNodeAddr node := by
    have hbefore := kept_recover s node x t ht
    intro hstarts
    rw [Net.recover, Net.partitionWith] at ht
    dsimp only at ht
    rw [if_neg hnode] at ht
    cases hloop : s.partitionLoop K (cfg.getNodeAddr node) true true s.keys with
    | mk toClose s₁ =>
        rw [hloop] at ht
        obtain ⟨-, -, -, -, hall⟩ := retagged_partitionLoop hloop
        have hmem := hall rfl x (Net.mem_keys hbefore) t hbefore hstarts
        rw [get_closeAll_of_mem toClose hmem] at ht
        cases ht
  rintro (hstarts | hends)
  · exact hfirst hst hstarts
  · -- then the entry of the peer starts at the node
    have hs' : (s.recover K cfg node).Consistent K := hs.recover node
    obtain ⟨st', hp⟩ := hs'.linked fd st hst
    refine hfirst hp.peer ?_
    rw [hp.channel_eq]
    exact hends

/-- Closing connections of a node leaves the others. -/
theorem get_closeAll {a : Addr} (fds : List Fd) :
    ∀ {s : Net κ} {x : Fd} {st : ChannelStatus}, s.Consistent K →
      (∀ fd ∈ fds, s.fdToClient.get fd = none) →
      (∀ fd ∈ fds, ∀ t, s.fdToChannelStatus.get fd = some t → t.channel.Touches a) →
      s.fdToChannelStatus.get x = some st → ¬ st.channel.Touches a →
      (s.closeAll K fds).fdToChannelStatus.get x = some st := by
  induction fds with
  | nil => exact fun _ _ _ hst _ => hst
  | cons fd fds ih =>
      intro s x st hs hclient htouch hst hother
      have hrest := onlyTable_closeConnection (K := K) s fd false
      have hclosed : (s.closeConnection K fd false).Consistent K
          ∧ (s.closeConnection K fd false).fdToChannelStatus.get x = some st := by
        cases ht : s.fdToChannelStatus.get fd with
        | none =>
            have hclose : s.closeConnection K fd false = s.close K fd := by
              rw [Net.closeConnection, ht]
              rfl
            rw [hclose]
            exact ⟨hs.closeLoose ht (hclient fd (by simp)), hst⟩
        | some t =>
            refine ⟨hs.closePair ht, ?_⟩
            obtain ⟨t', hp⟩ := hs.linked fd t ht
            have hthis := htouch fd (by simp) t ht
            rw [get_closeConnection ht, if_neg, hst]
            -- neither `fd` nor its peer is `x`, as both are of the node
            rintro (rfl | rfl)
            · rw [ht] at hst
              cases hst
              exact hother hthis
            · rw [hp.peer] at hst
              cases hst
              rw [hp.channel_eq, Channel.touches_swap] at hother
              exact hother hthis
      refine ih hclosed.1 (fun y hy => ?_) (fun y hy t ht => ?_) hclosed.2 hother
      · rw [hrest.fdToClient]
        exact hclient y (by simp [hy])
      · exact htouch y (by simp [hy]) t (kept_closeConnection s fd y t ht)

/-- The entries that are not of the node are those of before. -/
theorem get_recover {s : Net κ} (hs : s.Consistent K) (node : String) {x : Fd} {st : ChannelStatus}
    (hother : ¬ st.channel.Touches (cfg.getNodeAddr node)) :
    (s.recover K cfg node).fdToChannelStatus.get x = some st
      ↔ s.fdToChannelStatus.get x = some st := by
  refine ⟨kept_recover s node x st, fun hst => ?_⟩
  rw [Net.recover, Net.partitionWith]
  dsimp only
  split
  · exact hst
  · cases hloop : s.partitionLoop K (cfg.getNodeAddr node) true true s.keys with
    | mk toClose s₁ =>
        obtain ⟨hretag, -, -, hfirst, -⟩ := retagged_partitionLoop hloop
        obtain ⟨hpath, -, hclient⟩ := Path.partitionLoop (R := { Scope.plain with untag := True })
          (fun _ => trivial) hs.apart hloop
        refine get_closeAll toClose (hs.path hpath) (fun y hy => ?_) (fun y hy t ht => ?_) ?_ hother
        · rw [hretag.fdToClient]
          exact hclient y hy
        · -- what is listed starts at the node
          obtain ⟨t₀, ht₀, hstarts⟩ := hfirst y hy
          obtain ⟨t₁, ht₁, hchannel, -⟩ := hretag.of_get ht
          rw [ht₀] at ht₁
          cases ht₁
          exact Or.inl (by rw [← hchannel, hstarts])
        · rw [partitionLoop_recover_get hloop x, hst]
          intro hmem
          obtain ⟨t₀, ht₀, hstarts⟩ := hfirst x hmem
          rw [hst] at ht₀
          cases ht₀
          exact hother (Or.inl hstarts)

/-! ### Queues -/

/-- The loop of `partition` leaves the queue of a channel that does not start at the
node. -/
theorem network_partitionLoop {addr : Addr} {clearMsg isRecover : Bool} {fds toClose : List Fd}
    {s s' : Net κ} (h : s.partitionLoop K addr clearMsg isRecover fds = (toClose, s')) {c : Channel}
    (hc : c.first ≠ addr) : s'.network.get c = s.network.get c := by
  replace h := partitionLoop_marks fds h
  induction h with
  | nil s => rfl
  | other _ _ ih => exact ih
  | @mark fd fds toClose s s' st hst hfirst _ ih =>
      rw [ih]
      -- a channel that is marked starts at the node
      have hne : c ≠ st.channel := by
        rintro rfl
        exact hc hfirst
      have htag : (if isRecover = true then s.setDisconnected fd false
          else s.closeConnection K fd true).network = s.network := by
        split
        · rfl
        · exact (onlyTable_closeConnection s fd true).network
      rw [Net.mark]
      cases clearMsg with
      | true =>
          show (FinFn.except _ st.channel _).get c = _
          rw [FinFn.get_except, if_neg hne, htag]
      | false => exact congrArg (FinFn.get · c) htag

theorem network_closeAll (fds : List Fd) :
    ∀ s : Net κ, (s.closeAll K fds).network = s.network := by
  induction fds with
  | nil => exact fun s => rfl
  | cons fd fds ih =>
      intro s
      exact (ih (s.closeConnection K fd false)).trans (onlyTable_closeConnection s fd false).network

/-- The queues of the channels that are not of the node are those of before. -/
theorem network_recover (s : Net κ) (node : String) {c : Channel}
    (hc : c.first ≠ cfg.getNodeAddr node) :
    (s.recover K cfg node).network.get c = s.network.get c := by
  rw [Net.recover, Net.partitionWith]
  dsimp only
  split
  · rfl
  · cases hloop : s.partitionLoop K (cfg.getNodeAddr node) true true s.keys with
    | mk toClose s₁ =>
        show (s₁.closeAll K toClose).network.get c = _
        rw [network_closeAll, network_partitionLoop hloop hc]

/-! ### Cells in the log -/

/-- The other cell of every entry in the log names the other end. -/
def Net.LogNames (s : Net κ) : Prop :=
  ∀ ev ∈ s.log, ∀ st, ev.conn = some st → s.Names st.fd st.channel.swap

theorem Net.LogNames.atom {s s' : Net κ} (h : s.LogNames) (hs : s.Consistent K)
    (hatom : Atom K R s s') : s'.LogNames := by
  intro ev hev st hst
  rcases (hatom.traffic hs).conn_of_mem hev with hold | hnew
  · exact (h ev hold st hst).atom hs hatom
  · obtain ⟨fd, hget⟩ := hnew st hst
    exact (hs.names hget).atom hs hatom

theorem Net.LogNames.path {s s' : Net κ} (h : s.LogNames) (hs : s.Consistent K)
    (hpath : Path K R s s') : s'.LogNames := by
  induction hpath with
  | refl => exact h
  | tail hrest hatom ih => exact ih.atom (hs.path hrest) hatom

theorem Net.LogNames.of_run {tr : List (Step (Net κ) Act)} {s : Net κ}
    (h : (tcpNetwork K cfg).Run tr s) : s.LogNames := by
  refine h.invariant (P := fun _ s => s.LogNames) ?_ ?_
  · rintro s ⟨-, -, -, -, -, -, hlog⟩ ev hev
    rw [hlog] at hev
    cases hev
  · intro tr s act s' hrun ih hstep
    have hs : s.Consistent K := .of_run hrun
    exact ih.path hs (Act.Step.path hs.apart hstep)

/-- A cell that was closed stays closed. -/
theorem closed_atom {s s' : Net κ} (hs : s.Consistent K) (hatom : Atom K R s s') {c : ℕ}
    (h : c < s.nextCell ∧ s.heap c < 0) : c < s'.nextCell ∧ s'.heap c < 0 := by
  obtain ⟨hkept, hle⟩ := hatom.cellsKept hs
  refine ⟨h.1.trans_le hle, ?_⟩
  by_contra hopen
  have hheap := (hkept c h.1 (not_lt.mp hopen)).1
  rw [hheap] at hopen
  exact hopen h.2

theorem closed_path {s s' : Net κ} (hs : s.Consistent K) (hpath : Path K R s s') {c : ℕ}
    (h : c < s.nextCell ∧ s.heap c < 0) : c < s'.nextCell ∧ s'.heap c < 0 := by
  induction hpath with
  | refl => exact h
  | tail hrest hatom ih => exact closed_atom (hs.path hrest) hatom ih

/-- After `recover(n)` the cells of the connections that `n` had are closed. -/
theorem closed_recover {tr : List (Step (Net κ) Act)} {s : Net κ} {node : String}
    (h : (tcpNetwork K cfg).Run tr s) (hlive : s.terminated = false)
    (hnode : (cfg.getNodeAddr node).sinPort ≠ INVALID_PORT) {ev : Event} {st : ChannelStatus}
    (hev : ev ∈ s.log) (hst : ev.conn = some st)
    (htouch : st.channel.Touches (cfg.getNodeAddr node)) :
    st.fd < (s.recover K cfg node).nextCell ∧ (s.recover K cfg node).heap st.fd < 0 := by
  have hstep : (tcpNetwork K cfg).step s (.recover node) (s.recover K cfg node) := ⟨hlive, rfl⟩
  have hlog : (s.recover K cfg node).log = s.log := (shrinks_recover s node).2
  rw [← hlog] at hev
  have hnames := Net.LogNames.of_run (h.snoc hstep) ev hev st hst
  refine ⟨hnames.lt, ?_⟩
  by_contra hopen
  -- otherwise there would be an entry of the node
  obtain ⟨t, ht, -, hchannel⟩ := hnames.entry (not_lt.mp hopen)
  refine not_touches_recover (.of_run h) hnode ht ?_
  rw [hchannel, Channel.touches_swap]
  exact htouch

/-! ### What is written -/

/-- Where bytes come from that a step writes, whose events are `new`: from a message in a
queue, from what came in during the step, or from a command. `P` says which messages. -/
inductive WriteSource (P : Msg → Prop) (s : Net κ) (act : Act) (new : List Event)
    (data : Bytes) : Prop
  | message {c : Channel} {q : List Msg} {m : Msg} :
      s.network.get c = some q → m ∈ q → P m → data <+: m.body → WriteSource P s act new data
  | passed {fd : Fd} {conn : Option ChannelStatus} {content : Bytes} :
      .received fd conn content ∈ new → data <:+: content → WriteSource P s act new data
  | command {node : String} {text : Bytes} :
      act = .cmd node text → data <+: cmdFrame text → WriteSource P s act new data

/-- From `s` to `s'` only such bytes were written, to such descriptors. -/
def Writes (P : Fd → Bytes → Prop) (s s' : Net κ) : Prop :=
  ∃ new, s'.log = s.log ++ new ∧ ∀ fd conn data, .wrote fd conn data ∈ new → P fd data

theorem Writes.of_eq {P : Fd → Bytes → Prop} {s s' : Net κ} (h : s'.log = s.log) :
    Writes P s s' :=
  ⟨[], by rw [h, List.append_nil], nofun⟩

theorem Writes.trans {P : Fd → Bytes → Prop} {s s' s'' : Net κ} (h : Writes P s s')
    (h' : Writes P s' s'') : Writes P s s'' := by
  obtain ⟨new, hnew, hP⟩ := h
  obtain ⟨new', hnew', hP'⟩ := h'
  refine ⟨new ++ new', by rw [hnew', hnew, List.append_assoc], fun fd conn data hmem => ?_⟩
  rcases List.mem_append.mp hmem with hmem | hmem
  · exact hP fd conn data hmem
  · exact hP' fd conn data hmem

theorem Writes.mono {P Q : Fd → Bytes → Prop} (hPQ : ∀ fd data, P fd data → Q fd data)
    {s s' : Net κ} (h : Writes P s s') : Writes Q s s' := by
  obtain ⟨new, hnew, hP⟩ := h
  exact ⟨new, hnew, fun fd conn data hmem => hPQ fd data (hP fd conn data hmem)⟩

/-- A call of `recv` writes nothing. -/
theorem writes_recv (P : Fd → Bytes → Prop) {s s₁ : Net κ} {fd : Fd} {len : ℕ} {flags : RecvFlags}
    {r : RecvResult} (h : s.recv K fd len flags = (r, s₁)) : Writes P s s₁ := by
  cases h
  refine ⟨_, rfl, fun x conn data hmem => ?_⟩
  split at hmem <;> simp at hmem

/-- A call of `write` takes the first of the bytes. -/
theorem writes_write {s s₁ : Net κ} {fd : Fd} {data : Bytes} {r : WriteResult}
    (h : s.write K fd data = (r, s₁)) : Writes (fun x piece => x = fd ∧ piece <+: data) s s₁ := by
  cases h
  refine ⟨_, rfl, fun x conn piece hmem => ?_⟩
  split at hmem
  · obtain ⟨hx, -, hpiece⟩ := Event.wrote.inj (List.mem_singleton.mp hmem)
    rw [hpiece]
    exact ⟨hx, List.take_prefix _ _⟩
  · cases hmem

theorem writes_writeLoop (fuel : ℕ) :
    ∀ {s s' : Net κ} {fd : Fd} {body : Bytes} {left : ℕ} {size size' : ℤ},
      s.writeLoop K fuel fd body left size = (size', s') →
      Writes (fun x piece => x = fd ∧ piece <+: body) s s' := by
  induction fuel with
  | zero =>
      intro s s' fd body left size size' h
      cases h
      exact .of_eq rfl
  | succ fuel ih =>
      intro s s' fd body left size size' h
      rw [Net.writeLoop] at h
      split at h
      · cases h
        exact .of_eq rfl
      · cases hw : s.write K fd (body.take left) with
        | mk r s₁ =>
            -- what is left is written from the beginning of the body again
            have hpiece : Writes (fun x piece => x = fd ∧ piece <+: body) s s₁ :=
              (writes_write hw).mono fun x piece hx =>
                ⟨hx.1, hx.2.trans (List.take_prefix left body)⟩
            rw [hw] at h
            cases r with
            | error e =>
                cases h
                exact hpiece
            | ok n => exact hpiece.trans (ih h)

/-- A message is written to a descriptor that has an entry. -/
theorem writes_deliverTaken (cfg : ConfigFile) (s : Net κ) (m : Msg) :
    Writes (fun x piece => (∃ st, s.fdToChannelStatus.get x = some st) ∧ piece <+: m.body) s
      (s.deliverTaken K cfg m) := by
  rw [Net.deliverTaken]
  cases hst : s.fdToChannelStatus.get (s.heap m.fd) with
  | none => exact .of_eq rfl
  | some st =>
      dsimp only
      split
      · exact .of_eq rfl
      · cases hloop : s.writeLoop K m.size (s.heap m.fd) m.body m.size (K.garbage s.kernel) with
        | mk size s₁ =>
            have hwrites : Writes (fun x piece =>
                (∃ st, s.fdToChannelStatus.get x = some st) ∧ piece <+: m.body) s s₁ := by
              refine (writes_writeLoop _ hloop).mono fun x piece hx => ⟨⟨st, ?_⟩, hx.2⟩
              rw [hx.1]
              -- the loop writes to one descriptor, the one of the cell
              exact hst
            dsimp only
            split
            · exact hwrites.trans (.of_eq (onlyTable_closeConnection s₁ _ _).log)
            · exact hwrites

/-! ### Events of a connection -/

/-- What happens on an event, one call after the other. A message is written when it
comes in, or not at all. -/
inductive ReadMove (K : Kernel κ Ctl Addr) (cfg : ConfigFile) : Net κ → Net κ → Prop
  | quiet {s s' : Net κ} : s'.log = s.log → Shrinks s s' → ReadMove K cfg s s'
  | recv {s s₁ : Net κ} {fd : Fd} {len : ℕ} {flags : RecvFlags} {r : RecvResult} :
      s.recv K fd len flags = (r, s₁) → ReadMove K cfg s s₁
  | message {s s₁ : Net κ} {fd : Fd} {len : ℕ} {st : ChannelStatus} {m : Msg} :
      s.recv K fd len .waitall = (.ok m.content, s₁) → ReadMove K cfg s (s₁.enqueueMsg K cfg st m)
  | transfer {s s₁ s₂ : Net κ} {outFd inFd : Fd} {len : ℕ} {st : ChannelStatus} {data : Bytes}
      {r : WriteResult} :
      s.fdToChannelStatus.get outFd = some st → s.recv K inFd len .dontwait = (.ok data, s₁) →
      s₁.write K outFd data = (r, s₂) → ReadMove K cfg s s₂

/-- A sequence of such calls. -/
abbrev ReadPath (K : Kernel κ Ctl Addr) (cfg : ConfigFile) : Net κ → Net κ → Prop :=
  Relation.ReflTransGen (ReadMove K cfg)

theorem ReadMove.path {s s' : Net κ} (h : ReadMove K cfg s s') : ReadPath K cfg s s' := .single h

theorem readPath_closeConnection (s : Net κ) (fd : Fd) (tag : Bool) :
    ReadPath K cfg s (s.closeConnection K fd tag) :=
  (ReadMove.quiet (onlyTable_closeConnection s fd tag).log (shrinks_closeConnection s fd tag)).path

theorem readPath_headerLoop (fuel : ℕ) :
    ∀ {s s' : Net κ} {fd : Fd} {header : MsgHeader} {exit : Net.HeaderExit},
      s.headerLoop K cfg fuel fd header = some (exit, s') → ReadPath K cfg s s' := by
  have hrecv {s s₁ : Net κ} {fd : Fd} {len : ℕ} {flags : RecvFlags} {r : RecvResult}
      (hr : s.recv K fd len flags = (r, s₁)) : ReadPath K cfg s s₁ := (ReadMove.recv hr).path
  induction fuel with
  | zero =>
      intro s s' fd header exit h
      cases h
  | succ fuel ih =>
      intro s s' fd header exit h
      cases headerLoop_pass h with
      | failed hr => exact hrecv hr
      | short hr => exact hrecv hr
      | invalid hr => exact (hrecv hr).tail (.quiet rfl (.of_eq rfl))
      | stale hr _ => exact hrecv hr
      | interrupted hr hr₂ => exact (hrecv hr).trans (hrecv hr₂)
      | closed hr hr₂ => exact ((hrecv hr).trans (hrecv hr₂)).trans (readPath_closeConnection _ _ _)
      | message hmsg hrest => exact ((hrecv hmsg.peek).tail (.message hmsg.recv)).trans (ih hrest)

theorem readPath_transferUnintercepted {fuel : ℕ} {s s' : Net κ} {outFd inFd : Fd}
    {st : ChannelStatus} (hst : s.fdToChannelStatus.get outFd = some st)
    (h : s.transferUnintercepted K fuel outFd inFd = some s') : ReadPath K cfg s s' := by
  have htransfers := transferUnintercepted_transfers fuel h
  clear h
  induction htransfers with
  | ended hr => exact (ReadMove.recv hr).path
  | closed hr => exact (ReadMove.recv hr).path.trans (readPath_closeConnection _ _ _)
  | broken hr hw => exact (ReadMove.transfer hst hr hw).path.trans (readPath_closeConnection _ _ _)
  | passed hr hw _ ih =>
      refine (ReadMove.transfer hst hr hw).path.trans (ih ?_)
      rw [(onlyIO_write hw).fdToChannelStatus, (onlyIO_recv hr).fdToChannelStatus]
      exact hst

theorem readPath_receivePhase {fuel : ℕ} {s s' : Net κ} {fd : Fd} {raw : Bool}
    (h : s.receivePhase K cfg fuel fd = some (raw, s')) : ReadPath K cfg s s' := by
  rw [Net.receivePhase] at h
  split at h
  · cases h
    exact .refl
  · obtain ⟨exit, s₁, hloop, hafter⟩ := receiveIntercepted_afterLoop h
    have hpath := readPath_headerLoop fuel hloop
    cases hafter with
    | kept => exact hpath
    | closed => exact hpath.trans (readPath_closeConnection _ _ _)
    | tagged => exact hpath.tail (.quiet rfl (.of_eq rfl))

theorem readPath_doReceive {fuel : ℕ} {s s' : Net κ} {fd : Fd} (hs : s.Consistent K)
    (h : s.doReceive K cfg fuel fd = some s') : ReadPath K cfg s s' := by
  cases hst : s.fdToChannelStatus.get fd with
  | none =>
      rw [Net.doReceive, hst] at h
      cases h
      exact readPath_closeConnection s fd false
  | some st =>
      obtain ⟨raw, s₁, hphase, hends⟩ := doReceive_cases hst h
      have hpath := readPath_receivePhase hphase
      rcases hends with rfl | ⟨-, cf, hcf, htransfer⟩
      · exact hpath
      · -- the transfer goes to the peer, which has an entry as well
        have hphasePath := Path.receivePhase (R := { Scope.plain with deliver := True })
          (fun hf => hf) (fun _ => trivial) hphase (hs.apart fd st hst) fun _ => by simp [hst]
        obtain ⟨st', hp⟩ := (hs.path hphasePath).linked fd cf hcf
        exact hpath.trans (readPath_transferUnintercepted hp.peer htransfer)

theorem readPath_readEvent {fuel : ℕ} {s s' : Net κ} {fd : Fd} (hs : s.Consistent K)
    (h : s.readEvent K cfg fuel fd = some s') : ReadPath K cfg s s' := by
  cases hclient : s.fdToClient.get fd with
  | none =>
      rw [Net.readEvent, hclient] at h
      exact readPath_doReceive hs h
  | some client =>
      obtain ⟨r, s₁, hr, rfl | rfl⟩ := readEvent_client hclient h
      · exact (ReadMove.recv hr).path
      · exact (ReadMove.recv hr).path.tail (.quiet rfl (.of_eq rfl))

/-- What is written from `s` to `s'` came in between them. -/
def PassesOn (s s' : Net κ) : Prop :=
  ∃ new, s'.log = s.log ++ new ∧ ∀ fd conn data, .wrote fd conn data ∈ new →
    ∃ fd' conn' content, .received fd' conn' content ∈ new ∧ data <:+: content

theorem PassesOn.of_eq {s s' : Net κ} (h : s'.log = s.log) : PassesOn s s' :=
  ⟨[], by rw [h, List.append_nil], nofun⟩

theorem PassesOn.trans {s s' s'' : Net κ} (h : PassesOn s s') (h' : PassesOn s' s'') :
    PassesOn s s'' := by
  obtain ⟨new, hnew, hpass⟩ := h
  obtain ⟨new', hnew', hpass'⟩ := h'
  refine ⟨new ++ new', by rw [hnew', hnew, List.append_assoc], fun fd conn data hmem => ?_⟩
  rcases List.mem_append.mp hmem with hmem | hmem
  · obtain ⟨fd', conn', content, hrecv, hinfix⟩ := hpass fd conn data hmem
    exact ⟨fd', conn', content, List.mem_append_left _ hrecv, hinfix⟩
  · obtain ⟨fd', conn', content, hrecv, hinfix⟩ := hpass' fd conn data hmem
    exact ⟨fd', conn', content, List.mem_append_right _ hrecv, hinfix⟩

theorem passesOn_recv {s s₁ : Net κ} {fd : Fd} {len : ℕ} {flags : RecvFlags} {r : RecvResult}
    (h : s.recv K fd len flags = (r, s₁)) : PassesOn s s₁ := by
  obtain ⟨new, hnew, hnothing⟩ := writes_recv (fun _ _ => False) h
  exact ⟨new, hnew, fun x conn data hmem => (hnothing x conn data hmem).elim⟩

/-- Something is received, and parts of it are written. -/
theorem passesOn_write {s s₁ s₂ : Net κ} {fd : Fd} {len : ℕ} {flags : RecvFlags} {content : Bytes}
    (hflags : flags ≠ .peekDontwait) (hr : s.recv K fd len flags = (.ok content, s₁))
    (hw : Writes (fun _ piece => piece <:+: content) s₁ s₂) : PassesOn s s₂ := by
  have hlog : s₁.log = s.log ++ [.received fd (s.fdToChannelStatus.get fd) content] := by
    rw [Net.recv] at hr
    obtain ⟨hdata, rfl⟩ := Prod.mk.inj hr
    cases flags with
    | peekDontwait => exact absurd rfl hflags
    | dontwait | waitall => simp only [hdata]
  obtain ⟨new, hnew, hpiece⟩ := hw
  refine ⟨.received fd (s.fdToChannelStatus.get fd) content :: new, ?_, fun x conn data hmem => ?_⟩
  · rw [hnew, hlog, List.append_assoc, List.singleton_append]
  · refine ⟨fd, _, content, List.mem_cons_self .., hpiece x conn data ?_⟩
    simpa using hmem

theorem passesOn_enqueueMsg {s s₁ : Net κ} {fd : Fd} {len : ℕ} {m : Msg} (st : ChannelStatus)
    (hr : s.recv K fd len .waitall = (.ok m.content, s₁)) :
    PassesOn s (s₁.enqueueMsg K cfg st m) := by
  rw [Net.enqueueMsg]
  split
  · exact passesOn_recv hr
  · split
    · refine passesOn_write (by decide) hr ((writes_deliverTaken cfg s₁ m).mono fun x piece hx => ?_)
      exact hx.2.isInfix.trans (List.drop_suffix 8 m.content).isInfix
    · exact (passesOn_recv hr).trans (.of_eq rfl)

theorem passesOn_readPath {s s' : Net κ} (h : ReadPath K cfg s s') : PassesOn s s' := by
  induction h with
  | refl => exact .of_eq rfl
  | tail _ hmove ih =>
      refine ih.trans ?_
      cases hmove with
      | quiet hlog _ => exact .of_eq hlog
      | recv hr => exact passesOn_recv hr
      | message hr => exact passesOn_enqueueMsg _ hr
      | transfer _ hr hw =>
          exact passesOn_write (by decide) hr ((writes_write hw).mono fun x piece hx => hx.2.isInfix)

/-! ### Steps -/

/-- `deliver` writes a message whose cell is open. -/
theorem writes_deliverCmd (cfg : ConfigFile) (s : Net κ) (src dst : String) :
    Writes (fun x data => (∃ st, s.fdToChannelStatus.get x = some st) ∧
      ∃ c q m, s.network.get c = some q ∧ m ∈ q ∧ 0 ≤ s.heap m.fd ∧ data <+: m.body)
      s (s.deliverCmd K cfg src dst) := by
  rw [Net.deliverCmd]
  dsimp only
  split
  · exact .of_eq rfl
  · rw [Net.deliverMsg]
    cases hq : s.network.get _ with
    | none => exact .of_eq rfl
    | some q =>
        dsimp only
        cases hm : Net.dequeueOpen s.heap q with
        | mk m rest =>
            cases m with
            | none => exact .of_eq rfl
            | some msg =>
                -- messages whose cell is closed are dropped on the way to the first open one
                obtain ⟨dropped, rfl, hopen⟩ := dequeueOpen_eq hm
                have hwrites := writes_deliverTaken (K := K) cfg
                  { s with network :=
                      s.network.insert ⟨cfg.getNodeAddr src, cfg.getNodeAddr dst⟩ rest } msg
                exact hwrites.mono fun x data hx =>
                  ⟨hx.1, _, _, msg, hq, by simp, hopen msg rfl, hx.2⟩

theorem writes_sendCmd (cfg : ConfigFile) (s : Net κ) (node : String) (text : Bytes) :
    Writes (fun x data => s.clientToFd.get (cfg.getNodeAddr node) = some x
      ∧ data <+: cmdFrame text) s (s.sendCmd K cfg node text) := by
  rw [Net.sendCmd]
  dsimp only
  split
  · exact .of_eq rfl
  · cases hfd : s.clientToFd.get (cfg.getNodeAddr node) with
    | none => exact .of_eq rfl
    | some fd =>
        dsimp only
        rw [← cmdFrame]
        cases hw : s.write K fd (cmdFrame text) with
        | mk r s₁ =>
            have hwrites : Writes (fun x data => some fd = some x ∧ data <+: cmdFrame text) s s₁ :=
              (writes_write hw).mono fun x data hx => ⟨congrArg some hx.1.symm, hx.2⟩
            cases r with
            | ok n => exact hwrites
            | error e => exact hwrites.trans (.of_eq rfl)

theorem log_addMonitorFd (s : Net κ) (fd : Fd) : (s.addMonitorFd K fd).log = s.log := by
  rw [Net.addMonitorFd]
  split
  · rfl
  · dsimp only
    split <;> rfl

theorem log_tcpAccept (cfg : ConfigFile) (s : Net κ) : (s.tcpAccept K cfg).2.log = s.log := by
  rw [Net.tcpAccept]
  split
  · rfl
  · split <;> rfl

/-- Nothing goes in or out while a connection is accepted. -/
theorem log_acceptEvent (s : Net κ) : (s.acceptEvent K cfg).log = s.log := by
  have haccepts := acceptEvent_accepts K cfg s
  generalize s.acceptEvent K cfg = s' at haccepts ⊢
  cases haccepts with
  | failed hacc =>
      have hlog := log_tcpAccept (K := K) cfg s
      rw [hacc] at hlog
      exact hlog
  | client _ _ _ _ => exact log_addMonitorFd _ _
  | refused _ _ _ => rfl
  | leaked _ _ _ _ _ => rfl
  | connected _ _ _ _ _ _ _ => exact (log_addMonitorFd _ _).trans (log_addMonitorFd _ _)

theorem log_partitionLoop {addr : Addr} {clearMsg isRecover : Bool} {fds toClose : List Fd}
    {s s' : Net κ} (h : s.partitionLoop K addr clearMsg isRecover fds = (toClose, s')) :
    s'.log = s.log := by
  replace h := partitionLoop_marks fds h
  induction h with
  | nil s => rfl
  | other _ _ ih => exact ih
  | @mark fd fds toClose s s' st _ _ _ ih =>
      obtain ⟨network, heq⟩ := mark_eq (K := K) s fd st.channel clearMsg isRecover
      rw [ih, heq]
      cases isRecover with
      | true => rfl
      | false => exact (onlyTable_closeConnection s fd true).log

theorem log_partitionWith (s : Net κ) (node : String) (clearMsg isRecover : Bool) :
    (s.partitionWith K cfg node clearMsg isRecover).log = s.log := by
  rw [Net.partitionWith]
  dsimp only
  split
  · rfl
  · cases hloop : s.partitionLoop K (cfg.getNodeAddr node) clearMsg isRecover s.keys with
    | mk toClose s₁ => exact (shrinks_closeAll toClose s₁).2.trans (log_partitionLoop hloop)

/-- Where the bytes come from that a step writes. -/
theorem writeSource_step {s s' : Net κ} {act : Act} (hs : s.Consistent K)
    (hstep : act.Step K cfg s s') :
    ∃ new, s'.log = s.log ++ new ∧ ∀ fd conn data, .wrote fd conn data ∈ new →
      WriteSource (fun m => 0 ≤ s.heap m.fd) s act new data := by
  obtain ⟨-, hstep⟩ := hstep
  -- accepting, closing and the environment write nothing
  have hquiet (h : s'.log = s.log) : ∃ new, s'.log = s.log ++ new ∧
      ∀ fd conn data, .wrote fd conn data ∈ new →
        WriteSource (fun m => 0 ≤ s.heap m.fd) s act new data :=
    ⟨[], by rw [h, List.append_nil], nofun⟩
  cases act with
  | accept =>
      subst hstep
      exact hquiet (log_acceptEvent s)
  | readable fd =>
      obtain ⟨fuel, hstep⟩ := hstep
      obtain ⟨new, hnew, hpasses⟩ := passesOn_readPath (readPath_readEvent hs hstep)
      refine ⟨new, hnew, fun fd conn data hmem => ?_⟩
      obtain ⟨fd', conn', content, hrecv, hinfix⟩ := hpasses fd conn data hmem
      exact .passed hrecv hinfix
  | deliver src dst =>
      subst hstep
      obtain ⟨new, hnew, hmessage⟩ := writes_deliverCmd (K := K) cfg s src dst
      refine ⟨new, hnew, fun fd conn data hmem => ?_⟩
      obtain ⟨-, c, q, m, hq, hm, hopen, hpre⟩ := hmessage fd conn data hmem
      exact .message hq hm hopen hpre
  | cmd node text =>
      subst hstep
      obtain ⟨new, hnew, hpre⟩ := writes_sendCmd (K := K) cfg s node text
      exact ⟨new, hnew, fun fd conn data hmem => .command rfl (hpre fd conn data hmem).2⟩
  | partition node =>
      subst hstep
      exact hquiet (log_partitionWith s node false false)
  | recover node =>
      subst hstep
      exact hquiet (log_partitionWith s node true true)
  | environment =>
      obtain ⟨k, -, rfl⟩ := hstep
      exact hquiet rfl

/-! ### Runs -/

/-- The message was received on a connection of the node. -/
def Net.HasReceived (s : Net κ) (a : Addr) (m : Msg) : Prop :=
  ∃ fd st, .received fd (some st) m.content ∈ s.log ∧ st.channel.Touches a ∧ st.fd = m.fd

/-- `recover(n)` leaves nothing of the connections of `n`: no entry; and of the messages
that were received on one of them before, each refers to a closed cell from then on, and
none is a source of what is written, whatever is connected in the meantime. Entries and
queues of other channels are as they were. -/
theorem recover_forgets {tr post : List (Step (Net κ) Act)} {s₀ s₁ s : Net κ} {node : String}
    (h : (tcpNetwork K cfg).Run (tr ++ ⟨s₀, .recover node, s₁⟩ :: post) s)
    (hnode : (cfg.getNodeAddr node).sinPort ≠ INVALID_PORT) :
    (∀ fd st, s₁.fdToChannelStatus.get fd = some st →
      ¬ st.channel.Touches (cfg.getNodeAddr node))
    ∧ (∀ t ∈ post, (∀ m, s₀.HasReceived (cfg.getNodeAddr node) m → t.src.heap m.fd < 0)
      ∧ ∃ new, t.dst.log = t.src.log ++ new ∧ ∀ fd conn data, .wrote fd conn data ∈ new →
        WriteSource (fun m => ¬ s₀.HasReceived (cfg.getNodeAddr node) m) t.src t.act new data)
    ∧ (∀ fd st, ¬ st.channel.Touches (cfg.getNodeAddr node) →
      (s₁.fdToChannelStatus.get fd = some st ↔ s₀.fdToChannelStatus.get fd = some st))
    ∧ ∀ c : Channel, ¬ c.Touches (cfg.getNodeAddr node) →
      s₁.network.get c = s₀.network.get c := by
  obtain ⟨hrun, hlive, hs₁⟩ := h.through
  replace hs₁ : s₁ = s₀.recover K cfg node := hs₁
  have hs₀ : s₀.Consistent K := .of_run hrun
  subst hs₁
  refine ⟨?_, ?_, ?_, ?_⟩
  · intro fd st hst
    exact not_touches_recover hs₀ hnode hst
  · intro t ht
    obtain ⟨pre, rest, rfl⟩ := List.append_of_mem ht
    have hsplit : tr ++ ⟨s₀, .recover node, s₀.recover K cfg node⟩ :: (pre ++ t :: rest)
        = (tr ++ ⟨s₀, .recover node, s₀.recover K cfg node⟩ :: pre) ++ t :: rest := by simp
    rw [hsplit] at h
    obtain ⟨hbefore, hstep⟩ := h.through
    -- the cell of such a message was closed by `recover`, and is still closed
    have hclosed : ∀ m, s₀.HasReceived (cfg.getNodeAddr node) m → t.src.heap m.fd < 0 := by
      rintro m ⟨x, st, hrecv, htouch, hcell⟩
      rw [← hcell]
      have hafter : st.fd < t.src.nextCell ∧ t.src.heap st.fd < 0 := by
        refine hbefore.after (P := fun s => st.fd < s.nextCell ∧ s.heap st.fd < 0) ?_ ?_
        · intro _ _
          exact closed_recover hrun hlive hnode hrecv rfl htouch
        · intro before u _ hu hclosed hstep
          have hs : u.src.Consistent K := .of_run hu
          exact closed_path hs (Act.Step.path hs.apart hstep) hclosed
      exact hafter.2
    obtain ⟨new, hnew, hsource⟩ := writeSource_step (.of_run hbefore) hstep
    refine ⟨hclosed, new, hnew, fun fd conn data hmem => ?_⟩
    cases hsource fd conn data hmem with
    | @message c q m hq hm hopen hpre =>
        exact .message hq hm (fun hold => absurd hopen (not_le.mpr (hclosed m hold))) hpre
    | passed hrecv hinfix => exact .passed hrecv hinfix
    | command hact hpre => exact .command hact hpre
  · intro fd st hother
    exact get_recover hs₀ node hother
  · intro c hother
    exact network_recover s₀ node fun hfirst => hother (Or.inl hfirst)

namespace Demo

/-- `n1` recovers while a message of it is queued, and then the message is to be
delivered. -/
def forgotten : Net (Stream Addr) := queued.recover kernel config "n1"

theorem recover_forgets_queued :
    ∃ new, (forgotten.deliverCmd kernel config "n1" "n2").log = forgotten.log ++ new
      ∧ ∀ fd conn data, .wrote fd conn data ∈ new →
        WriteSource (fun m => ¬ queued.HasReceived (config.getNodeAddr "n1") m) forgotten
          (.deliver "n1" "n2") new data := by
  have hsent := run_step run_accepted (step_sent (by decide) framed)
  have hqueued := run_step hsent (step_handled (by decide) (by decide))
  have hrecover : Act.Step kernel config (.recover "n1") queued forgotten := ⟨by decide, rfl⟩
  have hdeliver : Act.Step kernel config (.deliver "n1" "n2") forgotten
      (forgotten.deliverCmd kernel config "n1" "n2") := ⟨by decide, rfl⟩
  have hrun := run_step (run_step hqueued hrecover) hdeliver
  rw [List.append_assoc] at hrun
  obtain ⟨-, hlater, -⟩ := recover_forgets hrun (by decide)
  exact (hlater _ (List.mem_singleton.mpr rfl)).2

end Demo

end Tmet.Tproxy
