import Tmet.Proofs.Tproxy.Partition

/-!
# `Tmet.Proofs.Tproxy.Router`: the tables of the command connections

`client_to_fd` leads from a client to the connection on which its commands are sent,
`fd_to_client` from a connection back to the client. `RouterTables` says that they
fit together: the first is inverse to the second, and it has every client that has an
open connection, with the one that was accepted last.

A client may have several connections, since the end of one is noticed only by an
event or by a failed write. Both erase the client from `client_to_fd` when they close
one of them. If another one is open, this one is then out of reach of `send_cmd`.
`router_tables_iff`: this is the only way in which the tables come apart.
-/

set_option autoImplicit false

namespace Tmet.Tproxy

open Tmet.Lib Tmet.Posix

variable {κ : Type} {K : Kernel κ Ctl Addr} {cfg : ConfigFile} {R : Scope}

/-- The command connection that the step accepts: its client and its descriptor. -/
def acceptedClient (K : Kernel κ Ctl Addr) (cfg : ConfigFile) (t : Step (Net κ) Act) :
    Option (Addr × Fd) :=
  match t.act with
  | .accept =>
      match (t.src.tcpAccept K cfg).1 with
      | none => none
      | some acc =>
          if cfg.isRouterAddr acc.originAddr then some (acc.clientAddr.host, acc.socketFd)
          else none
  | _ => none

/-- The command connection that the step closes: it has an event and is at its end, or
a command cannot be written to it. -/
def closedClient (K : Kernel κ Ctl Addr) (cfg : ConfigFile) (t : Step (Net κ) Act) :
    Option (Addr × Fd) :=
  match t.act with
  | .readable fd =>
      match t.src.fdToClient.get fd with
      | none => none
      | some client => if (t.src.checkConnectionIsActive K fd).1 then none else some (client, fd)
  | .cmd node text =>
      let addr := cfg.getNodeAddr node
      if addr.sinPort = INVALID_PORT then none
      else
        match t.src.clientToFd.get addr with
        | none => none
        | some fd =>
            match (t.src.write K fd (cmdFrame text)).1 with
            | .ok _ => none
            | .error _ => some (addr, fd)
  | _ => none

/-- The open command connection of the client that was accepted last. -/
def latestOpen (K : Kernel κ Ctl Addr) (cfg : ConfigFile) (tr : List (Step (Net κ) Act))
    (s : Net κ) (a : Addr) : Option Fd :=
  ((tr.reverse.filterMap (acceptedClient K cfg)).find? fun p =>
    p.1 = a ∧ s.fdToClient.get p.2 = some a).map Prod.snd

/-- The two tables fit together. -/
structure RouterTables (K : Kernel κ Ctl Addr) (cfg : ConfigFile) (tr : List (Step (Net κ) Act))
    (s : Net κ) : Prop where
  inverse : ∀ a fd, s.clientToFd.get a = some fd →
    s.fdToClient.get fd = some a ∧ fd ∈ K.fds s.kernel
  latest : ∀ a fd, s.fdToClient.get fd = some a →
    ∃ fd', s.clientToFd.get a = some fd' ∧ latestOpen K cfg tr s a = some fd'

/-- The step closes a command connection of a client that has another one. -/
def StrandsClient (K : Kernel κ Ctl Addr) (cfg : ConfigFile) (t : Step (Net κ) Act) : Prop :=
  ∃ a fd, closedClient K cfg t = some (a, fd) ∧ ∃ fd' ≠ fd, t.src.fdToClient.get fd' = some a

/-! ### Steps -/

/-- What a step does to the tables: nothing, or it enters a new command connection, or
it erases one; `opened` and `closed` say which. -/
inductive ClientChange (K : Kernel κ Ctl Addr) (s s' : Net κ) :
    Option (Addr × Fd) → Option (Addr × Fd) → Prop
  | same : s'.clientToFd = s.clientToFd → s'.fdToClient = s.fdToClient →
      ClientChange K s s' none none
  | opened {a : Addr} {fd : Fd} : fd ∉ K.fds s.kernel →
      s'.clientToFd = s.clientToFd.insert a fd → s'.fdToClient = s.fdToClient.insert fd a →
      ClientChange K s s' (some (a, fd)) none
  | closed {a : Addr} {fd : Fd} : s.fdToClient.get fd = some a →
      s'.clientToFd = s.clientToFd.erase a → s'.fdToClient = s.fdToClient.erase fd →
      ClientChange K s s' none (some (a, fd))

/-- An atom that leaves the router's tables alone keeps the other one as well. -/
theorem Atom.clientToFd (hR : ¬ R.router) {s s' : Net κ} (h : Atom K R s s') :
    s'.clientToFd = s.clientToFd := by
  cases h with
  | tag _ => exact (onlyTable_closeConnection s _ true).clientToFd
  | closePair _ => exact (onlyTable_closeConnection s _ false).clientToFd
  | routerUp hr _ _ => exact absurd hr hR
  | routerDown hr _ => exact absurd hr hR
  | _ => rfl

theorem Path.clientToFd (hR : ¬ R.router) {s s' : Net κ} (h : Path K R s s') :
    s'.clientToFd = s.clientToFd := by
  induction h with
  | refl => rfl
  | tail _ hstep ih => exact (hstep.clientToFd hR).trans ih

theorem ClientChange.of_path (hR : ¬ R.router) {s s' : Net κ} (h : Path K R s s') :
    ClientChange K s s' none none :=
  .same (h.clientToFd hR) (h.fdToClient hR)

/-- A connection to the router is entered in both tables. -/
theorem acceptEvent_client {s s₁ : Net κ} {acc : AcceptData}
    (hacc : s.tcpAccept K cfg = (some acc, s₁)) (hr : cfg.isRouterAddr acc.originAddr = true) :
    s.acceptEvent K cfg = ({ s₁ with
      clientToFd := s₁.clientToFd.insert acc.clientAddr.host acc.socketFd
      fdToClient := s₁.fdToClient.insert acc.socketFd acc.clientAddr.host } : Net κ).addMonitorFd K
        acc.socketFd := by
  rw [Net.acceptEvent, Net.doAcceptConnect, hacc]
  dsimp only
  rw [if_pos hr]

theorem clientTables_addMonitorFd (s : Net κ) (fd : Fd) :
    (s.addMonitorFd K fd).clientToFd = s.clientToFd
      ∧ (s.addMonitorFd K fd).fdToClient = s.fdToClient := by
  have hpath := Path.addMonitorFd (K := K) (R := .plain) s fd
  exact ⟨hpath.clientToFd fun hf => hf, hpath.fdToClient fun hf => hf⟩

/-- No other new connection touches the tables. -/
theorem clientTables_acceptEvent {s : Net κ}
    (hclient : ∀ acc, (s.tcpAccept K cfg).1 = some acc → cfg.isRouterAddr acc.originAddr = false) :
    (s.acceptEvent K cfg).clientToFd = s.clientToFd
      ∧ (s.acceptEvent K cfg).fdToClient = s.fdToClient := by
  have haccepts := acceptEvent_accepts K cfg s
  generalize s.acceptEvent K cfg = s' at haccepts ⊢
  cases haccepts with
  | failed hacc =>
      have hpath := Path.tcpAccept_none (R := .plain) hacc
      exact ⟨hpath.clientToFd fun hf => hf, hpath.fdToClient fun hf => hf⟩
  | client hacc hr _ _ =>
      -- this would be a connection to the router
      rw [hclient _ (congrArg Prod.fst hacc)] at hr
      cases hr
  | refused _ _ _ => exact ⟨rfl, rfl⟩
  | leaked _ _ _ _ _ => exact ⟨rfl, rfl⟩
  | connected _ _ _ _ _ _ _ =>
      obtain ⟨hto, hfrom⟩ := clientTables_addMonitorFd (K := K) _ _
      obtain ⟨hto', hfrom'⟩ := clientTables_addMonitorFd (K := K) _ _
      exact ⟨hto.trans hto', hfrom.trans hfrom'⟩

theorem clientChange_accept (s s' : Net κ) (hs' : s' = s.acceptEvent K cfg) :
    ClientChange K s s' (acceptedClient K cfg ⟨s, .accept, s'⟩) none := by
  rw [acceptedClient]
  dsimp only
  cases hacc : s.tcpAccept K cfg with
  | mk r s₁ =>
      cases r with
      | none =>
          have hnot : ∀ acc, (s.tcpAccept K cfg).1 = some acc →
              cfg.isRouterAddr acc.originAddr = false := by simp [hacc]
          obtain ⟨hto, hfrom⟩ := clientTables_acceptEvent hnot
          exact .same (hs' ▸ hto) (hs' ▸ hfrom)
      | some acc =>
          dsimp only
          cases hr : cfg.isRouterAddr acc.originAddr with
          | true =>
              obtain ⟨hfresh, k, rfl, -⟩ := tcpAccept_some hacc
              rw [acceptEvent_client hacc hr] at hs'
              obtain ⟨hto, hfrom⟩ := clientTables_addMonitorFd (K := K) _ _
              rw [if_pos rfl, hs']
              exact .opened hfresh hto hfrom
          -- a connection between nodes; the clients of the router stay
          | false =>
              have hnot : ∀ acc', (s.tcpAccept K cfg).1 = some acc' →
                  cfg.isRouterAddr acc'.originAddr = false := by
                intro acc' hacc'
                rw [hacc] at hacc'
                rw [← Option.some.inj hacc', hr]
              obtain ⟨hto, hfrom⟩ := clientTables_acceptEvent hnot
              rw [if_neg (by decide)]
              exact .same (hs' ▸ hto) (hs' ▸ hfrom)

/-- An event of a command connection closes it if it is at its end. -/
theorem clientChange_readable {fuel : ℕ} {s s' : Net κ} {fd : Fd}
    (h : s.readEvent K cfg fuel fd = some s') :
    ClientChange K s s' none (closedClient K cfg ⟨s, .readable fd, s'⟩) := by
  rw [closedClient]
  dsimp only
  rw [Net.readEvent] at h
  cases hclient : s.fdToClient.get fd with
  | none =>
      rw [hclient] at h
      have hpath := Path.doReceive (R := ⟨fun _ => True, fun _ => True, True, True, True, False⟩)
        (fun hf => hf) (fun _ => trivial) h hclient (fun _ => trivial)
      exact .of_path (fun hf => hf) hpath
  | some client =>
      rw [hclient] at h
      dsimp only at h ⊢
      cases hcheck : s.checkConnectionIsActive K fd with
      | mk active s₁ =>
          -- the check peeks at the stream and touches no table
          have hio : OnlyIO K s s₁ := by
            rw [Net.checkConnectionIsActive] at hcheck
            cases hr : s.recv K fd 1 .peekDontwait with
            | mk r s₂ =>
                rw [hr] at hcheck
                cases r <;> cases hcheck <;> exact onlyIO_recv hr
          rw [hcheck] at h
          dsimp only at h ⊢
          cases active with
          | true =>
              cases h
              exact .same hio.clientToFd hio.fdToClient
          | false =>
              cases h
              refine .closed hclient ?_ ?_
              · show s₁.clientToFd.erase client = _
                rw [hio.clientToFd]
              · show s₁.fdToClient.erase fd = _
                rw [hio.fdToClient]

/-- A command that cannot be written closes the connection. -/
theorem clientChange_cmd {s : Net κ} (hs : s.Consistent K) (node : String) (text : Bytes) :
    ClientChange K s (s.sendCmd K cfg node text) none
      (closedClient K cfg ⟨s, .cmd node text, s.sendCmd K cfg node text⟩) := by
  rw [closedClient, Net.sendCmd]
  dsimp only
  split
  · exact .same rfl rfl
  · cases hfd : s.clientToFd.get (cfg.getNodeAddr node) with
    | none => exact .same rfl rfl
    | some fd =>
        dsimp only
        rw [← cmdFrame]
        cases hw : s.write K fd (cmdFrame text) with
        | mk r s₁ =>
            have hio := onlyIO_write hw
            cases r with
            | ok n => exact .same hio.clientToFd hio.fdToClient
            -- both tables lose the client that the command was for
            | error e =>
                refine .closed (hs.client _ fd hfd) ?_ ?_
                · show s₁.clientToFd.erase _ = _
                  rw [hio.clientToFd]
                · show s₁.fdToClient.erase fd = _
                  rw [hio.fdToClient]

theorem clientChange_step {s s' : Net κ} {act : Act} (hs : s.Consistent K)
    (hstep : act.Step K cfg s s') : ClientChange K s s' (acceptedClient K cfg ⟨s, act, s'⟩)
      (closedClient K cfg ⟨s, act, s'⟩) := by
  have hpath := Act.Step.path hs.apart hstep
  obtain ⟨-, hstep⟩ := hstep
  cases act with
  | accept => exact clientChange_accept s s' hstep
  | readable fd =>
      obtain ⟨fuel, hstep⟩ := hstep
      exact clientChange_readable hstep
  | cmd node text =>
      subst hstep
      exact clientChange_cmd hs node text
  | _ => exact .of_path (fun hf => hf) hpath

/-! ### The tables after a step -/

theorem latestOpen_snoc (tr : List (Step (Net κ) Act)) (t : Step (Net κ) Act) (s : Net κ)
    (a : Addr) : latestOpen K cfg (tr ++ [t]) s a
      = (((acceptedClient K cfg t).toList ++ tr.reverse.filterMap (acceptedClient K cfg)).find?
          fun p => p.1 = a ∧ s.fdToClient.get p.2 = some a).map Prod.snd := by
  rw [latestOpen, List.reverse_append, List.reverse_singleton, List.singleton_append,
    List.filterMap_cons]
  cases acceptedClient K cfg t with
  | none => rfl
  | some p => rfl

/-- It depends on the connections of the client only. -/
theorem latestOpen_congr (tr : List (Step (Net κ) Act)) {s s' : Net κ} {a : Addr}
    (h : ∀ x, s'.fdToClient.get x = some a ↔ s.fdToClient.get x = some a) :
    latestOpen K cfg tr s' a = latestOpen K cfg tr s a := by
  simp only [latestOpen, h]

/-- A step that accepts no connection of the client. -/
theorem latestOpen_snoc_of_ne {tr : List (Step (Net κ) Act)} {t : Step (Net κ) Act} {a : Addr}
    (h : ∀ p, acceptedClient K cfg t = some p → p.1 ≠ a) (s : Net κ) :
    latestOpen K cfg (tr ++ [t]) s a = latestOpen K cfg tr s a := by
  rw [latestOpen_snoc, latestOpen]
  cases hp : acceptedClient K cfg t with
  | none => rfl
  | some p =>
      have hne : ¬ (p.1 = a ∧ s.fdToClient.get p.2 = some a) := fun hpa => h p hp hpa.1
      rw [Option.toList_some, List.singleton_append, List.find?_cons_of_neg (by simpa using hne)]

/-- A client that has the same connections as before. -/
theorem latest_unchanged {tr : List (Step (Net κ) Act)} {t : Step (Net κ) Act} {s s' : Net κ}
    (htables : RouterTables K cfg tr s) {b : Addr}
    (hfrom : ∀ x, s'.fdToClient.get x = some b ↔ s.fdToClient.get x = some b)
    (hto : s'.clientToFd.get b = s.clientToFd.get b)
    (hother : ∀ p, acceptedClient K cfg t = some p → p.1 ≠ b) {fd : Fd}
    (hfd : s'.fdToClient.get fd = some b) :
    ∃ fd', s'.clientToFd.get b = some fd' ∧ latestOpen K cfg (tr ++ [t]) s' b = some fd' := by
  rw [hto, latestOpen_snoc_of_ne hother, latestOpen_congr tr hfrom]
  exact htables.latest b fd ((hfrom fd).mp hfd)

/-- After a step from tables that fit together, `client_to_fd` has the latest connection
of every client, unless the step has closed one of several. -/
theorem latest_step_iff {tr : List (Step (Net κ) Act)} {t : Step (Net κ) Act}
    {closed : Option (Addr × Fd)} (hs : t.src.Consistent K) (htables : RouterTables K cfg tr t.src)
    (hchange : ClientChange K t.src t.dst (acceptedClient K cfg t) closed) :
    (∀ b fd, t.dst.fdToClient.get fd = some b →
      ∃ fd', t.dst.clientToFd.get b = some fd' ∧ latestOpen K cfg (tr ++ [t]) t.dst b = some fd')
      ↔ ¬ ∃ a fd, closed = some (a, fd) ∧ ∃ fd' ≠ fd, t.src.fdToClient.get fd' = some a := by
  generalize hopened : acceptedClient K cfg t = opened at hchange
  cases hchange with
  | same hto hfrom =>
      refine iff_of_true (fun b fd hfd => ?_) (by simp)
      exact latest_unchanged htables (by simp [hfrom]) (by rw [hto]) (by simp [hopened]) hfd
  | @opened a x hfresh hto hfrom =>
      refine iff_of_true (fun b fd hfd => ?_) (by simp)
      have hx : t.src.fdToClient.get x = none := (hs.fresh hfresh).2
      by_cases hb : b = a
      · -- the new connection is the latest one
        refine ⟨x, by rw [hto, hb, FinFn.get_insert, if_pos rfl], ?_⟩
        rw [latestOpen_snoc, hopened, Option.toList_some, List.singleton_append,
          List.find?_cons_of_pos (by simp [hb, hfrom])]
        rfl
      · refine latest_unchanged htables (fun y => ?_) ?_ (by simpa [hopened] using Ne.symm hb) hfd
        · rw [hfrom, FinFn.get_insert]
          by_cases hy : y = x
          · simp [hy, hx, Ne.symm hb]
          · rw [if_neg hy]
        · rw [hto, FinFn.get_insert, if_neg hb]
  | @closed a x hx hto hfrom =>
      constructor
      · -- the client is erased, so no connection of it is left
        rintro hlatest ⟨a', x', heq, y, hne, hy⟩
        obtain ⟨rfl, rfl⟩ := Prod.mk.inj (Option.some.inj heq)
        have hleft : t.dst.fdToClient.get y = some a := by
          rw [hfrom, FinFn.get_erase, if_neg hne, hy]
        obtain ⟨fd', hfd', -⟩ := hlatest a y hleft
        rw [hto, FinFn.get_erase, if_pos rfl] at hfd'
        cases hfd'
      · intro honly b fd hfd
        -- no other connection of the closed client was open, so the entry is another's
        have hb : b ≠ a := by
          rintro rfl
          rw [hfrom, FinFn.get_erase] at hfd
          split at hfd
          · cases hfd
          · exact honly ⟨b, x, rfl, fd, ‹_›, hfd⟩
        refine latest_unchanged htables (fun y => ?_) ?_ (by simp [hopened]) hfd
        · rw [hfrom, FinFn.get_erase]
          by_cases hy : y = x
          · simp [hy, hx, Ne.symm hb]
          · rw [if_neg hy]
        · rw [hto, FinFn.get_erase, if_neg hb]

theorem routerTables_step_iff {tr : List (Step (Net κ) Act)} {s s' : Net κ} {act : Act}
    (hs : s.Consistent K) (htables : RouterTables K cfg tr s) (hstep : act.Step K cfg s s') :
    RouterTables K cfg (tr ++ [⟨s, act, s'⟩]) s' ↔ ¬ StrandsClient K cfg ⟨s, act, s'⟩ := by
  have hs' : s'.Consistent K := hs.path (Act.Step.path hs.apart hstep)
  have hinverse : ∀ a fd, s'.clientToFd.get a = some fd →
      s'.fdToClient.get fd = some a ∧ fd ∈ K.fds s'.kernel := by
    intro a fd hfd
    have hclient := hs'.client a fd hfd
    exact ⟨hclient, hs'.client_open fd a hclient⟩
  have hlatest := latest_step_iff (t := ⟨s, act, s'⟩) hs htables (clientChange_step hs hstep)
  rw [StrandsClient, ← hlatest]
  exact ⟨fun h => h.latest, fun h => ⟨hinverse, h⟩⟩

/-! ### Runs -/

theorem RouterTables.init {s : Net κ} (h : s.Initial) : RouterTables K cfg [] s := by
  obtain ⟨-, -, hto, hfrom, -⟩ := h
  -- both tables are empty
  constructor
  · intro a fd hfd
    rw [hto] at hfd
    cases hfd
  · intro a fd hfd
    rw [hfrom] at hfd
    cases hfd

/-- The tables of the command connections fit together all along a run, if and only if
no step of it closes one of several connections of a client. -/
theorem router_tables_iff {tr : List (Step (Net κ) Act)} {s : Net κ}
    (h : (tcpNetwork K cfg).Run tr s) :
    ((∀ pre t post, tr = pre ++ t :: post → RouterTables K cfg pre t.src) ∧ RouterTables K cfg tr s)
      ↔ ∀ t ∈ tr, ¬ StrandsClient K cfg t := by
  refine h.history_iff (P := RouterTables K cfg) (fun _ hinit => .init hinit) ?_
  intro tr s act s' hrun hstep htables
  exact routerTables_step_iff (.of_run hrun) htables hstep

/-! ### A client with two connections -/

namespace Demo

abbrev ending : Kernel (Stream Addr) Ctl Addr := endingKernel Addr Ctl

/-- `n1` has connected to the router twice. The stream of the first connection, which is
going to be descriptor 1, is at its end. -/
def reconnecting : Net (Stream Addr) :=
  { start with kernel :=
      { start.kernel with
        backlog := [(⟨n1.sAddr, 0x0190⟩, config.routerAddr),
          (⟨n1.sAddr, 0x0290⟩, config.routerAddr)] } }

def connectedOnce : Net (Stream Addr) := reconnecting.acceptEvent ending config

def connectedTwice : Net (Stream Addr) := connectedOnce.acceptEvent ending config

/-- The end of the first connection is noticed. -/
def stranded : Net (Stream Addr) :=
  (connectedTwice.readEvent ending config 1 1).getD connectedTwice

theorem run_connectedTwice : (tcpNetwork ending config).Run
    [⟨reconnecting, .accept, connectedOnce⟩, ⟨connectedOnce, .accept, connectedTwice⟩]
      connectedTwice := by
  have hstart : (tcpNetwork ending config).Run [] reconnecting :=
    .nil ⟨rfl, rfl, rfl, rfl, rfl, rfl, rfl⟩
  have hfirst : (tcpNetwork ending config).step reconnecting .accept connectedOnce := ⟨rfl, rfl⟩
  have hsecond : (tcpNetwork ending config).step connectedOnce .accept connectedTwice :=
    ⟨by decide, rfl⟩
  exact (hstart.snoc hfirst).snoc hsecond

/-- Both connections are open, and commands for `n1` go to the second one. -/
theorem router_tables_connectedTwice :
    connectedTwice.fdToClient.get 1 = some n1 ∧ connectedTwice.clientToFd.get n1 = some 2 ∧
      ∃ tr, RouterTables ending config tr connectedTwice := by
  have hfits := (router_tables_iff run_connectedTwice).mpr (by simp [StrandsClient, closedClient])
  exact ⟨by decide, by decide, _, hfits.2⟩

/-- Then there is no way to send a command to `n1`, although descriptor 2 is open. -/
theorem router_tables_fails :
    ¬ ∀ tr s, (tcpNetwork ending config).Run tr s → RouterTables ending config tr s := by
  intro hall
  have hread : (tcpNetwork ending config).step connectedTwice (.readable 1) stranded :=
    ⟨by decide, 1, by rfl⟩
  have htables := hall _ _ (run_connectedTwice.snoc hread)
  obtain ⟨fd', hfd', -⟩ := htables.latest n1 2 (by decide)
  have hnone : stranded.clientToFd.get n1 = none := by decide
  rw [hnone] at hfd'
  cases hfd'

end Demo

end Tmet.Tproxy
