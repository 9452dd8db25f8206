import Tmet.Tproxy.TcpNetwork

/-!
# `Tmet.Proofs.Tproxy.Atoms`: what a handler of the proxy can do

Every handler of `TcpNetwork` is a sequence of a few kinds of changes (`Atom`): a
system call, a write with its reason, tagging or closing a connection, an entry
for a new one. The lemmas below follow each function once and give the path it
takes. An invariant of the tables is then a matter of one case per atom.

A `Scope` bounds what a path may contain: from which descriptors bytes are passed
through without framing (`raw`), which channels are established (`connect`),
whether a connection is marked as connected again (`untag`), whether messages
(`deliver`) and commands for the clients (`command`) are written, and whether the
router's tables change (`router`).
-/

set_option autoImplicit false

namespace Tmet.Tproxy

open Tmet.Lib Tmet.Posix

variable {κ : Type}

/-- What a path may contain besides what is always allowed. -/
structure Scope where
  raw : Fd → Prop
  connect : Channel → Prop
  untag : Prop
  deliver : Prop
  command : Prop
  router : Prop

/-- Nothing besides. -/
def Scope.plain : Scope := ⟨fun _ => False, fun _ => False, False, False, False, False⟩

/-- Messages may be written. -/
def Scope.delivering : Scope := { Scope.plain with deliver := True }

/-- Why bytes are written to a descriptor. -/
inductive WriteReason (R : Scope) (s : Net κ) (fd : Fd) : Prop
  /-- A message, and the connection is not tagged. -/
  | message {st : ChannelStatus} :
      R.deliver → s.fdToChannelStatus.get fd = some st → st.disconnected = false → WriteReason R s fd
  /-- The pass-through of what came in on the paired descriptor. -/
  | transfer {inFd : Fd} {st : ChannelStatus} :
      R.raw inFd → s.fdToChannelStatus.get inFd = some st → s.heap st.fd = fd → WriteReason R s fd
  /-- A command for a client. -/
  | command {a : Addr} : R.command → s.clientToFd.get a = some fd → WriteReason R s fd

/-- Messages may be gone from the queues. -/
def Thinned (network network' : FinFn Channel (List Msg)) : Prop :=
  ∀ c q, network'.get c = some q → ∃ q₀, network.get c = some q₀ ∧ q.Sublist q₀

theorem Thinned.refl (network : FinFn Channel (List Msg)) : Thinned network network :=
  fun _ q hq => ⟨q, hq, .refl q⟩

theorem Thinned.of_eq {network network' : FinFn Channel (List Msg)} (h : network' = network) :
    Thinned network network' := by
  rw [h]
  exact .refl network

theorem thinned_insert {network : FinFn Channel (List Msg)} {c : Channel} {q rest : List Msg}
    (hq : network.get c = some q) (hsub : rest.Sublist q) :
    Thinned network (network.insert c rest) := by
  intro c' q' hq'
  rw [FinFn.get_insert] at hq'
  split at hq'
  · rename_i hc
    cases hq'
    exact ⟨q, hc ▸ hq, hsub⟩
  · exact ⟨q', hq', .refl q'⟩

theorem thinned_clear (network : FinFn Channel (List Msg)) (c : Channel) :
    Thinned network (network.except c fun _ => []) := by
  intro c' q' hq'
  rw [FinFn.get_except] at hq'
  split at hq'
  · obtain ⟨q, hq, rfl⟩ := Option.map_eq_some_iff.mp hq'
    exact ⟨q, hq, List.nil_sublist q⟩
  · exact ⟨q', hq', .refl q'⟩

/-- `do_receive` takes the message `m` off the receive queue of `fd`, after a peek that
has shown its header. -/
structure Taken (K : Kernel κ Ctl Addr) (s : Net κ) (fd : Fd) (st : ChannelStatus) (m : Msg)
    (k : κ) : Prop where
  entry : s.fdToChannelStatus.get fd = some st
  fd_eq : m.fd = st.fd
  peek : ∃ (k₀ : κ) (header : MsgHeader), K.recv k₀ fd 8 .peekDontwait = (.ok header.bytes, s.kernel)
    ∧ packetValidation header 8 = true ∧ m.size = header.size
  recv : K.recv s.kernel fd (8 + m.size) .waitall = (.ok m.content, k)
  length : m.content.length = 8 + m.size

/-- One change of the state. -/
inductive Atom (K : Kernel κ Ctl Addr) (R : Scope) : Net κ → Net κ → Prop
  | kernel {s : Net κ} {k : κ} :
      K.fds k = K.fds s.kernel → Atom K R s { s with kernel := k }
  | received {s : Net κ} {k : κ} {fd : Fd} {data : Bytes} :
      K.fds k = K.fds s.kernel →
      Atom K R s { s with
        kernel := k, log := s.log ++ [.received fd (s.fdToChannelStatus.get fd) data] }
  | wrote {s : Net κ} {k : κ} {fd : Fd} {data : Bytes} :
      K.fds k = K.fds s.kernel → WriteReason R s fd →
      Atom K R s { s with
        kernel := k, log := s.log ++ [.wrote fd (s.fdToChannelStatus.get fd) data] }
  -- a new descriptor that nothing refers to
  | leaked {s : Net κ} {k : κ} {fd : Fd} :
      fd ∉ K.fds s.kernel → K.fds k = insert fd (K.fds s.kernel) →
      Atom K R s { s with kernel := k }
  | tag {s : Net κ} {fd : Fd} {st : ChannelStatus} :
      s.fdToChannelStatus.get fd = some st → Atom K R s (s.closeConnection K fd true)
  | closePair {s : Net κ} {fd : Fd} {st : ChannelStatus} :
      s.fdToChannelStatus.get fd = some st → Atom K R s (s.closeConnection K fd false)
  -- a descriptor that is in no table
  | closeLoose {s : Net κ} {fd : Fd} :
      s.fdToChannelStatus.get fd = none → s.fdToClient.get fd = none →
      Atom K R s (s.close K fd)
  | untag {s : Net κ} {fd : Fd} : R.untag → Atom K R s (s.setDisconnected fd false)
  | unintercept {s : Net κ} {fd : Fd} {st : ChannelStatus} :
      s.fdToChannelStatus.get fd = some st → Atom K R s (s.setUnintercepted fd)
  -- a message is taken from the stream and queued in one step
  | message {s : Net κ} {k : κ} {fd : Fd} {st : ChannelStatus} {m : Msg} :
      Taken K s fd st m k →
      Atom K R s { s with
        kernel := k
        log := s.log ++ [.received fd (s.fdToChannelStatus.get fd) m.content]
        network := s.network.insert st.channel ((s.network.get st.channel).getD [] ++ [m]) }
  | unqueue {s : Net κ} {network : FinFn Channel (List Msg)} :
      Thinned s.network network → Atom K R s { s with network := network }
  -- the two descriptors of a connection are new, and become known together
  | connect {s : Net κ} {k : κ} {fd fd' : Fd} {src dst : Addr} :
      R.connect ⟨src.host, dst.host⟩ → fd ∉ K.fds s.kernel → fd' ∉ K.fds s.kernel → fd ≠ fd' →
      K.fds k = insert fd' (insert fd (K.fds s.kernel)) →
      Atom K R s (({ s with kernel := k } : Net κ).addFdToChannel fd fd' src dst)
  -- an older descriptor of the same client keeps its entry in `fdToClient`
  | routerUp {s : Net κ} {k : κ} {fd : Fd} {a : Addr} :
      R.router → fd ∉ K.fds s.kernel → K.fds k = insert fd (K.fds s.kernel) →
      Atom K R s { s with
        kernel := k, clientToFd := s.clientToFd.insert a fd, fdToClient := s.fdToClient.insert fd a }
  | routerDown {s : Net κ} {fd : Fd} {a : Addr} :
      R.router → s.fdToClient.get fd = some a ∨ s.clientToFd.get a = some fd →
      Atom K R s { s.close K fd with
        clientToFd := s.clientToFd.erase a, fdToClient := s.fdToClient.erase fd }
  | throw {s : Net κ} : Atom K R s s.throw

theorem Taken.fds {K : Kernel κ Ctl Addr} {s : Net κ} {fd : Fd} {st : ChannelStatus} {m : Msg}
    {k : κ} (h : Taken K s fd st m k) : K.fds k = K.fds s.kernel := by
  have hfds := K.fds_recv s.kernel fd (8 + m.size) .waitall
  rwa [h.recv] at hfds

/-- A sequence of changes. -/
abbrev Path (K : Kernel κ Ctl Addr) (R : Scope) : Net κ → Net κ → Prop :=
  Relation.ReflTransGen (Atom K R)

variable {K : Kernel κ Ctl Addr} {cfg : ConfigFile} {R : Scope}

theorem Atom.path {s s' : Net κ} (h : Atom K R s s') : Path K R s s' := .single h

/-- `R'` allows whatever `R` allows. -/
structure Scope.Le (R R' : Scope) : Prop where
  raw : ∀ fd, R.raw fd → R'.raw fd
  connect : ∀ c, R.connect c → R'.connect c
  untag : R.untag → R'.untag
  deliver : R.deliver → R'.deliver
  command : R.command → R'.command
  router : R.router → R'.router

theorem Atom.mono {R' : Scope} (hR : R.Le R') {s s' : Net κ} (h : Atom K R s s') :
    Atom K R' s s' := by
  cases h with
  | kernel hk => exact .kernel hk
  | received hk => exact .received hk
  | wrote hk hreason =>
      cases hreason with
      | message hd hst htag => exact .wrote hk (.message (hR.deliver hd) hst htag)
      | transfer hfd hst hpeer => exact .wrote hk (.transfer (hR.raw _ hfd) hst hpeer)
      | command hc ha => exact .wrote hk (.command (hR.command hc) ha)
  | leaked hfd hk => exact .leaked hfd hk
  | tag hst => exact .tag hst
  | closePair hst => exact .closePair hst
  | closeLoose hst hclient => exact .closeLoose hst hclient
  | untag hu => exact .untag (hR.untag hu)
  | unintercept hst => exact .unintercept hst
  | message htaken => exact .message htaken
  | unqueue hsub => exact .unqueue hsub
  | connect hc hfd hfd' hne hk => exact .connect (hR.connect _ hc) hfd hfd' hne hk
  | routerUp hr hfd hk => exact .routerUp (hR.router hr) hfd hk
  | routerDown hr hfd => exact .routerDown (hR.router hr) hfd
  | throw => exact .throw

theorem Path.mono {R' : Scope} (hR : R.Le R') {s s' : Net κ} (h : Path K R s s') :
    Path K R' s s' :=
  h.lift id fun _ _ => Atom.mono hR

/-! ### What a change leaves alone -/

/-- Only the kernel and the log may differ, and no descriptor was opened or closed. -/
structure OnlyIO (K : Kernel κ Ctl Addr) (s s' : Net κ) : Prop where
  fds : K.fds s'.kernel = K.fds s.kernel
  fdToChannelStatus : s'.fdToChannelStatus = s.fdToChannelStatus
  network : s'.network = s.network
  clientToFd : s'.clientToFd = s.clientToFd
  fdToClient : s'.fdToClient = s.fdToClient
  uninterceptedFd : s'.uninterceptedFd = s.uninterceptedFd
  heap : s'.heap = s.heap
  nextCell : s'.nextCell = s.nextCell
  terminated : s'.terminated = s.terminated

theorem OnlyIO.refl (s : Net κ) : OnlyIO K s s := ⟨rfl, rfl, rfl, rfl, rfl, rfl, rfl, rfl, rfl⟩

theorem OnlyIO.trans {s s' s'' : Net κ} (h : OnlyIO K s s') (h' : OnlyIO K s' s'') :
    OnlyIO K s s'' where
  fds := h'.fds.trans h.fds
  fdToChannelStatus := h'.fdToChannelStatus.trans h.fdToChannelStatus
  network := h'.network.trans h.network
  clientToFd := h'.clientToFd.trans h.clientToFd
  fdToClient := h'.fdToClient.trans h.fdToClient
  uninterceptedFd := h'.uninterceptedFd.trans h.uninterceptedFd
  heap := h'.heap.trans h.heap
  nextCell := h'.nextCell.trans h.nextCell
  terminated := h'.terminated.trans h.terminated

/-- Only the connection table, what goes with it, and the kernel may differ. -/
structure OnlyTable (s s' : Net κ) : Prop where
  network : s'.network = s.network
  clientToFd : s'.clientToFd = s.clientToFd
  fdToClient : s'.fdToClient = s.fdToClient
  nextCell : s'.nextCell = s.nextCell
  terminated : s'.terminated = s.terminated
  log : s'.log = s.log

theorem OnlyTable.refl (s : Net κ) : OnlyTable s s := ⟨rfl, rfl, rfl, rfl, rfl, rfl⟩

theorem OnlyTable.trans {s s' s'' : Net κ} (h : OnlyTable s s') (h' : OnlyTable s' s'') :
    OnlyTable s s'' where
  network := h'.network.trans h.network
  clientToFd := h'.clientToFd.trans h.clientToFd
  fdToClient := h'.fdToClient.trans h.fdToClient
  nextCell := h'.nextCell.trans h.nextCell
  terminated := h'.terminated.trans h.terminated
  log := h'.log.trans h.log

theorem onlyTable_setDisconnected (s : Net κ) (fd : Fd) (b : Bool) :
    OnlyTable s (s.setDisconnected fd b) := ⟨rfl, rfl, rfl, rfl, rfl, rfl⟩

theorem onlyTable_doClose (s : Net κ) (fd : Fd) : OnlyTable s (s.doClose K fd) := by
  rw [Net.doClose]
  cases s.fdToChannelStatus.get fd with
  | none => exact .refl s
  | some st => exact ⟨rfl, rfl, rfl, rfl, rfl, rfl⟩

theorem onlyTable_closeConnection (s : Net κ) (fd : Fd) (tag : Bool) :
    OnlyTable s (s.closeConnection K fd tag) := by
  rw [Net.closeConnection]
  cases s.fdToChannelStatus.get fd with
  | none =>
      cases tag with
      | true => exact .refl s
      | false => exact ⟨rfl, rfl, rfl, rfl, rfl, rfl⟩
  | some st =>
      have htag := (onlyTable_setDisconnected s fd true).trans
        (onlyTable_setDisconnected _ (s.heap st.fd) true)
      cases tag with
      | true => exact htag
      | false => exact (htag.trans (onlyTable_doClose _ fd)).trans (onlyTable_doClose _ _)

/-- An atom that leaves the router's tables alone keeps them. -/
theorem Atom.fdToClient (hR : ¬ R.router) {s s' : Net κ} (h : Atom K R s s') :
    s'.fdToClient = s.fdToClient := by
  cases h with
  | tag _ => exact (onlyTable_closeConnection s _ true).fdToClient
  | closePair _ => exact (onlyTable_closeConnection s _ false).fdToClient
  | routerUp hr _ _ => exact absurd hr hR
  | routerDown hr _ => exact absurd hr hR
  | _ => rfl

theorem Path.fdToClient (hR : ¬ R.router) {s s' : Net κ} (h : Path K R s s') :
    s'.fdToClient = s.fdToClient := by
  induction h with
  | refl => rfl
  | tail _ hstep ih => exact (hstep.fdToClient hR).trans ih

/-! ### System calls -/

theorem onlyIO_recv {s s₁ : Net κ} {fd : Fd} {len : ℕ} {flags : RecvFlags} {r : RecvResult}
    (h : s.recv K fd len flags = (r, s₁)) : OnlyIO K s s₁ := by
  cases h
  exact ⟨K.fds_recv s.kernel fd len flags, rfl, rfl, rfl, rfl, rfl, rfl, rfl, rfl⟩

theorem Path.recv {s s₁ : Net κ} {fd : Fd} {len : ℕ} {flags : RecvFlags} {r : RecvResult}
    (h : s.recv K fd len flags = (r, s₁)) : Path K R s s₁ ∧ OnlyIO K s s₁ := by
  refine ⟨?_, onlyIO_recv h⟩
  have hfds := K.fds_recv s.kernel fd len flags
  rw [Net.recv] at h
  generalize K.recv s.kernel fd len flags = answer at h hfds
  obtain ⟨r, k⟩ := answer
  have hquiet : Path K R s { s with kernel := k, log := s.log ++ [] } := by
    rw [List.append_nil]
    exact (Atom.kernel hfds).path
  cases h
  -- a peek reads and logs nothing
  cases flags with
  | peekDontwait => exact hquiet
  | dontwait =>
      cases r with
      | ok data => exact (Atom.received hfds).path
      | error e => exact hquiet
  | waitall =>
      cases r with
      | ok data => exact (Atom.received hfds).path
      | error e => exact hquiet

theorem onlyIO_write {s s₁ : Net κ} {fd : Fd} {data : Bytes} {r : WriteResult}
    (h : s.write K fd data = (r, s₁)) : OnlyIO K s s₁ := by
  cases h
  exact ⟨K.fds_write s.kernel fd data, rfl, rfl, rfl, rfl, rfl, rfl, rfl, rfl⟩

theorem Path.write {s s₁ : Net κ} {fd : Fd} {data : Bytes} {r : WriteResult}
    (h : s.write K fd data = (r, s₁)) (hreason : WriteReason R s fd) :
    Path K R s s₁ ∧ OnlyIO K s s₁ := by
  refine ⟨?_, onlyIO_write h⟩
  have hfds := K.fds_write s.kernel fd data
  rw [Net.write] at h
  generalize K.write s.kernel fd data = answer at h hfds
  obtain ⟨r, k⟩ := answer
  cases h
  cases r with
  | ok n => exact (Atom.wrote hfds hreason).path
  | error e =>
      show Path K R s { s with kernel := k, log := s.log ++ [] }
      rw [List.append_nil]
      exact (Atom.kernel hfds).path

theorem Path.ctl {s s₁ : Net κ} {o : Ctl} {ok : Bool} (h : s.ctl K o = (ok, s₁)) :
    Path K R s s₁ := by
  cases h
  exact (Atom.kernel (K.fds_ctl s.kernel o)).path

/-- Closing needs no entry, as long as the descriptor is no client's. -/
theorem Path.closeConnection {s : Net κ} {fd : Fd} (hclient : s.fdToClient.get fd = none) :
    Path K R s (s.closeConnection K fd false) := by
  cases hfd : s.fdToChannelStatus.get fd with
  | some st => exact (Atom.closePair hfd).path
  | none =>
      have heq : s.closeConnection K fd false = s.close K fd := by
        rw [Net.closeConnection, hfd]
        rfl
      rw [heq]
      exact (Atom.closeLoose hfd hclient).path

theorem Path.closeConnection_of_some {s : Net κ} {fd : Fd} {st : ChannelStatus}
    (hfd : s.fdToChannelStatus.get fd = some st) (tag : Bool) :
    Path K R s (s.closeConnection K fd tag) := by
  cases tag with
  | true => exact (Atom.tag hfd).path
  | false => exact (Atom.closePair hfd).path

/-! ### Delivering -/

theorem Path.writeLoop (hR : R.deliver) (fuel : ℕ) :
    ∀ {s s' : Net κ} {fd : Fd} {body : Bytes} {left : ℕ} {size size' : ℤ} {st : ChannelStatus},
      s.writeLoop K fuel fd body left size = (size', s') →
      s.fdToChannelStatus.get fd = some st → st.disconnected = false →
      Path K R s s' ∧ OnlyIO K s s' := by
  -- on the passes of the loop; no write changes the entry of the descriptor
  induction fuel with
  | zero =>
      intro s s' fd body left size size' st h _ _
      cases h
      exact ⟨.refl, .refl _⟩
  | succ fuel ih =>
      intro s s' fd body left size size' st h hst htag
      rw [Net.writeLoop] at h
      split at h
      · cases h
        exact ⟨.refl, .refl _⟩
      · cases hw : s.write K fd (body.take left) with
        | mk r s₁ =>
            obtain ⟨hpath, hio⟩ := Path.write (R := R) hw (.message hR hst htag)
            rw [hw] at h
            cases r with
            | error e =>
                cases h
                exact ⟨hpath, hio⟩
            | ok n =>
                have hst₁ : s₁.fdToChannelStatus.get fd = some st := by
                  rw [hio.fdToChannelStatus]
                  exact hst
                obtain ⟨hrest, hrestIO⟩ := ih h hst₁ htag
                exact ⟨hpath.trans hrest, hio.trans hrestIO⟩

theorem Path.deliverTaken (hR : R.deliver) (s : Net κ) (m : Msg) :
    Path K R s (s.deliverTaken K cfg m) := by
  rw [Net.deliverTaken]
  cases hst : s.fdToChannelStatus.get (s.heap m.fd) with
  | none => exact .refl
  | some st =>
      dsimp only
      cases htag : st.disconnected with
      | true => exact .refl
      | false =>
          rw [if_neg (by decide)]
          cases hloop : s.writeLoop K m.size (s.heap m.fd) m.body m.size (K.garbage s.kernel) with
          | mk size s₁ =>
              obtain ⟨hpath, hio⟩ := Path.writeLoop hR _ hloop hst htag
              have hst₁ : s₁.fdToChannelStatus.get (s.heap m.fd) = some st := by
                rw [hio.fdToChannelStatus]
                exact hst
              dsimp only
              split
              · exact hpath.trans (Path.closeConnection_of_some hst₁ _)
              · exact hpath

/-- What is dequeued and what is left. -/
theorem dequeueOpen_eq {heap : ℕ → Fd} {q rest : List Msg} {m : Option Msg}
    (h : Net.dequeueOpen heap q = (m, rest)) :
    ∃ dropped, q = dropped ++ (m.toList ++ rest) ∧ ∀ x ∈ m, 0 ≤ heap x.fd := by
  induction q with
  | nil =>
      cases h
      exact ⟨[], rfl, nofun⟩
  | cons x q ih =>
      rw [Net.dequeueOpen] at h
      -- the cell of a closed descriptor is negative
      by_cases hx : heap x.fd < 0
      · rw [if_pos hx] at h
        obtain ⟨dropped, rfl, hopen⟩ := ih h
        exact ⟨x :: dropped, rfl, hopen⟩
      · rw [if_neg hx] at h
        cases h
        refine ⟨[], rfl, fun y hy => ?_⟩
        rw [← Option.mem_some_iff.mp hy]
        exact not_lt.mp hx

theorem Path.deliverCmd (hR : R.deliver) (s : Net κ) (src dst : String) :
    Path K R s (s.deliverCmd K cfg src dst) := by
  rw [Net.deliverCmd]
  dsimp only
  split
  · exact .refl
  · rw [Net.deliverMsg]
    cases hq : s.network.get _ with
    | none => exact .refl
    | some q =>
        dsimp only
        cases hm : Net.dequeueOpen s.heap q with
        | mk m rest =>
            obtain ⟨dropped, rfl, -⟩ := dequeueOpen_eq hm
            have hsub : rest.Sublist (dropped ++ (m.toList ++ rest)) :=
              (List.sublist_append_right _ rest).trans (List.sublist_append_right dropped _)
            have htaken := (Atom.unqueue (K := K) (R := R) (thinned_insert hq hsub)).path
            cases m with
            | none => exact htaken
            | some msg => exact htaken.trans (Path.deliverTaken hR _ msg)

/-! ### Receiving -/

/-- The message is received, and then delivered at once, queued, or dropped. -/
theorem Path.enqueueMsg (hR : cfg.isDirect = true → R.deliver) {s s₁ : Net κ} {fd : Fd}
    {st : ChannelStatus} {m : Msg} (htaken : Taken K s fd st m s₁.kernel)
    (h : s.recv K fd (8 + m.size) .waitall = (.ok m.content, s₁)) :
    Path K R s (s₁.enqueueMsg K cfg st m) := by
  have hpath := (Path.recv (R := R) h).1
  rw [Net.enqueueMsg]
  by_cases htag : st.disconnected = true
  · rw [if_pos htag]
    -- the message of a tagged connection is dropped
    exact hpath
  · rw [if_neg htag]
    by_cases hdirect : cfg.isDirect = true
    · rw [if_pos hdirect]
      exact hpath.trans (Path.deliverTaken (hR hdirect) s₁ m)
    · rw [if_neg hdirect]
      have hrecv := htaken.recv
      rw [Net.recv, hrecv] at h
      rw [← (Prod.mk.inj h).2]
      exact (Atom.message htaken).path

/-- A pass-through from `inFd` to `outFd`: pieces that are received and written, until
one of the calls fails or there is nothing to receive. -/
inductive Net.Transfers (K : Kernel κ Ctl Addr) (outFd inFd : Fd) : Net κ → Net κ → Prop
  | ended {s s₁ : Net κ} {r : RecvResult} :
      s.recv K inFd 1460 .dontwait = (r, s₁) → Transfers K outFd inFd s s₁
  | closed {s s₁ : Net κ} {r : RecvResult} :
      s.recv K inFd 1460 .dontwait = (r, s₁) →
      Transfers K outFd inFd s (s₁.closeConnection K inFd false)
  | broken {s s₁ s₂ : Net κ} {data : Bytes} {r : WriteResult} :
      s.recv K inFd 1460 .dontwait = (.ok data, s₁) → s₁.write K outFd data = (r, s₂) →
      Transfers K outFd inFd s (s₂.closeConnection K inFd false)
  | passed {s s₁ s₂ s' : Net κ} {data : Bytes} {r : WriteResult} :
      s.recv K inFd 1460 .dontwait = (.ok data, s₁) → s₁.write K outFd data = (r, s₂) →
      Transfers K outFd inFd s₂ s' → Transfers K outFd inFd s s'

theorem transferUnintercepted_transfers {outFd inFd : Fd} (fuel : ℕ) :
    ∀ {s s' : Net κ}, s.transferUnintercepted K fuel outFd inFd = some s' →
      Net.Transfers K outFd inFd s s' := by
  induction fuel with
  | zero =>
      intro s s' h
      cases h
  | succ fuel ih =>
      intro s s' h
      rw [Net.transferUnintercepted] at h
      cases hr : s.recv K inFd 1460 .dontwait with
      | mk r s₁ =>
          rw [hr] at h
          cases r with
          | error e =>
              cases h
              split
              · exact .closed hr
              · exact .ended hr
          | ok data =>
              cases data with
              -- the stream is at its end
              | nil =>
                  cases h
                  exact .closed hr
              | cons b bs =>
                  dsimp only at h
                  cases hw : s₁.write K outFd (b :: bs) with
                  | mk r₂ s₂ =>
                      rw [hw] at h
                      cases r₂ with
                      -- the peer takes nothing more
                      | error e =>
                          cases h
                          exact .broken hr hw
                      | ok n => exact .passed hr hw (ih h)

theorem Path.transferUnintercepted {fuel : ℕ} {s s' : Net κ} {outFd inFd : Fd} {st : ChannelStatus}
    (h : s.transferUnintercepted K fuel outFd inFd = some s') (hraw : R.raw inFd)
    (hst : s.fdToChannelStatus.get inFd = some st) (hout : s.heap st.fd = outFd) :
    Path K R s s' := by
  -- neither receiving nor writing moves the entry or the descriptor it points to
  have hrecv {s s₁ : Net κ} {r : RecvResult} (hr : s.recv K inFd 1460 .dontwait = (r, s₁))
      (hst : s.fdToChannelStatus.get inFd = some st) (hout : s.heap st.fd = outFd) :
      Path K R s s₁ ∧ s₁.fdToChannelStatus.get inFd = some st ∧ s₁.heap st.fd = outFd := by
    obtain ⟨hpath, hio⟩ := Path.recv (R := R) hr
    rw [hio.fdToChannelStatus, hio.heap]
    exact ⟨hpath, hst, hout⟩
  have hwrite {s s₁ : Net κ} {data : Bytes} {r : WriteResult} (hw : s.write K outFd data = (r, s₁))
      (hst : s.fdToChannelStatus.get inFd = some st) (hout : s.heap st.fd = outFd) :
      Path K R s s₁ ∧ s₁.fdToChannelStatus.get inFd = some st ∧ s₁.heap st.fd = outFd := by
    obtain ⟨hpath, hio⟩ := Path.write hw (.transfer hraw hst hout)
    rw [hio.fdToChannelStatus, hio.heap]
    exact ⟨hpath, hst, hout⟩
  have htransfers := transferUnintercepted_transfers fuel h
  clear h
  induction htransfers with
  | ended hr => exact (hrecv hr hst hout).1
  | closed hr =>
      obtain ⟨hpath, hst₁, -⟩ := hrecv hr hst hout
      exact hpath.trans (Path.closeConnection_of_some hst₁ false)
  | broken hr hw =>
      obtain ⟨hpath, hst₁, hout₁⟩ := hrecv hr hst hout
      obtain ⟨hpath₂, hst₂, -⟩ := hwrite hw hst₁ hout₁
      exact (hpath.trans hpath₂).trans (Path.closeConnection_of_some hst₂ false)
  | passed hr hw _ ih =>
      obtain ⟨hpath, hst₁, hout₁⟩ := hrecv hr hst hout
      obtain ⟨hpath₂, hst₂, hout₂⟩ := hwrite hw hst₁ hout₁
      exact (hpath.trans hpath₂).trans (ih hst₂ hout₂)

/-- An open descriptor has an entry. This holds of a descriptor with an entry for as
long as the entry goes away only together with the descriptor. -/
def Net.Held (K : Kernel κ Ctl Addr) (s : Net κ) (fd : Fd) : Prop :=
  fd ∈ K.fds s.kernel → (s.fdToChannelStatus.get fd).isSome = true

theorem OnlyIO.held {s s' : Net κ} (h : OnlyIO K s s') {fd : Fd} (hfd : s.Held K fd) :
    s'.Held K fd := by
  intro hopen
  rw [h.fds] at hopen
  rw [h.fdToChannelStatus]
  exact hfd hopen

theorem held_setDisconnected {s : Net κ} {fd : Fd} (hfd : s.Held K fd) (fd' : Fd) (b : Bool) :
    (s.setDisconnected fd' b).Held K fd := by
  intro hopen
  have hsome := hfd hopen
  show ((s.fdToChannelStatus.except fd' _).get fd).isSome = true
  rw [FinFn.get_except]
  split
  · rw [Option.isSome_map]
    exact hsome
  · exact hsome

theorem held_doClose {s : Net κ} {fd : Fd} (hfd : s.Held K fd) (fd' : Fd) :
    (s.doClose K fd').Held K fd := by
  rw [Net.doClose]
  cases hget : s.fdToChannelStatus.get fd' with
  | none => exact hfd
  | some st =>
      intro hopen
      replace hopen : fd ∈ K.fds (K.close s.kernel fd') := hopen
      rw [K.fds_close, Finset.mem_erase] at hopen
      show ((s.fdToChannelStatus.erase fd').get fd).isSome = true
      rw [FinFn.get_erase, if_neg hopen.1]
      exact hfd hopen.2

theorem held_closeConnection {s : Net κ} {fd : Fd} (hfd : s.Held K fd) (fd' : Fd) (tag : Bool) :
    (s.closeConnection K fd' tag).Held K fd := by
  rw [Net.closeConnection]
  cases hget : s.fdToChannelStatus.get fd' with
  | none =>
      cases tag with
      | true => exact hfd
      | false =>
          intro hopen
          replace hopen : fd ∈ K.fds (K.close s.kernel fd') := hopen
          rw [K.fds_close] at hopen
          exact hfd (Finset.mem_of_mem_erase hopen)
  | some st =>
      have htag := held_setDisconnected (held_setDisconnected hfd fd' true) (s.heap st.fd) true
      cases tag with
      | true => exact htag
      | false => exact held_doClose (held_doClose htag fd') _

theorem held_deliverTaken {s : Net κ} {fd : Fd} (hfd : s.Held K fd) (m : Msg) :
    (s.deliverTaken K cfg m).Held K fd := by
  rw [Net.deliverTaken]
  cases hst : s.fdToChannelStatus.get (s.heap m.fd) with
  | none => exact hfd
  | some st =>
      dsimp only
      cases htag : st.disconnected with
      | true => exact hfd
      | false =>
          rw [if_neg (by decide)]
          cases hloop : s.writeLoop K m.size (s.heap m.fd) m.body m.size (K.garbage s.kernel) with
          | mk size s₁ =>
              have hfd₁ := (Path.writeLoop (R := .delivering) trivial _ hloop hst htag).2.held hfd
              dsimp only
              split
              · exact held_closeConnection hfd₁ _ _
              · exact hfd₁

theorem held_enqueueMsg {s : Net κ} {fd : Fd} (hfd : s.Held K fd) (cf : ChannelStatus) (m : Msg) :
    (s.enqueueMsg K cfg cf m).Held K fd := by
  rw [Net.enqueueMsg]
  split
  · exact hfd
  · split
    · exact held_deliverTaken hfd m
    · exact hfd

/-- A descriptor that gave data has an entry. -/
theorem Net.Held.get_of_recv {s s₁ : Net κ} {fd : Fd} {len : ℕ} {flags : RecvFlags} {data : Bytes}
    (hfd : s.Held K fd) (h : s.recv K fd len flags = (.ok data, s₁)) :
    ∃ st, s₁.fdToChannelStatus.get fd = some st := by
  have hopen : fd ∈ K.fds s.kernel := by
    by_contra hclosed
    have herr := K.recv_closed hclosed len flags
    have hdata : (K.recv s.kernel fd len flags).1 = .ok data := congrArg Prod.fst h
    rw [herr] at hdata
    cases hdata
  rw [(onlyIO_recv h).fdToChannelStatus]
  exact Option.isSome_iff_exists.mp (hfd hopen)

/-- A pass of the loop takes the message `m`: the peek shows the header `next`, and the
second call gives it together with the body. -/
structure Net.TakesMessage (K : Kernel κ Ctl Addr) (s s₁ s₂ : Net κ) (fd : Fd) (next : MsgHeader)
    (st : ChannelStatus) (m : Msg) : Prop where
  peek : s.recv K fd 8 .peekDontwait = (.ok next.bytes, s₁)
  valid : packetValidation next 8 = true
  entry : s₁.fdToChannelStatus.get fd = some st
  recv : s₁.recv K fd (8 + m.size) .waitall = (.ok m.content, s₂)
  length : m.content.length = 8 + m.size
  fd_eq : m.fd = st.fd
  size_eq : m.size = next.size

theorem Net.TakesMessage.taken {s s₁ s₂ : Net κ} {fd : Fd} {next : MsgHeader} {st : ChannelStatus}
    {m : Msg} (h : Net.TakesMessage K s s₁ s₂ fd next st m) : Taken K s₁ fd st m s₂.kernel := by
  obtain ⟨hdata, hkernel⟩ := Prod.mk.inj h.peek
  obtain ⟨hcontent, hkernel₂⟩ := Prod.mk.inj h.recv
  have hpeek : K.recv s.kernel fd 8 .peekDontwait = (.ok next.bytes, s₁.kernel) :=
    Prod.ext hdata (congrArg Net.kernel hkernel)
  have hrecv : K.recv s₁.kernel fd (8 + m.size) .waitall = (.ok m.content, s₂.kernel) :=
    Prod.ext hcontent (congrArg Net.kernel hkernel₂)
  exact ⟨h.entry, h.fd_eq, ⟨s.kernel, next, hpeek, h.valid, h.size_eq⟩, hrecv, h.length⟩

/-- The loop then goes on with the next header. -/
theorem Net.TakesMessage.headerLoop {s s₁ s₂ : Net κ} {fd : Fd} {next : MsgHeader}
    {st : ChannelStatus} {m : Msg} (h : Net.TakesMessage K s s₁ s₂ fd next st m) (cfg : ConfigFile)
    (fuel : ℕ) (header : MsgHeader) : s.headerLoop K cfg (fuel + 1) fd header
      = (s₂.enqueueMsg K cfg st m).headerLoop K cfg fuel fd next := by
  have hmsg : (⟨st.fd, m.content, next.size⟩ : Msg) = m := by
    rw [← h.fd_eq, ← h.size_eq]
  have hrecv := h.recv
  have hlen := h.length
  rw [h.size_eq] at hrecv hlen
  rw [Net.headerLoop, h.peek]
  dsimp only
  rw [if_neg (not_not_intro next.length_bytes), recvInto_of_length header next.length_bytes, h.valid,
    if_neg (by decide), h.entry]
  dsimp only
  rw [hrecv]
  dsimp only
  rw [if_neg (not_not_intro hlen), hmsg]

/-- What one pass of the loop over the messages can do. -/
inductive Net.LoopPass (K : Kernel κ Ctl Addr) (cfg : ConfigFile) (fuel : ℕ) (s : Net κ) (fd : Fd)
    (header : MsgHeader) : Net.HeaderExit → Net κ → Prop
  | failed {e : Errno} {s₁ : Net κ} :
      s.recv K fd 8 .peekDontwait = (.error e, s₁) → LoopPass K cfg fuel s fd header
        (.short (.error e) header) s₁
  | short {data : Bytes} {s₁ : Net κ} :
      s.recv K fd 8 .peekDontwait = (.ok data, s₁) → LoopPass K cfg fuel s fd header
        (.short (.ok data) (header.recvInto data)) s₁
  | invalid {data : Bytes} {s₁ : Net κ} :
      s.recv K fd 8 .peekDontwait = (.ok data, s₁) →
      LoopPass K cfg fuel s fd header .invalid (s₁.setUnintercepted fd)
  /-- The connection is gone. -/
  | stale {data : Bytes} {s₁ : Net κ} :
      s.recv K fd 8 .peekDontwait = (.ok data, s₁) → s₁.fdToChannelStatus.get fd = none →
      LoopPass K cfg fuel s fd header .returned s₁
  /-- The message does not come. -/
  | interrupted {data : Bytes} {s₁ s₂ : Net κ} {len : ℕ} {r : RecvResult} :
      s.recv K fd 8 .peekDontwait = (.ok data, s₁) → s₁.recv K fd len .waitall = (r, s₂) →
      LoopPass K cfg fuel s fd header .returned s₂
  | closed {data : Bytes} {s₁ s₂ : Net κ} {len : ℕ} {r : RecvResult} :
      s.recv K fd 8 .peekDontwait = (.ok data, s₁) → s₁.recv K fd len .waitall = (r, s₂) →
      LoopPass K cfg fuel s fd header .returned (s₂.closeConnection K fd false)
  | message {next : MsgHeader} {st : ChannelStatus} {m : Msg} {s₁ s₂ s' : Net κ}
      {exit : Net.HeaderExit} :
      Net.TakesMessage K s s₁ s₂ fd next st m →
      (s₂.enqueueMsg K cfg st m).headerLoop K cfg fuel fd next = some (exit, s') →
      LoopPass K cfg fuel s fd header exit s'

theorem headerLoop_pass {fuel : ℕ} {s s' : Net κ} {fd : Fd} {header : MsgHeader}
    {exit : Net.HeaderExit} (h : s.headerLoop K cfg (fuel + 1) fd header = some (exit, s')) :
    Net.LoopPass K cfg fuel s fd header exit s' := by
  rw [Net.headerLoop] at h
  cases hr : s.recv K fd 8 .peekDontwait with
  | mk r s₁ =>
      rw [hr] at h
      cases r with
      | error e =>
          cases h
          exact .failed hr
      | ok data =>
          dsimp only at h
          -- fewer bytes than a header wait in the stream
          by_cases hlen : data.length ≠ 8
          · rw [if_pos hlen] at h
            cases h
            exact .short hr
          · rw [if_neg hlen] at h
            rw [not_not] at hlen
            -- the peeked header decides whether the connection is intercepted
            by_cases hvalid : packetValidation (header.recvInto data) 8 = true
            · rw [hvalid, if_neg (by decide)] at h
              cases hst : s₁.fdToChannelStatus.get fd with
              | none =>
                  rw [hst] at h
                  cases h
                  exact .stale hr hst
              | some st =>
                  rw [hst] at h
                  dsimp only at h
                  cases hr₂ : s₁.recv K fd (8 + (header.recvInto data).size) .waitall with
                  | mk r₂ s₂ =>
                      rw [hr₂] at h
                      cases r₂ with
                      | error e =>
                          cases h
                          split
                          · exact .interrupted hr hr₂
                          · exact .closed hr hr₂
                      | ok content =>
                          dsimp only at h
                          -- a message that does not come in full closes the connection
                          by_cases hcontent : content.length ≠ 8 + (header.recvInto data).size
                          · rw [if_pos hcontent] at h
                            cases h
                            exact .closed hr hr₂
                          · rw [if_neg hcontent] at h
                            rw [recvInto_of_length header hlen] at hvalid hr₂ hcontent h
                            exact .message ⟨hr, hvalid, hst, hr₂, not_not.mp hcontent, rfl, rfl⟩ h
            · rw [Bool.not_eq_true] at hvalid
              rw [hvalid, if_pos (by decide)] at h
              cases h
              exact .invalid hr

/-- How the loop over the messages ends. -/
structure LoopEnds (K : Kernel κ Ctl Addr) (R : Scope) (s : Net κ) (fd : Fd)
    (exit : Net.HeaderExit) (s' : Net κ) : Prop where
  path : Path K R s s'
  held : s'.Held K fd
  entry : ∀ {data header}, exit = .short (.ok data) header →
    ∃ st, s'.fdToChannelStatus.get fd = some st

/-- The loop over the messages, on a descriptor that is no client's. -/
theorem Path.headerLoop (hR : ¬ R.router) (hdeliver : cfg.isDirect = true → R.deliver) (fuel : ℕ) :
    ∀ {s s' : Net κ} {fd : Fd} {header : MsgHeader} {exit : Net.HeaderExit},
      s.headerLoop K cfg fuel fd header = some (exit, s') → s.fdToClient.get fd = none →
      s.Held K fd → LoopEnds K R s fd exit s' := by
  induction fuel with
  | zero =>
      intro s s' fd header exit h
      cases h
  | succ fuel ih =>
      intro s s' fd header exit h hclient hheld
      cases headerLoop_pass h with
      | failed hr =>
          obtain ⟨hpath, hio⟩ := Path.recv (R := R) hr
          exact ⟨hpath, hio.held hheld, nofun⟩
      | short hr =>
          obtain ⟨hpath, hio⟩ := Path.recv (R := R) hr
          exact ⟨hpath, hio.held hheld, fun _ => hheld.get_of_recv hr⟩
      | invalid hr =>
          obtain ⟨hpath, hio⟩ := Path.recv (R := R) hr
          obtain ⟨st, hst⟩ := hheld.get_of_recv hr
          exact ⟨hpath.trans (Atom.unintercept hst).path, hio.held hheld, nofun⟩
      | stale hr _ =>
          obtain ⟨hpath, hio⟩ := Path.recv (R := R) hr
          exact ⟨hpath, hio.held hheld, nofun⟩
      | interrupted hr hr₂ =>
          obtain ⟨hpath, hio⟩ := Path.recv (R := R) hr
          obtain ⟨hpath₂, hio₂⟩ := Path.recv (R := R) hr₂
          exact ⟨hpath.trans hpath₂, hio₂.held (hio.held hheld), nofun⟩
      | @closed data s₁ s₂ len r hr hr₂ =>
          obtain ⟨hpath, hio⟩ := Path.recv (R := R) hr
          obtain ⟨hpath₂, hio₂⟩ := Path.recv (R := R) hr₂
          have hclient₂ : s₂.fdToClient.get fd = none := by
            rw [hio₂.fdToClient, hio.fdToClient]
            exact hclient
          have hclose := Path.closeConnection (K := K) (R := R) hclient₂
          have hheld₂ := held_closeConnection (hio₂.held (hio.held hheld)) fd false
          exact ⟨(hpath.trans hpath₂).trans hclose, hheld₂, nofun⟩
      | @message next st m s₁ s₂ _ _ hmsg hrest =>
          obtain ⟨hpath, hio⟩ := Path.recv (R := R) hmsg.peek
          have hio₂ := onlyIO_recv hmsg.recv
          have hqueue := Path.enqueueMsg (R := R) hdeliver hmsg.taken hmsg.recv
          -- a message has been queued, and the loop goes on with its header as the buffer
          have hclient₃ : (s₂.enqueueMsg K cfg st m).fdToClient.get fd = none := by
            rw [hqueue.fdToClient hR, hio.fdToClient]
            exact hclient
          have hheld₃ : (s₂.enqueueMsg K cfg st m).Held K fd :=
            held_enqueueMsg (hio₂.held (hio.held hheld)) st m
          have hends := ih hrest hclient₃ hheld₃
          exact ⟨(hpath.trans hqueue).trans hends.path, hends.held, hends.entry⟩

/-- What follows the loop over the messages: the value of `is_unintercepted`, and the
state before the transfer. -/
inductive Net.AfterLoop (K : Kernel κ Ctl Addr) (fd : Fd) (s : Net κ) :
    Net.HeaderExit → Bool → Net κ → Prop
  | kept {exit : Net.HeaderExit} {raw : Bool} : AfterLoop K fd s exit raw s
  | closed {size : RecvResult} {header : MsgHeader} :
      AfterLoop K fd s (.short size header) false (s.closeConnection K fd false)
  | tagged {data : Bytes} {header : MsgHeader} :
      AfterLoop K fd s (.short (.ok data) header) true (s.setUnintercepted fd)

theorem receiveIntercepted_afterLoop {fuel : ℕ} {s s' : Net κ} {fd : Fd} {raw : Bool}
    (h : s.receiveIntercepted K cfg fuel fd = some (raw, s')) :
    ∃ exit s₁, s.headerLoop K cfg fuel fd .zero = some (exit, s₁)
      ∧ Net.AfterLoop K fd s₁ exit raw s' := by
  rw [Net.receiveIntercepted] at h
  cases hloop : s.headerLoop K cfg fuel fd .zero with
  | none =>
      rw [hloop] at h
      cases h
  | some ending =>
      obtain ⟨exit, s₁⟩ := ending
      rw [hloop] at h
      refine ⟨exit, s₁, rfl, ?_⟩
      cases exit with
      | returned =>
          cases h
          exact .kept
      | invalid =>
          cases h
          exact .kept
      -- a short header: an error, the end of the stream, or the first bytes of something else
      | short size header =>
          cases size with
          | error e =>
              cases h
              split
              · exact .closed
              · exact .kept
          | ok data =>
              cases data with
              | nil =>
                  cases h
                  exact .closed
              | cons b bs =>
                  dsimp only at h
                  split at h
                  · cases h
                    exact .tagged
                  · cases h
                    exact .kept

theorem Path.receiveIntercepted (hR : ¬ R.router) (hdeliver : cfg.isDirect = true → R.deliver)
    {fuel : ℕ} {s s' : Net κ} {fd : Fd} {raw : Bool}
    (h : s.receiveIntercepted K cfg fuel fd = some (raw, s')) (hclient : s.fdToClient.get fd = none)
    (hheld : s.Held K fd) : Path K R s s' := by
  obtain ⟨exit, s₁, hloop, hafter⟩ := receiveIntercepted_afterLoop h
  have hends := Path.headerLoop hR hdeliver fuel hloop hclient hheld
  have hclient₁ : s₁.fdToClient.get fd = none := by
    rw [hends.path.fdToClient hR]
    exact hclient
  cases hafter with
  | kept => exact hends.path
  | closed => exact hends.path.trans (Path.closeConnection hclient₁)
  | tagged =>
      obtain ⟨st, hst⟩ := hends.entry rfl
      exact hends.path.trans (Atom.unintercept hst).path

theorem Path.receivePhase (hR : ¬ R.router) (hdeliver : cfg.isDirect = true → R.deliver)
    {fuel : ℕ} {s s' : Net κ} {fd : Fd} {raw : Bool}
    (h : s.receivePhase K cfg fuel fd = some (raw, s')) (hclient : s.fdToClient.get fd = none)
    (hheld : s.Held K fd) : Path K R s s' := by
  rw [Net.receivePhase] at h
  split at h
  · cases h
    exact .refl
  · exact Path.receiveIntercepted hR hdeliver h hclient hheld

/-- `do_receive` goes on to the pass-through. -/
def Net.PassesThrough (K : Kernel κ Ctl Addr) (cfg : ConfigFile) (s : Net κ) (fd : Fd) : Prop :=
  ∃ fuel s₁, s.receivePhase K cfg fuel fd = some (true, s₁)

/-- On a connection that is there, `do_receive` has ended before the transfer or with it. -/
theorem doReceive_cases {fuel : ℕ} {s s' : Net κ} {fd : Fd} {st : ChannelStatus}
    (hst : s.fdToChannelStatus.get fd = some st) (h : s.doReceive K cfg fuel fd = some s') :
    ∃ raw s₁, s.receivePhase K cfg fuel fd = some (raw, s₁) ∧ (s' = s₁ ∨
      raw = true ∧ ∃ cf, s₁.fdToChannelStatus.get fd = some cf
        ∧ s₁.transferUnintercepted K fuel (s₁.heap cf.fd) fd = some s') := by
  rw [Net.doReceive, hst] at h
  dsimp only at h
  cases hphase : s.receivePhase K cfg fuel fd with
  | none =>
      rw [hphase] at h
      cases h
  | some ending =>
      obtain ⟨raw, s₁⟩ := ending
      rw [hphase] at h
      refine ⟨raw, s₁, rfl, ?_⟩
      cases raw with
      | false =>
          cases h
          exact Or.inl rfl
      | true =>
          dsimp only at h
          -- receiving may have closed the connection
          cases hst₁ : s₁.fdToChannelStatus.get fd with
          | none =>
              rw [hst₁] at h
              cases h
              exact Or.inl rfl
          | some cf =>
              rw [hst₁] at h
              exact Or.inr ⟨rfl, cf, rfl, h⟩

theorem Path.doReceive (hR : ¬ R.router) (hdeliver : cfg.isDirect = true → R.deliver) {fuel : ℕ}
    {s s' : Net κ} {fd : Fd}
    (h : s.doReceive K cfg fuel fd = some s') (hclient : s.fdToClient.get fd = none)
    (hraw : s.PassesThrough K cfg fd → R.raw fd) : Path K R s s' := by
  cases hst : s.fdToChannelStatus.get fd with
  | none =>
      -- an event of a connection that was closed in the same batch
      rw [Net.doReceive, hst] at h
      cases h
      exact Path.closeConnection hclient
  | some st =>
      have hheld : s.Held K fd := fun _ => by rw [hst]; rfl
      obtain ⟨raw, s₁, hphase, hends⟩ := doReceive_cases hst h
      have hpath := Path.receivePhase hR hdeliver hphase hclient hheld
      rcases hends with rfl | ⟨rfl, cf, hcf, htransfer⟩
      · exact hpath
      · exact hpath.trans
          (Path.transferUnintercepted htransfer (hraw ⟨fuel, s₁, hphase⟩) hcf rfl)

/-! ### Accepting -/

theorem Path.addMonitorFd (s : Net κ) (fd : Fd) : Path K R s (s.addMonitorFd K fd) := by
  rw [Net.addMonitorFd]
  split
  · exact .refl
  · cases hctl : s.ctl K (.epollAdd fd) with
    | mk ok s₁ =>
        have hpath := Path.ctl (R := R) hctl
        cases ok with
        | true => exact hpath
        | false => exact hpath.trans Atom.throw.path

theorem Path.tcpAccept_none {s s₁ : Net κ} (h : s.tcpAccept K cfg = (none, s₁)) :
    Path K R s s₁ := by
  rw [Net.tcpAccept] at h
  cases hacc : K.accept s.kernel with
  | mk r k =>
      rw [hacc] at h
      cases r with
      | error e =>
          have hfds := K.fds_accept_error (congrArg Prod.fst hacc)
          rw [hacc] at hfds
          cases h
          exact (Atom.kernel hfds).path
      | ok conn =>
          obtain ⟨fd, client⟩ := conn
          obtain ⟨-, hfresh, hfds⟩ := K.accept_fresh (congrArg Prod.fst hacc)
          rw [hacc] at hfds
          have hname := K.fds_getsockname k fd
          dsimp only at h
          cases hr : K.getsockname k fd with
          | mk r₂ k₂ =>
              rw [hr] at h hname
              cases r₂ with
              | error e =>
                  cases h
                  -- `getsockname` fails, and the accepted descriptor stays open
                  exact (Atom.leaked hfresh (hname.trans hfds)).path
              | ok origin => cases h

/-- `s'` is `s` up to the kernel, whose open descriptors are `F`. -/
def Net.WithFds (K : Kernel κ Ctl Addr) (s : Net κ) (F : Finset Fd) (s' : Net κ) : Prop :=
  ∃ k, s' = { s with kernel := k } ∧ K.fds k = F

theorem Net.WithFds.ctl {s s₁ : Net κ} {F : Finset Fd} (h : s.WithFds K F s₁) (o : Ctl) :
    s.WithFds K F (s₁.ctl K o).2 := by
  obtain ⟨k, rfl, hk⟩ := h
  exact ⟨_, rfl, (K.fds_ctl k o).trans hk⟩

theorem Net.WithFds.close {s s₁ : Net κ} {F : Finset Fd} (h : s.WithFds K F s₁) (fd : Fd) :
    s.WithFds K (F.erase fd) (s₁.close K fd) := by
  obtain ⟨k, rfl, hk⟩ := h
  exact ⟨_, rfl, by rw [K.fds_close, hk]⟩

theorem tcpAccept_some {s s₁ : Net κ} {acc : AcceptData} (h : s.tcpAccept K cfg = (some acc, s₁)) :
    acc.socketFd ∉ K.fds s.kernel
      ∧ s.WithFds K (insert acc.socketFd (K.fds s.kernel)) s₁ := by
  rw [Net.tcpAccept] at h
  cases hacc : K.accept s.kernel with
  | mk r k =>
      rw [hacc] at h
      cases r with
      | error e => cases h
      | ok conn =>
          obtain ⟨fd, client⟩ := conn
          obtain ⟨-, hfresh, hfds⟩ := K.accept_fresh (congrArg Prod.fst hacc)
          rw [hacc] at hfds
          have hname := K.fds_getsockname k fd
          dsimp only at h
          cases hr : K.getsockname k fd with
          | mk r₂ k₂ =>
              rw [hr] at h hname
              cases r₂ with
              | error e => cases h
              | ok origin =>
                  cases h
                  exact ⟨hfresh, k₂, rfl, hname.trans hfds⟩

/-- `connect_peer` returns after a failed `setsockopt` or `bind` on its new
descriptor. -/
def Net.SetupFails (K : Kernel κ Ctl Addr) (s : Net κ) (acc : AcceptData) : Prop :=
  match K.socket s.kernel with
  | (.error _, _) => False
  | (.ok fd, k) =>
      let (ok, s) := ({ s with kernel := k } : Net κ).ctl K (.setTransparent fd)
      ok = false ∨ (s.ctl K (.bind fd acc.originAddr.host)).1 = false

/-- The kernel gives `connect_peer` a socket, and no call on it fails that has to succeed. -/
def Net.reachesPeer (K : Kernel κ Ctl Addr) (s : Net κ) (acc : AcceptData) : Bool :=
  match K.socket s.kernel with
  | (.error _, _) => false
  | (.ok fd, k) =>
      let (transparent, s) := ({ s with kernel := k } : Net κ).ctl K (.setTransparent fd)
      let (bound, s) := s.ctl K (.bind fd acc.originAddr.host)
      let (_, s) := s.ctl K (.setConnRetries fd)
      transparent && bound && (s.ctl K (.connect fd acc.masqueAddr)).1

theorem Net.not_setupFails {s : Net κ} {acc : AcceptData} (h : s.reachesPeer K acc = true) :
    ¬ s.SetupFails K acc := by
  rw [Net.reachesPeer] at h
  rw [Net.SetupFails]
  cases hsock : K.socket s.kernel with
  | mk r k =>
      rw [hsock] at h
      cases r with
      | error e => cases h
      | ok fd =>
          simp only [Bool.and_eq_true] at h
          obtain ⟨⟨htransparent, hbound⟩, -⟩ := h
          simp [htransparent, hbound]

/-- The channel of the connection that an event of the listening socket establishes: the kernel
accepts one, of no client of the router, and its peer is reached. -/
def Net.establishedChannel (K : Kernel κ Ctl Addr) (cfg : ConfigFile) (s : Net κ) :
    Option Channel :=
  match s.tcpAccept K cfg with
  | (none, _) => none
  | (some acc, s) =>
      if !cfg.isRouterAddr acc.originAddr && s.reachesPeer K acc then
        some ⟨acc.clientAddr.host, acc.masqueAddr.host⟩
      else none

/-- The outcomes of `connect_peer`: nothing; nothing, but a new descriptor is left open
since the setup of it has failed; or a new descriptor. -/
theorem connectPeer_cases {s s' : Net κ} {acc : AcceptData} {r : Option Fd}
    (h : s.connectPeer K acc = (r, s')) :
    (r = none ∧ ¬ s.SetupFails K acc ∧ s.WithFds K (K.fds s.kernel) s') ∨
      ∃ fd, fd ∉ K.fds s.kernel ∧ s.WithFds K (insert fd (K.fds s.kernel)) s'
        ∧ (r = none ∧ s.SetupFails K acc ∨ r = some fd ∧ s.reachesPeer K acc = true) := by
  rw [Net.connectPeer] at h
  rw [Net.SetupFails, Net.reachesPeer]
  cases hsock : K.socket s.kernel with
  | mk r₀ k₀ =>
      rw [hsock] at h
      cases r₀ with
      | error e =>
          have hfds := K.fds_socket_error (congrArg Prod.fst hsock)
          rw [hsock] at hfds
          cases h
          exact Or.inl ⟨rfl, fun hf => hf, k₀, rfl, hfds⟩
      | ok fd =>
          obtain ⟨-, hfresh, hfds⟩ := K.socket_fresh (congrArg Prod.fst hsock)
          rw [hsock] at hfds
          -- from here on the new descriptor is open; only the last failure closes it
          have h₀ : s.WithFds K (insert fd (K.fds s.kernel)) { s with kernel := k₀ } :=
            ⟨k₀, rfl, hfds⟩
          dsimp only at h ⊢
          cases hc₁ : ({ s with kernel := k₀ } : Net κ).ctl K (.setTransparent fd) with
          | mk ok₁ s₁ =>
              have h₁ := h₀.ctl (.setTransparent fd)
              rw [hc₁] at h h₁
              cases ok₁ with
              | false =>
                  cases h
                  exact Or.inr ⟨fd, hfresh, h₁, Or.inl ⟨rfl, Or.inl rfl⟩⟩
              | true =>
                  dsimp only at h ⊢
                  rw [if_neg (by decide)] at h
                  cases hc₂ : s₁.ctl K (.bind fd acc.originAddr.host) with
                  | mk ok₂ s₂ =>
                      have h₂ := h₁.ctl (.bind fd acc.originAddr.host)
                      rw [hc₂] at h h₂
                      cases ok₂ with
                      | false =>
                          cases h
                          exact Or.inr ⟨fd, hfresh, h₂, Or.inl ⟨rfl, Or.inr rfl⟩⟩
                      | true =>
                          -- both steps whose failure leaves the descriptor open have passed
                          have hsetup : ¬ (true = false ∨ true = false) := by decide
                          dsimp only at h ⊢
                          rw [if_neg (by decide)] at h
                          cases hc₃ : s₂.ctl K (.setConnRetries fd) with
                          | mk ok₃ s₃ =>
                              have h₃ := h₂.ctl (.setConnRetries fd)
                              rw [hc₃] at h h₃
                              dsimp only at h
                              cases hc₄ : s₃.ctl K (.connect fd acc.masqueAddr) with
                              | mk ok₄ s₄ =>
                                  have h₄ := h₃.ctl (.connect fd acc.masqueAddr)
                                  rw [hc₄] at h h₄
                                  cases ok₄ with
                                  | true =>
                                      cases h
                                      exact Or.inr ⟨fd, hfresh, h₄, Or.inr ⟨rfl, rfl⟩⟩
                                  | false =>
                                      cases h
                                      have hclosed := h₄.close fd
                                      rw [Finset.erase_insert hfresh] at hclosed
                                      exact Or.inl ⟨rfl, hsetup, hclosed⟩

/-- What an event of the listening socket leads to. -/
inductive Net.Accepts (K : Kernel κ Ctl Addr) (cfg : ConfigFile) (s : Net κ) : Net κ → Prop
  | failed {s₁ : Net κ} : s.tcpAccept K cfg = (none, s₁) → Accepts K cfg s s₁.throw
  | client {acc : AcceptData} {k : κ} :
      s.tcpAccept K cfg = (some acc, { s with kernel := k }) →
      cfg.isRouterAddr acc.originAddr = true → acc.socketFd ∉ K.fds s.kernel →
      K.fds k = insert acc.socketFd (K.fds s.kernel) →
      Accepts K cfg s (({ s with
        kernel := k
        clientToFd := s.clientToFd.insert acc.clientAddr.host acc.socketFd
        fdToClient := s.fdToClient.insert acc.socketFd acc.clientAddr.host } : Net κ).addMonitorFd K
          acc.socketFd)
  /-- The peer is not reached, and both descriptors are closed. -/
  | refused {acc : AcceptData} {k k₁ : κ} :
      s.tcpAccept K cfg = (some acc, { s with kernel := k }) →
      ¬ ({ s with kernel := k } : Net κ).SetupFails K acc → K.fds k₁ = K.fds s.kernel →
      Accepts K cfg s { s with kernel := k₁ }
  /-- The descriptor of the peer is left open. -/
  | leaked {acc : AcceptData} {k k₁ : κ} {fd : Fd} :
      s.tcpAccept K cfg = (some acc, { s with kernel := k }) →
      cfg.isRouterAddr acc.originAddr = false →
      ({ s with kernel := k } : Net κ).SetupFails K acc → fd ∉ K.fds s.kernel →
      K.fds k₁ = insert fd (K.fds s.kernel) → Accepts K cfg s { s with kernel := k₁ }
  | connected {acc : AcceptData} {k k₁ : κ} {peerFd : Fd} :
      s.tcpAccept K cfg = (some acc, { s with kernel := k }) →
      cfg.isRouterAddr acc.originAddr = false →
      ({ s with kernel := k } : Net κ).reachesPeer K acc = true → acc.socketFd ∉ K.fds s.kernel →
      peerFd ∉ K.fds s.kernel → acc.socketFd ≠ peerFd →
      K.fds k₁ = insert peerFd (insert acc.socketFd (K.fds s.kernel)) →
      Accepts K cfg s (((({ s with kernel := k₁ } : Net κ).addFdToChannel acc.socketFd peerFd
        acc.clientAddr acc.masqueAddr).addMonitorFd K acc.socketFd).addMonitorFd K peerFd)

theorem acceptEvent_accepts (K : Kernel κ Ctl Addr) (cfg : ConfigFile) (s : Net κ) :
    s.Accepts K cfg (s.acceptEvent K cfg) := by
  rw [Net.acceptEvent, Net.doAcceptConnect]
  cases hacc : s.tcpAccept K cfg with
  | mk r s₁ =>
      cases r with
      | none => exact .failed hacc
      | some acc =>
          obtain ⟨hfresh, k, rfl, hk⟩ := tcpAccept_some hacc
          dsimp only
          cases hr : cfg.isRouterAddr acc.originAddr with
          | true =>
              rw [if_pos rfl]
              exact .client hacc hr hfresh hk
          | false =>
              rw [if_neg (by decide)]
              cases hpeer : ({ s with kernel := k } : Net κ).connectPeer K acc with
              | mk peer s₂ =>
                  have hcases := connectPeer_cases hpeer
                  rw [hk] at hcases
                  -- no peer, a peer that is left open, or a connection
                  rcases hcases with ⟨rfl, hnot, hsame⟩ | ⟨fd, hfd, hmoved, ⟨rfl, hf⟩ | ⟨rfl, hreached⟩⟩
                  · obtain ⟨k₃, heq, hk₃⟩ := hsame.close acc.socketFd
                    rw [Finset.erase_insert hfresh] at hk₃
                    dsimp only
                    rw [heq]
                    exact .refused hacc hnot hk₃
                  · obtain ⟨k₃, heq, hk₃⟩ := hmoved.close acc.socketFd
                    rw [Finset.mem_insert, not_or] at hfd
                    rw [Finset.erase_insert_of_ne hfd.1, Finset.erase_insert hfresh] at hk₃
                    dsimp only
                    rw [heq]
                    exact .leaked hacc hr hf hfd.2 hk₃
                  · dsimp only
                    obtain ⟨k₃, heq, hk₃⟩ :=
                      (hmoved.ctl (.setRecvTimeout acc.socketFd)).ctl (.setRecvTimeout fd)
                    rw [Finset.mem_insert, not_or] at hfd
                    rw [heq]
                    exact .connected hacc hr hreached hfresh hfd.2 (Ne.symm hfd.1) hk₃

theorem Path.acceptEvent (hrouter : R.router) {s : Net κ}
    (hconnect : ∀ c, s.establishedChannel K cfg = some c → R.connect c) :
    Path K R s (s.acceptEvent K cfg) := by
  have haccepts := acceptEvent_accepts K cfg s
  generalize s.acceptEvent K cfg = s' at haccepts ⊢
  cases haccepts with
  | failed hacc => exact (Path.tcpAccept_none hacc).trans Atom.throw.path
  | client hacc hr hfresh hk =>
      exact (Atom.routerUp hrouter hfresh hk).path.trans (Path.addMonitorFd _ _)
  | refused hacc hnot hk => exact (Atom.kernel hk).path
  | leaked hacc hr hf hfd hk => exact (Atom.leaked hfd hk).path
  | @connected acc k k₁ peerFd hacc hr hreached hfresh hfd hne hk =>
      have hchannel : s.establishedChannel K cfg
          = some ⟨acc.clientAddr.host, acc.masqueAddr.host⟩ := by
        rw [Net.establishedChannel, hacc]
        simp [hr, hreached]
      have hatom : Atom K R s (({ s with kernel := k₁ } : Net κ).addFdToChannel
          acc.socketFd peerFd acc.clientAddr acc.masqueAddr) :=
        .connect (hconnect _ hchannel) hfresh hfd hne hk
      exact (hatom.path.trans (Path.addMonitorFd _ _)).trans (Path.addMonitorFd _ _)

/-! ### Commands -/

/-- No descriptor is a connection's and a client's. -/
def Net.Apart (s : Net κ) : Prop :=
  ∀ fd st, s.fdToChannelStatus.get fd = some st → s.fdToClient.get fd = none

theorem Path.closeAll (hR : ¬ R.router) (fds : List Fd) :
    ∀ {s : Net κ}, (∀ fd ∈ fds, s.fdToClient.get fd = none) → Path K R s (s.closeAll K fds) := by
  induction fds with
  | nil =>
      intro s _
      exact .refl
  | cons fd fds ih =>
      intro s hclient
      have hclose := Path.closeConnection (K := K) (R := R) (hclient fd (by simp))
      have hsame := hclose.fdToClient hR
      have hrest := ih (s := s.closeConnection K fd false) fun x hx => by
        rw [hsame]
        exact hclient x (by simp [hx])
      exact hclose.trans hrest

theorem apart_setDisconnected {s : Net κ} (h : s.Apart) (fd : Fd) (b : Bool) :
    (s.setDisconnected fd b).Apart := by
  intro x st hst
  replace hst : (s.fdToChannelStatus.except fd _).get x = some st := hst
  rw [FinFn.get_except] at hst
  show s.fdToClient.get x = none
  split at hst
  · obtain ⟨st₀, hst₀, -⟩ := Option.map_eq_some_iff.mp hst
    exact h x st₀ hst₀
  · exact h x st hst

theorem apart_tag {s : Net κ} (h : s.Apart) (fd : Fd) : (s.closeConnection K fd true).Apart := by
  rw [Net.closeConnection]
  cases s.fdToChannelStatus.get fd with
  | none => exact h
  | some st => exact apart_setDisconnected (apart_setDisconnected h fd true) _ true

/-- What the loop of `partition` does at an entry that matches: the tag, then the queue. -/
def Net.mark (K : Kernel κ Ctl Addr) (s : Net κ) (fd : Fd) (c : Channel)
    (clearMsg isRecover : Bool) : Net κ :=
  let s := if isRecover then s.setDisconnected fd false else s.closeConnection K fd true
  if clearMsg then s.clearMsgs c else s

/-- Apart from the queue, the tag is all that changes. -/
theorem mark_eq (s : Net κ) (fd : Fd) (c : Channel) (clearMsg isRecover : Bool) :
    ∃ network, s.mark K fd c clearMsg isRecover
      = { (if isRecover then s.setDisconnected fd false else s.closeConnection K fd true) with
          network := network } := by
  rw [Net.mark]
  cases clearMsg with
  | true => exact ⟨_, rfl⟩
  | false => exact ⟨_, rfl⟩

/-- The loop of `partition` over the keys: it passes over what does not match, marks what
does, and lists it for `recover`. -/
inductive Net.Marks (K : Kernel κ Ctl Addr) (addr : Addr) (clearMsg isRecover : Bool) :
    List Fd → Net κ → List Fd → Net κ → Prop
  | nil (s : Net κ) : Marks K addr clearMsg isRecover [] s [] s
  | other {fd : Fd} {fds toClose : List Fd} {s s' : Net κ} :
      (∀ st, s.fdToChannelStatus.get fd = some st → st.channel.first ≠ addr) →
      Marks K addr clearMsg isRecover fds s toClose s' →
      Marks K addr clearMsg isRecover (fd :: fds) s toClose s'
  | mark {fd : Fd} {fds toClose : List Fd} {s s' : Net κ} {st : ChannelStatus} :
      s.fdToChannelStatus.get fd = some st → st.channel.first = addr →
      Marks K addr clearMsg isRecover fds (s.mark K fd st.channel clearMsg isRecover) toClose s' →
      Marks K addr clearMsg isRecover (fd :: fds) s
        (if isRecover then fd :: toClose else toClose) s'

theorem partitionLoop_marks {addr : Addr} {clearMsg isRecover : Bool} (fds : List Fd) :
    ∀ {s s' : Net κ} {toClose : List Fd},
      s.partitionLoop K addr clearMsg isRecover fds = (toClose, s') →
      Net.Marks K addr clearMsg isRecover fds s toClose s' := by
  -- on the descriptors that are visited; one of another node is passed over
  induction fds with
  | nil =>
      intro s s' toClose h
      cases h
      exact .nil s
  | cons fd fds ih =>
      intro s s' toClose h
      rw [Net.partitionLoop] at h
      cases hst : s.fdToChannelStatus.get fd with
      | none =>
          rw [hst] at h
          refine .other (fun st hst' => ?_) (ih h)
          rw [hst] at hst'
          cases hst'
      | some st =>
          rw [hst] at h
          dsimp only at h
          by_cases haddr : st.channel.first = addr
          · rw [if_pos haddr] at h
            cases hrest : (s.mark K fd st.channel clearMsg isRecover).partitionLoop K addr clearMsg
              isRecover fds with
            | mk toClose' s₁ =>
                rw [Net.mark] at hrest
                rw [hrest] at h
                cases h
                exact .mark hst haddr (ih hrest)
          · rw [if_neg haddr] at h
            refine .other (fun st' hst' => ?_) (ih h)
            rw [hst] at hst'
            cases hst'
            exact haddr

theorem Path.mark {clearMsg isRecover : Bool} (huntag : isRecover = true → R.untag) {s : Net κ}
    {fd : Fd} {st : ChannelStatus} (hst : s.fdToChannelStatus.get fd = some st) (c : Channel) :
    Path K R s (s.mark K fd c clearMsg isRecover) := by
  have htag : Path K R s
      (if isRecover = true then s.setDisconnected fd false else s.closeConnection K fd true) := by
    split
    · exact (Atom.untag (huntag ‹_›)).path
    · exact (Atom.tag hst).path
  rw [Net.mark]
  cases clearMsg with
  | true => exact htag.trans (Atom.unqueue (thinned_clear _ _)).path
  | false => exact htag

theorem apart_mark {s : Net κ} (h : s.Apart) (fd : Fd) (c : Channel) (clearMsg isRecover : Bool) :
    (s.mark K fd c clearMsg isRecover).Apart := by
  obtain ⟨network, heq⟩ := mark_eq (K := K) s fd c clearMsg isRecover
  rw [heq]
  cases isRecover with
  | true => exact apart_setDisconnected h fd false
  | false => exact apart_tag h fd

theorem fdToClient_mark (s : Net κ) (fd : Fd) (c : Channel) (clearMsg isRecover : Bool) :
    (s.mark K fd c clearMsg isRecover).fdToClient = s.fdToClient := by
  obtain ⟨network, heq⟩ := mark_eq (K := K) s fd c clearMsg isRecover
  rw [heq]
  cases isRecover with
  | true => rfl
  | false => exact (onlyTable_closeConnection s fd true).fdToClient

/-- The loop of `partition`; what it lists is no client's. -/
theorem Path.partitionLoop {addr : Addr} {clearMsg isRecover : Bool}
    (huntag : isRecover = true → R.untag) {fds toClose : List Fd} {s s' : Net κ} (hapart : s.Apart)
    (h : s.partitionLoop K addr clearMsg isRecover fds = (toClose, s')) :
    Path K R s s' ∧ s'.fdToClient = s.fdToClient
      ∧ ∀ fd ∈ toClose, s.fdToClient.get fd = none := by
  replace h := partitionLoop_marks fds h
  induction h with
  | nil s => exact ⟨.refl, rfl, List.forall_mem_nil _⟩
  | other _ _ ih => exact ih hapart
  | @mark fd fds toClose s s' st hst _ _ ih =>
      obtain ⟨hpath, hsame, hnone⟩ := ih (apart_mark hapart fd _ _ _)
      rw [fdToClient_mark] at hsame hnone
      -- what is going to be closed has an entry, so it is no client's
      refine ⟨(Path.mark huntag hst _).trans hpath, hsame, fun x hx => ?_⟩
      split at hx
      · rcases List.mem_cons.mp hx with rfl | hx
        · exact hapart x st hst
        · exact hnone x hx
      · exact hnone x hx

theorem Path.partitionWith (hR : ¬ R.router) {s : Net κ} (hapart : s.Apart) (node : String)
    (clearMsg : Bool) {isRecover : Bool} (huntag : isRecover = true → R.untag) :
    Path K R s (s.partitionWith K cfg node clearMsg isRecover) := by
  rw [Net.partitionWith]
  dsimp only
  split
  · exact .refl
  · cases hloop : s.partitionLoop K (cfg.getNodeAddr node) clearMsg isRecover s.keys with
    | mk toClose s₁ =>
        obtain ⟨hpath, hsame, hnone⟩ := Path.partitionLoop (R := R) huntag hapart hloop
        refine hpath.trans (Path.closeAll hR toClose fun fd hfd => ?_)
        rw [hsame]
        exact hnone fd hfd

theorem Path.sendCmd (hcommand : R.command) (hR : R.router) (s : Net κ) (node : String)
    (cmd : Bytes) : Path K R s (s.sendCmd K cfg node cmd) := by
  rw [Net.sendCmd]
  dsimp only
  split
  · exact .refl
  · cases hfd : s.clientToFd.get (cfg.getNodeAddr node) with
    | none => exact .refl
    | some fd =>
        dsimp only
        cases hw : s.write K fd (bigEndian 4 VALIDATION_DATA ++ bigEndian 4 cmd.length ++ cmd) with
        | mk r s₁ =>
            obtain ⟨hpath, hio⟩ := Path.write (R := R) hw (.command hcommand hfd)
            cases r with
            | ok n => exact hpath
            | error e =>
                have hfd₁ : s₁.clientToFd.get (cfg.getNodeAddr node) = some fd := by
                  rw [hio.clientToFd]
                  exact hfd
                exact hpath.trans (Atom.routerDown hR (Or.inr hfd₁)).path

/-- An event of a client of the router closes the client, or only looks at it. -/
theorem readEvent_client {fuel : ℕ} {s s' : Net κ} {fd : Fd} {client : Addr}
    (hclient : s.fdToClient.get fd = some client) (h : s.readEvent K cfg fuel fd = some s') :
    ∃ r s₁, s.recv K fd 1 .peekDontwait = (r, s₁) ∧ (s' = s₁ ∨ s' = { s₁.close K fd with
      clientToFd := s₁.clientToFd.erase client
      fdToClient := s₁.fdToClient.erase fd }) := by
  rw [Net.readEvent, hclient] at h
  dsimp only at h
  rw [Net.checkConnectionIsActive] at h
  cases hr : s.recv K fd 1 .peekDontwait with
  | mk r s₁ =>
      rw [hr] at h
      refine ⟨r, s₁, rfl, ?_⟩
      -- closed if the peek finds the end of the stream, or an error other than `EAGAIN`
      cases r with
      | ok data =>
          dsimp only at h
          split at h
          · exact Or.inl (Option.some.inj h).symm
          · exact Or.inr (Option.some.inj h).symm
      | error e =>
          dsimp only at h
          split at h
          · exact Or.inl (Option.some.inj h).symm
          · exact Or.inr (Option.some.inj h).symm

/-- An event of a client of the router, or of a connection. -/
theorem Path.readEvent (hR : R.router) (hdeliver : cfg.isDirect = true → R.deliver) {fuel : ℕ}
    {s s' : Net κ} {fd : Fd}
    (h : s.readEvent K cfg fuel fd = some s') (hraw : s.PassesThrough K cfg fd → R.raw fd) :
    Path K R s s' := by
  cases hclient : s.fdToClient.get fd with
  | none =>
      rw [Net.readEvent, hclient] at h
      -- `do_receive` does nothing to the clients
      have hle : Scope.Le { R with router := False } R :=
        ⟨fun _ h => h, fun _ h => h, fun h => h, fun h => h, fun h => h, False.elim⟩
      have hpath := Path.doReceive (R := { R with router := False }) (fun hf => hf) hdeliver h hclient
        hraw
      exact hpath.mono hle
  | some client =>
      obtain ⟨r, s₁, hr, hends⟩ := readEvent_client hclient h
      obtain ⟨hpath, hio⟩ := Path.recv (R := R) hr
      rcases hends with rfl | rfl
      · exact hpath
      · have hclient₁ : s₁.fdToClient.get fd = some client := by
          rw [hio.fdToClient]
          exact hclient
        exact hpath.trans (Atom.routerDown (K := K) hR (Or.inl hclient₁)).path

/-! ### Steps -/

/-- What a step may contain, read off the state before it. -/
def Act.scope (K : Kernel κ Ctl Addr) (cfg : ConfigFile) (s : Net κ) : Act → Scope
  | .accept =>
      { Scope.plain with connect := fun c => s.establishedChannel K cfg = some c, router := True }
  | .readable fd =>
      { Scope.plain with
        raw := fun x => x = fd ∧ s.PassesThrough K cfg fd
        deliver := cfg.isDirect = true
        router := True }
  | .recover _ => { Scope.plain with untag := True }
  | .cmd _ _ => { Scope.plain with command := True, router := True }
  | .deliver _ _ => .delivering
  | .partition _ | .environment => .plain

/-- Every step is a path within its scope. -/
theorem Act.Step.path {a : Act} {s s' : Net κ} (hapart : s.Apart) (h : a.Step K cfg s s') :
    Path K (a.scope K cfg s) s s' := by
  obtain ⟨-, h⟩ := h
  cases a with
  | accept =>
      subst h
      exact Path.acceptEvent trivial fun c hc => hc
  | readable fd =>
      obtain ⟨fuel, h⟩ := h
      exact Path.readEvent trivial (fun hd => hd) h fun hraw => ⟨rfl, hraw⟩
  | deliver src dst =>
      subst h
      exact Path.deliverCmd trivial s src dst
  | partition node =>
      subst h
      exact Path.partitionWith (fun hf => hf) hapart node false nofun
  | recover node =>
      subst h
      exact Path.partitionWith (fun hf => hf) hapart node true fun _ => trivial
  | cmd node text =>
      subst h
      exact Path.sendCmd trivial trivial s node text
  | environment =>
      obtain ⟨k, hk, rfl⟩ := h
      exact (Atom.kernel hk).path

end Tmet.Tproxy
