import Tmet.Posix.Stream
import Tmet.Proofs.Tproxy.Tables

/-!
# `Tmet.Proofs.Tproxy.Receiver`: a stream of messages, cut into segments

One connection of the proxy, on which a sequence of well-formed messages comes in,
cut into segments in any way. A step is the arrival of a segment or the event that
it raised. Several segments may arrive before an event is handled, and segments may
arrive while it is handled.

`Receiving done todo` is the state between two messages. `done` were queued and
`todo` is what the stream still has to give. A turn of the loop of `do_receive` takes
the next message over (`headerLoop_message`), because `MSG_WAITALL` waits for the
rest of it. Or there is no complete header: then the loop ends
(`headerLoop_short`), and the bytes that are there are validated under a mask.

With 4 to 7 bytes the validation succeeds, and `do_receive` comes back with the
next segment. So it does with 1 to 3 bytes behind a message, because the variable
`header` still has the other bytes from the message before. But at the beginning
of `do_receive` the variable is zero, the validation of 1 to 3 bytes fails, and the
descriptor is tagged as unintercepted for good. `segments_received_iff`: all
messages are received exactly if no event begins with 1 to 3 bytes in the receive
queue.
-/

set_option autoImplicit false

namespace Tmet.Tproxy

open Tmet.Lib Tmet.Posix

/-! ### The system -/

/-- The kernel whose stream comes in segments. -/
abbrev segmented : Kernel (Stream Addr) Ctl Addr := streamKernel Addr Ctl

/-- What happens to the connection. -/
inductive Delivery
  | arrive
  | event
deriving DecidableEq, Repr

/-- A connection that is not tagged, on which nothing came in yet. The messages
`payloads` are on their way. They will be queued, since the strategy is not the
direct one. -/
structure AboutToReceive (cfg : ConfigFile) (fd : Fd) (st : ChannelStatus) (payloads : List Bytes)
    (s : Net (Stream Addr)) : Prop where
  indirect : cfg.isDirect = false
  entry : s.fdToChannelStatus.get fd = some st
  connected : st.disconnected = false
  untagged : fd ∉ s.uninterceptedFd
  notClient : s.fdToClient.get fd = none
  queue : (s.network.get st.channel).getD [] = []
  opened : fd ∈ s.kernel.fds
  dst : s.kernel.dst = fd
  inbox : s.kernel.inbox fd = []
  raised : s.kernel.raised = false
  stream : msgFraming.Frames s.kernel.segments.flatten payloads

/-- The event is taken from the kernel. A segment that arrives from now on raises a new
one. -/
def Net.takeEvent (s : Net (Stream Addr)) : Net (Stream Addr) :=
  { s with kernel := { s.kernel with raised := false } }

/-- The runs of the connection: segments arrive, and each raises an event, on which
`run_epoll` calls `do_receive`. -/
def receiver (cfg : ConfigFile) (fd : Fd) (st : ChannelStatus) (payloads : List Bytes) :
    System (Net (Stream Addr)) Delivery where
  init := AboutToReceive cfg fd st payloads
  step s a s' :=
    match a with
    | .arrive => s.kernel.segments ≠ [] ∧ s' = { s with kernel := s.kernel.arrive }
    | .event =>
        s.kernel.raised = true ∧ ∃ fuel, s.takeEvent.readEvent segmented cfg fuel fd = some s'

/-- The descriptor was never tagged, the connection is as it was, and the messages in
the queue are the payloads. -/
structure Received (fd : Fd) (st : ChannelStatus) (payloads : List Bytes)
    (tr : List (Step (Net (Stream Addr)) Delivery)) (s : Net (Stream Addr)) : Prop where
  untagged : ∀ t ∈ tr, fd ∉ t.dst.uninterceptedFd
  entry : s.fdToChannelStatus.get fd = some st
  opened : fd ∈ s.kernel.fds
  queue : ((s.network.get st.channel).getD []).map Msg.body = payloads

/-- There are 1 to 3 bytes in the receive queue. -/
def Ragged (fd : Fd) (s : Net (Stream Addr)) : Prop :=
  0 < (s.kernel.inbox fd).length ∧ (s.kernel.inbox fd).length < 4

variable {cfg : ConfigFile} {fd : Fd} {st : ChannelStatus}

/-- A step of the connection is one of the proxy, or two: the event is taken and
handled. -/
theorem receiver_step {payloads : List Bytes} {s s' : Net (Stream Addr)} {a : Delivery}
    (hlive : s.terminated = false) (h : (receiver cfg fd st payloads).step s a s') :
    Act.Step segmented cfg .environment s s'
      ∨ Act.Step segmented cfg .environment s s.takeEvent
        ∧ Act.Step segmented cfg (.readable fd) s.takeEvent s' := by
  cases a with
  | arrive =>
      obtain ⟨-, rfl⟩ := h
      exact Or.inl ⟨hlive, s.kernel.arrive, (Stream.later_arrive _).fds, rfl⟩
  | event =>
      obtain ⟨-, hfuel⟩ := h
      exact Or.inr ⟨⟨hlive, s.takeEvent.kernel, rfl, rfl⟩, hlive, hfuel⟩

/-! ### Between two messages -/

/-- The messages `done` were queued, and the stream has the messages `todo` to give. -/
structure Receiving (fd : Fd) (st : ChannelStatus) (done todo : List Bytes)
    (s : Net (Stream Addr)) : Prop where
  entry : s.fdToChannelStatus.get fd = some st
  untagged : fd ∉ s.uninterceptedFd
  opened : fd ∈ s.kernel.fds
  dst : s.kernel.dst = fd
  queue : ((s.network.get st.channel).getD []).map Msg.body = done
  stream : msgFraming.Frames s.kernel.unread todo

theorem Receiving.later {done todo : List Bytes} {s : Net (Stream Addr)}
    (h : Receiving fd st done todo s) {k : Stream Addr} (hk : s.kernel.Later k) (log : List Event) :
    Receiving fd st done todo { s with kernel := k, log := log } where
  entry := h.entry
  untagged := h.untagged
  opened := by
    rw [hk.fds]
    exact h.opened
  dst := hk.dst.trans h.dst
  queue := h.queue
  stream := by
    rw [hk.unread]
    exact h.stream

theorem Receiving.unread_eq {done todo : List Bytes} {s : Net (Stream Addr)}
    (h : Receiving fd st done todo s) :
    s.kernel.unread = s.kernel.inbox fd ++ s.kernel.segments.flatten := by
  rw [Stream.unread, h.dst]

/-- The next message: a valid header, a body of the size it says, and the rest. -/
theorem Receiving.message {done todo : List Bytes} {s : Net (Stream Addr)}
    (h : Receiving fd st done todo s) (hne : s.kernel.inbox fd ≠ []) :
    ∃ (header : MsgHeader) (body rest : Bytes) (more : List Bytes),
      todo = body :: more ∧ s.kernel.unread = header.bytes ++ (body ++ rest)
        ∧ header.validation = VALIDATION_DATA ∧ header.size = body.length
        ∧ msgFraming.Frames rest more := by
  have hstream := h.stream
  -- bytes that are there belong to a message that is still to come
  cases todo with
  | nil =>
      have hlen := hstream.length_eq
      rw [h.unread_eq, List.length_append] at hlen
      have hpos := List.length_pos_of_ne_nil hne
      simp only [List.length_nil, List.flatten_nil] at hlen
      omega
  | cons body more =>
      obtain ⟨header, rest, hunread, hlen, hsize, hrest⟩ := hstream.first
      have hframe := msgFraming_size ⟨header, hlen⟩
      rw [hsize] at hframe
      split at hframe
      · rename_i hvalid
        rw [packetValidation_iff (by decide)] at hvalid
        exact ⟨⟨header, hlen⟩, body, rest, more, rfl, hunread, hvalid,
          (Option.some.inj hframe).symm, hrest⟩
      · cases hframe

/-! ### The loop over the messages -/

theorem recv_eq {s : Net (Stream Addr)} {len : ℕ} {flags : RecvFlags} {r : RecvResult}
    {k : Stream Addr} (h : s.kernel.recv fd len flags = (r, k)) :
    ∃ log, s.recv segmented fd len flags = (r, { s with kernel := k, log := log }) := by
  have hkernel : segmented.recv s.kernel fd len flags = (r, k) := h
  rw [Net.recv, hkernel]
  exact ⟨_, rfl⟩

/-- What was logged in between came in on `fd`. -/
def ComesIn (fd : Fd) (s s' : Net (Stream Addr)) : Prop :=
  ∃ new, s'.log = s.log ++ new ∧ ∀ ev ∈ new, ∃ conn data, ev = .received fd conn data

theorem ComesIn.refl (fd : Fd) (s : Net (Stream Addr)) : ComesIn fd s s :=
  ⟨[], (List.append_nil _).symm, nofun⟩

theorem ComesIn.trans {s s' s'' : Net (Stream Addr)} (h : ComesIn fd s s')
    (h' : ComesIn fd s' s'') : ComesIn fd s s'' := by
  obtain ⟨new, hnew, hin⟩ := h
  obtain ⟨new', hnew', hin'⟩ := h'
  exact ⟨new ++ new', by rw [hnew', hnew, List.append_assoc], List.forall_mem_append.mpr ⟨hin, hin'⟩⟩

theorem comesIn_recv {s s₁ : Net (Stream Addr)} {len : ℕ} {flags : RecvFlags} {r : RecvResult}
    (h : s.recv segmented fd len flags = (r, s₁)) : ComesIn fd s s₁ := by
  cases h
  refine ⟨_, rfl, fun ev hev => ?_⟩
  split at hev
  · cases hev
  · exact ⟨_, _, List.mem_singleton.mp hev⟩
  · cases hev

theorem dst_recv {s s₁ : Net (Stream Addr)} {fd : Fd} {len : ℕ} {flags : RecvFlags}
    {r : RecvResult} (h : s.recv segmented fd len flags = (r, s₁)) :
    s₁.kernel.dst = s.kernel.dst := by
  cases h
  exact (Stream.fds_dst_recv s.kernel fd len flags).2

theorem kernel_write {s s₁ : Net (Stream Addr)} {fd : Fd} {data : Bytes} {r : WriteResult}
    (h : s.write segmented fd data = (r, s₁)) : s₁.kernel = s.kernel := by
  cases h
  rfl

theorem unread_recv {s s₁ : Net (Stream Addr)} {fd : Fd} {len : ℕ} {data : Bytes}
    (hdst : s.kernel.dst = fd) (h : s.recv segmented fd len .dontwait = (.ok data, s₁)) :
    data ++ s₁.kernel.unread = s.kernel.unread := by
  subst hdst
  apply Stream.unread_recv_dontwait
  cases hr : s.kernel.recv s.kernel.dst len .dontwait with
  | mk r k =>
      obtain ⟨log, heq⟩ := recv_eq hr
      rw [heq] at h
      cases h
      rfl

/-- The loop has run out of complete headers, and the bytes that are left pass. -/
inductive Quiet : Net.HeaderExit → Prop
  | empty (header : MsgHeader) : Quiet (.short (.error EAGAIN) header)
  | begun {data : Bytes} {header : MsgHeader} :
      data ≠ [] → packetValidation header data.length = true → Quiet (.short (.ok data) header)

/-- The loop, or a handler, ended with everything handled that is there: if nothing has
arrived since, then there is no complete header. -/
def Drained (fd : Fd) (s : Net (Stream Addr)) : Prop :=
  s.kernel.raised = false → (s.kernel.inbox fd).length < 8

/-- Without a complete header the loop ends, and a beginning of one passes. -/
theorem headerLoop_short {done todo : List Bytes} {s : Net (Stream Addr)} {header : MsgHeader}
    (h : Receiving fd st done todo s) (hshort : (s.kernel.inbox fd).length < 8)
    (hheader : header.validation = VALIDATION_DATA ∨ ¬ Ragged fd s) (fuel : ℕ) :
    ∃ exit s', s.headerLoop segmented cfg (fuel + 1) fd header = some (exit, s') ∧ Quiet exit
      ∧ Receiving fd st done todo s' ∧ Drained fd s' := by
  have hlater := Stream.later_tick s.kernel
  have hdrained : ∀ log, Drained fd { s with kernel := s.kernel.tick, log := log } := by
    intro log hquiet
    show (s.kernel.tick.inbox fd).length < 8
    rw [hlater.inbox hquiet]
    exact hshort
  obtain ⟨log, hpeek⟩ := recv_eq (Stream.recv_peek h.opened 8)
  by_cases hempty : s.kernel.inbox fd = []
  · rw [if_pos hempty] at hpeek
    refine ⟨_, _, ?_, .empty header, h.later hlater log, hdrained log⟩
    rw [Net.headerLoop, hpeek]
  · rw [if_neg hempty, List.take_of_length_le (Nat.le_of_lt hshort)] at hpeek
    obtain ⟨first, body, rest, more, -, hunread, hvalid, -⟩ := h.message hempty
    -- what is there is the beginning of the header of the next message
    have hpref : s.kernel.inbox fd <+: first.bytes := by
      rw [h.unread_eq] at hunread
      refine List.prefix_of_prefix_length_le (List.prefix_append _ s.kernel.segments.flatten) ?_ ?_
      · rw [hunread]
        exact List.prefix_append _ _
      · rw [first.length_bytes]
        exact Nat.le_of_lt hshort
    have hlong : header.validation = VALIDATION_DATA ∨ 4 ≤ (s.kernel.inbox fd).length := by
      rcases hheader with hheader | hheader
      · exact Or.inl hheader
      · have hpos := List.length_pos_of_ne_nil hempty
        exact Or.inr (Nat.le_of_not_lt fun hlt => hheader ⟨hpos, hlt⟩)
    have hpasses : packetValidation (header.recvInto (s.kernel.inbox fd))
        (s.kernel.inbox fd).length = true :=
      packetValidation_of_validation (validation_recvInto hpref hvalid hlong) _
    refine ⟨_, _, ?_, .begun hempty hpasses, h.later hlater log, hdrained log⟩
    rw [Net.headerLoop, hpeek]
    dsimp only
    rw [if_pos (Nat.ne_of_lt hshort)]

/-- The message `m` was taken off the stream of `fd` and put into the queue of the
connection. -/
structure Enqueues (fd : Fd) (st : ChannelStatus) (m : Msg) (s s' : Net (Stream Addr)) : Prop where
  fdToChannelStatus : s'.fdToChannelStatus = s.fdToChannelStatus
  uninterceptedFd : s'.uninterceptedFd = s.uninterceptedFd
  heap : s'.heap = s.heap
  network : s'.network
    = s.network.insert st.channel ((s.network.get st.channel).getD [] ++ [m])
  fds : s'.kernel.fds = s.kernel.fds
  dst : s'.kernel.dst = s.kernel.dst
  segments : s'.kernel.segments <:+ s.kernel.segments
  unread : s.kernel.unread = m.content ++ s'.kernel.unread
  log : ComesIn fd s s'

/-- A complete header at the beginning of the queue, and on the stream the body it
announces: the loop takes the message over and goes on. -/
theorem headerLoop_takes (hindirect : cfg.isDirect = false) (hconnected : st.disconnected = false)
    {s : Net (Stream Addr)} {next : MsgHeader} {body rest : Bytes}
    (hst : s.fdToChannelStatus.get fd = some st) (hopened : fd ∈ s.kernel.fds)
    (hdst : s.kernel.dst = fd) (hlong : 8 ≤ (s.kernel.inbox fd).length)
    (hunread : s.kernel.unread = next.bytes ++ (body ++ rest))
    (hvalid : next.validation = VALIDATION_DATA) (hsize : next.size = body.length) :
    ∃ s₁, Enqueues fd st ⟨st.fd, next.bytes ++ body, next.size⟩ s s₁
      ∧ ∀ fuel header, s.headerLoop segmented cfg (fuel + 1) fd header
          = s₁.headerLoop segmented cfg fuel fd next := by
  have hne : s.kernel.inbox fd ≠ [] := List.ne_nil_of_length_pos (by omega)
  -- the peek gives the header
  have hdata : (s.kernel.inbox fd).take 8 = next.bytes := by
    have htake := congrArg (List.take 8) hunread
    rw [Stream.unread, hdst, List.take_append_of_le_length hlong,
      List.take_left' next.length_bytes] at htake
    exact htake
  obtain ⟨log, hpeek⟩ := recv_eq (Stream.recv_peek hopened 8)
  rw [if_neg hne, hdata] at hpeek
  have hlater := Stream.later_tick s.kernel
  have hsegments := Stream.segments_tick s.kernel
  have hin := comesIn_recv hpeek
  generalize s.kernel.tick = k₀ at hpeek hlater hsegments hin
  -- the second call gives the header and the body
  have hunread₀ : k₀.unread = next.bytes ++ (body ++ rest) := hlater.unread.trans hunread
  have hdst₀ : k₀.dst = fd := hlater.dst.trans hdst
  have hopened₀ : k₀.dst ∈ k₀.fds := by
    rw [hdst₀, hlater.fds]
    exact hopened
  have hlen : 8 + next.size ≤ k₀.unread.length := by
    rw [hunread₀, List.length_append, List.length_append, next.length_bytes, hsize]
    omega
  have hframe : (next.bytes ++ body).length = 8 + next.size := by
    rw [List.length_append, next.length_bytes, hsize]
  have hshrinks := Stream.segments_recv k₀ k₀.dst (8 + next.size) .waitall
  obtain ⟨k, hrecv, hfds, hdst₁, hbehind⟩ :=
    Stream.recv_waitall hopened₀ (by omega : 0 < 8 + next.size) hlen
  rw [hrecv] at hshrinks
  rw [hdst₀, hunread₀, ← List.append_assoc, List.take_left' hframe] at hrecv
  rw [hunread₀, ← List.append_assoc, List.drop_left' hframe] at hbehind
  obtain ⟨log₁, hcontent⟩ :=
    recv_eq (s := { s with kernel := k₀, log := log }) hrecv
  have hlog := hin.trans (comesIn_recv hcontent)
  refine ⟨{ s with
    kernel := k
    log := log₁
    network := s.network.insert st.channel ((s.network.get st.channel).getD []
      ++ [⟨st.fd, next.bytes ++ body, next.size⟩]) }, ?_, fun fuel header => ?_⟩
  · refine ⟨rfl, rfl, rfl, rfl, hfds.trans hlater.fds, hdst₁.trans hlater.dst,
      hshrinks.trans hsegments, ?_, hlog⟩
    show s.kernel.unread = next.bytes ++ body ++ k.unread
    rw [hbehind, hunread, List.append_assoc]
  · have hmsg : Net.TakesMessage segmented s { s with kernel := k₀, log := log }
        { s with kernel := k, log := log₁ } fd next st ⟨st.fd, next.bytes ++ body, next.size⟩ :=
      ⟨hpeek, packetValidation_of_validation hvalid 8, hst, hcontent, hframe, rfl, rfl⟩
    rw [hmsg.headerLoop, Net.enqueueMsg, hconnected, hindirect]
    rfl

/-- With a complete header the loop takes the message over and goes on. -/
theorem headerLoop_message (hindirect : cfg.isDirect = false) (hconnected : st.disconnected = false)
    {done todo : List Bytes} {s : Net (Stream Addr)} (h : Receiving fd st done todo s)
    (hlong : 8 ≤ (s.kernel.inbox fd).length) :
    ∃ (body : Bytes) (more : List Bytes) (next : MsgHeader) (s₁ : Net (Stream Addr)),
      todo = body :: more ∧ next.validation = VALIDATION_DATA
        ∧ Receiving fd st (done ++ [body]) more s₁
        ∧ ∀ fuel header, s.headerLoop segmented cfg (fuel + 1) fd header
            = s₁.headerLoop segmented cfg fuel fd next := by
  have hne : s.kernel.inbox fd ≠ [] := List.ne_nil_of_length_pos (by omega)
  obtain ⟨next, body, rest, more, rfl, hunread, hvalid, hsize, hrest⟩ := h.message hne
  obtain ⟨s₁, htook, hloop⟩ :=
    headerLoop_takes hindirect hconnected h.entry h.opened h.dst hlong hunread hvalid hsize
  -- what is left in the stream is what was behind the message
  have hbehind : s₁.kernel.unread = rest := by
    have hsplit := htook.unread
    rw [hunread, ← List.append_assoc] at hsplit
    exact (List.append_cancel_left hsplit).symm
  refine ⟨body, more, next, s₁, rfl, hvalid, ⟨?_, ?_, ?_, htook.dst.trans h.dst, ?_, ?_⟩, hloop⟩
  · rw [htook.fdToChannelStatus]
    exact h.entry
  · rw [htook.uninterceptedFd]
    exact h.untagged
  · rw [htook.fds]
    exact h.opened
  · have hbody : Msg.body ⟨st.fd, next.bytes ++ body, next.size⟩ = body :=
      List.drop_left' next.length_bytes
    rw [htook.network, FinFn.get_insert, if_pos rfl, Option.getD_some, List.map_append,
      List.map_singleton, hbody, h.queue]
  · rw [hbehind]
    exact hrest

/-- The loop on well-formed messages ends, with enough fuel for them, and it takes over
each message that it finds complete or that it waits for. -/
theorem headerLoop_receiving (hindirect : cfg.isDirect = false)
    (hconnected : st.disconnected = false) (fuel : ℕ) :
    ∀ {done todo : List Bytes} {s : Net (Stream Addr)} (header : MsgHeader),
      Receiving fd st done todo s → (header.validation = VALIDATION_DATA ∨ ¬ Ragged fd s) →
      (todo.length < fuel → (s.headerLoop segmented cfg fuel fd header).isSome = true)
        ∧ ∀ {exit s'}, s.headerLoop segmented cfg fuel fd header = some (exit, s') →
          Quiet exit ∧ Drained fd s' ∧
            ∃ now later, now ++ later = done ++ todo ∧ Receiving fd st now later s' := by
  -- a pass either finds less than a header, or takes a message off `todo`
  induction fuel with
  | zero =>
      intro done todo s header _ _
      exact ⟨fun hlt => absurd hlt (Nat.not_lt_zero _), fun heq => by cases heq⟩
  | succ fuel ih =>
      intro done todo s header h hheader
      rcases Nat.lt_or_ge (s.kernel.inbox fd).length 8 with hshort | hlong
      · obtain ⟨exit, s', hloop, hquiet, h', hdrained⟩ := headerLoop_short h hshort hheader fuel
        rw [hloop]
        refine ⟨fun _ => rfl, fun heq => ?_⟩
        cases heq
        exact ⟨hquiet, hdrained, done, todo, rfl, h'⟩
      · obtain ⟨body, more, next, s₁, rfl, hvalid, h₁, hloop⟩ :=
          headerLoop_message hindirect hconnected h hlong
        rw [hloop fuel header]
        obtain ⟨hends, hresult⟩ := ih next h₁ (Or.inl hvalid)
        refine ⟨fun hlt => hends (Nat.lt_of_succ_lt_succ hlt), fun heq => ?_⟩
        obtain ⟨hquiet, hdrained, now, later, hsplit, h'⟩ := hresult heq
        refine ⟨hquiet, hdrained, now, later, ?_, h'⟩
        rw [hsplit, List.append_assoc, List.singleton_append]

/-! ### One event -/

theorem Receiving.takeEvent {done todo : List Bytes} {s : Net (Stream Addr)}
    (h : Receiving fd st done todo s) : Receiving fd st done todo s.takeEvent :=
  ⟨h.entry, h.untagged, h.opened, h.dst, h.queue, h.stream⟩

/-- `do_receive` where the validation of a beginning succeeds. -/
theorem doReceive_receiving (hindirect : cfg.isDirect = false)
    (hconnected : st.disconnected = false) {done todo : List Bytes} {s : Net (Stream Addr)}
    (h : Receiving fd st done todo s) (hsmooth : ¬ Ragged fd s) :
    (∃ fuel s', s.doReceive segmented cfg fuel fd = some s')
      ∧ ∀ {fuel s'}, s.doReceive segmented cfg fuel fd = some s' →
        Drained fd s' ∧ ∃ now later, now ++ later = done ++ todo ∧ Receiving fd st now later s' := by
  have hloop := fun fuel => headerLoop_receiving hindirect hconnected fuel .zero h (Or.inr hsmooth)
  -- `do_receive` returns where the loop ends with nothing, or with a beginning that passes
  have hreceive : ∀ fuel exit s', s.headerLoop segmented cfg fuel fd .zero = some (exit, s') →
      Quiet exit → s.doReceive segmented cfg fuel fd = some s' := by
    intro fuel exit s' heq hquiet
    rw [Net.doReceive, h.entry]
    dsimp only
    rw [Net.receivePhase, if_neg h.untagged, Net.receiveIntercepted, heq]
    cases hquiet with
    | empty header => rfl
    | @begun data header hne hpasses =>
        cases data with
        | nil => exact absurd rfl hne
        | cons b bs =>
            dsimp only
            rw [hpasses]
            rfl
  constructor
  · obtain ⟨hends, hresult⟩ := hloop (todo.length + 1)
    obtain ⟨⟨exit, s'⟩, heq⟩ := Option.isSome_iff_exists.mp (hends (Nat.lt_succ_self _))
    exact ⟨_, s', hreceive _ exit s' heq (hresult heq).1⟩
  · intro fuel s' heq
    obtain ⟨-, hresult⟩ := hloop fuel
    cases hexit : s.headerLoop segmented cfg fuel fd .zero with
    | none =>
        rw [Net.doReceive, h.entry] at heq
        dsimp only at heq
        rw [Net.receivePhase, if_neg h.untagged, Net.receiveIntercepted, hexit] at heq
        cases heq
    | some ending =>
        obtain ⟨hquiet, hrest⟩ := hresult hexit
        rw [hreceive fuel ending.1 ending.2 hexit hquiet] at heq
        cases heq
        exact hrest

/-- The connection is lost to interception: it was closed, or the descriptor is tagged. -/
def Lost (fd : Fd) (s : Net (Stream Addr)) : Prop :=
  s.fdToChannelStatus.get fd = none ∨ fd ∈ s.uninterceptedFd ∧ s.kernel.dst = fd

/-- Every piece of a pass-through leaves less to receive, so it ends. -/
theorem transferUnintercepted_ends (outFd : Fd) (fuel : ℕ) :
    ∀ {s : Net (Stream Addr)}, s.kernel.dst = fd → s.kernel.unread.length < fuel →
      ∃ s', s.transferUnintercepted segmented fuel outFd fd = some s' := by
  induction fuel with
  | zero =>
      intro s _ hlt
      exact absurd hlt (Nat.not_lt_zero _)
  | succ fuel ih =>
      intro s hdst hlt
      rw [Net.transferUnintercepted]
      cases hr : s.recv segmented fd 1460 .dontwait with
      | mk r s₁ =>
          cases r with
          | error e => exact ⟨_, rfl⟩
          | ok data =>
              cases data with
              | nil => exact ⟨_, rfl⟩
              | cons b bs =>
                  dsimp only
                  cases hw : s₁.write segmented outFd (b :: bs) with
                  | mk r₂ s₂ =>
                      cases r₂ with
                      | error e => exact ⟨_, rfl⟩
                      | ok n =>
                          -- a piece has at least one byte, and it is gone from the stream
                          have hdst₁ := dst_recv hr
                          have hkernel : s₂.kernel = s₁.kernel := kernel_write hw
                          have hsplit := unread_recv hdst hr
                          apply ih
                          · rw [hkernel, hdst₁, hdst]
                          · rw [← hsplit, List.length_append, List.length_cons] at hlt
                            rw [hkernel]
                            omega

/-- Nothing takes the tag off in a pass-through but closing. -/
theorem lost_transfers {s s' : Net (Stream Addr)} {outFd : Fd}
    (h : Net.Transfers segmented outFd fd s s') (htag : fd ∈ s.uninterceptedFd)
    (hdst : s.kernel.dst = fd) : Lost fd s' := by
  induction h with
  | ended hr =>
      rw [← (onlyIO_recv hr).uninterceptedFd] at htag
      exact Or.inr ⟨htag, (dst_recv hr).trans hdst⟩
  | closed hr => exact Or.inl (get_closeConnection_self _ fd)
  | broken hr hw => exact Or.inl (get_closeConnection_self _ fd)
  | passed hr hw _ ih =>
      apply ih
      · rw [(onlyIO_write hw).uninterceptedFd, (onlyIO_recv hr).uninterceptedFd]
        exact htag
      · rw [kernel_write hw, dst_recv hr, hdst]

theorem lost_transferUnintercepted {s s' : Net (Stream Addr)} {outFd : Fd} {fuel : ℕ}
    (h : s.transferUnintercepted segmented fuel outFd fd = some s') (htag : fd ∈ s.uninterceptedFd)
    (hdst : s.kernel.dst = fd) : Lost fd s' :=
  lost_transfers (transferUnintercepted_transfers fuel h) htag hdst

/-- `do_receive` on a connection that is lost. -/
theorem doReceive_lost {s : Net (Stream Addr)} (h : Lost fd s) :
    (∃ fuel s', s.doReceive segmented cfg fuel fd = some s')
      ∧ ∀ {fuel s'}, s.doReceive segmented cfg fuel fd = some s' → Lost fd s' := by
  cases hentry : s.fdToChannelStatus.get fd with
  | none =>
      have hreceive : ∀ fuel, s.doReceive segmented cfg fuel fd
          = some (s.closeConnection segmented fd false) := by
        intro fuel
        rw [Net.doReceive, hentry]
      refine ⟨⟨0, _, hreceive 0⟩, fun heq => ?_⟩
      rw [hreceive] at heq
      cases heq
      exact Or.inl (get_closeConnection_self s fd)
  | some cf =>
      rcases h with hgone | ⟨htag, hdst⟩
      · rw [hgone] at hentry
        cases hentry
      -- a tagged descriptor goes to the transfer at once
      · have hreceive : ∀ fuel, s.doReceive segmented cfg fuel fd
            = s.transferUnintercepted segmented fuel (s.heap cf.fd) fd := by
          intro fuel
          rw [Net.doReceive, hentry]
          dsimp only
          rw [Net.receivePhase, if_pos htag]
          dsimp only
          rw [hentry]
        constructor
        · obtain ⟨s', hs'⟩ := transferUnintercepted_ends (s.heap cf.fd) _ hdst (Nat.lt_succ_self _)
          exact ⟨_, s', (hreceive _).trans hs'⟩
        · intro fuel s' heq
          rw [hreceive] at heq
          exact lost_transferUnintercepted heq htag hdst

/-- `do_receive` that begins with 1 to 3 bytes. -/
theorem doReceive_ragged {done todo : List Bytes} {s : Net (Stream Addr)}
    (h : Receiving fd st done todo s) (hragged : Ragged fd s) :
    (∃ fuel s', s.doReceive segmented cfg fuel fd = some s')
      ∧ ∀ {fuel s'}, s.doReceive segmented cfg fuel fd = some s' → Lost fd s' := by
  have hlater := Stream.later_tick s.kernel
  obtain ⟨hpos, hlt⟩ := hragged
  have hne : s.kernel.inbox fd ≠ [] := List.ne_nil_of_length_pos hpos
  obtain ⟨log, hpeek⟩ := recv_eq (Stream.recv_peek h.opened 8)
  rw [if_neg hne, List.take_of_length_le (by omega)] at hpeek
  have h₁ := h.later hlater log
  generalize ({ s with kernel := s.kernel.tick, log := log } : Net (Stream Addr)) = s₁ at hpeek h₁
  -- fewer than 4 bytes leave the zeros of the buffer in the magic
  have hfails : packetValidation (MsgHeader.zero.recvInto (s.kernel.inbox fd))
      (s.kernel.inbox fd).length = false := packetValidation_zero hne hlt
  -- so the first pass of the loop ends in the pass-through, whatever the fuel
  have hreceive : ∀ fuel, s.doReceive segmented cfg (fuel + 1) fd
      = (s₁.setUnintercepted fd).transferUnintercepted segmented (fuel + 1) (s₁.heap st.fd) fd := by
    intro fuel
    rw [Net.doReceive, h.entry]
    dsimp only
    rw [Net.receivePhase, if_neg h.untagged, Net.receiveIntercepted, Net.headerLoop, hpeek]
    dsimp only
    rw [if_pos (by omega)]
    generalize s.kernel.inbox fd = data at hne hfails
    cases data with
    | nil => exact absurd rfl hne
    | cons b bs =>
        dsimp only
        have hentry : (s₁.setUnintercepted fd).fdToChannelStatus.get fd = some st := h₁.entry
        rw [hfails, Bool.not_false, if_pos rfl]
        dsimp only
        rw [hentry]
        rfl
  have htag : fd ∈ (s₁.setUnintercepted fd).uninterceptedFd := Finset.mem_insert_self _ _
  -- enough fuel for the bytes that wait, and one more to see their end
  constructor
  · obtain ⟨s', hs'⟩ := transferUnintercepted_ends (s := s₁.setUnintercepted fd) (s₁.heap st.fd) _
      h₁.dst (Nat.lt_succ_self _)
    exact ⟨_, s', (hreceive _).trans hs'⟩
  · intro fuel s' heq
    cases fuel with
    | zero =>
        rw [Net.doReceive, h.entry] at heq
        dsimp only at heq
        rw [Net.receivePhase, if_neg h.untagged] at heq
        cases heq
    | succ fuel =>
        rw [hreceive] at heq
        exact lost_transferUnintercepted heq htag h₁.dst

/-! ### Runs -/

/-- No event began with 1 to 3 bytes in the receive queue. -/
def Smooth (fd : Fd) (tr : List (Step (Net (Stream Addr)) Delivery)) : Prop :=
  ∀ t ∈ tr, t.act = .event → ¬ Ragged fd t.src

theorem smooth_snoc {tr : List (Step (Net (Stream Addr)) Delivery)}
    {t : Step (Net (Stream Addr)) Delivery} :
    Smooth fd (tr ++ [t]) ↔ Smooth fd tr ∧ (t.act = .event → ¬ Ragged fd t.src) := by
  simp only [Smooth, List.forall_mem_append, List.forall_mem_singleton]

/-- How far a run has come: messages are being received, or the connection is lost. -/
inductive Course (fd : Fd) (st : ChannelStatus) (payloads : List Bytes)
    (tr : List (Step (Net (Stream Addr)) Delivery)) (s : Net (Stream Addr)) : Prop
  | receiving {done todo : List Bytes} :
      Smooth fd tr → (∀ t ∈ tr, fd ∉ t.dst.uninterceptedFd) → done ++ todo = payloads →
      Receiving fd st done todo s → Drained fd s → Course fd st payloads tr s
  | lost : ¬ Smooth fd tr → Lost fd s → Course fd st payloads tr s

/-- What is known after a run. -/
structure Underway (cfg : ConfigFile) (fd : Fd) (st : ChannelStatus) (payloads : List Bytes)
    (tr : List (Step (Net (Stream Addr)) Delivery)) (s : Net (Stream Addr)) : Prop where
  indirect : cfg.isDirect = false
  connected : st.disconnected = false
  notClient : s.fdToClient.get fd = none
  course : Course fd st payloads tr s

section

variable {payloads : List Bytes} {tr : List (Step (Net (Stream Addr)) Delivery)}
  {s s' : Net (Stream Addr)}

theorem readEvent_eq (hclient : s.fdToClient.get fd = none) (fuel : ℕ) :
    s.readEvent segmented cfg fuel fd = s.doReceive segmented cfg fuel fd := by
  rw [Net.readEvent, hclient]

theorem Course.arrive (h : Course fd st payloads tr s) (hmore : s.kernel.segments ≠ []) :
    Course fd st payloads (tr ++ [⟨s, .arrive, { s with kernel := s.kernel.arrive }⟩])
      { s with kernel := s.kernel.arrive } := by
  have hlater := Stream.later_arrive s.kernel
  cases h with
  | receiving hsmooth huntagged hsplit hreceiving _ =>
      refine .receiving (smooth_snoc.mpr ⟨hsmooth, fun hact => by cases hact⟩) ?_ hsplit
        (hreceiving.later hlater s.log) ?_
      · rw [List.forall_mem_append]
        exact ⟨huntagged, List.forall_mem_singleton.mpr hreceiving.untagged⟩
      -- an event is raised now, so the loop is not through with the stream
      · intro hquiet
        rw [Stream.raised_arrive hmore] at hquiet
        cases hquiet
  | lost hragged hlost =>
      refine .lost (fun hsmooth => hragged (smooth_snoc.mp hsmooth).1) ?_
      rcases hlost with hgone | ⟨htag, hdst⟩
      · exact Or.inl hgone
      · exact Or.inr ⟨htag, hlater.dst.trans hdst⟩

theorem Lost.takeEvent (h : Lost fd s) : Lost fd s.takeEvent := h

theorem Underway.event (h : Underway cfg fd st payloads tr s) {fuel : ℕ}
    (hevent : s.takeEvent.doReceive segmented cfg fuel fd = some s') :
    Course fd st payloads (tr ++ [⟨s, .event, s'⟩]) s' := by
  cases h.course with
  | receiving hsmooth huntagged hsplit hreceiving _ =>
      -- a beginning of one to three bytes fails the validation, and the connection is lost
      by_cases hragged : Ragged fd s
      · refine .lost (fun hsmooth' => (smooth_snoc.mp hsmooth').2 rfl hragged) ?_
        exact (doReceive_ragged hreceiving.takeEvent hragged).2 hevent
      · obtain ⟨hdrained, now, later, hsplit', hreceiving'⟩ :=
          (doReceive_receiving h.indirect h.connected hreceiving.takeEvent hragged).2 hevent
        refine .receiving (smooth_snoc.mpr ⟨hsmooth, fun _ => hragged⟩) ?_ (hsplit'.trans hsplit)
          hreceiving' hdrained
        rw [List.forall_mem_append]
        exact ⟨huntagged, List.forall_mem_singleton.mpr hreceiving'.untagged⟩
  | lost hragged hlost =>
      refine .lost (fun hsmooth => hragged (smooth_snoc.mp hsmooth).1) ?_
      exact (doReceive_lost hlost.takeEvent).2 hevent

/-- `do_receive` returns. -/
theorem Underway.returns (h : Underway cfg fd st payloads tr s) :
    ∃ fuel s', s.takeEvent.readEvent segmented cfg fuel fd = some s' := by
  have hreturns : ∃ fuel s', s.takeEvent.doReceive segmented cfg fuel fd = some s' := by
    cases h.course with
    | receiving _ _ _ hreceiving _ =>
        by_cases hragged : Ragged fd s
        · exact (doReceive_ragged hreceiving.takeEvent hragged).1
        · exact (doReceive_receiving h.indirect h.connected hreceiving.takeEvent hragged).1
    | lost _ hlost => exact (doReceive_lost hlost.takeEvent).1
  obtain ⟨fuel, s', hs'⟩ := hreturns
  have hnotClient : s.takeEvent.fdToClient.get fd = none := h.notClient
  exact ⟨fuel, s', (readEvent_eq hnotClient fuel).trans hs'⟩

theorem Underway.init (h : AboutToReceive cfg fd st payloads s) :
    Underway cfg fd st payloads [] s where
  indirect := h.indirect
  connected := h.connected
  notClient := h.notClient
  course := by
    have hunread : s.kernel.unread = s.kernel.segments.flatten := by
      rw [Stream.unread, h.dst, h.inbox, List.nil_append]
    have hreceiving : Receiving fd st [] payloads s :=
      ⟨h.entry, h.untagged, h.opened, h.dst, by rw [h.queue, List.map_nil], hunread ▸ h.stream⟩
    refine .receiving (List.forall_mem_nil _) (List.forall_mem_nil _) rfl hreceiving fun _ => ?_
    rw [h.inbox]
    decide

theorem Underway.step {a : Delivery} (h : Underway cfg fd st payloads tr s)
    (hstep : (receiver cfg fd st payloads).step s a s') :
    Underway cfg fd st payloads (tr ++ [⟨s, a, s'⟩]) s' := by
  cases a with
  | arrive =>
      obtain ⟨hmore, rfl⟩ := hstep
      exact ⟨h.indirect, h.connected, h.notClient, h.course.arrive hmore⟩
  | event =>
      obtain ⟨-, fuel, hread⟩ := hstep
      have hnotClient : s.takeEvent.fdToClient.get fd = none := h.notClient
      rw [readEvent_eq hnotClient] at hread
      have hdirect : ¬ cfg.isDirect = true := by simp [h.indirect]
      have hpath : Path segmented { Scope.plain with raw := fun _ => True } s.takeEvent s' :=
        Path.doReceive (fun hf => hf) (fun hd => absurd hd hdirect) hread hnotClient fun _ => trivial
      have hclients := Path.fdToClient (fun hf => hf) hpath
      refine ⟨h.indirect, h.connected, ?_, h.event hread⟩
      rw [hclients]
      exact hnotClient

theorem Underway.of_run (h : (receiver cfg fd st payloads).Run tr s) :
    Underway cfg fd st payloads tr s :=
  h.invariant (P := Underway cfg fd st payloads) (fun _ => .init) fun _ _ _ _ _ hu hs => hu.step hs

/-- Every event is handled. And when all segments have arrived and their events are
handled, then the messages were received, in order and with nothing tagged or closed,
if and only if no event began with 1 to 3 bytes in the receive queue. -/
theorem segments_received_iff (h : (receiver cfg fd st payloads).Run tr s) :
    (s.kernel.raised = true → ∃ s', (receiver cfg fd st payloads).step s .event s')
      ∧ (s.kernel.segments = [] → s.kernel.raised = false →
        (Received fd st payloads tr s ↔ Smooth fd tr)) := by
  have hu := Underway.of_run h
  constructor
  · intro hraised
    obtain ⟨fuel, s', hs'⟩ := hu.returns
    exact ⟨s', hraised, fuel, hs'⟩
  · intro hsegments hquiet
    cases hu.course with
    | @receiving done todo hsmooth huntagged hsplit hreceiving hdrained =>
        -- what is left of the stream is shorter than a header
        have hnil : todo = [] := by
          have hlen := hreceiving.stream.length_eq
          have hshort := hdrained hquiet
          rw [hreceiving.unread_eq, hsegments, List.flatten_nil, List.append_nil] at hlen
          have hheader : msgFraming.headerLen = 8 := rfl
          rw [hheader] at hlen
          exact List.length_eq_zero_iff.mp (by omega)
        rw [hnil, List.append_nil] at hsplit
        have hreceived : Received fd st payloads tr s :=
          ⟨huntagged, hreceiving.entry, hreceiving.opened, hreceiving.queue.trans hsplit⟩
        exact iff_of_true hreceived hsmooth
    | lost hragged hlost =>
        refine iff_of_false (fun hreceived => ?_) hragged
        rcases hlost with hgone | ⟨htag, -⟩
        · rw [hreceived.entry] at hgone
          cases hgone
        · rcases List.eq_nil_or_concat tr with rfl | ⟨before, t, rfl⟩
          · exact hragged (List.forall_mem_nil _)
          · rw [List.concat_eq_append] at h hreceived
            obtain ⟨-, -, rfl⟩ := h.last
            exact hreceived.untagged t (by simp) htag

end

/-! ### One message in two segments -/

namespace Demo

/-- A connection from `n1` to `n2`; `n1` is going to send `segments`. -/
def connection : ChannelStatus := ⟨⟨n1, n2⟩, 0, 1, false⟩

def waiting (segments : List Bytes) : Net (Stream Addr) where
  kernel := ⟨{1, 2}, [], none, fun _ => [], 1, segments, false, []⟩
  fdToChannelStatus := (FinFn.single 1 connection).insert 2 ⟨⟨n2, n1⟩, 1, 0, false⟩
  network := .empty
  clientToFd := .empty
  fdToClient := .empty
  uninterceptedFd := ∅
  heap cell := if cell = 0 then 1 else 2
  nextCell := 2
  terminated := false
  log := []

theorem aboutToReceive_waiting {segments : List Bytes}
    (h : msgFraming.parse segments.flatten = some [[65]]) :
    AboutToReceive config 1 connection [[65]] (waiting segments) :=
  ⟨by decide, rfl, rfl, Finset.notMem_empty 1, rfl, rfl, Finset.mem_insert_self 1 {2}, rfl, rfl, rfl,
    Framing.parse_eq_some_iff.mp h⟩

/-- A segment arrives. -/
def arrived (s : Net (Stream Addr)) : Net (Stream Addr) := { s with kernel := s.kernel.arrive }

/-- Its event is handled. -/
def received (s : Net (Stream Addr)) : Net (Stream Addr) :=
  (s.takeEvent.readEvent segmented config 9 1).getD s

theorem run_arrived {payloads : List Bytes} {tr : List (Step (Net (Stream Addr)) Delivery)}
    {s : Net (Stream Addr)} (h : (receiver config 1 connection payloads).Run tr s)
    (hmore : s.kernel.segments ≠ []) :
    (receiver config 1 connection payloads).Run (tr ++ [⟨s, .arrive, arrived s⟩]) (arrived s) :=
  h.snoc ⟨hmore, rfl⟩

theorem run_received {payloads : List Bytes} {tr : List (Step (Net (Stream Addr)) Delivery)}
    {s : Net (Stream Addr)} (h : (receiver config 1 connection payloads).Run tr s)
    (hraised : s.kernel.raised = true)
    (hsome : (s.takeEvent.readEvent segmented config 9 1).isSome = true) :
    (receiver config 1 connection payloads).Run (tr ++ [⟨s, .event, received s⟩]) (received s) := by
  obtain ⟨s', hs'⟩ := Option.isSome_iff_exists.mp hsome
  have heq : received s = s' := by rw [received, hs', Option.getD_some]
  rw [heq]
  exact h.snoc ⟨hraised, 9, hs'⟩

/-- Cut in the middle of the header. -/
def halves : Net (Stream Addr) := waiting [[0xde, 0xad, 0xbe, 0xef], [0, 0, 0, 1, 65]]

theorem segments_received_iff_halves :
    ∃ tr, (receiver config 1 connection [[65]]).Run tr
        (received (arrived (received (arrived halves))))
      ∧ (Received 1 connection [[65]] tr (received (arrived (received (arrived halves))))
        ↔ Smooth 1 tr) := by
  have hstart : (receiver config 1 connection [[65]]).Run [] halves :=
    .nil (aboutToReceive_waiting (by decide))
  have hfirst := run_received (run_arrived hstart (by decide)) (by decide) (by decide)
  have hsecond := run_received (run_arrived hfirst (by decide)) (by decide) (by decide)
  exact ⟨_, hsecond, (segments_received_iff hsecond).2 (by decide) (by decide)⟩

/-- Cut behind the first byte. -/
def torn : Net (Stream Addr) := waiting [[0xde], [0xad, 0xbe, 0xef, 0, 0, 0, 1, 65]]

/-- The first byte alone is handled as an unintercepted stream, and all the rest with it. -/
theorem segments_received_fails :
    ¬ ∀ tr s, (receiver config 1 connection [[65]]).Run tr s → s.kernel.segments = [] →
      s.kernel.raised = false → Received 1 connection [[65]] tr s := by
  intro hall
  have hstart : (receiver config 1 connection [[65]]).Run [] torn :=
    .nil (aboutToReceive_waiting (by decide))
  have hfirst := run_received (run_arrived hstart (by decide)) (by decide) (by decide)
  have hsecond := run_received (run_arrived hfirst (by decide)) (by decide) (by decide)
  have hreceived := hall _ _ hsecond (by decide) (by decide)
  have htagged : 1 ∈ (received (arrived (received (arrived torn)))).uninterceptedFd := by decide
  exact hreceived.untagged _ (List.mem_append_right _ (List.mem_singleton_self _)) htagged

end Demo

end Tmet.Tproxy
