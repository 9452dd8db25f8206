import Tmet.Proofs.Mysyscall.SendPath
import Tmet.Proofs.Tproxy.Receiver
import Tmet.Proofs.Tproxy.Writing

/-!
# `Tmet.Proofs.FrameCodec`: from the interposer to the proxy

Both ends of an intercepted connection. On one side are calls of `sendto` that take
place in full, and each puts a frame on the wire (`wire_execAll`). On the other side is
one call of `do_receive`, with everything that was sent in the receive queue, and behind
it bytes `u` that are no frame.

The loop over the messages takes one frame after the other (`headerLoop_frames`, by
induction on the payloads). It ends with an empty queue or with a header that is not
valid. In the second case the descriptor is tagged, and what is left goes to the peer,
1460 bytes at a time (`transferUnintercepted_buffered`). `frame_codec` puts the two
programs together.
-/

set_option autoImplicit false

namespace Tmet

open Tmet.Lib Tmet.Posix Tmet.Tproxy Tmet.Mysyscall

variable {cfg : ConfigFile} {fd : Fd} {st : ChannelStatus}

/-! ### The sender -/

/-- The frame of a payload: the header of `hack`, and the payload. -/
def encode (payload : Bytes) : Bytes := hackedSendtoHeader payload.length ++ payload

/-- A call of `sendto` on a concerned socket, or to a concerned address. Both real sends
take all that they are offered. -/
structure CompleteSend (fd : Fd) (p : Proc) (c : SendCall) : Prop where
  fn : ∃ dest, c.fn = .sendto dest ∧ TakesHeader p fd dest
  header : ∃ n, c.header = .accepted n ∧ 8 ≤ n
  body : ∃ n, c.body = .accepted n ∧ c.buf.length ≤ n

theorem CompleteSend.of_sameSetup {p p' : Proc} {c : SendCall} (h : CompleteSend fd p c)
    (hs : Proc.SameSetup p p') : CompleteSend fd p' c where
  fn := by
    obtain ⟨dest, hfn, hdest⟩ := h.fn
    exact ⟨dest, hfn, hdest.of_sameSetup hs⟩
  header := h.header
  body := h.body

/-- One call puts the frame of its buffer on the wire. -/
theorem CompleteSend.exec {p : Proc} {c : SendCall} (h : CompleteSend fd p c)
    (henabled : p.checkIntercept .sysSendto = true) :
    (c.exec fd p).2.wire fd = p.wire fd ++ encode c.buf ∧ Proc.SameSetup p (c.exec fd p).2 := by
  obtain ⟨dest, hfn, hdest⟩ := h.fn
  obtain ⟨n, hheader, hn⟩ := h.header
  obtain ⟨m, hbody, hm⟩ := h.body
  have hsent := sendto_sent henabled c hdest
  have hexec : c.exec fd p = Mysyscall.sendto p fd c.buf dest c.header c.body := by
    rw [SendCall.exec, hfn]
  -- the kernel takes the header as a whole, and the body too
  have hheaderSent : c.headerSent = hackedSendtoHeader c.buf.length := by
    rw [SendCall.headerSent, hheader, SendOutcome.taken, List.take_of_length_le]
    rw [length_hackedSendtoHeader]
    omega
  have hbodySent : c.bodySent = c.buf := by
    rw [SendCall.bodySent, hheader]
    dsimp only
    rw [hbody, SendOutcome.taken, List.take_of_length_le]
    omega
  have hwire := hsent.wire
  rw [hheaderSent, hbodySent] at hwire
  rw [hexec]
  exact ⟨hwire, hsent.setup⟩

/-- The calls put one frame after the other on the wire. -/
theorem wire_execAll (cs : List SendCall) :
    ∀ {p : Proc}, p.checkIntercept .sysSendto = true → (∀ c ∈ cs, CompleteSend fd p c) →
      (execAll fd cs p).2.wire fd = p.wire fd ++ (cs.map SendCall.buf).flatMap encode := by
  induction cs with
  | nil =>
      intro p _ _
      exact (List.append_nil _).symm
  | cons c cs ih =>
      intro p henabled hall
      obtain ⟨hwire, hsetup⟩ := (hall c List.mem_cons_self).exec henabled
      have hrest := ih ((hsetup.checkIntercept .sysSendto).trans henabled) fun c' hc' =>
        (hall c' (List.mem_cons_of_mem c hc')).of_sameSetup hsetup
      show (execAll fd cs (c.exec fd p).2).2.wire fd = _
      rw [hrest, hwire, List.map_cons, List.flatMap_cons, List.append_assoc]

/-! ### A stream that has come in -/

/-- All that the stream has to give is in the receive queue. -/
structure Buffered (fd : Fd) (w : Bytes) (k : Stream Addr) : Prop where
  opened : fd ∈ k.fds
  dst : k.dst = fd
  segments : k.segments = []
  inbox : k.inbox fd = w

theorem Buffered.unread {w : Bytes} {k : Stream Addr} (h : Buffered fd w k) : k.unread = w := by
  rw [Stream.unread, h.segments, h.dst, h.inbox, List.flatten_nil, List.append_nil]

theorem Buffered.step {w w' : Bytes} {k k' : Stream Addr} (h : Buffered fd w k)
    (hfds : k'.fds = k.fds) (hdst : k'.dst = k.dst) (hsegments : k'.segments <:+ k.segments)
    (hunread : k'.unread = w') : Buffered fd w' k' := by
  have hnil : k'.segments = [] := by
    rw [h.segments] at hsegments
    exact List.suffix_nil.mp hsegments
  have hdst' : k'.dst = fd := hdst.trans h.dst
  refine ⟨by rw [hfds]; exact h.opened, hdst', hnil, ?_⟩
  rw [Stream.unread, hnil, hdst', List.flatten_nil, List.append_nil] at hunread
  exact hunread

/-- The peek of the loop. -/
theorem Buffered.peek {w : Bytes} {s : Net (Stream Addr)} (h : Buffered fd w s.kernel) :
    ∃ s₁, s.recv segmented fd 8 .peekDontwait
        = (if w = [] then .error EAGAIN else .ok (w.take 8), s₁) ∧ Buffered fd w s₁.kernel := by
  have hlater := Stream.later_tick s.kernel
  obtain ⟨log, hpeek⟩ := recv_eq (Stream.recv_peek h.opened 8)
  rw [h.inbox] at hpeek
  exact ⟨_, hpeek, h.step hlater.fds hlater.dst (Stream.segments_tick s.kernel)
    (hlater.unread.trans h.unread)⟩

/-- A turn of the pass-through with something there. -/
theorem Buffered.take {w : Bytes} {s : Net (Stream Addr)} (h : Buffered fd w s.kernel)
    (hne : w ≠ []) (len : ℕ) :
    ∃ s₁, s.recv segmented fd len .dontwait = (.ok (w.take len), s₁)
      ∧ Buffered fd (w.drop len) s₁.kernel := by
  have hrecv := Stream.recv_dontwait h.opened len
  rw [h.inbox, if_neg hne] at hrecv
  have hshrinks := Stream.segments_recv s.kernel fd len .dontwait
  have hfds := Stream.fds_dst_recv s.kernel fd len .dontwait
  rw [hrecv] at hshrinks hfds
  obtain ⟨log, hr⟩ := recv_eq hrecv
  refine ⟨_, hr, h.step hfds.1 hfds.2 hshrinks ?_⟩
  have hunread := unread_recv h.dst hr
  rw [h.unread] at hunread
  have hsplit := hunread.trans (List.take_append_drop len w).symm
  exact List.append_cancel_left hsplit

/-- The last turn. -/
theorem Buffered.recv_empty {s : Net (Stream Addr)} (h : Buffered fd [] s.kernel) (len : ℕ) :
    ∃ s₁, s.recv segmented fd len .dontwait = (.error EAGAIN, s₁) ∧ Buffered fd [] s₁.kernel := by
  have hlater := Stream.later_tick s.kernel
  have hrecv := Stream.recv_dontwait h.opened len
  rw [h.inbox, if_pos rfl] at hrecv
  obtain ⟨log, hr⟩ := recv_eq hrecv
  exact ⟨_, hr, h.step hlater.fds hlater.dst (Stream.segments_tick s.kernel)
    (hlater.unread.trans h.unread)⟩

/-! ### What goes out -/

/-- The bytes `w` were written to `outFd`, and nothing else. -/
def Sends (outFd : Fd) (w : Bytes) (s s' : Net (Stream Addr)) : Prop :=
  ∃ new, s'.log = s.log ++ new ∧ ∀ x, outgoing x new = if x = outFd then w else []

theorem Sends.trans {outFd : Fd} {w w' : Bytes} {s s' s'' : Net (Stream Addr)}
    (h : Sends outFd w s s') (h' : Sends outFd w' s' s'') : Sends outFd (w ++ w') s s'' := by
  obtain ⟨new, hnew, hout⟩ := h
  obtain ⟨new', hnew', hout'⟩ := h'
  refine ⟨new ++ new', by rw [hnew', hnew, List.append_assoc], fun x => ?_⟩
  rw [outgoing_append, hout, hout']
  split <;> rfl

/-- What comes in does not go out. -/
theorem sends_of_comesIn {s s' : Net (Stream Addr)} (h : ComesIn fd s s') (outFd : Fd) :
    Sends outFd [] s s' := by
  obtain ⟨new, hnew, hin⟩ := h
  refine ⟨new, hnew, fun x => ?_⟩
  rw [ite_self]
  refine List.flatMap_eq_nil_iff.mpr fun ev hev => ?_
  obtain ⟨conn, data, rfl⟩ := hin ev hev
  rfl

/-- An open descriptor takes everything. -/
theorem write_segmented {outFd : Fd} {s : Net (Stream Addr)} (hopened : outFd ∈ s.kernel.fds)
    (data : Bytes) :
    ∃ s₁, s.write segmented outFd data = (.ok data.length, s₁) ∧ s₁.kernel = s.kernel
      ∧ Sends outFd data s s₁ := by
  have hwrite : segmented.write s.kernel outFd data = (.ok data.length, s.kernel) :=
    congrArg (·, s.kernel) (if_pos hopened)
  rw [Net.write, hwrite]
  refine ⟨_, rfl, rfl, _, rfl, fun x => ?_⟩
  dsimp only
  rw [List.take_length]
  by_cases hx : x = outFd
  · rw [hx, if_pos rfl, outgoing_wrote]
  · rw [if_neg hx]
    simp [outgoing, Event.sentOn, Ne.symm hx]

/-- The pass-through of what is there: it ends, and all of it goes to the peer. -/
theorem transferUnintercepted_buffered {outFd : Fd} (fuel : ℕ) :
    ∀ {w : Bytes} {s : Net (Stream Addr)}, Buffered fd w s.kernel → outFd ∈ s.kernel.fds →
      (w.length < fuel → (s.transferUnintercepted segmented fuel outFd fd).isSome = true)
        ∧ ∀ {s'}, s.transferUnintercepted segmented fuel outFd fd = some s' →
          OnlyIO segmented s s' ∧ Sends outFd w s s' ∧ Buffered fd [] s'.kernel := by
  induction fuel with
  | zero =>
      intro w s _ _
      exact ⟨fun hlt => absurd hlt (Nat.not_lt_zero _), fun heq => by cases heq⟩
  | succ fuel ih =>
      intro w s h hopened
      by_cases hempty : w = []
      · subst hempty
        obtain ⟨s₁, hr, h₁⟩ := h.recv_empty 1460
        rw [Net.transferUnintercepted, hr]
        refine ⟨fun _ => rfl, fun heq => ?_⟩
        cases heq
        exact ⟨onlyIO_recv hr, sends_of_comesIn (comesIn_recv hr) outFd, h₁⟩
      · obtain ⟨s₁, hr, h₁⟩ := h.take hempty 1460
        have hpos := List.length_pos_of_ne_nil hempty
        have hio := onlyIO_recv hr
        have hopened₁ : outFd ∈ s₁.kernel.fds := by
          have hfds : s₁.kernel.fds = s.kernel.fds := hio.fds
          rw [hfds]
          exact hopened
        obtain ⟨s₂, hw, hkernel, hsends⟩ := write_segmented hopened₁ (w.take 1460)
        obtain ⟨hends, hresult⟩ := ih (hkernel.symm ▸ h₁) (hkernel.symm ▸ hopened₁)
        -- the piece is not empty, and what is behind it is left
        have hloop : s.transferUnintercepted segmented (fuel + 1) outFd fd
            = s₂.transferUnintercepted segmented fuel outFd fd := by
          obtain ⟨b, bs, hpiece⟩ : ∃ b bs, w.take 1460 = b :: bs := by
            refine List.exists_cons_of_ne_nil (List.ne_nil_of_length_pos ?_)
            rw [List.length_take]
            omega
          rw [hpiece] at hr hw
          rw [Net.transferUnintercepted, hr]
          dsimp only
          rw [hw]
        rw [hloop]
        refine ⟨fun hlt => hends ?_, fun heq => ?_⟩
        · rw [List.length_drop]
          omega
        · obtain ⟨hio', hsends', h'⟩ := hresult heq
          refine ⟨(hio.trans (onlyIO_write hw)).trans hio', ?_, h'⟩
          have hall := (sends_of_comesIn (comesIn_recv hr) outFd).trans (hsends.trans hsends')
          rw [List.nil_append, List.take_append_drop] at hall
          exact hall

/-! ### The receiver -/

/-- The message that a payload is queued as. -/
def sentMsg (st : ChannelStatus) (payload : Bytes) : Msg :=
  ⟨st.fd, encode payload, payload.length⟩

theorem body_sentMsg (st : ChannelStatus) (payload : Bytes) :
    (sentMsg st payload).body = payload :=
  List.drop_left' (length_hackedSendtoHeader payload.length)

/-- The payloads were queued as messages, and nothing was written. -/
structure Takes (fd : Fd) (st : ChannelStatus) (payloads : List Bytes)
    (s s' : Net (Stream Addr)) : Prop where
  fdToChannelStatus : s'.fdToChannelStatus = s.fdToChannelStatus
  heap : s'.heap = s.heap
  fds : s'.kernel.fds = s.kernel.fds
  queue : (s'.network.get st.channel).getD []
    = (s.network.get st.channel).getD [] ++ payloads.map (sentMsg st)
  others : ∀ c ≠ st.channel, s'.network.get c = s.network.get c
  log : ComesIn fd s s'

theorem Takes.trans {payloads more : List Bytes} {s s' s'' : Net (Stream Addr)}
    (h : Takes fd st payloads s s') (h' : Takes fd st more s' s'') :
    Takes fd st (payloads ++ more) s s'' where
  fdToChannelStatus := h'.fdToChannelStatus.trans h.fdToChannelStatus
  heap := h'.heap.trans h.heap
  fds := h'.fds.trans h.fds
  queue := by rw [h'.queue, h.queue, List.append_assoc, List.map_append]
  others c hc := (h'.others c hc).trans (h.others c hc)
  log := h.log.trans h'.log

/-- A peek queues nothing. -/
theorem takes_peek (st : ChannelStatus) {s s₁ : Net (Stream Addr)} {len : ℕ} {flags : RecvFlags}
    {r : RecvResult} (h : s.recv segmented fd len flags = (r, s₁)) : Takes fd st [] s s₁ := by
  have hio := onlyIO_recv h
  refine ⟨hio.fdToChannelStatus, hio.heap, hio.fds, ?_, fun c _ => ?_, comesIn_recv h⟩
  · rw [hio.network, List.map_nil, List.append_nil]
  · rw [hio.network]

/-- The frame of a payload whose length fits in the header is taken over as its message. -/
theorem takes_enqueues {payload : Bytes} (hlen : payload.length < 2 ^ 32)
    {s s' : Net (Stream Addr)}
    (h : Enqueues fd st ⟨st.fd, (sentHeader payload.length).bytes ++ payload,
      (sentHeader payload.length).size⟩ s s') : Takes fd st [payload] s s' := by
  have hmsg : (⟨st.fd, (sentHeader payload.length).bytes ++ payload,
      (sentHeader payload.length).size⟩ : Msg) = sentMsg st payload := by
    rw [size_sentHeader, Nat.mod_eq_of_lt hlen]
    rfl
  rw [hmsg] at h
  refine ⟨h.fdToChannelStatus, h.heap, h.fds, ?_, fun c hc => ?_, h.log⟩
  · rw [h.network, FinFn.get_insert, if_pos rfl]
    rfl
  · rw [h.network, FinFn.get_insert, if_neg hc]

/-- Bytes that are no frame: none, or a complete header with another magic. -/
def Foreign (u : Bytes) : Prop :=
  u = [] ∨ 8 ≤ u.length ∧ u.take 4 ≠ bigEndian 4 VALIDATION_DATA

/-- How the loop over the messages ends in front of the bytes `u`. -/
structure StopsAt (fd : Fd) (u : Bytes) (exit : Net.HeaderExit) (tagged : Finset Fd)
    (s' : Net (Stream Addr)) : Prop where
  empty : u = [] → (∃ header, exit = .short (.error EAGAIN) header) ∧ s'.uninterceptedFd = tagged
  invalid : u ≠ [] → exit = .invalid ∧ s'.uninterceptedFd = insert fd tagged
  buffered : Buffered fd u s'.kernel

/-- The end of the loop. -/
theorem headerLoop_foreign (st : ChannelStatus) {u : Bytes} (hu : Foreign u) {s : Net (Stream Addr)}
    (h : Buffered fd u s.kernel) (fuel : ℕ) (header : MsgHeader) :
    ∃ exit s', s.headerLoop segmented cfg (fuel + 1) fd header = some (exit, s')
      ∧ Takes fd st [] s s' ∧ StopsAt fd u exit s.uninterceptedFd s' := by
  obtain ⟨s₁, hpeek, h₁⟩ := h.peek
  have hio := onlyIO_recv hpeek
  have htakes := takes_peek st hpeek
  -- nothing is left, or at least a header that does not start with the magic number
  rcases hu with rfl | ⟨hlong, hmagic⟩
  · rw [if_pos rfl] at hpeek
    refine ⟨.short (.error EAGAIN) header, s₁, ?_, htakes, ?_, fun hne => absurd rfl hne, h₁⟩
    · rw [Net.headerLoop, hpeek]
    · exact fun _ => ⟨⟨header, rfl⟩, hio.uninterceptedFd⟩
  · have hne : u ≠ [] := List.ne_nil_of_length_pos (by omega)
    rw [if_neg hne] at hpeek
    have hlen : (u.take 8).length = 8 := by
      rw [List.length_take]
      omega
    have hinvalid : packetValidation (header.recvInto (u.take 8)) 8 = false := by
      rw [← Bool.not_eq_true, packetValidation_iff (by decide), validation_eq_iff,
        recvInto_of_length header hlen]
      show ¬ (u.take 8).take 4 = _
      rw [List.take_take]
      exact hmagic
    refine ⟨.invalid, s₁.setUnintercepted fd, ?_, ?_, fun hempty => absurd hempty hne, ?_, h₁⟩
    · rw [Net.headerLoop, hpeek]
      dsimp only
      rw [if_neg (not_not_intro hlen), hinvalid]
      rfl
    · exact ⟨htakes.fdToChannelStatus, htakes.heap, htakes.fds, htakes.queue, htakes.others,
        htakes.log⟩
    -- such bytes make the connection unintercepted
    · intro _
      refine ⟨rfl, ?_⟩
      show insert fd s₁.uninterceptedFd = _
      rw [hio.uninterceptedFd]

/-- The loop over the messages takes the frames one after the other. -/
theorem headerLoop_frames (hindirect : cfg.isDirect = false) (hconnected : st.disconnected = false)
    {u : Bytes} (hu : Foreign u) (payloads : List Bytes) :
    ∀ {s : Net (Stream Addr)} (fuel : ℕ) (header : MsgHeader),
      (∀ payload ∈ payloads, payload.length < 2 ^ 32) → s.fdToChannelStatus.get fd = some st →
      Buffered fd (payloads.flatMap encode ++ u) s.kernel →
      (payloads.length < fuel → (s.headerLoop segmented cfg fuel fd header).isSome = true)
        ∧ ∀ {exit s'}, s.headerLoop segmented cfg fuel fd header = some (exit, s') →
          Takes fd st payloads s s' ∧ StopsAt fd u exit s.uninterceptedFd s' := by
  -- on the payloads: one pass of the loop takes one frame
  induction payloads with
  | nil =>
      intro s fuel header _ _ h
      cases fuel with
      | zero => exact ⟨fun hlt => absurd hlt (Nat.not_lt_zero _), fun heq => by cases heq⟩
      | succ fuel =>
          obtain ⟨exit, s', hloop, htakes, hstops⟩ := headerLoop_foreign st hu h fuel header
          rw [hloop]
          refine ⟨fun _ => rfl, fun heq => ?_⟩
          cases heq
          exact ⟨htakes, hstops⟩
  | cons payload payloads ih =>
      intro s fuel header hlens hst h
      cases fuel with
      | zero => exact ⟨fun hlt => absurd hlt (Nat.not_lt_zero _), fun heq => by cases heq⟩
      | succ fuel =>
          have hlen := hlens payload List.mem_cons_self
          have hunread : s.kernel.unread = (sentHeader payload.length).bytes
              ++ (payload ++ (payloads.flatMap encode ++ u)) := by
            rw [h.unread, List.flatMap_cons, encode, List.append_assoc, List.append_assoc]
            rfl
          have hlong : 8 ≤ (s.kernel.inbox fd).length := by
            rw [h.inbox, ← h.unread, hunread, List.length_append, MsgHeader.length_bytes]
            omega
          have hsize : (sentHeader payload.length).size = payload.length := by
            rw [size_sentHeader, Nat.mod_eq_of_lt hlen]
          obtain ⟨s₁, henqueues, hloop⟩ := headerLoop_takes hindirect hconnected hst h.opened h.dst
            hlong hunread (validation_sentHeader _) hsize
          have htakes := takes_enqueues hlen henqueues
          -- what is left is a sequence of frames again
          have h₁ : Buffered fd (payloads.flatMap encode ++ u) s₁.kernel := by
            refine h.step henqueues.fds henqueues.dst henqueues.segments ?_
            have hsplit := henqueues.unread
            rw [hunread, ← List.append_assoc] at hsplit
            exact (List.append_cancel_left hsplit).symm
          obtain ⟨hends, hresult⟩ := ih fuel (sentHeader payload.length)
            (fun p hp => hlens p (List.mem_cons_of_mem _ hp))
            (by rw [henqueues.fdToChannelStatus]; exact hst) h₁
          rw [hloop fuel header]
          refine ⟨fun hlt => hends (Nat.lt_of_succ_lt_succ hlt), fun heq => ?_⟩
          obtain ⟨htakes', hstops⟩ := hresult heq
          rw [henqueues.uninterceptedFd] at hstops
          exact ⟨htakes.trans htakes', hstops⟩

/-! ### One call of `do_receive` -/

/-- An open connection that is not tagged as unintercepted. Its messages are queued, and
its peer is open. -/
structure Intercepted (cfg : ConfigFile) (fd : Fd) (st : ChannelStatus) (s : Net (Stream Addr)) :
    Prop where
  indirect : cfg.isDirect = false
  entry : s.fdToChannelStatus.get fd = some st
  connected : st.disconnected = false
  untagged : fd ∉ s.uninterceptedFd
  peer : s.heap st.fd ∈ s.kernel.fds

/-- The payloads were queued behind what was in the queue of the channel, each with its
body and its size, and the bytes `u` went to the peer. -/
structure Decoded (fd : Fd) (st : ChannelStatus) (payloads : List Bytes) (u : Bytes)
    (s s' : Net (Stream Addr)) : Prop where
  queue : ∃ msgs, (s'.network.get st.channel).getD [] = (s.network.get st.channel).getD [] ++ msgs
    ∧ msgs.map (fun m => (m.body, m.size)) = payloads.map (fun payload => (payload, payload.length))
    ∧ ∀ m ∈ msgs, m.fd = st.fd
  others : ∀ c ≠ st.channel, s'.network.get c = s.network.get c
  forwarded : Sends (s.heap st.fd) u s s'
  tagged : fd ∈ s'.uninterceptedFd ↔ u ≠ []
  entry : s'.fdToChannelStatus.get fd = some st
  emptied : s'.kernel.inbox fd = []

/-- The handler on frames with bytes `u` behind them. -/
theorem doReceive_frames {s : Net (Stream Addr)} (hs : Intercepted cfg fd st s) {u : Bytes}
    (hu : Foreign u) {payloads : List Bytes} (hlens : ∀ payload ∈ payloads, payload.length < 2 ^ 32)
    (h : Buffered fd (payloads.flatMap encode ++ u) s.kernel) :
    (∃ fuel s', s.doReceive segmented cfg fuel fd = some s')
      ∧ ∀ {fuel s'}, s.doReceive segmented cfg fuel fd = some s' →
        Decoded fd st payloads u s s' := by
  have hloop := fun fuel =>
    headerLoop_frames hs.indirect hs.connected hu payloads fuel .zero hlens hs.entry h
  -- what comes after the loop
  have hafter : ∀ fuel exit s₁, Takes fd st payloads s s₁ →
      StopsAt fd u exit s.uninterceptedFd s₁ →
      s.headerLoop segmented cfg fuel fd .zero = some (exit, s₁) →
      s.doReceive segmented cfg fuel fd
        = if u = [] then some s₁ else s₁.transferUnintercepted segmented fuel (s.heap st.fd) fd := by
    intro fuel exit s₁ htakes hstops heq
    rw [Net.doReceive, hs.entry]
    dsimp only
    rw [Net.receivePhase, if_neg hs.untagged, Net.receiveIntercepted, heq]
    by_cases hempty : u = []
    · obtain ⟨⟨header, rfl⟩, -⟩ := hstops.empty hempty
      rw [if_pos hempty]
      rfl
    · obtain ⟨rfl, -⟩ := hstops.invalid hempty
      rw [if_neg hempty, ← htakes.heap]
      have hentry : s₁.fdToChannelStatus.get fd = some st := by
        rw [htakes.fdToChannelStatus]
        exact hs.entry
      dsimp only
      rw [hentry]
  have hmsgs : (payloads.map (sentMsg st)).map (fun m => (m.body, m.size))
      = payloads.map fun payload => (payload, payload.length) := by
    rw [List.map_map]
    exact List.map_congr_left fun payload _ => congrArg (·, payload.length) (body_sentMsg st payload)
  have hcell : ∀ m ∈ payloads.map (sentMsg st), m.fd = st.fd := by
    intro m hm
    obtain ⟨payload, -, rfl⟩ := List.mem_map.mp hm
    rfl
  have hpeer : ∀ {s₁}, Takes fd st payloads s s₁ → s.heap st.fd ∈ s₁.kernel.fds := by
    intro s₁ htakes
    rw [htakes.fds]
    exact hs.peer
  constructor
  · let fuel := payloads.length + u.length + 1
    obtain ⟨hends, hresult⟩ := hloop fuel
    obtain ⟨⟨exit, s₁⟩, heq⟩ :=
      Option.isSome_iff_exists.mp (hends (by omega : payloads.length < payloads.length + u.length + 1))
    obtain ⟨htakes, hstops⟩ := hresult heq
    refine ⟨fuel, ?_⟩
    rw [hafter fuel exit s₁ htakes hstops heq]
    split
    · exact ⟨s₁, rfl⟩
    · have htransfer := transferUnintercepted_buffered fuel hstops.buffered (hpeer htakes)
      exact Option.isSome_iff_exists.mp
        (htransfer.1 (by omega : u.length < payloads.length + u.length + 1))
  · intro fuel s' hrun
    cases hexit : s.headerLoop segmented cfg fuel fd .zero with
    | none =>
        rw [Net.doReceive, hs.entry] at hrun
        dsimp only at hrun
        rw [Net.receivePhase, if_neg hs.untagged, Net.receiveIntercepted, hexit] at hrun
        cases hrun
    | some ending =>
        obtain ⟨exit, s₁⟩ := ending
        obtain ⟨htakes, hstops⟩ := (hloop fuel).2 hexit
        rw [hafter fuel exit s₁ htakes hstops hexit] at hrun
        have hsends := sends_of_comesIn htakes.log (s.heap st.fd)
        split at hrun
        · rename_i hempty
          cases hrun
          obtain ⟨-, htagged⟩ := hstops.empty hempty
          have hbuffered := hstops.buffered
          subst hempty
          refine ⟨⟨_, htakes.queue, hmsgs, hcell⟩, htakes.others, hsends, ?_, ?_, hbuffered.inbox⟩
          · rw [htagged]
            exact iff_of_false hs.untagged fun hne => hne rfl
          · rw [htakes.fdToChannelStatus]
            exact hs.entry
        · rename_i hne
          obtain ⟨-, htagged⟩ := hstops.invalid hne
          obtain ⟨hio, hforwarded, hempty⟩ :=
            (transferUnintercepted_buffered fuel hstops.buffered (hpeer htakes)).2 hrun
          refine ⟨⟨_, ?_, hmsgs, hcell⟩, fun c hc => ?_, hsends.trans hforwarded, ?_, ?_,
            hempty.inbox⟩
          · rw [hio.network]
            exact htakes.queue
          · rw [hio.network]
            exact htakes.others c hc
          · rw [hio.uninterceptedFd, htagged]
            exact iff_of_true (Finset.mem_insert_self fd _) hne
          · rw [hio.fdToChannelStatus, htakes.fdToChannelStatus]
            exact hs.entry

/-- What the interposer sends, the proxy receives: on the frames of complete sends and
foreign bytes behind them, one call of `do_receive` ends, queues exactly the payloads and
passes exactly the foreign bytes on. -/
theorem frame_codec {sockfd : Fd} {p : Proc} {cs : List SendCall}
    (henabled : p.checkIntercept .sysSendto = true) (hwire : p.wire sockfd = [])
    (hsends : ∀ c ∈ cs, CompleteSend sockfd p c) (hlens : ∀ c ∈ cs, c.buf.length < 2 ^ 32)
    {u : Bytes} (hu : Foreign u) {s : Net (Stream Addr)} (hs : Intercepted cfg fd st s)
    (hbuffered : Buffered fd ((execAll sockfd cs p).2.wire sockfd ++ u) s.kernel) :
    (∃ fuel s', s.doReceive segmented cfg fuel fd = some s')
      ∧ ∀ {fuel s'}, s.doReceive segmented cfg fuel fd = some s' →
        Decoded fd st (cs.map SendCall.buf) u s s' := by
  rw [wire_execAll cs henabled hsends, hwire, List.nil_append] at hbuffered
  exact doReceive_frames hs hu (List.forall_mem_map.mpr hlens) hbuffered

/-- Two payloads, one of them empty, and then eight bytes of something else. -/
def framedCalls : List SendCall :=
  [⟨.sendto none, [65, 66], .accepted 8, .accepted 2⟩, ⟨.sendto none, [], .accepted 8, .accepted 0⟩]

def foreignBytes : Bytes := [71, 69, 84, 32, 47, 32, 72, 84]

/-- The connection of the proxy, with everything in the receive queue of descriptor 1. -/
def framedNet : Net (Stream Addr) :=
  let net := Demo.linked ((execAll 3 framedCalls connected).2.wire 3 ++ foreignBytes) ∅
  { net with kernel := net.kernel.1 }

theorem frame_codec_framedCalls :
    (∃ fuel s', framedNet.doReceive segmented Demo.config fuel 1 = some s')
      ∧ ∀ {fuel s'}, framedNet.doReceive segmented Demo.config fuel 1 = some s' →
        Decoded 1 Demo.forward [[65, 66], []] foreignBytes framedNet s' := by
  have hsends : ∀ c ∈ framedCalls, CompleteSend 3 connected c := by
    intro c hc
    have hdest : TakesHeader connected 3 none := by decide
    rcases List.mem_pair.mp hc with rfl | rfl
    · exact ⟨⟨none, rfl, hdest⟩, ⟨8, rfl, le_rfl⟩, ⟨2, rfl, by decide⟩⟩
    · exact ⟨⟨none, rfl, hdest⟩, ⟨8, rfl, le_rfl⟩, ⟨0, rfl, by decide⟩⟩
  have hforeign : Foreign foreignBytes := .inr (by decide)
  have hnet : Intercepted Demo.config 1 Demo.forward framedNet :=
    ⟨rfl, by decide, rfl, by decide, by decide⟩
  exact frame_codec rfl rfl hsends (by decide) hforeign hnet ⟨by decide, rfl, rfl, rfl⟩

end Tmet
