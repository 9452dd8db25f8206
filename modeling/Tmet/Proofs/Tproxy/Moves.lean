import Tmet.Proofs.Tproxy.Delivery
import Tmet.Proofs.Tproxy.Recover

/-!
# `Tmet.Proofs.Tproxy.Moves`: what an event does, message by message

An `Atom` is a single change of the state. Between the two atoms of a message that is
received and written at once, nothing holds of the bytes that went in and out. A `Move` of
`do_receive` is coarser: a message is taken and handed on in one move, a chunk of the
pass-through is received and sent in one move, and what was received and is lost closes the
connection in the same move.

`doReceive_moves` gives the moves of a call. `raw` says whether the call may go on to the
pass-through. `cameIn` are all the bytes that were received on an end.
-/

set_option autoImplicit false

namespace Tmet.Tproxy

open Tmet.Lib Tmet.Posix

variable {κ : Type} {K : Kernel κ Ctl Addr} {cfg : ConfigFile} {fd : Fd} {raw : Prop}

/-- One move of `do_receive` on `fd`. -/
inductive Net.Move (K : Kernel κ Ctl Addr) (cfg : ConfigFile) (fd : Fd) (raw : Prop) :
    Net κ → Net κ → Prop
  /-- A peek, or a call that failed. -/
  | io {s s' : Net κ} : OnlyIO K s s' → s'.log = s.log → Move K cfg fd raw s s'
  | loose {s : Net κ} : s.fdToChannelStatus.get fd = none → Move K cfg fd raw s (s.close K fd)
  | closed {s : Net κ} {st : ChannelStatus} : s.fdToChannelStatus.get fd = some st →
      Move K cfg fd raw s (s.closeConnection K fd false)
  /-- A message that is cut off. -/
  | torn {s s₁ s₂ : Net κ} {next : MsgHeader} {st : ChannelStatus} {content : Bytes} :
      fd ∉ s.uninterceptedFd → s.recv K fd 8 .peekDontwait = (.ok next.bytes, s₁) →
      packetValidation next 8 = true → s₁.fdToChannelStatus.get fd = some st →
      s₁.recv K fd (8 + next.size) .waitall = (.ok content, s₂) →
      content.length ≠ 8 + next.size → Move K cfg fd raw s (s₂.closeConnection K fd false)
  /-- A chunk that cannot be sent, or the end of the stream. -/
  | lost {s s₁ s₂ : Net κ} {st : ChannelStatus} {data : Bytes} : raw → fd ∈ s.uninterceptedFd →
      s.fdToChannelStatus.get fd = some st → s.recv K fd 1460 .dontwait = (.ok data, s₁) →
      OnlyIO K s₁ s₂ → s₂.log = s₁.log → Move K cfg fd raw s (s₂.closeConnection K fd false)
  | unintercept {s : Net κ} {st : ChannelStatus} : raw → s.fdToChannelStatus.get fd = some st →
      Move K cfg fd raw s (s.setUnintercepted fd)
  | message {s s₁ s₂ : Net κ} {next : MsgHeader} {st : ChannelStatus} {m : Msg} :
      fd ∉ s.uninterceptedFd → Net.TakesMessage K s s₁ s₂ fd next st m →
      Move K cfg fd raw s (s₂.enqueueMsg K cfg st m)
  | chunk {s s₁ s₂ : Net κ} {st : ChannelStatus} {data : Bytes} {n : ℕ} : raw →
      fd ∈ s.uninterceptedFd → s.fdToChannelStatus.get fd = some st →
      s.recv K fd 1460 .dontwait = (.ok data, s₁) →
      s₁.write K (s.heap st.fd) data = (.ok n, s₂) → Move K cfg fd raw s s₂

/-- A sequence of moves. -/
abbrev Net.Moves (K : Kernel κ Ctl Addr) (cfg : ConfigFile) (fd : Fd) (raw : Prop) :
    Net κ → Net κ → Prop :=
  Relation.ReflTransGen (Net.Move K cfg fd raw)

theorem Net.Move.moves {s s' : Net κ} (h : Net.Move K cfg fd raw s s') :
    Net.Moves K cfg fd raw s s' := .single h

/-! ### System calls -/

/-- A peek logs nothing. -/
theorem log_recv_peek {s s₁ : Net κ} {len : ℕ} {r : RecvResult}
    (h : s.recv K fd len .peekDontwait = (r, s₁)) : s₁.log = s.log := by
  cases h
  exact List.append_nil _

theorem log_recv_error {s s₁ : Net κ} {len : ℕ} {flags : RecvFlags} {e : Errno}
    (h : s.recv K fd len flags = (.error e, s₁)) : s₁.log = s.log := by
  rw [Net.recv] at h
  generalize K.recv s.kernel fd len flags = answer at h
  obtain ⟨r, k⟩ := answer
  cases h
  cases flags <;> exact List.append_nil _

/-- What is not peeked is logged. -/
theorem log_recv_ok {s s₁ : Net κ} {len : ℕ} {flags : RecvFlags} {data : Bytes}
    (hflags : flags ≠ .peekDontwait) (h : s.recv K fd len flags = (.ok data, s₁)) :
    s₁.log = s.log ++ [.received fd (s.fdToChannelStatus.get fd) data] := by
  rw [Net.recv] at h
  generalize K.recv s.kernel fd len flags = answer at h
  obtain ⟨r, k⟩ := answer
  cases h
  cases flags with
  | peekDontwait => exact absurd rfl hflags
  | dontwait => rfl
  | waitall => rfl

theorem log_write_error {s s₁ : Net κ} {data : Bytes} {e : Errno}
    (h : s.write K fd data = (.error e, s₁)) : s₁.log = s.log := by
  rw [Net.write] at h
  generalize K.write s.kernel fd data = answer at h
  obtain ⟨r, k⟩ := answer
  cases h
  exact List.append_nil _

theorem log_write_ok (hfull : K.WritesInFull) {s s₁ : Net κ} {data : Bytes} {n : ℕ}
    (h : s.write K fd data = (.ok n, s₁)) :
    s₁.log = s.log ++ [.wrote fd (s.fdToChannelStatus.get fd) data] := by
  rw [Net.write] at h
  have hn : ∀ n, (K.write s.kernel fd data).1 = .ok n → n = data.length := fun _ => hfull
  generalize K.write s.kernel fd data = answer at h hn
  obtain ⟨r, k⟩ := answer
  cases h
  have hlen := hn n rfl
  subst hlen
  show s.log ++ [Event.wrote fd (s.fdToChannelStatus.get fd) (data.take data.length)] = _
  rw [List.take_length]

theorem Net.Move.peek {s s₁ : Net κ} {len : ℕ} {r : RecvResult}
    (h : s.recv K fd len .peekDontwait = (r, s₁)) : Net.Move K cfg fd raw s s₁ :=
  .io (onlyIO_recv h) (log_recv_peek h)

theorem Net.Move.failed {s s₁ : Net κ} {len : ℕ} {flags : RecvFlags} {e : Errno}
    (h : s.recv K fd len flags = (.error e, s₁)) : Net.Move K cfg fd raw s s₁ :=
  .io (onlyIO_recv h) (log_recv_error h)

/-- Closing the connection, whether it is still there or not. -/
theorem Net.Move.close (s : Net κ) : Net.Move K cfg fd raw s (s.closeConnection K fd false) := by
  cases hst : s.fdToChannelStatus.get fd with
  | none =>
      rw [Net.closeConnection, hst]
      exact .loose hst
  | some st => exact .closed hst

/-! ### The loop over the messages -/

theorem uninterceptedFd_doClose (s : Net κ) (x : Fd) :
    (s.doClose K x).uninterceptedFd ⊆ s.uninterceptedFd := by
  rw [Net.doClose]
  cases s.fdToChannelStatus.get x with
  | none => exact Finset.Subset.refl _
  | some st => exact Finset.erase_subset x s.uninterceptedFd

theorem uninterceptedFd_closeConnection (s : Net κ) (x : Fd) (tag : Bool) :
    (s.closeConnection K x tag).uninterceptedFd ⊆ s.uninterceptedFd := by
  rw [Net.closeConnection]
  cases s.fdToChannelStatus.get x with
  | none => cases tag <;> exact Finset.Subset.refl _
  | some st =>
      cases tag with
      | true => exact Finset.Subset.refl _
      | false => exact (uninterceptedFd_doClose _ _).trans (uninterceptedFd_doClose _ x)

/-- No call but `set_unintercepted` tags a descriptor. -/
theorem uninterceptedFd_deliverTaken (s : Net κ) (m : Msg) :
    (s.deliverTaken K cfg m).uninterceptedFd ⊆ s.uninterceptedFd := by
  rw [Net.deliverTaken]
  cases hst : s.fdToChannelStatus.get (s.heap m.fd) with
  | none => exact Finset.Subset.refl _
  | some st =>
      dsimp only
      cases htag : st.disconnected with
      | true => exact Finset.Subset.refl _
      | false =>
          rw [if_neg (by decide)]
          cases hloop : s.writeLoop K m.size (s.heap m.fd) m.body m.size (K.garbage s.kernel) with
          | mk size s₁ =>
              have hio := (Path.writeLoop (R := .delivering) trivial _ hloop hst htag).2
              dsimp only
              split
              · rw [← hio.uninterceptedFd]
                exact uninterceptedFd_closeConnection s₁ _ _
              · rw [hio.uninterceptedFd]

theorem uninterceptedFd_enqueueMsg (s : Net κ) (cf : ChannelStatus) (m : Msg) :
    (s.enqueueMsg K cfg cf m).uninterceptedFd ⊆ s.uninterceptedFd := by
  rw [Net.enqueueMsg]
  split
  · exact Finset.Subset.refl _
  · split
    · exact uninterceptedFd_deliverTaken s m
    · exact Finset.Subset.refl _

theorem fdToClient_enqueueMsg (s : Net κ) (cf : ChannelStatus) (m : Msg) :
    (s.enqueueMsg K cfg cf m).fdToClient = s.fdToClient := by
  rw [Net.enqueueMsg]
  split
  · rfl
  · split
    · exact Path.fdToClient (R := .delivering) (fun hf => hf) (Path.deliverTaken trivial s m)
    · rfl

/-- The moves of the loop over the messages, on a descriptor that is not tagged. It is
tagged afterwards if and only if the loop has ended with a header that is not valid. -/
structure LoopMoves (K : Kernel κ Ctl Addr) (cfg : ConfigFile) (fd : Fd) (raw : Prop) (s : Net κ)
    (exit : Net.HeaderExit) (s' : Net κ) : Prop where
  moves : Net.Moves K cfg fd raw s s'
  held : s'.Held K fd
  tagged : exit = .invalid → fd ∈ s'.uninterceptedFd
  untagged : exit ≠ .invalid → fd ∉ s'.uninterceptedFd
  entry : ∀ {data header}, exit = .short (.ok data) header →
    ∃ st, s'.fdToChannelStatus.get fd = some st

/-- The last pass of the loop, with a message that does not come or without one. -/
theorem LoopMoves.returned {s s₁ : Net κ} (hmove : Net.Move K cfg fd raw s s₁)
    (hheld : s₁.Held K fd) (huntagged : fd ∉ s₁.uninterceptedFd) :
    LoopMoves K cfg fd raw s .returned s₁ :=
  ⟨hmove.moves, hheld, nofun, fun _ => huntagged, nofun⟩

theorem LoopMoves.cons {s s₁ s' : Net κ} {exit : Net.HeaderExit}
    (hmove : Net.Move K cfg fd raw s s₁) (h : LoopMoves K cfg fd raw s₁ exit s') :
    LoopMoves K cfg fd raw s exit s' :=
  ⟨hmove.moves.trans h.moves, h.held, h.tagged, h.untagged, h.entry⟩

theorem headerLoop_moves (fuel : ℕ) :
    ∀ {s s' : Net κ} {header : MsgHeader} {exit : Net.HeaderExit},
      s.headerLoop K cfg fuel fd header = some (exit, s') → s.Held K fd →
      fd ∉ s.uninterceptedFd → (exit = .invalid → raw) → LoopMoves K cfg fd raw s exit s' := by
  induction fuel with
  | zero =>
      intro s s' header exit h
      cases h
  | succ fuel ih =>
      intro s s' header exit h hheld huntagged hraw
      rw [Net.headerLoop] at h
      cases hr : s.recv K fd 8 .peekDontwait with
      | mk r s₁ =>
      have hpeek : Net.Move K cfg fd raw s s₁ := .peek hr
      have hio := onlyIO_recv hr
      have hheld₁ := hio.held hheld
      have huntagged₁ : fd ∉ s₁.uninterceptedFd := by
        rw [hio.uninterceptedFd]
        exact huntagged
      rw [hr] at h
      cases r with
      | error e =>
          cases h
          exact ⟨hpeek.moves, hheld₁, by simp, fun _ => huntagged₁, by simp⟩
      | ok data =>
      dsimp only at h
      by_cases hlen : data.length ≠ 8
      · rw [if_pos hlen] at h
        cases h
        exact ⟨hpeek.moves, hheld₁, by simp, fun _ => huntagged₁, fun _ => hheld.get_of_recv hr⟩
      · rw [if_neg hlen] at h
        rw [not_not] at hlen
        by_cases hvalid : packetValidation (header.recvInto data) 8 = true
        · rw [hvalid, if_neg (by decide)] at h
          cases hst : s₁.fdToChannelStatus.get fd with
          | none =>
              rw [hst] at h
              cases h
              exact .returned hpeek hheld₁ huntagged₁
          | some st =>
          rw [hst] at h
          dsimp only at h
          cases hr₂ : s₁.recv K fd (8 + (header.recvInto data).size) .waitall with
          | mk r₂ s₂ =>
          have hio₂ := onlyIO_recv hr₂
          have hheld₂ := hio₂.held hheld₁
          have huntagged₂ : fd ∉ s₂.uninterceptedFd := by
            rw [hio₂.uninterceptedFd]
            exact huntagged₁
          rw [hr₂] at h
          cases r₂ with
          | error e =>
              -- the message does not come
              have hfailed : Net.Move K cfg fd raw s₁ s₂ := .failed hr₂
              cases h
              refine .cons hpeek ?_
              split
              · exact .returned hfailed hheld₂ huntagged₂
              · refine .cons hfailed (.returned (.close s₂) (held_closeConnection hheld₂ fd false) ?_)
                exact fun hmem => huntagged₂ (uninterceptedFd_closeConnection s₂ fd false hmem)
          | ok content =>
              dsimp only at h
              by_cases hcontent : content.length ≠ 8 + (header.recvInto data).size
              · rw [if_pos hcontent] at h
                cases h
                rw [recvInto_of_length header hlen] at hvalid hr₂ hcontent
                have htorn : Net.Move K cfg fd raw s (s₂.closeConnection K fd false) :=
                  .torn huntagged hr hvalid hst hr₂ hcontent
                refine .returned htorn (held_closeConnection hheld₂ fd false) ?_
                exact fun hmem => huntagged₂ (uninterceptedFd_closeConnection s₂ fd false hmem)
              · -- the whole message, and the loop goes on
                rw [if_neg hcontent] at h
                rw [recvInto_of_length header hlen] at hvalid hr₂ hcontent h
                have htakes : Net.TakesMessage K s s₁ s₂ fd ⟨data, hlen⟩ st
                    ⟨st.fd, content, (⟨data, hlen⟩ : MsgHeader).size⟩ :=
                  ⟨hr, hvalid, hst, hr₂, not_not.mp hcontent, rfl, rfl⟩
                refine .cons (.message huntagged htakes) (ih h (held_enqueueMsg hheld₂ st _) ?_ hraw)
                exact fun hmem => huntagged₂ (uninterceptedFd_enqueueMsg s₂ st _ hmem)
        · -- the header is not valid, and the descriptor is tagged
          rw [Bool.not_eq_true] at hvalid
          rw [hvalid, if_pos (by decide)] at h
          cases h
          obtain ⟨st, hst⟩ := hheld.get_of_recv hr
          have hmoves := hpeek.moves.tail (.unintercept (hraw rfl) hst)
          exact ⟨hmoves, hheld₁, fun _ => Finset.mem_insert_self fd _, fun hne => absurd rfl hne, by simp⟩

/-! ### A whole call -/

/-- `do_receive` up to the transfer. If there is a transfer, the descriptor is tagged. -/
theorem receivePhase_moves {fuel : ℕ} {s s' : Net κ} {through : Bool}
    (h : s.receivePhase K cfg fuel fd = some (through, s')) (hheld : s.Held K fd)
    (hraw : through = true → raw) :
    Net.Moves K cfg fd raw s s' ∧ (through = true → fd ∈ s'.uninterceptedFd) := by
  rw [Net.receivePhase] at h
  split at h
  · rename_i htagged
    cases h
    exact ⟨.refl, fun _ => htagged⟩
  · rename_i huntagged
    rw [Net.receiveIntercepted] at h
    cases hloop : s.headerLoop K cfg fuel fd .zero with
    | none =>
        rw [hloop] at h
        cases h
    | some ending =>
        obtain ⟨exit, s₁⟩ := ending
        rw [hloop] at h
        cases exit with
        | returned =>
            cases h
            exact ⟨(headerLoop_moves fuel hloop hheld huntagged (by simp)).moves, by simp⟩
        | invalid =>
            cases h
            have hends := headerLoop_moves fuel hloop hheld huntagged fun _ => hraw rfl
            exact ⟨hends.moves, fun _ => hends.tagged rfl⟩
        | short size header =>
            have hends : LoopMoves K cfg fd raw s _ s₁ :=
              headerLoop_moves fuel hloop hheld huntagged (by simp)
            -- a short header: an error, the end of the stream, or the first bytes of something
            cases size with
            | error e =>
                cases h
                refine ⟨?_, by simp⟩
                split
                · exact hends.moves.tail (.close s₁)
                · exact hends.moves
            | ok data =>
                cases data with
                | nil =>
                    cases h
                    exact ⟨hends.moves.tail (.close s₁), by simp⟩
                | cons b bs =>
                    dsimp only at h
                    split at h
                    · cases h
                      obtain ⟨st, hst⟩ := hends.entry rfl
                      exact ⟨hends.moves.tail (.unintercept (hraw rfl) hst),
                        fun _ => Finset.mem_insert_self fd _⟩
                    · cases h
                      exact ⟨hends.moves, by simp⟩

/-- The transfer, from a tagged descriptor to the other end of its connection. -/
theorem transferUnintercepted_moves {outFd : Fd} {st : ChannelStatus} (hraw : raw) (fuel : ℕ) :
    ∀ {s s' : Net κ}, s.transferUnintercepted K fuel outFd fd = some s' →
      fd ∈ s.uninterceptedFd → s.fdToChannelStatus.get fd = some st → s.heap st.fd = outFd →
      Net.Moves K cfg fd raw s s' := by
  induction fuel with
  | zero =>
      intro s s' h
      cases h
  | succ fuel ih =>
      intro s s' h htagged hst hout
      rw [Net.transferUnintercepted] at h
      cases hr : s.recv K fd 1460 .dontwait with
      | mk r s₁ =>
      have hio := onlyIO_recv hr
      rw [hr] at h
      cases r with
      | error e =>
          have hfailed : Net.Move K cfg fd raw s s₁ := .failed hr
          cases h
          split
          · exact hfailed.moves.tail (.close s₁)
          · exact hfailed.moves
      | ok data =>
          cases data with
          | nil =>
              -- the end of the stream
              cases h
              exact (Net.Move.lost hraw htagged hst hr (.refl s₁) rfl).moves
          | cons b bs =>
              dsimp only at h
              cases hw : s₁.write K outFd (b :: bs) with
              | mk r₂ s₂ =>
              have hio₂ := onlyIO_write hw
              rw [hw] at h
              cases r₂ with
              | error e =>
                  cases h
                  exact (Net.Move.lost hraw htagged hst hr hio₂ (log_write_error hw)).moves
              | ok n =>
                  subst hout
                  have hchunk : Net.Move K cfg fd raw s s₂ := .chunk hraw htagged hst hr hw
                  refine hchunk.moves.trans (ih h ?_ ?_ ?_)
                  · rw [hio₂.uninterceptedFd, hio.uninterceptedFd]
                    exact htagged
                  · rw [hio₂.fdToChannelStatus, hio.fdToChannelStatus]
                    exact hst
                  · rw [hio₂.heap, hio.heap]

/-- The moves of a call. -/
theorem doReceive_moves {fuel : ℕ} {s s' : Net κ} (h : s.doReceive K cfg fuel fd = some s') :
    Net.Moves K cfg fd (s.PassesThrough K cfg fd) s s' := by
  cases hst : s.fdToChannelStatus.get fd with
  | none =>
      rw [Net.doReceive, hst] at h
      cases h
      exact (Net.Move.close s).moves
  | some st =>
      have hheld : s.Held K fd := fun _ => by rw [hst]; rfl
      obtain ⟨through, s₁, hphase, hends⟩ := doReceive_cases hst h
      have hraw : through = true → s.PassesThrough K cfg fd := by
        rintro rfl
        exact ⟨fuel, s₁, hphase⟩
      obtain ⟨hmoves, htagged⟩ := receivePhase_moves hphase hheld hraw
      rcases hends with rfl | ⟨hthrough, cf, hcf, htransfer⟩
      · exact hmoves
      · exact hmoves.trans (transferUnintercepted_moves (hraw hthrough) fuel htransfer
          (htagged hthrough) hcf rfl)

/-! ### The bytes of an end -/

/-- The bytes of the event, if they were received on the end. -/
def Event.cameIn (e : End) : Event → Bytes
  | .received _ (some st) data => if st.toEnd = e then data else []
  | _ => []

/-- All bytes that were received on the end. -/
def cameIn (log : List Event) (e : End) : Bytes := log.flatMap (Event.cameIn e)

/-- All bytes that were written to the end. -/
def wentOut (log : List Event) (e : End) : Bytes := (writtenTo log e).flatten

@[simp] theorem cameIn_snoc (log : List Event) (ev : Event) (e : End) :
    cameIn (log ++ [ev]) e = cameIn log e ++ ev.cameIn e := by
  simp [cameIn]

@[simp] theorem wentOut_snoc (log : List Event) (ev : Event) (e : End) :
    wentOut (log ++ [ev]) e = wentOut log e ++ (ev.writtenTo e).getD [] := by
  rw [wentOut, wentOut, writtenTo_snoc, List.flatten_append]
  cases ev.writtenTo e <;> simp

@[simp] theorem cameIn_received (e : End) (x : Fd) (st : ChannelStatus) (data : Bytes) :
    (Event.received x (some st) data).cameIn e = if st.toEnd = e then data else [] := rfl

@[simp] theorem cameIn_wrote (e : End) (x : Fd) (conn : Option ChannelStatus) (data : Bytes) :
    (Event.wrote x conn data).cameIn e = [] := rfl

@[simp] theorem writtenTo_received (e : End) (x : Fd) (conn : Option ChannelStatus) (data : Bytes) :
    (Event.received x conn data).writtenTo e = none := rfl

@[simp] theorem writtenTo_wrote (e : End) (x : Fd) (st : ChannelStatus) (data : Bytes) :
    (Event.wrote x (some st) data).writtenTo e = if st.toEnd = e then some data else none := rfl

@[simp] theorem receivedOn_wrote (e : End) (x : Fd) (conn : Option ChannelStatus) (data : Bytes) :
    (Event.wrote x conn data).receivedOn e = none := rfl

/-- The bytes of a message are one frame. -/
theorem Taken.frames {s : Net κ} {st : ChannelStatus} {m : Msg} {k : κ}
    (h : Taken K s fd st m k) (hpeek : K.PeekKeeps) : msgFraming.Frames m.content [m.body] := by
  have hbody := h.messageBody_eq hpeek
  rw [messageBody] at hbody
  split at hbody
  · rename_i body hparse
    cases hbody
    exact Framing.parse_eq_some_iff.mp hparse
  · cases hbody

/-! ### Entries that are left -/

/-- The entries afterwards are entries of before, and what was tagged as unintercepted
still is. -/
structure Leaves (s s' : Net κ) : Prop where
  kept : Kept s s'
  tagged : ∀ x st, s'.fdToChannelStatus.get x = some st → x ∈ s.uninterceptedFd →
    x ∈ s'.uninterceptedFd

theorem Leaves.of_eq {s s' : Net κ} (htable : s'.fdToChannelStatus = s.fdToChannelStatus)
    (hui : s.uninterceptedFd ⊆ s'.uninterceptedFd) : Leaves s s' where
  kept x st hst := by rwa [htable] at hst
  tagged _ _ _ hx := hui hx

theorem OnlyIO.leaves {s s' : Net κ} (h : OnlyIO K s s') : Leaves s s' :=
  .of_eq h.fdToChannelStatus h.uninterceptedFd.ge

theorem Leaves.trans {s s' s'' : Net κ} (h : Leaves s s') (h' : Leaves s' s'') : Leaves s s'' where
  kept x st hst := h.kept x st (h'.kept x st hst)
  tagged x st hst hx := h'.tagged x st hst (h.tagged x st (h'.kept x st hst) hx)

theorem leaves_closeConnection {s : Net κ} (hs : s.Consistent K) (x : Fd) :
    Leaves s (s.closeConnection K x false) := by
  refine ⟨kept_closeConnection s x, fun y t ht hy => ?_⟩
  cases hst : s.fdToChannelStatus.get x with
  | none =>
      rw [Net.closeConnection, hst]
      exact hy
  | some st =>
      obtain ⟨st', hp⟩ := hs.linked x st hst
      have hclosed := pairClosed_closeConnection (K := K) hst hp
      rw [hclosed.get] at ht
      split at ht
      · cases ht
      · rename_i hne
        rw [not_or] at hne
        rw [hclosed.uninterceptedFd]
        simp [hne.1, hne.2, hy]

/-- Two descriptors do not have one end. -/
theorem Net.Consistent.fd_unique {s : Net κ} (hs : s.Consistent K) {x y : Fd}
    {st t : ChannelStatus} (hst : s.fdToChannelStatus.get x = some st)
    (ht : s.fdToChannelStatus.get y = some t) (hend : st.toEnd = t.toEnd) : x = y := by
  obtain ⟨_, hp⟩ := hs.linked x st hst
  obtain ⟨_, hq⟩ := hs.linked y t ht
  have hself : st.selfFd = t.selfFd := congrArg End.selfFd hend
  rw [← hp.self, hself, hq.self]

theorem OnlyIO.keeps {s s' : Net κ} (h : OnlyIO K s s') (hs : s.Consistent K) : s'.Consistent K :=
  hs.congr h.fdToChannelStatus h.clientToFd h.fdToClient h.uninterceptedFd h.heap h.nextCell
    h.fds.ge

/-- Closing a connection, none of a client. -/
theorem Net.Consistent.close {s : Net κ} (hs : s.Consistent K) {x : Fd}
    (hclient : s.fdToClient.get x = none) : (s.closeConnection K x false).Consistent K := by
  cases hst : s.fdToChannelStatus.get x with
  | none =>
      rw [Net.closeConnection, hst]
      exact hs.closeLoose hst hclient
  | some st => exact hs.closePair hst

/-- What is open after a connection was closed is another end. -/
theorem Net.Consistent.ne_of_closed {s : Net κ} (hs : s.Consistent K) {x y : Fd}
    {st t : ChannelStatus} (hst : s.fdToChannelStatus.get x = some st)
    (ht : (s.closeConnection K x false).fdToChannelStatus.get y = some t) :
    t.toEnd ≠ st.toEnd ∧ t.toEnd ≠ st.toEnd.peer := by
  obtain ⟨st', hp⟩ := hs.linked x st hst
  have hclosed := pairClosed_closeConnection (K := K) hst hp
  have hold := kept_closeConnection s x y t ht
  rw [hclosed.get] at ht
  split at ht
  · cases ht
  · rename_i hne
    rw [not_or] at hne
    refine ⟨fun hend => hne.1 (hs.fd_unique hold hst hend), fun hend => hne.2 ?_⟩
    exact hs.fd_unique hold hp.peer (hend.trans hp.toEnd_eq.symm)

/-- A move keeps the tables consistent, and does nothing to the clients. -/
theorem Net.Move.consistent {s s' : Net κ} (h : Net.Move K cfg fd raw s s') (hs : s.Consistent K)
    (hclient : s.fdToClient.get fd = none) :
    s'.Consistent K ∧ s'.fdToClient.get fd = none := by
  have hclosed {s₁ : Net κ} (hio : OnlyIO K s s₁) :
      (s₁.closeConnection K fd false).Consistent K
        ∧ (s₁.closeConnection K fd false).fdToClient.get fd = none := by
    have hclient₁ : s₁.fdToClient.get fd = none := by rw [hio.fdToClient, hclient]
    refine ⟨(hio.keeps hs).close hclient₁, ?_⟩
    rw [(onlyTable_closeConnection s₁ fd false).fdToClient, hclient₁]
  cases h with
  | io hio _ => exact ⟨hio.keeps hs, by rw [hio.fdToClient, hclient]⟩
  | loose hst => exact ⟨hs.closeLoose hst hclient, hclient⟩
  | closed _ => exact hclosed (.refl s)
  | torn _ hr _ _ hr₂ _ => exact hclosed ((onlyIO_recv hr).trans (onlyIO_recv hr₂))
  | lost _ _ _ hr hio _ => exact hclosed ((onlyIO_recv hr).trans hio)
  | unintercept _ hst => exact ⟨hs.atom (R := .plain) (.unintercept hst), hclient⟩
  | @message s₁ s₂ next st m _ htakes =>
      have hio := (onlyIO_recv htakes.peek).trans (onlyIO_recv htakes.recv)
      refine ⟨(hio.keeps hs).enqueueMsg cfg st m, ?_⟩
      rw [fdToClient_enqueueMsg, hio.fdToClient, hclient]
  | chunk _ _ _ hr hw =>
      have hio := (onlyIO_recv hr).trans (onlyIO_write hw)
      exact ⟨hio.keeps hs, by rw [hio.fdToClient, hclient]⟩

theorem Net.Moves.consistent {s s' : Net κ} (h : Net.Moves K cfg fd raw s s')
    (hs : s.Consistent K) (hclient : s.fdToClient.get fd = none) :
    s'.Consistent K ∧ s'.fdToClient.get fd = none := by
  induction h with
  | refl => exact ⟨hs, hclient⟩
  | tail _ hmove ih => exact hmove.consistent ih.1 ih.2

/-! ### New connections -/

/-- The log has nothing of the ends of a new connection. -/
theorem Net.Registered.fresh {reg : ℕ → Option End} {s : Net κ} (h : s.Registered reg) {e : End}
    (hfd : s.nextCell ≤ e.fd) {ev : Event} (hev : ev ∈ s.log) {st : ChannelStatus}
    (hst : ev.conn = some st) : st.toEnd ≠ e ∧ st.toEnd ≠ e.peer := by
  obtain ⟨hcell, hself⟩ := h.log ev hev st hst
  have hlt := h.lt _ _ hcell
  have hlt' := h.lt _ _ hself
  constructor
  · rintro rfl
    exact absurd hlt (not_lt.mpr hfd)
  · intro hend
    have heq : st.selfFd = e.fd := congrArg End.selfFd hend
    omega

theorem cameIn_eq_nil {log : List Event} {e : End}
    (h : ∀ ev ∈ log, ∀ st, ev.conn = some st → st.toEnd ≠ e) : cameIn log e = [] := by
  rw [cameIn, List.flatMap_eq_nil_iff]
  intro ev hev
  cases ev with
  | wrote x conn data => rfl
  | received x conn data =>
      cases conn with
      | none => rfl
      | some st => exact if_neg (h _ hev st rfl)

theorem receivedOn_eq_nil {log : List Event} {e : End}
    (h : ∀ ev ∈ log, ∀ st, ev.conn = some st → st.toEnd ≠ e) : receivedOn log e = [] := by
  rw [receivedOn, List.filterMap_eq_nil_iff]
  intro ev hev
  cases ev with
  | wrote x conn data => rfl
  | received x conn data =>
      cases conn with
      | none => rfl
      | some st => exact if_neg (h _ hev st rfl)

theorem wentOut_eq_nil {log : List Event} {e : End}
    (h : ∀ ev ∈ log, ∀ st, ev.conn = some st → st.toEnd ≠ e) : wentOut log e = [] := by
  have hnothing : writtenTo log e = [] := by
    rw [writtenTo, List.filterMap_eq_nil_iff]
    intro ev hev
    cases ev with
    | received x conn data => rfl
    | wrote x conn data =>
        cases conn with
        | none => rfl
        | some st => exact if_neg (h _ hev st rfl)
  rw [wentOut, hnothing, List.flatten_nil]

theorem tables_addMonitorFd (s : Net κ) (x : Fd) :
    (s.addMonitorFd K x).fdToChannelStatus = s.fdToChannelStatus
      ∧ (s.addMonitorFd K x).uninterceptedFd = s.uninterceptedFd := by
  rw [Net.addMonitorFd]
  split
  · exact ⟨rfl, rfl⟩
  · dsimp only
    split <;> exact ⟨rfl, rfl⟩

theorem tcpAccept_tables (K : Kernel κ Ctl Addr) (cfg : ConfigFile) (s : Net κ) :
    (s.tcpAccept K cfg).2.fdToChannelStatus = s.fdToChannelStatus
      ∧ (s.tcpAccept K cfg).2.uninterceptedFd = s.uninterceptedFd := by
  rw [Net.tcpAccept]
  split
  · exact ⟨rfl, rfl⟩
  · split <;> exact ⟨rfl, rfl⟩

/-- An entry after `accept` is one of before, or is one of a new connection. -/
theorem get_acceptEvent {s : Net κ} {x : Fd} {st : ChannelStatus}
    (hst : (s.acceptEvent K cfg).fdToChannelStatus.get x = some st) :
    s.fdToChannelStatus.get x = some st ∨ st.disconnected = false ∧ s.nextCell ≤ st.fd := by
  have haccepts := acceptEvent_accepts K cfg s
  generalize s.acceptEvent K cfg = s' at haccepts hst
  cases haccepts with
  | @failed s₁ hacc =>
      have htable := (tcpAccept_tables K cfg s).1
      rw [hacc] at htable
      rw [← htable]
      exact Or.inl hst
  | client _ _ _ _ =>
      rw [(tables_addMonitorFd _ _).1] at hst
      exact Or.inl hst
  | refused _ _ _ => exact Or.inl hst
  | leaked _ _ _ _ _ => exact Or.inl hst
  | connected _ _ _ _ _ _ _ =>
      rw [(tables_addMonitorFd _ _).1, (tables_addMonitorFd _ _).1] at hst
      rcases get_addFdToChannel hst with ⟨-, rfl⟩ | ⟨-, -, rfl⟩ | ⟨-, -, hold⟩
      · exact Or.inr ⟨rfl, le_rfl⟩
      · exact Or.inr ⟨rfl, Nat.le_succ _⟩
      · exact Or.inl hold

/-- The tags stay as well. -/
theorem uninterceptedFd_acceptEvent (s : Net κ) :
    (s.acceptEvent K cfg).uninterceptedFd = s.uninterceptedFd := by
  have haccepts := acceptEvent_accepts K cfg s
  generalize s.acceptEvent K cfg = s' at haccepts
  cases haccepts with
  | @failed s₁ hacc =>
      have htable := (tcpAccept_tables K cfg s).2
      rw [hacc] at htable
      exact htable
  | client _ _ _ _ => exact (tables_addMonitorFd _ _).2
  | refused _ _ _ => rfl
  | leaked _ _ _ _ _ => rfl
  | connected _ _ _ _ _ _ _ =>
      exact (tables_addMonitorFd _ _).2.trans (tables_addMonitorFd _ _).2

end Tmet.Tproxy
