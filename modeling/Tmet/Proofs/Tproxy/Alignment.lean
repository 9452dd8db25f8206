import Tmet.Proofs.Tproxy.Moves

/-!
# `Tmet.Proofs.Tproxy.Alignment`: messages are cut out of the stream where they were framed

`do_receive` reads a stream in pieces, over many events and with commands in between. The
messages that it takes off an end are the frames of the bytes that came in on this end:
they are neither cut at another place nor left out (`messages_aligned`), as long as no event
goes on to the pass-through. This does not depend on the strategy.

A move of `do_receive` takes one whole frame or closes the connection (`Net.Aligned.move`).
Every other step only writes, and leaves the ends of connections as they are
(`OnlyWrites`, `Path.ends`).
-/

set_option autoImplicit false

namespace Tmet.Tproxy

open Tmet.Lib Tmet.Posix

variable {κ : Type} {K : Kernel κ Ctl Addr} {cfg : ConfigFile} {R : Scope} {fd : Fd} {raw : Prop}

/-! ### Steps that receive nothing -/

/-- From `s` to `s'` nothing was received. -/
def OnlyWrites (s s' : Net κ) : Prop :=
  ∃ new, s'.log = s.log ++ new ∧ ∀ ev ∈ new, ∃ x conn data, ev = .wrote x conn data

theorem OnlyWrites.of_eq {s s' : Net κ} (h : s'.log = s.log) : OnlyWrites s s' :=
  ⟨[], by rw [h, List.append_nil], nofun⟩

theorem OnlyWrites.trans {s s' s'' : Net κ} (h : OnlyWrites s s') (h' : OnlyWrites s' s'') :
    OnlyWrites s s'' := by
  obtain ⟨new, hnew, hwrote⟩ := h
  obtain ⟨new', hnew', hwrote'⟩ := h'
  refine ⟨new ++ new', by rw [hnew', hnew, List.append_assoc], fun ev hev => ?_⟩
  rcases List.mem_append.mp hev with hev | hev
  · exact hwrote ev hev
  · exact hwrote' ev hev

theorem OnlyWrites.cameIn {s s' : Net κ} (h : OnlyWrites s s') (e : End) :
    cameIn s'.log e = cameIn s.log e := by
  obtain ⟨new, hnew, hwrote⟩ := h
  have hnothing : Tproxy.cameIn new e = [] := by
    rw [Tproxy.cameIn, List.flatMap_eq_nil_iff]
    intro ev hev
    obtain ⟨x, conn, data, rfl⟩ := hwrote ev hev
    rfl
  rw [hnew, Tproxy.cameIn, List.flatMap_append]
  exact (congrArg (_ ++ ·) hnothing).trans (List.append_nil _)

theorem OnlyWrites.receivedOn {s s' : Net κ} (h : OnlyWrites s s') (e : End) :
    receivedOn s'.log e = receivedOn s.log e := by
  obtain ⟨new, hnew, hwrote⟩ := h
  have hnothing : Tproxy.receivedOn new e = [] := by
    rw [Tproxy.receivedOn, List.filterMap_eq_nil_iff]
    intro ev hev
    obtain ⟨x, conn, data, rfl⟩ := hwrote ev hev
    rfl
  rw [hnew, Tproxy.receivedOn, List.filterMap_append]
  exact (congrArg (_ ++ ·) hnothing).trans (List.append_nil _)

theorem onlyWrites_write {s s₁ : Net κ} {x : Fd} {data : Bytes} {r : WriteResult}
    (h : s.write K x data = (r, s₁)) : OnlyWrites s s₁ := by
  cases h
  refine ⟨_, rfl, fun ev hev => ?_⟩
  split at hev
  · exact ⟨_, _, _, List.mem_singleton.mp hev⟩
  · cases hev

theorem onlyWrites_writeLoop (fuel : ℕ) :
    ∀ {s s' : Net κ} {x : Fd} {body : Bytes} {left : ℕ} {size size' : ℤ},
      s.writeLoop K fuel x body left size = (size', s') → OnlyWrites s s' := by
  induction fuel with
  | zero =>
      intro s s' x body left size size' h
      cases h
      exact .of_eq rfl
  | succ fuel ih =>
      intro s s' x body left size size' h
      rw [Net.writeLoop] at h
      split at h
      · cases h
        exact .of_eq rfl
      · cases hw : s.write K x (body.take left) with
        | mk r s₁ =>
            have hwrites := onlyWrites_write hw
            rw [hw] at h
            cases r with
            | error e =>
                cases h
                exact hwrites
            | ok n => exact hwrites.trans (ih h)

theorem onlyWrites_deliverTaken (cfg : ConfigFile) (s : Net κ) (m : Msg) :
    OnlyWrites s (s.deliverTaken K cfg m) := by
  rw [Net.deliverTaken]
  cases s.fdToChannelStatus.get (s.heap m.fd) with
  | none => exact .of_eq rfl
  | some st =>
      dsimp only
      split
      · exact .of_eq rfl
      · cases hloop : s.writeLoop K m.size (s.heap m.fd) m.body m.size (K.garbage s.kernel) with
        | mk size s₁ =>
            have hwrites := onlyWrites_writeLoop _ hloop
            dsimp only
            split
            · exact hwrites.trans (.of_eq (onlyTable_closeConnection s₁ _ _).log)
            · exact hwrites

theorem onlyWrites_enqueueMsg (cfg : ConfigFile) (s : Net κ) (cf : ChannelStatus) (m : Msg) :
    OnlyWrites s (s.enqueueMsg K cfg cf m) := by
  rw [Net.enqueueMsg]
  split
  · exact .of_eq rfl
  · split
    · exact onlyWrites_deliverTaken cfg s m
    · exact .of_eq rfl

theorem onlyWrites_deliverCmd (cfg : ConfigFile) (s : Net κ) (src dst : String) :
    OnlyWrites s (s.deliverCmd K cfg src dst) := by
  rw [Net.deliverCmd]
  dsimp only
  split
  · exact .of_eq rfl
  · rw [Net.deliverMsg]
    cases s.network.get _ with
    | none => exact .of_eq rfl
    | some q =>
        dsimp only
        cases Net.dequeueOpen s.heap q with
        | mk m rest =>
            cases m with
            | none => exact .of_eq rfl
            | some msg =>
                have hwrites := onlyWrites_deliverTaken (K := K) cfg
                  { s with network :=
                      s.network.insert ⟨cfg.getNodeAddr src, cfg.getNodeAddr dst⟩ rest } msg
                exact hwrites

theorem onlyWrites_sendCmd (cfg : ConfigFile) (s : Net κ) (node : String) (text : Bytes) :
    OnlyWrites s (s.sendCmd K cfg node text) := by
  rw [Net.sendCmd]
  dsimp only
  split
  · exact .of_eq rfl
  · cases s.clientToFd.get (cfg.getNodeAddr node) with
    | none => exact .of_eq rfl
    | some x =>
        dsimp only
        cases hw : s.write K x _ with
        | mk r s₁ =>
            cases r with
            | ok n => exact onlyWrites_write hw
            | error e => exact (onlyWrites_write hw).trans (.of_eq rfl)

/-- Only an event of a connection receives. -/
theorem onlyWrites_step {s s' : Net κ} {act : Act} (hact : ∀ x, act ≠ .readable x)
    (hstep : act.Step K cfg s s') : OnlyWrites s s' := by
  obtain ⟨-, hstep⟩ := hstep
  cases act with
  | readable x => exact absurd rfl (hact x)
  | accept =>
      subst hstep
      exact .of_eq (log_acceptEvent s)
  | deliver src dst =>
      subst hstep
      exact onlyWrites_deliverCmd cfg s src dst
  | partition node =>
      subst hstep
      exact .of_eq (log_partitionWith s node false false)
  | recover node =>
      subst hstep
      exact .of_eq (log_partitionWith s node true true)
  | cmd node text =>
      subst hstep
      exact onlyWrites_sendCmd cfg s node text
  | environment =>
      obtain ⟨k, -, rfl⟩ := hstep
      exact .of_eq rfl

/-! ### Ends -/

/-- An end that is open afterwards was open before, or it is new. -/
def OldOrNew (s s' : Net κ) : Prop :=
  ∀ x st', s'.fdToChannelStatus.get x = some st' →
    (∃ st, s.fdToChannelStatus.get x = some st ∧ st.toEnd = st'.toEnd) ∨ s.nextCell ≤ st'.fd

theorem OldOrNew.of_shrinks {s s' : Net κ} (h : Shrinks s s') : OldOrNew s s' := by
  intro x st' hst'
  obtain ⟨st, hst, hr⟩ := h x st' hst'
  exact Or.inl ⟨st, hst, hr.toEnd_eq.symm⟩

theorem Atom.ends {s s' : Net κ} (h : Atom K R s s') : OldOrNew s s' := by
  cases h with
  | tag _ => exact .of_shrinks (shrinks_closeConnection s _ true)
  | closePair _ => exact .of_shrinks (shrinks_closeConnection s _ false)
  | untag _ =>
      intro x st' hst'
      obtain ⟨st, hst, hchannel, hself, hfd, -⟩ := get_setDisconnected hst'
      refine Or.inl ⟨st, hst, ?_⟩
      rw [ChannelStatus.toEnd, ChannelStatus.toEnd, hchannel, hself, hfd]
  | connect _ _ _ _ _ =>
      intro x st' hst'
      rcases get_addFdToChannel hst' with ⟨-, rfl⟩ | ⟨-, -, rfl⟩ | ⟨-, -, hst⟩
      · exact Or.inr le_rfl
      · exact Or.inr (Nat.le_succ _)
      · exact Or.inl ⟨st', hst, rfl⟩
  | _ => exact .of_shrinks (.of_eq rfl)

theorem Path.ends {s s' : Net κ} (hs : s.Consistent K) (h : Path K R s s') : OldOrNew s s' := by
  suffices hboth : OldOrNew s s' ∧ s.nextCell ≤ s'.nextCell from hboth.1
  induction h with
  | refl => exact ⟨fun x st hst => Or.inl ⟨st, hst, rfl⟩, le_rfl⟩
  | tail hrest hatom ih =>
      obtain ⟨hends, hle⟩ := ih
      refine ⟨fun x st'' hst'' => ?_, hle.trans (hatom.cellsKept (hs.path hrest)).2⟩
      rcases hatom.ends x st'' hst'' with ⟨st', hst', hend⟩ | hnew
      · have hfd : st'.fd = st''.fd := congrArg End.fd hend
        rw [← hend, ← hfd]
        exact hends x st' hst'
      · exact Or.inr (hle.trans hnew)

/-- With the direct strategy a failed delivery closes the connection, otherwise a message
is queued. -/
theorem kept_enqueueMsg (s : Net κ) (cf : ChannelStatus) (m : Msg) :
    Kept s (s.enqueueMsg K cfg cf m) := by
  rw [Net.enqueueMsg]
  split
  · exact fun _ _ ht => ht
  · split
    · rename_i hdirect
      rw [Net.deliverTaken]
      cases hst : s.fdToChannelStatus.get (s.heap m.fd) with
      | none => exact fun _ _ ht => ht
      | some st =>
          dsimp only
          cases htag : st.disconnected with
          | true => exact fun _ _ ht => ht
          | false =>
              rw [if_neg (by decide)]
              cases hloop : s.writeLoop K m.size (s.heap m.fd) m.body m.size (K.garbage s.kernel) with
              | mk size s₁ =>
                  have hio := (Path.writeLoop (R := .delivering) trivial _ hloop hst htag).2
                  rw [hdirect]
                  dsimp only
                  split
                  · exact fun x t ht => hio.leaves.kept x t (kept_closeConnection s₁ _ x t ht)
                  · exact hio.leaves.kept
    · exact fun _ _ ht => ht

/-! ### The invariant -/

/-- The messages that were received on the end are the frames of what came in first. As
long as the end is open, they are the frames of all that came in. -/
structure Net.Aligned (s : Net κ) (e : End) : Prop where
  upTo : ∃ t, t <+: cameIn s.log e ∧ msgFraming.Frames t (receivedOn s.log e)
  whileOpen : ∀ x st, s.fdToChannelStatus.get x = some st → st.toEnd = e →
    msgFraming.Frames (cameIn s.log e) (receivedOn s.log e)

/-- Nothing is received on the end. -/
theorem Net.Aligned.of_eq {s s' : Net κ} {e : End} (h : s.Aligned e)
    (hin : cameIn s'.log e = cameIn s.log e) (hreceived : receivedOn s'.log e = receivedOn s.log e)
    (hends : ∀ x st', s'.fdToChannelStatus.get x = some st' → st'.toEnd = e →
      ∃ y st, s.fdToChannelStatus.get y = some st ∧ st.toEnd = e) : s'.Aligned e := by
  refine ⟨?_, fun x st' hst' hend => ?_⟩
  · rw [hin, hreceived]
    exact h.upTo
  · obtain ⟨y, st, hst, hold⟩ := hends x st' hst' hend
    rw [hin, hreceived]
    exact h.whileOpen y st hst hold

theorem Net.Aligned.of_kept {s s' : Net κ} {e : End} (h : s.Aligned e) (hlog : s'.log = s.log)
    (hkept : Kept s s') : s'.Aligned e :=
  h.of_eq (by rw [hlog]) (by rw [hlog]) fun x st hst hend => ⟨x, st, hkept x st hst, hend⟩

/-- Bytes that are received on an end in one piece. If they are a message, it is the next
frame; otherwise the connection is closed. -/
theorem Net.Aligned.received {s s' : Net κ} {e : End} (h : s.Aligned e) {st : ChannelStatus}
    {data : Bytes} {log : List Event} (hst : s.fdToChannelStatus.get fd = some st)
    (hlog : log = s.log ++ [.received fd (some st) data]) (hin : cameIn s'.log e = cameIn log e)
    (hreceived : receivedOn s'.log e = receivedOn log e) (hkept : Kept s s')
    (hnext : st.toEnd = e → messageBody data = none →
      ∀ x t, s'.fdToChannelStatus.get x = some t → t.toEnd ≠ e) : s'.Aligned e := by
  rw [hlog, cameIn_snoc, cameIn_received] at hin
  rw [hlog, receivedOn_snoc, Event.receivedOn] at hreceived
  by_cases hend : st.toEnd = e
  · rw [if_pos hend] at hin hreceived
    have hframed := h.whileOpen fd st hst hend
    cases hbody : messageBody data with
    | none =>
        rw [hbody, Option.toList_none, List.append_nil] at hreceived
        refine ⟨⟨cameIn s.log e, ?_, ?_⟩, fun x t ht hend' => ?_⟩
        · rw [hin]
          exact List.prefix_append _ _
        · rw [hreceived]
          exact hframed
        · exact absurd hend' (hnext hend hbody x t ht)
    | some body =>
        -- one more frame
        have hparse : msgFraming.parse data = some [body] := by
          rw [messageBody] at hbody
          split at hbody
          · cases hbody
            assumption
          · cases hbody
        have hgrown : msgFraming.Frames (cameIn s'.log e) (receivedOn s'.log e) := by
          rw [hin, hreceived, hbody]
          exact hframed.append (Framing.parse_eq_some_iff.mp hparse)
        exact ⟨⟨_, List.prefix_refl _, hgrown⟩, fun _ _ _ _ => hgrown⟩
  · rw [if_neg hend, List.append_nil] at hin
    rw [if_neg hend, Option.toList_none, List.append_nil] at hreceived
    exact h.of_eq hin hreceived fun x t ht hend' => ⟨x, t, hkept x t ht, hend'⟩

theorem Net.Aligned.move (hpeek : K.PeekKeeps) {s s' : Net κ} {e : End} (h : s.Aligned e)
    (hs : s.Consistent K)
    (hframed : raw → ∀ st, s.fdToChannelStatus.get fd = some st → st.toEnd ≠ e)
    (hmove : Net.Move K cfg fd raw s s') : s'.Aligned e ∧ Kept s s' := by
  cases hmove with
  | io hio hlog => exact ⟨h.of_kept hlog hio.leaves.kept, hio.leaves.kept⟩
  | loose hst => exact ⟨h.of_kept rfl fun _ _ ht => ht, fun _ _ ht => ht⟩
  | closed _ =>
      have hkept := kept_closeConnection (K := K) s fd
      exact ⟨h.of_kept (onlyTable_closeConnection s fd false).log hkept, hkept⟩
  | @torn s₁ s₂ next st content _ hr _ hst hr₂ _ =>
      have hio := (onlyIO_recv hr).trans (onlyIO_recv hr₂)
      have hlog : (s₂.closeConnection K fd false).log
          = s.log ++ [.received fd (some st) content] := by
        rw [(onlyTable_closeConnection s₂ fd false).log,
          log_recv_ok (show RecvFlags.waitall ≠ .peekDontwait by decide) hr₂, log_recv_peek hr, hst]
      have hkept : Kept s (s₂.closeConnection K fd false) := fun x t ht =>
        hio.leaves.kept x t (kept_closeConnection s₂ fd x t ht)
      rw [(onlyIO_recv hr).fdToChannelStatus] at hst
      have hst₂ : s₂.fdToChannelStatus.get fd = some st := by rw [hio.fdToChannelStatus, hst]
      refine ⟨h.received hst hlog rfl rfl hkept ?_, hkept⟩
      rintro rfl - x t ht
      exact ((hio.keeps hs).ne_of_closed hst₂ ht).1
  | @lost s₁ s₂ st data hraw _ hst hr hio hlog =>
      have hkept : Kept s (s₂.closeConnection K fd false) := fun x t ht =>
        ((onlyIO_recv hr).trans hio).leaves.kept x t (kept_closeConnection s₂ fd x t ht)
      have hlog₂ : (s₂.closeConnection K fd false).log = s.log ++ [.received fd (some st) data] := by
        rw [(onlyTable_closeConnection s₂ fd false).log, hlog, log_recv_ok (by decide) hr, hst]
      refine ⟨h.received hst hlog₂ rfl rfl hkept ?_, hkept⟩
      exact fun hend => absurd hend (hframed hraw st hst)
  | unintercept _ _ => exact ⟨h.of_kept rfl fun _ _ ht => ht, fun _ _ ht => ht⟩
  | @message s₁ s₂ next st m _ htakes =>
      have hio := (onlyIO_recv htakes.peek).trans (onlyIO_recv htakes.recv)
      have hwrites := onlyWrites_enqueueMsg (K := K) cfg s₂ st m
      have hlog : s₂.log = s.log ++ [.received fd (some st) m.content] := by
        rw [log_recv_ok (show RecvFlags.waitall ≠ .peekDontwait by decide) htakes.recv,
          log_recv_peek htakes.peek, htakes.entry]
      have hst := htakes.entry
      rw [(onlyIO_recv htakes.peek).fdToChannelStatus] at hst
      have hkept : Kept s (s₂.enqueueMsg K cfg st m) := fun x t ht =>
        hio.leaves.kept x t (kept_enqueueMsg s₂ st m x t ht)
      refine ⟨h.received hst hlog (hwrites.cameIn e) (hwrites.receivedOn e) hkept ?_, hkept⟩
      intro _ hbody
      rw [htakes.taken.messageBody_eq hpeek] at hbody
      cases hbody
  | @chunk s₁ s₂ st data n hraw _ hst hr hw =>
      have hio := (onlyIO_recv hr).trans (onlyIO_write hw)
      have hwrites := onlyWrites_write hw
      have hlog : s₁.log = s.log ++ [.received fd (some st) data] := by
        rw [log_recv_ok (by decide) hr, hst]
      refine ⟨h.received hst hlog (hwrites.cameIn e) (hwrites.receivedOn e) hio.leaves.kept ?_,
        hio.leaves.kept⟩
      exact fun hend => absurd hend (hframed hraw st hst)

theorem Net.Aligned.moves (hpeek : K.PeekKeeps) {s s' : Net κ} {e : End} (h : s.Aligned e)
    (hs : s.Consistent K) (hclient : s.fdToClient.get fd = none)
    (hframed : raw → ∀ st, s.fdToChannelStatus.get fd = some st → st.toEnd ≠ e)
    (hmoves : Net.Moves K cfg fd raw s s') : s'.Aligned e ∧ Kept s s' := by
  induction hmoves with
  | refl => exact ⟨h, fun _ _ ht => ht⟩
  | tail hrest hmove ih =>
      obtain ⟨haligned, hkept⟩ := ih
      obtain ⟨hs₁, -⟩ := Net.Moves.consistent hrest hs hclient
      -- what passes through is the same end all along
      obtain ⟨haligned', hkept'⟩ := haligned.move hpeek hs₁
        (fun hraw st hst => hframed hraw st (hkept fd st hst)) hmove
      exact ⟨haligned', fun x t ht => hkept x t (hkept' x t ht)⟩

/-! ### Runs -/

/-- A new end has received nothing, and neither has its log. -/
theorem Net.Registered.aligned {reg : ℕ → Option End} {s : Net κ} (h : s.Registered reg) {e : End}
    (hfd : s.nextCell ≤ e.fd) : cameIn s.log e = [] ∧ receivedOn s.log e = [] :=
  ⟨cameIn_eq_nil fun _ hev _ hst => (h.fresh hfd hev hst).1,
    receivedOn_eq_nil fun _ hev _ hst => (h.fresh hfd hev hst).1⟩

theorem Net.Aligned.step (hpeek : K.PeekKeeps) {reg : ℕ → Option End} {s s' : Net κ} {act : Act}
    {e : End} (h : s.Aligned e) (hs : s.Consistent K) (hreg : s.Registered reg)
    (hstep : act.Step K cfg s s') (hpasses : ¬ PassesFrom K cfg e ⟨s, act, s'⟩) : s'.Aligned e := by
  by_cases hact : ∃ x, act = .readable x
  · obtain ⟨fd, rfl⟩ := hact
    obtain ⟨-, fuel, hstep⟩ := hstep
    cases hclient : s.fdToClient.get fd with
    | none =>
        rw [Net.readEvent, hclient] at hstep
        refine (h.moves hpeek hs hclient (fun hthrough st hst hend => ?_)
          (doReceive_moves hstep)).1
        exact hpasses ⟨fd, st, rfl, hst, hend, hthrough⟩
    | some client =>
        obtain ⟨r, s₁, hr, hends⟩ := readEvent_client hclient hstep
        have hpeeked := h.of_kept (log_recv_peek hr) (onlyIO_recv hr).leaves.kept
        rcases hends with rfl | rfl
        · exact hpeeked
        · exact hpeeked.of_kept rfl fun _ _ ht => ht
  · rw [not_exists] at hact
    have hwrites := onlyWrites_step hact hstep
    refine ⟨?_, fun x st' hst' hend => ?_⟩
    · rw [hwrites.cameIn, hwrites.receivedOn]
      exact h.upTo
    · rw [hwrites.cameIn, hwrites.receivedOn]
      rcases Path.ends hs (Act.Step.path hs.apart hstep) x st' hst' with ⟨st, hst, hold⟩ | hnew
      · exact h.whileOpen x st hst (hold.trans hend)
      · -- a new connection
        have hfd : s.nextCell ≤ e.fd := by
          rw [← hend]
          exact hnew
        obtain ⟨hin, hreceived⟩ := hreg.aligned hfd
        rw [hin, hreceived]
        exact .nil

theorem Net.Aligned.of_run (hpeek : K.PeekKeeps) {tr : List (Step (Net κ) Act)} {s : Net κ}
    (h : (tcpNetwork K cfg).Run tr s) {e : End} (hpasses : ∀ t ∈ tr, ¬ PassesFrom K cfg e t) :
    s.Aligned e := by
  refine h.invariant (P := fun tr s => (∀ t ∈ tr, ¬ PassesFrom K cfg e t) → s.Aligned e) ?_ ?_
    hpasses
  · rintro s ⟨htable, -, -, -, -, -, hlog⟩ -
    refine ⟨?_, fun x st hst => ?_⟩
    · rw [hlog]
      exact ⟨[], List.nil_prefix, .nil⟩
    · rw [htable] at hst
      cases hst
  · intro tr s act s' hrun ih hstep hpasses
    obtain ⟨reg, hreg⟩ := Net.Registered.of_run hrun
    refine (ih fun t ht => hpasses t ?_).step hpeek (.of_run hrun) hreg hstep
      (hpasses _ (by simp))
    exact List.mem_append_left _ ht

/-- In every run, with any strategy and any commands: on an end from which nothing passes
through, the messages that were received are the frames of what came in, up to the byte at
which the connection was closed; on an open connection they are the frames of all of it. -/
theorem messages_aligned (hpeek : K.PeekKeeps) {tr : List (Step (Net κ) Act)} {s : Net κ}
    (h : (tcpNetwork K cfg).Run tr s) {e : End} (hpasses : ∀ t ∈ tr, ¬ PassesFrom K cfg e t) :
    (∃ t, t <+: cameIn s.log e ∧ msgFraming.Frames t (receivedOn s.log e))
      ∧ ∀ fd st, s.fdToChannelStatus.get fd = some st → st.toEnd = e →
        msgFraming.Frames (cameIn s.log e) (receivedOn s.log e) :=
  have haligned := Net.Aligned.of_run hpeek h hpasses
  ⟨haligned.upTo, haligned.whileOpen⟩

namespace Demo

/-- Two messages have come in from `n1`, and they are queued. -/
theorem messages_aligned_queued :
    cameIn queuedTwo.log firstEnd = twoFramed ∧ receivedOn queuedTwo.log firstEnd = [[65], [66]]
      ∧ msgFraming.Frames (cameIn queuedTwo.log firstEnd) (receivedOn queuedTwo.log firstEnd) :=
  ⟨by decide, by decide, (messages_aligned (peekKeeps_streamKernel Addr Ctl) run_queuedTwo
    not_passesFrom_queueingTwo).2 1 ⟨firstEnd.channel, 0, 1, false⟩ (by decide) rfl⟩

end Demo

end Tmet.Tproxy
