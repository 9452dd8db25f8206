import Tmet.Proofs.Tproxy.Moves

/-!
# `Tmet.Proofs.Tproxy.Direct`: the direct strategy is transparent

With the direct strategy `main` runs nothing but `run_epoll`: no command is read, and no
connection is ever tagged as disconnected. What comes in on an end is a sequence of messages,
and behind them, if the stream was found to be no longer framed, bytes that pass as they
are. `Through` is the meaning of such bytes: the bodies, then the rest.

`Turn` is what a move of `do_receive` does to the bytes that came in and went out, and
`Net.Forwards` is what every turn keeps: on an open connection the meaning of what came in
has been written to the other end; a connection that was closed has lost no more than what
came last.
-/

set_option autoImplicit false

namespace Tmet.Tproxy

open Tmet.Lib Tmet.Posix

variable {κ : Type} {K : Kernel κ Ctl Addr} {cfg : ConfigFile} {fd : Fd} {raw : Prop}

/-- A handler of `run_epoll`, or something outside of the process. -/
def Act.Handles : Act → Prop
  | .accept | .readable _ | .environment => True
  | .deliver _ _ | .partition _ | .recover _ | .cmd _ _ => False

/-! ### The meaning of a stream -/

/-- `t` is a sequence of messages with some bytes behind it; `out` are the bodies, and then
these bytes. -/
def Through (t out : Bytes) : Prop :=
  ∃ framed rest content, t = framed ++ rest ∧ msgFraming.Carries framed content
    ∧ out = content ++ rest

theorem Through.of_carries {t out : Bytes} (h : msgFraming.Carries t out) : Through t out :=
  ⟨t, [], out, (List.append_nil t).symm, h, (List.append_nil out).symm⟩

theorem carries_nil : msgFraming.Carries [] [] := ⟨[], .nil, rfl⟩

/-- More bytes that pass as they are. -/
theorem Through.append {t out : Bytes} (h : Through t out) (data : Bytes) :
    Through (t ++ data) (out ++ data) := by
  obtain ⟨framed, rest, content, rfl, hcarries, rfl⟩ := h
  exact ⟨framed, rest ++ data, content, List.append_assoc _ _ _, hcarries,
    List.append_assoc _ _ _⟩

/-! ### What a move does to the streams -/

/-- What a move of `do_receive` does to the bytes that came in and went out. -/
inductive Turn (fd : Fd) (raw : Prop) (s s' : Net κ) : Prop
  | quiet : s'.log = s.log → Leaves s s' → Turn fd raw s s'
  /-- A message, and its body is written. -/
  | message {st : ChannelStatus} {content body : Bytes} :
      fd ∉ s.uninterceptedFd → s.fdToChannelStatus.get fd = some st →
      msgFraming.Frames content [body] →
      (∀ e, cameIn s'.log e = cameIn s.log e ++ if st.toEnd = e then content else []) →
      (∀ e, wentOut s'.log e = wentOut s.log e ++ if st.toEnd.peer = e then body else []) →
      Leaves s s' → Turn fd raw s s'
  /-- Bytes that pass as they are. -/
  | chunk {st : ChannelStatus} {data : Bytes} :
      raw → fd ∈ s.uninterceptedFd → s.fdToChannelStatus.get fd = some st →
      (∀ e, cameIn s'.log e = cameIn s.log e ++ if st.toEnd = e then data else []) →
      (∀ e, wentOut s'.log e = wentOut s.log e ++ if st.toEnd.peer = e then data else []) →
      Leaves s s' → Turn fd raw s s'
  /-- Bytes that are lost, and the connection is closed. -/
  | lost {st : ChannelStatus} {data : Bytes} :
      (∀ e, cameIn s'.log e = cameIn s.log e ++ if st.toEnd = e then data else []) →
      (∀ e, wentOut s'.log e = wentOut s.log e) →
      (∀ x t, s'.fdToChannelStatus.get x = some t → t.toEnd ≠ st.toEnd) →
      Leaves s s' → Turn fd raw s s'

theorem Turn.kept {s s' : Net κ} (h : Turn fd raw s s') : Kept s s' := by
  cases h with
  | quiet _ hleaves | message _ _ _ _ _ hleaves | chunk _ _ _ _ _ hleaves | lost _ _ _ hleaves =>
      exact hleaves.kept

theorem turn_lost {s s' : Net κ} {st : ChannelStatus} {data : Bytes}
    (hlog : s'.log = s.log ++ [.received fd (some st) data])
    (hclosed : ∀ x t, s'.fdToChannelStatus.get x = some t → t.toEnd ≠ st.toEnd)
    (hleaves : Leaves s s') : Turn fd raw s s' := by
  have hin (e : End) : cameIn s'.log e = cameIn s.log e ++ if st.toEnd = e then data else [] := by
    rw [hlog, cameIn_snoc, cameIn_received]
  exact .lost hin (by simp [hlog]) hclosed hleaves

/-- With a `write` that takes everything or fails, the loop of `deliver_msg` writes the
whole body or ends with -1. -/
theorem writeLoop_full (hfull : K.WritesInFull) {s s' : Net κ} {x : Fd} {body : Bytes}
    {size size' : ℤ} (h : s.writeLoop K body.length x body body.length size = (size', s')) :
    s'.log = s.log ∧ (body = [] ∨ size' = -1)
      ∨ s'.log = s.log ++ [.wrote x (s.fdToChannelStatus.get x) body] ∧ size' ≠ -1 := by
  cases body with
  | nil =>
      cases h
      exact Or.inl ⟨rfl, Or.inl rfl⟩
  | cons b bs =>
      rw [List.length_cons, Net.writeLoop, if_neg (Nat.succ_ne_zero _), ← List.length_cons,
        List.take_length] at h
      cases hw : s.write K x (b :: bs) with
      | mk r s₁ =>
          rw [hw] at h
          cases r with
          | error e =>
              cases h
              exact Or.inl ⟨log_write_error hw, Or.inr rfl⟩
          | ok n =>
              have hn : n = (b :: bs).length := by
                have hanswer : (s.write K x (b :: bs)).1 = .ok n := by rw [hw]
                exact hfull hanswer
              subst hn
              -- nothing is left
              dsimp only at h
              rw [Nat.sub_self] at h
              have hdone {z : ℤ} : s₁.writeLoop K bs.length x (b :: bs) 0 z = (z, s₁) := by
                cases bs.length <;> rfl
              rw [hdone] at h
              cases h
              exact Or.inr ⟨log_write_ok hfull hw, by omega⟩

/-- A message that was taken is written, or the connection is closed. -/
theorem turn_message (hdirect : cfg.isDirect = true) (hfull : K.WritesInFull)
    (hpeek : K.PeekKeeps) {s s₁ s₂ : Net κ} {next : MsgHeader} {st : ChannelStatus} {m : Msg}
    (hs : s.Consistent K) (hintact : st.disconnected = false)
    (hintact' : ∀ x t, s.fdToChannelStatus.get x = some t → t.disconnected = false)
    (huntagged : fd ∉ s.uninterceptedFd) (h : Net.TakesMessage K s s₁ s₂ fd next st m) :
    Turn fd raw s (s₂.enqueueMsg K cfg st m) := by
  have hio := (onlyIO_recv h.peek).trans (onlyIO_recv h.recv)
  have hst : s.fdToChannelStatus.get fd = some st := by
    rw [← (onlyIO_recv h.peek).fdToChannelStatus]
    exact h.entry
  obtain ⟨st', hp⟩ := hs.linked fd st hst
  have hlog : s₂.log = s.log ++ [.received fd (some st) m.content] := by
    rw [log_recv_ok (show RecvFlags.waitall ≠ .peekDontwait by decide) h.recv,
      log_recv_peek h.peek, h.entry]
  have hheap : s₂.heap m.fd = s.heap st.fd := by rw [h.fd_eq, hio.heap]
  have hst' : s₂.fdToChannelStatus.get (s₂.heap m.fd) = some st' := by
    rw [hheap, hio.fdToChannelStatus, hp.peer]
  have hbody : m.body.length = m.size := by
    rw [Msg.body, List.length_drop, h.length]
    omega
  rw [Net.enqueueMsg, if_neg (by simp [hintact]), if_pos hdirect, Net.deliverTaken, hst']
  dsimp only
  rw [if_neg (by simp [hintact' _ _ hp.peer]), ← hbody]
  cases hloop : s₂.writeLoop K m.body.length (s₂.heap m.fd) m.body m.body.length
    (K.garbage s₂.kernel) with
  | mk size s₃ =>
      have hio₃ := hio.trans (Path.writeLoop (R := .delivering) trivial _ hloop hst'
        (hintact' _ _ hp.peer)).2
      have hwritten := writeLoop_full hfull hloop
      rw [hst', hlog] at hwritten
      dsimp only
      by_cases hsize : size = -1
      · -- nothing was written, and the connection is closed
        have hlog₃ : s₃.log = s.log ++ [.received fd (some st) m.content] := by
          rcases hwritten with ⟨hlog₃, -⟩ | ⟨-, hne⟩
          · exact hlog₃
          · exact absurd hsize hne
        have hs₃ := hio₃.keeps hs
        have hp₃ : s₃.fdToChannelStatus.get (s₂.heap m.fd) = some st' := by
          rw [hio₃.fdToChannelStatus, hheap, hp.peer]
        rw [if_pos hsize, hdirect, Bool.not_true]
        have hlog' : (s₃.closeConnection K (s₂.heap m.fd) false).log
            = s.log ++ [.received fd (some st) m.content] := by
          rw [(onlyTable_closeConnection s₃ _ false).log, hlog₃]
        refine turn_lost hlog' (fun x t ht => ?_)
          (hio₃.leaves.trans (leaves_closeConnection hs₃ _))
        have hne := (hs₃.ne_of_closed hp₃ ht).2
        rwa [hp.toEnd_eq, End.peer_peer] at hne
      · rw [if_neg hsize]
        refine .message huntagged hst (h.taken.frames hpeek) ?_ ?_ hio₃.leaves
        · intro e
          rcases hwritten with ⟨hlog₃, -⟩ | ⟨hlog₃, -⟩
          · rw [hlog₃, cameIn_snoc, cameIn_received]
          · rw [hlog₃, cameIn_snoc, cameIn_snoc, cameIn_received, cameIn_wrote, List.append_nil]
        · intro e
          rcases hwritten with ⟨hlog₃, hnil | hneg⟩ | ⟨hlog₃, -⟩
          · simp [hlog₃, hnil]
          · exact absurd hneg hsize
          · rw [hlog₃, wentOut_snoc, wentOut_snoc, writtenTo_wrote, hp.toEnd_eq]
            split <;> simp

/-- Every move is a turn. -/
theorem Net.Move.turn (hdirect : cfg.isDirect = true) (hfull : K.WritesInFull)
    (hpeek : K.PeekKeeps) {s s' : Net κ} (hs : s.Consistent K)
    (hintact : ∀ x t, s.fdToChannelStatus.get x = some t → t.disconnected = false)
    (h : Net.Move K cfg fd raw s s') : Turn fd raw s s' := by
  cases h with
  | io hio hlog => exact .quiet hlog hio.leaves
  | loose hst => exact .quiet rfl (.of_eq rfl (Finset.Subset.refl _))
  | closed _ =>
      exact .quiet (onlyTable_closeConnection s fd false).log (leaves_closeConnection hs fd)
  | @torn s₁ s₂ next st content _ hr _ hst hr₂ _ =>
      have hio := (onlyIO_recv hr).trans (onlyIO_recv hr₂)
      have hs₂ := hio.keeps hs
      have hlog : (s₂.closeConnection K fd false).log
          = s.log ++ [.received fd (some st) content] := by
        rw [(onlyTable_closeConnection s₂ fd false).log,
          log_recv_ok (show RecvFlags.waitall ≠ .peekDontwait by decide) hr₂, log_recv_peek hr, hst]
      rw [← (onlyIO_recv hr₂).fdToChannelStatus] at hst
      exact turn_lost hlog (fun x t ht => (hs₂.ne_of_closed hst ht).1)
        (hio.leaves.trans (leaves_closeConnection hs₂ fd))
  | @lost s₁ s₂ st data _ _ hst hr hio hlog =>
      have hio' := (onlyIO_recv hr).trans hio
      have hs₂ := hio'.keeps hs
      have hlog₂ : (s₂.closeConnection K fd false).log = s.log ++ [.received fd (some st) data] := by
        rw [(onlyTable_closeConnection s₂ fd false).log, hlog, log_recv_ok (by decide) hr, hst]
      rw [← hio'.fdToChannelStatus] at hst
      exact turn_lost hlog₂ (fun x t ht => (hs₂.ne_of_closed hst ht).1)
        (hio'.leaves.trans (leaves_closeConnection hs₂ fd))
  | unintercept _ _ => exact .quiet rfl (.of_eq rfl (Finset.subset_insert fd _))
  | message huntagged htakes =>
      have hst := htakes.entry
      rw [(onlyIO_recv htakes.peek).fdToChannelStatus] at hst
      exact turn_message hdirect hfull hpeek hs (hintact fd _ hst) hintact huntagged htakes
  | @chunk s₁ s₂ st data n hraw htagged hst hr hw =>
      obtain ⟨st', hp⟩ := hs.linked fd st hst
      have hio := onlyIO_recv hr
      have hlog : s'.log = s.log ++ [.received fd (some st) data]
          ++ [.wrote (s.heap st.fd) (some st') data] := by
        rw [log_write_ok hfull hw, log_recv_ok (by decide) hr, hst, hio.fdToChannelStatus, hp.peer]
      have hin (e : End) : cameIn s'.log e
          = cameIn s.log e ++ if st.toEnd = e then data else [] := by
        rw [hlog, cameIn_snoc, cameIn_snoc, cameIn_received, cameIn_wrote, List.append_nil]
      refine .chunk hraw htagged hst hin (fun e => ?_) (hio.trans (onlyIO_write hw)).leaves
      rw [hlog, wentOut_snoc, wentOut_snoc, writtenTo_wrote, hp.toEnd_eq]
      split <;> simp

/-! ### The invariant -/

/-- What holds of the streams in the direct strategy. -/
structure Net.Forwards (s : Net κ) : Prop where
  intact : ∀ x st, s.fdToChannelStatus.get x = some st → st.disconnected = false
  through : ∀ x st, s.fdToChannelStatus.get x = some st →
    Through (cameIn s.log st.toEnd) (wentOut s.log st.toEnd.peer)
  carries : ∀ x st, s.fdToChannelStatus.get x = some st → x ∉ s.uninterceptedFd →
    msgFraming.Carries (cameIn s.log st.toEnd) (wentOut s.log st.toEnd.peer)
  upTo : ∀ e, ∃ t, t <+: cameIn s.log e ∧ Through t (wentOut s.log e.peer)

theorem Net.Forwards.of_eq {s s' : Net κ} (h : s.Forwards) (hlog : s'.log = s.log)
    (hleaves : Leaves s s') : s'.Forwards := by
  refine ⟨fun x st hst => h.intact x st (hleaves.kept x st hst), fun x st hst => ?_,
    fun x st hst hx => ?_, fun e => ?_⟩
  · rw [hlog]
    exact h.through x st (hleaves.kept x st hst)
  · rw [hlog]
    exact h.carries x st (hleaves.kept x st hst) fun htag => hx (hleaves.tagged x st hst htag)
  · rw [hlog]
    exact h.upTo e

/-- What one end gets more of, and its peer, does not concern another one. -/
theorem append_end_of_ne {e e' : End} (hne : e ≠ e') (data : Bytes) (w : Bytes) :
    (w ++ if e = e' then data else []) = w := by
  rw [if_neg hne, List.append_nil]

/-- Every turn keeps it. -/
theorem Net.Forwards.turn {s s' : Net κ} (h : s.Forwards) (hs : s.Consistent K)
    (hturn : Turn fd raw s s') : s'.Forwards := by
  cases hturn with
  | quiet hlog hleaves => exact h.of_eq hlog hleaves
  | @message st content body huntagged hst hframe hin hout hleaves =>
      have hcontent : msgFraming.Carries content body := ⟨[body], hframe, by simp⟩
      have hgrown : msgFraming.Carries (cameIn s.log st.toEnd ++ content)
          (wentOut s.log st.toEnd.peer ++ body) :=
        (Framing.carries_append_iff (h.carries fd st hst huntagged)).mpr hcontent
      refine ⟨fun x t ht => h.intact x t (hleaves.kept x t ht), fun x t ht => ?_,
        fun x t ht hx => ?_, fun e => ?_⟩
      · rw [hin, hout]
        by_cases hend : st.toEnd = t.toEnd
        · rw [← hend, if_pos rfl, if_pos rfl]
          exact .of_carries hgrown
        · rw [append_end_of_ne hend, append_end_of_ne fun heq => hend (End.peer_inj heq)]
          exact h.through x t (hleaves.kept x t ht)
      · rw [hin, hout]
        by_cases hend : st.toEnd = t.toEnd
        · rw [← hend, if_pos rfl, if_pos rfl]
          exact hgrown
        · rw [append_end_of_ne hend, append_end_of_ne fun heq => hend (End.peer_inj heq)]
          exact h.carries x t (hleaves.kept x t ht) fun htag => hx (hleaves.tagged x t ht htag)
      · rw [hin, hout]
        by_cases hend : st.toEnd = e
        · rw [← hend, if_pos rfl, if_pos rfl]
          exact ⟨_, List.prefix_refl _, .of_carries hgrown⟩
        · rw [append_end_of_ne hend, append_end_of_ne fun heq => hend (End.peer_inj heq)]
          exact h.upTo e
  | @chunk st data _ htagged hst hin hout hleaves =>
      have hgrown := (h.through fd st hst).append data
      refine ⟨fun x t ht => h.intact x t (hleaves.kept x t ht), fun x t ht => ?_,
        fun x t ht hx => ?_, fun e => ?_⟩
      · rw [hin, hout]
        by_cases hend : st.toEnd = t.toEnd
        · rw [← hend, if_pos rfl, if_pos rfl]
          exact hgrown
        · rw [append_end_of_ne hend, append_end_of_ne fun heq => hend (End.peer_inj heq)]
          exact h.through x t (hleaves.kept x t ht)
      · have hold := hleaves.kept x t ht
        rw [hin, hout]
        by_cases hend : st.toEnd = t.toEnd
        · -- the descriptor of this end is tagged
          obtain rfl := hs.fd_unique hst hold hend
          exact absurd (hleaves.tagged fd t ht htagged) hx
        · rw [append_end_of_ne hend, append_end_of_ne fun heq => hend (End.peer_inj heq)]
          exact h.carries x t hold fun htag => hx (hleaves.tagged x t ht htag)
      · rw [hin, hout]
        by_cases hend : st.toEnd = e
        · rw [← hend, if_pos rfl, if_pos rfl]
          exact ⟨_, List.prefix_refl _, hgrown⟩
        · rw [append_end_of_ne hend, append_end_of_ne fun heq => hend (End.peer_inj heq)]
          exact h.upTo e
  | @lost st data hin hout hclosed hleaves =>
      have hother {x : Fd} {t : ChannelStatus} (ht : s'.fdToChannelStatus.get x = some t) :
          cameIn s'.log t.toEnd = cameIn s.log t.toEnd := by
        rw [hin, append_end_of_ne (hclosed x t ht).symm]
      refine ⟨fun x t ht => h.intact x t (hleaves.kept x t ht), fun x t ht => ?_,
        fun x t ht hx => ?_, fun e => ?_⟩
      · rw [hother ht, hout]
        exact h.through x t (hleaves.kept x t ht)
      · rw [hother ht, hout]
        exact h.carries x t (hleaves.kept x t ht) fun htag => hx (hleaves.tagged x t ht htag)
      · obtain ⟨t, ht, hthrough⟩ := h.upTo e
        rw [hin, hout]
        exact ⟨t, ht.trans (List.prefix_append _ _), hthrough⟩

theorem Net.Forwards.moves (hdirect : cfg.isDirect = true) (hfull : K.WritesInFull)
    (hpeek : K.PeekKeeps) {s s' : Net κ} (h : s.Forwards) (hs : s.Consistent K)
    (hclient : s.fdToClient.get fd = none) (hmoves : Net.Moves K cfg fd raw s s') :
    s'.Forwards := by
  induction hmoves with
  | refl => exact h
  | tail hrest hmove ih =>
      obtain ⟨hs₁, -⟩ := Net.Moves.consistent hrest hs hclient
      exact ih.turn hs₁ (hmove.turn hdirect hfull hpeek hs₁ ih.intact)

/-- Nothing has come in on a new connection. -/
theorem Net.Forwards.accept {reg : ℕ → Option End} {s : Net κ} (h : s.Forwards)
    (hreg : s.Registered reg) : (s.acceptEvent K cfg).Forwards := by
  have hlog : (s.acceptEvent K cfg).log = s.log := log_acceptEvent s
  have hui : (s.acceptEvent K cfg).uninterceptedFd = s.uninterceptedFd :=
    uninterceptedFd_acceptEvent s
  have hfresh {st : ChannelStatus} (hfd : s.nextCell ≤ st.fd) :
      cameIn s.log st.toEnd = [] ∧ wentOut s.log st.toEnd.peer = [] := by
    exact ⟨cameIn_eq_nil fun ev hev t ht => (hreg.fresh (e := st.toEnd) hfd hev ht).1,
      wentOut_eq_nil fun ev hev t ht => (hreg.fresh (e := st.toEnd) hfd hev ht).2⟩
  refine ⟨fun x st hst => ?_, fun x st hst => ?_, fun x st hst hx => ?_, fun e => ?_⟩
  · rcases get_acceptEvent hst with hold | ⟨hintact, -⟩
    · exact h.intact x st hold
    · exact hintact
  · rw [hlog]
    rcases get_acceptEvent hst with hold | ⟨-, hfd⟩
    · exact h.through x st hold
    · rw [(hfresh hfd).1, (hfresh hfd).2]
      exact .of_carries carries_nil
  · rw [hlog]
    rcases get_acceptEvent hst with hold | ⟨-, hfd⟩
    · rw [hui] at hx
      exact h.carries x st hold hx
    · rw [(hfresh hfd).1, (hfresh hfd).2]
      exact carries_nil
  · rw [hlog]
    exact h.upTo e

theorem Net.Forwards.step (hdirect : cfg.isDirect = true) (hfull : K.WritesInFull)
    (hpeek : K.PeekKeeps) {reg : ℕ → Option End} {s s' : Net κ} {act : Act} (h : s.Forwards)
    (hs : s.Consistent K) (hreg : s.Registered reg) (hact : act.Handles)
    (hstep : act.Step K cfg s s') : s'.Forwards := by
  obtain ⟨-, hstep⟩ := hstep
  cases act with
  | accept =>
      subst hstep
      exact h.accept hreg
  | readable fd =>
      obtain ⟨fuel, hstep⟩ := hstep
      cases hclient : s.fdToClient.get fd with
      | none =>
          rw [Net.readEvent, hclient] at hstep
          exact h.moves hdirect hfull hpeek hs hclient (doReceive_moves hstep)
      | some client =>
          -- a router's connection is no channel
          obtain ⟨r, s₁, hr, hends⟩ := readEvent_client hclient hstep
          have hpeeked := h.of_eq (log_recv_peek hr) (onlyIO_recv hr).leaves
          rcases hends with rfl | rfl
          · exact hpeeked
          · exact hpeeked.of_eq rfl (.of_eq rfl (Finset.Subset.refl _))
  | environment =>
      obtain ⟨k, -, rfl⟩ := hstep
      exact h.of_eq rfl (.of_eq rfl (Finset.Subset.refl _))
  | deliver _ _ | partition _ | recover _ | cmd _ _ => exact hact.elim

theorem Net.Forwards.init {s : Net κ} (h : s.Initial) : s.Forwards := by
  obtain ⟨htable, -, -, -, -, -, hlog⟩ := h
  refine ⟨fun x st hst => ?_, fun x st hst => ?_, fun x st hst => ?_, fun e => ?_⟩
  · rw [htable] at hst
    cases hst
  · rw [htable] at hst
    cases hst
  · rw [htable] at hst
    cases hst
  · rw [hlog]
    exact ⟨[], List.nil_prefix, .of_carries carries_nil⟩

theorem Net.Forwards.of_run (hdirect : cfg.isDirect = true) (hfull : K.WritesInFull)
    (hpeek : K.PeekKeeps) {tr : List (Step (Net κ) Act)} {s : Net κ}
    (h : (tcpNetwork K cfg).Run tr s) (hacts : ∀ t ∈ tr, t.act.Handles) : s.Forwards := by
  refine h.invariant (P := fun tr s => (∀ t ∈ tr, t.act.Handles) → s.Forwards) ?_ ?_ hacts
  · exact fun s hinit _ => .init hinit
  · intro tr s act s' hrun ih hstep hacts
    obtain ⟨reg, hreg⟩ := Net.Registered.of_run hrun
    refine (ih fun t ht => hacts t ?_).step hdirect hfull hpeek (.of_run hrun) hreg
      (hacts ⟨s, act, s'⟩ (by simp)) hstep
    exact List.mem_append_left _ ht

/-- What was written to the peer is what the messages carry that came in on the end first.
As long as the end is open, it is what all of them carry. -/
structure Net.Carried (s : Net κ) (e : End) : Prop where
  upTo : ∃ t, t <+: cameIn s.log e ∧ msgFraming.Carries t (wentOut s.log e.peer)
  whileOpen : ∀ x st, s.fdToChannelStatus.get x = some st → st.toEnd = e →
    msgFraming.Carries (cameIn s.log e) (wentOut s.log e.peer)

theorem Net.Carried.of_eq {s s' : Net κ} {e : End} (h : s.Carried e) (hlog : s'.log = s.log)
    (hkept : Kept s s') : s'.Carried e := by
  refine ⟨?_, fun x st hst hend => ?_⟩
  · rw [hlog]
    exact h.upTo
  · rw [hlog]
    exact h.whileOpen x st (hkept x st hst) hend

theorem Net.Carried.turn {s s' : Net κ} {e : End} (h : s.Carried e)
    (hframed : raw → ∀ st, s.fdToChannelStatus.get fd = some st → st.toEnd ≠ e)
    (hturn : Turn fd raw s s') : s'.Carried e := by
  -- what happens on another end
  have hother {st : ChannelStatus} {data data' : Bytes} (hend : st.toEnd ≠ e) (hkept : Kept s s')
      (hin : ∀ e, cameIn s'.log e = cameIn s.log e ++ if st.toEnd = e then data else [])
      (hout : ∀ e, wentOut s'.log e
        = wentOut s.log e ++ if st.toEnd.peer = e then data' else []) : s'.Carried e := by
    have hin' := (hin e).trans (append_end_of_ne hend data _)
    have hout' := (hout e.peer).trans
      (append_end_of_ne (fun heq => hend (End.peer_inj heq)) data' _)
    refine ⟨?_, fun x t ht hend' => ?_⟩
    · rw [hin', hout']
      exact h.upTo
    · rw [hin', hout']
      exact h.whileOpen x t (hkept x t ht) hend'
  cases hturn with
  | quiet hlog hleaves => exact h.of_eq hlog hleaves.kept
  | @message st content body _ hst hframe hin hout hleaves =>
      by_cases hend : st.toEnd = e
      · have hgrown : msgFraming.Carries (cameIn s'.log e) (wentOut s'.log e.peer) := by
          rw [hin, hout, ← hend, if_pos rfl, if_pos rfl]
          refine (Framing.carries_append_iff ?_).mpr ⟨[body], hframe, by simp⟩
          exact hend ▸ h.whileOpen fd st hst hend
        exact ⟨⟨_, List.prefix_refl _, hgrown⟩, fun _ _ _ _ => hgrown⟩
      · exact hother hend hleaves.kept hin hout
  | @chunk st data hraw _ hst hin hout hleaves =>
      exact hother (hframed hraw st hst) hleaves.kept hin hout
  | @lost st data hin hout hclosed hleaves =>
      refine ⟨?_, fun x t ht hend => ?_⟩
      · obtain ⟨t, ht, hcarries⟩ := h.upTo
        rw [hin, hout]
        exact ⟨t, ht.trans (List.prefix_append _ _), hcarries⟩
      · have hne : st.toEnd ≠ e := hend ▸ (hclosed x t ht).symm
        rw [hin, hout, append_end_of_ne hne]
        exact h.whileOpen x t (hleaves.kept x t ht) hend

theorem Net.Carried.moves (hdirect : cfg.isDirect = true) (hfull : K.WritesInFull)
    (hpeek : K.PeekKeeps) {s s' : Net κ} {e : End} (h : s.Carried e) (hforwards : s.Forwards)
    (hs : s.Consistent K) (hclient : s.fdToClient.get fd = none)
    (hframed : raw → ∀ st, s.fdToChannelStatus.get fd = some st → st.toEnd ≠ e)
    (hmoves : Net.Moves K cfg fd raw s s') : s'.Carried e := by
  suffices hall : s'.Carried e ∧ Kept s s' from hall.1
  induction hmoves with
  | refl => exact ⟨h, fun _ _ ht => ht⟩
  | tail hrest hmove ih =>
      obtain ⟨hcarried, hkept⟩ := ih
      obtain ⟨hs₁, -⟩ := Net.Moves.consistent hrest hs hclient
      have hintact := (hforwards.moves hdirect hfull hpeek hs hclient hrest).intact
      have hturn := hmove.turn hdirect hfull hpeek hs₁ hintact
      refine ⟨hcarried.turn (fun hraw st hst => hframed hraw st (hkept fd st hst)) hturn, ?_⟩
      exact fun x t ht => hkept x t (hturn.kept x t ht)

theorem Net.Carried.of_run (hdirect : cfg.isDirect = true) (hfull : K.WritesInFull)
    (hpeek : K.PeekKeeps) {tr : List (Step (Net κ) Act)} {s : Net κ}
    (h : (tcpNetwork K cfg).Run tr s) (hacts : ∀ t ∈ tr, t.act.Handles) {e : End}
    (hpasses : ∀ t ∈ tr, ¬ PassesFrom K cfg e t) : s.Carried e := by
  refine h.invariant (P := fun tr s => (∀ t ∈ tr, t.act.Handles) →
    (∀ t ∈ tr, ¬ PassesFrom K cfg e t) → s.Carried e) ?_ ?_ hacts hpasses
  · rintro s hinit - -
    obtain ⟨htable, -, -, -, -, -, hlog⟩ := hinit
    refine ⟨?_, fun x st hst => ?_⟩
    · rw [hlog]
      exact ⟨[], List.nil_prefix, carries_nil⟩
    · rw [htable] at hst
      cases hst
  · intro tr s act s' hrun ih hstep hacts hpasses
    have hbefore : ∀ t ∈ tr, t.act.Handles := fun t ht => hacts t (List.mem_append_left _ ht)
    have hs : s.Consistent K := .of_run hrun
    have hcarried := ih hbefore fun t ht => hpasses t (List.mem_append_left _ ht)
    have hlast := hpasses ⟨s, act, s'⟩ (by simp)
    obtain ⟨reg, hreg⟩ := Net.Registered.of_run hrun
    have hact := hacts ⟨s, act, s'⟩ (by simp)
    obtain ⟨-, hstep⟩ := hstep
    cases act with
    | accept =>
        subst hstep
        have hlog : (s.acceptEvent K cfg).log = s.log := log_acceptEvent s
        refine ⟨?_, fun x st hst hend => ?_⟩
        · rw [hlog]
          exact hcarried.upTo
        · rw [hlog]
          rcases get_acceptEvent hst with hold | ⟨-, hfd⟩
          · exact hcarried.whileOpen x st hold hend
          · rw [← hend, cameIn_eq_nil fun ev hev t ht => (hreg.fresh hfd hev ht).1,
              wentOut_eq_nil fun ev hev t ht => (hreg.fresh hfd hev ht).2]
            exact carries_nil
    | readable fd =>
        obtain ⟨fuel, hstep⟩ := hstep
        cases hclient : s.fdToClient.get fd with
        | none =>
            rw [Net.readEvent, hclient] at hstep
            refine hcarried.moves hdirect hfull hpeek
              (.of_run hdirect hfull hpeek hrun hbefore) hs hclient ?_ (doReceive_moves hstep)
            exact fun hthrough st hst hend => hlast ⟨fd, st, rfl, hst, hend, hthrough⟩
        | some client =>
            obtain ⟨r, s₁, hr, hends⟩ := readEvent_client hclient hstep
            have hpeeked := hcarried.of_eq (log_recv_peek hr) (onlyIO_recv hr).leaves.kept
            rcases hends with rfl | rfl
            · exact hpeeked
            · exact hpeeked.of_eq rfl fun _ _ ht => ht
    | environment =>
        obtain ⟨k, -, rfl⟩ := hstep
        exact hcarried.of_eq rfl fun _ _ ht => ht
    | deliver _ _ | partition _ | recover _ | cmd _ _ => exact hact.elim

namespace Demo

/-- The two nodes, without commands. -/
def directConfig : ConfigFile := { config with strategy := .direct }

/-- `n1` sends a message to `n2`. -/
def forwarded : Net (Stream Addr) :=
  ((sent accepted framed).readEvent kernel directConfig 3 1).getD accepted

theorem run_forwarded : (tcpNetwork kernel directConfig).Run
    [⟨start, .accept, accepted⟩, ⟨accepted, .environment, sent accepted framed⟩,
      ⟨sent accepted framed, .readable 1, forwarded⟩] forwarded := by
  have hread : (sent accepted framed).readEvent kernel directConfig 3 1 = some forwarded := rfl
  have hstart : (tcpNetwork kernel directConfig).Run [] start :=
    .nil ⟨rfl, rfl, rfl, rfl, rfl, rfl, rfl⟩
  have haccepted : (tcpNetwork kernel directConfig).step start .accept accepted := ⟨rfl, rfl⟩
  have hsent : (tcpNetwork kernel directConfig).step accepted .environment (sent accepted framed) :=
    ⟨rfl, (sent accepted framed).kernel, rfl, rfl⟩
  have hforwarded : (tcpNetwork kernel directConfig).step (sent accepted framed) (.readable 1)
      forwarded := ⟨rfl, 3, hread⟩
  exact ((hstart.snoc haccepted).snoc hsent).snoc hforwarded

end Demo

end Tmet.Tproxy
