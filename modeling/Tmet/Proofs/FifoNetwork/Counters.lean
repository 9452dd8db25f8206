import Tmet.Proofs.FifoNetwork.Steps

/-!
# `Tmet.Proofs.FifoNetwork.Counters`: counters, custody and order of messages

The history of a run says which messages the network has `accepted`, which it
has `delivered` and which its flushes have removed (`flushed`). The invariants
relate the three to the channels and to the counters of `_netman`.

* `Custody`: every accepted message is in exactly one place. It was delivered, it
  is in a channel, or it was flushed. `messages_accounted` reads the counters off
  it.
* `FifoOrder`: on each channel the delivered messages followed by the channel
  content are a subsequence of the accepted messages. With the accepted numbers
  being `1, 2, ..`, `fifo_sequence_numbers` follows.
* `WireAccurate`: `n_wire` is the number of messages. The flushing operators set
  `n_wire` from the channels before the flush, so a flush that removes a message
  breaks it, and nothing else does (`wireAccurate_step_iff`).
-/

set_option autoImplicit false

namespace Tmet.FifoNetwork

open Tmet.Lib

variable {ν α γ : Type}

/-! ### The history of a run -/

/-- The messages the network has handed over, in order. -/
def delivered (tr : List (Step (Net ν α γ) (Op ν α γ))) : List (Msg ν α) :=
  tr.flatMap fun t => t.act.delivered t.src.toVars

theorem delivered_snoc (tr : List (Step (Net ν α γ) (Op ν α γ)))
    (t : Step (Net ν α γ) (Op ν α γ)) :
    delivered (tr ++ [t]) = delivered tr ++ t.act.delivered t.src.toVars := by
  simp [delivered]

variable [DecidableEq ν]

/-- The messages the network has taken, in order. -/
def accepted (tr : List (Step (Net ν α γ) (Op ν α γ))) : List (Msg ν α) :=
  tr.flatMap fun t => t.act.accepted t.src.toVars

theorem accepted_snoc (tr : List (Step (Net ν α γ) (Op ν α γ))) (t : Step (Net ν α γ) (Op ν α γ)) :
    accepted (tr ++ [t]) = accepted tr ++ t.act.accepted t.src.toVars := by
  simp [accepted]

/-- `Carries` holds throughout every run whose messages go between two different
nodes. -/
theorem Carries.of_run {P : Params ν} {nodes : Finset ν}
    {tr : List (Step (Net ν α γ) (Op ν α γ))} {s : Net ν α γ}
    (h : (api P nodes (Op.Between nodes)).Run tr s) : Carries nodes s.msgs := by
  refine System.Run.state_invariant (P := fun s => Carries nodes s.msgs) ?_ ?_ h
  · rintro s rfl
    exact (wellFormed_init nodes).carries
  · rintro s op s' hc ⟨hop, args, hargs, rfl⟩
    exact hc.step hop (Op.apply_effect hargs)

/-- The counters of one step. -/
theorem step_counters {P : Params ν} {nodes : Finset ν} {V : Op ν α γ → Prop} {s s' : Net ν α γ}
    {op : Op ν α γ} (h : (api P nodes V).step s op s') :
    s'.netman.nSent = s.netman.nSent + (op.accepted s.toVars).length
      ∧ s'.netman.nRecv = s.netman.nRecv + (op.delivered s.toVars).length := by
  obtain ⟨-, args, hargs, rfl⟩ := h
  show (args.apply s.toVars).netman.nSent = _ ∧ (args.apply s.toVars).netman.nRecv = _
  rcases (Op.apply_effect hargs).traffic_or_reconnected with ⟨-, heq⟩ | hre
  · rw [heq]
    exact ⟨rfl, rfl⟩
  · obtain ⟨hacc, hdel⟩ := hre.reconnects.moves_nothing s.toVars
    rw [hre.nSent, hre.nRecv, hacc, hdel]
    exact ⟨rfl, rfl⟩

/-- The counters count what the history holds, and the numbers given out are
`1, 2, ..` in the order of the sends. -/
structure Counted (tr : List (Step (Net ν α γ) (Op ν α γ))) (s : Net ν α γ) : Prop where
  nSent : s.netman.nSent = (accepted tr).length
  nRecv : s.netman.nRecv = (delivered tr).length
  numbers : (accepted tr).map Msg.seq = List.range' 1 s.netman.nSent

theorem Counted.of_run {P : Params ν} {nodes : Finset ν} {V : Op ν α γ → Prop}
    {tr : List (Step (Net ν α γ) (Op ν α γ))} {s : Net ν α γ} (h : (api P nodes V).Run tr s) :
    Counted tr s := by
  refine System.Run.invariant (P := fun tr s => Counted tr s) ?_ ?_ h
  · rintro s rfl
    exact ⟨rfl, rfl, rfl⟩
  · intro tr s op s' _ hl hstep
    obtain ⟨hsent, hrecv⟩ := step_counters hstep
    refine ⟨?_, ?_, ?_⟩
    · rw [accepted_snoc, List.length_append, hsent, hl.nSent]
    · rw [delivered_snoc, List.length_append, hrecv, hl.nRecv]
    · rw [accepted_snoc, List.map_append, hl.numbers, hsent, Op.accepted, map_seq_numbered,
        length_numbered, ← List.range'_append_1, Nat.add_comm 1]

/-! ### Custody of messages -/

section Custody

variable [DecidableEq α]

/-- The messages a step's flush has removed: what a `NetDelConn` or a
`NetPartConn` leaves missing in the channels. -/
def flushedBy (t : Step (Net ν α γ) (Op ν α γ)) : Multiset (Msg ν α) :=
  if t.act.Flushes then inFlight t.src.msgs - inFlight t.dst.msgs else 0

/-- The messages the flushes of a run have removed. -/
def flushed (tr : List (Step (Net ν α γ) (Op ν α γ))) : Multiset (Msg ν α) :=
  (tr.map flushedBy).sum

/-- One step of custody: what was in flight and what is taken in is handed over,
in flight, or flushed. -/
theorem step_custody {P : Params ν} {nodes : Finset ν} {s s' : Net ν α γ} {op : Op ν α γ}
    (hc : Carries nodes s.msgs) (h : (api P nodes (Op.Between nodes)).step s op s') :
    inFlight s.msgs + ↑(op.accepted s.toVars)
      = ↑(op.delivered s.toVars) + inFlight s'.msgs + flushedBy ⟨s, op, s'⟩ := by
  obtain ⟨hop, args, hargs, rfl⟩ := h
  show _ = _ + inFlight (args.apply s.toVars).msgs + _
  rcases (Op.apply_effect hargs).traffic_or_reconnected with ⟨hop', heq⟩ | hre
  · have hflush : ¬ op.Flushes := fun h => hop' h.reconnects
    rw [flushedBy, if_neg hflush, add_zero, heq]
    exact hc.inFlight_traffic hop
  · obtain ⟨hacc, hdel⟩ := hre.reconnects.moves_nothing s.toVars
    rw [hacc, hdel, Multiset.coe_nil, add_zero, zero_add, flushedBy]
    by_cases hflush : op.Flushes
    · rw [if_pos hflush]
      exact (add_tsub_cancel_of_le (inFlight_le_of_sublist hre.sublist)).symm
    · -- no flush: every channel is kept, so the same messages are in flight
      have hkept (a b : ν) : chan (args.apply s.toVars).msgs a b = chan s.msgs a b :=
        hre.kept a b (Op.not_cuts_of_not_flushes hflush a b)
      rw [if_neg hflush, add_zero]
      exact le_antisymm (inFlight_le_of_sublist fun a b => (hkept a b).symm ▸ List.Sublist.refl _)
        (inFlight_le_of_sublist fun a b => (hkept a b) ▸ List.Sublist.refl _)

/-- Every accepted message is delivered, in a channel or flushed. -/
theorem custody {P : Params ν} {nodes : Finset ν} {tr : List (Step (Net ν α γ) (Op ν α γ))}
    {s : Net ν α γ} (h : (api P nodes (Op.Between nodes)).Run tr s) :
    (↑(accepted tr) : Multiset (Msg ν α)) = ↑(delivered tr) + inFlight s.msgs + flushed tr := by
  refine System.Run.invariant (P := fun tr s => (↑(accepted tr) : Multiset (Msg ν α))
    = (↑(delivered tr) : Multiset (Msg ν α)) + inFlight s.msgs + flushed tr) ?_ ?_ h
  · rintro s rfl
    simp [accepted, delivered, flushed, inFlight_init]
  · intro tr s op s' hr hl hstep
    have hflushed : flushed (tr ++ [⟨s, op, s'⟩]) = flushed tr + flushedBy ⟨s, op, s'⟩ := by
      simp [flushed]
    rw [accepted_snoc, delivered_snoc, ← Multiset.coe_add, ← Multiset.coe_add, hl, hflushed]
    calc _ = ↑(delivered tr) + flushed tr + (inFlight s.msgs + ↑(op.accepted s.toVars)) := by abel
      _ = _ := by
        rw [step_custody (Carries.of_run hr) hstep]
        abel

/-- Every sent message is accounted for exactly once. The accepted messages,
numbered `1..n_sent`, are the delivered ones, those in the channels and those
the flushes removed; a step that does not flush neither loses nor duplicates
one, and a flush only removes. -/
theorem messages_accounted (P : Params ν) (nodes : Finset ν)
    (tr : List (Step (Net ν α γ) (Op ν α γ))) (s : Net ν α γ)
    (h : (api P nodes (Op.Between nodes)).Run tr s) :
    s.netman.nSent = s.netman.nRecv + total s.msgs + Multiset.card (flushed tr)
      ∧ (↑(accepted tr) : Multiset (Msg ν α)) = ↑(delivered tr) + inFlight s.msgs + flushed tr
      ∧ (accepted tr).map Msg.seq = List.range' 1 s.netman.nSent
      ∧ s.netman.nRecv = (delivered tr).length
      ∧ (∀ t ∈ tr, ¬ t.act.Flushes →
          inFlight t.src.msgs + ↑(t.act.accepted t.src.toVars)
            = ↑(t.act.delivered t.src.toVars) + inFlight t.dst.msgs)
      ∧ ∀ t ∈ tr, t.act.Flushes → inFlight t.src.msgs = inFlight t.dst.msgs + flushedBy t := by
  have hcounted := Counted.of_run h
  have hcustody := custody h
  -- the balance of one step, whether it flushes or not
  have hsteps (t : Step (Net ν α γ) (Op ν α γ)) (ht : t ∈ tr) :
      inFlight t.src.msgs + ↑(t.act.accepted t.src.toVars)
        = ↑(t.act.delivered t.src.toVars) + inFlight t.dst.msgs + flushedBy t := by
    obtain ⟨hstep, pre, post, -, hpre⟩ := h.mem_split ht
    exact step_custody (Carries.of_run hpre) hstep
  refine ⟨?_, hcustody, hcounted.numbers, hcounted.nRecv, fun t ht hflush => ?_,
    fun t ht hflush => ?_⟩
  · have hcard := congrArg Multiset.card hcustody
    rw [Multiset.card_add, Multiset.card_add, Multiset.coe_card, Multiset.coe_card,
      card_inFlight] at hcard
    rw [hcounted.nSent, hcounted.nRecv, hcard]
  · have hstep := hsteps t ht
    rw [flushedBy, if_neg hflush, add_zero] at hstep
    exact hstep
  · obtain ⟨hacc, hdel⟩ := hflush.reconnects.moves_nothing t.src.toVars
    have hstep := hsteps t ht
    rw [hacc, hdel, Multiset.coe_nil, add_zero, zero_add] at hstep
    exact hstep

end Custody

/-- In the run that sends one message and cuts its sender off, the message is
the one flushed. -/
theorem messages_accounted_sendThenPart :
    afterPart.netman.nSent = 1 ∧ afterPart.netman.nRecv = 0 ∧ total afterPart.msgs = 0
      ∧ Multiset.card (flushed sendThenPart) = 1 := by
  have hrun := run_sendThenPart (V := Op.Between {0, 1}) (by simp [Op.Between, Send.Between]) trivial
  have hsent : afterPart.netman.nSent = 1 := by decide
  have hrecv : afterPart.netman.nRecv = 0 := by decide
  have htotal : total afterPart.msgs = 0 := by decide
  have hledger := (messages_accounted flushing {0, 1} sendThenPart afterPart hrun).1
  exact ⟨hsent, hrecv, htotal, by omega⟩

/-! ### Order and sequence numbers -/

/-- What one step keeps about the order on a channel, for every call. -/
theorem step_order {P : Params ν} {nodes : Finset ν} {V : Op ν α γ → Prop} {s s' : Net ν α γ}
    {op : Op ν α γ} (h : (api P nodes V).step s op s') (a b : ν) :
    ((onChan a b (op.delivered s.toVars)).map Msg.wired ++ chan s'.msgs a b).Sublist
      (chan s.msgs a b ++ (onChan a b (op.accepted s.toVars)).map Msg.wired) := by
  obtain ⟨-, args, hargs, rfl⟩ := h
  show (_ ++ chan (args.apply s.toVars).msgs a b).Sublist _
  rcases (Op.apply_effect hargs).traffic_or_reconnected with ⟨-, heq⟩ | hre
  · rw [heq]
    exact op.sublist_traffic s.toVars a b
  · obtain ⟨hacc, hdel⟩ := hre.reconnects.moves_nothing s.toVars
    rw [hacc, hdel]
    show (chan _ a b).Sublist (chan s.msgs a b ++ [])
    rw [List.append_nil]
    exact hre.sublist a b

/-- What one step keeps about all messages, for every call: none appears that
was not sent. -/
theorem step_inFlight_le {P : Params ν} {nodes : Finset ν} {V : Op ν α γ → Prop}
    {s s' : Net ν α γ} {op : Op ν α γ} (h : (api P nodes V).step s op s') :
    ↑(op.delivered s.toVars) + inFlight s'.msgs
      ≤ inFlight s.msgs + ↑(op.accepted s.toVars) := by
  obtain ⟨-, args, hargs, rfl⟩ := h
  show _ + inFlight (args.apply s.toVars).msgs ≤ _
  rcases (Op.apply_effect hargs).traffic_or_reconnected with ⟨-, heq⟩ | hre
  · rw [heq]
    exact op.inFlight_traffic_le s.toVars
  · obtain ⟨hacc, hdel⟩ := hre.reconnects.moves_nothing s.toVars
    rw [hacc, hdel, Multiset.coe_nil, add_zero, zero_add]
    exact inFlight_le_of_sublist hre.sublist

/-- On each channel the messages handed over and then the messages still there
are a subsequence of those taken in; over all channels they are a part of
those. -/
structure FifoOrder (tr : List (Step (Net ν α γ) (Op ν α γ))) (s : Net ν α γ) : Prop where
  order : ∀ a b, ((onChan a b (delivered tr)).map Msg.wired ++ chan s.msgs a b).Sublist
    ((onChan a b (accepted tr)).map Msg.wired)
  part : ↑(delivered tr) + inFlight s.msgs ≤ (↑(accepted tr) : Multiset (Msg ν α))

theorem FifoOrder.of_run {P : Params ν} {nodes : Finset ν} {V : Op ν α γ → Prop}
    {tr : List (Step (Net ν α γ) (Op ν α γ))} {s : Net ν α γ} (h : (api P nodes V).Run tr s) :
    FifoOrder tr s := by
  refine System.Run.invariant (P := fun tr s => FifoOrder tr s) ?_ ?_ h
  · rintro s rfl
    refine ⟨fun a b => ?_, ?_⟩
    · rw [chan_init]
      exact List.Sublist.refl _
    · rw [inFlight_init]
      exact le_refl _
  · intro tr s op s' _ hf hstep
    refine ⟨fun a b => ?_, ?_⟩
    · have hadd (l l' : List (Msg ν α)) : onChan a b (l ++ l') = onChan a b l ++ onChan a b l' :=
        List.filter_append _ _
      rw [accepted_snoc, delivered_snoc, hadd, hadd, List.map_append, List.map_append,
        List.append_assoc]
      -- the step on what is behind the delivered messages, then the history
      have hback := (step_order hstep a b).append_left ((onChan a b (delivered tr)).map Msg.wired)
      rw [← List.append_assoc _ (chan s.msgs a b)] at hback
      exact hback.trans ((hf.order a b).append_right _)
    · rw [accepted_snoc, delivered_snoc, ← Multiset.coe_add, ← Multiset.coe_add, add_assoc]
      refine (add_le_add_right (step_inFlight_le hstep) _).trans ?_
      rw [← add_assoc]
      exact add_le_add_left hf.part _

/-- The order on a channel, for the messages themselves. -/
theorem FifoOrder.delivered_sublist {tr : List (Step (Net ν α γ) (Op ν α γ))} {s : Net ν α γ}
    (h : FifoOrder tr s) (a b : ν) :
    (onChan a b (delivered tr)).Sublist (onChan a b (accepted tr)) := by
  have hback (ms : List (Msg ν α)) :
      ((onChan a b ms).map Msg.wired).map (Wired.toMsg a b) = onChan a b ms := by
    rw [List.map_map]
    refine (List.map_congr_left fun m hm => ?_).trans (List.map_id _)
    obtain ⟨rfl, rfl⟩ := of_decide_eq_true (List.mem_filter.mp hm).2
    rfl
  rw [← hback (delivered tr), ← hback (accepted tr)]
  exact ((List.sublist_append_left _ _).trans (h.order a b)).map _

/-- FIFO and sequence numbers, for calls in any order with any arguments: the
numbers in a channel increase from head to tail, all numbers in flight are
different and in `1..n_sent`, each channel hands its messages over in the order
they were sent and none twice, and the assertion of `_DelMsg` holds. -/
theorem fifo_sequence_numbers (P : Params ν) (nodes : Finset ν) (V : Op ν α γ → Prop)
    (tr : List (Step (Net ν α γ) (Op ν α γ))) (s : Net ν α γ) (h : (api P nodes V).Run tr s) :
    (∀ a b, ((chan s.msgs a b).map Wired.seq).Pairwise (· < ·))
      ∧ ((inFlight s.msgs).map Msg.seq).Nodup
      ∧ (∀ m ∈ inFlight s.msgs, 1 ≤ m.seq ∧ m.seq ≤ s.netman.nSent)
      ∧ ((accepted tr).map Msg.seq).Pairwise (· < ·)
      ∧ (∀ a b, (onChan a b (delivered tr)).Sublist (onChan a b (accepted tr)))
      ∧ ((delivered tr).map Msg.seq).Nodup
      ∧ ∀ op : Op ν α γ, op.args P s.toVars ≠ .error (.assertFailed "DelMsg: seq mismatch") := by
  have hcounted := Counted.of_run h
  have hfifo := FifoOrder.of_run h
  -- the numbers are given out one by one
  have hincreasing : ((accepted tr).map Msg.seq).Pairwise (· < ·) := by
    rw [hcounted.numbers]
    exact List.pairwise_lt_range'
  -- what was handed over and what is in flight are different parts of what was accepted
  have hpart : ↑((delivered tr).map Msg.seq) + (inFlight s.msgs).map Msg.seq
      ≤ (↑(List.range' 1 s.netman.nSent) : Multiset ℕ) := by
    have hmap := Multiset.map_le_map (f := Msg.seq) hfifo.part
    rw [Multiset.map_add, Multiset.map_coe, Multiset.map_coe, hcounted.numbers] at hmap
    exact hmap
  have hnodup : (↑(List.range' 1 s.netman.nSent) : Multiset ℕ).Nodup := List.nodup_range'
  refine ⟨fun a b => ?_, ?_, fun m hm => ?_, hincreasing, hfifo.delivered_sublist, ?_, ?_⟩
  · have hsub : ((chan s.msgs a b).map Wired.seq).Sublist ((accepted tr).map Msg.seq) := by
      have hchan := ((List.sublist_append_right _ _).trans (hfifo.order a b)).map Wired.seq
      rw [List.map_map] at hchan
      exact hchan.trans (List.filter_sublist.map _)
    exact hincreasing.sublist hsub
  · exact Multiset.nodup_of_le (le_trans (Multiset.le_add_left _ _) hpart) hnodup
  · have hmem := Multiset.mem_of_le (le_trans (Multiset.le_add_left _ _) hpart)
      (Multiset.mem_map_of_mem Msg.seq hm)
    rw [Multiset.mem_coe, List.mem_range'_1] at hmem
    omega
  · exact Multiset.nodup_of_le (le_trans (Multiset.le_add_right _ _) hpart) hnodup
  · -- the message that is deleted is the one that was just read
    intro op
    cases op with
    | delMsg a b =>
        simp only [Op.args]
        cases hm : netGetMsg s.toVars a b with
        | none => simp
        | some m => simp [netDelMsg, delMsg_of_getMsg hm, bind, Except.bind]
    | replyMsg a b x =>
        simp only [Op.args]
        cases hm : netGetMsg s.toVars a b with
        | none => simp
        | some m =>
            simp only [netReplyMsg, replyMsg, delMsg_of_getMsg hm, bind, Except.bind]
            split <;> simp
    | _ => simp [Op.args]

/-- The first number was handed over, and the other two are in flight. -/
theorem fifo_sequence_numbers_threeThenOne :
    ((chan firstTaken.msgs 0 1).map Wired.seq = [2, 3]
        ∧ (delivered threeThenOne).map Msg.seq = [1])
      ∧ ((chan firstTaken.msgs 0 1).map Wired.seq).Pairwise (· < ·)
      ∧ (∀ m ∈ inFlight firstTaken.msgs, 1 ≤ m.seq ∧ m.seq ≤ 3)
      ∧ (onChan 0 1 (delivered threeThenOne)).Sublist (onChan 0 1 (accepted threeThenOne)) := by
  obtain ⟨hchan, -, hbounds, -, hsub, -⟩ :=
    fifo_sequence_numbers flushing {0, 1} (fun _ => True) threeThenOne firstTaken
      (run_threeThenOne trivial trivial)
  have hsent : firstTaken.netman.nSent = 3 := by decide
  rw [hsent] at hbounds
  exact ⟨⟨by decide, by decide⟩, hchan 0 1, hbounds, hsub 0 1⟩

/-! ### The wire counter -/

/-- `n_wire` is the number of messages in the channels. -/
def WireAccurate (v : Vars ν α) : Prop := v.netman.nWire = total v.msgs

/-- The call's flush removes a message. -/
def FlushRemoves (P : Params ν) (v : Vars ν α) (op : Op ν α γ) : Prop :=
  ∃ a b, op.Cuts P a b ∧ chan v.msgs a b ≠ []

/-- From an accurate state, `n_wire` stays accurate exactly if no message is
flushed: the flush is counted before it happens. -/
theorem wireAccurate_step_iff {P : Params ν} {nodes : Finset ν} {s s' : Net ν α γ}
    {op : Op ν α γ} (hc : Carries nodes s.msgs)
    (h : (api P nodes (Op.Between nodes)).step s op s') (hs : WireAccurate s.toVars) :
    WireAccurate s'.toVars ↔ ¬ FlushRemoves P s.toVars op := by
  obtain ⟨hop, args, hargs, rfl⟩ := h
  show WireAccurate (args.apply s.toVars) ↔ _
  unfold WireAccurate at *
  rcases (Op.apply_effect hargs).traffic_or_reconnected with ⟨hop', heq⟩ | hre
  · have hno : ¬ FlushRemoves P s.toVars op := fun ⟨a, b, hcut, _⟩ =>
      Op.not_cuts_of_not_flushes (fun hf => hop' hf.reconnects) a b hcut
    have hcard := congrArg Multiset.card (hc.inFlight_traffic hop)
    rw [Multiset.card_add, Multiset.card_add, Multiset.coe_card, Multiset.coe_card,
      card_inFlight, card_inFlight] at hcard
    refine ⟨fun _ => hno, fun _ => ?_⟩
    rw [heq]
    show s.netman.nWire + (op.accepted s.toVars).length - (op.delivered s.toVars).length = _
    rw [hs]
    omega
  · rw [hre.nWire hs, Nat.cast_inj, eq_comm, total_eq_iff_of_sublist hre.sublist]
    constructor
    · rintro hkept ⟨a, b, hcut, hne⟩
      exact hne ((hkept a b).symm.trans (hre.cut a b hcut))
    · intro hno a b
      by_cases hcut : op.Cuts P a b
      · -- the cut channel was empty already
        have hnil : chan s.msgs a b = [] := by
          by_contra hne
          exact hno ⟨a, b, hcut, hne⟩
        rw [hre.cut a b hcut, hnil]
      · exact hre.kept a b hcut

/-- `n_wire` is accurate in every state a run visits if and only if no flush of
the run removes a message. -/
theorem wireAccurate_run_iff (P : Params ν) (nodes : Finset ν)
    (tr : List (Step (Net ν α γ) (Op ν α γ))) (s : Net ν α γ)
    (h : (api P nodes (Op.Between nodes)).Run tr s) :
    ((∀ t ∈ tr, WireAccurate t.src.toVars) ∧ WireAccurate s.toVars)
      ↔ ∀ t ∈ tr, ¬ FlushRemoves P t.src.toVars t.act := by
  refine h.visited_iff (P := fun s => WireAccurate s.toVars) ?_ ?_
  · rintro s rfl
    have htotal : total (initFifoNetwork nodes : Net ν α γ).msgs = 0 := by
      rw [← card_inFlight, inFlight_init, Multiset.card_zero]
    show (0 : ℤ) = (total _ : ℕ)
    rw [htotal, Nat.cast_zero]
  · intro tr s op s' hr hstep hs
    exact wireAccurate_step_iff (Carries.of_run hr) hstep hs

/-- The run whose partition flushes a message: `n_wire` is `1`, and no message is
left. -/
theorem wireAccurate_fails :
    ¬ ∀ tr s, (api flushing {0, 1} fun op : Op ℕ Unit Unit =>
        op.Between {0, 1} ∧ op.NodesIn {0, 1}).Run tr s → WireAccurate s.toVars := by
  intro hacc
  have hwire : (1 : ℤ) = (total afterPart.msgs : ℕ) :=
    hacc sendThenPart afterPart
      (run_sendThenPart ⟨by simp [Send.Between, Op.Between], trivial⟩
        ⟨trivial, by simp [Op.NodesIn]⟩)
  have htotal : total afterPart.msgs = 0 := by decide
  rw [htotal] at hwire
  exact absurd hwire (by decide)

theorem wireAccurate_run_iff_sendThenPart :
    ¬ ((∀ t ∈ sendThenPart, WireAccurate t.src.toVars) ∧ WireAccurate afterPart.toVars) := by
  intro hacc
  have hrun := run_sendThenPart (V := Op.Between {0, 1}) (by simp [Op.Between, Send.Between]) trivial
  have hflush : FlushRemoves flushing afterSend.toVars (.partConn {0} : Op ℕ Unit Unit) :=
    ⟨0, 1, ⟨rfl, by decide⟩, by decide⟩
  exact (wireAccurate_run_iff flushing {0, 1} sendThenPart afterPart hrun).mp hacc
    ⟨afterSend, .partConn {0}, afterPart⟩ (by simp [sendThenPart]) hflush

end Tmet.FifoNetwork
