import Tmet.Proofs.FifoNetwork.Channels

/-!
# `Tmet.Proofs.FifoNetwork.Steps`: what one API call does

An API call either moves messages or changes connections.

A call that moves messages removes the messages `Op.delivered` (the head a
`NetDelMsg` or `NetReplyMsg` handles) and then appends the messages
`Op.accepted`: those of the messages handed in whose link is connected, numbered
on from `n_sent` in their order. `Vars.traffic` is the state after that, and
`Op.apply_effect` says that every call is such a traffic step or one of the four
connection changes, each with the values it leaves behind. Everything the
invariants need about the operators is in that one statement; in particular a
batch and a reply are nothing but the sequence of their single sends and
deletions. `Op.Effect.traffic_or_reconnected` is the shorter reading for the
invariants that are about messages only: a connection change empties the
channels `Op.Cuts` and leaves the others alone.

Two well-formedness facts are carried along. `Carries nodes msgs` holds whatever
node sets the connection calls are given: every two nodes have their channels
and no other channel holds a message. `NetOk nodes v` also fixes the domains,
and needs node arguments from the node set.
-/

set_option autoImplicit false

namespace Tmet.FifoNetwork

open Tmet.Lib

variable {ν α γ : Type}

/-! ### The messages a call moves -/

/-- Messages numbered on from `n`. -/
def numbered (n : ℕ) : List (Send ν α) → List (Msg ν α)
  | [] => []
  | m :: ms => ⟨m.src, m.dst, n + 1, m.body⟩ :: numbered (n + 1) ms

@[simp] theorem length_numbered (n : ℕ) (ms : List (Send ν α)) :
    (numbered n ms).length = ms.length := by
  induction ms generalizing n with
  | nil => rfl
  | cons m ms ih => rw [numbered, List.length_cons, List.length_cons, ih]

/-- The numbers given out are consecutive. -/
theorem map_seq_numbered (n : ℕ) (ms : List (Send ν α)) :
    (numbered n ms).map Msg.seq = List.range' (n + 1) ms.length := by
  induction ms generalizing n with
  | nil => rfl
  | cons m ms ih => rw [numbered, List.map_cons, ih, List.length_cons, List.range'_succ]

/-- A numbered message keeps its ends and its body. -/
theorem mem_numbered {n : ℕ} {ms : List (Send ν α)} {m : Msg ν α} (h : m ∈ numbered n ms) :
    ⟨m.src, m.dst, m.body⟩ ∈ ms := by
  induction ms generalizing n with
  | nil => simp [numbered] at h
  | cons m' ms ih =>
      rcases List.mem_cons.mp h with rfl | h
      · exact List.mem_cons_self
      · exact List.mem_cons_of_mem _ (ih h)

@[simp] theorem NetmanRec.update_ofNetman (m : Netman ν) : (NetmanRec.ofNetman m).update m = m :=
  rfl

/-- The call changes connections. -/
def Op.Reconnects : Op ν α γ → Prop
  | .addConn _ | .delConn _ | .partConn _ | .cureConn => True
  | _ => False

/-- The call is one of the two that flush. -/
def Op.Flushes : Op ν α γ → Prop
  | .delConn _ | .partConn _ => True
  | _ => False

/-- A flush is a connection change. -/
theorem Op.Flushes.reconnects {op : Op ν α γ} (h : op.Flushes) : op.Reconnects := by
  cases op <;> trivial

instance (op : Op ν α γ) : Decidable op.Flushes := by
  cases op <;> first | exact isTrue trivial | exact isFalse id

/-- The channels a call empties. -/
def Op.Cuts (P : Params ν) : Op ν α γ → ν → ν → Prop
  | .delConn S, a, b => P.flushDisconn = true ∧ Touches S a b
  | .partConn S, a, b => P.flushDisconn = true ∧ Crosses S a b
  | _, _, _ => False

/-- A call that does not flush empties no channel. -/
theorem Op.not_cuts_of_not_flushes {P : Params ν} {op : Op ν α γ} (h : ¬ op.Flushes) (a b : ν) :
    ¬ op.Cuts P a b := by
  cases op <;> first | exact id | exact absurd trivial h

/-- The messages a call hands to the network, in order. A reply goes back to the
source of the message it answers. -/
def Op.sends (v : Vars ν α) : Op ν α γ → List (Send ν α)
  | .addMsg m => [m]
  | .addMsgSrcDst src dst m => [⟨src, dst, m⟩]
  | .batchAddMsg ms => ms
  | .replyMsg src dst response =>
      (netGetMsg v src dst).toList.map fun m => ⟨m.dst, m.src, response⟩
  | _ => []

/-- The message a call takes from the network. -/
def Op.delivered (v : Vars ν α) : Op ν α γ → List (Msg ν α)
  | .delMsg src dst | .replyMsg src dst _ => (netGetMsg v src dst).toList
  | _ => []

/-- A call takes nothing from the network, or the head of a channel. -/
theorem Op.delivered_cases (v : Vars ν α) (op : Op ν α γ) :
    op.delivered v = []
      ∨ ∃ m rest, op.delivered v = [m] ∧ chan? v.msgs m.src m.dst = some (m.wired :: rest) := by
  have hhead (a b : ν) : (netGetMsg v a b).toList = []
      ∨ ∃ m rest, (netGetMsg v a b).toList = [m]
          ∧ chan? v.msgs m.src m.dst = some (m.wired :: rest) := by
    cases hm : netGetMsg v a b with
    | none => exact Or.inl rfl
    | some m =>
        obtain ⟨rfl, rfl, rest, hrest⟩ := getMsg_eq_some_iff.mp hm
        exact Or.inr ⟨m, rest, rfl, hrest⟩
  cases op with
  | delMsg a b => exact hhead a b
  | replyMsg a b _ => exact hhead a b
  | _ => exact Or.inl rfl

/-- What a connection change does to the messages: `n_sent` and `n_recv` stay,
a channel is emptied or stays, and `n_wire` is kept or set to the number of
messages before the change. -/
structure Op.Reconnected (P : Params ν) (v : Vars ν α) (op : Op ν α γ) (v' : Vars ν α) :
    Prop where
  reconnects : op.Reconnects
  nSent : v'.netman.nSent = v.netman.nSent
  nRecv : v'.netman.nRecv = v.netman.nRecv
  nWire : v.netman.nWire = total v.msgs → v'.netman.nWire = total v.msgs
  isSome : ∀ a b, (chan? v.msgs a b).isSome → (chan? v'.msgs a b).isSome
  cut : ∀ a b, op.Cuts P a b → chan v'.msgs a b = []
  kept : ∀ a b, ¬ op.Cuts P a b → chan v'.msgs a b = chan v.msgs a b

/-- A connection change that leaves `_msgs` and `n_wire` as they are. -/
theorem Op.Reconnected.of_same {P : Params ν} {v v' : Vars ν α} {op : Op ν α γ}
    (hop : op.Reconnects) (hcut : ∀ a b, ¬ op.Cuts P a b) (hmsgs : v'.msgs = v.msgs)
    (hs : v'.netman.nSent = v.netman.nSent) (hr : v'.netman.nRecv = v.netman.nRecv)
    (hw : v'.netman.nWire = v.netman.nWire) : op.Reconnected P v v' where
  reconnects := hop
  nSent := hs
  nRecv := hr
  nWire h := hw.trans h
  isSome _ _ h := hmsgs ▸ h
  cut a b h := absurd h (hcut a b)
  kept _ _ _ := by rw [hmsgs]

/-- A connection change only removes messages. -/
theorem Op.Reconnected.sublist {P : Params ν} {v v' : Vars ν α} {op : Op ν α γ}
    (h : op.Reconnected P v v') (a b : ν) : (chan v'.msgs a b).Sublist (chan v.msgs a b) := by
  by_cases hcut : op.Cuts P a b
  · rw [h.cut a b hcut]
    exact List.nil_sublist _
  · rw [h.kept a b hcut]

/-- Every two different nodes have their channels, and no other channel holds a
message. -/
structure Carries (nodes : Finset ν) (msgs : Msgs ν α) : Prop where
  complete : ∀ a b, a ∈ nodes → b ∈ nodes → a ≠ b → (chan? msgs a b).isSome
  proper : ∀ a b, chan msgs a b ≠ [] → a ∈ nodes ∧ b ∈ nodes ∧ a ≠ b

/-- Every message a call hands in goes between two different nodes. -/
theorem Carries.between_of_mem_sends {nodes : Finset ν} {v : Vars ν α} {op : Op ν α γ}
    (h : Carries nodes v.msgs) (hop : op.Between nodes) {m : Send ν α} (hm : m ∈ op.sends v) :
    m.Between nodes := by
  cases op with
  | addMsg m' =>
      obtain rfl := List.mem_singleton.mp hm
      exact hop
  | addMsgSrcDst a b x =>
      obtain rfl := List.mem_singleton.mp hm
      exact hop
  | batchAddMsg ms => exact hop m hm
  | replyMsg a b x =>
      -- the answered message lies in a channel, so its ends are different nodes
      obtain ⟨q, hq, rfl⟩ := List.mem_map.mp hm
      obtain ⟨rfl, rfl, rest, hrest⟩ := getMsg_eq_some_iff.mp (Option.mem_toList.mp hq)
      obtain ⟨ha, hb, hab⟩ := h.proper q.src q.dst (by simp [chan, hrest])
      exact ⟨hb, ha, hab.symm⟩
  | _ => simp [Op.sends] at hm

/-- The messages among `ms` that have a channel. `EXCEPT` has no effect for the
others. -/
def withChan (msgs : Msgs ν α) (ms : List (Msg ν α)) : List (Msg ν α) :=
  ms.filter fun m => (chan? msgs m.src m.dst).isSome

theorem withChan_cons (msgs : Msgs ν α) (m : Msg ν α) (ms : List (Msg ν α)) :
    withChan msgs (m :: ms)
      = if (chan? msgs m.src m.dst).isSome then m :: withChan msgs ms else withChan msgs ms := by
  rw [withChan, List.filter_cons]
  rfl

variable [DecidableEq ν]

/-- The messages among them that the network takes, with their numbers. -/
def Op.accepted (v : Vars ν α) (op : Op ν α γ) : List (Msg ν α) :=
  numbered v.netman.nSent ((op.sends v).filter fun m => netIsConn v m.src m.dst)

/-- A connection change takes no message in and hands none over. -/
theorem Op.Reconnects.moves_nothing {op : Op ν α γ} (h : op.Reconnects) (v : Vars ν α) :
    op.accepted v = [] ∧ op.delivered v = [] := by
  cases op <;> first | exact ⟨rfl, rfl⟩ | exact absurd h id

/-- The state after `dels` have been taken from the network and then `adds` have
been put into it. -/
def Vars.traffic (v : Vars ν α) (dels adds : List (Msg ν α)) : Vars ν α where
  msgs := adds.foldl push (dels.foldl pop v.msgs)
  netman :=
    { v.netman with
        nSent := v.netman.nSent + adds.length
        nRecv := v.netman.nRecv + dels.length
        nWire := v.netman.nWire + adds.length - dels.length }

/-- The state after a connection change, `msgs` and `nWire` given. -/
def Vars.reconnect (v : Vars ν α) (msgs : Msgs ν α) (nWire : ℤ) (conn : List (Finset ν)) :
    Vars ν α where
  msgs := msgs
  netman := { v.netman with nWire := nWire, conn := conn }

theorem netIsConn_iff {v : Vars ν α} {a b : ν} :
    netIsConn v a b ↔ ∃ p ∈ v.netman.conn, a ∈ p ∧ b ∈ p := by
  unfold netIsConn
  rw [Nat.ne_zero_iff_zero_lt, List.length_pos_iff_exists_mem]
  simp [Finset.insert_subset_iff]

/-! ### The operators as traffic -/

theorem addMsgSrcDstSeq_eq (v : Vars ν α) (a b : ν) (n : ℕ) (x : α) (msgs : Msgs ν α) :
    addMsgSrcDstSeq v a b n x msgs
      = if netIsConn v a b then (1, push msgs ⟨a, b, n, x⟩) else (0, msgs) := by
  unfold addMsgSrcDstSeq
  by_cases h : netIsConn v a b
  · simp only [if_pos h]
    rfl
  · simp only [if_neg h]

/-- The fold of a batch: the messages whose link is connected, appended in order
and numbered on. -/
theorem foldl_batchAddStep (v : Vars ν α) (ms : List (Send ν α)) (k : ℕ) (msgs : Msgs ν α)
    (rs : List (Bool × ν × ν)) :
    ∃ rs', ms.foldl (batchAddStep v) (k, msgs, rs)
      = (k + (ms.filter fun m => netIsConn v m.src m.dst).length,
          (numbered (v.netman.nSent + k) (ms.filter fun m => netIsConn v m.src m.dst)).foldl
            push msgs, rs') := by
  induction ms generalizing k msgs rs with
  | nil => exact ⟨rs, rfl⟩
  | cons m ms ih =>
      by_cases h : netIsConn v m.src m.dst
      · obtain ⟨rs', hrs⟩ := ih (1 + k) (push msgs ⟨m.src, m.dst, v.netman.nSent + k + 1, m.body⟩)
          (rs ++ [(true, m.src, m.dst)])
        refine ⟨rs', ?_⟩
        rw [List.foldl_cons, List.filter_cons_of_pos (by simpa using h), numbered,
          List.foldl_cons, List.length_cons]
        simp only [batchAddStep, addMsgSrcDstSeq_eq, if_pos h]
        rw [show v.netman.nSent + k + 1 = v.netman.nSent + (1 + k) by omega] at hrs ⊢
        rw [show k + ((ms.filter fun m => decide (netIsConn v m.src m.dst)).length + 1)
          = 1 + k + (ms.filter fun m => decide (netIsConn v m.src m.dst)).length by omega]
        exact hrs
      -- a message whose link is cut takes no number
      · obtain ⟨rs', hrs⟩ := ih k msgs (rs ++ [(false, m.src, m.dst)])
        refine ⟨rs', ?_⟩
        rw [List.foldl_cons, List.filter_cons_of_neg (by simpa using h)]
        simp only [batchAddStep, addMsgSrcDstSeq_eq, if_neg h, Nat.zero_add]
        exact hrs

/-- `_DelMsg` of the current head removes it; its assertion holds. -/
theorem delMsg_of_getMsg {msgs : Msgs ν α} {a b : ν} {m : Msg ν α}
    (h : getMsg a b msgs = some m) : delMsg m msgs = .ok (1, pop msgs m) := by
  obtain ⟨rfl, rfl, rest, hc⟩ := getMsg_eq_some_iff.mp h
  unfold delMsg
  rw [hc]
  exact if_pos rfl

/-- A send is traffic: the message is put into the network, or nothing happens. -/
theorem apply_netAddMsgSrcDst (v : Vars ν α) (a b : ν) (x : α) :
    (netAddMsgSrcDst v a b x : Args ν α γ).apply v
      = v.traffic [] (numbered v.netman.nSent
          ([⟨a, b, x⟩].filter fun m => netIsConn v m.src m.dst)) := by
  unfold netAddMsgSrcDst addMsgSrcDst
  simp only [addMsgSrcDstSeq_eq]
  by_cases h : netIsConn v a b
  · simp only [if_pos h, List.filter_cons_of_pos (p := fun m : Send ν α => decide
      (netIsConn v m.src m.dst)) (a := ⟨a, b, x⟩) (by simpa using h)]
    simp [Args.apply, NetmanRec.update, NetmanRec.overlay, netIncWire, netIncSent, Vars.traffic,
      numbered]
  · simp [Args.apply, Vars.traffic, numbered, h]

/-- A batch is traffic: its connected messages in order. -/
theorem apply_netBatchAddMsg (v : Vars ν α) (ms : List (Send ν α)) :
    (netBatchAddMsg v ms : Args ν α γ).apply v
      = v.traffic [] (numbered v.netman.nSent
          (ms.filter fun m => netIsConn v m.src m.dst)) := by
  obtain ⟨rs, hrs⟩ := foldl_batchAddStep v ms 0 v.msgs []
  unfold netBatchAddMsg batchAddMsgs
  rw [hrs]
  simp [Args.apply, NetmanRec.update, NetmanRec.overlay, netIncWireBy, netIncSentBy,
    Vars.traffic]

/-- A deletion of the current head is traffic. -/
theorem apply_netDelMsg {v : Vars ν α} {a b : ν} {m : Msg ν α} (h : netGetMsg v a b = some m)
    {args : Args ν α γ} (hargs : netDelMsg v m = .ok args) : args.apply v = v.traffic [m] [] := by
  simp only [netDelMsg, delMsg_of_getMsg h, bind, Except.bind, Except.ok.injEq] at hargs
  subst hargs
  simp [Args.apply, NetmanRec.update, NetmanRec.overlay, netDecWire, netIncRecv, Vars.traffic]

/-- A reply to the current head is traffic: the deletion, then the send. -/
theorem apply_netReplyMsg {v : Vars ν α} {a b : ν} {m : Msg ν α} (h : netGetMsg v a b = some m)
    (x : α) {args : Args ν α γ} (hargs : netReplyMsg v x m = .ok args) :
    args.apply v = v.traffic [m] (numbered v.netman.nSent
      ([⟨m.dst, m.src, x⟩].filter fun m => netIsConn v m.src m.dst)) := by
  simp only [netReplyMsg, replyMsg, delMsg_of_getMsg h, bind, Except.bind, addMsgSrcDst,
    addMsgSrcDstSeq_eq] at hargs
  -- the reply is put on the wire, or its link is cut and it is dropped
  by_cases hc : netIsConn v m.dst m.src
  · simp only [if_pos hc, Nat.cast_one, sub_self, if_true, Except.ok.injEq] at hargs
    subst hargs
    simp [Args.apply, NetmanRec.update, NetmanRec.overlay, netIncSent, netIncRecv,
      Vars.traffic, numbered, hc]
  · simp only [if_neg hc, Nat.cast_one, Nat.cast_zero, sub_zero, one_ne_zero, if_false,
      Except.ok.injEq] at hargs
    subst hargs
    simp [Args.apply, NetmanRec.update, NetmanRec.overlay, netDecWire, netIncRecv,
      Vars.traffic, numbered, hc]

/-- What a call does to `_msgs` and `_netman`: traffic, or a change of the
connections, the channels being flushed on the way by `NetDelConn` and
`NetPartConn`. -/
inductive Op.Effect (P : Params ν) (v : Vars ν α) : Op ν α γ → Vars ν α → Prop
  | traffic (op : Op ν α γ) (h : ¬ op.Reconnects) :
      Effect P v op (v.traffic (op.delivered v) (op.accepted v))
  | addConn (S : Finset ν) :
      Effect P v (.addConn S)
        (v.reconnect v.msgs v.netman.nWire (FifoNetwork.addConn S v.netman.conn))
  | delConnFlush (S : Finset ν) (h : P.flushDisconn = true) :
      Effect P v (.delConn S)
        (v.reconnect (flushMsgsDel P S v.msgs) (total v.msgs)
          (FifoNetwork.delConn S v.netman.conn))
  | delConn (S : Finset ν) (h : P.flushDisconn = false) :
      Effect P v (.delConn S)
        (v.reconnect v.msgs v.netman.nWire (FifoNetwork.delConn S v.netman.conn))
  | partConnFlush (S : Finset ν) (h : P.flushDisconn = true) (nPart : ℕ) :
      Effect P v (.partConn S)
        (Vars.reconnect ⟨v.msgs, { v.netman with nPart := nPart }⟩ (flushMsgs P S v.msgs)
          (total v.msgs) (FifoNetwork.partConn S v.netman.conn))
  | partConn (S : Finset ν) (h : P.flushDisconn = false) (nPart : ℕ) :
      Effect P v (.partConn S)
        (Vars.reconnect ⟨v.msgs, { v.netman with nPart := nPart }⟩ v.msgs v.netman.nWire
          (FifoNetwork.partConn S v.netman.conn))
  | cureConn (nCure : ℕ) :
      Effect P v .cureConn
        (Vars.reconnect ⟨v.msgs, { v.netman with nCure := nCure }⟩ v.msgs v.netman.nWire
          [getNodes v])

/-- Every call has one of these effects. -/
theorem Op.apply_effect {P : Params ν} {v : Vars ν α} {op : Op ν α γ} {args : Args ν α γ}
    (h : op.args P v = .ok args) : op.Effect P v (args.apply v) := by
  cases op with
  | addMsg m =>
      obtain rfl := Except.ok.inj h
      -- `NetAddMsg` is the call with the ends of the message
      rw [netAddMsg, apply_netAddMsgSrcDst]
      exact .traffic (.addMsg m) id
  | addMsgSrcDst a b x =>
      obtain rfl := Except.ok.inj h
      rw [apply_netAddMsgSrcDst]
      exact .traffic (.addMsgSrcDst a b x) id
  | batchAddMsg ms =>
      obtain rfl := Except.ok.inj h
      rw [apply_netBatchAddMsg]
      exact .traffic (.batchAddMsg ms) id
  | delMsg a b =>
      simp only [Op.args] at h
      split at h
      · simp at h
      next m hm =>
        have heff := Effect.traffic (P := P) (v := v) (.delMsg a b : Op ν α γ) id
        simp only [Op.delivered, Op.accepted, Op.sends, hm] at heff
        rw [apply_netDelMsg hm h]
        exact heff
  | replyMsg a b x =>
      simp only [Op.args] at h
      split at h
      · simp at h
      next m hm =>
        -- the channel is that of the message at its head
        obtain ⟨rfl, rfl, -⟩ := getMsg_eq_some_iff.mp hm
        have heff := Effect.traffic (P := P) (v := v)
          (.replyMsg m.src m.dst x : Op ν α γ) id
        simp only [Op.delivered, Op.accepted, Op.sends, hm] at heff
        rw [apply_netReplyMsg hm x h]
        exact heff
  | addConn S =>
      obtain rfl := Except.ok.inj h
      exact .addConn S
  | delConn S =>
      obtain rfl := Except.ok.inj h
      cases hf : P.flushDisconn with
      | true =>
          have heff := Effect.delConnFlush (γ := γ) (v := v) S hf
          simpa [netDelConn, hf, Args.apply, NetmanRec.update, NetmanRec.overlay,
            Vars.reconnect] using heff
      | false =>
          have heff := Effect.delConn (γ := γ) (v := v) S hf
          simpa [netDelConn, hf, Args.apply, NetmanRec.update, Vars.reconnect] using heff
  | partConn S =>
      obtain rfl := Except.ok.inj h
      cases hf : P.flushDisconn with
      | true =>
          have heff := Effect.partConnFlush (γ := γ) (v := v) S hf (v.netman.nPart + 1)
          simpa [netPartConn, hf, Args.apply, NetmanRec.update, NetmanRec.overlay, netIncPart,
            Vars.reconnect] using heff
      | false =>
          have heff := Effect.partConn (γ := γ) (v := v) S hf (v.netman.nPart + 1)
          simpa [netPartConn, hf, Args.apply, NetmanRec.update, NetmanRec.overlay, netIncPart,
            Vars.reconnect] using heff
  | cureConn =>
      obtain rfl := Except.ok.inj h
      exact .cureConn (v.netman.nCure + 1)
  | noAction cmd =>
      obtain rfl := Except.ok.inj h
      have heff := Effect.traffic (P := P) (v := v) (.noAction cmd : Op ν α γ) id
      simpa [netNoAction, Args.apply, Vars.traffic, Op.delivered, Op.accepted, Op.sends,
        numbered] using heff

theorem Op.Effect.traffic_or_reconnected {P : Params ν} {v v' : Vars ν α} {op : Op ν α γ}
    (h : op.Effect P v v') :
    (¬ op.Reconnects ∧ v' = v.traffic (op.delivered v) (op.accepted v))
      ∨ op.Reconnected P v v' := by
  cases h with
  | traffic _ h => exact Or.inl ⟨h, rfl⟩
  | addConn S => exact Or.inr (.of_same trivial (fun _ _ => id) rfl rfl rfl rfl)
  | delConnFlush S hf =>
      refine Or.inr ⟨trivial, rfl, rfl, fun _ => rfl, ?_, fun a b hab => ?_, fun a b hab => ?_⟩
      -- emptying a channel keeps its place in `_msgs`
      · intro a b hsome
        show (chan? (flushMsgsDel P S v.msgs) a b).isSome
        rw [flushMsgsDel_eq_override]
        exact isSome_chan?_override _ hsome
      · rw [Vars.reconnect, chan_flushMsgsDel, if_pos hab.2]
      · rw [Vars.reconnect, chan_flushMsgsDel, if_neg fun hcut => hab ⟨hf, hcut⟩]
  | delConn S hf =>
      -- without the flush no channel is cut, whatever the connections are
      have hcut (a b : ν) : ¬ Op.Cuts P (.delConn S : Op ν α γ) a b := by
        rintro ⟨hflush, -⟩
        simp [hf] at hflush
      exact Or.inr (.of_same trivial hcut rfl rfl rfl rfl)
  | partConnFlush S hf _ =>
      refine Or.inr ⟨trivial, rfl, rfl, fun _ => rfl, ?_, fun a b hab => ?_, fun a b hab => ?_⟩
      · intro a b hsome
        show (chan? (flushMsgs P S v.msgs) a b).isSome
        rw [flushMsgs_eq_override]
        exact isSome_chan?_override _ hsome
      · rw [Vars.reconnect, chan_flushMsgs, if_pos hab.2]
      · rw [Vars.reconnect, chan_flushMsgs, if_neg fun hcut => hab ⟨hf, hcut⟩]
  | partConn S hf _ =>
      have hcut (a b : ν) : ¬ Op.Cuts P (.partConn S : Op ν α γ) a b := by
        rintro ⟨hflush, -⟩
        simp [hf] at hflush
      exact Or.inr (.of_same trivial hcut rfl rfl rfl rfl)
  | cureConn _ => exact Or.inr (.of_same trivial (fun _ _ => id) rfl rfl rfl rfl)

/-! ### Channels under traffic -/

/-- The messages among `ms` that go from `a` to `b`. -/
def onChan (a b : ν) (ms : List (Msg ν α)) : List (Msg ν α) :=
  ms.filter fun m => m.src = a ∧ m.dst = b

theorem isSome_chan?_exceptChan {msgs : Msgs ν α} (a b : ν)
    (k : List (Wired α) → List (Wired α)) {x y : ν} :
    (chan? (exceptChan msgs a b k) x y).isSome ↔ (chan? msgs x y).isSome := by
  rw [chan?_exceptChan]
  split
  · rw [Option.isSome_map]
  · exact Iff.rfl

theorem isSome_chan?_traffic {v : Vars ν α} {dels adds : List (Msg ν α)} {x y : ν} :
    (chan? (v.traffic dels adds).msgs x y).isSome ↔ (chan? v.msgs x y).isSome := by
  have hpop (msgs : Msgs ν α) :
      (chan? (dels.foldl pop msgs) x y).isSome ↔ (chan? msgs x y).isSome := by
    induction dels generalizing msgs with
    | nil => exact Iff.rfl
    | cons m dels ih => exact (ih _).trans (isSome_chan?_exceptChan _ _ _)
  have hpush (msgs : Msgs ν α) :
      (chan? (adds.foldl push msgs) x y).isSome ↔ (chan? msgs x y).isSome := by
    induction adds generalizing msgs with
    | nil => exact Iff.rfl
    | cons m adds ih => exact (ih _).trans (isSome_chan?_exceptChan _ _ _)
  exact (hpush _).trans (hpop _)

theorem push_of_not_isSome {msgs : Msgs ν α} {m : Msg ν α}
    (h : ¬ (chan? msgs m.src m.dst).isSome) : push msgs m = msgs := by
  have hnone : chan? msgs m.src m.dst = none := by simpa using h
  unfold push exceptChan
  ext1 a
  rw [FinFn.get_except]
  -- no channel is there to change
  by_cases ha : a = m.src
  · rw [if_pos ha]
    cases hf : msgs.get a with
    | none => rfl
    | some f =>
        have hdst : f.get m.dst = none := by
          rw [chan?, ← ha, hf] at hnone
          exact hnone
        rw [Option.map_some]
        congr 1
        ext1 b
        rw [FinFn.get_except]
        by_cases hb : b = m.dst
        · rw [if_pos hb, hb, hdst]
          rfl
        · rw [if_neg hb]
  · rw [if_neg ha]

/-- One append as far as the other messages are concerned: the same channels are
there. -/
theorem withChan_push (msgs : Msgs ν α) (m : Msg ν α) (ms : List (Msg ν α)) :
    withChan (push msgs m) ms = withChan msgs ms := by
  refine List.filter_congr fun m' _ => ?_
  rw [Bool.eq_iff_iff]
  exact isSome_chan?_exceptChan _ _ _

/-- Appended messages end up in their channels, in order. -/
theorem chan_foldl_push (adds : List (Msg ν α)) (msgs : Msgs ν α) (a b : ν) :
    chan (adds.foldl push msgs) a b
      = chan msgs a b ++ (onChan a b (withChan msgs adds)).map Msg.wired := by
  induction adds generalizing msgs with
  | nil => simp [withChan, onChan]
  | cons m adds ih =>
      rw [List.foldl_cons, ih, withChan_push]
      by_cases hm : (chan? msgs m.src m.dst).isSome
      · rw [chan_push hm, withChan_cons, if_pos hm]
        by_cases hab : m.src = a ∧ m.dst = b
        · obtain ⟨rfl, rfl⟩ := hab
          simp [onChan]
        · have hba : ¬ (a = m.src ∧ b = m.dst) := fun h => hab ⟨h.1.symm, h.2.symm⟩
          simp [onChan, hab, hba]
      · rw [push_of_not_isSome hm, withChan_cons, if_neg hm]

/-- Appended messages are in flight. -/
theorem inFlight_foldl_push (adds : List (Msg ν α)) (msgs : Msgs ν α) :
    inFlight (adds.foldl push msgs) = inFlight msgs + ↑(withChan msgs adds) := by
  induction adds generalizing msgs with
  | nil => simp [withChan]
  | cons m adds ih =>
      rw [List.foldl_cons, ih, withChan_push]
      by_cases hm : (chan? msgs m.src m.dst).isSome
      · rw [inFlight_push hm, withChan_cons, if_pos hm, add_assoc, Multiset.singleton_add,
          Multiset.cons_coe]
      · rw [push_of_not_isSome hm, withChan_cons, if_neg hm]

/-- A call that takes the head of a channel leaves the rest of it. -/
theorem Op.chan_foldl_pop (v : Vars ν α) (op : Op ν α γ) (a b : ν) :
    chan v.msgs a b = (onChan a b (op.delivered v)).map Msg.wired
      ++ chan ((op.delivered v).foldl pop v.msgs) a b := by
  rcases op.delivered_cases v with hnil | ⟨m, rest, hm, hc⟩
  · simp [hnil, onChan]
  · rw [hm, List.foldl_cons, List.foldl_nil, chan_pop]
    by_cases hab : m.src = a ∧ m.dst = b
    · obtain ⟨rfl, rfl⟩ := hab
      simp [onChan, chan, hc]
    · have hba : ¬ (a = m.src ∧ b = m.dst) := fun h => hab ⟨h.1.symm, h.2.symm⟩
      simp [onChan, hab, hba]

theorem Op.inFlight_foldl_pop (v : Vars ν α) (op : Op ν α γ) :
    inFlight v.msgs = ↑(op.delivered v) + inFlight ((op.delivered v).foldl pop v.msgs) := by
  rcases op.delivered_cases v with hnil | ⟨m, rest, hm, hc⟩
  · simp [hnil]
  · rw [hm, List.foldl_cons, List.foldl_nil, inFlight_pop hc, Multiset.coe_singleton]

/-- On one channel, what is handed over and what remains come from what was
there and what is taken in, in that order. -/
theorem Op.sublist_traffic (v : Vars ν α) (op : Op ν α γ) (a b : ν) :
    ((onChan a b (op.delivered v)).map Msg.wired
        ++ chan (v.traffic (op.delivered v) (op.accepted v)).msgs a b).Sublist
      (chan v.msgs a b ++ (onChan a b (op.accepted v)).map Msg.wired) := by
  rw [Vars.traffic, chan_foldl_push, ← List.append_assoc, ← Op.chan_foldl_pop]
  exact List.Sublist.append_left ((List.filter_sublist.filter _).map _) _

/-- All channels together, in the same way. -/
theorem Op.inFlight_traffic_le (v : Vars ν α) (op : Op ν α γ) :
    ↑(op.delivered v) + inFlight (v.traffic (op.delivered v) (op.accepted v)).msgs
      ≤ inFlight v.msgs + ↑(op.accepted v) := by
  rw [Vars.traffic, inFlight_foldl_push, ← add_assoc, ← Op.inFlight_foldl_pop]
  exact add_le_add_right (Multiset.coe_le.mpr List.filter_sublist.subperm) _

/-! ### Nodes and channels -/

theorem WellFormed.carries {nodes : Finset ν} {msgs : Msgs ν α} (h : WellFormed nodes msgs) :
    Carries nodes msgs := by
  refine ⟨fun a b ha hb hab => h.isSome_chan?_iff.mpr ⟨ha, hb, hab.symm⟩, fun a b hne => ?_⟩
  have hsome : (chan? msgs a b).isSome := by
    unfold chan at hne
    cases hc : chan? msgs a b with
    | none =>
        rw [hc] at hne
        exact absurd rfl hne
    | some l => rfl
  obtain ⟨ha, hb, hab⟩ := h.isSome_chan?_iff.mp hsome
  exact ⟨ha, hb, hab.symm⟩

namespace Carries

variable {nodes : Finset ν} {v v' : Vars ν α} {op : Op ν α γ}

/-- Every message the network takes goes between two different nodes. -/
theorem between_of_mem_accepted (h : Carries nodes v.msgs) (hop : op.Between nodes) {m : Msg ν α}
    (hm : m ∈ op.accepted v) : m.src ∈ nodes ∧ m.dst ∈ nodes ∧ m.src ≠ m.dst :=
  h.between_of_mem_sends hop (List.mem_of_mem_filter (mem_numbered hm))

/-- Every accepted message has a channel. -/
theorem withChan_accepted (h : Carries nodes v.msgs) (hop : op.Between nodes) :
    withChan ((op.delivered v).foldl pop v.msgs) (op.accepted v) = op.accepted v := by
  refine List.filter_eq_self.mpr fun m hm => ?_
  obtain ⟨ha, hb, hab⟩ := h.between_of_mem_accepted hop hm
  have hsome : (chan? (v.traffic (op.delivered v) []).msgs m.src m.dst).isSome :=
    isSome_chan?_traffic.mpr (h.complete _ _ ha hb hab)
  exact hsome

/-- Traffic removes the delivered messages and adds the accepted ones, no other. -/
theorem inFlight_traffic (h : Carries nodes v.msgs) (hop : op.Between nodes) :
    inFlight v.msgs + ↑(op.accepted v)
      = ↑(op.delivered v) + inFlight (v.traffic (op.delivered v) (op.accepted v)).msgs := by
  rw [Vars.traffic, inFlight_foldl_push, h.withChan_accepted hop, ← add_assoc,
    ← Op.inFlight_foldl_pop]

/-- Every call keeps `Carries`, whatever node sets it is given. -/
theorem step (h : Carries nodes v.msgs) (hop : op.Between nodes) {P : Params ν}
    (heff : op.Effect P v v') : Carries nodes v'.msgs := by
  rcases heff.traffic_or_reconnected with ⟨-, rfl⟩ | hre
  · refine ⟨fun a b ha hb hab => isSome_chan?_traffic.mpr (h.complete a b ha hb hab), ?_⟩
    intro a b hne
    have hchan := op.sublist_traffic v a b
    by_cases hacc : onChan a b (op.accepted v) = []
    · -- nothing came in, so the message was there before
      refine h.proper a b fun hnil => hne ?_
      rw [hacc, hnil] at hchan
      exact (List.append_eq_nil_iff.mp (List.sublist_nil.mp hchan)).2
    · obtain ⟨m, hm⟩ := List.exists_mem_of_ne_nil _ hacc
      obtain ⟨hmem, hab⟩ := List.mem_filter.mp hm
      obtain ⟨rfl, rfl⟩ := of_decide_eq_true hab
      exact h.between_of_mem_accepted hop hmem
  · refine ⟨fun a b ha hb hab => hre.isSome a b (h.complete a b ha hb hab), fun a b hne => ?_⟩
    refine h.proper a b fun hnil => hne ?_
    have hsub := hre.sublist a b
    rw [hnil] at hsub
    exact List.sublist_nil.mp hsub

end Carries

/-- The channels have their domains and connections are sets of nodes. -/
structure NetOk (nodes : Finset ν) (v : Vars ν α) : Prop where
  wf : WellFormed nodes v.msgs
  conn : ∀ p ∈ v.netman.conn, p ⊆ nodes

theorem addConn_subset {nodes S : Finset ν} (hS : S ⊆ nodes) {conn : List (Finset ν)}
    (h : ∀ p ∈ conn, p ⊆ nodes) : ∀ p ∈ addConn S conn, p ⊆ nodes := by
  intro p hp
  unfold addConn at hp
  split at hp
  · exact h p hp
  · rcases List.mem_append.mp hp with hp | hp
    · exact h p (List.mem_of_mem_filter hp)
    · obtain rfl := List.mem_singleton.mp hp
      exact hS

/-- `_DelConn` takes the nodes out of every connection and drops the ones that
are left with at most one node. -/
theorem delConn_eq (S : Finset ν) (conn : List (Finset ν)) :
    delConn S conn = (conn.map (· \ S)).filter fun p => 1 < p.card := by
  have hfold (acc : List (Finset ν)) :
      conn.foldl (fun acc p => if (p \ S).card ≤ 1 then acc else acc ++ [p \ S]) acc
        = acc ++ (conn.map (· \ S)).filter fun p => 1 < p.card := by
    induction conn generalizing acc with
    | nil => simp
    | cons p conn ih =>
        rw [List.foldl_cons, ih, List.map_cons]
        by_cases hp : (p \ S).card ≤ 1
        · rw [if_pos hp, List.filter_cons_of_neg (by simpa using hp)]
        · rw [if_neg hp, List.filter_cons_of_pos (by simpa using hp)]
          simp
  exact hfold []

theorem mem_delConn {S : Finset ν} {conn : List (Finset ν)} {p : Finset ν} :
    p ∈ delConn S conn ↔ ∃ q ∈ conn, p = q \ S ∧ 1 < p.card := by
  rw [delConn_eq, List.mem_filter, List.mem_map]
  constructor
  · rintro ⟨⟨q, hq, rfl⟩, hc⟩
    exact ⟨q, hq, rfl, by simpa using hc⟩
  · rintro ⟨q, hq, rfl, hc⟩
    exact ⟨⟨q, hq, rfl⟩, by simpa using hc⟩

theorem delConn_subset {nodes S : Finset ν} {conn : List (Finset ν)}
    (h : ∀ p ∈ conn, p ⊆ nodes) : ∀ p ∈ delConn S conn, p ⊆ nodes := by
  intro p hp
  obtain ⟨q, hq, rfl, -⟩ := mem_delConn.mp hp
  exact Finset.sdiff_subset.trans (h q hq)

theorem wellFormed_traffic {nodes : Finset ν} {v : Vars ν α} (h : WellFormed nodes v.msgs)
    (dels adds : List (Msg ν α)) : WellFormed nodes (v.traffic dels adds).msgs := by
  have hpop (msgs : Msgs ν α) (hm : WellFormed nodes msgs) :
      WellFormed nodes (dels.foldl pop msgs) := by
    induction dels generalizing msgs with
    | nil => exact hm
    | cons m dels ih => exact ih _ (hm.exceptChan _ _ _)
  have hpush (msgs : Msgs ν α) (hm : WellFormed nodes msgs) :
      WellFormed nodes (adds.foldl push msgs) := by
    induction adds generalizing msgs with
    | nil => exact hm
    | cons m adds ih => exact ih _ (hm.exceptChan _ _ _)
  exact hpush _ (hpop _ h)

/-- Every call with node arguments from the node set keeps `NetOk`. -/
theorem NetOk.step {P : Params ν} {nodes : Finset ν} {v v' : Vars ν α} {op : Op ν α γ}
    (h : NetOk nodes v) (hop : op.NodesIn nodes) (heff : op.Effect P v v') : NetOk nodes v' := by
  cases heff with
  | traffic _ _ => exact ⟨wellFormed_traffic h.wf _ _, h.conn⟩
  | addConn S => exact ⟨h.wf, addConn_subset hop h.conn⟩
  | delConnFlush S _ =>
      refine ⟨?_, delConn_subset h.conn⟩
      exact h.wf.flushMsgsDel P hop
  | delConn S _ => exact ⟨h.wf, delConn_subset h.conn⟩
  | partConnFlush S _ _ =>
      refine ⟨?_, addConn_subset hop (delConn_subset h.conn)⟩
      exact h.wf.flushMsgs P hop
  | partConn S _ _ => exact ⟨h.wf, addConn_subset hop (delConn_subset h.conn)⟩
  | cureConn _ =>
      refine ⟨h.wf, fun p hp => ?_⟩
      obtain rfl := List.mem_singleton.mp hp
      exact h.wf.dom.subset

theorem NetOk.init (nodes : Finset ν) : NetOk nodes (initFifoNetwork nodes : Net ν α γ).toVars :=
  ⟨wellFormed_init nodes, fun _ hp => (List.mem_singleton.mp hp).subset⟩

/-- `NetOk` holds throughout every run with node arguments from the node set. -/
theorem NetOk.of_run {P : Params ν} {nodes : Finset ν} {V : Op ν α γ → Prop}
    (hV : ∀ op, V op → op.NodesIn nodes) {tr : List (Step (Net ν α γ) (Op ν α γ))}
    {s : Net ν α γ} (h : (api P nodes V).Run tr s) : NetOk nodes s.toVars := by
  refine System.Run.state_invariant (P := fun s => NetOk nodes s.toVars) ?_ ?_ h
  · rintro s rfl
    exact NetOk.init nodes
  · rintro s op s' hok ⟨hop, args, hargs, rfl⟩
    exact hok.step (hV op hop) (Op.apply_effect hargs)

/-! ### A run with a partition -/

/-- A run goes on with a call. -/
theorem run_call {P : Params ν} {nodes : Finset ν} {V : Op ν α γ → Prop}
    {tr : List (Step (Net ν α γ) (Op ν α γ))} {s : Net ν α γ} (h : (api P nodes V).Run tr s)
    {op : Op ν α γ} (hop : V op) {args : Args ν α γ} (hargs : op.args P s.toVars = .ok args) :
    (api P nodes V).Run (tr ++ [⟨s, op, netUpdate s.toVars args⟩]) (netUpdate s.toVars args) :=
  .snoc h ⟨hop, args, hargs, rfl⟩

/-- `FLUSH_DISCONN` on, the least node picked first. -/
def flushing : Params ℕ := ⟨true, .smallest ℕ⟩

/-- Two nodes; a message from `0` to `1`; then `0` is cut off. -/
def connected : Net ℕ Unit Unit := initFifoNetwork {0, 1}

def afterSend : Net ℕ Unit Unit :=
  netUpdate connected.toVars (netAddMsg connected.toVars ⟨0, 1, ()⟩)

def afterPart : Net ℕ Unit Unit :=
  netUpdate afterSend.toVars (netPartConn flushing afterSend.toVars {0})

/-- The history of that run. -/
def sendThenPart : List (Step (Net ℕ Unit Unit) (Op ℕ Unit Unit)) :=
  [⟨connected, .addMsg ⟨0, 1, ()⟩, afterSend⟩, ⟨afterSend, .partConn {0}, afterPart⟩]

/-- It is a run of the API, under every restriction its two calls satisfy. -/
theorem run_sendThenPart {V : Op ℕ Unit Unit → Prop} (hadd : V (.addMsg ⟨0, 1, ()⟩))
    (hpart : V (.partConn {0})) : (api flushing {0, 1} V).Run sendThenPart afterPart := by
  exact run_call (run_call (.nil rfl) hadd rfl) hpart rfl

/-- Three messages from `0` to `1`, sent with one call. -/
def threeSent : Net ℕ ℕ Unit :=
  netUpdate (initFifoNetwork {0, 1} : Net ℕ ℕ Unit).toVars
    (netBatchAddMsg (initFifoNetwork {0, 1} : Net ℕ ℕ Unit).toVars
      [⟨0, 1, 7⟩, ⟨0, 1, 8⟩, ⟨0, 1, 9⟩])

/-- The first of them is handed over. -/
def firstTaken : Net ℕ ℕ Unit :=
  match (Op.delMsg 0 1).args flushing threeSent.toVars with
  | .ok args => netUpdate threeSent.toVars args
  | .error _ => threeSent

/-- The history of that run. -/
def threeThenOne : List (Step (Net ℕ ℕ Unit) (Op ℕ ℕ Unit)) :=
  [⟨initFifoNetwork {0, 1}, .batchAddMsg [⟨0, 1, 7⟩, ⟨0, 1, 8⟩, ⟨0, 1, 9⟩], threeSent⟩,
    ⟨threeSent, .delMsg 0 1, firstTaken⟩]

/-- It is a run of the API, under every restriction its two calls satisfy. -/
theorem run_threeThenOne {V : Op ℕ ℕ Unit → Prop}
    (hbatch : V (.batchAddMsg [⟨0, 1, 7⟩, ⟨0, 1, 8⟩, ⟨0, 1, 9⟩])) (hdel : V (.delMsg 0 1)) :
    (api flushing {0, 1} V).Run threeThenOne firstTaken := by
  obtain ⟨args, hargs, htaken⟩ : ∃ args,
      (Op.delMsg 0 1).args flushing threeSent.toVars = .ok args
        ∧ firstTaken = netUpdate threeSent.toVars args := ⟨_, rfl, rfl⟩
  rw [threeThenOne, htaken]
  exact run_call (run_call (.nil rfl) hbatch rfl) hdel hargs

end Tmet.FifoNetwork
