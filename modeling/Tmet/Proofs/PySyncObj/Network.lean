import Tmet.Proofs.FifoNetwork.Labels
import Tmet.Proofs.FifoNetwork.Reliable
import Tmet.Proofs.PySyncObj.Broadcast
import Tmet.Proofs.PySyncObj.Election

/-!
# `Tmet.Proofs.PySyncObj.Network`: the servers over their links

A step of `Next` makes one call of the network module (`netOp`). So the servers run over the
links that the module stands for (`spec_refines_links`), the labels of a trace determine its
network (`trace_labels_replay`), and a channel changes in a step as the call says:
`NetCall.moved`, `NetCall.parted` and `NetCall.cured`.
-/

set_option autoImplicit false

namespace Tmet.PySyncObj

open Tmet.Lib
open Tmet.FifoNetwork

variable {ν κ : Type} [DecidableEq ν] [Fintype ν] {pick : Choose ν} {s s' : State ν κ}

/-! ### The call of a step -/

/-- The network call an action makes. -/
def netOp (pick : Choose ν) (s : State ν κ) : Action ν → Op ν Body (Cmd ν)
  | .handleMsgRV src dst =>
      match netGetMsg s.net.toVars src dst with
      | some ⟨_, _, _, .rv data⟩ =>
          if Grants s dst data then .replyMsg src dst (.rvr ⟨data.term⟩) else .delMsg src dst
      | _ => .delMsg src dst
  | .handleMsgRVR src dst => .delMsg src dst
  | .electionTimeout n => .batchAddMsg (requests pick s n)
  | .networkPartition n => .partConn {n}
  | .networkCure => .cureConn

theorem netOp_handleMsgRV {src dst : ν} {m : Msg ν Body} {data : RVData}
    (hm : netGetMsg s.net.toVars src dst = some m) (hbody : m.body = .rv data) :
    netOp pick s (.handleMsgRV src dst)
      = if Grants s dst data then .replyMsg src dst (.rvr ⟨data.term⟩) else .delMsg src dst := by
  obtain ⟨_, _, _, body⟩ := m
  obtain rfl : body = .rv data := hbody
  simp only [netOp, hm]

/-- A step makes the call of its action. -/
theorem Effect.netCall {a : Action ν} (h : Effect pick s a s') :
    ∃ cmd, NetCall pick s (netOp pick s a) cmd s'.net := by
  cases h with
  | vote src dst m data net' hne hm hbody hgrants hnet =>
      rw [netOp_handleMsgRV hm hbody, if_pos hgrants]
      exact ⟨_, hnet⟩
  | refuse src dst m data net' hne hm hbody hgrants hnet =>
      rw [netOp_handleMsgRV hm hbody, if_neg hgrants]
      exact ⟨_, hnet⟩
  | becomeLeader src dst m data net' hne hm hbody hwins hnet => exact ⟨_, hnet⟩
  | notQuorum src dst m data net' raftState' hne hm hbody hshort hnet => exact ⟨_, hnet⟩
  | ignore src dst m data net' hne hm hbody hcount hnet => exact ⟨_, hnet⟩
  | timeout n net' hnet => exact ⟨_, hnet⟩
  | partition n net' hnet => exact ⟨_, hnet⟩
  | cure net' hnet => exact ⟨_, hnet⟩

/-- The requests of a server go to other servers. -/
theorem between_requests (s : State ν κ) (n : ν) :
    (Op.batchAddMsg (requests pick s n) : Op ν Body (Cmd ν)).Between Finset.univ := by
  intro m hm
  obtain ⟨p, hp, rfl⟩ := List.mem_map.mp hm
  have hne : p ≠ n := by simpa using (Choose.mem_order pick).mp hp
  exact ⟨Finset.mem_univ n, Finset.mem_univ p, hne.symm⟩

theorem between_netOp (s : State ν κ) (a : Action ν) : (netOp pick s a).Between Finset.univ := by
  cases a with
  | handleMsgRV src dst =>
      simp only [netOp]
      split
      · split
        · trivial
        · trivial
      · trivial
  | electionTimeout n => exact between_requests s n
  | _ => trivial

/-- The servers run over FIFO links: a run of the specification is a run of the links that
makes the moves of the network calls of its steps, in their order. At the end the links are
up that `NetIsConn` says are connected, and the requests and replies in the channels are what
is on the way. -/
theorem spec_refines_links (pick : Choose ν) (tr : List (Step (State ν κ) (Action ν)))
    (s : State ν κ) (h : (spec pick).Run tr s) :
    ∃ tr' l, (links ν Body true).Run tr' l
      ∧ tr'.map Step.act
        = tr.flatMap (fun t => (netOp pick t.src t.act).linkActs t.src.net.toVars)
      ∧ ∀ a b, a ≠ b →
        (l.up a b ↔ netIsConn s.net.toVars a b) ∧ l.queue a b = bodies s.net.msgs a b := by
  have hsim : System.Simulates (spec pick) (links ν Body true)
      (fun (s : State ν κ) l =>
        NetOk Finset.univ s.net.toVars ∧ Represents Finset.univ s.net.toVars l)
      (fun t => (netOp pick t.src t.act).linkActs t.src.net.toVars) := by
    rintro s a s' l ⟨hok, hrep⟩ hstep
    have heff := nextBy_iff_effect.mp hstep
    obtain ⟨cmd, args, hargs, hnet⟩ := heff.netCall
    have hcall := Op.apply_effect hargs
    obtain ⟨post, l', hexec, hacts, hrep'⟩ := hrep.step hok (between_netOp s a) hcall
    refine ⟨post, l', hexec, hacts, heff.netOk hok, ?_⟩
    rw [hnet]
    exact hrep'
  have hinit (s : State ν κ) (hs : (spec pick).init s) : ∃ l, (links ν Body true).init l
      ∧ NetOk Finset.univ s.net.toVars ∧ Represents Finset.univ s.net.toVars l := by
    have hs : s = init := hs
    subst hs
    exact ⟨_, rfl, NetOk.init Finset.univ, represents_init Finset.univ⟩
  obtain ⟨tr', l, hrun, ⟨-, hrep⟩, hacts⟩ := h.simulate hinit hsim
  refine ⟨tr', l, hrun, hacts, fun a b hab => ?_⟩
  rw [netIsConn_iff_connected]
  exact ⟨hrep.up a (Finset.mem_univ a) b (Finset.mem_univ b) hab,
    hrep.queue a (Finset.mem_univ a) b (Finset.mem_univ b) hab⟩

/-- In the example election server `0` sends its request, server `1` takes it and replies, and
the reply is taken. -/
theorem spec_refines_links_election :
    ∃ tr' l, (links (Fin 2) Body true).Run tr' l
      ∧ tr'.map Step.act = [.send 0 1 (.rv ⟨1, 0, 1⟩), .deliver 0 1 (.rv ⟨1, 0, 1⟩),
          .send 1 0 (.rvr ⟨1⟩), .deliver 1 0 (.rvr ⟨1⟩)]
      ∧ l.up 0 1 ∧ l.queue 0 1 = [] := by
  obtain ⟨tr', l, hrun, hacts, hstate⟩ := spec_refines_links (.smallest _) election elected run_election
  obtain ⟨hup, hqueue⟩ := hstate 0 1 (by decide)
  exact ⟨tr', l, hrun, hacts, hup.mpr (by decide), hqueue⟩

/-! ### The labels of a trace -/

/-- A trace of the specification is dumped with a label for each step, and these labels
determine the network of its last state, but for the bodies of the messages. -/
theorem trace_labels_replay (pick : Choose ν) (tr : List (Step (State ν κ) (Action ν)))
    (s : State ν κ) (h : (spec pick).Run tr s) :
    (tr.map fun t => t.dst.net.netcmd).foldl (Ledger.read Finset.univ) (Ledger.start Finset.univ)
      = ledger s.net.toVars := by
  refine And.right (a := NetOk Finset.univ s.net.toVars) ?_
  induction h with
  | nil hs =>
      obtain rfl := hs
      exact ⟨NetOk.init Finset.univ, (ledger_init Finset.univ).symm⟩
  | @snoc tr s a s' _ hstep ih =>
      obtain ⟨hok, hread⟩ := ih
      have heff := nextBy_iff_effect.mp hstep
      obtain ⟨user, args, hargs, hnet⟩ := heff.netCall
      obtain ⟨cmd, hcmd, htells⟩ := tells_args hok (between_netOp s a) hargs
      refine ⟨heff.netOk hok, ?_⟩
      rw [List.map_append, List.foldl_append, hread]
      show (ledger s.net.toVars).read Finset.univ s'.net.netcmd = ledger s'.net.toVars
      -- the label of the call stands behind the one of the server
      have hlabel : s'.net.netcmd = .tagged user (some cmd) := by
        rw [hnet, netUpdate2, hcmd]
      rw [hlabel, hnet]
      exact htells.call

/-- In the example election the labels say that one request and one reply were sent and that
both were taken. -/
theorem trace_labels_replay_election :
    (ledger elected.net.toVars).netman.nSent = 2 ∧ (ledger elected.net.toVars).netman.nRecv = 2
      ∧ (ledger elected.net.toVars).seqs 1 0 = [] := by
  rw [← trace_labels_replay (.smallest _) election elected run_election]
  decide

/-! ### What a call does to a channel -/

variable {op : Op ν Body (Cmd ν)} {cmd : Cmd ν} {net' : Net ν Body (Cmd ν)}

/-- A call that moves messages leaves the connections, and takes from the fronts of the
channels and adds at their ends. -/
theorem NetCall.moved (h : NetCall pick s op cmd net') (hok : NetOk Finset.univ s.net.toVars)
    (hmoves : ¬ op.Reconnects) (hop : op.Between Finset.univ) :
    net'.netman.conn = s.net.netman.conn
      ∧ ∀ a b, bodies s.net.msgs a b
          ++ (if netIsConn s.net.toVars a b then op.sentOn s.net.toVars a b else [])
        = op.takenFrom s.net.toVars a b ++ bodies net'.msgs a b := by
  obtain ⟨args, hargs, rfl⟩ := h
  have heff := Op.apply_effect hargs
  refine ⟨?_, heff.bodies_moved hmoves hok.wf.carries hop⟩
  obtain ⟨-, hnet⟩ := heff.traffic_or_reconnected.resolve_right fun h => hmoves h.reconnects
  show (args.apply s.net.toVars).netman.conn = _
  rw [hnet]
  rfl

omit [Fintype ν] in
/-- A partition disconnects its server from every other one and empties its channels. -/
theorem NetCall.parted {n : ν} (h : NetCall pick s (.partConn {n}) cmd net') {a b : ν}
    (hab : a ≠ b) :
    (Connected net'.netman.conn a b ↔ a ≠ n ∧ b ≠ n ∧ Connected s.net.netman.conn a b)
      ∧ bodies net'.msgs a b = if a = n ∨ b = n then [] else bodies s.net.msgs a b := by
  obtain ⟨args, hargs, rfl⟩ := h
  obtain rfl := Except.ok.inj hargs
  have hboth : ¬ (a = n ∧ b = n) := by
    rintro ⟨rfl, rfl⟩
    exact hab rfl
  refine ⟨?_, ?_⟩
  · show Connected (partConn {n} s.net.netman.conn) a b ↔ _
    rw [connected_partConn hab]
    simp only [Finset.mem_singleton]
    tauto
  · show (chan (flushMsgs (netParams pick) {n} s.net.msgs) a b).map Wired.body = _
    have hcross : Crosses {n} a b ↔ a = n ∨ b = n := by
      simp only [Crosses, Finset.mem_singleton]
      tauto
    rw [chan_flushMsgs, apply_ite (List.map Wired.body), List.map_nil]
    simp only [hcross]
    rfl

/-- A cure connects all servers and leaves the channels. -/
theorem NetCall.cured (h : NetCall pick s .cureConn cmd net')
    (hok : NetOk Finset.univ s.net.toVars) (a b : ν) :
    Connected net'.netman.conn a b ∧ bodies net'.msgs a b = bodies s.net.msgs a b := by
  obtain ⟨args, hargs, rfl⟩ := h
  obtain rfl := Except.ok.inj hargs
  have hdom : getNodes s.net.toVars = Finset.univ := hok.wf.dom
  refine ⟨?_, rfl⟩
  exact connected_cureConn (γ := Cmd ν) (hdom ▸ Finset.mem_univ a) (hdom ▸ Finset.mem_univ b)

omit [DecidableEq ν] [Fintype ν] in
/-- The front of a channel is what `NetGetMsg` returns. -/
theorem exists_netGetMsg {a b : ν} {x : Body} {rest : List Body}
    (h : bodies s.net.msgs a b = x :: rest) :
    ∃ m, netGetMsg s.net.toVars a b = some m ∧ m.body = x := by
  unfold bodies chan at h
  cases hchan : chan? s.net.msgs a b with
  | none => simp [hchan] at h
  | some l =>
      cases l with
      | nil => simp [hchan] at h
      | cons w l =>
          obtain ⟨hx, -⟩ : w.body = x ∧ l.map Wired.body = rest := by simpa [hchan] using h
          exact ⟨⟨a, b, w.seq, w.body⟩, getMsg_eq_some_iff.mpr ⟨rfl, rfl, l, hchan⟩, hx⟩

/-! ### The three calls that move messages -/

omit [Fintype ν] in
/-- A message at the front of its channel can be deleted, -/
theorem toBool_delMsg {src dst : ν} {m : Msg ν Body}
    (hm : netGetMsg s.net.toVars src dst = some m) :
    ((Op.delMsg src dst : Op ν Body (Cmd ν)).args (netParams pick) s.net.toVars).toBool = true := by
  simp only [Op.args, hm, netDelMsg, delMsg_of_getMsg hm]
  rfl

omit [Fintype ν] in
/-- and replied to. -/
theorem toBool_replyMsg {src dst : ν} {m : Msg ν Body} {response : Body}
    (hm : netGetMsg s.net.toVars src dst = some m) :
    ((Op.replyMsg src dst response : Op ν Body (Cmd ν)).args (netParams pick)
      s.net.toVars).toBool = true := by
  simp only [Op.args, hm, netReplyMsg, replyMsg, delMsg_of_getMsg hm, bind, Except.bind]
  split <;> rfl

omit [Fintype ν] in
/-- A deletion takes the front of its channel. -/
theorem moved_delMsg {src dst : ν} {m : Msg ν Body}
    (hm : netGetMsg s.net.toVars src dst = some m) (a b : ν) :
    (Op.delMsg src dst : Op ν Body (Cmd ν)).takenFrom s.net.toVars a b
        = (if src = a ∧ dst = b then [m.body] else [])
      ∧ (Op.delMsg src dst : Op ν Body (Cmd ν)).sentOn s.net.toVars a b = [] := by
  obtain ⟨rfl, rfl, -⟩ := getMsg_eq_some_iff.mp hm
  refine ⟨?_, rfl⟩
  rw [Op.takenFrom, Op.delivered, hm]
  by_cases hab : m.src = a ∧ m.dst = b <;> simp [onChan, hab]

omit [Fintype ν] in
/-- A reply takes the front of its channel and sends on the one back. -/
theorem moved_replyMsg {src dst : ν} {m : Msg ν Body} {response : Body}
    (hm : netGetMsg s.net.toVars src dst = some m) (a b : ν) :
    (Op.replyMsg src dst response : Op ν Body (Cmd ν)).takenFrom s.net.toVars a b
        = (if src = a ∧ dst = b then [m.body] else [])
      ∧ (Op.replyMsg src dst response : Op ν Body (Cmd ν)).sentOn s.net.toVars a b
        = if dst = a ∧ src = b then [response] else [] := by
  obtain ⟨rfl, rfl, -⟩ := getMsg_eq_some_iff.mp hm
  refine ⟨?_, ?_⟩
  · rw [Op.takenFrom, Op.delivered, hm]
    by_cases hab : m.src = a ∧ m.dst = b <;> simp [onChan, hab]
  · rw [Op.sentOn, Op.sends, hm]
    by_cases hab : m.dst = a ∧ m.src = b <;> simp [hab]

/-- A timeout sends one request to each other server. -/
theorem moved_requests (s : State ν κ) (n a b : ν) :
    (Op.batchAddMsg (requests pick s n) : Op ν Body (Cmd ν)).takenFrom s.net.toVars a b = []
      ∧ (Op.batchAddMsg (requests pick s n) : Op ν Body (Cmd ν)).sentOn s.net.toVars a b
        = if a = n ∧ b ≠ n then [.rv (requestData s n)] else [] := by
  refine ⟨rfl, ?_⟩
  have hmem : b ∈ pick.order (Finset.univ \ {n}) ↔ b ≠ n := by
    rw [Choose.mem_order]
    simp
  simp only [Op.sentOn, Op.sends, requests, List.filter_map, List.map_map, Function.comp_def]
  by_cases ha : n = a
  · subst ha
    simp only [true_and, List.filter_eq, List.map_replicate]
    by_cases hb : b ≠ n
    · rw [List.count_eq_one_of_mem (pick.nodup_order _) (hmem.mpr hb), if_pos hb]
      rfl
    · rw [List.count_eq_zero_of_not_mem (mt hmem.mp hb), if_neg hb]
      rfl
  · have ha' : ¬ a = n := fun h => ha h.symm
    simp [ha, ha']

end Tmet.PySyncObj
