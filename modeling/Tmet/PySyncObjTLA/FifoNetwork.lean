import Tmet.Lib.Choose
import Tmet.Lib.FinFn
import Tmet.Lib.Transition

/-!
# `Tmet.PySyncObjTLA.FifoNetwork`: the FIFO network module

`PySyncObjTLA/FifoNetwork.tla`, operator by operator. The three variables are
`_msgs` and `_netman` (together `Vars`, what the operators read) and `_netcmd`,
the label of the last command (`Net` adds it).

A record that `NetUpdate` merges into `_netman` with `@@` is a `NetmanRec`: each
member is there or not. An API operator returns an `Args`, the tuple
`<<netman, msgs, cmd>>` of the source.

The constant `FLUSH_DISCONN` and the choice behind `_Pick` are in `Params`. The
constant `NULL_MSG` differs from every stored message, so `none` stands for it.
`_DelMsg` may stop the model checker: at the `Assert`, or where it applies a
function outside its domain. Both are errors of `Except`.

`Op` and `api` at the end are the runs the module is for: any order of
`NetUpdate` steps, with `NetDelMsg` and `NetReplyMsg` applied to a message that
`NetGetMsg` returns in the current state.
-/

set_option autoImplicit false

namespace Tmet.FifoNetwork

open Tmet.Lib

/-! ### Messages and variables -/

/-- A message in a channel: `src` and `dst` are dropped when it is stored, `seq`
is set by the network, `body` is every other field. -/
structure Wired (α : Type) where
  seq : ℕ
  body : α
  deriving DecidableEq, Repr

/-- A message as `NetGetMsg` returns it. -/
structure Msg (ν α : Type) where
  src : ν
  dst : ν
  seq : ℕ
  body : α
  deriving DecidableEq, Repr

/-- A message as `NetAddMsg` takes it. -/
structure Send (ν α : Type) where
  src : ν
  dst : ν
  body : α
  deriving DecidableEq, Repr

/-- The value of `_msgs`: `[src][dst]` records of sequences. -/
abbrev Msgs (ν α : Type) := FinFn ν (FinFn ν (List (Wired α)))

/-- The value of `_netman`. `n_wire` is decremented, so it is an integer. -/
structure Netman (ν : Type) where
  nSent : ℕ
  nRecv : ℕ
  nWire : ℤ
  conn : List (Finset ν)
  nPart : ℕ
  nCure : ℕ

/-- The value of `_netcmd`. `user` is a command the caller of `NetNoAction`
passes in; `tagged` is what `NetUpdate2` builds from its own command. -/
inductive NetCmd (ν γ : Type) where
  | init
  | noop
  | connAdd (nodes : Finset ν)
  | connDelFlush (nodes : Finset ν)
  | connDel (nodes : Finset ν)
  | connPartFlush (nodes : Finset ν)
  | connPart (nodes : Finset ν)
  | connCure
  | msgDel (src dst : ν)
  | msgAdd (src dst : ν)
  | msgAddDropped (src dst : ν)
  | msgReply (src dst : ν)
  | msgReplyDropped (src dst : ν)
  | msgBatchAdd (results : List (Bool × ν × ν))
  | user (cmd : γ)
  | tagged (cmd : γ) (args : Option (NetCmd ν γ))

/-- The variables the operators read. -/
structure Vars (ν α : Type) where
  msgs : Msgs ν α
  netman : Netman ν

/-- All three variables. -/
structure Net (ν α γ : Type) extends Vars ν α where
  netcmd : NetCmd ν γ

/-- `CONSTANT FLUSH_DISCONN` and the selection behind `_Pick`. -/
structure Params (ν : Type) where
  flushDisconn : Bool
  pick : Choose ν

/-- How an operator stops the evaluation. -/
inductive NetError where
  /-- `NetGetMsg` returned `NULL_MSG`, so there is no message to handle. -/
  | nullMsg
  /-- a function applied outside its domain, as in `<<>>[1]` -/
  | badApply
  | assertFailed (out : String)
  deriving DecidableEq, Repr

variable {ν α γ : Type} [DecidableEq ν]

/-- `InitFifoNetwork(nodes)`. -/
def initFifoNetwork (nodes : Finset ν) : Net ν α γ where
  msgs := FinFn.tabulate nodes fun sender => FinFn.tabulate (nodes \ {sender}) fun _ => []
  netman := { nSent := 0, nRecv := 0, nWire := 0, conn := [nodes], nPart := 0, nCure := 0 }
  netcmd := .init

/-- `_GetNodes`. -/
def getNodes (s : Vars ν α) : Finset ν := s.msgs.dom

/-! ### Updating `_netman` -/

/-- A record with some of the members of `_netman`. -/
structure NetmanRec (ν : Type) where
  nSent : Option ℕ := none
  nRecv : Option ℕ := none
  nWire : Option ℤ := none
  conn : Option (List (Finset ν)) := none
  nPart : Option ℕ := none
  nCure : Option ℕ := none

namespace NetmanRec

/-- `f @@ g`. -/
def overlay (f g : NetmanRec ν) : NetmanRec ν where
  nSent := f.nSent.or g.nSent
  nRecv := f.nRecv.or g.nRecv
  nWire := f.nWire.or g.nWire
  conn := f.conn.or g.conn
  nPart := f.nPart.or g.nPart
  nCure := f.nCure.or g.nCure

/-- `f @@ _netman`. -/
def update (f : NetmanRec ν) (m : Netman ν) : Netman ν where
  nSent := f.nSent.getD m.nSent
  nRecv := f.nRecv.getD m.nRecv
  nWire := f.nWire.getD m.nWire
  conn := f.conn.getD m.conn
  nPart := f.nPart.getD m.nPart
  nCure := f.nCure.getD m.nCure

/-- The full record `_netman` itself, as an operator returns it that changes
nothing. -/
def ofNetman (m : Netman ν) : NetmanRec ν where
  nSent := some m.nSent
  nRecv := some m.nRecv
  nWire := some m.nWire
  conn := some m.conn
  nPart := some m.nPart
  nCure := some m.nCure

end NetmanRec

/-- `NetIncSent`, `_NetIncHelper("n_sent")`; the others likewise. -/
def netIncSent (s : Vars ν α) : NetmanRec ν := { nSent := some (s.netman.nSent + 1) }
def netIncRecv (s : Vars ν α) : NetmanRec ν := { nRecv := some (s.netman.nRecv + 1) }
def netIncWire (s : Vars ν α) : NetmanRec ν := { nWire := some (s.netman.nWire + 1) }
def netDecWire (s : Vars ν α) : NetmanRec ν := { nWire := some (s.netman.nWire - 1) }
def netIncPart (s : Vars ν α) : NetmanRec ν := { nPart := some (s.netman.nPart + 1) }
def netIncCure (s : Vars ν α) : NetmanRec ν := { nCure := some (s.netman.nCure + 1) }

/-- `NetIncBy("n_sent", number)` and `NetIncBy("n_wire", number)`. -/
def netIncSentBy (s : Vars ν α) (number : ℕ) : NetmanRec ν :=
  { nSent := some (s.netman.nSent + number) }
def netIncWireBy (s : Vars ν α) (number : ℕ) : NetmanRec ν :=
  { nWire := some (s.netman.nWire + number) }

/-! ### Summing up the wired messages -/

/-- `_WireReduce(Helper, nodes, res, msgs)`: fold `Helper` over the nodes in the
order they are picked. `wireReduce_empty` and `wireReduce_of_nonempty` are the
two branches of the `RECURSIVE` operator. -/
def wireReduce {μ : Type} (P : Params ν) (helper : ν → ℕ → μ → ℕ) (nodes : Finset ν) (res : ℕ)
    (msgs : μ) : ℕ :=
  (P.pick.order nodes).foldl (fun res n => helper n res msgs) res

theorem wireReduce_empty {μ : Type} (P : Params ν) (helper : ν → ℕ → μ → ℕ) (res : ℕ)
    (msgs : μ) : wireReduce P helper ∅ res msgs = res := rfl

theorem wireReduce_of_nonempty {μ : Type} (P : Params ν) (helper : ν → ℕ → μ → ℕ)
    {nodes : Finset ν} (h : nodes.Nonempty) (res : ℕ) (msgs : μ) :
    wireReduce P helper nodes res msgs
      = wireReduce P helper (nodes.erase (P.pick.pick nodes h))
          (helper (P.pick.pick nodes h) res msgs) msgs := by
  unfold wireReduce
  rw [P.pick.order_of_nonempty h, List.foldl_cons]

/-- `_WireNodeSumHelper(n, res, msgs)`. -/
def wireNodeSumHelper (n : ν) (res : ℕ) (msgs : FinFn ν (List (Wired α))) : ℕ :=
  let nodeMsgsList := (msgs.get n).getD []
  res + nodeMsgsList.length

/-- `_WireSumHelper(n, res, msgs)`. -/
def wireSumHelper (P : Params ν) (n : ν) (res : ℕ) (msgs : Msgs ν α) : ℕ :=
  let nodeMsgs := (msgs.get n).getD .empty
  let toNodes := nodeMsgs.dom
  res + wireReduce P wireNodeSumHelper toNodes 0 nodeMsgs

/-- `_WireSum(msgs)`. -/
def wireSum (P : Params ν) (msgs : Msgs ν α) : NetmanRec ν :=
  { nWire := some (wireReduce P (wireSumHelper P) msgs.dom 0 msgs) }

/-- `NetSumWire`. -/
def netSumWire (P : Params ν) (s : Vars ν α) : NetmanRec ν := wireSum P s.msgs

/-! ### `NetUpdate` -/

/-- The tuple an API operator returns; `cmd` is its third component, if there
is one. -/
structure Args (ν α γ : Type) where
  man : NetmanRec ν
  msgs : Msgs ν α
  cmd : Option (NetCmd ν γ)

/-- `_netman'` and `_msgs'` of `NetUpdate` and of `NetUpdate2`. -/
def Args.apply (args : Args ν α γ) (s : Vars ν α) : Vars ν α where
  netman := args.man.update s.netman
  msgs := args.msgs

/-- `NetUpdate(args)`. -/
def netUpdate (s : Vars ν α) (args : Args ν α γ) : Net ν α γ where
  toVars := args.apply s
  netcmd := args.cmd.getD .noop

/-- `NetUpdate2(args, cmd)`. -/
def netUpdate2 (s : Vars ν α) (args : Args ν α γ) (cmd : γ) : Net ν α γ where
  toVars := args.apply s
  netcmd := .tagged cmd args.cmd

/-! ### Partitions -/

/-- `_AddConn(nodes, conn)`. -/
def addConn (nodes : Finset ν) (conn : List (Finset ν)) : List (Finset ν) :=
  -- one node needs no connection, and the nodes may be connected already
  if nodes.card ≤ 1 ∨ 0 < (conn.filter fun p => nodes ⊆ p).length then conn
  else (conn.filter fun p => ¬ p ⊆ nodes) ++ [nodes]

/-- `_DelConn(nodes, conn)`: the recursive function `F` of the source adds one
connection set at a time, in order. -/
def delConn (nodes : Finset ν) (conn : List (Finset ν)) : List (Finset ν) :=
  conn.foldl (fun acc p => if (p \ nodes).card ≤ 1 then acc else acc ++ [p \ nodes]) []

/-- `_PartConn(nodes, conn)`. -/
def partConn (nodes : Finset ν) (conn : List (Finset ν)) : List (Finset ν) :=
  addConn nodes (delConn nodes conn)

/-- `_FlushReduce(Helper, nodes, res, part, msgs)`, like `wireReduce`. -/
def flushReduce (P : Params ν) (helper : ν → Msgs ν α → Finset ν → Msgs ν α → Msgs ν α)
    (nodes : Finset ν) (res : Msgs ν α) (part : Finset ν) (msgs : Msgs ν α) : Msgs ν α :=
  (P.pick.order nodes).foldl (fun res n => helper n res part msgs) res

theorem flushReduce_empty (P : Params ν)
    (helper : ν → Msgs ν α → Finset ν → Msgs ν α → Msgs ν α) (res : Msgs ν α) (part : Finset ν)
    (msgs : Msgs ν α) : flushReduce P helper ∅ res part msgs = res := rfl

theorem flushReduce_of_nonempty (P : Params ν)
    (helper : ν → Msgs ν α → Finset ν → Msgs ν α → Msgs ν α) {nodes : Finset ν}
    (h : nodes.Nonempty) (res : Msgs ν α) (part : Finset ν) (msgs : Msgs ν α) :
    flushReduce P helper nodes res part msgs
      = flushReduce P helper (nodes.erase (P.pick.pick nodes h))
          (helper (P.pick.pick nodes h) res part msgs) part msgs := by
  unfold flushReduce
  rw [P.pick.order_of_nonempty h, List.foldl_cons]

/-- `_FlushMsgsHelper(n, res, part, msgs)`. -/
def flushMsgsHelper (n : ν) (res : Msgs ν α) (part : Finset ν) (msgs : Msgs ν α) : Msgs ν α :=
  let nodeMsgs := (msgs.get n).getD .empty
  let toNodes := nodeMsgs.dom
  -- the channels to the other side of the cut
  let flushNodes := if n ∈ part then toNodes \ part else part
  (FinFn.single n ((FinFn.tabulate flushNodes fun _ => []).overlay nodeMsgs)).overlay res

/-- `_FlushMsgsDelHelper(n, res, delete_nodes, msgs)`. -/
def flushMsgsDelHelper (n : ν) (res : Msgs ν α) (deleteNodes : Finset ν) (msgs : Msgs ν α) :
    Msgs ν α :=
  let nodeMsgs := (msgs.get n).getD .empty
  let toNodes := nodeMsgs.dom
  -- all channels of a deleted node, and those to one
  let flushNodes := if n ∈ deleteNodes then toNodes else deleteNodes
  (FinFn.single n ((FinFn.tabulate flushNodes fun _ => []).overlay nodeMsgs)).overlay res

/-- `_FlushMsgs(part, msgs)`. -/
def flushMsgs (P : Params ν) (part : Finset ν) (msgs : Msgs ν α) : Msgs ν α :=
  flushReduce P flushMsgsHelper msgs.dom msgs part msgs

/-- `_FlushMsgsDel(delete_nodes, msgs)`. -/
def flushMsgsDel (P : Params ν) (deleteNodes : Finset ν) (msgs : Msgs ν α) : Msgs ν α :=
  flushReduce P flushMsgsDelHelper msgs.dom msgs deleteNodes msgs

/-- `NetAddConn(nodes)`. -/
def netAddConn (s : Vars ν α) (nodes : Finset ν) : Args ν α γ where
  man := { conn := some (addConn nodes s.netman.conn) }
  msgs := s.msgs
  cmd := some (.connAdd nodes)

/-- `NetDelConn(nodes)`. `NetSumWire` sums `_msgs`, the channels before the
flush. -/
def netDelConn (P : Params ν) (s : Vars ν α) (nodes : Finset ν) : Args ν α γ :=
  let conn : NetmanRec ν := { conn := some (delConn nodes s.netman.conn) }
  if P.flushDisconn then
    let msgs := flushMsgsDel P nodes s.msgs
    let msgsSum := netSumWire P s
    ⟨conn.overlay msgsSum, msgs, some (.connDelFlush nodes)⟩
  else ⟨conn, s.msgs, some (.connDel nodes)⟩

/-- `NetPartConn(nodes)`. `NetSumWire` sums `_msgs`, the channels before the
flush. -/
def netPartConn (P : Params ν) (s : Vars ν α) (nodes : Finset ν) : Args ν α γ :=
  let conn : NetmanRec ν := { conn := some (partConn nodes s.netman.conn) }
  if P.flushDisconn then
    let msgs := flushMsgs P nodes s.msgs
    let msgsSum := netSumWire P s
    ⟨(conn.overlay msgsSum).overlay (netIncPart s), msgs, some (.connPartFlush nodes)⟩
  else ⟨conn.overlay (netIncPart s), s.msgs, some (.connPart nodes)⟩

/-- `NetCureConn`. -/
def netCureConn (s : Vars ν α) : Args ν α γ where
  man := ({ conn := some [getNodes s] } : NetmanRec ν).overlay (netIncCure s)
  msgs := s.msgs
  cmd := some .connCure

/-- `NetIsConn(s0, s1)`. -/
def netIsConn (s : Vars ν α) (s0 s1 : ν) : Prop :=
  (s.netman.conn.filter fun p => ({s0, s1} : Finset ν) ⊆ p).length ≠ 0

instance (s : Vars ν α) (s0 s1 : ν) : Decidable (netIsConn s s0 s1) :=
  inferInstanceAs (Decidable (_ ≠ _))

/-- `NetIsParted`. -/
def netIsParted (s : Vars ν α) : Prop :=
  s.netman.conn.length ≠ 1 ∨ s.netman.conn.head? ≠ some (getNodes s)

/-! ### Sending and receiving -/

/-- `msgs[src][dst]`, where both applications are inside the domains. -/
def chan? (msgs : Msgs ν α) (src dst : ν) : Option (List (Wired α)) :=
  (msgs.get src).bind fun nodeMsgs => nodeMsgs.get dst

/-- `[msgs EXCEPT ![src][dst] = k(@)]`. -/
def exceptChan (msgs : Msgs ν α) (src dst : ν) (k : List (Wired α) → List (Wired α)) :
    Msgs ν α :=
  msgs.except src fun nodeMsgs => nodeMsgs.except dst k

/-- `_AddMsgSrcDstSeq(src, dst, seq, m, msgs)`. -/
def addMsgSrcDstSeq (s : Vars ν α) (src dst : ν) (seq : ℕ) (m : α) (msgs : Msgs ν α) :
    ℕ × Msgs ν α :=
  let m_ : Option (Wired α) := if netIsConn s src dst then some ⟨seq, m⟩ else none  -- Dropped.
  match m_ with
  | none => (0, msgs)
  | some m_ => (1, exceptChan msgs src dst (· ++ [m_]))

/-- `_AddMsgSrcDst(src, dst, m, msgs)`. -/
def addMsgSrcDst (s : Vars ν α) (src dst : ν) (m : α) (msgs : Msgs ν α) : ℕ × Msgs ν α :=
  let seq := s.netman.nSent + 1
  addMsgSrcDstSeq s src dst seq m msgs

/-- One index of the recursive function `F` of `_BatchAddMsgs`: the count so
far, the channels so far, the outcome of each message so far. -/
def batchAddStep (s : Vars ν α) (acc : ℕ × Msgs ν α × List (Bool × ν × ν)) (m : Send ν α) :
    ℕ × Msgs ν α × List (Bool × ν × ν) :=
  let seq := s.netman.nSent + acc.1 + 1
  let res := addMsgSrcDstSeq s m.src m.dst seq m.body acc.2.1
  (res.1 + acc.1, res.2, acc.2.2 ++ [(decide (res.1 = 1), m.src, m.dst)])

/-- `_BatchAddMsgs(ms, msgs)`. -/
def batchAddMsgs (s : Vars ν α) (ms : List (Send ν α)) (msgs : Msgs ν α) :
    ℕ × Msgs ν α × List (Bool × ν × ν) :=
  ms.foldl (batchAddStep s) (0, msgs, [])

/-- `_DelMsg(m, msgs)`. -/
def delMsg (m : Msg ν α) (msgs : Msgs ν α) : Except NetError (ℕ × Msgs ν α) :=
  match chan? msgs m.src m.dst with
  | some (m_ :: _) =>
      if m.seq = m_.seq then .ok (1, exceptChan msgs m.src m.dst List.tail)
      else .error (.assertFailed "DelMsg: seq mismatch")
  -- `Head` of an empty channel, or no such channel
  | _ => .error .badApply

/-- `_GetMsg(src, dst, msgs)`. -/
def getMsg (src dst : ν) (msgs : Msgs ν α) : Option (Msg ν α) :=
  match chan? msgs src dst with
  | some (m_ :: _) => some ⟨src, dst, m_.seq, m_.body⟩
  | _ => none

/-- `_ReplyMsg(reponse, request, msgs)`. -/
def replyMsg (s : Vars ν α) (response : α) (request : Msg ν α) (msgs : Msgs ν α) :
    Except NetError (ℤ × Msgs ν α) := do
  let del ← delMsg request msgs
  let add := addMsgSrcDst s request.dst request.src response del.2
  .ok ((del.1 : ℤ) - add.1, add.2)

/-- `NetGetMsg(src, dst)`. -/
def netGetMsg (s : Vars ν α) (src dst : ν) : Option (Msg ν α) := getMsg src dst s.msgs

/-- `NetDelMsg(m)`. -/
def netDelMsg (s : Vars ν α) (m : Msg ν α) : Except NetError (Args ν α γ) := do
  let res ← delMsg m s.msgs
  .ok ⟨(netDecWire s).overlay (netIncRecv s), res.2, some (.msgDel m.src m.dst)⟩

/-- `NetAddMsgSrcDst(src, dst, m)`. -/
def netAddMsgSrcDst (s : Vars ν α) (src dst : ν) (m : α) : Args ν α γ :=
  let res := addMsgSrcDst s src dst m s.msgs
  if res.1 = 1 then ⟨(netIncWire s).overlay (netIncSent s), res.2, some (.msgAdd src dst)⟩
  else ⟨.ofNetman s.netman, res.2, some (.msgAddDropped src dst)⟩

/-- `NetAddMsg(m)`. -/
def netAddMsg (s : Vars ν α) (m : Send ν α) : Args ν α γ :=
  netAddMsgSrcDst s m.src m.dst m.body

/-- `NetReplyMsg(response, request)`. -/
def netReplyMsg (s : Vars ν α) (response : α) (request : Msg ν α) :
    Except NetError (Args ν α γ) := do
  let res ← replyMsg s response request s.msgs
  -- one message taken and one put: `n_wire` stays
  if res.1 = 0 then
    .ok ⟨(netIncSent s).overlay (netIncRecv s), res.2, some (.msgReply request.dst request.src)⟩
  else
    .ok ⟨(netDecWire s).overlay (netIncRecv s), res.2,
      some (.msgReplyDropped request.dst request.src)⟩

/-- `NetBatchAddMsg(ms)`. -/
def netBatchAddMsg (s : Vars ν α) (ms : List (Send ν α)) : Args ν α γ :=
  let res := batchAddMsgs s ms s.msgs
  ⟨(netIncSentBy s res.1).overlay (netIncWireBy s res.1), res.2.1, some (.msgBatchAdd res.2.2)⟩

/-- `NetNoAction(cmd)`. -/
def netNoAction (s : Vars ν α) (cmd : γ) : Args ν α γ :=
  ⟨.ofNetman s.netman, s.msgs, some (.user cmd)⟩

/-! ### Runs of the API -/

/-- One call of the API. `delMsg` and `replyMsg` name the channel whose head
`NetGetMsg` returns. -/
inductive Op (ν α γ : Type) where
  | addMsg (m : Send ν α)
  | addMsgSrcDst (src dst : ν) (m : α)
  | batchAddMsg (ms : List (Send ν α))
  | delMsg (src dst : ν)
  | replyMsg (src dst : ν) (response : α)
  | addConn (nodes : Finset ν)
  | delConn (nodes : Finset ν)
  | partConn (nodes : Finset ν)
  | cureConn
  | noAction (cmd : γ)

/-- The tuple the called operator returns in the state `s`. -/
def Op.args (P : Params ν) (s : Vars ν α) : Op ν α γ → Except NetError (Args ν α γ)
  | .addMsg m => .ok (netAddMsg s m)
  | .addMsgSrcDst src dst m => .ok (netAddMsgSrcDst s src dst m)
  | .batchAddMsg ms => .ok (netBatchAddMsg s ms)
  | .delMsg src dst =>
      match netGetMsg s src dst with
      | none => .error .nullMsg
      | some m => netDelMsg s m
  | .replyMsg src dst response =>
      match netGetMsg s src dst with
      | none => .error .nullMsg
      | some m => netReplyMsg s response m
  | .addConn nodes => .ok (netAddConn s nodes)
  | .delConn nodes => .ok (netDelConn P s nodes)
  | .partConn nodes => .ok (netPartConn P s nodes)
  | .cureConn => .ok (netCureConn s)
  | .noAction cmd => .ok (netNoAction s cmd)

/-- The node arguments of a call are subsets of the node set. -/
def Op.NodesIn (nodes : Finset ν) : Op ν α γ → Prop
  | .addConn S | .delConn S | .partConn S => S ⊆ nodes
  | _ => True

/-- A message goes from one node of the node set to another one. -/
def Send.Between (nodes : Finset ν) (m : Send ν α) : Prop :=
  m.src ∈ nodes ∧ m.dst ∈ nodes ∧ m.src ≠ m.dst

/-- The messages given to a call are between two different nodes. A reply has
the two ends of the channel it answers to, and is not restricted. -/
def Op.Between (nodes : Finset ν) : Op ν α γ → Prop
  | .addMsg m => m.Between nodes
  | .addMsgSrcDst src dst m => (⟨src, dst, m⟩ : Send ν α).Between nodes
  | .batchAddMsg ms => ∀ m ∈ ms, m.Between nodes
  | _ => True

/-- The runs of `NetUpdate` steps from `InitFifoNetwork(nodes)` whose calls
satisfy `V`. -/
def api (P : Params ν) (nodes : Finset ν) (V : Op ν α γ → Prop) :
    System (Net ν α γ) (Op ν α γ) where
  init s := s = initFifoNetwork nodes
  step s op s' := V op ∧ ∃ args, op.args P s.toVars = .ok args ∧ s' = netUpdate s.toVars args

end Tmet.FifoNetwork
