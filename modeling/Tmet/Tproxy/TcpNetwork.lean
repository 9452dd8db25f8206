import Tmet.Lib.Choose
import Tmet.Lib.FinFn
import Tmet.Lib.Transition
import Tmet.Posix.Kernel
import Tmet.Tproxy.ConfigFile
import Tmet.Tproxy.Msg

/-!
# `Tmet.Tproxy.TcpNetwork`: the proxy

The model of `tproxy/TcpNetwork.cpp` (with `TcpSocket::accept`), function by
function under the source's names. A function takes the state and returns the next
one. The kernel is a parameter (`Tmet.Posix.Kernel`).

The `shared_ptr<int>` of a connection are cells of a heap. A message and the
table entries of its connection refer to the same cells, so that closing a
connection (`do_close` stores -1) is seen through all of them.

The loops of `do_receive` and `transfer_unintercepted` go on as long as the kernel
has data. They take fuel, and `none` says that it did not suffice. An exception ends
the process (`terminated`). Log lines are left out. The field `log` is no part of
the program: it records the bytes that went in and out.
-/

set_option autoImplicit false

namespace Tmet.Tproxy

open Tmet.Lib Tmet.Posix

/-- `channel_t`; `cmp_channel` compares both ends with `cmp_addr_less`. -/
structure Channel where
  first : Addr
  second : Addr
deriving DecidableEq, Repr

/-- The other direction. -/
def Channel.swap (c : Channel) : Channel := ⟨c.second, c.first⟩

/-- One of the ends. -/
def Channel.Touches (c : Channel) (a : Addr) : Prop := c.first = a ∨ c.second = a

instance (c : Channel) (a : Addr) : Decidable (c.Touches a) :=
  inferInstanceAs (Decidable (_ ∨ _))

/-- `channel_status_t`. The two `shared_ptr<int>` are cells of the heap. -/
structure ChannelStatus where
  channel : Channel
  selfFd : ℕ
  fd : ℕ
  disconnected : Bool
deriving DecidableEq, Repr

/-- `struct Msg`; `fd` is a cell, `content` is the header and the body. -/
structure Msg where
  fd : ℕ
  content : Bytes
  size : ℕ
deriving DecidableEq, Repr

/-- `Msg::body`: behind the header. -/
def Msg.body (m : Msg) : Bytes := m.content.drop 8

/-- The calls that only succeed or fail. -/
inductive Ctl
  | setTransparent (fd : Fd)
  | bind (fd : Fd) (addr : Addr)
  | setConnRetries (fd : Fd)
  | connect (fd : Fd) (addr : Addr)
  | setRecvTimeout (fd : Fd)
  | epollAdd (fd : Fd)
deriving DecidableEq, Repr

/-- What went in or out: the descriptor, the table entry it had at that time, the
bytes. -/
inductive Event
  | received (fd : Fd) (conn : Option ChannelStatus) (data : Bytes)
  | wrote (fd : Fd) (conn : Option ChannelStatus) (data : Bytes)
deriving DecidableEq, Repr

/-- The members of `TcpNetwork`, the heap, and the kernel. -/
structure Net (κ : Type) where
  kernel : κ
  fdToChannelStatus : FinFn Fd ChannelStatus
  network : FinFn Channel (List Msg)
  clientToFd : FinFn Addr Fd
  fdToClient : FinFn Fd Addr
  uninterceptedFd : Finset Fd
  heap : ℕ → Fd
  nextCell : ℕ
  terminated : Bool
  log : List Event

/-- `struct AcceptData`. -/
structure AcceptData where
  socketFd : Fd
  clientAddr : Addr
  originAddr : Addr
  masqueAddr : Addr
deriving DecidableEq, Repr

variable {κ : Type} (K : Kernel κ Ctl Addr) (cfg : ConfigFile)

namespace Net

/-! ### System calls -/

/-- `recv`. What is taken from the receive queue is logged; a peek takes nothing. -/
def recv (s : Net κ) (fd : Fd) (len : ℕ) (flags : RecvFlags) : RecvResult × Net κ :=
  let (r, k) := K.recv s.kernel fd len flags
  let taken :=
    match flags, r with
    | .peekDontwait, _ => []
    | _, .ok data => [.received fd (s.fdToChannelStatus.get fd) data]
    | _, .error _ => []
  (r, { s with kernel := k, log := s.log ++ taken })

/-- `write` and `send`. The bytes that were taken are logged. -/
def write (s : Net κ) (fd : Fd) (data : Bytes) : WriteResult × Net κ :=
  let (r, k) := K.write s.kernel fd data
  let taken :=
    match r with
    | .ok n => [.wrote fd (s.fdToChannelStatus.get fd) (data.take n)]
    | .error _ => []
  (r, { s with kernel := k, log := s.log ++ taken })

/-- `close`. -/
def close (s : Net κ) (fd : Fd) : Net κ := { s with kernel := K.close s.kernel fd }

/-- `setsockopt`, `bind`, `connect` and `epoll_ctl`: whether the call succeeded. -/
def ctl (s : Net κ) (o : Ctl) : Bool × Net κ :=
  let (r, k) := K.ctl s.kernel o
  (r.isNone, { s with kernel := k })

/-- An uncaught exception. -/
def throw (s : Net κ) : Net κ := { s with terminated := true }

/-! ### Closing -/

/-- `it->second.disconnected = b`. -/
def setDisconnected (s : Net κ) (fd : Fd) (b : Bool) : Net κ :=
  { s with
    fdToChannelStatus := s.fdToChannelStatus.except fd fun st => { st with disconnected := b } }

/-- `do_close`. -/
def doClose (s : Net κ) (fd : Fd) : Net κ :=
  match s.fdToChannelStatus.get fd with
  | none => s
  | some st =>
      let s := { s with uninterceptedFd := s.uninterceptedFd.erase fd }
      let s := s.close K fd
      { s with
        heap := Function.update s.heap st.selfFd (-1)
        fdToChannelStatus := s.fdToChannelStatus.erase fd }

/-- `close_connection`. Its third argument, `close_peer`, is always true. -/
def closeConnection (s : Net κ) (fd : Fd) (tag : Bool) : Net κ :=
  match s.fdToChannelStatus.get fd with
  | some st =>
      let peer := s.heap st.fd
      let s := (s.setDisconnected fd true).setDisconnected peer true
      if tag then s else (s.doClose K fd).doClose K peer
  | none => if tag then s else s.close K fd

/-! ### Accepting -/

/-- `TcpSocket::accept`; `none` if it throws. A failed `accept` is noticed by
`getsockname`. -/
def tcpAccept (s : Net κ) : Option AcceptData × Net κ :=
  match K.accept s.kernel with
  | (.error _, k) => (none, { s with kernel := k })
  | (.ok (fd, client), k) =>
      match K.getsockname k fd with
      | (.error _, k) => (none, { s with kernel := k })
      | (.ok origin, k) =>
          (some ⟨fd, client, origin, cfg.getMasqueradeAddr origin⟩, { s with kernel := k })

/-- `add_monitor_fd`; it throws if the descriptor cannot be registered. -/
def addMonitorFd (s : Net κ) (fd : Fd) : Net κ :=
  if s.terminated then s
  else
    let (ok, s) := s.ctl K (.epollAdd fd)
    if ok then s else s.throw

/-- `connect_peer`; `none` for -1. The descriptor is closed if the connection
fails, not if one of the calls before it does. -/
def connectPeer (s : Net κ) (acc : AcceptData) : Option Fd × Net κ :=
  match K.socket s.kernel with
  | (.error _, k) => (none, { s with kernel := k })
  | (.ok fd, k) =>
      let s := { s with kernel := k }
      let (ok, s) := s.ctl K (.setTransparent fd)
      if !ok then (none, s)
      else
        let (ok, s) := s.ctl K (.bind fd acc.originAddr.host)
        if !ok then (none, s)
        else
          let (_, s) := s.ctl K (.setConnRetries fd)
          let (ok, s) := s.ctl K (.connect fd acc.masqueAddr)
          if !ok then (none, s.close K fd) else (some fd, s)

/-- `add_fd_to_channel`: two new cells, and an entry for either direction. -/
def addFdToChannel (s : Net κ) (srcFd dstFd : Fd) (src dst : Addr) : Net κ :=
  let srcPtr := s.nextCell
  let dstPtr := s.nextCell + 1
  let forward : ChannelStatus := ⟨⟨src.host, dst.host⟩, srcPtr, dstPtr, false⟩
  let backward : ChannelStatus := ⟨⟨dst.host, src.host⟩, dstPtr, srcPtr, false⟩
  { s with
    heap := Function.update (Function.update s.heap srcPtr srcFd) dstPtr dstFd
    nextCell := s.nextCell + 2
    fdToChannelStatus := (s.fdToChannelStatus.insert srcFd forward).insert dstFd backward }

/-- `do_accept_connect`; `none` for `{-1, -1}`. -/
def doAcceptConnect (s : Net κ) : Option (Fd × Fd) × Net κ :=
  match s.tcpAccept K cfg with
  | (none, s) => (none, s.throw)
  | (some acc, s) =>
      if cfg.isRouterAddr acc.originAddr then
        let client := acc.clientAddr.host
        let s := { s with
          clientToFd := s.clientToFd.insert client acc.socketFd
          fdToClient := s.fdToClient.insert acc.socketFd client }
        (none, s.addMonitorFd K acc.socketFd)
      else
        match s.connectPeer K acc with
        | (none, s) => (none, s.close K acc.socketFd)
        | (some peerFd, s) =>
            let (_, s) := s.ctl K (.setRecvTimeout acc.socketFd)
            let (_, s) := s.ctl K (.setRecvTimeout peerFd)
            (some (acc.socketFd, peerFd),
              s.addFdToChannel acc.socketFd peerFd acc.clientAddr acc.masqueAddr)

/-- `run_epoll` on an event of the listening socket. -/
def acceptEvent (s : Net κ) : Net κ :=
  match s.doAcceptConnect K cfg with
  | (none, s) => s
  | (some (fd, peerFd), s) => (s.addMonitorFd K fd).addMonitorFd K peerFd

/-! ### Delivering -/

/-- The loop of `deliver_msg` that writes the body: as long as bytes are left, the
first `left` bytes of the body. The first component is `size`, whose value before
the loop is given. -/
def writeLoop : ℕ → Net κ → Fd → Bytes → ℕ → ℤ → ℤ × Net κ
  | 0, s, _, _, _, size => (size, s)
  | fuel + 1, s, fd, body, left, size =>
      if left = 0 then (size, s)
      else
        match s.write K fd (body.take left) with
        | (.error _, s) => (-1, s)
        | (.ok n, s) => writeLoop fuel s fd body (left - n) n

/-- `deliver_msg` on the message it has taken. Each write takes at least one byte
off what is left, so the loop runs at most `size` times. -/
def deliverTaken (s : Net κ) (msg : Msg) : Net κ :=
  let fd := s.heap msg.fd
  match s.fdToChannelStatus.get fd with
  | none => s
  | some st =>
      if st.disconnected then s
      else
        let (size, s) := s.writeLoop K msg.size fd msg.body msg.size (K.garbage s.kernel)
        if size = -1 then s.closeConnection K fd (!cfg.isDirect) else s

/-- Dequeue until the connection of the message is open. -/
def dequeueOpen (heap : ℕ → Fd) : List Msg → Option Msg × List Msg
  | [] => (none, [])
  | m :: q => if heap m.fd < 0 then dequeueOpen heap q else (some m, q)

/-- `deliver_msg(channel)`. With nothing in the queue it waits and gives up. -/
def deliverMsg (s : Net κ) (channel : Channel) : Net κ :=
  match s.network.get channel with
  | none => s
  | some q =>
      let (m, q) := dequeueOpen s.heap q
      let s := { s with network := s.network.insert channel q }
      m.elim s fun msg => s.deliverTaken K cfg msg

/-! ### Receiving -/

/-- `enqueue_msg`; the direct strategy delivers at once. -/
def enqueueMsg (s : Net κ) (cf : ChannelStatus) (m : Msg) : Net κ :=
  if cf.disconnected then s
  else if cfg.isDirect then s.deliverTaken K cfg m
  else
    let q := (s.network.get cf.channel).getD []
    { s with network := s.network.insert cf.channel (q ++ [m]) }

/-- `set_unintercepted`. -/
def setUnintercepted (s : Net κ) (fd : Fd) : Net κ :=
  { s with uninterceptedFd := insert fd s.uninterceptedFd }

/-- `transfer_unintercepted`. -/
def transferUnintercepted : ℕ → Net κ → Fd → Fd → Option (Net κ)
  | 0, _, _, _ => none
  | fuel + 1, s, outFd, inFd =>
      match s.recv K inFd 1460 .dontwait with
      | (.ok [], s) => some (s.closeConnection K inFd false)
      | (.ok (b :: bs), s) =>
          match s.write K outFd (b :: bs) with
          | (.error _, s) => some (s.closeConnection K inFd false)
          | (.ok _, s) => transferUnintercepted fuel s outFd inFd
      | (.error e, s) => some (if e ≠ EAGAIN then s.closeConnection K inFd false else s)

/-- How the loop over the messages ends: `do_receive` returns in it, the
validation of a complete header fails, or a peek does not give a complete header. -/
inductive HeaderExit
  | returned
  | invalid
  | short (size : RecvResult) (header : MsgHeader)

/-- The loop of `do_receive` over the messages. `header` is the variable of the
function: a peek overwrites as many bytes of it as there are. The iterator `cf` is
dereferenced by a lookup. It would dangle after a delivery that has closed the
connection, but then the next peek fails on a closed descriptor. -/
def headerLoop : ℕ → Net κ → Fd → MsgHeader → Option (HeaderExit × Net κ)
  | 0, _, _, _ => none
  | fuel + 1, s, fd, header =>
      match s.recv K fd 8 .peekDontwait with
      | (.error e, s) => some (.short (.error e) header, s)
      | (.ok data, s) =>
          let header := header.recvInto data
          if data.length ≠ 8 then some (.short (.ok data) header, s)
          else if !packetValidation header 8 then some (.invalid, s.setUnintercepted fd)
          else
            match s.fdToChannelStatus.get fd with
            | none => some (.returned, s)
            | some cf =>
                -- the header is still in the receive queue
                match s.recv K fd (8 + header.size) .waitall with
                | (.error e, s) =>
                    some (.returned, if e ≠ EAGAIN then s else s.closeConnection K fd false)
                | (.ok content, s) =>
                    if content.length ≠ 8 + header.size then
                      some (.returned, s.closeConnection K fd false)
                    else
                      headerLoop fuel (s.enqueueMsg K cfg cf ⟨cf.fd, content, header.size⟩) fd header

/-- `do_receive` on a descriptor that was not tagged before, up to the transfer: the
value of `is_unintercepted`. -/
def receiveIntercepted (fuel : ℕ) (s : Net κ) (fd : Fd) : Option (Bool × Net κ) :=
  match s.headerLoop K cfg fuel fd .zero with
  | none => none
  | some (.returned, s) => some (false, s)
  | some (.invalid, s) => some (true, s)
  | some (.short (.error e) _, s) =>
      some (false, if e ≠ EAGAIN then s.closeConnection K fd false else s)
  | some (.short (.ok []) _, s) => some (false, s.closeConnection K fd false)
  | some (.short (.ok (b :: bs)) header, s) =>
      if !packetValidation header (b :: bs).length then some (true, s.setUnintercepted fd)
      else some (false, s)

/-- `do_receive` up to the transfer. -/
def receivePhase (fuel : ℕ) (s : Net κ) (fd : Fd) : Option (Bool × Net κ) :=
  if fd ∈ s.uninterceptedFd then some (true, s) else s.receiveIntercepted K cfg fuel fd

/-- `do_receive`; the transfer goes to `*cf->second.fd`. -/
def doReceive (fuel : ℕ) (s : Net κ) (fd : Fd) : Option (Net κ) :=
  match s.fdToChannelStatus.get fd with
  | none => some (s.closeConnection K fd false)
  | some _ =>
      match s.receivePhase K cfg fuel fd with
      | none => none
      | some (false, s) => some s
      | some (true, s) =>
          match s.fdToChannelStatus.get fd with
          | none => some s
          | some cf => s.transferUnintercepted K fuel (s.heap cf.fd) fd

/-- `check_connection_is_active`. -/
def checkConnectionIsActive (s : Net κ) (fd : Fd) : Bool × Net κ :=
  match s.recv K fd 1 .peekDontwait with
  | (.ok data, s) => (!data.isEmpty, s)
  | (.error e, s) => (decide (e = EAGAIN), s)

/-- `run_epoll` on an event of a connection. -/
def readEvent (fuel : ℕ) (s : Net κ) (fd : Fd) : Option (Net κ) :=
  match s.fdToClient.get fd with
  | some client =>
      let (active, s) := s.checkConnectionIsActive K fd
      if active then some s
      else
        let s := s.close K fd
        some { s with
          clientToFd := s.clientToFd.erase client
          fdToClient := s.fdToClient.erase fd }
  | none => s.doReceive K cfg fuel fd

/-! ### Commands -/

/-- `clear_msgs`. -/
def clearMsgs (s : Net κ) (channel : Channel) : Net κ :=
  { s with network := s.network.except channel fun _ => [] }

/-- The loop of `partition` over the table: the descriptors to close afterwards, and
the state. -/
def partitionLoop (addr : Addr) (clearMsg isRecover : Bool) : List Fd → Net κ → List Fd × Net κ
  | [], s => ([], s)
  | fd :: fds, s =>
      match s.fdToChannelStatus.get fd with
      | none => partitionLoop addr clearMsg isRecover fds s
      | some st =>
          if st.channel.first = addr then
            let s := if isRecover then s.setDisconnected fd false else s.closeConnection K fd true
            let s := if clearMsg then s.clearMsgs st.channel else s
            let (toClose, s) := partitionLoop addr clearMsg isRecover fds s
            (if isRecover then fd :: toClose else toClose, s)
          else partitionLoop addr clearMsg isRecover fds s

/-- The keys of the table in the order of a `map`, smallest first. -/
def keys (s : Net κ) : List Fd := (Choose.smallest Fd).order s.fdToChannelStatus.dom

/-- Close each of the descriptors. -/
def closeAll (s : Net κ) (fds : List Fd) : Net κ :=
  fds.foldl (fun s fd => s.closeConnection K fd false) s

/-- `partition` with all of its arguments. -/
def partitionWith (s : Net κ) (node : String) (clearMsg isRecover : Bool) : Net κ :=
  let addr := cfg.getNodeAddr node
  if addr.sinPort = INVALID_PORT then s
  else
    let (toClose, s) := s.partitionLoop K addr clearMsg isRecover s.keys
    s.closeAll K toClose

/-- `partition`. -/
def partition (s : Net κ) (node : String) : Net κ := s.partitionWith K cfg node false false

/-- `recover`. -/
def recover (s : Net κ) (node : String) : Net κ := s.partitionWith K cfg node true true

/-- `send_cmd`. -/
def sendCmd (s : Net κ) (node : String) (cmd : Bytes) : Net κ :=
  let addr := cfg.getNodeAddr node
  if addr.sinPort = INVALID_PORT then s
  else
    match s.clientToFd.get addr with
    | none => s
    | some fd =>
        let header := bigEndian 4 VALIDATION_DATA ++ bigEndian 4 cmd.length
        match s.write K fd (header ++ cmd) with
        | (.ok _, s) => s
        | (.error _, s) =>
            let s := s.close K fd
            { s with fdToClient := s.fdToClient.erase fd, clientToFd := s.clientToFd.erase addr }

/-- The command `deliver`. -/
def deliverCmd (s : Net κ) (src dst : String) : Net κ :=
  let channel : Channel := ⟨cfg.getNodeAddr src, cfg.getNodeAddr dst⟩
  if channel.first.sinPort = INVALID_PORT ∨ channel.second.sinPort = INVALID_PORT then s
  else s.deliverMsg K cfg channel

end Net

/-! ### Runs -/

/-- What happens: a handler of `run_epoll`, a command of `run_read_cmd`, or
something outside of the process. -/
inductive Act
  | accept
  | readable (fd : Fd)
  | deliver (src dst : String)
  | partition (node : String)
  | recover (node : String)
  | cmd (node : String) (text : Bytes)
  | environment
deriving DecidableEq, Repr

/-- One step. An event may be raised for any descriptor at any time; this covers a
batch of events, one of which closes the descriptor of another. The environment may
do anything to the kernel's state except open or close descriptors of the process. -/
def Act.Step (a : Act) (s s' : Net κ) : Prop :=
  s.terminated = false ∧
    match a with
    | .accept => s' = s.acceptEvent K cfg
    | .readable fd => ∃ fuel, s.readEvent K cfg fuel fd = some s'
    | .deliver src dst => s' = s.deliverCmd K cfg src dst
    | .partition node => s' = s.partition K cfg node
    | .recover node => s' = s.recover K cfg node
    | .cmd node text => s' = s.sendCmd K cfg node text
    | .environment => ∃ k, K.fds k = K.fds s.kernel ∧ s' = { s with kernel := k }

/-- Nothing was accepted yet. -/
def Net.Initial (s : Net κ) : Prop :=
  s.fdToChannelStatus = .empty ∧ s.network = .empty ∧ s.clientToFd = .empty
    ∧ s.fdToClient = .empty ∧ s.uninterceptedFd = ∅ ∧ s.terminated = false ∧ s.log = []

/-- The runs of `TcpNetwork`, the handlers one at a time. -/
def tcpNetwork : System (Net κ) Act where
  init := Net.Initial
  step s a s' := a.Step K cfg s s'

end Tmet.Tproxy
