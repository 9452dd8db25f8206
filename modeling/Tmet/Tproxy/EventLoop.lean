import Tmet.Tproxy.TcpNetwork

/-!
# `Tmet.Tproxy.EventLoop`: the loop of `run_epoll`

`tcpNetwork` lets an event come at any time. Here are the events themselves. Every
descriptor is registered edge-triggered: `raised` are the descriptors that have an event
which `epoll_wait` has not returned yet. An event of the listening socket is raised by the
arrival of a connection, and by nothing else. Since `raised` is a set, arrivals before the
next `epoll_wait` coalesce.

`backlog` are the clients that wait to be accepted. They are kept beside the state of the
kernel: `accept` is the only call that takes from the backlog, and it takes the first. So
an arrival during a handler is the same as one after it. `accept` waits if there is no
connection, since the listening socket is a blocking one.
-/

set_option autoImplicit false

namespace Tmet.Tproxy

open Tmet.Lib Tmet.Posix

/-- `max_events`. -/
def maxEvents : ℕ := 10

/-- The state of the loop; `events` is what is left of the array, and `none` in
`epoll_wait`. -/
structure EventLoop (κ : Type) where
  net : Net κ
  backlog : List Addr
  raised : Finset Fd
  events : Option (List Fd)

/-- What happens: something outside of the process, a step of the loop, or a command of
the other thread. -/
inductive LoopAct
  | connect (client : Addr)
  | raise (fd : Fd)
  | wait (events : List Fd)
  | interrupted
  | handle
  | again
  | command (act : Act)
deriving DecidableEq, Repr

variable {κ : Type} (K : Kernel κ Ctl Addr) (cfg : ConfigFile) (listenFd : Fd)

/-- One step of the loop or of its surroundings. `epoll_wait` returns some of the events
that were raised, at most `max_events`; if it fails other than with `EINTR`, that is the
end of the process. -/
inductive EventLoop.Step : EventLoop κ → LoopAct → EventLoop κ → Prop
  /-- A connection arrives, and an event of the listening socket is raised. -/
  | connect {s : EventLoop κ} {client : Addr} {net : Net κ} :
      Act.environment.Step K cfg s.net net →
      Step s (.connect client) { s with
        net := net, backlog := s.backlog ++ [client], raised := insert listenFd s.raised }
  -- data, or the end of a stream, on another descriptor
  | raise {s : EventLoop κ} {fd : Fd} :
      s.net.terminated = false → fd ≠ listenFd →
      Step s (.raise fd) { s with raised := insert fd s.raised }
  | wait {s : EventLoop κ} {events : List Fd} :
      s.net.terminated = false → s.events = none → events ≠ [] → events.Nodup →
      events.length ≤ maxEvents → (∀ fd ∈ events, fd ∈ s.raised) →
      Step s (.wait events) { s with
        raised := s.raised \ events.toFinset, events := some events }
  -- `EINTR`: the loop goes on
  | interrupted {s : EventLoop κ} :
      s.net.terminated = false → s.events = none → Step s .interrupted s
  /-- `accept` takes the first connection. -/
  | accept {s : EventLoop κ} {acc : AcceptData} {waiting : List Addr} {events : List Fd}
      {net : Net κ} :
      s.events = some (listenFd :: events) → (s.net.tcpAccept K cfg).1 = some acc →
      s.backlog = acc.clientAddr :: waiting → Act.accept.Step K cfg s.net net →
      Step s .handle { s with net := net, backlog := waiting, events := some events }
  /-- The exception ends the process. -/
  | acceptFails {s : EventLoop κ} {events : List Fd} {net : Net κ} :
      s.events = some (listenFd :: events) → (s.net.tcpAccept K cfg).1 = none →
      Act.accept.Step K cfg s.net net →
      Step s .handle { s with net := net, events := some events }
  | readable {s : EventLoop κ} {fd : Fd} {events : List Fd} {net : Net κ} :
      s.events = some (fd :: events) → fd ≠ listenFd → (Act.readable fd).Step K cfg s.net net →
      Step s .handle { s with net := net, events := some events }
  | again {s : EventLoop κ} :
      s.net.terminated = false → s.events = some [] → Step s .again { s with events := none }
  /-- The other thread, or the surroundings without a new connection. -/
  | command {s : EventLoop κ} {act : Act} {net : Net κ} :
      act ≠ .accept → (∀ fd, act ≠ .readable fd) → act.Step K cfg s.net net →
      Step s (.command act) { s with net := net }

/-- The runs of the loop; it starts with `epoll_wait`. -/
def runEpoll : System (EventLoop κ) LoopAct where
  init s := s.net.Initial ∧ s.backlog = [] ∧ s.raised = ∅ ∧ s.events = none
  step := EventLoop.Step K cfg listenFd

/-- `run_epoll` is in `epoll_wait`, and no event was raised that it has not got. -/
def EventLoop.Blocked (s : EventLoop κ) : Prop :=
  s.net.terminated = false ∧ s.events = none ∧ s.raised = ∅

end Tmet.Tproxy
