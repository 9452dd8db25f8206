import Tmet.Proofs.Tproxy.Partition
import Tmet.Tproxy.EventLoop

/-!
# `Tmet.Proofs.Tproxy.Backlog`: connections that are left in the backlog

An event of the listening socket makes the loop accept one connection. The event is one
for all the connections that have arrived since the last one was returned, so every
arrival while an event is raised (`Coalesces`) leaves one connection more in the backlog
for good: `length_backlog` counts them. `backlog_empty_iff` is the case of a loop that
waits. `do_receive`, on the other hand, reads until there is nothing left.

A run of the loop is a run of `tcpNetwork` with the events in between (`net_run`).
-/

set_option autoImplicit false

namespace Tmet.Tproxy

open Tmet.Lib Tmet.Posix

variable {κ : Type} {K : Kernel κ Ctl Addr} {cfg : ConfigFile} {listenFd : Fd}

/-- What the loop does to the network, `tcpNetwork` can do. -/
theorem net_run {tr : List (Step (EventLoop κ) LoopAct)} {s : EventLoop κ}
    (h : (runEpoll K cfg listenFd).Run tr s) : ∃ tr', (tcpNetwork K cfg).Run tr' s.net := by
  refine h.invariant (P := fun _ s => ∃ tr', (tcpNetwork K cfg).Run tr' s.net) ?_ ?_
  · rintro s ⟨hnet, -⟩
    exact ⟨[], .nil hnet⟩
  · rintro tr s act s' - ⟨tr', hrun⟩ hstep
    have hnext {act : Act} {net : Net κ} (hnet : act.Step K cfg s.net net) :
        ∃ tr', (tcpNetwork K cfg).Run tr' net := ⟨_, hrun.snoc hnet⟩
    cases hstep with
    | connect hnet => exact hnext hnet
    | raise _ _ => exact ⟨tr', hrun⟩
    | wait _ _ _ _ _ _ => exact ⟨tr', hrun⟩
    | interrupted _ _ => exact ⟨tr', hrun⟩
    | accept _ _ _ hnet => exact hnext hnet
    | acceptFails _ _ hnet => exact hnext hnet
    | readable _ _ hnet => exact hnext hnet
    | again _ _ => exact ⟨tr', hrun⟩
    | command _ _ hnet => exact hnext hnet

/-- A connection arrives while an event of the listening socket is raised already. -/
def Coalesces (listenFd : Fd) (t : Step (EventLoop κ) LoopAct) : Prop :=
  match t.act with
  | .connect _ => listenFd ∈ t.src.raised
  | _ => False

instance (listenFd : Fd) (t : Step (EventLoop κ) LoopAct) : Decidable (Coalesces listenFd t) := by
  unfold Coalesces
  split <;> infer_instance

/-- The connections that events are there for: an event that is raised, or that was
returned and is not handled yet. -/
def EventLoop.announced (s : EventLoop κ) (listenFd : Fd) : ℕ :=
  (if listenFd ∈ s.raised then 1 else 0) + (s.events.getD []).count listenFd

/-- An `accept` that fails ends the process. -/
theorem terminated_acceptEvent {s : Net κ} (h : (s.tcpAccept K cfg).1 = none) :
    (s.acceptEvent K cfg).terminated = true := by
  rw [Net.acceptEvent, Net.doAcceptConnect]
  cases hacc : s.tcpAccept K cfg with
  | mk r s₁ =>
      rw [hacc] at h
      cases h
      rfl

/-- One step: what is in the backlog and has no event changes by a connection whose event
coalesces with another. -/
theorem length_backlog_step {s s' : EventLoop κ} {act : LoopAct}
    (hstep : EventLoop.Step K cfg listenFd s act s') (hlive : s'.net.terminated = false) :
    s.net.terminated = false ∧
      s'.backlog.length + s.announced listenFd = s.backlog.length + s'.announced listenFd
        + if Coalesces listenFd ⟨s, act, s'⟩ then 1 else 0 := by
  simp only [EventLoop.announced, Coalesces]
  cases hstep with
  | connect hnet =>
      refine ⟨hnet.1, ?_⟩
      -- the event is new, or it is that of a connection of before
      by_cases hraised : listenFd ∈ s.raised
      · simp [hraised]
        omega
      · simp [hraised]
        omega
  | raise hnet hne => exact ⟨hnet, by simp [Ne.symm hne]⟩
  | @wait events hnet hwaits _ hnodup _ hraised =>
      refine ⟨hnet, ?_⟩
      by_cases hmem : listenFd ∈ events
      · have hcount : events.count listenFd = 1 := List.count_eq_one_of_mem hnodup hmem
        simp [hwaits, hraised listenFd hmem, hmem, hcount]
      · have hcount : events.count listenFd = 0 := List.count_eq_zero.mpr hmem
        simp [hwaits, hmem, hcount]
  | interrupted hnet _ => exact ⟨hnet, by simp⟩
  | accept hevents _ hbacklog hnet =>
      refine ⟨hnet.1, ?_⟩
      simp [hevents, hbacklog]
      omega
  | acceptFails _ hfails hnet =>
      obtain ⟨-, rfl⟩ := hnet
      rw [terminated_acceptEvent hfails] at hlive
      cases hlive
  | @readable fd events net hevents hne hnet =>
      refine ⟨hnet.1, ?_⟩
      have hcount : (fd :: events).count listenFd = events.count listenFd :=
        List.count_cons_of_ne hne
      simp [hevents, hcount]
  | again hnet hevents => exact ⟨hnet, by simp [hevents]⟩
  | command _ _ hnet => exact ⟨hnet.1, by simp⟩

/-- Besides the connections that events are there for, the backlog has those whose
events coalesced with others. -/
theorem length_backlog {tr : List (Step (EventLoop κ) LoopAct)} {s : EventLoop κ}
    (h : (runEpoll K cfg listenFd).Run tr s) (hlive : s.net.terminated = false) :
    s.backlog.length = s.announced listenFd + tr.countP (Coalesces listenFd ·) := by
  refine h.invariant (P := fun tr s => s.net.terminated = false →
    s.backlog.length = s.announced listenFd + tr.countP (Coalesces listenFd ·)) ?_ ?_ hlive
  · rintro s ⟨-, hbacklog, hraised, hevents⟩ -
    simp [hbacklog, hraised, hevents, EventLoop.announced]
  · intro tr s act s' _ ih hstep hlive
    obtain ⟨hlive, hcount⟩ := length_backlog_step hstep hlive
    have hbefore := ih hlive
    rw [List.countP_append, List.countP_singleton]
    simp only [decide_eq_true_eq]
    omega

/-- When the loop waits and no event is there, the backlog is empty if and only if no
connection of the run has arrived while an event of the listening socket was raised. -/
theorem backlog_empty_iff {tr : List (Step (EventLoop κ) LoopAct)} {s : EventLoop κ}
    (h : (runEpoll K cfg listenFd).Run tr s) (hblocked : s.Blocked) :
    s.backlog = [] ↔ ∀ t ∈ tr, ¬ Coalesces listenFd t := by
  obtain ⟨hlive, hevents, hraised⟩ := hblocked
  have hannounced : s.announced listenFd = 0 := by
    simp [EventLoop.announced, hevents, hraised]
  have hlength := length_backlog h hlive
  rw [hannounced, Nat.zero_add] at hlength
  rw [← List.length_eq_zero_iff, hlength, List.countP_eq_zero]
  simp

/-! ### Two connections -/

namespace Demo

/-- `n1` is going to connect to `n2`, and `n2` to `n1`. -/
def twoClients : Net (Stream Addr) :=
  { start with kernel :=
      { start.kernel with
        backlog := [(⟨n1.sAddr, 0x0190⟩, ⟨n2.sAddr, 0x5000⟩),
          (⟨n2.sAddr, 0x0190⟩, ⟨n1.sAddr, 0x5000⟩)] } }

/-- The loop waits, and 0 is the listening socket. -/
def idle : EventLoop (Stream Addr) := ⟨twoClients, [], ∅, none⟩

/-- `n1` has connected, and others have after it. -/
def connected (others : List Addr) : EventLoop (Stream Addr) :=
  ⟨twoClients, ⟨n1.sAddr, 0x0190⟩ :: others, {0}, none⟩

/-- The event is returned; the connection is accepted; the loop waits again. -/
def returned (others : List Addr) : EventLoop (Stream Addr) :=
  ⟨twoClients, ⟨n1.sAddr, 0x0190⟩ :: others, ∅, some [0]⟩

def served (others : List Addr) : EventLoop (Stream Addr) :=
  ⟨twoClients.acceptEvent kernel config, others, ∅, some []⟩

def idleAgain (others : List Addr) : EventLoop (Stream Addr) :=
  ⟨twoClients.acceptEvent kernel config, others, ∅, none⟩

theorem blocked_idleAgain (others : List Addr) : (idleAgain others).Blocked :=
  have hlive : (twoClients.acceptEvent kernel config).terminated = false := by decide
  ⟨hlive, rfl, rfl⟩

/-- `n1` connects. -/
theorem run_connected :
    (runEpoll kernel config 0).Run [⟨idle, .connect ⟨n1.sAddr, 0x0190⟩, connected []⟩]
      (connected []) := by
  have hidle : (runEpoll kernel config 0).Run [] idle :=
    .nil ⟨⟨rfl, rfl, rfl, rfl, rfl, rfl, rfl⟩, rfl, rfl, rfl⟩
  have hconnect : (runEpoll kernel config 0).step idle (.connect ⟨n1.sAddr, 0x0190⟩)
      (connected []) := .connect ⟨rfl, _, rfl, rfl⟩
  exact hidle.snoc hconnect

/-- Then the loop accepts the connection of `n1`. -/
theorem run_idleAgain {tr : List (Step (EventLoop (Stream Addr)) LoopAct)} {others : List Addr}
    (h : (runEpoll kernel config 0).Run tr (connected others)) :
    (runEpoll kernel config 0).Run
      (tr ++ [⟨connected others, .wait [0], returned others⟩]
        ++ [⟨returned others, .handle, served others⟩]
        ++ [⟨served others, .again, idleAgain others⟩]) (idleAgain others) := by
  have hwait : (runEpoll kernel config 0).step (connected others) (.wait [0]) (returned others) :=
    .wait rfl rfl (by decide) (by decide) (by decide) (by simp [connected])
  have hacc : ∃ acc, (twoClients.tcpAccept kernel config).1 = some acc
      ∧ acc.clientAddr = ⟨n1.sAddr, 0x0190⟩ := ⟨_, rfl, rfl⟩
  obtain ⟨acc, hacc, hclient⟩ := hacc
  have hhandle : (runEpoll kernel config 0).step (returned others) .handle (served others) :=
    .accept rfl hacc (by rw [hclient]; rfl) ⟨rfl, rfl⟩
  have hagain : (runEpoll kernel config 0).step (served others) .again (idleAgain others) :=
    .again (blocked_idleAgain others).1 rfl
  exact ((h.snoc hwait).snoc hhandle).snoc hagain

/-- One connection, and nothing is left. -/
theorem backlog_empty_one : (idleAgain []).backlog = [] := by
  refine (backlog_empty_iff (run_idleAgain run_connected) (blocked_idleAgain [])).mpr ?_
  simp [Coalesces, idle]

/-- Two connections before `epoll_wait` returns: the second is left. -/
theorem backlog_empty_fails :
    ¬ ∀ tr s, (runEpoll kernel config 0).Run tr s → s.Blocked → s.backlog = [] := by
  intro hall
  have hconnect : (runEpoll kernel config 0).step (connected []) (.connect ⟨n2.sAddr, 0x0190⟩)
      (connected [⟨n2.sAddr, 0x0190⟩]) := .connect ⟨rfl, _, rfl, rfl⟩
  have hempty := hall _ _ (run_idleAgain (run_connected.snoc hconnect)) (blocked_idleAgain _)
  cases hempty

end Demo

end Tmet.Tproxy
