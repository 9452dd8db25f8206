import Tmet.Tproxy.Process

/-!
# `Tmet.Proofs.Tproxy.Status`: `status` changes nothing that can be noticed

`print_status` gives a channel without a queue an empty one. Two states are `Alike` if they
differ in nothing else: everything but `network` is the same, and a channel without a queue
stands for one with an empty queue.

Only three functions look at `network`. Every other one passes it through untouched and
does the same whatever it is (`closeConnection_withNetwork` and the like), so it takes alike
states to alike states (`Alike.passes`). `alike_step` puts them together: a step from one of
two alike states can be made from the other. `alike_printStatus` is the reason for all this.
-/

set_option autoImplicit false

namespace Tmet.Tproxy

open Tmet.Lib Tmet.Posix

variable {κ : Type} {K : Kernel κ Ctl Addr} {cfg : ConfigFile}

namespace Net

/-- The state with other queues. -/
def withNetwork (s : Net κ) (N : FinFn Channel (List Msg)) : Net κ := { s with network := N }

@[simp] theorem withNetwork_network (s : Net κ) (N : FinFn Channel (List Msg)) :
    (s.withNetwork N).network = N := rfl

@[simp] theorem withNetwork_heap (s : Net κ) (N : FinFn Channel (List Msg)) :
    (s.withNetwork N).heap = s.heap := rfl

@[simp] theorem withNetwork_fdToChannelStatus (s : Net κ) (N : FinFn Channel (List Msg)) :
    (s.withNetwork N).fdToChannelStatus = s.fdToChannelStatus := rfl

@[simp] theorem withNetwork_kernel (s : Net κ) (N : FinFn Channel (List Msg)) :
    (s.withNetwork N).kernel = s.kernel := rfl

@[simp] theorem withNetwork_self (s : Net κ) : s.withNetwork s.network = s := rfl

/-- The states differ at most in empty queues. -/
structure Alike (s s' : Net κ) : Prop where
  rest : s' = s.withNetwork s'.network
  queues : ∀ c, (s.network.get c).getD [] = (s'.network.get c).getD []

theorem Alike.refl (s : Net κ) : s.Alike s := ⟨rfl, fun _ => rfl⟩

/-- What two alike states look like. -/
theorem Alike.elim {s s' : Net κ} (h : s.Alike s') :
    ∃ N, s' = s.withNetwork N ∧ ∀ c, (s.network.get c).getD [] = (N.get c).getD [] :=
  ⟨s'.network, h.rest, h.queues⟩

theorem alike_withNetwork {s : Net κ} {N : FinFn Channel (List Msg)}
    (h : ∀ c, (s.network.get c).getD [] = (N.get c).getD []) : s.Alike (s.withNetwork N) :=
  ⟨rfl, h⟩

theorem Alike.trans {s s' s'' : Net κ} (h : s.Alike s') (h' : s'.Alike s'') : s.Alike s'' := by
  refine ⟨?_, fun c => (h.queues c).trans (h'.queues c)⟩
  rw [h'.rest, h.rest]
  rfl

theorem Alike.symm {s s' : Net κ} (h : s.Alike s') : s'.Alike s := by
  refine ⟨?_, fun c => (h.queues c).symm⟩
  rw [h.rest]
  rfl

theorem Alike.terminated {s s' : Net κ} (h : s.Alike s') : s'.terminated = s.terminated := by
  rw [h.rest]
  rfl

theorem Alike.log {s s' : Net κ} (h : s.Alike s') : s'.log = s.log := by
  rw [h.rest]
  rfl

/-! ### What does not look at the queues -/

/-- What passes the queues through, and does the same whatever they are. -/
theorem Alike.passes {f : Net κ → Net κ} {s s' : Net κ} (h : s.Alike s')
    (hf : ∀ s N, f (s.withNetwork N) = (f s).withNetwork N) : (f s).Alike (f s') := by
  obtain ⟨N, rfl, hN⟩ := h.elim
  have hnetwork : (f s).network = s.network := by
    have hself := hf s s.network
    rw [withNetwork_self] at hself
    rw [hself]
    rfl
  rw [hf]
  refine alike_withNetwork fun c => ?_
  rw [hnetwork]
  exact hN c

section Passing

variable (s : Net κ) (N : FinFn Channel (List Msg)) (fd : Fd)

@[simp] theorem withNetwork_terminated : (s.withNetwork N).terminated = s.terminated := rfl

@[simp] theorem withNetwork_clientToFd : (s.withNetwork N).clientToFd = s.clientToFd := rfl

@[simp] theorem recv_withNetwork (len : ℕ) (flags : RecvFlags) :
    (s.withNetwork N).recv K fd len flags
      = ((s.recv K fd len flags).1, (s.recv K fd len flags).2.withNetwork N) := rfl

@[simp] theorem write_withNetwork (data : Bytes) :
    (s.withNetwork N).write K fd data
      = ((s.write K fd data).1, (s.write K fd data).2.withNetwork N) := rfl

@[simp] theorem close_withNetwork :
    (s.withNetwork N).close K fd = (s.close K fd).withNetwork N := rfl

@[simp] theorem ctl_withNetwork (o : Ctl) :
    (s.withNetwork N).ctl K o = ((s.ctl K o).1, (s.ctl K o).2.withNetwork N) := rfl

@[simp] theorem throw_withNetwork : (s.withNetwork N).throw = s.throw.withNetwork N := rfl

@[simp] theorem setDisconnected_withNetwork (b : Bool) :
    (s.withNetwork N).setDisconnected fd b = (s.setDisconnected fd b).withNetwork N := rfl

@[simp] theorem setUnintercepted_withNetwork :
    (s.withNetwork N).setUnintercepted fd = (s.setUnintercepted fd).withNetwork N := rfl

@[simp] theorem doClose_withNetwork :
    (s.withNetwork N).doClose K fd = (s.doClose K fd).withNetwork N := by
  simp only [doClose, withNetwork_fdToChannelStatus]
  cases s.fdToChannelStatus.get fd <;> rfl

@[simp] theorem closeConnection_withNetwork (tag : Bool) :
    (s.withNetwork N).closeConnection K fd tag = (s.closeConnection K fd tag).withNetwork N := by
  simp only [closeConnection, withNetwork_fdToChannelStatus, withNetwork_heap]
  cases s.fdToChannelStatus.get fd <;> cases tag <;> simp

@[simp] theorem tcpAccept_withNetwork :
    (s.withNetwork N).tcpAccept K cfg
      = ((s.tcpAccept K cfg).1, (s.tcpAccept K cfg).2.withNetwork N) := by
  simp only [tcpAccept, withNetwork_kernel]
  rcases K.accept s.kernel with ⟨_ | ⟨fd, client⟩, k⟩
  · rfl
  · dsimp only
    rcases K.getsockname k fd with ⟨_ | origin, k⟩ <;> rfl

@[simp] theorem addMonitorFd_withNetwork :
    (s.withNetwork N).addMonitorFd K fd = (s.addMonitorFd K fd).withNetwork N := by
  rw [addMonitorFd, addMonitorFd, apply_ite (withNetwork · N), apply_ite (withNetwork · N)]
  rfl

@[simp] theorem connectPeer_withNetwork (acc : AcceptData) :
    (s.withNetwork N).connectPeer K acc
      = ((s.connectPeer K acc).1, (s.connectPeer K acc).2.withNetwork N) := by
  show _ = Prod.map id (withNetwork · N) (s.connectPeer K acc)
  simp only [connectPeer, withNetwork_kernel]
  rcases K.socket s.kernel with ⟨_ | fd, k⟩
  · rfl
  -- each call fails or succeeds as it does for the other queues
  · dsimp only
    iterate 3 rw [apply_ite (Prod.map id (withNetwork · N))]
    rfl

@[simp] theorem addFdToChannel_withNetwork (srcFd dstFd : Fd) (src dst : Addr) :
    (s.withNetwork N).addFdToChannel srcFd dstFd src dst
      = (s.addFdToChannel srcFd dstFd src dst).withNetwork N := rfl

@[simp] theorem doAcceptConnect_withNetwork :
    (s.withNetwork N).doAcceptConnect K cfg
      = ((s.doAcceptConnect K cfg).1, (s.doAcceptConnect K cfg).2.withNetwork N) := by
  simp only [doAcceptConnect, tcpAccept_withNetwork]
  rcases s.tcpAccept K cfg with ⟨_ | acc, s₁⟩
  · rfl
  dsimp only
  split
  · let s₂ : Net κ := { s₁ with
      clientToFd := s₁.clientToFd.insert acc.clientAddr.host acc.socketFd
      fdToClient := s₁.fdToClient.insert acc.socketFd acc.clientAddr.host }
    exact congrArg (Prod.mk none) (addMonitorFd_withNetwork s₂ N acc.socketFd)
  · simp only [connectPeer_withNetwork]
    rcases s₁.connectPeer K acc with ⟨_ | peerFd, s₂⟩ <;> rfl

theorem acceptEvent_withNetwork :
    (s.withNetwork N).acceptEvent K cfg = (s.acceptEvent K cfg).withNetwork N := by
  simp only [acceptEvent, doAcceptConnect_withNetwork]
  rcases s.doAcceptConnect K cfg with ⟨_ | ⟨fd, peerFd⟩, s₁⟩
  · rfl
  · simp

theorem sendCmd_withNetwork (node : String) (cmd : Bytes) :
    (s.withNetwork N).sendCmd K cfg node cmd = (s.sendCmd K cfg node cmd).withNetwork N := by
  simp only [sendCmd, withNetwork_clientToFd]
  split
  · rfl
  · cases s.clientToFd.get (cfg.getNodeAddr node) with
    | none => rfl
    | some fd =>
        simp only [write_withNetwork]
        rcases s.write K fd _ with ⟨_ | n, s₁⟩ <;> rfl

theorem writeLoop_withNetwork (fuel : ℕ) (body : Bytes) (left : ℕ) (size : ℤ) :
    (s.withNetwork N).writeLoop K fuel fd body left size
      = ((s.writeLoop K fuel fd body left size).1,
        (s.writeLoop K fuel fd body left size).2.withNetwork N) := by
  induction fuel generalizing s left size with
  | zero => rfl
  | succ fuel ih =>
      simp only [writeLoop, write_withNetwork]
      split
      · rfl
      · rcases s.write K fd (body.take left) with ⟨_ | n, s₁⟩
        · rfl
        · exact ih s₁ _ _

@[simp] theorem deliverTaken_withNetwork (m : Msg) :
    (s.withNetwork N).deliverTaken K cfg m = (s.deliverTaken K cfg m).withNetwork N := by
  simp only [deliverTaken, withNetwork_fdToChannelStatus, withNetwork_heap, withNetwork_kernel,
    writeLoop_withNetwork, closeConnection_withNetwork]
  cases s.fdToChannelStatus.get (s.heap m.fd) with
  | none => rfl
  | some st =>
      dsimp only
      rw [apply_ite (withNetwork · N), apply_ite (withNetwork · N)]

end Passing

/-! ### What looks at the queues -/

variable {s s' : Net κ}

theorem alike_recv (h : s.Alike s') (fd : Fd) (len : ℕ) (flags : RecvFlags) :
    ∃ r s₁ s₁', s.recv K fd len flags = (r, s₁) ∧ s'.recv K fd len flags = (r, s₁')
      ∧ s₁.Alike s₁' := by
  obtain ⟨N, rfl, hN⟩ := h.elim
  exact ⟨_, _, _, rfl, recv_withNetwork .., alike_withNetwork hN⟩

theorem alike_write (h : s.Alike s') (fd : Fd) (data : Bytes) :
    ∃ r s₁ s₁', s.write K fd data = (r, s₁) ∧ s'.write K fd data = (r, s₁') ∧ s₁.Alike s₁' := by
  obtain ⟨N, rfl, hN⟩ := h.elim
  exact ⟨_, _, _, rfl, write_withNetwork .., alike_withNetwork hN⟩

/-- A channel gets a queue that was there, or was not. -/
theorem alike_insert (h : s.Alike s') (c : Channel) (q : List Msg) :
    Alike { s with network := s.network.insert c q }
      { s' with network := s'.network.insert c q } := by
  obtain ⟨N, rfl, hN⟩ := h.elim
  refine ⟨rfl, fun x => ?_⟩
  show ((s.network.insert c q).get x).getD [] = ((N.insert c q).get x).getD []
  rw [FinFn.get_insert, FinFn.get_insert]
  split
  · rfl
  · exact hN x

theorem alike_enqueueMsg (h : s.Alike s') (st : ChannelStatus) (m : Msg) :
    (s.enqueueMsg K cfg st m).Alike (s'.enqueueMsg K cfg st m) := by
  simp only [enqueueMsg]
  split
  · exact h
  · split
    · exact h.passes (f := fun s => s.deliverTaken K cfg m)
        fun s N => deliverTaken_withNetwork s N m
    · rw [← h.queues]
      exact alike_insert h _ _

/-- A channel gets an empty queue if it had none. -/
theorem alike_insert_self (s : Net κ) (c : Channel) :
    s.Alike { s with network := s.network.insert c ((s.network.get c).getD []) } := by
  refine ⟨rfl, fun x => ?_⟩
  show _ = ((s.network.insert c _).get x).getD []
  rw [FinFn.get_insert]
  split
  · rename_i hx
    rw [hx]
    rfl
  · rfl

/-- `deliver_msg` once it has the queue. -/
def deliverFrom (K : Kernel κ Ctl Addr) (cfg : ConfigFile) (s : Net κ) (c : Channel)
    (q : List Msg) : Net κ :=
  let s₁ := { s with network := s.network.insert c (dequeueOpen s.heap q).2 }
  (dequeueOpen s.heap q).1.elim s₁ fun msg => s₁.deliverTaken K cfg msg

/-- Whether there is no queue or an empty one, nothing is delivered. -/
theorem alike_deliverFrom (c : Channel) :
    (s.deliverMsg K cfg c).Alike (deliverFrom K cfg s c ((s.network.get c).getD [])) := by
  rw [deliverMsg]
  cases hc : s.network.get c with
  | none =>
      have hinsert := alike_insert_self s c
      rw [hc] at hinsert
      exact hinsert
  | some q => exact .refl _

theorem deliverFrom_congr (h : s.Alike s') (c : Channel) (q : List Msg) :
    (deliverFrom K cfg s c q).Alike (deliverFrom K cfg s' c q) := by
  obtain ⟨N, rfl, hN⟩ := h.elim
  have hinsert := alike_insert (alike_withNetwork hN) c (dequeueOpen s.heap q).2
  show Alike (Option.elim (dequeueOpen s.heap q).1 _ _) (Option.elim (dequeueOpen s.heap q).1 _ _)
  cases (dequeueOpen s.heap q).1 with
  | none => exact hinsert
  | some m =>
      exact hinsert.passes (f := fun s => s.deliverTaken K cfg m)
        fun s N => deliverTaken_withNetwork s N m

theorem alike_deliverMsg (h : s.Alike s') (c : Channel) :
    (s.deliverMsg K cfg c).Alike (s'.deliverMsg K cfg c) := by
  refine (alike_deliverFrom c).trans ?_
  refine (deliverFrom_congr h c _).trans ?_
  rw [h.queues]
  exact (alike_deliverFrom c).symm

theorem alike_clearMsgs (h : s.Alike s') (c : Channel) :
    (s.clearMsgs c).Alike (s'.clearMsgs c) := by
  obtain ⟨N, rfl, hN⟩ := h.elim
  refine ⟨rfl, fun x => ?_⟩
  have hx := hN x
  show ((s.network.except c fun _ => []).get x).getD [] = ((N.except c fun _ => []).get x).getD []
  rw [FinFn.get_except, FinFn.get_except]
  split
  · cases s.network.get x <;> cases N.get x <;> rfl
  · exact hx

/-! ### Receiving -/

/-- Both calls go on, or neither, with the same result and alike states. -/
def AlikeResult {β : Type} (r r' : β × Net κ) : Prop := r.1 = r'.1 ∧ r.2.Alike r'.2

theorem alike_closeConnection (h : s.Alike s') (fd : Fd) (tag : Bool) :
    (s.closeConnection K fd tag).Alike (s'.closeConnection K fd tag) :=
  h.passes (f := fun s => s.closeConnection K fd tag)
    fun s N => closeConnection_withNetwork s N fd tag

theorem alike_setUnintercepted (h : s.Alike s') (fd : Fd) :
    (s.setUnintercepted fd).Alike (s'.setUnintercepted fd) :=
  h.passes (f := fun s => s.setUnintercepted fd) fun _ _ => rfl

theorem Alike.entries (h : s.Alike s') : s'.fdToChannelStatus = s.fdToChannelStatus := by
  rw [h.rest]
  rfl

theorem Alike.heap (h : s.Alike s') : s'.heap = s.heap := by
  rw [h.rest]
  rfl

theorem alike_headerLoop (h : s.Alike s') (fuel : ℕ) (fd : Fd) (header : MsgHeader) :
    Option.Rel AlikeResult (s.headerLoop K cfg fuel fd header)
      (s'.headerLoop K cfg fuel fd header) := by
  induction fuel generalizing s s' header with
  | zero => exact .none
  | succ fuel ih =>
      obtain ⟨r, s₁, s₁', hpeek, hpeek', h₁⟩ := alike_recv (K := K) h fd 8 .peekDontwait
      rw [headerLoop, headerLoop, hpeek, hpeek']
      cases r with
      | error e => exact .some ⟨rfl, h₁⟩
      | ok data =>
          dsimp only
          split
          · exact .some ⟨rfl, h₁⟩
          split
          · exact .some ⟨rfl, alike_setUnintercepted h₁ fd⟩
          rw [h₁.entries]
          cases s₁.fdToChannelStatus.get fd with
          | none => exact .some ⟨rfl, h₁⟩
          | some cf =>
              obtain ⟨r, s₂, s₂', htake, htake', h₂⟩ :=
                alike_recv (K := K) h₁ fd (8 + (header.recvInto data).size) .waitall
              dsimp only
              rw [htake, htake']
              cases r with
              | error e =>
                  dsimp only
                  split
                  · exact .some ⟨rfl, h₂⟩
                  · exact .some ⟨rfl, alike_closeConnection h₂ fd false⟩
              | ok content =>
                  dsimp only
                  split
                  · exact .some ⟨rfl, alike_closeConnection h₂ fd false⟩
                  · exact ih (alike_enqueueMsg h₂ cf _) _

theorem alike_receiveIntercepted (h : s.Alike s') (fuel : ℕ) (fd : Fd) :
    Option.Rel AlikeResult (s.receiveIntercepted K cfg fuel fd)
      (s'.receiveIntercepted K cfg fuel fd) := by
  have hloop : Option.Rel AlikeResult (s.headerLoop K cfg fuel fd .zero)
      (s'.headerLoop K cfg fuel fd .zero) := alike_headerLoop h fuel fd .zero
  rw [receiveIntercepted, receiveIntercepted]
  generalize s.headerLoop K cfg fuel fd .zero = r at hloop ⊢
  generalize s'.headerLoop K cfg fuel fd .zero = r' at hloop ⊢
  cases hloop with
  | none => exact .none
  | @some a b hab =>
      obtain ⟨e, s₁⟩ := a
      obtain ⟨e', s₁'⟩ := b
      obtain ⟨rfl, h₁⟩ := hab
      cases e with
      | returned => exact .some ⟨rfl, h₁⟩
      | invalid => exact .some ⟨rfl, h₁⟩
      | short size header =>
          cases size with
          | error e =>
              dsimp only
              split
              · exact .some ⟨rfl, alike_closeConnection h₁ fd false⟩
              · exact .some ⟨rfl, h₁⟩
          | ok data =>
              cases data with
              | nil => exact .some ⟨rfl, alike_closeConnection h₁ fd false⟩
              | cons b bs =>
                  dsimp only
                  split
                  · exact .some ⟨rfl, alike_setUnintercepted h₁ fd⟩
                  · exact .some ⟨rfl, h₁⟩

theorem alike_transferUnintercepted (h : s.Alike s') (fuel : ℕ) (outFd fd : Fd) :
    Option.Rel Alike (s.transferUnintercepted K fuel outFd fd)
      (s'.transferUnintercepted K fuel outFd fd) := by
  induction fuel generalizing s s' with
  | zero => exact .none
  | succ fuel ih =>
      obtain ⟨r, s₁, s₁', hrecv, hrecv', h₁⟩ := alike_recv (K := K) h fd 1460 .dontwait
      rw [transferUnintercepted, transferUnintercepted, hrecv, hrecv']
      cases r with
      | error e =>
          dsimp only
          split
          · exact .some (alike_closeConnection h₁ fd false)
          · exact .some h₁
      | ok data =>
          cases data with
          | nil => exact .some (alike_closeConnection h₁ fd false)
          | cons b bs =>
              obtain ⟨w, s₂, s₂', hwrite, hwrite', h₂⟩ := alike_write (K := K) h₁ outFd (b :: bs)
              dsimp only
              rw [hwrite, hwrite']
              cases w with
              | error e => exact .some (alike_closeConnection h₂ fd false)
              | ok n => exact ih h₂

theorem alike_receivePhase (h : s.Alike s') (fuel : ℕ) (fd : Fd) :
    Option.Rel AlikeResult (s.receivePhase K cfg fuel fd) (s'.receivePhase K cfg fuel fd) := by
  have htagged : s'.uninterceptedFd = s.uninterceptedFd := by
    rw [h.rest]
    rfl
  rw [receivePhase, receivePhase, htagged]
  split
  · exact .some ⟨rfl, h⟩
  · exact alike_receiveIntercepted h fuel fd

theorem alike_doReceive (h : s.Alike s') (fuel : ℕ) (fd : Fd) :
    Option.Rel Alike (s.doReceive K cfg fuel fd) (s'.doReceive K cfg fuel fd) := by
  have hphase : Option.Rel AlikeResult (s.receivePhase K cfg fuel fd)
      (s'.receivePhase K cfg fuel fd) := alike_receivePhase h fuel fd
  rw [doReceive, doReceive, h.entries]
  cases s.fdToChannelStatus.get fd with
  | none => exact .some (alike_closeConnection h fd false)
  | some st =>
      dsimp only
      generalize s.receivePhase K cfg fuel fd = r at hphase ⊢
      generalize s'.receivePhase K cfg fuel fd = r' at hphase ⊢
      cases hphase with
      | none => exact .none
      | @some a b hab =>
          obtain ⟨raw, s₁⟩ := a
          obtain ⟨raw', s₁'⟩ := b
          obtain ⟨rfl, h₁⟩ := hab
          cases raw with
          | false => exact .some h₁
          | true =>
              replace h₁ : s₁.Alike s₁' := h₁
              dsimp only
              rw [h₁.entries, h₁.heap]
              cases s₁.fdToChannelStatus.get fd with
              | none => exact .some h₁
              | some cf => exact alike_transferUnintercepted h₁ fuel _ fd

theorem alike_checkConnectionIsActive (h : s.Alike s') (fd : Fd) :
    AlikeResult (s.checkConnectionIsActive K fd) (s'.checkConnectionIsActive K fd) := by
  obtain ⟨r, s₁, s₁', hpeek, hpeek', h₁⟩ := alike_recv (K := K) h fd 1 .peekDontwait
  rw [checkConnectionIsActive, checkConnectionIsActive, hpeek, hpeek']
  cases r <;> exact ⟨rfl, h₁⟩

theorem alike_readEvent (h : s.Alike s') (fuel : ℕ) (fd : Fd) :
    Option.Rel Alike (s.readEvent K cfg fuel fd) (s'.readEvent K cfg fuel fd) := by
  have hclients : s'.fdToClient = s.fdToClient := by
    rw [h.rest]
    rfl
  rw [readEvent, readEvent, hclients]
  cases s.fdToClient.get fd with
  | none => exact alike_doReceive h fuel fd
  | some client =>
      have hactive : AlikeResult (s.checkConnectionIsActive K fd)
          (s'.checkConnectionIsActive K fd) := alike_checkConnectionIsActive h fd
      dsimp only
      generalize s.checkConnectionIsActive K fd = r at hactive ⊢
      generalize s'.checkConnectionIsActive K fd = r' at hactive ⊢
      obtain ⟨active, s₁⟩ := r
      obtain ⟨active', s₁'⟩ := r'
      obtain ⟨rfl, h₁⟩ := hactive
      cases active with
      | true => exact .some h₁
      | false =>
          let f (s : Net κ) : Net κ := { s.close K fd with
            clientToFd := s.clientToFd.erase client
            fdToClient := s.fdToClient.erase fd }
          exact .some (Alike.passes (f := f) h₁ fun _ _ => rfl)

/-! ### Commands -/

theorem alike_partitionLoop (h : s.Alike s') (addr : Addr) (clearMsg isRecover : Bool)
    (fds : List Fd) :
    AlikeResult (s.partitionLoop K addr clearMsg isRecover fds)
      (s'.partitionLoop K addr clearMsg isRecover fds) := by
  induction fds generalizing s s' with
  | nil => exact ⟨rfl, h⟩
  | cons fd fds ih =>
      rw [partitionLoop, partitionLoop, h.entries]
      cases s.fdToChannelStatus.get fd with
      | none => exact ih h
      | some st =>
          dsimp only
          split
          · -- the entry is marked, and its queue is cleared or not
            have hmarked : Alike
                (if isRecover then s.setDisconnected fd false else s.closeConnection K fd true)
                (if isRecover then s'.setDisconnected fd false
                  else s'.closeConnection K fd true) := by
              cases isRecover with
              | false => exact alike_closeConnection h fd true
              | true => exact h.passes (f := fun s => s.setDisconnected fd false) fun _ _ => rfl
            generalize (if isRecover then s.setDisconnected fd false
              else s.closeConnection K fd true) = s₁ at hmarked ⊢
            generalize (if isRecover then s'.setDisconnected fd false
              else s'.closeConnection K fd true) = s₁' at hmarked ⊢
            have hcleared : Alike (if clearMsg then s₁.clearMsgs st.channel else s₁)
                (if clearMsg then s₁'.clearMsgs st.channel else s₁') := by
              cases clearMsg with
              | false => exact hmarked
              | true => exact alike_clearMsgs hmarked st.channel
            obtain ⟨htoClose, hrest⟩ := ih hcleared
            exact ⟨by rw [htoClose], hrest⟩
          · exact ih h

theorem alike_closeAll (h : s.Alike s') (fds : List Fd) :
    (s.closeAll K fds).Alike (s'.closeAll K fds) := by
  induction fds generalizing s s' with
  | nil => exact h
  | cons fd fds ih => exact ih (alike_closeConnection h fd false)

theorem alike_partitionWith (h : s.Alike s') (node : String) (clearMsg isRecover : Bool) :
    (s.partitionWith K cfg node clearMsg isRecover).Alike
      (s'.partitionWith K cfg node clearMsg isRecover) := by
  have hkeys : s'.keys = s.keys := by rw [keys, keys, h.entries]
  obtain ⟨htoClose, hloop⟩ := alike_partitionLoop (K := K) h (cfg.getNodeAddr node) clearMsg
    isRecover s.keys
  rw [partitionWith, partitionWith, hkeys]
  dsimp only
  split
  · exact h
  · rw [htoClose]
    exact alike_closeAll hloop _

theorem alike_deliverCmd (h : s.Alike s') (src dst : String) :
    (s.deliverCmd K cfg src dst).Alike (s'.deliverCmd K cfg src dst) := by
  rw [deliverCmd, deliverCmd]
  dsimp only
  split
  · exact h
  · exact alike_deliverMsg h _

end Net

/-! ### Steps -/

/-- A step from one of two alike states can be made from the other one. -/
theorem alike_step {s s' t : Net κ} {act : Act} (h : s.Alike s') (hstep : act.Step K cfg s t) :
    ∃ t', act.Step K cfg s' t' ∧ t.Alike t' := by
  obtain ⟨hok, hstep⟩ := hstep
  have hok' : s'.terminated = false := h.terminated.trans hok
  cases act with
  | accept =>
      subst hstep
      exact ⟨_, ⟨hok', rfl⟩, h.passes (f := fun s => s.acceptEvent K cfg)
        fun s N => Net.acceptEvent_withNetwork s N⟩
  | readable fd =>
      obtain ⟨fuel, hstep⟩ := hstep
      have hread : Option.Rel Net.Alike (s.readEvent K cfg fuel fd)
          (s'.readEvent K cfg fuel fd) := Net.alike_readEvent h fuel fd
      rw [hstep] at hread
      cases hother : s'.readEvent K cfg fuel fd with
      | none =>
          rw [hother] at hread
          cases hread
      | some t' =>
          rw [hother] at hread
          cases hread with
          | some halike => exact ⟨t', ⟨hok', fuel, hother⟩, halike⟩
  | deliver src dst =>
      subst hstep
      exact ⟨_, ⟨hok', rfl⟩, Net.alike_deliverCmd h src dst⟩
  | partition node =>
      subst hstep
      exact ⟨_, ⟨hok', rfl⟩, Net.alike_partitionWith h node false false⟩
  | recover node =>
      subst hstep
      exact ⟨_, ⟨hok', rfl⟩, Net.alike_partitionWith h node true true⟩
  | cmd node text =>
      subst hstep
      exact ⟨_, ⟨hok', rfl⟩, h.passes (f := fun s => s.sendCmd K cfg node text)
        fun s N => Net.sendCmd_withNetwork s N node text⟩
  | environment =>
      obtain ⟨k, hfds, rfl⟩ := hstep
      obtain ⟨N, rfl, hN⟩ := h.elim
      exact ⟨_, ⟨hok', k, hfds, rfl⟩, Net.alike_withNetwork hN⟩

/-- `status` is not noticed. -/
theorem alike_printStatus (s : Net κ) : s.Alike s.printStatus := by
  rw [Net.printStatus]
  generalize s.keys = fds
  induction fds generalizing s with
  | nil => exact .refl s
  | cons fd fds ih =>
      rw [List.foldl_cons]
      cases hst : s.fdToChannelStatus.get fd with
      | none => exact ih s
      | some st => exact (Net.alike_insert_self s st.channel).trans (ih _)

end Tmet.Tproxy
