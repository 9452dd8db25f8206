import Tmet.Lib.Transition
import Tmet.Proofs.Tproxy.Writing

/-!
# `Tmet.Proofs.Tproxy.PassThrough`: an unintercepted stream

A descriptor is tagged as unintercepted, and every event on it goes to
`transfer_unintercepted`: what `recv` returns is offered to one `send` on the peer
descriptor. What `send` does not take is neither kept nor is the connection closed.

`passThrough` is the system of repeated events. Between them anything else may
happen to the process and to the kernel, the pair being closed by another handler
included. `Passed log calls` relates the log to the results of the sends, a piece that
was received and the call for it at a time (`transferUnintercepted_passed`, one turn
of the loop at a time). `lossless_iff`: nothing is lost in a run exactly if every send
that succeeded has taken all that it was offered.
-/

set_option autoImplicit false

namespace Tmet.Tproxy

open Tmet.Lib Tmet.Posix

variable {κ : Type} {K : Kernel κ Ctl Addr} {cfg : ConfigFile} {fd outFd : Fd}

/-! ### The system -/

/-- The bytes of the event, if it was received on `fd`. -/
def Event.takenOn (fd : Fd) : Event → Bytes
  | .received fd' _ data => if fd' = fd then data else []
  | .wrote _ _ _ => []

/-- All bytes that were received on `fd`. -/
def incoming (fd : Fd) (log : List Event) : Bytes := log.flatMap (Event.takenOn fd)

@[simp] theorem incoming_append (fd : Fd) (log log' : List Event) :
    incoming fd (log ++ log') = incoming fd log ++ incoming fd log' := List.flatMap_append

@[simp] theorem incoming_received (fd : Fd) (conn : Option ChannelStatus) (data : Bytes) :
    incoming fd [.received fd conn data] = data := by
  simp [incoming, Event.takenOn]

@[simp] theorem incoming_wrote (fd fd' : Fd) (conn : Option ChannelStatus) (data : Bytes) :
    incoming fd [.wrote fd' conn data] = [] := rfl

/-- The descriptor is tagged, and it is paired with `outFd`. -/
def Linked (fd outFd : Fd) (s : Net κ) : Prop :=
  fd ∈ s.uninterceptedFd ∧ ∃ st, s.fdToChannelStatus.get fd = some st ∧ s.heap st.fd = outFd

/-- Something else happens, in the process or outside. The log and the record are those
of the pass-through. The pair is left alone or closed, and a closed one stays so. -/
structure Elsewhere (fd outFd : Fd) (s s' : Net (κ × List WriteCall)) : Prop where
  log : s'.log = s.log
  record : s'.kernel.2 = s.kernel.2
  pair : s'.fdToChannelStatus.get fd = none ∨ (Linked fd outFd s ∧ Linked fd outFd s')

/-- What happens to the stream. -/
inductive Passage
  | event
  | elsewhere
deriving DecidableEq, Repr

/-- The runs of an unintercepted stream: events on its descriptor, and whatever happens
in between. -/
def passThrough (K : Kernel κ Ctl Addr) (cfg : ConfigFile) (fd outFd : Fd) :
    System (Net (κ × List WriteCall)) Passage where
  init s := s.log = [] ∧ s.kernel.2 = [] ∧ Linked fd outFd s
  step s a s' :=
    match a with
    | .event => ∃ fuel, s.doReceive (recording K) cfg fuel fd = some s'
    | .elsewhere => Elsewhere fd outFd s s'

/-- What was put on the peer descriptor is what was received, after every send and
whenever the pair is still open. -/
structure Lossless (fd outFd : Fd) (s : Net (κ × List WriteCall)) : Prop where
  afterSend : ∀ log conn data rest, s.log = log ++ .wrote outFd conn data :: rest →
    outgoing outFd (log ++ [.wrote outFd conn data])
      = incoming fd (log ++ [.wrote outFd conn data])
  whileOpen : Linked fd outFd s → outgoing outFd s.log = incoming fd s.log

/-! ### Logs of a pass-through -/

/-- Pieces that were received, and for each the send that it was offered to. -/
inductive Passed (fd outFd : Fd) : List Event → List WriteCall → Prop
  | nil : Passed fd outFd [] []
  | piece {log : List Event} {calls : List WriteCall} {data : Bytes} {n : ℕ}
      (conn conn' : Option ChannelStatus) :
      Passed fd outFd log calls → n ≤ data.length →
      Passed fd outFd (log ++ [.received fd conn data] ++ [.wrote outFd conn' (data.take n)])
        (calls ++ [⟨data.length, .ok n⟩])

/-- The same, and then at most one piece that did not get through: the end of the
stream, or a send that failed. -/
def Ended (fd outFd : Fd) (log : List Event) (calls : List WriteCall) : Prop :=
  ∃ log₀ calls₀ tail failed, Passed fd outFd log₀ calls₀ ∧ log = log₀ ++ tail
    ∧ calls = calls₀ ++ failed ∧ (∀ ev ∈ tail, ∃ conn data, ev = .received fd conn data)
    ∧ ∀ w ∈ failed, w.Failed

theorem Passed.ended {log : List Event} {calls : List WriteCall} (h : Passed fd outFd log calls) :
    Ended fd outFd log calls :=
  ⟨log, calls, [], [], h, (List.append_nil _).symm, (List.append_nil _).symm, by simp, by simp⟩

/-- What came in has gone out, at every write. -/
def Balanced (fd outFd : Fd) (log : List Event) : Prop :=
  ∀ log₁ conn data rest, log = log₁ ++ .wrote outFd conn data :: rest →
    outgoing outFd (log₁ ++ [.wrote outFd conn data])
      = incoming fd (log₁ ++ [.wrote outFd conn data])

/-- A log without a write at its end is balanced if what is before is. -/
theorem balanced_append_iff {log tail : List Event}
    (htail : ∀ ev ∈ tail, ∃ conn data, ev = .received fd conn data) :
    Balanced fd outFd (log ++ tail) ↔ Balanced fd outFd log := by
  constructor
  · intro h log₁ conn data rest heq
    refine h log₁ conn data (rest ++ tail) ?_
    rw [heq, List.append_assoc, List.cons_append]
  · intro h log₁ conn data rest heq
    rcases List.append_eq_append_iff.mp heq with ⟨more, hlog, htl⟩ | ⟨more, hlog, htl⟩
    · -- the write would be in the tail
      have hmem : Event.wrote outFd conn data ∈ tail := by
        rw [htl]
        exact List.mem_append_right _ List.mem_cons_self
      obtain ⟨conn', data', hev⟩ := htail _ hmem
      cases hev
    · cases more with
      | nil =>
          have hmem : Event.wrote outFd conn data ∈ tail := by
            rw [List.nil_append] at htl
            rw [← htl]
            exact List.mem_cons_self
          obtain ⟨conn', data', hev⟩ := htail _ hmem
          cases hev
      | cons ev more =>
          rw [List.cons_append] at htl
          obtain ⟨rfl, -⟩ := List.cons.inj htl
          exact h log₁ conn data more hlog

/-- One more piece. -/
theorem balanced_piece_iff {log : List Event} {data sent : Bytes}
    (conn conn' : Option ChannelStatus) :
    Balanced fd outFd (log ++ [.received fd conn data] ++ [.wrote outFd conn' sent])
      ↔ Balanced fd outFd log
        ∧ outgoing outFd log ++ sent = incoming fd log ++ data := by
  have hpre : Balanced fd outFd (log ++ [.received fd conn data]) ↔ Balanced fd outFd log :=
    balanced_append_iff (by simp)
  rw [← hpre]
  generalize hlog' : log ++ [Event.received fd conn data] = log'
  have hout : outgoing outFd log' = outgoing outFd log := by
    rw [← hlog', outgoing_append, outgoing_received, List.append_nil]
  have hin : incoming fd log' = incoming fd log ++ data := by
    rw [← hlog', incoming_append, incoming_received]
  rw [← hout, ← hin]
  constructor
  · intro h
    refine ⟨fun log₁ c d rest heq => ?_, ?_⟩
    · refine h log₁ c d (rest ++ [.wrote outFd conn' sent]) ?_
      rw [heq, List.append_assoc, List.cons_append]
    · have hlast := h log' conn' sent [] rfl
      rw [outgoing_append, incoming_append, outgoing_wrote, incoming_wrote,
        List.append_nil] at hlast
      exact hlast
  · rintro ⟨h, hlast⟩ log₁ c d rest heq
    rcases List.eq_nil_or_concat rest with rfl | ⟨rest', ev, rfl⟩
    · -- the last write
      obtain ⟨rfl, hev⟩ := List.append_inj' heq rfl
      obtain ⟨-, rfl⟩ := Event.wrote.inj (List.cons.inj hev).1 |>.2
      rw [outgoing_append, incoming_append, outgoing_wrote, incoming_wrote, List.append_nil]
      exact hlast
    · have heq' : log' ++ [Event.wrote outFd conn' sent]
          = (log₁ ++ .wrote outFd c d :: rest') ++ [ev] := by
        rw [heq]
        simp
      exact h log₁ c d rest' (List.append_inj' heq' rfl).1

/-- A log is balanced exactly if the sends have taken everything, and then all that came
in has gone out. -/
theorem Passed.balanced_iff {log : List Event} {calls : List WriteCall}
    (h : Passed fd outFd log calls) :
    (Balanced fd outFd log ↔ ∀ w ∈ calls, w.Full)
      ∧ ((∀ w ∈ calls, w.Full) → outgoing outFd log = incoming fd log) := by
  induction h with
  | nil => exact ⟨by simp [Balanced], fun _ => rfl⟩
  | @piece log calls data n conn conn' _ hn ih =>
      obtain ⟨hiff, hsame⟩ := ih
      have hcalls : (∀ w ∈ calls ++ [⟨data.length, .ok n⟩], WriteCall.Full w)
          ↔ (∀ w ∈ calls, w.Full) ∧ n = data.length := by
        rw [List.forall_mem_append, List.forall_mem_singleton]
        simp [WriteCall.Full]
      rw [balanced_piece_iff, hcalls, hiff]
      -- the piece went out whole exactly if the send took all of it
      have htake : data.take n = data ↔ n = data.length := by
        rw [List.take_eq_self_iff]
        omega
      refine ⟨and_congr_right fun hfull => ?_, fun ⟨hfull, hall⟩ => ?_⟩
      · rw [hsame hfull, List.append_cancel_left_eq, htake]
      · rw [outgoing_append, outgoing_append, outgoing_received, outgoing_wrote, incoming_append,
          incoming_append, incoming_received, incoming_wrote, hsame hfull, htake.mpr hall,
          List.append_nil, List.append_nil]

/-! ### One event -/

/-- The invariant: the pair is open and the log is one of a pass-through, or it is
closed. -/
def Passing (fd outFd : Fd) (s : Net (κ × List WriteCall)) : Prop :=
  (Linked fd outFd s ∧ Passed fd outFd s.log s.kernel.2)
    ∨ (s.fdToChannelStatus.get fd = none ∧ Ended fd outFd s.log s.kernel.2)

theorem passing_closeConnection {s : Net (κ × List WriteCall)}
    (h : Ended fd outFd s.log s.kernel.2) :
    Passing fd outFd (s.closeConnection (recording K) fd false) := by
  refine Or.inr ⟨get_closeConnection_self s fd, ?_⟩
  rw [(onlyTable_closeConnection s fd false).log, record_closeConnection]
  exact h

/-- What a `recv` leaves in the log. -/
def receivedEvents (fd : Fd) (conn : Option ChannelStatus) : RecvResult → List Event
  | .ok data => [.received fd conn data]
  | .error _ => []

/-- `recv` takes bytes in, or nothing. -/
theorem recv_recording {s s₁ : Net (κ × List WriteCall)} {len : ℕ} {r : RecvResult}
    (h : s.recv (recording K) fd len .dontwait = (r, s₁)) :
    s₁.kernel.2 = s.kernel.2
      ∧ s₁.log = s.log ++ receivedEvents fd (s.fdToChannelStatus.get fd) r := by
  cases h
  refine ⟨rfl, ?_⟩
  show s.log ++ _ = s.log ++ receivedEvents fd _ (K.recv s.kernel.1 fd len .dontwait).1
  congr 1
  cases (K.recv s.kernel.1 fd len .dontwait).1 <;> rfl

theorem Linked.onlyIO {s s' : Net (κ × List WriteCall)} (h : Linked fd outFd s)
    (hio : OnlyIO (recording K) s s') : Linked fd outFd s' := by
  unfold Linked
  rw [hio.uninterceptedFd, hio.fdToChannelStatus, hio.heap]
  exact h

/-- The loop of `transfer_unintercepted`, one piece after the other. -/
theorem transferUnintercepted_passing (fuel : ℕ) :
    ∀ {s s' : Net (κ × List WriteCall)}, Linked fd outFd s → Passed fd outFd s.log s.kernel.2 →
      s.transferUnintercepted (recording K) fuel outFd fd = some s' → Passing fd outFd s' := by
  induction fuel with
  | zero =>
      intro s s' _ _ h
      cases h
  | succ fuel ih =>
      intro s s' hlinked hpassed h
      rw [Net.transferUnintercepted] at h
      cases hr : s.recv (recording K) fd 1460 .dontwait with
      | mk r s₁ =>
          obtain ⟨hcalls₁, hlog₁⟩ := recv_recording hr
          have hlinked₁ := hlinked.onlyIO (onlyIO_recv hr)
          rw [hr] at h
          cases r with
          | error e =>
              -- nothing was received, and the pair is closed or waits for more
              rw [receivedEvents, List.append_nil] at hlog₁
              rw [← hlog₁, ← hcalls₁] at hpassed
              cases h
              split
              · exact passing_closeConnection hpassed.ended
              · exact Or.inl ⟨hlinked₁, hpassed⟩
          | ok data =>
              cases data with
              | nil =>
                  cases h
                  refine passing_closeConnection ⟨s.log, s.kernel.2, _, [], hpassed, hlog₁, ?_, ?_, ?_⟩
                  · rw [hcalls₁, List.append_nil]
                  · exact List.forall_mem_singleton.mpr ⟨_, _, rfl⟩
                  · simp
              | cons b bs =>
                  dsimp only at h
                  cases hw : s₁.write (recording K) outFd (b :: bs) with
                  | mk r₂ s₂ =>
                      obtain ⟨hcalls₂, hlog₂⟩ := log_write_recording hw
                      rw [hw] at h
                      cases r₂ with
                      | error e =>
                          rw [wroteEvents, List.append_nil] at hlog₂
                          cases h
                          rw [hcalls₁] at hcalls₂
                          refine passing_closeConnection
                            ⟨s.log, s.kernel.2, _, _, hpassed, hlog₂.trans hlog₁, hcalls₂, ?_, ?_⟩
                          · exact List.forall_mem_singleton.mpr ⟨_, _, rfl⟩
                          · exact List.forall_mem_singleton.mpr (WriteCall.failed_error _ e)
                      | ok n =>
                          have hle : n ≤ (b :: bs).length :=
                            (recording K).write_length (congrArg Prod.fst hw)
                          refine ih (hlinked₁.onlyIO (onlyIO_write hw)) ?_ h
                          rw [hcalls₂, hcalls₁, hlog₂, hlog₁]
                          exact .piece _ _ hpassed hle

/-- An event on the descriptor. -/
theorem doReceive_passing {fuel : ℕ} {s s' : Net (κ × List WriteCall)} (h : Passing fd outFd s)
    (hstep : s.doReceive (recording K) cfg fuel fd = some s') : Passing fd outFd s' := by
  rcases h with ⟨hlinked, hpassed⟩ | ⟨hclosed, hended⟩
  · obtain ⟨htagged, st, hst, hout⟩ := hlinked
    rw [Net.doReceive, hst] at hstep
    simp only [Net.receivePhase, if_pos htagged, hst, hout] at hstep
    exact transferUnintercepted_passing fuel ⟨htagged, st, hst, hout⟩ hpassed hstep
  · rw [Net.doReceive, hclosed] at hstep
    cases hstep
    exact passing_closeConnection hended

/-! ### Runs -/

theorem passing_of_run {tr : List (Step (Net (κ × List WriteCall)) Passage)}
    {s : Net (κ × List WriteCall)} (h : (passThrough K cfg fd outFd).Run tr s) :
    Passing fd outFd s := by
  refine System.Run.state_invariant (P := Passing fd outFd) ?_ ?_ h
  · rintro s ⟨hlog, hcalls, hlinked⟩
    refine Or.inl ⟨hlinked, ?_⟩
    rw [hlog, hcalls]
    exact .nil
  · intro s a s' hs hstep
    cases a with
    | event =>
        obtain ⟨fuel, hstep⟩ := hstep
        exact doReceive_passing hs hstep
    | elsewhere =>
        obtain ⟨hlog, hcalls, hpair⟩ := hstep
        unfold Passing
        rw [hlog, hcalls]
        -- a pair that is closed stays so: it has no entry that would be linked
        rcases hs with ⟨hlinked, hpassed⟩ | ⟨hclosed, hended⟩
        · rcases hpair with hclosed' | ⟨-, hlinked'⟩
          · exact Or.inr ⟨hclosed', hpassed.ended⟩
          · exact Or.inl ⟨hlinked', hpassed⟩
        · rcases hpair with hclosed' | ⟨⟨-, st, hst, -⟩, -⟩
          · exact Or.inr ⟨hclosed', hended⟩
          · rw [hclosed] at hst
            cases hst

/-- In every run of an unintercepted stream, however it is divided and whatever the sends
return: nothing is lost as long as the pair is open if and only if every send that
succeeded has taken all that it was offered. -/
theorem lossless_iff (K : Kernel κ Ctl Addr) (cfg : ConfigFile) (fd outFd : Fd)
    (tr : List (Step (Net (κ × List WriteCall)) Passage)) (s : Net (κ × List WriteCall))
    (h : (passThrough K cfg fd outFd).Run tr s) :
    Lossless fd outFd s ↔ ∀ w ∈ s.kernel.2, w.Full := by
  have hlossless : Lossless fd outFd s ↔ Balanced fd outFd s.log
      ∧ (Linked fd outFd s → outgoing outFd s.log = incoming fd s.log) :=
    ⟨fun h => ⟨h.afterSend, h.whileOpen⟩, fun h => ⟨h.1, h.2⟩⟩
  rw [hlossless]
  rcases passing_of_run h with ⟨hlinked, hpassed⟩ | ⟨hclosed, hended⟩
  · obtain ⟨hiff, hsame⟩ := hpassed.balanced_iff
    rw [hiff]
    exact ⟨fun h => h.1, fun hfull => ⟨hfull, fun _ => hsame hfull⟩⟩
  · obtain ⟨log, calls, tail, failed, hpassed, hlog, hcalls, htail, hfailed⟩ := hended
    have hfull : (∀ w ∈ s.kernel.2, w.Full) ↔ ∀ w ∈ calls, w.Full := by
      rw [hcalls, List.forall_mem_append]
      refine and_iff_left fun w hw n hn => ?_
      -- a call that failed has no number of bytes
      obtain ⟨e, he⟩ := hfailed w hw
      rw [he] at hn
      cases hn
    rw [hlog, balanced_append_iff htail, hpassed.balanced_iff.1, hfull]
    refine and_iff_left fun hlinked => ?_
    obtain ⟨-, st, hst, -⟩ := hlinked
    rw [hclosed] at hst
    cases hst

namespace Demo

/-- Two bytes come in on a tagged descriptor, and the event is handled. -/
def passed (K : Kernel (Stream Addr) Ctl Addr) : Net (Stream Addr × List WriteCall) :=
  ((linked [65, 66] {1}).doReceive (recording K) config 3 1).getD (linked [] ∅)

theorem run_passed {K : Kernel (Stream Addr) Ctl Addr}
    (hsome : ((linked [65, 66] {1}).doReceive (recording K) config 3 1).isSome = true) :
    (passThrough K config 1 2).Run [⟨linked [65, 66] {1}, .event, passed K⟩] (passed K) := by
  obtain ⟨s', hs'⟩ := Option.isSome_iff_exists.mp hsome
  have heq : passed K = s' := by rw [passed, hs', Option.getD_some]
  have hstart : (passThrough K config 1 2).init (linked [65, 66] {1}) :=
    ⟨rfl, rfl, by decide, forward, rfl, rfl⟩
  rw [heq]
  exact .snoc (.nil hstart) ⟨3, hs'⟩

/-- A send that takes one byte of two loses the other one. -/
theorem lossless_fails :
    ¬ ∀ tr s, (passThrough (slowKernel Addr Ctl) config 1 2).Run tr s → Lossless 1 2 s := by
  intro hall
  have hlossless := hall _ _ (run_passed (by decide))
  have hopen : Linked 1 2 (passed (slowKernel Addr Ctl)) := ⟨by decide, forward, by decide, by decide⟩
  have hsame := hlossless.whileOpen hopen
  revert hsame
  decide

/-- One that takes both loses nothing. -/
theorem lossless_iff_passed : Lossless 1 2 (passed (streamKernel Addr Ctl)) := by
  have hiff := lossless_iff (streamKernel Addr Ctl) config 1 2 _ _ (run_passed (by decide))
  refine hiff.mpr fun w hw => ?_
  have hcall : (passed (streamKernel Addr Ctl)).kernel.2 = [⟨2, .ok 2⟩] := rfl
  rw [hcall] at hw
  obtain rfl := List.mem_singleton.mp hw
  exact fun n hn => (Except.ok.inj hn).symm

end Demo

end Tmet.Tproxy
