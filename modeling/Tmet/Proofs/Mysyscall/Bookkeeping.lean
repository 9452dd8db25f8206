import Tmet.Lib.Transition
import Tmet.Proofs.Mysyscall.SendPath

/-!
# `Tmet.Proofs.Mysyscall.Bookkeeping`: which entry a send is counted at

`write` and `send` leave their number in `nr_send_syscall` and call `sendto`. `sendto`
counts the call at that entry of `reg_func_dict`, or at its own if the variable is 0, and
sets the variable to 0 at its end. The return after a header that was refused is before
that end: the call is not counted, and the number stays. The next `sendto` of the program
is then counted at the entry of the call that failed.

`sendto_counts` and `sendto_refused` are the two ways through an intercepted `sendto`, and
`SendCall.exec_eq` says how each of the three functions gets there. `attributed_iff` is about
whole sequences of calls of a thread: all are counted right if and only if no header was
refused.
-/

set_option autoImplicit false

namespace Tmet.Mysyscall

open Tmet.Lib Tmet.Posix

/-! ### Calls of a thread -/

/-- The entry of the function that the program calls. -/
def SendFn.nr : SendFn → Nr
  | .write => .sysWrite
  | .send => .libSend
  | .sendto _ => .sysSendto

/-- The destination that `sendto` gets from the call. -/
def SendFn.dest : SendFn → Option (Sockaddr × ℕ)
  | .write | .send => none
  | .sendto dest => dest

/-- A call of the thread on `fd`, with the tables of addresses and descriptors as they are
at that time. -/
structure ThreadCall where
  config : Config
  fd : Fd
  call : SendCall

/-- The state in which the call is made. -/
def ThreadCall.enter (c : ThreadCall) (s : Proc) : Proc := { s with config := c.config }

/-- The state in which the call returns. -/
def ThreadCall.exec (c : ThreadCall) (s : Proc) : Proc := (c.call.exec c.fd (c.enter s)).2

/-- The variable is 0, and the three functions are intercepted. -/
structure Idle (s : Proc) : Prop where
  nrSendSyscall : s.nrSendSyscall = none
  enabled : ∀ nr, s.checkIntercept nr = true

/-- A thread that makes one call after the other. -/
def thread : System Proc ThreadCall where
  init := Idle
  step s c s' := s' = c.exec s

/-- The call sends a header. -/
def ThreadCall.Hacks (c : ThreadCall) (s : Proc) : Prop :=
  TakesHeader (c.enter s) c.fd c.call.fn.dest

instance (c : ThreadCall) (s : Proc) : Decidable (c.Hacks s) :=
  inferInstanceAs (Decidable (TakesHeader _ _ _))

/-- The call sends a header, and the kernel refuses it. -/
def HeaderRefused (t : Step Proc ThreadCall) : Prop :=
  t.act.Hacks t.src ∧ ∃ e, t.act.call.header = .failed e

/-- From `s` to `s'` the entry `nr` is counted and no other, and the variable is 0 in `s'`. -/
structure Counted (nr : Nr) (isConcerned : Bool) (s s' : Proc) : Prop where
  nrSendSyscall : s'.nrSendSyscall = none
  regFuncDict : s'.regFuncDict
    = Function.update s.regFuncDict nr ((s.regFuncDict nr).counted isConcerned)

/-- The call is counted at the entry of the function that the program called. -/
def Attributed (t : Step Proc ThreadCall) : Prop :=
  Counted t.act.call.fn.nr (decide (t.act.Hacks t.src)) t.src t.dst

/-! ### The counters -/

namespace Proc

/-- A real send touches neither the counters nor the variable. -/
@[simp] theorem regFuncDict_realSendto (s : Proc) (fd : Fd) (buf : Bytes) (out : SendOutcome) :
    (s.realSendto fd buf out).2.regFuncDict = s.regFuncDict := by
  cases out <;> rfl

@[simp] theorem nrSendSyscall_realSendto (s : Proc) (fd : Fd) (buf : Bytes) (out : SendOutcome) :
    (s.realSendto fd buf out).2.nrSendSyscall = s.nrSendSyscall := by
  cases out <;> rfl

/-- `count_intercepted` is a call that is not concerned. -/
theorem regFuncDict_countIntercepted (s : Proc) (nr : Nr) :
    (s.countIntercepted nr).regFuncDict
      = Function.update s.regFuncDict nr ((s.regFuncDict nr).counted false) := rfl

/-- `log_intercepted` after it makes it a concerned one. -/
theorem regFuncDict_logIntercepted_countIntercepted {s : Proc} {nr : Nr}
    (h : s.checkIntercept nr = true) :
    ((s.countIntercepted nr).logIntercepted nr).regFuncDict
      = Function.update s.regFuncDict nr ((s.regFuncDict nr).counted true) := by
  have henabled : (s.countIntercepted nr).checkIntercept nr = true :=
    ((sameSetup_countIntercepted s nr).checkIntercept nr).trans h
  rw [logIntercepted, if_pos henabled]
  funext nr'
  by_cases hnr : nr' = nr
  · rw [hnr]
    simp [countConcerned, countIntercepted, Dict.countConcerned, Dict.countIntercepted,
      Dict.modify, RegFuncT.counted]
  · simp [countConcerned, countIntercepted, Dict.countConcerned, Dict.countIntercepted,
      Dict.modify, hnr]

end Proc

open Proc

/-- The end of `sendto`, after real sends that have changed no counter. -/
theorem sendtoEpilogue_counts {s s' : Proc} {nr : Nr} (h : ∀ nr, s.checkIntercept nr = true)
    (hdict : s'.regFuncDict = s.regFuncDict) (isConcerned : Bool) :
    Counted nr isConcerned s (sendtoEpilogue s' nr isConcerned) := by
  have henabled : s'.checkIntercept nr = true := by
    rw [checkIntercept, hdict]
    exact h nr
  rw [sendtoEpilogue, if_pos henabled]
  refine ⟨rfl, ?_⟩
  rw [← hdict]
  cases isConcerned with
  | false => exact regFuncDict_countIntercepted { s' with savedErrno := s'.errno } nr
  | true =>
      exact regFuncDict_logIntercepted_countIntercepted (s := { s' with savedErrno := s'.errno })
        henabled

/-! ### One call -/

/-- A `sendto` whose header is not refused counts the call at the entry in the variable. -/
theorem sendto_counts {s : Proc} (henabled : ∀ nr, s.checkIntercept nr = true) (fd : Fd)
    (buf : Bytes) (dest : Option (Sockaddr × ℕ)) {header : SendOutcome} (body : SendOutcome)
    (h : TakesHeader s fd dest → ∃ n, header = .accepted n) :
    Counted s.sendNr (decide (TakesHeader s fd dest)) s
      (Mysyscall.sendto s fd buf dest header body).2 := by
  rw [sendto_of_enabled (henabled _)]
  by_cases hhack : TakesHeader s fd dest
  · obtain ⟨n, rfl⟩ := h hhack
    rw [if_pos hhack, if_neg (hack_accepted_ne s.withNr fd buf.length n), decide_eq_true hhack]
    -- two real sends, and no counter is touched before the end
    refine sendtoEpilogue_counts henabled ?_ true
    rw [regFuncDict_realSendto, hack, regFuncDict_realSendto]
    rfl
  · rw [if_neg hhack, decide_eq_false hhack]
    refine sendtoEpilogue_counts henabled ?_ false
    rw [regFuncDict_realSendto]
    rfl

/-- A `sendto` whose header is refused leaves its number in the variable and counts
nothing. -/
theorem sendto_refused {s : Proc} (henabled : s.checkIntercept .sysSendto = true) {fd : Fd}
    (buf : Bytes) {dest : Option (Sockaddr × ℕ)} (e : Errno) (body : SendOutcome)
    (hhack : TakesHeader s fd dest) :
    (Mysyscall.sendto s fd buf dest (.failed e) body).2 = { s.withNr with errno := e } := by
  rw [sendto_of_enabled henabled, if_pos hhack]
  rfl

/-- `write` makes the call itself where the descriptor is not in the table, and otherwise
what it does is a `sendto` with its number in the variable. The other two are such a call
at once. -/
theorem SendCall.exec_eq {s : Proc} (h : Idle s) (c : SendCall) (fd : Fd) :
    (c.fn = .write ∧ s.config.checkFdIsConcerned fd = false
        ∧ c.exec fd s = (s.countIntercepted .sysWrite).realSendto fd c.buf c.body)
      ∨ ∃ s₀ : Proc, s₀.sendNr = c.fn.nr
        ∧ s₀ = { s with nrSendSyscall := s₀.nrSendSyscall }
        ∧ c.exec fd s = Mysyscall.sendto s₀ fd c.buf c.fn.dest c.header c.body := by
  rw [SendCall.exec]
  cases hfn : c.fn with
  | write =>
      cases hfd : s.config.checkFdIsConcerned fd with
      | false =>
          refine Or.inl ⟨rfl, rfl, ?_⟩
          show Mysyscall.write s fd c.buf c.header c.body = _
          rw [Mysyscall.write, h.enabled, hfd]
          rfl
      | true =>
          refine Or.inr ⟨{ s with nrSendSyscall := some .sysWrite }, rfl, rfl, ?_⟩
          show Mysyscall.write s fd c.buf c.header c.body = _
          rw [Mysyscall.write, h.enabled, hfd]
          rfl
  | send => exact Or.inr ⟨{ s with nrSendSyscall := some .libSend }, rfl, rfl, rfl⟩
  | sendto dest =>
      -- with the variable at 0, `sendto` takes its own number
      refine Or.inr ⟨s, ?_, rfl, rfl⟩
      rw [sendNr, h.nrSendSyscall]
      rfl

namespace ThreadCall

variable {s : Proc} {c : ThreadCall}

theorem idle_enter (h : Idle s) (c : ThreadCall) : Idle (c.enter s) :=
  ⟨h.nrSendSyscall, h.enabled⟩

/-- A `write` on a descriptor outside the table sends no header. -/
theorem not_hacks_of_write (hfn : c.call.fn = .write)
    (hfd : (c.enter s).config.checkFdIsConcerned c.fd = false) : ¬ c.Hacks s := by
  intro hhack
  have hport : ((c.enter s).config.checkFdIsConcernedWithAddr c.fd).sinPort ≠ 0 := by
    simpa [Hacks, TakesHeader, hfn, SendFn.dest] using hhack
  rw [Config.checkFdIsConcerned_of_port hport] at hfd
  exact absurd hfd (by simp)

/-- A call whose header is not refused is counted where it should be. -/
theorem attributed_of_not_refused (h : Idle s) (hok : ¬ HeaderRefused ⟨s, c, c.exec s⟩) :
    Attributed ⟨s, c, c.exec s⟩ := by
  have hheader : c.Hacks s → ∃ n, c.call.header = .accepted n := by
    intro hhack
    cases hout : c.call.header with
    | accepted n => exact ⟨n, rfl⟩
    | failed e => exact absurd ⟨hhack, e, hout⟩ hok
  rcases (c.call).exec_eq (idle_enter h c) c.fd with
    ⟨hfn, hfd, hexec⟩ | ⟨s₀, hnr, hs₀, hexec⟩
  -- a `write` outside the table is counted by `write` itself
  · have hhack := not_hacks_of_write hfn hfd
    constructor
    · show (c.call.exec c.fd (c.enter s)).2.nrSendSyscall = none
      rw [hexec, nrSendSyscall_realSendto]
      exact h.nrSendSyscall
    · show (c.call.exec c.fd (c.enter s)).2.regFuncDict = _
      rw [hexec, regFuncDict_realSendto, regFuncDict_countIntercepted, decide_eq_false hhack, hfn]
      rfl
  -- the others are counted at the end of `sendto`, at the number in the variable
  · have henabled : ∀ nr, s₀.checkIntercept nr = true := by
      rw [hs₀]
      exact h.enabled
    have htakes : TakesHeader s₀ c.fd c.call.fn.dest ↔ c.Hacks s := by
      rw [hs₀]
      rfl
    have hcounted := sendto_counts henabled c.fd c.call.buf c.call.fn.dest c.call.body
      fun ht => hheader (htakes.mp ht)
    rw [hnr, ← hexec] at hcounted
    have hdict : s₀.regFuncDict = s.regFuncDict := by
      rw [hs₀]
      rfl
    refine ⟨hcounted.nrSendSyscall, ?_⟩
    have heq := hcounted.regFuncDict
    rw [hdict, decide_eq_decide.mpr htakes] at heq
    exact heq

/-- A call whose header is refused leaves a number in the variable. -/
theorem nrSendSyscall_of_refused (h : Idle s) (hbad : HeaderRefused ⟨s, c, c.exec s⟩) :
    (c.exec s).nrSendSyscall = some c.call.fn.nr := by
  obtain ⟨hhack, e, hout⟩ := hbad
  rcases (c.call).exec_eq (idle_enter h c) c.fd with
    ⟨hfn, hfd, -⟩ | ⟨s₀, hnr, hs₀, hexec⟩
  · exact absurd hhack (not_hacks_of_write hfn hfd)
  · have henabled : s₀.checkIntercept .sysSendto = true := by
      rw [hs₀]
      exact h.enabled .sysSendto
    have htakes : TakesHeader s₀ c.fd c.call.fn.dest := by
      rw [hs₀]
      exact hhack
    show (c.call.exec c.fd (c.enter s)).2.nrSendSyscall = _
    rw [hexec, hout, sendto_refused henabled _ e _ htakes]
    exact congrArg some hnr

/-- A call whose header is not refused leaves the state idle. -/
theorem idle_exec (h : Idle s) (hok : ¬ HeaderRefused ⟨s, c, c.exec s⟩) : Idle (c.exec s) := by
  have hattr := attributed_of_not_refused h hok
  refine ⟨hattr.nrSendSyscall, fun nr => ?_⟩
  have hdict : (c.exec s).regFuncDict = Function.update s.regFuncDict c.call.fn.nr
      ((s.regFuncDict c.call.fn.nr).counted (decide (c.Hacks s))) := hattr.regFuncDict
  show ((c.exec s).regFuncDict nr).enabled = true
  rw [hdict]
  by_cases hnr : nr = c.call.fn.nr
  · rw [hnr, Function.update_self]
    exact h.enabled _
  · rw [Function.update_of_ne hnr]
    exact h.enabled nr

/-- One call of an idle thread. -/
theorem attributed_iff_not_refused (h : Idle s) :
    Attributed ⟨s, c, c.exec s⟩ ↔ ¬ HeaderRefused ⟨s, c, c.exec s⟩ := by
  constructor
  · intro hattr hbad
    have hnr := nrSendSyscall_of_refused h hbad
    have hnone : (c.exec s).nrSendSyscall = none := hattr.nrSendSyscall
    rw [hnone] at hnr
    exact absurd hnr (by simp)
  · exact attributed_of_not_refused h

end ThreadCall

/-! ### Sequences of calls -/

/-- In a sequence of calls every call is counted at the entry of the function that the
program called and at no other, and leaves `nr_send_syscall` at 0, if and only if the kernel
refuses no header. -/
theorem attributed_iff (tr : List (Step Proc ThreadCall)) (s : Proc) (h : thread.Run tr s) :
    (∀ t ∈ tr, Attributed t) ↔ ∀ t ∈ tr, ¬ HeaderRefused t := by
  -- without a refused header every call starts in an idle state
  refine (System.Run.invariant (P := fun tr s =>
    ((∀ t ∈ tr, Attributed t) ↔ ∀ t ∈ tr, ¬ HeaderRefused t)
      ∧ ((∀ t ∈ tr, ¬ HeaderRefused t) → Idle s)) ?_ ?_ h).1
  · intro s hs
    exact ⟨by simp, fun _ => hs⟩
  · intro tr s c s' _ ih hstep
    obtain rfl : s' = c.exec s := hstep
    obtain ⟨hiff, hidle⟩ := ih
    simp only [List.mem_append, List.mem_singleton, or_imp, forall_and, forall_eq]
    constructor
    · rw [hiff]
      exact and_congr_right fun hok => ThreadCall.attributed_iff_not_refused (hidle hok)
    · rintro ⟨hok, hlast⟩
      exact ThreadCall.idle_exec (hidle hok) hlast

/-! ### A refused header -/

/-- A `write` on descriptor 3, whose header the kernel refuses, and a `sendto` on
descriptor 4, which is connected to nothing concerned. -/
def refusedWrite : ThreadCall := ⟨connected.config, 3, ⟨.write, [65], .failed EAGAIN, .accepted 1⟩⟩
def otherSendto : ThreadCall :=
  ⟨connected.config, 4, ⟨.sendto none, [66], .accepted 8, .accepted 1⟩⟩

/-- The two calls. -/
def afterRefusal : List (Step Proc ThreadCall) :=
  [⟨connected, refusedWrite, refusedWrite.exec connected⟩,
    ⟨refusedWrite.exec connected, otherSendto,
      otherSendto.exec (refusedWrite.exec connected)⟩]

theorem idle_connected : Idle connected :=
  ⟨rfl, fun _ => RegFuncT.enabled_intercepted⟩

theorem run_afterRefusal :
    thread.Run afterRefusal (otherSendto.exec (refusedWrite.exec connected)) :=
  .snoc (.snoc (.nil idle_connected) rfl) rfl

/-- The first call leaves `SYS_write` behind and is not counted. The second one is counted
as a `write`. -/
theorem attributed_fails :
    ¬ ∀ tr s, thread.Run tr s → ∀ t ∈ tr, Attributed t := by
  intro hall
  have hlast := hall _ _ run_afterRefusal _ (List.mem_cons_of_mem _ List.mem_cons_self)
  have hcount := congrFun hlast.regFuncDict .sysWrite
  exact absurd (congrArg RegFuncT.count hcount) (by decide)

/-- Of that sequence the right attribution fails, as a header was refused. -/
theorem attributed_iff_afterRefusal :
    ¬ ∀ t ∈ afterRefusal, Attributed t := by
  intro hall
  have hok := (attributed_iff afterRefusal _ run_afterRefusal).mp hall _ List.mem_cons_self
  exact hok ⟨by decide, EAGAIN, rfl⟩

end Tmet.Mysyscall
