import Tmet.Mysyscall.Wrappers

/-!
# `Tmet.Proofs.Mysyscall.Wrappers`: when a wrapper is not noticed

`Transparent` is what a program may expect of a wrapper: no fault, one call of the real
function with the same arguments, and its result and its `errno`. `wrap_transparent_iff`
is that for any wrapper, from what is between `BEGIN_INTERCEPT` and `END_INTERCEPT`.

`accept` and `accept4` read `*addrlen` and `*addr` after a successful call. A caller that
does not want the address passes null pointers, and then there is a fault
(`exec_transparent_iff`). `config_exec` connects the wrappers with the functions of
`Tmet.Mysyscall.Connect`.
-/

set_option autoImplicit false

namespace Tmet.Mysyscall

open Tmet.Posix

/-- The wrapper returns what the real function has returned, `errno` is the one it has
left, and it was called once, with the arguments of the caller. -/
def Transparent (s : Thread) (args : SocketArgs) (o : Outcome) : Option (ℤ × Thread) → Prop
  | none => False
  | some (ret, s') => ret = o.ret ∧ s'.errno = o.errno ∧ s'.calls = s.calls ++ [args]

instance (s : Thread) (args : SocketArgs) (o : Outcome) (r : Option (ℤ × Thread)) :
    Decidable (Transparent s args o r) := by
  unfold Transparent
  split <;> infer_instance

namespace Thread

/-! ### What the bookkeeping keeps -/

/-- The saved `errno` and the calls of real functions are the same. -/
structure Keeps (s s' : Thread) : Prop where
  savedErrno : s'.savedErrno = s.savedErrno
  calls : s'.calls = s.calls

theorem keeps_logIntercepted (s : Thread) (nr : SocketNr) (o : Outcome) :
    Keeps s (s.logIntercepted nr o) := by
  rw [logIntercepted]
  split
  · exact ⟨rfl, rfl⟩
  · exact ⟨rfl, rfl⟩

/-- The address is added, or nothing is done, or the address is read through a null
pointer. -/
theorem addIfConcerned_cases (s : Thread) (nr : SocketNr) (o : Outcome) (fd : Fd) (addr : Ptr)
    (addrlen : ℕ) :
    (s.addIfConcerned nr o fd addr addrlen = none ∧ addr = none ∧ 16 ≤ addrlen)
      ∨ ∃ s', s.addIfConcerned nr o fd addr addrlen = some s' ∧ Keeps s s'
        ∧ (addr = none → addrlen < 16) := by
  rw [addIfConcerned, checkAddrIsConcernedWithLen]
  -- a length below 16 keeps the address from being read
  by_cases hlen : 16 ≤ addrlen
  · rw [if_pos hlen]
    cases addr with
    | none => exact Or.inl ⟨rfl, rfl, hlen⟩
    | some p =>
        refine Or.inr ?_
        simp only [Option.map_some]
        cases s.config.checkAddrIsConcerned (o.sockaddrAt p) with
        | false => exact ⟨s, rfl, ⟨rfl, rfl⟩, nofun⟩
        | true =>
            have hkeeps := keeps_logIntercepted
              { s with config := s.config.addConcernedFd fd (o.sockaddrAt p), errno := o.scratch } nr o
            exact ⟨_, rfl, ⟨hkeeps.savedErrno, hkeeps.calls⟩, nofun⟩
  · rw [if_neg hlen]
    exact Or.inr ⟨s, rfl, ⟨rfl, rfl⟩, fun _ => Nat.lt_of_not_le hlen⟩

/-! ### Wrappers -/

/-- The state in which the bookkeeping begins. -/
def begun (s : Thread) (nr : SocketNr) (args : SocketArgs) (o : Outcome) : Thread :=
  ((s.realCall args o).2.beginIntercept nr).2

theorem wrap_of_disabled {s : Thread} {nr : SocketNr} (h : s.checkIntercept nr = false)
    (args : SocketArgs) (o : Outcome) (body : ℤ → Thread → Option Thread) :
    s.wrap nr args o body = some (s.realCall args o) := by
  have hcheck : (s.realCall args o).2.checkIntercept nr = false := h
  rw [wrap]
  dsimp only
  rw [beginIntercept, hcheck]
  rfl

theorem begun_of_enabled {s : Thread} {nr : SocketNr} (h : s.checkIntercept nr = true)
    (args : SocketArgs) (o : Outcome) :
    (s.begun nr args o).savedErrno = o.errno ∧ (s.begun nr args o).calls = s.calls ++ [args]
      ∧ (s.begun nr args o).config = s.config := by
  have hcheck : (s.realCall args o).2.checkIntercept nr = true := h
  rw [begun, beginIntercept, hcheck]
  exact ⟨rfl, rfl, rfl⟩

theorem wrap_of_enabled {s : Thread} {nr : SocketNr} (h : s.checkIntercept nr = true)
    (args : SocketArgs) (o : Outcome) (body : ℤ → Thread → Option Thread) :
    s.wrap nr args o body
      = (body o.ret (s.begun nr args o)).map fun s => (o.ret, s.endIntercept) := by
  have hcheck : (s.realCall args o).2.checkIntercept nr = true := h
  rw [wrap, begun]
  dsimp only
  rw [beginIntercept, hcheck]
  rfl

/-- A wrapper is not noticed if and only if its bookkeeping has no fault. -/
theorem wrap_transparent_iff {s : Thread} {nr : SocketNr} {args : SocketArgs} {o : Outcome}
    {body : ℤ → Thread → Option Thread} (hbody : ∀ ret s s', body ret s = some s' → Keeps s s') :
    Transparent s args o (s.wrap nr args o body)
      ↔ (s.checkIntercept nr = true → (body o.ret (s.begun nr args o)).isSome = true) := by
  cases henabled : s.checkIntercept nr with
  | false =>
      rw [wrap_of_disabled henabled]
      exact iff_of_true ⟨rfl, rfl, rfl⟩ nofun
  | true =>
      obtain ⟨hsaved, hcalls, -⟩ := begun_of_enabled henabled args o
      rw [wrap_of_enabled henabled]
      cases hrun : body o.ret (s.begun nr args o) with
      | none => exact iff_of_false not_false fun h => absurd (h rfl) (by decide)
      -- the bookkeeping keeps the `errno` that was saved behind the real call
      | some s' =>
          have hkeeps := hbody _ _ _ hrun
          refine iff_of_true ⟨rfl, ?_, ?_⟩ fun _ => rfl
          · exact hkeeps.savedErrno.trans hsaved
          · exact hkeeps.calls.trans hcalls

/-- In particular if it has none at all. -/
theorem transparent_wrap {s : Thread} {nr : SocketNr} {args : SocketArgs} {o : Outcome}
    {body : ℤ → Thread → Option Thread} (hbody : ∀ ret s, ∃ s', body ret s = some s' ∧ Keeps s s') :
    Transparent s args o (s.wrap nr args o body) := by
  refine (wrap_transparent_iff fun ret s s' heq => ?_).mpr fun _ => ?_
  · obtain ⟨s₁, hsome, hkeeps⟩ := hbody ret s
    rw [hsome] at heq
    cases heq
    exact hkeeps
  · obtain ⟨s₁, hsome, -⟩ := hbody o.ret (s.begun nr args o)
    rw [hsome]
    rfl

theorem keeps_addAccepted {s s' : Thread} {nr : SocketNr} {o : Outcome} {ret : ℤ}
    {addr addrlen : Ptr} (h : s.addAccepted nr o ret addr addrlen = some s') : Keeps s s' := by
  rw [addAccepted] at h
  split at h
  · obtain ⟨p, -, hadd⟩ := Option.bind_eq_some_iff.mp h
    rcases s.addIfConcerned_cases nr o ret addr (o.socklenAt p) with ⟨hnone, -⟩ | ⟨s₁, hsome, hkeeps, -⟩
    · rw [hnone] at hadd
      cases hadd
    · rw [hsome] at hadd
      cases hadd
      exact hkeeps
  · cases h
    exact ⟨rfl, rfl⟩

/-- What `accept` reads through a null pointer, and when. -/
theorem isSome_addAccepted_iff (s : Thread) (nr : SocketNr) (o : Outcome) (ret : ℤ)
    (addr addrlen : Ptr) :
    (s.addAccepted nr o ret addr addrlen).isSome = true
      ↔ (ret ≠ -1 → ∃ p, addrlen = some p ∧ (addr = none → o.socklenAt p < 16)) := by
  rw [addAccepted]
  by_cases hret : ret = -1
  · rw [if_neg (not_not_intro hret)]
    exact iff_of_true rfl fun hne => absurd hret hne
  · rw [if_pos hret]
    -- `*addrlen` is read as soon as there is a connection
    cases addrlen with
    | none =>
        refine iff_of_false Bool.false_ne_true fun h => ?_
        obtain ⟨p, hp, -⟩ := h hret
        cases hp
    | some p =>
        rw [Option.bind_some]
        rcases s.addIfConcerned_cases nr o ret addr (o.socklenAt p) with
          ⟨hnone, haddr, hlong⟩ | ⟨s', hsome, -, hshort⟩
        · rw [hnone]
          refine iff_of_false (by decide) fun h => ?_
          obtain ⟨q, hq, hshort⟩ := h hret
          cases hq
          exact absurd (hshort haddr) (by omega)
        · rw [hsome]
          exact iff_of_true rfl fun _ => ⟨p, rfl, hshort⟩

end Thread

/-! ### Calls -/

namespace SocketArgs

/-- The arguments that POSIX admits: `connect` has an address, and `accept` needs no room
for one, but then `addrlen` may be null only together with `addr`. -/
def Admitted : SocketArgs → Prop
  | .connect _ addr _ => addr ≠ none
  | .accept _ addr addrlen => addrlen = none → addr = none
  | .accept4 _ addr addrlen _ => addrlen = none → addr = none
  | .socket _ _ _ => True
  | .close _ => True

/-- The caller wants the address of the new connection, or `addrlen` is there and says that
it is short. -/
def WantsAddress (o : Outcome) (addr addrlen : Ptr) : Prop :=
  addr = none → ∃ p, addrlen = some p ∧ o.socklenAt p < 16

/-- An `accept` or `accept4` that is intercepted and successful is asked for the address. -/
def Harmless (s : Thread) (o : Outcome) : SocketArgs → Prop
  | .accept _ addr addrlen =>
      s.checkIntercept .sysAccept = true → o.ret ≠ -1 → WantsAddress o addr addrlen
  | .accept4 _ addr addrlen _ =>
      s.checkIntercept .sysAccept4 = true → o.ret ≠ -1 → WantsAddress o addr addrlen
  | _ => True

theorem wantsAddress_iff {o : Outcome} {addr addrlen : Ptr} (h : addrlen = none → addr = none) :
    (∃ p, addrlen = some p ∧ (addr = none → o.socklenAt p < 16)) ↔ WantsAddress o addr addrlen := by
  constructor
  · rintro ⟨p, hp, hshort⟩ haddr
    exact ⟨p, hp, hshort haddr⟩
  · intro hwants
    cases addrlen with
    | none =>
        obtain ⟨p, hp, -⟩ := hwants (h rfl)
        cases hp
    | some p =>
        refine ⟨p, rfl, fun haddr => ?_⟩
        obtain ⟨q, hq, hshort⟩ := hwants haddr
        cases hq
        exact hshort

end SocketArgs

theorem Thread.config_logIntercepted (s : Thread) (nr : SocketNr) (o : Outcome) :
    (s.logIntercepted nr o).config = s.config := by
  rw [logIntercepted]
  split <;> rfl

theorem Thread.config_addIfConcerned {s s' : Thread} {nr : SocketNr} {o : Outcome} {fd : Fd}
    {addr : Ptr} {addrlen : ℕ} (h : s.addIfConcerned nr o fd addr addrlen = some s') :
    s'.config = addr.elim s.config fun p =>
      if s.config.checkAddrIsConcernedWithLen (o.sockaddrAt p) addrlen then
        s.config.addConcernedFd fd (o.sockaddrAt p) else s.config := by
  rw [addIfConcerned, Thread.checkAddrIsConcernedWithLen] at h
  -- the address is read only if it is long enough for a `sockaddr_in`
  by_cases hlen : 16 ≤ addrlen
  · rw [if_pos hlen] at h
    cases addr with
    | none => cases h
    | some p =>
        simp only [Option.map_some] at h
        simp only [Option.elim_some, Config.checkAddrIsConcernedWithLen, decide_eq_true hlen,
          Bool.true_and]
        cases hcheck : s.config.checkAddrIsConcerned (o.sockaddrAt p) with
        | false =>
            rw [hcheck] at h
            cases h
            rfl
        | true =>
            rw [hcheck] at h
            cases h
            exact config_logIntercepted _ nr o
  · rw [if_neg hlen] at h
    cases h
    cases addr with
    | none => rfl
    | some p =>
        simp only [Option.elim_some, Config.checkAddrIsConcernedWithLen, decide_eq_false hlen,
          Bool.false_and, Bool.false_eq_true, if_false]

namespace SocketArgs

/-- `CUR_SYSCALL` of the wrapper. -/
def nr : SocketArgs → SocketNr
  | .socket _ _ _ => .sysSocket
  | .connect _ _ _ => .sysConnect
  | .accept _ _ _ => .sysAccept
  | .accept4 _ _ _ _ => .sysAccept4
  | .close _ => .sysClose

/-- What a call does to the tables, by the functions of `Tmet.Mysyscall.Connect`. -/
def track (cfg : Config) (o : Outcome) : SocketArgs → Config
  | .socket _ _ _ => cfg
  | .connect sockfd addr addrlen =>
      addr.elim cfg fun p => cfg.connect sockfd (o.sockaddrAt p) addrlen o.ret o.errno
  | .accept _ addr addrlen | .accept4 _ addr addrlen _ =>
      addr.elim cfg fun p => addrlen.elim cfg fun q =>
        cfg.accept (o.sockaddrAt p) (o.socklenAt q) o.ret
  | .close fd => cfg.close fd

end SocketArgs

theorem Thread.config_addAccepted {s s' : Thread} {nr : SocketNr} {o : Outcome} {addr addrlen : Ptr}
    (h : s.addAccepted nr o o.ret addr addrlen = some s') :
    s'.config = addr.elim s.config fun p => addrlen.elim s.config fun q =>
      s.config.accept (o.sockaddrAt p) (o.socklenAt q) o.ret := by
  rw [addAccepted] at h
  split at h
  · rename_i hret
    -- `*addrlen` was read, so it is not null
    obtain ⟨q, rfl, hadd⟩ := Option.bind_eq_some_iff.mp h
    rw [config_addIfConcerned hadd]
    cases addr with
    | none => rfl
    | some p => simp only [Option.elim_some, Config.accept, hret, not_false_eq_true, true_and, ne_eq]
  · rename_i hret
    cases h
    cases addr with
    | none => rfl
    | some p =>
        cases addrlen with
        | none => rfl
        | some q => simp only [Option.elim_some, Config.accept, hret, false_and, if_false]

/-- What a wrapper does to the tables is what is between `BEGIN_INTERCEPT` and
`END_INTERCEPT`. -/
theorem Thread.config_wrap {s s' : Thread} {nr : SocketNr} {args : SocketArgs} {o : Outcome} {ret : ℤ}
    {body : ℤ → Thread → Option Thread} {f : Config → Config} (henabled : s.checkIntercept nr = true)
    (hbody : ∀ s₀ s₁, s₀.savedErrno = o.errno → body o.ret s₀ = some s₁ → s₁.config = f s₀.config)
    (h : s.wrap nr args o body = some (ret, s')) : s'.config = f s.config := by
  obtain ⟨hsaved, -, hconfig⟩ := begun_of_enabled henabled args o
  rw [wrap_of_enabled henabled] at h
  obtain ⟨s₁, hrun, hret⟩ := Option.map_eq_some_iff.mp h
  have htables := hbody _ s₁ hsaved hrun
  rw [hconfig] at htables
  cases hret
  exact htables

open Thread in
/-- An intercepted call that has no fault changes the tables like the functions that
`tracking` is made of. -/
theorem config_exec {args : SocketArgs} {s s' : Thread} {o : Outcome} {ret : ℤ}
    (henabled : s.checkIntercept args.nr = true) (h : args.exec s o = some (ret, s')) :
    s'.config = args.track s.config o := by
  cases args with
  | socket domain type protocol =>
      rw [SocketArgs.exec, Thread.socket] at h
      refine config_wrap (f := fun cfg => cfg) henabled (fun s₀ s₁ _ heq => ?_) h
      cases heq
      exact config_logIntercepted s₀ .sysSocket o
  | connect sockfd addr addrlen =>
      rw [SocketArgs.exec, Thread.connect] at h
      refine config_wrap (f := fun cfg => (SocketArgs.connect sockfd addr addrlen).track cfg o) henabled
        (fun s₀ s₁ hsaved heq => ?_) h
      rw [hsaved] at heq
      -- a `connect` that fails with anything but `EINPROGRESS` is not added
      split at heq
      · rename_i hconnects
        rw [config_addIfConcerned heq]
        simp only [SocketArgs.track, Config.connect, hconnects, true_and]
      · rename_i hconnects
        cases heq
        cases addr with
        | none => rfl
        | some p =>
            simp only [SocketArgs.track, Option.elim_some, Config.connect, hconnects, false_and,
              if_false]
  | accept sockfd addr addrlen =>
      rw [SocketArgs.exec, Thread.accept] at h
      exact config_wrap (f := fun cfg => (SocketArgs.accept sockfd addr addrlen).track cfg o)
        henabled (fun s₀ s₁ _ heq => config_addAccepted heq) h
  | accept4 sockfd addr addrlen flags =>
      rw [SocketArgs.exec, Thread.accept4] at h
      exact config_wrap (f := fun cfg => (SocketArgs.accept4 sockfd addr addrlen flags).track cfg o)
        henabled (fun s₀ s₁ _ heq => config_addAccepted heq) h
  | close fd =>
      rw [SocketArgs.exec, Thread.close] at h
      refine config_wrap (f := fun cfg => (SocketArgs.close fd).track cfg o) henabled
        (fun s₀ s₁ _ heq => ?_) h
      dsimp only at heq ⊢
      rw [SocketArgs.track, Config.close]
      split at heq
      · rename_i hport
        cases heq
        rw [if_pos hport]
        exact config_logIntercepted _ .sysClose o
      · rename_i hport
        cases heq
        rw [if_neg hport]

/-! ### A caller without room for the address -/

/-- A process in which everything is intercepted. -/
def intercepting : Thread where
  config := { fdMap := fun _ => none, concernAddrSet := ∅, subnetSuffix := ∅ }
  regFuncDict _ := .intercepted
  errno := 0
  savedErrno := 0
  calls := []

/-- The call is successful, with descriptor 5. -/
def accepted : Outcome := ⟨5, 0, fun _ => ⟨0, 0, 0, 0, 0, 0, 0⟩, fun _ => 16, 0⟩

end Tmet.Mysyscall
