import Tmet.Proofs.Mysyscall.Router

/-!
# `Tmet.Proofs.Mysyscall.Increments`: commands that are not well formed

Every frame of the stream has a header and something behind it, which may be anything:
no command that is known, too few arguments, no number, a comment. `handles_iff` says
when the loop deals with all of them, up to the end of the connection, and calls
`set_time_increment` for the decimal numbers that fit in a `long` and for nothing else.

`wanted` is the number that the tokens ask for, and `increment` the one that
`inc_time_ns` takes. They are the same for a decimal number that fits in an `int`. For
other texts `stoi` throws, or it takes a number from the front of the text
(`proper_iff`).
-/

set_option autoImplicit false

namespace Tmet.Mysyscall.Router

open Tmet.Lib Tmet.Posix Tmet.Tproxy

/-! ### Numbers -/

/-- The value of a sequence of digits. -/
def digitsValue (digits : Bytes) : ℤ :=
  digits.foldl (fun n b => 10 * n + ((b.toNat : ℤ) - 0x30)) 0

/-- Decimal digits, at least one. -/
def IsDigits (digits : Bytes) : Prop := digits ≠ [] ∧ ∀ b ∈ digits, isDigit b = true

instance (digits : Bytes) : Decidable (IsDigits digits) := inferInstanceAs (Decidable (_ ∧ _))

/-- The number fits in an `int`. -/
def FitsInt (n : ℤ) : Prop := -2 ^ 31 ≤ n ∧ n < 2 ^ 31

/-- The number fits in a `long`. -/
def FitsLong (n : ℤ) : Prop := -2 ^ 63 ≤ n ∧ n < 2 ^ 63

instance (n : ℤ) : Decidable (FitsInt n) := inferInstanceAs (Decidable (_ ∧ _))

instance (n : ℤ) : Decidable (FitsLong n) := inferInstanceAs (Decidable (_ ∧ _))

theorem FitsInt.fitsLong {n : ℤ} (h : FitsInt n) : FitsLong n := by
  unfold FitsInt FitsLong at *
  omega

theorem not_isSpace_of_isDigit {b : UInt8} (h : isDigit b = true) : isSpace b = false := by
  simp only [isDigit, Bool.and_eq_true, decide_eq_true_eq, UInt8.le_iff_toNat_le] at h
  simp [isSpace, ← UInt8.toNat_inj, UInt8.le_iff_toNat_le]
  simp at h
  omega

/-- The sign in front of a text, and what is behind it. -/
def signOf (text : Bytes) : Bool × Bytes :=
  match text with
  | 0x2d :: rest => (true, rest)
  | 0x2b :: rest => (false, rest)
  | _ => (false, text)

/-- The value of digits behind a sign. -/
def signedValue (negative : Bool) (digits : Bytes) : ℤ :=
  if negative then -digitsValue digits else digitsValue digits

/-- A decimal integer: digits, with or without a sign. -/
def decimal (text : Bytes) : Option ℤ :=
  let (negative, digits) := signOf text
  if IsDigits digits then some (signedValue negative digits) else none

/-- `stoi`, with names for its parts. -/
theorem stoi_eq (text : Bytes) :
    stoi text =
      let (negative, rest) := signOf (text.dropWhile isSpace)
      let digits := rest.takeWhile isDigit
      if digits = [] ∨ signedValue negative digits < -2 ^ 31
          ∨ 2 ^ 31 ≤ signedValue negative digits then none
      else some (signedValue negative digits) := rfl

/-- There is no white space in front of a decimal number. -/
theorem dropWhile_isSpace_of_isDigits {text : Bytes} (h : IsDigits (signOf text).2) :
    text.dropWhile isSpace = text := by
  match text, h with
  | [], _ => rfl
  | b :: rest, h =>
      -- the first character is a sign or a digit
      have hspace : isSpace b = false := by
        by_cases hminus : b = 0x2d
        · rw [hminus]
          decide
        · by_cases hplus : b = 0x2b
          · rw [hplus]
            decide
          · have hsign : signOf (b :: rest) = (false, b :: rest) := by simp [signOf, hminus, hplus]
            rw [hsign] at h
            exact not_isSpace_of_isDigit (h.2 b List.mem_cons_self)
      rw [List.dropWhile_cons, hspace]
      rfl

/-- On a decimal number `stoi` gives its value, or throws if it does not fit. -/
theorem stoi_of_decimal {text : Bytes} {n : ℤ} (h : decimal text = some n) :
    stoi text = if FitsInt n then some n else none := by
  rw [decimal] at h
  dsimp only at h
  split at h
  · rename_i hdigits
    obtain rfl := Option.some.inj h
    -- the digits go up to the end, so that `stoi` stops nowhere before it
    have hall : (signOf text).2.takeWhile isDigit = (signOf text).2 :=
      List.takeWhile_eq_self_iff.mpr hdigits.2
    rw [stoi_eq, dropWhile_isSpace_of_isDigits hdigits]
    dsimp only
    rw [hall]
    generalize signedValue (signOf text).1 (signOf text).2 = value
    by_cases hfits : FitsInt value
    · rw [if_pos hfits, if_neg]
      rintro (hnil | hlow | hhigh)
      · exact hdigits.1 hnil
      · exact absurd hfits.1 (by omega)
      · exact absurd hfits.2 (by omega)
    · rw [if_neg hfits, if_pos]
      unfold FitsInt at hfits
      exact Or.inr (by omega)
  · cases h

/-! ### The argument of a command -/

/-- The number with which `inc_time_ns` calls `set_time_increment`, if it does. -/
def increment (tokens : List Bytes) : Option ℤ :=
  match tokens with
  | cmd :: ns :: _ => if textOf cmd = "inc_time_ns" then stoi ns else none
  | _ => none

/-- The number that a command asks for: the first argument of `inc_time_ns`, if it is a
decimal integer that fits in a `long`. -/
def wanted (tokens : List Bytes) : Option ℤ :=
  match tokens with
  | cmd :: ns :: _ =>
      if textOf cmd = "inc_time_ns" then (decimal ns).filter fun n => decide (FitsLong n) else none
  | _ => none

/-- If the command is `inc_time_ns` with an argument, then it is a decimal integer that
fits in an `int`. -/
def Proper (tokens : List Bytes) : Prop :=
  ∀ cmd ns more, tokens = cmd :: ns :: more → textOf cmd = "inc_time_ns" →
    ∃ n, decimal ns = some n ∧ FitsInt n

/-- The clock with the increment, if there is one. -/
def advance (t : Timing) (n : Option ℤ) : Timing := n.elim t t.setTimeIncrement

/-- The call of a command is that of `set_time_increment`, or no call at all. -/
theorem call_of_not_throws {tokens : List Bytes} (h : ¬ Throws tokens) (t : Timing) :
    call tokens t = some (advance t (increment tokens)) := by
  rw [call]
  rcases tokens with _ | ⟨cmd, _ | ⟨ns, more⟩⟩
  · rfl
  · split
    · rfl
    · rfl
  · by_cases hname : textOf cmd = "inc_time_ns"
    · cases hns : stoi ns with
      | none => exact absurd ⟨cmd, ns, more, rfl, hname, hns⟩ h
      | some n => simp [hname, incTimeNs, hns, increment, advance]
    · simp [hname, increment, advance]

/-- The number is the one that is asked for, and there is no exception, exactly for such
commands. -/
theorem proper_iff {tokens : List Bytes} :
    Proper tokens ↔ ¬ Throws tokens ∧ increment tokens = wanted tokens := by
  constructor
  · intro h
    refine ⟨?_, ?_⟩
    · rintro ⟨cmd, ns, more, rfl, hname, hns⟩
      obtain ⟨n, hdecimal, hfits⟩ := h cmd ns more rfl hname
      rw [stoi_of_decimal hdecimal, if_pos hfits] at hns
      cases hns
    · match tokens, h with
      | [], _ => rfl
      | [cmd], _ => rfl
      | cmd :: ns :: more, h =>
          rw [increment, wanted]
          by_cases hname : textOf cmd = "inc_time_ns"
          · obtain ⟨n, hdecimal, hfits⟩ := h cmd ns more rfl hname
            rw [if_pos hname, if_pos hname, stoi_of_decimal hdecimal, if_pos hfits, hdecimal,
              Option.filter_some, if_pos (by simpa using hfits.fitsLong)]
          · rw [if_neg hname, if_neg hname]
  · rintro ⟨hthrows, hsame⟩ cmd ns more rfl hname
    rw [increment, wanted, if_pos hname, if_pos hname] at hsame
    cases hns : stoi ns with
    | none => exact absurd ⟨cmd, ns, more, rfl, hname, hns⟩ hthrows
    | some n =>
        rw [hns] at hsame
        obtain ⟨hdecimal, -⟩ := Option.filter_eq_some_iff.mp hsame.symm
        refine ⟨n, hdecimal, ?_⟩
        -- a number that does not fit would have thrown
        by_contra hfits
        rw [stoi_of_decimal hdecimal, if_neg hfits] at hns
        cases hns

/-! ### Frames -/

/-- The command before the others, if the tokens are one. -/
def push (tokens : List Bytes) (r : RouterRun) : RouterRun :=
  if tokens = [] then r else r.cons tokens

theorem push_inj {tokens : List Bytes} {r r' : RouterRun} :
    push tokens r = push tokens r' ↔ r = r' := by
  unfold push
  split
  · rfl
  · cases r
    cases r'
    simp [RouterRun.cons]

/-- What is to be done with the contents of the frames: the tokens of all are got, the
clock is set by those that ask for it, and the loop ends with the connection. -/
def handled (contents : List Bytes) (t : Timing) : RouterRun where
  commands := (contents.map getTokens).filter (· ≠ [])
  timing := (contents.map getTokens).foldl (fun t tokens => advance t (wanted tokens)) t
  exit := .closed

/-- This was done, and `set_time_increment` was called with the numbers asked for. -/
def Handles (contents : List Bytes) (t : Timing) (r : RouterRun) : Prop :=
  r = handled contents t ∧ ∀ tokens ∈ r.commands, increment tokens = wanted tokens

theorem handled_cons (content : Bytes) (contents : List Bytes) (t : Timing) :
    handled (content :: contents) t
      = push (getTokens content) (handled contents (advance t (wanted (getTokens content)))) := by
  rw [push]
  split
  · rename_i hnil
    simp [handled, hnil, wanted, advance]
  · rename_i hne
    simp [handled, RouterRun.cons, hne]

theorem finishPass_of_not_throws {tokens : List Bytes} (h : ¬ Throws tokens) (stale : ℕ → Bytes)
    (pass : ℕ) (b : CmdBuffer) (t : Timing) (rest : Bytes) :
    finishPass stale pass b t rest tokens
      = push tokens (doRouterCmd stale (pass + 1) b (advance t (increment tokens)) rest) := by
  cases tokens with
  | nil => rfl
  | cons token tokens =>
      rw [finishPass, call_of_not_throws h]
      rfl

/-- One pass, for the frame and those behind it. -/
theorem handles_finishPass_iff (content : Bytes) (contents : List Bytes) (stale : ℕ → Bytes)
    (pass : ℕ) (b : CmdBuffer) (t : Timing) (rest : Bytes) :
    Handles (content :: contents) t (finishPass stale pass b t rest (getTokens content))
      ↔ Proper (getTokens content)
        ∧ Handles contents (advance t (wanted (getTokens content)))
          (doRouterCmd stale (pass + 1) b (advance t (wanted (getTokens content))) rest) := by
  rw [proper_iff, Handles, handled_cons]
  generalize getTokens content = tokens
  by_cases hthrows : Throws tokens
  · -- the process has ended
    refine iff_of_false (fun h => ?_) (fun h => h.1.1 hthrows)
    have hcall : call tokens t = none := call_eq_none_iff.mpr hthrows
    obtain ⟨cmd, ns, more, rfl, -, -⟩ := hthrows
    have hexit := congrArg RouterRun.exit h.1
    rw [finishPass, hcall] at hexit
    cases hexit
  · rw [finishPass_of_not_throws hthrows, push_inj]
    have hcommands : ∀ r : RouterRun, (∀ ws ∈ (push tokens r).commands, increment ws = wanted ws)
        ↔ increment tokens = wanted tokens ∧ ∀ ws ∈ r.commands, increment ws = wanted ws := by
      intro r
      rw [push]
      split
      · rename_i hnil
        rw [hnil]
        exact (and_iff_right rfl).symm
      · exact List.forall_mem_cons
    rw [hcommands]
    constructor
    · rintro ⟨hrun, hsame, hall⟩
      rw [hsame] at hrun hall
      exact ⟨⟨hthrows, hsame⟩, hrun, hall⟩
    · rintro ⟨⟨-, hsame⟩, hrun, hall⟩
      rw [hsame]
      exact ⟨hrun, rfl, hall⟩

/-- For which frames the loop does all of it, whatever is in the freed memory. -/
theorem handles_iff {contents : List Bytes} (hcontents : ∀ c ∈ contents, c ≠ [] ∧ c.length < 2 ^ 32)
    {b : CmdBuffer} (hb : b.Fresh) (pass : ℕ) (t : Timing) :
    (∀ stale, Handles contents t (doRouterCmd stale pass b t (contents.flatMap cmdFrame)))
      ↔ (∀ c ∈ contents.dropLast, c.length < 1024) ∧ ∀ c ∈ contents, Proper (getTokens c) := by
  induction contents generalizing b pass t with
  | nil => simp [doRouterCmd_nil, Handles, handled]
  | cons c contents ih =>
      obtain ⟨⟨hne, hlen⟩, hcontents⟩ := List.forall_mem_cons.mp hcontents
      simp only [List.flatMap_cons, doRouterCmd_content _ pass hb t hne hlen, handles_finishPass_iff]
      generalize advance t (wanted (getTokens c)) = t'
      rw [forall_and, forall_const, List.forall_mem_cons (p := fun c => Proper (getTokens c))]
      by_cases hlast : contents = []
      · subst hlast
        simp [doRouterCmd_nil, Handles, handled]
      · rw [List.dropLast_cons_of_ne_nil hlast, List.forall_mem_cons]
        rcases Nat.lt_or_ge c.length 1024 with hshort | hlong
        · rw [ih hcontents (hb.next (length_cmdHeader _) hshort le_rfl)]
          tauto
        · -- the buffer has moved, and there need not be a header in the freed memory
          refine iff_of_false (fun hall => ?_) (fun hok => absurd hok.1.1 (by omega))
          have hmoved : (b.next (cmdHeader c.length) c c.length).moved = true :=
            CmdBuffer.moved_next hb (length_cmdHeader _) hlong
          have hstream : contents.flatMap cmdFrame ≠ [] := by
            match contents, hlast with
            | d :: contents, _ => simp [cmdFrame, bigEndian]
          have hrun := (hall.2 zeros).1
          rw [doRouterCmd_moved hmoved (invalid_zeros _) t' hstream] at hrun
          cases congrArg RouterRun.exit hrun

/-- The loop deals with every frame, throws nothing, and calls `set_time_increment` for the
decimal numbers that fit in a `long` and for nothing else, if and only if no frame but the
last fills the buffer, and every argument of `inc_time_ns` is a decimal number that fits in
an `int`. -/
theorem router_frames_iff {contents : List Bytes}
    (hcontents : ∀ c ∈ contents, c ≠ [] ∧ c.length < 2 ^ 32) (t : Timing) :
    (∀ stale, Handles contents t (doRouterCmd stale 0 .start t (contents.flatMap cmdFrame)))
      ↔ (∀ c ∈ contents.dropLast, c.length < 1024) ∧ ∀ c ∈ contents, Proper (getTokens c) :=
  handles_iff hcontents CmdBuffer.fresh_start 0 t

/-! ### A number that fits in a `long` only -/

/-- `inc_time_ns` with an argument. -/
def incCommand (ns : Bytes) : Bytes :=
  [0x69, 0x6e, 0x63, 0x5f, 0x74, 0x69, 0x6d, 0x65, 0x5f, 0x6e, 0x73, 0x20] ++ ns

/-- The digits of 3000000000. -/
def threeSeconds : Bytes := 0x33 :: List.replicate 9 0x30

def startClock : Timing := .start Timing.defaultResolution Timing.defaultStartupRealtime

/-- Three seconds are no `int`, and the process ends. -/
theorem router_frames_fails :
    ¬ ∀ (contents : List Bytes) (t : Timing) (stale : ℕ → Bytes),
      (∀ c ∈ contents, c ≠ [] ∧ c.length < 2 ^ 32) →
      Handles contents t (doRouterCmd stale 0 .start t (contents.flatMap cmdFrame)) := by
  intro hall
  have hcontents : ∀ c ∈ [incCommand threeSeconds], c ≠ [] ∧ c.length < 2 ^ 32 := by decide
  have hhandles := fun stale => hall [incCommand threeSeconds] startClock stale hcontents
  obtain ⟨-, hproper⟩ := (handles_iff hcontents CmdBuffer.fresh_start 0 startClock).mp hhandles
  have htokens : getTokens (incCommand threeSeconds) = [(incCommand []).dropLast, threeSeconds] := by
    decide +kernel
  obtain ⟨n, hdecimal, hfits⟩ :=
    hproper _ List.mem_cons_self _ _ _ htokens (by decide)
  have hn : decimal threeSeconds = some 3000000000 := by decide +kernel
  rw [hn] at hdecimal
  obtain rfl := Option.some.inj hdecimal
  exact absurd hfits.2 (by norm_num)

/-- A comment, a command that is not known, and one that is short of an argument change
nothing; the clock is set by 7 nanoseconds. -/
theorem router_frames_iff_mixed :
    Handles [[0x23, 0x20, 0x61], [0x61], incCommand [], incCommand [0x37]] startClock
      (doRouterCmd zeros 0 .start startClock
        ([[0x23, 0x20, 0x61], [0x61], incCommand [], incCommand [0x37]].flatMap cmdFrame)) := by
  refine (router_frames_iff (by decide) startClock).mpr ⟨by decide, ?_⟩ zeros
  have htokens : [[0x23, 0x20, 0x61], [0x61], incCommand [], incCommand [0x37]].map getTokens
      = [[], [[0x61]], [(incCommand []).dropLast], [(incCommand []).dropLast, [0x37]]] := by
    decide +kernel
  rw [← List.forall_mem_map (f := getTokens) (P := Proper), htokens]
  simp only [List.forall_mem_cons]
  refine ⟨nofun, nofun, nofun, ?_, by simp⟩
  rintro cmd ns more heq -
  obtain ⟨-, rfl, -⟩ : _ ∧ ns = [0x37] ∧ _ := by simpa [eq_comm] using heq
  exact ⟨7, by decide +kernel, by norm_num, by norm_num⟩

end Tmet.Mysyscall.Router
