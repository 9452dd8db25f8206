import Tmet.Lib.Transition

/-!
# `Tmet.Mysyscall.Timing`: the virtual clock

The model of `timing.c` and of the intercepted calls that read the clock
(`myclock_gettime.c`, `mygettimeofday.c`, `mytime.c`). A call whose interception is
switched off goes to the real function and does not touch the clock; it is left out,
and so are the counters and the log lines. The mutex makes the operations one at a time.

The fields are `long`, and the counter of the reads is an `int`. The functions of `timing.c`
have the arithmetic as a parameter (`Arith`): what is stored wraps around (`Arith.machine`), or
the integers are exact. A sum or a product wraps once, at its end, which comes to the same.
The functions without it are exact; the calls use the arithmetic of the machine. Division and
remainder are those of C, which round towards zero. An `assert` that fails ends the process:
the operation is then `none`.
-/

set_option autoImplicit false

namespace Tmet.Mysyscall

open Tmet.Lib

def S_TO_NS : ℤ := 1000000000

def US_TO_NS : ℤ := 1000

/-- `struct timespec`. -/
structure Timespec where
  tvSec : ℤ
  tvNsec : ℤ
deriving DecidableEq, Repr

/-- `struct timeval`. -/
structure Timeval where
  tvSec : ℤ
  tvUsec : ℤ
deriving DecidableEq, Repr

/-- The variables of `timing.c`. -/
structure Timing where
  resolutionIncrement : ℤ
  resolution : Timespec
  startupRealtime : Timespec
  prevMonotonic : Timespec
  currMonotonic : Timespec
deriving DecidableEq, Repr

/-- What is stored of a result, in an `int` and in a `long`. -/
structure Arith where
  int : ℤ → ℤ
  long : ℤ → ℤ

/-- Exact integers. -/
def Arith.exact : Arith := ⟨fun x => x, fun x => x⟩

/-- An `int` has 32 bits and a `long` 64, and both wrap around. -/
def Arith.machine : Arith := ⟨fun x => x.bmod (2 ^ 32), fun x => x.bmod (2 ^ 64)⟩

/-- `START_MONOTONIC`. -/
def START_MONOTONIC : Timespec := ⟨10, 0⟩

namespace Timing

/-- The variables after `init_timing`. What it sets depends on how the library is
compiled. -/
def start (resolution startupRealtime : Timespec) : Timing where
  resolutionIncrement := 0
  resolution := resolution
  startupRealtime := startupRealtime
  prevMonotonic := START_MONOTONIC
  currMonotonic := START_MONOTONIC

/-- The initial value of `resolution`, 1 microsecond. -/
def defaultResolution : Timespec := ⟨0, US_TO_NS⟩

/-- The initial value of `startup_realtime`. -/
def defaultStartupRealtime : Timespec := ⟨1654321000, 0⟩

/-- `is_time_stopped`. -/
def isTimeStopped (t : Timing) : Bool :=
  t.prevMonotonic.tvSec == t.currMonotonic.tvSec
    && t.prevMonotonic.tvNsec == t.currMonotonic.tvNsec

/-- `increase_resolution`. -/
def increaseResolutionWith (A : Arith) (t : Timing) : Timing :=
  let nsec := A.long (t.currMonotonic.tvNsec + t.resolution.tvNsec)
  let curr : Timespec :=
    if nsec ≥ S_TO_NS then ⟨A.long (t.currMonotonic.tvSec + 1), A.long (nsec - S_TO_NS)⟩
    else ⟨t.currMonotonic.tvSec, nsec⟩
  { t with
    resolutionIncrement := A.int (t.resolutionIncrement + 1)
    currMonotonic := { curr with tvSec := A.long (curr.tvSec + t.resolution.tvSec) } }

/-- `get_time_increment` with an argument that is not `NULL`. -/
def getTimeIncrementWith (A : Arith) (t : Timing) : Option Timespec :=
  let curr := t.currMonotonic
  let prev := t.prevMonotonic
  if curr.tvNsec < prev.tvNsec then
    -- the assertion
    if curr.tvSec > prev.tvSec then
      some ⟨A.long (curr.tvSec - 1 - prev.tvSec), A.long (curr.tvNsec + S_TO_NS - prev.tvNsec)⟩
    else none
  else some ⟨A.long (curr.tvSec - prev.tvSec), A.long (curr.tvNsec - prev.tvNsec)⟩

/-- `increase_time`. `wanted` says that its argument is not `NULL`; the first component
is what is written through it. -/
def increaseTimeWith (A : Arith) (t : Timing) (wanted : Bool) :
    Option (Option Timespec × Timing) :=
  if t.isTimeStopped then
    let t := t.increaseResolutionWith A
    some (if wanted then some t.resolution else none,
      { t with prevMonotonic := t.currMonotonic })
  else if wanted then
    (t.getTimeIncrementWith A).map fun increment =>
      (some increment, { t with prevMonotonic := t.currMonotonic })
  else some (none, { t with prevMonotonic := t.currMonotonic })

/-- `set_time_increment`. -/
def setTimeIncrementWith (A : Arith) (t : Timing) (tvNsec : ℤ) : Timing :=
  let ns := A.long
    ((t.resolution.tvSec * S_TO_NS + t.resolution.tvNsec) * t.resolutionIncrement)
  let curr : Timespec :=
    if ns ≥ tvNsec then t.currMonotonic
    else
      let tvNsec := A.long (tvNsec - ns)
      ⟨A.long (t.currMonotonic.tvSec + tvNsec.tdiv S_TO_NS),
        A.long (t.currMonotonic.tvNsec + tvNsec.tmod S_TO_NS)⟩
  { t with resolutionIncrement := 0, currMonotonic := curr }

/-! The same with exact integers. -/

def increaseResolution (t : Timing) : Timing := t.increaseResolutionWith .exact

def getTimeIncrement (t : Timing) : Option Timespec := t.getTimeIncrementWith .exact

def increaseTime (t : Timing) (wanted : Bool) : Option (Option Timespec × Timing) :=
  t.increaseTimeWith .exact wanted

def setTimeIncrement (t : Timing) (tvNsec : ℤ) : Timing := t.setTimeIncrementWith .exact tvNsec

end Timing

/-! ### The calls -/

/-- The clocks of `clock_gettime` (`clockid_t`). -/
inductive ClockId
  | realtime
  | realtimeCoarse
  | monotonic
  | monotonicCoarse
  | monotonicRaw
  | boottime
  | other (id : ℤ)
deriving DecidableEq, Repr

/-- The value of `CLOCK_REALTIME`. -/
def Timing.realtime (t : Timing) : Timespec :=
  ⟨Arith.machine.long (t.startupRealtime.tvSec + t.currMonotonic.tvSec),
    Arith.machine.long (t.startupRealtime.tvNsec + t.currMonotonic.tvNsec)⟩

/-- `clock_gettime`: what is stored in `*tp`. -/
def clockGettime (clockid : ClockId) (t : Timing) : Option (Timespec × Timing) :=
  match t.increaseTimeWith .machine true with
  | none => none
  | some (_, t) =>
      match clockid with
      | .realtime | .realtimeCoarse => some (t.realtime, t)
      | .monotonic | .monotonicCoarse | .monotonicRaw | .boottime => some (t.currMonotonic, t)
      -- `assert(0)`
      | .other _ => none

/-- `gettimeofday`: what is stored in `*tv`. The real function may store in it before. -/
def gettimeofday (t : Timing) : Option (Timeval × Timing) :=
  match t.increaseTimeWith .machine false with
  | none => none
  | some (_, t) => some (⟨t.realtime.tvSec, t.realtime.tvNsec.tdiv US_TO_NS⟩, t)

/-- `time`: its value, `none` for the error -1. `realTime` is what `real_time(tloc)`
returned, `none` where `tloc` is `NULL`. -/
def time (realTime : Option ℤ) (t : Timing) : Option (Option ℤ × Timing) :=
  match t.increaseTimeWith .machine false with
  | none => none
  | some (_, t) =>
      let ret := t.realtime.tvSec
      some (if realTime = some (-1) then none else some ret, t)

/-- A call of the program, or a command of the router. -/
inductive ClockCall
  | clockGettime (clockid : ClockId)
  | gettimeofday
  | time (realTime : Option ℤ)
  | setTimeIncrement (tvNsec : ℤ)
deriving DecidableEq, Repr

/-- What the program was given. -/
inductive Reading
  | timespec (ts : Timespec)
  | timeval (tv : Timeval)
  | seconds (sec : ℤ)
  | nothing
deriving DecidableEq, Repr

/-- One call. -/
def ClockCall.exec (c : ClockCall) (t : Timing) : Option (Reading × Timing) :=
  match c with
  | .clockGettime clockid => (Mysyscall.clockGettime clockid t).map fun r => (.timespec r.1, r.2)
  | .gettimeofday => (Mysyscall.gettimeofday t).map fun r => (.timeval r.1, r.2)
  | .time realTime =>
      (Mysyscall.time realTime t).map fun r => (r.1.elim .nothing .seconds, r.2)
  | .setTimeIncrement tvNsec => some (.nothing, t.setTimeIncrementWith .machine tvNsec)

/-- The runs of the program against the clock. A label is a call and its result. -/
def clockCalls (start : Timing) : System Timing (ClockCall × Reading) where
  init t := t = start
  step t c t' := c.1.exec t = some (c.2, t')

/-- The two operations of the clock. -/
inductive ClockOp
  | increaseTime (wanted : Bool)
  | setTimeIncrement (tvNsec : ℤ)
deriving DecidableEq, Repr

/-- The runs of the clock alone, with exact integers. A label is an operation and the
increment it has written. -/
def clock (start : Timing) : System Timing (ClockOp × Option Timespec) where
  init t := t = start
  step t op t' :=
    match op.1 with
    | .increaseTime wanted => t.increaseTime wanted = some (op.2, t')
    | .setTimeIncrement tvNsec => op.2 = none ∧ t' = t.setTimeIncrement tvNsec

end Tmet.Mysyscall
