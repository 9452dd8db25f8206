import Tmet.Proofs.Mysyscall.Clock

/-!
# `Tmet.Proofs.Mysyscall.Times`: the times that the program is given

Here the arithmetic is that of the machine. A read of the clock carries a full second over, and
a clock that is normalised stays so. `set_time_increment` does not carry, and what it adds
depends on the counter of the reads, which has 32 bits and wraps around after 2 ^ 31 reads
without a command (`counter_wraps`). `times_wellFormed_iff` is the exact condition, and
`times_wellFormed_fails` a run with a nanosecond field of 1.2 seconds.
-/

set_option autoImplicit false

namespace Tmet.Mysyscall

open Tmet.Lib

/-! ### What wraps around -/

/-- Wrapping around to `w + 1` bits keeps what fits in them. -/
theorem bmod_of_fits {w : ℕ} {x : ℤ} (hlo : -(2 ^ w) ≤ x) (hhi : x < 2 ^ w) :
    x.bmod (2 ^ (w + 1)) = x := by
  have hhalf : (((2 ^ (w + 1) : ℕ) : ℤ)) = 2 * 2 ^ w := by
    push_cast
    ring
  exact Int.bmod_eq_of_le (by omega) (by omega)

theorem Arith.long_of_fits {x : ℤ} (hlo : -(2 ^ 63) ≤ x) (hhi : x < 2 ^ 63) :
    Arith.machine.long x = x := bmod_of_fits hlo hhi

theorem Arith.int_of_fits {x : ℤ} (hlo : -(2 ^ 31) ≤ x) (hhi : x < 2 ^ 31) :
    Arith.machine.int x = x := bmod_of_fits hlo hhi

theorem Arith.int_bounds (x : ℤ) :
    -(2 ^ 31) ≤ Arith.machine.int x ∧ Arith.machine.int x < 2 ^ 31 := by
  have hlo : -(((2 ^ 32 : ℕ) : ℤ) / 2) ≤ x.bmod (2 ^ 32) := Int.le_bmod (by norm_num)
  have hhi : x.bmod (2 ^ 32) < (((2 ^ 32 : ℕ) : ℤ) + 1) / 2 := Int.bmod_lt (by norm_num)
  norm_num at hlo hhi
  show -(2 ^ 31) ≤ x.bmod (2 ^ 32) ∧ x.bmod (2 ^ 32) < 2 ^ 31
  norm_num
  exact ⟨hlo, hhi⟩

theorem Arith.int_zero : Arith.machine.int 0 = 0 := by simp [Arith.machine]

theorem Arith.int_succ (x : ℤ) :
    Arith.machine.int (Arith.machine.int x + 1) = Arith.machine.int (x + 1) := by
  simp [Arith.machine]

/-- One more call, after `n` reads that found the clock stopped. -/
def countStopped (n : ℕ) (t : Step Timing (ClockCall × Reading)) : ℕ :=
  match t.act.1 with
  | .setTimeIncrement _ => 0
  | _ => if t.src.isTimeStopped then n + 1 else n

/-- The reads since the latest command that found the clock stopped. -/
def stoppedReads (tr : List (Step Timing (ClockCall × Reading))) : ℕ := tr.foldl countStopped 0

/-! ### Well-formed times -/

/-- After a call the clock is normalised, and what the program was given is well formed
and agrees with `CLOCK_REALTIME`. -/
structure WellFormedTimes (t : Step Timing (ClockCall × Reading)) : Prop where
  clock : t.dst.currMonotonic.Normal
  timespec : ∀ ts, t.act.2 = .timespec ts → ts.Normal
  timeval : ∀ tv, t.act.2 = .timeval tv → 0 ≤ tv.tvUsec ∧ tv.tvUsec < 1000000
  seconds : ∀ sec, t.act.2 = .seconds sec → sec = t.dst.realtime.value / S_TO_NS

/-- What a command adds to the clock, in a `long`. -/
def Timing.added (t : Timing) (d : ℤ) : ℤ := Arith.machine.long (t.ahead d)

/-- A command that adds to the clock leaves the nanoseconds below a second. -/
def StaysBelowSecond (t : Step Timing (ClockCall × Reading)) : Prop :=
  match t.act.1 with
  | .setTimeIncrement d =>
      0 < t.src.ahead d →
        0 ≤ t.src.currMonotonic.tvNsec + (t.src.added d).tmod S_TO_NS
          ∧ t.src.currMonotonic.tvNsec + (t.src.added d).tmod S_TO_NS < S_TO_NS
  | _ => True

/-- The clock with its default resolution. The real time started at a full second, and the
counter is an `int`. -/
structure Standard (t : Timing) : Prop where
  resolution : t.resolution = Timing.defaultResolution
  startup : t.startupRealtime.tvNsec = 0
  counter : -(2 ^ 31) ≤ t.resolutionIncrement ∧ t.resolutionIncrement < 2 ^ 31

theorem Standard.start (sec : ℤ) : Standard (.start Timing.defaultResolution ⟨sec, 0⟩) where
  resolution := rfl
  startup := rfl
  counter := by
    show -(2 ^ 31) ≤ (0 : ℤ) ∧ (0 : ℤ) < 2 ^ 31
    norm_num

/-- A read of a clock that is stopped, with a carry into the seconds and without. -/
theorem tvNsec_increaseResolutionWith {t : Timing} (hs : Standard t)
    (hn : t.currMonotonic.Normal) :
    (t.increaseResolutionWith .machine).currMonotonic.tvNsec
      = if S_TO_NS ≤ t.currMonotonic.tvNsec + US_TO_NS then
          t.currMonotonic.tvNsec + US_TO_NS - S_TO_NS
        else t.currMonotonic.tvNsec + US_TO_NS := by
  simp only [Timespec.Normal, S_TO_NS] at hn
  have hsum : Arith.machine.long (t.currMonotonic.tvNsec + t.resolution.tvNsec)
      = t.currMonotonic.tvNsec + US_TO_NS := by
    rw [hs.resolution]
    refine Arith.long_of_fits ?_ ?_ <;> simp only [Timing.defaultResolution, US_TO_NS] <;> omega
  have hcarried : Arith.machine.long (t.currMonotonic.tvNsec + US_TO_NS - S_TO_NS)
      = t.currMonotonic.tvNsec + US_TO_NS - S_TO_NS := by
    refine Arith.long_of_fits ?_ ?_ <;> simp only [US_TO_NS, S_TO_NS] <;> omega
  rw [Timing.increaseResolutionWith]
  dsimp only
  rw [hsum]
  split
  · exact hcarried
  · rfl

/-- A read keeps the clock normalised. -/
theorem normal_increaseTimeWith {t t' : Timing} {wanted : Bool} {increment : Option Timespec}
    (hs : Standard t) (hn : t.currMonotonic.Normal)
    (h : t.increaseTimeWith .machine wanted = some (increment, t')) : t'.currMonotonic.Normal := by
  rcases Timing.increaseTimeWith_cases h with ⟨-, -, rfl⟩ | ⟨-, -, rfl⟩
  · show (t.increaseResolutionWith .machine).currMonotonic.Normal
    rw [Timespec.Normal, tvNsec_increaseResolutionWith hs hn]
    by_cases hcarry : S_TO_NS ≤ t.currMonotonic.tvNsec + US_TO_NS
    · rw [if_pos hcarry]
      simp only [Timespec.Normal, US_TO_NS, S_TO_NS] at hn hcarry ⊢
      omega
    · rw [if_neg hcarry]
      simp only [Timespec.Normal, US_TO_NS, S_TO_NS] at hn hcarry ⊢
      omega
  · exact hn

/-- What the reads have added fits in a `long`. -/
theorem readsLong_eq {t : Timing} (hs : Standard t) :
    Arith.machine.long
        ((t.resolution.tvSec * S_TO_NS + t.resolution.tvNsec) * t.resolutionIncrement)
      = t.resolution.value * t.resolutionIncrement := by
  obtain ⟨hlo, hhi⟩ := hs.counter
  show Arith.machine.long (t.resolution.value * t.resolutionIncrement) = _
  have hvalue : t.resolution.value = 1000 := by
    rw [hs.resolution]
    decide
  rw [hvalue]
  exact Arith.long_of_fits (by omega) (by omega)

/-- A command keeps the clock normalised if and only if it stays below a second. -/
theorem normal_setTimeIncrementWith_iff {t : Timing} (hs : Standard t)
    (hn : t.currMonotonic.Normal) (d : ℤ) :
    (t.setTimeIncrementWith .machine d).currMonotonic.Normal
      ↔ (0 < t.ahead d → 0 ≤ t.currMonotonic.tvNsec + (t.added d).tmod S_TO_NS
        ∧ t.currMonotonic.tvNsec + (t.added d).tmod S_TO_NS < S_TO_NS) := by
  rw [Timing.setTimeIncrementWith]
  dsimp only
  rw [readsLong_eq hs]
  by_cases hpos : 0 < t.ahead d
  · have hlt : ¬ t.resolution.value * t.resolutionIncrement ≥ d := by
      rw [Timing.ahead] at hpos
      omega
    -- less than a second is added, or subtracted, and the sum does not wrap around
    have hnsec : Arith.machine.long (t.currMonotonic.tvNsec + (t.added d).tmod S_TO_NS)
        = t.currMonotonic.tvNsec + (t.added d).tmod S_TO_NS := by
      have hlo : -S_TO_NS < (t.added d).tmod S_TO_NS := Int.lt_tmod_of_pos _ (by decide)
      have hhi : (t.added d).tmod S_TO_NS < S_TO_NS := Int.tmod_lt_of_pos _ (by decide)
      simp only [Timespec.Normal, S_TO_NS] at hn hlo hhi ⊢
      exact Arith.long_of_fits (by omega) (by omega)
    rw [if_neg hlt, Timespec.Normal]
    show 0 ≤ Arith.machine.long (t.currMonotonic.tvNsec + (t.added d).tmod S_TO_NS)
      ∧ Arith.machine.long (t.currMonotonic.tvNsec + (t.added d).tmod S_TO_NS) < S_TO_NS ↔ _
    rw [hnsec]
    exact ⟨fun h _ => h, fun h => h hpos⟩
  · have hle : t.resolution.value * t.resolutionIncrement ≥ d := by
      rw [Timing.ahead] at hpos
      omega
    rw [if_pos hle]
    exact iff_of_true hn fun h => absurd h hpos

theorem clockGettime_cases {t t' : Timing} {clockid : ClockId} {ts : Timespec}
    (h : clockGettime clockid t = some (ts, t')) :
    (∃ increment, t.increaseTimeWith .machine true = some (increment, t'))
      ∧ (ts = t'.realtime ∨ ts = t'.currMonotonic) := by
  rw [clockGettime] at h
  cases hread : t.increaseTimeWith .machine true with
  | none =>
      rw [hread] at h
      cases h
  | some read =>
      rw [hread] at h
      -- the two clocks of the real time, the four others, and the assertion
      cases clockid with
      | realtime | realtimeCoarse =>
          cases h
          exact ⟨⟨read.1, rfl⟩, Or.inl rfl⟩
      | monotonic | monotonicCoarse | monotonicRaw | boottime =>
          cases h
          exact ⟨⟨read.1, rfl⟩, Or.inr rfl⟩
      | other id => cases h

theorem gettimeofday_cases {t t' : Timing} {tv : Timeval} (h : gettimeofday t = some (tv, t')) :
    (∃ increment, t.increaseTimeWith .machine false = some (increment, t'))
      ∧ tv = ⟨t'.realtime.tvSec, t'.realtime.tvNsec.tdiv US_TO_NS⟩ := by
  rw [gettimeofday] at h
  cases hread : t.increaseTimeWith .machine false with
  | none =>
      rw [hread] at h
      cases h
  | some read =>
      rw [hread] at h
      cases h
      exact ⟨⟨read.1, rfl⟩, rfl⟩

theorem time_cases {t t' : Timing} {realTime ret : Option ℤ}
    (h : time realTime t = some (ret, t')) :
    (∃ increment, t.increaseTimeWith .machine false = some (increment, t'))
      ∧ (ret = some t'.realtime.tvSec ∨ ret = none) := by
  rw [time] at h
  cases hread : t.increaseTimeWith .machine false with
  | none =>
      rw [hread] at h
      cases h
  | some read =>
      rw [hread] at h
      cases h
      refine ⟨⟨read.1, rfl⟩, ?_⟩
      split
      · exact Or.inr rfl
      · exact Or.inl rfl

/-- A call is a command, or a read of the clock that gives the real time or the monotonic
one. -/
theorem ClockCall.exec_cases {t t' : Timing} {c : ClockCall} {r : Reading}
    (h : c.exec t = some (r, t')) :
    (∃ d, c = .setTimeIncrement d ∧ r = .nothing ∧ t' = t.setTimeIncrementWith .machine d)
      ∨ (∀ d, c ≠ .setTimeIncrement d)
        ∧ (∃ wanted increment, t.increaseTimeWith .machine wanted = some (increment, t'))
        ∧ (r = .timespec t'.realtime ∨ r = .timespec t'.currMonotonic
          ∨ r = .timeval ⟨t'.realtime.tvSec, t'.realtime.tvNsec.tdiv US_TO_NS⟩
          ∨ r = .seconds t'.realtime.tvSec ∨ r = .nothing) := by
  -- each of the reading functions asks for the increment exactly once
  cases c with
  | setTimeIncrement d =>
      cases h
      exact Or.inl ⟨d, rfl, rfl, rfl⟩
  | clockGettime clockid =>
      right
      obtain ⟨⟨ts, t₁⟩, hget, heq⟩ := Option.map_eq_some_iff.mp h
      cases heq
      obtain ⟨⟨increment, hread⟩, hts⟩ := clockGettime_cases hget
      refine ⟨nofun, ⟨true, increment, hread⟩, ?_⟩
      rcases hts with rfl | rfl <;> simp
  | gettimeofday =>
      right
      obtain ⟨⟨tv, t₁⟩, hget, heq⟩ := Option.map_eq_some_iff.mp h
      cases heq
      obtain ⟨⟨increment, hread⟩, rfl⟩ := gettimeofday_cases hget
      exact ⟨nofun, ⟨false, increment, hread⟩, by simp⟩
  | time realTime =>
      right
      obtain ⟨⟨ret, t₁⟩, hget, heq⟩ := Option.map_eq_some_iff.mp h
      cases heq
      obtain ⟨⟨increment, hread⟩, hret⟩ := time_cases hget
      refine ⟨nofun, ⟨false, increment, hread⟩, ?_⟩
      rcases hret with rfl | rfl <;> simp

theorem Standard.exec {t t' : Timing} {c : ClockCall} {r : Reading} (hs : Standard t)
    (h : c.exec t = some (r, t')) : Standard t' := by
  rcases ClockCall.exec_cases h with ⟨d, -, -, rfl⟩ | ⟨-, ⟨wanted, increment, hread⟩, -⟩
  · refine ⟨hs.resolution, hs.startup, ?_⟩
    show -(2 ^ 31) ≤ (0 : ℤ) ∧ (0 : ℤ) < 2 ^ 31
    norm_num
  · rcases Timing.increaseTimeWith_cases hread with ⟨-, -, rfl⟩ | ⟨-, -, rfl⟩
    · exact ⟨hs.resolution, hs.startup, Arith.int_bounds _⟩
    · exact ⟨hs.resolution, hs.startup, hs.counter⟩

/-- With a normalised clock every result is well formed. -/
theorem wellFormedTimes_of_normal {t t' : Timing} {c : ClockCall} {r : Reading}
    (hs : Standard t') (hn : t'.currMonotonic.Normal)
    (h : c.exec t = some (r, t')) : WellFormedTimes ⟨t, (c, r), t'⟩ := by
  have hreal : t'.realtime.Normal := by
    simp only [Timespec.Normal, S_TO_NS] at hn
    have hnsec : t'.realtime.tvNsec = t'.currMonotonic.tvNsec := by
      rw [Timing.realtime, hs.startup, zero_add]
      exact Arith.long_of_fits (by omega) (by omega)
    rw [Timespec.Normal, hnsec]
    exact hn
  have hreal' := hreal
  simp only [Timespec.Normal, S_TO_NS] at hreal'
  -- `time` gives the seconds, `gettimeofday` the nanoseconds in microseconds
  have hwhole : t'.realtime.value / S_TO_NS = t'.realtime.tvSec := by
    simp only [Timespec.value, S_TO_NS]
    omega
  have hmicro : 0 ≤ t'.realtime.tvNsec.tdiv US_TO_NS
      ∧ t'.realtime.tvNsec.tdiv US_TO_NS < 1000000 := by
    rw [Int.tdiv_eq_ediv_of_nonneg hreal.1]
    simp only [US_TO_NS]
    omega
  rcases ClockCall.exec_cases h with ⟨d, rfl, rfl, rfl⟩ | ⟨-, -, hr⟩
  · exact ⟨hn, by rintro _ ⟨⟩, by rintro _ ⟨⟩, by rintro _ ⟨⟩⟩
  · rcases hr with rfl | rfl | rfl | rfl | rfl
    · refine ⟨hn, fun ts hts => ?_, by rintro _ ⟨⟩, by rintro _ ⟨⟩⟩
      cases hts
      exact hreal
    · refine ⟨hn, fun ts hts => ?_, by rintro _ ⟨⟩, by rintro _ ⟨⟩⟩
      cases hts
      exact hn
    · refine ⟨hn, by rintro _ ⟨⟩, fun tv htv => ?_, by rintro _ ⟨⟩⟩
      cases htv
      exact hmicro
    · refine ⟨hn, by rintro _ ⟨⟩, by rintro _ ⟨⟩, fun sec hsec => ?_⟩
      cases hsec
      exact hwhole.symm
    · exact ⟨hn, by rintro _ ⟨⟩, by rintro _ ⟨⟩, by rintro _ ⟨⟩⟩

/-- One call on a normalised clock. -/
theorem wellFormedTimes_step_iff {t t' : Timing} {c : ClockCall} {r : Reading} (hs : Standard t)
    (hn : t.currMonotonic.Normal) (h : c.exec t = some (r, t')) :
    WellFormedTimes ⟨t, (c, r), t'⟩ ↔ StaysBelowSecond ⟨t, (c, r), t'⟩ := by
  have hs' := hs.exec h
  rcases ClockCall.exec_cases h with ⟨d, rfl, rfl, rfl⟩ | ⟨hc, ⟨wanted, increment, hread⟩, -⟩
  · constructor
    · intro hwf
      exact (normal_setTimeIncrementWith_iff hs hn d).mp hwf.clock
    · intro hbelow
      exact wellFormedTimes_of_normal hs' ((normal_setTimeIncrementWith_iff hs hn d).mpr hbelow) h
  · have hn' := normal_increaseTimeWith hs hn hread
    refine iff_of_true (wellFormedTimes_of_normal hs' hn' h) ?_
    cases c with
    | setTimeIncrement d => exact absurd rfl (hc d)
    | _ => trivial

/-- The counter has the reads since the latest command modulo 2 ^ 32. -/
theorem counter_wraps {res realtime : Timespec} {tr : List (Step Timing (ClockCall × Reading))}
    {s : Timing} (h : (clockCalls (.start res realtime)).Run tr s) :
    s.resolutionIncrement = Arith.machine.int (stoppedReads tr) := by
  induction h with
  | nil hinit =>
      cases hinit
      exact Arith.int_zero.symm
  | @snoc tr s c s' _ hstep ih =>
      rw [stoppedReads, List.foldl_append, ← stoppedReads]
      obtain ⟨c, r⟩ := c
      rcases ClockCall.exec_cases hstep with ⟨d, rfl, -, rfl⟩ | ⟨hc, ⟨wanted, increment, hread⟩, -⟩
      · exact Arith.int_zero.symm
      · have hnext : countStopped (stoppedReads tr) ⟨s, (c, r), s'⟩
            = if s.isTimeStopped then stoppedReads tr + 1 else stoppedReads tr := by
          cases c with
          | setTimeIncrement d => exact absurd rfl (hc d)
          | _ => rfl
        show s'.resolutionIncrement
          = Arith.machine.int (countStopped (stoppedReads tr) ⟨s, (c, r), s'⟩)
        rw [hnext]
        rcases Timing.increaseTimeWith_cases hread with ⟨hstopped, -, rfl⟩ | ⟨hmoved, -, rfl⟩
        · rw [if_pos hstopped, Nat.cast_succ]
          show Arith.machine.int (s.resolutionIncrement + 1) = _
          rw [ih, Arith.int_succ]
        · rw [if_neg (by simp [hmoved])]
          exact ih

theorem resolution_of_run {res realtime : Timespec}
    {tr : List (Step Timing (ClockCall × Reading))} {s : Timing}
    (h : (clockCalls (.start res realtime)).Run tr s) : s.resolution = res := by
  induction h with
  | nil hinit =>
      cases hinit
      rfl
  | snoc _ hstep ih =>
      rcases ClockCall.exec_cases hstep with ⟨d, -, -, rfl⟩ | ⟨-, ⟨wanted, increment, hread⟩, -⟩
      · exact ih
      · rcases Timing.increaseTimeWith_cases hread with ⟨-, -, rfl⟩ | ⟨-, -, rfl⟩ <;> exact ih

/-- Up to 2 ^ 31 reads without a command the counter has them all, and what a command adds is
its argument less what the reads have added. -/
theorem added_of_counted {realtime : Timespec}
    {tr : List (Step Timing (ClockCall × Reading))} {s : Timing}
    (h : (clockCalls (.start Timing.defaultResolution realtime)).Run tr s)
    (hreads : stoppedReads tr < 2 ^ 31) {d : ℤ} (hd : d < 2 ^ 63) (hpos : 0 < s.ahead d) :
    s.added d = d - s.resolution.value * stoppedReads tr := by
  have hcounter : s.resolutionIncrement = stoppedReads tr := by
    rw [counter_wraps h]
    exact Arith.int_of_fits (by omega) (by omega)
  have hvalue : 0 ≤ s.resolution.value := by
    rw [resolution_of_run h]
    decide
  have hadded : 0 ≤ s.resolution.value * stoppedReads tr := by positivity
  rw [Timing.ahead, hcounter] at hpos
  rw [Timing.added, Timing.ahead, hcounter]
  exact Arith.long_of_fits (by omega) (by omega)

/-- The clock is normalised and all times are well formed in every state of a run, if and
only if no command of it lets the nanoseconds reach a second. -/
theorem times_wellFormed_iff {sec : ℤ} {tr : List (Step Timing (ClockCall × Reading))} {s : Timing}
    (h : (clockCalls (.start Timing.defaultResolution ⟨sec, 0⟩)).Run tr s) :
    (∀ t ∈ tr, WellFormedTimes t) ↔ ∀ t ∈ tr, StaysBelowSecond t := by
  -- while all times are well formed the clock is normal, which the next step needs
  suffices hall : Standard s ∧ ((∀ t ∈ tr, WellFormedTimes t) → s.currMonotonic.Normal)
      ∧ ((∀ t ∈ tr, WellFormedTimes t) ↔ ∀ t ∈ tr, StaysBelowSecond t) from hall.2.2
  induction h with
  | @nil s hinit =>
      cases hinit
      have hnormal : START_MONOTONIC.Normal := by decide
      exact ⟨.start sec, fun _ => hnormal, by simp⟩
  | @snoc tr s c s' _ hstep ih =>
      obtain ⟨hs, hn, hiff⟩ := ih
      simp only [List.forall_mem_append, List.forall_mem_singleton]
      refine ⟨hs.exec hstep, fun hwf => hwf.2.clock, ?_⟩
      constructor
      · rintro ⟨hwf, hlast⟩
        exact ⟨hiff.mp hwf, (wellFormedTimes_step_iff hs (hn hwf) hstep).mp hlast⟩
      · rintro ⟨hbelow, hlast⟩
        have hwf := hiff.mpr hbelow
        exact ⟨hwf, (wellFormedTimes_step_iff hs (hn hwf) hstep).mpr hlast⟩

/-- Two commands for 600 milliseconds each. -/
def commandedOnce : Timing := started.setTimeIncrementWith .machine 600000000

def commandedTwice : Timing := commandedOnce.setTimeIncrementWith .machine 600000000

theorem run_commandedTwice : (clockCalls started).Run
    [⟨started, (.setTimeIncrement 600000000, .nothing), commandedOnce⟩,
      ⟨commandedOnce, (.setTimeIncrement 600000000, .nothing), commandedTwice⟩,
      ⟨commandedTwice, (.clockGettime .monotonic, .timespec ⟨10, 1200000000⟩),
        { commandedTwice with prevMonotonic := commandedTwice.currMonotonic }⟩]
    { commandedTwice with prevMonotonic := commandedTwice.currMonotonic } := by
  have hstart : (clockCalls started).Run [] started := .nil rfl
  have hfirst : (clockCalls started).step started (.setTimeIncrement 600000000, .nothing)
      commandedOnce := rfl
  have hsecond : (clockCalls started).step commandedOnce
      (.setTimeIncrement 600000000, .nothing) commandedTwice := rfl
  have hread : (clockCalls started).step commandedTwice
      (.clockGettime .monotonic, .timespec ⟨10, 1200000000⟩)
      { commandedTwice with prevMonotonic := commandedTwice.currMonotonic } := by
    show ClockCall.exec (.clockGettime .monotonic) commandedTwice = _
    decide
  exact ((hstart.snoc hfirst).snoc hsecond).snoc hread

theorem times_wellFormed_iff_commandedTwice :
    ∃ tr, (clockCalls started).Run tr
        { commandedTwice with prevMonotonic := commandedTwice.currMonotonic }
      ∧ ((∀ t ∈ tr, WellFormedTimes t) ↔ ∀ t ∈ tr, StaysBelowSecond t) :=
  ⟨_, run_commandedTwice, times_wellFormed_iff run_commandedTwice⟩

/-- The program is given 1.2 seconds in the nanoseconds. -/
theorem times_wellFormed_fails :
    ¬ ∀ tr s, (clockCalls started).Run tr s → ∀ t ∈ tr, WellFormedTimes t := by
  intro hall
  have hlast := hall _ _ run_commandedTwice
    ⟨commandedTwice, (.clockGettime .monotonic, .timespec ⟨10, 1200000000⟩),
      { commandedTwice with prevMonotonic := commandedTwice.currMonotonic }⟩ (by simp)
  have hnormal := hlast.timespec _ rfl
  exact absurd hnormal (by decide)

end Tmet.Mysyscall
