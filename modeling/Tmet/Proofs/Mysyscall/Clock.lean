import Tmet.Mysyscall.Timing

/-!
# `Tmet.Proofs.Mysyscall.Clock`: what the virtual clock shows

`value` is a time in nanoseconds. A read of a stopped clock adds one resolution to it, a
command adds what it exceeds the reads by, and both keep this exact whether the fields
are normalised or not. `clock_accounts` follows from it, by induction on the run.

`increase_resolution` carries a full second over and `set_time_increment` does not. So
the fields never go back between two reads, which is why the clock is strictly monotonic
in the order of the fields too (`clock_strictly_increases`).

The integers are exact here. `Times` has the arithmetic of the machine.
-/

set_option autoImplicit false

namespace Tmet.Mysyscall

open Tmet.Lib

/-! ### Times -/

namespace Timespec

/-- The time in nanoseconds. -/
def value (ts : Timespec) : ℤ := ts.tvSec * S_TO_NS + ts.tvNsec

/-- The nanoseconds are less than a second. -/
def Normal (ts : Timespec) : Prop := 0 ≤ ts.tvNsec ∧ ts.tvNsec < S_TO_NS

instance (ts : Timespec) : Decidable ts.Normal := inferInstanceAs (Decidable (_ ∧ _))

/-- The order of the pairs `(tv_sec, tv_nsec)`. -/
def LexLt (a b : Timespec) : Prop := a.tvSec < b.tvSec ∨ a.tvSec = b.tvSec ∧ a.tvNsec < b.tvNsec

/-- Both fields of `b` are at least those of `a`. -/
def FieldsLe (a b : Timespec) : Prop := a.tvSec ≤ b.tvSec ∧ a.tvNsec ≤ b.tvNsec

theorem FieldsLe.refl (a : Timespec) : a.FieldsLe a := ⟨le_refl _, le_refl _⟩

theorem FieldsLe.trans {a b c : Timespec} (h : a.FieldsLe b) (h' : b.FieldsLe c) : a.FieldsLe c :=
  ⟨h.1.trans h'.1, h.2.trans h'.2⟩

/-- Fields that do not go back, and are not both the same. -/
theorem FieldsLe.lt {a b : Timespec} (h : a.FieldsLe b) (hne : a ≠ b) :
    a.value < b.value ∧ a.LexLt b := by
  obtain ⟨hsec, hnsec⟩ := h
  have hdiff : a.tvSec < b.tvSec ∨ a.tvNsec < b.tvNsec := by
    by_contra hsame
    apply hne
    cases a
    cases b
    simp only [mk.injEq] at hsec hnsec hsame ⊢
    omega
  simp only [value, LexLt, S_TO_NS]
  omega

end Timespec

namespace Timing

theorem isTimeStopped_iff {t : Timing} :
    t.isTimeStopped = true ↔ t.prevMonotonic = t.currMonotonic := by
  rw [isTimeStopped, Bool.and_eq_true, beq_iff_eq, beq_iff_eq]
  constructor
  · intro h
    cases hprev : t.prevMonotonic
    cases hcurr : t.currMonotonic
    rw [hprev, hcurr] at h
    rw [Timespec.mk.injEq]
    exact h
  · intro h
    rw [h]
    exact ⟨rfl, rfl⟩

theorem currMonotonic_increaseResolution (t : Timing) :
    t.increaseResolution.currMonotonic
      = if S_TO_NS ≤ t.currMonotonic.tvNsec + t.resolution.tvNsec then
          ⟨t.currMonotonic.tvSec + 1 + t.resolution.tvSec,
            t.currMonotonic.tvNsec + t.resolution.tvNsec - S_TO_NS⟩
        else
          ⟨t.currMonotonic.tvSec + t.resolution.tvSec,
            t.currMonotonic.tvNsec + t.resolution.tvNsec⟩ := by
  simp only [increaseResolution, increaseResolutionWith, Arith.exact, ge_iff_le]
  by_cases hcarry : S_TO_NS ≤ t.currMonotonic.tvNsec + t.resolution.tvNsec
  · simp only [if_pos hcarry]
  · simp only [if_neg hcarry]

/-- The carry does not change the value. -/
theorem value_increaseResolution (t : Timing) :
    t.increaseResolution.currMonotonic.value = t.currMonotonic.value + t.resolution.value := by
  rw [currMonotonic_increaseResolution]
  split
  · simp only [Timespec.value, S_TO_NS]
    omega
  · simp only [Timespec.value, S_TO_NS]
    omega

/-- What a command adds to the clock. -/
def ahead (t : Timing) (d : ℤ) : ℤ := d - t.resolution.value * t.resolutionIncrement

theorem setTimeIncrement_of_le {t : Timing} {d : ℤ} (h : t.ahead d ≤ 0) :
    (t.setTimeIncrement d).currMonotonic = t.currMonotonic := by
  have hle : (t.resolution.tvSec * S_TO_NS + t.resolution.tvNsec) * t.resolutionIncrement ≥ d := by
    show d ≤ t.resolution.value * t.resolutionIncrement
    have : d - t.resolution.value * t.resolutionIncrement ≤ 0 := h
    omega
  exact if_pos hle

theorem setTimeIncrement_of_pos {t : Timing} {d : ℤ} (h : 0 < t.ahead d) :
    (t.setTimeIncrement d).currMonotonic
      = ⟨t.currMonotonic.tvSec + t.ahead d / S_TO_NS,
          t.currMonotonic.tvNsec + t.ahead d % S_TO_NS⟩ := by
  have hlt : ¬ (t.resolution.tvSec * S_TO_NS + t.resolution.tvNsec) * t.resolutionIncrement ≥ d := by
    show ¬ d ≤ t.resolution.value * t.resolutionIncrement
    have : 0 < d - t.resolution.value * t.resolutionIncrement := h
    omega
  have hset : (t.setTimeIncrement d).currMonotonic
      = ⟨t.currMonotonic.tvSec + (t.ahead d).tdiv S_TO_NS,
          t.currMonotonic.tvNsec + (t.ahead d).tmod S_TO_NS⟩ := if_neg hlt
  -- what is divided is positive, so the rounding of C does not matter
  rw [hset, Int.tdiv_eq_ediv_of_nonneg (le_of_lt h), Int.tmod_eq_emod_of_nonneg (le_of_lt h)]

theorem value_setTimeIncrement (t : Timing) (d : ℤ) :
    (t.setTimeIncrement d).currMonotonic.value = t.currMonotonic.value + max 0 (t.ahead d) := by
  rcases le_or_gt (t.ahead d) 0 with hle | hpos
  · rw [setTimeIncrement_of_le hle, max_eq_left hle, add_zero]
  · rw [setTimeIncrement_of_pos hpos, max_eq_right (le_of_lt hpos)]
    simp only [Timespec.value, S_TO_NS]
    omega

/-- A command adds to each of the fields. -/
theorem fieldsLe_setTimeIncrement (t : Timing) (d : ℤ) :
    t.currMonotonic.FieldsLe (t.setTimeIncrement d).currMonotonic := by
  rcases le_or_gt (t.ahead d) 0 with hle | hpos
  · rw [setTimeIncrement_of_le hle]
    exact .refl _
  · rw [setTimeIncrement_of_pos hpos]
    simp only [Timespec.FieldsLe, S_TO_NS]
    omega

/-- What `increase_time` does: a stopped clock advances by one resolution, another one
shows what the commands have added. -/
theorem increaseTimeWith_cases {A : Arith} {t t' : Timing} {wanted : Bool}
    {increment : Option Timespec} (h : t.increaseTimeWith A wanted = some (increment, t')) :
    t.isTimeStopped = true ∧ increment = (if wanted then some t.resolution else none)
        ∧ t' = { t.increaseResolutionWith A with
            prevMonotonic := (t.increaseResolutionWith A).currMonotonic }
      ∨ t.isTimeStopped = false ∧ increment = (if wanted then t.getTimeIncrementWith A else none)
        ∧ t' = { t with prevMonotonic := t.currMonotonic } := by
  rw [increaseTimeWith] at h
  cases hstopped : t.isTimeStopped with
  | true =>
      rw [hstopped, if_pos rfl] at h
      cases h
      exact Or.inl ⟨rfl, rfl, rfl⟩
  | false =>
      rw [hstopped, if_neg Bool.false_ne_true] at h
      -- the sum of the commands is only computed where it is asked for
      cases wanted with
      | true =>
          rw [if_pos rfl, Option.map_eq_some_iff] at h
          obtain ⟨inc, hinc, heq⟩ := h
          cases heq
          exact Or.inr ⟨rfl, by rw [if_pos rfl, hinc], rfl⟩
      | false =>
          cases h
          exact Or.inr ⟨rfl, rfl, rfl⟩

/-- The same for the exact clock. -/
theorem increaseTime_cases {t t' : Timing} {wanted : Bool} {increment : Option Timespec}
    (h : t.increaseTime wanted = some (increment, t')) :
    t.isTimeStopped = true ∧ increment = (if wanted then some t.resolution else none)
        ∧ t' = { t.increaseResolution with
            prevMonotonic := t.increaseResolution.currMonotonic }
      ∨ t.isTimeStopped = false ∧ increment = (if wanted then t.getTimeIncrement else none)
        ∧ t' = { t with prevMonotonic := t.currMonotonic } :=
  increaseTimeWith_cases h

end Timing

/-! ### Accounting -/

/-- `base` is the value of the clock after the latest command, and `reads` counts the
reads since then that found the clock stopped. -/
structure Account where
  base : ℤ
  reads : ℕ

def Account.next (a : Account) (t : Step Timing (ClockOp × Option Timespec)) : Account :=
  match t.act.1 with
  | .increaseTime _ => if t.src.isTimeStopped then { a with reads := a.reads + 1 } else a
  | .setTimeIncrement _ => ⟨t.dst.currMonotonic.value, 0⟩

/-- The account of a run. -/
def account (start : Timing) (tr : List (Step Timing (ClockOp × Option Timespec))) : Account :=
  tr.foldl Account.next ⟨start.currMonotonic.value, 0⟩

theorem account_snoc (start : Timing) (tr : List (Step Timing (ClockOp × Option Timespec)))
    (t : Step Timing (ClockOp × Option Timespec)) :
    account start (tr ++ [t]) = (account start tr).next t := by
  rw [account, List.foldl_append]
  rfl

/-- The clock agrees with the account. -/
structure Balanced (res : Timespec) (a : Account) (t : Timing) : Prop where
  resolution : t.resolution = res
  increment : t.resolutionIncrement = a.reads
  value : t.currMonotonic.value = a.base + res.value * a.reads

theorem Balanced.step {res : Timespec} {a : Account} {start t t' : Timing}
    {op : ClockOp × Option Timespec} (h : Balanced res a t)
    (hstep : (clock start).step t op t') : Balanced res (a.next ⟨t, op, t'⟩) t' := by
  obtain ⟨op, increment⟩ := op
  cases op with
  | increaseTime wanted =>
      rcases Timing.increaseTime_cases hstep with ⟨hstopped, -, rfl⟩ | ⟨hmoved, -, rfl⟩
      · -- one more read, and one more resolution
        simp only [Account.next, hstopped, if_true]
        refine ⟨h.resolution, ?_, ?_⟩
        · show t.resolutionIncrement + 1 = ((a.reads + 1 : ℕ) : ℤ)
          rw [h.increment, Nat.cast_succ]
        · show t.increaseResolution.currMonotonic.value = _
          rw [Timing.value_increaseResolution, h.value, h.resolution, Nat.cast_succ]
          ring
      · simp only [Account.next, hmoved, Bool.false_eq_true, if_false]
        exact ⟨h.resolution, h.increment, h.value⟩
  | setTimeIncrement d =>
      obtain ⟨-, rfl⟩ := hstep
      refine ⟨h.resolution, rfl, ?_⟩
      simp [Account.next]

theorem Balanced.of_run {res realtime : Timespec} {tr : List (Step Timing _)} {s : Timing}
    (h : (clock (.start res realtime)).Run tr s) :
    Balanced res (account (.start res realtime) tr) s := by
  refine h.invariant (P := fun tr s =>
    Balanced res (account (.start res realtime) tr) s) ?_ ?_
  · rintro s rfl
    refine ⟨rfl, rfl, ?_⟩
    simp [account]
  · intro tr s op s' _ hb hstep
    rw [account_snoc]
    exact hb.step hstep

/-- After the latest command the clock shows `base`. The reads since then that found it
stopped have added one resolution each, their number is the counter, and the next command
takes them into account. -/
theorem clock_accounts {res realtime : Timespec} {tr : List (Step Timing _)} {s : Timing}
    (h : (clock (.start res realtime)).Run tr s) :
    let a := account (.start res realtime) tr
    s.currMonotonic.value = a.base + res.value * a.reads
      ∧ s.resolutionIncrement = a.reads
      ∧ ∀ d, (s.setTimeIncrement d).currMonotonic.value
          = a.base + max d (res.value * a.reads) := by
  intro a
  have hb := Balanced.of_run h
  refine ⟨hb.value, hb.increment, fun d => ?_⟩
  rw [Timing.value_setTimeIncrement, hb.value, Timing.ahead, hb.resolution, hb.increment]
  show a.base + res.value * a.reads + _ = _
  generalize res.value * (a.reads : ℤ) = added
  show a.base + added + max 0 (d - added) = a.base + max d added
  omega

/-! ### Monotonicity -/

/-- The clock after the latest read of a run. -/
def lastReading (start : Timing) (tr : List (Step Timing (ClockOp × Option Timespec))) :
    Timespec :=
  tr.foldl (fun last t =>
    match t.act.1 with
    | .increaseTime _ => t.dst.currMonotonic
    | .setTimeIncrement _ => last) start.currMonotonic

/-- Between two reads the fields do not go back. -/
structure Advancing (last : Timespec) (t : Timing) : Prop where
  resolution : t.resolution = Timing.defaultResolution
  prev : t.prevMonotonic = last
  fields : t.prevMonotonic.FieldsLe t.currMonotonic

theorem Advancing.of_run {realtime : Timespec} {tr : List (Step Timing _)} {s : Timing}
    (h : (clock (.start Timing.defaultResolution realtime)).Run tr s) :
    Advancing (lastReading (.start Timing.defaultResolution realtime) tr) s := by
  refine h.invariant (P := fun tr s =>
    Advancing (lastReading (.start Timing.defaultResolution realtime) tr) s) ?_ ?_
  · rintro s rfl
    exact ⟨rfl, rfl, .refl _⟩
  · rintro tr s ⟨op, increment⟩ s' _ ha hstep
    rw [lastReading, List.foldl_append]
    cases op with
    | increaseTime wanted =>
        rcases Timing.increaseTime_cases hstep with ⟨-, -, rfl⟩ | ⟨-, -, rfl⟩
        -- a read sets `prev_monotonic` to the time it shows
        · exact ⟨ha.resolution, rfl, .refl _⟩
        · exact ⟨ha.resolution, rfl, .refl _⟩
    | setTimeIncrement d =>
        obtain ⟨-, rfl⟩ := hstep
        exact ⟨ha.resolution, ha.prev, ha.fields.trans (Timing.fieldsLe_setTimeIncrement s d)⟩

/-- A read of a stopped clock. -/
theorem lt_increaseResolution {t : Timing} (h : t.resolution = Timing.defaultResolution) :
    t.currMonotonic.value < t.increaseResolution.currMonotonic.value
      ∧ t.currMonotonic.LexLt t.increaseResolution.currMonotonic := by
  constructor
  · rw [Timing.value_increaseResolution, h]
    simp only [Timespec.value, Timing.defaultResolution, US_TO_NS, S_TO_NS]
    omega
  · rw [Timing.currMonotonic_increaseResolution, h]
    split
    · simp only [Timing.defaultResolution, Timespec.LexLt, S_TO_NS, US_TO_NS]
      omega
    · simp only [Timing.defaultResolution, Timespec.LexLt, US_TO_NS]
      omega

/-- The next read succeeds, whatever its argument is. The clock is then greater than after
the read before, in value and in the order of the fields, and what is written through the
argument is the difference. -/
theorem clock_strictly_increases {realtime : Timespec} {tr : List (Step Timing _)} {s : Timing}
    (h : (clock (.start Timing.defaultResolution realtime)).Run tr s) (wanted : Bool) :
    let last := lastReading (.start Timing.defaultResolution realtime) tr
    ∃ increment s', s.increaseTime wanted = some (increment, s')
      ∧ last.value < s'.currMonotonic.value ∧ last.LexLt s'.currMonotonic
      ∧ increment.isSome = wanted
      ∧ ∀ i ∈ increment, i.value = s'.currMonotonic.value - last.value := by
  intro last
  have ha := Advancing.of_run h
  have hlast : s.prevMonotonic = last := ha.prev
  rw [← hlast]
  cases hstopped : s.isTimeStopped with
  | true =>
      have hsame := Timing.isTimeStopped_iff.mp hstopped
      obtain ⟨hvalue, hlex⟩ := lt_increaseResolution ha.resolution
      rw [Timing.increaseTime, Timing.increaseTimeWith, hstopped, if_pos rfl, hsame]
      refine ⟨_, _, rfl, hvalue, hlex, ?_, ?_⟩
      · cases wanted <;> rfl
      · intro i hi
        cases wanted with
        | true =>
            cases hi
            show s.resolution.value = s.increaseResolution.currMonotonic.value - _
            rw [Timing.value_increaseResolution]
            omega
        | false => cases hi
  | false =>
      have hne : s.prevMonotonic ≠ s.currMonotonic := by
        intro heq
        rw [Timing.isTimeStopped_iff.mpr heq] at hstopped
        cases hstopped
      obtain ⟨hvalue, hlex⟩ := ha.fields.lt hne
      -- the nanoseconds did not go back, so there is no borrow and no assertion
      have hinc : s.getTimeIncrementWith .exact
          = some ⟨s.currMonotonic.tvSec - s.prevMonotonic.tvSec,
              s.currMonotonic.tvNsec - s.prevMonotonic.tvNsec⟩ := if_neg (not_lt.mpr ha.fields.2)
      rw [Timing.increaseTime, Timing.increaseTimeWith, hstopped, if_neg Bool.false_ne_true, hinc]
      cases wanted with
      | true =>
          refine ⟨_, _, rfl, hvalue, hlex, rfl, ?_⟩
          intro i hi
          cases hi
          simp only [Timespec.value, S_TO_NS]
          omega
      | false => exact ⟨_, _, rfl, hvalue, hlex, rfl, nofun⟩

/-! ### A read and a command -/

/-- The clock as it starts. -/
def started : Timing := .start Timing.defaultResolution Timing.defaultStartupRealtime

/-- One read, then a command for 1500 ns, of which the read has taken 1000. -/
def readOnce : Timing :=
  { started.increaseResolution with prevMonotonic := started.increaseResolution.currMonotonic }

theorem run_readOnce : (clock started).Run
    [⟨started, (.increaseTime true, some Timing.defaultResolution), readOnce⟩,
      ⟨readOnce, (.setTimeIncrement 1500, none), readOnce.setTimeIncrement 1500⟩]
    (readOnce.setTimeIncrement 1500) := by
  have hstart : (clock started).Run [] started := .nil rfl
  have hread : (clock started).step started (.increaseTime true, some Timing.defaultResolution)
      readOnce := by
    show started.increaseTime true = _
    decide
  have hset : (clock started).step readOnce (.setTimeIncrement 1500, none)
      (readOnce.setTimeIncrement 1500) := ⟨rfl, rfl⟩
  exact (hstart.snoc hread).snoc hset

theorem clock_accounts_readOnce :
    let s := readOnce.setTimeIncrement 1500
    s.currMonotonic.value = 10000001500 + 1000 * 0 ∧ s.resolutionIncrement = 0
      ∧ ∀ d, (s.setTimeIncrement d).currMonotonic.value = 10000001500 + max d (1000 * 0) :=
  clock_accounts run_readOnce

theorem clock_strictly_increases_readOnce :
    ∃ increment s', (readOnce.setTimeIncrement 1500).increaseTime true = some (increment, s')
      ∧ readOnce.currMonotonic.value < s'.currMonotonic.value
      ∧ readOnce.currMonotonic.LexLt s'.currMonotonic ∧ increment.isSome = true
      ∧ ∀ i ∈ increment, i.value = s'.currMonotonic.value - readOnce.currMonotonic.value :=
  clock_strictly_increases run_readOnce true

end Tmet.Mysyscall
