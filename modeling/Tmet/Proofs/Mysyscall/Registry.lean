import Tmet.Lib.Simulation
import Tmet.Mysyscall.Common

/-!
# `Tmet.Proofs.Mysyscall.Registry`: every function has its own entry

What the table of `common.c` is for is a `Usage`: for each function that is registered whether
it is intercepted, and how often it was used. The wrappers of the other modules work on such
tables, one entry for each function. Here it is shown that the array of 512 entries is one,
in whatever order the loader runs the constructors and whatever is called in between.

The argument is about numbers (`Numbers`). The library functions count down from 510 and
there are six of them, so they stay above the system calls; a library function whose
constructor has not run has the number 0, which is no function's.
-/

set_option autoImplicit false

namespace Tmet.Mysyscall

open Tmet.Lib

variable {L : Loader} {s s' : Registry} {f : Func}

/-! ### Usage -/

/-- The loader has bound the name to the function of the library. -/
def Loader.intercepts (L : Loader) (f : Func) : Bool := decide (L.dlsymDefault f.name = L.fake f)

/-- The function that is called in its place. -/
def Loader.realOf (L : Loader) (f : Func) : ℕ :=
  if L.intercepts f then L.dlsymNext f.name else L.dlsymDefault f.name

/-- The bit of a library function. -/
def Func.libraryBit : Func → BitVec 32
  | .sys _ => 0
  | .lib _ => STATE_LIBRARY

/-- The state that a constructor leaves. -/
def Loader.stateOf (L : Loader) (f : Func) : BitVec 32 :=
  (if L.intercepts f then STATE_ENABLED else STATE_DISABLED) ||| f.libraryBit

/-- How often a function was called, and how often with something concerned: these are
numbers, and the counters of the table are what is left of them in 64 bits. -/
structure FuncUsage where
  count : ℕ
  concernedCount : ℕ
  enabled : Bool

/-- The entry of a function with its counters. -/
def Loader.entry (L : Loader) (f : Func) (e : FuncUsage) : RegFuncT :=
  ⟨f.name, .ofNat 64 e.count, .ofNat 64 e.concernedCount, L.realOf f, L.fake f, L.stateOf f⟩

/-- For each function that is registered how it is used, and whether the sum has its name. -/
structure Usage where
  entry : Func → Option FuncUsage
  inited : Bool

/-- The entry of `f` is changed, if there is one and it is enabled. -/
def Usage.use (u : Usage) (f : Func) (k : FuncUsage → FuncUsage) : Usage :=
  { u with
    entry := Function.update u.entry f ((u.entry f).map fun e => if e.enabled then k e else e) }

theorem Usage.use_of_disabled (u : Usage) (f : Func) (k : FuncUsage → FuncUsage)
    (h : ∀ e, u.entry f = some e → e.enabled = false) : u.use f k = u := by
  have hsame : ((u.entry f).map fun e => if e.enabled then k e else e) = u.entry f := by
    cases he : u.entry f with
    | none => rfl
    | some e => simp [h e he]
  rw [Usage.use, hsame, Function.update_eq_self]

/-- The runs of a `Usage`. -/
def usage (L : Loader) : System Usage RegistryAct where
  init u := u = ⟨fun _ => none, false⟩
  step u a u' :=
    match a with
    | .initCommon => u' = { u with inited := true }
    | .register f => u.entry f = none
        ∧ u' = { u with entry := Function.update u.entry f (some ⟨0, 0, L.intercepts f⟩) }
    | .count f => u' = u.use f fun e => { e with count := e.count + 1 }
    | .log f => u' = u.use f fun e => { e with concernedCount := e.concernedCount + 1 }

/-! ### Numbers -/

theorem SysFunc.nr_lt (f : SysFunc) : f.nr < 300 := by cases f <;> decide

theorem SysFunc.nr_pos (f : SysFunc) : 0 < f.nr := by cases f <;> decide

theorem SysFunc.nr_injective : Function.Injective SysFunc.nr := by
  intro f g h
  cases f <;> cases g <;> first | rfl | cases h

theorem strncpy_name (f : Func) : strncpy 31 f.name = f.name := by
  rcases f with f | f <;> cases f <;> rfl

/-- The library functions that are registered. -/
def Registry.libs (s : Registry) : Finset LibFunc :=
  Finset.univ.filter fun g => .lib g ∈ s.registered

/-- The library functions have the numbers from `NR_self_defined_func` to 510, each its own. -/
structure Numbers (s : Registry) : Prop where
  left : s.nrSelfDefinedFunc + s.libs.card = 510
  libNr : ∀ g ∈ s.libs, s.nrSelfDefinedFunc < s.libNr g ∧ s.libNr g ≤ 510
  libNr_zero : ∀ g ∉ s.libs, s.libNr g = 0
  libNr_inj : ∀ g ∈ s.libs, ∀ g' ∈ s.libs, s.libNr g = s.libNr g' → g = g'

namespace Numbers

@[simp] theorem mem_libs {g : LibFunc} : g ∈ s.libs ↔ .lib g ∈ s.registered := by
  simp [Registry.libs]

/-- Six functions take six numbers. -/
theorem le_left (h : Numbers s) : 504 ≤ s.nrSelfDefinedFunc := by
  have hcard : s.libs.card ≤ 6 := Finset.card_le_univ s.libs
  have hleft := h.left
  omega

/-- As long as a function is not registered, one number more is left. -/
theorem lt_left (h : Numbers s) {g : LibFunc} (hg : .lib g ∉ s.registered) :
    505 ≤ s.nrSelfDefinedFunc := by
  have hcard : (insert g s.libs).card ≤ 6 := Finset.card_le_univ (insert g s.libs)
  rw [Finset.card_insert_of_notMem (by simpa using hg)] at hcard
  have hleft := h.left
  omega

theorem nr_le (h : Numbers s) (f : Func) : s.nr f ≤ 510 := by
  cases f with
  | sys f =>
      have hlt := f.nr_lt
      show f.nr ≤ 510
      omega
  | lib g =>
      show s.libNr g ≤ 510
      by_cases hg : g ∈ s.libs
      · exact (h.libNr g hg).2
      · simp [h.libNr_zero g hg]

theorem nr_ne_summary (h : Numbers s) (f : Func) : s.nr f ≠ SUMMARY := by
  have hle := h.nr_le f
  show s.nr f ≠ 511
  omega

/-- A function that is registered shares its entry with no other one. -/
theorem eq_of_nr (h : Numbers s) {f' : Func} (hf : f ∈ s.registered) (heq : s.nr f = s.nr f') :
    f = f' := by
  have hleft := h.le_left
  cases f with
  | sys f =>
      have hpos := f.nr_pos
      have hlt := f.nr_lt
      cases f' with
      | sys f' => rw [SysFunc.nr_injective heq]
      | lib g' =>
          -- the number is 0, or above the system calls
          have hnr : f.nr = s.libNr g' := heq
          by_cases hg' : g' ∈ s.libs
          · have habove := (h.libNr g' hg').1
            omega
          · have hzero := h.libNr_zero g' hg'
            omega
  | lib g =>
      have hg : g ∈ s.libs := by simpa using hf
      have habove := (h.libNr g hg).1
      cases f' with
      | sys f' =>
          have hlt := f'.nr_lt
          have hnr : s.libNr g = f'.nr := heq
          omega
      | lib g' =>
          have hnr : s.libNr g = s.libNr g' := heq
          by_cases hg' : g' ∈ s.libs
          · rw [h.libNr_inj g hg g' hg' hnr]
          · have hzero := h.libNr_zero g' hg'
            omega

theorem nr_injOn (h : Numbers s) : Set.InjOn s.nr s.registered :=
  fun _ hf _ _ heq => h.eq_of_nr hf heq

end Numbers

theorem Numbers.start : Numbers .start where
  left := rfl
  libNr g hg := by simp [Registry.start] at hg
  libNr_zero _ _ := rfl
  libNr_inj g hg := by simp [Registry.start] at hg

/-! ### What a constructor does -/

/-- `register_intercepted` on an entry that is not in use. Only a library function has the
number that was just taken. -/
theorem registerIntercepted_eq {nr : ℕ} (hnr : nr < SUMMARY) (hunused : s.regFuncDict nr = .unused)
    (hbit : f.libraryBit = if nr = s.nrSelfDefinedFunc + 1 then STATE_LIBRARY else 0) :
    s.registerIntercepted L nr f = some
      { s with
        real := Function.update s.real f (L.realOf f)
        maxFuncNameLen :=
          if L.intercepts f then max s.maxFuncNameLen f.name.length else s.maxFuncNameLen
        regFuncDict := (s.regFuncDict.modify nr fun _ => L.entry f ⟨0, 0, L.intercepts f⟩).modify
          SUMMARY fun e => e.counted (L.intercepts f) } := by
  have hne : nr ≠ SUMMARY := hnr.ne
  have hlt : nr < NR_REG_FUNC_DICT := hnr.trans (by decide)
  -- the test for a library function sets its bit, and no bit otherwise
  have hflag (d : Dict ℕ) :
      (if nr = s.nrSelfDefinedFunc + 1 then
        d.modify nr fun e => { e with state := e.state ||| STATE_LIBRARY } else d)
        = d.modify nr fun e => { e with state := e.state ||| f.libraryBit } := by
    rw [hbit]
    split
    · rfl
    · simp [Dict.modify]
  -- all the changes of the entry, one after the other
  have hentry (st : BitVec 32) (hst : st ||| f.libraryBit = L.stateOf f) :
      (s.regFuncDict.modify nr fun e =>
        { e with
          name := strncpy 31 f.name
          realFunc := L.realOf f
          fakeFunc := L.fake f
          state := st ||| f.libraryBit })
        = s.regFuncDict.modify nr fun _ => L.entry f ⟨0, 0, L.intercepts f⟩ := by
    rw [Dict.modify, Dict.modify, hunused, hst, strncpy_name]
    rfl
  rw [Registry.registerIntercepted, if_pos hlt]
  dsimp only
  by_cases hint : L.dlsymDefault f.name = L.fake f
  · have hintercepts : L.intercepts f = true := decide_eq_true hint
    have hreal : L.realOf f = L.dlsymNext f.name := if_pos hintercepts
    have hstate : STATE_ENABLED ||| f.libraryBit = L.stateOf f := by
      rw [Loader.stateOf, if_pos hintercepts]
    rw [if_neg (not_not_intro hint)]
    simp only [hflag]
    simp only [Dict.modify_comm _ hne.symm, Dict.modify_modify]
    rw [← hentry STATE_ENABLED hstate, hreal, if_pos hintercepts, hintercepts]
    rfl
  · have hintercepts : L.intercepts f = false := decide_eq_false hint
    have hreal : L.realOf f = L.dlsymDefault f.name := if_neg (by simp [hintercepts])
    have hstate : STATE_DISABLED ||| f.libraryBit = L.stateOf f := by
      rw [Loader.stateOf, if_neg (by simp [hintercepts])]
    rw [if_pos hint]
    simp only [hflag]
    simp only [Dict.modify_modify]
    rw [← hentry STATE_DISABLED hstate, hreal, if_neg (by simp [hintercepts]), hintercepts]
    rfl

/-- The constructor of `f` has taken its number. -/
structure Takes (s : Registry) (f : Func) (s' : Registry) : Prop where
  numbers : Numbers s'
  registered : s'.registered = insert f s.registered
  regFuncDict : s'.regFuncDict = s.regFuncDict
  real : s'.real = s.real
  maxFuncNameLen : s'.maxFuncNameLen = s.maxFuncNameLen
  isInited : s'.isInited = s.isInited
  nr : ∀ f' ∈ s.registered, s'.nr f' = s.nr f'
  bit : f.libraryBit = if s'.nr f = s'.nrSelfDefinedFunc + 1 then STATE_LIBRARY else 0

/-- A system call has its number. -/
theorem takes_sys (h : Numbers s) (g : SysFunc) :
    Takes s (.sys g) { s with registered := insert (.sys g) s.registered } := by
  have hlibs : Registry.libs { s with registered := insert (.sys g) s.registered } = s.libs := by
    ext g'
    simp
  refine ⟨⟨?_, ?_, ?_, ?_⟩, rfl, rfl, rfl, rfl, rfl, fun _ _ => rfl, ?_⟩
  · rw [hlibs]
    exact h.left
  · rw [hlibs]
    exact h.libNr
  · rw [hlibs]
    exact h.libNr_zero
  · rw [hlibs]
    exact h.libNr_inj
  · have hleft := h.le_left
    have hlt := g.nr_lt
    have hne : g.nr ≠ s.nrSelfDefinedFunc + 1 := by omega
    exact (if_neg hne).symm

/-- A library function takes the next one. -/
theorem takes_lib (h : Numbers s) {g : LibFunc} (hg : .lib g ∉ s.registered) :
    Takes s (.lib g)
      { s with
        registered := insert (.lib g) s.registered
        libNr := Function.update s.libNr g s.nrSelfDefinedFunc
        nrSelfDefinedFunc := s.nrSelfDefinedFunc - 1 } := by
  have hleft := h.lt_left hg
  have hnotin : g ∉ s.libs := by simpa using hg
  have hlibs : Registry.libs
      { s with
        registered := insert (.lib g) s.registered
        libNr := Function.update s.libNr g s.nrSelfDefinedFunc
        nrSelfDefinedFunc := s.nrSelfDefinedFunc - 1 } = insert g s.libs := by
    ext g'
    simp
  have hother {g' : LibFunc} (hg' : g' ∈ s.libs) :
      Function.update s.libNr g s.nrSelfDefinedFunc g' = s.libNr g' := by
    refine Function.update_of_ne ?_ _ _
    rintro rfl
    exact hnotin hg'
  refine ⟨⟨?_, ?_, ?_, ?_⟩, rfl, rfl, rfl, rfl, rfl, ?_, ?_⟩
  · have hcount := h.left
    rw [hlibs, Finset.card_insert_of_notMem hnotin]
    show s.nrSelfDefinedFunc - 1 + (s.libs.card + 1) = 510
    omega
  · rw [hlibs]
    intro g' hg'
    show s.nrSelfDefinedFunc - 1 < Function.update s.libNr g s.nrSelfDefinedFunc g'
      ∧ Function.update s.libNr g s.nrSelfDefinedFunc g' ≤ 510
    rcases Finset.mem_insert.mp hg' with rfl | hg'
    · rw [Function.update_self]
      have hcount := h.left
      omega
    · rw [hother hg']
      have habove := h.libNr g' hg'
      omega
  · rw [hlibs]
    intro g' hg'
    rw [Finset.mem_insert, not_or] at hg'
    show Function.update s.libNr g s.nrSelfDefinedFunc g' = 0
    rw [Function.update_of_ne hg'.1]
    exact h.libNr_zero g' hg'.2
  · rw [hlibs]
    intro g' hg' g'' hg'' heq
    replace heq : Function.update s.libNr g s.nrSelfDefinedFunc g'
      = Function.update s.libNr g s.nrSelfDefinedFunc g'' := heq
    rcases Finset.mem_insert.mp hg' with rfl | hold'
    · rcases Finset.mem_insert.mp hg'' with rfl | hold''
      · rfl
      · rw [Function.update_self, hother hold''] at heq
        have habove := (h.libNr g'' hold'').1
        omega
    · rcases Finset.mem_insert.mp hg'' with rfl | hold''
      · rw [Function.update_self, hother hold'] at heq
        have habove := (h.libNr g' hold').1
        omega
      · rw [hother hold', hother hold''] at heq
        exact h.libNr_inj g' hold' g'' hold'' heq
  · intro f' hf'
    cases f' with
    | sys _ => rfl
    | lib g' => exact hother (by simpa using hf')
  · show STATE_LIBRARY = if Function.update s.libNr g s.nrSelfDefinedFunc g
      = s.nrSelfDefinedFunc - 1 + 1 then STATE_LIBRARY else 0
    rw [Function.update_self, if_pos (by omega)]

theorem exists_takes (h : Numbers s) (hf : f ∉ s.registered) :
    ∃ s₁, Takes s f s₁ ∧ s.register L f = s₁.registerIntercepted L (s₁.nr f) f := by
  cases f with
  | sys g => exact ⟨_, takes_sys h g, rfl⟩
  | lib g =>
      refine ⟨_, takes_lib h hf, ?_⟩
      show Registry.registerIntercepted L _ s.nrSelfDefinedFunc _
        = Registry.registerIntercepted L _ (Function.update s.libNr g s.nrSelfDefinedFunc g) _
      rw [Function.update_self]

/-! ### The table as a usage -/

/-- The whole table. Each function that is registered has its entry, the last entry sums up,
and no other is in use. -/
structure Represents (L : Loader) (s : Registry) (u : Usage) : Prop where
  numbers : Numbers s
  registered : ∀ f, f ∈ s.registered ↔ (u.entry f).isSome
  entry : ∀ f e, u.entry f = some e →
    e.enabled = L.intercepts f ∧ s.regFuncDict (s.nr f) = L.entry f e
  unused : ∀ i, i ≠ SUMMARY → (∀ f ∈ s.registered, s.nr f ≠ i) → s.regFuncDict i = .unused
  summary : s.regFuncDict SUMMARY
    = ⟨if u.inited then "FUNCS" else "", .ofNat 64 s.registered.card,
        .ofNat 64 (s.registered.filter fun f => L.intercepts f).card, 0, 0, 0⟩
  isInited : s.isInited = u.inited
  real : ∀ f, s.real f = if f ∈ s.registered then L.realOf f else 0
  maxFuncNameLen : s.maxFuncNameLen
    = (s.registered.filter fun f => L.intercepts f).sup fun f => f.name.length

theorem Func.libraryBit_cases (f : Func) : f.libraryBit = 0 ∨ f.libraryBit = STATE_LIBRARY := by
  cases f with
  | sys _ => exact Or.inl rfl
  | lib _ => exact Or.inr rfl

theorem enabled_entry (L : Loader) (f : Func) (e : FuncUsage) :
    (L.entry f e).enabled = L.intercepts f := by
  show decide (L.stateOf f &&& STATE_ENABLED ≠ 0) = L.intercepts f
  rw [Loader.stateOf]
  generalize L.intercepts f = b
  rcases f.libraryBit_cases with h | h <;> rw [h] <;> revert b <;> decide

theorem library_entry (L : Loader) (f : Func) (e : FuncUsage) :
    (L.entry f e).library = decide (f.libraryBit = STATE_LIBRARY) := by
  show decide (L.stateOf f &&& STATE_LIBRARY ≠ 0) = _
  rw [Loader.stateOf]
  generalize L.intercepts f = b
  rcases f.libraryBit_cases with h | h <;> rw [h] <;> revert b <;> decide

theorem represents_start (L : Loader) : Represents L .start ⟨fun _ => none, false⟩ where
  numbers := .start
  registered f := by simp [Registry.start]
  entry f e h := by cases h
  unused _ _ _ := rfl
  summary := rfl
  isInited := rfl
  real f := by simp [Registry.start]
  maxFuncNameLen := rfl

namespace Represents

variable {u : Usage}

theorem initCommon (h : Represents L s u) :
    Represents L s.initCommon { u with inited := true } := by
  rw [Registry.initCommon]
  cases hinited : s.isInited with
  | true =>
      have hu : u = { u with inited := true } := by
        rw [← h.isInited.symm.trans hinited]
      rw [if_pos rfl, ← hu]
      exact h
  | false =>
      have hname : u.inited = false := h.isInited.symm.trans hinited
      rw [if_neg (by simp)]
      refine ⟨⟨h.numbers.left, h.numbers.libNr, h.numbers.libNr_zero, h.numbers.libNr_inj⟩,
        h.registered, fun f e he => ⟨(h.entry f e he).1, ?_⟩, fun i hi hother => ?_, ?_, rfl,
        h.real, h.maxFuncNameLen⟩
      · show Function.update s.regFuncDict SUMMARY _ (s.nr f) = _
        rw [Function.update_of_ne (h.numbers.nr_ne_summary f)]
        exact (h.entry f e he).2
      · show Function.update s.regFuncDict SUMMARY _ i = _
        rw [Function.update_of_ne hi]
        exact h.unused i hi hother
      · have hself := Function.update_self SUMMARY
          ({ s.regFuncDict SUMMARY with name := "FUNCS" } : RegFuncT) s.regFuncDict
        exact hself.trans (by rw [h.summary]; rfl)

/-- A function that is not registered has an entry that is not in use. -/
theorem unused_nr (h : Represents L s u) (hf : f ∉ s.registered) :
    s.regFuncDict (s.nr f) = .unused := by
  refine h.unused _ (h.numbers.nr_ne_summary f) fun f' hf' heq => ?_
  exact hf (h.numbers.eq_of_nr hf' heq ▸ hf')

/-- What a call does to the entry of its function. -/
theorem use (h : Represents L s u) (f : Func) {k : FuncUsage → FuncUsage}
    {k' : RegFuncT → RegFuncT} (hk : ∀ e, k' (L.entry f e) = L.entry f (k e))
    (henabled : ∀ e, (k e).enabled = e.enabled) :
    Represents L
      (if (s.regFuncDict (s.nr f)).enabled then
        { s with regFuncDict := s.regFuncDict.modify (s.nr f) k' } else s)
      (u.use f k) := by
  cases he : u.entry f with
  | none =>
      have hf : f ∉ s.registered := by simp [h.registered, he]
      rw [h.unused_nr hf, if_neg (by decide), u.use_of_disabled f k (by simp [he])]
      exact h
  | some e =>
      have hf : f ∈ s.registered := by simp [h.registered, he]
      obtain ⟨hintercepts, hentry⟩ := h.entry f e he
      rw [hentry, enabled_entry, ← hintercepts]
      cases hon : e.enabled with
      | false =>
          rw [if_neg (by simp), u.use_of_disabled f k (by simp [he, hon])]
          exact h
      | true =>
          have hused (f' : Func) : (u.use f k).entry f'
              = if f' = f then some (k e) else u.entry f' := by
            by_cases hf' : f' = f
            · simp [Usage.use, hf', he, hon]
            · simp [Usage.use, hf']
          rw [if_pos rfl]
          refine ⟨⟨h.numbers.left, h.numbers.libNr, h.numbers.libNr_zero, h.numbers.libNr_inj⟩,
            fun f' => ?_, fun f' e' he' => ?_, fun i hi hother => ?_, ?_, h.isInited, h.real,
            h.maxFuncNameLen⟩
          · rw [hused]
            by_cases hf' : f' = f
            · simp [hf', hf]
            · simp [hf', h.registered]
          · rw [hused] at he'
            show _ ∧ Function.update s.regFuncDict (s.nr f) _ (s.nr f') = _
            by_cases hf' : f' = f
            · subst hf'
              rw [if_pos rfl] at he'
              cases he'
              refine ⟨(henabled e).trans hintercepts, ?_⟩
              rw [Function.update_self, hentry, hk]
            · rw [if_neg hf'] at he'
              have hreg' : f' ∈ s.registered := by simp [h.registered, he']
              have hne : s.nr f' ≠ s.nr f := fun heq => hf' (h.numbers.eq_of_nr hreg' heq)
              rw [Function.update_of_ne hne]
              exact h.entry f' e' he'
          · have hne : i ≠ s.nr f := fun heq => hother f hf heq.symm
            show Function.update s.regFuncDict (s.nr f) _ i = _
            rw [Function.update_of_ne hne]
            exact h.unused i hi hother
          · show Function.update s.regFuncDict (s.nr f) _ SUMMARY = _
            rw [Function.update_of_ne (h.numbers.nr_ne_summary f).symm]
            exact h.summary

/-- The constructor of a function does not fail, and gives it an entry of its own. -/
theorem register (h : Represents L s u) (hf : f ∉ s.registered) :
    ∃ s', s.register L f = some s' ∧ Represents L s'
      { u with entry := Function.update u.entry f (some ⟨0, 0, L.intercepts f⟩) } := by
  obtain ⟨s₁, htakes, heq⟩ := exists_takes (L := L) h.numbers hf
  have hreg := htakes.registered
  have hmem : f ∈ s₁.registered := by simp [hreg]
  have hsummary : s₁.nr f ≠ SUMMARY := htakes.numbers.nr_ne_summary f
  have hother (f' : Func) (hf' : f' ∈ s.registered) : s₁.nr f' ≠ s₁.nr f := by
    intro hnr
    obtain rfl := htakes.numbers.eq_of_nr hmem hnr.symm
    exact hf hf'
  have hunused : s₁.regFuncDict (s₁.nr f) = .unused := by
    rw [htakes.regFuncDict]
    refine h.unused _ hsummary fun f' hf' => ?_
    rw [← htakes.nr f' hf']
    exact hother f' hf'
  have hlt : s₁.nr f < SUMMARY := by
    have hle := htakes.numbers.nr_le f
    show s₁.nr f < 511
    omega
  rw [heq, registerIntercepted_eq hlt hunused htakes.bit, htakes.regFuncDict]
  generalize hd : Dict.modify (s.regFuncDict.modify (s₁.nr f) _) SUMMARY _ = d
  have hown : d (s₁.nr f) = L.entry f ⟨0, 0, L.intercepts f⟩ := by
    rw [← hd, Dict.modify_of_ne _ hsummary, Dict.modify_self]
  have hrest (i : ℕ) (hi : i ≠ SUMMARY) (hne : i ≠ s₁.nr f) : d i = s.regFuncDict i := by
    rw [← hd, Dict.modify_of_ne _ hi, Dict.modify_of_ne _ hne]
  have hsum : d SUMMARY = (s.regFuncDict SUMMARY).counted (L.intercepts f) := by
    rw [← hd, Dict.modify_self, Dict.modify_of_ne _ hsummary.symm]
  refine ⟨_, rfl, ⟨htakes.numbers.left, htakes.numbers.libNr, htakes.numbers.libNr_zero,
    htakes.numbers.libNr_inj⟩, fun f' => ?_, fun f' e' he' => ?_, fun i hi hfree => ?_, ?_,
    htakes.isInited.trans h.isInited, fun f' => ?_, ?_⟩
  · show f' ∈ s₁.registered ↔ _
    rw [hreg, Finset.mem_insert, h.registered f']
    by_cases hf' : f' = f <;> simp [hf']
  · show e'.enabled = L.intercepts f' ∧ d (s₁.nr f') = L.entry f' e'
    by_cases hf' : f' = f
    · subst hf'
      obtain rfl : ⟨0, 0, L.intercepts f'⟩ = e' := by simpa using he'
      exact ⟨rfl, hown⟩
    · have hold : u.entry f' = some e' := by simpa [hf'] using he'
      have hreg' : f' ∈ s.registered := by simp [h.registered, hold]
      rw [hrest _ (htakes.numbers.nr_ne_summary f') (hother f' hreg'), htakes.nr f' hreg']
      exact h.entry f' e' hold
  · have hne : i ≠ s₁.nr f := fun hnr => hfree f hmem hnr.symm
    refine (hrest i hi hne).trans (h.unused i hi fun f' hf' => ?_)
    rw [← htakes.nr f' hf']
    exact hfree f' (by simp [hreg, hf'])
  · show d SUMMARY = ⟨_, .ofNat 64 s₁.registered.card,
      .ofNat 64 (s₁.registered.filter fun f => L.intercepts f).card, 0, 0, 0⟩
    rw [hsum, h.summary, hreg, Finset.card_insert_of_notMem hf, Finset.filter_insert,
      BitVec.ofNat_add]
    cases L.intercepts f with
    | true =>
        have hnotin : f ∉ s.registered.filter fun f => L.intercepts f :=
          fun hin => hf (Finset.mem_filter.mp hin).1
        rw [if_pos rfl, Finset.card_insert_of_notMem hnotin, BitVec.ofNat_add]
        rfl
    | false => rfl
  · show Function.update s₁.real f (L.realOf f) f' = if f' ∈ s₁.registered then L.realOf f' else 0
    rw [htakes.real, hreg]
    by_cases hf' : f' = f
    · subst hf'
      simp
    · simp [hf', h.real]
  · show (if L.intercepts f then max s₁.maxFuncNameLen f.name.length else s₁.maxFuncNameLen)
      = (s₁.registered.filter fun f => L.intercepts f).sup fun f => f.name.length
    rw [htakes.maxFuncNameLen, h.maxFuncNameLen, hreg, Finset.filter_insert]
    split
    · rw [Finset.sup_insert, max_comm]
    · rfl

theorem checkCountIntercepted_eq (s : Registry) (nr : ℕ) :
    (s.checkCountIntercepted nr).2
      = if (s.regFuncDict nr).enabled then
          { s with
            regFuncDict := s.regFuncDict.modify nr fun e => { e with count := e.count + 1 } }
        else s := by
  rw [Registry.checkCountIntercepted, Dict.checkCountIntercepted, Dict.checkIntercept]
  cases (s.regFuncDict nr).enabled <;> rfl

theorem logIntercepted_eq (s : Registry) (nr : ℕ) :
    s.logIntercepted nr
      = if (s.regFuncDict nr).enabled then
          { s with
            regFuncDict := s.regFuncDict.modify nr fun e =>
              { e with concernedCount := e.concernedCount + 1 } }
        else s := by
  rw [Registry.logIntercepted, Dict.checkIntercept]
  cases (s.regFuncDict nr).enabled <;> rfl

/-- The step lemma of the refinement. -/
theorem step (h : Represents L s u) {a : RegistryAct} (hstep : (registry L).step s a s') :
    ∃ u', (usage L).step u a u' ∧ Represents L s' u' := by
  cases a with
  | initCommon =>
      obtain rfl := hstep
      exact ⟨_, rfl, h.initCommon⟩
  | register f =>
      obtain ⟨hf, hsome⟩ := hstep
      obtain ⟨s'', hs'', h'⟩ := h.register hf
      obtain rfl : s'' = s' := Option.some.inj (hs''.symm.trans hsome)
      exact ⟨_, ⟨by simpa [h.registered] using hf, rfl⟩, h'⟩
  | count f =>
      obtain rfl := hstep
      refine ⟨_, rfl, ?_⟩
      rw [checkCountIntercepted_eq]
      exact h.use f (fun e => by simp [Loader.entry, BitVec.ofNat_add]) (fun _ => rfl)
  | log f =>
      obtain rfl := hstep
      refine ⟨_, rfl, ?_⟩
      rw [logIntercepted_eq]
      exact h.use f (fun e => by simp [Loader.entry, BitVec.ofNat_add]) (fun _ => rfl)

end Represents

/-! ### Runs -/

theorem represents_of_run {tr : List (Step Registry RegistryAct)} (h : (registry L).Run tr s) :
    ∃ tr' u, (usage L).Run tr' u ∧ Represents L s u ∧ tr'.map Step.act = tr.map Step.act := by
  refine h.simulate_steps (fun s hs => ?_) fun _ _ _ _ hrep => hrep.step
  obtain rfl := hs
  exact ⟨_, rfl, represents_start L⟩

/-- The table of 512 entries is a usage. In whatever order the constructors run, and whatever
is called in between: each function that is registered has an entry of its own with its name,
its addresses and its counters; the last entry has the number of functions and how many of
them are intercepted; no other entry is written to. No assertion fails. -/
theorem registry_refines_usage (L : Loader) (tr : List (Step Registry RegistryAct)) (s : Registry)
    (h : (registry L).Run tr s) :
    ∃ tr' u, (usage L).Run tr' u ∧ tr'.map Step.act = tr.map Step.act ∧ Represents L s u
      ∧ Set.InjOn s.nr s.registered ∧ ∀ f ∉ s.registered, (s.register L f).isSome := by
  obtain ⟨tr', u, hrun, hrep, hacts⟩ := represents_of_run h
  refine ⟨tr', u, hrun, hacts, hrep, hrep.numbers.nr_injOn, fun f hf => ?_⟩
  obtain ⟨s', hs', -⟩ := hrep.register hf
  simp [hs']

/-- A loader that binds every name to the function of the library, but for `malloc`, which the
library keeps to itself. -/
def hidesMalloc : Loader where
  fake
    | .sys f => 1000 + f.nr
    | .lib .send => 2000
    | .lib .malloc => 2001
    | .lib _ => 2002
  dlsymDefault name := if name = "send" then 2000 else 5000
  dlsymNext _ := 6000

/-- The constructors of `send` and of `malloc` have run. -/
def sendFirst : Registry := (Registry.start.register hidesMalloc (.lib .send)).getD .start
def mallocNext : Registry := (sendFirst.register hidesMalloc (.lib .malloc)).getD .start

theorem run_mallocNext : (registry hidesMalloc).Run
    [⟨.start, .register (.lib .send), sendFirst⟩, ⟨sendFirst, .register (.lib .malloc), mallocNext⟩]
    mallocNext := by
  have hsend : (registry hidesMalloc).Run [⟨.start, .register (.lib .send), sendFirst⟩] sendFirst :=
    .snoc (.nil rfl) ⟨by decide, rfl⟩
  exact .snoc hsend ⟨by decide, rfl⟩

/-- The two have different entries, and the sum has two functions, one of them intercepted. -/
theorem registry_refines_usage_mallocNext :
    (mallocNext.regFuncDict SUMMARY).count = 2
      ∧ (mallocNext.regFuncDict SUMMARY).concernedCount = 1
      ∧ mallocNext.nr (.lib .send) ≠ mallocNext.nr (.lib .malloc) := by
  obtain ⟨_, u, -, -, hrep, hinj, -⟩ := registry_refines_usage hidesMalloc _ _ run_mallocNext
  have hcard : mallocNext.registered.card = 2 := by decide
  have hone : (mallocNext.registered.filter fun f => hidesMalloc.intercepts f).card = 1 := by
    decide
  rw [hrep.summary, hcard, hone]
  refine ⟨rfl, rfl, fun heq => ?_⟩
  have hsame := hinj (by decide) (by decide) heq
  cases hsame

/-! ### The tracer -/

/-- The tracer takes the entry over. -/
def RegFuncT.traces (e : RegFuncT) : Bool := e.enabled && !e.library

/-- What the loop of the tracer makes of an entry. -/
def RegFuncT.traced (e : RegFuncT) : RegFuncT :=
  if e.enabled then
    if e.library then
      { e with state := (e.state &&& ~~~STATE_ENABLED) ||| STATE_DISABLED }
    else { e with state := e.state ||| STATE_PTRACE }
  else e

theorem ptracerLoop_cons (i : ℕ) (is : List ℕ) (count : ℕ) (d : Dict ℕ) :
    ptracerLoop (i :: is) (count, d)
      = ptracerLoop is (count + (d i).traces.toNat, d.modify i RegFuncT.traced) := by
  rw [ptracerLoop]
  cases hon : (d i).enabled with
  | false => simp [RegFuncT.traces, RegFuncT.traced, Dict.modify, hon]
  | true =>
      cases hlib : (d i).library with
      | true =>
          simp [RegFuncT.traces, RegFuncT.traced, Dict.modify, Registry.unregisterIntercepted, hon,
            hlib]
      | false => simp [RegFuncT.traces, RegFuncT.traced, Dict.modify, hon, hlib]

/-- The loop changes each entry once, and counts the ones that are taken over. -/
theorem ptracerLoop_eq {is : List ℕ} (hnodup : is.Nodup) (count : ℕ) (d : Dict ℕ) :
    ptracerLoop is (count, d)
      = (count + is.countP fun i => (d i).traces, fun i => if i ∈ is then (d i).traced else d i) := by
  induction is generalizing count d with
  | nil => simp [ptracerLoop]
  | cons i is ih =>
      obtain ⟨hi, hnodup⟩ := List.nodup_cons.mp hnodup
      have hkept (j : ℕ) (hj : j ∈ is) : d.modify i RegFuncT.traced j = d j := by
        refine Dict.modify_of_ne d ?_ _
        rintro rfl
        exact hi hj
      have hcount : (is.countP fun j => (d.modify i RegFuncT.traced j).traces)
          = is.countP fun j => (d j).traces :=
        List.countP_congr fun j hj => by rw [hkept j hj]
      rw [ptracerLoop_cons, ih hnodup, hcount, List.countP_cons]
      refine Prod.ext ?_ (funext fun j => ?_)
      · cases (d i).traces <;> simp
        omega
      · by_cases hj : j ∈ is
        · simp [hj, hkept j hj]
        · by_cases hji : j = i
          · subst hji
            simp [hj, Dict.modify_self]
          · simp [hj, hji, Dict.modify_of_ne d hji]

theorem countP_range (p : ℕ → Bool) (n : ℕ) :
    (List.range n).countP p = ((Finset.range n).filter fun i => p i).card := by
  rw [← Nat.count_eq_card_filter_range, Nat.count]
  simp

theorem ptracerInit_eq (d : Dict ℕ) :
    ptracerInit d
      = (((Finset.range NR_REG_FUNC_DICT).filter fun i => (d i).traces).card,
          fun i => if i < NR_REG_FUNC_DICT then (d i).traced else d i) := by
  rw [ptracerInit]
  generalize NR_REG_FUNC_DICT = n
  simp only [ptracerLoop_eq List.nodup_range, countP_range, Nat.zero_add, List.mem_range]

theorem RegFuncT.enabled_of_zero {e : RegFuncT} (h : e.state = 0) : e.enabled = false := by
  rw [RegFuncT.enabled, h]
  decide

theorem RegFuncT.traced_of_off {e : RegFuncT} (h : e.enabled = false) : e.traced = e := by
  simp [RegFuncT.traced, h]

/-- The state that the tracer leaves. -/
def Loader.tracedState (L : Loader) (f : Func) : BitVec 32 :=
  if L.intercepts f then
    match f with
    | .sys _ => STATE_ENABLED ||| STATE_PTRACE
    | .lib _ => STATE_LIBRARY ||| STATE_DISABLED
  else L.stateOf f

theorem traces_entry (L : Loader) (f : Func) (e : FuncUsage) :
    (L.entry f e).traces = (L.intercepts f && decide (f.libraryBit = 0)) := by
  rw [RegFuncT.traces, enabled_entry, library_entry]
  rcases f.libraryBit_cases with h | h <;> rw [h] <;> cases L.intercepts f <;> decide

theorem traced_entry (L : Loader) (f : Func) (e : FuncUsage) :
    (L.entry f e).traced = { L.entry f e with state := L.tracedState f } := by
  have hstate : (L.entry f e).state = L.stateOf f := rfl
  rw [RegFuncT.traced, enabled_entry, library_entry, hstate]
  cases hint : L.intercepts f with
  | false =>
      have hkept : L.tracedState f = L.stateOf f := by simp [Loader.tracedState, hint]
      rw [if_neg (by simp), hkept]
      rfl
  | true =>
      rw [if_pos rfl]
      cases f with
      | sys f =>
          have hkept : L.stateOf (.sys f) = STATE_ENABLED ||| 0 := by
            simp [Loader.stateOf, Func.libraryBit, hint]
          have htraced : L.tracedState (.sys f) = STATE_ENABLED ||| STATE_PTRACE := by
            simp [Loader.tracedState, hint]
          have hbits : STATE_ENABLED ||| 0 ||| STATE_PTRACE = STATE_ENABLED ||| STATE_PTRACE := by
            decide
          rw [Func.libraryBit, if_neg (by decide), hkept, htraced, hbits]
      | lib f =>
          have hkept : L.stateOf (.lib f) = STATE_ENABLED ||| STATE_LIBRARY := by
            simp [Loader.stateOf, Func.libraryBit, hint]
          have htraced : L.tracedState (.lib f) = STATE_LIBRARY ||| STATE_DISABLED := by
            simp [Loader.tracedState, hint]
          have hbits : (STATE_ENABLED ||| STATE_LIBRARY) &&& ~~~STATE_ENABLED ||| STATE_DISABLED
              = STATE_LIBRARY ||| STATE_DISABLED := by decide
          rw [Func.libraryBit, if_pos (by decide), hkept, htraced, hbits]

theorem Represents.eq_unused_or {u : Usage} (h : Represents L s u) (i : ℕ) :
    (∃ f ∈ s.registered, s.nr f = i ∧ ∃ e, s.regFuncDict i = L.entry f e)
      ∨ (∀ f ∈ s.registered, s.nr f ≠ i) ∧ (s.regFuncDict i).state = 0 := by
  by_cases hi : ∃ f ∈ s.registered, s.nr f = i
  · obtain ⟨f, hf, rfl⟩ := hi
    obtain ⟨e, he⟩ := Option.isSome_iff_exists.mp ((h.registered f).mp hf)
    exact Or.inl ⟨f, hf, rfl, e, (h.entry f e he).2⟩
  · push Not at hi
    refine Or.inr ⟨hi, ?_⟩
    by_cases hsum : i = SUMMARY
    · rw [hsum, h.summary]
    · rw [h.unused i hsum hi]
      rfl

/-- The tracer, after any run. It has taken over the system calls that are intercepted, and
these are what it reports. A library function is intercepted no longer. Whatever else is in
the table stays. -/
theorem ptracer_takes_syscalls (L : Loader) (tr : List (Step Registry RegistryAct)) (s : Registry)
    (h : (registry L).Run tr s) :
    (ptracerInit s.regFuncDict).1
        = (s.registered.filter fun f => L.intercepts f = true ∧ f.libraryBit = 0).card
      ∧ (∀ f ∈ s.registered, (ptracerInit s.regFuncDict).2 (s.nr f)
        = { s.regFuncDict (s.nr f) with state := L.tracedState f })
      ∧ ∀ i, (∀ f ∈ s.registered, s.nr f ≠ i) →
        (ptracerInit s.regFuncDict).2 i = s.regFuncDict i := by
  obtain ⟨-, u, -, hrep, -⟩ := represents_of_run h
  have hlt (f : Func) : s.nr f < NR_REG_FUNC_DICT := by
    have hle := hrep.numbers.nr_le f
    rw [NR_REG_FUNC_DICT]
    omega
  refine ⟨?_, fun f hf => ?_, fun i hi => ?_⟩
  · -- the entries that are counted are those of these functions, each once
    have himage : ((Finset.range NR_REG_FUNC_DICT).filter fun i => (s.regFuncDict i).traces)
        = (s.registered.filter fun f => L.intercepts f = true ∧ f.libraryBit = 0).image s.nr := by
      ext i
      simp only [Finset.mem_filter, Finset.mem_range, Finset.mem_image]
      constructor
      · rintro ⟨-, htraces⟩
        rcases hrep.eq_unused_or i with ⟨f, hf, rfl, e, he⟩ | ⟨-, hzero⟩
        · rw [he, traces_entry] at htraces
          exact ⟨f, ⟨hf, by simpa using htraces⟩, rfl⟩
        · rw [RegFuncT.traces, RegFuncT.enabled_of_zero hzero] at htraces
          cases htraces
      · rintro ⟨f, ⟨hf, hint, hbit⟩, rfl⟩
        obtain ⟨e, he⟩ := Option.isSome_iff_exists.mp ((hrep.registered f).mp hf)
        rw [(hrep.entry f e he).2, traces_entry, hint, hbit]
        exact ⟨hlt f, rfl⟩
    have hinj : Set.InjOn s.nr
        (s.registered.filter fun f => L.intercepts f = true ∧ f.libraryBit = 0) :=
      hrep.numbers.nr_injOn.mono fun f hf => (Finset.mem_filter.mp hf).1
    rw [ptracerInit_eq, himage, Finset.card_image_of_injOn hinj]
  · obtain ⟨e, he⟩ := Option.isSome_iff_exists.mp ((hrep.registered f).mp hf)
    rw [ptracerInit_eq]
    show (if s.nr f < NR_REG_FUNC_DICT then _ else _) = _
    rw [if_pos (hlt f), (hrep.entry f e he).2, traced_entry]
  · rcases hrep.eq_unused_or i with ⟨f, hf, hnr, -⟩ | ⟨-, hzero⟩
    · exact absurd hnr (hi f hf)
    · simp only [ptracerInit_eq, RegFuncT.traced_of_off (RegFuncT.enabled_of_zero hzero), ite_self]

/-- After the two constructors there is no system call to take over, and `send` is not
intercepted any more. -/
theorem ptracer_takes_syscalls_mallocNext :
    (ptracerInit mallocNext.regFuncDict).1 = 0
      ∧ ((ptracerInit mallocNext.regFuncDict).2 (mallocNext.nr (.lib .send))).enabled = false := by
  obtain ⟨hcount, htraced, -⟩ := ptracer_takes_syscalls hidesMalloc _ _ run_mallocNext
  refine ⟨hcount.trans (by decide), ?_⟩
  rw [htraced _ (by decide)]
  show decide (hidesMalloc.tracedState (.lib .send) &&& STATE_ENABLED ≠ 0) = false
  decide

end Tmet.Mysyscall
