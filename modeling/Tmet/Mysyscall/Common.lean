import Tmet.Lib.Transition

/-!
# `Tmet.Mysyscall.Common`: the table of the intercepted functions

The model of `reg_func_dict` in `common.c` and `common.h`, and of what `ptracer.c` does to
it. Every intercepted function has a constructor, from `MAKE_SYS_TEMPLATE` or
`MAKE_LIB_TEMPLATE`, which the loader runs once. A system call has its number as its entry.
The library functions have none and take their entries from the end of the table, in the
order in which their constructors run. The last entry sums up. The entries that are not
there, from `NR_REG_FUNC_DICT` on, are never used.

The addresses that `dlsym` finds are the loader's (`Loader`). The numbers are those of
x86-64, which the library is built for (`LD_LOADER`). The messages, the configuration that
`init_common` reads, and `errno` are left out here. `registered` is not part of the program:
it records which constructors have run.
-/

set_option autoImplicit false

namespace Tmet.Mysyscall

open Tmet.Lib

/-! ### The functions -/

/-- The functions with `MAKE_SYS_TEMPLATE`. -/
inductive SysFunc
  | accept
  | accept4
  | clock_getres
  | clock_gettime
  | close
  | connect
  | gettimeofday
  | open_
  | openat
  | sendfile
  | sendmsg
  | sendto
  | socket
  | time
  | write
deriving DecidableEq, Repr

/-- The functions with `MAKE_LIB_TEMPLATE`. -/
inductive LibFunc
  | free
  | malloc
  | calloc
  | realloc
  | random
  | send
deriving DecidableEq, Repr

instance : Fintype LibFunc :=
  ⟨{.free, .malloc, .calloc, .realloc, .random, .send}, fun f => by cases f <;> decide⟩

/-- An intercepted function. -/
inductive Func
  | sys (f : SysFunc)
  | lib (f : LibFunc)
deriving DecidableEq, Repr

/-- `SYS_name`. -/
def SysFunc.nr : SysFunc → ℕ
  | .accept => 43
  | .accept4 => 288
  | .clock_getres => 229
  | .clock_gettime => 228
  | .close => 3
  | .connect => 42
  | .gettimeofday => 96
  | .open_ => 2
  | .openat => 257
  | .sendfile => 40
  | .sendmsg => 46
  | .sendto => 44
  | .socket => 41
  | .time => 201
  | .write => 1

/-- `STR(name)`. -/
def Func.name : Func → String
  | .sys .accept => "accept"
  | .sys .accept4 => "accept4"
  | .sys .clock_getres => "clock_getres"
  | .sys .clock_gettime => "clock_gettime"
  | .sys .close => "close"
  | .sys .connect => "connect"
  | .sys .gettimeofday => "gettimeofday"
  | .sys .open_ => "open"
  | .sys .openat => "openat"
  | .sys .sendfile => "sendfile"
  | .sys .sendmsg => "sendmsg"
  | .sys .sendto => "sendto"
  | .sys .socket => "socket"
  | .sys .time => "time"
  | .sys .write => "write"
  | .lib .free => "free"
  | .lib .malloc => "malloc"
  | .lib .calloc => "calloc"
  | .lib .realloc => "realloc"
  | .lib .random => "random"
  | .lib .send => "send"

/-! ### The table -/

/-- The bits of `state`. -/
def STATE_ENABLED : BitVec 32 := 1
def STATE_PTRACE : BitVec 32 := 2
def STATE_LIBRARY : BitVec 32 := 4
def STATE_DISABLED : BitVec 32 := 8

/-- `NR_REG_FUNC_DICT`. -/
def NR_REG_FUNC_DICT : ℕ := 512

/-- The entry that sums up. -/
def SUMMARY : ℕ := NR_REG_FUNC_DICT - 1

/-- `struct reg_func_t`. A pointer is its address, `NULL` is 0. -/
structure RegFuncT where
  name : String
  count : BitVec 64
  concernedCount : BitVec 64
  realFunc : ℕ
  fakeFunc : ℕ
  state : BitVec 32
deriving DecidableEq, Repr

/-- An entry that nothing was written to, and one of a function that is intercepted and was
not called so far. -/
def RegFuncT.unused : RegFuncT := ⟨"", 0, 0, 0, 0, 0⟩
def RegFuncT.intercepted : RegFuncT := { RegFuncT.unused with state := STATE_ENABLED }

/-- `state & STATE_ENABLED`, and `state & STATE_LIBRARY`. -/
def RegFuncT.enabled (e : RegFuncT) : Bool := decide (e.state &&& STATE_ENABLED ≠ 0)
def RegFuncT.library (e : RegFuncT) : Bool := decide (e.state &&& STATE_LIBRARY ≠ 0)

theorem RegFuncT.enabled_intercepted : RegFuncT.intercepted.enabled = true := by decide

/-- An entry that counts one more, concerned or not. -/
def RegFuncT.counted (e : RegFuncT) (isConcerned : Bool) : RegFuncT :=
  { e with
    count := e.count + 1
    concernedCount := if isConcerned then e.concernedCount + 1 else e.concernedCount }

/-- `reg_func_dict`. The model of a wrapper has only the entries that the wrapper uses, with
names in place of their numbers. -/
abbrev Dict (ι : Type) := ι → RegFuncT

namespace Dict

variable {ι : Type} [DecidableEq ι]

/-- `reg_func_dict[nr]` is changed. -/
def modify (d : Dict ι) (nr : ι) (k : RegFuncT → RegFuncT) : Dict ι :=
  Function.update d nr (k (d nr))

/-- `check_intercept`. -/
def checkIntercept (d : Dict ι) (nr : ι) : Bool := (d nr).enabled

/-- `count_intercepted`. -/
def countIntercepted (d : Dict ι) (nr : ι) : Dict ι :=
  d.modify nr fun e => { e with count := e.count + 1 }

/-- `count_concerned`. -/
def countConcerned (d : Dict ι) (nr : ι) : Dict ι :=
  d.modify nr fun e => { e with concernedCount := e.concernedCount + 1 }

/-- `check_count_intercepted`. So does `begin_intercept`, and it saves `errno`. -/
def checkCountIntercepted (d : Dict ι) (nr : ι) : Bool × Dict ι :=
  if d.checkIntercept nr then (true, d.countIntercepted nr) else (false, d)

theorem modify_self (d : Dict ι) (i : ι) (k : RegFuncT → RegFuncT) : d.modify i k i = k (d i) :=
  Function.update_self i _ d

theorem modify_of_ne (d : Dict ι) {i j : ι} (h : j ≠ i) (k : RegFuncT → RegFuncT) :
    d.modify i k j = d j :=
  Function.update_of_ne h _ d

theorem modify_modify (d : Dict ι) (i : ι) (k k' : RegFuncT → RegFuncT) :
    (d.modify i k).modify i k' = d.modify i fun e => k' (k e) := by
  simp [modify]

theorem modify_comm (d : Dict ι) {i j : ι} (h : i ≠ j) (k k' : RegFuncT → RegFuncT) :
    (d.modify i k).modify j k' = (d.modify j k').modify i k := by
  simp only [modify, Function.update_of_ne h, Function.update_of_ne h.symm]
  exact Function.update_comm h _ _ d

/-- What is intercepted does not depend on the counters. -/
theorem checkIntercept_modify (d : Dict ι) (i : ι) {k : RegFuncT → RegFuncT}
    (hk : ∀ e, (k e).enabled = e.enabled) (j : ι) :
    (d.modify i k).checkIntercept j = d.checkIntercept j := by
  by_cases h : j = i
  · rw [checkIntercept, checkIntercept, h, modify_self, hk]
  · rw [checkIntercept, checkIntercept, modify_of_ne d h]

@[simp] theorem checkIntercept_countIntercepted (d : Dict ι) (i j : ι) :
    (d.countIntercepted i).checkIntercept j = d.checkIntercept j := by
  rw [countIntercepted, checkIntercept_modify]
  exact fun _ => rfl

@[simp] theorem checkIntercept_countConcerned (d : Dict ι) (i j : ι) :
    (d.countConcerned i).checkIntercept j = d.checkIntercept j := by
  rw [countConcerned, checkIntercept_modify]
  exact fun _ => rfl

end Dict

/-- `strncpy` into an array that was zero, up to `n` characters. -/
def strncpy (n : ℕ) (name : String) : String := String.ofList (name.toList.take n)

/-- The loader: the addresses of the functions of the library itself, and what `dlsym` finds
first and next. -/
structure Loader where
  fake : Func → ℕ
  dlsymDefault : String → ℕ
  dlsymNext : String → ℕ

/-- The table, `NR_self_defined_func`, the variables `LIB_name` and `real_name`,
`max_func_name_len` and `is_inited`. -/
structure Registry where
  regFuncDict : Dict ℕ
  nrSelfDefinedFunc : ℕ
  libNr : LibFunc → ℕ
  real : Func → ℕ
  maxFuncNameLen : ℕ
  isInited : Bool
  registered : Finset Func

namespace Registry

/-- Before any constructor has run. -/
def start : Registry where
  regFuncDict _ := .unused
  nrSelfDefinedFunc := NR_REG_FUNC_DICT - 2
  libNr _ := 0
  real _ := 0
  maxFuncNameLen := 0
  isInited := false
  registered := ∅

/-- The entry that the function uses: `CUR_SYSCALL`, or `LIB_name`. -/
def nr (s : Registry) : Func → ℕ
  | .sys f => f.nr
  | .lib f => s.libNr f

/-- `init_common`. -/
def initCommon (s : Registry) : Registry :=
  if s.isInited then s
  else
    { s with
      isInited := true
      regFuncDict := s.regFuncDict.modify SUMMARY fun e => { e with name := "FUNCS" } }

/-- `register_intercepted(nr_syscall, STR(name), name, &real_name)`; `none` if the assertion
fails. -/
def registerIntercepted (L : Loader) (s : Registry) (nrSyscall : ℕ) (f : Func) :
    Option Registry :=
  if nrSyscall < NR_REG_FUNC_DICT then
    let defaultFunc := L.dlsymDefault f.name
    let d := s.regFuncDict
    let s :=
      if defaultFunc ≠ L.fake f then
        { s with
          real := Function.update s.real f defaultFunc
          regFuncDict := d.modify nrSyscall fun e =>
            { e with realFunc := defaultFunc, fakeFunc := L.fake f, state := STATE_DISABLED } }
      else
        let real := L.dlsymNext f.name
        let d := d.modify nrSyscall fun e =>
          { e with realFunc := real, fakeFunc := L.fake f, state := STATE_ENABLED }
        { s with
          real := Function.update s.real f real
          regFuncDict := d.modify SUMMARY fun e =>
            { e with concernedCount := e.concernedCount + 1 }
          maxFuncNameLen := max s.maxFuncNameLen f.name.length }
    let d := s.regFuncDict.modify nrSyscall fun e => { e with name := strncpy 31 f.name }
    let d :=
      if nrSyscall = s.nrSelfDefinedFunc + 1 then
        d.modify nrSyscall fun e => { e with state := e.state ||| STATE_LIBRARY }
      else d
    some { s with regFuncDict := d.modify SUMMARY fun e => { e with count := e.count + 1 } }
  else none

/-- `reg_name`, the constructor of the function. -/
def register (L : Loader) (s : Registry) (f : Func) : Option Registry :=
  let s := { s with registered := insert f s.registered }
  match f with
  | .sys g => s.registerIntercepted L g.nr f
  | .lib g =>
      let nr := s.nrSelfDefinedFunc
      let s :=
        { s with
          libNr := Function.update s.libNr g nr
          nrSelfDefinedFunc := s.nrSelfDefinedFunc - 1 }
      s.registerIntercepted L nr f

/-- `unregister_intercepted`, on the table. -/
def unregisterIntercepted (d : Dict ℕ) (nrSyscall : ℕ) : Dict ℕ :=
  d.modify nrSyscall fun e => { e with state := (e.state &&& ~~~STATE_ENABLED) ||| STATE_DISABLED }

/-- `check_count_intercepted`. -/
def checkCountIntercepted (s : Registry) (nrSyscall : ℕ) : Bool × Registry :=
  let (enabled, d) := s.regFuncDict.checkCountIntercepted nrSyscall
  (enabled, { s with regFuncDict := d })

/-- `log_intercepted`. -/
def logIntercepted (s : Registry) (nrSyscall : ℕ) : Registry :=
  if !s.regFuncDict.checkIntercept nrSyscall then s
  else { s with regFuncDict := s.regFuncDict.countConcerned nrSyscall }

end Registry

/-! ### The tracer -/

/-- The loop of `init` in `ptracer.c`: how many are left, and the table. -/
def ptracerLoop : List ℕ → ℕ × Dict ℕ → ℕ × Dict ℕ
  | [], s => s
  | i :: is, (count, d) =>
      if (d i).enabled then
        if (d i).library then ptracerLoop is (count, Registry.unregisterIntercepted d i)
        else
          ptracerLoop is
            (count + 1, d.modify i fun e => { e with state := e.state ||| STATE_PTRACE })
      else ptracerLoop is (count, d)

/-- `init` in `ptracer.c`. -/
def ptracerInit (d : Dict ℕ) : ℕ × Dict ℕ := ptracerLoop (List.range NR_REG_FUNC_DICT) (0, d)

/-! ### Runs -/

/-- The constructor of `init_common` or of a function, or what a call of a function does:
it is counted, and it may be logged. -/
inductive RegistryAct
  | initCommon
  | register (f : Func)
  | count (f : Func)
  | log (f : Func)
deriving DecidableEq, Repr

/-- The loader runs the constructors in any order, that of a function once. Functions may be
called at any time, before their constructors as well. -/
def registry (L : Loader) : System Registry RegistryAct where
  init s := s = .start
  step s a s' :=
    match a with
    | .initCommon => s' = s.initCommon
    | .register f => f ∉ s.registered ∧ s.register L f = some s'
    | .count f => s' = (s.checkCountIntercepted (s.nr f)).2
    | .log f => s' = s.logIntercepted (s.nr f)

end Tmet.Mysyscall
