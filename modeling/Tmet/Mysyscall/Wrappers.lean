import Tmet.Mysyscall.Connect

/-!
# `Tmet.Mysyscall.Wrappers`: the socket functions with their pointers

`Tmet.Mysyscall.Connect` has what `connect`, `accept`, `accept4` and `close` do to the
tables, for calls that are intercepted. Here are the wrappers as a program calls them,
together with `socket`: with the switch of the interception, with `errno`, and with the
pointers of the caller, which may be null. A null pointer that is dereferenced is a
fault, and the result is then `none`.

A call comes with an `Outcome`: what the real function returns and leaves in `errno` and
in the memory that the pointers lead to. `calls` is not part of the program: it records
the calls of real functions. Of the log lines only the counters are kept.
-/

set_option autoImplicit false

namespace Tmet.Mysyscall

open Tmet.Posix

/-- A pointer of the caller; `none` is `NULL`. -/
abbrev Ptr := Option ℕ

/-- The entries of `reg_func_dict` of the socket functions. -/
inductive SocketNr
  | sysSocket
  | sysConnect
  | sysAccept
  | sysAccept4
  | sysClose
deriving DecidableEq, Repr

/-- A call with its arguments. -/
inductive SocketArgs
  | socket (domain type protocol : ℤ)
  | connect (sockfd : Fd) (addr : Ptr) (addrlen : ℕ)
  | accept (sockfd : Fd) (addr addrlen : Ptr)
  | accept4 (sockfd : Fd) (addr addrlen : Ptr) (flags : ℤ)
  | close (fd : Fd)
deriving DecidableEq, Repr

/-- The outcome of the real call: what it returns, `errno`, and what is in memory after
it. `scratch` is what the bookkeeping leaves in `errno`, by the library functions it
uses. -/
structure Outcome where
  ret : ℤ
  errno : Errno
  sockaddrAt : ℕ → Sockaddr
  socklenAt : ℕ → ℕ
  scratch : Errno

/-- What the wrappers read and write. -/
structure Thread where
  config : Config
  regFuncDict : Dict SocketNr
  errno : Errno
  savedErrno : Errno
  calls : List SocketArgs

namespace Thread

/-- `check_intercept`. -/
def checkIntercept (s : Thread) (nr : SocketNr) : Bool := s.regFuncDict.checkIntercept nr

/-- `count_intercepted`. -/
def countIntercepted (s : Thread) (nr : SocketNr) : Thread :=
  { s with regFuncDict := s.regFuncDict.countIntercepted nr }

/-- `count_concerned`. -/
def countConcerned (s : Thread) (nr : SocketNr) : Thread :=
  { s with regFuncDict := s.regFuncDict.countConcerned nr }

/-- `log_intercepted`. -/
def logIntercepted (s : Thread) (nr : SocketNr) (o : Outcome) : Thread :=
  if s.checkIntercept nr then { s.countConcerned nr with errno := o.scratch } else s

/-- `begin_intercept`. -/
def beginIntercept (s : Thread) (nr : SocketNr) : Bool × Thread :=
  if !s.checkIntercept nr then (false, s)
  else (true, { s with savedErrno := s.errno }.countIntercepted nr)

/-- `end_intercept`. -/
def endIntercept (s : Thread) : Thread := { s with errno := s.savedErrno }

/-- The call of the real function. -/
def realCall (s : Thread) (args : SocketArgs) (o : Outcome) : ℤ × Thread :=
  (o.ret, { s with errno := o.errno, calls := s.calls ++ [args] })

/-- A wrapper calls the real function first. `body` is what it does between
`BEGIN_INTERCEPT` and `END_INTERCEPT`. -/
def wrap (s : Thread) (nr : SocketNr) (args : SocketArgs) (o : Outcome)
    (body : ℤ → Thread → Option Thread) : Option (ℤ × Thread) :=
  let (ret, s) := s.realCall args o
  let (enabled, s) := s.beginIntercept nr
  if !enabled then some (ret, s) else (body ret s).map fun s => (ret, s.endIntercept)

/-- `check_addr_is_concerned_with_len`: the address is read if it is long enough. -/
def checkAddrIsConcernedWithLen (s : Thread) (o : Outcome) (addr : Ptr) (addrlen : ℕ) :
    Option Bool :=
  if 16 ≤ addrlen then addr.map fun p => s.config.checkAddrIsConcerned (o.sockaddrAt p)
  else some false

/-- If the address is concerned, `add_concerned_fd`. -/
def addIfConcerned (s : Thread) (nr : SocketNr) (o : Outcome) (fd : Fd) (addr : Ptr)
    (addrlen : ℕ) : Option Thread :=
  match s.checkAddrIsConcernedWithLen o addr addrlen with
  | none => none
  | some false => some s
  | some true => addr.map fun p =>
      let s := { s with config := s.config.addConcernedFd fd (o.sockaddrAt p), errno := o.scratch }
      s.logIntercepted nr o

/-- `socket`. -/
def socket (s : Thread) (domain type protocol : ℤ) (o : Outcome) : Option (ℤ × Thread) :=
  s.wrap .sysSocket (.socket domain type protocol) o fun _ s => some (s.logIntercepted .sysSocket o)

/-- `connect`. -/
def connect (s : Thread) (sockfd : Fd) (addr : Ptr) (addrlen : ℕ) (o : Outcome) :
    Option (ℤ × Thread) :=
  s.wrap .sysConnect (.connect sockfd addr addrlen) o fun ret s =>
    if ret ≠ -1 ∨ s.savedErrno = EINPROGRESS then
      -- the server addr is concerned, add client sockfd
      s.addIfConcerned .sysConnect o sockfd addr addrlen
    else some s

/-- What `accept` and `accept4` do with a new descriptor. `*addrlen` is read first. -/
def addAccepted (s : Thread) (nr : SocketNr) (o : Outcome) (ret : ℤ) (addr addrlen : Ptr) :
    Option Thread :=
  -- the client addr is concerned, add client fd (return value)
  if ret ≠ -1 then addrlen.bind fun p => s.addIfConcerned nr o ret addr (o.socklenAt p)
  else some s

/-- `accept`. -/
def accept (s : Thread) (sockfd : Fd) (addr addrlen : Ptr) (o : Outcome) : Option (ℤ × Thread) :=
  s.wrap .sysAccept (.accept sockfd addr addrlen) o fun ret s =>
    s.addAccepted .sysAccept o ret addr addrlen

/-- `accept4`. -/
def accept4 (s : Thread) (sockfd : Fd) (addr addrlen : Ptr) (flags : ℤ) (o : Outcome) :
    Option (ℤ × Thread) :=
  s.wrap .sysAccept4 (.accept4 sockfd addr addrlen flags) o fun ret s =>
    s.addAccepted .sysAccept4 o ret addr addrlen

/-- `close`. -/
def close (s : Thread) (fd : Fd) (o : Outcome) : Option (ℤ × Thread) :=
  s.wrap .sysClose (.close fd) o fun _ s =>
    let checkRes := s.config.checkFdIsConcernedWithAddr fd
    if checkRes.sinPort ≠ 0 then
      let s := { s with config := s.config.rmConcernedFd fd, errno := o.scratch }
      some (s.logIntercepted .sysClose o)
    else some s

end Thread

/-- The wrapper that the program calls. -/
def SocketArgs.exec (s : Thread) (o : Outcome) : SocketArgs → Option (ℤ × Thread)
  | .socket domain type protocol => s.socket domain type protocol o
  | .connect sockfd addr addrlen => s.connect sockfd addr addrlen o
  | .accept sockfd addr addrlen => s.accept sockfd addr addrlen o
  | .accept4 sockfd addr addrlen flags => s.accept4 sockfd addr addrlen flags o
  | .close fd => s.close fd o

end Tmet.Mysyscall
