import Tmet.Lib.Bytes
import Tmet.Mysyscall.Common
import Tmet.Mysyscall.Config

/-!
# `Tmet.Mysyscall.Sendto`: the intercepted send functions

The model of `mysendto.c`, `mywrite.c` and `mysend.c` with what they use of
`common.h`. A concerned `sendto` sends a header of eight bytes first (`hack`) and
the caller's buffer after it, by two calls of the real function.

What the kernel does with a send is a `SendOutcome`. A call of the program comes
with the outcome of each real send that it makes, so that a sequence of calls
ranges over every behaviour of the kernel. The bytes that the kernel has accepted
are recorded for each descriptor (`wire`). The flags of a call are handed through
to the kernel, which has its outcome given here, and are left out. Of the log
lines only the counters are kept: the texts are compiled in with
`PRINT_EVERY_USAGE` alone.
-/

set_option autoImplicit false

namespace Tmet.Mysyscall

open Tmet.Lib Tmet.Posix

/-- The entries of `reg_func_dict` that the send functions use: `SYS_write`,
`LIB_send` and `SYS_sendto`. -/
inductive Nr
  | sysWrite
  | libSend
  | sysSendto
deriving DecidableEq, Repr

/-- What the wrappers read and write. `nr_send_syscall` is `none` while it is 0.
`wire` is not part of the program: it is what the kernel has taken. -/
structure Proc where
  config : Config
  regFuncDict : Dict Nr
  nrSendSyscall : Option Nr
  errno : Errno
  savedErrno : Errno
  wire : Fd → Bytes

/-- The outcome of one real send: the kernel takes (at most) the first `n` bytes,
or it fails. -/
inductive SendOutcome
  | accepted (n : ℕ)
  | failed (errno : Errno)
deriving DecidableEq, Repr

namespace Proc

/-- `check_intercept`. -/
def checkIntercept (s : Proc) (nr : Nr) : Bool := s.regFuncDict.checkIntercept nr

/-- `count_intercepted`. -/
def countIntercepted (s : Proc) (nr : Nr) : Proc :=
  { s with regFuncDict := s.regFuncDict.countIntercepted nr }

/-- `count_concerned`. -/
def countConcerned (s : Proc) (nr : Nr) : Proc :=
  { s with regFuncDict := s.regFuncDict.countConcerned nr }

/-- `log_intercepted`. -/
def logIntercepted (s : Proc) (nr : Nr) : Proc :=
  if s.checkIntercept nr then s.countConcerned nr else s

/-- `real_sendto` (and `real_write`): the kernel's outcome. -/
def realSendto (s : Proc) (fd : Fd) (buf : Bytes) : SendOutcome → ℤ × Proc
  | .accepted n =>
      ((min n buf.length : ℕ),
        { s with wire := Function.update s.wire fd (s.wire fd ++ buf.take n) })
  | .failed e => (-1, { s with errno := e })

end Proc

/-- `VALIDATE_STR`. -/
def VALIDATE_STR : ℕ := 0xdeadbeef

/-- `struct hacked_sendto_header` as `hack` fills it, in memory: both fields in
network byte order, the length cut to 32 bits. -/
def hackedSendtoHeader (len : ℕ) : Bytes := bigEndian 4 VALIDATE_STR ++ bigEndian 4 len

/-- `hack`: send the control information. -/
def hack (s : Proc) (fd : Fd) (len : ℕ) (header : SendOutcome) : ℤ × Proc :=
  s.realSendto fd (hackedSendtoHeader len) header

/-- What `sendto` does after the real send: `BEGIN_INTERCEPT_NR` up to
`END_INTERCEPT`, for `nr_send_syscall = nr`. -/
def sendtoEpilogue (s : Proc) (nr : Nr) (isConcerned : Bool) : Proc :=
  if s.checkIntercept nr then
    let s := { s with savedErrno := s.errno }.countIntercepted nr
    let s := if isConcerned then s.logIntercepted nr else s
    { s with nrSendSyscall := none, errno := s.savedErrno }
  else s

/-- `sendto`. The destination is given with its `addrlen`, `none` is
`(NULL, 0)`. -/
def sendto (s : Proc) (fd : Fd) (buf : Bytes) (dest : Option (Sockaddr × ℕ))
    (header body : SendOutcome) : ℤ × Proc :=
  if !s.checkIntercept .sysSendto then s.realSendto fd buf body
  else
    let nr := s.nrSendSyscall.getD .sysSendto
    let s := { s with nrSendSyscall := some nr }
    let checkRes := s.config.checkFdIsConcernedWithAddr fd
    let isConcerned := decide (checkRes.sinPort ≠ 0)
      || dest.elim false fun d => s.config.checkAddrIsConcernedWithLen d.1 d.2
    if isConcerned then
      let (ret, s) := hack s fd buf.length header
      -- send error, cancel real send
      if ret = -1 then (ret, s)
      else
        let (ret, s) := s.realSendto fd buf body
        (ret, sendtoEpilogue s nr true)
    else
      let (ret, s) := s.realSendto fd buf body
      (ret, sendtoEpilogue s nr false)

/-- `write`: `send` with no flags where the descriptor is concerned. -/
def write (s : Proc) (fd : Fd) (buf : Bytes) (header body : SendOutcome) : ℤ × Proc :=
  if !s.checkIntercept .sysWrite then s.realSendto fd buf body
  else if s.config.checkFdIsConcerned fd then
    sendto { s with nrSendSyscall := some .sysWrite } fd buf none header body
  else (s.countIntercepted .sysWrite).realSendto fd buf body

/-- `send`. -/
def send (s : Proc) (fd : Fd) (buf : Bytes) (header body : SendOutcome) : ℤ × Proc :=
  sendto { s with nrSendSyscall := some .libSend } fd buf none header body

/-- The function that the program calls. -/
inductive SendFn
  | write
  | send
  | sendto (dest : Option (Sockaddr × ℕ))
deriving DecidableEq, Repr

/-- A call of the program, with the outcomes of the real sends: of the header,
where there is one, and of the buffer. -/
structure SendCall where
  fn : SendFn
  buf : Bytes
  header : SendOutcome
  body : SendOutcome
deriving DecidableEq, Repr

/-- One call on `fd`. -/
def SendCall.exec (c : SendCall) (fd : Fd) (s : Proc) : ℤ × Proc :=
  match c.fn with
  | .write => Mysyscall.write s fd c.buf c.header c.body
  | .send => Mysyscall.send s fd c.buf c.header c.body
  | .sendto dest => Mysyscall.sendto s fd c.buf dest c.header c.body

/-- A sequence of calls on `fd`: what each returned, and the state at the end. -/
def execAll (fd : Fd) : List SendCall → Proc → List ℤ × Proc
  | [], s => ([], s)
  | c :: cs, s =>
      let (ret, s) := c.exec fd s
      let (rets, s) := execAll fd cs s
      (ret :: rets, s)

end Tmet.Mysyscall
