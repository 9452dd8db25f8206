import Tmet.Lib.Transition
import Tmet.Mysyscall.Sendto

/-!
# `Tmet.Mysyscall.Connect`: which descriptors are framed

The model of `myconnect.c`, `myaccept.c`, `myaccept4.c` and `myclose.c`, the wrappers
that keep `fd_map`, and of the two functions of `config.cpp` that change it. A wrapper
calls the real function first, so it is a function of what the kernel answered. The
wrappers are enabled; of the logging and the counters nothing is modelled.

`tracking` at the end is any sequence of calls. Next to the tables of the program, its
state has what the kernel knows: which descriptors are open, and the address of the
other end of each. `accept` sees that address only as far as its caller has room for it.
-/

set_option autoImplicit false

namespace Tmet.Mysyscall

open Tmet.Lib Tmet.Posix

def EINPROGRESS : Errno := 115

namespace Config

/-- `add_concerned_fd`. -/
def addConcernedFd (cfg : Config) (fd : Fd) (addr : Sockaddr) : Config :=
  if addr.sinFamily = AF_INET then
    { cfg with fdMap := Function.update cfg.fdMap fd (some addr.asIn) }
  else { cfg with fdMap := Function.update cfg.fdMap fd (some (convertMappedIpv6ToIpv4 addr)) }

/-- `rm_concerned_fd`. -/
def rmConcernedFd (cfg : Config) (fd : Fd) : Config :=
  { cfg with fdMap := Function.update cfg.fdMap fd none }

/-- `connect`, after the real one has returned `ret`. -/
def connect (cfg : Config) (sockfd : Fd) (addr : Sockaddr) (addrlen : ℕ) (ret : ℤ)
    (savedErrno : Errno) : Config :=
  if (ret ≠ -1 ∨ savedErrno = EINPROGRESS) ∧ cfg.checkAddrIsConcernedWithLen addr addrlen then
    -- the server addr is concerned, add client sockfd
    cfg.addConcernedFd sockfd addr
  else cfg

/-- `accept`, after the real one has returned `ret` and filled in `addr` and
`addrlen`. -/
def accept (cfg : Config) (addr : Sockaddr) (addrlen : ℕ) (ret : Fd) : Config :=
  if ret ≠ -1 ∧ cfg.checkAddrIsConcernedWithLen addr addrlen then
    -- the client addr is concerned, add client fd (return value)
    cfg.addConcernedFd ret addr
  else cfg

/-- `accept4`. -/
def accept4 (cfg : Config) (addr : Sockaddr) (addrlen : ℕ) (ret : Fd) : Config :=
  cfg.accept addr addrlen ret

/-- `close`. What the real one has returned is only logged. -/
def close (cfg : Config) (fd : Fd) : Config :=
  let checkRes := cfg.checkFdIsConcernedWithAddr fd
  if checkRes.sinPort ≠ 0 then cfg.rmConcernedFd fd else cfg

end Config

/-! ### Sequences of calls -/

/-- The tables of the program; the open descriptors; and for each descriptor the
address that it was last connected to or accepted from. -/
structure Sockets where
  config : Config
  opened : Finset Fd
  peer : Fd → Option Sockaddr

/-- Where the caller of `accept` wants the address: nowhere, `addr` being `NULL`, or in a
buffer of `size` bytes; `contents` is what is in memory there after the call. -/
inductive AddrBuf
  | null (addrlen : ℕ)
  | buffer (size : ℕ) (contents : Sockaddr)
deriving DecidableEq, Repr

/-- A call with what the kernel answers. `other` is any function that makes a new
descriptor. `peer` is the address of the other end, and `peerlen` its length. A `close`
that fails may leave the descriptor open or not. -/
inductive SocketCall
  | other (fd : Fd)
  | connect (sockfd : Fd) (addr : Sockaddr) (addrlen : ℕ) (ret : ℤ) (errno : Errno)
  | accept (peer : Sockaddr) (peerlen : ℕ) (buf : AddrBuf) (ret : Fd)
  | accept4 (peer : Sockaddr) (peerlen : ℕ) (buf : AddrBuf) (ret : Fd)
  | close (fd : Fd) (ret : ℤ) (released : Bool)
deriving DecidableEq, Repr

/-- The call connects: it is successful, or in progress. -/
def Connects (ret : ℤ) (errno : Errno) : Prop := ret ≠ -1 ∨ errno = EINPROGRESS

instance (ret : ℤ) (errno : Errno) : Decidable (Connects ret errno) :=
  inferInstanceAs (Decidable (_ ∨ _))

/-- An address of the internet families is not shorter than a `sockaddr_in`. -/
def Sized (addr : Sockaddr) (addrlen : ℕ) : Prop :=
  addr.sinFamily = AF_INET ∨ addr.sinFamily = AF_INET6 → 16 ≤ addrlen

/-- A buffer with enough room has the whole address. Without one the wrapper has a fault,
unless `*addrlen` is short. It always has one without `addrlen`. -/
def AddrBuf.Filled (peer : Sockaddr) (peerlen : ℕ) : AddrBuf → Prop
  | .null addrlen => addrlen < 16
  | .buffer size contents => peerlen ≤ size → contents = peer

/-- What the kernel may answer to `accept`: the descriptor is not in use. -/
def Accepts (s : Sockets) (peer : Sockaddr) (peerlen : ℕ) (buf : AddrBuf) (ret : Fd) : Prop :=
  ret ≠ -1 → ret ∉ s.opened ∧ Sized peer peerlen ∧ buf.Filled peer peerlen

/-- What the kernel may answer: only an open socket can be connected, a new descriptor
is not in use, and a successful `close` releases an open descriptor. -/
def SocketCall.Possible (s : Sockets) : SocketCall → Prop
  | .other fd => fd ∉ s.opened
  | .connect sockfd addr addrlen ret errno =>
      Connects ret errno → sockfd ∈ s.opened ∧ Sized addr addrlen
  | .accept peer peerlen buf ret | .accept4 peer peerlen buf ret => Accepts s peer peerlen buf ret
  | .close fd ret released => ret ≠ -1 → fd ∈ s.opened ∧ released = true

namespace Sockets

/-- The kernel's new descriptor, with the address of its other end if it has one. -/
def newFd (s : Sockets) (fd : Fd) (peer : Option Sockaddr) : Sockets :=
  { s with opened := insert fd s.opened, peer := Function.update s.peer fd peer }

/-- The wrapper reads the buffer; `*addrlen` is the length of the whole address. -/
def readAccepted (s : Sockets) (peerlen : ℕ) (buf : AddrBuf) (ret : Fd)
    (wrapper : Config → Sockaddr → ℕ → Fd → Config) : Sockets :=
  match buf with
  | .null _ => s
  | .buffer _ contents => { s with config := wrapper s.config contents peerlen ret }

/-- One call. -/
def exec (s : Sockets) : SocketCall → Sockets
  | .other fd => s.newFd fd none
  | .connect sockfd addr addrlen ret errno =>
      { s with
        config := s.config.connect sockfd addr addrlen ret errno
        peer := if Connects ret errno then Function.update s.peer sockfd (some addr) else s.peer }
  | .accept peer peerlen buf ret =>
      let s := s.readAccepted peerlen buf ret Config.accept
      if ret ≠ -1 then s.newFd ret (some peer) else s
  | .accept4 peer peerlen buf ret =>
      let s := s.readAccepted peerlen buf ret Config.accept4
      if ret ≠ -1 then s.newFd ret (some peer) else s
  | .close fd _ released =>
      { s with
        config := s.config.close fd
        opened := if released then s.opened.erase fd else s.opened }

end Sockets

/-- Any sequence of calls of a program with the addresses of `cfg`, from a state where
no descriptor has been connected or accepted. -/
def tracking (cfg : Config) : System Sockets SocketCall where
  init s := s.config = { cfg with fdMap := fun _ => none } ∧ ∀ fd, s.peer fd = none
  step s call s' := call.Possible s ∧ s' = s.exec call

end Tmet.Mysyscall
