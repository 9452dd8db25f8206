import Tmet.Lib.Bytes
import Tmet.Posix.Socket

/-!
# `Tmet.Posix.Kernel`: the system calls of a process, as a parameter

A `Kernel κ` answers the system calls of one process from a state `κ`. Which
answer it gives is open: the state may hold anything, e.g. what the peers are
going to send and which calls are going to fail. What every kernel guarantees is a
field of the structure. A new descriptor is not open yet, `close` releases one, no
other call changes the set of open descriptors, and a descriptor that is not open
is refused.
-/

set_option autoImplicit false

namespace Tmet.Posix

open Tmet.Lib

/-- The flags of `recv` that are in use. -/
inductive RecvFlags
  | peekDontwait
  | dontwait
  | waitall
deriving DecidableEq, Repr

/-- What `recv` returned: some bytes, none at the end of the stream, or -1. -/
abbrev RecvResult := Except Errno Bytes

/-- What `write` and `send` returned: how many bytes were taken, or -1. -/
abbrev WriteResult := Except Errno ℕ

/-- The system calls of a process, answered from a state. `Opt` are the calls
that only succeed or fail, and `Addr` is what `accept` and `getsockname` return. -/
structure Kernel (κ Opt Addr : Type) where
  /-- The open descriptors. -/
  fds : κ → Finset Fd
  recv : κ → Fd → ℕ → RecvFlags → RecvResult × κ
  /-- `write`, and `send`. -/
  write : κ → Fd → Bytes → WriteResult × κ
  close : κ → Fd → κ
  /-- `accept` on the listening socket: the descriptor and the peer. -/
  accept : κ → Except Errno (Fd × Addr) × κ
  getsockname : κ → Fd → Except Errno Addr × κ
  socket : κ → Except Errno Fd × κ
  ctl : κ → Opt → Option Errno × κ
  /-- What a variable on the stack holds that was not initialised. -/
  garbage : κ → ℤ
  recv_length : ∀ {k fd len flags data}, (recv k fd len flags).1 = .ok data → data.length ≤ len
  recv_closed : ∀ {k fd}, fd ∉ fds k → ∀ len flags, (recv k fd len flags).1 = .error EBADF
  fds_recv : ∀ k fd len flags, fds (recv k fd len flags).2 = fds k
  write_length : ∀ {k fd data n}, (write k fd data).1 = .ok n → n ≤ data.length
  write_pos : ∀ {k fd data n}, (write k fd data).1 = .ok n → data ≠ [] → 0 < n
  write_closed : ∀ {k fd}, fd ∉ fds k → ∀ data, (write k fd data).1 = .error EBADF
  fds_write : ∀ k fd data, fds (write k fd data).2 = fds k
  fds_close : ∀ k fd, fds (close k fd) = (fds k).erase fd
  accept_fresh : ∀ {k fd a}, (accept k).1 = .ok (fd, a) →
    0 ≤ fd ∧ fd ∉ fds k ∧ fds (accept k).2 = insert fd (fds k)
  fds_accept_error : ∀ {k e}, (accept k).1 = .error e → fds (accept k).2 = fds k
  fds_getsockname : ∀ k fd, fds (getsockname k fd).2 = fds k
  socket_fresh : ∀ {k fd}, (socket k).1 = .ok fd →
    0 ≤ fd ∧ fd ∉ fds k ∧ fds (socket k).2 = insert fd (fds k)
  fds_socket_error : ∀ {k e}, (socket k).1 = .error e → fds (socket k).2 = fds k
  fds_ctl : ∀ k o, fds (ctl k o).2 = fds k

variable {κ Opt Addr : Type}

/-- `MSG_PEEK` leaves what it returns in the receive queue: the next `recv` starts with
it. -/
def Kernel.PeekKeeps (K : Kernel κ Opt Addr) : Prop :=
  ∀ {k k' : κ} {fd : Fd} {n len : ℕ} {data content : Bytes},
    K.recv k fd n .peekDontwait = (.ok data, k') → (K.recv k' fd len .waitall).1 = .ok content →
    data <+: content ∨ content <+: data

/-- A `write` takes everything or fails. -/
def Kernel.WritesInFull (K : Kernel κ Opt Addr) : Prop :=
  ∀ {k : κ} {fd : Fd} {data : Bytes} {n : ℕ}, (K.write k fd data).1 = .ok n → n = data.length

end Tmet.Posix
