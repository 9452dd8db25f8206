import Tmet.Posix.Kernel

/-!
# `Tmet.Posix.Record`: a kernel with a record of its writes

`recording K` answers every call as `K` does. It also keeps a list of the writes: how
many bytes each of them was offered and what it returned. Like the record of
`Tmet.Posix.Audit` it is part of the kernel's state, and what a program does on
`recording K` is what it does on `K`.
-/

set_option autoImplicit false

namespace Tmet.Posix

open Tmet.Lib

/-- A call of `write` or `send`. -/
structure WriteCall where
  offered : ℕ
  result : WriteResult

/-- The call returned -1. -/
def WriteCall.Failed (w : WriteCall) : Prop := ∃ e, w.result = .error e

/-- The call took all that it was offered, unless it failed. -/
def WriteCall.Full (w : WriteCall) : Prop := ∀ n, w.result = .ok n → n = w.offered

variable {κ Opt Addr : Type}

/-- The kernel `K` with the record. -/
def recording (K : Kernel κ Opt Addr) : Kernel (κ × List WriteCall) Opt Addr where
  fds k := K.fds k.1
  recv k fd len flags :=
    let answer := K.recv k.1 fd len flags
    (answer.1, answer.2, k.2)
  write k fd data :=
    let answer := K.write k.1 fd data
    (answer.1, answer.2, k.2 ++ [⟨data.length, answer.1⟩])
  close k fd := (K.close k.1 fd, k.2)
  accept k :=
    let answer := K.accept k.1
    (answer.1, answer.2, k.2)
  getsockname k fd :=
    let answer := K.getsockname k.1 fd
    (answer.1, answer.2, k.2)
  socket k :=
    let answer := K.socket k.1
    (answer.1, answer.2, k.2)
  ctl k o :=
    let answer := K.ctl k.1 o
    (answer.1, answer.2, k.2)
  garbage k := K.garbage k.1
  recv_length h := K.recv_length h
  recv_closed h len flags := K.recv_closed h len flags
  fds_recv k fd len flags := K.fds_recv k.1 fd len flags
  write_length h := K.write_length h
  write_pos h hne := K.write_pos h hne
  write_closed h data := K.write_closed h data
  fds_write k fd data := K.fds_write k.1 fd data
  fds_close k fd := K.fds_close k.1 fd
  accept_fresh h := K.accept_fresh h
  fds_accept_error h := K.fds_accept_error h
  fds_getsockname k fd := K.fds_getsockname k.1 fd
  socket_fresh h := K.socket_fresh h
  fds_socket_error h := K.fds_socket_error h
  fds_ctl k o := K.fds_ctl k.1 o

end Tmet.Posix
