import Tmet.Posix.Kernel

/-!
# `Tmet.Posix.Audit`: a kernel with a record of wrong closes

`audited K` answers every call as `K` does. It also keeps a list of the descriptors
on which `close` was called while they were not open. The record is part of the
kernel's state, so a program that runs on `K` runs on `audited K` unchanged, and what
is true of it for every kernel is true here.
-/

set_option autoImplicit false

namespace Tmet.Posix

open Tmet.Lib

variable {κ Opt Addr : Type}

/-- The kernel `K` with the record. -/
def audited (K : Kernel κ Opt Addr) : Kernel (κ × List Fd) Opt Addr where
  fds k := K.fds k.1
  recv k fd len flags :=
    let answer := K.recv k.1 fd len flags
    (answer.1, answer.2, k.2)
  write k fd data :=
    let answer := K.write k.1 fd data
    (answer.1, answer.2, k.2)
  close k fd := (K.close k.1 fd, if fd ∈ K.fds k.1 then k.2 else k.2 ++ [fd])
  accept k :=
    let answer := K.accept k.1
    (answer.1, answer.2, k.2)
  getsockname k fd :=
    let answer := K.getsockname k.1 fd
    (answer.1, answer.2, k.2)
  socket k :=
    let answer := K.socket k.1
    (answer.1, answer.2, k.2)
  ctl k o :=
    let answer := K.ctl k.1 o
    (answer.1, answer.2, k.2)
  garbage k := K.garbage k.1
  recv_length h := K.recv_length h
  recv_closed h len flags := K.recv_closed h len flags
  fds_recv k fd len flags := K.fds_recv k.1 fd len flags
  write_length h := K.write_length h
  write_pos h hne := K.write_pos h hne
  write_closed h data := K.write_closed h data
  fds_write k fd data := K.fds_write k.1 fd data
  fds_close k fd := K.fds_close k.1 fd
  accept_fresh h := K.accept_fresh h
  fds_accept_error h := K.fds_accept_error h
  fds_getsockname k fd := K.fds_getsockname k.1 fd
  socket_fresh h := K.socket_fresh h
  fds_socket_error h := K.fds_socket_error h
  fds_ctl k o := K.fds_ctl k.1 o

variable {K : Kernel κ Opt Addr} {k : κ × List Fd} {fd : Fd}

/-- Closing an open descriptor leaves the record as it is. -/
theorem misclosed_close (h : fd ∈ K.fds k.1) : ((audited K).close k fd).2 = k.2 := if_pos h

theorem misclosed_close_of_notMem (h : fd ∉ K.fds k.1) :
    ((audited K).close k fd).2 = k.2 ++ [fd] := if_neg h

/-- The record only grows. -/
theorem misclosed_le_close (k : κ × List Fd) (fd : Fd) : k.2 <+: ((audited K).close k fd).2 := by
  by_cases h : fd ∈ K.fds k.1
  · rw [misclosed_close h]
  · rw [misclosed_close_of_notMem h]
    exact List.prefix_append _ _

end Tmet.Posix
