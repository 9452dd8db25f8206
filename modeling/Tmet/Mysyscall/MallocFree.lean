import Tmet.Lib.Blocks
import Tmet.Lib.Transition
import Tmet.Mysyscall.Common

/-!
# `Tmet.Mysyscall.MallocFree`: the allocation functions

The model of `mymallocfree.c`. Before `is_inited` is set, `malloc` and `calloc` hand out
pieces of `malloc_buffer`, one behind the other; `free` leaves a pointer into the buffer
alone. `realloc` is a counter only and passes everything on.

A pointer is its address, `NULL` is 0, and `malloc_ptr` moves as an address does, modulo
`2 ^ 64`. A call comes with the pointer that the real function returns where it is called.
The real allocator does not know `malloc_buffer`, so what it hands out lies elsewhere
(`AllocCall.Allowed`). What is in the memory is left out.
-/

set_option autoImplicit false

namespace Tmet.Mysyscall

open Tmet.Lib

/-- `MALLOC_SIZE`. -/
def MALLOC_SIZE : ℕ := 81920

/-- Where `malloc_buffer` is. It is an object of the program, hence not at address 0, and
in the half of the addresses that a program has. -/
structure MallocBuffer where
  addr : UInt64
  addr_pos : 0 < addr.toNat
  addr_lt : addr.toNat + MALLOC_SIZE < 2 ^ 63

/-- The bytes of the buffer. -/
def MallocBuffer.block (buf : MallocBuffer) : Block := ⟨buf.addr.toNat, MALLOC_SIZE⟩

/-- The entries of `reg_func_dict` of the allocation functions. -/
inductive AllocNr
  | libFree
  | libMalloc
  | libCalloc
  | libRealloc
deriving DecidableEq, Repr

/-- What the functions read and write. -/
structure Heap where
  mallocPtr : UInt64
  isInited : Bool
  regFuncDict : Dict AllocNr

/-- `check_count_intercepted`. -/
def Heap.checkCountIntercepted (s : Heap) (nr : AllocNr) : Heap :=
  { s with regFuncDict := (s.regFuncDict.checkCountIntercepted nr).2 }

/-- The test of `free`: `ptr` points into `malloc_buffer`. -/
def MallocBuffer.holds (buf : MallocBuffer) (ptr : UInt64) : Bool :=
  decide (buf.addr ≤ ptr) && decide (ptr < buf.addr + UInt64.ofNat MALLOC_SIZE)

/-- `free`: the argument of `real_free`, if that is called. -/
def free (buf : MallocBuffer) (s : Heap) (ptr : UInt64) : Option UInt64 × Heap :=
  if buf.holds ptr then (none, s)
  else (some ptr, s.checkCountIntercepted .libFree)

/-- `malloc`; `real` is what `real_malloc(size)` returns. -/
def malloc (s : Heap) (size real : UInt64) : UInt64 × Heap :=
  if !s.isInited then
    -- there is no comparison with the end of the buffer
    (s.mallocPtr, { s with mallocPtr := s.mallocPtr + ((size &&& ~~~0xf) + 0x10) })
  else (real, s.checkCountIntercepted .libMalloc)

/-- `calloc`; `real` is what `real_calloc(nmemb, size)` returns. -/
def calloc (s : Heap) (nmemb size real : UInt64) : UInt64 × Heap :=
  if !s.isInited then
    -- nor here; the product may wrap
    (s.mallocPtr, { s with mallocPtr := s.mallocPtr + (((nmemb * size) &&& ~~~0xf) + 0x10) })
  else (real, s.checkCountIntercepted .libCalloc)

/-- `realloc`: the argument of `real_realloc`, and what that returns. -/
def realloc (s : Heap) (ptr real : UInt64) : UInt64 × UInt64 × Heap :=
  (ptr, real, s.checkCountIntercepted .libRealloc)

/-! ### Sequences of calls -/

/-- A call with its arguments and what the real function returns, or the start of the
constructor that sets `is_inited`. -/
inductive AllocCall
  | malloc (size real : UInt64)
  | calloc (nmemb size real : UInt64)
  | realloc (ptr size real : UInt64)
  | free (ptr : UInt64)
  | initCommon
deriving DecidableEq, Repr

/-- `n` bytes at `p`, or nothing if `p` is `NULL`. -/
def blockAt (p : UInt64) (n : ℕ) : Option Block := if p = 0 then none else some ⟨p.toNat, n⟩

namespace AllocCall

/-- The state after the call. -/
def exec (buf : MallocBuffer) (s : Heap) : AllocCall → Heap
  | .malloc size real => (Mysyscall.malloc s size real).2
  | .calloc nmemb size real => (Mysyscall.calloc s nmemb size real).2
  | .realloc ptr _ real => (Mysyscall.realloc s ptr real).2.2
  | .free ptr => (Mysyscall.free buf s ptr).2
  | .initCommon => { s with isInited := true }

/-- The block that the call hands out: what it returns, with the size that was asked for. -/
def handsOut (s : Heap) : AllocCall → Option Block
  | .malloc size real => blockAt (Mysyscall.malloc s size real).1 size.toNat
  | .calloc nmemb size real =>
      blockAt (Mysyscall.calloc s nmemb size real).1 (nmemb.toNat * size.toNat)
  | .realloc ptr size real => blockAt (Mysyscall.realloc s ptr real).2.1 size.toNat
  | .free _ | .initCommon => none

/-- The pointer that the real `free` or `realloc` is called with. -/
def realPtr (buf : MallocBuffer) (s : Heap) : AllocCall → Option UInt64
  | .free ptr => (Mysyscall.free buf s ptr).1
  | .realloc ptr _ real => some (Mysyscall.realloc s ptr real).1
  | .malloc _ _ | .calloc _ _ _ | .initCommon => none

/-- How much is asked of the buffer. -/
def bootRequest (s : Heap) : AllocCall → Option ℕ
  | .malloc size _ => if s.isInited then none else some size.toNat
  | .calloc nmemb size _ => if s.isInited then none else some (nmemb.toNat * size.toNat)
  | .realloc _ _ _ | .free _ | .initCommon => none

/-- Outside the buffer's own requests, what is handed out is no part of the buffer. -/
def Allowed (buf : MallocBuffer) (s : Heap) (c : AllocCall) : Prop :=
  c.bootRequest s = none → ∀ b, c.handsOut s = some b → b.Apart buf.block

end AllocCall

/-- A process from its start on. -/
def allocator (buf : MallocBuffer) : System Heap AllocCall where
  init s := s.mallocPtr = buf.addr ∧ s.isInited = false
  step s c s' := c.Allowed buf s ∧ s' = c.exec buf s

end Tmet.Mysyscall
