import Tmet.Lib.Hex

/-!
# `Tmet.Mysyscall.BinaryStr`: binary data in the log

The model of `binary_str_internal` of `common.c`, as it is compiled with
`PRINT_FIRST_USAGE` or `PRINT_EVERY_USAGE`, and of what it uses of `snprintf`. The text is
written piece by piece into a static buffer, which holds whatever the last call has left
there.

Whether `char` is signed is up to the platform; on x86-64 it is. A signed byte is extended
to an `int` before it is printed.
-/

set_option autoImplicit false

namespace Tmet.Mysyscall

open Tmet.Lib

/-! ### `snprintf` -/

/-- `%02X`: the digits of a 32-bit number without leading zeros, at least two of them. -/
def format02X (n : UInt32) : Bytes :=
  (((nibbles 8 n.toNat).dropWhile (· = 0)).leftpad 2 0).map hexDigit

/-- `snprintf(&mem[off], size, ...)` of a text: at most `size - 1` characters of it, and a
zero behind them. -/
def snprintf (mem : Bytes) (off size : ℕ) (text : Bytes) : Bytes :=
  -- the text is cut to `size - 1` characters
  let out := text.take (size - 1) ++ [0]
  mem.take off ++ out ++ mem.drop (off + out.length)

/-- The string that starts with the first byte of `mem`. -/
def cString (mem : Bytes) : Bytes := mem.takeWhile (· ≠ 0)

theorem length_snprintf {mem : Bytes} {off size : ℕ} (text : Bytes) (hsize : 0 < size)
    (h : off + size ≤ mem.length) : (snprintf mem off size text).length = mem.length := by
  simp only [snprintf, List.length_append, List.length_take, List.length_drop, List.length_cons,
    List.length_nil]
  omega

/-! ### `binary_str_internal` -/

/-- `MAX_STR_LEN`. -/
def MAX_STR_LEN : ℕ := 64

/-- `NR_STR_BUF`. -/
def NR_STR_BUF : ℕ := 4

/-- `str_buf`. -/
structure StrBuf where
  row : ℕ → Bytes
  length_row : ∀ which, (row which).length = MAX_STR_LEN + 1

/-- `((const char *)buf)[i]` as an argument of `snprintf`. -/
def charArg (charSigned : Bool) (b : UInt8) : UInt32 :=
  if charSigned then b.toInt8.toInt32.toUInt32 else b.toUInt32

/-- `"\\x%02X"`. -/
def escape (charSigned : Bool) (b : UInt8) : Bytes := [92, 120] ++ format02X (charArg charSigned b)

/-- The number of bytes that are printed. -/
def printedSize (size : ℕ) : ℕ := if size < MAX_STR_LEN / 4 then size else MAX_STR_LEN / 4

/-- The loop, for the first `size` bytes. -/
def printBytes (charSigned : Bool) (buf row : Bytes) (size : ℕ) : Bytes :=
  (List.range size).foldl
    (fun row i => snprintf row (i * 4) 5 (escape charSigned (buf.getD i 0))) row

theorem length_printBytes (charSigned : Bool) (buf : Bytes) {row : Bytes} {size : ℕ}
    (hsize : size ≤ MAX_STR_LEN / 4) (hrow : row.length = MAX_STR_LEN + 1) :
    (printBytes charSigned buf row size).length = MAX_STR_LEN + 1 := by
  induction size with
  | zero => exact hrow
  | succ k ih =>
      have hk := ih (by omega)
      have hmax : MAX_STR_LEN = 64 := rfl
      rw [printBytes, List.range_succ, List.foldl_append, List.foldl_cons, List.foldl_nil]
      rw [length_snprintf _ (by omega)]
      · exact hk
      · show k * 4 + 5 ≤ (printBytes charSigned buf row k).length
        omega

/-- `binary_str_internal`, for a buffer of any length: the string it returns, and the static
buffer; `none` if the assertion fails. -/
def binaryStrInternal (charSigned : Bool) (s : StrBuf) (which : ℕ) (buf : Bytes) :
    Option (Bytes × StrBuf) :=
  -- `assert(which < NR_STR_BUF)`, then `str_buf[which][0] = 0`
  if which < NR_STR_BUF then
    let row := printBytes charSigned buf ((s.row which).set 0 0) (printedSize buf.length)
    have hrow : row.length = MAX_STR_LEN + 1 := by
      refine length_printBytes charSigned buf ?_ ?_
      · rw [printedSize]
        split <;> omega
      · rw [List.length_set]
        exact s.length_row which
    some (cString row,
      { row := Function.update s.row which row
        length_row := by
          intro w
          by_cases hw : w = which
          · rw [hw, Function.update_self]
            exact hrow
          · rw [Function.update_of_ne hw]
            exact s.length_row w })
  else none

/-- What is printed. -/
def printed (charSigned : Bool) (s : StrBuf) (which : ℕ) (buf : Bytes) : Option Bytes :=
  (binaryStrInternal charSigned s which buf).map Prod.fst

end Tmet.Mysyscall
