import Tmet.Lib.Tokens
import Tmet.Mysyscall.Sendto
import Tmet.Mysyscall.Timing

/-!
# `Tmet.Mysyscall.Router`: the commands of the router

The model of `do_router_cmd` in `router.cpp`, with `get_tokens` of `config.cpp`. The loop
reads what the proxy has sent, from the time when the connection was made. `recv` with
`MSG_WAITALL` gives as many bytes as it is asked for, and fewer only at the end of the
stream. An error of `recv` ends the loop in the same way and is left out, and so are the
messages.

`header` is set once, to the front of the buffer. `resize` moves a buffer that has to
grow, and `header` then points to memory that was freed. What is found there is not
determined by the program. It is the argument `stale`: the bytes at that place, for each
pass of the loop.

A failing assertion and an exception of `stoi` end the process.
-/

set_option autoImplicit false

namespace Tmet.Mysyscall

open Tmet.Lib Tmet.Posix

/-- `isspace`. -/
def isSpace (b : UInt8) : Bool := b = 0x20 || (9 ≤ b && b ≤ 13)

/-- `isdigit`. -/
def isDigit (b : UInt8) : Bool := 0x30 ≤ b && b ≤ 0x39

/-- `stoi`; `none` for an exception. -/
def stoi (text : Bytes) : Option ℤ :=
  let text := text.dropWhile isSpace
  let (negative, text) :=
    match text with
    | 0x2d :: rest => (true, rest)
    | 0x2b :: rest => (false, rest)
    | _ => (false, text)
  -- what is behind the digits is ignored
  let digits := text.takeWhile isDigit
  let n := digits.foldl (fun n b => 10 * n + ((b.toNat : ℤ) - 0x30)) 0
  let value := if negative then -n else n
  if digits = [] ∨ value < -2 ^ 31 ∨ 2 ^ 31 ≤ value then none else some value

/-- `cmd_buffer`. It has `moved` if `header` does not point to its front any more. -/
structure CmdBuffer where
  bytes : Bytes
  moved : Bool
deriving DecidableEq, Repr

namespace CmdBuffer

/-- `cmd_buffer.resize(1024)`. -/
def start : CmdBuffer := ⟨List.replicate 1024 0, false⟩

/-- `recv` stores what it has got at the front. -/
def store (b : CmdBuffer) (data : Bytes) : CmdBuffer :=
  { b with bytes := data ++ b.bytes.drop data.length }

/-- `if (size >= cmd_buffer.size()) cmd_buffer.resize(size + 1)`. -/
def reserve (b : CmdBuffer) (size : ℕ) : CmdBuffer :=
  if b.bytes.length ≤ size then
    { bytes := b.bytes ++ List.replicate (size + 1 - b.bytes.length) 0, moved := true }
  else b

/-- `cmd_buffer[size] = 0`. -/
def terminate (b : CmdBuffer) (size : ℕ) : CmdBuffer := { b with bytes := b.bytes.set size 0 }

/-- `*header`. -/
def header (b : CmdBuffer) (stale : Bytes) : Bytes := if b.moved then stale else b.bytes

end CmdBuffer

/-- `ntohl(header->validation)`. -/
def headerValidation (header : Bytes) : ℕ := ofBigEndian (header.take 4)

/-- `ntohl(header->size)`. -/
def headerSize (header : Bytes) : ℕ := ofBigEndian ((header.drop 4).take 4)

/-- How the loop ends: with the connection, or with the process. -/
inductive RouterExit
  | closed
  | terminated
deriving DecidableEq, Repr

/-- What the loop has done: the tokens of the commands it has got, in their order, and
the clock. -/
structure RouterRun where
  commands : List (List Bytes)
  timing : Timing
  exit : RouterExit
deriving DecidableEq, Repr

/-- A command before the others. -/
def RouterRun.cons (tokens : List Bytes) (r : RouterRun) : RouterRun :=
  { r with commands := tokens :: r.commands }

namespace Router

/-- `get_tokens`. The line is a C string: it ends at the first zero byte. -/
def getTokens (line : Bytes) : List Bytes := tokensOf 0x20 0x23 (line.takeWhile (· ≠ 0))

/-- `inc_time_ns`; `none` if `stoi` throws. With too few tokens it prints a warning. -/
def incTimeNs (tokens : List Bytes) (t : Timing) : Option Timing :=
  match tokens with
  | _ :: ns :: _ => (stoi ns).map t.setTimeIncrement
  | _ => some t

/-- The command is looked up in `cmd_map` and called. -/
def call (tokens : List Bytes) (t : Timing) : Option Timing :=
  if tokens.head?.map textOf = some "inc_time_ns" then incTimeNs tokens t else some t

/-- `do_router_cmd`, from its pass number `pass` on. -/
def doRouterCmd (stale : ℕ → Bytes) (pass : ℕ) (b : CmdBuffer) (t : Timing) (stream : Bytes) :
    RouterRun :=
  if stream = [] then ⟨[], t, .closed⟩
  else
    -- the header goes to the front of the buffer, the body over it
    let b := b.store (stream.take 8)
    let header := b.header (stale pass)
    if headerValidation header ≠ VALIDATE_STR then ⟨[], t, .terminated⟩
    else
      let size := headerSize header
      -- from here on `header` may point to memory that was freed
      let b := b.reserve size
      let body := (stream.drop 8).take size
      if body = [] then ⟨[], t, .closed⟩
      else
        let b := (b.store body).terminate body.length
        let rest := (stream.drop 8).drop size
        match getTokens b.bytes with
        | [] => doRouterCmd stale (pass + 1) b t rest
        | token :: tokens =>
            match call (token :: tokens) t with
            | none => ⟨[token :: tokens], t, .terminated⟩
            | some t => (doRouterCmd stale (pass + 1) b t rest).cons (token :: tokens)
termination_by stream.length
decreasing_by
  all_goals
    have hpos : 0 < stream.length := List.length_pos_of_ne_nil ‹stream ≠ []›
    simp only [List.length_drop]
    omega

end Router

end Tmet.Mysyscall
