import Tmet.Lib.Bytes
import Tmet.Posix.Socket

/-!
# `Tmet.Posix.Text`: lines, tokens and address texts

What both readers of the configuration file do with its text in the same way.
`inet_aton` and `stoi` are a parameter.
-/

set_option autoImplicit false

namespace Tmet.Posix

open Tmet.Lib

/-- A string of bytes as a text, a character for each byte. -/
def textOf (bytes : Bytes) : String := String.ofList (bytes.map fun b => Char.ofNat b.toNat)

/-- `inet_aton` and `stoi`; `none` for a text that is no address, and for an
exception. -/
structure TextConv where
  inetAton : String → Option UInt32
  stoi : String → Option ℤ

/-- `getline(ss, token, delim)`: the token, and what is behind the delimiter. -/
def getline (delim : Char) (text : List Char) : List Char × List Char :=
  (text.takeWhile (· ≠ delim), (text.dropWhile (· ≠ delim)).drop 1)

/-- The first two lines of `convert_addr`: the texts of the address and of the
port. -/
def splitAddr (addr : String) (delim : Char) : String × String :=
  let (ip, rest) := getline delim addr.toList
  let (port, _) := getline delim rest
  (String.ofList ip, String.ofList port)

/-- `get_tokens`, and the loop of `ConfigFile::load`: what is between spaces, up to
the first token that begins a comment. -/
def getTokens (line : String) : List String :=
  (((line.toList.splitOn ' ').filter (· ≠ [])).takeWhile (·.head? ≠ some '#')).map String.ofList

end Tmet.Posix
