import Tmet.Posix.Text

/-!
# `Tmet.Mysyscall.Config`: which addresses and descriptors are concerned

The model of `mysyscall/config.cpp`: the addresses read from the configuration
file (`concern_addr_set`, `subnet_suffix`), and the descriptors that are
connected to one of them (`fd_map`).

Of reading the file, what fills the two sets is modelled. The connection that a
`router` line makes is not.
-/

set_option autoImplicit false

namespace Tmet.Mysyscall

open Tmet.Posix

/-- The static tables of `config.cpp`. A set of addresses is ordered by address
and port (`cmp_addr`), hence it is a set of such pairs. The elements that come
from a `map-cidr` line hold the prefix length where the others hold a port. -/
structure Config where
  fdMap : Fd → Option SockaddrIn
  concernAddrSet : Finset (UInt32 × UInt16)
  subnetSuffix : Finset UInt16

/-- `convert_mapped_ipv6_to_ipv4`: the port, and the address if it is a mapped
one. -/
def convertMappedIpv6ToIpv4 (a : Sockaddr) : SockaddrIn :=
  { sinFamily := 0
    sinPort := a.sinPort
    sAddr :=
      if a.sin6Addr.u64₀ = 0 ∧ a.sin6Addr.u16₄ = 0 ∧ a.sin6Addr.u16₅ = 0xffff then
        a.sin6Addr.u32₃
      else 0 }

namespace Config

/-- The address that is looked up first, and the one whose network is looked up
after it. For a family that is neither, the first is zero and the second is read
from the memory as it is. -/
def toSearch (a : Sockaddr) : (UInt32 × UInt16) × UInt32 :=
  if a.sinFamily = AF_INET then ((a.sAddr, a.sinPort), a.sAddr)
  else if a.sinFamily = AF_INET6 then
    let v4 := convertMappedIpv6ToIpv4 a
    ((v4.sAddr, v4.sinPort), v4.sAddr)
  else ((0, 0), a.sAddr)

/-- `htonl(ntohl(s_addr) & (unsigned(-1) << (32 - i)))`. -/
def network (sAddr : UInt32) (i : UInt16) : UInt32 :=
  ntohl (ntohl sAddr &&& ((0xffffffff : UInt32) <<< (32 - i.toUInt32)))

/-- `check_addr_is_concerned`. -/
def checkAddrIsConcerned (cfg : Config) (a : Sockaddr) : Bool :=
  let (exact, sAddr) := toSearch a
  decide (exact ∈ cfg.concernAddrSet)
    -- each prefix length in turn; a network is kept with its length as the port
    || decide (∃ i ∈ cfg.subnetSuffix, (network sAddr i, i) ∈ cfg.concernAddrSet)

/-- `check_addr_is_concerned_with_len`; `sizeof(struct sockaddr_in)` is 16. -/
def checkAddrIsConcernedWithLen (cfg : Config) (a : Sockaddr) (addrlen : ℕ) : Bool :=
  decide (16 ≤ addrlen) && cfg.checkAddrIsConcerned a

/-- `check_fd_is_concerned_with_addr`. -/
def checkFdIsConcernedWithAddr (cfg : Config) (fd : Fd) : SockaddrIn :=
  (cfg.fdMap fd).getD .zero

/-- `check_fd_is_concerned`. -/
def checkFdIsConcerned (cfg : Config) (fd : Fd) : Bool := (cfg.fdMap fd).isSome

/-- `convert_addr`, up to the family; `none` if `stoi` throws. An address of a network
is masked. -/
def convertAddr (conv : TextConv) (addr : String) (delim : Char) : Option (UInt32 × UInt16) :=
  let (ip, port) := splitAddr addr delim
  let sAddr := (conv.inetAton ip).getD 0
  (conv.stoi port).map fun n =>
    if delim = ':' then (sAddr, htons (UInt16.ofInt n))
    else (network sAddr (UInt16.ofInt n), UInt16.ofInt n)

/-- One line in `init_config_file`. -/
def initLine (conv : TextConv) (cfg : Config) (line : String) : Option Config :=
  match getTokens line with
  | cmd :: addr :: _ =>
      if cmd = "map-addr" ∨ cmd = "map-cidr" then
        let delim := if cmd = "map-addr" then ':' else '/'
        (convertAddr conv addr delim).map fun origin =>
          if origin.2 = 0 then cfg
          else
            { cfg with
              concernAddrSet := insert origin cfg.concernAddrSet
              subnetSuffix :=
                if delim = ':' then cfg.subnetSuffix else insert origin.2 cfg.subnetSuffix }
      else some cfg
  | _ => some cfg

/-- `init_config_file`; `none` if an exception ends the process. -/
def initConfigFile (conv : TextConv) (lines : List String) : Option Config :=
  lines.foldlM (initLine conv) { fdMap := fun _ => none, concernAddrSet := ∅, subnetSuffix := ∅ }

theorem convertAddr_colon (conv : TextConv) (addr : String) :
    convertAddr conv addr ':' = (conv.stoi (splitAddr addr ':').2).map fun n =>
      ((conv.inetAton (splitAddr addr ':').1).getD 0, htons (UInt16.ofInt n)) := rfl

theorem convertAddr_slash (conv : TextConv) (addr : String) :
    convertAddr conv addr '/' = (conv.stoi (splitAddr addr '/').2).map fun n =>
      (network ((conv.inetAton (splitAddr addr '/').1).getD 0) (UInt16.ofInt n),
        UInt16.ofInt n) := rfl

/-- A descriptor whose entry has a port is in the table. -/
theorem checkFdIsConcerned_of_port {cfg : Config} {fd : Fd}
    (h : (cfg.checkFdIsConcernedWithAddr fd).sinPort ≠ 0) : cfg.checkFdIsConcerned fd = true := by
  rw [checkFdIsConcernedWithAddr] at h
  rw [checkFdIsConcerned]
  cases hfd : cfg.fdMap fd with
  | none =>
      rw [hfd] at h
      exact absurd rfl h
  | some _ => rfl

end Config

end Tmet.Mysyscall
