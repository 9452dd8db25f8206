import Mathlib

/-!
# `Tmet.Posix.Socket`: descriptors, addresses and error numbers

What `mysyscall` and `tproxy` use of the socket interface. Addresses and ports
are kept as the memory holds them, i.e. in network byte order on a little-endian
machine: some of the code compares them raw and some converts them first.
-/

set_option autoImplicit false

namespace Tmet.Posix

/-- A file descriptor (`int`). -/
abbrev Fd := ℤ

/-- A value of `errno`. -/
abbrev Errno := ℕ

def EBADF : Errno := 9

def EAGAIN : Errno := 11

/-- `ntohl`, and `htonl`: the four bytes reversed. -/
def ntohl (x : UInt32) : UInt32 :=
  (x >>> 24) ||| (x >>> 8 &&& (0xff00 : UInt32)) ||| (x <<< 8 &&& (0xff0000 : UInt32))
    ||| (x <<< 24)

/-- The bits of a mask that keeps one byte. -/
theorem getLsbD_byteMask {i : ℕ} (hi : i < 32) (k : ℕ) :
    (0xff#32 <<< k).getLsbD i = (decide (k ≤ i) && decide (i < k + 8)) := by
  have hbyte : ∀ j < 32, (0xff#32).getLsbD j = decide (j < 8) := by decide
  rw [BitVec.getLsbD_shiftLeft, hbyte (i - k) (by omega), Bool.eq_iff_iff]
  simp
  omega

/-- A bit keeps its place in the byte, and the byte is the one on the other side. -/
theorem getLsbD_ntohl (x : UInt32) {i : ℕ} (hi : i < 32) :
    (ntohl x).toBitVec.getLsbD i = x.toBitVec.getLsbD (24 + 2 * (i % 8) - i) := by
  have hmask : (0xff00#32).getLsbD i = _ := getLsbD_byteMask hi 8
  have hmask' : (0xff0000#32).getLsbD i = _ := getLsbD_byteMask hi 16
  simp [ntohl, hmask, hmask']
  grind

theorem ntohl_ntohl (x : UInt32) : ntohl (ntohl x) = x := by
  apply UInt32.toBitVec_inj.mp
  apply BitVec.eq_of_getLsbD_eq
  intro i hi
  rw [getLsbD_ntohl _ hi, getLsbD_ntohl _ (by omega)]
  congr 1
  omega

/-- `htons`: the two bytes exchanged. -/
def htons (x : UInt16) : UInt16 := UInt16.ofNat (x.toNat % 256 * 256 + x.toNat / 256)

theorem htons_htons (x : UInt16) : htons (htons x) = x := by
  have hx := x.toNat_lt
  have hlt : x.toNat % 256 * 256 + x.toNat / 256 < 2 ^ 16 := by omega
  have hswap : (htons x).toNat = x.toNat % 256 * 256 + x.toNat / 256 := by
    rw [htons, UInt16.toNat_ofNat', Nat.mod_eq_of_lt hlt]
  have hlow : (htons x).toNat % 256 = x.toNat / 256 := by omega
  have hhigh : (htons x).toNat / 256 = x.toNat % 256 := by omega
  apply UInt16.toNat_inj.mp
  rw [htons, hlow, hhigh, UInt16.toNat_ofNat']
  omega

theorem htons_ne_zero {x : UInt16} (h : x ≠ 0) : htons x ≠ 0 := by
  intro hswap
  apply h
  rw [← htons_htons x, hswap]
  rfl

theorem htons_eq_zero_iff {x : UInt16} : htons x = 0 ↔ x = 0 := by
  constructor
  · intro h
    by_contra hne
    exact htons_ne_zero hne h
  · rintro rfl
    rfl

/-- `struct sockaddr_in`. -/
structure SockaddrIn where
  sinFamily : UInt16
  sinPort : UInt16
  sAddr : UInt32
deriving DecidableEq, Repr

/-- `struct sockaddr_in empty{}`. -/
def SockaddrIn.zero : SockaddrIn := ⟨0, 0, 0⟩

def AF_INET : UInt16 := 2

def AF_INET6 : UInt16 := 10

/-- `struct in6_addr`, in the pieces the code reads of it. -/
structure In6Addr where
  u64₀ : UInt64
  u16₄ : UInt16
  u16₅ : UInt16
  u32₃ : UInt32
deriving DecidableEq, Repr

/-- The address is an IPv4 address that is mapped to IPv6. -/
def In6Addr.Mapped (a : In6Addr) : Prop := a.u64₀ = 0 ∧ a.u16₄ = 0 ∧ a.u16₅ = 0xffff

instance (a : In6Addr) : Decidable a.Mapped := inferInstanceAs (Decidable (_ ∧ _ ∧ _))

/-- A socket address as `connect`, `accept` and `sendto` pass it: one block of
memory that the code reads as a `sockaddr_in` or as a `sockaddr_in6`. The two
views share the family and the port. `sAddr` is what the `sockaddr_in` view
finds at its address, whatever the family is. -/
structure Sockaddr where
  sinFamily : UInt16
  sinPort : UInt16
  sAddr : UInt32
  sin6Addr : In6Addr
deriving DecidableEq, Repr

/-- The `sockaddr_in` view. -/
def Sockaddr.asIn (a : Sockaddr) : SockaddrIn := ⟨a.sinFamily, a.sinPort, a.sAddr⟩

end Tmet.Posix
