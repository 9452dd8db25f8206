import Tmet.Lib.Bytes
import Tmet.Lib.Framing

/-!
# `Tmet.Tproxy.Msg`: the header of a message

`struct MsgHeader` of `tproxy/TcpNetwork.h` is eight bytes of memory, which
`recv` fills and whose two fields are read with `ntohl`. `packetValidation` is
the check of the first field. `msgFraming` is the framing of a stream that the
two give: a header is one that passes the check on all of its bytes.
-/

set_option autoImplicit false

namespace Tmet.Tproxy

open Tmet.Lib

/-- `VALIDATION_DATA`. -/
def VALIDATION_DATA : ℕ := 0xdeadbeef

/-- `struct MsgHeader`: the memory it occupies. -/
structure MsgHeader where
  bytes : Bytes
  length_bytes : bytes.length = 8

namespace MsgHeader

/-- `MsgHeader header{}`. -/
def zero : MsgHeader := ⟨List.replicate 8 0, by simp⟩

/-- `ntohl(header.validation)`. -/
def validation (h : MsgHeader) : ℕ := ofBigEndian (h.bytes.take 4)

/-- `ntohl(header.size)`. -/
def size (h : MsgHeader) : ℕ := ofBigEndian (h.bytes.drop 4)

/-- The header after `recv` has stored `data` in it: what is behind the data
stays as it was. -/
def recvInto (h : MsgHeader) (data : Bytes) : MsgHeader where
  bytes := data.take 8 ++ h.bytes.drop data.length
  length_bytes := by
    rw [List.length_append, List.length_take, List.length_drop, h.length_bytes]
    omega

end MsgHeader

/-- `packet_validation(header, size)`; never called with `size = 0`. -/
def packetValidation (header : MsgHeader) (size : ℕ) : Bool :=
  let mask := if size < 4 then 0xffffffff >>> ((4 - size) * 8) else 0xffffffff
  header.validation &&& mask == VALIDATION_DATA &&& mask

/-- What `send_cmd` writes: a header with the size of the command, and the command. -/
def cmdFrame (cmd : Bytes) : Bytes :=
  bigEndian 4 VALIDATION_DATA ++ bigEndian 4 cmd.length ++ cmd

/-- The frames `do_receive` reads: eight bytes that pass the validation, then as
many bytes as they announce. -/
def msgFraming : Framing UInt8 where
  headerLen := 8
  headerLen_pos := by decide
  size w :=
    if h : w.length = 8 then
      if packetValidation ⟨w, h⟩ 8 then some (MsgHeader.size ⟨w, h⟩) else none
    else none

theorem msgFraming_size (h : MsgHeader) :
    msgFraming.size h.bytes = if packetValidation h 8 then some h.size else none :=
  dif_pos h.length_bytes

theorem validation_lt (h : MsgHeader) : h.validation < 2 ^ 32 := by
  have hlt := ofBigEndian_lt (h.bytes.take 4)
  have hlen : (h.bytes.take 4).length = 4 := by rw [List.length_take, h.length_bytes]; rfl
  rw [hlen] at hlt
  exact hlt

/-- With all four bytes there, the validation compares the whole field. -/
theorem packetValidation_iff {h : MsgHeader} {size : ℕ} (hsize : 4 ≤ size) :
    packetValidation h size = true ↔ h.validation = VALIDATION_DATA := by
  have hmod : h.validation &&& 0xffffffff = h.validation := by
    have := Nat.and_two_pow_sub_one_eq_mod h.validation 32
    rw [Nat.mod_eq_of_lt (validation_lt h)] at this
    exact this
  rw [packetValidation, if_neg (by omega)]
  simp only [hmod, beq_iff_eq]
  rfl

/-- The four bytes of `VALIDATION_DATA`. -/
theorem validation_eq_iff (h : MsgHeader) :
    h.validation = VALIDATION_DATA ↔ h.bytes.take 4 = bigEndian 4 VALIDATION_DATA := by
  have hlen : (h.bytes.take 4).length = 4 := by rw [List.length_take, h.length_bytes]; rfl
  constructor
  · intro hvalid
    have hround := bigEndian_ofBigEndian (h.bytes.take 4)
    rw [hlen] at hround
    rw [← hround, ← hvalid]
    rfl
  · intro htake
    show ofBigEndian (h.bytes.take 4) = VALIDATION_DATA
    rw [htake, ofBigEndian_bigEndian]
    rfl

/-- A header with the right field passes, however many bytes are looked at. -/
theorem packetValidation_of_validation {h : MsgHeader} (hvalid : h.validation = VALIDATION_DATA)
    (size : ℕ) : packetValidation h size = true := by
  simp only [packetValidation, hvalid, beq_self_eq_true]

theorem recvInto_of_length (old : MsgHeader) {data : Bytes} (h : data.length = 8) :
    old.recvInto data = ⟨data, h⟩ := by
  have hbytes : data.take 8 ++ old.bytes.drop data.length = data := by
    rw [h, ← old.length_bytes, List.drop_length, List.append_nil, old.length_bytes, ← h,
      List.take_length]
  simp only [MsgHeader.recvInto, hbytes]

/-- The beginning of a valid header, stored over a valid header or long enough, is
valid. -/
theorem validation_recvInto {old h : MsgHeader} {data : Bytes} (hdata : data <+: h.bytes)
    (hvalid : h.validation = VALIDATION_DATA)
    (hold : old.validation = VALIDATION_DATA ∨ 4 ≤ data.length) :
    (old.recvInto data).validation = VALIDATION_DATA := by
  rw [validation_eq_iff] at hvalid ⊢
  obtain ⟨behind, hbytes⟩ := hdata
  have hlen : data.length ≤ 8 := by
    have := congrArg List.length hbytes
    rw [List.length_append, h.length_bytes] at this
    omega
  show (data.take 8 ++ old.bytes.drop data.length).take 4 = _
  rw [List.take_of_length_le hlen]
  rw [← hbytes] at hvalid
  rcases Nat.lt_or_ge data.length 4 with hshort | hlong
  · have hold : old.bytes.take 4 = bigEndian 4 VALIDATION_DATA := by
      rcases hold with hold | hlong
      · exact (validation_eq_iff old).mp hold
      · omega
    -- the bytes behind the data are those of the old header
    have hsame : behind.take (4 - data.length)
        = (old.bytes.drop data.length).take (4 - data.length) := by
      have hbehind := congrArg (List.drop data.length) hvalid
      rw [← hold, List.drop_take, List.drop_take, List.drop_left] at hbehind
      exact hbehind
    rw [List.take_append, ← hsame, ← List.take_append]
    exact hvalid
  · rw [List.take_append_of_le_length hlong]
    rwa [List.take_append_of_le_length hlong] at hvalid

/-- One to three bytes that are stored over zeros never pass: the mask keeps their
number of low-order bytes, and the last of these is behind the data. -/
theorem packetValidation_zero {data : Bytes} (hne : data ≠ []) (hlen : data.length < 4) :
    packetValidation (MsgHeader.zero.recvInto data) data.length = false := by
  have hpos := List.length_pos_of_ne_nil hne
  have heven : (MsgHeader.zero.recvInto data).validation % 2 = 0 := by
    match data, hpos, hlen with
    | [a], _, _ =>
        simp [MsgHeader.validation, MsgHeader.recvInto, MsgHeader.zero, ofBigEndian]
        omega
    | [a, b], _, _ =>
        simp [MsgHeader.validation, MsgHeader.recvInto, MsgHeader.zero, ofBigEndian]
        omega
    | [a, b, c], _, _ =>
        simp [MsgHeader.validation, MsgHeader.recvInto, MsgHeader.zero, ofBigEndian]
        omega
  have hmask : ∀ n < 4, 0 < n → (0xffffffff >>> ((4 - n) * 8)).testBit 0 = true := by decide
  rw [packetValidation, if_pos hlen, beq_eq_false_iff_ne]
  intro heq
  have hbit := congrArg (Nat.testBit · 0) heq
  simp only [Nat.testBit_and, hmask _ hlen hpos, Bool.and_true] at hbit
  rw [Nat.testBit_zero, heven] at hbit
  exact absurd hbit (by decide)

end Tmet.Tproxy
