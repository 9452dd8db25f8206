import Tmet.Mysyscall.BinaryStr

/-!
# `Tmet.Proofs.Mysyscall.BinaryStr`: which bytes are printed right

A byte should be printed as `\x` and its two digits, four characters, and the window of
`snprintf` has room for four characters and a zero. The next window starts at that zero, so
after the loop the buffer holds the pieces in order and one zero behind them
(`printBytes_eq`), whatever was there before.

The pieces are cut at four characters. Where `char` is signed, a byte from `0x80` on is
extended to a number of eight digits, and the two that are left of them are `FF`
(`window_eq_iff`). `rendered_iff` is the result for whole buffers: two of them are printed
right, and told apart where they differ, if and only if neither has such a byte among its
first sixteen, `0xFF` excepted.
-/

set_option autoImplicit false

namespace Tmet.Mysyscall

open Tmet.Lib

/-- What should be printed for a byte. -/
def rendered (b : UInt8) : Bytes := [92, 120] ++ hexPair b

/-- What should be printed for a buffer. -/
def rendering (buf : Bytes) : Bytes := (buf.take 16).flatMap rendered

/-- What the window of `snprintf` shows of a byte. -/
def window (charSigned : Bool) (b : UInt8) : Bytes := (escape charSigned b).take 4

/-- The byte keeps its value as a `char`, or loses nothing that is printed. -/
def Plain (charSigned : Bool) (buf : Bytes) : Prop :=
  charSigned = false ∨ ∀ b ∈ buf.take 16, b.toNat < 0x80 ∨ b = 0xff

/-! ### One byte -/

theorem length_rendered (b : UInt8) : (rendered b).length = 4 := rfl

theorem rendered_injective (b c : UInt8) (h : rendered b = rendered c) : b = c :=
  hexPair_injective (List.append_cancel_left h)

/-- All bytes, one by one. -/
theorem window_of_lt : ∀ n < 256,
    window false (UInt8.ofNat n) = rendered (UInt8.ofNat n)
      ∧ window true (UInt8.ofNat n)
        = if n < 0x80 then rendered (UInt8.ofNat n) else rendered 0xff := by
  decide +kernel

theorem window_false (b : UInt8) : window false b = rendered b := by
  have h := (window_of_lt b.toNat b.toNat_lt).1
  rwa [UInt8.ofNat_toNat] at h

theorem window_true (b : UInt8) :
    window true b = if b.toNat < 0x80 then rendered b else rendered 0xff := by
  have h := (window_of_lt b.toNat b.toNat_lt).2
  rwa [UInt8.ofNat_toNat] at h

theorem length_window (charSigned : Bool) (b : UInt8) : (window charSigned b).length = 4 := by
  cases charSigned with
  | false =>
      rw [window_false]
      rfl
  | true =>
      rw [window_true]
      split <;> rfl

/-- Which bytes are printed right. -/
theorem window_eq_iff (charSigned : Bool) (b : UInt8) :
    window charSigned b = rendered b ↔ charSigned = false ∨ b.toNat < 0x80 ∨ b = 0xff := by
  cases charSigned with
  | false => simp [window_false]
  | true =>
      rw [window_true]
      by_cases hlow : b.toNat < 0x80
      · simp [hlow]
      · rw [if_neg hlow]
        simp only [hlow, Bool.true_eq_false, false_or]
        exact ⟨fun h => (rendered_injective _ _ h).symm, fun h => by rw [h]⟩

/-- No piece has a zero in it. -/
theorem ne_zero_of_mem_window (charSigned : Bool) (b : UInt8) :
    ∀ x ∈ window charSigned b, x ≠ 0 := by
  -- a backslash, an x and two digits
  have hrendered : ∀ c : UInt8, ∀ x ∈ rendered c, x ≠ 0 := by
    intro c x hx
    have hc := c.toNat_lt
    have hhigh := hexDigit_ne_zero (c.toNat / 16) (by omega)
    have hlow := hexDigit_ne_zero (c.toNat % 16) (by omega)
    simp only [rendered, hexPair, List.cons_append, List.nil_append, List.mem_cons,
      List.not_mem_nil, or_false] at hx
    rcases hx with rfl | rfl | rfl | rfl
    · decide
    · decide
    · exact hhigh
    · exact hlow
  cases charSigned with
  | false =>
      rw [window_false]
      exact hrendered b
  | true =>
      rw [window_true]
      split
      · exact hrendered b
      · exact hrendered 0xff

/-! ### The loop -/

/-- A window that starts at the zero behind a text: the text grows by four characters. -/
theorem snprintf_append (done rest : Bytes) {text : Bytes} (htext : (text.take 4).length = 4) :
    snprintf (done ++ 0 :: rest) done.length 5 text
      = done ++ text.take 4 ++ 0 :: rest.drop 4 := by
  have htake : (done ++ 0 :: rest).take done.length = done := List.take_left' rfl
  have hdrop : (done ++ 0 :: rest).drop (done.length + (text.take 4 ++ [0]).length)
      = rest.drop 4 := by
    rw [List.length_append, htext, ← List.drop_drop, List.drop_left' rfl]
    rfl
  show (done ++ 0 :: rest).take done.length ++ (text.take 4 ++ [0])
    ++ (done ++ 0 :: rest).drop (done.length + (text.take 4 ++ [0]).length) = _
  rw [htake, hdrop]
  simp

/-- After the loop the pieces stand at the front, with a zero behind them. -/
theorem printBytes_eq (charSigned : Bool) (buf rest : Bytes) {size : ℕ} (hsize : size ≤ buf.length) :
    printBytes charSigned buf (0 :: rest) size
      = (buf.take size).flatMap (window charSigned) ++ 0 :: rest.drop (4 * size) := by
  induction size with
  | zero => simp [printBytes]
  | succ k ih =>
      have hk : k < buf.length := hsize
      have hstep : printBytes charSigned buf (0 :: rest) (k + 1)
          = snprintf (printBytes charSigned buf (0 :: rest) k) (k * 4) 5
              (escape charSigned buf[k]) := by
        rw [printBytes, List.range_succ, List.foldl_append, List.foldl_cons, List.foldl_nil,
          List.getD_eq_getElem _ _ hk]
        rfl
      -- the pieces of before fill the buffer up to the next window
      have hfront : ((buf.take k).flatMap (window charSigned)).length = k * 4 := by
        rw [length_flatMap_of_length (length_window charSigned), List.length_take,
          Nat.min_eq_left hk.le]
      have hrest : 4 * k + 4 = 4 * (k + 1) := by ring
      rw [hstep, ih hk.le, ← hfront, snprintf_append _ _ (length_window charSigned buf[k]),
        List.drop_drop, hrest, List.take_succ_eq_append_getElem hk, List.flatMap_append,
        List.flatMap_singleton]
      rfl

/-- The string that is printed: the pieces of the first sixteen bytes. -/
theorem printed_eq (charSigned : Bool) (s : StrBuf) {which : ℕ} (hwhich : which < NR_STR_BUF)
    (buf : Bytes) :
    printed charSigned s which buf = some ((buf.take 16).flatMap (window charSigned)) := by
  have hsize : printedSize buf.length = min 16 buf.length := by
    rw [printedSize]
    show (if buf.length < 16 then buf.length else 16) = min 16 buf.length
    split <;> omega
  obtain ⟨c, rest, hrow⟩ : ∃ c rest, s.row which = c :: rest := by
    refine List.exists_cons_of_length_pos ?_
    rw [s.length_row]
    exact Nat.succ_pos _
  rw [printed, binaryStrInternal, if_pos hwhich]
  show some (cString (printBytes charSigned buf ((s.row which).set 0 0) (printedSize buf.length)))
    = _
  rw [hrow, List.set_cons_zero, printBytes_eq charSigned buf rest (by omega), hsize,
    ← List.take_eq_take_min, cString]
  -- the string ends at the zero behind the pieces
  have hnonzero : ∀ x ∈ (buf.take 16).flatMap (window charSigned), decide (x ≠ 0) = true := by
    intro x hx
    obtain ⟨b, -, hb⟩ := List.mem_flatMap.mp hx
    exact decide_eq_true (ne_zero_of_mem_window charSigned b x hb)
  rw [List.takeWhile_append_of_pos hnonzero]
  simp

/-! ### Whole buffers -/

/-- A buffer is printed right if and only if each of its first sixteen bytes is. -/
theorem flatMap_window_iff (charSigned : Bool) (buf : Bytes) :
    (buf.take 16).flatMap (window charSigned) = rendering buf ↔ Plain charSigned buf := by
  rw [rendering, flatMap_eq_flatMap_iff (length_window charSigned) length_rendered]
  simp only [window_eq_iff, Plain]
  cases charSigned with
  | false => simp
  | true => simp

/-- Buffers that differ in the first sixteen bytes should be printed differently. -/
theorem rendering_ne {x y : Bytes} (h : x.take 16 ≠ y.take 16) : rendering x ≠ rendering y :=
  fun heq => h (flatMap_injective length_rendered (by decide) rendered_injective _ _ heq)

/-- Two buffers are printed right, whatever is in the static buffer, and differently if
they differ in the first sixteen bytes, exactly if no byte that is printed loses its
digits. -/
theorem rendered_iff (charSigned : Bool) (s s' : StrBuf) (which which' : ℕ)
    (hwhich : which < NR_STR_BUF) (hwhich' : which' < NR_STR_BUF) (x y : Bytes) :
    (printed charSigned s which x = some (rendering x)
        ∧ printed charSigned s' which' y = some (rendering y)
        ∧ (x.take 16 ≠ y.take 16 →
            printed charSigned s which x ≠ printed charSigned s' which' y))
      ↔ Plain charSigned x ∧ Plain charSigned y := by
  rw [printed_eq charSigned s hwhich, printed_eq charSigned s' hwhich', Option.some_inj,
    Option.some_inj, flatMap_window_iff, flatMap_window_iff]
  constructor
  · rintro ⟨hx, hy, -⟩
    exact ⟨hx, hy⟩
  · rintro ⟨hx, hy⟩
    refine ⟨hx, hy, fun hne heq => rendering_ne hne ?_⟩
    rw [← (flatMap_window_iff charSigned x).mpr hx, ← (flatMap_window_iff charSigned y).mpr hy]
    exact Option.some.inj heq

/-- The static buffer at the start of the program. -/
def freshStrBuf : StrBuf := ⟨fun _ => List.replicate (MAX_STR_LEN + 1) 0, fun _ => by simp⟩

/-- `"A"` and `"B"` are printed as `\x41` and `\x42`. -/
theorem rendered_iff_ascii :
    printed true freshStrBuf 0 [65] = some [92, 120, 52, 49]
      ∧ printed true freshStrBuf 1 [66] = some [92, 120, 52, 50]
      ∧ ([65].take 16 ≠ ([66] : Bytes).take 16 →
          printed true freshStrBuf 0 [65] ≠ printed true freshStrBuf 1 [66]) :=
  (rendered_iff true freshStrBuf freshStrBuf 0 1 (by decide) (by decide) [65] [66]).mpr
    ⟨Or.inr (by decide +kernel), Or.inr (by decide +kernel)⟩

/-- The byte `0x80` is printed as `0xFF` is. -/
theorem rendered_fails :
    printed true freshStrBuf 0 [0x80] ≠ some (rendering [0x80])
      ∧ printed true freshStrBuf 0 [0x80] = printed true freshStrBuf 0 [0xff]
      ∧ ([0x80] : Bytes).take 16 ≠ ([0xff] : Bytes).take 16 := by
  decide +kernel

end Tmet.Mysyscall
