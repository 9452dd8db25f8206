import Mathlib

/-!
# `Tmet.Lib.Relay`: lossy first-in first-out buffers

A buffer takes values in, holds some of them, and gives some out. It may refuse a
value and drop values that it holds. `Relay taken held given` says that it neither
reorders, repeats nor invents any: what was given out, followed by what is held, is a
subsequence of what was taken in. Every operation has a rule, and `Relay.sublist` is
the result.
-/

set_option autoImplicit false

namespace Tmet.Lib

variable {β : Type*} {taken held given : List β}

/-- What was given out and what is held is a subsequence of what was taken in. -/
def Relay (taken held given : List β) : Prop := (given ++ held).Sublist taken

namespace Relay

theorem nil : Relay ([] : List β) [] [] := .refl []

/-- The value is held. -/
theorem take (h : Relay taken held given) (b : β) : Relay (taken ++ [b]) (held ++ [b]) given := by
  show (given ++ (held ++ [b])).Sublist (taken ++ [b])
  rw [← List.append_assoc]
  exact h.append_right [b]

/-- The values are not held. -/
theorem refuse (h : Relay taken held given) (more : List β) : Relay (taken ++ more) held given :=
  h.trans (List.sublist_append_left taken more)

/-- Some of the values that are held are lost. -/
theorem drop (h : Relay taken held given) {left : List β} (hleft : left.Sublist held) :
    Relay taken left given :=
  (hleft.append_left given).trans h

/-- A value is given out, and those that came before it are lost. -/
theorem give {lost rest : List β} {b : β} (h : Relay taken (lost ++ b :: rest) given) :
    Relay taken rest (given ++ [b]) := by
  have hkept : Relay taken (b :: rest) given := h.drop (List.sublist_append_right lost _)
  show (given ++ [b] ++ rest).Sublist taken
  rw [List.append_assoc]
  exact hkept

/-- Nothing was given out of order or twice. -/
theorem sublist (h : Relay taken held given) : given.Sublist taken :=
  (List.sublist_append_left given held).trans h

end Relay

end Tmet.Lib
