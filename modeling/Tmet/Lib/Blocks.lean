import Mathlib

/-!
# `Tmet.Lib.Blocks`: blocks of memory

A `Block` is a start address with a number of bytes. A block of no bytes still has an
address of its own, so its end is one past its start. `Apart` and `Within` are about two
blocks, and the lemmas say how the two go together. What is within a block is apart from all
that the block is apart from (`Within.apart`), and nothing is both within a block and apart
from it (`Within.not_apart`).
-/

set_option autoImplicit false

namespace Tmet.Lib

/-- `size` bytes from `start` on. -/
structure Block where
  start : ℕ
  size : ℕ
deriving DecidableEq, Repr

namespace Block

/-- The first address behind the block. -/
def stop (b : Block) : ℕ := b.start + max b.size 1

/-- Two blocks share no address. -/
def Apart (b c : Block) : Prop := b.stop ≤ c.start ∨ c.stop ≤ b.start

/-- The first block is part of the second. -/
def Within (b c : Block) : Prop := c.start ≤ b.start ∧ b.stop ≤ c.stop

instance (b c : Block) : Decidable (b.Apart c) :=
  inferInstanceAs (Decidable (_ ∨ _))

instance (b c : Block) : Decidable (b.Within c) :=
  inferInstanceAs (Decidable (_ ∧ _))

theorem start_lt_stop (b : Block) : b.start < b.stop := by
  unfold stop
  omega

theorem Apart.symm {b c : Block} (h : b.Apart c) : c.Apart b := Or.symm h

theorem Within.apart {b c d : Block} (h : b.Within c) (hd : d.Apart c) : b.Apart d := by
  obtain ⟨hstart, hstop⟩ := h
  rcases hd with hbelow | habove
  · exact Or.inr (hbelow.trans hstart)
  · exact Or.inl (hstop.trans habove)

theorem Within.not_apart {b c : Block} (h : b.Within c) : ¬ b.Apart c := by
  have hb := b.start_lt_stop
  have hc := c.start_lt_stop
  obtain ⟨hstart, hstop⟩ := h
  rintro (hbelow | habove) <;> omega

end Block

end Tmet.Lib
