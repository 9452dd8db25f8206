import Tmet.Lib.Bytes

/-!
# `Tmet.Lib.Hex`: hexadecimal digits, and texts in pieces of one length

`hexDigit` is the upper-case ASCII digit of a number below 16, and `nibbles k n` are the `k`
low-order digits of `n`, most significant first.

A text that is put together from pieces of one length falls back into its pieces. So two
ways to render a list are the same if and only if they are the same for each entry
(`flatMap_eq_flatMap_iff`), and a rendering that tells the entries apart tells the lists
apart (`flatMap_injective`).
-/

set_option autoImplicit false

namespace Tmet.Lib

universe u v

/-- The digit of `d`, in ASCII. -/
def hexDigit (d : ℕ) : UInt8 := if d < 10 then UInt8.ofNat (48 + d) else UInt8.ofNat (55 + d)

/-- The `k` low-order digits of `n`, most significant first. -/
def nibbles : ℕ → ℕ → List ℕ
  | 0, _ => []
  | k + 1, n => n / 16 ^ k % 16 :: nibbles k n

/-- The two digits of a byte. -/
def hexPair (b : UInt8) : Bytes := [hexDigit (b.toNat / 16), hexDigit (b.toNat % 16)]

/-- Sixteen digits, all different. -/
theorem hexDigit_injective : ∀ d < 16, ∀ e < 16, hexDigit d = hexDigit e → d = e := by decide

theorem hexDigit_ne_zero : ∀ d < 16, hexDigit d ≠ 0 := by decide

/-- The two digits determine the byte. -/
theorem hexPair_injective {b c : UInt8} (h : hexPair b = hexPair c) : b = c := by
  have hb := b.toNat_lt
  have hc := c.toNat_lt
  obtain ⟨hhigh, hlow⟩ : hexDigit (b.toNat / 16) = hexDigit (c.toNat / 16)
      ∧ hexDigit (b.toNat % 16) = hexDigit (c.toNat % 16) := by
    simpa [hexPair] using h
  have hhigh' := hexDigit_injective _ (by omega) _ (by omega) hhigh
  have hlow' := hexDigit_injective _ (by omega) _ (by omega) hlow
  exact UInt8.toNat_inj.mp (by omega)

section Pieces

variable {α : Type u} {β : Type v} {f g : α → List β} {n : ℕ}

/-- The length of a text in pieces. -/
theorem length_flatMap_of_length (hf : ∀ x, (f x).length = n) (l : List α) :
    (l.flatMap f).length = l.length * n := by
  induction l with
  | nil => simp
  | cons x l ih =>
      rw [List.flatMap_cons, List.length_append, hf, ih, List.length_cons]
      ring

/-- Two renderings in pieces of one length agree on a list exactly if they agree on each
entry. -/
theorem flatMap_eq_flatMap_iff (hf : ∀ x, (f x).length = n) (hg : ∀ x, (g x).length = n)
    (l : List α) : l.flatMap f = l.flatMap g ↔ ∀ x ∈ l, f x = g x := by
  induction l with
  | nil => simp
  | cons x l ih =>
      have hlen : (f x).length = (g x).length := (hf x).trans (hg x).symm
      rw [List.flatMap_cons, List.flatMap_cons, List.forall_mem_cons, ← ih]
      constructor
      · intro h
        exact List.append_inj h hlen
      · rintro ⟨hx, hl⟩
        rw [hx, hl]

/-- A rendering in pieces of one length tells lists apart if it tells entries apart. -/
theorem flatMap_injective (hf : ∀ x, (f x).length = n) (hn : 0 < n)
    (hinj : ∀ x y, f x = f y → x = y) :
    ∀ l l' : List α, l.flatMap f = l'.flatMap f → l = l' := by
  -- a piece is not empty, so a list with an entry is not rendered as nothing
  have hne (x : α) : f x ≠ [] := by
    intro hnil
    have hlen := hf x
    rw [hnil, List.length_nil] at hlen
    omega
  intro l
  induction l with
  | nil =>
      intro l' h
      cases l' with
      | nil => rfl
      | cons y l' =>
          rw [List.flatMap_nil, List.flatMap_cons] at h
          exact absurd (List.append_eq_nil_iff.mp h.symm).1 (hne y)
  | cons x l ih =>
      intro l' h
      cases l' with
      | nil =>
          rw [List.flatMap_nil, List.flatMap_cons] at h
          exact absurd (List.append_eq_nil_iff.mp h).1 (hne x)
      | cons y l' =>
          rw [List.flatMap_cons, List.flatMap_cons] at h
          obtain ⟨hxy, hl⟩ := List.append_inj h ((hf x).trans (hf y).symm)
          rw [hinj x y hxy, ih l' hl]

end Pieces

end Tmet.Lib
