import Mathlib

/-!
# `Tmet.Lib.Fold`: loops over a list that may fail

A loop that goes through a list and may fail at each element is `foldlM` in `Option`. Its
state before an element is what it makes of the elements before it, so everything here
is about the splits `before ++ x :: after` of the list.

`foldlM_invariant` is the induction rule. `foldlM_steps_iff` is for a property that every
step has to have: when a condition on the list says which steps have it, the loop gets
through with this property at each step exactly if the condition holds at each split.

`table_eq_lastWrite` is for a loop that fills a table, where an element may write over
what an earlier one wrote: the table holds what was written last for each key.
-/

set_option autoImplicit false

namespace Tmet.Lib

variable {σ α : Type*} {f : σ → α → Option σ} {s s' : σ}

/-- The last element of the list. -/
theorem foldlM_snoc_eq_some {l : List α} {x : α} :
    (l ++ [x]).foldlM f s = some s' ↔ ∃ s₁, l.foldlM f s = some s₁ ∧ f s₁ x = some s' := by
  rw [List.foldlM_append, Option.bind_eq_bind, Option.bind_eq_some_iff]
  simp

/-- A property of the state that holds at first and that every step keeps. `P` is also
about the elements that have been read. -/
theorem foldlM_invariant {P : List α → σ → Prop} {l : List α} (hinit : P [] s)
    (hstep : ∀ before x s₁ s₂, before.foldlM f s = some s₁ → P before s₁ → f s₁ x = some s₂ →
      P (before ++ [x]) s₂)
    (h : l.foldlM f s = some s') : P l s' := by
  induction l using List.reverseRecOn generalizing s' with
  | nil =>
      cases h
      exact hinit
  | append_singleton l x ih =>
      obtain ⟨s₁, hl, hx⟩ := foldlM_snoc_eq_some.mp h
      exact hstep l x s₁ s' hl (ih hl) hx

/-- The loop fails only at an element. -/
theorem foldlM_isSome {l : List α}
    (h : ∀ before x after, l = before ++ x :: after → ∀ s₁, before.foldlM f s = some s₁ →
      (f s₁ x).isSome = true) : (l.foldlM f s).isSome = true := by
  induction l using List.reverseRecOn with
  | nil => rfl
  | append_singleton l x ih =>
      have hl : (l.foldlM f s).isSome = true := by
        refine ih fun before y after hsplit s₁ hs₁ => ?_
        refine h before y (after ++ [x]) ?_ s₁ hs₁
        rw [hsplit, List.append_assoc, List.cons_append]
      obtain ⟨s₁, hs₁⟩ := Option.isSome_iff_exists.mp hl
      obtain ⟨s₂, hs₂⟩ := Option.isSome_iff_exists.mp (h l x [] rfl s₁ hs₁)
      exact Option.isSome_iff_exists.mpr ⟨s₂, foldlM_snoc_eq_some.mpr ⟨s₁, hs₁, hs₂⟩⟩

/-- If `C` says which steps have the property `Q`, and none of these fails, then all steps
of the loop have it exactly if `C` holds throughout the list. -/
theorem foldlM_steps_iff {Q : σ → α → Prop} {C : List α → α → Prop} {l : List α}
    (hsome : ∀ s₁ x, Q s₁ x → (f s₁ x).isSome = true)
    (hiff : ∀ before x s₁, before.foldlM f s = some s₁ → (Q s₁ x ↔ C before x)) :
    (∀ before x after, l = before ++ x :: after → ∃ s₁, before.foldlM f s = some s₁ ∧ Q s₁ x)
      ↔ ∀ before x after, l = before ++ x :: after → C before x := by
  constructor
  · intro h before x after hsplit
    obtain ⟨s₁, hs₁, hQ⟩ := h before x after hsplit
    exact (hiff before x s₁ hs₁).mp hQ
  · intro h before x after hsplit
    -- every element before `x` is at a split of the whole list as well
    have hbefore : (before.foldlM f s).isSome = true := by
      refine foldlM_isSome fun b y a hb s₁ hs₁ => hsome s₁ y ((hiff b y s₁ hs₁).mpr ?_)
      refine h b y (a ++ x :: after) ?_
      rw [hsplit, hb, List.append_assoc, List.cons_append]
    obtain ⟨s₁, hs₁⟩ := Option.isSome_iff_exists.mp hbefore
    exact ⟨s₁, hs₁, (hiff before x s₁ hs₁).mpr (h before x after hsplit)⟩

/-! ### Tables -/

section Tables

variable {κ ν : Type*} {R : α → κ → ν → Prop} {l : List α} {x y : α} {k : κ} {v w : ν}

/-- An element writes `v` for `k`, and none after it writes for `k`. `R` says what an
element writes. -/
def LastWrite (R : α → κ → ν → Prop) (l : List α) (k : κ) (v : ν) : Prop :=
  ∃ before x after, l = before ++ x :: after ∧ R x k v ∧ ∀ y ∈ after, ∀ w, ¬ R y k w

theorem not_lastWrite_nil : ¬ LastWrite R [] k v := by
  rintro ⟨before, x, after, hsplit, -⟩
  simp at hsplit

theorem lastWrite_snoc :
    LastWrite R (l ++ [x]) k v ↔ R x k v ∨ (LastWrite R l k v ∧ ∀ w, ¬ R x k w) := by
  constructor
  · rintro ⟨before, y, after, hsplit, hy, hafter⟩
    -- the last write is `x` itself, or it stands before `x` and `x` does not overwrite it
    rcases List.eq_nil_or_concat' after with rfl | ⟨after, z, rfl⟩
    · obtain ⟨-, hlast⟩ := List.append_inj' hsplit rfl
      cases hlast
      exact Or.inl hy
    · rw [← List.cons_append, ← List.append_assoc] at hsplit
      obtain ⟨rfl, hlast⟩ := List.append_inj' hsplit rfl
      cases hlast
      refine Or.inr ⟨⟨before, y, after, rfl, hy, fun z hz => ?_⟩, hafter x (by simp)⟩
      exact hafter z (List.mem_append_left _ hz)
  · rintro (hx | ⟨⟨before, y, after, rfl, hy, hafter⟩, hx⟩)
    · exact ⟨l, x, [], rfl, hx, by simp⟩
    · refine ⟨before, y, after ++ [x], by simp, hy, fun z hz => ?_⟩
      rcases List.mem_append.mp hz with hz | hz
      · exact hafter z hz
      · rw [List.mem_singleton.mp hz]
        exact hx

/-- The place of the last write for a key is unique. -/
theorem lastWrite_place {before before' after after' : List α} (hx : R x k v) (hy : R y k w)
    (hafter : ∀ z ∈ after, ∀ w, ¬ R z k w) (hafter' : ∀ z ∈ after', ∀ w, ¬ R z k w)
    (h : before ++ x :: after = before' ++ y :: after') : x = y := by
  rcases List.append_eq_append_iff.mp h with ⟨mid, rfl, hmid⟩ | ⟨mid, rfl, hmid⟩
  · cases mid with
    | nil => exact (List.cons.inj hmid).1
    | cons z mid =>
        obtain ⟨-, rfl⟩ := List.cons.inj hmid
        exact absurd hy (hafter y (by simp) w)
  · cases mid with
    | nil => exact (List.cons.inj hmid).1.symm
    | cons z mid =>
        obtain ⟨-, rfl⟩ := List.cons.inj hmid
        exact absurd hx (hafter' x (by simp) v)

/-- A table that is empty at first, and into which each element writes, holds the last
writes. `T s` are the entries in the state `s`. -/
theorem table_eq_lastWrite {T : σ → κ → ν → Prop} (hinit : ∀ k v, ¬ T s k v)
    (hstep : ∀ (before : List α) x s₁ s₂, before.foldlM f s = some s₁ → f s₁ x = some s₂ → ∀ k v,
      (T s₂ k v ↔ R x k v ∨ (T s₁ k v ∧ ∀ w, ¬ R x k w)))
    (h : l.foldlM f s = some s') (k : κ) (v : ν) : T s' k v ↔ LastWrite R l k v := by
  have hall : ∀ k v, T s' k v ↔ LastWrite R l k v := by
    refine foldlM_invariant (P := fun l s' => ∀ k v, T s' k v ↔ LastWrite R l k v)
      (fun k v => iff_of_false (hinit k v) not_lastWrite_nil)
      (fun before x s₁ s₂ hs₁ hbefore hx k v => ?_) h
    rw [hstep before x s₁ s₂ hs₁ hx, hbefore, lastWrite_snoc]
  exact hall k v

end Tables

end Tmet.Lib
