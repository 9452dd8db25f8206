import Mathlib

/-!
# `Tmet.Lib.FinFn`: functions with a finite domain

A `FinFn α β` is a function together with its finite domain: the functions and
records of TLA+, and equally an ordered map. The operators are

* `tabulate S e`: `[x \in S |-> e x]`;
* `single a b`: `a :> b`;
* `overlay f g`: `f @@ g`, where `f` wins on the common domain;
* `except f a k`: `[f EXCEPT ![a] = k(@)]`, which leaves a function alone that
  is not defined at `a`;
* `insert` and `erase`: the updates of a map; `mapVal` replaces every value.

The lookups are simp lemmas, so a lookup in a composed expression normalises to
a case distinction on the key. `sum f w` adds `w a b` over the entries of `f`;
`exists_rest` isolates one entry of the sum.
-/

set_option autoImplicit false

namespace Tmet.Lib

/-- A function with a finite domain. The domain is determined by the values, so
two such functions are equal when they agree everywhere. -/
structure FinFn (α β : Type*) where
  dom : Finset α
  get : α → Option β
  isSome_get : ∀ a, (get a).isSome = true ↔ a ∈ dom

namespace FinFn

variable {α β : Type*}

theorem mem_dom {f : FinFn α β} {a : α} : a ∈ f.dom ↔ ∃ b, f.get a = some b := by
  rw [← f.isSome_get, Option.isSome_iff_exists]

theorem mem_dom_of_get {f : FinFn α β} {a : α} {b : β} (h : f.get a = some b) : a ∈ f.dom :=
  mem_dom.mpr ⟨b, h⟩

theorem get_eq_none {f : FinFn α β} {a : α} : f.get a = none ↔ a ∉ f.dom := by
  rw [← f.isSome_get, Bool.not_eq_true, Option.isSome_eq_false_iff, Option.isNone_iff_eq_none]

@[ext] theorem ext {f g : FinFn α β} (h : ∀ a, f.get a = g.get a) : f = g := by
  have hdom : f.dom = g.dom := by
    ext a
    rw [← f.isSome_get, ← g.isSome_get, h]
  cases f
  cases g
  obtain rfl : _ = _ := funext h
  obtain rfl := hdom
  rfl

/-- The function that is defined nowhere. -/
def empty : FinFn α β where
  dom := ∅
  get _ := none
  isSome_get a := by simp

@[simp] theorem get_empty (a : α) : (empty : FinFn α β).get a = none := rfl

@[simp] theorem dom_empty : (empty : FinFn α β).dom = ∅ := rfl

/-- The function with the same domain and every value replaced. -/
def mapVal {γ : Type*} (f : FinFn α β) (k : α → β → γ) : FinFn α γ where
  dom := f.dom
  get a := (f.get a).map (k a)
  isSome_get a := by rw [Option.isSome_map, f.isSome_get]

@[simp] theorem get_mapVal {γ : Type*} (f : FinFn α β) (k : α → β → γ) (a : α) :
    (f.mapVal k).get a = (f.get a).map (k a) := rfl

section Sum

variable {M : Type*} [AddCommMonoid M]

/-- The sum of `w a b` over the entries `a |-> b` of `f`. -/
def sum (f : FinFn α β) (w : α → β → M) : M :=
  ∑ a ∈ f.dom, (f.get a).elim 0 (w a)

/-- An additive map moves inside the sum. -/
theorem hom_sum {N F : Type*} [AddCommMonoid N] [FunLike F M N] [AddMonoidHomClass F M N] (φ : F)
    (f : FinFn α β) (w : α → β → M) : φ (f.sum w) = f.sum fun a b => φ (w a b) := by
  rw [sum, map_sum]
  refine Finset.sum_congr rfl fun a _ => ?_
  cases f.get a
  · exact map_zero φ
  · rfl

end Sum

variable [DecidableEq α]

/-- `[x \in S |-> e x]`. -/
def tabulate (S : Finset α) (e : α → β) : FinFn α β where
  dom := S
  get a := if a ∈ S then some (e a) else none
  isSome_get a := by by_cases h : a ∈ S <;> simp [h]

@[simp] theorem get_tabulate (S : Finset α) (e : α → β) (a : α) :
    (tabulate S e).get a = if a ∈ S then some (e a) else none := rfl

@[simp] theorem dom_tabulate (S : Finset α) (e : α → β) : (tabulate S e).dom = S := rfl

/-- `a :> b`. -/
def single (a : α) (b : β) : FinFn α β where
  dom := {a}
  get x := if x = a then some b else none
  isSome_get x := by by_cases h : x = a <;> simp [h]

@[simp] theorem get_single (a x : α) (b : β) :
    (single a b).get x = if x = a then some b else none := rfl

/-- `f @@ g`: the union of the two functions, `f` deciding where both are
defined. -/
def overlay (f g : FinFn α β) : FinFn α β where
  dom := f.dom ∪ g.dom
  get a := (f.get a).or (g.get a)
  isSome_get a := by
    rw [Option.isSome_or, Bool.or_eq_true, f.isSome_get, g.isSome_get, Finset.mem_union]

@[simp] theorem get_overlay (f g : FinFn α β) (a : α) :
    (f.overlay g).get a = (f.get a).or (g.get a) := rfl

@[simp] theorem dom_overlay (f g : FinFn α β) : (f.overlay g).dom = f.dom ∪ g.dom := rfl

/-- `[f EXCEPT ![a] = k(@)]`. -/
def except (f : FinFn α β) (a : α) (k : β → β) : FinFn α β where
  dom := f.dom
  get x := if x = a then (f.get x).map k else f.get x
  isSome_get x := by
    by_cases h : x = a
    · rw [if_pos h, Option.isSome_map, f.isSome_get]
    · rw [if_neg h, f.isSome_get]

@[simp] theorem get_except (f : FinFn α β) (a x : α) (k : β → β) :
    (f.except a k).get x = if x = a then (f.get x).map k else f.get x := rfl

@[simp] theorem dom_except (f : FinFn α β) (a : α) (k : β → β) : (f.except a k).dom = f.dom :=
  rfl

/-- The map with `a` bound to `b`. -/
def insert (f : FinFn α β) (a : α) (b : β) : FinFn α β := (single a b).overlay f

@[simp] theorem get_insert (f : FinFn α β) (a x : α) (b : β) :
    (f.insert a b).get x = if x = a then some b else f.get x := by
  by_cases h : x = a <;> simp [insert, h]

@[simp] theorem dom_insert (f : FinFn α β) (a : α) (b : β) :
    (f.insert a b).dom = {a} ∪ f.dom := rfl

theorem insert_of_get {f : FinFn α β} {a : α} {b : β} (h : f.get a = some b) :
    f.insert a b = f := by
  ext1 x
  rw [get_insert]
  split
  · rename_i hx
    rw [hx, h]
  · rfl

/-- A second value at the same place replaces the first. -/
theorem insert_insert (f : FinFn α β) (a : α) (b b' : β) :
    (f.insert a b).insert a b' = f.insert a b' := by
  ext1 x
  simp only [get_insert]
  split <;> rfl

/-- The map without the key `a`. -/
def erase (f : FinFn α β) (a : α) : FinFn α β where
  dom := f.dom.erase a
  get x := if x = a then none else f.get x
  isSome_get x := by
    by_cases h : x = a
    · simp [h]
    · rw [if_neg h, f.isSome_get, Finset.mem_erase]
      simp [h]

@[simp] theorem get_erase (f : FinFn α β) (a x : α) :
    (f.erase a).get x = if x = a then none else f.get x := rfl

@[simp] theorem dom_erase (f : FinFn α β) (a : α) : (f.erase a).dom = f.dom.erase a := rfl

/-- One entry of the sum against all others: the same rest remains whatever the
entry is replaced by. -/
theorem exists_rest {M : Type*} [AddCommMonoid M] (w : α → β → M) {f : FinFn α β} {a : α} {b : β}
    (h : f.get a = some b) :
    ∃ rest, f.sum w = w a b + rest ∧ ∀ k : β → β, (f.except a k).sum w = w a (k b) + rest := by
  refine ⟨∑ x ∈ f.dom.erase a, (f.get x).elim 0 (w x), ?_, fun k => ?_⟩
  · rw [sum, ← Finset.add_sum_erase _ _ (mem_dom_of_get h), h]
    rfl
  · rw [sum, dom_except, ← Finset.add_sum_erase _ _ (mem_dom_of_get h)]
    congr 1
    · simp [h]
    · refine Finset.sum_congr rfl fun x hx => ?_
      rw [get_except, if_neg (Finset.ne_of_mem_erase hx)]

end FinFn

end Tmet.Lib
