import Mathlib

/-!
# `Tmet.Lib.Choose`: picking the elements of a finite set one by one

`CHOOSE x \in S : TRUE` names some element of a non-empty `S`, always the same
one for the same `S`, and says nothing else about it. A `Choose α` is such a
selection; results about it hold for whatever order it picks in.

`order c S` is the list a loop `WHILE S /= {} DO n := pick S; S := S \ {n}`
walks through. It lists `S` once each (`nodup_order`, `mem_order`), so a sum
along it is the sum over the set (`sum_map_order`). `Choose.smallest` picks in
increasing order, the order an ordered map is iterated in.
-/

set_option autoImplicit false

namespace Tmet.Lib

/-- A selection of one element from every non-empty finite set. -/
structure Choose (α : Type*) where
  pick : (S : Finset α) → S.Nonempty → α
  pick_mem : ∀ S h, pick S h ∈ S

namespace Choose

variable {α : Type*} [DecidableEq α] (c : Choose α)

/-- The loop with an explicit bound on its rounds; `order` uses the size of the
set, which is never exceeded. -/
def orderAux : ℕ → Finset α → List α
  | 0, _ => []
  | k + 1, S =>
      if h : S.Nonempty then c.pick S h :: orderAux k (S.erase (c.pick S h)) else []

/-- The elements of `S` in the order the selection takes them out. -/
def order (S : Finset α) : List α := c.orderAux S.card S

@[simp] theorem order_empty : c.order ∅ = [] := rfl

/-- One round of the loop: the picked element first, then the rest of the set. -/
theorem order_of_nonempty {S : Finset α} (h : S.Nonempty) :
    c.order S = c.pick S h :: c.order (S.erase (c.pick S h)) := by
  have hcard : S.card = (S.erase (c.pick S h)).card + 1 :=
    (Finset.card_erase_add_one (c.pick_mem S h)).symm
  unfold order
  rw [hcard, orderAux, dif_pos h]

/-- The loop visits every element of the set exactly once. -/
theorem nodup_order_and_mem (S : Finset α) :
    (c.order S).Nodup ∧ ∀ a, a ∈ c.order S ↔ a ∈ S := by
  -- on the set: the element that is picked is gone from what remains
  induction S using Finset.strongInduction with
  | H S ih =>
      rcases S.eq_empty_or_nonempty with rfl | h
      · simp
      · have hmem := c.pick_mem S h
        obtain ⟨hnd, hiff⟩ := ih _ (Finset.erase_ssubset hmem)
        rw [order_of_nonempty c h]
        refine ⟨List.nodup_cons.mpr ⟨?_, hnd⟩, fun a => ?_⟩
        · rw [hiff]
          simp
        · rw [List.mem_cons, hiff, Finset.mem_erase]
          constructor
          · rintro (rfl | h')
            · exact hmem
            · exact h'.2
          · intro ha
            by_cases he : a = c.pick S h
            · exact Or.inl he
            · exact Or.inr ⟨he, ha⟩

theorem nodup_order (S : Finset α) : (c.order S).Nodup := (c.nodup_order_and_mem S).1

@[simp] theorem mem_order {S : Finset α} {a : α} : a ∈ c.order S ↔ a ∈ S :=
  (c.nodup_order_and_mem S).2 a

/-- As a set, the visited list is the set itself. -/
theorem toFinset_order (S : Finset α) : (c.order S).toFinset = S := by
  ext a
  simp

/-- A sum along the loop is the sum over the set, whatever the order. -/
theorem sum_map_order {M : Type*} [AddCommMonoid M] (S : Finset α) (w : α → M) :
    ((c.order S).map w).sum = ∑ a ∈ S, w a := by
  rw [← List.sum_toFinset w (c.nodup_order S), toFinset_order]

/-- An accumulating loop adds the sum over the set to its start value. -/
theorem foldl_order_add {M : Type*} [AddCommMonoid M] (S : Finset α) (w : α → M) (b : M) :
    (c.order S).foldl (fun r a => r + w a) b = b + ∑ a ∈ S, w a := by
  rw [← c.sum_map_order S w]
  generalize c.order S = l
  induction l generalizing b with
  | nil => simp
  | cons a l ih => rw [List.foldl_cons, ih, List.map_cons, List.sum_cons, add_assoc]

/-- The selection that always takes the least element. -/
def smallest (α : Type*) [LinearOrder α] : Choose α where
  pick S h := S.min' h
  pick_mem S h := S.min'_mem h

end Choose

end Tmet.Lib
