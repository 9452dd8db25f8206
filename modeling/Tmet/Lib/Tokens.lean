import Mathlib

/-!
# `Tmet.Lib.Tokens`: words between separators, up to a comment

`tokensOf` splits a text at a separator, skips what is empty, and stops at the first
piece that begins with the comment character. What it gives are words
(`word_of_mem_tokensOf`), and it reads back any words that are joined with the
separator (`tokensOf_intercalate`).

The words of a text, joined again, are not longer than the text
(`length_intercalate_tokensOf`). So a text that is cut off does not give the words of
the whole one.
-/

set_option autoImplicit false

namespace Tmet.Lib

variable {α : Type} {space comment : α}

/-! ### Joining -/

theorem length_intercalate_cons (w : List α) (ws : List (List α)) :
    ([space].intercalate (w :: ws)).length
      = w.length + ([space].intercalate ws).length + if ws = [] then 0 else 1 := by
  cases ws with
  | nil => simp
  | cons w' ws =>
      simp only [List.intercalate_cons_cons, List.length_append, List.length_singleton,
        reduceCtorEq, if_false]
      omega

/-- With fewer pieces the joined text is not longer. -/
theorem length_intercalate_le {ws ws' : List (List α)} (h : ws.Sublist ws') :
    ([space].intercalate ws).length ≤ ([space].intercalate ws').length := by
  induction h with
  | slnil => exact le_rfl
  | cons w _ ih =>
      rw [length_intercalate_cons]
      omega
  | @cons_cons l l' w hsub ih =>
      rw [length_intercalate_cons, length_intercalate_cons]
      by_cases hl : l = []
      · rw [if_pos hl]
        omega
      · have hl' : l' ≠ [] := fun hnil => hl (List.sublist_nil.mp (hnil ▸ hsub))
        rw [if_neg hl, if_neg hl']
        omega

theorem prefix_intercalate (w : List α) (ws : List (List α)) :
    w <+: [space].intercalate (w :: ws) := by
  cases ws with
  | nil => simp
  | cons w' ws =>
      rw [List.intercalate_cons_cons, List.append_assoc]
      exact List.prefix_append w _

/-- What is not the separator is in one of the words. -/
theorem mem_of_mem_intercalate {x : α} {ws : List (List α)} (hx : x ≠ space)
    (h : x ∈ [space].intercalate ws) : ∃ w ∈ ws, x ∈ w := by
  induction ws with
  | nil => simp at h
  | cons w ws ih =>
      cases ws with
      | nil => exact ⟨w, by simp, by simpa using h⟩
      | cons w' ws =>
          rw [List.intercalate_cons_cons, List.mem_append, List.mem_append] at h
          rcases h with (hw | hspace) | hrest
          · exact ⟨w, by simp, hw⟩
          · exact absurd (List.mem_singleton.mp hspace) hx
          · obtain ⟨v, hv, hmem⟩ := ih hrest
            exact ⟨v, List.mem_cons_of_mem w hv, hmem⟩

/-- Joining the words one by one, as a loop does it. -/
theorem foldl_join_eq_intercalate (w : List α) (ws : List (List α)) :
    ws.foldl (fun res x => res ++ ([space] ++ x)) w = [space].intercalate (w :: ws) := by
  induction ws generalizing w with
  | nil => simp
  | cons x ws ih =>
      rw [List.foldl_cons, ih, List.intercalate_cons_cons]
      cases ws with
      | nil => simp
      | cons y ws => simp [List.intercalate_cons_cons]

/-! ### Splitting -/

variable [DecidableEq α]

/-- The tokens of a text. -/
def tokensOf (space comment : α) (text : List α) : List (List α) :=
  ((text.splitOn space).filter (· ≠ [])).takeWhile (·.head? ≠ some comment)

/-- What a token looks like. -/
structure IsWord (space comment : α) (w : List α) : Prop where
  ne_nil : w ≠ []
  no_space : space ∉ w
  no_comment : w.head? ≠ some comment

theorem notMem_of_mem_splitOn {text piece : List α} (h : piece ∈ text.splitOn space) :
    space ∉ piece := by
  induction text generalizing piece with
  | nil =>
      rw [List.splitOn_nil, List.mem_singleton] at h
      rw [h]
      exact List.not_mem_nil
  | cons x text ih =>
      rw [List.splitOn_cons_eq_if_modifyHead] at h
      split at h
      · rcases List.mem_cons.mp h with rfl | h
        · exact List.not_mem_nil
        · exact ih h
      · rename_i hx
        -- the character goes in front of the first piece
        cases hsplit : text.splitOn space with
        | nil => exact absurd hsplit (List.splitOn_ne_nil space text)
        | cons first pieces =>
            rw [hsplit, List.modifyHead_cons] at h
            rcases List.mem_cons.mp h with rfl | h
            · have hfirst : space ∉ first := ih (by simp [hsplit])
              have hne : space ≠ x := fun heq => hx (by simp [heq])
              simp [hne, hfirst]
            · exact ih (by simp [hsplit, h])

theorem word_of_mem_tokensOf {text w : List α} (h : w ∈ tokensOf space comment text) :
    IsWord space comment w := by
  have hfilter := (List.takeWhile_sublist _).subset h
  obtain ⟨hpiece, hne⟩ := List.mem_filter.mp hfilter
  exact ⟨by simpa using hne, notMem_of_mem_splitOn hpiece, by simpa using List.mem_takeWhile_imp h⟩

/-- A text that begins like a word has a token. -/
theorem tokensOf_cons_ne_nil {x : α} (hspace : x ≠ space) (hcomment : x ≠ comment)
    (text : List α) : tokensOf space comment (x :: text) ≠ [] := by
  cases hsplit : text.splitOn space with
  | nil => exact absurd hsplit (List.splitOn_ne_nil space text)
  | cons first pieces =>
      have hpieces : (x :: text).splitOn space = (x :: first) :: pieces := by
        simp [List.splitOn_cons_eq_if_modifyHead, hspace, hsplit]
      simp [tokensOf, hpieces, hcomment]

/-- Words that are joined with the separator are read back. -/
theorem tokensOf_intercalate {ws : List (List α)} (h : ∀ w ∈ ws, IsWord space comment w) :
    tokensOf space comment ([space].intercalate ws) = ws := by
  cases ws with
  | nil => simp [tokensOf]
  | cons w ws =>
      have hsplit : ([space].intercalate (w :: ws)).splitOn space = w :: ws :=
        List.splitOn_intercalate space (fun x hx => (h x hx).no_space) (by simp)
      have hfilter : (w :: ws).filter (· ≠ []) = w :: ws :=
        List.filter_eq_self.mpr fun x hx => by simpa using (h x hx).ne_nil
      rw [tokensOf, hsplit, hfilter]
      exact List.takeWhile_eq_self_iff.mpr fun x hx => by simpa using (h x hx).no_comment

/-- The words of a text, joined, are not longer than the text. -/
theorem length_intercalate_tokensOf (space comment : α) (text : List α) :
    ([space].intercalate (tokensOf space comment text)).length ≤ text.length := by
  have hsub : (tokensOf space comment text).Sublist (text.splitOn space) :=
    (List.takeWhile_sublist _).trans List.filter_sublist
  calc ([space].intercalate (tokensOf space comment text)).length
      ≤ ([space].intercalate (text.splitOn space)).length := length_intercalate_le hsub
    _ = text.length := by rw [List.intercalate_splitOn]

end Tmet.Lib
