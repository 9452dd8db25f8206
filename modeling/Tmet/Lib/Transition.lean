import Mathlib

/-!
# `Tmet.Lib.Transition`: labelled systems and their runs

A `System` is an initial predicate and a labelled step relation. `System.Run` is
a finite run from an initial state, together with the list of the steps taken.
The list is the history of the run, so a history variable is a function of it and
needs no extra state; `filterMap_snoc` is the step rule for one that collects something
from each step.

`Run.invariant` is the induction rule for a property of the history and the
state together, `Run.state_invariant` the one for a property of the state.
`Run.mem_split` goes back from a step of the history to the moment it was taken,
and `Run.after` goes on from there. `Run.history_iff` and `Run.visited_iff` are for a
property that some steps break: they say which runs never visit a state without it.
-/

set_option autoImplicit false

namespace Tmet.Lib

universe u v

/-- A labelled transition system: where it starts and what a step may do. -/
structure System (σ : Type u) (α : Type v) where
  init : σ → Prop
  step : σ → α → σ → Prop

/-- One step taken: the state before, the label, the state after. -/
structure Step (σ : Type u) (α : Type v) where
  src : σ
  act : α
  dst : σ

/-- What a list records, one more entry taken into account. -/
theorem filterMap_snoc {β : Type u} {γ : Type v} (f : β → Option γ) (l : List β) (b : β) :
    (l ++ [b]).filterMap f = l.filterMap f ++ (f b).toList := by
  rw [List.filterMap_append]
  cases h : f b <;> simp [h]

namespace System

variable {σ : Type u} {α : Type v} {S : System σ α}

/-- `S.Run tr s`: `tr` is the list of the steps, oldest first, of a run of `S`
that starts in an initial state and ends in `s`. -/
inductive Run (S : System σ α) : List (Step σ α) → σ → Prop
  | nil {s : σ} : S.init s → Run S [] s
  | snoc {tr : List (Step σ α)} {s : σ} {a : α} {s' : σ} :
      Run S tr s → S.step s a s' → Run S (tr ++ [⟨s, a, s'⟩]) s'

/-- `s` is reached by some run. -/
def Reachable (S : System σ α) (s : σ) : Prop := ∃ tr, S.Run tr s

/-- The induction rule of runs: a property of history and state that holds at
the start and is kept by every step holds of every run. -/
theorem Run.invariant {P : List (Step σ α) → σ → Prop}
    (hinit : ∀ s, S.init s → P [] s)
    (hstep : ∀ tr s a s', S.Run tr s → P tr s → S.step s a s' → P (tr ++ [⟨s, a, s'⟩]) s')
    {tr : List (Step σ α)} {s : σ} (h : S.Run tr s) : P tr s := by
  induction h with
  | nil hi => exact hinit _ hi
  | snoc hr hs ih => exact hstep _ _ _ _ hr ih hs

/-- The induction rule for a property of the state alone. -/
theorem Run.state_invariant {P : σ → Prop} (hinit : ∀ s, S.init s → P s)
    (hstep : ∀ s a s', P s → S.step s a s' → P s')
    {tr : List (Step σ α)} {s : σ} (h : S.Run tr s) : P s :=
  Run.invariant (P := fun _ s => P s) hinit (fun _ s a s' _ hp hs => hstep s a s' hp hs) h

/-- The last step of a run. -/
theorem Run.last {tr : List (Step σ α)} {t : Step σ α} {s : σ} (h : S.Run (tr ++ [t]) s) :
    S.Run tr t.src ∧ S.step t.src t.act t.dst ∧ s = t.dst := by
  generalize htr : tr ++ [t] = all at h
  cases h with
  | nil _ => simp at htr
  | snoc hr hs =>
      obtain ⟨rfl, hlast⟩ := List.append_inj' htr rfl
      cases List.singleton_inj.mp hlast
      exact ⟨hr, hs, rfl⟩

/-- A run goes through each of its steps: the steps before it are a run to the state
that it is taken from. -/
theorem Run.through {pre post : List (Step σ α)} {t : Step σ α} {s : σ}
    (h : S.Run (pre ++ t :: post) s) : S.Run pre t.src ∧ S.step t.src t.act t.dst := by
  induction post using List.reverseRecOn generalizing s with
  | nil =>
      obtain ⟨hr, hs, -⟩ := h.last
      exact ⟨hr, hs⟩
  | append_singleton post u ih =>
      have hsnoc : pre ++ t :: (post ++ [u]) = (pre ++ t :: post) ++ [u] := by simp
      rw [hsnoc] at h
      exact ih h.last.1

/-- Every step in the history of a run is a step of the system, taken from the
end of a shorter run. -/
theorem Run.mem_split {tr : List (Step σ α)} {s : σ} (h : S.Run tr s)
    {t : Step σ α} (ht : t ∈ tr) :
    S.step t.src t.act t.dst ∧ ∃ pre post, tr = pre ++ [t] ++ post ∧ S.Run pre t.src := by
  obtain ⟨pre, post, rfl⟩ := List.append_of_mem ht
  obtain ⟨hpre, hstep⟩ := h.through
  exact ⟨hstep, pre, post, by simp, hpre⟩

/-- The induction rule for what happens after a step of a run: a property that the
step establishes and that every later step keeps holds at the end. -/
theorem Run.after {P : σ → Prop} {tr post : List (Step σ α)} {t : Step σ α} {s : σ}
    (h : S.Run (tr ++ t :: post) s) (hstart : S.Run tr t.src → S.step t.src t.act t.dst → P t.dst)
    (hkeep : ∀ pre, ∀ u ∈ post, S.Run pre u.src → P u.src → S.step u.src u.act u.dst → P u.dst) :
    P s := by
  induction post using List.reverseRecOn generalizing s with
  | nil =>
      obtain ⟨hr, hs, rfl⟩ := h.last
      exact hstart hr hs
  | append_singleton post u ih =>
      have hsnoc : tr ++ t :: (post ++ [u]) = (tr ++ t :: post) ++ [u] := by simp
      rw [hsnoc] at h
      obtain ⟨hr, hs, rfl⟩ := h.last
      exact hkeep _ u (by simp) hr (ih hr fun pre v hv => hkeep pre v (by simp [hv])) hs

/-- Take a property of history and state that holds at the start and that, where it
holds, the bad steps and only these lose. It holds all along a run if and only if no step
of the run is bad. -/
theorem Run.history_iff {P : List (Step σ α) → σ → Prop} {Bad : Step σ α → Prop}
    (hinit : ∀ s, S.init s → P [] s)
    (hstep : ∀ tr s a s', S.Run tr s → S.step s a s' → P tr s →
      (P (tr ++ [⟨s, a, s'⟩]) s' ↔ ¬ Bad ⟨s, a, s'⟩))
    {tr : List (Step σ α)} {s : σ} (h : S.Run tr s) :
    ((∀ pre t post, tr = pre ++ t :: post → P pre t.src) ∧ P tr s) ↔ ∀ t ∈ tr, ¬ Bad t := by
  induction h with
  | nil hi => simp [hinit _ hi]
  | @snoc tr s a s' hr hs ih =>
      have hlast := hstep tr s a s' hr hs
      simp only [List.mem_append, List.mem_singleton, or_imp, forall_and, forall_eq]
      constructor
      · rintro ⟨hbefore, hdst⟩
        have hsrc : P tr s := hbefore tr ⟨s, a, s'⟩ [] rfl
        refine ⟨ih.mp ⟨fun pre t post htr => ?_, hsrc⟩, (hlast hsrc).mp hdst⟩
        exact hbefore pre t (post ++ [⟨s, a, s'⟩]) (by rw [htr]; simp)
      · rintro ⟨hpre, hbad⟩
        obtain ⟨hbefore, hsrc⟩ := ih.mpr hpre
        refine ⟨fun pre t post htr => ?_, (hlast hsrc).mpr hbad⟩
        -- the step is the last one, or one of before
        rcases List.eq_nil_or_concat post with rfl | ⟨post', u, rfl⟩
        · obtain ⟨rfl, hu⟩ := List.append_inj' htr rfl
          rw [← List.singleton_inj.mp hu]
          exact hsrc
        · have hinit : tr = pre ++ t :: post' := by
            rw [List.concat_eq_append, ← List.cons_append, ← List.append_assoc] at htr
            exact (List.append_inj' htr rfl).1
          exact hbefore pre t post' hinit

/-- The same for a property of the state: every state that a run visits has it if and
only if no step of the run is bad. -/
theorem Run.visited_iff {P : σ → Prop} {Bad : Step σ α → Prop} (hinit : ∀ s, S.init s → P s)
    (hstep : ∀ tr s a s', S.Run tr s → S.step s a s' → P s → (P s' ↔ ¬ Bad ⟨s, a, s'⟩))
    {tr : List (Step σ α)} {s : σ} (h : S.Run tr s) :
    ((∀ t ∈ tr, P t.src) ∧ P s) ↔ ∀ t ∈ tr, ¬ Bad t := by
  rw [← Run.history_iff (P := fun _ s => P s) hinit hstep h]
  refine and_congr_left fun _ => ⟨fun hall pre t post htr => ?_, fun hall t ht => ?_⟩
  · exact hall t (by rw [htr]; simp)
  · obtain ⟨pre, post, htr⟩ := List.append_of_mem ht
    exact hall pre t post htr

/-- A run of a system is a run of every system that allows at least as much. -/
theorem Run.mono {T : System σ α} (hinit : ∀ s, S.init s → T.init s)
    (hstep : ∀ s a s', S.step s a s' → T.step s a s')
    {tr : List (Step σ α)} {s : σ} (h : S.Run tr s) : T.Run tr s := by
  induction h with
  | nil hi => exact .nil (hinit _ hi)
  | snoc _ hs ih => exact .snoc ih (hstep _ _ _ hs)

end System

end Tmet.Lib
