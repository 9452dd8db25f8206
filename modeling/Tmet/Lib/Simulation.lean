import Tmet.Lib.Transition

/-!
# `Tmet.Lib.Simulation`: runs of one system as runs of another

An `Exec` is a run from any state on. It goes on where a run has ended (`Run.exec`). `Leads`
says that some execution from a state ends with a property.

`l` says which steps of the system `T` a step of `S` stands for: none, one or several. If
related states stay related, whatever `S` does and with the steps of `T` that `l` asks for
(`Simulates`), a run of `S` is a run of `T` with these steps (`Run.simulate`). `Exec.simulate`
says the same of a piece of a run, and `Run.simulate_steps` is the case of one step each.
-/

set_option autoImplicit false

namespace Tmet.Lib

namespace System

universe u v w x

variable {σ : Type u} {α : Type v} {τ : Type w} {β : Type x} {S : System σ α} {T : System τ β}

/-- `S.Exec s tr s'`: the steps `tr` of `S` lead from `s` to `s'`. -/
inductive Exec (S : System σ α) : σ → List (Step σ α) → σ → Prop
  | nil {s : σ} : Exec S s [] s
  | cons {s : σ} {a : α} {s' : σ} {tr : List (Step σ α)} {s'' : σ} :
      S.step s a s' → Exec S s' tr s'' → Exec S s (⟨s, a, s'⟩ :: tr) s''

theorem Exec.single {s s' : σ} {a : α} (h : S.step s a s') : S.Exec s [⟨s, a, s'⟩] s' :=
  .cons h .nil

theorem Exec.append {s s' s'' : σ} {tr tr' : List (Step σ α)} (h : S.Exec s tr s')
    (h' : S.Exec s' tr' s'') : S.Exec s (tr ++ tr') s'' := by
  induction h with
  | nil => exact h'
  | cons hs _ ih => exact .cons hs (ih h')

/-- A run goes on with steps from its last state. -/
theorem Run.exec {s s' : σ} {tr post : List (Step σ α)} (h : S.Run tr s)
    (h' : S.Exec s post s') : S.Run (tr ++ post) s' := by
  induction h' generalizing tr with
  | nil => simpa using h
  | cons hs _ ih => simpa using ih (h.snoc hs)

/-- What a run is: an execution from an initial state on. -/
theorem run_iff_exec {tr : List (Step σ α)} {s : σ} :
    S.Run tr s ↔ ∃ s₀, S.init s₀ ∧ S.Exec s₀ tr s := by
  constructor
  · intro h
    induction h with
    | nil hi => exact ⟨_, hi, .nil⟩
    | snoc _ hs ih =>
        obtain ⟨s₀, hi, hexec⟩ := ih
        exact ⟨s₀, hi, hexec.append (.single hs)⟩
  · rintro ⟨s₀, hi, hexec⟩
    exact (Run.nil hi).exec hexec

/-! ### What can be reached -/

/-- Some steps of `S` lead from `s` to a state with `P`. -/
def Leads (S : System σ α) (s : σ) (P : σ → Prop) : Prop := ∃ post s', S.Exec s post s' ∧ P s'

theorem Leads.now {P : σ → Prop} {s : σ} (h : P s) : S.Leads s P := ⟨[], s, .nil, h⟩

theorem Leads.step {P : σ → Prop} {s s' : σ} {a : α} (h : S.step s a s') (h' : S.Leads s' P) :
    S.Leads s P := by
  obtain ⟨post, s'', hexec, hP⟩ := h'
  exact ⟨_, s'', .cons h hexec, hP⟩

theorem Leads.trans {P Q : σ → Prop} {s : σ} (h : S.Leads s P)
    (h' : ∀ s', P s' → S.Leads s' Q) : S.Leads s Q := by
  obtain ⟨post, s', hexec, hP⟩ := h
  obtain ⟨post', s'', hexec', hQ⟩ := h' s' hP
  exact ⟨post ++ post', s'', hexec.append hexec', hQ⟩

/-- One after the other, for each member of a list. -/
theorem Leads.forEach {ι : Type w} {P : List ι → σ → Prop}
    (hstep : ∀ x xs s, P xs s → S.Leads s (P (x :: xs))) {s : σ} (h : P [] s) (xs : List ι) :
    S.Leads s (P xs) := by
  induction xs with
  | nil => exact .now h
  | cons x xs ih => exact ih.trans fun s' hs' => hstep x xs s' hs'

/-- Again and again. -/
theorem Leads.iterate {P : ℕ → σ → Prop} (hstep : ∀ k s, P k s → S.Leads s (P (k + 1))) {s : σ}
    (h : P 0 s) (k : ℕ) : S.Leads s (P k) := by
  induction k with
  | zero => exact .now h
  | succ k ih => exact ih.trans fun s' hs' => hstep k s' hs'

/-! ### Simulation -/

variable {R : σ → τ → Prop} {l : Step σ α → List β}

/-- `R` is a simulation: `T` follows each step of `S` with the steps that `l` asks for. -/
def Simulates (S : System σ α) (T : System τ β) (R : σ → τ → Prop) (l : Step σ α → List β) :
    Prop :=
  ∀ s a s' t, R s t → S.step s a s' →
    ∃ post t', T.Exec t post t' ∧ post.map Step.act = l ⟨s, a, s'⟩ ∧ R s' t'

theorem Exec.simulate (hsim : Simulates S T R l) {s s' : σ} {tr : List (Step σ α)}
    (h : S.Exec s tr s') {t : τ} (hR : R s t) :
    ∃ tr' t', T.Exec t tr' t' ∧ R s' t' ∧ tr'.map Step.act = tr.flatMap l := by
  induction h generalizing t with
  | nil => exact ⟨[], t, .nil, hR, rfl⟩
  | cons hs _ ih =>
      obtain ⟨post, t₁, hexec, hpost, hR₁⟩ := hsim _ _ _ t hR hs
      obtain ⟨tr', t', hexec', hR', hacts⟩ := ih hR₁
      refine ⟨post ++ tr', t', hexec.append hexec', hR', ?_⟩
      simp [hacts, hpost]

/-- A run of `S` is one of `T`, with related states at the end. -/
theorem Run.simulate (hinit : ∀ s, S.init s → ∃ t, T.init t ∧ R s t) (hsim : Simulates S T R l)
    {tr : List (Step σ α)} {s : σ} (h : S.Run tr s) :
    ∃ tr' t, T.Run tr' t ∧ R s t ∧ tr'.map Step.act = tr.flatMap l := by
  obtain ⟨s₀, hi, hexec⟩ := run_iff_exec.mp h
  obtain ⟨t₀, hi', hR⟩ := hinit s₀ hi
  obtain ⟨tr', t, hexec', hR', hacts⟩ := hexec.simulate hsim hR
  exact ⟨tr', t, run_iff_exec.mpr ⟨t₀, hi', hexec'⟩, hR', hacts⟩

/-- Where `T` follows each step with one of the same name, a run of `S` is one of `T` with the
same steps. -/
theorem Run.simulate_steps {T : System τ α} (hinit : ∀ s, S.init s → ∃ t, T.init t ∧ R s t)
    (hstep : ∀ s a s' t, R s t → S.step s a s' → ∃ t', T.step t a t' ∧ R s' t')
    {tr : List (Step σ α)} {s : σ} (h : S.Run tr s) :
    ∃ tr' t, T.Run tr' t ∧ R s t ∧ tr'.map Step.act = tr.map Step.act := by
  have hsim : Simulates S T R fun u => [u.act] := by
    intro s a s' t hR hs
    obtain ⟨t', ht', hR'⟩ := hstep s a s' t hR hs
    exact ⟨_, t', .single ht', rfl, hR'⟩
  obtain ⟨tr', t, hrun, hR, hacts⟩ := h.simulate hinit hsim
  exact ⟨tr', t, hrun, hR, by rw [hacts, List.map_eq_flatMap]⟩

end System

end Tmet.Lib
