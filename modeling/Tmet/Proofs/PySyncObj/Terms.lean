import Tmet.Proofs.PySyncObj.Election

/-!
# `Tmet.Proofs.PySyncObj.Terms`: terms of servers and of messages in flight

The term of a server never decreases: each step keeps it or raises it
(`VoteStep.term_le`), and `currentTerm_le_of_run` follows it to the end of a run.

A message in flight carries a term that its sender has reached. The history says why. The
sender of an `M_RV` has voted for itself in the term of the request, and the sender of an
`M_RVR` for the receiver in the term of the reply. Who is voted for in a term has voted
for itself there, so the receiver of a reply has reached its term as well
(`terms_in_flight`). `HandleMsgRVR` compares the two terms for equality only: the case of
a reply from a later term does not arise.
-/

set_option autoImplicit false

namespace Tmet.PySyncObj

open Tmet.Lib
open Tmet.FifoNetwork

variable {ν κ : Type} [DecidableEq ν]

/-! ### Terms of the servers -/

section Runs

variable [Fintype ν] {pick : Choose ν}

/-- A step raises no term above the one at the end of the run. -/
theorem currentTerm_le_of_run {tr : List (Step (State ν κ) (Action ν))} {s : State ν κ}
    (h : (spec pick).Run tr s) :
    ∀ t ∈ tr, ∀ i, t.src.currentTerm i ≤ t.dst.currentTerm i
      ∧ t.dst.currentTerm i ≤ s.currentTerm i := by
  refine System.Run.invariant (P := fun tr s => ∀ t ∈ tr, ∀ i,
    t.src.currentTerm i ≤ t.dst.currentTerm i ∧ t.dst.currentTerm i ≤ s.currentTerm i) ?_ ?_ h
  · intro s _ t ht
    exact absurd ht List.not_mem_nil
  · intro tr s a s' _ ih hstep t ht i
    have hle := (nextBy_iff_effect.mp hstep).voteStep.term_le i
    rcases List.mem_append.mp ht with hold | hlast
    · exact ⟨(ih t hold i).1, (ih t hold i).2.trans hle⟩
    · rw [List.mem_singleton.mp hlast]
      exact ⟨hle, le_refl _⟩

end Runs

/-! ### Terms in the channels -/

variable {tr : List (Step (State ν κ) (Action ν))} {s : State ν κ}

/-- The term of a request has been reached by its sender. -/
theorem VoteInv.request_term_le (h : VoteInv tr s) {a b : ν} {data : RVData}
    (hpos : 0 < pending s.net.toVars (.rv data) a b) : data.term ≤ s.currentTerm a :=
  h.term_le _ _ _ (h.request data a b hpos)

/-- A reply in flight stands for a vote that its sender has cast. -/
theorem VoteInv.mem_ballots_of_reply (h : VoteInv tr s) {a b : ν} {data : RVRData}
    (hpos : 0 < pending s.net.toVars (.rvr data) a b) : (a, data.term, b) ∈ ballots tr := by
  have hle := h.reply a data.term b
  have hpos' : 0 < pending s.net.toVars (.rvr ⟨data.term⟩) a b := hpos
  exact List.count_pos_iff.mp (by omega)

/-- In every run the terms of the servers only grow. In every reachable state a request
carries no term above that of its sender, and a reply none above that of its sender or of
its receiver; if it is the term its sender is in, the sender has voted for the receiver. -/
theorem terms_in_flight [Fintype ν] (pick : Choose ν)
    (tr : List (Step (State ν κ) (Action ν))) (s : State ν κ) (h : (spec pick).Run tr s) :
    (∀ t ∈ tr, ∀ i, t.src.currentTerm i ≤ t.dst.currentTerm i
        ∧ t.dst.currentTerm i ≤ s.currentTerm i)
      ∧ (∀ a b, ∀ w ∈ chan s.net.toVars.msgs a b, ∀ data, w.body = .rv data →
          data.term ≤ s.currentTerm a)
      ∧ ∀ a b, ∀ w ∈ chan s.net.toVars.msgs a b, ∀ data, w.body = .rvr data →
          data.term ≤ s.currentTerm a ∧ data.term ≤ s.currentTerm b
            ∧ (data.term = s.currentTerm a → s.votedFor a = some b) := by
  have hinv := VoteInv.of_run h
  refine ⟨currentTerm_le_of_run h, ?_, ?_⟩
  · intro a b w hw data hbody
    exact hinv.request_term_le (pending_pos_iff.mpr ⟨w, hw, hbody⟩)
  · intro a b w hw data hbody
    have hvote := hinv.mem_ballots_of_reply (pending_pos_iff.mpr ⟨w, hw, hbody⟩)
    -- the receiver is the candidate of that vote
    have hself := hinv.self _ _ _ hvote
    refine ⟨hinv.term_le _ _ _ hvote, hinv.term_le _ _ _ hself, fun hterm => ?_⟩
    rw [hterm] at hvote
    exact hinv.current a b hvote

/-- Server `1` has answered server `0`: the reply of term `1` is in flight, and both have
reached that term. -/
theorem terms_in_flight_voted :
    (∃ w ∈ chan (voted 0).net.toVars.msgs 1 0, w.body = .rvr ⟨1⟩)
      ∧ 1 ≤ (voted 0).currentTerm 1 ∧ 1 ≤ (voted 0).currentTerm 0
      ∧ (1 = (voted 0).currentTerm 1 → (voted 0).votedFor 1 = some 0) := by
  have hrun : (spec (.smallest _)).Run (candidacy 0) (voted 0) :=
    run_candidacy (by decide) (by decide) (by decide) (by decide)
  have hreply : ∃ w ∈ chan (voted 0).net.toVars.msgs 1 0, w.body = .rvr ⟨1⟩ :=
    pending_pos_iff.mp (by decide)
  obtain ⟨w, hw, hbody⟩ := hreply
  exact ⟨⟨w, hw, hbody⟩,
    (terms_in_flight (.smallest _) (candidacy 0) (voted 0) hrun).2.2 1 0 w hw ⟨1⟩ hbody⟩

end Tmet.PySyncObj
