import Tmet.Proofs.PySyncObj.Terms

/-!
# `Tmet.Proofs.PySyncObj.Accounting`: what `votesCount` counts

`HandleMsgRVR` adds one for each reply of the current term and does not look at who sent
it. `votesCount_accounts` says what the number is nevertheless: one for the server itself,
and one for each of some other servers, all different, that have cast their vote for it in
the term of its last timeout.

Take a run and the last timeout of `n` in it. After that step `n` casts no vote for itself
(`voteCast_self`). A reply that `n` counts later stands for a vote for `n`, so its term is
one in which `n` has voted for itself: the one of the timeout or an earlier one. It is also
the term `n` is in, which is not an earlier one. So every reply counted has the term of the
timeout (`tally_term`), and the number grows with the replies counted (`votesCount_since`).

That the senders are different does not come from `HandleMsgRVR`. A vote is counted at
most as often as it is cast, and it is cast once (`VoteInv.tallies_nodup`).
-/

set_option autoImplicit false

namespace Tmet.PySyncObj

open Tmet.Lib
open Tmet.FifoNetwork

variable {ν κ : Type} [DecidableEq ν]

/-- The senders of the replies of `term` that `n` counts in `tr`, in order. -/
def voters (tr : List (Step (State ν κ) (Action ν))) (term : ℕ) (n : ν) : List ν :=
  ((tallies tr).filter fun v => v.2 = (term, n)).map Prod.fst

theorem mem_voters {tr : List (Step (State ν κ) (Action ν))} {term : ℕ} {n a : ν} :
    a ∈ voters tr term n ↔ (a, term, n) ∈ tallies tr := by
  simp [voters]

section History

variable {tr : List (Step (State ν κ) (Action ν))} {s : State ν κ}

/-- No vote is counted twice. -/
theorem VoteInv.tallies_nodup (h : VoteInv tr s) : (tallies tr).Nodup := by
  refine List.nodup_iff_count_le_one.mpr fun v => ?_
  obtain ⟨a, term, b⟩ := v
  have hcast := List.nodup_iff_count_le_one.mp h.once.of_map (a, term, b)
  have hreply := h.reply a term b
  omega

/-- The voters of one term are different servers. -/
theorem voters_nodup (h : (tallies tr).Nodup) (term : ℕ) (n : ν) : (voters tr term n).Nodup := by
  refine (h.filter _).map_on ?_
  intro v hv w hw hfst
  have hv2 : v.2 = (term, n) := of_decide_eq_true (List.mem_filter.mp hv).2
  have hw2 : w.2 = (term, n) := of_decide_eq_true (List.mem_filter.mp hw).2
  exact Prod.ext hfst (hv2.trans hw2.symm)

end History

variable [Fintype ν] {pick : Choose ν}

/-- A server votes for itself only when it times out. -/
theorem voteCast_self {t : Step (State ν κ) (Action ν)} (hstep : NextBy pick t.src t.act t.dst)
    {n : ν} {term : ℕ} (hcast : voteCast t = some (n, term, n)) :
    t.act = .electionTimeout n ∧ term = t.dst.currentTerm n := by
  obtain ⟨s, a, s'⟩ := t
  cases a with
  | handleMsgRV src dst =>
      -- the voter is the receiver, the candidate the sender
      obtain ⟨hne, m, hm, data, hbody, -⟩ := hstep
      simp only [voteCast, hm, Option.map_some, hbody] at hcast
      split at hcast
      · simp only [Option.some.injEq, Prod.mk.injEq] at hcast
        exact absurd (hcast.2.2.trans hcast.1.symm) hne
      · exact absurd hcast (by simp)
  | handleMsgRVR src dst => exact absurd hcast (by simp [voteCast])
  | electionTimeout m =>
      simp only [voteCast, Option.some.injEq, Prod.mk.injEq] at hcast
      obtain ⟨rfl, hterm, -⟩ := hcast
      exact ⟨rfl, hterm.symm⟩
  | networkPartition m => exact absurd hcast (by simp [voteCast])
  | networkCure => exact absurd hcast (by simp [voteCast])

section LastTimeout

variable {pre post : List (Step (State ν κ) (Action ν))} {t₀ : Step (State ν κ) (Action ν)}
  {s : State ν κ} {n : ν}

/-- The terms in which `n` has voted for itself end with that of its last timeout. -/
theorem self_ballot_term_le (h : (spec pick).Run (pre ++ t₀ :: post) s)
    (hlast : ∀ u ∈ post, u.act ≠ .electionTimeout n) {term : ℕ}
    (hself : (n, term, n) ∈ ballots (pre ++ t₀ :: post)) : term ≤ t₀.dst.currentTerm n := by
  obtain ⟨u, hu, hcast⟩ := List.mem_filterMap.mp hself
  obtain ⟨hstep, -⟩ := h.mem_split hu
  obtain ⟨hact, hterm⟩ := voteCast_self hstep hcast
  rcases List.mem_append.mp hu with hpre | hrest
  · -- an earlier timeout: its term is one that `n` had before the last one
    have hbefore := (currentTerm_le_of_run h.through.1 u hpre n).2
    have hgrows := (currentTerm_le_of_run h t₀ (by simp) n).1
    omega
  · rcases List.mem_cons.mp hrest with heq | hpost
    · rw [hterm, heq]
    · exact absurd hact (hlast u hpost)

/-- Every reply that `n` counts after its last timeout has the term of that timeout. -/
theorem tally_term (h : (spec pick).Run (pre ++ t₀ :: post) s)
    (hlast : ∀ u ∈ post, u.act ≠ .electionTimeout n) {a : ν} {term : ℕ}
    (htally : (a, term, n) ∈ tallies post) : term = t₀.dst.currentTerm n := by
  have hinv := VoteInv.of_run h
  have hall : (a, term, n) ∈ tallies (pre ++ t₀ :: post) := by
    rw [tallies, List.filterMap_append]
    refine List.mem_append_right _ ?_
    exact ((List.sublist_cons_self t₀ post).filterMap voteCounted).subset htally
  have hself := hinv.self _ _ _ (hinv.mem_ballots_of_mem_tallies hall)
  have hle := self_ballot_term_le h hlast hself
  -- when it was counted, `n` was in its term, and that was after the timeout
  obtain ⟨u, hu, hcounted⟩ := List.mem_filterMap.mp htally
  obtain ⟨before, after, rfl⟩ := List.append_of_mem hu
  have hsplit : pre ++ t₀ :: (before ++ u :: after) = (pre ++ t₀ :: before) ++ u :: after := by
    simp
  rw [hsplit] at h
  obtain ⟨hrun, hstep⟩ := h.through
  have hterm := ((nextBy_iff_effect.mp hstep).voteStep.counted_spec a term n hcounted).2.1
  have hsince := (currentTerm_le_of_run hrun t₀ (by simp) n).2
  omega

/-- The number grows with the replies counted. -/
theorem votesCount_since (h : (spec pick).Run (pre ++ t₀ :: post) s)
    (htimeout : t₀.act = .electionTimeout n) (hlast : ∀ u ∈ post, u.act ≠ .electionTimeout n) :
    s.votesCount n = 1 + (tallies post).countP fun v => v.2.2 = n := by
  induction post using List.reverseRecOn generalizing s with
  | nil =>
      obtain ⟨-, hstep, rfl⟩ := h.last
      have hcast : voteCast t₀ = some (n, t₀.dst.currentTerm n, n) := by
        simp only [voteCast, htimeout]
      exact ((nextBy_iff_effect.mp hstep).voteStep.cast_self n _ hcast).2
  | append_singleton post u ih =>
      have hsnoc : pre ++ t₀ :: (post ++ [u]) = (pre ++ t₀ :: post) ++ [u] := by simp
      rw [hsnoc] at h
      obtain ⟨hrun, hstep, rfl⟩ := h.last
      have hvotes := ih hrun fun v hv => hlast v (List.mem_append_left _ hv)
      have hs := (nextBy_iff_effect.mp hstep).voteStep
      rw [tallies_snoc, List.countP_append]
      by_cases hcounted : ∃ a term, voteCounted u = some (a, term, n)
      · obtain ⟨a, term, hcounted⟩ := hcounted
        have hadd := (hs.counted_spec a term n hcounted).2.2
        rw [hadd, hvotes, hcounted]
        simp
        omega
      · -- neither a reply to `n` nor a timeout: the number stays
        have hnone (a : ν) (term : ℕ) : voteCounted u ≠ some (a, term, n) :=
          fun hc => hcounted ⟨a, term, hc⟩
        have hnocast (term : ℕ) : voteCast u ≠ some (n, term, n) := by
          intro hcast
          exact hlast u (by simp) (voteCast_self hstep hcast).1
        have hzero : (voteCounted u).toList.countP (fun v => v.2.2 = n) = 0 := by
          refine List.countP_eq_zero.mpr fun v hv hn => ?_
          obtain ⟨a, term, b⟩ := v
          obtain rfl : b = n := of_decide_eq_true hn
          exact hnone a term (Option.mem_toList.mp hv)
        rw [hs.not_counted n hnocast hnone, hvotes, hzero, Nat.add_zero]

end LastTimeout

/-- Take a run and the last timeout `t₀` of `n` in it. At the end `votesCount` of `n` is one
more than the replies of the term of `t₀` that `n` has counted since. These came from
different servers other than `n`, each of which has cast its vote for `n` in that term, and
so the number is at most the number of servers. A reply of another term is not counted. -/
theorem votesCount_accounts (pick : Choose ν) (pre post : List (Step (State ν κ) (Action ν)))
    (t₀ : Step (State ν κ) (Action ν)) (s : State ν κ)
    (h : (spec pick).Run (pre ++ t₀ :: post) s) (n : ν) (htimeout : t₀.act = .electionTimeout n)
    (hlast : ∀ u ∈ post, u.act ≠ .electionTimeout n) :
    s.votesCount n = 1 + (voters post (t₀.dst.currentTerm n) n).length
      ∧ (voters post (t₀.dst.currentTerm n) n).Nodup
      ∧ (∀ a ∈ voters post (t₀.dst.currentTerm n) n,
          a ≠ n ∧ (a, t₀.dst.currentTerm n, n) ∈ ballots (pre ++ t₀ :: post))
      ∧ s.votesCount n ≤ Fintype.card ν
      ∧ ∀ v ∈ tallies post, v.2.2 = n → v.2.1 = t₀.dst.currentTerm n := by
  have hinv := VoteInv.of_run h
  have hsub : (tallies post).Sublist (tallies (pre ++ t₀ :: post)) := by
    refine List.Sublist.filterMap voteCounted ?_
    exact (List.sublist_cons_self t₀ post).trans (List.sublist_append_right pre _)
  have hterm : ∀ v ∈ tallies post, v.2.2 = n → v.2.1 = t₀.dst.currentTerm n := by
    rintro ⟨a, term, b⟩ hv rfl
    exact tally_term h hlast hv
  have hcount : s.votesCount n = 1 + (voters post (t₀.dst.currentTerm n) n).length := by
    rw [votesCount_since h htimeout hlast, voters, List.length_map, ← List.countP_eq_length_filter]
    congr 1
    refine List.countP_congr fun v hv => ?_
    simp only [decide_eq_true_eq]
    constructor
    · intro hn
      exact Prod.ext (hterm v hv hn) hn
    · intro hv2
      rw [hv2]
  have hnodup : (voters post (t₀.dst.currentTerm n) n).Nodup :=
    voters_nodup (hinv.tallies_nodup.sublist hsub) _ n
  have hvoter : ∀ a ∈ voters post (t₀.dst.currentTerm n) n,
      a ≠ n ∧ (a, t₀.dst.currentTerm n, n) ∈ ballots (pre ++ t₀ :: post) := by
    intro a ha
    have htally := hsub.subset (mem_voters.mp ha)
    exact ⟨hinv.tally_ne _ _ _ htally, hinv.mem_ballots_of_mem_tallies htally⟩
  refine ⟨hcount, hnodup, hvoter, ?_, hterm⟩
  -- with `n` itself they are still different servers
  have hcons : (n :: voters post (t₀.dst.currentTerm n) n).Nodup :=
    List.nodup_cons.mpr ⟨fun hn => (hvoter n hn).1 rfl, hnodup⟩
  have hcard := hcons.length_le_card
  rw [List.length_cons] at hcard
  omega

/-- In the election of two servers, server `0` has counted the vote of server `1`. -/
theorem votesCount_accounts_election :
    elected.votesCount 0
        = 1 + (voters (election.drop 1) ((timedOut 0).currentTerm 0) 0).length
      ∧ voters (election.drop 1) ((timedOut 0).currentTerm 0) 0 = [1]
      ∧ elected.votesCount 0 ≤ 2 := by
  have h := votesCount_accounts (.smallest _) [] (election.drop 1)
    ⟨init, .electionTimeout 0, timedOut 0⟩ elected run_election 0 rfl (by decide)
  exact ⟨h.1, by decide, h.2.2.2.1⟩

end Tmet.PySyncObj
