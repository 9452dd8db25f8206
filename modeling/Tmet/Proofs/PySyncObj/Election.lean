import Tmet.Proofs.PySyncObj.Votes

/-!
# `Tmet.Proofs.PySyncObj.Election`: one elected server a term

`Majority tr t j` says that more than half of the servers have cast their vote
for `j` in term `t`. Histories only grow, so it stays true, and two servers
cannot have it for one term (`VoteInv.majority_unique`): each server votes once in
a term.

A server that takes the `become-leader` branch has a majority
(`VoteInv.majority_of_becomesLeader`), and so `at_most_one_elected` holds over
whole histories. That branch is the only one that writes `Leader`, but the
`not-quorum` branch leaves `raftState'` open. Up to the first step of that kind a
server in state `Leader` has a majority, and `AtMostOneLeaderPerTerm` holds
(`atMostOneLeader_of_no_notQuorum`); after it, `raftState` may be anything. With at most
three servers there is no such step (`atMostOneLeader_of_card_le_three`).
-/

set_option autoImplicit false

namespace Tmet.PySyncObj

open Tmet.Lib
open Tmet.FifoNetwork

variable {ν κ : Type} [DecidableEq ν] [Fintype ν]

/-! ### Majorities -/

/-- More than half of the servers have voted for `j` in term `t`. -/
def Majority (tr : List (Step (State ν κ) (Action ν))) (t : ℕ) (j : ν) : Prop :=
  Fintype.card ν < 2 * (ballots tr).countP fun v => v.2 = (t, j)

/-- A majority stays a majority. -/
theorem Majority.mono {tr tr' : List (Step (State ν κ) (Action ν))} (hsub : tr.Sublist tr')
    {t : ℕ} {j : ν} (h : Majority tr t j) : Majority tr' t j := by
  have hle := (hsub.filterMap voteCast).countP_le (p := fun v => decide (v.2 = (t, j)))
  unfold Majority ballots at *
  omega

variable {pick : Choose ν} {tr : List (Step (State ν κ) (Action ν))} {s s' : State ν κ}

/-- The votes of one term come from different servers, so there are at most as
many as servers. -/
theorem VoteInv.countP_term_le (h : VoteInv tr s) (t : ℕ) :
    (ballots tr).countP (fun v => v.2.1 = t) ≤ Fintype.card ν := by
  have hvoters : (((ballots tr).filter fun v => v.2.1 = t).map Prod.fst).Nodup := by
    have hpairs := h.once.sublist (List.filter_sublist.map _ :
      (((ballots tr).filter fun v => v.2.1 = t).map fun v => (v.1, v.2.1)).Sublist _)
    have heq : ((ballots tr).filter fun v => v.2.1 = t).map (fun v => (v.1, v.2.1))
        = (((ballots tr).filter fun v => v.2.1 = t).map Prod.fst).map fun a => (a, t) := by
      rw [List.map_map]
      refine List.map_congr_left fun v hv => ?_
      have hterm : v.2.1 = t := of_decide_eq_true (List.mem_filter.mp hv).2
      show (v.1, v.2.1) = (v.1, t)
      rw [hterm]
    rw [heq] at hpairs
    exact hpairs.of_map _
  have hle := hvoters.length_le_card
  rw [List.length_map] at hle
  rw [List.countP_eq_length_filter]
  exact hle

omit [DecidableEq ν] [Fintype ν] in
/-- Votes of two kinds that exclude each other, both of a third kind. -/
theorem countP_add_countP_le {p q r : ν × ℕ × ν → Bool} (hdisjoint : ∀ v, p v = true → q v = false)
    (hp : ∀ v, p v = true → r v = true) (hq : ∀ v, q v = true → r v = true)
    (votes : List (ν × ℕ × ν)) : votes.countP p + votes.countP q ≤ votes.countP r := by
  induction votes with
  | nil => simp
  | cons v votes ih =>
      simp only [List.countP_cons]
      -- the first vote counts on the left at most once, and then on the right
      cases hpv : p v with
      | true =>
          rw [hdisjoint v hpv, hp v hpv]
          simp only [if_true, Bool.false_eq_true, if_false]
          omega
      | false =>
          cases hqv : q v with
          | true =>
              rw [hq v hqv]
              simp only [if_true, Bool.false_eq_true, if_false]
              omega
          | false =>
              simp only [Bool.false_eq_true, if_false]
              omega

/-- Two servers cannot both have a majority in one term. -/
theorem VoteInv.majority_unique (h : VoteInv tr s) {t : ℕ} {i j : ν} (hi : Majority tr t i)
    (hj : Majority tr t j) : i = j := by
  by_contra hij
  have hsplit : (ballots tr).countP (fun v => v.2 = (t, i))
      + (ballots tr).countP (fun v => v.2 = (t, j))
      ≤ (ballots tr).countP (fun v => v.2.1 = t) := by
    refine countP_add_countP_le (fun v hv => ?_) (fun v hv => ?_) (fun v hv => ?_) _
    · simpa [of_decide_eq_true hv] using hij
    · simp [of_decide_eq_true hv]
    · simp [of_decide_eq_true hv]
  have hcard := h.countP_term_le t
  unfold Majority at hi hj
  omega

/-! ### The `become-leader` branch -/

/-- The step takes the `become-leader` branch of `HandleMsgRVR` at `n`. -/
def BecomesLeader (t : Step (State ν κ) (Action ν)) (n : ν) : Prop :=
  ∃ src m data, t.act = .handleMsgRVR src n ∧ netGetMsg t.src.net.toVars src n = some m
    ∧ m.body = .rvr data ∧ CountCond t.src n data ∧ CheckVotesCountIsQuorum n t.dst

/-- A server that becomes leader has a majority in its term. -/
theorem VoteInv.majority_of_becomesLeader {a : Action ν} (h : VoteInv tr s)
    (hstep : Effect pick s a s') {n : ν} (hlead : BecomesLeader ⟨s, a, s'⟩ n) :
    Majority (tr ++ [⟨s, a, s'⟩]) (s.currentTerm n) n := by
  have hs := hstep.voteStep
  have h' := h.step hs
  obtain ⟨src, m, data, rfl, hm, hbody, hcount, hquorum⟩ := hlead
  have hcounted : voteCounted ⟨s, .handleMsgRVR src n, s'⟩ = some (src, data.term, n) := by
    simp only [voteCounted] at *
    rw [hm, Option.map_some, hbody]
    exact if_pos hcount
  obtain ⟨-, hterm, -⟩ := hs.counted_spec _ _ _ hcounted
  have hterm' : s'.currentTerm n = s.currentTerm n := by
    cases hstep with
    | becomeLeader => rfl
    | notQuorum => rfl
    | ignore => rfl
  -- the vote just counted was cast, so `n` has voted for itself
  have htallied : (src, s.currentTerm n, n) ∈ tallies (tr ++ [⟨s, .handleMsgRVR src n, s'⟩]) := by
    rw [tallies_snoc, hcounted, hterm]
    exact List.mem_append_right _ (by simp)
  have hself := h'.self _ _ _ (h'.mem_ballots_of_mem_tallies htallied)
  have hvotes := h'.votesCount n (hterm'.symm ▸ hself)
  rw [hterm'] at hvotes
  -- its own vote and the counted ones are different votes of the history
  have hsub : ((n, s.currentTerm n, n) :: tallies (tr ++ [⟨s, .handleMsgRVR src n, s'⟩])).Subperm
      (ballots (tr ++ [⟨s, .handleMsgRVR src n, s'⟩])) := by
    refine List.subperm_ext_iff.mpr fun v hv => ?_
    by_cases hv' : v = (n, s.currentTerm n, n)
    · have hzero : (tallies (tr ++ [⟨s, .handleMsgRVR src n, s'⟩])).count
          (n, s.currentTerm n, n) = 0 :=
        List.count_eq_zero_of_not_mem fun hmem => h'.tally_ne _ _ _ hmem rfl
      have hpos := List.count_pos_iff.mpr hself
      rw [hv', List.count_cons_self, hzero]
      omega
    · have hreply := h'.reply v.1 v.2.1 v.2.2
      rw [List.count_cons_of_ne (Ne.symm hv')]
      exact (Nat.le_add_right _ _).trans hreply
  have hle := hsub.countP_le fun v => decide (v.2 = (s.currentTerm n, n))
  rw [List.countP_cons_of_pos (by simp)] at hle
  have hquorum' : Fintype.card ν < s'.votesCount n * 2 := hquorum
  unfold Majority
  omega

/-- In a run, the steps at which servers become leader in one term all belong to
one server. -/
theorem at_most_one_elected (pick : Choose ν) (tr : List (Step (State ν κ) (Action ν)))
    (s : State ν κ) (h : (spec pick).Run tr s) (t₁ t₂ : Step (State ν κ) (Action ν))
    (ht₁ : t₁ ∈ tr) (ht₂ : t₂ ∈ tr) (i j : ν) (hi : BecomesLeader t₁ i) (hj : BecomesLeader t₂ j)
    (hterm : t₁.src.currentTerm i = t₂.src.currentTerm j) : i = j := by
  have hmajority (t : Step (State ν κ) (Action ν)) (ht : t ∈ tr) (n : ν)
      (hn : BecomesLeader t n) : Majority tr (t.src.currentTerm n) n := by
    obtain ⟨hstep, pre, post, rfl, hpre⟩ := h.mem_split ht
    have hmaj := (VoteInv.of_run hpre).majority_of_becomesLeader (nextBy_iff_effect.mp hstep) hn
    exact hmaj.mono (List.sublist_append_left _ _)
  have hmaj₁ := hmajority t₁ ht₁ i hi
  have hmaj₂ := hmajority t₂ ht₂ j hj
  rw [hterm] at hmaj₁
  exact (VoteInv.of_run h).majority_unique hmaj₁ hmaj₂

/-- There are servers `0` and `1`. -/
scoped instance neZero_two : NeZero (2 : ℕ) :=
  ⟨two_ne_zero⟩

/-- With two servers the vote of server `1` is a quorum. -/
def elected : State (Fin 2) Unit :=
  { voted 0 with
      raftState := Function.update (voted 0).raftState 0 .leader
      votesCount := Function.update (voted 0).votesCount 0 ((voted 0).votesCount 0 + 1)
      net := afterCall (.smallest _) (voted 0) (.delMsg 1 0) (.handleMsgRVRBecomeLeader 0 1) }

/-- The history of that election. -/
def election : List (Step (State (Fin 2) Unit) (Action (Fin 2))) :=
  candidacy 0 ++ [⟨voted 0, .handleMsgRVR 1 0, elected⟩]

theorem run_election : (spec (.smallest _)).Run election elected := by
  have hwin : Effect (.smallest _) (voted 0) (.handleMsgRVR 1 0) elected :=
    .becomeLeader 1 0 ⟨1, 0, 2, .rvr ⟨1⟩⟩ ⟨1⟩ _ (by decide) (by decide) rfl (by decide)
      (netCall_afterCall _ (by decide))
  exact .snoc (run_candidacy (by decide) (by decide) (by decide) (by decide))
    (nextBy_iff_effect.mpr hwin)

theorem becomesLeader_election :
    BecomesLeader (⟨voted 0, .handleMsgRVR 1 0, elected⟩ :
      Step (State (Fin 2) Unit) (Action (Fin 2))) 0 :=
  ⟨1, ⟨1, 0, 2, .rvr ⟨1⟩⟩, ⟨1⟩, rfl, by decide, rfl, by decide, by decide⟩

/-- In that election no server but `0` becomes leader in term `1`. -/
theorem at_most_one_elected_election :
    ¬ ∃ t ∈ election, ∃ j, BecomesLeader t j ∧ t.src.currentTerm j = 1 ∧ j ≠ 0 := by
  rintro ⟨t, ht, j, hj, hterm, hne⟩
  have hlast : (⟨voted 0, .handleMsgRVR 1 0, elected⟩ :
      Step (State (Fin 2) Unit) (Action (Fin 2))) ∈ election :=
    List.mem_append_right _ (List.mem_singleton_self _)
  exact hne (at_most_one_elected (.smallest _) election elected run_election t _ ht hlast j 0 hj
    becomesLeader_election hterm)

/-! ### The state `Leader` -/

/-- The action takes the `not-quorum` branch of `HandleMsgRVR`. -/
def NotQuorumBranch (s : State ν κ) (a : Action ν) : Prop :=
  ∃ src dst m data, a = .handleMsgRVR src dst ∧ src ≠ dst
    ∧ netGetMsg s.net.toVars src dst = some m ∧ m.body = .rvr data ∧ FallsShort s dst data

omit [Fintype ν] in
/-- A server that is leader after it has seen a term was leader, in the same
term. -/
theorem leader_of_seenTerm {n i : ν} {term : ℕ}
    (h : (seenTerm s n term).raftState i = .leader) :
    s.raftState i = .leader ∧ (seenTerm s n term).currentTerm i = s.currentTerm i := by
  by_cases hi : i = n
  · subst hi
    have hraft : (if s.currentTerm i < term then Function.update s.raftState i .follower
        else s.raftState) i = .leader := h
    by_cases hlt : s.currentTerm i < term
    · rw [if_pos hlt, Function.update_self] at hraft
      exact absurd hraft (by decide)
    · rw [if_neg hlt] at hraft
      refine ⟨hraft, ?_⟩
      rw [seenTerm_currentTerm]
      omega
  · obtain ⟨hterm, hraft⟩ := seenTerm_of_ne (s := s) hi term
    exact ⟨hraft ▸ h, hterm⟩

/-- A step outside the `not-quorum` branch makes a leader only of a server with a
majority. -/
theorem leader_step {a : Action ν} (hinv : VoteInv tr s) (hstep : Effect pick s a s')
    (hno : ¬ NotQuorumBranch s a)
    (h : ∀ i, s.raftState i = .leader → Majority tr (s.currentTerm i) i) (i : ν)
    (hi : s'.raftState i = .leader) :
    Majority (tr ++ [⟨s, a, s'⟩]) (s'.currentTerm i) i := by
  -- a leader of before keeps its votes as long as it keeps its term
  have hold (hraft : s.raftState i = .leader) (hterm : s'.currentTerm i = s.currentTerm i) :
      Majority (tr ++ [⟨s, a, s'⟩]) (s'.currentTerm i) i := by
    rw [hterm]
    exact (h i hraft).mono (List.sublist_append_left _ _)
  have hstep' := hstep
  cases hstep with
  | vote src dst m data net' hne hm hbody hgrants hnet =>
      obtain ⟨hraft, hterm⟩ := leader_of_seenTerm hi
      exact hold hraft hterm
  | refuse src dst m data net' hne hm hbody hgrants hnet =>
      obtain ⟨hraft, hterm⟩ := leader_of_seenTerm hi
      exact hold hraft hterm
  | becomeLeader src dst m data net' hne hm hbody hwins hnet =>
      -- only the receiver of the answer changes its role
      by_cases hdst : i = dst
      · subst hdst
        refine hinv.majority_of_becomesLeader hstep' ⟨src, m, data, rfl, hm, hbody, hwins.1, ?_⟩
        show Fintype.card ν < Function.update s.votesCount i (s.votesCount i + 1) i * 2
        rw [Function.update_self]
        exact hwins.2
      · have hraft : Function.update s.raftState dst .leader i = .leader := hi
        rw [Function.update_of_ne hdst] at hraft
        exact hold hraft rfl
  | notQuorum src dst m data net' raftState' hne hm hbody hshort hnet =>
      exact absurd ⟨src, dst, m, data, rfl, hne, hm, hbody, hshort⟩ hno
  | ignore src dst m data net' hne hm hbody hcount hnet => exact hold hi rfl
  | timeout n net' hnet =>
      have hraft : Function.update s.raftState n .candidate i = .leader := hi
      by_cases hn : i = n
      · rw [hn, Function.update_self] at hraft
        exact absurd hraft (by decide)
      · rw [Function.update_of_ne hn] at hraft
        refine hold hraft ?_
        exact Function.update_of_ne hn _ _
  | partition n net' hnet => exact hold hi rfl
  | cure net' hnet => exact hold hi rfl

/-- In every run no step of which takes the `not-quorum` branch, a leader has won its
term. -/
theorem majority_of_leader (h : (spec pick).Run tr s)
    (hno : ∀ t ∈ tr, ¬ NotQuorumBranch t.src t.act) :
    ∀ i, s.raftState i = .leader → Majority tr (s.currentTerm i) i := by
  refine System.Run.invariant (P := fun tr s => (∀ t ∈ tr, ¬ NotQuorumBranch t.src t.act) →
    ∀ i, s.raftState i = .leader → Majority tr (s.currentTerm i) i) ?_ ?_ h hno
  · rintro s rfl _ i hi
    exact absurd hi (by simp [init])
  · intro tr s a s' hrun ih hstep hno
    have hpre : ∀ t ∈ tr, ¬ NotQuorumBranch t.src t.act :=
      fun t ht => hno t (List.mem_append_left _ ht)
    have hlast : ¬ NotQuorumBranch s a :=
      hno _ (List.mem_append_right _ (List.mem_singleton_self _))
    exact leader_step (VoteInv.of_run hrun) (nextBy_iff_effect.mp hstep) hlast (ih hpre)

/-- Servers that have won their terms are not two in one term. -/
theorem VoteInv.atMostOneLeader (h : VoteInv tr s)
    (hleader : ∀ i, s.raftState i = .leader → Majority tr (s.currentTerm i) i) :
    AtMostOneLeaderPerTerm s := by
  rintro ⟨i, j, hij, hterm, hi, hj⟩
  have hmaj := hleader i hi
  rw [hterm] at hmaj
  exact hij (h.majority_unique hmaj (hleader j hj))

/-- `AtMostOneLeaderPerTerm` holds at the end of every run no step of which takes
the `not-quorum` branch. -/
theorem atMostOneLeader_of_no_notQuorum (pick : Choose ν)
    (tr : List (Step (State ν κ) (Action ν))) (s : State ν κ) (h : (spec pick).Run tr s)
    (hno : ∀ t ∈ tr, ¬ NotQuorumBranch t.src t.act) : AtMostOneLeaderPerTerm s :=
  (VoteInv.of_run h).atMostOneLeader (majority_of_leader h hno)

/-- In the election of two servers the one counted vote is a quorum. -/
theorem atMostOneLeader_of_no_notQuorum_election : AtMostOneLeaderPerTerm elected := by
  refine atMostOneLeader_of_no_notQuorum (.smallest _) election elected run_election ?_
  rintro t ht ⟨src, dst, m, data, hact, -, hm, hbody, hshort⟩
  have hsteps : t = ⟨init, .electionTimeout 0, timedOut 0⟩
      ∨ t = ⟨timedOut 0, .handleMsgRV 0 1, voted 0⟩
      ∨ t = ⟨voted 0, .handleMsgRVR 1 0, elected⟩ := by
    simpa [election, candidacy] using ht
  rcases hsteps with rfl | rfl | rfl
  · exact absurd hact (by simp)
  · exact absurd hact (by simp)
  · obtain ⟨rfl, rfl⟩ : 1 = src ∧ 0 = dst := by simpa using hact
    have hhead : netGetMsg (voted 0).net.toVars 1 0 = some ⟨1, 0, 2, .rvr ⟨1⟩⟩ := by decide
    have hsome := hhead.symm.trans hm
    obtain rfl := Option.some.inj hsome
    obtain rfl : (⟨1⟩ : RVRData) = data := by simpa using hbody
    exact absurd hshort (by decide)

/-- A server that counts a vote has voted for itself, so of three servers two are for it. -/
theorem VoteInv.not_notQuorumBranch (h : VoteInv tr s) (hcard : Fintype.card ν ≤ 3)
    (a : Action ν) : ¬ NotQuorumBranch s a := by
  rintro ⟨src, dst, m, data, -, -, hm, hbody, ⟨-, hterm⟩, hshort⟩
  have hpos := pending_pos_of_netGetMsg hm
  rw [hbody] at hpos
  have hreply : (tallies tr).count (src, data.term, dst)
      + pending s.net.toVars (.rvr data) src dst ≤ (ballots tr).count (src, data.term, dst) :=
    h.reply src data.term dst
  have hcast : (src, data.term, dst) ∈ ballots tr := List.count_pos_iff.mp (by omega)
  have hself := h.self _ _ _ hcast
  rw [hterm] at hself
  have hvotes := h.votesCount dst hself
  omega

/-- With at most three servers `AtMostOneLeaderPerTerm` holds in every run. -/
theorem atMostOneLeader_of_card_le_three (hcard : Fintype.card ν ≤ 3)
    (h : (spec pick).Run tr s) : AtMostOneLeaderPerTerm s := by
  refine (VoteInv.of_run h).atMostOneLeader (majority_of_leader h fun t ht => ?_)
  obtain ⟨-, pre, post, -, hpre⟩ := h.mem_split ht
  exact (VoteInv.of_run hpre).not_notQuorumBranch hcard t.act

/-- With four servers the vote of server `1` is no quorum, and `raftState'` is
open. -/
def unconstrained : State (Fin 4) Unit :=
  { voted 2 with
      raftState := fun _ => .leader
      votesCount := Function.update (voted 2).votesCount 0 ((voted 2).votesCount 0 + 1)
      net := afterCall (.smallest _) (voted 2) (.delMsg 1 0) (.handleMsgRVRNotQuorum 0 1) }

/-- Two servers in term `1`, both in state `Leader`. -/
theorem atMostOneLeader_fails :
    ¬ ∀ tr (s : State (Fin 4) Unit), (spec (.smallest _)).Run tr s → AtMostOneLeaderPerTerm s := by
  intro hall
  have hshort : Effect (.smallest _) (voted 2) (.handleMsgRVR 1 0) unconstrained :=
    .notQuorum 1 0 ⟨1, 0, 4, .rvr ⟨1⟩⟩ ⟨1⟩ _ _ (by decide) (by decide) rfl (by decide)
      (netCall_afterCall _ (by decide))
  have hrun : (spec (.smallest _)).Run (candidacy 2 ++ [⟨voted 2, .handleMsgRVR 1 0, unconstrained⟩])
      unconstrained :=
    .snoc (run_candidacy (by decide) (by decide) (by decide) (by decide))
      (nextBy_iff_effect.mpr hshort)
  exact hall _ _ hrun ⟨0, 1, by decide, by decide, rfl, rfl⟩

end Tmet.PySyncObj
