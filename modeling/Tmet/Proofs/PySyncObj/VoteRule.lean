import Tmet.Proofs.PySyncObj.Election

/-!
# `Tmet.Proofs.PySyncObj.VoteRule`: who a server votes for

In Raft a server votes once in a term, for a candidate whose log is at least as up
to date as its own. `HandleMsgRV` decides from three things: the old `raftState`
and `votedFor`, the new `currentTerm`, and the last entries of the two logs.

`LogInv`: no action changes a log, so all logs stay equal and the log check passes
for every request of a run.

The test of `raftState` looks at the state before the step. A leader that sees a
higher term takes the term over and becomes a follower, but it refuses the vote
and keeps its old `votedFor`:

* `votedFor` holds votes of the present term exactly in runs where no leader that
  has voted is handed such a request (`votedInTerm_run_iff`);
* the decision is Raft's rule, which speaks of the votes cast so far (`MayVote`),
  except for a leader and for a server left with a vote of an old term
  (`voteRule_iff`).

The two accessors of the last entry are exchanged, `GetCurrentLogTerm` gives its
`idx` and `GetCurrentLogIdx` its `term`. The log check therefore compares the
indices first, and it lets a candidate through whose log is longer but of an older
term (`upToDate_of_vote_iff`).
-/

set_option autoImplicit false

namespace Tmet.PySyncObj

open Tmet.Lib
open Tmet.FifoNetwork

variable {ν κ : Type} [DecidableEq ν]
variable {pick : Choose ν} {tr : List (Step (State ν κ) (Action ν))} {s s' : State ν κ}

/-! ### Logs and requests -/

variable [Fintype ν]

/-- A step leaves the logs as they are. -/
theorem Effect.log {a : Action ν} (h : Effect pick s a s') : s'.log = s.log := by
  cases h <;> rfl

/-- A request in flight after a step was in flight before, or it is the request of
a timeout. -/
theorem Effect.request {act : Action ν} (h : Effect pick s act s') {data : RVData} {a b : ν}
    (hpos : 0 < pending s'.net.toVars (.rv data) a b) :
    0 < pending s.net.toVars (.rv data) a b ∨ data = requestData s a := by
  have hquiet {op : Op ν Body (Cmd ν)} {cmd : Cmd ν} (hnet : NetCall pick s op cmd s'.net)
      (hop : op.sends s.net.toVars = []) :
      0 < pending s.net.toVars (.rv data) a b ∨ data = requestData s a := by
    refine Or.inl ((hnet.pending_pos hpos).resolve_right ?_)
    rw [hop]
    exact List.not_mem_nil
  cases h with
  | vote src dst m data' net' hne hm hbody hgrants hnet =>
      refine Or.inl ((hnet.pending_pos hpos).resolve_right ?_)
      -- the one message sent is a reply
      simp [Op.sends, hm]
  | refuse src dst m data' net' hne hm hbody hgrants hnet => exact hquiet hnet rfl
  | becomeLeader src dst m data' net' hne hm hbody hwins hnet => exact hquiet hnet rfl
  | notQuorum src dst m data' net' raftState' hne hm hbody hshort hnet => exact hquiet hnet rfl
  | ignore src dst m data' net' hne hm hbody hcount hnet => exact hquiet hnet rfl
  | timeout n net' hnet =>
      refine (hnet.pending_pos hpos).imp_right fun hmem => ?_
      obtain ⟨rfl, hdata⟩ := eq_requestData_of_mem hmem
      exact hdata
  | partition n net' hnet => exact hquiet hnet rfl
  | cure net' hnet => exact hquiet hnet rfl

/-- The logs are those of `Init`, and so are the last entries in the requests. -/
structure LogInv (s : State ν κ) : Prop where
  log : s.log = (init : State ν κ).log
  request : ∀ (data : RVData) a b, 0 < pending s.net.toVars (.rv data) a b →
    data.lastLogIdx = 0 ∧ data.lastLogTerm = 1

theorem LogInv.step {a : Action ν} (h : LogInv s) (hstep : Effect pick s a s') : LogInv s' where
  log := hstep.log.trans h.log
  request data i j hpos := by
    rcases hstep.request hpos with hold | hdata
    · exact h.request data i j hold
    · rw [hdata, requestData, getCurrentLogIdx, getCurrentLogTerm, h.log]
      exact ⟨rfl, rfl⟩

theorem LogInv.of_run (h : (spec pick).Run tr s) : LogInv s := by
  refine h.state_invariant ?_ ?_
  · intro s hs
    rw [show s = init from hs]
    refine ⟨rfl, fun data a b hpos => ?_⟩
    simp only [pending, PySyncObj.init, chan_init] at hpos
    exact absurd hpos (by simp)
  · intro s a s' hinv hstep
    exact hinv.step (nextBy_iff_effect.mp hstep)

/-- In a run the log check passes. What is left of the condition to vote is about
the state, the term and the vote. -/
theorem LogInv.grants_iff (h : LogInv s) {src dst : ν} {m : Msg ν Body} {data : RVData}
    (hm : netGetMsg s.net.toVars src dst = some m) (hbody : m.body = .rv data) :
    Grants s dst data ↔ s.raftState dst ≠ .leader ∧ s.currentTerm dst ≤ data.term
      ∧ (s.currentTerm dst < data.term ∨ s.votedFor dst = none) := by
  have hpos := pending_pos_of_netGetMsg hm
  rw [hbody] at hpos
  obtain ⟨hidx, hterm⟩ := h.request data src dst hpos
  -- no log is ever written, so all are as they were at the start
  have hlogTerm : getCurrentLogTerm s dst = 1 := by
    rw [getCurrentLogTerm, h.log]
    rfl
  have hlogIdx : getCurrentLogIdx s dst = 0 := by
    rw [getCurrentLogIdx, h.log]
    rfl
  unfold Grants
  rw [hidx, hterm, hlogTerm, hlogIdx]
  simp

/-! ### `votedFor` and the present term -/

/-- What `votedFor` holds are votes cast in the present terms. -/
def VotedInTerm (tr : List (Step (State ν κ) (Action ν))) (s : State ν κ) : Prop :=
  ∀ n v, s.votedFor n = some v → (n, s.currentTerm n, v) ∈ ballots tr

/-- The step hands a leader that has voted a request of a higher term. -/
def LeaderSeesHigherTerm (t : Step (State ν κ) (Action ν)) : Prop :=
  ∃ src dst m data, t.act = .handleMsgRV src dst ∧ netGetMsg t.src.net.toVars src dst = some m
    ∧ m.body = .rv data ∧ t.src.raftState dst = .leader ∧ t.src.currentTerm dst < data.term
    ∧ t.src.votedFor dst ≠ none

omit [DecidableEq ν] [Fintype ν] in
/-- A vote of a server that neither changes its term nor its vote stays on record. -/
theorem VotedInTerm.keep (h : VotedInTerm tr s) (t : Step (State ν κ) (Action ν)) {n v : ν}
    (hterm : s'.currentTerm n = s.currentTerm n) (hvoted : s'.votedFor n = s.votedFor n)
    (hv : s'.votedFor n = some v) : (n, s'.currentTerm n, v) ∈ ballots (tr ++ [t]) := by
  rw [ballots_snoc, hterm]
  exact List.mem_append_left _ (h n v (hvoted ▸ hv))

/-- A step that a leader with a vote does not refuse keeps the votes in the present
terms. -/
theorem VotedInTerm.step {a : Action ν} (hlog : LogInv s) (h : VotedInTerm tr s)
    (hstep : Effect pick s a s') (hno : ¬ LeaderSeesHigherTerm ⟨s, a, s'⟩) :
    VotedInTerm (tr ++ [⟨s, a, s'⟩]) s' := by
  intro n v hv
  have hvote := hstep.voteStep
  by_cases hcast : ∃ t b, voteCast ⟨s, a, s'⟩ = some (n, t, b)
  · obtain ⟨t, b, hcast⟩ := hcast
    obtain ⟨hterm, hvoted⟩ := hvote.cast_term n t b hcast
    obtain rfl : b = v := Option.some.inj (hvoted.symm.trans hv)
    rw [ballots_snoc, hcast, hterm]
    exact List.mem_append_right _ (by simp)
  · have hvoted : s'.votedFor n = s.votedFor n :=
      hvote.not_cast n fun t b h => hcast ⟨t, b, h⟩
    refine h.keep _ ?_ hvoted hv
    -- only the receiver of a request and a candidate change their terms
    cases hstep with
    | vote src dst m data net' hne hm hbody hgrants hnet =>
        by_cases hn : n = dst
        · have hcond : VoteCond s dst data { seenTerm s dst data.term with
              votedFor := Function.update s.votedFor dst (some src), net := net' } :=
            (voteCond_iff_grants (seenTerm_currentTerm dst data.term)).mpr hgrants
          refine absurd ⟨data.term, src, ?_⟩ hcast
          simp only [voteCast, hm, Option.map_some, hbody, if_pos hcond, hn]
        · exact (seenTerm_of_ne hn _).1
    | refuse src dst m data net' hne hm hbody hgrants hnet =>
        by_cases hn : n = dst
        · subst hn
          show (seenTerm s n data.term).currentTerm n = _
          rw [seenTerm_currentTerm, max_eq_left]
          by_contra hlt
          rw [not_le] at hlt
          -- the term rises, so the refusal is that of a leader
          have hlead : s.raftState n = .leader := by
            by_contra hlead
            exact hgrants ((hlog.grants_iff hm hbody).mpr ⟨hlead, hlt.le, Or.inl hlt⟩)
          have hsome : s.votedFor n ≠ none := by
            rw [← hvoted, hv]
            exact Option.some_ne_none v
          exact hno ⟨src, n, m, data, rfl, hm, hbody, hlead, hlt, hsome⟩
        · exact (seenTerm_of_ne hn _).1
    | becomeLeader | notQuorum | ignore | partition | cure => rfl
    | timeout m net' hnet =>
        by_cases hn : n = m
        · exact absurd ⟨_, n, by rw [hn]; rfl⟩ hcast
        · exact Function.update_of_ne hn _ _

/-- A leader that refuses a request of a higher term is left with a vote of an
older term. -/
theorem not_votedInTerm_of_leaderSeesHigherTerm {a : Action ν} (hinv : VoteInv tr s)
    (hstep : Effect pick s a s') (hbad : LeaderSeesHigherTerm ⟨s, a, s'⟩) :
    ¬ VotedInTerm (tr ++ [⟨s, a, s'⟩]) s' := by
  intro hvotes
  obtain ⟨src, dst, m, data, rfl, hm, hbody, hlead, hlt, hsome⟩ := hbad
  obtain ⟨v, hv⟩ := Option.ne_none_iff_exists'.mp hsome
  -- a leader does not vote, so the step is a refusal that takes over the term
  cases hstep with
  | vote _ _ m' data' net' hne hm' hbody' hgrants hnet => exact hgrants.1 hlead
  | refuse _ _ m' data' net' hne hm' hbody' hgrants hnet =>
      obtain rfl := Body.rv.inj (body_unique hm hbody hm' hbody')
      have hlt' : s.currentTerm dst < data.term := hlt
      have hmem := hvotes dst v hv
      rw [mem_ballots_snoc] at hmem
      have hterm : (seenTerm s dst data.term).currentTerm dst = data.term := by
        rw [seenTerm_currentTerm, max_eq_right hlt'.le]
      -- no vote of the new term was cast before the step, and none is cast in it
      rcases hmem with hold | hcast
      · have hle := hinv.term_le _ _ _ hold
        change (seenTerm s dst data.term).currentTerm dst ≤ _ at hle
        omega
      · have hcond : ¬ VoteCond s dst data { seenTerm s dst data.term with net := net' } :=
          fun hc => hc.1 hlead
        simp only [voteCast, hm, Option.map_some, hbody, if_neg hcond] at hcast
        exact absurd hcast (by simp)

/-- In every state of a run `votedFor` holds votes of the present terms, exactly if
no step of the run hands a leader that has voted a request of a higher term. -/
theorem votedInTerm_run_iff (pick : Choose ν) (tr : List (Step (State ν κ) (Action ν)))
    (s : State ν κ) (h : (spec pick).Run tr s) :
    (∀ tr' s', tr' <+: tr → (spec pick).Run tr' s' → VotedInTerm tr' s')
      ↔ ∀ t ∈ tr, ¬ LeaderSeesHigherTerm t := by
  constructor
  -- such a step breaks the invariant at once
  · intro hall t ht hbad
    obtain ⟨hstep, pre, post, rfl, hpre⟩ := h.mem_split ht
    have hrun : (spec pick).Run (pre ++ [t]) t.dst := .snoc hpre hstep
    exact not_votedInTerm_of_leaderSeesHigherTerm (VoteInv.of_run hpre)
      (nextBy_iff_effect.mp hstep) hbad (hall _ _ (List.prefix_append _ _) hrun)
  · intro hno tr' s' hpre hrun
    have hno' : ∀ t ∈ tr', ¬ LeaderSeesHigherTerm t := fun t ht => hno t (hpre.subset ht)
    refine System.Run.invariant (P := fun tr s => (∀ t ∈ tr, ¬ LeaderSeesHigherTerm t) →
      VotedInTerm tr s) ?_ ?_ hrun hno'
    · rintro s rfl _ n v hv
      exact absurd hv (by simp [init])
    · intro tr s a s' hrun ih hstep hno
      refine (ih fun t ht => hno t (List.mem_append_left _ ht)).step (LogInv.of_run hrun)
        (nextBy_iff_effect.mp hstep) ?_
      exact hno _ (List.mem_append_right _ (List.mem_singleton_self _))

/-- In the election of two servers the votes are those of term `1`. -/
theorem votedInTerm_run_iff_election : VotedInTerm election elected := by
  refine (votedInTerm_run_iff (.smallest _) election elected run_election).mpr ?_ election elected
    (List.prefix_refl _) run_election
  rintro t ht ⟨src, dst, m, data, hact, -, -, hlead, -⟩
  have hsteps : t = ⟨init, .electionTimeout 0, timedOut 0⟩
      ∨ t = ⟨timedOut 0, .handleMsgRV 0 1, voted 0⟩
      ∨ t = ⟨voted 0, .handleMsgRVR 1 0, elected⟩ := by
    simpa [election, candidacy] using ht
  rcases hsteps with rfl | rfl | rfl
  · exact absurd hact (by simp)
  · obtain ⟨rfl, rfl⟩ : 0 = src ∧ 1 = dst := by simpa using hact
    exact absurd hlead (by decide)
  · exact absurd hact (by simp)

/-- After that election server `1` times out, -/
def challenged : State (Fin 2) Unit :=
  { elected with
      currentTerm := Function.update elected.currentTerm 1 (elected.currentTerm 1 + 1)
      votedFor := Function.update elected.votedFor 1 (some 1)
      raftState := Function.update elected.raftState 1 .candidate
      votesCount := Function.update elected.votesCount 1 1
      net := afterCall (.smallest _) elected (.batchAddMsg (requests (.smallest _) elected 1))
        (.electionTimeout 1) }

/-- and the leader steps down. -/
def steppedDown : State (Fin 2) Unit :=
  { seenTerm challenged 0 2 with
      net := afterCall (.smallest _) challenged (.delMsg 1 0) (.handleMsgRVNotVoted 0 1) }

/-- The history up to there. -/
def challenge : List (Step (State (Fin 2) Unit) (Action (Fin 2))) :=
  election ++ [⟨elected, .electionTimeout 1, challenged⟩]

theorem run_challenge : (spec (.smallest _)).Run challenge challenged := by
  have htimeout : Effect (.smallest _) elected (.electionTimeout 1) challenged :=
    .timeout 1 _ (netCall_afterCall _ rfl)
  exact .snoc run_election (nextBy_iff_effect.mpr htimeout)

/-- The request the leader refuses. -/
def challengeRequest : Msg (Fin 2) Body := ⟨1, 0, 3, .rv ⟨2, 0, 1⟩⟩

theorem netGetMsg_challenged : netGetMsg challenged.net.toVars 1 0 = some challengeRequest := by
  decide

theorem nextBy_steppedDown : NextBy (.smallest _) challenged (.handleMsgRV 1 0) steppedDown := by
  have hrefuse : Effect (.smallest _) challenged (.handleMsgRV 1 0) steppedDown :=
    .refuse 1 0 challengeRequest ⟨2, 0, 1⟩ _ (by decide) netGetMsg_challenged rfl (by decide)
      (netCall_afterCall _ (by decide))
  exact nextBy_iff_effect.mpr hrefuse

/-- Server `0` keeps its vote of term `1` in term `2`. -/
theorem votedInTerm_fails :
    ¬ ∀ tr (s : State (Fin 2) Unit), (spec (.smallest _)).Run tr s → VotedInTerm tr s := by
  intro hall
  have hstep : (spec (.smallest _)).step challenged (.handleMsgRV 1 0) steppedDown :=
    nextBy_steppedDown
  have hrun := run_challenge.snoc hstep
  have hmem := hall _ _ hrun 0 0 (by decide)
  have hterm : steppedDown.currentTerm 0 = 2 := by decide
  rw [hterm] at hmem
  exact absurd hmem (by decide)

/-! ### The decision to vote -/

/-- Raft's rule: the request is not of an older term, and `dst` has cast no vote in
its term so far. -/
def MayVote (tr : List (Step (State ν κ) (Action ν))) (s : State ν κ) (dst : ν) (data : RVData) :
    Prop :=
  s.currentTerm dst ≤ data.term ∧ ∀ v, (dst, data.term, v) ∉ ballots tr

/-- `HandleMsgRV` refuses although the rule allows the vote: the receiver is a
leader that sees a higher term, or it has not voted in its term, but is a leader
or has an older vote in `votedFor`. -/
def WronglyRefuses (tr : List (Step (State ν κ) (Action ν))) (s : State ν κ) (dst : ν)
    (data : RVData) : Prop :=
  (s.currentTerm dst < data.term ∧ s.raftState dst = .leader)
    ∨ (s.currentTerm dst = data.term ∧ (∀ v, (dst, s.currentTerm dst, v) ∉ ballots tr)
      ∧ (s.raftState dst = .leader ∨ s.votedFor dst ≠ none))

/-- The vote of a step that handles a request is cast in the branch of `VoteCond`. -/
theorem voteCast_handleMsgRV {src dst : ν} {m : Msg ν Body} {data : RVData}
    (hm : netGetMsg s.net.toVars src dst = some m) (hbody : m.body = .rv data)
    (hstep : NextBy pick s (.handleMsgRV src dst) s') :
    voteCast ⟨s, .handleMsgRV src dst, s'⟩ = some (dst, data.term, src) ↔ Grants s dst data := by
  -- whether it votes or not, the receiver takes the later of the two terms
  have hterm : s'.currentTerm dst = max (s.currentTerm dst) data.term := by
    cases nextBy_iff_effect.mp hstep with
    | vote _ _ m' data' net' hne hm' hbody' hgrants hnet =>
        obtain rfl := Body.rv.inj (body_unique hm hbody hm' hbody')
        exact seenTerm_currentTerm dst data.term
    | refuse _ _ m' data' net' hne hm' hbody' hgrants hnet =>
        obtain rfl := Body.rv.inj (body_unique hm hbody hm' hbody')
        exact seenTerm_currentTerm dst data.term
  simp only [voteCast, hm, Option.map_some, hbody]
  rw [← voteCond_iff_grants hterm]
  by_cases hcond : VoteCond s dst data s'
  · simp [hcond]
  · simp [hcond]

/-- `HandleMsgRV` on a request at the head of a channel votes as Raft's rule says,
exactly if it does not wrongly refuse. -/
theorem voteRule_iff (pick : Choose ν) (tr : List (Step (State ν κ) (Action ν)))
    (s : State ν κ) (h : (spec pick).Run tr s) (src dst : ν) (m : Msg ν Body) (data : RVData)
    (hm : netGetMsg s.net.toVars src dst = some m) (hbody : m.body = .rv data)
    (s' : State ν κ) (hstep : NextBy pick s (.handleMsgRV src dst) s') :
    (voteCast ⟨s, .handleMsgRV src dst, s'⟩ = some (dst, data.term, src) ↔ MayVote tr s dst data)
      ↔ ¬ WronglyRefuses tr s dst data := by
  have hinv := VoteInv.of_run h
  rw [voteCast_handleMsgRV hm hbody hstep, (LogInv.of_run h).grants_iff hm hbody]
  unfold MayVote WronglyRefuses
  rcases lt_trichotomy (s.currentTerm dst) data.term with hlt | heq | hgt
  · -- no vote has been cast in a term that is still to come
    have hfresh (v : ν) : (dst, data.term, v) ∉ ballots tr := by
      intro hmem
      have hle := hinv.term_le _ _ _ hmem
      omega
    simp [hlt, hlt.le, hlt.ne, hfresh]
  · -- a vote of the present term is the one in `votedFor`
    have hcurrent (v : ν) (hmem : (dst, data.term, v) ∈ ballots tr) : s.votedFor dst = some v :=
      hinv.current dst v (heq ▸ hmem)
    by_cases hfree : ∀ v, (dst, data.term, v) ∉ ballots tr
    · simp [heq, hfree]
    · have hsome : s.votedFor dst ≠ none := by
        push Not at hfree
        obtain ⟨v, hv⟩ := hfree
        rw [hcurrent v hv]
        exact Option.some_ne_none v
      simp [heq, hfree, hsome]
  · have hle : ¬ s.currentTerm dst ≤ data.term := by omega
    have hlt : ¬ s.currentTerm dst < data.term := by omega
    simp [hle, hlt, hgt.ne']

/-- The history of that election up to the first request. -/
def firstTimeout : List (Step (State (Fin 2) Unit) (Action (Fin 2))) :=
  [⟨init, .electionTimeout 0, timedOut 0⟩]

/-- In the election of two servers, server `1` votes for server `0` as the rule
says. -/
theorem voteRule_iff_candidacy :
    voteCast ⟨timedOut 0, .handleMsgRV 0 1, voted 0⟩ = some (1, 1, 0)
      ↔ MayVote firstTimeout (timedOut 0) 1 ⟨1, 0, 1⟩ := by
  have hrun : (spec (.smallest _)).Run (firstTimeout ++ [⟨timedOut 0, .handleMsgRV 0 1, voted 0⟩])
      (voted 0) :=
    run_candidacy (by decide) (by decide) (by decide) (by decide)
  obtain ⟨hpre, hvote, -⟩ := hrun.last
  refine (voteRule_iff (.smallest _) firstTimeout (timedOut 0) hpre 0 1 (firstRequest 0) ⟨1, 0, 1⟩
    (by decide) rfl (voted 0) hvote).mpr ?_
  unfold WronglyRefuses
  decide

/-- The leader of term `1` refuses a request of term `2`. -/
theorem voteRule_fails :
    ¬ ∀ tr (s s' : State (Fin 2) Unit) src dst m data, (spec (.smallest _)).Run tr s →
      netGetMsg s.net.toVars src dst = some m → m.body = .rv data →
      NextBy (.smallest _) s (.handleMsgRV src dst) s' →
      (voteCast ⟨s, .handleMsgRV src dst, s'⟩ = some (dst, data.term, src)
        ↔ MayVote tr s dst data) := by
  intro hall
  have hrule := hall challenge challenged steppedDown 1 0 challengeRequest ⟨2, 0, 1⟩ run_challenge
    netGetMsg_challenged rfl nextBy_steppedDown
  have hmay : MayVote challenge challenged 0 ⟨2, 0, 1⟩ := by
    unfold MayVote
    decide
  have hvote := (voteCast_handleMsgRV netGetMsg_challenged rfl nextBy_steppedDown).mp
    (hrule.mpr hmay)
  exact absurd hvote (by decide)

/-! ### The log check -/

/-- `e` is at least as up to date as `e'`, in Raft's order. -/
def UpToDate (e e' : Entry κ) : Prop := e'.term < e.term ∨ (e.term = e'.term ∧ e'.idx ≤ e.idx)

instance (e e' : Entry κ) : Decidable (UpToDate e e') :=
  inferInstanceAs (Decidable (_ ∨ (_ ∧ _)))

/-- A candidate of an older term and a higher index asks a server that would vote:
its log is not up to date, and the log check passes. -/
def OlderButLonger (e e' : Entry κ) (t : State ν κ) (dst : ν) (data : RVData) : Prop :=
  e'.idx < e.idx ∧ e.term < e'.term
    ∧ t.raftState dst ≠ .leader ∧ t.currentTerm dst ≤ data.term
    ∧ (t.currentTerm dst < data.term ∨ t.votedFor dst = none)

/-- `s` hands the request `data` to the channel from `n` to `dst` as it times out. -/
theorem eq_requestData_of_electionTimeout {n dst : ν} {data : RVData}
    (h : ElectionTimeout pick s n s')
    (hnew : pending s.net.toVars (.rv data) n dst < pending s'.net.toVars (.rv data) n dst) :
    data = requestData s n := by
  obtain ⟨-, hnet⟩ := electionTimeout_iff.mp h
  by_cases hmem : (⟨n, dst, .rv data⟩ : Send ν Body) ∈ requests pick s n
  · exact (eq_requestData_of_mem hmem).2
  · have hle := hnet.pending_le_of_not_mem hmem
    omega

/-- A vote for a request of `n` means that the log of `n` is up to date, exactly if
its last entry is not of an older term and of a higher index. The logs are
arbitrary, and `t` is any state in which the log of the voter is still the same. -/
theorem upToDate_of_vote_iff (pick : Choose ν) (s s₁ : State ν κ) (n dst : ν) (seq : ℕ)
    (data : RVData) (htimeout : ElectionTimeout pick s n s₁)
    (hnew : pending s.net.toVars (.rv data) n dst < pending s₁.net.toVars (.rv data) n dst)
    (t t' : State ν κ) (hlog : t.log dst = s.log dst)
    (hhandle : HandleMsgRV t ⟨n, dst, seq, .rv data⟩ data t') :
    (VoteCond t dst data t' → UpToDate (s.log n).last (s.log dst).last)
      ↔ ¬ OlderButLonger (s.log n).last (s.log dst).last t dst data := by
  have hdata := eq_requestData_of_electionTimeout htimeout hnew
  have hterm : t'.currentTerm dst = max (t.currentTerm dst) data.term := by
    rw [(checkTermBecomeFollower_iff.mp hhandle.1).1, seenTerm_currentTerm]
  have hidx : data.lastLogIdx = (s.log n).last.term := by
    rw [hdata]
    rfl
  have hlogTerm : data.lastLogTerm = (s.log n).last.idx := by
    rw [hdata]
    rfl
  rw [voteCond_iff_grants hterm]
  unfold Grants UpToDate OlderButLonger getCurrentLogTerm getCurrentLogIdx
  rw [hidx, hlogTerm, hlog]
  -- the check compares the indices first, Raft's order the terms
  constructor
  · rintro hvote ⟨hlt, hold, hlead, hle, hfree⟩
    have hup := hvote ⟨hlead, hle, by omega, hfree⟩
    omega
  · rintro hno ⟨hlead, hle, hcheck, hfree⟩
    by_contra hup
    exact hno ⟨by omega, by omega, hlead, hle, hfree⟩

/-- Two servers as in `Init`, but with these logs. -/
def withLogs (log : Fin 2 → Log Unit) : State (Fin 2) Unit :=
  { (init : State (Fin 2) Unit) with log := log }

/-- Server `0` times out, -/
def withLogsTimedOut (log : Fin 2 → Log Unit) : State (Fin 2) Unit :=
  { timedOut 0 with
      log := log
      net := afterCall (.smallest _) (withLogs log)
        (.batchAddMsg (requests (.smallest _) (withLogs log) 0)) (.electionTimeout 0) }

/-- and server `1` votes for it. -/
def withLogsVoted (log : Fin 2 → Log Unit) : State (Fin 2) Unit :=
  { seenTerm (withLogsTimedOut log) 1 1 with
      votedFor := Function.update (withLogsTimedOut log).votedFor 1 (some 0)
      net := afterCall (.smallest _) (withLogsTimedOut log) (.replyMsg 0 1 (.rvr ⟨1⟩))
        (.handleMsgRVVoted 1 0) }

theorem electionTimeout_withLogs (log : Fin 2 → Log Unit) :
    ElectionTimeout (.smallest _) (withLogs log) 0 (withLogsTimedOut log) :=
  electionTimeout_iff.mpr ⟨rfl, netCall_afterCall _ rfl⟩

/-- Server `0` has a second entry of term `3`, server `1` one entry of term `1`. -/
def aheadLog (n : Fin 2) : Log Unit :=
  if n = 0 then ⟨[⟨none, 1, 1⟩, ⟨none, 2, 3⟩], List.cons_ne_nil _ _⟩
  else ⟨[⟨none, 1, 1⟩], List.cons_ne_nil _ _⟩

/-- Server `1` votes for a server whose last entry is of a later term. -/
theorem upToDate_of_vote_iff_ahead : UpToDate (aheadLog 0).last (aheadLog 1).last := by
  have hm : netGetMsg (withLogsTimedOut aheadLog).net.toVars 0 1
      = some ⟨0, 1, 1, .rv ⟨1, 3, 2⟩⟩ := by decide
  have hnet : NetCall (.smallest _) (withLogsTimedOut aheadLog) (.replyMsg 0 1 (.rvr ⟨1⟩))
      (.handleMsgRVVoted 1 0) (withLogsVoted aheadLog).net := netCall_afterCall _ (by decide)
  have hhandle : HandleMsgRV (withLogsTimedOut aheadLog) ⟨0, 1, 1, .rv ⟨1, 3, 2⟩⟩ ⟨1, 3, 2⟩
      (withLogsVoted aheadLog) := (handleMsgRV_iff hm).mpr (Or.inl ⟨by decide, rfl, hnet⟩)
  refine (upToDate_of_vote_iff (.smallest _) (withLogs aheadLog) (withLogsTimedOut aheadLog) 0 1 1
    ⟨1, 3, 2⟩ (electionTimeout_withLogs aheadLog) (by decide) (withLogsTimedOut aheadLog)
    (withLogsVoted aheadLog) rfl hhandle).mpr ?_ (by decide)
  unfold OlderButLonger
  decide

/-- Server `0` has a second entry of term `0`, server `1` one entry of term `5`. -/
def divergedLog (n : Fin 2) : Log Unit :=
  if n = 0 then ⟨[⟨none, 1, 0⟩, ⟨none, 2, 0⟩], List.cons_ne_nil _ _⟩
  else ⟨[⟨none, 1, 5⟩], List.cons_ne_nil _ _⟩

/-- Server `1` votes for a server whose last entry is of an older term. -/
theorem upToDate_of_vote_fails :
    ¬ ∀ (s s₁ : State (Fin 2) Unit) n dst seq data, ElectionTimeout (.smallest _) s n s₁ →
      pending s.net.toVars (.rv data) n dst < pending s₁.net.toVars (.rv data) n dst →
      ∀ t t', t.log dst = s.log dst → HandleMsgRV t ⟨n, dst, seq, .rv data⟩ data t' →
      VoteCond t dst data t' → UpToDate (s.log n).last (s.log dst).last := by
  intro hall
  have hm : netGetMsg (withLogsTimedOut divergedLog).net.toVars 0 1
      = some ⟨0, 1, 1, .rv ⟨1, 0, 2⟩⟩ := by decide
  have hnet : NetCall (.smallest _) (withLogsTimedOut divergedLog) (.replyMsg 0 1 (.rvr ⟨1⟩))
      (.handleMsgRVVoted 1 0) (withLogsVoted divergedLog).net := netCall_afterCall _ (by decide)
  have hhandle : HandleMsgRV (withLogsTimedOut divergedLog) ⟨0, 1, 1, .rv ⟨1, 0, 2⟩⟩ ⟨1, 0, 2⟩
      (withLogsVoted divergedLog) := (handleMsgRV_iff hm).mpr (Or.inl ⟨by decide, rfl, hnet⟩)
  have hup := hall (withLogs divergedLog) (withLogsTimedOut divergedLog) 0 1 1 ⟨1, 0, 2⟩
    (electionTimeout_withLogs divergedLog) (by decide) (withLogsTimedOut divergedLog)
    (withLogsVoted divergedLog) rfl hhandle (by decide)
  exact absurd hup (by decide)

end Tmet.PySyncObj
