import Tmet.Proofs.PySyncObj.Election

/-!
# `Tmet.Proofs.PySyncObj.Frame`: what an action determines and what it leaves alone

`Complete pick s a` says that the action `a` is fully written out at `s`: it has at
most one successor, it changes the variables of its own server only, and a vote
it counts without a quorum leaves `raftState` alone. `complete_iff` says where
that is so: everywhere but in the `not-quorum` branch, which leaves `raftState'`
open.
-/

set_option autoImplicit false

namespace Tmet.PySyncObj

open Tmet.Lib
open Tmet.FifoNetwork

variable {ν κ : Type} [DecidableEq ν]

/-- The server whose variables an action is about: the receiver of a handled
message, the server that times out. -/
def Action.actor : Action ν → Option ν
  | .handleMsgRV _ dst => some dst
  | .handleMsgRVR _ dst => some dst
  | .electionTimeout n => some n
  | .networkPartition _ => none
  | .networkCure => none

/-- Server `n` has the same variables in both states. -/
structure SameServer (s s' : State ν κ) (n : ν) : Prop where
  currentTerm : s'.currentTerm n = s.currentTerm n
  votedFor : s'.votedFor n = s.votedFor n
  raftState : s'.raftState n = s.raftState n
  votesCount : s'.votesCount n = s.votesCount n
  log : s'.log n = s.log n
  commitIndex : s'.commitIndex n = s.commitIndex n
  nextIndex : s'.nextIndex n = s.nextIndex n
  matchIndex : s'.matchIndex n = s.matchIndex n

variable [Fintype ν] {pick : Choose ν} {s s' : State ν κ} {a : Action ν}

/-- The action is fully written out at `s`. -/
structure Complete (pick : Choose ν) (s : State ν κ) (a : Action ν) : Prop where
  determined : ∀ s₁ s₂, NextBy pick s a s₁ → NextBy pick s a s₂ → s₁ = s₂
  frame : ∀ s', NextBy pick s a s' → ∀ n, a.actor ≠ some n → SameServer s s' n
  notQuorum : ∀ s', NextBy pick s a s' → NotQuorumBranch s a → s'.raftState = s.raftState

/-- Outside the `not-quorum` branch an action has one successor. -/
theorem Effect.unique (hno : ¬ NotQuorumBranch s a) {s₁ s₂ : State ν κ}
    (h₁ : Effect pick s a s₁) (h₂ : Effect pick s a s₂) : s₁ = s₂ := by
  -- the message and the guards decide the case, and each case has one network
  cases h₁ with
  | vote src dst m data net₁ hne hm hbody hg hnet =>
      cases h₂ with
      | vote _ _ m' data' net₂ _ hm' hbody' _ hnet' =>
          obtain rfl := Body.rv.inj (body_unique hm hbody hm' hbody')
          rw [hnet.unique hnet']
      | refuse _ _ m' data' net₂ _ hm' hbody' hg' _ =>
          obtain rfl := Body.rv.inj (body_unique hm hbody hm' hbody')
          exact absurd hg hg'
  | refuse src dst m data net₁ hne hm hbody hg hnet =>
      cases h₂ with
      | vote _ _ m' data' net₂ _ hm' hbody' hg' _ =>
          obtain rfl := Body.rv.inj (body_unique hm hbody hm' hbody')
          exact absurd hg' hg
      | refuse _ _ m' data' net₂ _ hm' hbody' _ hnet' =>
          obtain rfl := Body.rv.inj (body_unique hm hbody hm' hbody')
          rw [hnet.unique hnet']
  | becomeLeader src dst m data net₁ hne hm hbody hw hnet =>
      cases h₂ with
      | becomeLeader _ _ m' data' net₂ _ hm' hbody' _ hnet' => rw [hnet.unique hnet']
      | notQuorum _ _ m' data' net₂ _ _ hm' hbody' hw' _ =>
          exact absurd ⟨src, dst, m', data', rfl, hne, hm', hbody', hw'⟩ hno
      | ignore _ _ m' data' net₂ _ hm' hbody' hc' _ =>
          obtain rfl := Body.rvr.inj (body_unique hm hbody hm' hbody')
          exact absurd hw.1 hc'
  | notQuorum src dst m data net₁ _ hne hm hbody hw hnet =>
      exact absurd ⟨src, dst, m, data, rfl, hne, hm, hbody, hw⟩ hno
  | ignore src dst m data net₁ hne hm hbody hc hnet =>
      cases h₂ with
      | becomeLeader _ _ m' data' net₂ _ hm' hbody' hw' _ =>
          obtain rfl := Body.rvr.inj (body_unique hm hbody hm' hbody')
          exact absurd hw'.1 hc
      | notQuorum _ _ m' data' net₂ _ _ hm' hbody' hw' _ =>
          exact absurd ⟨src, dst, m', data', rfl, hne, hm', hbody', hw'⟩ hno
      | ignore _ _ m' data' net₂ _ hm' hbody' _ hnet' => rw [hnet.unique hnet']
  | timeout n net₁ hnet =>
      cases h₂ with
      | timeout _ net₂ hnet' => rw [hnet.unique hnet']
  | partition n net₁ hnet =>
      cases h₂ with
      | partition _ net₂ hnet' => rw [hnet.unique hnet']
  | cure net₁ hnet =>
      cases h₂ with
      | cure net₂ hnet' => rw [hnet.unique hnet']

/-- Outside the `not-quorum` branch every other server keeps its variables. -/
theorem Effect.sameServer (hno : ¬ NotQuorumBranch s a) (h : Effect pick s a s') {n : ν}
    (hn : a.actor ≠ some n) : SameServer s s' n := by
  cases h with
  | vote src dst m data net' hne hm hbody hg hnet =>
      have hdst : n ≠ dst := fun h => hn (congrArg some h.symm)
      obtain ⟨hterm, hraft⟩ := seenTerm_of_ne (s := s) hdst data.term
      exact ⟨hterm, Function.update_of_ne hdst _ _, hraft, rfl, rfl, rfl, rfl, rfl⟩
  | refuse src dst m data net' hne hm hbody hg hnet =>
      have hdst : n ≠ dst := fun h => hn (congrArg some h.symm)
      obtain ⟨hterm, hraft⟩ := seenTerm_of_ne (s := s) hdst data.term
      exact ⟨hterm, rfl, hraft, rfl, rfl, rfl, rfl, rfl⟩
  | becomeLeader src dst m data net' hne hm hbody hw hnet =>
      have hdst : n ≠ dst := fun h => hn (congrArg some h.symm)
      exact ⟨rfl, rfl, Function.update_of_ne hdst _ _, Function.update_of_ne hdst _ _, rfl, rfl,
        rfl, rfl⟩
  | notQuorum src dst m data net' _ hne hm hbody hw hnet =>
      -- `raftState'` is open here, and so are the states of the others
      exact absurd ⟨src, dst, m, data, rfl, hne, hm, hbody, hw⟩ hno
  | ignore src dst m data net' hne hm hbody hc hnet =>
      exact ⟨rfl, rfl, rfl, rfl, rfl, rfl, rfl, rfl⟩
  | timeout m net' hnet =>
      have hm : n ≠ m := fun h => hn (congrArg some h.symm)
      exact ⟨Function.update_of_ne hm _ _, Function.update_of_ne hm _ _,
        Function.update_of_ne hm _ _, Function.update_of_ne hm _ _, rfl, rfl, rfl, rfl⟩
  | partition m net' hnet => exact ⟨rfl, rfl, rfl, rfl, rfl, rfl, rfl, rfl⟩
  | cure net' hnet => exact ⟨rfl, rfl, rfl, rfl, rfl, rfl, rfl, rfl⟩

/-- In the `not-quorum` branch every `raftState'` is a successor. -/
theorem exists_effect_of_notQuorumBranch (pick : Choose ν) (h : NotQuorumBranch s a)
    (raftState' : ν → RaftState) :
    ∃ s', Effect pick s a s' ∧ s'.raftState = raftState' := by
  obtain ⟨src, dst, m, data, rfl, hne, hm, hbody, hshort⟩ := h
  -- the head of a channel can always be deleted
  have hcall : (Op.args (netParams pick) s.net.toVars
      (.delMsg src dst : Op ν Body (Cmd ν))).toBool = true := by
    simp only [Op.args, hm]
    unfold netDelMsg
    rw [delMsg_of_getMsg hm]
    rfl
  exact ⟨_, .notQuorum src dst m data _ raftState' hne hm hbody hshort (netCall_afterCall _ hcall),
    rfl⟩

/-- An action is fully written out in a state if and only if it does not take the
`not-quorum` branch there. -/
theorem complete_iff (pick : Choose ν) (s : State ν κ) (a : Action ν) :
    Complete pick s a ↔ ¬ NotQuorumBranch s a := by
  constructor
  · intro h hshort
    -- two successors that differ in `raftState`
    obtain ⟨s₁, h₁, hraft₁⟩ :=
      exists_effect_of_notQuorumBranch pick hshort fun _ => .leader
    obtain ⟨s₂, h₂, hraft₂⟩ :=
      exists_effect_of_notQuorumBranch pick hshort fun _ => .follower
    have heq := h.determined s₁ s₂ (nextBy_iff_effect.mpr h₁) (nextBy_iff_effect.mpr h₂)
    rw [heq, hraft₂] at hraft₁
    obtain ⟨-, dst, -⟩ := hshort
    exact absurd (congrFun hraft₁ dst) (by decide)
  · intro hno
    exact
      { determined := fun s₁ s₂ h₁ h₂ =>
          (nextBy_iff_effect.mp h₁).unique hno (nextBy_iff_effect.mp h₂)
        frame := fun s' h n hn => (nextBy_iff_effect.mp h).sameServer hno hn
        notQuorum := fun s' _ hshort => absurd hshort hno }

/-- The counted vote of the four servers is such a step, in a reachable state. -/
theorem complete_fails :
    ¬ ∀ (s : State (Fin 4) Unit), (spec (.smallest _)).Reachable s → ∀ a,
        Complete (.smallest _) s a := by
  intro hall
  have hrun : (spec (.smallest _)).Run (candidacy 2) (voted 2) :=
    run_candidacy (by decide) (by decide) (by decide) (by decide)
  have hshort : NotQuorumBranch (voted 2) (.handleMsgRVR 1 0) :=
    ⟨1, 0, ⟨1, 0, 4, .rvr ⟨1⟩⟩, ⟨1⟩, rfl, by decide, by decide, rfl, by decide⟩
  obtain ⟨s₁, h₁, hraft₁⟩ :=
    exists_effect_of_notQuorumBranch (.smallest _) hshort fun _ => .leader
  have hkept := (hall _ ⟨_, hrun⟩ _).notQuorum s₁ (nextBy_iff_effect.mpr h₁) hshort
  rw [hraft₁] at hkept
  exact absurd (congrFun hkept 1) (by decide)

end Tmet.PySyncObj
