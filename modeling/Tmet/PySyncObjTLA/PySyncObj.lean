import Tmet.PySyncObjTLA.FifoNetwork

/-!
# `Tmet.PySyncObjTLA.PySyncObj`: the election module

`PySyncObjTLA/PySyncObj.tla`. An action of the source is a relation between the
state `s` and the primed state `s'`, and it is written here as the conjunction
the source writes: an equation for each primed variable the branch mentions, and
nothing for a variable it does not mention. A relation may therefore hold of
several `s'`.

The set `Servers` is the finite type `ν`; `κ` is the type of `Commands`.
`FLUSH_DISCONN` is `TRUE`. The selection of `CHOOSE` is the parameter `pick`,
the same one for `_Pick` and for the loop of `ElectionTimeout`.

`raftState` of a server may be any value, not only one of the three constants: a
branch that leaves `raftState'` open gives it any value.
-/

set_option autoImplicit false

namespace Tmet.PySyncObj

open Tmet.Lib
open Tmet.FifoNetwork (Net Msg Send Args NetError Vars Params initFifoNetwork netGetMsg netDelMsg
  netReplyMsg netBatchAddMsg netPartConn netCureConn netUpdate2)

variable {ν κ : Type}

/-! ### Data -/

/-- `Follower`, `Candidate`, `Leader`, or any other value. -/
inductive RaftState where
  | follower
  | candidate
  | leader
  | other (v : ℕ)
  deriving DecidableEq, Repr

/-- An entry of a log. `none` is `NoOp`. -/
structure Entry (κ : Type) where
  cmd : Option κ
  idx : ℕ
  term : ℕ

/-- A log. It is not empty, so its last entry exists. -/
structure Log (κ : Type) where
  entries : List (Entry κ)
  ne_nil : entries ≠ []

/-- `log[n][Len(log[n])]`. -/
def Log.last (l : Log κ) : Entry κ := l.entries.getLast l.ne_nil

/-- `data` of an `M_RV` message. -/
structure RVData where
  term : ℕ
  lastLogIdx : ℕ
  lastLogTerm : ℕ
  deriving DecidableEq, Repr

/-- `data` of an `M_RVR` message. -/
structure RVRData where
  term : ℕ
  deriving DecidableEq, Repr

/-- `type` and `data` of a message. -/
inductive Body where
  | rv (data : RVData)
  | rvr (data : RVRData)
  deriving DecidableEq, Repr

/-- The tuples the actions pass to `NetUpdate2`. The cure passes
`<<"DoNetworkPartition">>`, a partition `<<"DoNetworkPartition", n>>`. -/
inductive Cmd (ν : Type) where
  | handleMsgRVVoted (dst src : ν)
  | handleMsgRVNotVoted (dst src : ν)
  | handleMsgRVRBecomeLeader (dst src : ν)
  | handleMsgRVRNotQuorum (dst src : ν)
  | handleMsgRVRNotCandidateOrTermNotEqual (dst src : ν)
  | electionTimeout (n : ν)
  | doNetworkPartition (n : Option ν)

/-- The variables. `votedFor` is `none` for `Nil`. -/
@[ext] structure State (ν κ : Type) where
  currentTerm : ν → ℕ
  votedFor : ν → Option ν
  raftState : ν → RaftState
  nextIndex : ν → ν → ℕ
  matchIndex : ν → ν → ℕ
  votesCount : ν → ℕ
  log : ν → Log κ
  commitIndex : ν → ℕ
  net : Net ν Body (Cmd ν)

variable [DecidableEq ν]

/-- `Init`. -/
def init [Fintype ν] : State ν κ where
  currentTerm _ := 0
  votedFor _ := none
  raftState _ := .follower
  nextIndex _ _ := 1
  matchIndex _ _ := 0
  votesCount _ := 0
  log _ := ⟨[⟨none, 1, 0⟩], List.cons_ne_nil _ _⟩
  commitIndex _ := 1
  net := initFifoNetwork Finset.univ

/-! ### Helper functions -/

/-- `UNCHANGED leaderVars`; the others likewise. -/
def UnchangedLeaderVars (s s' : State ν κ) : Prop :=
  s'.nextIndex = s.nextIndex ∧ s'.matchIndex = s.matchIndex
def UnchangedCandidateVars (s s' : State ν κ) : Prop := s'.votesCount = s.votesCount
def UnchangedLogVars (s s' : State ν κ) : Prop :=
  s'.log = s.log ∧ s'.commitIndex = s.commitIndex
def UnchangedServerVars (s s' : State ν κ) : Prop :=
  s'.currentTerm = s.currentTerm ∧ s'.votedFor = s.votedFor ∧ s'.raftState = s.raftState
def UnchangedNoNetVars (s s' : State ν κ) : Prop :=
  UnchangedServerVars s s' ∧ UnchangedLeaderVars s s' ∧ UnchangedCandidateVars s s'
    ∧ UnchangedLogVars s s'

/-- `SetState(n, r)`. -/
def SetState (s : State ν κ) (n : ν) (r : RaftState) (s' : State ν κ) : Prop :=
  s'.raftState = Function.update s.raftState n r

/-- `GetCurrentLogTerm(n)`, the `idx` of the last entry. -/
def getCurrentLogTerm (s : State ν κ) (n : ν) : ℕ := (s.log n).last.idx

/-- `GetCurrentLogIdx(n)`, the `term` of the last entry. -/
def getCurrentLogIdx (s : State ν κ) (n : ν) : ℕ := (s.log n).last.term

/-- `AddCurrentTerm(n)`. -/
def AddCurrentTerm (s : State ν κ) (n : ν) (s' : State ν κ) : Prop :=
  s'.currentTerm = Function.update s.currentTerm n (s.currentTerm n + 1)

/-- `SetCurrentTerm(n, t)`. -/
def SetCurrentTerm (s : State ν κ) (n : ν) (t : ℕ) (s' : State ν κ) : Prop :=
  s'.currentTerm = Function.update s.currentTerm n t

/-- `SetVotedFor(n, v)`. -/
def SetVotedFor (s : State ν κ) (n v : ν) (s' : State ν κ) : Prop :=
  s'.votedFor = Function.update s.votedFor n (some v)

/-- `CheckTermNotVoted(n)`. -/
def CheckTermNotVoted (s : State ν κ) (n : ν) (s' : State ν κ) : Prop :=
  -- in a term that is new to it the server has not voted yet
  if s.currentTerm n < s'.currentTerm n then True else s.votedFor n = none

instance (s : State ν κ) (n : ν) (s' : State ν κ) : Decidable (CheckTermNotVoted s n s') :=
  inferInstanceAs (Decidable
    (if s.currentTerm n < s'.currentTerm n then True else s.votedFor n = none))

/-- `CheckTermBecomeFollower(n, term)`. -/
def CheckTermBecomeFollower (s : State ν κ) (n : ν) (term : ℕ) (s' : State ν κ) : Prop :=
  if s.currentTerm n < term then SetCurrentTerm s n term s' ∧ SetState s n .follower s'
  else s'.currentTerm = s.currentTerm ∧ s'.raftState = s.raftState

/-- `AddVotesCount(n)`. -/
def AddVotesCount (s : State ν κ) (n : ν) (s' : State ν κ) : Prop :=
  s'.votesCount = Function.update s.votesCount n (s.votesCount n + 1)

/-- `CheckVotesCountIsQuorum(n)`, on the primed `votesCount`. -/
def CheckVotesCountIsQuorum [Fintype ν] (n : ν) (s' : State ν κ) : Prop :=
  Fintype.card ν < s'.votesCount n * 2

instance [Fintype ν] (n : ν) (s' : State ν κ) : Decidable (CheckVotesCountIsQuorum n s') :=
  inferInstanceAs (Decidable (_ < _))

/-- `ResetCandidateVotesCount(n)`. -/
def ResetCandidateVotesCount (s : State ν κ) (n : ν) (s' : State ν κ) : Prop :=
  s'.votesCount = Function.update s.votesCount n 1

/-- `NetUpdate2(args, cmd)`. The step is only there if `args` has a value. -/
def NetUpdate2 (s : State ν κ) (args : Except NetError (Args ν Body (Cmd ν))) (cmd : Cmd ν)
    (s' : State ν κ) : Prop :=
  ∃ a, args = .ok a ∧ s'.net = netUpdate2 s.net.toVars a cmd

/-! ### Message handling -/

/-- The condition under which `HandleMsgRV(m)` votes. -/
def VoteCond (s : State ν κ) (dst : ν) (data : RVData) (s' : State ν κ) : Prop :=
  s.raftState dst ≠ .leader
    ∧ s'.currentTerm dst ≤ data.term
    -- the log of the candidate is behind, or the vote of the term is given away
    ∧ ¬ (data.lastLogTerm < getCurrentLogTerm s dst
      ∨ (data.lastLogTerm = getCurrentLogTerm s dst ∧ data.lastLogIdx < getCurrentLogIdx s dst)
      ∨ ¬ CheckTermNotVoted s dst s')

instance (s : State ν κ) (dst : ν) (data : RVData) (s' : State ν κ) :
    Decidable (VoteCond s dst data s') :=
  inferInstanceAs (Decidable (_ ∧ _ ∧ ¬ (_ ∨ _ ∨ _)))

/-- `HandleMsgRV(m)`, `data` being `m.data`. -/
def HandleMsgRV (s : State ν κ) (m : Msg ν Body) (data : RVData) (s' : State ν κ) : Prop :=
  CheckTermBecomeFollower s m.dst data.term s'
    ∧ if VoteCond s m.dst data s' then
        SetVotedFor s m.dst m.src s'
          ∧ UnchangedLeaderVars s s' ∧ UnchangedCandidateVars s s' ∧ UnchangedLogVars s s'
          ∧ NetUpdate2 s (netReplyMsg s.net.toVars (.rvr ⟨data.term⟩) m)
              (.handleMsgRVVoted m.dst m.src) s'
      else
        -- `votedFor` stays as it is, even where the term is new
        s'.votedFor = s.votedFor
          ∧ UnchangedLeaderVars s s' ∧ UnchangedCandidateVars s s' ∧ UnchangedLogVars s s'
          ∧ NetUpdate2 s (netDelMsg s.net.toVars m) (.handleMsgRVNotVoted m.dst m.src) s'

/-- The condition under which `HandleMsgRVR(m)` counts the vote. -/
def CountCond (s : State ν κ) (dst : ν) (data : RVRData) : Prop :=
  s.raftState dst = .candidate ∧ data.term = s.currentTerm dst

instance (s : State ν κ) (dst : ν) (data : RVRData) : Decidable (CountCond s dst data) :=
  inferInstanceAs (Decidable (_ ∧ _))

/-- `HandleMsgRVR(m)`, `data` being `m.data`. The branch of a counted vote that is
no quorum says nothing about `raftState'`. -/
def HandleMsgRVR [Fintype ν] (s : State ν κ) (m : Msg ν Body) (data : RVRData)
    (s' : State ν κ) : Prop :=
  (if CountCond s m.dst data then
      AddVotesCount s m.dst s'
        ∧ if CheckVotesCountIsQuorum m.dst s' then
            s'.raftState = Function.update s.raftState m.dst .leader
              ∧ UnchangedLeaderVars s s'
              ∧ NetUpdate2 s (netDelMsg s.net.toVars m) (.handleMsgRVRBecomeLeader m.dst m.src) s'
          else
            UnchangedLeaderVars s s'
              ∧ NetUpdate2 s (netDelMsg s.net.toVars m) (.handleMsgRVRNotQuorum m.dst m.src) s'
    else
      s'.raftState = s.raftState ∧ UnchangedCandidateVars s s' ∧ UnchangedLeaderVars s s'
        ∧ NetUpdate2 s (netDelMsg s.net.toVars m)
            (.handleMsgRVRNotCandidateOrTermNotEqual m.dst m.src) s')
    ∧ s'.currentTerm = s.currentTerm ∧ s'.votedFor = s.votedFor ∧ UnchangedLogVars s s'

/-! ### Election timeout -/

/-- One round of the function `F` of `ElectionTimeout(n)`: the request to one
more destination, and the destinations that remain. -/
def electionRound (pick : Choose ν) (n : ν) (data : RVData)
    (f : List (Send ν Body) × Finset ν) : List (Send ν Body) × Finset ν :=
  if h : f.2.Nonempty then
    let s := pick.pick f.2 h
    let m := ⟨n, s, .rv data⟩
    (f.1 ++ [m], f.2 \ {s})
  else f

/-- `F[i]` of `ElectionTimeout(n)`. -/
def electionF (pick : Choose ν) (n : ν) (data : RVData) (dsts : Finset ν) :
    ℕ → List (Send ν Body) × Finset ν
  | 0 => ([], dsts)
  | i + 1 => electionRound pick n data (electionF pick n data dsts i)

/-- `ElectionTimeout(n)`. -/
def ElectionTimeout [Fintype ν] (pick : Choose ν) (s : State ν κ) (n : ν) (s' : State ν κ) :
    Prop :=
  SetState s n .candidate s'
    ∧ AddCurrentTerm s n s'
    ∧ ResetCandidateVotesCount s n s'
    ∧ SetVotedFor s n n s'
    ∧ let dsts := Finset.univ \ {n}
      let size := dsts.card
      let data : RVData := ⟨s'.currentTerm n, getCurrentLogIdx s n, getCurrentLogTerm s n⟩
      let F := electionF pick n data dsts
      NetUpdate2 s (.ok (netBatchAddMsg s.net.toVars (F size).1)) (.electionTimeout n) s'
        ∧ (F size).2.card = 0
        ∧ UnchangedLeaderVars s s' ∧ UnchangedLogVars s s'

/-! ### Next actions -/

/-- An action with its parameters. -/
inductive Action (ν : Type) where
  | handleMsgRV (src dst : ν)
  | handleMsgRVR (src dst : ν)
  | electionTimeout (n : ν)
  | networkPartition (n : ν)
  | networkCure
  deriving DecidableEq, Repr

/-- The constants of the network module. -/
def netParams (pick : Choose ν) : Params ν where
  flushDisconn := true
  pick := pick

/-- The body of each `Do...` action for given parameters. -/
def NextBy [Fintype ν] (pick : Choose ν) (s : State ν κ) : Action ν → State ν κ → Prop
  | .handleMsgRV src dst, s' =>
      src ≠ dst ∧ ∃ m, netGetMsg s.net.toVars src dst = some m
        ∧ ∃ data, m.body = .rv data ∧ HandleMsgRV s m data s'
  | .handleMsgRVR src dst, s' =>
      src ≠ dst ∧ ∃ m, netGetMsg s.net.toVars src dst = some m
        ∧ ∃ data, m.body = .rvr data ∧ HandleMsgRVR s m data s'
  | .electionTimeout n, s' => ElectionTimeout pick s n s'
  | .networkPartition n, s' =>
      NetUpdate2 s (.ok (netPartConn (netParams pick) s.net.toVars {n}))
          (.doNetworkPartition (some n)) s'
        ∧ UnchangedNoNetVars s s'
  | .networkCure, s' =>
      NetUpdate2 s (.ok (netCureConn s.net.toVars)) (.doNetworkPartition none) s'
        ∧ UnchangedNoNetVars s s'

/-- `Next`: some action is taken. -/
def Next [Fintype ν] (pick : Choose ν) (s s' : State ν κ) : Prop :=
  (∃ src dst, NextBy pick s (.handleMsgRV src dst) s')
    ∨ (∃ src dst, NextBy pick s (.handleMsgRVR src dst) s')
    ∨ (∃ n, NextBy pick s (.electionTimeout n) s')
    ∨ (∃ n, NextBy pick s (.networkPartition n) s')
    ∨ NextBy pick s .networkCure s'

/-- `Spec`: it starts in `Init`, and a step is an action of `Next`. A stuttering
step visits no other state and is left out. -/
def spec [Fintype ν] (pick : Choose ν) : System (State ν κ) (Action ν) where
  init s := s = init
  step := NextBy pick

/-- The steps of `spec` are those of `Next`. -/
theorem next_iff [Fintype ν] {pick : Choose ν} {s s' : State ν κ} :
    Next pick s s' ↔ ∃ a, (spec pick).step s a s' := by
  constructor
  · rintro (⟨src, dst, h⟩ | ⟨src, dst, h⟩ | ⟨n, h⟩ | ⟨n, h⟩ | h)
    · exact ⟨.handleMsgRV src dst, h⟩
    · exact ⟨.handleMsgRVR src dst, h⟩
    · exact ⟨.electionTimeout n, h⟩
    · exact ⟨.networkPartition n, h⟩
    · exact ⟨.networkCure, h⟩
  · rintro ⟨a, h⟩
    cases a with
    | handleMsgRV src dst => exact Or.inl ⟨src, dst, h⟩
    | handleMsgRVR src dst => exact Or.inr (Or.inl ⟨src, dst, h⟩)
    | electionTimeout n => exact Or.inr (Or.inr (Or.inl ⟨n, h⟩))
    | networkPartition n => exact Or.inr (Or.inr (Or.inr (Or.inl ⟨n, h⟩)))
    | networkCure => exact Or.inr (Or.inr (Or.inr (Or.inr h)))

/-! ### Invariants -/

/-- `AtMostOneLeaderPerTerm`. -/
def AtMostOneLeaderPerTerm (s : State ν κ) : Prop :=
  ¬ ∃ i j, i ≠ j ∧ s.currentTerm i = s.currentTerm j
    ∧ s.raftState i = .leader ∧ s.raftState j = .leader

end Tmet.PySyncObj
