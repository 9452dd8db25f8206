import Tmet.PySyncObjTLA.PySyncObj
import Tmet.Proofs.FifoNetwork.Steps

/-!
# `Tmet.Proofs.PySyncObj.Actions`: the successors of each action

`Effect pick s a s'` lists the eight things a step of `Next` can be, each with
its guard on `s` alone and the successor written out as a state.
`nextBy_iff_effect` says that this is exactly the relation `NextBy`. Later
modules only use the list.

The network part of a step is one API call (`NetCall`). `NetCall.pending_le` is
what the invariants need from it: on a channel, the requests and replies that are
there after the call, together with the one the call has handed over, were there
before or are sent by the call.
-/

set_option autoImplicit false

namespace Tmet.PySyncObj

open Tmet.Lib
open Tmet.FifoNetwork

variable {ν κ : Type}

/-! ### The network part of a step -/

/-- The message without its number. -/
def unnumbered (m : Msg ν Body) : Send ν Body := ⟨m.src, m.dst, m.body⟩

theorem map_unnumbered_numbered (n : ℕ) (ms : List (Send ν Body)) :
    (numbered n ms).map unnumbered = ms := by
  induction ms generalizing n with
  | nil => rfl
  | cons m ms ih => rw [numbered, List.map_cons, ih, unnumbered]

/-- How often `x` is in the channel from `a` to `b`. -/
def pending (v : Vars ν Body) (x : Body) (a b : ν) : ℕ :=
  ((chan v.msgs a b).map Wired.body).count x

/-- A message waits in a channel if and only if its body is there at least once. -/
theorem pending_pos_iff {v : Vars ν Body} {x : Body} {a b : ν} :
    0 < pending v x a b ↔ ∃ w ∈ chan v.msgs a b, w.body = x := by
  rw [pending, List.count_pos_iff, List.mem_map]

theorem pending_pos_of_netGetMsg {v : Vars ν Body} {a b : ν} {m : Msg ν Body}
    (h : netGetMsg v a b = some m) : 0 < pending v m.body a b := by
  obtain ⟨rfl, rfl, rest, hc⟩ := getMsg_eq_some_iff.mp h
  refine pending_pos_iff.mpr ⟨m.wired, ?_, rfl⟩
  rw [chan, hc]
  exact List.mem_cons_self

/-- A channel has one head. -/
theorem body_unique {v : Vars ν Body} {a b : ν} {m m' : Msg ν Body} {x x' : Body}
    (hm : netGetMsg v a b = some m) (hx : m.body = x) (hm' : netGetMsg v a b = some m')
    (hx' : m'.body = x') : x = x' := by
  obtain rfl := Option.some.inj (hm.symm.trans hm')
  exact hx.symm.trans hx'

/-- A partition or a cure changes the network only. -/
theorem unchangedNoNetVars_iff {s s' : State ν κ} :
    UnchangedNoNetVars s s' ↔ s' = { s with net := s'.net } := by
  constructor
  · rintro ⟨⟨hterm, hvoted, hraft⟩, ⟨hnext, hmatch⟩, hvotes, hlog, hcommit⟩
    exact State.ext hterm hvoted hraft hnext hmatch hvotes hlog hcommit rfl
  · intro hs'
    rw [hs']
    exact ⟨⟨rfl, rfl, rfl⟩, ⟨rfl, rfl⟩, rfl, rfl, rfl⟩

variable [DecidableEq ν]

/-- `net'` is what the call `op` makes of the network, under the label `cmd`. -/
def NetCall (pick : Choose ν) (s : State ν κ) (op : Op ν Body (Cmd ν)) (cmd : Cmd ν)
    (net' : Net ν Body (Cmd ν)) : Prop :=
  ∃ args, op.args (netParams pick) s.net.toVars = .ok args
    ∧ net' = netUpdate2 s.net.toVars args cmd

variable {pick : Choose ν} {s s' : State ν κ}

/-- A call has one result. -/
theorem NetCall.unique {op : Op ν Body (Cmd ν)} {cmd : Cmd ν} {net₁ net₂ : Net ν Body (Cmd ν)}
    (h₁ : NetCall pick s op cmd net₁) (h₂ : NetCall pick s op cmd net₂) : net₁ = net₂ := by
  obtain ⟨args₁, hargs₁, rfl⟩ := h₁
  obtain ⟨args₂, hargs₂, rfl⟩ := h₂
  rw [hargs₁] at hargs₂
  obtain rfl := Except.ok.inj hargs₂
  rfl

theorem count_body_onChan (ms : List (Msg ν Body)) (x : Body) (a b : ν) :
    ((onChan a b ms).map Msg.body).count x = (ms.map unnumbered).count ⟨a, b, x⟩ := by
  induction ms with
  | nil => rfl
  | cons m ms ih =>
      -- the message is on the channel, or counts on neither side
      by_cases hab : m.src = a ∧ m.dst = b
      · obtain ⟨rfl, rfl⟩ := hab
        have hcons : onChan m.src m.dst (m :: ms) = m :: onChan m.src m.dst ms := by
          simp [onChan]
        rw [hcons, List.map_cons, List.map_cons, List.count_cons, List.count_cons, ih]
        simp [unnumbered]
      · have hcons : onChan a b (m :: ms) = onChan a b ms := by
          simp [onChan, hab]
        have hne : unnumbered m ≠ ⟨a, b, x⟩ := fun h =>
          hab ⟨congrArg Send.src h, congrArg Send.dst h⟩
        rw [hcons, List.map_cons, List.count_cons_of_ne hne, ih]

/-- How often a call hands over `x` from `a` to `b`. -/
def handedOver (v : Vars ν Body) (op : Op ν Body (Cmd ν)) (x : Body) (a b : ν) : ℕ :=
  ((op.delivered v).map unnumbered).count ⟨a, b, x⟩

/-- On one channel a call makes nothing of its own: what is there afterwards and
what it hands over was there before or is among the messages it sends. -/
theorem NetCall.pending_le {op : Op ν Body (Cmd ν)} {cmd : Cmd ν} {net' : Net ν Body (Cmd ν)}
    (h : NetCall pick s op cmd net') (x : Body) (a b : ν) :
    handedOver s.net.toVars op x a b + pending net'.toVars x a b
      ≤ pending s.net.toVars x a b + (op.sends s.net.toVars).count ⟨a, b, x⟩ := by
  obtain ⟨args, hargs, rfl⟩ := h
  have heff := Op.apply_effect hargs
  show _ + pending (args.apply s.net.toVars) x a b ≤ _
  rcases heff.traffic_or_reconnected with ⟨-, heq⟩ | hre
  · have hsub := ((op.sublist_traffic s.net.toVars a b).map Wired.body).count_le x
    have hbody : Wired.body ∘ Msg.wired = (Msg.body : Msg ν Body → Body) := rfl
    rw [List.map_append, List.map_append, List.map_map, List.map_map, List.count_append,
      List.count_append, hbody, count_body_onChan, count_body_onChan] at hsub
    -- the accepted messages are some of those sent
    have hacc : ((op.accepted s.net.toVars).map unnumbered).count ⟨a, b, x⟩
        ≤ (op.sends s.net.toVars).count ⟨a, b, x⟩ := by
      rw [Op.accepted, map_unnumbered_numbered]
      exact List.filter_sublist.count_le _
    rw [heq]
    exact hsub.trans (Nat.add_le_add_left hacc _)
  · obtain ⟨-, hdel⟩ := hre.reconnects.moves_nothing s.net.toVars
    have hsub := ((hre.sublist a b).map Wired.body).count_le x
    rw [handedOver, hdel]
    show 0 + _ ≤ _
    rw [Nat.zero_add]
    exact hsub.trans (Nat.le_add_right _ _)

/-- A call adds no copy of a message that it does not send. -/
theorem NetCall.pending_le_of_not_mem {op : Op ν Body (Cmd ν)} {cmd : Cmd ν}
    {net' : Net ν Body (Cmd ν)} (h : NetCall pick s op cmd net') {x : Body} {a b : ν}
    (hmem : (⟨a, b, x⟩ : Send ν Body) ∉ op.sends s.net.toVars) :
    handedOver s.net.toVars op x a b + pending net'.toVars x a b
      ≤ pending s.net.toVars x a b := by
  have hle := h.pending_le x a b
  rw [List.count_eq_zero_of_not_mem hmem] at hle
  exact hle

/-- A message in a channel after a call was there before or is sent by the call. -/
theorem NetCall.pending_pos {op : Op ν Body (Cmd ν)} {cmd : Cmd ν} {net' : Net ν Body (Cmd ν)}
    (h : NetCall pick s op cmd net') {x : Body} {a b : ν} (hpos : 0 < pending net'.toVars x a b) :
    0 < pending s.net.toVars x a b ∨ (⟨a, b, x⟩ : Send ν Body) ∈ op.sends s.net.toVars := by
  by_cases hmem : (⟨a, b, x⟩ : Send ν Body) ∈ op.sends s.net.toVars
  · exact Or.inr hmem
  · have hle := h.pending_le_of_not_mem hmem
    exact Or.inl (by omega)

/-- The call that deletes the head of a channel. -/
theorem netUpdate2_netDelMsg_iff {src dst : ν} {m : Msg ν Body}
    (hm : netGetMsg s.net.toVars src dst = some m) {cmd : Cmd ν} :
    NetUpdate2 s (netDelMsg s.net.toVars m) cmd s'
      ↔ NetCall pick s (.delMsg src dst) cmd s'.net := by
  have hargs : Op.args (netParams pick) s.net.toVars (.delMsg src dst : Op ν Body (Cmd ν))
      = netDelMsg s.net.toVars m := by
    simp only [Op.args, hm]
  unfold NetUpdate2 NetCall
  rw [hargs]

/-- The call that replies to the head of a channel. -/
theorem netUpdate2_netReplyMsg_iff {src dst : ν} {m : Msg ν Body}
    (hm : netGetMsg s.net.toVars src dst = some m) {cmd : Cmd ν} {response : Body} :
    NetUpdate2 s (netReplyMsg s.net.toVars response m) cmd s'
      ↔ NetCall pick s (.replyMsg src dst response) cmd s'.net := by
  have hargs : Op.args (netParams pick) s.net.toVars
      (.replyMsg src dst response : Op ν Body (Cmd ν))
      = netReplyMsg s.net.toVars response m := by
    simp only [Op.args, hm]
  unfold NetUpdate2 NetCall
  rw [hargs]

/-! ### The branch conditions on the state before the step -/

/-- `HandleMsgRV` votes: the condition `VoteCond`, without the primed term. -/
def Grants (s : State ν κ) (n : ν) (data : RVData) : Prop :=
  s.raftState n ≠ .leader
    ∧ s.currentTerm n ≤ data.term
    ∧ ¬ (data.lastLogTerm < getCurrentLogTerm s n
      ∨ (data.lastLogTerm = getCurrentLogTerm s n ∧ data.lastLogIdx < getCurrentLogIdx s n))
    ∧ (s.currentTerm n < data.term ∨ s.votedFor n = none)

/-- `HandleMsgRVR` counts a vote that makes a quorum. -/
def Wins [Fintype ν] (s : State ν κ) (n : ν) (data : RVRData) : Prop :=
  CountCond s n data ∧ Fintype.card ν < (s.votesCount n + 1) * 2

/-- `HandleMsgRVR` counts a vote that makes no quorum. -/
def FallsShort [Fintype ν] (s : State ν κ) (n : ν) (data : RVRData) : Prop :=
  CountCond s n data ∧ ¬ Fintype.card ν < (s.votesCount n + 1) * 2

/-- The term and the state of `n` after it has seen `term`. -/
def seenTerm (s : State ν κ) (n : ν) (term : ℕ) : State ν κ :=
  { s with
      currentTerm := Function.update s.currentTerm n (max (s.currentTerm n) term)
      raftState :=
        if s.currentTerm n < term then Function.update s.raftState n .follower else s.raftState }

theorem checkTermBecomeFollower_iff {n : ν} {term : ℕ} :
    CheckTermBecomeFollower s n term s'
      ↔ s'.currentTerm = (seenTerm s n term).currentTerm
        ∧ s'.raftState = (seenTerm s n term).raftState := by
  unfold CheckTermBecomeFollower seenTerm SetCurrentTerm SetState
  by_cases h : s.currentTerm n < term
  · rw [if_pos h]
    simp [h, h.le]
  · have hmax : max (s.currentTerm n) term = s.currentTerm n := by omega
    rw [if_neg h]
    simp [h, hmax]

/-- The term of a server after it has seen a term is the greater of the two. -/
@[simp] theorem seenTerm_currentTerm (n : ν) (term : ℕ) :
    (seenTerm s n term).currentTerm n = max (s.currentTerm n) term :=
  Function.update_self _ _ _

theorem seenTerm_of_ne {n i : ν} (hi : i ≠ n) (term : ℕ) :
    (seenTerm s n term).currentTerm i = s.currentTerm i
      ∧ (seenTerm s n term).raftState i = s.raftState i := by
  refine ⟨Function.update_of_ne hi _ _, ?_⟩
  show (if s.currentTerm n < term then Function.update s.raftState n .follower
    else s.raftState) i = _
  split
  · exact Function.update_of_ne hi _ _
  · rfl

omit [DecidableEq ν] in
/-- Once the term is updated, `VoteCond` is a condition on the state before. -/
theorem voteCond_iff_grants {n : ν} {data : RVData}
    (hterm : s'.currentTerm n = max (s.currentTerm n) data.term) :
    VoteCond s n data s' ↔ Grants s n data := by
  unfold VoteCond Grants CheckTermNotVoted
  rw [hterm]
  by_cases hlt : s.currentTerm n < data.term
  · simp [hlt, hlt.le]
  · have hmax : max (s.currentTerm n) data.term = s.currentTerm n := by omega
    simp [hmax, hlt]
    tauto

/-- `HandleMsgRV` on the head of a channel votes or refuses. -/
theorem handleMsgRV_iff {src dst : ν} {m : Msg ν Body} {data : RVData}
    (hm : netGetMsg s.net.toVars src dst = some m) :
    HandleMsgRV s m data s'
      ↔ (Grants s dst data
          ∧ s' = { seenTerm s dst data.term with
                    votedFor := Function.update s.votedFor dst (some src)
                    net := s'.net }
          ∧ NetCall pick s (.replyMsg src dst (.rvr ⟨data.term⟩)) (.handleMsgRVVoted dst src)
              s'.net)
        ∨ (¬ Grants s dst data
          ∧ s' = { seenTerm s dst data.term with net := s'.net }
          ∧ NetCall pick s (.delMsg src dst) (.handleMsgRVNotVoted dst src) s'.net) := by
  rw [← netUpdate2_netReplyMsg_iff hm, ← netUpdate2_netDelMsg_iff hm]
  obtain ⟨rfl, rfl, -⟩ := getMsg_eq_some_iff.mp hm
  unfold HandleMsgRV
  rw [checkTermBecomeFollower_iff]
  -- the condition reads the term in the next state, which step-down has already fixed
  have hcond (hterm : s'.currentTerm = (seenTerm s m.dst data.term).currentTerm) :
      VoteCond s m.dst data s' ↔ Grants s m.dst data := by
    refine voteCond_iff_grants ?_
    rw [hterm, seenTerm_currentTerm]
  constructor
  · rintro ⟨⟨hterm, hraft⟩, h⟩
    by_cases hg : Grants s m.dst data
    · rw [if_pos ((hcond hterm).mpr hg)] at h
      obtain ⟨hvoted, ⟨hnext, hmatch⟩, hvotes, ⟨hlog, hcommit⟩, hnet⟩ := h
      exact Or.inl ⟨hg, State.ext hterm hvoted hraft hnext hmatch hvotes hlog hcommit rfl, hnet⟩
    · rw [if_neg fun hv => hg ((hcond hterm).mp hv)] at h
      obtain ⟨hvoted, ⟨hnext, hmatch⟩, hvotes, ⟨hlog, hcommit⟩, hnet⟩ := h
      exact Or.inr ⟨hg, State.ext hterm hvoted hraft hnext hmatch hvotes hlog hcommit rfl, hnet⟩
  -- the other way each variable is read off the state as a whole
  · rintro (⟨hg, hs', hnet⟩ | ⟨hg, hs', hnet⟩)
    · obtain ⟨hterm, hvoted, hraft, hnext, hmatch, hvotes, hlog, hcommit, -⟩ := State.ext_iff.mp hs'
      refine ⟨⟨hterm, hraft⟩, ?_⟩
      rw [if_pos ((hcond hterm).mpr hg)]
      exact ⟨hvoted, ⟨hnext, hmatch⟩, hvotes, ⟨hlog, hcommit⟩, hnet⟩
    · obtain ⟨hterm, hvoted, hraft, hnext, hmatch, hvotes, hlog, hcommit, -⟩ := State.ext_iff.mp hs'
      refine ⟨⟨hterm, hraft⟩, ?_⟩
      rw [if_neg fun hv => hg ((hcond hterm).mp hv)]
      exact ⟨hvoted, ⟨hnext, hmatch⟩, hvotes, ⟨hlog, hcommit⟩, hnet⟩

/-! ### The requests of a candidate -/

theorem electionF_eq_iterate (pick : Choose ν) (n : ν) (data : RVData) (dsts : Finset ν) (i : ℕ) :
    electionF pick n data dsts i = (electionRound pick n data)^[i] ([], dsts) := by
  induction i with
  | zero => rfl
  | succ i ih => rw [electionF, ih, Function.iterate_succ_apply']

/-- As many rounds as there are destinations reach every one of them once. -/
theorem iterate_electionRound (pick : Choose ν) (n : ν) (data : RVData) (k : ℕ)
    (ms : List (Send ν Body)) (dsts : Finset ν) (hk : dsts.card = k) :
    (electionRound pick n data)^[k] (ms, dsts)
      = (ms ++ (pick.order dsts).map fun p => ⟨n, p, .rv data⟩, ∅) := by
  -- `k` is the number of destinations left, so that each round takes one away
  induction k generalizing ms dsts with
  | zero =>
      obtain rfl := Finset.card_eq_zero.mp hk
      simp
  | succ k ih =>
      have hne : dsts.Nonempty := Finset.card_pos.mp (by omega)
      have hround : electionRound pick n data (ms, dsts)
          = (ms ++ [⟨n, pick.pick dsts hne, .rv data⟩], dsts.erase (pick.pick dsts hne)) := by
        unfold electionRound
        rw [dif_pos hne]
        show (_, dsts \ {pick.pick dsts hne}) = _
        rw [Finset.sdiff_singleton_eq_erase]
      have hcard : (dsts.erase (pick.pick dsts hne)).card = k := by
        rw [Finset.card_erase_of_mem (pick.pick_mem dsts hne), hk]
        rfl
      rw [Function.iterate_succ_apply, hround, ih _ _ hcard, pick.order_of_nonempty hne,
        List.map_cons, List.append_assoc]
      rfl

/-- The loop `F` sends one request to each destination and ends with none left. -/
theorem electionF_eq (pick : Choose ν) (n : ν) (data : RVData) (dsts : Finset ν) :
    electionF pick n data dsts dsts.card
      = ((pick.order dsts).map fun p => ⟨n, p, .rv data⟩, ∅) := by
  rw [electionF_eq_iterate, iterate_electionRound pick n data _ [] dsts rfl, List.nil_append]

variable [Fintype ν]

/-- What `n` puts into its requests when it times out in `s`. -/
def requestData (s : State ν κ) (n : ν) : RVData :=
  ⟨s.currentTerm n + 1, getCurrentLogIdx s n, getCurrentLogTerm s n⟩

/-- The requests of `n`, one to each other server. -/
def requests (pick : Choose ν) (s : State ν κ) (n : ν) : List (Send ν Body) :=
  (pick.order (Finset.univ \ {n})).map fun p => ⟨n, p, .rv (requestData s n)⟩

/-- A request of a timeout carries the term and the last entry of its sender. -/
theorem eq_requestData_of_mem {n a b : ν} {data : RVData}
    (h : (⟨a, b, .rv data⟩ : Send ν Body) ∈ requests pick s n) :
    a = n ∧ data = requestData s n := by
  obtain ⟨p, -, hp⟩ := List.mem_map.mp h
  simp only [Send.mk.injEq, Body.rv.injEq] at hp
  exact ⟨hp.1.symm, hp.2.2.symm⟩

/-- A timeout sends no replies. -/
theorem reply_not_mem_requests (n a b : ν) (data : RVRData) :
    (⟨a, b, .rvr data⟩ : Send ν Body) ∉ requests pick s n := by
  intro hmem
  obtain ⟨p, -, hp⟩ := List.mem_map.mp hmem
  simp at hp

/-! ### The steps of `Next` -/

/-- What a step can be: its action, its guard, its successor. -/
inductive Effect (pick : Choose ν) (s : State ν κ) : Action ν → State ν κ → Prop
  | vote (src dst : ν) (m : Msg ν Body) (data : RVData) (net' : Net ν Body (Cmd ν))
      (hne : src ≠ dst) (hm : netGetMsg s.net.toVars src dst = some m) (hbody : m.body = .rv data)
      (hgrants : Grants s dst data)
      (hnet : NetCall pick s (.replyMsg src dst (.rvr ⟨data.term⟩)) (.handleMsgRVVoted dst src)
        net') :
      Effect pick s (.handleMsgRV src dst)
        { seenTerm s dst data.term with
            votedFor := Function.update s.votedFor dst (some src)
            net := net' }
  | refuse (src dst : ν) (m : Msg ν Body) (data : RVData) (net' : Net ν Body (Cmd ν))
      (hne : src ≠ dst) (hm : netGetMsg s.net.toVars src dst = some m) (hbody : m.body = .rv data)
      (hgrants : ¬ Grants s dst data)
      (hnet : NetCall pick s (.delMsg src dst) (.handleMsgRVNotVoted dst src) net') :
      Effect pick s (.handleMsgRV src dst) { seenTerm s dst data.term with net := net' }
  | becomeLeader (src dst : ν) (m : Msg ν Body) (data : RVRData) (net' : Net ν Body (Cmd ν))
      (hne : src ≠ dst) (hm : netGetMsg s.net.toVars src dst = some m) (hbody : m.body = .rvr data)
      (hwins : Wins s dst data)
      (hnet : NetCall pick s (.delMsg src dst) (.handleMsgRVRBecomeLeader dst src) net') :
      Effect pick s (.handleMsgRVR src dst)
        { s with
            raftState := Function.update s.raftState dst .leader
            votesCount := Function.update s.votesCount dst (s.votesCount dst + 1)
            net := net' }
  -- `raftState'` is whatever the next state has
  | notQuorum (src dst : ν) (m : Msg ν Body) (data : RVRData) (net' : Net ν Body (Cmd ν))
      (raftState' : ν → RaftState)
      (hne : src ≠ dst) (hm : netGetMsg s.net.toVars src dst = some m) (hbody : m.body = .rvr data)
      (hshort : FallsShort s dst data)
      (hnet : NetCall pick s (.delMsg src dst) (.handleMsgRVRNotQuorum dst src) net') :
      Effect pick s (.handleMsgRVR src dst)
        { s with
            raftState := raftState'
            votesCount := Function.update s.votesCount dst (s.votesCount dst + 1)
            net := net' }
  | ignore (src dst : ν) (m : Msg ν Body) (data : RVRData) (net' : Net ν Body (Cmd ν))
      (hne : src ≠ dst) (hm : netGetMsg s.net.toVars src dst = some m) (hbody : m.body = .rvr data)
      (hcount : ¬ CountCond s dst data)
      (hnet : NetCall pick s (.delMsg src dst) (.handleMsgRVRNotCandidateOrTermNotEqual dst src)
        net') :
      Effect pick s (.handleMsgRVR src dst) { s with net := net' }
  | timeout (n : ν) (net' : Net ν Body (Cmd ν))
      (hnet : NetCall pick s (.batchAddMsg (requests pick s n)) (.electionTimeout n) net') :
      Effect pick s (.electionTimeout n)
        { s with
            currentTerm := Function.update s.currentTerm n (s.currentTerm n + 1)
            votedFor := Function.update s.votedFor n (some n)
            raftState := Function.update s.raftState n .candidate
            votesCount := Function.update s.votesCount n 1
            net := net' }
  | partition (n : ν) (net' : Net ν Body (Cmd ν))
      (hnet : NetCall pick s (.partConn {n}) (.doNetworkPartition (some n)) net') :
      Effect pick s (.networkPartition n) { s with net := net' }
  | cure (net' : Net ν Body (Cmd ν))
      (hnet : NetCall pick s .cureConn (.doNetworkPartition none) net') :
      Effect pick s .networkCure { s with net := net' }

/-- `HandleMsgRVR` on the head of a channel counts the vote and wins, counts it
and leaves `raftState'` open, or ignores it. -/
theorem handleMsgRVR_iff {src dst : ν} {m : Msg ν Body} {data : RVRData}
    (hm : netGetMsg s.net.toVars src dst = some m) :
    HandleMsgRVR s m data s'
      ↔ (Wins s dst data
          ∧ s' = { s with
                    raftState := Function.update s.raftState dst .leader
                    votesCount := Function.update s.votesCount dst (s.votesCount dst + 1)
                    net := s'.net }
          ∧ NetCall pick s (.delMsg src dst) (.handleMsgRVRBecomeLeader dst src) s'.net)
        ∨ (FallsShort s dst data
          ∧ s' = { s with
                    raftState := s'.raftState
                    votesCount := Function.update s.votesCount dst (s.votesCount dst + 1)
                    net := s'.net }
          ∧ NetCall pick s (.delMsg src dst) (.handleMsgRVRNotQuorum dst src) s'.net)
        ∨ (¬ CountCond s dst data
          ∧ s' = { s with net := s'.net }
          ∧ NetCall pick s (.delMsg src dst) (.handleMsgRVRNotCandidateOrTermNotEqual dst src)
              s'.net) := by
  simp only [← netUpdate2_netDelMsg_iff hm]
  obtain ⟨rfl, rfl, -⟩ := getMsg_eq_some_iff.mp hm
  unfold HandleMsgRVR
  -- the quorum is tested on `votesCount'`, which already has the new vote
  have hquorum (hvotes : AddVotesCount s m.dst s') :
      CheckVotesCountIsQuorum m.dst s' ↔ Fintype.card ν < (s.votesCount m.dst + 1) * 2 := by
    unfold CheckVotesCountIsQuorum
    rw [hvotes, Function.update_self]
  constructor
  · rintro ⟨h, hterm, hvoted, hlog, hcommit⟩
    by_cases hcount : CountCond s m.dst data
    · rw [if_pos hcount] at h
      obtain ⟨hvotes, h⟩ := h
      by_cases hq : CheckVotesCountIsQuorum m.dst s'
      · rw [if_pos hq] at h
        obtain ⟨hraft, ⟨hnext, hmatch⟩, hnet⟩ := h
        exact Or.inl ⟨⟨hcount, (hquorum hvotes).mp hq⟩,
          State.ext hterm hvoted hraft hnext hmatch hvotes hlog hcommit rfl, hnet⟩
      · rw [if_neg hq] at h
        -- here the specification leaves `raftState'` open
        obtain ⟨⟨hnext, hmatch⟩, hnet⟩ := h
        exact Or.inr (Or.inl ⟨⟨hcount, fun hlt => hq ((hquorum hvotes).mpr hlt)⟩,
          State.ext hterm hvoted rfl hnext hmatch hvotes hlog hcommit rfl, hnet⟩)
    · rw [if_neg hcount] at h
      obtain ⟨hraft, hvotes, ⟨hnext, hmatch⟩, hnet⟩ := h
      exact Or.inr (Or.inr ⟨hcount,
        State.ext hterm hvoted hraft hnext hmatch hvotes hlog hcommit rfl, hnet⟩)
  · rintro (⟨⟨hcount, hlt⟩, hs', hnet⟩ | ⟨⟨hcount, hlt⟩, hs', hnet⟩ | ⟨hcount, hs', hnet⟩)
    · obtain ⟨hterm, hvoted, hraft, hnext, hmatch, hvotes, hlog, hcommit, -⟩ := State.ext_iff.mp hs'
      refine ⟨?_, hterm, hvoted, hlog, hcommit⟩
      rw [if_pos hcount, if_pos ((hquorum hvotes).mpr hlt)]
      exact ⟨hvotes, hraft, ⟨hnext, hmatch⟩, hnet⟩
    · obtain ⟨hterm, hvoted, hraft, hnext, hmatch, hvotes, hlog, hcommit, -⟩ := State.ext_iff.mp hs'
      refine ⟨?_, hterm, hvoted, hlog, hcommit⟩
      rw [if_pos hcount, if_neg fun hq => hlt ((hquorum hvotes).mp hq)]
      exact ⟨hvotes, ⟨hnext, hmatch⟩, hnet⟩
    · obtain ⟨hterm, hvoted, hraft, hnext, hmatch, hvotes, hlog, hcommit, -⟩ := State.ext_iff.mp hs'
      refine ⟨?_, hterm, hvoted, hlog, hcommit⟩
      rw [if_neg hcount]
      exact ⟨hraft, hvotes, ⟨hnext, hmatch⟩, hnet⟩

/-- `ElectionTimeout(n)` has one successor; its assertion holds. -/
theorem electionTimeout_iff {n : ν} :
    ElectionTimeout pick s n s'
      ↔ s' = { s with
                currentTerm := Function.update s.currentTerm n (s.currentTerm n + 1)
                votedFor := Function.update s.votedFor n (some n)
                raftState := Function.update s.raftState n .candidate
                votesCount := Function.update s.votesCount n 1
                net := s'.net }
        ∧ NetCall pick s (.batchAddMsg (requests pick s n)) (.electionTimeout n) s'.net := by
  unfold ElectionTimeout
  constructor
  · rintro ⟨hraft, hterm, hvotes, hvoted, hnet, -, ⟨hnext, hmatch⟩, hlog, hcommit⟩
    refine ⟨State.ext hterm hvoted hraft hnext hmatch hvotes hlog hcommit rfl, ?_⟩
    rw [hterm, Function.update_self, electionF_eq] at hnet
    exact hnet
  · rintro ⟨hs', hnet⟩
    obtain ⟨hterm, hvoted, hraft, hnext, hmatch, hvotes, hlog, hcommit, -⟩ := State.ext_iff.mp hs'
    refine ⟨hraft, hterm, hvotes, hvoted, ?_, ?_, ⟨hnext, hmatch⟩, hlog, hcommit⟩
    -- the requests carry the new term
    · have hnew : s'.currentTerm n = s.currentTerm n + 1 := by
        rw [hterm]
        exact Function.update_self _ _ _
      rw [hnew, electionF_eq]
      exact hnet
    · rw [electionF_eq]
      rfl

/-- `Effect` lists the steps of `Next`. -/
theorem nextBy_iff_effect {a : Action ν} : NextBy pick s a s' ↔ Effect pick s a s' := by
  cases a with
  | handleMsgRV src dst =>
      constructor
      · rintro ⟨hne, m, hm, data, hbody, h⟩
        rcases (handleMsgRV_iff hm).mp h with ⟨hg, hs', hnet⟩ | ⟨hg, hs', hnet⟩
        · rw [hs']
          exact .vote src dst m data _ hne hm hbody hg hnet
        · rw [hs']
          exact .refuse src dst m data _ hne hm hbody hg hnet
      · intro h
        cases h with
        | vote _ _ m data net' hne hm hbody hg hnet =>
            exact ⟨hne, m, hm, data, hbody, (handleMsgRV_iff hm).mpr (Or.inl ⟨hg, rfl, hnet⟩)⟩
        | refuse _ _ m data net' hne hm hbody hg hnet =>
            exact ⟨hne, m, hm, data, hbody, (handleMsgRV_iff hm).mpr (Or.inr ⟨hg, rfl, hnet⟩)⟩
  | handleMsgRVR src dst =>
      constructor
      · rintro ⟨hne, m, hm, data, hbody, h⟩
        rcases (handleMsgRVR_iff hm).mp h with
          ⟨hw, hs', hnet⟩ | ⟨hw, hs', hnet⟩ | ⟨hc, hs', hnet⟩
        · rw [hs']
          exact .becomeLeader src dst m data _ hne hm hbody hw hnet
        · rw [hs']
          exact .notQuorum src dst m data _ _ hne hm hbody hw hnet
        · rw [hs']
          exact .ignore src dst m data _ hne hm hbody hc hnet
      · intro h
        cases h with
        | becomeLeader _ _ m data net' hne hm hbody hw hnet =>
            exact ⟨hne, m, hm, data, hbody, (handleMsgRVR_iff hm).mpr (Or.inl ⟨hw, rfl, hnet⟩)⟩
        | notQuorum _ _ m data net' raftState' hne hm hbody hw hnet =>
            exact ⟨hne, m, hm, data, hbody,
              (handleMsgRVR_iff hm).mpr (Or.inr (Or.inl ⟨hw, rfl, hnet⟩))⟩
        | ignore _ _ m data net' hne hm hbody hc hnet =>
            exact ⟨hne, m, hm, data, hbody,
              (handleMsgRVR_iff hm).mpr (Or.inr (Or.inr ⟨hc, rfl, hnet⟩))⟩
  | electionTimeout n =>
      constructor
      · intro h
        obtain ⟨hs', hnet⟩ := electionTimeout_iff.mp h
        rw [hs']
        exact .timeout n _ hnet
      · intro h
        cases h with
        | timeout _ net' hnet => exact electionTimeout_iff.mpr ⟨rfl, hnet⟩
  | networkPartition n =>
      constructor
      · rintro ⟨hnet, hframe⟩
        rw [unchangedNoNetVars_iff.mp hframe]
        exact .partition n _ hnet
      · intro h
        cases h with
        | partition _ net' hnet => exact ⟨hnet, unchangedNoNetVars_iff.mpr rfl⟩
  | networkCure =>
      constructor
      · rintro ⟨hnet, hframe⟩
        rw [unchangedNoNetVars_iff.mp hframe]
        exact .cure _ hnet
      · intro h
        cases h with
        | cure net' hnet => exact ⟨hnet, unchangedNoNetVars_iff.mpr rfl⟩

/-! ### A run with one candidate -/

instance (s : State ν κ) (n : ν) (data : RVData) : Decidable (Grants s n data) :=
  inferInstanceAs (Decidable (_ ∧ _ ∧ ¬ (_ ∨ _) ∧ (_ ∨ _)))

instance (s : State ν κ) (n : ν) (data : RVRData) : Decidable (Wins s n data) :=
  inferInstanceAs (Decidable (_ ∧ _))

instance (s : State ν κ) (n : ν) (data : RVRData) : Decidable (FallsShort s n data) :=
  inferInstanceAs (Decidable (_ ∧ _))

/-- What a call makes of the network; nothing, if it stops. -/
def afterCall (pick : Choose ν) (s : State ν κ) (op : Op ν Body (Cmd ν)) (cmd : Cmd ν) :
    Net ν Body (Cmd ν) :=
  match op.args (netParams pick) s.net.toVars with
  | .ok args => netUpdate2 s.net.toVars args cmd
  | .error _ => s.net

omit [Fintype ν] in
theorem netCall_afterCall {op : Op ν Body (Cmd ν)} (cmd : Cmd ν)
    (h : (op.args (netParams pick) s.net.toVars).toBool = true) :
    NetCall pick s op cmd (afterCall pick s op cmd) := by
  unfold afterCall
  cases hargs : op.args (netParams pick) s.net.toVars with
  | ok args => exact ⟨args, hargs, rfl⟩
  | error e =>
      rw [hargs] at h
      exact absurd h Bool.false_ne_true

/-- With `N + 2` servers: server `0` times out, -/
def timedOut (N : ℕ) : State (Fin (N + 2)) Unit :=
  let s : State (Fin (N + 2)) Unit := init
  let pick := Choose.smallest (Fin (N + 2))
  { s with
      currentTerm := Function.update s.currentTerm 0 (s.currentTerm 0 + 1)
      votedFor := Function.update s.votedFor 0 (some 0)
      raftState := Function.update s.raftState 0 .candidate
      votesCount := Function.update s.votesCount 0 1
      net := afterCall pick s (.batchAddMsg (requests pick s 0)) (.electionTimeout 0) }

/-- and server `1` votes for it. -/
def voted (N : ℕ) : State (Fin (N + 2)) Unit :=
  { seenTerm (timedOut N) 1 1 with
      votedFor := Function.update (timedOut N).votedFor 1 (some 0)
      net := afterCall (.smallest _) (timedOut N) (.replyMsg 0 1 (.rvr ⟨1⟩))
        (.handleMsgRVVoted 1 0) }

/-- The history up to there. -/
def candidacy (N : ℕ) : List (Step (State (Fin (N + 2)) Unit) (Action (Fin (N + 2)))) :=
  [⟨init, .electionTimeout 0, timedOut N⟩, ⟨timedOut N, .handleMsgRV 0 1, voted N⟩]

/-- The request server `1` answers. -/
def firstRequest (N : ℕ) : Msg (Fin (N + 2)) Body := ⟨0, 1, 1, .rv ⟨1, 0, 1⟩⟩

theorem run_candidacy {N : ℕ} (hne : (0 : Fin (N + 2)) ≠ 1)
    (hm : netGetMsg (timedOut N).net.toVars 0 1 = some (firstRequest N))
    (hgrants : Grants (timedOut N) 1 ⟨1, 0, 1⟩)
    (hcall : (Op.args (netParams (.smallest _)) (timedOut N).net.toVars
      (.replyMsg 0 1 (.rvr ⟨1⟩) : Op (Fin (N + 2)) Body (Cmd (Fin (N + 2))))).toBool = true) :
    (spec (.smallest _)).Run (candidacy N) (voted N) := by
  have htimeout : Effect (.smallest _) init (.electionTimeout 0) (timedOut N) :=
    .timeout 0 _ (netCall_afterCall _ rfl)
  have hvote : Effect (.smallest _) (timedOut N) (.handleMsgRV 0 1) (voted N) :=
    .vote 0 1 (firstRequest N) ⟨1, 0, 1⟩ _ hne hm rfl hgrants (netCall_afterCall _ hcall)
  exact .snoc (.snoc (.nil rfl) (nextBy_iff_effect.mpr htimeout)) (nextBy_iff_effect.mpr hvote)

end Tmet.PySyncObj
