import Tmet.Proofs.PySyncObj.Actions

/-!
# `Tmet.Proofs.PySyncObj.Votes`: votes cast, in flight and counted

The history of a run says which votes have been cast (`ballots`: voter, term,
candidate) and which have been counted (`tallies`). Two steps cast a vote: a
server votes for itself when it times out, and for a candidate in the voting
branch of `HandleMsgRV`.

`VoteStep` says what one step does as far as votes are concerned, and
`Effect.voteStep` derives it for every action. `VoteInv` is the invariant:

* a server votes once in a term (`once`), never for a term above its own
  (`term_le`), and its vote in its own term is its `votedFor` (`current`);
* a candidate has voted for itself (`self`), and so has the sender of a request
  (`request`);
* a vote is counted, or its reply is in flight, at most as often as it was cast
  (`reply`);
* a candidate's `votesCount` is one more than the votes counted for it in its
  term (`votesCount`).

Nothing here depends on `raftState`, so the invariant holds also after steps that
leave `raftState'` open.
-/

set_option autoImplicit false

namespace Tmet.PySyncObj

open Tmet.Lib
open Tmet.FifoNetwork

variable {ν κ : Type}

/-! ### Votes in the history -/

/-- The vote a step casts: the voter, the term, the candidate. -/
def voteCast (t : Step (State ν κ) (Action ν)) : Option (ν × ℕ × ν) :=
  match t.act with
  | .handleMsgRV src dst =>
      match (netGetMsg t.src.net.toVars src dst).map Msg.body with
      | some (.rv data) =>
          if VoteCond t.src dst data t.dst then some (dst, data.term, src) else none
      | _ => none
  | .electionTimeout n => some (n, t.dst.currentTerm n, n)
  | _ => none

/-- The vote a step counts. -/
def voteCounted (t : Step (State ν κ) (Action ν)) : Option (ν × ℕ × ν) :=
  match t.act with
  | .handleMsgRVR src dst =>
      match (netGetMsg t.src.net.toVars src dst).map Msg.body with
      | some (.rvr data) => if CountCond t.src dst data then some (src, data.term, dst) else none
      | _ => none
  | _ => none

/-- The votes cast in a run, in order. -/
def ballots (tr : List (Step (State ν κ) (Action ν))) : List (ν × ℕ × ν) := tr.filterMap voteCast

/-- The votes counted in a run, in order. -/
def tallies (tr : List (Step (State ν κ) (Action ν))) : List (ν × ℕ × ν) :=
  tr.filterMap voteCounted

theorem ballots_snoc (tr : List (Step (State ν κ) (Action ν))) (t : Step (State ν κ) (Action ν)) :
    ballots (tr ++ [t]) = ballots tr ++ (voteCast t).toList :=
  filterMap_snoc voteCast tr t

theorem tallies_snoc (tr : List (Step (State ν κ) (Action ν))) (t : Step (State ν κ) (Action ν)) :
    tallies (tr ++ [t]) = tallies tr ++ (voteCounted t).toList :=
  filterMap_snoc voteCounted tr t

variable [DecidableEq ν]

/-! ### One step -/

/-- What a step from `s` to `s'` does that casts `cast` and counts `counted`. -/
structure VoteStep (s s' : State ν κ) (cast counted : Option (ν × ℕ × ν)) : Prop where
  term_le : ∀ i, s.currentTerm i ≤ s'.currentTerm i
  cast_term : ∀ a t b, cast = some (a, t, b) → s'.currentTerm a = t ∧ s'.votedFor a = some b
  cast_new : ∀ a t b, cast = some (a, t, b) →
    s.currentTerm a < t ∨ (s.currentTerm a = t ∧ s.votedFor a = none)
  cast_self : ∀ a t, cast = some (a, t, a) → s.currentTerm a < t ∧ s'.votesCount a = 1
  cast_other : ∀ a t b, cast = some (a, t, b) → b ≠ a →
    ∃ data : RVData, data.term = t ∧ 0 < pending s.net.toVars (.rv data) b a
  not_cast : ∀ a, (∀ t b, cast ≠ some (a, t, b)) → s'.votedFor a = s.votedFor a
  counted_spec : ∀ a t b, counted = some (a, t, b) →
    a ≠ b ∧ s.currentTerm b = t ∧ s'.votesCount b = s.votesCount b + 1
  not_both : cast = none ∨ counted = none
  not_counted : ∀ b, (∀ t, cast ≠ some (b, t, b)) → (∀ a t, counted ≠ some (a, t, b)) →
    s'.votesCount b = s.votesCount b
  request : ∀ (data : RVData) a b, 0 < pending s'.net.toVars (.rv data) a b →
    0 < pending s.net.toVars (.rv data) a b ∨ cast = some (a, data.term, a)
  reply : ∀ a t b, counted.toList.count (a, t, b) + pending s'.net.toVars (.rvr ⟨t⟩) a b
    ≤ pending s.net.toVars (.rvr ⟨t⟩) a b + cast.toList.count (a, t, b)

variable {pick : Choose ν} {s s' : State ν κ}

/-- A call that sends nothing adds no message. -/
theorem NetCall.pending_le_of_sends_nil {op : Op ν Body (Cmd ν)} {cmd : Cmd ν}
    {net' : Net ν Body (Cmd ν)} (h : NetCall pick s op cmd net') (hop : op.sends s.net.toVars = [])
    (x : Body) (a b : ν) :
    handedOver s.net.toVars op x a b + pending net'.toVars x a b
      ≤ pending s.net.toVars x a b := by
  apply h.pending_le_of_not_mem
  rw [hop]
  exact List.not_mem_nil

/-- The reply of `a` to a request of `b` is as often sent as the vote it stands for is cast. -/
theorem count_reply (src dst a b : ν) (t t' : ℕ) :
    ([⟨dst, src, .rvr ⟨t'⟩⟩] : List (Send ν Body)).count ⟨a, b, .rvr ⟨t⟩⟩
      = ([(dst, t', src)] : List (ν × ℕ × ν)).count (a, t, b) := by
  have hiff : (⟨dst, src, .rvr ⟨t'⟩⟩ : Send ν Body) = ⟨a, b, .rvr ⟨t⟩⟩
      ↔ (dst, t', src) = (a, t, b) := by
    simp only [Send.mk.injEq, Body.rvr.injEq, RVRData.mk.injEq, Prod.mk.injEq]
    exact and_congr_right' and_comm
  rw [List.count_singleton, List.count_singleton]
  simp only [beq_iff_eq, hiff]

/-- A step that neither casts nor counts a vote and only uses the network in a
call that sends nothing. -/
theorem VoteStep.of_quiet {op : Op ν Body (Cmd ν)} {cmd : Cmd ν}
    (hnet : NetCall pick s op cmd s'.net) (hop : op.sends s.net.toVars = [])
    (hterm : ∀ i, s.currentTerm i ≤ s'.currentTerm i) (hvoted : s'.votedFor = s.votedFor)
    (hvotes : s'.votesCount = s.votesCount) : VoteStep s s' none none where
  term_le := hterm
  cast_term := by simp
  cast_new := by simp
  cast_self := by simp
  cast_other := by simp
  not_cast a _ := by rw [hvoted]
  counted_spec := by simp
  not_both := Or.inl rfl
  not_counted b _ _ := by rw [hvotes]
  request data a b hpos := by
    have hle := hnet.pending_le_of_sends_nil hop (.rv data) a b
    exact Or.inl (by omega)
  reply a t b := by
    have hle := hnet.pending_le_of_sends_nil hop (.rvr ⟨t⟩) a b
    show 0 + _ ≤ _ + 0
    omega

/-- A step that counts the reply at the head of a channel. -/
theorem VoteStep.of_counted {src dst : ν} {m : Msg ν Body} {data : RVRData} {cmd : Cmd ν}
    (hne : src ≠ dst) (hm : netGetMsg s.net.toVars src dst = some m) (hbody : m.body = .rvr data)
    (hdata : data.term = s.currentTerm dst) (hnet : NetCall pick s (.delMsg src dst) cmd s'.net)
    (hterm : s'.currentTerm = s.currentTerm) (hvoted : s'.votedFor = s.votedFor)
    (hvotes : s'.votesCount = Function.update s.votesCount dst (s.votesCount dst + 1)) :
    VoteStep s s' none (some (src, data.term, dst)) where
  term_le i := by rw [hterm]
  cast_term := by simp
  cast_new := by simp
  cast_self := by simp
  cast_other := by simp
  not_cast a _ := by rw [hvoted]
  counted_spec a t b h := by
    obtain ⟨rfl, rfl, rfl⟩ : src = a ∧ data.term = t ∧ dst = b := by simpa using h
    refine ⟨hne, hdata.symm, ?_⟩
    rw [hvotes, Function.update_self]
  not_both := Or.inl rfl
  not_counted b _ h := by
    have hb : b ≠ dst := fun hb => h src data.term (by rw [hb])
    rw [hvotes, Function.update_of_ne hb]
  request d a b hpos := by
    have hle := hnet.pending_le_of_sends_nil rfl (.rv d) a b
    exact Or.inl (by omega)
  reply a t b := by
    have hle := hnet.pending_le_of_sends_nil rfl (.rvr ⟨t⟩) a b
    obtain ⟨hsrc, hdst, -⟩ := getMsg_eq_some_iff.mp hm
    -- the counted reply is the one the call hands over
    have hover : ([(src, data.term, dst)] : List (ν × ℕ × ν)).count (a, t, b)
        ≤ handedOver s.net.toVars (.delMsg src dst : Op ν Body (Cmd ν)) (.rvr ⟨t⟩) a b := by
      have hdel : Op.delivered s.net.toVars (.delMsg src dst : Op ν Body (Cmd ν)) = [m] := by
        rw [Op.delivered, hm]
        rfl
      rw [handedOver, hdel]
      by_cases h : (src, data.term, dst) = (a, t, b)
      · obtain ⟨rfl, rfl, rfl⟩ : src = a ∧ data.term = t ∧ dst = b := by simpa using h
        simp [unnumbered, hsrc, hdst, hbody]
      · rw [List.count_singleton]
        simp [h]
    show ([(src, data.term, dst)] : List (ν × ℕ × ν)).count (a, t, b) + _ ≤ _ + 0
    omega

/-- The voting branch of `HandleMsgRV`. -/
theorem VoteStep.of_vote {src dst : ν} {m : Msg ν Body} {data : RVData} {cmd : Cmd ν}
    (hne : src ≠ dst) (hm : netGetMsg s.net.toVars src dst = some m) (hbody : m.body = .rv data)
    (hgrants : Grants s dst data)
    (hnet : NetCall pick s (.replyMsg src dst (.rvr ⟨data.term⟩)) cmd s'.net)
    (hterm : s'.currentTerm = (seenTerm s dst data.term).currentTerm)
    (hvoted : s'.votedFor = Function.update s.votedFor dst (some src))
    (hvotes : s'.votesCount = s.votesCount) :
    VoteStep s s' (some (dst, data.term, src)) none := by
  obtain ⟨-, hle, -, hfree⟩ := hgrants
  obtain ⟨hsrc, hdst, -⟩ := getMsg_eq_some_iff.mp hm
  have hdstTerm : s'.currentTerm dst = data.term := by
    rw [hterm, seenTerm_currentTerm]
    omega
  have hsends : Op.sends s.net.toVars (.replyMsg src dst (.rvr ⟨data.term⟩) : Op ν Body (Cmd ν))
      = [⟨dst, src, .rvr ⟨data.term⟩⟩] := by
    simp [Op.sends, hm, hsrc, hdst]
  exact
    { term_le := by
        intro i
        by_cases hi : i = dst
        · rw [hi, hdstTerm]
          exact hle
        · rw [hterm, (seenTerm_of_ne hi _).1]
      cast_term := by
        intro a t b h
        obtain ⟨rfl, rfl, rfl⟩ : dst = a ∧ data.term = t ∧ src = b := by simpa using h
        refine ⟨hdstTerm, ?_⟩
        rw [hvoted, Function.update_self]
      cast_new := by
        intro a t b h
        obtain ⟨rfl, rfl, rfl⟩ : dst = a ∧ data.term = t ∧ src = b := by simpa using h
        rcases hfree with hlt | hnone
        · exact Or.inl hlt
        · rcases hle.lt_or_eq with hlt | heq
          · exact Or.inl hlt
          · exact Or.inr ⟨heq, hnone⟩
      cast_self := by
        intro a t h
        obtain ⟨hda, -, hsa⟩ : dst = a ∧ data.term = t ∧ src = a := by simpa using h
        exact absurd (hsa.trans hda.symm) hne
      cast_other := by
        intro a t b h _
        obtain ⟨rfl, rfl, rfl⟩ : dst = a ∧ data.term = t ∧ src = b := by simpa using h
        have hpos := pending_pos_of_netGetMsg hm
        rw [hbody] at hpos
        exact ⟨data, rfl, hpos⟩
      not_cast := by
        intro a h
        have ha : a ≠ dst := fun ha => h data.term src (by rw [ha])
        rw [hvoted, Function.update_of_ne ha]
      counted_spec := by simp
      not_both := Or.inr rfl
      not_counted := by
        intro b _ _
        rw [hvotes]
      request := by
        intro d a b hpos
        refine (hnet.pending_pos hpos).imp_right fun hmem => ?_
        rw [hsends] at hmem
        simp at hmem
      reply := by
        intro a t b
        have hle := hnet.pending_le (.rvr ⟨t⟩) a b
        -- the one reply sent belongs to the vote cast
        rw [hsends, count_reply] at hle
        show 0 + _ ≤ _ + ([(dst, data.term, src)] : List (ν × ℕ × ν)).count (a, t, b)
        omega }

variable [Fintype ν]

/-- A timeout: the server votes for itself in its new term and asks the
others. -/
theorem VoteStep.of_timeout {n : ν} {cmd : Cmd ν}
    (hnet : NetCall pick s (.batchAddMsg (requests pick s n)) cmd s'.net)
    (hterm : s'.currentTerm = Function.update s.currentTerm n (s.currentTerm n + 1))
    (hvoted : s'.votedFor = Function.update s.votedFor n (some n))
    (hvotes : s'.votesCount = Function.update s.votesCount n 1) :
    VoteStep s s' (some (n, s'.currentTerm n, n)) none := by
  have hnew : s'.currentTerm n = s.currentTerm n + 1 := by
    rw [hterm, Function.update_self]
  rw [hnew]
  exact
    { term_le := by
        intro i
        by_cases hi : i = n
        · rw [hi, hnew]
          omega
        · rw [hterm, Function.update_of_ne hi]
      cast_term := by
        intro a t b h
        obtain ⟨rfl, rfl, rfl⟩ : n = a ∧ s.currentTerm n + 1 = t ∧ n = b := by simpa using h
        refine ⟨hnew, ?_⟩
        rw [hvoted, Function.update_self]
      cast_new := by
        intro a t b h
        obtain ⟨rfl, rfl, rfl⟩ : n = a ∧ s.currentTerm n + 1 = t ∧ n = b := by simpa using h
        exact Or.inl (by omega)
      cast_self := by
        intro a t h
        obtain ⟨rfl, rfl⟩ : n = a ∧ s.currentTerm n + 1 = t := by
          simp only [Option.some.injEq, Prod.mk.injEq] at h
          exact ⟨h.1, h.2.1⟩
        refine ⟨by omega, ?_⟩
        rw [hvotes, Function.update_self]
      cast_other := by
        intro a t b h hne
        obtain ⟨rfl, -, rfl⟩ : n = a ∧ s.currentTerm n + 1 = t ∧ n = b := by simpa using h
        exact absurd rfl hne
      not_cast := by
        intro a h
        have ha : a ≠ n := fun ha => h _ n (by rw [ha])
        rw [hvoted, Function.update_of_ne ha]
      counted_spec := by simp
      not_both := Or.inr rfl
      not_counted := by
        intro b h _
        have hb : b ≠ n := fun hb => h _ (by rw [hb])
        rw [hvotes, Function.update_of_ne hb]
      request := by
        intro d a b hpos
        refine (hnet.pending_pos hpos).imp_right fun hmem => ?_
        -- a request of this timeout carries the new term
        obtain ⟨rfl, rfl⟩ := eq_requestData_of_mem hmem
        rfl
      reply := by
        intro a t b
        have hle := hnet.pending_le_of_not_mem (reply_not_mem_requests n a b ⟨t⟩)
        show 0 + _ ≤ _
        omega }

/-- Every step of `Next`, as far as votes are concerned. -/
theorem Effect.voteStep {a : Action ν} (h : Effect pick s a s') :
    VoteStep s s' (voteCast ⟨s, a, s'⟩) (voteCounted ⟨s, a, s'⟩) := by
  cases h with
  | vote src dst m data net' hne hm hbody hgrants hnet =>
      have hcond : VoteCond s dst data { seenTerm s dst data.term with
          votedFor := Function.update s.votedFor dst (some src), net := net' } :=
        (voteCond_iff_grants (seenTerm_currentTerm dst data.term)).mpr hgrants
      simp only [voteCast, voteCounted, hm, Option.map_some, hbody, if_pos hcond]
      exact .of_vote hne hm hbody hgrants hnet rfl rfl rfl
  | refuse src dst m data net' hne hm hbody hgrants hnet =>
      have hcond : ¬ VoteCond s dst data { seenTerm s dst data.term with net := net' } :=
        fun hc => hgrants ((voteCond_iff_grants (seenTerm_currentTerm dst data.term)).mp hc)
      simp only [voteCast, voteCounted, hm, Option.map_some, hbody, if_neg hcond]
      -- a refusal may still raise the term of the receiver
      refine .of_quiet hnet rfl (fun i => ?_) rfl rfl
      show s.currentTerm i ≤ (seenTerm s dst data.term).currentTerm i
      by_cases hi : i = dst
      · rw [hi, seenTerm_currentTerm]
        omega
      · rw [(seenTerm_of_ne hi _).1]
  | becomeLeader src dst m data net' hne hm hbody hwins hnet =>
      simp only [voteCast, voteCounted, hm, Option.map_some, hbody, if_pos hwins.1]
      exact .of_counted hne hm hbody hwins.1.2 hnet rfl rfl rfl
  | notQuorum src dst m data net' _ hne hm hbody hshort hnet =>
      simp only [voteCast, voteCounted, hm, Option.map_some, hbody, if_pos hshort.1]
      exact .of_counted hne hm hbody hshort.1.2 hnet rfl rfl rfl
  | ignore src dst m data net' hne hm hbody hcount hnet =>
      simp only [voteCast, voteCounted, hm, Option.map_some, hbody, if_neg hcount]
      exact .of_quiet hnet rfl (fun _ => le_refl _) rfl rfl
  | timeout n net' hnet => exact .of_timeout hnet rfl rfl rfl
  | partition n net' hnet => exact .of_quiet hnet rfl (fun _ => le_refl _) rfl rfl
  | cure net' hnet => exact .of_quiet hnet rfl (fun _ => le_refl _) rfl rfl

/-! ### The invariant -/

/-- Votes cast, counted and in flight, against the variables. -/
structure VoteInv (tr : List (Step (State ν κ) (Action ν))) (s : State ν κ) : Prop where
  once : ((ballots tr).map fun v => (v.1, v.2.1)).Nodup
  term_le : ∀ a t b, (a, t, b) ∈ ballots tr → t ≤ s.currentTerm a
  current : ∀ a b, (a, s.currentTerm a, b) ∈ ballots tr → s.votedFor a = some b
  self : ∀ a t b, (a, t, b) ∈ ballots tr → (b, t, b) ∈ ballots tr
  request : ∀ (data : RVData) a b, 0 < pending s.net.toVars (.rv data) a b →
    (a, data.term, a) ∈ ballots tr
  reply : ∀ a t b, (tallies tr).count (a, t, b) + pending s.net.toVars (.rvr ⟨t⟩) a b
    ≤ (ballots tr).count (a, t, b)
  tally_ne : ∀ a t b, (a, t, b) ∈ tallies tr → a ≠ b
  votesCount : ∀ b, (b, s.currentTerm b, b) ∈ ballots tr →
    s.votesCount b = 1 + (tallies tr).countP fun v => v.2 = (s.currentTerm b, b)

omit [Fintype ν] in
/-- A counted vote was cast. -/
theorem VoteInv.mem_ballots_of_mem_tallies {tr : List (Step (State ν κ) (Action ν))}
    (h : VoteInv tr s) {v : ν × ℕ × ν} (hv : v ∈ tallies tr) : v ∈ ballots tr := by
  obtain ⟨a, t, b⟩ := v
  have hpos := List.count_pos_iff.mpr hv
  have hle := h.reply a t b
  exact List.count_pos_iff.mp (by omega)

theorem VoteInv.init : VoteInv [] (init : State ν κ) where
  once := List.nodup_nil
  term_le := by simp [ballots]
  current := by simp [ballots]
  self := by simp [ballots]
  request data a b h := by
    simp only [pending, PySyncObj.init, chan_init] at h
    exact absurd h (by simp)
  reply a t b := by
    simp only [pending, PySyncObj.init, chan_init]
    rfl
  tally_ne := by simp [tallies]
  votesCount := by simp [ballots]

omit [DecidableEq ν] [Fintype ν] in
theorem mem_ballots_snoc {tr : List (Step (State ν κ) (Action ν))} {t : Step (State ν κ) (Action ν)}
    {v : ν × ℕ × ν} : v ∈ ballots (tr ++ [t]) ↔ v ∈ ballots tr ∨ voteCast t = some v := by
  rw [ballots_snoc, List.mem_append, Option.mem_toList]

omit [DecidableEq ν] [Fintype ν] in
theorem mem_tallies_snoc {tr : List (Step (State ν κ) (Action ν))} {t : Step (State ν κ) (Action ν)}
    {v : ν × ℕ × ν} : v ∈ tallies (tr ++ [t]) ↔ v ∈ tallies tr ∨ voteCounted t = some v := by
  rw [tallies_snoc, List.mem_append, Option.mem_toList]

section Step

omit [Fintype ν]

variable {tr : List (Step (State ν κ) (Action ν))} {a : Action ν}

/-- No vote of the same term was cast before. -/
theorem VoteInv.not_mem_of_cast {cast counted : Option (ν × ℕ × ν)} (h : VoteInv tr s)
    (hs : VoteStep s s' cast counted) {x y : ν} {t : ℕ} (hcast : cast = some (x, t, y)) (z : ν) :
    (x, t, z) ∉ ballots tr := by
  intro hold
  have hle := h.term_le x t z hold
  rcases hs.cast_new x t y hcast with hlt | ⟨heq, hnone⟩
  · omega
  · rw [← heq] at hold
    rw [h.current x z hold] at hnone
    exact absurd hnone (by simp)

/-- An old vote in the new term means that the term did not change. -/
theorem VoteInv.term_eq_of_mem {cast counted : Option (ν × ℕ × ν)} (h : VoteInv tr s)
    (hs : VoteStep s s' cast counted) {x y : ν} (hold : (x, s'.currentTerm x, y) ∈ ballots tr) :
    s'.currentTerm x = s.currentTerm x :=
  le_antisymm (h.term_le x _ y hold) (hs.term_le x)

theorem VoteInv.once_step (h : VoteInv tr s)
    (hs : VoteStep s s' (voteCast ⟨s, a, s'⟩) (voteCounted ⟨s, a, s'⟩)) :
    ((ballots (tr ++ [⟨s, a, s'⟩])).map fun v => (v.1, v.2.1)).Nodup := by
  rw [ballots_snoc, List.map_append, List.nodup_append']
  refine ⟨h.once, ?_, ?_⟩
  · cases voteCast ⟨s, a, s'⟩ <;> simp
  · intro p hp hp'
    obtain ⟨⟨x, t, z⟩, hold, rfl⟩ := List.mem_map.mp hp
    obtain ⟨⟨x', t', y⟩, hcast, heq⟩ := List.mem_map.mp hp'
    obtain ⟨rfl, rfl⟩ : x' = x ∧ t' = t := by simpa using heq
    exact h.not_mem_of_cast hs (Option.mem_toList.mp hcast) z hold

/-- A vote that a server holds is still the one it cast in its term. -/
theorem VoteInv.current_step (h : VoteInv tr s)
    (hs : VoteStep s s' (voteCast ⟨s, a, s'⟩) (voteCounted ⟨s, a, s'⟩)) {x y : ν}
    (hv : (x, s'.currentTerm x, y) ∈ ballots (tr ++ [⟨s, a, s'⟩])) : s'.votedFor x = some y := by
  rcases mem_ballots_snoc.mp hv with hold | hcast
  · have hterm := h.term_eq_of_mem hs hold
    have hvoted := h.current x y (hterm ▸ hold)
    rw [hs.not_cast x, hvoted]
    intro t z hcast
    -- a second vote in this term is impossible
    have ht := (hs.cast_term x t z hcast).1
    exact h.not_mem_of_cast hs hcast y (ht ▸ hold)
  · exact (hs.cast_term x _ y hcast).2

/-- A candidate of a new term has no vote counted in it yet. -/
theorem VoteInv.votesCount_candidate (h : VoteInv tr s)
    (hs : VoteStep s s' (voteCast ⟨s, a, s'⟩) (voteCounted ⟨s, a, s'⟩)) {y : ν}
    (hcast : voteCast ⟨s, a, s'⟩ = some (y, s'.currentTerm y, y)) :
    s'.votesCount y
      = 1 + (tallies (tr ++ [⟨s, a, s'⟩])).countP fun v => v.2 = (s'.currentTerm y, y) := by
  obtain ⟨hlt, hone⟩ := hs.cast_self y _ hcast
  have hnone : voteCounted ⟨s, a, s'⟩ = none :=
    hs.not_both.resolve_left (by rw [hcast]; simp)
  -- a vote of the new term would mean that the candidate had been in it before
  have hzero : (tallies tr).countP (fun v => v.2 = (s'.currentTerm y, y)) = 0 := by
    refine List.countP_eq_zero.mpr fun v hv => ?_
    obtain ⟨x, t, b⟩ := v
    intro heq
    obtain ⟨rfl, rfl⟩ : t = s'.currentTerm y ∧ b = y := by simpa using heq
    have hself := h.self _ _ _ (h.mem_ballots_of_mem_tallies hv)
    have hle := h.term_le _ _ _ hself
    omega
  rw [tallies_snoc, List.countP_append, hone, hnone, hzero]
  rfl

/-- In the same term the count of a candidate goes with the votes counted. -/
theorem VoteInv.votesCount_same (h : VoteInv tr s)
    (hs : VoteStep s s' (voteCast ⟨s, a, s'⟩) (voteCounted ⟨s, a, s'⟩)) {y : ν}
    (hold : (y, s'.currentTerm y, y) ∈ ballots tr)
    (hcast : voteCast ⟨s, a, s'⟩ ≠ some (y, s'.currentTerm y, y)) :
    s'.votesCount y
      = 1 + (tallies (tr ++ [⟨s, a, s'⟩])).countP fun v => v.2 = (s'.currentTerm y, y) := by
  have hterm := h.term_eq_of_mem hs hold
  have hcount := h.votesCount y (hterm ▸ hold)
  rw [tallies_snoc, List.countP_append, hterm]
  have hnocast (t : ℕ) : voteCast ⟨s, a, s'⟩ ≠ some (y, t, y) := by
    intro hc
    have ht := (hs.cast_term y t y hc).1
    exact hcast (ht ▸ hc)
  -- either the step counts a vote for `y`, or it leaves the number alone
  by_cases hc : ∃ x t, voteCounted ⟨s, a, s'⟩ = some (x, t, y)
  · obtain ⟨x, t, hc⟩ := hc
    obtain ⟨-, rfl, hvotes⟩ := hs.counted_spec x t y hc
    rw [hvotes, hcount, hc]
    simp
    omega
  · have hnone (x : ν) (t : ℕ) : voteCounted ⟨s, a, s'⟩ ≠ some (x, t, y) :=
      fun he => hc ⟨x, t, he⟩
    have hzero : (voteCounted ⟨s, a, s'⟩).toList.countP
        (fun v => v.2 = (s.currentTerm y, y)) = 0 := by
      refine List.countP_eq_zero.mpr fun v hmemv heq => ?_
      obtain ⟨x, t, b⟩ := v
      obtain ⟨-, rfl⟩ : t = s.currentTerm y ∧ b = y := by simpa using heq
      exact hnone x t (Option.mem_toList.mp hmemv)
    rw [hs.not_counted y hnocast hnone, hcount, hzero, Nat.add_zero]

/-- Every step keeps the invariant. -/
theorem VoteInv.step (h : VoteInv tr s)
    (hs : VoteStep s s' (voteCast ⟨s, a, s'⟩) (voteCounted ⟨s, a, s'⟩)) :
    VoteInv (tr ++ [⟨s, a, s'⟩]) s' where
  once := h.once_step hs
  term_le x t y hv := by
    rcases mem_ballots_snoc.mp hv with hold | hcast
    · exact (h.term_le x t y hold).trans (hs.term_le x)
    · exact (hs.cast_term x t y hcast).1.ge
  current x y hv := h.current_step hs hv
  self x t y hv := by
    refine mem_ballots_snoc.mpr ?_
    rcases mem_ballots_snoc.mp hv with hold | hcast
    · exact Or.inl (h.self x t y hold)
    · by_cases hxy : y = x
      · rw [hxy] at hcast ⊢
        exact Or.inr hcast
      -- the vote answers a request, and who asks has voted for itself
      · obtain ⟨data, rfl, hpos⟩ := hs.cast_other x t y hcast hxy
        exact Or.inl (h.request data y x hpos)
  request data x y hpos := by
    refine mem_ballots_snoc.mpr ?_
    rcases hs.request data x y hpos with hold | hcast
    · exact Or.inl (h.request data x y hold)
    · exact Or.inr hcast
  reply x t y := by
    have hold := h.reply x t y
    have hnew := hs.reply x t y
    -- a reply is sent together with its ballot, and counted when it leaves the channel
    rw [ballots_snoc, tallies_snoc, List.count_append, List.count_append]
    omega
  tally_ne x t y hv := by
    rcases mem_tallies_snoc.mp hv with hold | hcount
    · exact h.tally_ne x t y hold
    · exact (hs.counted_spec x t y hcount).1
  votesCount y hv := by
    by_cases hcast : voteCast ⟨s, a, s'⟩ = some (y, s'.currentTerm y, y)
    · exact h.votesCount_candidate hs hcast
    · have hold := (mem_ballots_snoc.mp hv).resolve_right hcast
      exact h.votesCount_same hs hold hcast

end Step

/-- The invariant holds throughout every run. -/
theorem VoteInv.of_run {tr : List (Step (State ν κ) (Action ν))} (h : (spec pick).Run tr s) :
    VoteInv tr s := by
  refine System.Run.invariant (P := fun tr s => VoteInv tr s) ?_ ?_ h
  · rintro s rfl
    exact VoteInv.init
  · intro tr s a s' _ hinv hstep
    exact hinv.step (nextBy_iff_effect.mp hstep).voteStep

end Tmet.PySyncObj
