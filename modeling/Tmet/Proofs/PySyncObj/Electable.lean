import Tmet.Proofs.PySyncObj.Network
import Tmet.Proofs.PySyncObj.VoteRule

/-!
# `Tmet.Proofs.PySyncObj.Electable`: every server can still be elected

Safety alone would hold of servers that never elect anyone. In the specification a server can
be elected from every reachable state, whatever has happened, if there are two servers or more
(`electable_iff`). A single server never is: it counts its votes only when a reply comes.

The way to an election (`Leads`) has five stages. All servers are cut off, which empties the
channels (`leads_silent`). All time out, so that no one is a leader, who would refuse to
vote, and the candidate goes on until no one has a greater term (`leads_ahead`). The network
is cured and the candidate times out once more (`leads_campaign`). Then its requests are
alone in the channels, and the servers asked vote one after the other until the votes are a
quorum (`Campaign.leads_elected`).
-/

set_option autoImplicit false

namespace Tmet.PySyncObj

open Tmet.Lib
open Tmet.FifoNetwork

variable {ν κ : Type} [DecidableEq ν] [Fintype ν] {pick : Choose ν} {s s' : State ν κ}

/-- What every state on the way has. -/
structure Sound (s : State ν κ) : Prop where
  net : NetOk Finset.univ s.net.toVars
  logs : LogInv s

theorem Sound.step {a : Action ν} (h : Sound s) (hstep : Effect pick s a s') : Sound s' where
  net := hstep.netOk h.net
  logs := h.logs.step hstep

theorem Sound.of_run {tr : List (Step (State ν κ) (Action ν))} (h : (spec pick).Run tr s) :
    Sound s where
  net := netOk_of_run h
  logs := LogInv.of_run h

/-! ### Silence -/

/-- All servers are cut off, and nothing is on the way. -/
structure Silent (s : State ν κ) : Prop where
  apart : ∀ a b, a ≠ b → ¬ Connected s.net.netman.conn a b
  empty : ∀ a b, a ≠ b → bodies s.net.msgs a b = []

/-- One partition after the other silences all. -/
theorem leads_silent (h : Sound s) : (spec pick).Leads s fun s => Sound s ∧ Silent s := by
  -- those that have been cut off so far
  have hcut (xs : List ν) : (spec pick).Leads s fun s => Sound s ∧ ∀ a b, a ≠ b →
      (a ∈ xs ∨ b ∈ xs) → ¬ Connected s.net.netman.conn a b ∧ bodies s.net.msgs a b = [] := by
    refine System.Leads.forEach (P := fun (xs : List ν) (s : State ν κ) => Sound s ∧ ∀ a b, a ≠ b →
      (a ∈ xs ∨ b ∈ xs) → ¬ Connected s.net.netman.conn a b ∧ bodies s.net.msgs a b = [])
      ?_ ⟨h, by simp⟩ xs
    rintro n xs s ⟨hsound, hxs⟩
    have hcall : NetCall pick s (.partConn {n}) (.doNetworkPartition (some n)) _ :=
      netCall_afterCall _ rfl
    have heff := Effect.partition n _ hcall
    refine .step (nextBy_iff_effect.mpr heff) (.now ⟨hsound.step heff, fun a b hab hmem => ?_⟩)
    obtain ⟨hconn, hbodies⟩ := hcall.parted hab
    simp only [hconn, hbodies]
    by_cases hn : a = n ∨ b = n
    · simp only [if_pos hn, and_true]
      rintro ⟨ha, hb, -⟩
      exact hn.elim ha hb
    · have hold : a ∈ xs ∨ b ∈ xs := by
        simp only [List.mem_cons] at hmem
        tauto
      obtain ⟨hapart, hempty⟩ := hxs a b hab hold
      simp only [if_neg hn]
      exact ⟨fun h => hapart h.2.2, hempty⟩
  refine (hcut Finset.univ.toList).trans fun s' ⟨hsound, hall⟩ => .now ⟨hsound, ?_⟩
  have hmem (a : ν) : a ∈ (Finset.univ : Finset ν).toList := by simp
  exact ⟨fun a b hab => (hall a b hab (Or.inl (hmem a))).1,
    fun a b hab => (hall a b hab (Or.inl (hmem a))).2⟩

/-- What a timeout changes of its server, and that it changes no other one. -/
structure TimedOut (s : State ν κ) (n : ν) (s' : State ν κ) : Prop where
  candidate : s'.raftState n = .candidate
  term : s'.currentTerm n = s.currentTerm n + 1
  votes : s'.votesCount n = 1
  other : ∀ p, p ≠ n → s'.raftState p = s.raftState p ∧ s'.currentTerm p = s.currentTerm p

theorem exists_timeout (pick : Choose ν) (s : State ν κ) (n : ν) :
    ∃ s', Effect pick s (.electionTimeout n) s' ∧ TimedOut s n s'
      ∧ NetCall pick s (.batchAddMsg (requests pick s n)) (.electionTimeout n) s'.net := by
  have hcall : NetCall pick s (.batchAddMsg (requests pick s n)) (.electionTimeout n) _ :=
    netCall_afterCall _ rfl
  refine ⟨_, .timeout n _ hcall, ?_, hcall⟩
  constructor
  · exact Function.update_self _ _ _
  · exact Function.update_self _ _ _
  · exact Function.update_self _ _ _
  · intro p hp
    exact ⟨Function.update_of_ne hp _ _, Function.update_of_ne hp _ _⟩

/-- A timeout of a server that is cut off is not heard. -/
theorem Silent.timeout (h : Silent s) (hsound : Sound s) (pick : Choose ν) (n : ν) :
    ∃ s', (spec pick).step s (.electionTimeout n) s' ∧ Sound s' ∧ Silent s' ∧ TimedOut s n s' := by
  obtain ⟨s', heff, htimed, hcall⟩ := exists_timeout pick s n
  refine ⟨s', nextBy_iff_effect.mpr heff, hsound.step heff, ?_, htimed⟩
  obtain ⟨hconn, hmoved⟩ := hcall.moved hsound.net id (between_requests s n)
  refine ⟨fun a b hab => ?_, fun a b hab => ?_⟩
  · rw [hconn]
    exact h.apart a b hab
  · have hcut : ¬ netIsConn s.net.toVars a b := fun hc => h.apart a b hab (netIsConn_iff.mp hc)
    have hchan := hmoved a b
    rw [if_neg hcut, h.empty a b hab, (moved_requests s n a b).1] at hchan
    exact hchan.symm

/-- No one is a leader, and no one has a greater term than the candidate. -/
structure Ahead (n : ν) (s : State ν κ) : Prop where
  noLeader : ∀ p, s.raftState p ≠ .leader
  term : ∀ p, s.currentTerm p ≤ s.currentTerm n

/-- Timeouts in silence put the candidate ahead. -/
theorem leads_ahead (hsound : Sound s) (h : Silent s) (n : ν) :
    (spec pick).Leads s fun s => Sound s ∧ Silent s ∧ Ahead n s := by
  -- first all of them time out
  have hall (xs : List ν) : (spec pick).Leads s fun s =>
      Sound s ∧ Silent s ∧ ∀ p ∈ xs, s.raftState p ≠ .leader := by
    refine System.Leads.forEach (P := fun (xs : List ν) (s : State ν κ) =>
      Sound s ∧ Silent s ∧ ∀ p ∈ xs, s.raftState p ≠ .leader) ?_ ⟨hsound, h, by simp⟩ xs
    rintro x xs s ⟨hsound, hsilent, hxs⟩
    obtain ⟨s', hstep, hsound', hsilent', htimed⟩ := hsilent.timeout hsound pick x
    refine .step hstep (.now ⟨hsound', hsilent', fun p hp => ?_⟩)
    by_cases hpx : p = x
    · rw [hpx, htimed.candidate]
      exact RaftState.noConfusion
    · rw [(htimed.other p hpx).1]
      exact hxs p ((List.mem_cons.mp hp).resolve_left hpx)
  refine (hall Finset.univ.toList).trans fun s ⟨hsound, hsilent, hno⟩ => ?_
  -- then the candidate does, as often as the greatest term says
  have hmore : (spec pick).Leads s fun s' => Sound s' ∧ Silent s'
      ∧ (∀ p, s'.raftState p ≠ .leader) ∧ (∀ p, p ≠ n → s'.currentTerm p = s.currentTerm p)
      ∧ Finset.univ.sup s.currentTerm ≤ s'.currentTerm n := by
    refine System.Leads.iterate (P := fun k (s' : State ν κ) => Sound s' ∧ Silent s'
      ∧ (∀ p, s'.raftState p ≠ .leader) ∧ (∀ p, p ≠ n → s'.currentTerm p = s.currentTerm p)
      ∧ k ≤ s'.currentTerm n) ?_ ⟨hsound, hsilent, fun p => hno p (by simp), by simp, by simp⟩ _
    rintro k s₁ ⟨hsound, hsilent, hno, hterm, hk⟩
    obtain ⟨s₂, hstep, hsound₂, hsilent₂, htimed⟩ := hsilent.timeout hsound pick n
    refine .step hstep (.now ⟨hsound₂, hsilent₂, fun p => ?_, fun p hp => ?_, ?_⟩)
    · by_cases hp : p = n
      · rw [hp, htimed.candidate]
        exact RaftState.noConfusion
      · rw [(htimed.other p hp).1]
        exact hno p
    · rw [(htimed.other p hp).2]
      exact hterm p hp
    · rw [htimed.term]
      omega
  refine hmore.trans fun s' ⟨hsound', hsilent', hno', hterm, hmax⟩ => ?_
  refine .now ⟨hsound', hsilent', hno', fun p => ?_⟩
  by_cases hp : p = n
  · rw [hp]
  · rw [hterm p hp]
    exact (Finset.le_sup (Finset.mem_univ p)).trans hmax

/-! ### The campaign -/

/-- The candidate `n` asks for votes and misses `k` more. The servers `ps` have its request
in front of them and will answer it. -/
structure Campaign (n : ν) (data : RVData) (k : ℕ) (ps : List ν) (s : State ν κ) : Prop where
  sound : Sound s
  conn : ∀ a b, Connected s.net.netman.conn a b
  candidate : s.raftState n = .candidate
  term : s.currentTerm n = data.term
  nodup : ps.Nodup
  request : ∀ p ∈ ps, bodies s.net.msgs n p = [.rv data]
  back : ∀ p ∈ ps, bodies s.net.msgs p n = []
  voter : ∀ p ∈ ps, p ≠ n ∧ s.raftState p ≠ .leader ∧ s.currentTerm p < data.term
  votes : s.votesCount n + k = Fintype.card ν
  short : s.votesCount n * 2 ≤ Fintype.card ν

omit [Fintype ν] in
theorem netIsConn_of_connected {a b : ν} (h : Connected s.net.netman.conn a b) :
    netIsConn s.net.toVars a b := netIsConn_iff.mpr h

/-- After a cure, the requests of a server that is ahead are alone in the channels. -/
theorem leads_campaign (hcard : 2 ≤ Fintype.card ν) (hsound : Sound s) (h : Silent s) {n : ν}
    (hahead : Ahead n s) :
    (spec pick).Leads s fun s => ∃ data ps, Campaign n data ps.length ps s := by
  have hcure : NetCall pick s .cureConn (.doNetworkPartition none) _ := netCall_afterCall _ rfl
  have heff := Effect.cure _ hcure
  have hsound₁ := hsound.step heff
  refine .step (nextBy_iff_effect.mpr heff) ?_
  obtain ⟨s', heff', htimed, hcall⟩ := exists_timeout pick { s with net := _ } n
  obtain ⟨hconn, hmoved⟩ := hcall.moved hsound₁.net id (between_requests _ n)
  refine .step (nextBy_iff_effect.mpr heff') (.now ⟨requestData s n, (Finset.univ.erase n).toList, ?_⟩)
  have hne {p : ν} (hp : p ∈ (Finset.univ.erase n).toList) : p ≠ n := by simpa using hp
  -- a channel between two servers was empty, so what is there are the requests
  have hchan (a b : ν) (hab : a ≠ b) :
      bodies s'.net.msgs a b = if a = n ∧ b ≠ n then [.rv (requestData s n)] else [] := by
    have hchan := hmoved a b
    rw [(hcure.cured hsound.net a b).2, h.empty a b hab, (moved_requests _ n a b).1,
      (moved_requests _ n a b).2,
      if_pos (netIsConn_of_connected (hcure.cured hsound.net a b).1)] at hchan
    exact hchan.symm
  constructor
  · exact hsound₁.step heff'
  · intro a b
    rw [hconn]
    exact (hcure.cured hsound.net a b).1
  · exact htimed.candidate
  · exact htimed.term
  · exact Finset.nodup_toList _
  · intro p hp
    rw [hchan n p (hne hp).symm, if_pos ⟨rfl, hne hp⟩]
  · intro p hp
    rw [hchan p n (hne hp), if_neg fun h => h.2 rfl]
  · intro p hp
    obtain ⟨hraft, hterm⟩ := htimed.other p (hne hp)
    refine ⟨hne hp, ?_, ?_⟩
    · rw [hraft]
      exact hahead.noLeader p
    · rw [hterm]
      exact Nat.lt_succ_of_le (hahead.term p)
  · rw [htimed.votes, Finset.length_toList, Finset.card_erase_of_mem (Finset.mem_univ n),
      Finset.card_univ]
    omega
  · rw [htimed.votes]
    exact hcard

variable {n p : ν} {data : RVData} {k : ℕ} {ps : List ν}

/-- The first of the servers asked votes, and its reply is alone in the channel back. -/
theorem Campaign.vote (h : Campaign n data k (p :: ps) s) (pick : Choose ν) :
    ∃ s', (spec pick).step s (.handleMsgRV n p) s' ∧ Campaign n data k ps s'
      ∧ bodies s'.net.msgs p n = [.rvr ⟨data.term⟩] := by
  obtain ⟨hpn, hno, hlt⟩ := h.voter p List.mem_cons_self
  obtain ⟨hnotin, hnodup⟩ := List.nodup_cons.mp h.nodup
  obtain ⟨m, hm, hbody⟩ := exists_netGetMsg (h.request p List.mem_cons_self)
  have hgrants : Grants s p data :=
    (h.sound.logs.grants_iff hm hbody).mpr ⟨hno, hlt.le, Or.inl hlt⟩
  have hcall : NetCall pick s (.replyMsg n p (.rvr ⟨data.term⟩)) (.handleMsgRVVoted p n) _ :=
    netCall_afterCall _ (toBool_replyMsg hm)
  have heff := Effect.vote n p m data _ hpn.symm hm hbody hgrants hcall
  obtain ⟨hconn, hmoved⟩ := hcall.moved h.sound.net id trivial
  have hsent (a b : ν) := netIsConn_of_connected (h.conn a b)
  simp only [hsent, if_true, moved_replyMsg hm, hbody] at hmoved
  have hother (q : ν) (hq : q ∈ ps) : q ≠ p := by
    rintro rfl
    exact hnotin hq
  refine ⟨_, nextBy_iff_effect.mpr heff, ?_, ?_⟩
  · constructor
    · exact h.sound.step heff
    · intro a b
      have hab := h.conn a b
      rw [← hconn] at hab
      exact hab
    · exact (seenTerm_of_ne hpn.symm data.term).2.trans h.candidate
    · exact (seenTerm_of_ne hpn.symm data.term).1.trans h.term
    · exact hnodup
    · intro q hq
      have hchan := hmoved n q
      simpa [hpn, (hother q hq).symm, h.request q (List.mem_cons_of_mem _ hq)] using hchan.symm
    · intro q hq
      have hqn := (h.voter q (List.mem_cons_of_mem _ hq)).1
      have hchan := hmoved q n
      simpa [hpn, hqn.symm, (hother q hq).symm, h.back q (List.mem_cons_of_mem _ hq)]
        using hchan.symm
    · intro q hq
      obtain ⟨hqn, hqno, hqlt⟩ := h.voter q (List.mem_cons_of_mem _ hq)
      obtain ⟨hterm, hraft⟩ := seenTerm_of_ne (s := s) (hother q hq) data.term
      exact ⟨hqn, hraft.symm ▸ hqno, hterm.symm ▸ hqlt⟩
    · exact h.votes
    · exact h.short
  · have hchan := hmoved p n
    simpa [hpn, hpn.symm, h.back p List.mem_cons_self] using hchan.symm

/-- The reply is counted: the candidate becomes leader, or it misses one vote less. -/
theorem Campaign.count (h : Campaign n data (k + 1) ps s) (hpn : p ≠ n) (hp : p ∉ ps)
    (hreply : bodies s.net.msgs p n = [.rvr ⟨data.term⟩]) (pick : Choose ν) :
    ∃ s', (spec pick).step s (.handleMsgRVR p n) s'
      ∧ (BecomesLeader ⟨s, .handleMsgRVR p n, s'⟩ n ∨ Campaign n data k ps s') := by
  obtain ⟨m, hm, hbody⟩ := exists_netGetMsg hreply
  have hcount : CountCond s n ⟨data.term⟩ := ⟨h.candidate, h.term.symm⟩
  by_cases hquorum : Fintype.card ν < (s.votesCount n + 1) * 2
  · have hcall : NetCall pick s (.delMsg p n) (.handleMsgRVRBecomeLeader n p) _ :=
      netCall_afterCall _ (toBool_delMsg hm)
    have heff := Effect.becomeLeader p n m ⟨data.term⟩ _ hpn hm hbody ⟨hcount, hquorum⟩ hcall
    refine ⟨_, nextBy_iff_effect.mpr heff, Or.inl ⟨p, m, ⟨data.term⟩, rfl, hm, hbody, hcount, ?_⟩⟩
    show Fintype.card ν < Function.update s.votesCount n (s.votesCount n + 1) n * 2
    rw [Function.update_self]
    exact hquorum
  · have hcall : NetCall pick s (.delMsg p n) (.handleMsgRVRNotQuorum n p) _ :=
      netCall_afterCall _ (toBool_delMsg hm)
    -- nothing is said of `raftState'`, so it may stay as it is
    have heff := Effect.notQuorum p n m ⟨data.term⟩ _ s.raftState hpn hm hbody ⟨hcount, hquorum⟩
      hcall
    obtain ⟨hconn, hmoved⟩ := hcall.moved h.sound.net id trivial
    simp only [moved_delMsg hm, hbody, ite_self, List.append_nil] at hmoved
    have hother (q : ν) (hq : q ∈ ps) : q ≠ p := by
      rintro rfl
      exact hp hq
    have hvotes := h.votes
    refine ⟨_, nextBy_iff_effect.mpr heff, Or.inr ?_⟩
    constructor
    · exact h.sound.step heff
    · intro a b
      have hab := h.conn a b
      rw [← hconn] at hab
      exact hab
    · exact h.candidate
    · exact h.term
    · exact h.nodup
    · intro q hq
      have hchan := hmoved n q
      simpa [hpn, h.request q hq] using hchan.symm
    · intro q hq
      have hchan := hmoved q n
      simpa [(hother q hq).symm, h.back q hq] using hchan.symm
    · exact h.voter
    · show Function.update s.votesCount n (s.votesCount n + 1) n + k = _
      rw [Function.update_self]
      omega
    · show Function.update s.votesCount n (s.votesCount n + 1) n * 2 ≤ _
      rw [Function.update_self]
      omega

/-- A campaign ends with the election of its candidate. -/
theorem Campaign.leads_elected (h : Campaign n data ps.length ps s) (pick : Choose ν) :
    (spec pick).Leads s fun s =>
      ∃ a s', (spec pick).step s a s' ∧ BecomesLeader ⟨s, a, s'⟩ n := by
  induction ps generalizing s with
  | nil =>
      -- all have voted, so the votes are all there are
      have hpos : 0 < Fintype.card ν := Fintype.card_pos_iff.mpr ⟨n⟩
      have hvotes := h.votes
      have hshort := h.short
      simp only [List.length_nil] at hvotes
      omega
  | cons p ps ih =>
      obtain ⟨hpn, -, -⟩ := h.voter p List.mem_cons_self
      obtain ⟨hnotin, -⟩ := List.nodup_cons.mp h.nodup
      obtain ⟨s₁, hvote, h₁, hreply⟩ := h.vote pick
      refine .step hvote ?_
      obtain ⟨s₂, hcount, hlead | h₂⟩ := h₁.count hpn hnotin hreply pick
      · exact .now ⟨_, s₂, hcount, hlead⟩
      · exact .step hcount (ih h₂)

/-- From every reachable state, whatever has been sent, lost or partitioned, some
continuation makes the server `n` leader, if and only if there are at least two servers. -/
theorem electable_iff (pick : Choose ν) (n : ν) :
    (∀ (tr : List (Step (State ν κ) (Action ν))) (s : State ν κ), (spec pick).Run tr s →
        ∃ post t, (spec pick).Run (tr ++ post ++ [t]) t.dst ∧ BecomesLeader t n)
      ↔ 2 ≤ Fintype.card ν := by
  constructor
  · intro h
    obtain ⟨post, t, hrun, src, m, data, hact, -⟩ := h [] init (.nil rfl)
    have hstep : NextBy pick t.src t.act t.dst := hrun.last.2.1
    rw [hact] at hstep
    -- the reply counted comes from another server
    exact Fintype.one_lt_card_iff.mpr ⟨src, n, hstep.1⟩
  · intro hcard tr s hrun
    have hleads : (spec pick).Leads s fun s =>
        ∃ a s', (spec pick).step s a s' ∧ BecomesLeader ⟨s, a, s'⟩ n := by
      refine (leads_silent (Sound.of_run hrun)).trans fun s ⟨hsound, hsilent⟩ => ?_
      refine (leads_ahead hsound hsilent n).trans fun s ⟨hsound, hsilent, hahead⟩ => ?_
      refine (leads_campaign hcard hsound hsilent hahead).trans fun s ⟨data, ps, hcampaign⟩ => ?_
      exact hcampaign.leads_elected pick
    obtain ⟨post, s', hexec, a, s'', hstep, hlead⟩ := hleads
    exact ⟨post, ⟨s', a, s''⟩, .snoc (hrun.exec hexec) hstep, hlead⟩

end Tmet.PySyncObj
