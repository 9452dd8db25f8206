import Tmet.Proofs.PySyncObj.Actions

/-!
# `Tmet.Proofs.PySyncObj.Broadcast`: one request to every other server

`ElectionTimeout(n)` goes through two recursions. The function `F` builds one
request for each other server, in the order `CHOOSE` names them
(`electionF_eq`), and `_BatchAddMsgs` appends those whose link is connected and
numbers them on from `n_sent` (`apply_netBatchAddMsg`).

`onChan_broadcast` reads off what such a batch puts on one channel: its peers are
different, so each channel gets one message, and the number of it is the place of
the peer among the connected ones. `electionTimeout_broadcast` is the result for
every reachable state, where every two servers have their channel
(`netOk_of_run`).
-/

set_option autoImplicit false

namespace Tmet.PySyncObj

open Tmet.Lib
open Tmet.FifoNetwork

variable {ν κ : Type} [DecidableEq ν]

/-! ### A batch to different peers -/

section Batch

variable {α : Type}

/-- One body from `n` to each peer. -/
def broadcast (n : ν) (x : α) (peers : List ν) : List (Send ν α) := peers.map fun p => ⟨n, p, x⟩

theorem onChan_cons (a b : ν) (m : Msg ν α) (ms : List (Msg ν α)) :
    onChan a b (m :: ms) = if m.src = a ∧ m.dst = b then m :: onChan a b ms else onChan a b ms := by
  unfold onChan
  rw [List.filter_cons]
  simp only [decide_eq_true_eq]

/-- No message for a channel that starts elsewhere or ends at no peer. -/
theorem onChan_broadcast_of_not (n : ν) (x : α) {a b : ν} {peers : List ν}
    (h : ¬ (a = n ∧ b ∈ peers)) (k : ℕ) :
    onChan a b (numbered k (broadcast n x peers)) = [] := by
  refine List.filter_eq_nil_iff.mpr fun m hm => ?_
  obtain ⟨p, hp, hpm⟩ := List.mem_map.mp (mem_numbered hm)
  have hsrc : m.src = n := (congrArg Send.src hpm).symm
  have hdst : m.dst = p := (congrArg Send.dst hpm).symm
  simp only [decide_eq_true_eq]
  intro hab
  exact h ⟨hab.1.symm.trans hsrc, by rw [← hab.2, hdst]; exact hp⟩

/-- One message for each peer, numbered by its place. -/
theorem onChan_broadcast (n : ν) (x : α) (peers : List ν) (hnd : peers.Nodup) (k i : ℕ)
    (hi : i < peers.length) :
    onChan n peers[i] (numbered k (broadcast n x peers)) = [⟨n, peers[i], k + i + 1, x⟩] := by
  induction peers generalizing k i with
  | nil => exact absurd hi (Nat.not_lt_zero i)
  | cons p peers ih =>
      obtain ⟨hp, hnd⟩ := List.nodup_cons.mp hnd
      show onChan n (p :: peers)[i] (⟨n, p, k + 1, x⟩ :: numbered (k + 1) (broadcast n x peers)) = _
      cases i with
      | zero =>
          -- its own message, and none of the later ones
          rw [List.getElem_cons_zero, onChan_cons, if_pos ⟨rfl, rfl⟩,
            onChan_broadcast_of_not n x fun h => hp h.2]
      | succ i =>
          have hi : i < peers.length := by simpa using hi
          have hne : p ≠ peers[i] := fun h => hp (h ▸ List.getElem_mem hi)
          rw [List.getElem_cons_succ, onChan_cons, if_neg fun h => hne h.2, ih hnd (k + 1) i hi,
            show k + 1 + i + 1 = k + (i + 1) + 1 by omega]

end Batch

/-! ### The channels in reachable states -/

variable [Fintype ν] {pick : Choose ν}

/-- The network call of a step has its nodes among the servers. -/
theorem Effect.netOk {s s' : State ν κ} {a : Action ν} (hs : Effect pick s a s')
    (h : NetOk Finset.univ s.net.toVars) : NetOk Finset.univ s'.net.toVars := by
  have hcall {op : Op ν Body (Cmd ν)} {cmd : Cmd ν} {net' : Net ν Body (Cmd ν)}
      (hnet : NetCall pick s op cmd net') (hop : op.NodesIn Finset.univ) :
      NetOk Finset.univ net'.toVars := by
    obtain ⟨args, hargs, rfl⟩ := hnet
    exact h.step hop (Op.apply_effect hargs)
  cases hs with
  | vote _ _ _ _ _ _ _ _ _ hnet => exact hcall hnet trivial
  | refuse _ _ _ _ _ _ _ _ _ hnet => exact hcall hnet trivial
  | becomeLeader _ _ _ _ _ _ _ _ _ hnet => exact hcall hnet trivial
  | notQuorum _ _ _ _ _ _ _ _ _ _ hnet => exact hcall hnet trivial
  | ignore _ _ _ _ _ _ _ _ _ hnet => exact hcall hnet trivial
  | timeout _ _ hnet => exact hcall hnet trivial
  | partition _ _ hnet => exact hcall hnet (Finset.subset_univ {_})
  | cure _ hnet => exact hcall hnet trivial

/-- In every reachable state every server has a channel to every other one. -/
theorem netOk_of_run {tr : List (Step (State ν κ) (Action ν))} {s : State ν κ}
    (h : (spec pick).Run tr s) : NetOk Finset.univ s.net.toVars := by
  refine System.Run.state_invariant (P := fun s => NetOk Finset.univ s.net.toVars) ?_ ?_ h
  · rintro s rfl
    exact NetOk.init Finset.univ
  · intro s a s' hok hstep
    exact (nextBy_iff_effect.mp hstep).netOk hok

/-! ### The timeout -/

/-- The peers the requests of `n` reach, in their order. -/
def reached (pick : Choose ν) (s : State ν κ) (n : ν) : List ν :=
  (pick.order (Finset.univ \ {n})).filter fun p => netIsConn s.net.toVars n p

theorem nodup_reached (s : State ν κ) (n : ν) : (reached pick s n).Nodup :=
  (pick.nodup_order _).filter _

theorem mem_reached {s : State ν κ} {n p : ν} :
    p ∈ reached pick s n ↔ p ≠ n ∧ netIsConn s.net.toVars n p := by
  unfold reached
  rw [List.mem_filter, Choose.mem_order]
  simp

/-- The requests the network takes. -/
theorem filter_requests (s : State ν κ) (n : ν) :
    ((requests pick s n).filter fun m => netIsConn s.net.toVars m.src m.dst)
      = broadcast n (.rv (requestData s n)) (reached pick s n) := by
  unfold requests broadcast reached
  rw [List.filter_map]
  rfl

/-- The network after a timeout: the requests to the connected peers are put in. -/
theorem net_of_timeout {s s' : State ν κ} {n : ν} (h : ElectionTimeout pick s n s') :
    s'.net.toVars = s.net.toVars.traffic [] (numbered s.net.netman.nSent
      (broadcast n (.rv (requestData s n)) (reached pick s n))) := by
  obtain ⟨-, args, hargs, hnet⟩ := electionTimeout_iff.mp h
  obtain rfl := Except.ok.inj hargs
  rw [← filter_requests, hnet]
  exact apply_netBatchAddMsg s.net.toVars (requests pick s n)

/-- A timeout is enabled in every state. -/
theorem exists_electionTimeout (s : State ν κ) (n : ν) : ∃ s', ElectionTimeout pick s n s' := by
  let op : Op ν Body (Cmd ν) := .batchAddMsg (requests pick s n)
  have hcall : NetCall pick s op (.electionTimeout n) (afterCall pick s op (.electionTimeout n)) :=
    netCall_afterCall (.electionTimeout n) rfl
  exact ⟨_, nextBy_iff_effect.mpr (Effect.timeout n _ hcall)⟩

/-- In every reachable state a timeout of `n` can be taken, whatever order its
peers are picked in, and its assertion holds: no destination remains. It appends
one request of the new term to the channel of each connected peer, numbered in
the order of the peers, and leaves every other channel alone. -/
theorem electionTimeout_broadcast (pick : Choose ν)
    (tr : List (Step (State ν κ) (Action ν))) (s : State ν κ) (h : (spec pick).Run tr s) (n : ν) :
    (∃ s', (spec pick).step s (.electionTimeout n) s')
      ∧ (∀ data, (electionF pick n data (Finset.univ \ {n}) (Finset.univ \ {n}).card).2.card = 0)
      ∧ ∀ s', (spec pick).step s (.electionTimeout n) s' →
          ∃ peers : List ν, peers.Nodup
            ∧ (∀ p, p ∈ peers ↔ p ≠ n ∧ netIsConn s.net.toVars n p)
            ∧ (∀ i (hi : i < peers.length), ∃ l data, data.term = s.currentTerm n + 1
                ∧ chan? s.net.msgs n peers[i] = some l
                ∧ chan? s'.net.msgs n peers[i]
                    = some (l ++ [⟨s.net.netman.nSent + i + 1, .rv data⟩]))
            ∧ (∀ a b, ¬ (a = n ∧ b ∈ peers) → chan? s'.net.msgs a b = chan? s.net.msgs a b)
            ∧ s'.net.netman.nSent = s.net.netman.nSent + peers.length
            ∧ s'.net.netman.nWire = s.net.netman.nWire + peers.length := by
  refine ⟨exists_electionTimeout s n, fun data => ?_, fun s' hstep => ?_⟩
  · rw [electionF_eq]
    rfl
  have hwf := (netOk_of_run h).wf
  have hstep : NextBy pick s (.electionTimeout n) s' := hstep
  have hwf' := ((nextBy_iff_effect.mp hstep).netOk (netOk_of_run h)).wf
  have hnet := net_of_timeout hstep
  -- every connected peer has a channel, so no message of the batch is lost
  have hpeer (p : ν) (hp : p ∈ reached pick s n) : (chan? s.net.msgs n p).isSome :=
    hwf.isSome_chan?_iff.mpr ⟨Finset.mem_univ n, Finset.mem_univ p, (mem_reached.mp hp).1⟩
  have hall : withChan s.net.msgs (numbered s.net.netman.nSent
        (broadcast n (.rv (requestData s n)) (reached pick s n)))
      = numbered s.net.netman.nSent (broadcast n (.rv (requestData s n)) (reached pick s n)) := by
    refine List.filter_eq_self.mpr fun m hm => ?_
    obtain ⟨p, hp, hpm⟩ := List.mem_map.mp (mem_numbered hm)
    rw [← show n = m.src from congrArg Send.src hpm, ← show p = m.dst from congrArg Send.dst hpm]
    exact hpeer p hp
  have hchan (a b : ν) : chan s'.net.msgs a b
      = chan s.net.msgs a b ++ (onChan a b (numbered s.net.netman.nSent
          (broadcast n (.rv (requestData s n)) (reached pick s n)))).map Msg.wired := by
    have happ := chan_foldl_push (numbered s.net.netman.nSent
      (broadcast n (.rv (requestData s n)) (reached pick s n))) s.net.msgs a b
    rw [hall] at happ
    rw [congrArg Vars.msgs hnet]
    exact happ
  refine ⟨reached pick s n, nodup_reached s n, fun p => mem_reached, fun i hi => ?_,
    fun a b hab => ?_, ?_, ?_⟩
  · obtain ⟨l, hl⟩ := Option.isSome_iff_exists.mp (hpeer _ (List.getElem_mem hi))
    refine ⟨l, requestData s n, rfl, hl, ?_⟩
    have hone := hchan n (reached pick s n)[i]
    rw [onChan_broadcast n _ _ (nodup_reached s n)] at hone
    rw [hwf.chan?_eq_map hwf' (k := (· ++ [⟨s.net.netman.nSent + i + 1, .rv (requestData s n)⟩]))
      hone, hl]
    rfl
  · have hsame := hchan a b
    rw [onChan_broadcast_of_not n _ hab, List.map_nil, List.append_nil] at hsame
    rw [hwf.chan?_eq_map hwf' (k := id) hsame, Option.map_id]
    rfl
  · have hsent := congrArg (fun v => v.netman.nSent) hnet
    simpa [Vars.traffic, broadcast] using hsent
  · have hwire := congrArg (fun v => v.netman.nWire) hnet
    simpa [Vars.traffic, broadcast] using hwire

/-- Three servers, all connected: a timeout of server `0` in the initial state
sends two messages. -/
theorem electionTimeout_broadcast_init :
    ∃ s' : State (Fin 3) Unit, (spec (.smallest (Fin 3))).step init (.electionTimeout 0) s'
      ∧ s'.net.netman.nSent = 2 := by
  obtain ⟨⟨s', hs'⟩, -, hbroad⟩ := electionTimeout_broadcast (.smallest (Fin 3)) [] (init (κ := Unit))
    (.nil rfl) 0
  obtain ⟨peers, hnd, hmem, -, -, hsent, -⟩ := hbroad s' hs'
  have hpeers : peers.toFinset = {1, 2} := by
    ext p
    rw [List.mem_toFinset, hmem]
    revert p
    decide
  refine ⟨s', hs', ?_⟩
  rw [hsent, ← List.toFinset_card_of_nodup hnd, hpeers]
  rfl

end Tmet.PySyncObj
