import Tmet.Proofs.FifoNetwork.Steps

/-!
# `Tmet.Proofs.FifoNetwork.Compound`: batches and replies

`NetBatchAddMsg` and `NetReplyMsg` compute their numbers, their drops and their
counters on their own. `compound_eq_sequential` says that they do what the single
operators do one after another: `NetAddMsg` for each message of the batch, and
`NetDelMsg` and then `NetAddMsgSrcDst` for a reply.

Every one of these calls is traffic (`Vars.traffic`), so the comparison is one of
traffic: traffic after traffic is the traffic of both (`traffic_traffic`), the
numbers of a batch go on where the numbers before it end (`numbered_append`), and
traffic leaves the connections alone, so the links that drop a message are the same.
-/

set_option autoImplicit false

namespace Tmet.FifoNetwork

open Tmet.Lib

variable {ν α γ : Type}

/-- The numbers of two batches: the second goes on where the first ends. -/
theorem numbered_append (n : ℕ) (ms ms' : List (Send ν α)) :
    numbered n (ms ++ ms') = numbered n ms ++ numbered (n + ms.length) ms' := by
  induction ms generalizing n with
  | nil => rfl
  | cons m ms ih =>
      have hlen : n + (m :: ms).length = n + 1 + ms.length := by
        simp only [List.length_cons]
        omega
      rw [hlen]
      show _ :: numbered (n + 1) (ms ++ ms') = _
      rw [ih (n + 1)]
      rfl

variable [DecidableEq ν]

/-- Messages that are put in after others have been taken out or put in. -/
theorem traffic_traffic (v : Vars ν α) (dels adds adds' : List (Msg ν α)) :
    (v.traffic dels adds).traffic [] adds' = v.traffic dels (adds ++ adds') := by
  have hmsgs : ((v.traffic dels adds).traffic [] adds').msgs
      = (v.traffic dels (adds ++ adds')).msgs := by
    show adds'.foldl push (adds.foldl push (dels.foldl pop v.msgs)) = _
    rw [← List.foldl_append]
    rfl
  have hman : ((v.traffic dels adds).traffic [] adds').netman
      = (v.traffic dels (adds ++ adds')).netman := by
    simp only [Vars.traffic, List.length_append, List.length_nil, Netman.mk.injEq, and_true]
    push_cast
    omega
  exact congrArg₂ Vars.mk hmsgs hman

/-- The messages of a list that the network takes, numbered on. -/
def Vars.takes (v : Vars ν α) (ms : List (Send ν α)) : List (Msg ν α) :=
  numbered v.netman.nSent (ms.filter fun m => netIsConn v m.src m.dst)

/-- What is taken after other traffic: the same links are connected, and the numbers
go on. -/
theorem takes_traffic (v : Vars ν α) (dels adds : List (Msg ν α)) (ms : List (Send ν α)) :
    (v.traffic dels adds).takes ms
      = numbered (v.netman.nSent + adds.length) (ms.filter fun m => netIsConn v m.src m.dst) :=
  rfl

theorem takes_append (v : Vars ν α) (ms ms' : List (Send ν α)) :
    v.takes (ms ++ ms') = v.takes ms ++ (v.traffic [] (v.takes ms)).takes ms' := by
  rw [takes_traffic]
  unfold Vars.takes
  rw [List.filter_append, numbered_append, length_numbered]

/-- The sends of a list, one after another. -/
theorem foldl_netAddMsg (v : Vars ν α) (ms : List (Send ν α)) :
    ms.foldl (fun v m => (netUpdate v (netAddMsg v m : Args ν α γ)).toVars) v
      = v.traffic [] (v.takes ms) := by
  induction ms using List.reverseRecOn with
  | nil => simp [Vars.traffic, Vars.takes, numbered]
  | append_singleton ms m ih =>
      rw [List.foldl_append, ih]
      show (netAddMsgSrcDst _ m.src m.dst m.body : Args ν α γ).apply _ = _
      rw [apply_netAddMsgSrcDst]
      show (v.traffic [] (v.takes ms)).traffic [] ((v.traffic [] (v.takes ms)).takes [m]) = _
      rw [traffic_traffic, takes_append]

/-- A batch does what its messages do one after another, and a reply what the
deletion and the send do. In every state, for every batch, and for every head `q` and
response `r`, `_netman` and `_msgs` are the same. -/
theorem compound_eq_sequential (v : Vars ν α) :
    (∀ ms : List (Send ν α),
        (netUpdate v (netBatchAddMsg v ms : Args ν α γ)).toVars
          = ms.foldl (fun v m => (netUpdate v (netAddMsg v m : Args ν α γ)).toVars) v)
      ∧ ∀ (a b : ν) (q : Msg ν α) (r : α), netGetMsg v a b = some q →
          ∃ reply del : Args ν α γ, netReplyMsg v r q = .ok reply ∧ netDelMsg v q = .ok del
            ∧ (netUpdate v reply).toVars
                = (netUpdate (netUpdate v del).toVars
                    (netAddMsgSrcDst (netUpdate v del).toVars q.dst q.src r
                      : Args ν α γ)).toVars := by
  constructor
  · intro ms
    rw [foldl_netAddMsg]
    exact apply_netBatchAddMsg v ms
  · intro a b q r hq
    -- `q` is the head of its channel, so the assertion of `_DelMsg` holds
    have hdelMsg : delMsg q v.msgs = .ok (1, pop v.msgs q) := delMsg_of_getMsg hq
    obtain ⟨del, hdel⟩ : ∃ del : Args ν α γ, netDelMsg v q = .ok del := by
      simp only [netDelMsg, hdelMsg, bind, Except.bind]
      exact ⟨_, rfl⟩
    obtain ⟨reply, hreply⟩ : ∃ reply : Args ν α γ, netReplyMsg v r q = .ok reply := by
      simp only [netReplyMsg, replyMsg, hdelMsg, bind, Except.bind]
      split <;> exact ⟨_, rfl⟩
    refine ⟨reply, del, hreply, hdel, ?_⟩
    show reply.apply v = (netAddMsgSrcDst (del.apply v) q.dst q.src r : Args ν α γ).apply (del.apply v)
    rw [apply_netReplyMsg hq r hreply, apply_netDelMsg hq hdel, apply_netAddMsgSrcDst,
      traffic_traffic]
    rfl

/-- The reply to the message of the example run. -/
theorem compound_eq_sequential_afterSend :
    ∃ reply del : Args ℕ Unit Unit,
      netReplyMsg afterSend.toVars () ⟨0, 1, 1, ()⟩ = .ok reply
        ∧ netDelMsg afterSend.toVars ⟨0, 1, 1, ()⟩ = .ok del
        ∧ (netUpdate afterSend.toVars reply).toVars
            = (netUpdate (netUpdate afterSend.toVars del).toVars
                (netAddMsgSrcDst (netUpdate afterSend.toVars del).toVars 1 0 ()
                  : Args ℕ Unit Unit)).toVars :=
  (compound_eq_sequential afterSend.toVars).2 0 1 ⟨0, 1, 1, ()⟩ () (by decide)

end Tmet.FifoNetwork
