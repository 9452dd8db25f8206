import Tmet.Proofs.FifoNetwork.Steps

/-!
# `Tmet.Proofs.FifoNetwork.Connectivity`: connections and the channels they cut

`conn` is a list of node sets, possibly overlapping; two nodes are connected if
some set of the list holds both (`netIsConn_iff`). `connectivity_algebra` says
exactly what each connection operator does to that relation (`connected_addConn`,
`connected_delConn`, `connected_partConn`, `connected_cureConn`). The rest compares
it with what the flush of the same call does to the channels.

`flush_exact`: the flush of a partition or of a deletion empties exactly the
channels it cuts, and takes no sender and no receiver out of the domains.

`CutLinksEmpty`: with flushes on, a channel that holds a message joins two
connected nodes. The operators disconnect exactly such pairs of nodes whose
channels their flush empties.
-/

set_option autoImplicit false

namespace Tmet.FifoNetwork

open Tmet.Lib

variable {ν α γ : Type}

/-! ### The connection relation -/

/-- Some set of the list holds both nodes. -/
def Connected (conn : List (Finset ν)) (a b : ν) : Prop := ∃ p ∈ conn, a ∈ p ∧ b ∈ p

variable [DecidableEq ν]

theorem netIsConn_iff_connected {v : Vars ν α} {a b : ν} :
    netIsConn v a b ↔ Connected v.netman.conn a b :=
  netIsConn_iff

/-- Adding a set connects its nodes and takes no connection away: a set that is
removed is contained in the new one. -/
theorem connected_addConn {S : Finset ν} {conn : List (Finset ν)} {a b : ν} (hab : a ≠ b) :
    Connected (addConn S conn) a b ↔ Connected conn a b ∨ (a ∈ S ∧ b ∈ S) := by
  unfold addConn
  by_cases hskip : S.card ≤ 1 ∨ 0 < (conn.filter fun p => S ⊆ p).length
  · rw [if_pos hskip]
    -- nothing is added: the set has no two nodes, or another set covers it
    refine ⟨Or.inl, fun h => h.elim id ?_⟩
    rintro ⟨ha, hb⟩
    rcases hskip with hcard | hlen
    · have hone : 1 < S.card := Finset.one_lt_card.mpr ⟨a, ha, b, hb, hab⟩
      omega
    · obtain ⟨p, hp⟩ := List.length_pos_iff_exists_mem.mp hlen
      obtain ⟨hp, hsub⟩ := List.mem_filter.mp hp
      have hsub : S ⊆ p := of_decide_eq_true hsub
      exact ⟨p, hp, hsub ha, hsub hb⟩
  · rw [if_neg hskip]
    have hnew (ha : a ∈ S) (hb : b ∈ S) :
        Connected ((conn.filter fun p => ¬ p ⊆ S) ++ [S]) a b :=
      ⟨S, List.mem_append_right _ (List.mem_singleton_self S), ha, hb⟩
    constructor
    · rintro ⟨p, hp, ha, hb⟩
      rcases List.mem_append.mp hp with hp | hp
      · exact Or.inl ⟨p, List.mem_of_mem_filter hp, ha, hb⟩
      · obtain rfl := List.mem_singleton.mp hp
        exact Or.inr ⟨ha, hb⟩
    · rintro (⟨p, hp, ha, hb⟩ | ⟨ha, hb⟩)
      · by_cases hsub : p ⊆ S
        · -- the set is dropped, and the new one connects its nodes
          exact hnew (hsub ha) (hsub hb)
        · have hkept : p ∈ conn.filter fun p => ¬ p ⊆ S :=
            List.mem_filter.mpr ⟨hp, by simpa using hsub⟩
          exact ⟨p, List.mem_append_left _ hkept, ha, hb⟩
      · exact hnew ha hb

/-- Deleting nodes disconnects them and keeps every two other nodes connected. -/
theorem connected_delConn {S : Finset ν} {conn : List (Finset ν)} {a b : ν} (hab : a ≠ b) :
    Connected (delConn S conn) a b ↔ Connected conn a b ∧ ¬ Touches S a b := by
  constructor
  · rintro ⟨p, hp, ha, hb⟩
    obtain ⟨q, hq, rfl, -⟩ := mem_delConn.mp hp
    obtain ⟨ha, haS⟩ := Finset.mem_sdiff.mp ha
    obtain ⟨hb, hbS⟩ := Finset.mem_sdiff.mp hb
    exact ⟨⟨q, hq, ha, hb⟩, fun h => h.elim haS hbS⟩
  · rintro ⟨⟨q, hq, ha, hb⟩, hno⟩
    have ha' : a ∈ q \ S := Finset.mem_sdiff.mpr ⟨ha, fun h => hno (Or.inl h)⟩
    have hb' : b ∈ q \ S := Finset.mem_sdiff.mpr ⟨hb, fun h => hno (Or.inr h)⟩
    -- two different nodes are left in the set, so it is not dropped
    have hcard : 1 < (q \ S).card := Finset.one_lt_card.mpr ⟨a, ha', b, hb', hab⟩
    exact ⟨q \ S, mem_delConn.mpr ⟨q, hq, rfl, hcard⟩, ha', hb'⟩

/-- A partition connects the nodes of `S`, keeps every two connected nodes outside
of it connected, and connects no other two. -/
theorem connected_partConn {S : Finset ν} {conn : List (Finset ν)} {a b : ν} (hab : a ≠ b) :
    Connected (partConn S conn) a b
      ↔ (a ∈ S ∧ b ∈ S) ∨ (a ∉ S ∧ b ∉ S ∧ Connected conn a b) := by
  unfold partConn
  rw [connected_addConn hab, connected_delConn hab]
  unfold Touches
  constructor
  · rintro (⟨hconn, hno⟩ | hS)
    · exact Or.inr ⟨fun ha => hno (Or.inl ha), fun hb => hno (Or.inr hb), hconn⟩
    · exact Or.inl hS
  · rintro (hS | ⟨ha, hb, hconn⟩)
    · exact Or.inr hS
    · exact Or.inl ⟨hconn, fun h => h.elim ha hb⟩

omit [DecidableEq ν] in
/-- A cure connects every two nodes. -/
theorem connected_cureConn {v : Vars ν α} {a b : ν} (ha : a ∈ getNodes v) (hb : b ∈ getNodes v) :
    Connected ((netCureConn v : Args ν α γ).apply v).netman.conn a b :=
  ⟨getNodes v, List.mem_singleton_self _, ha, hb⟩

/-- What the connection operators do to the connection of two different nodes, for
every connection list: `_AddConn` connects the nodes of its set, `_DelConn`
disconnects them, `_PartConn` does both, and `NetCureConn` connects all nodes. -/
theorem connectivity_algebra (conn : List (Finset ν)) (S : Finset ν) (v : Vars ν α) (x y : ν)
    (hxy : x ≠ y) :
    (Connected (addConn S conn) x y ↔ Connected conn x y ∨ ({x, y} : Finset ν) ⊆ S)
      ∧ (Connected (delConn S conn) x y ↔ Connected conn x y ∧ x ∉ S ∧ y ∉ S)
      ∧ (Connected (partConn S conn) x y
          ↔ (x ∈ S ∧ y ∈ S) ∨ (x ∉ S ∧ y ∉ S ∧ Connected conn x y))
      ∧ (x ∈ getNodes v → y ∈ getNodes v
          → netIsConn ((netCureConn v : Args ν α γ).apply v) x y) := by
  -- both nodes are in `S`, and neither is
  have hpair : ({x, y} : Finset ν) ⊆ S ↔ x ∈ S ∧ y ∈ S := by
    rw [Finset.insert_subset_iff, Finset.singleton_subset_iff]
  have htouch : ¬ Touches S x y ↔ x ∉ S ∧ y ∉ S := not_or
  refine ⟨?_, ?_, connected_partConn hxy, ?_⟩
  · rw [connected_addConn hxy, hpair]
  · rw [connected_delConn hxy, htouch]
  · intro hx hy
    exact netIsConn_iff_connected.mpr (connected_cureConn hx hy)

/-- Nodes `0` and `2` of the overlapping connections `{0, 1}` and `{1, 2}` are not
connected; adding `{0, 2}` connects them. -/
theorem connectivity_algebra_overlapping :
    ¬ Connected [{0, 1}, {1, 2}] 0 2 ∧ Connected (addConn {0, 2} [{0, 1}, {1, 2}]) 0 2 := by
  have halg := connectivity_algebra (γ := Unit) [{0, 1}, {1, 2}] {0, 2} connected.toVars 0 2
    (by decide)
  refine ⟨by simp [Connected], halg.1.mpr (Or.inr ?_)⟩
  exact Finset.Subset.refl _

/-! ### What a flush empties -/

/-- With flushes on, a partition empties exactly the channels with one end in `S`
and a deletion exactly those with some end in `S`, in whatever order the nodes are
picked; every other channel is unchanged, and so are the senders and the receivers
of each sender. -/
theorem flush_exact (P : Params ν) (hP : P.flushDisconn = true) {nodes S : Finset ν}
    {v : Vars ν α} (hwf : WellFormed nodes v.msgs) (hS : S ⊆ nodes) :
    let part := (netUpdate v (netPartConn P v S : Args ν α γ)).msgs
    let del := (netUpdate v (netDelConn P v S : Args ν α γ)).msgs
    (∀ a b, chan? part a b = (chan? v.msgs a b).map fun l => if Xor (a ∈ S) (b ∈ S) then [] else l)
      ∧ (∀ a b, chan? del a b = (chan? v.msgs a b).map fun l => if a ∈ S ∨ b ∈ S then [] else l)
      ∧ (part.dom = v.msgs.dom ∧ ∀ a, (part.get a).map FinFn.dom = (v.msgs.get a).map FinFn.dom)
      ∧ (del.dom = v.msgs.dom
          ∧ ∀ a, (del.get a).map FinFn.dom = (v.msgs.get a).map FinFn.dom) := by
  intro part del
  have hpart : part = flushMsgs P S v.msgs := by
    show (netPartConn P v S : Args ν α γ).msgs = _
    rw [netPartConn, if_pos hP]
  have hdel : del = flushMsgsDel P S v.msgs := by
    show (netDelConn P v S : Args ν α γ).msgs = _
    rw [netDelConn, if_pos hP]
  have hwfp : WellFormed nodes part := hpart ▸ hwf.flushMsgs P hS
  have hwfd : WellFormed nodes del := hdel ▸ hwf.flushMsgsDel P hS
  refine ⟨fun a b => ?_, fun a b => ?_, ?_, ?_⟩
  -- the flush goes over pairs of one node in `S` and one outside
  · refine hwf.chan?_eq_map hwfp ?_
    have hcross : Crosses S a b ↔ Xor (a ∈ S) (b ∈ S) := by
      unfold Crosses Xor
      tauto
    rw [hpart, chan_flushMsgs]
    simp only [hcross]
  · refine hwf.chan?_eq_map hwfd ?_
    rw [hdel, chan_flushMsgsDel]
    rfl
  · exact ⟨hwfp.dom.trans hwf.dom.symm, hwf.receivers_eq hwfp⟩
  · exact ⟨hwfd.dom.trans hwf.dom.symm, hwf.receivers_eq hwfd⟩

/-- A message on the way from `0` to `1` is flushed when `0` is cut off, and stays
when both nodes are on one side. -/
theorem flush_exact_afterSend :
    chan? afterSend.msgs 0 1 = some [⟨1, ()⟩]
      ∧ chan? (netUpdate afterSend.toVars (netPartConn flushing afterSend.toVars {0}
          : Args ℕ Unit Unit)).msgs 0 1 = some []
      ∧ chan? (netUpdate afterSend.toVars (netPartConn flushing afterSend.toVars {0, 1}
          : Args ℕ Unit Unit)).msgs 0 1 = some [⟨1, ()⟩] := by
  have hwf : WellFormed {0, 1} afterSend.msgs :=
    (wellFormed_init (α := Unit) (γ := Unit) {0, 1}).exceptChan 0 1 (· ++ [⟨1, ()⟩])
  have hsent : chan? afterSend.msgs 0 1 = some [⟨1, ()⟩] := by decide
  refine ⟨hsent, ?_, ?_⟩
  · rw [(flush_exact flushing rfl hwf (S := {0}) (by decide)).1, hsent]
    decide
  · rw [(flush_exact flushing rfl hwf (S := {0, 1}) (by decide)).1, hsent]
    decide

/-! ### Channels and connections -/

/-- A channel that holds a message joins two connected nodes. -/
def CutLinksEmpty (v : Vars ν α) : Prop :=
  ∀ a b, a ≠ b → chan v.msgs a b ≠ [] → Connected v.netman.conn a b

/-- A message is only taken in on a connected link. -/
theorem Op.connected_of_accepted {v : Vars ν α} {op : Op ν α γ} {a b : ν}
    (h : onChan a b (op.accepted v) ≠ []) : Connected v.netman.conn a b := by
  obtain ⟨m, hm⟩ := List.exists_mem_of_ne_nil _ h
  obtain ⟨hmem, hab⟩ := List.mem_filter.mp hm
  obtain ⟨rfl, rfl⟩ := of_decide_eq_true hab
  have hconn := (List.mem_filter.mp (mem_numbered hmem)).2
  exact netIsConn_iff.mp (of_decide_eq_true hconn)

/-- Every call with node arguments from the node set keeps it, when disconnected
channels are flushed. -/
theorem CutLinksEmpty.step {P : Params ν} (hP : P.flushDisconn = true) {nodes : Finset ν}
    {v v' : Vars ν α} {op : Op ν α γ} (hok : NetOk nodes v) (h : CutLinksEmpty v)
    (heff : op.Effect P v v') : CutLinksEmpty v' := by
  intro a b hab hne
  cases heff with
  | traffic _ _ =>
      show Connected v.netman.conn a b
      by_cases hacc : onChan a b (op.accepted v) = []
      · -- nothing came in on this link, so a message was there before
        refine h a b hab fun hnil => hne ?_
        have hchan := op.sublist_traffic v a b
        rw [hacc, hnil] at hchan
        exact (List.append_eq_nil_iff.mp (List.sublist_nil.mp hchan)).2
      · exact Op.connected_of_accepted hacc
  | addConn S => exact (connected_addConn hab).mpr (Or.inl (h a b hab hne))
  | delConnFlush S _ =>
      have hchan : chan (flushMsgsDel P S v.msgs) a b ≠ [] := hne
      rw [chan_flushMsgsDel] at hchan
      by_cases hcut : Touches S a b
      · rw [if_pos hcut] at hchan
        exact absurd rfl hchan
      · rw [if_neg hcut] at hchan
        exact (connected_delConn hab).mpr ⟨h a b hab hchan, hcut⟩
  | delConn S hf =>
      rw [hP] at hf
      exact absurd hf (by decide)
  | partConnFlush S _ _ =>
      have hchan : chan (flushMsgs P S v.msgs) a b ≠ [] := hne
      rw [chan_flushMsgs] at hchan
      by_cases hcut : Crosses S a b
      · rw [if_pos hcut] at hchan
        exact absurd rfl hchan
      · rw [if_neg hcut] at hchan
        refine (connected_partConn hab).mpr ?_
        -- the link is kept, so its two ends are on one side
        by_cases ha : a ∈ S
        · exact Or.inl ⟨ha, not_not.mp fun hb => hcut (Or.inl ⟨ha, hb⟩)⟩
        · exact Or.inr ⟨ha, fun hb => hcut (Or.inr ⟨ha, hb⟩), h a b hab hchan⟩
  | partConn S hf _ =>
      rw [hP] at hf
      exact absurd hf (by decide)
  | cureConn _ =>
      -- one set of all nodes, and a message lies between two of them
      obtain ⟨ha, hb, -⟩ := hok.wf.carries.proper a b hne
      have hdom : getNodes v = nodes := hok.wf.dom
      exact connected_cureConn (γ := γ) (hdom ▸ ha) (hdom ▸ hb)

/-- No message on a cut link: with flushes on and node arguments from the node
set, in every reachable state a non-empty channel joins two connected nodes, and
every node has channels to exactly the other nodes. -/
theorem no_message_on_cut_link (P : Params ν) (hP : P.flushDisconn = true) (nodes : Finset ν)
    (tr : List (Step (Net ν α γ) (Op ν α γ))) (s : Net ν α γ)
    (h : (api P nodes (Op.NodesIn nodes)).Run tr s) :
    (∀ a b, a ≠ b → chan s.msgs a b ≠ [] → netIsConn s.toVars a b)
      ∧ s.msgs.dom = nodes ∧ ∀ a f, s.msgs.get a = some f → f.dom = nodes \ {a} := by
  have hinv : NetOk nodes s.toVars ∧ CutLinksEmpty s.toVars := by
    refine System.Run.state_invariant
      (P := fun s => NetOk nodes s.toVars ∧ CutLinksEmpty s.toVars) ?_ ?_ h
    · rintro s rfl
      refine ⟨NetOk.init nodes, fun a b _ hne => ?_⟩
      exact absurd (chan_init nodes a b) hne
    · rintro s op s' ⟨hok, hcut⟩ ⟨hop, args, hargs, rfl⟩
      have heff := Op.apply_effect hargs
      exact ⟨hok.step hop heff, hcut.step hP hok heff⟩
  refine ⟨fun a b hab hne => ?_, hinv.1.wf.dom, hinv.1.wf.inner⟩
  exact netIsConn_iff_connected.mpr (hinv.2 a b hab hne)

/-- After the partition of the example run, the link from `0` to `1` is cut and
its channel is empty. -/
theorem no_message_on_cut_link_sendThenPart :
    ¬ netIsConn afterPart.toVars 0 1 ∧ chan afterPart.msgs 0 1 = [] := by
  have hcut : ¬ netIsConn afterPart.toVars 0 1 := by decide
  have hrun := run_sendThenPart (V := Op.NodesIn {0, 1}) trivial (by simp [Op.NodesIn])
  have hlinks := (no_message_on_cut_link flushing rfl {0, 1} sendThenPart afterPart hrun).1
  refine ⟨hcut, ?_⟩
  by_contra hne
  exact hcut (hlinks 0 1 (by decide) hne)

end Tmet.FifoNetwork
