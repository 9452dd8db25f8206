import Tmet.Lib.Links
import Tmet.Proofs.FifoNetwork.Connectivity

/-!
# `Tmet.Proofs.FifoNetwork.Reliable`: the FIFO network as links with queues

What the module is for: a network of FIFO links that can be cut (`links`). A call takes and
sends messages, or changes the links of a set of nodes (`Op.linkActs`). `Represents` reads a
state of the module as a state of the links: two nodes have the link up if some connection
holds both, and the queue holds the bodies in the channel.

`simulates_links` is the step lemma. The rule of the links for a link that is not cut then
holds of the module.
-/

set_option autoImplicit false

namespace Tmet.FifoNetwork

open Tmet.Lib

variable {ν α γ : Type} [DecidableEq ν]

/-- What a call asks of the links. -/
def Op.linkActs (v : Vars ν α) : Op ν α γ → List (LinkAct ν α)
  | .addConn S => [.join S]
  | .delConn S => [.isolate S]
  | .partConn S => [.split S]
  | .cureConn => [.cure]
  | op =>
      (op.delivered v).map (fun m => .deliver m.src m.dst m.body)
        ++ (op.sends v).map fun m => .send m.src m.dst m.body

omit [DecidableEq ν] in
theorem Op.linkActs_of_not_reconnects {op : Op ν α γ} (h : ¬ op.Reconnects) (v : Vars ν α) :
    op.linkActs v = (op.delivered v).map (fun m => .deliver m.src m.dst m.body)
      ++ (op.sends v).map fun m => .send m.src m.dst m.body := by
  cases op with
  | addConn _ => exact absurd trivial h
  | delConn _ => exact absurd trivial h
  | partConn _ => exact absurd trivial h
  | cureConn => exact absurd trivial h
  | _ => rfl

/-- What a call hands in for the channel from `a` to `b`. -/
def Op.sentOn (v : Vars ν α) (op : Op ν α γ) (a b : ν) : List α :=
  ((op.sends v).filter fun m => m.src = a ∧ m.dst = b).map Send.body

/-- What a call takes from the channel from `a` to `b`. -/
def Op.takenFrom (v : Vars ν α) (op : Op ν α γ) (a b : ν) : List α :=
  (onChan a b (op.delivered v)).map Msg.body

/-- The bodies in the channel from `a` to `b`. -/
def bodies (msgs : Msgs ν α) (a b : ν) : List α := (chan msgs a b).map Wired.body

/-- The state of the links that a state of the module stands for, as far as two different
nodes of the node set go. -/
structure Represents (nodes : Finset ν) (v : Vars ν α) (l : Links ν α) : Prop where
  up : ∀ a ∈ nodes, ∀ b ∈ nodes, a ≠ b → (l.up a b ↔ Connected v.netman.conn a b)
  queue : ∀ a ∈ nodes, ∀ b ∈ nodes, a ≠ b → l.queue a b = bodies v.msgs a b

/-- What the messages of a call that are taken in add to a channel: nothing if its link is
cut, otherwise all that are sent on it. -/
theorem bodies_onChan_numbered (v : Vars ν α) (ms : List (Send ν α)) (n : ℕ) (a b : ν) :
    (onChan a b (numbered n (ms.filter fun m => netIsConn v m.src m.dst))).map Msg.body
      = if netIsConn v a b then (ms.filter fun m => m.src = a ∧ m.dst = b).map Send.body
        else [] := by
  induction ms generalizing n with
  | nil => simp [numbered, onChan]
  | cons m ms ih =>
      by_cases hconn : netIsConn v m.src m.dst
      · have htail := ih (n + 1)
        rw [List.filter_cons_of_pos (by simpa using hconn), numbered]
        by_cases hab : m.src = a ∧ m.dst = b
        · obtain ⟨rfl, rfl⟩ := hab
          simp only [if_pos hconn] at htail ⊢
          simpa [onChan] using htail
        · simpa [onChan, hab] using htail
      · -- the message is lost, so the link is another one or is cut
        rw [List.filter_cons_of_neg (by simpa using hconn), ih n]
        by_cases hab : m.src = a ∧ m.dst = b
        · obtain ⟨rfl, rfl⟩ := hab
          simp only [if_neg hconn]
        · simp [hab]

variable {P : Params ν} {nodes : Finset ν} {v v' : Vars ν α} {op : Op ν α γ} {l : Links ν α}

/-- A call takes what it delivers from the fronts of the channels. -/
theorem Op.bodies_delivered (v : Vars ν α) (op : Op ν α γ) (a b : ν) :
    bodies v.msgs a b
      = op.takenFrom v a b ++ bodies (v.traffic (op.delivered v) []).msgs a b := by
  rw [bodies, op.chan_foldl_pop v a b, List.map_append, List.map_map]
  rfl

/-- It adds what it sends at the ends, where the link is not cut. -/
theorem Op.bodies_accepted (op : Op ν α γ) (hcarries : Carries nodes v.msgs)
    (hop : op.Between nodes) (a b : ν) :
    bodies (v.traffic (op.delivered v) (op.accepted v)).msgs a b
      = bodies (v.traffic (op.delivered v) []).msgs a b
        ++ if netIsConn v a b then op.sentOn v a b else [] := by
  have hadded := chan_foldl_push (op.accepted v) ((op.delivered v).foldl pop v.msgs) a b
  rw [hcarries.withChan_accepted hop] at hadded
  show (chan ((op.accepted v).foldl push ((op.delivered v).foldl pop v.msgs)) a b).map Wired.body
    = _
  rw [hadded, Op.sentOn, ← bodies_onChan_numbered v (op.sends v) v.netman.nSent a b,
    List.map_append, List.map_map]
  rfl

/-- On every channel, a call that moves messages takes from the front and adds at the end. -/
theorem Op.Effect.bodies_moved (heff : op.Effect P v v') (hmoves : ¬ op.Reconnects)
    (hcarries : Carries nodes v.msgs) (hop : op.Between nodes) (a b : ν) :
    bodies v.msgs a b ++ (if netIsConn v a b then op.sentOn v a b else [])
      = op.takenFrom v a b ++ bodies v'.msgs a b := by
  obtain ⟨-, rfl⟩ := heff.traffic_or_reconnected.resolve_right fun h => hmoves h.reconnects
  rw [op.bodies_accepted hcarries hop, ← List.append_assoc, ← op.bodies_delivered]

/-- The heads that a call takes are delivered by the links. -/
theorem Represents.delivers (h : Represents nodes v l) (op : Op ν α γ)
    (hcarries : Carries nodes v.msgs) :
    ∃ post l', (links ν α P.flushDisconn).Exec l post l'
      ∧ post.map Step.act = (op.delivered v).map (fun m => .deliver m.src m.dst m.body)
      ∧ Represents nodes (v.traffic (op.delivered v) []) l' := by
  rcases op.delivered_cases v with hnil | ⟨m, rest, hm, hhead⟩
  · rw [hnil]
    exact ⟨[], l, .nil, rfl, h.up, h.queue⟩
  · rw [hm]
    have hne : chan v.msgs m.src m.dst = m.wired :: rest := by simp [chan, hhead]
    obtain ⟨hsrc, hdst, hdiff⟩ := hcarries.proper m.src m.dst (by simp [hne])
    have hqueue : l.queue m.src m.dst = m.body :: rest.map Wired.body := by
      rw [h.queue _ hsrc _ hdst hdiff, bodies, hne]
      rfl
    refine ⟨_, _, .single (.deliver hqueue), rfl, h.up, fun a ha b hb hab => ?_⟩
    show _ = bodies (pop v.msgs m) a b
    rw [bodies, chan_pop, Links.setQueue_queue]
    by_cases hon : a = m.src ∧ b = m.dst
    · obtain ⟨rfl, rfl⟩ := hon
      simp [hne]
    · simp only [if_neg hon]
      exact h.queue a ha b hb hab

/-- What a call sends is sent on the links. -/
theorem Represents.sends (h : Represents nodes (v.traffic (op.delivered v) []) l)
    (hcarries : Carries nodes v.msgs) (hop : op.Between nodes) :
    ∃ post l', (links ν α P.flushDisconn).Exec l post l'
      ∧ post.map Step.act = (op.sends v).map (fun m => .send m.src m.dst m.body)
      ∧ Represents nodes (v.traffic (op.delivered v) (op.accepted v)) l' := by
  obtain ⟨post, l', hexec, hacts, hup, hqueue⟩ := Links.exec_sends P.flushDisconn
    ((op.sends v).map fun m => (m.src, m.dst, m.body)) l
  refine ⟨post, l', hexec, by simp [hacts], fun a ha b hb hab => ?_, fun a ha b hb hab => ?_⟩
  · rw [hup]
    exact h.up a ha b hb hab
  · have hup' : l.up a b ↔ netIsConn v a b :=
      (h.up a ha b hb hab).trans netIsConn_iff_connected.symm
    rw [op.bodies_accepted hcarries hop, ← h.queue a ha b hb hab]
    by_cases hconn : netIsConn v a b
    · rw [(hqueue a b).2 (hup'.mpr hconn), if_pos hconn, Op.sentOn]
      simp [List.filter_map, Function.comp_def]
    · rw [(hqueue a b).1 (fun h => hconn (hup'.mp h)), if_neg hconn, List.append_nil]

/-- A change of the connections is the one of the links. -/
theorem Represents.rewire (h : Represents nodes v l) (act : LinkAct ν α)
    (hacts : op.linkActs v = [act]) (hrewires : act.Rewires)
    (hconn : ∀ a ∈ nodes, ∀ b ∈ nodes, a ≠ b → (Connected v'.netman.conn a b
      ↔ act.Joins a b ∨ (Connected v.netman.conn a b ∧ ¬ act.Cuts a b)))
    (hcuts : ∀ a b, op.Cuts P a b ↔ P.flushDisconn = true ∧ act.Cuts a b)
    (hre : op.Reconnected P v v') :
    ∃ post l', (links ν α P.flushDisconn).Exec l post l'
      ∧ post.map Step.act = op.linkActs v ∧ Represents nodes v' l' := by
  refine ⟨_, _, .single (.rewire hrewires), hacts.symm, fun a ha b hb hab => ?_,
    fun a ha b hb hab => ?_⟩
  · rw [hconn a ha b hb hab, ← h.up a ha b hb hab]
    rfl
  · show (if P.flushDisconn = true ∧ act.Cuts a b then [] else l.queue a b) = _
    by_cases hcut : op.Cuts P a b
    · rw [if_pos ((hcuts a b).mp hcut), bodies, hre.cut a b hcut]
      rfl
    · rw [if_neg (mt (hcuts a b).mpr hcut), h.queue a ha b hb hab, bodies, bodies,
        hre.kept a b hcut]

/-- The links follow every call. -/
theorem Represents.step (hok : NetOk nodes v) (h : Represents nodes v l)
    (hop : op.Between nodes) (heff : op.Effect P v v') :
    ∃ post l', (links ν α P.flushDisconn).Exec l post l'
      ∧ post.map Step.act = op.linkActs v ∧ Represents nodes v' l' := by
  have hre := heff.traffic_or_reconnected
  cases heff with
  | traffic _ hmoves =>
      obtain ⟨pre, l₁, hpre, hdelivered, h₁⟩ := h.delivers op (P := P) hok.wf.carries
      obtain ⟨post, l₂, hpost, hsent, h₂⟩ := h₁.sends (P := P) hok.wf.carries hop
      refine ⟨pre ++ post, l₂, hpre.append hpost, ?_, h₂⟩
      rw [Op.linkActs_of_not_reconnects hmoves, List.map_append, hdelivered, hsent]
  | addConn S =>
      have hre := hre.resolve_left fun h => h.1 trivial
      refine h.rewire (.join S) rfl trivial (fun a _ b _ hab => ?_) ?_ hre
      · show Connected (addConn S v.netman.conn) a b ↔ _
        simp [connected_addConn hab, LinkAct.Joins, LinkAct.Cuts, or_comm]
      · simp [Op.Cuts, LinkAct.Cuts]
  | delConnFlush S hf | delConn S hf =>
      have hre := hre.resolve_left fun h => h.1 trivial
      refine h.rewire (.isolate S) rfl trivial (fun a _ b _ hab => ?_) ?_ hre
      · show Connected (delConn S v.netman.conn) a b ↔ _
        simp [connected_delConn hab, LinkAct.Joins, LinkAct.Cuts, Touches]
      · simp [Op.Cuts, LinkAct.Cuts, Touches]
  | partConnFlush S hf | partConn S hf =>
      have hre := hre.resolve_left fun h => h.1 trivial
      refine h.rewire (.split S) rfl trivial (fun a _ b _ hab => ?_) ?_ hre
      · show Connected (partConn S v.netman.conn) a b ↔ _
        rw [connected_partConn hab]
        simp only [LinkAct.Joins, LinkAct.Cuts]
        tauto
      · intro a b
        simp only [Op.Cuts, LinkAct.Cuts, Crosses]
        tauto
  | cureConn _ =>
      have hre := hre.resolve_left fun h => h.1 trivial
      refine h.rewire .cure rfl trivial (fun a ha b hb hab => ?_) ?_ hre
      · have hdom : getNodes v = nodes := hok.wf.dom
        simp only [LinkAct.Joins, true_or, iff_true]
        exact connected_cureConn (γ := γ) (hdom ▸ ha) (hdom ▸ hb)
      · simp [Op.Cuts, LinkAct.Cuts]

/-- The step lemma of the refinement. -/
theorem simulates_links (P : Params ν) (nodes : Finset ν) :
    System.Simulates (api (γ := γ) P nodes fun op => op.NodesIn nodes ∧ op.Between nodes)
      (links ν α P.flushDisconn)
      (fun s l => NetOk nodes s.toVars ∧ Represents nodes s.toVars l)
      (fun t => t.act.linkActs t.src.toVars) := by
  rintro s op s' l ⟨hok, h⟩ ⟨⟨hnodes, hbetween⟩, args, hargs, rfl⟩
  have heff := Op.apply_effect hargs
  obtain ⟨post, l', hexec, hacts, h'⟩ := h.step hok hbetween heff
  exact ⟨post, l', hexec, hacts, hok.step hnodes heff, h'⟩

/-- At the start every two nodes have their link up, and nothing is on the way. -/
theorem represents_init (nodes : Finset ν) :
    Represents nodes (initFifoNetwork nodes : Net ν α γ).toVars ⟨fun _ _ => True, fun _ _ => []⟩ where
  up a ha b hb _ := by
    simp only [true_iff]
    exact ⟨nodes, List.mem_singleton_self nodes, ha, hb⟩
  queue a _ b _ _ := by
    rw [bodies, chan_init]
    rfl

/-- A run of the module is one of the links. -/
theorem represented_of_run {tr : List (Step (Net ν α γ) (Op ν α γ))} {s : Net ν α γ}
    (h : (api P nodes fun op => op.NodesIn nodes ∧ op.Between nodes).Run tr s) :
    ∃ tr' l, (links ν α P.flushDisconn).Run tr' l
      ∧ (NetOk nodes s.toVars ∧ Represents nodes s.toVars l)
      ∧ tr'.map Step.act = tr.flatMap fun t => t.act.linkActs t.src.toVars := by
  refine h.simulate (fun s hs => ?_) (simulates_links P nodes)
  have hs : s = initFifoNetwork nodes := hs
  subst hs
  exact ⟨_, rfl, NetOk.init nodes, represents_init nodes⟩

/-- The FIFO network is one of links with queues: a run of its calls, with node arguments and
messages from the node set, is a run of the links that makes the moves of these calls in
their order. At the end the links are up that `NetIsConn` says are connected, and what is on
the way are the bodies in the channels. -/
theorem api_refines_links (P : Params ν) (nodes : Finset ν)
    (tr : List (Step (Net ν α γ) (Op ν α γ))) (s : Net ν α γ)
    (h : (api P nodes fun op => op.NodesIn nodes ∧ op.Between nodes).Run tr s) :
    ∃ tr' l, (links ν α P.flushDisconn).Run tr' l
      ∧ tr'.map Step.act = tr.flatMap (fun t => t.act.linkActs t.src.toVars)
      ∧ ∀ a ∈ nodes, ∀ b ∈ nodes, a ≠ b →
        (l.up a b ↔ netIsConn s.toVars a b) ∧ l.queue a b = bodies s.msgs a b := by
  obtain ⟨tr', l, hrun, ⟨-, hrep⟩, hacts⟩ := represented_of_run h
  refine ⟨tr', l, hrun, hacts, fun a ha b hb hab => ⟨?_, hrep.queue a ha b hb hab⟩⟩
  rw [netIsConn_iff_connected]
  exact hrep.up a ha b hb hab

/-- Three messages go out with one call and one is taken: four moves of the links. The link
is still up, and the other two are on the way. -/
theorem api_refines_links_threeThenOne :
    ∃ tr' l, (links ℕ ℕ true).Run tr' l
      ∧ tr'.map Step.act = [.send 0 1 7, .send 0 1 8, .send 0 1 9, .deliver 0 1 7]
      ∧ l.up 0 1 ∧ l.queue 0 1 = [8, 9] := by
  have hrun := run_threeThenOne
    (V := fun op => op.NodesIn {0, 1} ∧ op.Between {0, 1})
    ⟨trivial, by simp [Op.Between, Send.Between]⟩ ⟨trivial, trivial⟩
  obtain ⟨tr', l, hlinks, hacts, hstate⟩ :=
    api_refines_links flushing {0, 1} threeThenOne firstTaken hrun
  obtain ⟨hup, hqueue⟩ := hstate 0 (by simp) 1 (by simp) (by decide)
  have hconn : netIsConn firstTaken.toVars 0 1 := by decide
  have hbodies : bodies firstTaken.msgs 0 1 = [8, 9] := by decide
  exact ⟨tr', l, hlinks, hacts, hup.mpr hconn, hqueue.trans hbodies⟩

/-! ### A link that is not cut -/

/-- The call disconnects the two nodes, if they are connected. -/
def Op.Disconnects (a b : ν) : Op ν α γ → Prop
  | .delConn S => Touches S a b
  | .partConn S => Crosses S a b
  | _ => False

instance (a b : ν) : (op : Op ν α γ) → Decidable (op.Disconnects a b)
  | .delConn S => inferInstanceAs (Decidable (Touches S a b))
  | .partConn S => inferInstanceAs (Decidable (Crosses S a b))
  | .addMsg _ | .addMsgSrcDst _ _ _ | .batchAddMsg _ | .delMsg _ _ | .replyMsg _ _ _ | .addConn _
  | .cureConn | .noAction _ => inferInstanceAs (Decidable False)

theorem Op.cuts_of_mem_linkActs (v : Vars ν α) {op : Op ν α γ} {act : LinkAct ν α} {a b : ν}
    (hmem : act ∈ op.linkActs v) (hcut : act.Cuts a b) : op.Disconnects a b := by
  by_cases hre : op.Reconnects
  · cases op with
    | delConn S =>
        obtain rfl := List.mem_singleton.mp hmem
        exact hcut
    | partConn S =>
        obtain rfl := List.mem_singleton.mp hmem
        simp only [LinkAct.Cuts] at hcut
        simp only [Op.Disconnects, Crosses]
        tauto
    | addConn S =>
        obtain rfl := List.mem_singleton.mp hmem
        exact hcut
    | cureConn =>
        obtain rfl := List.mem_singleton.mp hmem
        exact hcut
    | _ => exact absurd hre id
  · rw [Op.linkActs_of_not_reconnects hre, List.mem_append, List.mem_map, List.mem_map] at hmem
    rcases hmem with ⟨m, -, rfl⟩ | ⟨m, -, rfl⟩
    · exact absurd hcut id
    · exact absurd hcut id

/-- What the links send and deliver for a call is what the call does. -/
theorem Op.flatMap_linkActs (v : Vars ν α) (op : Op ν α γ) (a b : ν) :
    (op.linkActs v).flatMap (LinkAct.sentOn a b) = op.sentOn v a b
      ∧ (op.linkActs v).flatMap (LinkAct.deliveredOn a b) = op.takenFrom v a b := by
  by_cases hre : op.Reconnects
  · cases op with
    | addConn _ => exact ⟨rfl, rfl⟩
    | delConn _ => exact ⟨rfl, rfl⟩
    | partConn _ => exact ⟨rfl, rfl⟩
    | cureConn => exact ⟨rfl, rfl⟩
    | _ => exact absurd hre id
  · rw [Op.linkActs_of_not_reconnects hre, List.flatMap_append, List.flatMap_append,
      LinkAct.flatMap_sentOn_send, LinkAct.flatMap_deliveredOn_deliver]
    simp [Op.sentOn, Op.takenFrom, onChan]

/-- A link that is not cut is a reliable FIFO channel. Take a run and a moment of it where two
nodes are connected, and let no later call disconnect them. At the end they are connected,
and what was in the channel at that moment and what has been handed in for it since, in this
order, has been taken from it or is in it. So nothing is lost, nothing is there twice, and
nothing overtakes. -/
theorem reliable_link (P : Params ν) (nodes : Finset ν)
    (pre post : List (Step (Net ν α γ) (Op ν α γ))) (s₀ s : Net ν α γ)
    (hpre : (api P nodes fun op => op.NodesIn nodes ∧ op.Between nodes).Run pre s₀)
    (hpost : (api P nodes fun op => op.NodesIn nodes ∧ op.Between nodes).Exec s₀ post s)
    (a b : ν) (ha : a ∈ nodes) (hb : b ∈ nodes) (hab : a ≠ b) (hconn : netIsConn s₀.toVars a b)
    (hcut : ∀ t ∈ post, ¬ t.act.Disconnects a b) :
    netIsConn s.toVars a b
      ∧ bodies s₀.msgs a b ++ post.flatMap (fun t => t.act.sentOn t.src.toVars a b)
        = post.flatMap (fun t => t.act.takenFrom t.src.toVars a b) ++ bodies s.msgs a b := by
  obtain ⟨-, l₀, -, ⟨hok₀, hrep₀⟩, -⟩ := represented_of_run hpre
  have hup₀ : l₀.up a b :=
    (hrep₀.up a ha b hb hab).mpr (netIsConn_iff_connected.mp hconn)
  obtain ⟨l, ⟨-, hrep⟩, hup, hfifo⟩ :=
    Links.reliable_of_simulates (simulates_links P nodes) hpost ⟨hok₀, hrep₀⟩ hup₀
      fun t ht act hact hcuts => hcut t ht (Op.cuts_of_mem_linkActs t.src.toVars hact hcuts)
  refine ⟨netIsConn_iff_connected.mpr ((hrep.up a ha b hb hab).mp hup), ?_⟩
  -- the moves of the links are those of the calls
  rw [hrep₀.queue a ha b hb hab, hrep.queue a ha b hb hab] at hfifo
  simpa only [Op.flatMap_linkActs] using hfifo

/-- Two messages from `0` to `1`. -/
def beforeFirst : Net ℕ ℕ Unit := initFifoNetwork {0, 1}

def afterFirst : Net ℕ ℕ Unit :=
  netUpdate beforeFirst.toVars (netAddMsg beforeFirst.toVars ⟨0, 1, 7⟩)

def afterSecond : Net ℕ ℕ Unit :=
  netUpdate afterFirst.toVars (netAddMsg afterFirst.toVars ⟨0, 1, 8⟩)

/-- The first is on the way, then the second one is sent, then one is taken: it is the first,
and the second is left. -/
theorem reliable_link_afterSecond :
    ∃ s : Net ℕ ℕ Unit, netIsConn s.toVars 0 1 ∧ [7] ++ [8] = [7] ++ bodies s.msgs 0 1 := by
  have hhead : netGetMsg afterSecond.toVars 0 1 = some ⟨0, 1, 1, 7⟩ := by decide
  obtain ⟨args, hargs⟩ : ∃ args : Args ℕ ℕ Unit,
      (Op.delMsg 0 1).args flushing afterSecond.toVars = .ok args := by
    simp only [Op.args, hhead, netDelMsg, delMsg_of_getMsg hhead]
    exact ⟨_, rfl⟩
  have hadd (n : ℕ) : (Op.addMsg ⟨0, 1, n⟩ : Op ℕ ℕ Unit).NodesIn {0, 1}
      ∧ (Op.addMsg ⟨0, 1, n⟩ : Op ℕ ℕ Unit).Between {0, 1} :=
    ⟨trivial, by simp [Op.Between, Send.Between]⟩
  refine ⟨netUpdate afterSecond.toVars args, ?_⟩
  exact reliable_link flushing {0, 1}
    [⟨beforeFirst, .addMsg ⟨0, 1, 7⟩, afterFirst⟩]
    [⟨afterFirst, .addMsg ⟨0, 1, 8⟩, afterSecond⟩,
      ⟨afterSecond, .delMsg 0 1, netUpdate afterSecond.toVars args⟩]
    afterFirst (netUpdate afterSecond.toVars args) (run_call (.nil rfl) (hadd 7) rfl)
    (.cons ⟨hadd 8, _, rfl, rfl⟩ (.single ⟨⟨trivial, trivial⟩, args, hargs, rfl⟩))
    0 1 (by simp) (by simp) (by decide) (by decide) (by simp [Op.Disconnects])

end Tmet.FifoNetwork
