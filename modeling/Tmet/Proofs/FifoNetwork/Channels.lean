import Tmet.PySyncObjTLA.FifoNetwork

/-!
# `Tmet.Proofs.FifoNetwork.Channels`: the channels as a whole

Everything the network does to `_msgs` is one of three things: a message is
appended to a channel (`push`), the head of a channel is removed (`pop`), or the
channels that a partition cuts are emptied (`flushMsgs`, `flushMsgsDel`). This
module says what each of them does to the content `chan msgs a b` of one channel
(`chan_push`, `chan_pop`, `chan_flushMsgs`, `chan_flushMsgsDel`) and to a sum
over all channels (`chanSum_push`, `chanSum_pop`).

Two sums matter: `total`, the number of messages, and `inFlight`, the multiset
of the messages themselves. `wireReduce_wireSumHelper` says that the nested
recursion of `_WireSum` computes `total`, in whatever order nodes are picked.
`chanSum_eq_sum` writes a sum over the channels as a sum over pairs of nodes, so
that only the contents count and not the domains: a flush may add an empty
channel where there was none, and no sum sees it.

`WellFormed nodes msgs` fixes the two domains: one channel between every two
different nodes and no other.
-/

set_option autoImplicit false

namespace Tmet.FifoNetwork

open Tmet.Lib

variable {ν α γ : Type}

/-! ### One channel -/

/-- The content of the channel from `a` to `b`, empty where there is none. -/
def chan (msgs : Msgs ν α) (a b : ν) : List (Wired α) := (chan? msgs a b).getD []

/-- The message as it is stored, and back. -/
def Msg.wired (m : Msg ν α) : Wired α := ⟨m.seq, m.body⟩

def Wired.toMsg (a b : ν) (m : Wired α) : Msg ν α := ⟨a, b, m.seq, m.body⟩

@[simp] theorem Msg.wired_mk (a b : ν) (n : ℕ) (x : α) :
    Msg.wired (⟨a, b, n, x⟩ : Msg ν α) = ⟨n, x⟩ := rfl

/-- The message `NetGetMsg` returns is the head of its channel. -/
theorem getMsg_eq_some_iff {msgs : Msgs ν α} {a b : ν} {m : Msg ν α} :
    getMsg a b msgs = some m
      ↔ m.src = a ∧ m.dst = b ∧ ∃ rest, chan? msgs a b = some (m.wired :: rest) := by
  unfold getMsg
  constructor
  · intro h
    split at h
    next m_ rest hc =>
      obtain rfl := Option.some.inj h
      exact ⟨rfl, rfl, rest, hc⟩
    next => simp at h
  · rintro ⟨rfl, rfl, rest, hc⟩
    rw [hc]
    rfl

/-! ### Sums over all channels -/

section Sum

variable {M : Type} [AddCommMonoid M]

/-- The sum of `w a b l` over all channels, `l` being the content of the channel
from `a` to `b`. -/
def chanSum (msgs : Msgs ν α) (w : ν → ν → List (Wired α) → M) : M :=
  msgs.sum fun a f => f.sum fun b l => w a b l

end Sum

/-- The number of messages in all channels. -/
def total (msgs : Msgs ν α) : ℕ := chanSum msgs fun _ _ l => l.length

/-- The messages in all channels. -/
def inFlight (msgs : Msgs ν α) : Multiset (Msg ν α) :=
  chanSum msgs fun a b l => ↑(l.map (Wired.toMsg a b))

theorem card_inFlight (msgs : Msgs ν α) : Multiset.card (inFlight msgs) = total msgs := by
  unfold inFlight total chanSum
  show Multiset.cardHom _ = _
  rw [FinFn.hom_sum]
  simp only [FinFn.hom_sum]
  congr 1
  funext a f
  congr 1
  funext b l
  simp

variable [DecidableEq ν]

/-! ### Appending and removing -/

/-- Append a message to its channel. -/
def push (msgs : Msgs ν α) (m : Msg ν α) : Msgs ν α :=
  exceptChan msgs m.src m.dst (· ++ [m.wired])

/-- Remove the head of the channel of a message. -/
def pop (msgs : Msgs ν α) (m : Msg ν α) : Msgs ν α := exceptChan msgs m.src m.dst List.tail

theorem chan?_exceptChan (msgs : Msgs ν α) (a b : ν) (k : List (Wired α) → List (Wired α))
    (x y : ν) : chan? (exceptChan msgs a b k) x y
      = if x = a ∧ y = b then (chan? msgs x y).map k else chan? msgs x y := by
  unfold chan? exceptChan
  rw [FinFn.get_except]
  by_cases hx : x = a
  · cases msgs.get x <;> by_cases hy : y = b <;> simp [hx, hy]
  · simp [hx]

/-- A channel after an append: the message at the end of its own channel, every
other channel as before. -/
theorem chan_push {msgs : Msgs ν α} {m : Msg ν α} (h : (chan? msgs m.src m.dst).isSome) (x y : ν) :
    chan (push msgs m) x y
      = if x = m.src ∧ y = m.dst then chan msgs x y ++ [m.wired] else chan msgs x y := by
  obtain ⟨l, hl⟩ := Option.isSome_iff_exists.mp h
  unfold chan push
  rw [chan?_exceptChan]
  by_cases hxy : x = m.src ∧ y = m.dst
  · obtain ⟨rfl, rfl⟩ := hxy
    simp [hl]
  · rw [if_neg hxy, if_neg hxy]

/-- A channel after a removal. -/
theorem chan_pop (msgs : Msgs ν α) (m : Msg ν α) (x y : ν) :
    chan (pop msgs m) x y
      = if x = m.src ∧ y = m.dst then (chan msgs x y).tail else chan msgs x y := by
  unfold chan pop
  rw [chan?_exceptChan]
  by_cases hxy : x = m.src ∧ y = m.dst
  · rw [if_pos hxy, if_pos hxy]
    cases chan? msgs x y <;> rfl
  · rw [if_neg hxy, if_neg hxy]

section Sum

variable {M : Type} [AddCommMonoid M]

/-- One channel of the sum against all others. -/
theorem chanSum_exists_rest (w : ν → ν → List (Wired α) → M) {msgs : Msgs ν α} {a b : ν}
    {l : List (Wired α)} (h : chan? msgs a b = some l) :
    ∃ rest, chanSum msgs w = w a b l + rest ∧
      ∀ k, chanSum (exceptChan msgs a b k) w = w a b (k l) + rest := by
  obtain ⟨f, hf, hl⟩ := Option.bind_eq_some_iff.mp h
  obtain ⟨inner, hin, hin'⟩ := FinFn.exists_rest (w a) hl
  obtain ⟨outer, hout, hout'⟩ :=
    FinFn.exists_rest (fun a (f : FinFn ν (List (Wired α))) => f.sum (w a)) hf
  refine ⟨inner + outer, ?_, fun k => ?_⟩
  · rw [chanSum, hout, hin, add_assoc]
  · rw [chanSum, exceptChan, hout', hin', add_assoc]

/-- Appending a message adds its weight, when a channel weighs as much as its
messages. -/
theorem chanSum_push (w : ν → ν → List (Wired α) → M) {msgs : Msgs ν α} {m : Msg ν α} {x : M}
    (hw : ∀ l, w m.src m.dst (l ++ [m.wired]) = w m.src m.dst l + x)
    (h : (chan? msgs m.src m.dst).isSome) :
    chanSum (push msgs m) w = chanSum msgs w + x := by
  obtain ⟨l, hl⟩ := Option.isSome_iff_exists.mp h
  obtain ⟨rest, hsum, hsum'⟩ := chanSum_exists_rest w hl
  rw [push, hsum', hw, hsum, add_right_comm]

/-- Removing a head takes its weight away. -/
theorem chanSum_pop (w : ν → ν → List (Wired α) → M) {msgs : Msgs ν α} {m : Msg ν α} {x : M}
    {l : List (Wired α)} (hw : w m.src m.dst (m.wired :: l) = x + w m.src m.dst l)
    (h : chan? msgs m.src m.dst = some (m.wired :: l)) :
    chanSum msgs w = x + chanSum (pop msgs m) w := by
  obtain ⟨rest, hsum, hsum'⟩ := chanSum_exists_rest w h
  rw [pop, hsum', hsum, hw, List.tail_cons, add_assoc]

end Sum

/-! ### Sums over pairs of nodes -/

/-- All nodes that are an end of some channel. -/
def ends (msgs : Msgs ν α) : Finset ν :=
  msgs.dom ∪ msgs.dom.biUnion fun a => ((msgs.get a).getD .empty).dom

theorem dom_subset_ends (msgs : Msgs ν α) : msgs.dom ⊆ ends msgs := Finset.subset_union_left

theorem inner_dom_subset_ends {msgs : Msgs ν α} {a : ν} {f : FinFn ν (List (Wired α))}
    (h : msgs.get a = some f) : f.dom ⊆ ends msgs := by
  intro b hb
  refine Finset.mem_union_right _ (Finset.mem_biUnion.mpr ⟨a, FinFn.mem_dom_of_get h, ?_⟩)
  rw [h]
  exact hb

/-- A sum over the channels is a sum over the pairs of nodes, when an empty
channel weighs nothing. -/
theorem chanSum_eq_sum {M : Type} [AddCommMonoid M] {w : ν → ν → List (Wired α) → M}
    (hw : ∀ a b, w a b [] = 0) {msgs : Msgs ν α} {E : Finset ν} (hE : ends msgs ⊆ E) :
    chanSum msgs w = ∑ a ∈ E, ∑ b ∈ E, w a b (chan msgs a b) := by
  -- a node without channels adds nothing, and neither does a pair without one
  have hout (a : ν) (ha : a ∉ msgs.dom) : ∑ b ∈ E, w a b (chan msgs a b) = 0 := by
    refine Finset.sum_eq_zero fun b _ => ?_
    rw [chan, chan?, FinFn.get_eq_none.mpr ha]
    exact hw a b
  have hin (a : ν) (ha : a ∈ msgs.dom) :
      (msgs.get a).elim 0 (fun f => f.sum (w a)) = ∑ b ∈ E, w a b (chan msgs a b) := by
    obtain ⟨f, hf⟩ := FinFn.mem_dom.mp ha
    have hchan (b : ν) : chan msgs a b = (f.get b).getD [] := by
      rw [chan, chan?, hf]
      rfl
    rw [hf, Option.elim_some, FinFn.sum]
    refine Finset.sum_subset_zero_on_sdiff ((inner_dom_subset_ends hf).trans hE) ?_ ?_
    · intro b hb
      have hnone : f.get b = none := FinFn.get_eq_none.mpr (Finset.mem_sdiff.mp hb).2
      rw [hchan, hnone]
      exact hw a b
    · intro b hb
      obtain ⟨l, hl⟩ := FinFn.mem_dom.mp hb
      rw [hchan, hl]
      rfl
  rw [chanSum, FinFn.sum]
  refine Finset.sum_subset_zero_on_sdiff ((dom_subset_ends msgs).trans hE) ?_ hin
  intro a ha
  exact hout a (Finset.mem_sdiff.mp ha).2

/-- A channel between other nodes than the ends is empty. -/
theorem chan_eq_nil_of_not_mem_ends {msgs : Msgs ν α} {a b : ν} (h : a ∉ ends msgs ∨ b ∉ ends msgs) :
    chan msgs a b = [] := by
  unfold chan chan?
  cases hf : msgs.get a with
  | none => rfl
  | some f =>
      have ha : a ∈ ends msgs := dom_subset_ends msgs (FinFn.mem_dom_of_get hf)
      have hb : b ∉ f.dom := fun hb =>
        (h.resolve_left (not_not_intro ha)) (inner_dom_subset_ends hf hb)
      rw [Option.bind_some, FinFn.get_eq_none.mpr hb]
      rfl

section Cut

variable {msgs msgs' : Msgs ν α} (h : ∀ a b, (chan msgs' a b).Sublist (chan msgs a b))

include h

/-- Channels cut down one by one hold a part of the messages. -/
theorem inFlight_le_of_sublist : inFlight msgs' ≤ inFlight msgs := by
  unfold inFlight
  rw [chanSum_eq_sum (fun _ _ => rfl) (E := ends msgs' ∪ ends msgs) Finset.subset_union_left,
    chanSum_eq_sum (fun _ _ => rfl) (E := ends msgs' ∪ ends msgs) Finset.subset_union_right]
  exact Finset.sum_le_sum fun a _ => Finset.sum_le_sum fun b _ =>
    Multiset.coe_le.mpr ((h a b).map _).subperm

/-- The number of messages stays the same only if every channel does. -/
theorem total_eq_iff_of_sublist :
    total msgs' = total msgs ↔ ∀ a b, chan msgs' a b = chan msgs a b := by
  have hsum (m : Msgs ν α) (hm : ends m ⊆ ends msgs' ∪ ends msgs) :
      total m = ∑ a ∈ ends msgs' ∪ ends msgs, ∑ b ∈ ends msgs' ∪ ends msgs, (chan m a b).length :=
    chanSum_eq_sum (fun _ _ => rfl) hm
  rw [hsum msgs' Finset.subset_union_left, hsum msgs Finset.subset_union_right]
  constructor
  -- no channel is longer than before, so equal sums leave no room for a shorter one
  · intro hlen a b
    by_cases hab : a ∈ ends msgs' ∪ ends msgs ∧ b ∈ ends msgs' ∪ ends msgs
    · have ha := (Finset.sum_eq_sum_iff_of_le fun a _ =>
        Finset.sum_le_sum fun b _ => (h a b).length_le).mp hlen a hab.1
      have hb := (Finset.sum_eq_sum_iff_of_le fun b _ => (h a b).length_le).mp ha b hab.2
      exact (h a b).eq_of_length hb
    · have hnot : (a ∉ ends msgs' ∨ b ∉ ends msgs') ∧ (a ∉ ends msgs ∨ b ∉ ends msgs) := by
        simp only [Finset.mem_union] at hab
        tauto
      rw [chan_eq_nil_of_not_mem_ends hnot.1, chan_eq_nil_of_not_mem_ends hnot.2]
  · intro heq
    simp only [heq]

end Cut

/-! ### The two sums -/

/-- `_WireSum` counts every message once. -/
theorem wireReduce_wireSumHelper (P : Params ν) (msgs : Msgs ν α) :
    wireReduce P (wireSumHelper P) msgs.dom 0 msgs = total msgs := by
  have hnode (f : FinFn ν (List (Wired α))) :
      wireReduce P wireNodeSumHelper f.dom 0 f = f.sum fun _ l => l.length := by
    unfold wireReduce wireNodeSumHelper
    rw [Choose.foldl_order_add, zero_add]
    refine Finset.sum_congr rfl fun b _ => ?_
    cases f.get b <;> rfl
  unfold wireReduce wireSumHelper
  simp only [hnode]
  rw [Choose.foldl_order_add, zero_add]
  refine Finset.sum_congr rfl fun a _ => ?_
  cases msgs.get a <;> rfl

@[simp] theorem netSumWire_nWire (P : Params ν) (s : Vars ν α) :
    netSumWire P s = { nWire := some (total s.msgs) } := by
  unfold netSumWire wireSum
  rw [wireReduce_wireSumHelper]

theorem inFlight_push {msgs : Msgs ν α} {m : Msg ν α} (h : (chan? msgs m.src m.dst).isSome) :
    inFlight (push msgs m) = inFlight msgs + {m} := by
  refine chanSum_push _ (fun l => ?_) h
  rw [List.map_append, ← Multiset.coe_add]
  rfl

theorem inFlight_pop {msgs : Msgs ν α} {m : Msg ν α} {l : List (Wired α)}
    (h : chan? msgs m.src m.dst = some (m.wired :: l)) :
    inFlight msgs = {m} + inFlight (pop msgs m) :=
  chanSum_pop _ rfl h

/-! ### The domains and the flushes -/

/-- One channel from every node to every other node, and no other channel. -/
structure WellFormed (nodes : Finset ν) (msgs : Msgs ν α) : Prop where
  dom : msgs.dom = nodes
  inner : ∀ a f, msgs.get a = some f → f.dom = nodes \ {a}

namespace WellFormed

variable {nodes : Finset ν} {msgs : Msgs ν α}

theorem isSome_chan?_iff (h : WellFormed nodes msgs) {a b : ν} :
    (chan? msgs a b).isSome ↔ a ∈ nodes ∧ b ∈ nodes ∧ b ≠ a := by
  unfold chan?
  cases hf : msgs.get a with
  | none =>
      have ha : a ∉ nodes := h.dom ▸ FinFn.get_eq_none.mp hf
      simp [ha]
  | some f =>
      have ha : a ∈ nodes := h.dom ▸ FinFn.mem_dom_of_get hf
      rw [Option.bind_some, f.isSome_get, h.inner a f hf]
      simp [ha]

/-- The channels between the same nodes are the same partial functions, when one
content is a function of the other. -/
theorem chan?_eq_map {msgs' : Msgs ν α} (h : WellFormed nodes msgs)
    (h' : WellFormed nodes msgs') {a b : ν} {k : List (Wired α) → List (Wired α)}
    (hk : chan msgs' a b = k (chan msgs a b)) :
    chan? msgs' a b = (chan? msgs a b).map k := by
  unfold chan at hk
  have hsome : (chan? msgs' a b).isSome = (chan? msgs a b).isSome :=
    Bool.eq_iff_iff.mpr (h'.isSome_chan?_iff.trans h.isSome_chan?_iff.symm)
  cases hl : chan? msgs a b with
  | none =>
      rw [hl] at hsome
      exact Option.isNone_iff_eq_none.mp (by simpa using hsome)
  | some l =>
      rw [hl] at hsome hk
      obtain ⟨l', hl'⟩ := Option.isSome_iff_exists.mp hsome
      rw [hl'] at hk ⊢
      exact congrArg some hk

/-- Every sender has the same receivers in two well-formed families of channels. -/
theorem receivers_eq {msgs' : Msgs ν α} (h : WellFormed nodes msgs)
    (h' : WellFormed nodes msgs') (a : ν) :
    (msgs'.get a).map FinFn.dom = (msgs.get a).map FinFn.dom := by
  have hdom (m : Msgs ν α) (hm : WellFormed nodes m) :
      (m.get a).map FinFn.dom = if a ∈ nodes then some (nodes \ {a}) else none := by
    cases hf : m.get a with
    | none =>
        have ha : a ∉ nodes := hm.dom ▸ FinFn.get_eq_none.mp hf
        rw [if_neg ha, Option.map_none]
    | some f =>
        have ha : a ∈ nodes := hm.dom ▸ FinFn.mem_dom_of_get hf
        rw [if_pos ha, Option.map_some, hm.inner a f hf]
  rw [hdom msgs h, hdom msgs' h']

theorem exceptChan (h : WellFormed nodes msgs) (a b : ν)
    (k : List (Wired α) → List (Wired α)) :
    WellFormed nodes (FifoNetwork.exceptChan msgs a b k) := by
  refine ⟨h.dom, fun x f hx => ?_⟩
  rw [FifoNetwork.exceptChan, FinFn.get_except] at hx
  by_cases hxa : x = a
  · rw [if_pos hxa] at hx
    obtain ⟨f', hf', rfl⟩ := Option.map_eq_some_iff.mp hx
    exact h.inner x f' hf'
  · rw [if_neg hxa] at hx
    exact h.inner x f hx

end WellFormed

theorem wellFormed_init (nodes : Finset ν) :
    WellFormed nodes (initFifoNetwork nodes : Net ν α γ).msgs := by
  refine ⟨rfl, fun a f hf => ?_⟩
  simp only [initFifoNetwork, FinFn.get_tabulate] at hf
  split at hf
  · obtain rfl := Option.some.inj hf
    rfl
  · simp at hf

/-- At the start every channel is empty. -/
theorem chan_init (nodes : Finset ν) (a b : ν) :
    chan (initFifoNetwork nodes : Net ν α γ).msgs a b = [] := by
  unfold chan chan? initFifoNetwork
  by_cases ha : a ∈ nodes <;> by_cases hb : b ∈ nodes ∧ ¬ b = a <;> simp [ha, hb]

theorem inFlight_init (nodes : Finset ν) :
    inFlight (initFifoNetwork nodes : Net ν α γ).msgs = 0 := by
  rw [inFlight, chanSum_eq_sum (fun _ _ => rfl) (Finset.Subset.refl _)]
  refine Finset.sum_eq_zero fun a _ => Finset.sum_eq_zero fun b _ => ?_
  rw [chan_init]
  rfl

/-! ### The flushes -/

/-- The channel from `a` to `b` crosses the boundary of `part`. -/
def Crosses (part : Finset ν) (a b : ν) : Prop := (a ∈ part ∧ b ∉ part) ∨ (a ∉ part ∧ b ∈ part)

/-- The channel from `a` to `b` has an end in `deleteNodes`. -/
def Touches (deleteNodes : Finset ν) (a b : ν) : Prop := a ∈ deleteNodes ∨ b ∈ deleteNodes

instance (part : Finset ν) (a b : ν) : Decidable (Crosses part a b) :=
  inferInstanceAs (Decidable (_ ∨ _))

instance (deleteNodes : Finset ν) (a b : ν) : Decidable (Touches deleteNodes a b) :=
  inferInstanceAs (Decidable (_ ∨ _))

/-- The channels after sender `a` has those to `flushNodes a` overridden by the
empty sequence. -/
def override (flushNodes : ν → Finset ν → Finset ν) (msgs : Msgs ν α) : Msgs ν α :=
  msgs.mapVal fun a f => (FinFn.tabulate (flushNodes a f.dom) fun _ => []).overlay f

theorem chan_override (flushNodes : ν → Finset ν → Finset ν) (msgs : Msgs ν α) (a b : ν) :
    chan (override flushNodes msgs) a b
      = (msgs.get a).elim []
          fun f => if b ∈ flushNodes a f.dom then [] else (f.get b).getD [] := by
  unfold chan chan? override
  rw [FinFn.get_mapVal]
  cases msgs.get a with
  | none => rfl
  | some f => by_cases hb : b ∈ flushNodes a f.dom <;> simp [hb]

/-- An override takes no channel away. -/
theorem isSome_chan?_override (flushNodes : ν → Finset ν → Finset ν) {msgs : Msgs ν α} {a b : ν}
    (h : (chan? msgs a b).isSome) : (chan? (override flushNodes msgs) a b).isSome := by
  unfold chan? override at *
  rw [FinFn.get_mapVal]
  cases hf : msgs.get a with
  | none =>
      rw [hf] at h
      exact h
  | some f =>
      rw [hf, Option.bind_some] at h
      rw [Option.map_some, Option.bind_some, FinFn.get_overlay, Option.isSome_or, h, Bool.or_true]

/-- The fold of a flush replaces the channels of every sender once. -/
theorem get_flushReduce (P : Params ν) (g : ν → FinFn ν (List (Wired α))) (nodes : Finset ν)
    (res : Msgs ν α) (part : Finset ν) (msgs : Msgs ν α) (a : ν) :
    (flushReduce P (fun n res _ _ => (FinFn.single n (g n)).overlay res) nodes res part msgs).get a
      = if a ∈ nodes then some (g a) else res.get a := by
  unfold flushReduce
  -- on the order in which the nodes are picked; what comes later overlays what was there
  have hfold (l : List ν) (res : Msgs ν α) :
      (l.foldl (fun res n => (FinFn.single n (g n)).overlay res) res).get a
        = if a ∈ l then some (g a) else res.get a := by
    induction l generalizing res with
    | nil => simp
    | cons n l ih =>
        rw [List.foldl_cons, ih]
        by_cases hl : a ∈ l
        · simp [hl]
        · by_cases hn : a = n
          · subst hn
            simp [hl]
          · simp [hl, hn]
  rw [hfold]
  simp

/-- A flush whose helper overrides the channels of one sender overrides those of
all senders. -/
theorem flushReduce_eq_override (P : Params ν) (flushNodes : ν → Finset ν → Finset ν)
    (part : Finset ν) (msgs : Msgs ν α) :
    flushReduce P
        (fun n res _ msgs =>
          let nodeMsgs := (msgs.get n).getD .empty
          (FinFn.single n
            ((FinFn.tabulate (flushNodes n nodeMsgs.dom) fun _ => []).overlay nodeMsgs)).overlay res)
        msgs.dom msgs part msgs
      = override flushNodes msgs := by
  ext1 a
  have hget := get_flushReduce P
    (fun n => (FinFn.tabulate (flushNodes n ((msgs.get n).getD .empty).dom) fun _ => []).overlay
      ((msgs.get n).getD .empty)) msgs.dom msgs part msgs a
  rw [override, FinFn.get_mapVal]
  refine hget.trans ?_
  by_cases ha : a ∈ msgs.dom
  · obtain ⟨f, hf⟩ := FinFn.mem_dom.mp ha
    rw [if_pos ha, hf]
    rfl
  · rw [if_neg ha, FinFn.get_eq_none.mpr ha]
    rfl

theorem flushMsgs_eq_override (P : Params ν) (part : Finset ν) (msgs : Msgs ν α) :
    flushMsgs P part msgs
      = override (fun a dom => if a ∈ part then dom \ part else part) msgs :=
  flushReduce_eq_override P (fun a dom => if a ∈ part then dom \ part else part) part msgs

theorem flushMsgsDel_eq_override (P : Params ν) (S : Finset ν) (msgs : Msgs ν α) :
    flushMsgsDel P S msgs = override (fun a dom => if a ∈ S then dom else S) msgs :=
  flushReduce_eq_override P (fun a dom => if a ∈ S then dom else S) S msgs

/-- `_FlushMsgs(part, _)` empties exactly the channels that cross the boundary
of `part`. -/
theorem chan_flushMsgs (P : Params ν) (part : Finset ν) (msgs : Msgs ν α) (a b : ν) :
    chan (flushMsgs P part msgs) a b = if Crosses part a b then [] else chan msgs a b := by
  rw [flushMsgs_eq_override, chan_override, chan, chan?]
  cases msgs.get a with
  | none => simp
  | some f =>
      by_cases hb : b ∈ f.dom
      · by_cases ha : a ∈ part <;> simp [Crosses, ha, hb]
      · have hnone := FinFn.get_eq_none.mpr hb
        simp [hnone]

/-- `_FlushMsgsDel(delete_nodes, _)` empties exactly the channels with an end in
`delete_nodes`. -/
theorem chan_flushMsgsDel (P : Params ν) (S : Finset ν) (msgs : Msgs ν α) (a b : ν) :
    chan (flushMsgsDel P S msgs) a b = if Touches S a b then [] else chan msgs a b := by
  rw [flushMsgsDel_eq_override, chan_override, chan, chan?]
  cases msgs.get a with
  | none => simp
  | some f =>
      by_cases hb : b ∈ f.dom
      · by_cases ha : a ∈ S <;> simp [Touches, ha, hb]
      · have hnone := FinFn.get_eq_none.mpr hb
        simp [hnone]

/-- An override keeps the domains when it names no receiver the sender has no
channel to. -/
theorem WellFormed.override {nodes : Finset ν} {msgs : Msgs ν α} (h : WellFormed nodes msgs)
    {flushNodes : ν → Finset ν → Finset ν}
    (hsub : ∀ a f, msgs.get a = some f → flushNodes a f.dom ⊆ f.dom) :
    WellFormed nodes (FifoNetwork.override flushNodes msgs) := by
  refine ⟨h.dom, fun a f hf => ?_⟩
  obtain ⟨f', hf', rfl⟩ := Option.map_eq_some_iff.mp hf
  rw [FinFn.dom_overlay, FinFn.dom_tabulate, Finset.union_eq_right.mpr (hsub a f' hf')]
  exact h.inner a f' hf'

theorem WellFormed.flushMsgs {nodes : Finset ν} {msgs : Msgs ν α} (h : WellFormed nodes msgs)
    (P : Params ν) {part : Finset ν} (hpart : part ⊆ nodes) :
    WellFormed nodes (FifoNetwork.flushMsgs P part msgs) := by
  rw [flushMsgs_eq_override]
  refine h.override fun a f hf => ?_
  split
  · exact Finset.sdiff_subset
  next ha =>
    rw [h.inner a f hf]
    exact Finset.subset_sdiff.mpr ⟨hpart, Finset.disjoint_singleton_right.mpr ha⟩

theorem WellFormed.flushMsgsDel {nodes : Finset ν} {msgs : Msgs ν α} (h : WellFormed nodes msgs)
    (P : Params ν) {S : Finset ν} (hS : S ⊆ nodes) :
    WellFormed nodes (FifoNetwork.flushMsgsDel P S msgs) := by
  rw [flushMsgsDel_eq_override]
  refine h.override fun a f hf => ?_
  split
  · exact Finset.Subset.refl _
  next ha =>
    rw [h.inner a f hf]
    exact Finset.subset_sdiff.mpr ⟨hS, Finset.disjoint_singleton_right.mpr ha⟩

end Tmet.FifoNetwork
