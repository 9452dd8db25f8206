import Tmet.Proofs.FifoNetwork.Connectivity

/-!
# `Tmet.Proofs.FifoNetwork.ConnList`: the shape of the connection list

Two properties of `_netman.conn` over the runs of the API, and exactly which calls
break them.

`Minimal`: every set has two nodes and none is contained in another one. `_AddConn`
drops the sets the new one covers, and skips a set that is covered
(`Minimal.addConn`). `_DelConn` shrinks each set on its own, and may leave one inside
another (`minimal_delConn_iff`).

`PartedExact`: `NetIsParted` is `FALSE` exactly if all nodes are connected. The
operator compares the list with the one set of all nodes, so it is exact as long as
the list is that one set whenever every two nodes are connected. The only call that
breaks this is a `NetAddConn` that connects the last pair of nodes, and not all nodes
at once (`partedExact_step_iff`).
-/

set_option autoImplicit false

namespace Tmet.FifoNetwork

open Tmet.Lib

variable {ν α γ : Type}

/-! ### No set inside another one -/

/-- Every set has at least two nodes, and no set is contained in one at a different
position. -/
structure Minimal (conn : List (Finset ν)) : Prop where
  two : ∀ p ∈ conn, 2 ≤ p.card
  incomp : conn.Pairwise (IncompRel (· ⊆ ·))

/-- A list of one set. -/
theorem minimal_singleton {S : Finset ν} (h : 2 ≤ S.card) : Minimal [S] where
  two p hp := by
    obtain rfl := List.mem_singleton.mp hp
    exact h
  incomp := List.pairwise_singleton _ _

/-- A minimal list has no set twice. -/
theorem Minimal.nodup {conn : List (Finset ν)} (h : Minimal conn) : conn.Nodup :=
  h.incomp.imp fun hinc heq => hinc.1 heq.subset

variable [DecidableEq ν]

/-- The two cases of `_AddConn`: the list is left as it is, or the sets the new one
covers are dropped and it is appended. -/
theorem addConn_cases (S : Finset ν) (conn : List (Finset ν)) :
    (addConn S conn = conn ∧ (S.card ≤ 1 ∨ ∃ p ∈ conn, S ⊆ p))
      ∨ (addConn S conn = (conn.filter fun p => ¬ p ⊆ S) ++ [S]
          ∧ 2 ≤ S.card ∧ ∀ p ∈ conn, ¬ S ⊆ p) := by
  have hlen : 0 < (conn.filter fun p => S ⊆ p).length ↔ ∃ p ∈ conn, S ⊆ p := by
    rw [List.length_pos_iff_exists_mem]
    simp
  unfold addConn
  by_cases hskip : S.card ≤ 1 ∨ 0 < (conn.filter fun p => S ⊆ p).length
  · rw [if_pos hskip]
    exact Or.inl ⟨rfl, hskip.imp id hlen.mp⟩
  · rw [if_neg hskip]
    have hcard : ¬ S.card ≤ 1 := fun h => hskip (Or.inl h)
    have hnone : ¬ ∃ p ∈ conn, S ⊆ p := fun h => hskip (Or.inr (hlen.mpr h))
    refine Or.inr ⟨rfl, by omega, fun p hp hsub => hnone ⟨p, hp, hsub⟩⟩

/-- `_AddConn` keeps a minimal list minimal. -/
theorem Minimal.addConn {conn : List (Finset ν)} (h : Minimal conn) (S : Finset ν) :
    Minimal (addConn S conn) := by
  rcases addConn_cases S conn with ⟨heq, -⟩ | ⟨heq, hcard, hnone⟩
  · rw [heq]
    exact h
  · rw [heq]
    constructor
    · intro p hp
      rcases List.mem_append.mp hp with hp | hp
      · exact h.two p (List.mem_of_mem_filter hp)
      · obtain rfl := List.mem_singleton.mp hp
        exact hcard
    · -- the kept sets were apart before, and none of them covers `S` or is covered
      rw [List.pairwise_append]
      refine ⟨h.incomp.filter _, List.pairwise_singleton _ _, fun p hp q hq => ?_⟩
      obtain rfl := List.mem_singleton.mp hq
      obtain ⟨hp, hsub⟩ := List.mem_filter.mp hp
      exact ⟨by simpa using hsub, hnone p hp⟩

/-- Without `S`, one set of the list would be left inside another one. -/
def LeavesCovered (S : Finset ν) (conn : List (Finset ν)) : Prop :=
  ∃ p ∈ conn, ∃ q ∈ conn, p ≠ q ∧ 2 ≤ (p \ S).card ∧ p \ S ⊆ q

/-- `_DelConn` of a minimal list is minimal, unless it leaves one set inside
another. -/
theorem minimal_delConn_iff {conn : List (Finset ν)} (h : Minimal conn) (S : Finset ν) :
    Minimal (delConn S conn) ↔ ¬ LeavesCovered S conn := by
  let Rest (p q : Finset ν) : Prop :=
    2 ≤ (p \ S).card → 2 ≤ (q \ S).card → IncompRel (· ⊆ ·) (p \ S) (q \ S)
  have hsymm : Std.Symm Rest := ⟨fun p q hpq hq hp => (hpq hp hq).symm⟩
  have hrest : Minimal (delConn S conn) ↔ ∀ p ∈ conn, ∀ q ∈ conn, p ≠ q → Rest p q := by
    have hpair : (delConn S conn).Pairwise (IncompRel (· ⊆ ·)) ↔ conn.Pairwise Rest := by
      rw [delConn_eq, List.pairwise_filter, List.pairwise_map]
      simp only [decide_eq_true_eq]
      rfl
    -- the sets of a minimal list are different, so positions can be forgotten
    rw [← h.nodup.pairwise_coe] at hpair
    refine ⟨fun hmin => hpair.mp hmin.incomp, fun hall => ⟨fun p hp => ?_, hpair.mpr hall⟩⟩
    obtain ⟨q, -, -, hcard⟩ := mem_delConn.mp hp
    exact hcard
  rw [hrest]
  constructor
  · rintro hall ⟨p, hp, q, hq, hne, hcard, hsub⟩
    have hsub' : p \ S ⊆ q \ S := Finset.subset_sdiff.mpr ⟨hsub, Finset.sdiff_disjoint⟩
    have hcard' : 2 ≤ (q \ S).card := hcard.trans (Finset.card_le_card hsub')
    exact (hall p hp q hq hne hcard hcard').1 hsub'
  · intro hno p hp q hq hne hcardp hcardq
    constructor
    · intro hsub
      exact hno ⟨p, hp, q, hq, hne, hcardp, hsub.trans Finset.sdiff_subset⟩
    · intro hsub
      exact hno ⟨q, hq, p, hp, hne.symm, hcardq, hsub.trans Finset.sdiff_subset⟩

/-- `_PartConn` adds `S` to what `_DelConn` leaves. No set that is left has a node of
`S`, so nothing is dropped. -/
theorem minimal_partConn_iff {conn : List (Finset ν)} (h : Minimal conn) (S : Finset ν) :
    Minimal (partConn S conn) ↔ ¬ LeavesCovered S conn := by
  rw [← minimal_delConn_iff h S]
  refine ⟨fun hmin => ?_, fun hmin => hmin.addConn S⟩
  unfold partConn at hmin
  rcases addConn_cases S (delConn S conn) with ⟨heq, -⟩ | ⟨heq, -, -⟩
  · rwa [heq] at hmin
  · have hkept : (delConn S conn).filter (fun p => ¬ p ⊆ S) = delConn S conn := by
      rw [List.filter_eq_self]
      intro p hp
      obtain ⟨q, -, rfl, hcard⟩ := mem_delConn.mp hp
      -- what is left of a set has two nodes, and none of `S`
      have hnot : ¬ q \ S ⊆ S := fun hsub => by
        have hempty : q \ S = ∅ :=
          Finset.subset_empty.mp ((Finset.subset_sdiff.mpr ⟨Finset.Subset.refl _,
            Finset.sdiff_disjoint⟩).trans (Finset.sdiff_eq_empty_iff_subset.mpr hsub).subset)
        simp [hempty] at hcard
      simpa using hnot
    rw [heq, hkept] at hmin
    exact ⟨fun p hp => hmin.two p (List.mem_append_left _ hp),
      (List.pairwise_append.mp hmin.incomp).1⟩

/-- The call takes nodes out of every set, and leaves one set inside another. -/
def Op.LeavesCovered (v : Vars ν α) : Op ν α γ → Prop
  | .delConn S | .partConn S => FifoNetwork.LeavesCovered S v.netman.conn
  | _ => False

/-- From a minimal list, a call leads to a minimal list unless it leaves one set inside
another. -/
theorem minimal_step_iff {P : Params ν} {nodes : Finset ν} (hnodes : 2 ≤ nodes.card)
    {v v' : Vars ν α} {op : Op ν α γ} (hok : NetOk nodes v) (h : Minimal v.netman.conn)
    (heff : op.Effect P v v') : Minimal v'.netman.conn ↔ ¬ op.LeavesCovered v := by
  cases heff with
  | traffic _ hop =>
      have hno : ¬ op.LeavesCovered v := by
        cases op <;> first | exact id | exact absurd trivial hop
      exact ⟨fun _ => hno, fun _ => h⟩
  | addConn S => exact ⟨fun _ => id, fun _ => h.addConn S⟩
  | delConnFlush S _ => exact minimal_delConn_iff h S
  | delConn S _ => exact minimal_delConn_iff h S
  | partConnFlush S _ _ => exact minimal_partConn_iff h S
  | partConn S _ _ => exact minimal_partConn_iff h S
  | cureConn _ =>
      -- `NetCureConn` leaves the one set of all nodes
      have hdom : getNodes v = nodes := hok.wf.dom
      refine ⟨fun _ => id, fun _ => ?_⟩
      show Minimal [getNodes v]
      rw [hdom]
      exact minimal_singleton hnodes

/-- For every node set with two nodes and every run of the API with node arguments
from it, the connection list is minimal in every state the run visits if and only if
no `NetDelConn` and no `NetPartConn` of the run leaves one set inside another. -/
theorem connections_minimal_iff (P : Params ν) (nodes : Finset ν) (hnodes : 2 ≤ nodes.card)
    (tr : List (Step (Net ν α γ) (Op ν α γ))) (s : Net ν α γ)
    (h : (api P nodes (Op.NodesIn nodes)).Run tr s) :
    ((∀ t ∈ tr, Minimal t.src.netman.conn) ∧ Minimal s.netman.conn)
      ↔ ∀ t ∈ tr, ¬ t.act.LeavesCovered t.src.toVars := by
  refine h.visited_iff (P := fun s => Minimal s.netman.conn) ?_ ?_
  · rintro s rfl
    exact minimal_singleton hnodes
  · rintro tr s op s' hr ⟨-, args, hargs, rfl⟩ hmin
    exact minimal_step_iff hnodes (NetOk.of_run (fun _ => id) hr) hmin (Op.apply_effect hargs)

/-- Four nodes. `2` is deleted, then connected with `0` and `1` again, and `2` and `3`
are deleted. -/
def fourNodes : Net ℕ Unit Unit := initFifoNetwork {0, 1, 2, 3}

def withoutTwo : Net ℕ Unit Unit :=
  netUpdate fourNodes.toVars (netDelConn flushing fourNodes.toVars {2})

def overlapping : Net ℕ Unit Unit :=
  netUpdate withoutTwo.toVars (netAddConn withoutTwo.toVars {0, 1, 2})

def twice : Net ℕ Unit Unit :=
  netUpdate overlapping.toVars (netDelConn flushing overlapping.toVars {2, 3})

/-- The history of that run. -/
def shrinkTwice : List (Step (Net ℕ Unit Unit) (Op ℕ Unit Unit)) :=
  [⟨fourNodes, .delConn {2}, withoutTwo⟩, ⟨withoutTwo, .addConn {0, 1, 2}, overlapping⟩,
    ⟨overlapping, .delConn {2, 3}, twice⟩]

theorem run_shrinkTwice {V : Op ℕ Unit Unit → Prop}
    (hV : ∀ op, op.Reconnects → op.NodesIn {0, 1, 2, 3} → V op) :
    (api flushing {0, 1, 2, 3} V).Run shrinkTwice twice := by
  have hdel : V (.delConn {2}) := hV _ trivial (by simp [Op.NodesIn])
  have hadd : V (.addConn {0, 1, 2}) :=
    hV _ trivial (show ({0, 1, 2} : Finset ℕ) ⊆ {0, 1, 2, 3} by decide)
  have hdel' : V (.delConn {2, 3}) :=
    hV _ trivial (show ({2, 3} : Finset ℕ) ⊆ {0, 1, 2, 3} by decide)
  exact run_call (run_call (run_call (.nil rfl) hdel rfl) hadd rfl) hdel' rfl

/-- At its end the list holds `{0, 1}` twice. -/
theorem connections_minimal_fails :
    ¬ ∀ tr s, (api flushing {0, 1, 2, 3} fun op : Op ℕ Unit Unit =>
        op.Reconnects ∧ op.NodesIn {0, 1, 2, 3}).Run tr s → Minimal s.netman.conn := by
  intro hmin
  have htwice : Minimal twice.netman.conn :=
    hmin shrinkTwice twice (run_shrinkTwice fun _ hre hin => ⟨hre, hin⟩)
  have hconn : twice.netman.conn = [{0, 1}, {0, 1}] := by decide
  have hnodup := htwice.nodup
  rw [hconn] at hnodup
  simp at hnodup

theorem connections_minimal_iff_shrinkTwice :
    ¬ ((∀ t ∈ shrinkTwice, Minimal t.src.netman.conn) ∧ Minimal twice.netman.conn) := by
  intro hmin
  have hrun := run_shrinkTwice (V := Op.NodesIn {0, 1, 2, 3}) fun _ _ => id
  have hbad : (Op.delConn {2, 3} : Op ℕ Unit Unit).LeavesCovered overlapping.toVars := by
    show ∃ p ∈ overlapping.netman.conn, ∃ q ∈ overlapping.netman.conn,
      p ≠ q ∧ 2 ≤ (p \ {2, 3}).card ∧ p \ {2, 3} ⊆ q
    decide
  exact (connections_minimal_iff flushing {0, 1, 2, 3} (by decide) shrinkTwice twice hrun).mp hmin
    ⟨overlapping, .delConn {2, 3}, twice⟩ (by simp [shrinkTwice]) hbad

/-! ### `NetIsParted` -/

/-- Every two different nodes are connected. -/
def AllConnected (nodes : Finset ν) (v : Vars ν α) : Prop :=
  ∀ x ∈ nodes, ∀ y ∈ nodes, x ≠ y → netIsConn v x y

/-- `NetIsParted` is `FALSE` if and only if every two different nodes are connected. -/
def PartedExact (nodes : Finset ν) (v : Vars ν α) : Prop :=
  ¬ netIsParted v ↔ AllConnected nodes v

omit [DecidableEq ν] in
/-- What `NetIsParted` tests. -/
theorem not_netIsParted_iff [DecidableEq ν] {v : Vars ν α} :
    ¬ netIsParted v ↔ v.netman.conn = [getNodes v] := by
  unfold netIsParted
  rw [not_or, not_not, not_not]
  constructor
  · rintro ⟨hlen, hhead⟩
    obtain ⟨p, hp⟩ := List.length_eq_one_iff.mp hlen
    rw [hp] at hhead ⊢
    rw [Option.some.inj hhead]
  · intro hconn
    rw [hconn]
    exact ⟨rfl, rfl⟩

/-- A set with all nodes connects them. -/
theorem allConnected_of_mem {nodes : Finset ν} {v : Vars ν α} {p : Finset ν}
    (hp : p ∈ v.netman.conn) (hsub : nodes ⊆ p) : AllConnected nodes v :=
  fun _ hx _ hy _ => netIsConn_iff_connected.mpr ⟨p, hp, hsub hx, hsub hy⟩

/-- One half of the exactness holds in every state. So it comes down to the other
half. -/
theorem partedExact_iff {nodes : Finset ν} {v : Vars ν α} (hdom : getNodes v = nodes) :
    PartedExact nodes v ↔ (AllConnected nodes v → v.netman.conn = [nodes]) := by
  unfold PartedExact
  rw [not_netIsParted_iff, hdom]
  refine ⟨Iff.mpr, fun h => ⟨fun hconn => ?_, h⟩⟩
  exact allConnected_of_mem (by rw [hconn]; exact List.mem_singleton_self _)
    (Finset.Subset.refl _)

/-- A deletion that leaves every two nodes connected deletes nothing. -/
theorem eq_empty_of_connected_delConn {nodes S : Finset ν} (hnodes : 2 ≤ nodes.card)
    (hS : S ⊆ nodes) {conn : List (Finset ν)}
    (h : ∀ x ∈ nodes, ∀ y ∈ nodes, x ≠ y → Connected (delConn S conn) x y) : S = ∅ := by
  by_contra hne
  obtain ⟨x, hx⟩ := Finset.nonempty_iff_ne_empty.mpr hne
  obtain ⟨y, hy, hxy⟩ := Finset.exists_mem_ne hnodes x
  exact ((connected_delConn hxy.symm).mp (h x (hS hx) y hy hxy.symm)).2 (Or.inl hx)

/-- A partition that leaves every two nodes connected has no node or all nodes in its
part. -/
theorem eq_of_connected_partConn {nodes S : Finset ν} (hS : S ⊆ nodes) {conn : List (Finset ν)}
    (h : ∀ x ∈ nodes, ∀ y ∈ nodes, x ≠ y → Connected (partConn S conn) x y) :
    S = ∅ ∨ S = nodes := by
  by_contra hne
  rw [not_or] at hne
  obtain ⟨x, hx⟩ := Finset.nonempty_iff_ne_empty.mpr hne.1
  obtain ⟨y, hy, hyS⟩ := Finset.exists_of_ssubset (hS.ssubset_of_ne hne.2)
  have hxy : x ≠ y := fun heq => hyS (heq ▸ hx)
  rcases (connected_partConn hxy).mp (h x (hS hx) y hy hxy) with ⟨-, hy'⟩ | ⟨hx', -, -⟩
  · exact hyS hy'
  · exact hx' hx

/-- Nothing is deleted from the list of the one set of all nodes. -/
theorem delConn_empty_singleton {nodes : Finset ν} (hnodes : 2 ≤ nodes.card) :
    delConn ∅ [nodes] = [nodes] := by
  have hcard : 1 < nodes.card := hnodes
  simp [delConn_eq, hcard]

/-- A part of all nodes replaces the whole list. -/
theorem partConn_nodes {nodes : Finset ν} (hnodes : 2 ≤ nodes.card) {conn : List (Finset ν)}
    (h : ∀ p ∈ conn, p ⊆ nodes) : partConn nodes conn = [nodes] := by
  have hnil : delConn nodes conn = [] := by
    rw [List.eq_nil_iff_forall_not_mem]
    intro p hp
    obtain ⟨q, hq, rfl, hcard⟩ := mem_delConn.mp hp
    rw [Finset.sdiff_eq_empty_iff_subset.mpr (h q hq)] at hcard
    simp at hcard
  unfold partConn
  rw [hnil]
  have hcard : ¬ nodes.card ≤ 1 := by omega
  simp [addConn, hcard]

/-- The call connects the last nodes that were not connected, and not all nodes at
once. -/
def Op.CompletesInParts (nodes : Finset ν) (v : Vars ν α) : Op ν α γ → Prop
  | .addConn S => S ≠ nodes ∧ ¬ AllConnected nodes v
      ∧ ∀ x ∈ nodes, ∀ y ∈ nodes, x ≠ y → netIsConn v x y ∨ (x ∈ S ∧ y ∈ S)
  | _ => False

/-- `NetAddConn` from a state where the list is the one set of all nodes, if all are
connected. -/
theorem addConn_exact_iff {nodes S : Finset ν} (hnodes : 2 ≤ nodes.card) (hS : S ⊆ nodes)
    {v v' : Vars ν α} (hok : NetOk nodes v)
    (hexact : AllConnected nodes v → v.netman.conn = [nodes])
    (hconn : v'.netman.conn = addConn S v.netman.conn) :
    (AllConnected nodes v' → v'.netman.conn = [nodes])
      ↔ ¬ (Op.addConn S : Op ν α γ).CompletesInParts nodes v := by
  have hall : AllConnected nodes v'
      ↔ ∀ x ∈ nodes, ∀ y ∈ nodes, x ≠ y → netIsConn v x y ∨ (x ∈ S ∧ y ∈ S) := by
    refine forall₅_congr fun x _ y _ hxy => ?_
    rw [netIsConn_iff_connected, netIsConn_iff_connected, hconn, connected_addConn hxy]
  rw [hall, hconn]
  show _ ↔ ¬ (S ≠ nodes ∧ ¬ AllConnected nodes v ∧ _)
  rcases addConn_cases S v.netman.conn with ⟨heq, hskip⟩ | ⟨heq, hcard, hnone⟩
  · -- the list stays as it is
    rw [heq]
    constructor
    · rintro hgood ⟨-, hnot, hpairs⟩
      have hmem : nodes ∈ v.netman.conn := by
        rw [hgood hpairs]
        exact List.mem_singleton_self _
      exact hnot (allConnected_of_mem hmem (Finset.Subset.refl _))
    · intro hno hpairs
      by_cases hv : AllConnected nodes v
      · exact hexact hv
      · have hne : S = nodes := not_not.mp fun hne => hno ⟨hne, hv, hpairs⟩
        subst hne
        rcases hskip with hcard | ⟨p, hp, hsub⟩
        · omega
        · exact absurd (allConnected_of_mem hp hsub) hv
  · rw [heq]
    constructor
    · rintro hgood ⟨hne, -, hpairs⟩
      have hlast := congrArg List.getLast? (hgood hpairs)
      rw [List.getLast?_concat] at hlast
      exact hne (Option.some.inj hlast)
    · intro hno hpairs
      by_cases hv : AllConnected nodes v
      · have hmem : nodes ∈ v.netman.conn := by
          rw [hexact hv]
          exact List.mem_singleton_self _
        exact absurd hS (hnone nodes hmem)
      · have hne : S = nodes := not_not.mp fun hne => hno ⟨hne, hv, hpairs⟩
        subst hne
        -- every set of the list is a set of nodes, so the new one covers it
        have hnil : (v.netman.conn.filter fun p => ¬ p ⊆ S) = [] := by
          rw [List.filter_eq_nil_iff]
          intro p hp
          simpa using hok.conn p hp
        rw [hnil, List.nil_append]

theorem allConnected_iff {nodes : Finset ν} {v : Vars ν α} {conn : List (Finset ν)}
    (h : v.netman.conn = conn) :
    AllConnected nodes v ↔ ∀ x ∈ nodes, ∀ y ∈ nodes, x ≠ y → Connected conn x y := by
  rw [← h]
  exact forall₅_congr fun _ _ _ _ _ => netIsConn_iff_connected

/-- `NetDelConn` never completes the connections. -/
theorem delConn_exact {nodes S : Finset ν} (hnodes : 2 ≤ nodes.card) (hS : S ⊆ nodes)
    {v v' : Vars ν α} (hexact : AllConnected nodes v → v.netman.conn = [nodes])
    (hconn : v'.netman.conn = delConn S v.netman.conn) (hall : AllConnected nodes v') :
    v'.netman.conn = [nodes] := by
  have hall' := (allConnected_iff hconn).mp hall
  obtain rfl := eq_empty_of_connected_delConn hnodes hS hall'
  have hv : AllConnected nodes v := (allConnected_iff rfl).mpr fun x hx y hy hxy =>
    ((connected_delConn hxy).mp (hall' x hx y hy hxy)).1
  rw [hconn, hexact hv, delConn_empty_singleton hnodes]

/-- `NetPartConn` does so only with all nodes at once. -/
theorem partConn_exact {nodes S : Finset ν} (hnodes : 2 ≤ nodes.card) (hS : S ⊆ nodes)
    {v v' : Vars ν α} (hok : NetOk nodes v)
    (hexact : AllConnected nodes v → v.netman.conn = [nodes])
    (hconn : v'.netman.conn = partConn S v.netman.conn) (hall : AllConnected nodes v') :
    v'.netman.conn = [nodes] := by
  rcases eq_of_connected_partConn hS ((allConnected_iff hconn).mp hall) with rfl | rfl
  · -- an empty part is not added, so this is a deletion of no node
    have hcard : (∅ : Finset ν).card ≤ 1 := by simp
    have hconn' : v'.netman.conn = delConn ∅ v.netman.conn := by
      rw [hconn, partConn, FifoNetwork.addConn, if_pos (Or.inl hcard)]
    exact delConn_exact hnodes hS hexact hconn' hall
  · rw [hconn, partConn_nodes hnodes hok.conn]

/-- From a state where `NetIsParted` is exact, it stays exact unless the call completes
the connections in parts. -/
theorem partedExact_step_iff {P : Params ν} {nodes : Finset ν} (hnodes : 2 ≤ nodes.card)
    {v v' : Vars ν α} {op : Op ν α γ} (hok : NetOk nodes v) (hop : op.NodesIn nodes)
    (h : PartedExact nodes v) (heff : op.Effect P v v') :
    PartedExact nodes v' ↔ ¬ op.CompletesInParts nodes v := by
  have hdom' : getNodes v' = nodes := (hok.step hop heff).wf.dom
  rw [partedExact_iff hok.wf.dom] at h
  rw [partedExact_iff hdom']
  cases heff with
  | traffic _ hre =>
      have hno : ¬ op.CompletesInParts nodes v := by
        cases op <;> first | exact id | exact absurd trivial hre
      exact ⟨fun _ => hno, fun _ => h⟩
  | addConn S => exact addConn_exact_iff hnodes hop hok h rfl
  | delConnFlush S _ => exact ⟨fun _ => id, fun _ => delConn_exact hnodes hop h rfl⟩
  | delConn S _ => exact ⟨fun _ => id, fun _ => delConn_exact hnodes hop h rfl⟩
  | partConnFlush S _ _ => exact ⟨fun _ => id, fun _ => partConn_exact hnodes hop hok h rfl⟩
  | partConn S _ _ => exact ⟨fun _ => id, fun _ => partConn_exact hnodes hop hok h rfl⟩
  -- `NetCureConn` leaves one part of all nodes
  | cureConn _ =>
      refine ⟨fun _ => id, fun _ _ => ?_⟩
      have hdom : getNodes v = nodes := hok.wf.dom
      show [getNodes v] = [nodes]
      rw [hdom]

/-- For every node set with two nodes and every run of the API with node arguments
from it, `NetIsParted` is exact in every state the run visits if and only if no
`NetAddConn` of the run completes the connections in parts. -/
theorem partedExact_run_iff (P : Params ν) (nodes : Finset ν) (hnodes : 2 ≤ nodes.card)
    (tr : List (Step (Net ν α γ) (Op ν α γ))) (s : Net ν α γ)
    (h : (api P nodes (Op.NodesIn nodes)).Run tr s) :
    ((∀ t ∈ tr, PartedExact nodes t.src.toVars) ∧ PartedExact nodes s.toVars)
      ↔ ∀ t ∈ tr, ¬ t.act.CompletesInParts nodes t.src.toVars := by
  refine h.visited_iff (P := fun s => PartedExact nodes s.toVars) ?_ ?_
  · rintro s rfl
    exact (partedExact_iff (NetOk.init nodes).wf.dom).mpr fun _ => rfl
  · rintro tr s op s' hr ⟨hop, args, hargs, rfl⟩ hexact
    exact partedExact_step_iff hnodes (NetOk.of_run (fun _ => id) hr) hop hexact
      (Op.apply_effect hargs)

/-- Three nodes. All connections are deleted, and then the three pairs are connected
one after another. -/
def threeNodes : Net ℕ Unit Unit := initFifoNetwork {0, 1, 2}

def cutOff : Net ℕ Unit Unit :=
  netUpdate threeNodes.toVars (netDelConn flushing threeNodes.toVars {0, 1, 2})

def onePair : Net ℕ Unit Unit := netUpdate cutOff.toVars (netAddConn cutOff.toVars {0, 1})

def twoPairs : Net ℕ Unit Unit := netUpdate onePair.toVars (netAddConn onePair.toVars {1, 2})

def threePairs : Net ℕ Unit Unit := netUpdate twoPairs.toVars (netAddConn twoPairs.toVars {0, 2})

/-- The history of that run. -/
def connectPairs : List (Step (Net ℕ Unit Unit) (Op ℕ Unit Unit)) :=
  [⟨threeNodes, .delConn {0, 1, 2}, cutOff⟩, ⟨cutOff, .addConn {0, 1}, onePair⟩,
    ⟨onePair, .addConn {1, 2}, twoPairs⟩, ⟨twoPairs, .addConn {0, 2}, threePairs⟩]

theorem run_connectPairs {V : Op ℕ Unit Unit → Prop}
    (hV : ∀ op, op.Reconnects → op.NodesIn {0, 1, 2} → V op) :
    (api flushing {0, 1, 2} V).Run connectPairs threePairs := by
  have hdel : V (.delConn {0, 1, 2}) := hV _ trivial (Finset.Subset.refl _)
  have hadd (S : Finset ℕ) (hS : S ⊆ {0, 1, 2}) : V (.addConn S) := hV _ trivial hS
  exact run_call (run_call (run_call (run_call (.nil rfl) hdel rfl) (hadd {0, 1} (by decide)) rfl)
    (hadd {1, 2} (by decide)) rfl) (hadd {0, 2} (by decide)) rfl

/-- Every two nodes are connected at its end, and `NetIsParted` is `TRUE`. -/
theorem partedExact_fails :
    ¬ ∀ tr s, (api flushing {0, 1, 2} fun op : Op ℕ Unit Unit =>
        op.Reconnects ∧ op.NodesIn {0, 1, 2}).Run tr s → PartedExact {0, 1, 2} s.toVars := by
  intro hexact
  have hpairs := hexact connectPairs threePairs (run_connectPairs fun _ hre hin => ⟨hre, hin⟩)
  have hall : AllConnected {0, 1, 2} threePairs.toVars := by
    unfold AllConnected
    decide
  have hparted : netIsParted threePairs.toVars := Or.inl (by decide)
  exact hpairs.mpr hall hparted

theorem partedExact_run_iff_connectPairs :
    ¬ ((∀ t ∈ connectPairs, PartedExact {0, 1, 2} t.src.toVars)
      ∧ PartedExact {0, 1, 2} threePairs.toVars) := by
  intro hexact
  have hrun := run_connectPairs (V := Op.NodesIn {0, 1, 2}) fun _ _ => id
  have hbad : (Op.addConn {0, 2} : Op ℕ Unit Unit).CompletesInParts {0, 1, 2} twoPairs.toVars := by
    show _ ≠ _ ∧ ¬ AllConnected {0, 1, 2} twoPairs.toVars ∧ _
    unfold AllConnected
    decide
  exact (partedExact_run_iff flushing {0, 1, 2} (by decide) connectPairs threePairs hrun).mp hexact
    ⟨twoPairs, .addConn {0, 2}, threePairs⟩ (by simp [connectPairs]) hbad

end Tmet.FifoNetwork
