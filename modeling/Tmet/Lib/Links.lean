import Tmet.Lib.Simulation

/-!
# `Tmet.Lib.Links`: a network of links

Between every two nodes there is a link, which is up or down, with a queue for either
direction. What is sent on a link that is up is appended to its queue, what is sent on one
that is down is lost. A delivery takes the head. The other acts take links up and down for a
set of nodes, and may drop what is on the way on the links they cut.

A link that is up and is not cut is a reliable FIFO channel: what is sent on it is delivered
in order, or is still on the way (`Links.exec_reliable`).
-/

set_option autoImplicit false

namespace Tmet.Lib

universe u v w x

variable {ν : Type u} {μ : Type v} [DecidableEq ν]

/-- Which links are up, and what is on the way. -/
structure Links (ν : Type u) (μ : Type v) where
  up : ν → ν → Prop
  queue : ν → ν → List μ

/-- What may happen. -/
inductive LinkAct (ν : Type u) (μ : Type v) where
  | send (a b : ν) (x : μ)
  | deliver (a b : ν) (x : μ)
  /-- connect the nodes of the set with each other -/
  | join (S : Finset ν)
  /-- disconnect the nodes of the set from each other and from the rest -/
  | isolate (S : Finset ν)
  /-- connect the nodes of the set with each other and disconnect them from the rest -/
  | split (S : Finset ν)
  /-- connect all -/
  | cure

namespace LinkAct

/-- The act takes the link down, if it is up. -/
def Cuts (a b : ν) : LinkAct ν μ → Prop
  | .isolate S => a ∈ S ∨ b ∈ S
  | .split S => ¬ (a ∈ S ↔ b ∈ S)
  | _ => False

instance (a b : ν) : (act : LinkAct ν μ) → Decidable (act.Cuts a b)
  | .send _ _ _ => inferInstanceAs (Decidable False)
  | .deliver _ _ _ => inferInstanceAs (Decidable False)
  | .join _ => inferInstanceAs (Decidable False)
  | .isolate _ => inferInstanceAs (Decidable (_ ∨ _))
  | .split _ => inferInstanceAs (Decidable (¬ _))
  | .cure => inferInstanceAs (Decidable False)

/-- The act brings the link up, or keeps it so. -/
def Joins (a b : ν) : LinkAct ν μ → Prop
  | .join S => a ∈ S ∧ b ∈ S
  | .split S => a ∈ S ∧ b ∈ S
  | .cure => True
  | _ => False

/-- No messages, but links. -/
def Rewires : LinkAct ν μ → Prop
  | .send _ _ _ => False
  | .deliver _ _ _ => False
  | _ => True

/-- What is sent from `a` to `b`. -/
def sentOn (a b : ν) : LinkAct ν μ → List μ
  | .send x y m => if x = a ∧ y = b then [m] else []
  | _ => []

/-- What is delivered from `a` to `b`. -/
def deliveredOn (a b : ν) : LinkAct ν μ → List μ
  | .deliver x y m => if x = a ∧ y = b then [m] else []
  | _ => []

section Moves

variable {ι : Type w} (src dst : ι → ν) (body : ι → μ) (ms : List ι) (a b : ν)

/-- What some sends put on a link: those for it, in their order. -/
theorem flatMap_sentOn_send :
    (ms.map fun m => send (src m) (dst m) (body m)).flatMap (sentOn a b)
      = (ms.filter fun m => src m = a ∧ dst m = b).map body := by
  induction ms with
  | nil => rfl
  | cons m ms ih =>
      rw [List.map_cons, List.flatMap_cons, ih]
      by_cases hm : src m = a ∧ dst m = b
      · rw [List.filter_cons_of_pos (by simpa using hm)]
        simp [sentOn, hm]
      · rw [List.filter_cons_of_neg (by simpa using hm)]
        simp [sentOn, hm]

/-- What some deliveries take from a link. -/
theorem flatMap_deliveredOn_deliver :
    (ms.map fun m => deliver (src m) (dst m) (body m)).flatMap (deliveredOn a b)
      = (ms.filter fun m => src m = a ∧ dst m = b).map body := by
  induction ms with
  | nil => rfl
  | cons m ms ih =>
      rw [List.map_cons, List.flatMap_cons, ih]
      by_cases hm : src m = a ∧ dst m = b
      · rw [List.filter_cons_of_pos (by simpa using hm)]
        simp [deliveredOn, hm]
      · rw [List.filter_cons_of_neg (by simpa using hm)]
        simp [deliveredOn, hm]

@[simp] theorem flatMap_sentOn_deliver :
    (ms.map fun m => deliver (src m) (dst m) (body m)).flatMap (sentOn a b) = [] := by
  induction ms with
  | nil => rfl
  | cons m ms ih => exact ih

@[simp] theorem flatMap_deliveredOn_send :
    (ms.map fun m => send (src m) (dst m) (body m)).flatMap (deliveredOn a b) = [] := by
  induction ms with
  | nil => rfl
  | cons m ms ih => exact ih

end Moves

end LinkAct

namespace Links

/-- Another queue for one direction of a link. -/
def setQueue (l : Links ν μ) (a b : ν) (q : List μ) : Links ν μ :=
  { l with queue := fun x y => if x = a ∧ y = b then q else l.queue x y }

@[simp] theorem setQueue_up (l : Links ν μ) (a b : ν) (q : List μ) :
    (l.setQueue a b q).up = l.up := rfl

@[simp] theorem setQueue_queue (l : Links ν μ) (a b x y : ν) (q : List μ) :
    (l.setQueue a b q).queue x y = if x = a ∧ y = b then q else l.queue x y := rfl

/-- The links after an act that sends and delivers nothing. -/
def rewire (l : Links ν μ) (flush : Bool) (act : LinkAct ν μ) : Links ν μ where
  up a b := act.Joins a b ∨ (l.up a b ∧ ¬ act.Cuts a b)
  queue a b := if flush = true ∧ act.Cuts a b then [] else l.queue a b

/-- One step. `flush` says whether a cut drops what is on the way. -/
inductive Step (flush : Bool) : Links ν μ → LinkAct ν μ → Links ν μ → Prop
  | send {l : Links ν μ} {a b : ν} {x : μ} :
      l.up a b → Step flush l (.send a b x) (l.setQueue a b (l.queue a b ++ [x]))
  | lose {l : Links ν μ} {a b : ν} {x : μ} : ¬ l.up a b → Step flush l (.send a b x) l
  | deliver {l : Links ν μ} {a b : ν} {x : μ} {rest : List μ} :
      l.queue a b = x :: rest → Step flush l (.deliver a b x) (l.setQueue a b rest)
  | rewire {l : Links ν μ} {act : LinkAct ν μ} :
      act.Rewires → Step flush l act (l.rewire flush act)

end Links

/-- The runs of the links, from the state where all are up and nothing is on the way. -/
def links (ν : Type u) (μ : Type v) [DecidableEq ν] (flush : Bool) :
    System (Links ν μ) (LinkAct ν μ) where
  init l := l = ⟨fun _ _ => True, fun _ _ => []⟩
  step := Links.Step flush

namespace Links

variable {flush : Bool} {l l' : Links ν μ} {act : LinkAct ν μ} {a b : ν}

/-- A link that is up is taken down by a cut only. -/
theorem Step.up (h : Step flush l act l') (hup : l.up a b) (hcut : ¬ act.Cuts a b) :
    l'.up a b := by
  cases h with
  | send _ => exact hup
  | lose _ => exact hup
  | deliver _ => exact hup
  | rewire _ => exact Or.inr ⟨hup, hcut⟩

/-- Without a cut, what is on the way and what is sent is delivered or on the way
afterwards. -/
theorem Step.conserves (h : Step flush l act l') (hup : l.up a b) (hcut : ¬ act.Cuts a b) :
    l.queue a b ++ act.sentOn a b = act.deliveredOn a b ++ l'.queue a b := by
  cases h with
  | @send x y m _ =>
      by_cases hxy : a = x ∧ b = y
      · obtain ⟨rfl, rfl⟩ := hxy
        simp [LinkAct.sentOn, LinkAct.deliveredOn]
      · have hyx : ¬ (x = a ∧ y = b) := fun h => hxy ⟨h.1.symm, h.2.symm⟩
        simp [LinkAct.sentOn, LinkAct.deliveredOn, hxy, hyx]
  | @lose x y m hdown =>
      have hyx : ¬ (x = a ∧ y = b) := by
        rintro ⟨rfl, rfl⟩
        exact hdown hup
      simp [LinkAct.sentOn, LinkAct.deliveredOn, hyx]
  | @deliver x y m rest hhead =>
      by_cases hxy : a = x ∧ b = y
      · obtain ⟨rfl, rfl⟩ := hxy
        simp [LinkAct.sentOn, LinkAct.deliveredOn, hhead]
      · have hyx : ¬ (x = a ∧ y = b) := fun h => hxy ⟨h.1.symm, h.2.symm⟩
        simp [LinkAct.sentOn, LinkAct.deliveredOn, hxy, hyx]
  | rewire hact =>
      cases act with
      | send _ _ _ => exact absurd hact id
      | deliver _ _ _ => exact absurd hact id
      | _ => simp [Links.rewire, LinkAct.sentOn, LinkAct.deliveredOn, hcut]

/-- A link that is up, and is not cut, is a reliable FIFO channel. -/
theorem exec_reliable {tr : List (Lib.Step (Links ν μ) (LinkAct ν μ))}
    (h : (links ν μ flush).Exec l tr l') (hup : l.up a b) (hcut : ∀ t ∈ tr, ¬ t.act.Cuts a b) :
    l'.up a b ∧ l.queue a b ++ tr.flatMap (fun t => t.act.sentOn a b)
      = tr.flatMap (fun t => t.act.deliveredOn a b) ++ l'.queue a b := by
  induction h with
  | nil => exact ⟨hup, by simp⟩
  | @cons l act l₁ tr l' hs _ ih =>
      have hfirst : ¬ act.Cuts a b := hcut ⟨l, act, l₁⟩ (by simp)
      have hconserves := Step.conserves hs hup hfirst
      obtain ⟨hup', hrest⟩ := ih (Step.up hs hup hfirst) fun t ht => hcut t (by simp [ht])
      refine ⟨hup', ?_⟩
      simp only [List.flatMap_cons]
      rw [← List.append_assoc, hconserves, List.append_assoc, hrest, List.append_assoc]

/-- A system that the links follow has, on a link that is up and is not cut, what it sends
delivered in order. -/
theorem reliable_of_simulates {σ : Type w} {α : Type x} {S : System σ α}
    {R : σ → Links ν μ → Prop} {acts : Lib.Step σ α → List (LinkAct ν μ)}
    (hsim : System.Simulates S (links ν μ flush) R acts) {s₀ s : σ} {post : List (Lib.Step σ α)}
    (h : S.Exec s₀ post s) (hR : R s₀ l) (hup : l.up a b)
    (hcut : ∀ t ∈ post, ∀ act ∈ acts t, ¬ act.Cuts a b) :
    ∃ l', R s l' ∧ l'.up a b
      ∧ l.queue a b ++ post.flatMap (fun t => (acts t).flatMap (LinkAct.sentOn a b))
        = post.flatMap (fun t => (acts t).flatMap (LinkAct.deliveredOn a b)) ++ l'.queue a b := by
  obtain ⟨tr, l', hexec, hR', hacts⟩ := h.simulate hsim hR
  have hkept (t : Lib.Step (Links ν μ) (LinkAct ν μ)) (ht : t ∈ tr) : ¬ t.act.Cuts a b := by
    have hmem : t.act ∈ tr.map Lib.Step.act := List.mem_map_of_mem ht
    rw [hacts] at hmem
    obtain ⟨u, hu, hact⟩ := List.mem_flatMap.mp hmem
    exact hcut u hu t.act hact
  have hmoves (f : LinkAct ν μ → List μ) :
      tr.flatMap (fun t => f t.act) = post.flatMap fun t => (acts t).flatMap f := by
    rw [← List.flatMap_map, hacts, List.flatMap_assoc]
  obtain ⟨hup', hfifo⟩ := exec_reliable hexec hup hkept
  rw [hmoves, hmoves] at hfifo
  exact ⟨l', hR', hup', hfifo⟩

/-- Several messages are sent one after the other. -/
theorem exec_sends (flush : Bool) (ms : List (ν × ν × μ)) (l : Links ν μ) :
    ∃ post l', (links ν μ flush).Exec l post l'
      ∧ post.map Lib.Step.act = ms.map (fun m => .send m.1 m.2.1 m.2.2) ∧ l'.up = l.up
      ∧ ∀ a b, (¬ l.up a b → l'.queue a b = l.queue a b)
        ∧ (l.up a b → l'.queue a b
          = l.queue a b ++ (ms.filter fun m => m.1 = a ∧ m.2.1 = b).map fun m => m.2.2) := by
  induction ms generalizing l with
  | nil => exact ⟨[], l, .nil, rfl, rfl, by simp⟩
  | cons m ms ih =>
      obtain ⟨x, y, m⟩ := m
      by_cases hup : l.up x y
      · obtain ⟨post, l', hexec, hacts, hup', hqueue⟩ := ih (l.setQueue x y (l.queue x y ++ [m]))
        refine ⟨_ :: post, l', .cons (.send hup) hexec, by simp [hacts], hup', fun a b => ?_⟩
        obtain ⟨hdown, hadded⟩ := hqueue a b
        by_cases hxy : a = x ∧ b = y
        · obtain ⟨rfl, rfl⟩ := hxy
          refine ⟨fun h => absurd hup h, fun _ => ?_⟩
          simpa using hadded hup
        · have hyx : ¬ (x = a ∧ y = b) := fun h => hxy ⟨h.1.symm, h.2.symm⟩
          refine ⟨fun h => by simpa [hxy] using hdown h, fun h => ?_⟩
          simpa [hxy, hyx] using hadded h
      · obtain ⟨post, l', hexec, hacts, hup', hqueue⟩ := ih l
        refine ⟨_ :: post, l', .cons (.lose (x := m) hup) hexec, by simp [hacts], hup', fun a b => ?_⟩
        obtain ⟨hdown, hadded⟩ := hqueue a b
        refine ⟨hdown, fun h => ?_⟩
        have hyx : ¬ (x = a ∧ y = b) := by
          rintro ⟨rfl, rfl⟩
          exact hup h
        simpa [hyx] using hadded h

end Links

end Tmet.Lib
