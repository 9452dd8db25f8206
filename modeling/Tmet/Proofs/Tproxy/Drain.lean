import Tmet.Lib.Simulation
import Tmet.Proofs.Tproxy.Delivery

/-!
# `Tmet.Proofs.Tproxy.Drain`: the queue of a channel can be emptied

That messages are written at most once and in order would hold of a proxy that never writes
one. Here is the other half. A `deliver` command takes from the queue of its channel what is
closed and the first message that is not (`takesFrom_deliverMsg`), so commands for the
channel come to the end of its queue. Then every message that was queued has been written to the
descriptor its connection has now, in the order of the queue, unless this connection was
closed or is marked as disconnected (`drained`).

That a `write` does not fail is assumed of the kernel (`WritesAll`). The other ends of a
partial or a failing `write` are in `Tmet.Proofs.Tproxy.Writing`.
-/

set_option autoImplicit false

namespace Tmet.Tproxy

open Tmet.Lib Tmet.Posix

variable {κ : Type} {K : Kernel κ Ctl Addr} {cfg : ConfigFile}

/-- A `write` to an open descriptor takes everything. -/
def WritesAll (K : Kernel κ Ctl Addr) : Prop :=
  ∀ {k : κ} {fd : Fd}, fd ∈ K.fds k → ∀ data, (K.write k fd data).1 = .ok data.length

/-- The connection that the message is for is there and not marked. -/
def Net.deliverable (s : Net κ) (m : Msg) : Bool :=
  decide (0 ≤ s.heap m.fd)
    && (s.fdToChannelStatus.get (s.heap m.fd)).elim false fun st => !st.disconnected

/-- The event of the message being written. -/
def Net.delivery (s : Net κ) (m : Msg) : Event :=
  .wrote (s.heap m.fd) (s.fdToChannelStatus.get (s.heap m.fd)) m.body

/-- What a delivery leaves as it is. -/
structure SameConns (s s' : Net κ) : Prop where
  heap : s'.heap = s.heap
  fdToChannelStatus : s'.fdToChannelStatus = s.fdToChannelStatus
  terminated : s'.terminated = s.terminated

theorem SameConns.deliverable {s s' : Net κ} (h : SameConns s s') :
    s'.deliverable = s.deliverable := by
  funext m
  rw [Net.deliverable, Net.deliverable, h.heap, h.fdToChannelStatus]

theorem SameConns.delivery {s s' : Net κ} (h : SameConns s s') : s'.delivery = s.delivery := by
  funext m
  rw [Net.delivery, Net.delivery, h.heap, h.fdToChannelStatus]

theorem OnlyIO.sameConns {s s' : Net κ} (h : OnlyIO K s s') : SameConns s s' :=
  ⟨h.heap, h.fdToChannelStatus, h.terminated⟩

/-! ### One delivery -/

/-- What is skipped is closed, and all of it is skipped if nothing is open. -/
theorem dequeueOpen_skips {heap : ℕ → Fd} {q rest : List Msg} {m : Option Msg}
    (h : Net.dequeueOpen heap q = (m, rest)) :
    ∃ closed, q = closed ++ (m.toList ++ rest) ∧ (∀ x ∈ closed, heap x.fd < 0)
      ∧ (m = none → rest = []) := by
  induction q with
  | nil =>
      cases h
      exact ⟨[], rfl, by simp, fun _ => rfl⟩
  | cons x q ih =>
      rw [Net.dequeueOpen] at h
      by_cases hx : heap x.fd < 0
      · rw [if_pos hx] at h
        obtain ⟨closed, rfl, hclosed, hnone⟩ := ih h
        refine ⟨x :: closed, rfl, fun y hy => ?_, hnone⟩
        rcases List.mem_cons.mp hy with rfl | hy
        · exact hx
        · exact hclosed y hy
      · rw [if_neg hx] at h
        cases h
        exact ⟨[], rfl, by simp, by simp⟩

theorem write_all (hwrites : WritesAll K) {s : Net κ} {fd : Fd} (hopen : fd ∈ K.fds s.kernel)
    (data : Bytes) :
    ∃ s', s.write K fd data = (.ok data.length, s') ∧ OnlyIO K s s'
      ∧ s'.log = s.log ++ [.wrote fd (s.fdToChannelStatus.get fd) data] := by
  cases hw : s.write K fd data with
  | mk r s₁ =>
      have hio := onlyIO_write hw
      have hok := hwrites hopen data
      rw [Net.write] at hw
      generalize K.write s.kernel fd data = answer at hw hok
      obtain ⟨r', k⟩ := answer
      obtain rfl : r' = .ok data.length := hok
      cases hw
      refine ⟨_, rfl, hio, ?_⟩
      show s.log ++ [Event.wrote fd (s.fdToChannelStatus.get fd) (data.take data.length)] = _
      rw [List.take_length]

/-- A body that is not empty is written with one `write`. -/
theorem writeLoop_all (hwrites : WritesAll K) {s : Net κ} {fd : Fd} (hopen : fd ∈ K.fds s.kernel)
    {body : Bytes} (hne : body ≠ []) (size : ℤ) :
    ∃ s', s.writeLoop K body.length fd body body.length size = ((body.length : ℤ), s')
      ∧ OnlyIO K s s' ∧ s'.log = s.log ++ [.wrote fd (s.fdToChannelStatus.get fd) body] := by
  obtain ⟨n, hn⟩ : ∃ n, body.length = n + 1 :=
    Nat.exists_eq_succ_of_ne_zero (List.length_pos_of_ne_nil hne).ne'
  obtain ⟨s', hw, hio, hlog⟩ := write_all hwrites hopen body
  refine ⟨s', ?_, hio, hlog⟩
  -- the first pass writes all, the second finds nothing left
  have hdone (fuel : ℕ) (z : ℤ) : s'.writeLoop K fuel fd body 0 z = (z, s') := by
    cases fuel <;> rfl
  rw [hn, Net.writeLoop, if_neg (Nat.succ_ne_zero n), ← hn, List.take_length, hw]
  simp only [Nat.sub_self, hdone]

/-- A message that can be delivered is written, another one is dropped. -/
theorem deliverTaken_all (hwrites : WritesAll K) (cfg : ConfigFile) {s : Net κ} {m : Msg}
    (hfd : 0 ≤ s.heap m.fd) (hopen : ∀ st, s.fdToChannelStatus.get (s.heap m.fd) = some st →
      s.heap m.fd ∈ K.fds s.kernel) (hlen : m.content.length = 8 + m.size) (hne : m.body ≠ []) :
    SameConns s (s.deliverTaken K cfg m) ∧ (s.deliverTaken K cfg m).network = s.network
      ∧ (s.deliverTaken K cfg m).log = s.log ++ ([m].filter s.deliverable).map s.delivery := by
  have hbody : m.body.length = m.size := by
    rw [Msg.body, List.length_drop, hlen]
    omega
  rw [Net.deliverTaken]
  cases hst : s.fdToChannelStatus.get (s.heap m.fd) with
  | none =>
      have hno : s.deliverable m = false := by simp [Net.deliverable, hst]
      exact ⟨⟨rfl, rfl, rfl⟩, rfl, by simp [hno]⟩
  | some st =>
      dsimp only
      cases htag : st.disconnected with
      | true =>
          have hno : s.deliverable m = false := by simp [Net.deliverable, hst, htag]
          exact ⟨⟨rfl, rfl, rfl⟩, rfl, by simp [hno]⟩
      | false =>
          have hyes : s.deliverable m = true := by simp [Net.deliverable, hst, htag, hfd]
          obtain ⟨s', hloop, hio, hlog⟩ :=
            writeLoop_all hwrites (hopen st hst) hne (K.garbage s.kernel)
          have hsize : ¬ (m.body.length : ℤ) = -1 := by omega
          rw [if_neg (by decide), ← hbody, hloop]
          dsimp only
          rw [if_neg hsize]
          refine ⟨hio.sameConns, hio.network, ?_⟩
          rw [hlog, List.filter_cons_of_pos hyes]
          rfl

/-- The first messages of the queue are gone, and of these the ones that can be delivered are
written. -/
structure TakesFrom (s : Net κ) (c : Channel) (q : List Msg) (s' : Net κ) : Prop where
  same : SameConns s s'
  taken : ∃ gone rest, q = gone ++ rest ∧ (q ≠ [] → gone ≠ [])
    ∧ s'.network = s.network.insert c rest
    ∧ s'.log = s.log ++ (gone.filter s.deliverable).map s.delivery

theorem takesFrom_deliverMsg (hwrites : WritesAll K) (cfg : ConfigFile) {s : Net κ}
    (hs : s.Consistent K) (haddressed : s.Addressed) {c : Channel} {q : List Msg}
    (hq : s.network.get c = some q) (hne : ∀ m ∈ q, m.body ≠ []) :
    TakesFrom s c q (s.deliverMsg K cfg c) := by
  rw [Net.deliverMsg, hq]
  dsimp only
  cases hm : Net.dequeueOpen s.heap q with
  | mk m rest =>
      obtain ⟨closed, rfl, hclosed, hnone⟩ := dequeueOpen_skips hm
      have hskipped : closed.filter s.deliverable = [] := by
        refine List.filter_eq_nil_iff.mpr fun x hx => ?_
        have hneg := hclosed x hx
        simp [Net.deliverable, hneg]
      cases m with
      | none =>
          obtain rfl := hnone rfl
          refine ⟨⟨rfl, rfl, rfl⟩, closed, [], by simp, fun h => by simpa using h, rfl, ?_⟩
          simp [hskipped]
      | some m =>
          have haddr := haddressed c _ hq m (by simp)
          have hopen : 0 ≤ s.heap m.fd := by
            obtain ⟨_, _, hopen⟩ := dequeueOpen_eq hm
            exact hopen m rfl
          obtain ⟨hsame, hnetwork, hlog⟩ := deliverTaken_all hwrites cfg
            (s := { s with network := s.network.insert c rest }) hopen
            (fun st hst => hs.conn_open _ st hst) haddr.length (hne m (by simp))
          refine ⟨⟨hsame.heap, hsame.fdToChannelStatus, hsame.terminated⟩, closed ++ [m], rest,
            by simp, by simp, hnetwork, ?_⟩
          rw [List.filter_append, hskipped, List.nil_append]
          exact hlog

/-! ### All of them -/

/-- The channel of a `deliver` command. -/
def channelOf (cfg : ConfigFile) (src dst : String) : Channel :=
  ⟨cfg.getNodeAddr src, cfg.getNodeAddr dst⟩

/-- The step of a `deliver` command whose nodes are known. -/
theorem step_deliver {src dst : String} (hsrc : (cfg.getNodeAddr src).sinPort ≠ INVALID_PORT)
    (hdst : (cfg.getNodeAddr dst).sinPort ≠ INVALID_PORT) {s : Net κ}
    (hlive : s.terminated = false) :
    (tcpNetwork K cfg).step s (.deliver src dst) (s.deliverMsg K cfg (channelOf cfg src dst)) := by
  refine ⟨hlive, ?_⟩
  show s.deliverMsg K cfg (channelOf cfg src dst) = s.deliverCmd K cfg src dst
  exact (if_neg (not_or.mpr ⟨hsrc, hdst⟩)).symm

/-- `deliver` commands for a channel come to the end of its queue. They do nothing else than to
write every message that was queued and can be delivered, once and in the order of the queue,
to the descriptor of its connection. -/
theorem drained (hwrites : WritesAll K) {src dst : String}
    (hsrc : (cfg.getNodeAddr src).sinPort ≠ INVALID_PORT)
    (hdst : (cfg.getNodeAddr dst).sinPort ≠ INVALID_PORT) {tr : List (Step (Net κ) Act)}
    {s : Net κ} (h : (tcpNetwork K cfg).Run tr s) (hlive : s.terminated = false) {q : List Msg}
    (hq : s.network.get (channelOf cfg src dst) = some q) (hne : ∀ m ∈ q, m.body ≠ []) :
    ∃ post s', (tcpNetwork K cfg).Run (tr ++ post) s' ∧ (∀ t ∈ post, t.act = .deliver src dst)
      ∧ s'.fdToChannelStatus = s.fdToChannelStatus ∧ s'.heap = s.heap
      ∧ s'.network = s.network.insert (channelOf cfg src dst) []
      ∧ s'.log = s.log ++ (q.filter s.deliverable).map s.delivery := by
  -- on the length of the queue: every command takes at least one message
  induction hlength : q.length using Nat.strong_induction_on generalizing tr s q with
  | _ n ih =>
      by_cases hempty : q = []
      · subst hempty
        refine ⟨[], s, by simpa using h, nofun, rfl, rfl, ?_, by simp⟩
        rw [FinFn.insert_of_get hq]
      · have hstep := step_deliver (K := K) hsrc hdst hlive
        obtain ⟨hsame, gone, rest, rfl, hgone, hnetwork, hlog⟩ :=
          takesFrom_deliverMsg hwrites cfg (.of_run h) (.of_run h) hq hne
        have hshorter : rest.length < n := by
          have hpos := List.length_pos_of_ne_nil (hgone hempty)
          rw [List.length_append] at hlength
          omega
        obtain ⟨post, s', hrun, hacts, htable, hheap, hnetwork', hlog'⟩ :=
          ih rest.length hshorter (h.snoc hstep) (hsame.terminated.trans hlive)
            (by rw [hnetwork, FinFn.get_insert, if_pos rfl]) (fun m hm => hne m (by simp [hm])) rfl
        refine ⟨_ :: post, s', by simpa using hrun, ?_, htable.trans hsame.fdToChannelStatus,
          hheap.trans hsame.heap, ?_, ?_⟩
        · intro t ht
          rcases List.mem_cons.mp ht with rfl | ht
          · rfl
          · exact hacts t ht
        · rw [hnetwork', hnetwork, FinFn.insert_insert]
        · rw [hlog', hlog, hsame.deliverable, hsame.delivery, List.filter_append,
            List.map_append, List.append_assoc]

/-! ### Two messages -/

namespace Demo

theorem writesAll_kernel : WritesAll kernel := by
  intro k fd hfd data
  show (if fd ∈ k.fds then Except.ok data.length else .error EBADF) = _
  exact if_pos hfd

/-- The messages that are queued for `n2` are written. -/
theorem drained_queued :
    ∃ s' : Net (Stream Addr), s'.network.get (channelOf config "n1" "n2") = some []
      ∧ s'.log = queuedTwo.log ++ [.wrote 2 (queuedTwo.fdToChannelStatus.get 2) [65],
        .wrote 2 (queuedTwo.fdToChannelStatus.get 2) [66]] := by
  have hq : queuedTwo.network.get (channelOf config "n1" "n2")
      = some [⟨1, framed, 1⟩, ⟨1, [0xde, 0xad, 0xbe, 0xef, 0, 0, 0, 1, 66], 1⟩] := by decide
  obtain ⟨_, s', -, -, -, -, hnetwork, hlog⟩ :=
    drained writesAll_kernel (by decide) (by decide) run_queuedTwo (by decide) hq (by decide)
  refine ⟨s', ?_, hlog⟩
  rw [hnetwork, FinFn.get_insert, if_pos rfl]

end Demo

end Tmet.Tproxy
