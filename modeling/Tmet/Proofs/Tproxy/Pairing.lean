import Tmet.Proofs.Tproxy.Partition

/-!
# `Tmet.Proofs.Tproxy.Pairing`: the two entries of a connection

`Consistent` says how the two entries of a connection are linked. `Net.Agree` adds
that they are tagged alike. Every change of a path keeps this, with one exception:
the loop of `recover` takes the tag off one entry, and maybe not off its peer's.
What it untags it closes afterwards, together with the peer, and the entries that
are left are as they were (`kept_recover`).

`connections_paired` collects what holds of every connection in every state.
-/

set_option autoImplicit false

namespace Tmet.Tproxy

open Tmet.Lib Tmet.Posix

variable {κ : Type} {K : Kernel κ Ctl Addr} {cfg : ConfigFile} {R : Scope}

/-- The two entries of a connection are both tagged or both not. -/
def Net.Agree (s : Net κ) : Prop :=
  ∀ fd st st', s.fdToChannelStatus.get fd = some st →
    s.fdToChannelStatus.get (s.heap st.fd) = some st' → st'.disconnected = st.disconnected

theorem Net.Agree.congr {s s' : Net κ} (h : s.Agree)
    (hst : s'.fdToChannelStatus = s.fdToChannelStatus) (hheap : s'.heap = s.heap) : s'.Agree := by
  intro fd st st' hget hpeer
  rw [hst] at hget hpeer
  rw [hheap] at hpeer
  exact h fd st st' hget hpeer

/-- The entries that are left are as they were. -/
def Kept (s s' : Net κ) : Prop :=
  ∀ fd st, s'.fdToChannelStatus.get fd = some st → s.fdToChannelStatus.get fd = some st

/-- Entries that are left with their peers agree if they did before. -/
theorem Net.Agree.kept {s s' : Net κ} (h : s.Agree) (hs : s.Linked) (hs' : s'.Linked)
    (hkept : Kept s s') : s'.Agree := by
  intro fd st st' hget hpeer
  obtain ⟨t, hp⟩ := hs' fd st hget
  obtain ⟨t', hq⟩ := hs fd st (hkept fd st hget)
  obtain ⟨u, hu⟩ := hs _ t (hkept _ t hp.peer)
  -- both heaps say where the peer is: at the cell that its entry has as its own
  have hsame : s'.heap st.fd = s.heap st.fd := by
    rw [← hp.selfFd_eq, hu.self, hp.selfFd_eq]
  refine h fd st st' (hkept fd st hget) ?_
  rw [← hsame]
  exact hkept _ st' hpeer

/-! ### Changes -/

theorem Net.Agree.tag {s : Net κ} (h : s.Agree) (hs : s.Consistent K) {fd : Fd} {st : ChannelStatus}
    (hst : s.fdToChannelStatus.get fd = some st) : (s.closeConnection K fd true).Agree := by
  intro x t t' ht ht'
  obtain ⟨st', hp⟩ := hs.linked fd st hst
  rw [heap_closeConnection_tag] at ht'
  by_cases hx : x = fd ∨ x = s.heap st.fd
  · -- one of the two that are tagged, and then so is its peer
    rw [tagged_closeConnection hst hx ht]
    refine tagged_closeConnection hst ?_ ht'
    rw [closeConnection_tag s hst] at ht
    obtain ⟨t₁, ht₁, -, -, hfd₁, -⟩ := get_setDisconnected ht
    obtain ⟨t₀, ht₀, -, -, hfd₀, -⟩ := get_setDisconnected ht₁
    rw [hfd₁, hfd₀]
    rcases hx with rfl | rfl
    · rw [hst] at ht₀
      cases ht₀
      exact Or.inr rfl
    · rw [hp.peer] at ht₀
      cases ht₀
      exact Or.inl (by rw [hp.fd_eq, hp.self])
  · rw [not_or] at hx
    rw [closeConnection_tag s hst] at ht ht'
    obtain ⟨t₁, ht₁, -, -, hfd₁, hdisc₁⟩ := get_setDisconnected ht
    obtain ⟨t₀, ht₀, -, -, hfd₀, hdisc₀⟩ := get_setDisconnected ht₁
    rw [if_neg hx.2, hdisc₀, if_neg hx.1] at hdisc₁
    obtain ⟨u₁, hu₁, -, -, -, hdisc'₁⟩ := get_setDisconnected ht'
    obtain ⟨u₀, hu₀, -, -, -, hdisc'₀⟩ := get_setDisconnected hu₁
    obtain ⟨v, hq⟩ := hs.linked x t₀ ht₀
    obtain ⟨-, -, -, -, hne, hne'⟩ := hp.disjoint hst hq hx.1 hx.2
    rw [hfd₁, hfd₀] at hu₀ hdisc'₁ hdisc'₀
    rw [if_neg hne', hdisc'₀, if_neg hne] at hdisc'₁
    rw [hdisc'₁, hdisc₁]
    exact h x t₀ u₀ ht₀ hu₀

theorem kept_closeConnection (s : Net κ) (fd : Fd) : Kept s (s.closeConnection K fd false) := by
  intro x t ht
  cases hst : s.fdToChannelStatus.get fd with
  | none =>
      rw [Net.closeConnection, hst] at ht
      exact ht
  | some st =>
      rw [get_closeConnection hst] at ht
      split at ht
      · cases ht
      · exact ht

theorem Net.Agree.connect {s : Net κ} (h : s.Agree) (hs : s.Consistent K) {k : κ} {fd fd' : Fd}
    {src dst : Addr} (hfd : fd ∉ K.fds s.kernel) (hfd' : fd' ∉ K.fds s.kernel) :
    (({ s with kernel := k } : Net κ).addFdToChannel fd fd' src dst).Agree := by
  intro x t t' ht ht'
  have hnew := get_addFdToChannel (s := s) ht'
  rcases get_addFdToChannel (s := s) ht with ⟨rfl, rfl⟩ | ⟨-, rfl, rfl⟩ | ⟨-, -, hold⟩
  · rcases hnew with ⟨-, rfl⟩ | ⟨-, -, rfl⟩ | ⟨-, hne, -⟩
    · rfl
    · rfl
    · -- the peer is the other new descriptor
      exact absurd (heap_addFdToChannel_src s fd x src dst) hne
  · rcases hnew with ⟨-, rfl⟩ | ⟨-, -, rfl⟩ | ⟨hne, -, -⟩
    · rfl
    · rfl
    · exact absurd (heap_addFdToChannel_dst s x fd' src dst) hne
  · obtain ⟨u, hp⟩ := hs.linked x t hold
    have hheap : (({ s with kernel := k } : Net κ).addFdToChannel fd fd' src dst).heap t.fd
        = s.heap t.fd := heap_addFdToChannel_of_lt s fd fd' src dst (hs.fd_lt hold)
    rw [hheap] at hnew
    -- the peer is no new descriptor, it is open already
    have hopen := hs.conn_open _ u hp.peer
    rcases hnew with ⟨heq, -⟩ | ⟨-, heq, -⟩ | ⟨-, -, hold'⟩
    · rw [heq] at hopen
      exact absurd hopen hfd'
    · rw [heq] at hopen
      exact absurd hopen hfd
    · exact h x t t' hold hold'

/-- Every change that takes no tag off keeps the tags of a connection equal. -/
theorem Net.Agree.atom (hR : ¬ R.untag) {s s' : Net κ} (h : s.Agree) (hs : s.Consistent K)
    (hatom : Atom K R s s') : s'.Agree := by
  cases hatom with
  | tag hst => exact h.tag hs hst
  | closePair hst =>
      exact h.kept hs.linked (hs.closePair hst).linked (kept_closeConnection s _)
  | untag hu => exact absurd hu hR
  | connect _ hfd hfd' _ _ => exact h.connect hs hfd hfd'
  | _ => exact h.congr rfl rfl

theorem Net.Agree.path (hR : ¬ R.untag) {s s' : Net κ} (h : s.Agree) (hs : s.Consistent K)
    (hpath : Path K R s s') : s'.Agree := by
  induction hpath with
  | refl => exact h
  | tail hrest hatom ih => exact ih.atom hR (hs.path hrest) hatom

/-! ### `recover` -/

theorem kept_closeAll (fds : List Fd) : ∀ s : Net κ, Kept s (s.closeAll K fds) := by
  induction fds with
  | nil => exact fun s x t ht => ht
  | cons fd fds ih =>
      intro s x t ht
      exact kept_closeConnection s fd x t (ih (s.closeConnection K fd false) x t ht)

/-- The loop of `recover` changes no entry but those it lists. -/
theorem partitionLoop_recover_get {addr : Addr} {clearMsg : Bool} {fds toClose : List Fd}
    {s s' : Net κ} (h : s.partitionLoop K addr clearMsg true fds = (toClose, s')) :
    ∀ x ∉ toClose, s'.fdToChannelStatus.get x = s.fdToChannelStatus.get x := by
  replace h := partitionLoop_marks fds h
  induction h with
  | nil s => exact fun _ _ => rfl
  | other _ _ ih => exact ih
  | @mark fd fds toClose s s' st _ _ _ ih =>
      obtain ⟨network, heq⟩ := mark_eq (K := K) s fd st.channel clearMsg true
      rw [heq] at ih
      intro x hx
      rw [if_pos rfl, List.mem_cons, not_or] at hx
      rw [ih x hx.2]
      show (s.fdToChannelStatus.except fd _).get x = _
      rw [FinFn.get_except, if_neg hx.1]

/-- `recover` leaves the entries that it does not close as they were. -/
theorem kept_recover (s : Net κ) (node : String) : Kept s (s.recover K cfg node) := by
  rw [Net.recover, Net.partitionWith]
  dsimp only
  split
  · exact fun x t ht => ht
  · cases hloop : s.partitionLoop K (cfg.getNodeAddr node) true true s.keys with
    | mk toClose s₁ =>
        intro x t ht
        replace ht : (s₁.closeAll K toClose).fdToChannelStatus.get x = some t := ht
        have hx : x ∉ toClose := by
          intro hmem
          rw [get_closeAll_of_mem toClose hmem] at ht
          cases ht
        rw [← partitionLoop_recover_get hloop x hx]
        exact kept_closeAll toClose s₁ x t ht

/-! ### Runs -/

theorem Net.Agree.step {act : Act} {s s' : Net κ} (h : s.Agree) (hs : s.Consistent K)
    (hstep : act.Step K cfg s s') : s'.Agree := by
  have hpath := Act.Step.path hs.apart hstep
  cases act with
  | recover node =>
      obtain ⟨-, rfl⟩ := hstep
      exact h.kept hs.linked (hs.path hpath).linked (kept_recover s node)
  | _ => exact h.path (fun hf => hf) hs hpath

theorem Net.Agree.of_run {tr : List (Step (Net κ) Act)} {s : Net κ}
    (h : (tcpNetwork K cfg).Run tr s) : s.Agree := by
  refine h.invariant (P := fun _ s => s.Agree) ?_ ?_
  · rintro s ⟨hst, -⟩ fd st st' hget
    rw [hst] at hget
    cases hget
  · intro tr s act s' hrun ih hstep
    exact ih.step (.of_run hrun) hstep

/-- The entry `st` of `fd`, and the one of its peer: a different key, the same two
cells, the reverse channel, the same tag. -/
structure Net.Connection (s : Net κ) (fd : Fd) (st st' : ChannelStatus) : Prop
    extends s.Pair fd st st' where
  disconnected_eq : st'.disconnected = st.disconnected

/-- In every state of every run each entry is one of a connection, and a descriptor
in `unintercepted_fd` has an entry. So one that is not open, and that the kernel may
return next, is not in it. -/
theorem connections_paired {tr : List (Step (Net κ) Act)} {s : Net κ}
    (h : (tcpNetwork K cfg).Run tr s) :
    (∀ fd st, s.fdToChannelStatus.get fd = some st → ∃ st', s.Connection fd st st')
      ∧ (∀ fd ∈ s.uninterceptedFd, fd ∈ s.fdToChannelStatus.dom)
      ∧ ∀ fd ∉ K.fds s.kernel, fd ∉ s.uninterceptedFd := by
  have hs : s.Consistent K := .of_run h
  refine ⟨fun fd st hst => ?_, fun fd hfd => ?_, fun fd hclosed hfd => ?_⟩
  · obtain ⟨st', hp⟩ := hs.linked fd st hst
    exact ⟨st', hp, Net.Agree.of_run h fd st st' hst hp.peer⟩
  · obtain ⟨st, hst⟩ := hs.unintercepted fd hfd
    exact FinFn.mem_dom_of_get hst
  · obtain ⟨st, hst⟩ := hs.unintercepted fd hfd
    exact hclosed (hs.conn_open fd st hst)

namespace Demo

/-- After the first connection, the entries of 1 and 2 are its two. -/
theorem connections_paired_accepted :
    ∃ st st', accepted.fdToChannelStatus.get 1 = some st ∧ accepted.Connection 1 st st' := by
  obtain ⟨hpaired, -⟩ := connections_paired run_accepted
  have hsome : (accepted.fdToChannelStatus.get 1).isSome = true := by decide
  obtain ⟨st, hst⟩ := Option.isSome_iff_exists.mp hsome
  obtain ⟨st', hconn⟩ := hpaired 1 st hst
  exact ⟨st, st', hst, hconn⟩

end Demo

end Tmet.Tproxy
