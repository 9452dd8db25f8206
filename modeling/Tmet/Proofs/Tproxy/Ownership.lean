import Tmet.Proofs.Tproxy.Descriptors

/-!
# `Tmet.Proofs.Tproxy.Ownership`: the descriptors are owned in every run

`Disowns` collects the four cases in which a handler is not settled.
`descriptors_owned_iff`: the descriptors are owned after every step of a run, and only
open ones were closed, exactly if no step is of these.

That a step without them is settled is the subject of `Descriptors`. Here is the
other half: each of the four does leave a descriptor open or close one that is not.
-/

set_option autoImplicit false

namespace Tmet.Tproxy

open Tmet.Lib Tmet.Posix

variable {κ : Type} {K : Kernel κ Ctl Addr} {cfg : ConfigFile} {F₀ : Finset Fd}

/-- The step opens a descriptor that it neither closes nor enters in a table, or
closes one that is not open. -/
def Disowns (K : Kernel κ Ctl Addr) (cfg : ConfigFile) (t : Step (Net κ) Act) : Prop :=
  match t.act with
  | .accept => t.src.AcceptLeaks K cfg
  | .readable fd => t.src.StaleClose K cfg fd
  | .recover node => t.src.Loops cfg node
  | _ => False

/-- The runs from a state in which the descriptors of `F₀` are open. -/
def tcpNetworkFrom (K : Kernel κ Ctl Addr) (cfg : ConfigFile) (F₀ : Finset Fd) :
    System (Net κ) Act where
  init s := s.Initial ∧ K.fds s.kernel = F₀
  step s a s' := a.Step K cfg s s'

theorem run_of_from {K : Kernel κ Ctl Addr} {tr : List (Step (Net κ) Act)} {s : Net κ}
    (h : (tcpNetworkFrom K cfg F₀).Run tr s) : (tcpNetwork K cfg).Run tr s := by
  refine h.mono ?_ ?_
  · exact fun s hinit => hinit.1
  · exact fun s act s' hstep => hstep

/-- The step, if it is one of a handler, has closed open descriptors only; after it the
open descriptors are owned, unless it ended the process. -/
def OwnsDescriptors (K : Kernel κ Ctl Addr) (F₀ : Finset Fd)
    (t : Step (Net (κ × List Fd)) Act) : Prop :=
  (t.act ≠ .environment → t.dst.kernel.2 = t.src.kernel.2)
    ∧ (t.dst.terminated = false → t.dst.Owned K F₀)

theorem ownsDescriptors_step {s s' : Net (κ × List Fd)} {act : Act} (hs : s.Consistent (audited K))
    (ho : s.Owned K F₀) (hstep : act.Step (audited K) cfg s s')
    (hdisowns : ¬ Disowns (audited K) cfg ⟨s, act, s'⟩) : OwnsDescriptors K F₀ ⟨s, act, s'⟩ := by
  -- all but an accept and the environment settle what they do with descriptors
  have hsettled (h : Settled K F₀ s s') : OwnsDescriptors K F₀ ⟨s, act, s'⟩ :=
    ⟨fun _ => h.misclosed, fun _ => h.owned ho⟩
  obtain ⟨-, hstep⟩ := hstep
  cases act with
  | accept =>
      subst hstep
      exact ⟨fun _ => misclosed_acceptEvent cfg s, owned_acceptEvent hdisowns ho⟩
  | readable fd =>
      obtain ⟨fuel, hstep⟩ := hstep
      exact hsettled (settled_readEvent hs hstep hdisowns)
  | deliver src dst =>
      subst hstep
      exact hsettled (settled_deliverCmd hs src dst)
  | partition node =>
      subst hstep
      exact hsettled (settled_partition s node)
  | recover node =>
      subst hstep
      exact hsettled (settled_recover hs hdisowns)
  | cmd node text =>
      subst hstep
      exact hsettled (settled_sendCmd hs node text)
  | environment =>
      obtain ⟨k, hk, rfl⟩ := hstep
      refine ⟨fun hne => absurd rfl hne, fun _ => ?_⟩
      obtain ⟨hfds, hcreated, hapart⟩ := ho
      exact ⟨hk.trans hfds, hcreated, hapart⟩

/-! ### A wrong close -/

/-- The record only grows. -/
theorem misclosed_le_closeConnection (s : Net (κ × List Fd)) (fd : Fd) :
    s.kernel.2 <+: (s.closeConnection (audited K) fd false).kernel.2 := by
  have hdoClose (s : Net (κ × List Fd)) (fd : Fd) :
      s.kernel.2 <+: (s.doClose (audited K) fd).kernel.2 := by
    rw [Net.doClose]
    cases s.fdToChannelStatus.get fd with
    | none => exact List.prefix_refl _
    | some st => exact misclosed_le_close s.kernel fd
  rw [Net.closeConnection]
  cases s.fdToChannelStatus.get fd with
  | none => exact misclosed_le_close s.kernel fd
  | some st =>
      -- tagging touches no descriptor, so only the two closes remain
      have htag : ((s.setDisconnected fd true).setDisconnected (s.heap st.fd) true).kernel.2
          = s.kernel.2 := rfl
      rw [← htag]
      exact (hdoClose _ fd).trans (hdoClose _ (s.heap st.fd))

theorem misclosed_le_closeAll (fds : List Fd) :
    ∀ s : Net (κ × List Fd), s.kernel.2 <+: (s.closeAll (audited K) fds).kernel.2 := by
  induction fds with
  | nil => exact fun s => List.prefix_refl _
  | cons fd fds ih =>
      intro s
      exact (misclosed_le_closeConnection s fd).trans (ih (s.closeConnection (audited K) fd false))

theorem fds_closeConnection_subset (s : Net (κ × List Fd)) (fd : Fd) :
    K.fds (s.closeConnection (audited K) fd false).kernel.1 ⊆ K.fds s.kernel.1 := by
  have hclose (k : κ × List Fd) (fd : Fd) : K.fds ((audited K).close k fd).1 ⊆ K.fds k.1 := by
    show K.fds (K.close k.1 fd) ⊆ _
    rw [K.fds_close]
    exact Finset.erase_subset _ _
  have hdoClose (s : Net (κ × List Fd)) (fd : Fd) :
      K.fds (s.doClose (audited K) fd).kernel.1 ⊆ K.fds s.kernel.1 := by
    rw [Net.doClose]
    cases s.fdToChannelStatus.get fd with
    | none => exact Finset.Subset.refl _
    | some st => exact hclose s.kernel fd
  rw [Net.closeConnection]
  cases s.fdToChannelStatus.get fd with
  | none => exact hclose s.kernel fd
  | some st => exact (hdoClose _ (s.heap st.fd)).trans (hdoClose _ fd)

/-- A descriptor without an entry that is not open. -/
theorem misclosed_closeConnection {s : Net (κ × List Fd)} {fd : Fd}
    (hst : s.fdToChannelStatus.get fd = none) (hclosed : fd ∉ K.fds s.kernel.1) :
    (s.closeConnection (audited K) fd false).kernel.2 = s.kernel.2 ++ [fd] := by
  rw [Net.closeConnection, hst]
  exact misclosed_close_of_notMem hclosed

/-- An event of a descriptor that is in neither table. -/
theorem disowned_stale {s : Net (κ × List Fd)} {fd : Fd} (ho : s.Owned K F₀)
    (hst : s.fdToChannelStatus.get fd = none) (hclient : s.fdToClient.get fd = none)
    (hrec : (s.closeConnection (audited K) fd false).kernel.2 = s.kernel.2) :
    ¬ (s.closeConnection (audited K) fd false).Owned K F₀ := by
  intro ho'
  have hclose : s.closeConnection (audited K) fd false = s.close (audited K) fd := by
    rw [Net.closeConnection, hst]
    rfl
  by_cases hopen : fd ∈ K.fds s.kernel.1
  · -- it was open from the start, and is not any more
    rw [Net.owned_iff] at ho ho'
    have hfds := ((ho fd).1.mp hopen).resolve_right
    rw [not_or, ← FinFn.get_eq_none, ← FinFn.get_eq_none] at hfds
    have hnot := (ho' fd).1.mpr (Or.inl (hfds ⟨hst, hclient⟩))
    rw [hclose] at hnot
    replace hnot : fd ∈ K.fds (K.close s.kernel.1 fd) := hnot
    rw [K.fds_close] at hnot
    exact absurd hnot (Finset.notMem_erase _ _)
  · rw [misclosed_closeConnection hst hopen] at hrec
    simp at hrec

/-- If what came in on `fd` is not delivered, `fd` is closed as well. -/
theorem deliveryFails_closes {s : Net (κ × List Fd)} (hs : s.Consistent (audited K)) {fd : Fd}
    {st : ChannelStatus} (hst : s.fdToChannelStatus.get fd = some st) (hdirect : cfg.isDirect = true)
    {m : Msg} (hm : m.fd = st.fd) (hbody : m.body.length = m.size)
    (hfails : s.DeliveryFails (audited K) m) :
    (s.deliverTaken (audited K) cfg m).fdToChannelStatus.get fd = none
      ∧ fd ∉ K.fds (s.deliverTaken (audited K) cfg m).kernel.1 := by
  obtain ⟨st', hp⟩ := hs.linked fd st hst
  obtain ⟨⟨t, ht, htag⟩, hundelivered⟩ := hfails
  have hsize := (writeLoop_eq_iff hbody).mpr hundelivered
  rw [Net.deliverTaken, ht]
  dsimp only
  rw [htag, if_neg (by decide)]
  cases hloop : s.writeLoop (audited K) m.size (s.heap m.fd) m.body m.size
    ((audited K).garbage s.kernel) with
  | mk size s₁ =>
      rw [hloop] at hsize
      dsimp only at hsize ⊢
      rw [if_pos hsize, hdirect]
      have hio := (Path.writeLoop (R := .delivering) trivial _ hloop ht htag).2
      have hs₁ := hio.consistent hs
      -- the peer of the peer is `fd`
      have ht₁ : s₁.fdToChannelStatus.get (s.heap m.fd) = some st' := by
        rw [hio.fdToChannelStatus, hm]
        exact hp.peer
      have hpeer : s₁.heap st'.fd = fd := by
        rw [hio.heap, hp.fd_eq]
        exact hp.self
      obtain ⟨t', hq⟩ := hs₁.linked _ st' ht₁
      have hclosed := pairClosed_closeConnection (K := audited K) ht₁ hq
      refine ⟨?_, ?_⟩
      · have hget := hclosed.get fd
        rwa [if_pos (Or.inr hpeer.symm)] at hget
      · have hfds := hclosed.fds
        rw [hpeer] at hfds
        show fd ∉ (audited K).fds _
        rw [Bool.not_true, hfds]
        exact Finset.notMem_erase _ _

/-- On a closed descriptor the peek fails, and the loop ends. -/
theorem headerLoop_closed {fuel : ℕ} {s s' : Net (κ × List Fd)} {fd : Fd} {header : MsgHeader}
    {exit : Net.HeaderExit} {closes : List Fd}
    (h : s.headerLoop (audited K) cfg fuel fd header = some (exit, s')) (hrec : s.kernel.2 = closes)
    (hst : s.fdToChannelStatus.get fd = none) (hclosed : fd ∉ K.fds s.kernel.1) :
    (∃ last, exit = .short (.error EBADF) last) ∧ s'.kernel.2 = closes
      ∧ s'.fdToChannelStatus.get fd = none ∧ fd ∉ K.fds s'.kernel.1 := by
  cases fuel with
  | zero => cases h
  | succ fuel =>
      rw [Net.headerLoop] at h
      cases hr : s.recv (audited K) fd 8 .peekDontwait with
      | mk r s₁ =>
          have hio := onlyIO_recv hr
          have hsettled : Settled K ∅ s s₁ := settled_recv hr
          -- the kernel answers `EBADF` on a descriptor that is not open
          have hbad : r = .error EBADF := by
            have herr := (audited K).recv_closed (k := s.kernel) hclosed 8 .peekDontwait
            rw [← herr]
            exact (congrArg Prod.fst hr).symm
          rw [hr, hbad] at h
          cases h
          refine ⟨⟨header, rfl⟩, hsettled.misclosed.trans hrec, ?_, ?_⟩
          · rw [hio.fdToChannelStatus]
            exact hst
          · intro hopen
            have hfds : K.fds s'.kernel.1 = K.fds s.kernel.1 := hio.fds
            rw [hfds] at hopen
            exact hclosed hopen

/-- After a message that is not delivered the next peek fails, and the loop ends. -/
theorem headerLoop_fails (fuel : ℕ) :
    ∀ {s s' : Net (κ × List Fd)} {fd : Fd} {header : MsgHeader} {exit : Net.HeaderExit}
      {st : ChannelStatus}, s.Consistent (audited K) →
      s.headerLoop (audited K) cfg fuel fd header = some (exit, s') →
      s.fdToChannelStatus.get fd = some st → s.LoopFails (audited K) cfg fd →
      (∃ last, exit = .short (.error EBADF) last) ∧ s'.kernel.2 = s.kernel.2
        ∧ s'.fdToChannelStatus.get fd = none ∧ fd ∉ K.fds s'.kernel.1 := by
  induction fuel with
  | zero =>
      intro s s' fd header exit st _ h
      cases h
  | succ fuel ih =>
      intro s s' fd header exit st hs h hst hfails
      obtain ⟨next, st', m, s₁, s₂, hmsg⟩ := hfails.takesMessage
      rw [hmsg.headerLoop] at h
      rw [hmsg.loopFails] at hfails
      -- peeking, receiving and queueing the message close nothing that is not open
      obtain ⟨hsettled, hs₁, hst₁⟩ := settled_recv_entry ∅ hs hst hmsg.peek
      obtain ⟨hsettled₂, hs₂, hst₂⟩ := settled_recv_entry ∅ hs₁ hst₁ hmsg.recv
      have hqueue : Settled K ∅ s₂ (s₂.enqueueMsg (audited K) cfg st' m) :=
        settled_enqueueMsg hs₂ st' m
      have hrec₃ := ((hsettled.trans hsettled₂).trans hqueue).misclosed
      by_cases hnow : cfg.isDirect = true ∧ st'.disconnected = false
          ∧ s₂.DeliveryFails (audited K) m
      · obtain ⟨hdirect, htag, hfailed⟩ := hnow
        have hdeliver : s₂.enqueueMsg (audited K) cfg st' m
            = s₂.deliverTaken (audited K) cfg m := by
          rw [Net.enqueueMsg, htag, if_neg (by decide), if_pos hdirect]
        have hfd : m.fd = st.fd := by
          obtain rfl : st' = st := Option.some.inj (hmsg.entry.symm.trans hst₁)
          exact hmsg.fd_eq
        obtain ⟨hnone, hclosed⟩ :=
          deliveryFails_closes hs₂ hst₂ hdirect hfd hmsg.body_length hfailed
        rw [hdeliver] at h hrec₃
        exact headerLoop_closed h hrec₃ hnone hclosed
      · -- this delivery goes through, a later one fails
        have hst₃ := hst₂
        rw [← get_enqueueMsg hmsg.body_length hnow] at hst₃
        obtain ⟨hexit, hrec, hclosed⟩ :=
          ih (hs₂.enqueueMsg cfg st' m) h hst₃ (hfails.resolve_left hnow)
        exact ⟨hexit, hrec.trans hrec₃, hclosed⟩

/-- `do_receive` closes the descriptor a second time. -/
theorem misclosed_readEvent {fuel : ℕ} {s s' : Net (κ × List Fd)} {fd : Fd} {st : ChannelStatus}
    (hs : s.Consistent (audited K)) (h : s.readEvent (audited K) cfg fuel fd = some s')
    (hst : s.fdToChannelStatus.get fd = some st) (hfd : fd ∉ s.uninterceptedFd)
    (hfails : s.LoopFails (audited K) cfg fd) : s'.kernel.2 = s.kernel.2 ++ [fd] := by
  rw [Net.readEvent, hs.apart fd st hst] at h
  dsimp only at h
  rw [Net.doReceive, hst, Net.receivePhase, if_neg hfd, Net.receiveIntercepted] at h
  dsimp only at h
  cases hloop : s.headerLoop (audited K) cfg fuel fd .zero with
  | none =>
      rw [hloop] at h
      cases h
  | some ending =>
      obtain ⟨exit, s₁⟩ := ending
      obtain ⟨⟨last, rfl⟩, hrec, hnone, hclosed⟩ := headerLoop_fails fuel hs hloop hst hfails
      -- the loop ends with `EBADF`, which `do_receive` answers with a close
      have hbad : EBADF ≠ EAGAIN := by decide
      rw [hloop] at h
      dsimp only at h
      rw [if_pos hbad] at h
      cases h
      rw [misclosed_closeConnection hnone hclosed, hrec]

/-! ### `recover` -/

/-- One of the descriptors to close is closed already. -/
theorem misclosed_closeAll (fds : List Fd) :
    ∀ {s : Net (κ × List Fd)} {x : Fd}, x ∈ fds → s.fdToChannelStatus.get x = none →
      x ∉ K.fds s.kernel.1 →
      s.kernel.2.length < (s.closeAll (audited K) fds).kernel.2.length := by
  induction fds with
  | nil =>
      intro s x hx
      cases hx
  | cons fd fds ih =>
      intro s x hx hnone hclosed
      -- either it is the next one to close, or closing the next one does not open it
      by_cases hfd : x = fd
      · have hgrows := (misclosed_le_closeAll (K := K) fds
          (s.closeConnection (audited K) fd false)).length_le
        rw [misclosed_closeConnection (hfd ▸ hnone) (hfd ▸ hclosed), List.length_append] at hgrows
        exact hgrows
      · have hgrows := (misclosed_le_closeConnection (K := K) s fd).length_le
        refine hgrows.trans_lt (ih ((List.mem_cons.mp hx).resolve_left hfd) ?_ ?_)
        · cases ht : (s.closeConnection (audited K) fd false).fdToChannelStatus.get x with
          | none => rfl
          | some t =>
              rw [kept_closeConnection s fd x t ht] at hnone
              cases hnone
        · exact fun hopen => hclosed (fds_closeConnection_subset s fd hopen)

/-- Two of the descriptors to close are the ends of one connection. -/
theorem misclosed_closeAll_pair (fds : List Fd) :
    ∀ {s : Net (κ × List Fd)} {x : Fd} {st : ChannelStatus}, s.Consistent (audited K) →
      (∀ z ∈ fds, s.Held (audited K) z) → s.fdToChannelStatus.get x = some st → x ∈ fds →
      s.heap st.fd ∈ fds →
      s.kernel.2.length < (s.closeAll (audited K) fds).kernel.2.length := by
  induction fds with
  | nil =>
      intro s x st _ _ _ hx
      cases hx
  | cons fd fds ih =>
      intro s x st hs hheld hst hx hpeer
      obtain ⟨st', hp⟩ := hs.linked x st hst
      have hgrows := (misclosed_le_closeConnection (K := K) s fd).length_le
      cases htable : s.fdToChannelStatus.get fd with
      | none =>
          -- closed before, as it is held
          have hclosed : fd ∉ K.fds s.kernel.1 := by
            intro hopen
            have hsome := hheld fd (List.mem_cons_self ..) hopen
            rw [htable] at hsome
            cases hsome
          exact misclosed_closeAll (fd :: fds) (List.mem_cons_self ..) htable hclosed
      | some t =>
          obtain ⟨t', hq⟩ := hs.linked fd t htable
          have hclosed := pairClosed_closeConnection (K := audited K) htable hq
          have hgone (z : Fd) (hz : z = fd ∨ z = s.heap t.fd) (hmem : z ∈ fds) :
              s.kernel.2.length < (s.closeAll (audited K) (fd :: fds)).kernel.2.length := by
            refine hgrows.trans_lt (misclosed_closeAll fds hmem ?_ ?_)
            · rw [hclosed.get, if_pos hz]
            · show z ∉ (audited K).fds _
              rw [hclosed.fds, Finset.mem_erase, Finset.mem_erase]
              rcases hz with rfl | rfl
              · exact fun hopen => hopen.2.1 rfl
              · exact fun hopen => hopen.1 rfl
          by_cases hfd : x = fd
          · -- the first end is closed, so the second is next
            subst hfd
            rw [hst] at htable
            cases htable
            refine hgone _ (Or.inr rfl) ((List.mem_cons.mp hpeer).resolve_left hp.ne)
          · have hmem := (List.mem_cons.mp hx).resolve_left hfd
            by_cases hfd' : x = s.heap t.fd
            · exact hgone x (Or.inr hfd') hmem
            · -- another connection is closed
              obtain ⟨-, -, hcell, hcell', hne, -⟩ := hq.disjoint htable hp hfd hfd'
              have hst₁ : (s.closeConnection (audited K) fd false).fdToChannelStatus.get x
                  = some st := by
                rw [hclosed.get, if_neg (not_or.mpr ⟨hfd, hfd'⟩)]
                exact hst
              refine hgrows.trans_lt (ih (hs.closePair htable) (fun z hz => ?_) hst₁ hmem ?_)
              · exact held_closeConnection (hheld z (List.mem_cons_of_mem _ hz)) _ _
              · rw [hclosed.heap _ hcell hcell']
                exact (List.mem_cons.mp hpeer).resolve_left hne

theorem misclosed_recover {s : Net (κ × List Fd)} (hs : s.Consistent (audited K)) {node : String}
    (hloops : s.Loops cfg node) :
    s.kernel.2.length < (s.recover (audited K) cfg node).kernel.2.length := by
  obtain ⟨hport, x, st, hst, hchannel⟩ := hloops
  rw [Net.recover, Net.partitionWith]
  dsimp only
  rw [if_neg hport]
  cases hloop : s.partitionLoop (audited K) (cfg.getNodeAddr node) true true s.keys with
  | mk toClose s₁ =>
      obtain ⟨hretag, hsub, -, hfirst, hall⟩ := retagged_partitionLoop hloop
      have hpath := (Path.partitionLoop (R := { Scope.plain with untag := True })
        (fun _ => trivial) hs.apart hloop).1
      -- the two ends of the loop are both found by the loop over the descriptors
      obtain ⟨st', hp⟩ := hs.linked x st hst
      have hx : x ∈ toClose := hall rfl x (Net.mem_keys hst) st hst (by rw [hchannel])
      have hpeer : s.heap st.fd ∈ toClose := by
        refine hall rfl _ (Net.mem_keys hp.peer) st' hp.peer ?_
        rw [hp.channel_eq, hchannel]
        rfl
      obtain ⟨st₁, hst₁, -, hfd⟩ := hretag.symm.of_get hst
      rw [← hretag.heap, ← hfd] at hpeer
      have hstart : s₁.kernel.2 = s.kernel.2 := by rw [hretag.kernel]
      rw [← hstart]
      refine misclosed_closeAll_pair toClose (hs.path hpath) (fun z hz => ?_) hst₁ hx hpeer
      obtain ⟨t, ht, -⟩ := hfirst z hz
      obtain ⟨t₁, ht₁, -⟩ := hretag.symm.of_get ht
      exact fun _ => by rw [ht₁]; rfl

/-! ### A leak -/

/-- `connect_peer` has left its descriptor open, and no table has it. -/
theorem disowned_acceptEvent {s : Net (κ × List Fd)} (ho : s.Owned K F₀)
    (hlive : s.terminated = false) (hleaks : s.AcceptLeaks (audited K) cfg) :
    (s.acceptEvent (audited K) cfg).terminated = false
      ∧ ¬ (s.acceptEvent (audited K) cfg).Owned K F₀ := by
  rw [Net.AcceptLeaks] at hleaks
  have haccepts := acceptEvent_accepts (audited K) cfg s
  generalize s.acceptEvent (audited K) cfg = s' at haccepts ⊢
  cases haccepts with
  | failed hacc =>
      rw [hacc] at hleaks
      exact False.elim hleaks
  | client hacc hr _ _ =>
      rw [hacc] at hleaks
      cases hr.symm.trans hleaks.1
  | refused hacc hnot _ =>
      rw [hacc] at hleaks
      exact absurd hleaks.2 hnot
  | @leaked acc k k₁ fd hacc hr hf hfd hk =>
      replace hk : K.fds k₁.1 = insert fd (K.fds s.kernel.1) := hk
      refine ⟨hlive, fun ho' => ?_⟩
      rw [Net.owned_iff] at ho ho'
      have hopen : fd ∈ K.fds k₁.1 := by
        rw [hk]
        exact Finset.mem_insert_self _ _
      -- the tables are those of before, where `fd` is in none
      exact hfd ((ho fd).1.mpr ((ho' fd).1.mp hopen))
  | connected hacc hr hreached _ _ _ _ =>
      rw [hacc] at hleaks
      exact absurd hleaks.2 (Net.not_setupFails hreached)

/-! ### Runs -/

/-- One step, after which the descriptors are owned if they were before. -/
theorem ownsDescriptors_step_iff {s s' : Net (κ × List Fd)} {act : Act}
    (hs : s.Consistent (audited K)) (ho : s.Owned K F₀) (hstep : act.Step (audited K) cfg s s') :
    OwnsDescriptors K F₀ ⟨s, act, s'⟩ ↔ ¬ Disowns (audited K) cfg ⟨s, act, s'⟩ := by
  refine ⟨?_, ownsDescriptors_step hs ho hstep⟩
  rintro ⟨hrec, howned⟩ hdisowns
  obtain ⟨hlive, hstep⟩ := hstep
  cases act with
  | accept =>
      subst hstep
      -- the accepted descriptor stays open, and no table has it
      obtain ⟨hlive', hnot⟩ := disowned_acceptEvent ho hlive hdisowns
      exact hnot (howned hlive')
  | readable fd =>
      obtain ⟨fuel, hstep⟩ := hstep
      obtain ⟨hclient, hstale⟩ := hdisowns
      have hrec := hrec (by simp)
      cases hst : s.fdToChannelStatus.get fd with
      | none =>
          rw [Net.readEvent, hclient] at hstep
          dsimp only at hstep
          rw [Net.doReceive, hst] at hstep
          cases hstep
          -- no table has the descriptor, and `do_receive` closes it all the same
          refine disowned_stale ho hst hclient hrec (howned ?_)
          rw [(onlyTable_closeConnection s fd false).terminated]
          exact hlive
      | some st =>
          obtain hnone | ⟨hfd, hfails⟩ := hstale
          · rw [hst] at hnone
            cases hnone
          · rw [misclosed_readEvent hs hstep hst hfd hfails] at hrec
            simp at hrec
  | recover node =>
      subst hstep
      have hgrows := misclosed_recover hs hdisowns
      rw [hrec (by simp)] at hgrows
      exact absurd hgrows (Nat.lt_irrefl _)
  | _ => exact hdisowns

theorem Net.Owned.init {s : Net (κ × List Fd)} (h : (tcpNetworkFrom (audited K) cfg F₀).init s) :
    s.Owned K F₀ := by
  obtain ⟨⟨hst, -, -, hclient, -⟩, hfds⟩ := h
  replace hfds : K.fds s.kernel.1 = F₀ := hfds
  refine ⟨?_, ?_, ?_⟩
  · rw [hfds, hst, hclient]
    simp
  · rw [hst, hclient]
    simp
  · rw [hst]
    exact Finset.disjoint_empty_left _

/-- After every step of a run the descriptors are owned, and only open ones were
closed, exactly if no step is one of the four kinds. -/
theorem descriptors_owned_iff {tr : List (Step (Net (κ × List Fd)) Act)} {s : Net (κ × List Fd)}
    (h : (tcpNetworkFrom (audited K) cfg F₀).Run tr s) :
    (∀ t ∈ tr, OwnsDescriptors K F₀ t) ↔ ∀ t ∈ tr, ¬ Disowns (audited K) cfg t := by
  -- what the last step is taken from is owned, if no step before was of these
  have hinv : ((∀ t ∈ tr, OwnsDescriptors K F₀ t) ↔ ∀ t ∈ tr, ¬ Disowns (audited K) cfg t)
      ∧ ((∀ t ∈ tr, OwnsDescriptors K F₀ t) → s.terminated = false → s.Owned K F₀) := by
    refine h.invariant (P := fun tr s =>
      ((∀ t ∈ tr, OwnsDescriptors K F₀ t) ↔ ∀ t ∈ tr, ¬ Disowns (audited K) cfg t)
        ∧ ((∀ t ∈ tr, OwnsDescriptors K F₀ t) → s.terminated = false → s.Owned K F₀)) ?_ ?_
    · exact fun s hinit => ⟨by simp, fun _ _ => .init hinit⟩
    · rintro tr s act s' hpre ⟨hiff, howned⟩ hstep
      have hs : s.Consistent (audited K) := .of_run (run_of_from hpre)
      refine ⟨?_, fun hall => (hall ⟨s, act, s'⟩ (by simp)).2⟩
      simp only [List.forall_mem_append, List.forall_mem_singleton]
      constructor
      · rintro ⟨hbefore, hlast⟩
        have ho := howned hbefore hstep.1
        exact ⟨hiff.mp hbefore, (ownsDescriptors_step_iff hs ho hstep).mp hlast⟩
      · rintro ⟨hbefore, hlast⟩
        have hbefore := hiff.mpr hbefore
        have ho := howned hbefore hstep.1
        exact ⟨hbefore, (ownsDescriptors_step_iff hs ho hstep).mpr hlast⟩
  exact hinv.1

namespace Demo

abbrev watching : Kernel (Stream Addr × List Fd) Ctl Addr := audited kernel

/-- The same beginning, and every wrong close is going to be recorded. -/
def watched : Net (Stream Addr × List Fd) := { start with kernel := (start.kernel, []) }

def watchedAccepted : Net (Stream Addr × List Fd) := watched.acceptEvent watching config

/-- `n1` sends a header and no body. -/
def headerOnly : Net (Stream Addr × List Fd) :=
  { watchedAccepted with kernel :=
      ({ watchedAccepted.kernel.1 with
        inbox := fun fd => if fd = 1 then framed.take 8 else [] }, []) }

/-- The event of the header closes both ends. -/
def bothClosed : Net (Stream Addr × List Fd) :=
  (headerOnly.readEvent watching config 3 1).getD headerOnly

/-- The same batch has an event of the other end. -/
def closedTwice : Net (Stream Addr × List Fd) :=
  (bothClosed.readEvent watching config 3 2).getD bothClosed

theorem run_watchedAccepted :
    (tcpNetworkFrom watching config ∅).Run [⟨watched, .accept, watchedAccepted⟩]
      watchedAccepted := by
  have hstart : (tcpNetworkFrom watching config ∅).Run [] watched :=
    .nil ⟨⟨rfl, rfl, rfl, rfl, rfl, rfl, rfl⟩, rfl⟩
  have hstep : (tcpNetworkFrom watching config ∅).step watched .accept watchedAccepted := ⟨rfl, rfl⟩
  exact hstart.snoc hstep

/-- No call fails, and the two descriptors of the new connection are owned. -/
theorem descriptors_owned_iff_accepted : watchedAccepted.Owned kernel ∅ := by
  have hdisowns : ∀ t ∈ [(⟨watched, .accept, watchedAccepted⟩ : Step (Net _) Act)],
      ¬ Disowns watching config t := by
    intro t ht
    obtain rfl := List.mem_singleton.mp ht
    rintro ⟨-, hsetup | hbind⟩
    · exact absurd hsetup (by decide)
    · exact absurd hbind (by decide)
  have howns := (descriptors_owned_iff run_watchedAccepted).mpr hdisowns
  exact (howns _ (List.mem_singleton.mpr rfl)).2 (by decide)

/-- The stale event makes the proxy close descriptor 2 once more. -/
theorem descriptors_owned_fails :
    ¬ ∀ tr s, (tcpNetworkFrom watching config ∅).Run tr s →
      ∀ t ∈ tr, OwnsDescriptors kernel ∅ t := by
  intro hall
  have hsent : (tcpNetworkFrom watching config ∅).step watchedAccepted .environment headerOnly :=
    ⟨by decide, headerOnly.kernel, rfl, rfl⟩
  have hread : (tcpNetworkFrom watching config ∅).step headerOnly (.readable 1) bothClosed :=
    ⟨by decide, 3, rfl⟩
  have hstale : (tcpNetworkFrom watching config ∅).step bothClosed (.readable 2) closedTwice :=
    ⟨by decide, 3, rfl⟩
  have hrun := ((run_watchedAccepted.snoc hsent).snoc hread).snoc hstale
  have hlast := (hall _ _ hrun ⟨bothClosed, .readable 2, closedTwice⟩ (by simp)).1 nofun
  exact absurd hlast (by decide)

end Demo

end Tmet.Tproxy
