import Tmet.Proofs.Tproxy.Recover
import Tmet.Proofs.Tproxy.Router
import Tmet.Proofs.Tproxy.Writing
import Tmet.Tproxy.Command

/-!
# `Tmet.Proofs.Tproxy.Commands`: what is written to a client

While a node is connected on a descriptor, nothing is written to it but the commands for
the node, each with its header and in their order (`sentOn_run`). A message, and what
is passed through, goes to a descriptor with an entry, and that of a client has none.
-/

set_option autoImplicit false

namespace Tmet.Tproxy

open Tmet.Lib Tmet.Posix

variable {κ : Type} {K : Kernel κ Ctl Addr} {cfg : ConfigFile}

/-- What a step has written to `fd`. -/
def sentOn (fd : Fd) (t : Step (Net κ) Act) : Bytes :=
  (t.dst.log.drop t.src.log.length).flatMap (Event.sentOn fd)

theorem sentOn_of_log {t : Step (Net κ) Act} {new : List Event}
    (h : t.dst.log = t.src.log ++ new) (fd : Fd) :
    sentOn fd t = new.flatMap (Event.sentOn fd) := by
  rw [sentOn, h, List.drop_left]

theorem sentOn_eq_nil {t : Step (Net κ) Act} {fd : Fd}
    (h : Writes (fun x _ => x ≠ fd) t.src t.dst) : sentOn fd t = [] := by
  obtain ⟨new, hnew, hother⟩ := h
  rw [sentOn_of_log hnew, List.flatMap_eq_nil_iff]
  intro ev hev
  cases ev with
  | received x conn data => rfl
  | wrote x conn data => exact if_neg (hother x conn data hev)

/-! ### Other steps -/

/-- From `s` to `s'` nothing is written to `fd`, if it has no entry, and it gets none. -/
def Avoids (fd : Fd) (s s' : Net κ) : Prop :=
  s.fdToChannelStatus.get fd = none →
    s'.fdToChannelStatus.get fd = none ∧ Writes (fun x _ => x ≠ fd) s s'

theorem Avoids.trans {fd : Fd} {s s' s'' : Net κ} (h : Avoids fd s s') (h' : Avoids fd s' s'') :
    Avoids fd s s'' := by
  intro hnone
  obtain ⟨hnone', hwrites⟩ := h hnone
  obtain ⟨hnone'', hwrites'⟩ := h' hnone'
  exact ⟨hnone'', hwrites.trans hwrites'⟩

theorem Shrinks.get_none {s s' : Net κ} (h : Shrinks s s') {fd : Fd}
    (hnone : s.fdToChannelStatus.get fd = none) : s'.fdToChannelStatus.get fd = none := by
  cases hst : s'.fdToChannelStatus.get fd with
  | none => rfl
  | some st' =>
      obtain ⟨st, hold, -⟩ := h fd st' hst
      rw [hnone] at hold
      cases hold

theorem Avoids.quiet {fd : Fd} {s s' : Net κ} (hlog : s'.log = s.log) (h : Shrinks s s') :
    Avoids fd s s' :=
  fun hnone => ⟨h.get_none hnone, .of_eq hlog⟩

theorem avoids_recv {s s₁ : Net κ} {fd x : Fd} {len : ℕ} {flags : RecvFlags} {r : RecvResult}
    (h : s.recv K x len flags = (r, s₁)) : Avoids fd s s₁ := by
  intro hnone
  rw [(onlyIO_recv h).fdToChannelStatus]
  exact ⟨hnone, writes_recv _ h⟩

/-- A message goes to a descriptor with an entry. -/
theorem avoids_deliverTaken (fd : Fd) (s : Net κ) (m : Msg) :
    Avoids fd s (s.deliverTaken K cfg m) := by
  intro hnone
  have hpath : Path K .delivering s (s.deliverTaken K cfg m) := Path.deliverTaken trivial s m
  refine ⟨(hpath.shrinks (fun _ hf => hf) fun hf => hf).get_none hnone, ?_⟩
  refine (writes_deliverTaken cfg s m).mono fun x data hx => ?_
  rintro rfl
  obtain ⟨⟨st, hst⟩, -⟩ := hx
  rw [hnone] at hst
  cases hst

theorem avoids_enqueueMsg (fd : Fd) (s : Net κ) (st : ChannelStatus) (m : Msg) :
    Avoids fd s (s.enqueueMsg K cfg st m) := by
  rw [Net.enqueueMsg]
  split
  · exact .quiet rfl (.refl s)
  · split
    · exact avoids_deliverTaken fd s m
    · exact .quiet rfl (.of_eq rfl)

theorem avoids_readPath {fd : Fd} {s s' : Net κ} (h : ReadPath K cfg s s') : Avoids fd s s' := by
  induction h with
  | refl => exact .quiet rfl (.refl s)
  | tail _ hmove ih =>
      refine ih.trans ?_
      cases hmove with
      | quiet hlog hshrinks => exact .quiet hlog hshrinks
      | recv hr => exact avoids_recv hr
      | message hr => exact (avoids_recv hr).trans (avoids_enqueueMsg fd _ _ _)
      | @transfer s₁ s₂ outFd inFd len st data r hst hr hw =>
          intro hnone
          -- the transfer goes to a descriptor with an entry, and `fd` has none
          have hne : outFd ≠ fd := by
            rintro rfl
            rw [hnone] at hst
            cases hst
          obtain ⟨hnone₁, hwrites⟩ := avoids_recv hr hnone
          rw [(onlyIO_write hw).fdToChannelStatus]
          refine ⟨hnone₁, hwrites.trans ((writes_write hw).mono fun x piece hx => ?_)⟩
          rw [hx.1]
          exact hne

/-- A step that is no command for the node writes nothing to its descriptor. -/
theorem writes_step_of_ne {s s' : Net κ} {act : Act} (hs : s.Consistent K)
    (hstep : act.Step K cfg s s') {a : Addr} {fd : Fd} (hfd : s.clientToFd.get a = some fd)
    (hact : act.commandFor cfg a = none) : Writes (fun x _ => x ≠ fd) s s' := by
  have hclient : s.fdToClient.get fd = some a := hs.client a fd hfd
  have hnone : s.fdToChannelStatus.get fd = none := hs.get_of_client hfd
  obtain ⟨-, hstep⟩ := hstep
  cases act with
  | accept =>
      subst hstep
      exact .of_eq (log_acceptEvent s)
  | readable x =>
      obtain ⟨fuel, hstep⟩ := hstep
      exact (avoids_readPath (readPath_readEvent hs hstep) hnone).2
  | deliver src dst =>
      subst hstep
      refine (writes_deliverCmd cfg s src dst).mono fun x data hx => ?_
      rintro rfl
      obtain ⟨⟨st, hst⟩, -⟩ := hx
      rw [hnone] at hst
      cases hst
  | cmd node text =>
      subst hstep
      refine (writes_sendCmd cfg s node text).mono fun x data hx => ?_
      rintro rfl
      -- two nodes do not share a descriptor
      have hother := hs.client _ x hx.1
      rw [hclient] at hother
      rw [Act.commandFor, if_pos (Option.some.inj hother).symm] at hact
      cases hact
  | partition node =>
      subst hstep
      exact .of_eq (log_partitionWith s node false false)
  | recover node =>
      subst hstep
      exact .of_eq (log_partitionWith s node true true)
  | environment =>
      obtain ⟨k, -, rfl⟩ := hstep
      exact .of_eq rfl

/-! ### Commands -/

/-- A client is entered with its host. -/
theorem acceptedClient_port {t : Step (Net κ) Act} {a : Addr} {fd : Fd}
    (h : acceptedClient K cfg t = some (a, fd)) : a.sinPort = 0 := by
  rw [acceptedClient] at h
  split at h
  · split at h
    · cases h
    · split at h
      · cases h
        rfl
      · cases h
  · cases h

/-- Clients are known by addresses without a port. -/
theorem clientToFd_port {tr : List (Step (Net κ) Act)} {s : Net κ}
    (h : (tcpNetwork K cfg).Run tr s) {a : Addr} {fd : Fd} (hfd : s.clientToFd.get a = some fd) :
    a.sinPort = 0 := by
  suffices hports : ∀ a fd, s.clientToFd.get a = some fd → a.sinPort = 0 from hports a fd hfd
  clear hfd
  refine h.invariant (P := fun _ s => ∀ a fd, s.clientToFd.get a = some fd → a.sinPort = 0) ?_ ?_
  · rintro s ⟨-, -, hto, -⟩ a fd hfd
    rw [hto] at hfd
    cases hfd
  -- an entry is new in an accept only, and that takes the port off
  · intro tr s act s' hrun ih hstep a fd hfd
    have hchange := clientChange_step (.of_run hrun) hstep
    generalize hopened : acceptedClient K cfg ⟨s, act, s'⟩ = opened at hchange
    generalize closedClient K cfg ⟨s, act, s'⟩ = closed at hchange
    cases hchange with
    | same hto _ =>
        rw [hto] at hfd
        exact ih a fd hfd
    | @opened b x _ hto _ =>
        rw [hto, FinFn.get_insert] at hfd
        split at hfd
        · rename_i hb
          rw [hb]
          exact acceptedClient_port hopened
        · exact ih a fd hfd
    | closed _ hto _ =>
        rw [hto, FinFn.get_erase] at hfd
        split at hfd
        · cases hfd
        · exact ih a fd hfd

/-- A step sends the command that it is for the node, if any. -/
theorem sentOn_step {tr : List (Step (Net κ) Act)} {t : Step (Net κ) Act} {a : Addr} {fd : Fd}
    (hrun : (tcpNetwork K cfg).Run tr t.src) (hstep : t.act.Step K cfg t.src t.dst)
    (hfd : t.src.clientToFd.get a = some fd)
    (hfull : ∀ text, t.act.commandFor cfg a = some text →
      (K.write t.src.kernel fd (cmdFrame text)).1 = .ok (cmdFrame text).length) :
    sentOn fd t = (t.act.commandFor cfg a).toList.flatMap cmdFrame := by
  cases hcommand : t.act.commandFor cfg a with
  | none => exact sentOn_eq_nil (writes_step_of_ne (.of_run hrun) hstep hfd hcommand)
  | some text =>
      have hwritten := hfull text hcommand
      obtain ⟨src, act, dst⟩ := t
      cases act with
      | cmd node text' =>
          rw [Act.commandFor] at hcommand
          split at hcommand
          · rename_i hnode
            subst hnode
            cases hcommand
            obtain ⟨-, hdst⟩ := hstep
            -- the node is known as a client, so its address is not the invalid one
            have hport : (cfg.getNodeAddr node).sinPort ≠ INVALID_PORT := by
              rw [clientToFd_port hrun hfd]
              decide
            have hlog := log_sendCmd hport hfd hwritten
            rw [← hdst] at hlog
            rw [sentOn_of_log hlog]
            simp [Event.sentOn]
          · cases hcommand
      | _ => cases hcommand

/-- While the node is connected on the descriptor, and its commands are taken in full, what
is written there are these commands, one after the other. -/
theorem sentOn_run {tr post : List (Step (Net κ) Act)} {s : Net κ} {a : Addr} {fd : Fd}
    (h : (tcpNetwork K cfg).Run (tr ++ post) s)
    (hfd : ∀ t ∈ post, t.src.clientToFd.get a = some fd)
    (hfull : ∀ t ∈ post, ∀ text, t.act.commandFor cfg a = some text →
      (K.write t.src.kernel fd (cmdFrame text)).1 = .ok (cmdFrame text).length) :
    post.flatMap (sentOn fd)
      = (post.filterMap fun t => t.act.commandFor cfg a).flatMap cmdFrame := by
  -- from the first step on, which moves over to the steps of before
  induction post generalizing tr with
  | nil => rfl
  | cons t post ih =>
      obtain ⟨hrun, hstep⟩ := h.through
      have hsent := sentOn_step hrun hstep (hfd t (by simp)) (hfull t (by simp))
      have hsplit : tr ++ t :: post = (tr ++ [t]) ++ post := by simp
      rw [hsplit] at h
      have hrest := ih h (fun u hu => hfd u (by simp [hu])) fun u hu => hfull u (by simp [hu])
      rw [List.flatMap_cons, hsent, hrest, List.filterMap_cons]
      cases t.act.commandFor cfg a with
      | none => rfl
      | some text => simp

end Tmet.Tproxy
