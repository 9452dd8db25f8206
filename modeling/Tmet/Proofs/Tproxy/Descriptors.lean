import Tmet.Posix.Audit
import Tmet.Proofs.Tproxy.Pairing

/-!
# `Tmet.Proofs.Tproxy.Descriptors`: who closes what

`Net.Owned`: besides the descriptors that were open at the start, the open ones are
the keys of the connection table and of the clients' table, which have none in
common. The kernel is an audited one, so that its state shows whether `close` was
called on a descriptor that was not open.

`Settled` says of a part of a handler that it keeps `Owned` and closes open
descriptors only. The lemmas follow the functions as those of `Atoms` do. A handler is
settled but in four cases:

* `connect_peer` returns after a failed `setsockopt` or `bind` and leaves its new
  descriptor open (`Net.AcceptLeaks`);
* an event of a descriptor that is in neither table makes `do_receive` close it;
* the direct strategy delivers in the loop of `do_receive`. If a message is not delivered
  (`Undelivered`: a write fails, or the body is empty and the variable `size`, which nothing
  has set, holds -1), the connection is closed; the next peek fails on the closed
  descriptor, which is then closed once more (both are `Net.StaleClose`);
* `recover` closes both ends of a connection of a node with itself, and the first
  close has closed the second end (`Net.Loops`).
-/

set_option autoImplicit false

namespace Tmet.Tproxy

open Tmet.Lib Tmet.Posix

variable {κ : Type} {K : Kernel κ Ctl Addr} {cfg : ConfigFile} {F₀ : Finset Fd}

/-! ### Ownership -/

/-- The open descriptors are those of `F₀` and the keys of the two tables. -/
structure Net.Owned (K : Kernel κ Ctl Addr) (F₀ : Finset Fd) (s : Net (κ × List Fd)) : Prop where
  fds : K.fds s.kernel.1 = F₀ ∪ (s.fdToChannelStatus.dom ∪ s.fdToClient.dom)
  created : Disjoint F₀ (s.fdToChannelStatus.dom ∪ s.fdToClient.dom)
  apart : Disjoint s.fdToChannelStatus.dom s.fdToClient.dom

/-- The same, for each descriptor. -/
theorem Net.owned_iff {s : Net (κ × List Fd)} :
    s.Owned K F₀ ↔ ∀ x,
      (x ∈ K.fds s.kernel.1 ↔ x ∈ F₀ ∨ x ∈ s.fdToChannelStatus.dom ∨ x ∈ s.fdToClient.dom)
        ∧ (x ∈ F₀ → x ∉ s.fdToChannelStatus.dom ∧ x ∉ s.fdToClient.dom)
        ∧ (x ∈ s.fdToChannelStatus.dom → x ∉ s.fdToClient.dom) := by
  constructor
  · rintro ⟨hfds, hcreated, hapart⟩ x
    rw [hfds, Finset.mem_union, Finset.mem_union]
    refine ⟨Iff.rfl, fun hx => ?_, fun hx hx' => Finset.disjoint_left.mp hapart hx hx'⟩
    have hnot := Finset.disjoint_left.mp hcreated hx
    rwa [Finset.mem_union, not_or] at hnot
  · intro h
    refine ⟨?_, ?_, ?_⟩
    · ext x
      rw [Finset.mem_union, Finset.mem_union]
      exact (h x).1
    · rw [Finset.disjoint_left]
      intro x hx
      rw [Finset.mem_union, not_or]
      exact (h x).2.1 hx
    · rw [Finset.disjoint_left]
      exact fun x => (h x).2.2

/-- From `s` to `s'` only open descriptors were closed, and every open one is owned if
it was. -/
structure Settled (K : Kernel κ Ctl Addr) (F₀ : Finset Fd) (s s' : Net (κ × List Fd)) : Prop where
  owned : s.Owned K F₀ → s'.Owned K F₀
  misclosed : s'.kernel.2 = s.kernel.2

theorem Settled.refl (s : Net (κ × List Fd)) : Settled K F₀ s s := ⟨fun h => h, rfl⟩

theorem Settled.trans {s s' s'' : Net (κ × List Fd)} (h : Settled K F₀ s s')
    (h' : Settled K F₀ s' s'') : Settled K F₀ s s'' :=
  ⟨fun ho => h'.owned (h.owned ho), h'.misclosed.trans h.misclosed⟩

/-- The same descriptors are open, and the tables have the same keys. -/
theorem Settled.of_same {s s' : Net (κ × List Fd)} (hfds : K.fds s'.kernel.1 = K.fds s.kernel.1)
    (hdom : s'.fdToChannelStatus.dom = s.fdToChannelStatus.dom)
    (hclient : s'.fdToClient.dom = s.fdToClient.dom) (hrec : s'.kernel.2 = s.kernel.2) :
    Settled K F₀ s s' := by
  refine ⟨fun ⟨ho, hcreated, hapart⟩ => ⟨?_, ?_, ?_⟩, hrec⟩
  · rw [hfds, hdom, hclient, ho]
  · rw [hdom, hclient]
    exact hcreated
  · rw [hdom, hclient]
    exact hapart

theorem OnlyIO.settled {s s' : Net (κ × List Fd)} (h : OnlyIO (audited K) s s')
    (hrec : s'.kernel.2 = s.kernel.2) : Settled K F₀ s s' :=
  .of_same h.fds (by rw [h.fdToChannelStatus]) (by rw [h.fdToClient]) hrec

theorem OnlyIO.consistent {s s' : Net (κ × List Fd)} (h : OnlyIO (audited K) s s')
    (hs : s.Consistent (audited K)) : s'.Consistent (audited K) :=
  hs.congr h.fdToChannelStatus h.clientToFd h.fdToClient h.uninterceptedFd h.heap h.nextCell
    (by rw [h.fds])

/-! ### System calls -/

theorem settled_recv {s s₁ : Net (κ × List Fd)} {fd : Fd} {len : ℕ} {flags : RecvFlags}
    {r : RecvResult} (h : s.recv (audited K) fd len flags = (r, s₁)) : Settled K F₀ s s₁ :=
  (onlyIO_recv h).settled (by cases h; rfl)

theorem misclosed_write {s s₁ : Net (κ × List Fd)} {fd : Fd} {data : Bytes} {r : WriteResult}
    (h : s.write (audited K) fd data = (r, s₁)) : s₁.kernel.2 = s.kernel.2 := by
  cases h
  rfl

/-- Closing the descriptor of a client, or one that was just created. -/
theorem misclosed_netClose {s : Net (κ × List Fd)} {fd : Fd} (h : fd ∈ K.fds s.kernel.1) :
    (s.close (audited K) fd).kernel.2 = s.kernel.2 :=
  misclosed_close h

theorem settled_tag {s : Net (κ × List Fd)} (fd : Fd) :
    Settled K F₀ s (s.closeConnection (audited K) fd true) := by
  rw [Net.closeConnection]
  cases s.fdToChannelStatus.get fd with
  | none => exact .refl s
  | some st => exact .of_same rfl (by simp [Net.setDisconnected]) rfl rfl

/-- Closing a connection. Both of its descriptors are open, the second still is after
the first close. -/
theorem settled_closePair {s : Net (κ × List Fd)} (hs : s.Consistent (audited K)) {fd : Fd}
    {st : ChannelStatus} (hst : s.fdToChannelStatus.get fd = some st) :
    Settled K F₀ s (s.closeConnection (audited K) fd false) := by
  obtain ⟨st', hp⟩ := hs.linked fd st hst
  obtain ⟨hkernel, -, -⟩ := closeConnection_pair (K := audited K) hst hp
  have hrest := onlyTable_closeConnection (K := audited K) s fd false
  have hopen : fd ∈ K.fds s.kernel.1 := hs.conn_open fd st hst
  have hopen' : s.heap st.fd ∈ K.fds (K.close s.kernel.1 fd) := by
    rw [K.fds_close, Finset.mem_erase]
    exact ⟨hp.ne, hs.conn_open _ st' hp.peer⟩
  have hdom (x : Fd) : x ∈ (s.closeConnection (audited K) fd false).fdToChannelStatus.dom
      ↔ x ∈ s.fdToChannelStatus.dom ∧ x ≠ fd ∧ x ≠ s.heap st.fd := by
    rw [← FinFn.isSome_get, get_closeConnection hst, ← FinFn.isSome_get]
    by_cases hx : x = fd ∨ x = s.heap st.fd
    · rw [if_pos hx, ← not_or]
      simp [hx]
    · rw [if_neg hx, ← not_or, and_iff_left hx]
  refine ⟨fun ho => ?_, ?_⟩
  · rw [Net.owned_iff] at ho ⊢
    intro x
    have hx := ho x
    -- both descriptors of the pair leave the table together with the kernel's set
    have hkey : x = fd ∨ x = s.heap st.fd → x ∈ s.fdToChannelStatus.dom := by
      rintro (rfl | rfl)
      · exact FinFn.mem_dom_of_get hst
      · exact FinFn.mem_dom_of_get hp.peer
    have hfds : x ∈ K.fds (s.closeConnection (audited K) fd false).kernel.1
        ↔ x ≠ s.heap st.fd ∧ x ≠ fd ∧ x ∈ K.fds s.kernel.1 := by
      rw [hkernel]
      show x ∈ K.fds (K.close (K.close s.kernel.1 fd) (s.heap st.fd)) ↔ _
      rw [K.fds_close, K.fds_close, Finset.mem_erase, Finset.mem_erase]
    rw [hfds, hdom, hrest.fdToClient]
    grind
  · rw [hkernel, misclosed_close hopen', misclosed_close hopen]

/-! ### Delivering -/

theorem misclosed_writeLoop (fuel : ℕ) :
    ∀ {s s' : Net (κ × List Fd)} {fd : Fd} {body : Bytes} {left : ℕ} {size size' : ℤ},
      s.writeLoop (audited K) fuel fd body left size = (size', s') →
      s'.kernel.2 = s.kernel.2 := by
  induction fuel with
  | zero =>
      intro s s' fd body left size size' h
      cases h
      rfl
  | succ fuel ih =>
      intro s s' fd body left size size' h
      rw [Net.writeLoop] at h
      split at h
      · cases h
        rfl
      · cases hw : s.write (audited K) fd (body.take left) with
        | mk r s₁ =>
            rw [hw] at h
            cases r with
            | error e =>
                cases h
                exact misclosed_write hw
            | ok n => exact (ih h).trans (misclosed_write hw)

theorem settled_deliverTaken {s : Net (κ × List Fd)} (hs : s.Consistent (audited K)) (m : Msg) :
    Settled K F₀ s (s.deliverTaken (audited K) cfg m) := by
  rw [Net.deliverTaken]
  cases hst : s.fdToChannelStatus.get (s.heap m.fd) with
  | none => exact .refl s
  | some st =>
      dsimp only
      cases htag : st.disconnected with
      | true => exact .refl s
      | false =>
          rw [if_neg (by decide)]
          cases hloop : s.writeLoop (audited K) m.size (s.heap m.fd) m.body m.size
            ((audited K).garbage s.kernel) with
          | mk size s₁ =>
              have hio := (Path.writeLoop (R := .delivering) trivial _ hloop hst htag).2
              have hsettled : Settled K F₀ s s₁ := hio.settled (misclosed_writeLoop _ hloop)
              have hst₁ : s₁.fdToChannelStatus.get (s.heap m.fd) = some st := by
                rw [hio.fdToChannelStatus]
                exact hst
              dsimp only
              split
              · refine hsettled.trans ?_
                -- it is tagged, or closed if messages are passed on at once
                cases !cfg.isDirect with
                | true => exact settled_tag _
                | false => exact settled_closePair (hio.consistent hs) hst₁
              · exact hsettled

theorem settled_deliverCmd {s : Net (κ × List Fd)} (hs : s.Consistent (audited K))
    (src dst : String) : Settled K F₀ s (s.deliverCmd (audited K) cfg src dst) := by
  rw [Net.deliverCmd]
  dsimp only
  split
  · exact .refl s
  · rw [Net.deliverMsg]
    cases s.network.get _ with
    | none => exact .refl s
    | some q =>
        dsimp only
        cases Net.dequeueOpen s.heap q with
        | mk m rest =>
            have hqueue (network : FinFn Channel (List Msg)) :
                Settled K F₀ s { s with network := network } := .of_same rfl rfl rfl rfl
            cases m with
            | none => exact hqueue _
            | some msg =>
                refine (hqueue _).trans (settled_deliverTaken ?_ msg)
                exact hs.congr rfl rfl rfl rfl rfl rfl (Finset.Subset.refl _)

/-! ### Receiving -/

theorem settled_enqueueMsg {s : Net (κ × List Fd)} (hs : s.Consistent (audited K))
    (cf : ChannelStatus) (m : Msg) : Settled K F₀ s (s.enqueueMsg (audited K) cfg cf m) := by
  rw [Net.enqueueMsg]
  split
  · exact .refl s
  · split
    · exact settled_deliverTaken hs m
    · exact .of_same rfl rfl rfl rfl

/-- A `recv` on a descriptor of a connection. -/
theorem settled_recv_entry (F₀ : Finset Fd) {s s₁ : Net (κ × List Fd)} {fd fd' : Fd} {len : ℕ}
    {flags : RecvFlags}
    {r : RecvResult} {st : ChannelStatus} (hs : s.Consistent (audited K))
    (hst : s.fdToChannelStatus.get fd = some st)
    (h : s.recv (audited K) fd' len flags = (r, s₁)) :
    Settled K F₀ s s₁ ∧ s₁.Consistent (audited K) ∧ s₁.fdToChannelStatus.get fd = some st := by
  have hio := onlyIO_recv h
  refine ⟨settled_recv h, hio.consistent hs, ?_⟩
  rw [hio.fdToChannelStatus]
  exact hst

theorem settled_transferUnintercepted {fuel : ℕ} {s s' : Net (κ × List Fd)} {outFd inFd : Fd}
    {st : ChannelStatus} (hs : s.Consistent (audited K))
    (h : s.transferUnintercepted (audited K) fuel outFd inFd = some s')
    (hst : s.fdToChannelStatus.get inFd = some st) : Settled K F₀ s s' := by
  -- the reason of a write does not matter here
  have hwrite {s s₁ : Net (κ × List Fd)} {data : Bytes} {r : WriteResult}
      (hs : s.Consistent (audited K)) (hst : s.fdToChannelStatus.get inFd = some st)
      (hw : s.write (audited K) outFd data = (r, s₁)) :
      Settled K F₀ s s₁ ∧ s₁.Consistent (audited K) ∧ s₁.fdToChannelStatus.get inFd = some st := by
    have hio := onlyIO_write hw
    refine ⟨hio.settled (misclosed_write hw), hio.consistent hs, ?_⟩
    rw [hio.fdToChannelStatus]
    exact hst
  have htransfers := transferUnintercepted_transfers fuel h
  clear h
  induction htransfers with
  | ended hr => exact settled_recv hr
  | closed hr =>
      obtain ⟨hsettled, hs₁, hst₁⟩ := settled_recv_entry F₀ hs hst hr
      exact hsettled.trans (settled_closePair hs₁ hst₁)
  | broken hr hw =>
      obtain ⟨hsettled, hs₁, hst₁⟩ := settled_recv_entry F₀ hs hst hr
      obtain ⟨hsettled₂, hs₂, hst₂⟩ := hwrite hs₁ hst₁ hw
      exact (hsettled.trans hsettled₂).trans (settled_closePair hs₂ hst₂)
  | passed hr hw _ ih =>
      obtain ⟨hsettled, hs₁, hst₁⟩ := settled_recv_entry F₀ hs hst hr
      obtain ⟨hsettled₂, hs₂, hst₂⟩ := hwrite hs₁ hst₁ hw
      exact (hsettled.trans hsettled₂).trans (ih hs₂ hst₂)

/-- How the kernel answers the writes of a body of which `left` bytes are left: one of them fails
(`none`), or the last one leaves a state. Each write begins with the beginning of the body. -/
inductive BodyWrites (K : Kernel κ Ctl Addr) (fd : Fd) (body : Bytes) : ℕ → κ → Option κ → Prop
  | all {k : κ} : BodyWrites K fd body 0 k (some k)
  | failed {left : ℕ} {k k' : κ} {e : Errno} :
      left ≠ 0 → K.write k fd (body.take left) = (.error e, k') → BodyWrites K fd body left k none
  | taken {left n : ℕ} {k k₁ : κ} {r : Option κ} :
      left ≠ 0 → K.write k fd (body.take left) = (.ok n, k₁) →
      BodyWrites K fd body (left - n) k₁ r → BodyWrites K fd body left k r

/-- A body is not delivered: one of its writes fails; or there is none to make, the body being
empty, and the variable `size`, which is not initialised, holds -1. -/
def Undelivered (K : Kernel κ Ctl Addr) (k : κ) (out : Fd) (body : Bytes) : Prop :=
  BodyWrites K out body body.length k none ∨ body = [] ∧ K.garbage k = -1

/-- A message has arrived: the kernel shows its header, which is valid, and then gives all of
it. -/
def MessageArrives (K : Kernel κ Ctl Addr) (k : κ) (fd : Fd) (body : Bytes) (k' : κ) : Prop :=
  ∃ (header : MsgHeader) (content : Bytes) (k₁ : κ),
    K.recv k fd 8 .peekDontwait = (.ok header.bytes, k₁) ∧ packetValidation header 8 = true
      ∧ K.recv k₁ fd (8 + header.size) .waitall = (.ok content, k')
      ∧ content.length = 8 + header.size ∧ content.drop 8 = body

/-- Of the messages that arrive on `fd` one after the other, one is not delivered to `out`. -/
inductive FailsDelivering (K : Kernel κ Ctl Addr) (fd out : Fd) : κ → Prop
  | now {k k' : κ} {body : Bytes} :
      MessageArrives K k fd body k' → Undelivered K k' out body → FailsDelivering K fd out k
  | later {k k₁ k₂ : κ} {body : Bytes} :
      MessageArrives K k fd body k₁ → BodyWrites K out body body.length k₁ (some k₂) →
      FailsDelivering K fd out k₂ → FailsDelivering K fd out k

/-- A write of what is left takes at least one byte. -/
theorem write_left_pos {fd : Fd} {body : Bytes} {left n : ℕ} {k k₁ : κ} (hleft : left ≠ 0)
    (hle : left ≤ body.length) (hw : K.write k fd (body.take left) = (.ok n, k₁)) : 0 < n := by
  refine K.write_pos (congrArg Prod.fst hw) ?_
  rw [← List.length_pos_iff, List.length_take]
  omega

/-- The kernel answers the writes in one way or the other. -/
theorem exists_bodyWrites (fd : Fd) (body : Bytes) (left : ℕ) :
    left ≤ body.length → ∀ k : κ, ∃ r, BodyWrites K fd body left k r := by
  induction left using Nat.strong_induction_on with
  | h left ih =>
      intro hle k
      by_cases hleft : left = 0
      · subst hleft
        exact ⟨some k, .all⟩
      · cases hw : K.write k fd (body.take left) with
        | mk r k₁ =>
            cases r with
            | error e => exact ⟨none, .failed hleft hw⟩
            | ok n =>
                have hpos := write_left_pos hleft hle hw
                obtain ⟨r, hr⟩ := ih (left - n) (by omega) (by omega) k₁
                exact ⟨r, .taken hleft hw hr⟩

theorem BodyWrites.unique {fd : Fd} {body : Bytes} {left : ℕ} {k : κ} {r r' : Option κ}
    (h : BodyWrites K fd body left k r) (h' : BodyWrites K fd body left k r') : r = r' := by
  induction h with
  | all =>
      cases h' with
      | all => rfl
      | failed hleft _ => exact absurd rfl hleft
      | taken hleft _ _ => exact absurd rfl hleft
  | failed hleft hw =>
      cases h' with
      | all => exact absurd rfl hleft
      | failed _ _ => rfl
      | taken _ hw' _ => cases hw.symm.trans hw'
  | taken hleft hw _ ih =>
      cases h' with
      | all => exact absurd rfl hleft
      | failed _ hw' => cases hw.symm.trans hw'
      | taken _ hw' hrest' =>
          cases hw.symm.trans hw'
          exact ih hrest'

/-- The loop of `deliver_msg` against the kernel's answers. -/
theorem writeLoop_of_bodyWrites {fd : Fd} {body : Bytes} {left : ℕ} {k : κ} {r : Option κ}
    (h : BodyWrites K fd body left k r) :
    ∀ (fuel : ℕ) (s : Net κ) (size : ℤ), s.kernel = k → left ≤ fuel → left ≤ body.length →
      (r = none → (s.writeLoop K fuel fd body left size).1 = -1)
        ∧ ∀ k', r = some k' → (s.writeLoop K fuel fd body left size).2.kernel = k'
          ∧ (left = 0 ∧ (s.writeLoop K fuel fd body left size).1 = size
            ∨ 0 ≤ (s.writeLoop K fuel fd body left size).1) := by
  induction h with
  | all =>
      intro fuel s size hk _ _
      have hloop : s.writeLoop K fuel fd body 0 size = (size, s) := by
        cases fuel <;> rfl
      rw [hloop]
      refine ⟨by rintro ⟨⟩, fun k' hk' => ?_⟩
      cases hk'
      exact ⟨hk, Or.inl ⟨rfl, rfl⟩⟩
  | @failed left k k₁ e hleft hw =>
      intro fuel s size hk hfuel _
      subst hk
      cases fuel with
      | zero => exact absurd (Nat.le_zero.mp hfuel) hleft
      | succ fuel =>
          rw [Net.writeLoop, if_neg hleft, Net.write, hw]
          exact ⟨fun _ => rfl, by rintro _ ⟨⟩⟩
  | @taken left n k k₁ r hleft hw _ ih =>
      intro fuel s size hk hfuel hbody
      subst hk
      have hpos := write_left_pos hleft hbody hw
      cases fuel with
      | zero => exact absurd (Nat.le_zero.mp hfuel) hleft
      | succ fuel =>
          rw [Net.writeLoop, if_neg hleft, Net.write, hw]
          dsimp only
          obtain ⟨hnone, hsome⟩ := ih fuel
            { s with
              kernel := k₁
              log := s.log ++ [.wrote fd (s.fdToChannelStatus.get fd) ((body.take left).take n)] }
            n rfl (by omega) (by omega)
          refine ⟨hnone, fun k' hk' => ?_⟩
          obtain ⟨hkernel, hsize⟩ := hsome k' hk'
          -- what is left for the value of `size` is a count of bytes
          refine ⟨hkernel, Or.inr ?_⟩
          rcases hsize with ⟨-, hsize⟩ | hsize
          · rw [hsize]
            exact Int.natCast_nonneg n
          · exact hsize

/-- The message is for a connection that is not disconnected, and is not delivered. -/
def Net.DeliveryFails (K : Kernel κ Ctl Addr) (s : Net κ) (m : Msg) : Prop :=
  (∃ st, s.fdToChannelStatus.get (s.heap m.fd) = some st ∧ st.disconnected = false)
    ∧ Undelivered K s.kernel (s.heap m.fd) m.body

/-- The loop of `deliver_msg` ends with -1 if the body is not delivered. -/
theorem writeLoop_eq_iff {s : Net κ} {m : Msg} (hsize : m.body.length = m.size) :
    (s.writeLoop K m.size (s.heap m.fd) m.body m.size (K.garbage s.kernel)).1 = -1
      ↔ Undelivered K s.kernel (s.heap m.fd) m.body := by
  constructor
  · intro hloop
    obtain ⟨r, hr⟩ := exists_bodyWrites (K := K) (s.heap m.fd) m.body m.body.length le_rfl s.kernel
    cases r with
    | none => exact Or.inl hr
    | some k' =>
        obtain ⟨-, hsome⟩ := writeLoop_of_bodyWrites hr m.size s (K.garbage s.kernel) rfl
          hsize.le le_rfl
        rw [hsize, hloop] at hsome
        -- no write failed, so there was none, and `size` is as it was
        rcases (hsome k' rfl).2 with ⟨hzero, hgarbage⟩ | hneg
        · exact Or.inr ⟨List.length_eq_zero_iff.mp (hsize.trans hzero), hgarbage.symm⟩
        · omega
  · rintro (hfailed | ⟨hempty, hgarbage⟩)
    · obtain ⟨hnone, -⟩ := writeLoop_of_bodyWrites hfailed m.size s (K.garbage s.kernel) rfl
        hsize.le le_rfl
      rw [hsize] at hnone
      exact hnone rfl
    · have hzero : m.size = 0 := by rw [← hsize, hempty, List.length_nil]
      rw [hzero]
      exact hgarbage

/-- Otherwise the kernel has answered all of its writes. -/
theorem bodyWrites_of_delivered {s : Net κ} {m : Msg} (hsize : m.body.length = m.size)
    (h : ¬ Undelivered K s.kernel (s.heap m.fd) m.body) :
    BodyWrites K (s.heap m.fd) m.body m.body.length s.kernel
      (some (s.writeLoop K m.size (s.heap m.fd) m.body m.size (K.garbage s.kernel)).2.kernel) := by
  obtain ⟨r, hr⟩ := exists_bodyWrites (K := K) (s.heap m.fd) m.body m.body.length le_rfl s.kernel
  cases r with
  | none => exact absurd (Or.inl hr) h
  | some k' =>
      obtain ⟨-, hsome⟩ := writeLoop_of_bodyWrites hr m.size s (K.garbage s.kernel) rfl
        hsize.le le_rfl
      rw [hsize] at hsome
      rw [(hsome k' rfl).1]
      exact hr

/-- In the loop of `do_receive` a message for the other end of `fd` is not delivered: messages
are delivered at once, and neither end is disconnected. -/
def Net.LoopFails (K : Kernel κ Ctl Addr) (cfg : ConfigFile) (s : Net κ) (fd : Fd) : Prop :=
  cfg.isDirect = true
    ∧ ∃ st st', s.fdToChannelStatus.get fd = some st ∧ st.disconnected = false
      ∧ s.fdToChannelStatus.get (s.heap st.fd) = some st' ∧ st'.disconnected = false
      ∧ FailsDelivering K fd (s.heap st.fd) s.kernel

/-- A delivery that does not fail changes no table. -/
theorem onlyIO_deliverTaken {s : Net κ} {m : Msg} (hsize : m.body.length = m.size)
    (h : ¬ s.DeliveryFails K m) : OnlyIO K s (s.deliverTaken K cfg m) := by
  rw [Net.deliverTaken]
  cases hst : s.fdToChannelStatus.get (s.heap m.fd) with
  | none => exact .refl s
  | some st =>
      dsimp only
      cases htag : st.disconnected with
      | true => exact .refl s
      | false =>
          rw [if_neg (by decide)]
          cases hloop : s.writeLoop K m.size (s.heap m.fd) m.body m.size (K.garbage s.kernel) with
          | mk size s₁ =>
              have hdelivered : size ≠ -1 := by
                intro heq
                refine h ⟨⟨st, hst, htag⟩, (writeLoop_eq_iff hsize).mp ?_⟩
                rw [hloop]
                exact heq
              dsimp only
              rw [if_neg hdelivered]
              exact (Path.writeLoop (R := .delivering) trivial _ hloop hst htag).2

theorem onlyIO_enqueueMsg {s : Net κ} {cf : ChannelStatus} {m : Msg}
    (hsize : m.body.length = m.size) (hdirect : cfg.isDirect = true)
    (h : ¬ (cf.disconnected = false ∧ s.DeliveryFails K m)) :
    OnlyIO K s (s.enqueueMsg K cfg cf m) := by
  rw [Net.enqueueMsg]
  by_cases htag : cf.disconnected = true
  · rw [if_pos htag]
    exact .refl s
  · rw [if_neg htag, if_pos hdirect]
    rw [Bool.not_eq_true] at htag
    exact onlyIO_deliverTaken hsize fun hfails => h ⟨htag, hfails⟩

/-- A message that is delivered leaves the kernel as its writes do. -/
theorem kernel_enqueueMsg {s : Net κ} {cf st' : ChannelStatus} {m : Msg}
    (hsize : m.body.length = m.size) (hdirect : cfg.isDirect = true)
    (htag : cf.disconnected = false) (hst' : s.fdToChannelStatus.get (s.heap m.fd) = some st')
    (htag' : st'.disconnected = false)
    (hdelivered : ¬ Undelivered K s.kernel (s.heap m.fd) m.body) :
    (s.enqueueMsg K cfg cf m).kernel
      = (s.writeLoop K m.size (s.heap m.fd) m.body m.size (K.garbage s.kernel)).2.kernel := by
  have hloop := (writeLoop_eq_iff hsize).not.mpr hdelivered
  rw [Net.enqueueMsg, htag, if_neg (by decide), if_pos hdirect, Net.deliverTaken, hst']
  dsimp only
  rw [htag', if_neg (by decide), if_neg hloop]

theorem get_enqueueMsg {s : Net κ} {cf : ChannelStatus} {m : Msg} (hsize : m.body.length = m.size)
    (h : ¬ (cfg.isDirect = true ∧ cf.disconnected = false ∧ s.DeliveryFails K m)) :
    (s.enqueueMsg K cfg cf m).fdToChannelStatus = s.fdToChannelStatus := by
  by_cases hdirect : cfg.isDirect = true
  · exact (onlyIO_enqueueMsg hsize hdirect fun hfails => h ⟨hdirect, hfails⟩).fdToChannelStatus
  · rw [Net.enqueueMsg, if_neg hdirect]
    split <;> rfl

theorem Net.Consistent.enqueueMsg {s : Net κ} (hs : s.Consistent K) (cfg : ConfigFile)
    (cf : ChannelStatus) (m : Msg) : (s.enqueueMsg K cfg cf m).Consistent K := by
  rw [Net.enqueueMsg]
  split
  · exact hs
  · split
    · exact hs.path (Path.deliverTaken (R := .delivering) trivial s m)
    · exact hs.congr rfl rfl rfl rfl rfl rfl (Finset.Subset.refl _)

/-- A pass that takes a message has it from the kernel. -/
theorem Net.TakesMessage.arrives {s s₁ s₂ : Net κ} {fd : Fd} {next : MsgHeader}
    {st : ChannelStatus} {m : Msg} (h : Net.TakesMessage K s s₁ s₂ fd next st m) :
    MessageArrives K s.kernel fd m.body s₂.kernel := by
  obtain ⟨hdata, hkernel⟩ := Prod.mk.inj h.peek
  obtain ⟨hcontent, hkernel₂⟩ := Prod.mk.inj h.recv
  refine ⟨next, m.content, s₁.kernel, Prod.ext hdata (congrArg Net.kernel hkernel), h.valid, ?_, ?_,
    rfl⟩
  · rw [← h.size_eq]
    exact Prod.ext hcontent (congrArg Net.kernel hkernel₂)
  · rw [← h.size_eq]
    exact h.length

theorem Net.TakesMessage.body_length {s s₁ s₂ : Net κ} {fd : Fd} {next : MsgHeader}
    {st : ChannelStatus} {m : Msg} (h : Net.TakesMessage K s s₁ s₂ fd next st m) :
    m.body.length = m.size := by
  rw [Msg.body, List.length_drop, h.length]
  omega

/-- There is only one message that arrives next. -/
theorem MessageArrives.unique {k k' k'' : κ} {fd : Fd} {body body' : Bytes}
    (h : MessageArrives K k fd body k') (h' : MessageArrives K k fd body' k'') :
    body = body' ∧ k' = k'' := by
  obtain ⟨header, content, k₁, hpeek, -, hrecv, -, rfl⟩ := h
  obtain ⟨header', content', k₁', hpeek', -, hrecv', -, rfl⟩ := h'
  have hheader : header = header' := by
    rw [hpeek] at hpeek'
    cases header
    cases header'
    simp_all
  subst hheader
  obtain rfl : k₁ = k₁' := congrArg Prod.snd (hpeek.symm.trans hpeek')
  rw [hrecv] at hrecv'
  cases hrecv'
  exact ⟨rfl, rfl⟩

/-- A message arrives on a connection: the next pass takes it. -/
theorem MessageArrives.takesMessage {s : Net κ} {fd : Fd} {body : Bytes} {k' : κ}
    {st : ChannelStatus} (h : MessageArrives K s.kernel fd body k')
    (hst : s.fdToChannelStatus.get fd = some st) :
    ∃ next m s₁ s₂, Net.TakesMessage K s s₁ s₂ fd next st m := by
  obtain ⟨header, content, k₁, hpeek, hvalid, hrecv, hlen, -⟩ := h
  refine ⟨header, ⟨st.fd, content, header.size⟩, (s.recv K fd 8 .peekDontwait).2,
    ((s.recv K fd 8 .peekDontwait).2.recv K fd (8 + header.size) .waitall).2, ?_, hvalid, ?_, ?_,
    hlen, rfl, rfl⟩
  · rw [Net.recv, hpeek]
  · exact hst
  · have hkernel : (s.recv K fd 8 .peekDontwait).2.kernel = k₁ := by rw [Net.recv, hpeek]
    refine Prod.ext ?_ rfl
    show (K.recv (s.recv K fd 8 .peekDontwait).2.kernel fd (8 + header.size) .waitall).1 = _
    rw [hkernel, hrecv]

/-- Only the kernel's answers matter, while the entries are the same. -/
theorem Net.loopFails_iff {s s' : Net κ} {fd : Fd} {st : ChannelStatus} (hio : OnlyIO K s s')
    (hst : s.fdToChannelStatus.get fd = some st) :
    s'.LoopFails K cfg fd ↔ cfg.isDirect = true ∧ st.disconnected = false
      ∧ ∃ st', s.fdToChannelStatus.get (s.heap st.fd) = some st' ∧ st'.disconnected = false
        ∧ FailsDelivering K fd (s.heap st.fd) s'.kernel := by
  rw [Net.LoopFails, hio.fdToChannelStatus, hio.heap, hst]
  constructor
  · rintro ⟨hdirect, _, st', ⟨⟩, htag, hpeer, htag', hfails⟩
    exact ⟨hdirect, htag, st', hpeer, htag', hfails⟩
  · rintro ⟨hdirect, htag, st', hpeer, htag', hfails⟩
    exact ⟨hdirect, st, st', rfl, htag, hpeer, htag', hfails⟩

/-- In a pass that takes a message either this one is not delivered, or a later one. -/
theorem Net.TakesMessage.loopFails {s s₁ s₂ : Net κ} {fd : Fd} {next : MsgHeader}
    {st : ChannelStatus} {m : Msg} (h : Net.TakesMessage K s s₁ s₂ fd next st m) :
    s.LoopFails K cfg fd
      ↔ (cfg.isDirect = true ∧ st.disconnected = false ∧ s₂.DeliveryFails K m)
        ∨ (s₂.enqueueMsg K cfg st m).LoopFails K cfg fd := by
  have hio : OnlyIO K s s₂ := (onlyIO_recv h.peek).trans (onlyIO_recv h.recv)
  have hst : s.fdToChannelStatus.get fd = some st := by
    rw [← (onlyIO_recv h.peek).fdToChannelStatus]
    exact h.entry
  have hsize := h.body_length
  have hout : s₂.heap m.fd = s.heap st.fd := by rw [hio.heap, h.fd_eq]
  rw [Net.loopFails_iff (.refl s) hst]
  by_cases hnow : cfg.isDirect = true ∧ st.disconnected = false ∧ s₂.DeliveryFails K m
  · obtain ⟨hdirect, htag, ⟨st', hpeer, htag'⟩, hfails⟩ := hnow
    refine iff_of_true ?_ (Or.inl ⟨hdirect, htag, ⟨st', hpeer, htag'⟩, hfails⟩)
    rw [hio.fdToChannelStatus, hout] at hpeer
    rw [hout] at hfails
    exact ⟨hdirect, htag, st', hpeer, htag', .now h.arrives hfails⟩
  · rw [or_iff_right hnow]
    by_cases hdirect : cfg.isDirect = true
    · have hnot : ¬ (st.disconnected = false ∧ s₂.DeliveryFails K m) := fun hn => hnow ⟨hdirect, hn⟩
      have hio₃ : OnlyIO K s (s₂.enqueueMsg K cfg st m) :=
        hio.trans (onlyIO_enqueueMsg hsize hdirect hnot)
      rw [Net.loopFails_iff hio₃ hst]
      -- the message is delivered, so what fails is a later one
      refine and_congr_right fun _ => and_congr_right fun htag => exists_congr fun st' =>
        and_congr_right fun hpeer => and_congr_right fun htag' => ?_
      have hpeer₂ : s₂.fdToChannelStatus.get (s₂.heap m.fd) = some st' := by
        rw [hio.fdToChannelStatus, hout]
        exact hpeer
      have hdelivered : ¬ Undelivered K s₂.kernel (s₂.heap m.fd) m.body :=
        fun hfails => hnot ⟨htag, ⟨st', hpeer₂, htag'⟩, hfails⟩
      have hkernel := kernel_enqueueMsg hsize hdirect htag hpeer₂ htag' hdelivered
      have hwrites := bodyWrites_of_delivered hsize hdelivered
      rw [← hkernel, hout] at hwrites
      rw [hout] at hdelivered
      refine ⟨fun hfails => ?_, fun hfails => .later h.arrives hwrites hfails⟩
      cases hfails with
      | now harrives hund =>
          obtain ⟨rfl, rfl⟩ := harrives.unique h.arrives
          exact absurd hund hdelivered
      | later harrives hwrites' hrest =>
          obtain ⟨rfl, rfl⟩ := harrives.unique h.arrives
          rw [Option.some.inj (hwrites.unique hwrites')]
          exact hrest
    · exact iff_of_false (fun hf => hdirect hf.1) fun hf => hdirect hf.1

/-- Whichever message is not delivered, there is a first one that arrives. -/
theorem FailsDelivering.arrives {fd out : Fd} {k : κ} (h : FailsDelivering K fd out k) :
    ∃ body k', MessageArrives K k fd body k' := by
  cases h with
  | now harrives _ => exact ⟨_, _, harrives⟩
  | later harrives _ _ => exact ⟨_, _, harrives⟩

/-- A loop in which a message is not delivered takes one in its first pass. -/
theorem Net.LoopFails.takesMessage {s : Net κ} {fd : Fd} (h : s.LoopFails K cfg fd) :
    ∃ next st m s₁ s₂, Net.TakesMessage K s s₁ s₂ fd next st m := by
  obtain ⟨-, st, -, hst, -, -, -, hfails⟩ := h
  obtain ⟨body, k', harrives⟩ := hfails.arrives
  obtain ⟨next, m, s₁, s₂, hmsg⟩ := harrives.takesMessage hst
  exact ⟨next, st, m, s₁, s₂, hmsg⟩

/-- The loop over the messages, if all of them are delivered. Unless `do_receive` has
returned, the connection is still there. -/
theorem settled_headerLoop (fuel : ℕ) :
    ∀ {s s' : Net (κ × List Fd)} {fd : Fd} {header : MsgHeader} {exit : Net.HeaderExit}
      {st : ChannelStatus}, s.Consistent (audited K) →
      s.headerLoop (audited K) cfg fuel fd header = some (exit, s') →
      s.fdToChannelStatus.get fd = some st → ¬ s.LoopFails (audited K) cfg fd →
      Settled K F₀ s s' ∧ s'.Consistent (audited K)
        ∧ (exit ≠ .returned → ∃ st', s'.fdToChannelStatus.get fd = some st') := by
  induction fuel with
  | zero =>
      intro s s' fd header exit st _ h
      cases h
  | succ fuel ih =>
      intro s s' fd header exit st hs h hst hfails
      cases headerLoop_pass h with
      | failed hr =>
          obtain ⟨hsettled, hs₁, hst₁⟩ := settled_recv_entry F₀ hs hst hr
          exact ⟨hsettled, hs₁, fun _ => ⟨st, hst₁⟩⟩
      | short hr =>
          obtain ⟨hsettled, hs₁, hst₁⟩ := settled_recv_entry F₀ hs hst hr
          exact ⟨hsettled, hs₁, fun _ => ⟨st, hst₁⟩⟩
      | invalid hr =>
          obtain ⟨hsettled, hs₁, hst₁⟩ := settled_recv_entry F₀ hs hst hr
          have hunintercept := hs₁.path (Atom.unintercept (R := .plain) hst₁).path
          exact ⟨hsettled.trans (.of_same rfl rfl rfl rfl), hunintercept, fun _ => ⟨st, hst₁⟩⟩
      | stale hr hnone =>
          obtain ⟨-, -, hst₁⟩ := settled_recv_entry F₀ hs hst hr
          rw [hst₁] at hnone
          cases hnone
      | interrupted hr hr₂ =>
          obtain ⟨hsettled, hs₁, hst₁⟩ := settled_recv_entry F₀ hs hst hr
          obtain ⟨hsettled₂, hs₂, -⟩ := settled_recv_entry F₀ hs₁ hst₁ hr₂
          exact ⟨hsettled.trans hsettled₂, hs₂, fun hne => absurd rfl hne⟩
      | closed hr hr₂ =>
          obtain ⟨hsettled, hs₁, hst₁⟩ := settled_recv_entry F₀ hs hst hr
          obtain ⟨hsettled₂, hs₂, hst₂⟩ := settled_recv_entry F₀ hs₁ hst₁ hr₂
          exact ⟨(hsettled.trans hsettled₂).trans (settled_closePair hs₂ hst₂), hs₂.closePair hst₂,
            fun hne => absurd rfl hne⟩
      | @message next st' m s₁ s₂ _ _ hmsg hrest =>
          obtain ⟨hsettled, hs₁, hst₁⟩ := settled_recv_entry F₀ hs hst hmsg.peek
          obtain ⟨hsettled₂, hs₂, hst₂⟩ := settled_recv_entry F₀ hs₁ hst₁ hmsg.recv
          -- the delivery of this message does not fail, so the entry stays
          obtain ⟨hnow, hlater⟩ := not_or.mp (hmsg.loopFails.not.mp hfails)
          have hst₃ : (s₂.enqueueMsg (audited K) cfg st' m).fdToChannelStatus.get fd = some st := by
            rw [get_enqueueMsg hmsg.body_length hnow]
            exact hst₂
          have hqueue : Settled K F₀ s₂ (s₂.enqueueMsg (audited K) cfg st' m) :=
            settled_enqueueMsg hs₂ st' m
          obtain ⟨hrest, hs', hentry⟩ := ih (hs₂.enqueueMsg cfg st' m) hrest hst₃ hlater
          exact ⟨((hsettled.trans hsettled₂).trans hqueue).trans hrest, hs', hentry⟩

theorem settled_receiveIntercepted {fuel : ℕ} {s s' : Net (κ × List Fd)} {fd : Fd} {raw : Bool}
    {st : ChannelStatus} (hs : s.Consistent (audited K))
    (h : s.receiveIntercepted (audited K) cfg fuel fd = some (raw, s'))
    (hst : s.fdToChannelStatus.get fd = some st)
    (hfails : ¬ s.LoopFails (audited K) cfg fd) :
    Settled K F₀ s s' ∧ s'.Consistent (audited K) := by
  obtain ⟨exit, s₁, hloop, hafter⟩ := receiveIntercepted_afterLoop h
  have hends : Settled K F₀ s s₁ ∧ _ := settled_headerLoop fuel hs hloop hst hfails
  obtain ⟨hsettled, hs₁, hentry⟩ := hends
  cases hafter with
  | kept => exact ⟨hsettled, hs₁⟩
  | closed =>
      -- the loop has not returned by itself, so the connection is still there
      obtain ⟨st₁, hst₁⟩ := hentry (by simp)
      exact ⟨hsettled.trans (settled_closePair hs₁ hst₁), hs₁.closePair hst₁⟩
  | tagged =>
      obtain ⟨st₁, hst₁⟩ := hentry (by simp)
      have hunintercept := hs₁.path (Atom.unintercept (R := .plain) hst₁).path
      exact ⟨hsettled.trans (.of_same rfl rfl rfl rfl), hunintercept⟩

/-- `do_receive`, on a descriptor with an entry. -/
theorem settled_doReceive {fuel : ℕ} {s s' : Net (κ × List Fd)} {fd : Fd} {st : ChannelStatus}
    (hs : s.Consistent (audited K)) (h : s.doReceive (audited K) cfg fuel fd = some s')
    (hst : s.fdToChannelStatus.get fd = some st)
    (hfails : fd ∉ s.uninterceptedFd → ¬ s.LoopFails (audited K) cfg fd) :
    Settled K F₀ s s' := by
  obtain ⟨raw, s₁, hphase, hends⟩ := doReceive_cases hst h
  -- up to the transfer; a tagged descriptor goes there at once
  have hsettled : Settled K F₀ s s₁ ∧ s₁.Consistent (audited K) := by
    rw [Net.receivePhase] at hphase
    by_cases hfd : fd ∈ s.uninterceptedFd
    · rw [if_pos hfd] at hphase
      cases hphase
      exact ⟨.refl s, hs⟩
    · rw [if_neg hfd] at hphase
      exact settled_receiveIntercepted hs hphase hst (hfails hfd)
  rcases hends with rfl | ⟨-, cf, hcf, htransfer⟩
  · exact hsettled.1
  · exact hsettled.1.trans (settled_transferUnintercepted hsettled.2 htransfer hcf)

/-- Closing the descriptor of a client, and forgetting it. -/
theorem settled_routerDown {s : Net (κ × List Fd)} (hs : s.Consistent (audited K)) {fd : Fd}
    {a : Addr} (ha : s.fdToClient.get fd = some a) (clientToFd : FinFn Addr Fd) :
    Settled K F₀ s { s.close (audited K) fd with
      clientToFd := clientToFd, fdToClient := s.fdToClient.erase fd } := by
  have hopen : fd ∈ K.fds s.kernel.1 := hs.client_open fd a ha
  refine ⟨fun ho => ?_, misclosed_close hopen⟩
  rw [Net.owned_iff] at ho ⊢
  intro x
  have hx := ho x
  have hkey : fd ∈ s.fdToClient.dom := FinFn.mem_dom_of_get ha
  have hself := ho fd
  -- both the descriptor and its entry go away
  have hfds : x ∈ K.fds (K.close s.kernel.1 fd) ↔ x ≠ fd ∧ x ∈ K.fds s.kernel.1 := by
    rw [K.fds_close, Finset.mem_erase]
  have hdom : x ∈ (s.fdToClient.erase fd).dom ↔ x ≠ fd ∧ x ∈ s.fdToClient.dom := by
    rw [FinFn.dom_erase, Finset.mem_erase]
  show (x ∈ K.fds (K.close s.kernel.1 fd)
      ↔ x ∈ F₀ ∨ x ∈ s.fdToChannelStatus.dom ∨ x ∈ (s.fdToClient.erase fd).dom)
    ∧ (x ∈ F₀ → x ∉ s.fdToChannelStatus.dom ∧ x ∉ (s.fdToClient.erase fd).dom)
    ∧ (x ∈ s.fdToChannelStatus.dom → x ∉ (s.fdToClient.erase fd).dom)
  rw [hfds, hdom]
  grind

theorem settled_sendCmd {s : Net (κ × List Fd)} (hs : s.Consistent (audited K)) (node : String)
    (cmd : Bytes) : Settled K F₀ s (s.sendCmd (audited K) cfg node cmd) := by
  rw [Net.sendCmd]
  dsimp only
  split
  · exact .refl s
  · cases hfd : s.clientToFd.get (cfg.getNodeAddr node) with
    | none => exact .refl s
    | some fd =>
        dsimp only
        cases hw : s.write (audited K) fd
            (bigEndian 4 VALIDATION_DATA ++ bigEndian 4 cmd.length ++ cmd) with
        | mk r s₁ =>
            have hio := onlyIO_write hw
            have hsettled : Settled K F₀ s s₁ := hio.settled (misclosed_write hw)
            cases r with
            | ok n => exact hsettled
            | error e =>
                -- the descriptor was found by its client, so it is that of the client
                have hclient : s₁.fdToClient.get fd = some (cfg.getNodeAddr node) := by
                  rw [hio.fdToClient]
                  exact hs.client _ fd hfd
                exact hsettled.trans (settled_routerDown (hio.consistent hs) hclient _)

/-- An event makes the proxy close a descriptor that is not open: it is in neither
table; or a message is not delivered in the loop of `do_receive`, and the loop goes on. -/
def Net.StaleClose (K : Kernel κ Ctl Addr) (cfg : ConfigFile) (s : Net κ) (fd : Fd) : Prop :=
  s.fdToClient.get fd = none
    ∧ (s.fdToChannelStatus.get fd = none
      ∨ fd ∉ s.uninterceptedFd ∧ s.LoopFails K cfg fd)

theorem settled_readEvent {fuel : ℕ} {s s' : Net (κ × List Fd)} {fd : Fd}
    (hs : s.Consistent (audited K)) (h : s.readEvent (audited K) cfg fuel fd = some s')
    (hstale : ¬ s.StaleClose (audited K) cfg fd) : Settled K F₀ s s' := by
  cases hclient : s.fdToClient.get fd with
  | none =>
      rw [Net.readEvent, hclient] at h
      -- a descriptor in neither table is closed nevertheless
      cases hst : s.fdToChannelStatus.get fd with
      | none => exact absurd ⟨hclient, Or.inl hst⟩ hstale
      | some st =>
          refine settled_doReceive hs h hst fun hfd hfails => ?_
          exact hstale ⟨hclient, Or.inr ⟨hfd, hfails⟩⟩
  | some client =>
      obtain ⟨r, s₁, hr, hends⟩ := readEvent_client hclient h
      have hio := onlyIO_recv hr
      have hsettled : Settled K F₀ s s₁ := settled_recv hr
      rcases hends with rfl | rfl
      · exact hsettled
      · have hclient₁ : s₁.fdToClient.get fd = some client := by
          rw [hio.fdToClient]
          exact hclient
        exact hsettled.trans
          (settled_routerDown (hio.consistent hs) hclient₁ (s₁.clientToFd.erase client))

/-! ### Accepting -/

/-- `do_accept_connect` closes the accepted descriptor, and another one that it has
opened stays open. -/
def Net.AcceptLeaks (K : Kernel κ Ctl Addr) (cfg : ConfigFile) (s : Net κ) : Prop :=
  match s.tcpAccept K cfg with
  | (none, _) => False
  | (some acc, s) => cfg.isRouterAddr acc.originAddr = false ∧ s.SetupFails K acc

theorem misclosed_tcpAccept (cfg : ConfigFile) (s : Net (κ × List Fd)) :
    (s.tcpAccept (audited K) cfg).2.kernel.2 = s.kernel.2 := by
  rw [Net.tcpAccept]
  cases hacc : (audited K).accept s.kernel with
  | mk r k =>
      have hrec : k.2 = s.kernel.2 := by
        cases hacc
        rfl
      cases r with
      | error e => exact hrec
      | ok conn =>
          dsimp only
          cases hname : (audited K).getsockname k conn.1 with
          | mk r₂ k₂ =>
              have hrec₂ : k₂.2 = k.2 := by
                cases hname
                rfl
              cases r₂ with
              | error e => exact hrec₂.trans hrec
              | ok origin => exact hrec₂.trans hrec

/-- The one descriptor that `connect_peer` closes is the one it has opened. -/
theorem misclosed_connectPeer (s : Net (κ × List Fd)) (acc : AcceptData) :
    (s.connectPeer (audited K) acc).2.kernel.2 = s.kernel.2 := by
  rw [Net.connectPeer]
  cases hsock : (audited K).socket s.kernel with
  | mk r k =>
      have hrec : k.2 = s.kernel.2 := by
        cases hsock
        rfl
      cases r with
      | error e => exact hrec
      | ok fd =>
          obtain ⟨-, -, hfds⟩ := (audited K).socket_fresh (congrArg Prod.fst hsock)
          rw [hsock] at hfds
          -- the new descriptor is open when `connect` fails on it
          have hopen : fd ∈ K.fds k.1 := by
            have hmem := Finset.mem_insert_self fd ((audited K).fds s.kernel)
            rw [← hfds] at hmem
            exact hmem
          dsimp only
          split
          · exact hrec
          · split
            · exact hrec
            · split
              · refine (misclosed_netClose ?_).trans hrec
                simpa [Net.ctl, audited, K.fds_ctl] using hopen
              · exact hrec

theorem settled_addMonitorFd (s : Net (κ × List Fd)) (fd : Fd) :
    Settled K F₀ s (s.addMonitorFd (audited K) fd) := by
  have hctl (o : Ctl) : K.fds (s.ctl (audited K) o).2.kernel.1 = K.fds s.kernel.1 :=
    K.fds_ctl s.kernel.1 o
  rw [Net.addMonitorFd]
  split
  · exact .refl s
  · dsimp only
    split
    · exact .of_same (hctl _) rfl rfl rfl
    · exact .of_same (hctl _) rfl rfl rfl

/-- The tables and the open descriptors, after new descriptors have become keys. -/
theorem Net.Owned.insert {s s' : Net (κ × List Fd)} (h : s.Owned K F₀) (conn client : Finset Fd)
    (hnew : ∀ x, x ∈ conn ∪ client → x ∉ K.fds s.kernel.1)
    (hfds : K.fds s'.kernel.1 = conn ∪ client ∪ K.fds s.kernel.1)
    (hdom : s'.fdToChannelStatus.dom = conn ∪ s.fdToChannelStatus.dom)
    (hclient : s'.fdToClient.dom = client ∪ s.fdToClient.dom) (hdisj : Disjoint conn client) :
    s'.Owned K F₀ := by
  rw [Net.owned_iff] at h ⊢
  intro x
  have hx := h x
  have hfresh := hnew x
  have hapart : x ∈ conn → x ∉ client := fun hc => Finset.disjoint_left.mp hdisj hc
  rw [Finset.mem_union] at hfresh
  rw [hfds, hdom, hclient]
  simp only [Finset.mem_union]
  grind

theorem owned_addFdToChannel {s : Net (κ × List Fd)} (h : s.Owned K F₀) {k : κ × List Fd}
    {fd fd' : Fd} {src dst : Addr} (hfd : fd ∉ K.fds s.kernel.1) (hfd' : fd' ∉ K.fds s.kernel.1)
    (hk : K.fds k.1 = insert fd' (insert fd (K.fds s.kernel.1))) :
    (({ s with kernel := k } : Net _).addFdToChannel fd fd' src dst).Owned K F₀ := by
  have hdom : (({ s with kernel := k } : Net _).addFdToChannel fd fd' src dst).fdToChannelStatus.dom
      = {fd', fd} ∪ s.fdToChannelStatus.dom := by
    show {fd'} ∪ ({fd} ∪ s.fdToChannelStatus.dom) = _
    rw [← Finset.union_assoc, ← Finset.insert_eq]
  have hopen : K.fds k.1 = {fd', fd} ∪ ∅ ∪ K.fds s.kernel.1 := by
    rw [hk, Finset.union_empty, Finset.insert_union, ← Finset.insert_eq]
  -- two new descriptors, both in the table of the connections
  refine h.insert {fd', fd} ∅ ?_ hopen hdom (Finset.empty_union _).symm
    (Finset.disjoint_empty_right _)
  intro x hx
  rw [Finset.union_empty, Finset.mem_insert, Finset.mem_singleton] at hx
  obtain rfl | rfl := hx
  · exact hfd'
  · exact hfd

/-- The accepted descriptor is open until it is closed. -/
theorem misclosed_acceptEvent (cfg : ConfigFile) (s : Net (κ × List Fd)) :
    (s.acceptEvent (audited K) cfg).kernel.2 = s.kernel.2 := by
  rw [Net.acceptEvent, Net.doAcceptConnect]
  have hrec := misclosed_tcpAccept (K := K) cfg s
  cases hacc : s.tcpAccept (audited K) cfg with
  | mk r s₁ =>
      rw [hacc] at hrec
      cases r with
      | none => exact hrec
      | some acc =>
          obtain ⟨-, k, rfl, hk⟩ := tcpAccept_some hacc
          replace hk : K.fds k.1 = insert acc.socketFd (K.fds s.kernel.1) := hk
          dsimp only
          cases hr : cfg.isRouterAddr acc.originAddr with
          | true =>
              rw [if_pos rfl]
              have hmonitor (s₂ : Net (κ × List Fd)) :
                  Settled K ∅ s₂ (s₂.addMonitorFd (audited K) acc.socketFd) :=
                settled_addMonitorFd s₂ _
              exact (hmonitor _).misclosed.trans hrec
          | false =>
              rw [if_neg (by decide)]
              -- no client of the router: the other end is connected to
              have hrec₂ := misclosed_connectPeer (K := K) ({ s with kernel := k } : Net _) acc
              cases hpeer :
                  ({ s with kernel := k } : Net (κ × List Fd)).connectPeer (audited K) acc with
              | mk peer s₂ =>
                  rw [hpeer] at hrec₂
                  replace hrec₂ : s₂.kernel.2 = s.kernel.2 := hrec₂.trans hrec
                  cases peer with
                  | none =>
                      -- whatever `connect_peer` has opened and closed, not the accepted descriptor
                      have hopen : acc.socketFd ∈ K.fds s₂.kernel.1 := by
                        obtain ⟨-, -, k₂, rfl, hk₂⟩ | ⟨fd, -, ⟨k₂, rfl, hk₂⟩, -⟩ :=
                          connectPeer_cases hpeer
                        · replace hk₂ : K.fds k₂.1 = K.fds k.1 := hk₂
                          rw [hk] at hk₂
                          exact hk₂ ▸ Finset.mem_insert_self _ _
                        · replace hk₂ : K.fds k₂.1 = insert fd (K.fds k.1) := hk₂
                          rw [hk] at hk₂
                          exact hk₂ ▸ Finset.mem_insert_of_mem (Finset.mem_insert_self _ _)
                      exact (misclosed_netClose hopen).trans hrec₂
                  | some peerFd =>
                      have hmonitor (s₃ : Net (κ × List Fd)) : Settled K ∅ s₃
                          ((s₃.addMonitorFd (audited K) acc.socketFd).addMonitorFd (audited K)
                            peerFd) :=
                        (settled_addMonitorFd s₃ _).trans (settled_addMonitorFd _ _)
                      exact (hmonitor _).misclosed.trans hrec₂

theorem owned_acceptEvent {s : Net (κ × List Fd)} (hleaks : ¬ s.AcceptLeaks (audited K) cfg)
    (ho : s.Owned K F₀) (hlive : (s.acceptEvent (audited K) cfg).terminated = false) :
    (s.acceptEvent (audited K) cfg).Owned K F₀ := by
  rw [Net.AcceptLeaks] at hleaks
  have haccepts := acceptEvent_accepts (audited K) cfg s
  have hrec := misclosed_acceptEvent (K := K) cfg s
  generalize s.acceptEvent (audited K) cfg = s' at haccepts hrec hlive ⊢
  cases haccepts with
  | failed _ => cases hlive
  | @client acc k hacc hr hfresh hk =>
      refine (settled_addMonitorFd _ _).owned ?_
      refine ho.insert ∅ {acc.socketFd} ?_ hk (Finset.empty_union _).symm rfl
        (Finset.disjoint_empty_left _)
      intro x hx
      obtain rfl : x = acc.socketFd := by simpa using hx
      exact hfresh
  | @refused acc k k₁ hacc hnot hk =>
      have hsettled : Settled K F₀ s { s with kernel := k₁ } := .of_same hk rfl rfl hrec
      exact hsettled.owned ho
  | leaked hacc hr hf _ _ =>
      -- `connect_peer` has left its descriptor open, which is excluded
      rw [hacc] at hleaks
      exact absurd ⟨hr, hf⟩ hleaks
  | @connected acc k k₁ peerFd hacc hr hnot hfresh hfd hne hk =>
      refine ((settled_addMonitorFd _ acc.socketFd).trans (settled_addMonitorFd _ peerFd)).owned ?_
      exact owned_addFdToChannel ho hfresh hfd hk

/-! ### Commands -/

/-- Only tags and queues may differ. -/
structure Retagged (s s' : Net κ) : Prop where
  kernel : s'.kernel = s.kernel
  heap : s'.heap = s.heap
  fdToClient : s'.fdToClient = s.fdToClient
  get : ∀ x, (s'.fdToChannelStatus.get x).map (fun st => (st.channel, st.selfFd, st.fd))
    = (s.fdToChannelStatus.get x).map fun st => (st.channel, st.selfFd, st.fd)

theorem Retagged.refl (s : Net κ) : Retagged s s := ⟨rfl, rfl, rfl, fun _ => rfl⟩

theorem Retagged.trans {s s' s'' : Net κ} (h : Retagged s s') (h' : Retagged s' s'') :
    Retagged s s'' where
  kernel := h'.kernel.trans h.kernel
  heap := h'.heap.trans h.heap
  fdToClient := h'.fdToClient.trans h.fdToClient
  get x := (h'.get x).trans (h.get x)

theorem retagged_setDisconnected (s : Net κ) (fd : Fd) (b : Bool) :
    Retagged s (s.setDisconnected fd b) := by
  refine ⟨rfl, rfl, rfl, fun x => ?_⟩
  show ((s.fdToChannelStatus.except fd _).get x).map _ = _
  rw [FinFn.get_except]
  split
  · rw [Option.map_map]
    rfl
  · rfl

theorem retagged_tag (s : Net κ) (fd : Fd) : Retagged s (s.closeConnection K fd true) := by
  rw [Net.closeConnection]
  cases s.fdToChannelStatus.get fd with
  | none => exact .refl s
  | some st =>
      exact (retagged_setDisconnected s fd true).trans (retagged_setDisconnected _ _ true)

/-- An entry, and the one it was. -/
theorem Retagged.of_get {s s' : Net κ} (h : Retagged s s') {x : Fd} {st' : ChannelStatus}
    (hst' : s'.fdToChannelStatus.get x = some st') :
    ∃ st, s.fdToChannelStatus.get x = some st ∧ st.channel = st'.channel ∧ st.fd = st'.fd := by
  have hget := h.get x
  rw [hst', Option.map_some, eq_comm, Option.map_eq_some_iff] at hget
  obtain ⟨st, hst, heq⟩ := hget
  rw [Prod.mk.injEq, Prod.mk.injEq] at heq
  exact ⟨st, hst, heq.1, heq.2.2⟩

theorem Retagged.symm {s s' : Net κ} (h : Retagged s s') : Retagged s' s :=
  ⟨h.kernel.symm, h.heap.symm, h.fdToClient.symm, fun x => (h.get x).symm⟩

theorem Retagged.settled {s s' : Net (κ × List Fd)} (h : Retagged s s') : Settled K F₀ s s' := by
  have hdom : s'.fdToChannelStatus.dom = s.fdToChannelStatus.dom := by
    ext x
    have hsome := congrArg Option.isSome (h.get x)
    rw [Option.isSome_map, Option.isSome_map] at hsome
    rw [← FinFn.isSome_get, ← FinFn.isSome_get, hsome]
  exact .of_same (by rw [h.kernel]) hdom (by rw [h.fdToClient]) (by rw [h.kernel])

theorem retagged_mark (s : Net κ) (fd : Fd) (c : Channel) (clearMsg isRecover : Bool) :
    Retagged s (s.mark K fd c clearMsg isRecover) := by
  obtain ⟨network, heq⟩ := mark_eq (K := K) s fd c clearMsg isRecover
  rw [heq]
  cases isRecover with
  | true => exact (retagged_setDisconnected s fd false).trans ⟨rfl, rfl, rfl, fun _ => rfl⟩
  | false => exact (retagged_tag s fd).trans ⟨rfl, rfl, rfl, fun _ => rfl⟩

/-- The loop of `partition` changes tags and queues. What `recover` is going to close
are the keys whose channels start at the node. -/
theorem retagged_partitionLoop {addr : Addr} {clearMsg isRecover : Bool} {fds toClose : List Fd}
    {s s' : Net κ} (h : s.partitionLoop K addr clearMsg isRecover fds = (toClose, s')) :
    Retagged s s' ∧ toClose.Sublist fds ∧ (isRecover = false → toClose = [])
      ∧ (∀ x ∈ toClose, ∃ st, s.fdToChannelStatus.get x = some st ∧ st.channel.first = addr)
      ∧ (isRecover = true → ∀ x ∈ fds, ∀ st, s.fdToChannelStatus.get x = some st →
        st.channel.first = addr → x ∈ toClose) := by
  replace h := partitionLoop_marks fds h
  induction h with
  | nil s =>
      exact ⟨.refl s, .refl _, fun _ => rfl, List.forall_mem_nil _, fun _ => List.forall_mem_nil _⟩
  | @other fd fds toClose s s' hother _ ih =>
      obtain ⟨hretag, hsub, hnil, hfirst, hall⟩ := ih
      refine ⟨hretag, hsub.cons fd, hnil, hfirst, fun hr x hx t ht htaddr => ?_⟩
      rcases List.mem_cons.mp hx with rfl | hx
      · exact absurd htaddr (hother t ht)
      · exact hall hr x hx t ht htaddr
  | @mark fd fds toClose s s' st hst haddr _ ih =>
      obtain ⟨hretag₁, hsub, hnil, hfirst, hall⟩ := ih
      have hretag := retagged_mark (K := K) s fd st.channel clearMsg isRecover
      -- marking changes tags only, so the keys to close are keys of before
      have hfirst' : ∀ x ∈ toClose, ∃ st, s.fdToChannelStatus.get x = some st
          ∧ st.channel.first = addr := by
        intro x hx
        obtain ⟨t, ht, htaddr⟩ := hfirst x hx
        obtain ⟨t₀, ht₀, hchannel, -⟩ := hretag.of_get ht
        exact ⟨t₀, ht₀, by rw [hchannel]; exact htaddr⟩
      cases isRecover with
      | true =>
          refine ⟨hretag.trans hretag₁, hsub.cons_cons fd, fun hf => absurd hf (by decide), ?_, ?_⟩
          · intro x hx
            rcases List.mem_cons.mp hx with rfl | hx
            · exact ⟨st, hst, haddr⟩
            · exact hfirst' x hx
          · intro _ x hx t ht htaddr
            rcases List.mem_cons.mp hx with rfl | hx
            · exact List.mem_cons_self ..
            · obtain ⟨t₁, ht₁, hchannel, -⟩ := hretag.symm.of_get ht
              refine List.mem_cons_of_mem _ (hall rfl x hx t₁ ht₁ ?_)
              rw [hchannel]
              exact htaddr
      | false =>
          exact ⟨hretag.trans hretag₁, hsub.cons fd, hnil, hfirst',
            fun ht => absurd ht (by decide)⟩

/-- Closing connections, no two of the descriptors being ends of the same one. -/
theorem settled_closeAll (fds : List Fd) :
    ∀ {s : Net (κ × List Fd)}, s.Consistent (audited K) → fds.Nodup →
      (∀ x ∈ fds, ∃ st, s.fdToChannelStatus.get x = some st ∧ s.heap st.fd ∉ fds) →
      Settled K F₀ s (s.closeAll (audited K) fds) := by
  induction fds with
  | nil =>
      intro s _ _ _
      exact .refl s
  | cons fd fds ih =>
      intro s hs hnodup hpeers
      obtain ⟨st, hst, hpeer⟩ := hpeers fd (List.mem_cons_self ..)
      obtain ⟨st', hp⟩ := hs.linked fd st hst
      rw [List.nodup_cons] at hnodup
      rw [List.mem_cons, not_or] at hpeer
      have hclosed := pairClosed_closeConnection (K := audited K) hst hp
      have hrest : Settled K F₀ (s.closeConnection (audited K) fd false)
          ((s.closeConnection (audited K) fd false).closeAll (audited K) fds) := by
        refine ih (hs.closePair hst) hnodup.2 fun x hx => ?_
        obtain ⟨t, ht, hpeer'⟩ := hpeers x (List.mem_cons_of_mem _ hx)
        obtain ⟨t', hq⟩ := hs.linked x t ht
        -- an end of another connection, so it is still there
        have hne : x ≠ fd := fun heq => hnodup.1 (heq ▸ hx)
        have hne' : x ≠ s.heap st.fd := fun heq => hpeer.2 (heq ▸ hx)
        obtain ⟨-, -, hcell, hcell', -, -⟩ := hp.disjoint hst hq hne hne'
        refine ⟨t, ?_, ?_⟩
        · rw [hclosed.get, if_neg (not_or.mpr ⟨hne, hne'⟩)]
          exact ht
        · rw [hclosed.heap _ hcell hcell']
          exact fun hmem => hpeer' (List.mem_cons_of_mem _ hmem)
      exact (settled_closePair hs hst).trans hrest

theorem settled_partition (s : Net (κ × List Fd)) (node : String) :
    Settled K F₀ s (s.partition (audited K) cfg node) := by
  rw [Net.partition, Net.partitionWith]
  dsimp only
  split
  · exact .refl s
  · cases hloop : s.partitionLoop (audited K) (cfg.getNodeAddr node) false false s.keys with
    | mk toClose s₁ =>
        obtain ⟨hretag, -, hnil, -, -⟩ := retagged_partitionLoop hloop
        rw [hnil rfl]
        exact hretag.settled

/-- A connection of the node with itself. -/
def Net.Loops (cfg : ConfigFile) (s : Net κ) (node : String) : Prop :=
  (cfg.getNodeAddr node).sinPort ≠ INVALID_PORT
    ∧ ∃ fd st, s.fdToChannelStatus.get fd = some st
      ∧ st.channel = ⟨cfg.getNodeAddr node, cfg.getNodeAddr node⟩

theorem settled_recover {s : Net (κ × List Fd)} (hs : s.Consistent (audited K)) {node : String}
    (hloops : ¬ s.Loops cfg node) : Settled K F₀ s (s.recover (audited K) cfg node) := by
  rw [Net.recover, Net.partitionWith]
  dsimp only
  by_cases hport : (cfg.getNodeAddr node).sinPort = INVALID_PORT
  · rw [if_pos hport]
    exact .refl s
  · rw [if_neg hport]
    cases hloop : s.partitionLoop (audited K) (cfg.getNodeAddr node) true true s.keys with
    | mk toClose s₁ =>
        obtain ⟨hretag, hsub, -, hfirst, -⟩ := retagged_partitionLoop hloop
        have hpath := (Path.partitionLoop (R := { Scope.plain with untag := True })
          (fun _ => trivial) hs.apart hloop).1
        have hs₁ := hs.path hpath
        refine hretag.settled.trans (settled_closeAll toClose hs₁ ?_ fun x hx => ?_)
        · exact ((Choose.smallest Fd).nodup_order _).sublist hsub
        · obtain ⟨st, hst, haddr⟩ := hfirst x hx
          obtain ⟨st₁, hst₁, hchannel, hfd⟩ := hretag.symm.of_get hst
          refine ⟨st₁, hst₁, fun hmem => ?_⟩
          -- the peer's channel starts at the node as well, so this one ends there
          obtain ⟨t, ht, htaddr⟩ := hfirst _ hmem
          obtain ⟨st', hp⟩ := hs.linked x st hst
          have hpeer := hp.peer
          rw [← hfd, ← hretag.heap, ht] at hpeer
          obtain rfl := Option.some.inj hpeer
          have hsecond : st.channel.second = cfg.getNodeAddr node := by
            rw [hp.channel_eq] at htaddr
            exact htaddr
          have hends : st.channel = ⟨st.channel.first, st.channel.second⟩ := rfl
          rw [haddr, hsecond] at hends
          exact hloops ⟨hport, x, st, hst, hends⟩

end Tmet.Tproxy
