import Tmet.Posix.Record
import Tmet.Posix.Stream
import Tmet.Proofs.Tproxy.Partition

/-!
# `Tmet.Proofs.Tproxy.Writing`: what `deliver_msg` makes of partial writes

The loop of `deliver_msg` counts down what is left of the body, but it never moves
on: each `write` is offered the first `left` bytes. What the socket accepts is then,
for each call, a beginning of the body.

`WritesOff left calls` lists what the calls of the loop can return, and
`writeLoop_writesOff` says that the loop does just that. `deliverTaken_exact_iff` is
the result: the body is written exactly when every piece that is accepted happens to
be equal to the part of the body it stands for, and an empty body does not meet -1 in
the variable `size`, which is read without having been set.
-/

set_option autoImplicit false

namespace Tmet.Tproxy

open Tmet.Lib Tmet.Posix

variable {κ : Type} {K : Kernel κ Ctl Addr} {cfg : ConfigFile}

/-! ### Bytes of a log -/

/-- The bytes of the event, if it is a write to `fd`. -/
def Event.sentOn (fd : Fd) : Event → Bytes
  | .wrote fd' _ data => if fd' = fd then data else []
  | .received _ _ _ => []

/-- All bytes that were written to `fd`. -/
def outgoing (fd : Fd) (log : List Event) : Bytes := log.flatMap (Event.sentOn fd)

@[simp] theorem outgoing_nil (fd : Fd) : outgoing fd [] = [] := rfl

@[simp] theorem outgoing_append (fd : Fd) (log log' : List Event) :
    outgoing fd (log ++ log') = outgoing fd log ++ outgoing fd log' := List.flatMap_append

@[simp] theorem outgoing_wrote (fd : Fd) (conn : Option ChannelStatus) (data : Bytes) :
    outgoing fd [.wrote fd conn data] = data := by
  simp [outgoing, Event.sentOn]

@[simp] theorem outgoing_received (fd fd' : Fd) (conn : Option ChannelStatus) (data : Bytes) :
    outgoing fd [.received fd' conn data] = [] := rfl

end Tmet.Tproxy

namespace Tmet.Posix

open Tmet.Lib

/-! ### Calls of `write` -/

namespace WriteCall

/-- How many bytes the call took. -/
def count (w : WriteCall) : ℕ :=
  match w.result with
  | .ok n => n
  | .error _ => 0

/-- The bytes the call took, `data` being what it was offered the beginning of. -/
def accepted (data : Bytes) (w : WriteCall) : Bytes := data.take w.count

@[simp] theorem count_ok (k n : ℕ) : (⟨k, .ok n⟩ : WriteCall).count = n := rfl

@[simp] theorem count_error (k : ℕ) (e : Errno) : (⟨k, .error e⟩ : WriteCall).count = 0 := rfl

@[simp] theorem failed_error (k : ℕ) (e : Errno) : (⟨k, .error e⟩ : WriteCall).Failed := ⟨e, rfl⟩

@[simp] theorem not_failed_ok (k n : ℕ) : ¬ (⟨k, .ok n⟩ : WriteCall).Failed := nofun

end WriteCall

/-- How many bytes the calls took together. -/
def taken (calls : List WriteCall) : ℕ := (calls.map WriteCall.count).sum

/-- What the calls took. -/
def acceptedBytes (data : Bytes) (calls : List WriteCall) : Bytes :=
  calls.flatMap (WriteCall.accepted data)

@[simp] theorem taken_cons (w : WriteCall) (calls : List WriteCall) :
    taken (w :: calls) = w.count + taken calls := rfl

@[simp] theorem acceptedBytes_cons (data : Bytes) (w : WriteCall) (calls : List WriteCall) :
    acceptedBytes data (w :: calls) = w.accepted data ++ acceptedBytes data calls := rfl

/-- What the calls of the loop return while `left` bytes are left: the loop goes on
until nothing is left or a call fails. -/
inductive WritesOff : ℕ → List WriteCall → Prop
  | done : WritesOff 0 []
  | failed {left : ℕ} {e : Errno} : left ≠ 0 → WritesOff left [⟨left, .error e⟩]
  | took {left n : ℕ} {calls : List WriteCall} :
      0 < n → n ≤ left → WritesOff (left - n) calls → WritesOff left (⟨left, .ok n⟩ :: calls)

/-- Nothing is taken twice, and all of it is taken if no call fails. -/
theorem WritesOff.taken_eq {left : ℕ} {calls : List WriteCall} (h : WritesOff left calls) :
    taken calls ≤ left ∧ ((∀ w ∈ calls, ¬ w.Failed) → taken calls = left) := by
  induction h with
  | done => exact ⟨le_rfl, fun _ => rfl⟩
  | failed _ =>
      refine ⟨Nat.zero_le _, fun h => ?_⟩
      exact absurd (WriteCall.failed_error _ _) (h _ List.mem_cons_self)
  | took hpos hle _ ih =>
      rw [taken_cons, WriteCall.count_ok]
      refine ⟨by omega, fun h => ?_⟩
      have hrest := ih.2 fun w hw => h w (List.mem_cons_of_mem _ hw)
      omega

theorem length_acceptedBytes {body : Bytes} (calls : List WriteCall)
    (hle : taken calls ≤ body.length) : (acceptedBytes body calls).length = taken calls := by
  induction calls with
  | nil => rfl
  | cons w calls ih =>
      rw [taken_cons] at hle ⊢
      rw [acceptedBytes_cons, List.length_append, ih (by omega), WriteCall.accepted,
        List.length_take]
      omega

/-- Each piece that is accepted from place `o` on is equal to the bytes of the body
there. -/
def Repeats (body : Bytes) : ℕ → List WriteCall → Prop
  | _, [] => True
  | o, w :: calls =>
      body.take w.count = (body.drop o).take w.count ∧ Repeats body (o + w.count) calls

/-- If the first call fails or takes everything, it is the only one, and no piece is repeated. -/
theorem WritesOff.repeats {body : Bytes} {left : ℕ} {calls : List WriteCall}
    (h : WritesOff left calls) (hfirst : ∀ w ∈ calls.head?, w.Failed ∨ w.count = left) :
    Repeats body 0 calls := by
  cases h with
  | done => trivial
  | failed _ => exact ⟨rfl, trivial⟩
  | @took _ n calls hpos _ hrest =>
      obtain hfailed | hcount := hfirst _ rfl
      · exact absurd hfailed (WriteCall.not_failed_ok _ _)
      · replace hcount : n = left := hcount
        rw [hcount, Nat.sub_self] at hrest
        cases hrest with
        | done => exact ⟨rfl, trivial⟩
        | failed hne => exact absurd rfl hne
        | took _ hle _ => omega

/-- The pieces together are the bytes of the body from `o` on, as far as they go. -/
theorem acceptedBytes_prefix_iff {body : Bytes} (calls : List WriteCall) {o : ℕ}
    (hle : o + taken calls ≤ body.length) :
    acceptedBytes body calls <+: body.drop o ↔ Repeats body o calls := by
  -- on the calls: the first one accounts for `w.count` bytes, the offset moves by them
  induction calls generalizing o with
  | nil => simp [acceptedBytes, Repeats]
  | cons w calls ih =>
      rw [taken_cons] at hle
      have hlen : (w.accepted body).length = w.count := by
        rw [WriteCall.accepted, List.length_take]
        omega
      rw [acceptedBytes_cons, Repeats, ← ih (by omega), List.prefix_iff_eq_take,
        List.length_append, hlen, List.take_add, @List.prefix_iff_eq_take _ _ (body.drop (o + w.count)),
        ← List.drop_drop]
      constructor
      · intro h
        have hlen' : (w.accepted body).length = ((body.drop o).take w.count).length := by
          rw [hlen, List.length_take, List.length_drop]
          omega
        exact List.append_inj h hlen'
      · rintro ⟨hfirst, hrest⟩
        rw [← hrest, ← hfirst]
        rfl

end Tmet.Posix

namespace Tmet.Tproxy

open Tmet.Lib Tmet.Posix

variable {κ : Type} {K : Kernel κ Ctl Addr} {cfg : ConfigFile}

/-! ### The loop -/

/-- What a write leaves in the log. -/
def wroteEvents (fd : Fd) (conn : Option ChannelStatus) (data : Bytes) : WriteResult → List Event
  | .ok n => [.wrote fd conn (data.take n)]
  | .error _ => []

/-- A write is recorded with its result, and what it took is logged. -/
theorem log_write_recording {s s₁ : Net (κ × List WriteCall)} {fd : Fd} {data : Bytes}
    {r : WriteResult} (h : s.write (recording K) fd data = (r, s₁)) :
    s₁.kernel.2 = s.kernel.2 ++ [⟨data.length, r⟩]
      ∧ s₁.log = s.log ++ wroteEvents fd (s.fdToChannelStatus.get fd) data r := by
  cases h
  refine ⟨rfl, ?_⟩
  show s.log ++ _ = s.log ++ wroteEvents fd _ data (K.write s.kernel.1 fd data).1
  congr 1

theorem write_recording {s s₁ : Net (κ × List WriteCall)} {fd : Fd} {data : Bytes}
    {r : WriteResult} (h : s.write (recording K) fd data = (r, s₁)) :
    s₁.kernel.2 = s.kernel.2 ++ [⟨data.length, r⟩]
      ∧ ∃ new, s₁.log = s.log ++ new
        ∧ outgoing fd new = (⟨data.length, r⟩ : WriteCall).accepted data := by
  obtain ⟨hcalls, hlog⟩ := log_write_recording h
  refine ⟨hcalls, _, hlog, ?_⟩
  cases r with
  | ok n => exact outgoing_wrote _ _ _
  | error e => rfl

/-- A close is no write. -/
theorem record_closeConnection (s : Net (κ × List WriteCall)) (fd : Fd) (tag : Bool) :
    (s.closeConnection (recording K) fd tag).kernel.2 = s.kernel.2 := by
  -- `close_connection` closes up to two descriptors, and neither is a write
  have hdoClose (s : Net (κ × List WriteCall)) (fd : Fd) :
      (s.doClose (recording K) fd).kernel.2 = s.kernel.2 := by
    rw [Net.doClose]
    cases s.fdToChannelStatus.get fd with
    | none => rfl
    | some st => rfl
  rw [Net.closeConnection]
  cases s.fdToChannelStatus.get fd with
  | none => cases tag <;> rfl
  | some st =>
      cases tag with
      | true => rfl
      | false =>
          show (Net.doClose (recording K) (Net.doClose (recording K) _ fd) _).kernel.2 = _
          rw [hdoClose, hdoClose]
          rfl

/-- The calls of the loop, what they take, and the value that it leaves in `size`. -/
theorem writeLoop_writesOff {fd : Fd} {body : Bytes} (fuel : ℕ) :
    ∀ {s s' : Net (κ × List WriteCall)} {left : ℕ} {size size' : ℤ}, left ≤ fuel →
      left ≤ body.length → s.writeLoop (recording K) fuel fd body left size = (size', s') →
      ∃ calls new, s'.kernel.2 = s.kernel.2 ++ calls ∧ s'.log = s.log ++ new
        ∧ outgoing fd new = acceptedBytes body calls ∧ WritesOff left calls
        ∧ (size' = -1 ↔ (∃ w ∈ calls, w.Failed) ∨ (left = 0 ∧ size = -1)) := by
  have hdone {s : Net (κ × List WriteCall)} {size : ℤ} :
      ∃ calls new, s.kernel.2 = s.kernel.2 ++ calls ∧ s.log = s.log ++ new
        ∧ outgoing fd new = acceptedBytes body calls ∧ WritesOff 0 calls
        ∧ (size = -1 ↔ (∃ w ∈ calls, w.Failed) ∨ (0 = 0 ∧ size = -1)) :=
    ⟨[], [], (List.append_nil _).symm, (List.append_nil _).symm, rfl, .done, by simp⟩
  induction fuel with
  | zero =>
      intro s s' left size size' hfuel _ h
      obtain rfl : left = 0 := by omega
      cases h
      exact hdone
  | succ fuel ih =>
      intro s s' left size size' hfuel hbody h
      rw [Net.writeLoop] at h
      by_cases hleft : left = 0
      · subst hleft
        cases h
        exact hdone
      · rw [if_neg hleft] at h
        have hlen : (body.take left).length = left := by
          rw [List.length_take]
          omega
        cases hw : s.write (recording K) fd (body.take left) with
        | mk r s₁ =>
            obtain ⟨hcalls, new, hnew, hout⟩ := write_recording hw
            rw [hlen] at hcalls hout
            rw [hw] at h
            cases r with
            | error e =>
                cases h
                exact ⟨_, new, hcalls, hnew, by simpa [acceptedBytes, WriteCall.accepted] using hout,
                  .failed hleft, by simp⟩
            | ok n =>
                have hresult : ((recording K).write s.kernel fd (body.take left)).1 = .ok n :=
                  congrArg Prod.fst hw
                have hle : n ≤ left := by
                  have hmax := (recording K).write_length hresult
                  rwa [hlen] at hmax
                have hpos : 0 < n := by
                  refine (recording K).write_pos hresult (List.ne_nil_of_length_pos ?_)
                  omega
                obtain ⟨calls, new', hcalls', hnew', hout', hoff, hsize⟩ :=
                  ih (by omega) (by omega) h
                refine ⟨⟨left, .ok n⟩ :: calls, new ++ new', ?_, ?_, ?_, .took hpos hle hoff, ?_⟩
                · rw [hcalls', hcalls, List.append_assoc]
                  rfl
                · rw [hnew', hnew, List.append_assoc]
                · rw [outgoing_append, hout, hout', acceptedBytes_cons, WriteCall.accepted,
                    WriteCall.accepted, WriteCall.count_ok, List.take_take, Nat.min_eq_left hle]
                · -- the number of bytes of a successful call is not -1
                  have hne : (n : ℤ) ≠ -1 := by omega
                  simp [hsize, hleft, hne]

/-! ### The body -/

/-- What `deliver_msg` is to do with the message `m` on a connection with the entry
`st`: the bytes that the socket accepts are a beginning of the body, they are the
whole body if no call fails, and the connection is closed (tagged, or gone from the
table) if and only if a call has failed. -/
structure DeliversExactly (K : Kernel κ Ctl Addr) (cfg : ConfigFile)
    (s : Net (κ × List WriteCall)) (m : Msg) (st : ChannelStatus) : Prop where
  isPrefix : outgoing (s.heap m.fd)
    ((s.deliverTaken (recording K) cfg m).log.drop s.log.length) <+: m.body
  whole : (∀ w ∈ (s.deliverTaken (recording K) cfg m).kernel.2, ¬ w.Failed) →
    outgoing (s.heap m.fd) ((s.deliverTaken (recording K) cfg m).log.drop s.log.length) = m.body
  closes : (s.deliverTaken (recording K) cfg m).fdToChannelStatus.get (s.heap m.fd) ≠ some st
    ↔ ∃ w ∈ (s.deliverTaken (recording K) cfg m).kernel.2, w.Failed

/-- `close_connection` on a connection that is not tagged changes its entry. -/
theorem get_closeConnection_ne {s : Net κ} {fd : Fd} {st : ChannelStatus}
    (hst : s.fdToChannelStatus.get fd = some st) (hopen : st.disconnected = false) (tag : Bool) :
    (s.closeConnection K fd tag).fdToChannelStatus.get fd ≠ some st := by
  intro hsame
  cases tag with
  | false =>
      rw [get_closeConnection_self] at hsame
      cases hsame
  | true =>
      have htagged := tagged_closeConnection hst (Or.inl rfl) hsame
      rw [hopen] at htagged
      cases htagged

/-- What `deliver_msg` does with a message on an open connection: the calls of its
loop, and whether it closes the connection. -/
theorem deliverTaken_writesOff {s : Net (κ × List WriteCall)} {m : Msg} {st : ChannelStatus}
    (hst : s.fdToChannelStatus.get (s.heap m.fd) = some st) (hopen : st.disconnected = false)
    (hlen : m.content.length = 8 + m.size) :
    ∃ calls, (s.deliverTaken (recording K) cfg m).kernel.2 = s.kernel.2 ++ calls
      ∧ outgoing (s.heap m.fd) ((s.deliverTaken (recording K) cfg m).log.drop s.log.length)
        = acceptedBytes m.body calls
      ∧ WritesOff m.size calls
      ∧ ((s.deliverTaken (recording K) cfg m).fdToChannelStatus.get (s.heap m.fd) ≠ some st
        ↔ (∃ w ∈ calls, w.Failed) ∨ (m.size = 0 ∧ K.garbage s.kernel.1 = -1)) := by
  have hbody : m.body.length = m.size := by
    rw [Msg.body, List.length_drop, hlen]
    omega
  rw [Net.deliverTaken, hst]
  dsimp only
  rw [hopen, if_neg (by decide)]
  cases hloop : s.writeLoop (recording K) m.size (s.heap m.fd) m.body m.size
      ((recording K).garbage s.kernel) with
  | mk size s₁ =>
      obtain ⟨calls, new, hcalls, hnew, hout, hoff, hsize⟩ :=
        writeLoop_writesOff m.size le_rfl hbody.ge hloop
      -- the loop leaves the tables alone, so the entry can only change in `close_connection`
      have hst₁ : s₁.fdToChannelStatus.get (s.heap m.fd) = some st := by
        rw [(Path.writeLoop (R := .delivering) trivial _ hloop hst hopen).2.fdToChannelStatus]
        exact hst
      have hdrop : s₁.log.drop s.log.length = new := by
        rw [hnew, List.drop_left]
      dsimp only
      refine ⟨calls, ?_, ?_, hoff, ?_⟩
      · split
        · rw [record_closeConnection]
          exact hcalls
        · exact hcalls
      · split
        · rw [(onlyTable_closeConnection s₁ (s.heap m.fd) (!cfg.isDirect)).log, hdrop, hout]
        · rw [hdrop, hout]
      · have hclose : size = -1
            ↔ (∃ w ∈ calls, w.Failed) ∨ (m.size = 0 ∧ K.garbage s.kernel.1 = -1) := hsize
        rw [← hclose]
        split
        · rename_i hfailed
          exact iff_of_true (get_closeConnection_ne hst₁ hopen _) hfailed
        · rename_i hok
          exact iff_of_false (not_not_intro hst₁) hok

/-- `deliver_msg` writes the body exactly if every piece that was accepted is equal to the
part of the body it stands for, and `size` does not happen to be -1 for an empty body. -/
theorem deliversExactly_of_repeats {s : Net (κ × List WriteCall)} {m : Msg} {st : ChannelStatus}
    (hrecord : s.kernel.2 = []) (hst : s.fdToChannelStatus.get (s.heap m.fd) = some st)
    (hopen : st.disconnected = false) (hlen : m.content.length = 8 + m.size)
    (hgarbage : m.size = 0 → K.garbage s.kernel.1 ≠ -1)
    (hrepeats : Repeats m.body 0 (s.deliverTaken (recording K) cfg m).kernel.2) :
    DeliversExactly K cfg s m st := by
  obtain ⟨calls, hcalls, hout, hoff, hcloses⟩ :=
    @deliverTaken_writesOff _ K cfg _ _ _ hst hopen hlen
  rw [hrecord, List.nil_append] at hcalls
  have hbody : m.body.length = m.size := by
    rw [Msg.body, List.length_drop, hlen]
    omega
  obtain ⟨htaken, hall⟩ := hoff.taken_eq
  rw [hcalls] at hrepeats
  have hpre : acceptedBytes m.body calls <+: m.body :=
    (acceptedBytes_prefix_iff calls (o := 0) (by omega)).mpr hrepeats
  refine ⟨hout ▸ hpre, fun hok => ?_, ?_⟩
  · rw [hcalls] at hok
    rw [hout]
    -- no call has failed, so as many bytes were accepted as the body has
    refine hpre.eq_of_length ?_
    rw [length_acceptedBytes calls (by omega), hall hok, hbody]
  · rw [hcloses, hcalls]
    constructor
    · rintro (hfailed | ⟨hempty, hneg⟩)
      · exact hfailed
      · exact absurd hneg (hgarbage hempty)
    · exact Or.inl

/-- `deliver_msg` writes the body exactly if and only if every piece that was accepted
is equal to the part of the body it stands for, and, for an empty body, the variable
`size` does not happen to be -1. -/
theorem deliverTaken_exact_iff (K : Kernel κ Ctl Addr) (cfg : ConfigFile)
    (s : Net (κ × List WriteCall)) (m : Msg) (st : ChannelStatus) (hrecord : s.kernel.2 = [])
    (hst : s.fdToChannelStatus.get (s.heap m.fd) = some st) (hopen : st.disconnected = false)
    (hlen : m.content.length = 8 + m.size) :
    DeliversExactly K cfg s m st
      ↔ (m.size = 0 → K.garbage s.kernel.1 ≠ -1)
        ∧ Repeats m.body 0 (s.deliverTaken (recording K) cfg m).kernel.2 := by
  refine ⟨?_, fun h => deliversExactly_of_repeats hrecord hst hopen hlen h.1 h.2⟩
  obtain ⟨calls, hcalls, hout, hoff, hcloses⟩ :=
    @deliverTaken_writesOff _ K cfg _ _ _ hst hopen hlen
  rw [hrecord, List.nil_append] at hcalls
  have hbody : m.body.length = m.size := by
    rw [Msg.body, List.length_drop, hlen]
    omega
  obtain ⟨htaken, -⟩ := hoff.taken_eq
  rintro ⟨hpre, -, hclose⟩
  rw [hout] at hpre
  rw [hcloses, hcalls] at hclose
  rw [hcalls]
  refine ⟨fun hempty hgarbage => ?_, (acceptedBytes_prefix_iff calls (o := 0) (by omega)).mp hpre⟩
  -- nothing is written of an empty body, so no call has failed
  obtain ⟨w, hw, -⟩ := hclose.mp (Or.inr ⟨hempty, hgarbage⟩)
  rw [hempty] at hoff
  cases hoff with
  | done => cases hw
  | failed hne => exact hne rfl
  | took hpos hle _ => omega

namespace Demo

/-- One connection, from 10.0.0.1 on descriptor 1 to 10.0.0.2 on descriptor 2. -/
def forward : ChannelStatus := ⟨⟨n1, n2⟩, 0, 1, false⟩

def backward : ChannelStatus := ⟨⟨n2, n1⟩, 1, 0, false⟩

/-- The connection over a kernel of streams, with what is in the receive queue of
descriptor 1 and whether it is tagged as unintercepted. -/
def linked (inbox : Bytes) (tagged : Finset Fd) : Net (Stream Addr × List WriteCall) where
  kernel := ({ fds := {1, 2}, backlog := [], sockname := none, dst := 1, segments := [],
               inbox := fun fd => if fd = 1 then inbox else [], raised := false,
               arrivals := [] }, [])
  fdToChannelStatus := (FinFn.empty.insert 1 forward).insert 2 backward
  network := .empty
  clientToFd := .empty
  fdToClient := .empty
  uninterceptedFd := tagged
  heap c := if c = 0 then 1 else 2
  nextCell := 2
  terminated := false
  log := []

/-- A message with a body of two bytes for 10.0.0.2. -/
def twoBytes : Msg := ⟨1, cmdFrame [65, 66], 2⟩

/-- A socket that takes one byte at a time gets the first byte twice. -/
theorem deliverTaken_exact_fails :
    ¬ ∀ (s : Net (Stream Addr × List WriteCall)) (m : Msg) (st : ChannelStatus),
      s.kernel.2 = [] → s.fdToChannelStatus.get (s.heap m.fd) = some st →
      st.disconnected = false → m.content.length = 8 + m.size →
      DeliversExactly (slowKernel Addr Ctl) config s m st := by
  intro hall
  have hexact := hall (linked [] ∅) twoBytes backward rfl rfl rfl (by decide)
  have hpref := hexact.isPrefix
  revert hpref
  decide

/-- One that takes the whole body gets it exactly. -/
theorem deliverTaken_exact_iff_linked :
    DeliversExactly (streamKernel Addr Ctl) config (linked [] ∅) twoBytes backward := by
  have hiff := deliverTaken_exact_iff (streamKernel Addr Ctl) config (linked [] ∅) twoBytes backward
    rfl rfl rfl (by decide)
  refine hiff.mpr ⟨fun hempty => absurd hempty (by decide), ?_, trivial⟩
  decide

end Demo

/-- A first `write` that fails or takes the whole body writes the body exactly. -/
theorem deliversExactly_of_first {s : Net (κ × List WriteCall)} {m : Msg} {st : ChannelStatus}
    (hrecord : s.kernel.2 = []) (hst : s.fdToChannelStatus.get (s.heap m.fd) = some st)
    (hopen : st.disconnected = false) (hlen : m.content.length = 8 + m.size)
    (hgarbage : m.size = 0 → K.garbage s.kernel.1 ≠ -1)
    (hfirst : ∀ w ∈ (s.deliverTaken (recording K) cfg m).kernel.2.head?,
      w.Failed ∨ w.count = m.size) : DeliversExactly K cfg s m st := by
  obtain ⟨calls, hcalls, -, hoff, -⟩ := @deliverTaken_writesOff _ K cfg _ _ _ hst hopen hlen
  rw [hrecord, List.nil_append] at hcalls
  refine deliversExactly_of_repeats hrecord hst hopen hlen hgarbage ?_
  rw [hcalls] at hfirst ⊢
  exact hoff.repeats hfirst

end Tmet.Tproxy
