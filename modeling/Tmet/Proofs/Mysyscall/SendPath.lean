import Tmet.Mysyscall.Sendto
import Tmet.Tproxy.Msg

/-!
# `Tmet.Proofs.Mysyscall.SendPath`: the stream the interposer produces

A call on a concerned descriptor puts a prefix of a header and then a prefix of
the caller's buffer on the wire. `Concerned.exec` says which, for the three
functions alike. Behind a decodable stream the piece of one call keeps the stream
decodable in exactly the cases of `SendCall.Clean` (`carries_piece_iff`). From
that, `stream_decodable_iff` settles whole sequences of calls.

`hack` stops a call only when the header send returns -1. After a header that was
accepted in part the buffer is sent all the same. After a header that was accepted
in full, a buffer that the kernel takes in part or refuses leaves a frame that
announces more than follows, and the retry of the caller starts with a header of
its own.
-/

set_option autoImplicit false

namespace Tmet.Mysyscall

open Tmet.Lib Tmet.Posix Tmet.Tproxy

/-! ### The outcome of one real send -/

/-- How many of `len` bytes the kernel takes. -/
def SendOutcome.taken : SendOutcome → ℕ → ℕ
  | .accepted n, len => min n len
  | .failed _, _ => 0

theorem SendOutcome.taken_le (out : SendOutcome) (len : ℕ) : out.taken len ≤ len := by
  cases out with
  | accepted n => exact Nat.min_le_right n len
  | failed e => exact Nat.zero_le len

/-- The prefix of `buf` that a return value counts. -/
def reportedPrefix (buf : Bytes) (ret : ℤ) : Bytes :=
  if ret = -1 then [] else buf.take ret.toNat

namespace Proc

/-- The tables that decide what is intercepted and concerned are the same. -/
structure SameSetup (s s' : Proc) : Prop where
  config : s'.config = s.config
  checkIntercept : ∀ nr, s'.checkIntercept nr = s.checkIntercept nr

theorem SameSetup.trans {s s' s'' : Proc} (h : SameSetup s s') (h' : SameSetup s' s'') :
    SameSetup s s'' :=
  ⟨h'.config.trans h.config, fun nr => (h'.checkIntercept nr).trans (h.checkIntercept nr)⟩

theorem sameSetup_realSendto (s : Proc) (fd : Fd) (buf : Bytes) (out : SendOutcome) :
    SameSetup s (s.realSendto fd buf out).2 := by
  cases out with
  | accepted n => exact ⟨rfl, fun _ => rfl⟩
  | failed e => exact ⟨rfl, fun _ => rfl⟩

theorem wire_realSendto (s : Proc) (fd : Fd) (buf : Bytes) (out : SendOutcome) :
    (s.realSendto fd buf out).2.wire fd = s.wire fd ++ buf.take (out.taken buf.length) := by
  cases out with
  | accepted n =>
      show Function.update s.wire fd (s.wire fd ++ buf.take n) fd = _
      rw [Function.update_self, SendOutcome.taken, List.take_eq_take_min]
  | failed e => simp [realSendto, SendOutcome.taken]

/-- A real send reports what it took. -/
theorem reportedPrefix_realSendto (s : Proc) (fd : Fd) (buf : Bytes) (out : SendOutcome) :
    reportedPrefix buf (s.realSendto fd buf out).1 = buf.take (out.taken buf.length) := by
  cases out with
  | accepted n =>
      have hret : ((min n buf.length : ℕ) : ℤ) ≠ -1 := by omega
      show reportedPrefix buf ((min n buf.length : ℕ) : ℤ) = buf.take (min n buf.length)
      rw [reportedPrefix, if_neg hret, Int.toNat_natCast]
  | failed e => rfl

theorem sameSetup_countIntercepted (s : Proc) (nr : Nr) : SameSetup s (s.countIntercepted nr) := by
  refine ⟨rfl, fun nr' => ?_⟩
  simp [countIntercepted, Proc.checkIntercept]

theorem sameSetup_logIntercepted (s : Proc) (nr : Nr) : SameSetup s (s.logIntercepted nr) := by
  rw [logIntercepted]
  split
  · refine ⟨rfl, fun nr' => ?_⟩
    simp [countConcerned, Proc.checkIntercept]
  · exact ⟨rfl, fun _ => rfl⟩

@[simp] theorem wire_logIntercepted (s : Proc) (nr : Nr) : (s.logIntercepted nr).wire = s.wire := by
  rw [logIntercepted]
  split <;> rfl

end Proc

open Proc

theorem sameSetup_sendtoEpilogue (s : Proc) (nr : Nr) (isConcerned : Bool) :
    SameSetup s (sendtoEpilogue s nr isConcerned) := by
  rw [sendtoEpilogue]
  split
  · have hcount := sameSetup_countIntercepted { s with savedErrno := s.errno } nr
    cases isConcerned with
    | false => exact ⟨hcount.config, hcount.checkIntercept⟩
    | true =>
        have hlog := hcount.trans (sameSetup_logIntercepted _ nr)
        exact ⟨hlog.config, hlog.checkIntercept⟩
  · exact ⟨rfl, fun _ => rfl⟩

@[simp] theorem wire_sendtoEpilogue (s : Proc) (nr : Nr) (isConcerned : Bool) :
    (sendtoEpilogue s nr isConcerned).wire = s.wire := by
  rw [sendtoEpilogue]
  split
  · cases isConcerned with
    | false => rfl
    | true => exact wire_logIntercepted _ nr
  · rfl

/-! ### What one call does to the stream -/

/-- `write` and `sendto` are intercepted, and `fd` is connected to a concerned
address: the test that `sendto` makes. -/
structure Concerned (fd : Fd) (s : Proc) : Prop where
  write : s.checkIntercept .sysWrite = true
  sendto : s.checkIntercept .sysSendto = true
  port : (s.config.checkFdIsConcernedWithAddr fd).sinPort ≠ 0

theorem Concerned.of_sameSetup {fd : Fd} {s s' : Proc} (h : Concerned fd s)
    (hs : SameSetup s s') : Concerned fd s' :=
  ⟨(hs.checkIntercept _).trans h.write, (hs.checkIntercept _).trans h.sendto, hs.config ▸ h.port⟩

namespace SendCall

/-- What a call reported as sent. -/
def reported (c : SendCall) (ret : ℤ) : Bytes := reportedPrefix c.buf ret

/-- The bytes that the header send of a call puts on the wire. -/
def headerSent (c : SendCall) : Bytes :=
  (hackedSendtoHeader c.buf.length).take (c.header.taken 8)

/-- The bytes of the buffer that a call puts on the wire: none, if the header send
fails. -/
def bodySent (c : SendCall) : Bytes :=
  match c.header with
  | .accepted _ => c.buf.take (c.body.taken c.buf.length)
  | .failed _ => []

end SendCall

@[simp] theorem length_hackedSendtoHeader (len : ℕ) : (hackedSendtoHeader len).length = 8 := by
  simp [hackedSendtoHeader]

/-- The effect of one call on a concerned descriptor. -/
structure Sent (c : SendCall) (fd : Fd) (s : Proc) (r : ℤ × Proc) : Prop where
  wire : r.2.wire fd = s.wire fd ++ (c.headerSent ++ c.bodySent)
  reported : c.reported r.1 = c.bodySent
  setup : SameSetup s r.2

/-- The test of `sendto` on an intercepted call: the descriptor is concerned, or the
destination is. -/
def TakesHeader (s : Proc) (fd : Fd) (dest : Option (Sockaddr × ℕ)) : Prop :=
  (decide ((s.config.checkFdIsConcernedWithAddr fd).sinPort ≠ 0)
    || dest.elim false fun d => s.config.checkAddrIsConcernedWithLen d.1 d.2) = true

instance (s : Proc) (fd : Fd) (dest : Option (Sockaddr × ℕ)) : Decidable (TakesHeader s fd dest) :=
  inferInstanceAs (Decidable (_ = true))

theorem TakesHeader.of_sameSetup {fd : Fd} {s s' : Proc} {dest : Option (Sockaddr × ℕ)}
    (h : TakesHeader s fd dest) (hs : SameSetup s s') : TakesHeader s' fd dest := by
  unfold TakesHeader
  rw [hs.config]
  exact h

/-- The number under which `sendto` counts a call. -/
def Proc.sendNr (s : Proc) : Nr := s.nrSendSyscall.getD .sysSendto

/-- The state once `sendto` has its number in the variable. -/
def Proc.withNr (s : Proc) : Proc := { s with nrSendSyscall := some s.sendNr }

/-- An intercepted `sendto`, by the result of the test and of the header send. -/
theorem sendto_of_enabled {s : Proc} (henabled : s.checkIntercept .sysSendto = true) (fd : Fd)
    (buf : Bytes) (dest : Option (Sockaddr × ℕ)) (header body : SendOutcome) :
    Mysyscall.sendto s fd buf dest header body
      = if TakesHeader s fd dest then
          let r := hack s.withNr fd buf.length header
          if r.1 = -1 then r
          else ((r.2.realSendto fd buf body).1,
            sendtoEpilogue (r.2.realSendto fd buf body).2 s.sendNr true)
        else ((s.withNr.realSendto fd buf body).1,
          sendtoEpilogue (s.withNr.realSendto fd buf body).2 s.sendNr false) := by
  rw [Mysyscall.sendto, henabled]
  rfl

/-- A header of which some was taken, however little, does not stop the call. -/
theorem hack_accepted_ne (s : Proc) (fd : Fd) (len n : ℕ) :
    (hack s fd len (.accepted n)).1 ≠ -1 := by
  show ((min n (hackedSendtoHeader len).length : ℕ) : ℤ) ≠ -1
  omega

/-- An intercepted `sendto` that passes the test. -/
theorem sendto_sent {fd : Fd} {s : Proc} (henabled : s.checkIntercept .sysSendto = true)
    (c : SendCall) {dest : Option (Sockaddr × ℕ)} (hdest : TakesHeader s fd dest) :
    Sent c fd s (Mysyscall.sendto s fd c.buf dest c.header c.body) := by
  rw [sendto_of_enabled henabled, if_pos hdest]
  dsimp only
  have hsetup₀ : SameSetup s s.withNr := ⟨rfl, fun _ => rfl⟩
  generalize hs₁ : hack s.withNr fd c.buf.length c.header = r₁
  have hsetup₁ : SameSetup s r₁.2 := by
    subst hs₁
    exact hsetup₀.trans (sameSetup_realSendto s.withNr fd _ c.header)
  have hwire₁ : r₁.2.wire fd = s.wire fd ++ c.headerSent := by
    subst hs₁
    rw [hack, wire_realSendto, length_hackedSendtoHeader]
    rfl
  cases hheader : c.header with
  | failed e =>
      -- the header was refused: the body is not tried
      have hret : r₁.1 = -1 := by
        rw [← hs₁, hheader]
        rfl
      have hbody : c.bodySent = [] := by rw [SendCall.bodySent, hheader]
      rw [if_pos hret]
      refine ⟨?_, ?_, hsetup₁⟩
      · rw [hbody, List.append_nil]
        exact hwire₁
      · rw [hbody, hret]
        rfl
  | accepted n =>
      -- some of the header was taken: the body follows
      have hret : r₁.1 ≠ -1 := by
        rw [← hs₁, hheader]
        exact hack_accepted_ne s.withNr fd c.buf.length n
      have hbody : c.bodySent = c.buf.take (c.body.taken c.buf.length) := by
        rw [SendCall.bodySent, hheader]
      rw [if_neg hret]
      refine ⟨?_, ?_, ?_⟩
      · show (sendtoEpilogue (r₁.2.realSendto fd c.buf c.body).2 s.sendNr true).wire fd = _
        rw [wire_sendtoEpilogue, wire_realSendto, hwire₁, hbody, List.append_assoc]
      · rw [hbody]
        exact reportedPrefix_realSendto r₁.2 fd c.buf c.body
      · exact (hsetup₁.trans (sameSetup_realSendto r₁.2 fd c.buf c.body)).trans
          (sameSetup_sendtoEpilogue _ s.sendNr true)

theorem Concerned.sendto_sent {fd : Fd} {s : Proc} (h : Concerned fd s) (c : SendCall)
    (dest : Option (Sockaddr × ℕ)) :
    Sent c fd s (Mysyscall.sendto s fd c.buf dest c.header c.body) := by
  refine Mysyscall.sendto_sent h.sendto c ?_
  unfold TakesHeader
  rw [decide_eq_true h.port, Bool.true_or]

/-- `write`, `send` and `sendto` do the same to the stream. -/
theorem Concerned.exec {fd : Fd} {s : Proc} (h : Concerned fd s) (c : SendCall) :
    Sent c fd s (c.exec fd s) := by
  -- `write` and `send` are a `sendto` with their number in the variable
  have hnr : ∀ nr, Concerned fd { s with nrSendSyscall := some nr } := fun nr =>
    h.of_sameSetup ⟨rfl, fun _ => rfl⟩
  rw [SendCall.exec]
  cases c.fn with
  | write =>
      have hfd := Config.checkFdIsConcerned_of_port h.port
      show Sent c fd s (Mysyscall.write s fd c.buf c.header c.body)
      rw [Mysyscall.write, h.write, hfd]
      obtain ⟨hwire, hrep, hsetup⟩ := (hnr .sysWrite).sendto_sent c none
      exact ⟨hwire, hrep, ⟨hsetup.config, hsetup.checkIntercept⟩⟩
  | send =>
      obtain ⟨hwire, hrep, hsetup⟩ := (hnr .libSend).sendto_sent c none
      exact ⟨hwire, hrep, ⟨hsetup.config, hsetup.checkIntercept⟩⟩
  | sendto dest => exact h.sendto_sent c dest

/-! ### Which pieces keep the stream decodable -/

/-- The kernel's outcomes for a call are harmless: the header send failed, or the
header was taken in full and then as much of the buffer as the header announces,
or nothing was taken at all. -/
def SendCall.Clean (c : SendCall) : Prop :=
  match c.header with
  | .failed _ => True
  | .accepted n =>
      8 ≤ n ∧ c.body.taken c.buf.length = c.buf.length % 2 ^ 32
        ∨ n = 0 ∧ c.body.taken c.buf.length = 0

/-- The header that `hack` sends, as the receiver's memory holds it. -/
def sentHeader (len : ℕ) : MsgHeader := ⟨hackedSendtoHeader len, length_hackedSendtoHeader len⟩

theorem validation_sentHeader (len : ℕ) : (sentHeader len).validation = VALIDATION_DATA := by
  show ofBigEndian ((bigEndian 4 VALIDATE_STR ++ bigEndian 4 len).take 4) = _
  rw [List.take_left' (length_bigEndian 4 _), ofBigEndian_bigEndian]
  rfl

theorem size_sentHeader (len : ℕ) : (sentHeader len).size = len % 2 ^ 32 := by
  have hroom : (256 : ℕ) ^ 4 = 2 ^ 32 := by norm_num
  show ofBigEndian ((bigEndian 4 VALIDATE_STR ++ bigEndian 4 len).drop 4) = _
  rw [List.drop_left' (length_bigEndian 4 _), ofBigEndian_bigEndian, hroom]

/-- The receiver accepts the header of the interposer, and reads the length modulo
`2 ^ 32` from it. -/
theorem size_hackedSendtoHeader (len : ℕ) :
    msgFraming.size (hackedSendtoHeader len) = some (len % 2 ^ 32) := by
  have hvalid := (packetValidation_iff (h := sentHeader len) (show 4 ≤ 8 by decide)).mpr
    (validation_sentHeader len)
  show msgFraming.size (sentHeader len).bytes = _
  rw [msgFraming_size, if_pos hvalid, size_sentHeader]

/-- The piece of one call carries what the call reports, exactly for the harmless
outcomes. -/
theorem carries_piece_iff (c : SendCall) :
    msgFraming.Carries (c.headerSent ++ c.bodySent) c.bodySent ↔ c.Clean := by
  -- at most one header's worth of bytes precedes the body
  have hshort : c.headerSent.length ≤ msgFraming.headerLen := by
    show ((hackedSendtoHeader c.buf.length).take _).length ≤ 8
    rw [List.length_take, length_hackedSendtoHeader]
    exact Nat.min_le_right _ 8
  rw [Framing.carries_short_iff hshort, SendCall.Clean]
  cases hheader : c.header with
  | failed e => simp [SendCall.headerSent, SendCall.bodySent, hheader, SendOutcome.taken]
  | accepted n =>
      have hbody : c.bodySent = c.buf.take (c.body.taken c.buf.length) := by
        rw [SendCall.bodySent, hheader]
      have hbodyLen : c.bodySent.length = c.body.taken c.buf.length := by
        rw [hbody, List.length_take]
        exact Nat.min_eq_left (c.body.taken_le _)
      have hheaderSent : c.headerSent = (hackedSendtoHeader c.buf.length).take (min n 8) := by
        rw [SendCall.headerSent, hheader, SendOutcome.taken]
      have hlen : c.headerSent.length = min n 8 := by
        rw [hheaderSent, List.length_take, length_hackedSendtoHeader]
        omega
      have hfull : 8 ≤ n → c.headerSent = hackedSendtoHeader c.buf.length := by
        intro hn
        rw [hheaderSent, List.take_of_length_le]
        rw [length_hackedSendtoHeader]
        omega
      show c.headerSent = [] ∧ c.bodySent = [] ∨ c.headerSent.length = 8
          ∧ msgFraming.size c.headerSent = some c.bodySent.length ↔ _
      rw [← List.length_eq_zero_iff, ← List.length_eq_zero_iff, hlen, hbodyLen]
      -- nothing of either was taken, or all of the header and the size it says
      constructor
      · rintro (⟨hn, htaken⟩ | ⟨hn, hsize⟩)
        · exact Or.inr ⟨by omega, htaken⟩
        · rw [hfull (by omega), size_hackedSendtoHeader] at hsize
          exact Or.inl ⟨by omega, (Option.some.inj hsize).symm⟩
      · rintro (⟨hn, htaken⟩ | ⟨hn, htaken⟩)
        · refine Or.inr ⟨by omega, ?_⟩
          rw [hfull hn, size_hackedSendtoHeader, htaken]
        · exact Or.inl ⟨by omega, htaken⟩

/-! ### Sequences of calls -/

/-- The bytes that the calls reported as sent, in order. -/
def reportedAll : List SendCall → List ℤ → Bytes
  | c :: cs, ret :: rets => c.reported ret ++ reportedAll cs rets
  | _, _ => []

/-- After the calls, the bytes on the wire are complete frames whose bodies are
what the calls reported as sent. -/
def Decodable (fd : Fd) (s : Proc) (cs : List SendCall) : Prop :=
  msgFraming.Carries ((execAll fd cs s).2.wire fd) (reportedAll cs (execAll fd cs s).1)

instance (fd : Fd) (s : Proc) (cs : List SendCall) : Decidable (Decodable fd s cs) :=
  inferInstanceAs (Decidable (msgFraming.Carries _ _))

/-- The induction behind `stream_decodable_iff`: the stream already carries what
was reported before. -/
theorem carries_execAll_iff {fd : Fd} (cs : List SendCall) :
    ∀ {s : Proc} {sent : Bytes}, Concerned fd s → msgFraming.Carries (s.wire fd) sent →
      ((∀ pre, pre <+: cs → msgFraming.Carries ((execAll fd pre s).2.wire fd)
          (sent ++ reportedAll pre (execAll fd pre s).1))
        ↔ ∀ c ∈ cs, c.Clean) := by
  induction cs with
  | nil =>
      intro s sent _ hsent
      constructor
      · intro _ c hc
        cases hc
      · intro _ pre hpre
        rw [List.prefix_nil.mp hpre]
        simpa [execAll, reportedAll] using hsent
  | cons c cs ih =>
      intro s sent hs hsent
      have hone := hs.exec c
      have hs' : Concerned fd (c.exec fd s).2 := hs.of_sameSetup hone.setup
      -- the piece of the first call
      have hfirst : msgFraming.Carries ((c.exec fd s).2.wire fd) (sent ++ c.bodySent) ↔ c.Clean := by
        rw [hone.wire, Framing.carries_append_iff hsent, carries_piece_iff]
      have hreported : c.reported (c.exec fd s).1 = c.bodySent := hone.reported
      constructor
      · intro hall
        have hc := hall [c] (by simp)
        simp only [execAll, reportedAll, hreported, List.append_nil] at hc
        have hrest := (ih hs' hc).mp fun pre hpre => by
          have := hall (c :: pre) ((List.prefix_cons_inj c).mpr hpre)
          simpa only [execAll, reportedAll, hreported, List.append_assoc] using this
        intro x hx
        rcases List.mem_cons.mp hx with rfl | hx
        · exact hfirst.mp hc
        · exact hrest x hx
      · intro hclean pre hpre
        have hc := hfirst.mpr (hclean c (by simp))
        rcases List.prefix_cons_iff.mp hpre with rfl | ⟨pre', rfl, hpre'⟩
        · simpa [execAll, reportedAll] using hsent
        · have := (ih hs' hc).mpr (fun x hx => hclean x (by simp [hx])) pre' hpre'
          simpa only [execAll, reportedAll, hreported, List.append_assoc] using this

/-- On a concerned descriptor that nothing was sent on yet, the stream is decodable
after every call, to exactly what was reported as sent, if and only if the kernel's
outcomes for each call are harmless. -/
theorem stream_decodable_iff {fd : Fd} {s : Proc} (hs : Concerned fd s) (hwire : s.wire fd = [])
    (cs : List SendCall) :
    (∀ pre, pre <+: cs → Decodable fd s pre) ↔ ∀ c ∈ cs, c.Clean := by
  have hnil : msgFraming.Carries (s.wire fd) [] := ⟨[], hwire ▸ .nil, rfl⟩
  exact carries_execAll_iff cs hs hnil

/-! ### A retried write -/

/-- A process whose descriptor 3 is connected to 10.0.0.2:80. -/
def connected : Proc where
  config :=
    { fdMap := fun fd => if fd = 3 then some ⟨AF_INET, 0x5000, 0x0200000a⟩ else none
      concernAddrSet := {(0x0200000a, 0x5000)}
      subnetSuffix := ∅ }
  regFuncDict _ := .intercepted
  nrSendSyscall := none
  errno := 0
  savedErrno := 0
  wire _ := []

theorem concerned_connected : Concerned 3 connected := ⟨rfl, rfl, by decide⟩

/-- One byte is written. The header goes out, the byte does not fit any more, and
the program tries again. -/
def retriedWrite : List SendCall :=
  [⟨.write, [65], .accepted 8, .failed EAGAIN⟩, ⟨.write, [65], .accepted 8, .accepted 1⟩]

/-- The second header is the body of the first. -/
theorem stream_decodable_fails :
    Concerned 3 connected ∧ connected.wire 3 = [] ∧ ¬ Decodable 3 connected retriedWrite :=
  ⟨concerned_connected, rfl, by decide⟩

theorem stream_decodable_iff_retriedWrite :
    (∀ pre, pre <+: retriedWrite → Decodable 3 connected pre) ↔ ∀ c ∈ retriedWrite, c.Clean :=
  stream_decodable_iff concerned_connected rfl retriedWrite

end Tmet.Mysyscall
