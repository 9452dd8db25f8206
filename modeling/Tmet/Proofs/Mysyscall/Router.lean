import Tmet.Mysyscall.Router
import Tmet.Tproxy.Msg

/-!
# `Tmet.Proofs.Mysyscall.Router`: the commands that the client gets

The stream is a sequence of commands, each with its header. `doRouterCmd_frame` is one
pass of the loop on a buffer to which `header` still points. `commands_iff` says, from
that, for which sequences the loop gets the tokens of each command, whatever the freed
memory holds.

A command of 1024 bytes or more is read correctly itself, but it moves the buffer: the
next header is looked for in freed memory (`doRouterCmd_moved`). With 2^32 bytes or more
the length does not fit in the header (`commands_ne_of_wraps`), and `inc_time_ns` with
something that is no number ends the process.
-/

set_option autoImplicit false

namespace Tmet.Mysyscall

open Tmet.Lib Tmet.Posix Tmet.Tproxy

/-! ### The buffer -/

namespace CmdBuffer

/-- `header` points to the front, and the buffer has its first length. -/
structure Fresh (b : CmdBuffer) : Prop where
  moved : b.moved = false
  length : b.bytes.length = 1024

theorem fresh_start : start.Fresh := ⟨rfl, List.length_replicate⟩

theorem length_store {b : CmdBuffer} {data : Bytes} (h : data.length ≤ b.bytes.length) :
    (b.store data).bytes.length = b.bytes.length := by
  rw [store, List.length_append, List.length_drop]
  omega

theorem lt_length_reserve (b : CmdBuffer) (size : ℕ) : size < (b.reserve size).bytes.length := by
  rw [reserve]
  split
  · rw [List.length_append, List.length_replicate]
    omega
  · omega

/-- The buffer after a command. -/
def next (b : CmdBuffer) (header body : Bytes) (size : ℕ) : CmdBuffer :=
  (((b.store header).reserve size).store body).terminate body.length

theorem Fresh.length_store {b : CmdBuffer} (hb : b.Fresh) {data : Bytes}
    (hdata : data.length ≤ 1024) : (b.store data).bytes.length = 1024 := by
  rw [CmdBuffer.length_store (by rw [hb.length]; exact hdata), hb.length]

theorem moved_next {b : CmdBuffer} (hb : b.Fresh) {header body : Bytes} {size : ℕ}
    (hheader : header.length = 8) (hsize : 1024 ≤ size) :
    (b.next header body size).moved = true := by
  have hlen : (b.store header).bytes.length = 1024 := hb.length_store (by omega)
  show ((b.store header).reserve size).moved = true
  rw [reserve, if_pos (by rw [hlen]; exact hsize)]

theorem Fresh.next {b : CmdBuffer} (hb : b.Fresh) {header body : Bytes} {size : ℕ}
    (hheader : header.length = 8) (hsize : size < 1024) (hbody : body.length ≤ size) :
    (b.next header body size).Fresh := by
  have hlen : (b.store header).bytes.length = 1024 := hb.length_store (by omega)
  have hreserve : (b.store header).reserve size = b.store header := by
    rw [reserve, if_neg (by rw [hlen]; omega)]
  rw [CmdBuffer.next, hreserve]
  refine ⟨hb.moved, ?_⟩
  show (((b.store header).store body).bytes.set body.length 0).length = 1024
  rw [List.length_set, CmdBuffer.length_store (by rw [hlen]; omega), hlen]

/-- The body is read back up to the zero behind it. -/
theorem getTokens_bytes_next (b : CmdBuffer) {header body : Bytes} {size : ℕ}
    (hbody : body.length ≤ size) :
    Router.getTokens (b.next header body size).bytes = Router.getTokens body := by
  have hroom := lt_length_reserve (b.store header) size
  -- the buffer is longer than the body, so the zero finds room behind it
  have hbytes : ∃ behind, (b.next header body size).bytes = body ++ 0 :: behind := by
    show ∃ behind, (body ++ ((b.store header).reserve size).bytes.drop body.length).set body.length 0
      = body ++ 0 :: behind
    cases hdrop : ((b.store header).reserve size).bytes.drop body.length with
    | nil =>
        have hlen := congrArg List.length hdrop
        rw [List.length_drop, List.length_nil] at hlen
        omega
    | cons x behind => exact ⟨behind, by simp⟩
  obtain ⟨behind, hbytes⟩ := hbytes
  -- what is behind the zero is left from commands of before
  have htext : (body ++ 0 :: behind).takeWhile (· ≠ 0) = body.takeWhile (· ≠ 0) := by
    rw [List.takeWhile_append]
    split
    · rename_i hall
      have hself : body.takeWhile (· ≠ 0) = body :=
        (List.takeWhile_prefix _).eq_of_length hall
      rw [hself]
      simp
    · rfl
  rw [Router.getTokens, Router.getTokens, hbytes, htext]

/-- Without a zero byte, that is all of it. -/
theorem getTokens_of_notMem {body : Bytes} (hzero : (0 : UInt8) ∉ body) :
    Router.getTokens body = tokensOf 0x20 0x23 body := by
  have hall : body.takeWhile (· ≠ 0) = body := by
    refine List.takeWhile_eq_self_iff.mpr fun x hx => ?_
    have hne : x ≠ 0 := fun h => hzero (h ▸ hx)
    simpa using hne
  rw [Router.getTokens, hall]

theorem getTokens_next (b : CmdBuffer) {header body : Bytes} {size : ℕ} (hbody : body.length ≤ size)
    (hzero : (0 : UInt8) ∉ body) :
    Router.getTokens (b.next header body size).bytes = tokensOf 0x20 0x23 body := by
  rw [b.getTokens_bytes_next hbody, getTokens_of_notMem hzero]

end CmdBuffer

/-! ### The header -/

/-- The header that `send_cmd` puts before a command, in memory. -/
def cmdHeader (len : ℕ) : Bytes := bigEndian 4 VALIDATION_DATA ++ bigEndian 4 len

theorem length_cmdHeader (len : ℕ) : (cmdHeader len).length = 8 := by simp [cmdHeader]

/-- Both programs use the same number. -/
theorem headerValidation_cmdHeader (len : ℕ) (behind : Bytes) :
    headerValidation (cmdHeader len ++ behind) = VALIDATE_STR := by
  have htake : (cmdHeader len ++ behind).take 4 = bigEndian 4 VALIDATION_DATA := by
    rw [cmdHeader, List.append_assoc]
    exact List.take_left' (length_bigEndian 4 _)
  rw [headerValidation, htake, ofBigEndian_bigEndian]
  rfl

theorem headerSize_cmdHeader (len : ℕ) (behind : Bytes) :
    headerSize (cmdHeader len ++ behind) = len % 2 ^ 32 := by
  have hdrop : (cmdHeader len ++ behind).drop 4 = bigEndian 4 len ++ behind := by
    rw [cmdHeader, List.append_assoc]
    exact List.drop_left' (length_bigEndian 4 _)
  have hpow : 256 ^ 4 = 2 ^ 32 := by decide
  rw [headerSize, hdrop, List.take_left' (length_bigEndian 4 len), ofBigEndian_bigEndian, hpow]

namespace Router

/-! ### One pass -/

/-- What a pass does with the tokens of the body. -/
def finishPass (stale : ℕ → Bytes) (pass : ℕ) (b : CmdBuffer) (t : Timing) (rest : Bytes)
    (tokens : List Bytes) : RouterRun :=
  match tokens with
  | [] => doRouterCmd stale (pass + 1) b t rest
  | token :: tokens =>
      match call (token :: tokens) t with
      | none => ⟨[token :: tokens], t, .terminated⟩
      | some t => (doRouterCmd stale (pass + 1) b t rest).cons (token :: tokens)

/-- A pass on a fresh buffer takes as many bytes as the header says. -/
theorem doRouterCmd_frame (stale : ℕ → Bytes) (pass : ℕ) {b : CmdBuffer} (hb : b.Fresh) (t : Timing)
    (len : ℕ) (behind : Bytes) :
    doRouterCmd stale pass b t (cmdHeader len ++ behind)
      = if behind.take (len % 2 ^ 32) = [] then ⟨[], t, .closed⟩
        else
          let b' := b.next (cmdHeader len) (behind.take (len % 2 ^ 32)) (len % 2 ^ 32)
          finishPass stale pass b' t (behind.drop (len % 2 ^ 32)) (getTokens b'.bytes) := by
  have hne : cmdHeader len ++ behind ≠ [] := by
    intro hnil
    have hlen := congrArg List.length hnil
    rw [List.length_append, length_cmdHeader, List.length_nil] at hlen
    omega
  have htake : (cmdHeader len ++ behind).take 8 = cmdHeader len :=
    List.take_left' (length_cmdHeader len)
  have hdrop : (cmdHeader len ++ behind).drop 8 = behind :=
    List.drop_left' (length_cmdHeader len)
  -- `header` points to the bytes that were just stored
  have hheader : (b.store (cmdHeader len)).header (stale pass)
      = cmdHeader len ++ b.bytes.drop (cmdHeader len).length :=
    if_neg (by rw [CmdBuffer.store, hb.moved]; decide)
  rw [doRouterCmd, if_neg hne]
  simp only [htake, hdrop, hheader, headerValidation_cmdHeader, headerSize_cmdHeader, ne_eq,
    not_true_eq_false, if_false]
  rfl

/-- On a buffer that has moved the header is what the freed memory holds. -/
theorem doRouterCmd_moved {b : CmdBuffer} (hb : b.moved = true) {stale : ℕ → Bytes} {pass : ℕ}
    (hstale : headerValidation (stale pass) ≠ VALIDATE_STR) (t : Timing) {stream : Bytes}
    (hne : stream ≠ []) : doRouterCmd stale pass b t stream = ⟨[], t, .terminated⟩ := by
  have hheader : (b.store (stream.take 8)).header (stale pass) = stale pass := if_pos hb
  rw [doRouterCmd, if_neg hne]
  simp only [hheader, if_pos hstale]

/-- The freed memory may hold zeros. -/
def zeros (_ : ℕ) : Bytes := List.replicate 8 0

theorem invalid_zeros (pass : ℕ) : headerValidation (zeros pass) ≠ VALIDATE_STR := by
  simp [zeros, headerValidation, ofBigEndian, VALIDATE_STR]

theorem doRouterCmd_nil (stale : ℕ → Bytes) (pass : ℕ) (b : CmdBuffer) (t : Timing) :
    doRouterCmd stale pass b t [] = ⟨[], t, .closed⟩ := by
  rw [doRouterCmd, if_pos rfl]

/-! ### One command -/

/-- The words of a command, as they are sent. -/
def joined (ws : List Bytes) : Bytes := [0x20].intercalate ws

/-- Words as both sides tokenise them, without a zero byte. -/
structure IsCommand (ws : List Bytes) : Prop where
  ne_nil : ws ≠ []
  isWord : ∀ w ∈ ws, IsWord 0x20 0x23 w
  no_zero : ∀ w ∈ ws, 0 ∉ w

/-- The command is `inc_time_ns` with an argument on which `stoi` throws. -/
def Throws (ws : List Bytes) : Prop :=
  ∃ cmd ns more, ws = cmd :: ns :: more ∧ textOf cmd = "inc_time_ns" ∧ stoi ns = none

theorem call_eq_none_iff {ws : List Bytes} {t : Timing} : call ws t = none ↔ Throws ws := by
  constructor
  · intro hcall
    rw [call] at hcall
    split at hcall
    · rename_i hname
      match ws, hname, hcall with
      | [_], _, hcall => cases hcall
      | cmd :: ns :: more, hname, hcall =>
          refine ⟨cmd, ns, more, rfl, by simpa using hname, ?_⟩
          simpa [incTimeNs] using hcall
    · cases hcall
  · rintro ⟨cmd, ns, more, rfl, hname, hns⟩
    rw [call, if_pos (by simp [hname]), incTimeNs, hns]
    rfl

theorem IsCommand.tokens {ws : List Bytes} (h : IsCommand ws) :
    tokensOf 0x20 0x23 (joined ws) = ws := tokensOf_intercalate h.isWord

theorem IsCommand.zero_notMem {ws : List Bytes} (h : IsCommand ws) : 0 ∉ joined ws := by
  intro hmem
  obtain ⟨w, hw, hzero⟩ := mem_of_mem_intercalate (by decide) hmem
  exact h.no_zero w hw hzero

/-- A command begins with a character of its first word. -/
theorem IsCommand.joined_eq_cons {ws : List Bytes} (h : IsCommand ws) :
    ∃ x text, joined ws = x :: text ∧ x ≠ 0x20 ∧ x ≠ 0x23 := by
  -- the first character of the first word; `#` would start a comment
  match ws, h with
  | [], h => exact absurd rfl h.ne_nil
  | w :: ws, h =>
      have hw := h.isWord w (by simp)
      have hfirst : w <+: joined (w :: ws) := prefix_intercalate w ws
      obtain ⟨behind, hbehind⟩ := hfirst
      match w, hw, hbehind with
      | [], hw, _ => exact absurd rfl hw.ne_nil
      | x :: w, hw, hbehind =>
          refine ⟨x, w ++ behind, hbehind.symm, ?_, ?_⟩
          · rintro rfl
            exact hw.no_space (by simp)
          · rintro rfl
            exact hw.no_comment rfl

theorem IsCommand.length_pos {ws : List Bytes} (h : IsCommand ws) : 0 < (joined ws).length := by
  obtain ⟨x, text, hjoined, -, -⟩ := h.joined_eq_cons
  rw [hjoined]
  exact Nat.succ_pos _

/-- What `send_cmd` writes for the words. -/
def frame (ws : List Bytes) : Bytes := cmdFrame (joined ws)

theorem frame_append (ws : List Bytes) (rest : Bytes) :
    frame ws ++ rest = cmdHeader (joined ws).length ++ (joined ws ++ rest) := by
  rw [frame, cmdFrame, cmdHeader, List.append_assoc _ (joined ws)]

/-- A pass on a fresh buffer gets the tokens of a frame, if its length fits in the header. -/
theorem doRouterCmd_content (stale : ℕ → Bytes) (pass : ℕ) {b : CmdBuffer} (hb : b.Fresh)
    (t : Timing) {content : Bytes} (hne : content ≠ []) (hlen : content.length < 2 ^ 32)
    (rest : Bytes) :
    doRouterCmd stale pass b t (cmdFrame content ++ rest)
      = finishPass stale pass (b.next (cmdHeader content.length) content content.length) t rest
          (getTokens content) := by
  have hframe : cmdFrame content ++ rest = cmdHeader content.length ++ (content ++ rest) := by
    rw [cmdFrame, cmdHeader, List.append_assoc _ content]
  have hbody : (content ++ rest).take content.length = content := List.take_left
  have hrest : (content ++ rest).drop content.length = rest := List.drop_left
  rw [hframe, doRouterCmd_frame stale pass hb, Nat.mod_eq_of_lt hlen, hbody, hrest, if_neg hne]
  dsimp only
  rw [b.getTokens_bytes_next le_rfl]

/-- The buffer after a command. -/
def after (b : CmdBuffer) (ws : List Bytes) : CmdBuffer :=
  b.next (cmdHeader (joined ws).length) (joined ws) (joined ws).length

/-- A pass on a fresh buffer gets the command, if its length fits in the header. -/
theorem doRouterCmd_command (stale : ℕ → Bytes) (pass : ℕ) {b : CmdBuffer} (hb : b.Fresh)
    (t : Timing) {ws : List Bytes} (hws : IsCommand ws) (hlen : (joined ws).length < 2 ^ 32)
    (rest : Bytes) :
    doRouterCmd stale pass b t (frame ws ++ rest)
      = finishPass stale pass (after b ws) t rest ws := by
  have hne : joined ws ≠ [] := List.ne_nil_of_length_pos hws.length_pos
  have htokens : getTokens (joined ws) = ws := by
    rw [CmdBuffer.getTokens_of_notMem hws.zero_notMem, hws.tokens]
  have hpass := doRouterCmd_content stale pass hb t hne hlen rest
  rw [htokens] at hpass
  exact hpass

/-- The tokens of a pass that has got some. -/
theorem commands_finishPass (stale : ℕ → Bytes) (pass : ℕ) (b : CmdBuffer) (t : Timing)
    (rest : Bytes) {tokens : List Bytes} (hne : tokens ≠ []) :
    ∃ more, (finishPass stale pass b t rest tokens).commands = tokens :: more := by
  cases tokens with
  | nil => exact absurd rfl hne
  | cons token tokens =>
      rw [finishPass]
      cases call (token :: tokens) t with
      | none => exact ⟨[], rfl⟩
      | some t => exact ⟨_, rfl⟩

/-- The length of a longer command does not fit. The loop takes too little for it, and
gets other tokens or none. -/
theorem commands_ne_of_wraps (stale : ℕ → Bytes) (pass : ℕ) {b : CmdBuffer} (hb : b.Fresh)
    (t : Timing) {ws : List Bytes} (hws : IsCommand ws) (hlen : 2 ^ 32 ≤ (joined ws).length)
    (rest : Bytes) (cmds : List (List Bytes)) :
    (doRouterCmd stale pass b t (frame ws ++ rest)).commands ≠ ws :: cmds := by
  have hsize : (joined ws).length % 2 ^ 32 < (joined ws).length :=
    (Nat.mod_lt _ (by decide)).trans_le hlen
  rw [frame_append, doRouterCmd_frame stale pass hb]
  generalize (joined ws).length % 2 ^ 32 = size at hsize
  have hbody : (joined ws ++ rest).take size = (joined ws).take size :=
    List.take_append_of_le_length hsize.le
  rw [hbody]
  split
  · exact (List.cons_ne_nil ws cmds).symm
  · rename_i hne
    have hbodyLen : ((joined ws).take size).length ≤ size := List.length_take_le _ _
    have hzero : 0 ∉ (joined ws).take size := fun h => hws.zero_notMem (List.mem_of_mem_take h)
    dsimp only
    rw [b.getTokens_next hbodyLen hzero]
    -- what is taken begins like a word, so there is a token
    have htoken : tokensOf 0x20 0x23 ((joined ws).take size) ≠ [] := by
      obtain ⟨x, text, hjoined, hspace, hcomment⟩ := hws.joined_eq_cons
      rw [hjoined] at hne ⊢
      cases size with
      | zero => exact absurd List.take_zero hne
      | succ size => exact tokensOf_cons_ne_nil hspace hcomment (text.take size)
    obtain ⟨more, hmore⟩ := commands_finishPass stale pass
      (b.next (cmdHeader (joined ws).length) ((joined ws).take size) size) t
      ((joined ws ++ rest).drop size) htoken
    rw [hmore]
    intro heq
    -- but the tokens of so few bytes are not all of the words
    have htokens := (List.cons.inj heq).1
    have hshort := length_intercalate_tokensOf 0x20 0x23 ((joined ws).take size)
    rw [htokens] at hshort
    have hjoined : (joined ws).length ≤ ((joined ws).take size).length := hshort
    omega

/-! ### All commands -/

theorem commands_of_throws {ws : List Bytes} (h : Throws ws) (stale : ℕ → Bytes) (pass : ℕ)
    (b : CmdBuffer) (t : Timing) (rest : Bytes) :
    (finishPass stale pass b t rest ws).commands = [ws] := by
  have hcall : call ws t = none := call_eq_none_iff.mpr h
  obtain ⟨cmd, ns, more, rfl, -, -⟩ := h
  rw [finishPass, hcall]

/-- The clock after a command that does not throw. -/
def clockAfter (ws : List Bytes) (t : Timing) : Timing := (call ws t).getD t

/-- The loop goes on after a command that does not throw. -/
theorem commands_of_not_throws {ws : List Bytes} (hne : ws ≠ []) (h : ¬ Throws ws)
    (stale : ℕ → Bytes) (pass : ℕ) (b : CmdBuffer) (t : Timing) (rest : Bytes) :
    (finishPass stale pass b t rest ws).commands
      = ws :: (doRouterCmd stale (pass + 1) b (clockAfter ws t) rest).commands := by
  cases hcall : call ws t with
  | none => exact absurd (call_eq_none_iff.mp hcall) h
  | some t' =>
      rw [clockAfter, hcall, Option.getD_some]
      match ws, hne, hcall with
      | token :: tokens, _, hcall =>
          rw [finishPass, hcall]
          rfl

theorem flatMap_frame_ne_nil {cmds : List (List Bytes)} (h : cmds ≠ []) :
    cmds.flatMap frame ≠ [] := by
  match cmds, h with
  | ws :: cmds, _ =>
      intro hnil
      have hlen := congrArg List.length hnil
      rw [List.flatMap_cons, frame_append, List.length_append, length_cmdHeader,
        List.length_nil] at hlen
      omega

/-- Commands behind the first one are got if and only if it was short enough not to move
the buffer, did not throw, and they are got from the state after it. -/
theorem commands_cons_iff {b : CmdBuffer} (hb : b.Fresh) (pass : ℕ) (t : Timing) {ws : List Bytes}
    (hws : IsCommand ws) (hlen : (joined ws).length < 2 ^ 32) {cmds : List (List Bytes)}
    (hne : cmds ≠ []) :
    (∀ stale, (doRouterCmd stale pass b t (frame ws ++ cmds.flatMap frame)).commands = ws :: cmds)
      ↔ ((joined ws).length < 1024 ∧ ¬ Throws ws) ∧ ∀ stale,
          (doRouterCmd stale (pass + 1) (after b ws) (clockAfter ws t) (cmds.flatMap frame)).commands
            = cmds := by
  have hpass (stale : ℕ → Bytes) :=
    doRouterCmd_command stale pass hb t hws hlen (cmds.flatMap frame)
  by_cases hthrows : Throws ws
  · -- the process has ended
    refine iff_of_false (fun hall => ?_) (fun hok => hok.1.2 hthrows)
    have hlast := hall zeros
    rw [hpass, commands_of_throws hthrows] at hlast
    exact hne (List.cons.inj hlast).2.symm
  · rcases Nat.lt_or_ge (joined ws).length 1024 with hshort | hlong
    · simp only [hpass, commands_of_not_throws hws.ne_nil hthrows, List.cons.injEq, true_and, hshort,
        hthrows, not_false_eq_true]
    · -- the buffer has moved, and there need not be a header in the freed memory
      refine iff_of_false (fun hall => ?_) (fun hok => absurd hok.1.1 (by omega))
      have hmoved : (after b ws).moved = true := CmdBuffer.moved_next hb (length_cmdHeader _) hlong
      have hlast := hall zeros
      rw [hpass, commands_of_not_throws hws.ne_nil hthrows,
        doRouterCmd_moved hmoved (invalid_zeros _) _ (flatMap_frame_ne_nil hne)] at hlast
      exact hne (List.cons.inj hlast).2.symm

/-- The last command is got in any case. -/
theorem commands_last {b : CmdBuffer} (hb : b.Fresh) (stale : ℕ → Bytes) (pass : ℕ) (t : Timing)
    {ws : List Bytes} (hws : IsCommand ws) (hlen : (joined ws).length < 2 ^ 32) :
    (doRouterCmd stale pass b t (frame ws)).commands = [ws] := by
  have hpass := doRouterCmd_command stale pass hb t hws hlen []
  rw [List.append_nil] at hpass
  rw [hpass]
  by_cases hthrows : Throws ws
  · exact commands_of_throws hthrows stale pass _ t []
  · rw [commands_of_not_throws hws.ne_nil hthrows, doRouterCmd_nil]

/-- For which commands the loop gets the tokens of each of them, whatever is in the freed
memory. -/
theorem commands_iff {cmds : List (List Bytes)} (hcmds : ∀ ws ∈ cmds, IsCommand ws) {b : CmdBuffer}
    (hb : b.Fresh) (pass : ℕ) (t : Timing) :
    (∀ stale, (doRouterCmd stale pass b t (cmds.flatMap frame)).commands = cmds)
      ↔ (∀ ws ∈ cmds, (joined ws).length < 2 ^ 32)
        ∧ ∀ ws ∈ cmds.dropLast, (joined ws).length < 1024 ∧ ¬ Throws ws := by
  induction cmds generalizing b pass t with
  | nil => simp [doRouterCmd_nil]
  | cons ws cmds ih =>
      obtain ⟨hws, hcmds⟩ := List.forall_mem_cons.mp hcmds
      rw [List.flatMap_cons]
      rcases Nat.lt_or_ge (joined ws).length (2 ^ 32) with hlen | hlen
      · by_cases hne : cmds = []
        · subst hne
          refine iff_of_true (fun stale => ?_) ⟨by simpa using hlen, by simp⟩
          rw [List.flatMap_nil, List.append_nil]
          exact commands_last hb stale pass t hws hlen
        · rw [commands_cons_iff hb pass t hws hlen hne, List.dropLast_cons_of_ne_nil hne,
            List.forall_mem_cons, List.forall_mem_cons]
          constructor
          · rintro ⟨hshort, htail⟩
            have hfresh : (after b ws).Fresh := hb.next (length_cmdHeader _) hshort.1 le_rfl
            obtain ⟨hlens, hshorts⟩ := (ih hcmds hfresh _ _).mp htail
            exact ⟨⟨hlen, hlens⟩, hshort, hshorts⟩
          · rintro ⟨⟨-, hlens⟩, hshort, hshorts⟩
            have hfresh : (after b ws).Fresh := hb.next (length_cmdHeader _) hshort.1 le_rfl
            exact ⟨hshort, (ih hcmds hfresh _ _).mpr ⟨hlens, hshorts⟩⟩
      · -- the length wraps
        refine iff_of_false (fun hall => ?_) (fun hfits => ?_)
        · exact commands_ne_of_wraps zeros pass hb t hws hlen _ cmds (hall zeros)
        · exact absurd (hfits.1 ws (by simp)) (by omega)

end Router

end Tmet.Mysyscall
