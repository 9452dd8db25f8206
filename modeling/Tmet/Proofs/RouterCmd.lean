import Tmet.Proofs.Mysyscall.Router
import Tmet.Proofs.Tproxy.Commands

/-!
# `Tmet.Proofs.RouterCmd`: commands from the proxy to the client

Both ends of the command connection of a node. On one side is a run of the proxy, of which
`post` are the steps since the node has connected: it stays connected, and the lines
`cmd <node> w1 ... wk` are carried out. On the other side is the loop of the client, on the
bytes that these steps have written.

`router_cmd_iff` says for which lines the client gets `w1 ... wk` of each: the length of
a command has to fit in the header, and none but the last may fill the buffer or throw.
-/

set_option autoImplicit false

namespace Tmet

open Tmet.Lib Tmet.Posix Tmet.Tproxy Tmet.Mysyscall Tmet.Mysyscall.Router

variable {κ : Type} {K : Kernel κ Ctl Addr} {cfg : ConfigFile}

theorem isCommand_cmdWords {a : Addr} {line : Bytes} (h : IsCmdLine cfg a line)
    (hzero : ∀ w ∈ cmdWords line, 0 ∉ w) : IsCommand (cmdWords line) where
  ne_nil := by
    obtain ⟨cmd, node, word, words, htokens, -⟩ := h
    rw [cmdWords, htokens]
    exact List.cons_ne_nil word words
  isWord _ hw := isWord_cmdWords hw
  no_zero := hzero

/-- The bytes that the commands of the lines make. -/
theorem sentOn_lines {tr post : List (Step (Net κ) Act)} {s : Net κ} {a : Addr} {fd : Fd}
    {lines : List Bytes} (h : (tcpNetwork K cfg).Run (tr ++ post) s)
    (hconnected : ∀ t ∈ post, t.src.clientToFd.get a = some fd)
    (hlines : ∀ line ∈ lines, IsCmdLine cfg a line)
    (hsent : (post.filterMap fun t => t.act.commandFor cfg a)
      = (runReadCmd lines).filterMap (Act.commandFor cfg a))
    (hfull : ∀ t ∈ post, ∀ text, t.act.commandFor cfg a = some text →
      (K.write t.src.kernel fd (cmdFrame text)).1 = .ok (cmdFrame text).length) :
    post.flatMap (sentOn fd) = (lines.map cmdWords).flatMap frame := by
  rw [sentOn_run h hconnected hfull, hsent, commandFor_runReadCmd hlines, List.flatMap_map,
    List.flatMap_map]
  rfl

/-- On the bytes of the lines, the loop gets the words of each in these cases. -/
theorem commands_lines_iff {a : Addr} {lines : List Bytes}
    (hlines : ∀ line ∈ lines, IsCmdLine cfg a line ∧ ∀ w ∈ cmdWords line, 0 ∉ w) (timing : Timing) :
    (∀ stale, (doRouterCmd stale 0 .start timing ((lines.map cmdWords).flatMap frame)).commands
        = lines.map cmdWords)
      ↔ (∀ line ∈ lines, (joined (cmdWords line)).length < 2 ^ 32)
        ∧ ∀ line ∈ lines.dropLast,
          (joined (cmdWords line)).length < 1024 ∧ ¬ Throws (cmdWords line) := by
  have hcmds : ∀ ws ∈ lines.map cmdWords, IsCommand ws := by
    intro ws hws
    obtain ⟨line, hline, rfl⟩ := List.mem_map.mp hws
    obtain ⟨hcmd, hzero⟩ := hlines line hline
    exact isCommand_cmdWords hcmd hzero
  rw [commands_iff hcmds CmdBuffer.fresh_start 0 timing, ← List.map_dropLast, List.forall_mem_map,
    List.forall_mem_map]

/-- The client gets the words of every line that was sent to it, whatever is in the memory
that `header` points to, if and only if each command is shorter than 2^32 bytes, and each
but the last is shorter than the buffer and is no `inc_time_ns` on which `stoi` throws. -/
theorem router_cmd_iff {tr post : List (Step (Net κ) Act)} {s : Net κ} {a : Addr} {fd : Fd}
    {lines : List Bytes} (h : (tcpNetwork K cfg).Run (tr ++ post) s)
    (hconnected : ∀ t ∈ post, t.src.clientToFd.get a = some fd)
    (hlines : ∀ line ∈ lines, IsCmdLine cfg a line ∧ ∀ w ∈ cmdWords line, 0 ∉ w)
    (hsent : (post.filterMap fun t => t.act.commandFor cfg a)
      = (runReadCmd lines).filterMap (Act.commandFor cfg a))
    (hfull : ∀ t ∈ post, ∀ text, t.act.commandFor cfg a = some text →
      (K.write t.src.kernel fd (cmdFrame text)).1 = .ok (cmdFrame text).length)
    (timing : Timing) :
    (∀ stale, (doRouterCmd stale 0 .start timing (post.flatMap (sentOn fd))).commands
        = lines.map cmdWords)
      ↔ (∀ line ∈ lines, (joined (cmdWords line)).length < 2 ^ 32)
        ∧ ∀ line ∈ lines.dropLast,
          (joined (cmdWords line)).length < 1024 ∧ ¬ Throws (cmdWords line) := by
  rw [sentOn_lines h hconnected (fun line hline => (hlines line hline).1) hsent hfull]
  exact commands_lines_iff hlines timing

/-! ### Two commands -/

namespace Demo

open Tmet.Tproxy.Demo

/-- `cmd n1` and one word. -/
def cmdLine (word : Bytes) : Bytes :=
  [SPACE].intercalate [[0x63, 0x6d, 0x64], [0x6e, 0x31], word]

theorem cmdT_cmdLine {word : Bytes} (h : IsWord SPACE HASH word) :
    cmdT (cmdLine word) = [[0x63, 0x6d, 0x64], [0x6e, 0x31], word] := by
  have hcmd : IsWord SPACE HASH [0x63, 0x6d, 0x64] := ⟨by decide, by decide, by decide⟩
  have hnode : IsWord SPACE HASH [0x6e, 0x31] := ⟨by decide, by decide, by decide⟩
  exact tokensOf_intercalate (by simp [hcmd, hnode, h])

theorem cmdWords_cmdLine {word : Bytes} (h : IsWord SPACE HASH word) :
    cmdWords (cmdLine word) = [word] := by
  rw [cmdWords, cmdT_cmdLine h]
  rfl

theorem isCmdLine_cmdLine {word : Bytes} (h : IsWord SPACE HASH word) :
    IsCmdLine config n1 (cmdLine word) :=
  ⟨_, _, word, [], cmdT_cmdLine h, by decide, by decide⟩

/-- `n1` is connected to the router, on descriptor 1. -/
structure Ready (s : Net (Stream Addr)) : Prop where
  running : s.terminated = false
  connected : s.clientToFd.get n1 = some 1
  isOpen : (1 : Fd) ∈ s.kernel.fds

theorem ready_connectedOnce : Ready connectedOnce := ⟨by decide, by decide, by decide⟩

theorem write_ready {s : Net (Stream Addr)} (h : Ready s) (data : Bytes) :
    ending.write s.kernel 1 data = (.ok data.length, s.kernel) := by
  show ((if 1 ∈ s.kernel.fds then .ok data.length else .error EBADF : WriteResult), s.kernel) = _
  rw [if_pos h.isOpen]

/-- A command for `n1`. -/
def commanded (s : Net (Stream Addr)) (word : Bytes) : Net (Stream Addr) :=
  s.sendCmd ending config "n1" (joined [word])

theorem ready_commanded {s : Net (Stream Addr)} (h : Ready s) (word : Bytes) :
    Ready (commanded s word) := by
  have hnode : config.getNodeAddr "n1" = n1 := by decide
  have hport : n1.sinPort ≠ INVALID_PORT := by decide
  rw [commanded, Net.sendCmd, hnode]
  dsimp only
  rw [if_neg hport, h.connected]
  dsimp only
  rw [Net.write, write_ready h]
  exact ⟨h.running, h.connected, h.isOpen⟩

theorem step_commanded {s : Net (Stream Addr)} (h : Ready s) (word : Bytes) :
    (tcpNetwork ending config).step s (.cmd "n1" (joined [word])) (commanded s word) :=
  ⟨h.running, rfl⟩

/-- The commands of two lines. -/
def commandSteps (word word' : Bytes) : List (Step (Net (Stream Addr)) Act) :=
  [⟨connectedOnce, .cmd "n1" (joined [word]), commanded connectedOnce word⟩,
    ⟨commanded connectedOnce word, .cmd "n1" (joined [word']),
      commanded (commanded connectedOnce word) word'⟩]

theorem run_commandSteps (word word' : Bytes) : (tcpNetwork ending config).Run
    ([⟨reconnecting, .accept, connectedOnce⟩] ++ commandSteps word word')
      (commanded (commanded connectedOnce word) word') := by
  have hstart : (tcpNetwork ending config).Run [] reconnecting :=
    .nil ⟨rfl, rfl, rfl, rfl, rfl, rfl, rfl⟩
  have haccept : (tcpNetwork ending config).step reconnecting .accept connectedOnce := ⟨rfl, rfl⟩
  have hready := ready_connectedOnce
  have hfirst := (hstart.snoc haccept).snoc (step_commanded hready word)
  exact hfirst.snoc (step_commanded (ready_commanded hready word) word')

theorem connected_commandSteps {word word' : Bytes} :
    ∀ t ∈ commandSteps word word', Ready t.src := by
  have hready := ready_connectedOnce
  simp only [commandSteps, List.forall_mem_cons]
  exact ⟨hready, ready_commanded hready word, by simp⟩

theorem full_commandSteps {word word' : Bytes} :
    ∀ t ∈ commandSteps word word', ∀ text, t.act.commandFor config n1 = some text →
      (ending.write t.src.kernel 1 (cmdFrame text)).1 = .ok (cmdFrame text).length := by
  intro t ht text _
  rw [write_ready (connected_commandSteps t ht)]

/-- The steps are those of the lines. -/
theorem sent_commandSteps {word word' : Bytes} (h : IsWord SPACE HASH word)
    (h' : IsWord SPACE HASH word') :
    ((commandSteps word word').filterMap fun t => t.act.commandFor config n1)
      = (runReadCmd [cmdLine word, cmdLine word']).filterMap (Act.commandFor config n1) := by
  have hnode : config.getNodeAddr "n1" = n1 := by decide
  rw [commandFor_runReadCmd (by simp [isCmdLine_cmdLine h, isCmdLine_cmdLine h'])]
  simp only [List.map_cons, List.map_nil, cmdWords_cmdLine h, cmdWords_cmdLine h', commandSteps,
    List.filterMap_cons, List.filterMap_nil, Act.commandFor, hnode, if_true]
  rfl

theorem lines_commandSteps {word word' : Bytes} (h : IsWord SPACE HASH word)
    (h' : IsWord SPACE HASH word') (hzero : 0 ∉ word) (hzero' : 0 ∉ word') :
    ∀ line ∈ [cmdLine word, cmdLine word'],
      IsCmdLine config n1 line ∧ ∀ w ∈ cmdWords line, 0 ∉ w := by
  simp only [List.forall_mem_cons, cmdWords_cmdLine h, cmdWords_cmdLine h']
  exact ⟨⟨isCmdLine_cmdLine h, by simpa using hzero⟩,
    ⟨isCmdLine_cmdLine h', by simpa using hzero'⟩, by simp⟩

def clock : Timing := .start Timing.defaultResolution Timing.defaultStartupRealtime

theorem router_cmd_short :
    (doRouterCmd zeros 0 .start clock ((commandSteps [0x62] [0x63]).flatMap (sentOn 1))).commands
      = [[[0x62]], [[0x63]]] := by
  have h : IsWord SPACE HASH [0x62] := ⟨by decide, by decide, by decide⟩
  have h' : IsWord SPACE HASH [0x63] := ⟨by decide, by decide, by decide⟩
  have hfits := router_cmd_iff (run_commandSteps [0x62] [0x63])
    (fun t ht => (connected_commandSteps t ht).connected)
    (lines_commandSteps h h' (by decide) (by decide)) (sent_commandSteps h h') full_commandSteps
    clock
  simp only [List.map_cons, List.map_nil, List.dropLast, List.forall_mem_cons, cmdWords_cmdLine h,
    cmdWords_cmdLine h'] at hfits
  refine hfits.mpr ⟨⟨by decide, by decide, by simp⟩, ⟨by decide, ?_⟩, by simp⟩ zeros
  rintro ⟨cmd, ns, more, heq, -⟩
  cases heq

/-- A word that fills the buffer. -/
def longWord : Bytes := List.replicate 1024 0x61

/-- After it, the header of the next command is not found. -/
theorem router_cmd_fails :
    ¬ ∀ (tr post : List (Step (Net (Stream Addr)) Act)) (s : Net (Stream Addr)) (a : Addr) (fd : Fd)
      (lines : List Bytes) (timing : Timing) (stale : ℕ → Bytes),
      (tcpNetwork ending config).Run (tr ++ post) s →
      (∀ t ∈ post, t.src.clientToFd.get a = some fd) →
      (∀ line ∈ lines, IsCmdLine config a line ∧ ∀ w ∈ cmdWords line, 0 ∉ w) →
      (post.filterMap fun t => t.act.commandFor config a)
        = (runReadCmd lines).filterMap (Act.commandFor config a) →
      (∀ t ∈ post, ∀ text, t.act.commandFor config a = some text →
        (ending.write t.src.kernel fd (cmdFrame text)).1 = .ok (cmdFrame text).length) →
      (doRouterCmd stale 0 .start timing (post.flatMap (sentOn fd))).commands
        = lines.map cmdWords := by
  intro hall
  have hlen : longWord.length = 1024 := List.length_replicate
  have hmem : ∀ x ∈ longWord, x = 0x61 := fun x hx => List.eq_of_mem_replicate hx
  have h : IsWord SPACE HASH longWord := by
    refine ⟨List.ne_nil_of_length_pos (by omega), fun hx => ?_, fun hhead => ?_⟩
    · exact absurd (hmem _ hx) (by decide)
    · exact absurd (hmem _ (List.mem_of_mem_head? hhead)) (by decide)
  have h' : IsWord SPACE HASH [0x62] := ⟨by decide, by decide, by decide⟩
  have hzero : 0 ∉ longWord := fun hx => absurd (hmem _ hx) (by decide)
  have hrun := run_commandSteps longWord [0x62]
  have hlines := lines_commandSteps h h' hzero (by decide)
  have hconnected (t) (ht : t ∈ commandSteps longWord [0x62]) :=
    (connected_commandSteps t ht).connected
  have hsent := sent_commandSteps h h'
  -- the memory that was freed may hold anything
  have hgot (stale : ℕ → Bytes) :=
    hall _ _ _ _ _ _ clock stale hrun hconnected hlines hsent full_commandSteps
  rw [sentOn_lines hrun hconnected (fun line hline => (hlines line hline).1) hsent
    full_commandSteps] at hgot
  obtain ⟨-, hshort⟩ := (commands_lines_iff hlines clock).mp hgot
  -- the first command fills the buffer, and it is not the last
  obtain ⟨hfirst, -⟩ := hshort (cmdLine longWord) (by simp)
  have hjoined : joined [longWord] = longWord := List.intercalate_singleton
  rw [cmdWords_cmdLine h, hjoined, hlen] at hfirst
  omega

end Demo

end Tmet
