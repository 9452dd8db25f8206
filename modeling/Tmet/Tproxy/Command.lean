import Tmet.Lib.Tokens
import Tmet.Tproxy.TcpNetwork

/-!
# `Tmet.Tproxy.Command`: the command lines

The model of `tproxy/Command.cpp` and of `run_read_cmd`. A line is a string of bytes.
It is split into tokens, and the first of them says what is to be done.

An assertion that is made before a token is looked at is an argument of the function.
The messages for a line that is not understood, and the command `status`, which only
prints, are left out.
-/

set_option autoImplicit false

namespace Tmet.Tproxy

open Tmet.Lib Tmet.Posix

/-- A space. -/
def SPACE : UInt8 := 0x20

/-- `#`, which begins a comment. -/
def HASH : UInt8 := 0x23

/-- `cmd_t::cmd_t`. -/
def cmdT (line : Bytes) : List Bytes := tokensOf SPACE HASH line

/-- `cmd_t::get_args_from`. -/
def getArgsFrom (tokens : List Bytes) (start : ℕ) (h : start < tokens.length) : Bytes :=
  (tokens.drop (start + 1)).foldl (fun res token => res ++ ([SPACE] ++ token)) tokens[start]

/-- `run_read_cmd` on one command: what it does, if anything. -/
def readCmd (c : List Bytes) : Option Act :=
  match c with
  | [] => none
  | cmd :: args =>
      if textOf cmd = "deliver" then
        match args with
        | [src, dst] => some (.deliver (textOf src) (textOf dst))
        -- `check_prompt_invalid`: another number of arguments
        | _ => none
      else if textOf cmd = "status" then none
      else if textOf cmd = "partition" then
        match args with
        | [node] => some (.partition (textOf node))
        | _ => none
      else if textOf cmd = "recover" then
        match args with
        | [node] => some (.recover (textOf node))
        | _ => none
      else if textOf cmd = "cmd" then
        if h : 3 ≤ (cmd :: args).length then
          some (.cmd (textOf (cmd :: args)[1]) (getArgsFrom (cmd :: args) 2 h))
        else none
      else none

/-- `run_read_cmd` on the lines of the user: the empty ones are not queued, and `exit`
ends the loop. -/
def runReadCmd (lines : List Bytes) : List Act :=
  (((lines.map cmdT).filter (· ≠ [])).takeWhile (·.head?.map textOf ≠ some "exit")).filterMap readCmd

/-- The text that is sent to the node with the address `a`, if the command is one for it. -/
def Act.commandFor (cfg : ConfigFile) (a : Addr) : Act → Option Bytes
  | .cmd node text => if cfg.getNodeAddr node = a then some text else none
  | _ => none

/-! ### A line that begins with `cmd` -/

/-- The words behind the name of the node. -/
def cmdWords (line : Bytes) : List Bytes := (cmdT line).drop 2

/-- The line has the form `cmd <node> w1 ... wk` with at least one word. -/
def IsCmdLine (cfg : ConfigFile) (a : Addr) (line : Bytes) : Prop :=
  ∃ cmd node word words, cmdT line = cmd :: node :: word :: words ∧ textOf cmd = "cmd"
    ∧ cfg.getNodeAddr (textOf node) = a

theorem getArgsFrom_eq (tokens : List Bytes) (start : ℕ) (h : start < tokens.length) :
    getArgsFrom tokens start h = [SPACE].intercalate (tokens.drop start) := by
  rw [getArgsFrom, foldl_join_eq_intercalate, List.drop_eq_getElem_cons h]

/-- The words are the tokens, and they are not empty. -/
theorem isWord_cmdWords {line w : Bytes} (h : w ∈ cmdWords line) : IsWord SPACE HASH w :=
  word_of_mem_tokensOf (List.mem_of_mem_drop h)

/-- Such a line sends its words, joined, to the node. -/
theorem commandFor_of_isCmdLine {cfg : ConfigFile} {a : Addr} {line : Bytes}
    (h : IsCmdLine cfg a line) :
    (readCmd (cmdT line)).bind (Act.commandFor cfg a)
      = some ([SPACE].intercalate (cmdWords line)) := by
  obtain ⟨cmd, node, word, words, htokens, hcmd, hnode⟩ := h
  have hread : readCmd (cmd :: node :: word :: words) = some (.cmd (textOf node)
      ([SPACE].intercalate (word :: words))) := by
    simp [readCmd, hcmd, getArgsFrom_eq]
  rw [cmdWords, htokens, hread, Option.bind_some, Act.commandFor, if_pos hnode]
  rfl

/-- The commands for the node that come out of such lines. -/
theorem commandFor_runReadCmd {cfg : ConfigFile} {a : Addr} {lines : List Bytes}
    (h : ∀ line ∈ lines, IsCmdLine cfg a line) :
    (runReadCmd lines).filterMap (Act.commandFor cfg a)
      = lines.map fun line => [SPACE].intercalate (cmdWords line) := by
  -- none of the lines is empty or `exit`, so all are taken off the queue
  have hshape : ∀ c ∈ lines.map cmdT, c ≠ [] ∧ c.head?.map textOf ≠ some "exit" := by
    intro c hc
    obtain ⟨line, hline, rfl⟩ := List.mem_map.mp hc
    obtain ⟨cmd, node, word, words, htokens, hcmd, -⟩ := h line hline
    rw [htokens]
    simp [hcmd]
  have hqueued : (lines.map cmdT).filter (· ≠ []) = lines.map cmdT :=
    List.filter_eq_self.mpr fun c hc => by simpa using (hshape c hc).1
  have hdequeued : (lines.map cmdT).takeWhile (·.head?.map textOf ≠ some "exit")
      = lines.map cmdT :=
    List.takeWhile_eq_self_iff.mpr fun c hc => by simpa using (hshape c hc).2
  rw [runReadCmd, hqueued, hdequeued, List.filterMap_filterMap, List.filterMap_map]
  calc lines.filterMap (fun line => (readCmd (cmdT line)).bind (Act.commandFor cfg a))
      = lines.filterMap (fun line => some ([SPACE].intercalate (cmdWords line))) :=
        List.filterMap_congr fun line hline => commandFor_of_isCmdLine (h line hline)
    _ = lines.map fun line => [SPACE].intercalate (cmdWords line) := by
        rw [List.filterMap_eq_map']

end Tmet.Tproxy
