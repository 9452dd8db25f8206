import Tmet.Lib.Simulation
import Tmet.Proofs.Tproxy.Atoms
import Tmet.Proofs.Tproxy.Partition
import Tmet.Proofs.Tproxy.Status

/-!
# `Tmet.Proofs.Tproxy.Process`: the threads together

However the threads take turns, the commands that are carried out are those of the script,
in its order: the lines that are typed up to `exit`, each file in the place of the line that
names it. `Queued` is the invariant, over the whole run.

`process_refines` says that a run of the whole process is one of `tcpNetwork`, so that what
holds of its runs holds of the process. `status` makes no difference there
(`Tmet.Proofs.Tproxy.Status`).

`process_exits` says when `run_read_cmd` returns. What is typed is always followed by
`exit`. After a command file `read_file` queues `exit` if `is_file` is set, which it never
is: `command` is constructed before the configuration is loaded (`isFile_command`).
-/

set_option autoImplicit false

namespace Tmet.Tproxy

open Tmet.Lib Tmet.Posix

/-! ### The script -/

/-- The commands in the lines of a file. -/
def commandsOf (lines : List Bytes) : List (List Bytes) := (lines.map cmdT).filter (· ≠ [])

/-- The commands that a typed line queues. -/
def Typed.commands (t : Typed) : List (List Bytes) :=
  match cmdT t.line with
  | [] => []
  | cmd :: args =>
      if textOf cmd = "file" then
        if args.length = 1 then (t.file.map commandsOf).getD [] else []
      else [cmd :: args]

/-- What is typed, up to `exit`, and the `exit` at the end. -/
def typedCommands (lines : List Typed) : List (List Bytes) :=
  (lines.takeWhile fun t => !isExit (cmdT t.line)).flatMap Typed.commands ++ [[EXIT]]

/-- All the commands of the input. -/
def Input.commands : Input → List (List Bytes)
  | .typed lines => typedCommands lines
  | .file lines => (lines.map commandsOf).getD []

/-- The commands that are to be carried out: those before the first `exit`. -/
def Input.script (input : Input) : List (List Bytes) := input.commands.takeWhile fun c => !isExit c

/-! ### The queue -/

theorem cmdT_exit : cmdT EXIT = [EXIT] := by decide

theorem isExit_exit : isExit [EXIT] = true := by decide

theorem isFile_command (conv : TextConv) : (Command.new (.empty conv)).isFile = false := rfl

theorem enqueue_eq {q : Command} {c : List Bytes} (hc : c ≠ []) :
    (q.enqueue c).2 = { q with cmds := q.cmds ++ [c] } := by
  rw [Command.enqueue, if_neg hc]

theorem enqueueLine_exit (q : Command) :
    (q.enqueueLine EXIT).2 = { q with cmds := q.cmds ++ [[EXIT]] } := by
  rw [Command.enqueueLine, cmdT_exit, enqueue_eq (by simp)]

theorem foldl_enqueueLine (lines : List Bytes) (q : Command) :
    lines.foldl (fun q line => (q.enqueueLine line).2) q
      = { q with cmds := q.cmds ++ commandsOf lines } := by
  induction lines generalizing q with
  | nil => simp [commandsOf]
  | cons line lines ih =>
      rw [List.foldl_cons, ih]
      by_cases hline : cmdT line = []
      · simp [Command.enqueueLine, Command.enqueue, commandsOf, hline]
      · simp [Command.enqueueLine, Command.enqueue, commandsOf, hline]

theorem readFile_eq {q : Command} (hq : q.isFile = false) (file : Option (List Bytes)) :
    q.readFile file = { q with cmds := q.cmds ++ (file.map commandsOf).getD [] } := by
  cases file with
  | none => simp [Command.readFile]
  | some lines => simp [Command.readFile, foldl_enqueueLine, hq]

/-- `exit` ends the input, and every other line queues its commands. -/
theorem readTyped_eq {q : Command} (hq : q.isFile = false) (t : Typed) :
    readTyped q t = if isExit (cmdT t.line) then (false, q)
      else (true, { q with cmds := q.cmds ++ t.commands }) := by
  rw [readTyped, Typed.commands]
  cases hline : cmdT t.line with
  | nil => simp [isExit]
  | cons cmd args =>
      by_cases hfile : textOf cmd = "file"
      · have hexit : isExit (cmd :: args) = false := by simp [isExit, hfile]
        rw [hexit]
        match args with
        | [] => simp [hfile]
        | [_] => simp [hfile, readFile_eq hq]
        | _ :: _ :: _ => simp [hfile]
      · cases hexit : isExit (cmd :: args) with
        | true => simp [hfile, hexit]
        | false => simp [hfile, hexit, Command.enqueue]

theorem typedCommands_cons_exit {t : Typed} (ht : isExit (cmdT t.line) = true)
    (lines : List Typed) : typedCommands (t :: lines) = [[EXIT]] := by
  simp [typedCommands, ht]

theorem typedCommands_cons {t : Typed} (ht : isExit (cmdT t.line) = false)
    (lines : List Typed) : typedCommands (t :: lines) = t.commands ++ typedCommands lines := by
  simp [typedCommands, ht]

/-- A command file is run as its lines are. -/
theorem script_file (lines : List Bytes) :
    (Input.file (some lines)).script.filterMap readCmd = runReadCmd lines := by
  simp only [Input.script, Input.commands, runReadCmd, isExit, Option.map_some, Option.getD_some,
    commandsOf, decide_not]

/-- So are the lines that are typed, if none of them names a file. -/
theorem script_typed {lines : List Typed}
    (h : ∀ t ∈ lines, (cmdT t.line).head?.map textOf ≠ some "file") :
    (Input.typed lines).script.filterMap readCmd = runReadCmd (lines.map Typed.line) := by
  have hscript : (typedCommands lines).takeWhile (fun c => !isExit c)
      = (commandsOf (lines.map Typed.line)).takeWhile (fun c => !isExit c) := by
    induction lines with
    | nil => simp [typedCommands, commandsOf, isExit_exit]
    | cons t lines ih =>
        have hrest := ih fun u hu => h u (List.mem_cons_of_mem t hu)
        have hfile := h t (List.mem_cons_self ..)
        cases hexit : isExit (cmdT t.line) with
        | true =>
            have hne : cmdT t.line ≠ [] := by
              intro hnil
              rw [hnil] at hexit
              cases hexit
            simp [typedCommands_cons_exit hexit, commandsOf, hne, hexit, isExit_exit]
        | false =>
            rw [typedCommands_cons hexit]
            cases hline : cmdT t.line with
            | nil => simpa [Typed.commands, commandsOf, hline] using hrest
            | cons cmd args =>
                rw [hline] at hexit
                have hcmd : textOf cmd ≠ "file" := by simpa [hline] using hfile
                simpa [Typed.commands, commandsOf, hline, hcmd, hexit] using hrest
  rw [Input.script, Input.commands, hscript]
  exact script_file (lines.map Typed.line)

/-! ### The invariant -/

variable {κ : Type} {K : Kernel κ Ctl Addr} {cfg : ConfigFile} {conv : TextConv} {input : Input}

/-- The commands that were carried out. -/
def executed (tr : List (Step (Process κ) ProcessAct)) : List (List Bytes) :=
  tr.filterMap fun t => match t.act with
    | .read c => some c
    | _ => none

/-- The commands of what is still to be typed. -/
def Process.pending (s : Process κ) : List (List Bytes) := (s.typed.map typedCommands).getD []

/-- The commands that were carried out, the `exit` that has ended the loop, those in the
queue and those to come are the commands of the input. -/
structure Queued (input : Input) (tr : List (Step (Process κ) ProcessAct))
    (s : Process κ) : Prop where
  isFile : s.command.isFile = false
  noExit : ∀ c ∈ executed tr, isExit c = false
  commands : ∃ ended : List (List Bytes),
    executed tr ++ ended ++ s.command.cmds ++ s.pending = input.commands
      ∧ (s.reading = true → ended = [])
      ∧ (s.reading = false → ∃ c, ended = [c] ∧ isExit c = true)

theorem dequeue_true {q q' : Command} {c : List Bytes}
    (h : q.dequeue = some (true, c, q')) :
    q.cmds = c :: q'.cmds ∧ q'.isFile = q.isFile ∧ isExit c = false := by
  rw [Command.dequeue] at h
  cases hcmds : q.cmds with
  | nil =>
      rw [hcmds] at h
      cases hfile : q.isFile <;> simp [hfile] at h
  | cons c₀ cmds =>
      rw [hcmds] at h
      simp only [Option.some.injEq, Prod.mk.injEq, Bool.not_eq_true'] at h
      obtain ⟨hexit, rfl, rfl⟩ := h
      exact ⟨rfl, rfl, hexit⟩

theorem dequeue_false {q q' : Command} {c : List Bytes} (hq : q.isFile = false)
    (h : q.dequeue = some (false, c, q')) :
    q.cmds = c :: q'.cmds ∧ q'.isFile = false ∧ isExit c = true := by
  rw [Command.dequeue] at h
  cases hcmds : q.cmds with
  | nil =>
      rw [hcmds] at h
      simp [hq] at h
  | cons c₀ cmds =>
      rw [hcmds] at h
      simp only [Option.some.injEq, Prod.mk.injEq, Bool.not_eq_false'] at h
      obtain ⟨hexit, rfl, rfl⟩ := h
      exact ⟨rfl, hq, hexit⟩

theorem executed_snoc (tr : List (Step (Process κ) ProcessAct)) (t : Step (Process κ) ProcessAct) :
    executed (tr ++ [t]) = executed tr ++ (match t.act with
      | .read c => some c
      | _ => none : Option (List Bytes)).toList := filterMap_snoc _ tr t

/-- A step of another thread leaves the commands as they are, whether they are queued or
still to come. -/
theorem Queued.other {tr : List (Step (Process κ) ProcessAct)} {s s' : Process κ}
    {act : ProcessAct} (h : Queued input tr s) (hact : ∀ c, act ≠ .read c)
    (hfile : s'.command.isFile = s.command.isFile) (hreading : s'.reading = s.reading)
    (hcmds : s'.command.cmds ++ s'.pending = s.command.cmds ++ s.pending) :
    Queued input (tr ++ [⟨s, act, s'⟩]) s' := by
  have hexecuted : executed (tr ++ [⟨s, act, s'⟩]) = executed tr := by
    rw [executed_snoc]
    cases act with
    | read c => exact absurd rfl (hact c)
    | _ => exact List.append_nil _
  obtain ⟨ended, hcommands, hended⟩ := h.commands
  refine ⟨hfile.trans h.isFile, by rw [hexecuted]; exact h.noExit, ended, ?_, ?_⟩
  · rw [hexecuted, List.append_assoc, hcmds, ← List.append_assoc]
    exact hcommands
  · rw [hreading]
    exact hended

/-- What `readline` takes from the input it puts into the queue. -/
theorem queued_line {s s' : Process κ} (hfile : s.command.isFile = false)
    (h : Process.Step K cfg s .line s') :
    s'.command.isFile = s.command.isFile ∧ s'.reading = s.reading
      ∧ s'.command.cmds ++ s'.pending = s.command.cmds ++ s.pending := by
  cases h with
  | line _ htyped hread =>
      rw [readTyped_eq hfile] at hread
      split at hread
      · cases hread
      · rename_i hexit
        cases hread
        simp [Process.pending, htyped, typedCommands_cons (by simpa using hexit)]
  | exit _ htyped hread =>
      rw [readTyped_eq hfile] at hread
      split at hread
      · rename_i hexit
        cases hread
        simp [Process.pending, htyped, typedCommands_cons_exit hexit, enqueueLine_exit]
      · cases hread
  | eof _ htyped => simp [Process.pending, htyped, typedCommands, enqueueLine_exit]

theorem queued_of_run {tr : List (Step (Process κ) ProcessAct)} {s : Process κ}
    (h : (process K cfg conv input).Run tr s) : Queued input tr s := by
  refine h.invariant (P := Queued input) ?_ ?_
  · rintro s ⟨-, hreading, hinput⟩
    cases input with
    | typed lines =>
        obtain ⟨htyped, hcommand⟩ := hinput
        refine ⟨by rw [hcommand]; rfl, by simp [executed], [], ?_, fun _ => rfl, by simp [hreading]⟩
        simp [executed, hcommand, Command.new, Process.pending, htyped, Input.commands]
    | file lines =>
        obtain ⟨htyped, hcommand⟩ := hinput
        rw [readFile_eq (isFile_command conv)] at hcommand
        refine ⟨by rw [hcommand]; rfl, by simp [executed], [], ?_, fun _ => rfl, by simp [hreading]⟩
        simp [executed, hcommand, Command.new, Process.pending, htyped, Input.commands]
  · intro tr s act s' _ ih hstep
    have hfile := ih.isFile
    cases act with
    | line =>
        obtain ⟨hfile', hreading, hcmds⟩ := queued_line hfile hstep
        exact ih.other (by simp) hfile' hreading hcmds
    | handler act =>
        cases hstep
        exact ih.other (by simp) rfl rfl rfl
    | read c =>
        cases hstep with
        | @read _ q net hreading hdequeue _ =>
            obtain ⟨hcmds, hfile', hexit⟩ := dequeue_true hdequeue
            obtain ⟨ended, hcommands, hgoes, -⟩ := ih.commands
            -- the loop still runs, so no `exit` was taken
            rw [hgoes hreading, hcmds] at hcommands
            refine ⟨hfile'.trans hfile, ?_, [], ?_, fun _ => rfl, by simp [hreading]⟩
            · rw [executed_snoc]
              intro x hx
              cases List.mem_append.mp hx with
              | inl hold => exact ih.noExit x hold
              | inr hnew => rw [show x = c by simpa using hnew]; exact hexit
            · rw [executed_snoc, ← hcommands]
              simp [Process.pending]
    | stop =>
        cases hstep with
        | @stop c q _ hreading hdequeue =>
            obtain ⟨hcmds, hfile', hexit⟩ := dequeue_false hfile hdequeue
            obtain ⟨ended, hcommands, hgoes, -⟩ := ih.commands
            rw [hgoes hreading, hcmds] at hcommands
            refine ⟨hfile', ?_, [c], ?_, by simp, fun _ => ⟨c, rfl, hexit⟩⟩
            · rw [executed_snoc]
              simpa using ih.noExit
            · rw [executed_snoc, ← hcommands]
              simp [Process.pending]

/-! ### The order of the commands -/

/-- The commands are carried out in the order of the script, and no other command is. Once
`run_read_cmd` has returned, all of the script was carried out. -/
theorem executed_of_run {tr : List (Step (Process κ) ProcessAct)} {s : Process κ}
    (h : (process K cfg conv input).Run tr s) :
    executed tr <+: input.script
      ∧ (s.reading = false →
        executed tr = input.script ∧ ∃ c ∈ input.commands, isExit c = true) := by
  obtain ⟨-, hnoExit, ended, hcommands, hgoes, hended⟩ := queued_of_run h
  constructor
  · rw [Input.script, ← hcommands, List.append_assoc, List.append_assoc]
    rw [List.takeWhile_append_of_pos fun c hc => by simp [hnoExit c hc]]
    exact List.prefix_append _ _
  · intro hstopped
    obtain ⟨c, rfl, hexit⟩ := hended hstopped
    constructor
    · rw [Input.script, ← hcommands, List.append_assoc, List.append_assoc]
      rw [List.takeWhile_append_of_pos fun c hc => by simp [hnoExit c hc]]
      simp [hexit]
    · exact ⟨c, by simp [← hcommands], hexit⟩

/-! ### The proxy in it -/

/-- The act of the proxy that a step is, if any. -/
def ProcessAct.act : ProcessAct → Option Act
  | .read c => readCmd c
  | .handler act => some act
  | _ => none

theorem isHandler_of_readCmd {c : List Bytes} {act : Act} (h : readCmd c = some act) :
    act.isHandler = false := by
  rw [readCmd.eq_def] at h
  repeat' split at h
  all_goals first
    | cases h; rfl
    | cases h

/-- Among the acts of a run, those that are no handlers are the commands. -/
theorem commands_of_run {tr : List (Step (Process κ) ProcessAct)} {s : Process κ}
    (h : (process K cfg conv input).Run tr s) :
    (tr.filterMap fun t => t.act.act).filter (fun a => !a.isHandler)
      = (executed tr).filterMap readCmd := by
  induction h with
  | nil _ => rfl
  | @snoc tr s act s' _ hstep ih =>
      rw [filterMap_snoc, List.filter_append, ih, executed_snoc, List.filterMap_append]
      congr 1
      cases act with
      | line => rfl
      | stop => rfl
      | read c =>
          cases hread : readCmd c with
          | none => simp [ProcessAct.act, hread]
          | some act => simp [ProcessAct.act, hread, isHandler_of_readCmd hread]
      | handler act =>
          cases hstep with
          | handler hact _ => simp [ProcessAct.act, hact]

/-- A step of the process is one of the proxy, or none that can be noticed there. -/
theorem simulates_process : System.Simulates (process K cfg conv input) (tcpNetwork K cfg)
    (fun s n => s.net.Alike n) (fun t => t.act.act.toList) := by
  intro s act s' n h hstep
  have hone {s' : Net κ} {act : Act} (hact : act.Step K cfg s.net s') :
      ∃ post n', (tcpNetwork K cfg).Exec n post n' ∧ post.map Step.act = [act]
        ∧ s'.Alike n' := by
    obtain ⟨n', hn, halike⟩ := alike_step h hact
    exact ⟨_, n', .single hn, rfl, halike⟩
  cases hstep with
  | line _ _ _ => exact ⟨[], n, .nil, rfl, h⟩
  | exit _ _ _ => exact ⟨[], n, .nil, rfl, h⟩
  | eof _ _ => exact ⟨[], n, .nil, rfl, h⟩
  | stop _ _ _ => exact ⟨[], n, .nil, rfl, h⟩
  | handler _ hact => exact hone hact
  | @read c q net _ _ hreads =>
      unfold Net.Reads at hreads
      show ∃ post n', (tcpNetwork K cfg).Exec n post n' ∧ post.map Step.act = (readCmd c).toList
        ∧ net.Alike n'
      cases hread : readCmd c with
      | some act =>
          rw [hread] at hreads
          exact hone hreads
      | none =>
          rw [hread] at hreads
          obtain ⟨-, rfl⟩ := hreads
          refine ⟨[], n, .nil, rfl, ?_⟩
          show Net.Alike (if isStatus c then s.net.printStatus else s.net) n
          split
          · exact (alike_printStatus s.net).symm.trans h
          · exact h

/-- A run of the process is a run of the proxy, up to empty queues. Its commands are the
ones of the script, in their order. -/
theorem process_refines {tr : List (Step (Process κ) ProcessAct)} {s : Process κ}
    (h : (process K cfg conv input).Run tr s) :
    ∃ tr' n, (tcpNetwork K cfg).Run tr' n ∧ s.net.Alike n
      ∧ tr'.map Step.act = tr.filterMap (fun t => t.act.act)
      ∧ (tr'.map Step.act).filter (fun a => !a.isHandler) <+: input.script.filterMap readCmd
      ∧ (s.reading = false →
        (tr'.map Step.act).filter (fun a => !a.isHandler) = input.script.filterMap readCmd) := by
  have hinit (s : Process κ) (hs : (process K cfg conv input).init s) :
      ∃ n, (tcpNetwork K cfg).init n ∧ s.net.Alike n := ⟨s.net, hs.1, .refl s.net⟩
  obtain ⟨tr', n, hrun, halike, hacts⟩ := h.simulate hinit simulates_process
  rw [← List.filterMap_eq_flatMap_toList] at hacts
  obtain ⟨hfirst, hall⟩ := executed_of_run h
  refine ⟨tr', n, hrun, halike, hacts, ?_, fun hstopped => ?_⟩
  · rw [hacts, commands_of_run h]
    exact hfirst.filterMap readCmd
  · rw [hacts, commands_of_run h, (hall hstopped).1]

/-! ### The end -/

theorem hasExit_typed (lines : List Typed) : ∃ c ∈ (Input.typed lines).commands, isExit c = true :=
  ⟨[EXIT], by simp [Input.commands, typedCommands], isExit_exit⟩

theorem terminated_writeLoop (fuel : ℕ) (s : Net κ) (fd : Fd) (body : Bytes) (left : ℕ)
    (size : ℤ) : (s.writeLoop K fuel fd body left size).2.terminated = s.terminated := by
  induction fuel generalizing s left size with
  | zero => rfl
  | succ fuel ih =>
      rw [Net.writeLoop]
      split
      · rfl
      · cases hw : s.write K fd (body.take left) with
        | mk r s₁ =>
            have hio := onlyIO_write hw
            cases r with
            | error e => exact hio.terminated
            | ok n => exact (ih s₁ _ _).trans hio.terminated

theorem terminated_deliverTaken (s : Net κ) (m : Msg) :
    (s.deliverTaken K cfg m).terminated = s.terminated := by
  rw [Net.deliverTaken]
  cases s.fdToChannelStatus.get (s.heap m.fd) with
  | none => rfl
  | some st =>
      dsimp only
      split
      · rfl
      · split
        · rw [(onlyTable_closeConnection _ _ _).terminated]
          exact terminated_writeLoop ..
        · exact terminated_writeLoop ..

theorem terminated_deliverCmd (s : Net κ) (src dst : String) :
    (s.deliverCmd K cfg src dst).terminated = s.terminated := by
  rw [Net.deliverCmd]
  dsimp only
  split
  · rfl
  · rw [Net.deliverMsg]
    split
    · rfl
    · rename_i q _
      dsimp only
      cases (Net.dequeueOpen s.heap q).1 with
      | none => rfl
      | some m => exact terminated_deliverTaken _ m

theorem terminated_partitionLoop (addr : Addr) (clearMsg isRecover : Bool) (fds : List Fd)
    (s : Net κ) :
    (s.partitionLoop K addr clearMsg isRecover fds).2.terminated = s.terminated := by
  induction fds generalizing s with
  | nil => rfl
  | cons fd fds ih =>
      rw [Net.partitionLoop]
      cases s.fdToChannelStatus.get fd with
      | none => exact ih s
      | some st =>
          dsimp only
          split
          · have hclosed := (onlyTable_closeConnection (K := K) s fd true).terminated
            cases isRecover with
            | false => cases clearMsg <;> exact (ih _).trans hclosed
            | true => cases clearMsg <;> exact ih _
          · exact ih s

theorem terminated_partitionWith (s : Net κ) (node : String) (clearMsg isRecover : Bool) :
    (s.partitionWith K cfg node clearMsg isRecover).terminated = s.terminated := by
  rw [Net.partitionWith]
  dsimp only
  split
  · rfl
  · have hloop :=
      terminated_partitionLoop (K := K) (cfg.getNodeAddr node) clearMsg isRecover s.keys s
    revert hloop
    generalize s.partitionLoop K (cfg.getNodeAddr node) clearMsg isRecover s.keys = r
    obtain ⟨toClose, s₁⟩ := r
    intro hloop
    rw [← hloop]
    clear hloop
    induction toClose generalizing s₁ with
    | nil => rfl
    | cons fd fds ih => exact (ih _).trans (onlyTable_closeConnection s₁ fd false).terminated

theorem terminated_sendCmd (s : Net κ) (node : String) (text : Bytes) :
    (s.sendCmd K cfg node text).terminated = s.terminated := by
  rw [Net.sendCmd]
  dsimp only
  split
  · rfl
  · split
    · rfl
    · rename_i fd _
      cases hw : s.write K fd (bigEndian 4 VALIDATION_DATA ++ bigEndian 4 text.length ++ text) with
      | mk r s₁ =>
          have hio := onlyIO_write hw
          cases r <;> exact hio.terminated

/-- `run_read_cmd` gets done with every command, and no command ends the process. -/
theorem exists_reads {s : Net κ} (hlive : s.terminated = false) (c : List Bytes) :
    ∃ s', s.Reads K cfg c s' ∧ s'.terminated = false := by
  unfold Net.Reads
  cases hread : readCmd c with
  | none =>
      refine ⟨_, ⟨hlive, rfl⟩, ?_⟩
      split
      · exact (alike_printStatus s).terminated.trans hlive
      · exact hlive
  | some act =>
      have hcommand := isHandler_of_readCmd hread
      cases act with
      | deliver src dst => exact ⟨_, ⟨hlive, rfl⟩, (terminated_deliverCmd s src dst).trans hlive⟩
      | partition node =>
          exact ⟨_, ⟨hlive, rfl⟩, (terminated_partitionWith s node false false).trans hlive⟩
      | recover node =>
          exact ⟨_, ⟨hlive, rfl⟩, (terminated_partitionWith s node true true).trans hlive⟩
      | cmd node text => exact ⟨_, ⟨hlive, rfl⟩, (terminated_sendCmd s node text).trans hlive⟩
      | _ => cases hcommand

/-- Not a step of `run_epoll`, nor one of the surroundings. -/
def ProcessAct.IsOwn (a : ProcessAct) : Prop := ∀ act, a ≠ .handler act

/-- Steps of `readline` and `run_read_cmd` lead from `s` to `s'`. -/
def Process.Goes (K : Kernel κ Ctl Addr) (cfg : ConfigFile) (conv : TextConv) (input : Input)
    (s s' : Process κ) : Prop :=
  ∃ post, (process K cfg conv input).Exec s post s' ∧ ∀ t ∈ post, t.act.IsOwn

theorem Process.Goes.step {s s₁ s' : Process κ} {act : ProcessAct} (hown : act.IsOwn)
    (hstep : Process.Step K cfg s act s₁) (h : s₁.Goes K cfg conv input s') :
    s.Goes K cfg conv input s' := by
  obtain ⟨post, hexec, hall⟩ := h
  refine ⟨_ :: post, .cons hstep hexec, fun t ht => ?_⟩
  cases List.mem_cons.mp ht with
  | inl hfirst => exact hfirst ▸ hown
  | inr hrest => exact hall t hrest

theorem Process.Goes.trans {s s₁ s' : Process κ} (h : s.Goes K cfg conv input s₁)
    (h' : s₁.Goes K cfg conv input s') : s.Goes K cfg conv input s' := by
  obtain ⟨post, hexec, hall⟩ := h
  obtain ⟨post', hexec', hall'⟩ := h'
  refine ⟨post ++ post', hexec.append hexec', fun t ht => ?_⟩
  cases List.mem_append.mp ht with
  | inl hfirst => exact hall t hfirst
  | inr hrest => exact hall' t hrest

theorem Process.Goes.refl (s : Process κ) : s.Goes K cfg conv input s := ⟨[], .nil, by simp⟩

/-- `readline` gets to its end. -/
theorem goes_typed (lines : List Typed) {s : Process κ} (hfile : s.command.isFile = false)
    (hlive : s.net.terminated = false) (htyped : s.typed = some lines) :
    ∃ s', s.Goes K cfg conv input s' ∧ s'.typed = none
      ∧ s'.net = s.net ∧ s'.command.isFile = false ∧ s'.reading = s.reading
      ∧ s'.command.cmds = s.command.cmds ++ typedCommands lines := by
  induction lines generalizing s with
  | nil =>
      have hstep : Process.Step K cfg s .line _ := .eof hlive htyped
      refine ⟨_, .step (by simp [ProcessAct.IsOwn]) hstep (.refl _), rfl, rfl, ?_, rfl, ?_⟩
      · simpa [enqueueLine_exit] using hfile
      · simp [enqueueLine_exit, typedCommands]
  | cons t lines ih =>
      have hread := readTyped_eq hfile t
      split at hread
      · rename_i hexit
        have hstep : Process.Step K cfg s .line _ := .exit hlive htyped hread
        refine ⟨_, .step (by simp [ProcessAct.IsOwn]) hstep (.refl _), rfl, rfl, ?_, rfl, ?_⟩
        · simpa [enqueueLine_exit] using hfile
        · simp [enqueueLine_exit, typedCommands_cons_exit hexit]
      · rename_i hexit
        have hstep : Process.Step K cfg s .line _ := .line hlive htyped hread
        let s₁ : Process κ := { s with
          command := { s.command with cmds := s.command.cmds ++ t.commands }, typed := some lines }
        obtain ⟨s', hgoes, htyped', hnet, hfile', hreading, hcmds⟩ := @ih s₁ hfile hlive rfl
        refine ⟨s', .step (by simp [ProcessAct.IsOwn]) hstep hgoes, htyped', hnet, hfile',
          hreading, ?_⟩
        rw [hcmds, typedCommands_cons (by simpa using hexit)]
        exact List.append_assoc _ _ _

/-- `run_read_cmd` gets to the first `exit` of the queue. -/
theorem goes_stop (cmds : List (List Bytes)) {s : Process κ} (hcmds : s.command.cmds = cmds)
    (hlive : s.net.terminated = false) (hreading : s.reading = true)
    (hexit : ∃ c ∈ cmds, isExit c = true) :
    ∃ s', s.Goes K cfg conv input s' ∧ s'.reading = false := by
  induction cmds generalizing s with
  | nil => simp at hexit
  | cons c cmds ih =>
      have hdequeue : s.command.dequeue = some (!isExit c, c, { s.command with cmds := cmds }) := by
        rw [Command.dequeue, hcmds]
      cases hc : isExit c with
      | true =>
          rw [hc] at hdequeue
          have hstep : Process.Step K cfg s .stop _ := .stop hlive hreading hdequeue
          exact ⟨_, .step (by simp [ProcessAct.IsOwn]) hstep (.refl _), rfl⟩
      | false =>
          rw [hc] at hdequeue
          obtain ⟨net, hreads, hlive'⟩ :
              ∃ net : Net κ, s.net.Reads K cfg c net ∧ net.terminated = false :=
            exists_reads hlive c
          have hstep : Process.Step K cfg s (.read c) _ := .read hreading hdequeue hreads
          let s₁ : Process κ := { s with net := net, command := { s.command with cmds := cmds } }
          obtain ⟨s', hgoes, hstopped⟩ := @ih s₁ rfl hlive' hreading (by simpa [hc] using hexit)
          exact ⟨s', .step (by simp [ProcessAct.IsOwn]) hstep hgoes, hstopped⟩

/-- `run_read_cmd` can always get to its end, by steps of its own and of `readline`, if
there is an `exit` in the input, and never gets there if there is none. -/
theorem process_exits {tr : List (Step (Process κ) ProcessAct)} {s : Process κ}
    (h : (process K cfg conv input).Run tr s) (hlive : s.net.terminated = false)
    (hreading : s.reading = true) :
    ((∃ c ∈ input.commands, isExit c = true) →
      ∃ post s', (process K cfg conv input).Run (tr ++ post) s' ∧ s'.reading = false
        ∧ ∀ t ∈ post, t.act.IsOwn)
    ∧ ((∀ c ∈ input.commands, isExit c = false) →
      ∀ post s', (process K cfg conv input).Run (tr ++ post) s' → s'.reading = true) := by
  constructor
  · intro hexit
    obtain ⟨hfile, hnoExit, ended, hcommands, hgoes, -⟩ := queued_of_run h
    -- the `exit` was not carried out yet, so it is queued or still to come
    have hahead : ∃ c ∈ s.command.cmds ++ s.pending, isExit c = true := by
      obtain ⟨c, hc, hcexit⟩ := hexit
      rw [← hcommands, hgoes hreading] at hc
      have hother : c ∉ executed tr := fun hold => by simp [hnoExit c hold] at hcexit
      exact ⟨c, by simpa [hother] using hc, hcexit⟩
    have hend : ∃ s', s.Goes K cfg conv input s' ∧ s'.reading = false := by
      cases htyped : s.typed with
      | none =>
          exact goes_stop s.command.cmds rfl hlive hreading
            (by simpa [Process.pending, htyped] using hahead)
      | some lines =>
          obtain ⟨s₁, hgoes, -, hnet, -, hreading₁, hcmds⟩ := goes_typed lines hfile hlive htyped
          obtain ⟨s₂, hgoes₂, hstopped⟩ := goes_stop _ hcmds (hnet ▸ hlive)
            (hreading₁.trans hreading) (by simpa [Process.pending, htyped] using hahead)
          exact ⟨s₂, hgoes.trans hgoes₂, hstopped⟩
    obtain ⟨s', ⟨post, hexec, hown⟩, hstopped⟩ := hend
    exact ⟨post, s', h.exec hexec, hstopped, hown⟩
  · intro hnone post s' hrun
    by_contra hstopped
    obtain ⟨c, hc, hexit⟩ := ((executed_of_run hrun).2 (by simpa using hstopped)).2
    simp [hnone c hc] at hexit

/-! ### Examples -/

namespace Demo

/-- A text as bytes. -/
def bytesOf (text : String) : Bytes := text.toList.map fun c => UInt8.ofNat c.toNat

def textConv : TextConv := ⟨fun _ => none, fun _ => none⟩

/-- `status` is typed, then a file is named that recovers `n1`. -/
def typedStatus : Typed := ⟨bytesOf "status", none⟩

def typedFile : Typed := ⟨bytesOf "file f", some [bytesOf "# again", bytesOf "recover n1"]⟩

def typing : Input := .typed [typedStatus, typedFile]

def statusTyped : Process (Stream Addr) :=
  ⟨start, ⟨[[bytesOf "status"]], false⟩, some [typedFile], true⟩

def statusRead : Process (Stream Addr) :=
  ⟨start.printStatus, ⟨[], false⟩, some [typedFile], true⟩

def fileTyped : Process (Stream Addr) :=
  ⟨start.printStatus, ⟨[[bytesOf "recover", bytesOf "n1"]], false⟩, some [], true⟩

def fileRead : Process (Stream Addr) :=
  ⟨start.printStatus.recover kernel config "n1", ⟨[], false⟩, some [], true⟩

theorem step_status :
    Process.Step kernel config statusTyped (.read [bytesOf "status"]) statusRead :=
  have hread : readCmd [bytesOf "status"] = none := by decide
  have hstatus : isStatus [bytesOf "status"] = true := by decide
  .read (q := ⟨[], false⟩) rfl (by decide) (by simp [Net.Reads, hread, hstatus, statusTyped, start])

theorem step_recover :
    Process.Step kernel config fileTyped (.read [bytesOf "recover", bytesOf "n1"]) fileRead :=
  have hread : readCmd [bytesOf "recover", bytesOf "n1"] = some (.recover "n1") := by decide
  have hlive : start.printStatus.terminated = false := by decide
  .read (q := ⟨[], false⟩) rfl (by decide)
    (by simp [Net.Reads, hread, Act.Step, fileTyped, hlive])

theorem run_typing : (process kernel config textConv typing).Run
    [⟨⟨start, ⟨[], false⟩, some [typedStatus, typedFile], true⟩, .line, statusTyped⟩,
      ⟨statusTyped, .read [bytesOf "status"], statusRead⟩,
      ⟨statusRead, .line, fileTyped⟩,
      ⟨fileTyped, .read [bytesOf "recover", bytesOf "n1"], fileRead⟩] fileRead :=
  have h₀ : (process kernel config textConv typing).Run []
      ⟨start, ⟨[], false⟩, some [typedStatus, typedFile], true⟩ :=
    .nil ⟨⟨rfl, rfl, rfl, rfl, rfl, rfl, rfl⟩, rfl, rfl, rfl⟩
  have h₁ := h₀.snoc (.line (q := ⟨[[bytesOf "status"]], false⟩) rfl rfl (by decide))
  have h₃ := (h₁.snoc step_status).snoc
    (.line (q := ⟨[[bytesOf "recover", bytesOf "n1"]], false⟩) rfl rfl (by decide))
  h₃.snoc step_recover

/-- One of the two commands is for the proxy. -/
theorem process_refines_typing :
    ∃ tr' n, (tcpNetwork kernel config).Run tr' n ∧ fileRead.net.Alike n
      ∧ tr'.map Step.act = [.recover "n1"]
      ∧ (tr'.map Step.act).filter (fun a => !a.isHandler) <+: typing.script.filterMap readCmd
      ∧ (fileRead.reading = false →
        (tr'.map Step.act).filter (fun a => !a.isHandler) = typing.script.filterMap readCmd) :=
  process_refines run_typing

/-- The end of the input is still to come, and with it `exit`. -/
theorem process_exits_typing :
    ∃ s', (process kernel config textConv typing).Reachable s' ∧ s'.reading = false := by
  obtain ⟨post, s', hrun, hstopped, -⟩ := (process_exits run_typing rfl rfl).1 (hasExit_typed _)
  exact ⟨s', ⟨_, hrun⟩, hstopped⟩

end Demo

end Tmet.Tproxy
