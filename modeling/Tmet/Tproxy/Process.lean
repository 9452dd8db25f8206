import Tmet.Tproxy.Command

/-!
# `Tmet.Tproxy.Process`: the queue of the commands and its two ends

The model of the class `Command`, of `Repl::readline`, of the loop of `run_read_cmd` with
`print_status`, and of how `main` puts them together. With the strategy `cmd` one thread
reads the lines that are typed and queues them, another takes them off the queue and
carries them out, and a third is `run_epoll`. With the strategy `file` the file is queued
before the loop of `run_read_cmd` begins.

What a file holds at the time it is read comes with the line that names it. `typed` are
the lines still to come, and `none` after `readline` has returned. The prompt, the
history of the lines and the texts that are printed are left out.
-/

set_option autoImplicit false

namespace Tmet.Tproxy

open Tmet.Lib Tmet.Posix

/-! ### The queue -/

/-- `exit`, which `read_file` and `readline` put at the end. -/
def EXIT : Bytes := [0x65, 0x78, 0x69, 0x74]

/-- `c.get_cmd() == "exit"`. -/
def isExit (c : List Bytes) : Bool := decide (c.head?.map textOf = some "exit")

/-- The members of `Command`. -/
structure Command where
  cmds : List (List Bytes)
  isFile : Bool
deriving DecidableEq, Repr

/-- `Command::Command`. -/
def Command.new (cfg : ConfigFile) : Command := ⟨[], decide (cfg.strategy = .file)⟩

/-- `enqueue(cmd_t &&)`: whether the command was not empty. -/
def Command.enqueue (q : Command) (c : List Bytes) : Bool × Command :=
  if c = [] then (false, q) else (true, { q with cmds := q.cmds ++ [c] })

/-- `enqueue(const string &)`. -/
def Command.enqueueLine (q : Command) (line : Bytes) : Bool × Command := q.enqueue (cmdT line)

/-- `read_file` on the lines of the file; `none` if it cannot be opened. -/
def Command.readFile (q : Command) (file : Option (List Bytes)) : Command :=
  match file with
  | none => q
  | some lines =>
      let q := lines.foldl (fun q line => (q.enqueueLine line).2) q
      if q.isFile then (q.enqueueLine EXIT).2 else q

/-- `dequeue`: what it returns, and the command; `none` while it waits. -/
def Command.dequeue (q : Command) : Option (Bool × List Bytes × Command) :=
  match q.cmds with
  | [] => if q.isFile then some (false, [], q) else none
  | c :: cmds => some (!isExit c, c, { q with cmds := cmds })

/-! ### What is typed -/

/-- A line, and the lines of the file that it names. -/
structure Typed where
  line : Bytes
  file : Option (List Bytes) := none
deriving DecidableEq, Repr

/-- The loop of `Repl::readline` on one line: whether it goes on. -/
def readTyped (q : Command) (t : Typed) : Bool × Command :=
  match cmdT t.line with
  | [] => (true, q)
  | cmd :: args =>
      if textOf cmd = "file" then
        match args with
        | [_] => (true, q.readFile t.file)
        | _ => (true, q)
      else if isExit (cmd :: args) then (false, q)
      else (true, (q.enqueue (cmd :: args)).2)

/-! ### The status -/

/-- The command is `status`, alone. -/
def isStatus (c : List Bytes) : Bool := decide (c.map textOf = ["status"])

variable {κ : Type}

/-- `print_status`. It looks up the queue of every entry by `operator[]`, and a channel
that has none gets one. -/
def Net.printStatus (s : Net κ) : Net κ :=
  let queue (s : Net κ) (fd : Fd) : Net κ :=
    match s.fdToChannelStatus.get fd with
    | none => s
    | some st =>
        let q := (s.network.get st.channel).getD []
        { s with network := s.network.insert st.channel q }
  s.keys.foldl queue s

/-! ### The threads -/

/-- What `main` has started; `reading` as long as `run_read_cmd` has not returned. -/
structure Process (κ : Type) where
  net : Net κ
  command : Command
  typed : Option (List Typed)
  reading : Bool

/-- A step of `readline`, of `run_read_cmd` on a command, its end, and a handler of
`run_epoll` or something outside of the process. -/
inductive ProcessAct
  | line
  | read (c : List Bytes)
  | stop
  | handler (act : Act)
deriving DecidableEq, Repr

/-- The acts of the thread of `run_epoll`, and of the surroundings. -/
def Act.isHandler : Act → Bool
  | .accept => true
  | .readable _ => true
  | .environment => true
  | _ => false

variable (K : Kernel κ Ctl Addr) (cfg : ConfigFile)

/-- `run_read_cmd` on a command. One that is not understood does nothing. -/
def Net.Reads (c : List Bytes) (s s' : Net κ) : Prop :=
  match readCmd c with
  | some act => act.Step K cfg s s'
  | none => s.terminated = false ∧ s' = if isStatus c then s.printStatus else s

/-- One step of one of the threads. -/
inductive Process.Step : Process κ → ProcessAct → Process κ → Prop
  | line {s : Process κ} {t : Typed} {typed : List Typed} {q : Command} :
      s.net.terminated = false → s.typed = some (t :: typed) →
      readTyped s.command t = (true, q) →
      Step s .line { s with command := q, typed := some typed }
  /-- `exit` was typed. -/
  | exit {s : Process κ} {t : Typed} {typed : List Typed} {q : Command} :
      s.net.terminated = false → s.typed = some (t :: typed) →
      readTyped s.command t = (false, q) →
      Step s .line { s with command := (q.enqueueLine EXIT).2, typed := none }
  /-- The end of the input. -/
  | eof {s : Process κ} :
      s.net.terminated = false → s.typed = some [] →
      Step s .line { s with command := (s.command.enqueueLine EXIT).2, typed := none }
  | read {s : Process κ} {c : List Bytes} {q : Command} {net : Net κ} :
      s.reading = true → s.command.dequeue = some (true, c, q) → s.net.Reads K cfg c net →
      Step s (.read c) { s with net := net, command := q }
  | stop {s : Process κ} {c : List Bytes} {q : Command} :
      s.net.terminated = false → s.reading = true → s.command.dequeue = some (false, c, q) →
      Step s .stop { s with command := q, reading := false }
  | handler {s : Process κ} {act : Act} {net : Net κ} :
      act.isHandler = true → act.Step K cfg s.net net →
      Step s (.handler act) { s with net := net }

/-- Where the commands come from. -/
inductive Input
  | typed (lines : List Typed)
  | file (lines : Option (List Bytes))
deriving DecidableEq, Repr

/-- The process at the start of its threads. The global `command` was constructed before
`main` has loaded the configuration, from the empty one. The command file is read before
the loop over the commands begins, and nothing else touches the queue till then. -/
def Process.Initial (conv : TextConv) (input : Input) (s : Process κ) : Prop :=
  s.net.Initial ∧ s.reading = true ∧
    match input with
    | .typed lines => s.typed = some lines ∧ s.command = .new (.empty conv)
    | .file lines => s.typed = none ∧ s.command = (Command.new (.empty conv)).readFile lines

/-- The runs of the process. -/
def process (conv : TextConv) (input : Input) : System (Process κ) ProcessAct where
  init := Process.Initial conv input
  step := Process.Step K cfg

end Tmet.Tproxy
