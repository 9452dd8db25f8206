import Tmet.Mysyscall.Config

/-!
# `Tmet.Mysyscall.InitConfig`: reading the configuration file

`init_config_file` of `config.cpp` with everything that it does to a line: the two sets
of `Tmet.Mysyscall.Config`, the connection that `connect_router` of `router.cpp` makes,
and what is printed. Of the messages the kind is kept, and not the text.

Whether a connection can be made is up to the kernel, so each line comes with the answer
that the kernel gives there. The thread that a connection starts is
`Tmet.Mysyscall.Router`.
-/

set_option autoImplicit false

namespace Tmet.Mysyscall

open Tmet.Posix

/-- `line.c_str()`: a string ends at its first NUL. -/
def cStr (line : String) : String := String.ofList (line.toList.takeWhile (· ≠ Char.ofNat 0))

/-- The answer of the kernel to `socket` and `connect`. -/
inductive Answer
  | socketFails
  | connectFails
  | connected
deriving DecidableEq, Repr

/-- A message for a line: what was read from it, or a warning. -/
inductive Message
  | rule
  | router
  | alreadyConnected
  | socket
  | connect
  | invalidCmd
deriving DecidableEq, Repr

/-- `connect_router`, before it starts the thread: what it prints, what it returns, and
`is_connected` afterwards. `none` if `stoi` throws. -/
def connectRouter (conv : TextConv) (isConnected : Bool) (addr : String) (answer : Answer) :
    Option (List Message × Bool × Bool) :=
  if isConnected then some ([.alreadyConnected], false, true)
  else
    (Config.convertAddr conv addr ':').map fun router =>
      if router.2 = 0 then ([], false, false)
      else
        match answer with
        | .socketFails => ([.router, .socket], false, false)
        | .connectFails => ([.router, .connect], false, false)
        | .connected => ([.router], true, true)

/-- The static variables that `init_config_file` fills. -/
structure Loading where
  config : Config
  isConnected : Bool

namespace Loading

/-- Before the file is read. -/
def start : Loading where
  config := { fdMap := fun _ => none, concernAddrSet := ∅, subnetSuffix := ∅ }
  isConnected := false

/-- The origin of a rule is inserted into the sets. -/
def insertOrigin (s : Loading) (delim : Char) (origin : UInt32 × UInt16) : Loading :=
  { s with
    config := { s.config with
      concernAddrSet := insert origin s.config.concernAddrSet
      subnetSuffix :=
        if delim = ':' then s.config.subnetSuffix else insert origin.2 s.config.subnetSuffix } }

/-- One line in `init_config_file`; `none` if `stoi` throws. -/
def readLine (conv : TextConv) (s : Loading) (line : String × Answer) :
    Option (List Message × Loading) :=
  match getTokens (cStr line.1) with
  | [] => some ([], s)
  | cmd :: args =>
      -- `ignore_cmd`
      if cmd = "node" ∨ cmd = "strategy" then some ([], s)
      else
        match args with
        | [] => some ([.invalidCmd], s)
        | addr :: _ =>
            if cmd = "map-addr" ∨ cmd = "map-cidr" then
              let delim := if cmd = "map-addr" then ':' else '/'
              (Config.convertAddr conv addr delim).map fun origin =>
                if origin.2 = 0 then ([.invalidCmd], s)
                else ([.rule], s.insertOrigin delim origin)
            else if cmd = "router" then
              (connectRouter conv s.isConnected addr line.2).map fun (messages, ok, isConnected) =>
                (messages ++ (if ok then [] else [.invalidCmd]),
                  { s with isConnected := isConnected })
            else some ([.invalidCmd], s)

/-- The variables after one line. -/
def loadLine (conv : TextConv) (s : Loading) (line : String × Answer) : Option Loading :=
  (s.readLine conv line).map Prod.snd

/-- `init_config_file`. -/
def initConfigFile (conv : TextConv) (lines : List (String × Answer)) : Option Loading :=
  lines.foldlM (loadLine conv) start

/-- The sets are those of `Config.initLine`. -/
theorem initLine_of_loadLine {conv : TextConv} {s s' : Loading} {line : String × Answer}
    (h : s.loadLine conv line = some s') :
    Config.initLine conv s.config (cStr line.1) = some s'.config := by
  obtain ⟨⟨messages, s₁⟩, hread, rfl⟩ := Option.map_eq_some_iff.mp h
  dsimp only
  rw [readLine] at hread
  rw [Config.initLine]
  split at hread
  · next htokens =>
    cases hread
    rw [htokens]
  · next cmd args htokens =>
    rw [htokens]
    split at hread
    · next hignored =>
      cases hread
      have hno : ¬ (cmd = "map-addr" ∨ cmd = "map-cidr") := by
        -- `node` and `strategy` are for the proxy only
        rcases hignored with rfl | rfl <;> decide
      cases args with
      | nil => rfl
      | cons addr more => exact if_neg hno
    · cases args with
      | nil =>
          cases hread
          rfl
      | cons addr more =>
          dsimp only at hread ⊢
          split at hread
          · next hmap =>
            obtain ⟨origin, horigin, heq⟩ := Option.map_eq_some_iff.mp hread
            rw [if_pos hmap, horigin, Option.map_some]
            split at heq
            · next hport =>
              cases heq
              rw [if_pos hport]
            · next hport =>
              cases heq
              rw [if_neg hport]
              rfl
          · next hmap =>
            rw [if_neg hmap]
            split at hread
            -- `router` makes a connection and leaves the sets alone
            · obtain ⟨r, -, heq⟩ := Option.map_eq_some_iff.mp hread
              cases heq
              rfl
            · cases hread
              rfl

end Loading

end Tmet.Mysyscall
