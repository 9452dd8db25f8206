import Tmet.Posix.Text

/-!
# `Tmet.Tproxy.ConfigFile`: addresses, nodes and masquerading

The model of `tproxy/ConfigFile.cpp`: the configuration, the lookups in it, and how
it is loaded. What `load` guarantees about the tables and a lookup relies on is a
field of `ConfigFile`. `none` is a load that does not get to its end: an exception of
`stoi`, or a token that is not there.
-/

set_option autoImplicit false

namespace Tmet.Tproxy

open Tmet.Posix

/-- `struct sockaddr_in`, up to its family. The comparisons of `ConfigFile.h`
(`cmp_addr_less`, `cmp_addr_equal`) look at the address and the port only, and
nothing in `tproxy` reads the family. -/
structure Addr where
  sAddr : UInt32
  sinPort : UInt16
deriving DecidableEq, Repr

/-- The address with its port set to 0. -/
def Addr.host (a : Addr) : Addr := { a with sinPort := 0 }

/-- `(in_port_t)-1`, the port of an address that was not found. -/
def INVALID_PORT : UInt16 := 0xffff

/-- `enum strategy_t`. -/
inductive Strategy
  | notSet
  | direct
  | cmd
  | file
deriving DecidableEq, Repr

/-- A loaded configuration. `cidrMap` lists the map in its order. A rule of it
holds the prefix length in the place of a port. `inet_aton` is the library
function that `get_node_addr` falls back on. -/
structure ConfigFile where
  addrMap : Addr → Option Addr
  cidrMap : List (Addr × Addr)
  addrToNode : Addr → Option String := fun _ => none
  nodeToAddr : String → Option Addr
  routerAddr : Addr
  strategy : Strategy
  cmdFile : String := ""
  inetAton : String → Option UInt32
  /-- `node` lines are converted without a port, and the `router` entry has its
  port cleared. -/
  nodeToAddr_port : ∀ name a, nodeToAddr name = some a → a.sinPort = 0

namespace ConfigFile

/-- `unsigned(-1) << (32 - prefix)`. -/
def netmask (len : UInt16) : UInt32 := (0xffffffff : UInt32) <<< (32 - len.toUInt32)

/-- `addr_mask`. -/
def addrMask (a : Addr) (mask : UInt32) : UInt32 := ntohl a.sAddr &&& mask

/-- `get_masquerade_addr`. -/
def getMasqueradeAddr (cfg : ConfigFile) (origin : Addr) : Addr :=
  match cfg.addrMap origin with
  | some a => a
  | none =>
      let inSubnet (rule : Addr × Addr) : Bool :=
        let mask := netmask rule.1.sinPort
        addrMask rule.1 mask == addrMask origin mask
      -- the first rule in the order of the map
      match cfg.cidrMap.find? inSubnet with
      | some rule =>
          let mask := netmask rule.2.sinPort
          { origin with sAddr := ntohl (addrMask rule.2 mask ||| addrMask origin (~~~ mask)) }
      | none => origin

/-- `get_node_addr`. -/
def getNodeAddr (cfg : ConfigFile) (name : String) : Addr :=
  match cfg.nodeToAddr name with
  | some a => a
  | none =>
      -- a name that is not in the file may be an address
      match cfg.inetAton name with
      | some ip => ⟨ip, 0⟩
      | none => ⟨0, INVALID_PORT⟩

/-- `is_router_addr`. -/
def isRouterAddr (cfg : ConfigFile) (a : Addr) : Bool := decide (a = cfg.routerAddr)

/-- `is_direct` of `TcpNetwork`. -/
def isDirect (cfg : ConfigFile) : Bool := decide (cfg.strategy = .direct)

/-! ### Loading -/

/-- `cmp_addr_less`. -/
def cmpAddrLess (a b : Addr) : Bool :=
  if a.sAddr = b.sAddr then decide (a.sinPort < b.sinPort) else decide (a.sAddr < b.sAddr)

/-- `which[origin] = masquerade` on the list of a map. -/
def insertRule (origin masquerade : Addr) : List (Addr × Addr) → List (Addr × Addr)
  | [] => [(origin, masquerade)]
  | rule :: rules =>
      if rule.1 = origin then (origin, masquerade) :: rules
      else if cmpAddrLess origin rule.1 then (origin, masquerade) :: rule :: rules
      else rule :: insertRule origin masquerade rules

/-- `convert_addr`; `none` if `stoi` throws. -/
def convertAddr (conv : TextConv) (addr : String) (delim : Char) : Option Addr :=
  let (ip, port) := splitAddr addr delim
  let sAddr := (conv.inetAton ip).getD 0
  if delim = ':' then (conv.stoi port).map fun n => ⟨sAddr, htons (UInt16.ofInt n)⟩
  else if delim = '/' then (conv.stoi port).map fun n => ⟨sAddr, UInt16.ofInt n⟩
  else some ⟨sAddr, 0⟩

/-- A `map-addr` line with two addresses. -/
def mapAddr (cfg : ConfigFile) (origin masquerade : Addr) : ConfigFile :=
  if origin.sinPort = 0 ∨ masquerade.sinPort = 0 then cfg
  else { cfg with addrMap := Function.update cfg.addrMap origin (some masquerade) }

/-- A `map-cidr` line with two networks. -/
def mapCidr (cfg : ConfigFile) (origin masquerade : Addr) : ConfigFile :=
  if origin.sinPort = 0 ∨ masquerade.sinPort = 0 then cfg
  else { cfg with cidrMap := insertRule origin masquerade cfg.cidrMap }

/-- A `node` line; the address was converted without a port. -/
def node (cfg : ConfigFile) (name : String) (sAddr : UInt32) : ConfigFile :=
  if sAddr = 0 then cfg
  else
    { cfg with
      addrToNode := Function.update cfg.addrToNode ⟨sAddr, 0⟩ (some name)
      nodeToAddr := Function.update cfg.nodeToAddr name (some ⟨sAddr, 0⟩)
      nodeToAddr_port := by
        intro x a h
        by_cases hx : x = name
        · rw [hx, Function.update_self] at h
          cases h
          rfl
        · rw [Function.update_of_ne hx] at h
          exact cfg.nodeToAddr_port x a h }

/-- A `router` line. -/
def router (cfg : ConfigFile) (a : Addr) : ConfigFile :=
  if a.sinPort = 0 then cfg
  else
    { cfg with
      routerAddr := a
      addrToNode := Function.update cfg.addrToNode a.host (some "router")
      nodeToAddr := Function.update cfg.nodeToAddr "router" (some a.host)
      nodeToAddr_port := by
        intro x b h
        by_cases hx : x = "router"
        · rw [hx, Function.update_self] at h
          cases h
          rfl
        · rw [Function.update_of_ne hx] at h
          exact cfg.nodeToAddr_port x b h }

/-- `allowed_strategies`. -/
def allowedStrategies (name : String) : Option Strategy :=
  if name = "direct" then some .direct
  else if name = "cmd" then some .cmd
  else if name = "file" then some .file
  else none

/-- What is printed for a line: nothing, what was read from it, or one of the two
warnings. -/
inductive Notice
  | quiet
  | accepted
  | invalidCmd
  | strategyTwice
deriving DecidableEq, Repr

/-- The end of the loop's body: the warning, if `ok` was not set. -/
def report (ok : Bool) : Notice := if ok then .accepted else .invalidCmd

/-- A `strategy` line; `more` are the tokens behind the name. The command file is the
first of them, whether there is one or not. -/
def setStrategy (cfg : ConfigFile) (name : String) (more : List String) :
    Option (Notice × ConfigFile) :=
  if cfg.strategy ≠ .notSet then some (.strategyTwice, cfg)
  else
    match allowedStrategies name with
    | none => some (.invalidCmd, cfg)
    | some strategy =>
        -- only `file` takes an argument
        if more ≠ [] ∧ strategy ≠ .file then some (.invalidCmd, cfg)
        else if strategy = .file then
          more.head?.map fun file =>
            (.accepted, { cfg with strategy := strategy, cmdFile := file })
        else some (.accepted, { cfg with strategy := strategy })

/-- One line in `load`. -/
def readLine (conv : TextConv) (cfg : ConfigFile) (line : String) :
    Option (Notice × ConfigFile) :=
  match getTokens line with
  | [] => some (.quiet, cfg)
  | [_] => some (.invalidCmd, cfg)
  | cmd :: x :: more =>
      if cmd = "map-addr" ∧ more.length = 1 then
        -- both addresses are converted before either is tested
        match convertAddr conv x ':', convertAddr conv (more.headD "") ':' with
        | some origin, some masquerade =>
            some (report (origin.sinPort ≠ 0 ∧ masquerade.sinPort ≠ 0),
              cfg.mapAddr origin masquerade)
        | _, _ => none
      else if cmd = "map-cidr" ∧ more.length = 1 then
        match convertAddr conv x '/', convertAddr conv (more.headD "") '/' with
        | some origin, some masquerade =>
            some (report (origin.sinPort ≠ 0 ∧ masquerade.sinPort ≠ 0),
              cfg.mapCidr origin masquerade)
        | _, _ => none
      else if cmd = "node" ∧ more.length = 1 then
        (convertAddr conv (more.headD "") ' ').map fun a =>
          (report (a.sAddr ≠ 0), cfg.node x a.sAddr)
      else if cmd = "strategy" then cfg.setStrategy x more
      else if cmd = "router" then
        (convertAddr conv x ':').map fun a => (report (a.sinPort ≠ 0), cfg.router a)
      else some (.invalidCmd, cfg)

/-- The configuration after one line. -/
def loadLine (conv : TextConv) (cfg : ConfigFile) (line : String) : Option ConfigFile :=
  (cfg.readLine conv line).map Prod.snd

/-- Before anything is loaded. -/
def empty (conv : TextConv) : ConfigFile where
  addrMap _ := none
  cidrMap := []
  nodeToAddr _ := none
  routerAddr := ⟨0, 0⟩
  strategy := .notSet
  inetAton := conv.inetAton
  nodeToAddr_port _ _ h := by cases h

/-- `load`. -/
def load (conv : TextConv) (lines : List String) : Option ConfigFile :=
  lines.foldlM (loadLine conv) (empty conv)

theorem convertAddr_colon (conv : TextConv) (addr : String) :
    convertAddr conv addr ':' = (conv.stoi (splitAddr addr ':').2).map fun n =>
      ⟨(conv.inetAton (splitAddr addr ':').1).getD 0, htons (UInt16.ofInt n)⟩ := rfl

theorem convertAddr_slash (conv : TextConv) (addr : String) :
    convertAddr conv addr '/' = (conv.stoi (splitAddr addr '/').2).map fun n =>
      ⟨(conv.inetAton (splitAddr addr '/').1).getD 0, UInt16.ofInt n⟩ := rfl

theorem report_eq_invalidCmd_iff {ok : Bool} : report ok = .invalidCmd ↔ ok = false := by
  cases ok <;> simp [report]

/-- A `node`, `strategy` or `router` line keeps the rules. -/
theorem node_rules (cfg : ConfigFile) (name : String) (sAddr : UInt32) :
    (cfg.node name sAddr).addrMap = cfg.addrMap ∧ (cfg.node name sAddr).cidrMap = cfg.cidrMap := by
  rw [node]
  split <;> exact ⟨rfl, rfl⟩

theorem router_rules (cfg : ConfigFile) (a : Addr) :
    (cfg.router a).addrMap = cfg.addrMap ∧ (cfg.router a).cidrMap = cfg.cidrMap := by
  rw [router]
  split <;> exact ⟨rfl, rfl⟩

theorem setStrategy_rules {cfg cfg' : ConfigFile} {name : String} {more : List String}
    {notice : Notice} (h : cfg.setStrategy name more = some (notice, cfg')) :
    cfg'.addrMap = cfg.addrMap ∧ cfg'.cidrMap = cfg.cidrMap := by
  rw [setStrategy] at h
  split at h
  · cases h
    exact ⟨rfl, rfl⟩
  · split at h
    · cases h
      exact ⟨rfl, rfl⟩
    · split at h
      · cases h
        exact ⟨rfl, rfl⟩
      · split at h
        · obtain ⟨file, -, heq⟩ := Option.map_eq_some_iff.mp h
          cases heq
          exact ⟨rfl, rfl⟩
        · cases h
          exact ⟨rfl, rfl⟩

/-- What one line does to the rules: it has one, or it keeps them. -/
theorem loadLine_cases {conv : TextConv} {cfg cfg' : ConfigFile} {line : String}
    (h : cfg.loadLine conv line = some cfg') :
    (∃ x y origin masquerade, getTokens line = ["map-addr", x, y]
        ∧ convertAddr conv x ':' = some origin ∧ convertAddr conv y ':' = some masquerade
        ∧ cfg' = cfg.mapAddr origin masquerade)
      ∨ (∃ x y origin masquerade, getTokens line = ["map-cidr", x, y]
        ∧ convertAddr conv x '/' = some origin ∧ convertAddr conv y '/' = some masquerade
        ∧ cfg' = cfg.mapCidr origin masquerade)
      ∨ ((∀ x y, getTokens line ≠ ["map-addr", x, y] ∧ getTokens line ≠ ["map-cidr", x, y])
        ∧ cfg'.addrMap = cfg.addrMap ∧ cfg'.cidrMap = cfg.cidrMap) := by
  obtain ⟨⟨notice, cfg₁⟩, hread, rfl⟩ := Option.map_eq_some_iff.mp h
  dsimp only
  rw [readLine] at hread
  split at hread
  · next htokens =>
    cases hread
    exact Or.inr (Or.inr ⟨by simp [htokens], rfl, rfl⟩)
  · next htokens =>
    cases hread
    exact Or.inr (Or.inr ⟨by simp [htokens], rfl, rfl⟩)
  · next cmd x more htokens =>
    split at hread
    · next hcmd =>
      obtain ⟨rfl, hlen⟩ := hcmd
      obtain ⟨y, rfl⟩ := List.length_eq_one_iff.mp hlen
      split at hread
      · next origin masquerade ho hm =>
        cases hread
        exact Or.inl ⟨x, y, origin, masquerade, htokens, ho, hm, rfl⟩
      · cases hread
    · next haddr =>
      split at hread
      · next hcmd =>
        obtain ⟨rfl, hlen⟩ := hcmd
        obtain ⟨y, rfl⟩ := List.length_eq_one_iff.mp hlen
        split at hread
        · next origin masquerade ho hm =>
          cases hread
          exact Or.inr (Or.inl ⟨x, y, origin, masquerade, htokens, ho, hm, rfl⟩)
        · cases hread
      -- no rule: `node`, `strategy`, `router` and everything else keep both maps
      · next hcidr =>
        refine Or.inr (Or.inr ⟨fun x' y' => ⟨fun heq => ?_, fun heq => ?_⟩, ?_⟩)
        · rw [htokens] at heq
          cases heq
          exact haddr ⟨rfl, rfl⟩
        · rw [htokens] at heq
          cases heq
          exact hcidr ⟨rfl, rfl⟩
        · split at hread
          · obtain ⟨a, -, heq⟩ := Option.map_eq_some_iff.mp hread
            cases heq
            exact cfg.node_rules x a.sAddr
          · split at hread
            · exact setStrategy_rules hread
            · split at hread
              · obtain ⟨a, -, heq⟩ := Option.map_eq_some_iff.mp hread
                cases heq
                exact cfg.router_rules a
              · cases hread
                exact ⟨rfl, rfl⟩

end ConfigFile

/-! ### Two nodes -/

namespace Demo

def n1 : Addr := ⟨0x0100000a, 0⟩

def n2 : Addr := ⟨0x0200000a, 0⟩

/-- Two nodes, 10.0.0.1 and 10.0.0.2, and commands from a file. -/
def config : ConfigFile where
  addrMap _ := none
  cidrMap := []
  nodeToAddr name := if name = "n1" then some n1 else if name = "n2" then some n2 else none
  routerAddr := ⟨0xfe00000a, 0x5000⟩
  strategy := .file
  inetAton _ := none
  nodeToAddr_port name a h := by
    split at h
    · cases h; rfl
    · split at h
      · cases h; rfl
      · cases h

end Demo

end Tmet.Tproxy
