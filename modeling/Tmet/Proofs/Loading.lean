import Tmet.Lib.Fold
import Tmet.Lib.Tokens
import Tmet.Mysyscall.InitConfig
import Tmet.Proofs.Concerned

/-!
# `Tmet.Proofs.Loading`: which lines a configuration file may hold

Both programs warn about a line that they do not understand and go on with the next one.
They do not do so for every such line. `stoi` throws when an address has no number, and
no one catches it. The number is cut to 16 bits and then only compared with 0, and the
address before it is not checked at all, so many lines that are no rules are taken for
rules. `strategy file` has no command file to read, and a second `strategy` line and a
`router` line after the connection have a warning of their own.

`WellFormed` is the syntax of a line for each program, with decimal numbers in their
range, and `Breaks` is what a line without it has to be for one of these to happen. It
is about the tokens of the line, and about whether a line before it has set the strategy
or made the connection. `readsAll_iff` is the result: the programs read all lines, and
only warn about those that are not well formed, exactly if no line breaks.
-/

set_option autoImplicit false

namespace Tmet.Posix

open Tmet.Lib Tmet.Tproxy
open Tmet.Mysyscall (Config)

/-! ### Addresses -/

/-- The two kinds of rules. -/
inductive RuleKind
  | addr
  | cidr
deriving DecidableEq, Repr

namespace RuleKind

def cmd : RuleKind → String
  | addr => "map-addr"
  | cidr => "map-cidr"

def delim : RuleKind → Char
  | addr => ':'
  | cidr => '/'

/-- The greatest number that a rule may have. -/
def most : RuleKind → ℤ
  | addr => 65535
  | cidr => 32

/-- How the number is stored, and how it is read back. -/
def swap : RuleKind → UInt16 → UInt16
  | addr, n => htons n
  | cidr, n => n

/-- An element of `concern_addr_set` for an address. -/
def element : RuleKind → Addr → UInt32 × UInt16
  | addr, a => (a.sAddr, a.sinPort)
  | cidr, a => (Config.network a.sAddr a.sinPort, a.sinPort)

@[simp] theorem delim_addr : RuleKind.addr.delim = ':' := rfl

@[simp] theorem delim_cidr : RuleKind.cidr.delim = '/' := rfl

theorem cmd_inj {kind kind' : RuleKind} (h : kind.cmd = kind'.cmd) : kind = kind' := by
  cases kind <;> cases kind'
  · rfl
  · exact absurd h (by decide)
  · exact absurd h (by decide)
  · rfl

theorem swap_swap (kind : RuleKind) (n : UInt16) : kind.swap (kind.swap n) = n := by
  cases kind
  · exact htons_htons n
  · rfl

theorem swap_eq_zero_iff (kind : RuleKind) {n : UInt16} : kind.swap n = 0 ↔ n = 0 := by
  cases kind
  · exact htons_eq_zero_iff
  · exact Iff.rfl

theorem element_port (kind : RuleKind) (a : Addr) : (kind.element a).2 = a.sinPort := by
  cases kind <;> rfl

end RuleKind

/-- The address of a text; 0.0.0.0 if it has none. -/
def address (conv : TextConv) (delim : Char) (text : String) : UInt32 :=
  (conv.inetAton (splitAddr text delim).1).getD 0

/-- An address that `inet_aton` accepts, the delimiter, and a decimal number from 1 to
`most`. -/
def AddrText (conv : TextConv) (delim : Char) (most : ℤ) (text : String) : Prop :=
  ∃ ip digits n, text.toList = ip ++ delim :: digits ∧ delim ∉ ip
    ∧ (∀ c ∈ digits, c.isDigit = true) ∧ (conv.inetAton (String.ofList ip)).isSome = true
    ∧ conv.stoi (String.ofList digits) = some n ∧ 1 ≤ n ∧ n ≤ most

/-- The number behind the delimiter, cut to 16 bits. -/
def number (conv : TextConv) (delim : Char) (text : String) : Option UInt16 :=
  (conv.stoi (splitAddr text delim).2).map UInt16.ofInt

/-- Texts of addresses that are not refused with a warning: a number cannot be read, or
none of the numbers is cut to 0. -/
def Slips (conv : TextConv) (delim : Char) (texts : List String) : Prop :=
  (∃ text ∈ texts, number conv delim text = none) ∨ ∀ text ∈ texts, number conv delim text ≠ some 0

theorem slips_of_none {conv : TextConv} {delim : Char} {texts : List String} {text : String}
    (hmem : text ∈ texts) (h : number conv delim text = none) : Slips conv delim texts :=
  Or.inl ⟨text, hmem, h⟩

theorem not_slips_singleton_iff {conv : TextConv} {delim : Char} {x : String} {n : UInt16}
    (hx : number conv delim x = some n) : ¬ Slips conv delim [x] ↔ n = 0 := by
  simp [Slips, hx]

theorem not_slips_pair_iff {conv : TextConv} {delim : Char} {x y : String} {n m : UInt16}
    (hx : number conv delim x = some n) (hy : number conv delim y = some m) :
    ¬ Slips conv delim [x, y] ↔ n = 0 ∨ m = 0 := by
  simp [Slips, hx, hy]
  tauto

theorem AddrText.validText {conv : TextConv} {delim : Char} {most : ℤ} {text : String}
    (h : AddrText conv delim most text) (hdelim : delim.isDigit = false) :
    ValidText conv text delim most := by
  obtain ⟨ip, digits, n, htext, hip, hdigits, haton, hstoi, hpos, hle⟩ := h
  obtain ⟨a, ha⟩ := Option.isSome_iff_exists.mp haton
  -- `getline` stops at the first delimiter, and there is only one
  have hfirst : getline delim (ip ++ delim :: digits) = (ip, digits) := by
    have hall : ∀ c ∈ ip, (c ≠ delim : Bool) = true := by
      intro c hc
      exact decide_eq_true fun heq => hip (heq ▸ hc)
    unfold getline
    rw [List.takeWhile_append_of_pos hall, List.dropWhile_append_of_pos hall]
    simp
  have hsecond : getline delim digits = (digits, []) := by
    have hall : ∀ c ∈ digits, (c ≠ delim : Bool) = true := by
      intro c hc
      refine decide_eq_true fun heq => ?_
      rw [heq] at hc
      exact absurd (hdigits delim hc) (by rw [hdelim]; decide)
    unfold getline
    rw [List.takeWhile_eq_self_iff.mpr hall, List.dropWhile_eq_nil_iff.mpr hall]
    rfl
  have hsplit : splitAddr text delim = (String.ofList ip, String.ofList digits) := by
    rw [splitAddr, htext, hfirst]
    dsimp only
    rw [hsecond]
  exact ⟨a, n, by rw [hsplit]; exact ha, by rw [hsplit]; exact hstoi, hpos, hle⟩

/-- A token is not split at spaces. -/
theorem splitAddr_space {line token : String} (h : token ∈ getTokens line) :
    (splitAddr token ' ').1 = token := by
  obtain ⟨chars, hchars, rfl⟩ := List.mem_map.mp h
  have hword : IsWord ' ' '#' chars := word_of_mem_tokensOf hchars
  have hall : ∀ c ∈ chars, (c ≠ ' ' : Bool) = true := by
    intro c hc
    exact decide_eq_true fun heq => hword.no_space (heq ▸ hc)
  rw [splitAddr]
  simp only [getline, String.toList_ofList]
  rw [List.takeWhile_eq_self_iff.mpr hall]

theorem convertAddr_eq (kind : RuleKind) (conv : TextConv) (x : String) :
    ConfigFile.convertAddr conv x kind.delim = (number conv kind.delim x).map fun n =>
      ⟨address conv kind.delim x, kind.swap n⟩ := by
  rw [number, Option.map_map]
  cases kind
  · exact ConfigFile.convertAddr_colon conv x
  · exact ConfigFile.convertAddr_slash conv x

theorem mysyscall_convertAddr_eq (kind : RuleKind) (conv : TextConv) (x : String) :
    Config.convertAddr conv x kind.delim
      = (ConfigFile.convertAddr conv x kind.delim).map kind.element := by
  rw [convertAddr_eq, number, Option.map_map, Option.map_map]
  cases kind
  · exact Config.convertAddr_colon conv x
  · exact Config.convertAddr_slash conv x

/-- Without a number both functions throw. -/
theorem convertAddr_of_none {conv : TextConv} {kind : RuleKind} {x : String}
    (h : number conv kind.delim x = none) :
    ConfigFile.convertAddr conv x kind.delim = none
      ∧ Config.convertAddr conv x kind.delim = none := by
  rw [mysyscall_convertAddr_eq, convertAddr_eq, h]
  exact ⟨rfl, rfl⟩

/-- Both make the same address of a number, and store it with the port 0 exactly if the
number is cut to 0. -/
theorem convertAddr_of_number {conv : TextConv} {kind : RuleKind} {x : String} {n : UInt16}
    (h : number conv kind.delim x = some n) :
    ∃ a : Addr, ConfigFile.convertAddr conv x kind.delim = some a
      ∧ Config.convertAddr conv x kind.delim = some (kind.element a)
      ∧ (a.sinPort = 0 ↔ n = 0) := by
  rw [mysyscall_convertAddr_eq, convertAddr_eq, h]
  exact ⟨_, rfl, rfl, kind.swap_eq_zero_iff⟩

/-- The address of a router. -/
theorem convertAddr_of_port {conv : TextConv} {x : String} {n : UInt16}
    (h : number conv ':' x = some n) :
    ∃ a : Addr, ConfigFile.convertAddr conv x ':' = some a
      ∧ Config.convertAddr conv x ':' = some (a.sAddr, a.sinPort)
      ∧ (a.sinPort = 0 ↔ n = 0) := by
  have hnumber : number conv RuleKind.addr.delim x = some n := h
  exact convertAddr_of_number hnumber

theorem convertAddr_of_no_port {conv : TextConv} {x : String} (h : number conv ':' x = none) :
    ConfigFile.convertAddr conv x ':' = none ∧ Config.convertAddr conv x ':' = none := by
  have hnumber : number conv RuleKind.addr.delim x = none := h
  exact convertAddr_of_none hnumber

end Tmet.Posix

/-! ### The proxy -/

namespace Tmet.Tproxy

open Tmet.Lib Tmet.Posix

/-- A strategy, with a command file if it is `file`. -/
def StrategyArgs (args : List String) : Prop :=
  args = ["direct"] ∨ args = ["cmd"] ∨ ∃ file more, args = "file" :: file :: more

namespace ConfigFile

/-- The lines that `load` is for. -/
def WellFormed (conv : TextConv) (line : String) : Prop :=
  getTokens line = []
    ∨ (∃ x y, getTokens line = ["map-addr", x, y]
        ∧ AddrText conv ':' 65535 x ∧ AddrText conv ':' 65535 y)
    ∨ (∃ x y, getTokens line = ["map-cidr", x, y]
        ∧ AddrText conv '/' 32 x ∧ AddrText conv '/' 32 y)
    ∨ (∃ name ip, getTokens line = ["node", name, ip] ∧ (conv.inetAton ip).isSome = true)
    ∨ (∃ args, getTokens line = "strategy" :: args ∧ StrategyArgs args)
    ∨ ∃ x more, getTokens line = "router" :: x :: more ∧ AddrText conv ':' 65535 x

/-- The line sets the strategy if none is set. -/
def SetsStrategy (line : String) : Prop :=
  ∃ args, getTokens line = "strategy" :: args ∧ StrategyArgs args

/-- A line that is not well formed, and not refused with the warning about an invalid
command. `isSet` says whether there is a strategy. -/
def Breaks (conv : TextConv) (isSet : Prop) (line : String) : Prop :=
  ¬ WellFormed conv line
    ∧ ((∃ x y, getTokens line = ["map-addr", x, y] ∧ Slips conv ':' [x, y])
      ∨ (∃ x y, getTokens line = ["map-cidr", x, y] ∧ Slips conv '/' [x, y])
      ∨ (∃ name more, getTokens line = "strategy" :: name :: more ∧ (isSet ∨ name = "file"))
      ∨ ∃ x more, getTokens line = "router" :: x :: more ∧ Slips conv ':' [x])

/-- The line is only warned about. -/
def WarnsOnly (conv : TextConv) (cfg : ConfigFile) (line : String) : Prop :=
  cfg.readLine conv line = some (.invalidCmd, cfg)

/-- A rule with a pair of addresses, however it is stored. -/
theorem pair_warnsOnly_iff (conv : TextConv) (cfg : ConfigFile) (kind : RuleKind) (x y : String)
    (store : Addr → Addr → ConfigFile)
    (hstore : ∀ a b, a.sinPort = 0 ∨ b.sinPort = 0 → store a b = cfg) :
    (match convertAddr conv x kind.delim, convertAddr conv y kind.delim with
      | some a, some b => some (report (a.sinPort ≠ 0 ∧ b.sinPort ≠ 0), store a b)
      | _, _ => none) = some (Notice.invalidCmd, cfg)
      ↔ ¬ Slips conv kind.delim [x, y] := by
  -- a text without a number throws, whichever of the two it is
  cases hnx : number conv kind.delim x with
  | none =>
      have hslips : Slips conv kind.delim [x, y] := slips_of_none (by simp) hnx
      simp [(convertAddr_of_none hnx).1, hslips]
  | some n =>
      obtain ⟨a, hx, -, han⟩ := convertAddr_of_number hnx
      cases hny : number conv kind.delim y with
      | none =>
          have hslips : Slips conv kind.delim [x, y] := slips_of_none (by simp) hny
          simp [hx, (convertAddr_of_none hny).1, hslips]
      | some m =>
          obtain ⟨b, hy, -, hbm⟩ := convertAddr_of_number hny
          rw [not_slips_pair_iff hnx hny, ← han, ← hbm, hx, hy]
          dsimp only
          rw [Option.some_inj, Prod.mk.injEq, report_eq_invalidCmd_iff, decide_eq_false_iff_not]
          constructor
          · rintro ⟨hno, -⟩
            tauto
          · intro hzero
            exact ⟨by tauto, hstore a b hzero⟩

/-- A `strategy` line that is not well formed. -/
theorem setStrategy_warnsOnly_iff (cfg : ConfigFile) {name : String} {more : List String}
    (hargs : ¬ StrategyArgs (name :: more)) :
    cfg.setStrategy name more = some (Notice.invalidCmd, cfg)
      ↔ ¬ (cfg.strategy ≠ .notSet ∨ name = "file") := by
  rw [setStrategy]
  by_cases hset : cfg.strategy = .notSet
  · rw [if_neg (not_not.mpr hset)]
    unfold StrategyArgs at hargs
    unfold allowedStrategies
    by_cases hfile : name = "file"
    · -- the command file is missing
      have hmore : more = [] := by
        cases more with
        | nil => rfl
        | cons file rest => exact absurd (Or.inr (Or.inr ⟨file, rest, by rw [hfile]⟩)) hargs
      simp [hfile, hmore]
    · have hmore : name = "direct" ∨ name = "cmd" → more ≠ [] := by
        rintro (rfl | rfl) rfl
        · exact hargs (Or.inl rfl)
        · exact hargs (Or.inr (Or.inl rfl))
      by_cases hdirect : name = "direct"
      · simp [hdirect, hmore (Or.inl hdirect), hset]
      · by_cases hcmd : name = "cmd"
        · simp [hcmd, hmore (Or.inr hcmd), hset]
        · simp [hdirect, hcmd, hfile, hset]
  · rw [if_pos hset]
    simp [hset]

/-- A `router` line. -/
theorem router_warnsOnly_iff (conv : TextConv) (cfg : ConfigFile) (x : String) :
    ((convertAddr conv x ':').map fun a => (report (a.sinPort ≠ 0), cfg.router a))
        = some (Notice.invalidCmd, cfg) ↔ ¬ Slips conv ':' [x] := by
  cases hnx : number conv ':' x with
  | none =>
      have hslips : Slips conv ':' [x] := slips_of_none (by simp) hnx
      simp [(convertAddr_of_no_port hnx).1, hslips]
  | some n =>
      obtain ⟨a, hx, -, han⟩ := convertAddr_of_port hnx
      rw [not_slips_singleton_iff hnx, ← han, hx, Option.map_some, Option.some_inj, Prod.mk.injEq,
        report_eq_invalidCmd_iff, decide_eq_false_iff_not, not_not]
      constructor
      · exact And.left
      · intro hzero
        exact ⟨hzero, by rw [router, if_pos hzero]⟩

/-- A line that is not well formed. -/
theorem warnsOnly_iff {conv : TextConv} {cfg : ConfigFile} {line : String}
    (h : ¬ WellFormed conv line) :
    WarnsOnly conv cfg line ↔ ¬ Breaks conv (cfg.strategy ≠ .notSet) line := by
  unfold WarnsOnly
  unfold Breaks
  rw [and_iff_right h, readLine]
  split
  · next htokens => exact absurd (Or.inl htokens) h
  · next cmd htokens => simp [htokens]
  · next cmd x more htokens =>
    split
    · next hcmd =>
      obtain ⟨rfl, hlen⟩ := hcmd
      obtain ⟨y, rfl⟩ := List.length_eq_one_iff.mp hlen
      refine (pair_warnsOnly_iff conv cfg .addr x y cfg.mapAddr ?_).trans ?_
      · exact fun a b hzero => if_pos hzero
      · simp [htokens]
    · next haddr =>
      split
      · next hcmd =>
        obtain ⟨rfl, hlen⟩ := hcmd
        obtain ⟨y, rfl⟩ := List.length_eq_one_iff.mp hlen
        refine (pair_warnsOnly_iff conv cfg .cidr x y cfg.mapCidr ?_).trans ?_
        · exact fun a b hzero => if_pos hzero
        · simp [htokens]
      · next hcidr =>
        have hnotMap : ∀ x' y', cmd :: x :: more ≠ ["map-addr", x', y']
            ∧ cmd :: x :: more ≠ ["map-cidr", x', y'] := by
          intro x' y'
          constructor
          · intro heq
            cases heq
            exact haddr ⟨rfl, rfl⟩
          · intro heq
            cases heq
            exact hcidr ⟨rfl, rfl⟩
        split
        · next hcmd =>
          -- a node without an address
          obtain ⟨rfl, hlen⟩ := hcmd
          obtain ⟨ip, rfl⟩ := List.length_eq_one_iff.mp hlen
          have hnone : conv.inetAton ip = none := by
            by_contra hsome
            refine h (Or.inr (Or.inr (Or.inr (Or.inl ⟨x, ip, htokens, ?_⟩))))
            exact Option.isSome_iff_ne_none.mpr hsome
          have hmem : ip ∈ getTokens line := by simp [htokens]
          have hip : (splitAddr ip ' ').1 = ip := splitAddr_space hmem
          simp [convertAddr, hip, hnone, report, node, htokens]
        · split
          · next hcmd =>
            obtain rfl := hcmd
            have hargs : ¬ StrategyArgs (x :: more) := by
              intro hargs
              exact h (Or.inr (Or.inr (Or.inr (Or.inr (Or.inl ⟨_, htokens, hargs⟩)))))
            refine (setStrategy_warnsOnly_iff cfg hargs).trans ?_
            simp [htokens]
          · split
            · next hcmd =>
              obtain rfl := hcmd
              refine (router_warnsOnly_iff conv cfg x).trans ?_
              simp [htokens]
            · next hstrategy hrouter =>
              refine iff_of_true rfl ?_
              rw [htokens]
              rintro (⟨x', y', heq, -⟩ | ⟨x', y', heq, -⟩ | ⟨name, more', heq, -⟩ | ⟨x', more', heq, -⟩)
              · exact (hnotMap x' y').1 heq
              · exact (hnotMap x' y').2 heq
              · exact hstrategy (List.cons.inj heq).1
              · exact hrouter (List.cons.inj heq).1

/-- What a `strategy` line does to the strategy. -/
theorem setStrategy_strategy {cfg cfg' : ConfigFile} {name : String} {more : List String}
    {notice : Notice} (h : cfg.setStrategy name more = some (notice, cfg')) :
    cfg'.strategy ≠ .notSet ↔ cfg.strategy ≠ .notSet ∨ StrategyArgs (name :: more) := by
  by_cases hset : cfg.strategy = .notSet
  · rw [or_iff_right (not_not.mpr hset)]
    rw [setStrategy, if_neg (not_not.mpr hset)] at h
    unfold allowedStrategies at h
    unfold StrategyArgs
    -- `direct` and `cmd` take no argument, `file` takes at least one
    by_cases hdirect : name = "direct"
    · cases more with
      | nil =>
          simp [hdirect] at h
          simp [← h.2, hdirect]
      | cons x more =>
          simp [hdirect] at h
          simp [← h.2, hdirect, hset]
    · by_cases hcmd : name = "cmd"
      · cases more with
        | nil =>
            simp [hcmd] at h
            simp [← h.2, hcmd]
        | cons x more =>
            simp [hcmd] at h
            simp [← h.2, hcmd, hset]
      · by_cases hfile : name = "file"
        · cases more with
          | nil => simp [hfile] at h
          | cons x more =>
              simp [hfile] at h
              simp [← h.2, hfile]
        · simp [hdirect, hcmd, hfile] at h
          simp [← h.2, hset, hdirect, hcmd, hfile]
  -- a strategy that is set stays, whatever the line says
  · rw [setStrategy, if_pos hset] at h
    cases h
    simp [hset]

/-- A line sets the strategy, or keeps it. -/
theorem loadLine_strategy {conv : TextConv} {cfg cfg' : ConfigFile} {line : String}
    (h : cfg.loadLine conv line = some cfg') :
    cfg'.strategy ≠ .notSet ↔ cfg.strategy ≠ .notSet ∨ SetsStrategy line := by
  obtain ⟨⟨notice, cfg₁⟩, hread, rfl⟩ := Option.map_eq_some_iff.mp h
  dsimp only
  by_cases hline : ∃ name more, getTokens line = "strategy" :: name :: more
  · obtain ⟨name, more, htokens⟩ := hline
    have hsets : SetsStrategy line ↔ StrategyArgs (name :: more) := by
      unfold SetsStrategy
      simp [htokens]
    simp only [readLine, htokens] at hread
    simp at hread
    rw [hsets]
    exact setStrategy_strategy hread
  · have hsets : ¬ SetsStrategy line := by
      rintro ⟨args, htokens, hargs⟩
      rcases hargs with rfl | rfl | ⟨file, more, rfl⟩ <;> exact hline ⟨_, _, htokens⟩
    -- all other commands leave the strategy alone
    have hsame : cfg₁.strategy = cfg.strategy := by
      rw [readLine] at hread
      split at hread
      · cases hread
        rfl
      · cases hread
        rfl
      · next cmd x more htokens =>
        split at hread
        · split at hread <;> cases hread
          unfold mapAddr
          split <;> rfl
        · split at hread
          · split at hread <;> cases hread
            unfold mapCidr
            split <;> rfl
          · split at hread
            · obtain ⟨a, -, heq⟩ := Option.map_eq_some_iff.mp hread
              cases heq
              unfold node
              split <;> rfl
            · split at hread
              · next hcmd =>
                rw [hcmd] at htokens
                exact absurd ⟨_, _, htokens⟩ hline
              · split at hread
                · obtain ⟨a, -, heq⟩ := Option.map_eq_some_iff.mp hread
                  cases heq
                  unfold router
                  split <;> rfl
                · cases hread
                  rfl
    rw [hsame]
    exact (or_iff_left hsets).symm

/-- There is a strategy exactly if a line before has set it. -/
theorem strategy_of_load {conv : TextConv} {lines : List String} {cfg : ConfigFile}
    (h : load conv lines = some cfg) :
    cfg.strategy ≠ .notSet ↔ ∃ line ∈ lines, SetsStrategy line := by
  have hempty : (empty conv).strategy ≠ .notSet ↔ ∃ line ∈ [], SetsStrategy line := by
    simp [empty]
  refine foldlM_invariant
    (P := fun lines cfg => cfg.strategy ≠ .notSet ↔ ∃ line ∈ lines, SetsStrategy line)
    hempty (fun before line cfg₁ cfg₂ _ hbefore hline => ?_) h
  rw [loadLine_strategy hline, hbefore]
  simp [or_and_right, exists_or]

/-- A well-formed line is processed. -/
theorem readLine_isSome {conv : TextConv} {line : String} (h : WellFormed conv line)
    (cfg : ConfigFile) : (cfg.readLine conv line).isSome = true := by
  rcases h with htokens | ⟨x, y, htokens, hx, hy⟩ | ⟨x, y, htokens, hx, hy⟩
    | ⟨name, ip, htokens, -⟩ | ⟨args, htokens, hargs⟩ | ⟨x, more, htokens, hx⟩
  · simp [readLine, htokens]
  -- a valid text converts, so that no `stoi` throws
  · obtain ⟨a, -, -, ha⟩ := (hx.validText (by decide)).addr
    obtain ⟨b, -, -, hb⟩ := (hy.validText (by decide)).addr
    simp [readLine, htokens, ha, hb]
  · obtain ⟨a, -, -, ha⟩ := (hx.validText (by decide)).cidr
    obtain ⟨b, -, -, hb⟩ := (hy.validText (by decide)).cidr
    simp [readLine, htokens, ha, hb]
  · simp [readLine, htokens, convertAddr]
  · rcases hargs with rfl | rfl | ⟨file, more, rfl⟩
    · simp [readLine, htokens, setStrategy, allowedStrategies]
      split <;> rfl
    · simp [readLine, htokens, setStrategy, allowedStrategies]
      split <;> rfl
    · simp [readLine, htokens, setStrategy, allowedStrategies]
      split <;> rfl
  · obtain ⟨a, -, -, ha⟩ := (hx.validText (by decide)).addr
    simp [readLine, htokens, ha]

/-- `load` gets to each line and processes it, and only warns about one that is not well
formed. -/
def ReadsAll (conv : TextConv) (lines : List String) : Prop :=
  ∀ before line after, lines = before ++ line :: after →
    ∃ cfg, load conv before = some cfg ∧ (cfg.readLine conv line).isSome = true
      ∧ (¬ WellFormed conv line → WarnsOnly conv cfg line)

theorem readsAll_iff (conv : TextConv) (lines : List String) :
    ReadsAll conv lines ↔ ∀ before line after, lines = before ++ line :: after →
      ¬ Breaks conv (∃ l ∈ before, SetsStrategy l) line := by
  refine foldlM_steps_iff (f := loadLine conv) (s := empty conv)
    (Q := fun cfg line => (cfg.readLine conv line).isSome = true
      ∧ (¬ WellFormed conv line → WarnsOnly conv cfg line))
    (C := fun before line => ¬ Breaks conv (∃ l ∈ before, SetsStrategy l) line)
    (fun cfg line h => ?_) (fun before line cfg hcfg => ?_)
  · rw [loadLine, Option.isSome_map]
    exact h.1
  · rw [← strategy_of_load hcfg]
    -- a line that is well formed is read in any state
    by_cases hline : WellFormed conv line
    · refine iff_of_true ⟨readLine_isSome hline cfg, fun hno => absurd hline hno⟩ ?_
      exact fun hbreaks => hbreaks.1 hline
    · rw [← warnsOnly_iff hline]
      constructor
      · exact fun h => h.2 hline
      · intro hwarns
        refine ⟨?_, fun _ => hwarns⟩
        rw [hwarns]
        rfl

end ConfigFile

end Tmet.Tproxy

/-! ### The interposer -/

namespace Tmet.Mysyscall

open Tmet.Lib Tmet.Posix

namespace Loading

/-- The lines that `init_config_file` is for. It ignores what is only for the proxy, the
address behind the origin of a rule as well. -/
def WellFormed (conv : TextConv) (line : String) : Prop :=
  getTokens (cStr line) = []
    ∨ (∃ args, getTokens (cStr line) = "node" :: args)
    ∨ (∃ args, getTokens (cStr line) = "strategy" :: args)
    ∨ (∃ x more, getTokens (cStr line) = "map-addr" :: x :: more ∧ AddrText conv ':' 65535 x)
    ∨ (∃ x more, getTokens (cStr line) = "map-cidr" :: x :: more ∧ AddrText conv '/' 32 x)
    ∨ ∃ x more, getTokens (cStr line) = "router" :: x :: more ∧ AddrText conv ':' 65535 x

/-- The line makes the connection if there is none. -/
def Connects (conv : TextConv) (line : String × Answer) : Prop :=
  (∃ x more n, getTokens (cStr line.1) = "router" :: x :: more ∧ number conv ':' x = some n
    ∧ n ≠ 0) ∧ line.2 = .connected

/-- A line that is not well formed, and not refused with the warning about an invalid
command alone. -/
def Breaks (conv : TextConv) (isConnected : Prop) (line : String) : Prop :=
  ¬ WellFormed conv line
    ∧ ((∃ x more, getTokens (cStr line) = "map-addr" :: x :: more ∧ Slips conv ':' [x])
      ∨ (∃ x more, getTokens (cStr line) = "map-cidr" :: x :: more ∧ Slips conv '/' [x])
      ∨ ∃ x more, getTokens (cStr line) = "router" :: x :: more
          ∧ (isConnected ∨ Slips conv ':' [x]))

/-- The line is only warned about. -/
def WarnsOnly (conv : TextConv) (s : Loading) (line : String × Answer) : Prop :=
  s.readLine conv line = some ([.invalidCmd], s)

/-- The origin of a rule. -/
theorem origin_warnsOnly_iff (conv : TextConv) (s : Loading) (kind : RuleKind) (x : String) :
    ((Config.convertAddr conv x kind.delim).map fun origin =>
      if origin.2 = 0 then ([Message.invalidCmd], s)
      else ([.rule], s.insertOrigin kind.delim origin))
        = some ([.invalidCmd], s) ↔ ¬ Slips conv kind.delim [x] := by
  cases hnx : number conv kind.delim x with
  | none =>
      have hslips : Slips conv kind.delim [x] := slips_of_none (by simp) hnx
      simp [(convertAddr_of_none hnx).2, hslips]
  | some n =>
      obtain ⟨a, -, hx, han⟩ := convertAddr_of_number hnx
      rw [not_slips_singleton_iff hnx, ← han, hx, Option.map_some, Option.some_inj,
        kind.element_port]
      -- port or mask 0 is the warning
      by_cases hzero : a.sinPort = 0
      · simp [hzero]
      · simp [hzero]

/-- A `router` line. -/
theorem connectRouter_warnsOnly_iff (conv : TextConv) (s : Loading) (x : String)
    (answer : Answer) :
    ((connectRouter conv s.isConnected x answer).map fun (messages, ok, isConnected) =>
      (messages ++ (if ok then [] else [.invalidCmd]), { s with isConnected := isConnected }))
        = some ([.invalidCmd], s) ↔ ¬ (s.isConnected = true ∨ Slips conv ':' [x]) := by
  unfold connectRouter
  by_cases hconnected : s.isConnected = true
  · simp [hconnected]
  · have hfalse : s.isConnected = false := by simpa using hconnected
    have hsame : { s with isConnected := false } = s := by rw [← hfalse]
    rw [or_iff_right hconnected, if_neg hconnected]
    cases hnx : number conv ':' x with
    | none =>
        have hslips : Slips conv ':' [x] := slips_of_none (by simp) hnx
        simp [(convertAddr_of_no_port hnx).2, hslips]
    | some n =>
        obtain ⟨a, -, hx, han⟩ := convertAddr_of_port hnx
        rw [not_slips_singleton_iff hnx, ← han, hx]
        by_cases hzero : a.sinPort = 0
        · simp [hzero, hsame]
        · -- it says which router it connects to, whatever the answer is
          cases answer <;> simp [hzero]

/-- A line that is not well formed. -/
theorem warnsOnly_iff {conv : TextConv} {s : Loading} {line : String × Answer}
    (h : ¬ WellFormed conv line.1) :
    WarnsOnly conv s line ↔ ¬ Breaks conv (s.isConnected = true) line.1 := by
  unfold WarnsOnly Breaks
  rw [and_iff_right h, readLine]
  split
  · next htokens => exact absurd (Or.inl htokens) h
  · next cmd args htokens =>
    split
    -- the lines of the proxy count as well formed here
    · next hignored =>
      rcases hignored with rfl | rfl
      · exact absurd (Or.inr (Or.inl ⟨args, htokens⟩)) h
      · exact absurd (Or.inr (Or.inr (Or.inl ⟨args, htokens⟩))) h
    · cases args with
      | nil => simp [htokens]
      | cons x more =>
          dsimp only
          by_cases haddr : cmd = "map-addr"
          · subst haddr
            refine (origin_warnsOnly_iff conv s .addr x).trans ?_
            simp [htokens]
          · by_cases hcidr : cmd = "map-cidr"
            · subst hcidr
              refine (origin_warnsOnly_iff conv s .cidr x).trans ?_
              simp [htokens]
            · rw [if_neg (not_or.mpr ⟨haddr, hcidr⟩)]
              by_cases hrouter : cmd = "router"
              · subst hrouter
                rw [if_pos rfl]
                refine (connectRouter_warnsOnly_iff conv s x line.2).trans ?_
                simp [htokens]
              · rw [if_neg hrouter]
                simp [htokens, haddr, hcidr, hrouter]

/-- A line makes the connection, or keeps what is there. -/
theorem loadLine_isConnected {conv : TextConv} {s s' : Loading} {line : String × Answer}
    (h : s.loadLine conv line = some s') :
    s'.isConnected = true ↔ s.isConnected = true ∨ Connects conv line := by
  obtain ⟨⟨messages, s₁⟩, hread, rfl⟩ := Option.map_eq_some_iff.mp h
  dsimp only
  unfold Connects
  rw [readLine] at hread
  split at hread
  · next htokens =>
    cases hread
    simp [htokens]
  · next cmd args htokens =>
    split at hread
    · next hignored =>
      cases hread
      rcases hignored with rfl | rfl <;> simp [htokens]
    · cases args with
      | nil =>
          cases hread
          simp [htokens]
      | cons x more =>
          dsimp only at hread
          split at hread
          · next hmap =>
            obtain ⟨origin, -, heq⟩ := Option.map_eq_some_iff.mp hread
            have hsame : s₁.isConnected = s.isConnected := by
              split at heq <;> cases heq <;> rfl
            rw [hsame]
            rcases hmap with rfl | rfl <;> simp [htokens]
          · split at hread
            · next hcmd =>
              obtain rfl := hcmd
              obtain ⟨⟨ms, ok, isConnected⟩, hconnect, heq⟩ := Option.map_eq_some_iff.mp hread
              cases heq
              unfold connectRouter at hconnect
              -- a second `router` line is turned down before its address is read
              by_cases hconnected : s.isConnected = true
              · rw [if_pos hconnected] at hconnect
                cases hconnect
                simp [hconnected]
              · rw [if_neg hconnected] at hconnect
                cases hnx : number conv ':' x with
                | none =>
                    rw [(convertAddr_of_no_port hnx).2] at hconnect
                    cases hconnect
                | some n =>
                    obtain ⟨a, -, hx, han⟩ := convertAddr_of_port hnx
                    rw [hx, Option.map_some, Option.some_inj] at hconnect
                    by_cases hzero : a.sinPort = 0
                    · rw [if_pos hzero] at hconnect
                      cases hconnect
                      simp [hconnected, htokens, hnx, han.mp hzero]
                    · rw [if_neg hzero] at hconnect
                      have hn : n ≠ 0 := fun hn => hzero (han.mpr hn)
                      -- only a router that accepts makes the connection
                      cases hanswer : line.2 <;> rw [hanswer] at hconnect <;> cases hconnect
                      · simp [hconnected]
                      · simp [hconnected]
                      · simp [htokens, hnx, hn]
            · next hrouter =>
              cases hread
              simp [htokens, hrouter]

/-- The router is connected exactly if a line before has made the connection. -/
theorem isConnected_of_initConfigFile {conv : TextConv} {lines : List (String × Answer)}
    {s : Loading} (h : initConfigFile conv lines = some s) :
    s.isConnected = true ↔ ∃ line ∈ lines, Connects conv line := by
  have hstart : start.isConnected = true ↔ ∃ line ∈ [], Connects conv line := by
    simp [start]
  refine foldlM_invariant
    (P := fun lines s => s.isConnected = true ↔ ∃ line ∈ lines, Connects conv line)
    hstart (fun before line s₁ s₂ _ hbefore hline => ?_) h
  rw [loadLine_isConnected hline, hbefore]
  simp [or_and_right, exists_or]

/-- A well-formed line is processed. -/
theorem readLine_isSome {conv : TextConv} {line : String × Answer} (h : WellFormed conv line.1)
    (s : Loading) : (s.readLine conv line).isSome = true := by
  rcases h with htokens | ⟨args, htokens⟩ | ⟨args, htokens⟩ | ⟨x, more, htokens, hx⟩
    | ⟨x, more, htokens, hx⟩ | ⟨x, more, htokens, hx⟩
  · simp [readLine, htokens]
  · simp [readLine, htokens]
  · simp [readLine, htokens]
  · obtain ⟨a, -, ha, -⟩ := (hx.validText (by decide)).addr
    simp [readLine, htokens, ha]
  · obtain ⟨a, -, ha, -⟩ := (hx.validText (by decide)).cidr
    simp [readLine, htokens, ha]
  · obtain ⟨a, -, ha, -⟩ := (hx.validText (by decide)).addr
    simp [readLine, htokens, connectRouter, ha]
    split <;> rfl

/-- `init_config_file` gets to each line and processes it, and only warns about one that
is not well formed. -/
def ReadsAll (conv : TextConv) (lines : List (String × Answer)) : Prop :=
  ∀ before line after, lines = before ++ line :: after →
    ∃ s, initConfigFile conv before = some s ∧ (s.readLine conv line).isSome = true
      ∧ (¬ WellFormed conv line.1 → WarnsOnly conv s line)

theorem readsAll_iff (conv : TextConv) (lines : List (String × Answer)) :
    ReadsAll conv lines ↔ ∀ before line after, lines = before ++ line :: after →
      ¬ Breaks conv (∃ l ∈ before, Connects conv l) line.1 := by
  refine foldlM_steps_iff (f := loadLine conv) (s := start)
    (Q := fun s line => (s.readLine conv line).isSome = true
      ∧ (¬ WellFormed conv line.1 → WarnsOnly conv s line))
    (C := fun before line => ¬ Breaks conv (∃ l ∈ before, Connects conv l) line.1)
    (fun s line h => ?_) (fun before line s hs => ?_)
  · rw [loadLine, Option.isSome_map]
    exact h.1
  · rw [← isConnected_of_initConfigFile hs]
    -- a line that is well formed is read in any state
    by_cases hline : WellFormed conv line.1
    · refine iff_of_true ⟨readLine_isSome hline s, fun hno => absurd hline hno⟩ ?_
      exact fun hbreaks => hbreaks.1 hline
    · rw [← warnsOnly_iff hline]
      constructor
      · exact fun h => h.2 hline
      · intro hwarns
        refine ⟨?_, fun _ => hwarns⟩
        rw [hwarns]
        rfl

end Loading

end Tmet.Mysyscall

/-! ### Both programs -/

namespace Tmet

open Tmet.Posix Tmet.Tproxy Tmet.Mysyscall

/-- Each program processes every line of its file, and only warns about those that are
not well formed, exactly if no line breaks: for the proxy, one that is not refused as an
invalid command because of its numbers, its strategy, or a strategy set before; for the
interposer, because of its numbers or the connection made before. -/
theorem config_readsAll_iff (conv : TextConv) (lines : List String)
    (initLines : List (String × Answer)) :
    (ConfigFile.ReadsAll conv lines ↔ ∀ before line after, lines = before ++ line :: after →
        ¬ ConfigFile.Breaks conv (∃ l ∈ before, ConfigFile.SetsStrategy l) line)
      ∧ (Loading.ReadsAll conv initLines ↔ ∀ before line after,
        initLines = before ++ line :: after →
          ¬ Loading.Breaks conv (∃ l ∈ before, Loading.Connects conv l) line.1) :=
  ⟨ConfigFile.readsAll_iff conv lines, Loading.readsAll_iff conv initLines⟩

namespace Demo

/-- Neither program gets past an address without a port. -/
theorem config_readsAll_fails :
    ¬ ConfigFile.ReadsAll Tproxy.Demo.texts ["map-addr 10.0.0.5 10.0.1.5:80"]
      ∧ ¬ Loading.ReadsAll Tproxy.Demo.texts [("map-addr 10.0.0.5 10.0.1.5:80", .connected)] := by
  constructor
  · intro h
    obtain ⟨cfg, hcfg, hsome, -⟩ := h [] _ [] rfl
    cases hcfg
    exact absurd hsome (by decide)
  · intro h
    obtain ⟨s, hs, hsome, -⟩ := h [] _ [] rfl
    cases hs
    exact absurd hsome (by decide)

end Demo

end Tmet
