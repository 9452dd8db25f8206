import Tmet.Proofs.Loading
import Tmet.Proofs.Tproxy.Masquerade

/-!
# `Tmet.Proofs.StoredRules`: what the stored rules stand for

The address of a rule is meant to be one that `inet_aton` accepts, and its number to be a
port, or a prefix length that the masks can be shifted by. `convert_addr` checks neither:
a text that is no address becomes 0.0.0.0, and a number is cut to 16 bits.

`has_iff_lastWrite` says what is in the tables of the proxy: for each origin, what the
last line about it stores. `mem_concernAddrSet_iff` says what is in the set of the
interposer. With them `storedRules_iff` says exactly when all the stored rules are what is
written in the file, and the shift counts are in the range of the type: when the
lines that the rules come from have valid addresses, and the interposer sees no prefix
length that is cut to 0, for which it computes a mask before it looks at it.
-/

set_option autoImplicit false

namespace Tmet.Posix

open Tmet.Lib Tmet.Tproxy
open Tmet.Mysyscall (Config)

/-! ### Written addresses -/

/-- The address is the one of the text: `inet_aton` accepts it, and the number is the one
that is written there, in its range. -/
structure Written (kind : RuleKind) (conv : TextConv) (text : String) (a : Addr) : Prop where
  ip : conv.inetAton (splitAddr text kind.delim).1 = some a.sAddr
  value : conv.stoi (splitAddr text kind.delim).2 = some ((kind.swap a.sinPort).toNat : ℤ)
  pos : 1 ≤ (kind.swap a.sinPort).toNat
  le : ((kind.swap a.sinPort).toNat : ℤ) ≤ kind.most

variable {conv : TextConv} {kind : RuleKind} {x : String} {a : Addr}

theorem Written.validText (h : Written kind conv x a) : ValidText conv x kind.delim kind.most :=
  ⟨_, _, h.ip, h.value, by exact_mod_cast h.pos, h.le⟩

/-- A number in the range is not changed by the cut. -/
theorem toNat_ofInt (kind : RuleKind) {n : ℤ} (hpos : 1 ≤ n) (hle : n ≤ kind.most) :
    ((UInt16.ofInt n).toNat : ℤ) = n := by
  have hmost : kind.most ≤ 65535 := by cases kind <;> decide
  rw [UInt16.ofInt, UInt16.toNat_ofNat']
  omega

/-- What a valid text is converted to. -/
theorem written_of_validText (h : ValidText conv x kind.delim kind.most)
    (ha : ConfigFile.convertAddr conv x kind.delim = some a) : Written kind conv x a := by
  obtain ⟨ip, n, hip, hn, hpos, hle⟩ := h
  rw [convertAddr_eq, number, hn, Option.map_some, Option.map_some, Option.some_inj] at ha
  have hsAddr : address conv kind.delim x = ip := by
    rw [address, hip]
    rfl
  have hvalue : ((kind.swap a.sinPort).toNat : ℤ) = n := by
    rw [← ha]
    show ((kind.swap (kind.swap (UInt16.ofInt n))).toNat : ℤ) = n
    rw [kind.swap_swap]
    exact toNat_ofInt kind hpos hle
  refine ⟨?_, ?_, by omega, by omega⟩
  · rw [hip, ← ha, hsAddr]
  · rw [hn, hvalue]

theorem Written.convertAddr (h : Written kind conv x a) :
    ConfigFile.convertAddr conv x kind.delim = some a := by
  have hofInt : UInt16.ofInt (kind.swap a.sinPort).toNat = kind.swap a.sinPort := by
    apply UInt16.toNat_inj.mp
    exact_mod_cast toNat_ofInt kind (by exact_mod_cast h.pos) h.le
  rw [convertAddr_eq, number, h.value, address, h.ip, Option.map_some, Option.map_some,
    hofInt, kind.swap_swap]
  rfl

theorem Written.sinPort_ne_zero (h : Written kind conv x a) : a.sinPort ≠ 0 := by
  intro hzero
  have hpos := h.pos
  rw [kind.swap_eq_zero_iff.mpr hzero] at hpos
  exact absurd hpos (by decide)

end Tmet.Posix

/-! ### The tables of the proxy -/

namespace Tmet.Tproxy

open Tmet.Lib Tmet.Posix

namespace ConfigFile

/-- A stored rule. -/
def Has (cfg : ConfigFile) : RuleKind → Addr → Addr → Prop
  | .addr, origin, masquerade => cfg.addrMap origin = some masquerade
  | .cidr, origin, masquerade => (origin, masquerade) ∈ cfg.cidrMap

/-- The rule that a line stores. -/
def RuleOf (kind : RuleKind) (conv : TextConv) (line : String) (origin masquerade : Addr) : Prop :=
  ∃ x y, getTokens line = [kind.cmd, x, y] ∧ convertAddr conv x kind.delim = some origin
    ∧ convertAddr conv y kind.delim = some masquerade
    ∧ origin.sinPort ≠ 0 ∧ masquerade.sinPort ≠ 0

theorem Sorted.mem_insertRule_iff {rules : List (Addr × Addr)} (h : Sorted rules)
    (origin masquerade : Addr) (r : Addr × Addr) :
    r ∈ ConfigFile.insertRule origin masquerade rules
      ↔ r = (origin, masquerade) ∨ (r ∈ rules ∧ r.1 ≠ origin) := by
  have hirrefl (a : Addr) : ¬ cmpAddrLess a a = true := by
    rw [cmpAddrLess_iff]
    omega
  induction rules with
  | nil => simp [ConfigFile.insertRule]
  | cons rule rules ih =>
      obtain ⟨hrule, hrules⟩ := List.pairwise_cons.mp h
      rw [ConfigFile.insertRule]
      split
      · -- the rule it takes the place of is the only one with this origin
        next heq =>
        have hother (r : Addr × Addr) (hr : r ∈ rules) : r.1 ≠ origin := by
          intro hsame
          have hless := hrule r hr
          rw [heq, hsame] at hless
          exact hirrefl origin hless
        rw [List.mem_cons, List.mem_cons]
        constructor
        · rintro (rfl | hr)
          · exact Or.inl rfl
          · exact Or.inr ⟨Or.inr hr, hother r hr⟩
        · rintro (rfl | ⟨rfl | hr, hne⟩)
          · exact Or.inl rfl
          · exact absurd heq hne
          · exact Or.inr hr
      · next hne =>
        split
        · next hless =>
          -- all of them come after it
          have hother (r : Addr × Addr) (hr : r ∈ rule :: rules) : r.1 ≠ origin := by
            intro hsame
            rcases List.mem_cons.mp hr with rfl | hr
            · exact hne hsame
            · have hafter := cmpAddrLess_trans hless (hrule r hr)
              rw [hsame] at hafter
              exact hirrefl origin hafter
          rw [List.mem_cons]
          exact or_congr_right ⟨fun hr => ⟨hr, hother r hr⟩, And.left⟩
        · have hrest : r ∈ ConfigFile.insertRule origin masquerade rules
              ↔ r = (origin, masquerade) ∨ (r ∈ rules ∧ r.1 ≠ origin) := ih hrules
          rw [List.mem_cons, List.mem_cons, hrest]
          constructor
          · rintro (rfl | hnew | ⟨hr, hne'⟩)
            · exact Or.inr ⟨Or.inl rfl, hne⟩
            · exact Or.inl hnew
            · exact Or.inr ⟨Or.inr hr, hne'⟩
          · rintro (hnew | ⟨rfl | hr, hne'⟩)
            · exact Or.inr (Or.inl hnew)
            · exact Or.inl rfl
            · exact Or.inr (Or.inr ⟨hr, hne'⟩)

/-- A line with two addresses. -/
def store (cfg : ConfigFile) : RuleKind → Addr → Addr → ConfigFile
  | .addr => cfg.mapAddr
  | .cidr => cfg.mapCidr

theorem store_of_zero (cfg : ConfigFile) (kind : RuleKind) {origin masquerade : Addr}
    (h : ¬ (origin.sinPort ≠ 0 ∧ masquerade.sinPort ≠ 0)) :
    cfg.store kind origin masquerade = cfg := by
  have hzero : origin.sinPort = 0 ∨ masquerade.sinPort = 0 := by tauto
  cases kind
  · exact if_pos hzero
  · exact if_pos hzero

/-- The rules of the kind after it. -/
theorem has_store {cfg : ConfigFile} (hsorted : Sorted cfg.cidrMap) (kind : RuleKind)
    {origin masquerade : Addr} (h : origin.sinPort ≠ 0 ∧ masquerade.sinPort ≠ 0) (o m : Addr) :
    (cfg.store kind origin masquerade).Has kind o m
      ↔ (o = origin ∧ m = masquerade) ∨ (cfg.Has kind o m ∧ o ≠ origin) := by
  have hne : ¬ (origin.sinPort = 0 ∨ masquerade.sinPort = 0) := by tauto
  cases kind with
  | addr =>
      rw [store, mapAddr, if_neg hne]
      show Function.update cfg.addrMap origin (some masquerade) o = some m ↔ _
      -- the new rule replaces an old one of the same origin
      by_cases ho : o = origin
      · rw [ho, Function.update_self, Option.some_inj]
        simp [eq_comm]
      · rw [Function.update_of_ne ho]
        simp [ho, Has]
  | cidr =>
      rw [store, mapCidr, if_neg hne]
      show (o, m) ∈ ConfigFile.insertRule origin masquerade cfg.cidrMap ↔ _
      rw [hsorted.mem_insertRule_iff, Prod.mk.injEq]
      exact Iff.rfl

/-- The rules of the other kind. -/
theorem has_store_of_ne {cfg : ConfigFile} {kind kind' : RuleKind} (hkind : kind' ≠ kind)
    (origin masquerade o m : Addr) :
    (cfg.store kind origin masquerade).Has kind' o m ↔ cfg.Has kind' o m := by
  cases kind <;> cases kind'
  · exact absurd rfl hkind
  · rw [store, mapAddr]
    split <;> exact Iff.rfl
  · rw [store, mapCidr]
    split <;> exact Iff.rfl
  · exact absurd rfl hkind

theorem ruleOf_iff {kind : RuleKind} {conv : TextConv} {line x y : String}
    {origin masquerade : Addr} (htokens : getTokens line = [kind.cmd, x, y])
    (hx : convertAddr conv x kind.delim = some origin)
    (hy : convertAddr conv y kind.delim = some masquerade) (o m : Addr) :
    RuleOf kind conv line o m
      ↔ (origin.sinPort ≠ 0 ∧ masquerade.sinPort ≠ 0) ∧ o = origin ∧ m = masquerade := by
  constructor
  -- the tokens and their conversions are functions of the line
  · rintro ⟨x', y', htokens', hx', hy', hports⟩
    rw [htokens] at htokens'
    cases htokens'
    rw [hx] at hx'
    rw [hy] at hy'
    cases hx'
    cases hy'
    exact ⟨hports, rfl, rfl⟩
  · rintro ⟨hports, rfl, rfl⟩
    exact ⟨x, y, htokens, hx, hy, hports⟩

/-- What one line does to the rules of one kind. -/
theorem has_loadLine {conv : TextConv} {cfg cfg' : ConfigFile} {line : String}
    (hsorted : Sorted cfg.cidrMap) (h : cfg.loadLine conv line = some cfg') (kind : RuleKind)
    (o m : Addr) :
    cfg'.Has kind o m ↔ RuleOf kind conv line o m
      ∨ (cfg.Has kind o m ∧ ∀ m', ¬ RuleOf kind conv line o m') := by
  -- a line with two addresses, of either kind
  have hpair (k : RuleKind) (x y : String) (origin masquerade : Addr)
      (htokens : getTokens line = [k.cmd, x, y])
      (hx : convertAddr conv x k.delim = some origin)
      (hy : convertAddr conv y k.delim = some masquerade) :
      (cfg.store k origin masquerade).Has kind o m ↔ RuleOf kind conv line o m
        ∨ (cfg.Has kind o m ∧ ∀ m', ¬ RuleOf kind conv line o m') := by
    by_cases hkind : kind = k
    · rw [hkind]
      simp only [ruleOf_iff htokens hx hy]
      by_cases hports : origin.sinPort ≠ 0 ∧ masquerade.sinPort ≠ 0
      · rw [has_store hsorted k hports]
        simp [hports]
      · rw [store_of_zero cfg k hports]
        simp [hports]
    · have hnone (m' : Addr) : ¬ RuleOf kind conv line o m' := by
        rintro ⟨x', y', htokens', -⟩
        rw [htokens] at htokens'
        exact hkind (RuleKind.cmd_inj (List.cons.inj htokens').1).symm
      rw [has_store_of_ne hkind]
      simp [hnone]
  rcases loadLine_cases h with ⟨x, y, origin, masquerade, htokens, hx, hy, rfl⟩
    | ⟨x, y, origin, masquerade, htokens, hx, hy, rfl⟩ | ⟨hother, haddr, hcidr⟩
  · exact hpair .addr x y origin masquerade htokens hx hy
  · exact hpair .cidr x y origin masquerade htokens hx hy
  · have hnone (m' : Addr) : ¬ RuleOf kind conv line o m' := by
      rintro ⟨x, y, htokens, -⟩
      cases kind
      · exact (hother x y).1 htokens
      · exact (hother x y).2 htokens
    have hsame : cfg'.Has kind o m ↔ cfg.Has kind o m := by
      cases kind
      · rw [Has, Has, haddr]
      · rw [Has, Has, hcidr]
    rw [hsame]
    simp [hnone]

/-- The tables hold what the last line about each origin stores. -/
theorem has_iff_lastWrite {conv : TextConv} {lines : List String} {cfg : ConfigFile}
    (h : load conv lines = some cfg) (kind : RuleKind) (o m : Addr) :
    cfg.Has kind o m ↔ LastWrite (RuleOf kind conv) lines o m := by
  refine table_eq_lastWrite (T := fun cfg => cfg.Has kind) ?_ ?_ h o m
  · intro o m
    cases kind <;> simp [Has, empty]
  · intro before line cfg₁ cfg₂ hbefore hline o m
    exact has_loadLine (sorted_load hbefore) hline kind o m

/-! ### Which of them are meaningful -/

/-- A line with a rule that is accepted: both numbers are read, and not cut to 0. -/
def AcceptsRule (kind : RuleKind) (conv : TextConv) (line x y : String) : Prop :=
  getTokens line = [kind.cmd, x, y]
    ∧ (∃ n, number conv kind.delim x = some n ∧ n ≠ 0)
    ∧ ∃ n, number conv kind.delim y = some n ∧ n ≠ 0

/-- The texts of two origins give the same address. -/
def SameOrigin (kind : RuleKind) (conv : TextConv) (x x' : String) : Prop :=
  address conv kind.delim x = address conv kind.delim x'
    ∧ number conv kind.delim x = number conv kind.delim x'

/-- One of these lines has a rule about the same origin. -/
def Overridden (kind : RuleKind) (conv : TextConv) (after : List String) (x : String) : Prop :=
  ∃ line ∈ after, ∃ x' y', AcceptsRule kind conv line x' y' ∧ SameOrigin kind conv x x'

/-- Every stored rule is the one that is written in the last line about its origin, with
valid addresses. -/
def Meaningful (conv : TextConv) (lines : List String) (cfg : ConfigFile) : Prop :=
  ∀ kind origin masquerade, cfg.Has kind origin masquerade →
    ∃ before line after x y, lines = before ++ line :: after
      ∧ getTokens line = [kind.cmd, x, y] ∧ ¬ Overridden kind conv after x
      ∧ Written kind conv x origin ∧ Written kind conv y masquerade

/-- Every line with an accepted rule that is not overridden has valid addresses. -/
def ValidRules (conv : TextConv) (lines : List String) : Prop :=
  ∀ kind before line after x y, lines = before ++ line :: after →
    AcceptsRule kind conv line x y → ¬ Overridden kind conv after x →
      ValidText conv x kind.delim kind.most ∧ ValidText conv y kind.delim kind.most

/-- The rule of a line that is accepted. -/
theorem AcceptsRule.ruleOf {kind : RuleKind} {conv : TextConv} {line x y : String}
    (h : AcceptsRule kind conv line x y) :
    ∃ o m, convertAddr conv x kind.delim = some o ∧ convertAddr conv y kind.delim = some m
      ∧ RuleOf kind conv line o m := by
  obtain ⟨htokens, ⟨n, hx, hn⟩, n', hy, hn'⟩ := h
  have hxo := convertAddr_eq kind conv x
  have hym := convertAddr_eq kind conv y
  rw [hx, Option.map_some] at hxo
  rw [hy, Option.map_some] at hym
  refine ⟨_, _, hxo, hym, x, y, htokens, hxo, hym, ?_, ?_⟩
  · exact fun hzero => hn (kind.swap_eq_zero_iff.mp hzero)
  · exact fun hzero => hn' (kind.swap_eq_zero_iff.mp hzero)

/-- The number of a text that is converted. -/
theorem number_of_convertAddr {kind : RuleKind} {conv : TextConv} {x : String} {a : Addr}
    (h : convertAddr conv x kind.delim = some a) :
    number conv kind.delim x = some (kind.swap a.sinPort) ∧ address conv kind.delim x = a.sAddr := by
  rw [convertAddr_eq] at h
  obtain ⟨n, hn, rfl⟩ := Option.map_eq_some_iff.mp h
  rw [kind.swap_swap]
  exact ⟨hn, rfl⟩

theorem acceptsRule_iff {kind : RuleKind} {conv : TextConv} {line x y : String} {o m : Addr}
    (hx : convertAddr conv x kind.delim = some o) (hy : convertAddr conv y kind.delim = some m) :
    AcceptsRule kind conv line x y
      ↔ getTokens line = [kind.cmd, x, y] ∧ o.sinPort ≠ 0 ∧ m.sinPort ≠ 0 := by
  rw [AcceptsRule, (number_of_convertAddr hx).1, (number_of_convertAddr hy).1]
  simp [kind.swap_eq_zero_iff]

theorem overridden_iff {kind : RuleKind} {conv : TextConv} {after : List String} {x : String}
    {o : Addr} (hx : convertAddr conv x kind.delim = some o) :
    Overridden kind conv after x ↔ ∃ line ∈ after, ∃ m, RuleOf kind conv line o m := by
  constructor
  · rintro ⟨line, hline, x', y', haccepts, haddress, hnumber⟩
    obtain ⟨o', m, hx', -, hrule⟩ := haccepts.ruleOf
    -- the same address and number convert to the same origin
    have ho : o' = o := by
      have hsame := convertAddr_eq kind conv x'
      rw [← haddress, ← hnumber, ← convertAddr_eq, hx, hx'] at hsame
      exact Option.some.inj hsame
    rw [ho] at hrule
    exact ⟨line, hline, m, hrule⟩
  · rintro ⟨line, hline, m, x', y', htokens, hx', hy', hports⟩
    refine ⟨line, hline, x', y', (acceptsRule_iff hx' hy').mpr ⟨htokens, hports⟩, ?_, ?_⟩
    · rw [(number_of_convertAddr hx).2, (number_of_convertAddr hx').2]
    · rw [(number_of_convertAddr hx).1, (number_of_convertAddr hx').1]

/-- The rule that a line writes is the one it stores. -/
theorem ruleOf_of_written {kind : RuleKind} {conv : TextConv} {line x y : String} {o m : Addr}
    (htokens : getTokens line = [kind.cmd, x, y]) (ho : Written kind conv x o)
    (hm : Written kind conv y m) : RuleOf kind conv line o m :=
  ⟨x, y, htokens, ho.convertAddr, hm.convertAddr, ho.sinPort_ne_zero, hm.sinPort_ne_zero⟩

/-- All stored rules are meaningful exactly if the lines they come from are valid. -/
theorem meaningful_iff {conv : TextConv} {lines : List String} {cfg : ConfigFile}
    (h : load conv lines = some cfg) : cfg.Meaningful conv lines ↔ ValidRules conv lines := by
  constructor
  · intro hmeaningful kind before line after x y hsplit haccepts hlast
    obtain ⟨o, m, hx, hy, hrule⟩ := haccepts.ruleOf
    have hafter : ∀ l ∈ after, ∀ m', ¬ RuleOf kind conv l o m' := by
      intro l hl m' hl'
      exact hlast ((overridden_iff hx).mpr ⟨l, hl, m', hl'⟩)
    have hhas : cfg.Has kind o m :=
      (has_iff_lastWrite h kind o m).mpr ⟨before, line, after, hsplit, hrule, hafter⟩
    obtain ⟨before', line', after', x', y', hsplit', htokens', hlast', ho, hm⟩ :=
      hmeaningful kind o m hhas
    have hafter' : ∀ l ∈ after', ∀ m', ¬ RuleOf kind conv l o m' := by
      intro l hl m' hl'
      exact hlast' ((overridden_iff ho.convertAddr).mpr ⟨l, hl, m', hl'⟩)
    -- both are the last line about the origin
    have hline : line = line' := lastWrite_place hrule (ruleOf_of_written htokens' ho hm) hafter
      hafter' (hsplit.symm.trans hsplit')
    have htexts := haccepts.1
    rw [hline, htokens'] at htexts
    cases htexts
    exact ⟨ho.validText, hm.validText⟩
  · intro hvalid kind o m hhas
    obtain ⟨before, line, after, hsplit, hrule, hafter⟩ := (has_iff_lastWrite h kind o m).mp hhas
    obtain ⟨x, y, htokens, hx, hy, hports⟩ := hrule
    have hlast : ¬ Overridden kind conv after x := by
      rw [overridden_iff hx]
      rintro ⟨l, hl, m', hl'⟩
      exact hafter l hl m' hl'
    obtain ⟨hvx, hvy⟩ := hvalid kind before line after x y hsplit
      ((acceptsRule_iff hx hy).mpr ⟨htokens, hports⟩) hlast
    exact ⟨before, line, after, x, y, hsplit, htokens, hlast, written_of_validText hvx hx,
      written_of_validText hvy hy⟩

/-- A file with rules that both programs accept is valid. -/
theorem validRules_of_accepted {conv : TextConv} {lines : List String}
    (h : ∀ line ∈ lines, Accepted conv line) : ValidRules conv lines := by
  intro kind before line after x y hsplit haccepts _
  obtain ⟨haddr, hcidr⟩ := h line (by rw [hsplit]; simp) _ _ haccepts.1
  cases kind with
  | addr =>
      obtain ⟨x', y', heq, hx, hy⟩ := haddr rfl
      cases heq
      exact ⟨hx, hy⟩
  | cidr =>
      obtain ⟨x', y', heq, hx, hy⟩ := hcidr rfl
      cases heq
      exact ⟨hx, hy⟩

/-! ### Shift counts -/

/-- `32 - sin_port`. -/
def shiftCount (len : UInt16) : ℤ := 32 - len.toNat

/-- A shift of an `unsigned` is defined for the count. -/
def ShiftOk (count : ℤ) : Prop := 0 ≤ count ∧ count ≤ 31

instance (count : ℤ) : Decidable (ShiftOk count) := inferInstanceAs (Decidable (_ ∧ _))

theorem shiftOk_iff {len : UInt16} : ShiftOk (shiftCount len) ↔ PrefixOk len := by
  unfold ShiftOk shiftCount PrefixOk
  omega

/-- The shift counts in the loop of `get_masquerade_addr`. -/
def loopShifts (origin : Addr) : List (Addr × Addr) → List ℤ
  | [] => []
  | rule :: rules =>
      shiftCount rule.1.sinPort ::
        if InSubnet origin rule.1 then [shiftCount rule.2.sinPort] else loopShifts origin rules

/-- The shift counts that `get_masquerade_addr` evaluates. -/
def shiftCounts (cfg : ConfigFile) (origin : Addr) : List ℤ :=
  match cfg.addrMap origin with
  | some _ => []
  | none => loopShifts origin cfg.cidrMap

theorem mem_loopShifts {origin : Addr} {rules : List (Addr × Addr)} {count : ℤ}
    (h : count ∈ loopShifts origin rules) :
    ∃ rule ∈ rules, count = shiftCount rule.1.sinPort ∨ count = shiftCount rule.2.sinPort := by
  induction rules with
  | nil => cases h
  | cons rule rules ih =>
      rw [loopShifts, List.mem_cons] at h
      rcases h with rfl | h
      · exact ⟨rule, List.mem_cons_self, Or.inl rfl⟩
      · split at h
        · exact ⟨rule, List.mem_cons_self, Or.inr (List.mem_singleton.mp h)⟩
        · obtain ⟨r, hr, hcount⟩ := ih h
          exact ⟨r, List.mem_cons_of_mem rule hr, hcount⟩

/-- With meaningful rules all shifts are defined. -/
theorem Meaningful.shiftOk {conv : TextConv} {lines : List String} {cfg : ConfigFile}
    (h : cfg.Meaningful conv lines) {origin : Addr} {count : ℤ}
    (hcount : count ∈ cfg.shiftCounts origin) : ShiftOk count := by
  rw [shiftCounts] at hcount
  split at hcount
  · cases hcount
  · obtain ⟨rule, hrule, hwhich⟩ := mem_loopShifts hcount
    obtain ⟨-, -, -, x, y, -, -, -, hx, hy⟩ := h .cidr rule.1 rule.2 hrule
    have hpref {text : String} {a : Addr} (ha : Written .cidr conv text a) : PrefixOk a.sinPort := by
      have hle : (a.sinPort.toNat : ℤ) ≤ 32 := ha.le
      exact ⟨ha.pos, by exact_mod_cast hle⟩
    rcases hwhich with rfl | rfl
    · exact shiftOk_iff.mpr (hpref hx)
    · exact shiftOk_iff.mpr (hpref hy)

end ConfigFile

end Tmet.Tproxy

/-! ### The set of the interposer -/

namespace Tmet.Mysyscall

open Tmet.Lib Tmet.Posix Tmet.Tproxy
open Tmet.Tproxy.ConfigFile (shiftCount ShiftOk shiftOk_iff PrefixOk)

namespace Config

/-- The text of the origin of a rule in the file. -/
def OriginText (lines : List String) (kind : RuleKind) (x : String) : Prop :=
  ∃ line ∈ lines, ∃ more, getTokens line = kind.cmd :: x :: more

/-- What one line inserts. -/
def Inserts (kind : RuleKind) (conv : TextConv) (line : String) (e : UInt32 × UInt16) : Prop :=
  ∃ x more, getTokens line = kind.cmd :: x :: more ∧ convertAddr conv x kind.delim = some e
    ∧ e.2 ≠ 0

/-- One line in `init_config_file`. -/
theorem initLine_cases {conv : TextConv} {cfg cfg' : Config} {line : String}
    (h : cfg.initLine conv line = some cfg') :
    (∃ kind e, Inserts kind conv line e
        ∧ (∀ kind' e', Inserts kind' conv line e' → kind' = kind ∧ e' = e)
        ∧ cfg'.concernAddrSet = insert e cfg.concernAddrSet
        ∧ cfg'.subnetSuffix
          = if kind = .addr then cfg.subnetSuffix else insert e.2 cfg.subnetSuffix)
      ∨ ((∀ kind e, ¬ Inserts kind conv line e) ∧ cfg' = cfg) := by
  by_cases hline : ∃ kind x more, getTokens line = RuleKind.cmd kind :: x :: more
  · obtain ⟨kind, x, more, htokens⟩ := hline
    obtain ⟨e, he, hcfg⟩ : ∃ e, convertAddr conv x kind.delim = some e
        ∧ cfg' = if e.2 = 0 then cfg else
          { cfg with
            concernAddrSet := insert e cfg.concernAddrSet
            subnetSuffix :=
              if kind = .addr then cfg.subnetSuffix else insert e.2 cfg.subnetSuffix } := by
      cases kind with
      | addr =>
          simp only [initLine, htokens] at h
          obtain ⟨e, he, heq⟩ := Option.map_eq_some_iff.mp h
          exact ⟨e, he, heq.symm⟩
      | cidr =>
          simp only [initLine, htokens] at h
          obtain ⟨e, he, heq⟩ := Option.map_eq_some_iff.mp h
          exact ⟨e, he, heq.symm⟩
    -- the tokens determine the rule, and with it what is inserted
    have hsame (kind' : RuleKind) (e' : UInt32 × UInt16) (h' : Inserts kind' conv line e') :
        (kind' = kind ∧ e' = e) ∧ e'.2 ≠ 0 := by
      obtain ⟨x', more', htokens', he', hne⟩ := h'
      rw [htokens] at htokens'
      obtain ⟨hcmd, hargs⟩ := List.cons.inj htokens'
      obtain rfl := RuleKind.cmd_inj hcmd
      cases hargs
      rw [he] at he'
      cases he'
      exact ⟨⟨rfl, rfl⟩, hne⟩
    by_cases hzero : e.2 = 0
    -- port or mask 0: `init_config_file` warns and inserts nothing
    · rw [if_pos hzero] at hcfg
      refine Or.inr ⟨fun kind' e' h' => ?_, hcfg⟩
      obtain ⟨⟨-, rfl⟩, hne⟩ := hsame kind' e' h'
      exact hne hzero
    · rw [if_neg hzero] at hcfg
      refine Or.inl ⟨kind, e, ⟨x, more, htokens, he, hzero⟩, fun kind' e' h' => (hsame kind' e' h').1,
        ?_, ?_⟩
      · rw [hcfg]
      · rw [hcfg]
  · refine Or.inr ⟨fun kind e h' => ?_, ?_⟩
    · obtain ⟨x, more, htokens, -⟩ := h'
      exact hline ⟨kind, x, more, htokens⟩
    -- neither of the two commands, or too few arguments
    · cases htokens : getTokens line with
      | nil => simpa [initLine, htokens] using h.symm
      | cons cmd args =>
          cases args with
          | nil => simpa [initLine, htokens] using h.symm
          | cons x more =>
              have haddr : cmd ≠ "map-addr" := by
                rintro rfl
                exact hline ⟨.addr, x, more, htokens⟩
              have hcidr : cmd ≠ "map-cidr" := by
                rintro rfl
                exact hline ⟨.cidr, x, more, htokens⟩
              simpa [initLine, htokens, haddr, hcidr] using h.symm

/-- What is in the two sets. -/
theorem sets_of_initConfigFile {conv : TextConv} {lines : List String} {cfg : Config}
    (h : initConfigFile conv lines = some cfg) :
    (∀ e, e ∈ cfg.concernAddrSet ↔ ∃ line ∈ lines, ∃ kind, Inserts kind conv line e)
      ∧ ∀ i, i ∈ cfg.subnetSuffix ↔ ∃ line ∈ lines, ∃ e, Inserts .cidr conv line e ∧ e.2 = i := by
  refine foldlM_invariant (P := fun lines cfg =>
    (∀ e, e ∈ cfg.concernAddrSet ↔ ∃ line ∈ lines, ∃ kind, Inserts kind conv line e)
      ∧ ∀ i, i ∈ cfg.subnetSuffix ↔ ∃ line ∈ lines, ∃ e, Inserts .cidr conv line e ∧ e.2 = i)
    (by simp) (fun before line cfg₁ cfg₂ _ hbefore hline => ?_) h
  obtain ⟨hset, hsuffix⟩ := hbefore
  have hsplit (Q : String → Prop) : (∃ l ∈ before ++ [line], Q l) ↔ (∃ l ∈ before, Q l) ∨ Q line := by
    simp [or_and_right, exists_or]
  simp only [hsplit, ← hset, ← hsuffix]
  -- one more line inserts one element, or nothing
  rcases initLine_cases hline with ⟨kind, e, hinserts, honly, hset', hsuffix'⟩ | ⟨hnone, rfl⟩
  · rw [hset', hsuffix']
    constructor
    · intro e'
      rw [Finset.mem_insert, or_comm]
      refine or_congr_right ⟨?_, ?_⟩
      · rintro rfl
        exact ⟨kind, hinserts⟩
      · rintro ⟨kind', h'⟩
        exact (honly kind' e' h').2
    · intro i
      cases kind with
      | addr =>
          have hno : ¬ ∃ e', Inserts .cidr conv line e' ∧ e'.2 = i := by
            rintro ⟨e', h', -⟩
            cases (honly .cidr e' h').1
          rw [if_pos rfl]
          exact (or_iff_left hno).symm
      | cidr =>
          rw [if_neg (by decide), Finset.mem_insert, or_comm]
          refine or_congr_right ⟨?_, ?_⟩
          · rintro rfl
            exact ⟨e, hinserts, rfl⟩
          · rintro ⟨e', h', rfl⟩
            rw [(honly .cidr e' h').2]
  · constructor
    · intro e'
      simp [hnone]
    · intro i
      simp [hnone]

/-- Every element comes from the file, and every text that it comes from is a valid one
of this address. -/
def Meaningful (conv : TextConv) (lines : List String) (cfg : Config) : Prop :=
  ∀ e ∈ cfg.concernAddrSet,
    (∃ kind x, OriginText lines kind x ∧ convertAddr conv x kind.delim = some e)
      ∧ ∀ kind x, OriginText lines kind x → convertAddr conv x kind.delim = some e →
        ∃ a, Written kind conv x a ∧ e = kind.element a

/-- The shift counts that `convert_addr` evaluates for the file are in range. -/
def FileShiftsOk (conv : TextConv) (lines : List String) : Prop :=
  ∀ x n, OriginText lines .cidr x → number conv '/' x = some n → ShiftOk (shiftCount n)

/-- A shift count that `check_addr_is_concerned` evaluates: the address is not in the set,
and no network of it with a smaller prefix length is. -/
def ShiftsBy (cfg : Config) (a : Sockaddr) (count : ℤ) : Prop :=
  (toSearch a).1 ∉ cfg.concernAddrSet
    ∧ ∃ i ∈ cfg.subnetSuffix,
      (∀ j ∈ cfg.subnetSuffix, j < i → (network (toSearch a).2 j, j) ∉ cfg.concernAddrSet)
        ∧ count = shiftCount i

/-- Every origin is valid, apart from a port that is cut to 0. -/
def ValidOrigins (conv : TextConv) (lines : List String) : Prop :=
  ∀ kind x n, OriginText lines kind x → number conv kind.delim x = some n →
    (kind = .addr ∧ n = 0) ∨ ValidText conv x kind.delim kind.most

theorem validOrigins_of_accepted {conv : TextConv} {lines : List String}
    (h : ∀ line ∈ lines, Accepted conv line) : ValidOrigins conv lines := by
  rintro kind x n ⟨line, hline, more, htokens⟩ -
  obtain ⟨haddr, hcidr⟩ := h line hline _ _ htokens
  cases kind with
  | addr =>
      obtain ⟨x', y', heq, hx, -⟩ := haddr rfl
      cases heq
      exact Or.inr hx
  | cidr =>
      obtain ⟨x', y', heq, hx, -⟩ := hcidr rfl
      cases heq
      exact Or.inr hx

/-- The number of a text of an element. -/
theorem number_of_element {conv : TextConv} {kind : RuleKind} {x : String}
    {e : UInt32 × UInt16} (h : convertAddr conv x kind.delim = some e) :
    ∃ n a, number conv kind.delim x = some n ∧ ConfigFile.convertAddr conv x kind.delim = some a
      ∧ e = kind.element a ∧ (e.2 = 0 ↔ n = 0) := by
  cases hn : number conv kind.delim x with
  | none =>
      rw [(convertAddr_of_none hn).2] at h
      cases h
  | some n =>
      obtain ⟨a, ha, he, hzero⟩ := convertAddr_of_number hn
      rw [h] at he
      obtain rfl := Option.some.inj he
      exact ⟨n, a, rfl, ha, rfl, by rw [kind.element_port]; exact hzero⟩

/-- A valid prefix length. -/
theorem shiftOk_of_validText {conv : TextConv} {x : String} {n : UInt16}
    (h : ValidText conv x '/' 32) (hn : number conv '/' x = some n) : ShiftOk (shiftCount n) := by
  obtain ⟨ip, k, -, hk, hpos, hle⟩ := h
  rw [number, hk, Option.map_some, Option.some_inj] at hn
  have hvalue : (n.toNat : ℤ) = k := by
    rw [← hn]
    exact toNat_ofInt .cidr hpos hle
  refine shiftOk_iff.mpr ⟨?_, ?_⟩ <;> omega

/-- The stored origins are meaningful and the shifts are defined exactly if the origins
are valid. -/
theorem meaningful_iff {conv : TextConv} {lines : List String} {cfg : Config}
    (h : initConfigFile conv lines = some cfg) :
    (cfg.Meaningful conv lines ∧ FileShiftsOk conv lines
        ∧ ∀ a count, cfg.ShiftsBy a count → ShiftOk count)
      ↔ ValidOrigins conv lines := by
  obtain ⟨hset, hsuffix⟩ := sets_of_initConfigFile h
  constructor
  · rintro ⟨hmeaningful, hshifts, -⟩ kind x n horigin hn
    by_cases hzero : n = 0
    · cases kind with
      | addr => exact Or.inl ⟨rfl, hzero⟩
      | cidr =>
          -- the mask of the prefix length 0
          have hok := hshifts x n horigin hn
          rw [hzero] at hok
          exact absurd hok.2 (by decide)
    · obtain ⟨a, -, he, hiff⟩ := convertAddr_of_number hn
      rw [← kind.element_port] at hiff
      obtain ⟨line, hline, more, htokens⟩ := horigin
      have hmem : kind.element a ∈ cfg.concernAddrSet := by
        refine (hset _).mpr ⟨line, hline, kind, x, more, htokens, he, ?_⟩
        exact fun h0 => hzero (hiff.mp h0)
      obtain ⟨b, hb, -⟩ := (hmeaningful _ hmem).2 kind x ⟨line, hline, more, htokens⟩ he
      exact Or.inr hb.validText
  · intro hvalid
    refine ⟨fun e he => ?_, fun x n horigin hn => ?_, fun a count hcount => ?_⟩
    · obtain ⟨line, hline, kind, x, more, htokens, hconv, hne⟩ := (hset e).mp he
      refine ⟨⟨kind, x, ⟨line, hline, more, htokens⟩, hconv⟩, fun kind' x' horigin hconv' => ?_⟩
      obtain ⟨n, a, hn, ha, rfl, hzero⟩ := number_of_element hconv'
      rcases hvalid kind' x' n horigin hn with ⟨-, h0⟩ | htext
      · exact absurd (hzero.mpr h0) hne
      · exact ⟨a, written_of_validText htext ha, rfl⟩
    · rcases hvalid .cidr x n horigin hn with ⟨hkind, -⟩ | htext
      · cases hkind
      · exact shiftOk_of_validText htext hn
    · obtain ⟨-, i, hi, -, rfl⟩ := hcount
      obtain ⟨line, hline, e, ⟨x, more, htokens, hconv, hne⟩, rfl⟩ := (hsuffix i).mp hi
      obtain ⟨n, a, hn, ha, rfl, hzero⟩ := number_of_element hconv
      rcases hvalid .cidr x n ⟨line, hline, more, htokens⟩ hn with ⟨hkind, -⟩ | htext
      · cases hkind
      · -- the element holds the number itself
        have hport := (ConfigFile.number_of_convertAddr ha).1
        exact shiftOk_of_validText htext hport

end Config

namespace Loading

/-- The lines as C strings. -/
def cLines (lines : List (String × Answer)) : List String := lines.map fun line => cStr line.1

/-- The sets are those of `Config.initConfigFile`. -/
theorem config_of_initConfigFile {conv : TextConv} {lines : List (String × Answer)} {s : Loading}
    (h : initConfigFile conv lines = some s) :
    Config.initConfigFile conv (cLines lines) = some s.config := by
  refine foldlM_invariant
    (P := fun lines s => Config.initConfigFile conv (cLines lines) = some s.config) rfl
    (fun before line s₁ s₂ _ hbefore hline => ?_) h
  rw [cLines, List.map_append]
  exact foldlM_snoc_eq_some.mpr ⟨s₁.config, hbefore, initLine_of_loadLine hline⟩

end Loading

end Tmet.Mysyscall

/-! ### Both programs -/

namespace Tmet

open Tmet.Posix Tmet.Tproxy Tmet.Mysyscall
open Tmet.Tproxy.ConfigFile (ShiftOk)

/-- Take files that the programs get through. The rules that the proxy stores are what
the file says, and its shift counts are from 0 to 31, exactly if each accepted rule that no
later one overrides has a valid origin and a valid masquerade address. The same holds for
the interposer exactly if each origin of a `map-cidr` line is valid, and each of a
`map-addr` line is valid or has a port that is cut to 0. -/
theorem storedRules_iff (conv : TextConv) (lines : List String) (cfg : ConfigFile)
    (initLines : List (String × Answer)) (s : Loading)
    (hload : ConfigFile.load conv lines = some cfg)
    (hinit : Loading.initConfigFile conv initLines = some s) :
    ((cfg.Meaningful conv lines ∧ ∀ origin, ∀ count ∈ cfg.shiftCounts origin, ShiftOk count)
        ↔ ConfigFile.ValidRules conv lines)
      ∧ ((s.config.Meaningful conv (Loading.cLines initLines)
            ∧ Config.FileShiftsOk conv (Loading.cLines initLines)
            ∧ ∀ a count, s.config.ShiftsBy a count → ShiftOk count)
          ↔ Config.ValidOrigins conv (Loading.cLines initLines)) := by
  refine ⟨?_, Config.meaningful_iff (Loading.config_of_initConfigFile hinit)⟩
  rw [← ConfigFile.meaningful_iff hload]
  exact and_iff_left_of_imp fun h origin count hcount => h.shiftOk hcount

namespace Demo

open Tmet.Tproxy.Demo (texts lines accepted_lines)

/-- A rule of each kind. -/
theorem storedRules_iff_lines :
    ∃ cfg s, ConfigFile.load texts lines = some cfg
      ∧ Loading.initConfigFile texts (lines.map fun line => (line, .connected)) = some s
      ∧ cfg.Meaningful texts lines ∧ s.config.Meaningful texts lines := by
  have hload : (ConfigFile.load texts lines).isSome = true := by decide
  have hinit : (Loading.initConfigFile texts
      (lines.map fun line => (line, .connected))).isSome = true := by decide
  have hclines : Loading.cLines (lines.map fun line => (line, .connected)) = lines := by decide
  obtain ⟨cfg, hcfg⟩ := Option.isSome_iff_exists.mp hload
  obtain ⟨s, hs⟩ := Option.isSome_iff_exists.mp hinit
  obtain ⟨hproxy, hinterposer⟩ := storedRules_iff texts lines cfg _ s hcfg hs
  rw [hclines] at hinterposer
  exact ⟨cfg, s, hcfg, hs, (hproxy.mpr (ConfigFile.validRules_of_accepted accepted_lines)).1,
    (hinterposer.mpr (Config.validOrigins_of_accepted accepted_lines)).1⟩

/-- The texts of the line below. -/
def longTexts : TextConv where
  inetAton := texts.inetAton
  stoi text := if text = "40" then some 40 else none

/-- A network with a prefix that is longer than the address. -/
def longPrefix : String := "map-cidr 192.168.1.1/40 10.0.1.5/40"

/-- It is stored, and the masks are shifted by -8. -/
theorem storedRules_fails :
    (∃ cfg, ConfigFile.load longTexts [longPrefix] = some cfg
        ∧ ¬ cfg.Meaningful longTexts [longPrefix]
        ∧ ∃ count ∈ cfg.shiftCounts ⟨0x0101a8c0, 0x5000⟩, ¬ ShiftOk count)
      ∧ ∃ s, Loading.initConfigFile longTexts [(longPrefix, .connected)] = some s
        ∧ ¬ s.config.Meaningful longTexts [longPrefix]
        ∧ ¬ Config.FileShiftsOk longTexts [longPrefix] := by
  have hlong : ¬ ValidText longTexts "192.168.1.1/40" '/' 32 := by
    rintro ⟨ip, n, -, hn, -, hle⟩
    have hforty : longTexts.stoi (splitAddr "192.168.1.1/40" '/').2 = some 40 := by decide
    rw [hforty] at hn
    cases hn
    exact absurd hle (by decide)
  have hnumber : number longTexts RuleKind.cidr.delim "192.168.1.1/40" = some 40 := by decide
  constructor
  · have hshift : (ConfigFile.load longTexts [longPrefix]).any (fun cfg => decide
        (∃ count ∈ cfg.shiftCounts ⟨0x0101a8c0, 0x5000⟩, ¬ ShiftOk count)) = true := by decide
    obtain ⟨cfg, hcfg, hcount⟩ := (Option.any_eq_true _ _).mp hshift
    refine ⟨cfg, hcfg, fun hmeaningful => hlong ?_, of_decide_eq_true hcount⟩
    have hvalid := (ConfigFile.meaningful_iff hcfg).mp hmeaningful
    have haccepts : ConfigFile.AcceptsRule .cidr longTexts longPrefix "192.168.1.1/40"
        "10.0.1.5/40" :=
      ⟨by decide, ⟨40, by decide, by decide⟩, 40, by decide, by decide⟩
    refine (hvalid .cidr [] longPrefix [] _ _ rfl haccepts ?_).1
    rintro ⟨line, hline, -⟩
    cases hline
  · have hinit : (Loading.initConfigFile longTexts
        [(longPrefix, .connected)]).isSome = true := by decide
    have horigin : Config.OriginText [longPrefix] .cidr "192.168.1.1/40" :=
      ⟨longPrefix, List.mem_singleton_self _, ["10.0.1.5/40"], by decide⟩
    obtain ⟨s, hs⟩ := Option.isSome_iff_exists.mp hinit
    refine ⟨s, hs, fun hmeaningful => hlong ?_, fun hshifts => ?_⟩
    · have hclines : Loading.cLines [(longPrefix, .connected)] = [longPrefix] := by decide
      have hsets := (Config.sets_of_initConfigFile (Loading.config_of_initConfigFile hs)).1
      obtain ⟨a, -, he, hzero⟩ := convertAddr_of_number hnumber
      have hmem : RuleKind.cidr.element a ∈ s.config.concernAddrSet := by
        refine (hsets _).mpr ⟨longPrefix, by rw [hclines]; simp, .cidr, "192.168.1.1/40",
          ["10.0.1.5/40"], by decide, he, fun h0 => ?_⟩
        exact absurd (hzero.mp h0) (by decide)
      obtain ⟨b, hb, -⟩ := (hmeaningful _ hmem).2 .cidr _ horigin he
      exact hb.validText
    · exact absurd (hshifts _ _ horigin hnumber) (by decide)

end Demo

end Tmet
