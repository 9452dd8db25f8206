import Tmet.Mysyscall.Config
import Tmet.Tproxy.ConfigFile

/-!
# `Tmet.Proofs.Concerned`: what is intercepted and what has a rule

The interposer and the proxy read the same configuration file. The interposer keeps
the origins of both kinds of rules in one set: the address and the port of a
`map-addr` line, in network byte order, and the network and the prefix length of a
`map-cidr` line, the length in the place of the port. The proxy keeps a map for each
kind.

`SameRules` relates the tables that the two load from the same lines
(`sameRules_load`). `checkAddrIsConcerned_iff` says with it what the interposer finds
in its set: a rule of the proxy for the address it searches, or a `map-addr` origin
that it takes for the network of that address, because its port is, as a number in
memory, the prefix length of a `map-cidr` line.

`concerned_iff_hasRule_iff` is the result: for which socket addresses the two agree.
They do not for an address with such a mistaken origin and no rule. They also do not
for some addresses that are no IPv4 addresses at all: an IPv6 address that is not
mapped is searched as 0.0.0.0 with its port, and one of any other family as the bytes
that it has in the place of an IPv4 address.

`both_ends_concerned_iff` is about a connection through the proxy. The client connects
to an origin with a rule, and the peer accepts from the same address with a port that
nobody chose: a `map-addr` rule does not find it there.
-/

set_option autoImplicit false

namespace Tmet.Tproxy

open Tmet.Posix
open Tmet.Mysyscall (Config)

/-! ### Networks -/

/-- The network of an address has itself as its network. -/
theorem network_network (a : UInt32) (i : UInt16) :
    Config.network (Config.network a i) i = Config.network a i := by
  unfold Config.network
  rw [ntohl_ntohl, UInt32.and_assoc, UInt32.and_self]

/-- The two programs compute networks in different byte orders. -/
theorem network_eq_iff {a b : Addr} {i : UInt16} :
    Config.network a.sAddr i = Config.network b.sAddr i
      ↔ ConfigFile.addrMask a (ConfigFile.netmask i)
        = ConfigFile.addrMask b (ConfigFile.netmask i) := by
  unfold Config.network ConfigFile.addrMask ConfigFile.netmask
  constructor
  · intro h
    have hntohl := congrArg ntohl h
    rwa [ntohl_ntohl, ntohl_ntohl] at hntohl
  · exact congrArg ntohl

/-! ### Rules -/

namespace ConfigFile

/-- The address belongs to the network of the rule. -/
def InSubnet (origin network : Addr) : Prop :=
  addrMask network (netmask network.sinPort) = addrMask origin (netmask network.sinPort)

/-- There is a rule for the address: its own, or one of a network of it. -/
def HasRule (cfg : ConfigFile) (origin : Addr) : Prop :=
  (cfg.addrMap origin).isSome = true ∨ ∃ rule ∈ cfg.cidrMap, InSubnet origin rule.1

instance (origin network : Addr) : Decidable (InSubnet origin network) :=
  inferInstanceAs (Decidable (_ = _))

instance (cfg : ConfigFile) (origin : Addr) : Decidable (cfg.HasRule origin) :=
  inferInstanceAs (Decidable (_ ∨ _))

/-- `get_masquerade_addr` applies a rule if there is one, else it returns the address. -/
theorem getMasqueradeAddr_cases (cfg : ConfigFile) (origin : Addr) :
    cfg.addrMap origin = some (cfg.getMasqueradeAddr origin)
      ∨ (cfg.addrMap origin = none ∧ ∃ rule ∈ cfg.cidrMap, InSubnet origin rule.1
        ∧ cfg.getMasqueradeAddr origin = { origin with
            sAddr := ntohl (addrMask rule.2 (netmask rule.2.sinPort)
              ||| addrMask origin (~~~ netmask rule.2.sinPort)) })
      ∨ (¬ cfg.HasRule origin ∧ cfg.getMasqueradeAddr origin = origin) := by
  rw [getMasqueradeAddr]
  cases haddr : cfg.addrMap origin with
  | some a => exact Or.inl rfl
  | none =>
      refine Or.inr ?_
      dsimp only
      -- the first rule whose subnet has the address, if there is one
      cases hfind : cfg.cidrMap.find? fun rule =>
          addrMask rule.1 (netmask rule.1.sinPort) == addrMask origin (netmask rule.1.sinPort) with
      | some rule =>
          have hin := List.find?_some hfind
          exact Or.inl ⟨rfl, rule, List.mem_of_find?_eq_some hfind, beq_iff_eq.mp hin, rfl⟩
      | none =>
          refine Or.inr ⟨?_, rfl⟩
          rintro (hsome | ⟨rule, hmem, hin⟩)
          · rw [haddr] at hsome
            cases hsome
          · exact List.find?_eq_none.mp hfind rule hmem (beq_iff_eq.mpr hin)

/-- The origins of a map after `which[origin] = masquerade`. -/
theorem exists_insertRule_iff {P : Addr → Prop} (origin masquerade : Addr)
    (rules : List (Addr × Addr)) :
    (∃ rule ∈ insertRule origin masquerade rules, P rule.1)
      ↔ P origin ∨ ∃ rule ∈ rules, P rule.1 := by
  induction rules with
  | nil => simp [insertRule]
  | cons rule rules ih =>
      rw [insertRule]
      split
      · -- the same origin as before
        rw [List.exists_mem_cons_iff, List.exists_mem_cons_iff, ‹rule.1 = origin›]
        tauto
      · split
        · rw [List.exists_mem_cons_iff]
        · rw [List.exists_mem_cons_iff, List.exists_mem_cons_iff, ih]
          tauto

end ConfigFile

/-! ### Loading -/

/-- The interposer's set holds the origins of the proxy's rules. -/
structure SameRules (m : Config) (p : ConfigFile) : Prop where
  mem_set : ∀ x q, (x, q) ∈ m.concernAddrSet ↔ (p.addrMap ⟨x, q⟩).isSome = true
    ∨ ∃ rule ∈ p.cidrMap, Config.network rule.1.sAddr rule.1.sinPort = x ∧ rule.1.sinPort = q
  mem_suffix : ∀ i, i ∈ m.subnetSuffix ↔ ∃ rule ∈ p.cidrMap, rule.1.sinPort = i
  addr_port : ∀ origin, (p.addrMap origin).isSome = true → origin.sinPort ≠ 0
  cidr_port : ∀ rule ∈ p.cidrMap, rule.1.sinPort ≠ 0

theorem SameRules.congr {m : Config} {p p' : ConfigFile} (h : SameRules m p)
    (haddr : p'.addrMap = p.addrMap) (hcidr : p'.cidrMap = p.cidrMap) : SameRules m p' := by
  obtain ⟨hset, hsuffix, hap, hcp⟩ := h
  rw [← haddr, ← hcidr] at hset
  rw [← hcidr] at hsuffix hcp
  rw [← haddr] at hap
  exact ⟨hset, hsuffix, hap, hcp⟩

/-- A `map-addr` line. -/
theorem SameRules.mapAddr {m : Config} {p : ConfigFile} (h : SameRules m p)
    {origin masquerade : Addr} (ho : origin.sinPort ≠ 0) (hm : masquerade.sinPort ≠ 0) :
    SameRules { m with concernAddrSet := insert (origin.sAddr, origin.sinPort) m.concernAddrSet }
      (p.mapAddr origin masquerade) := by
  rw [ConfigFile.mapAddr, if_neg (not_or.mpr ⟨ho, hm⟩)]
  -- the keys of the map after the line
  have hget (a : Addr) : (Function.update p.addrMap origin (some masquerade) a).isSome = true
      ↔ a = origin ∨ (p.addrMap a).isSome = true := by
    by_cases ha : a = origin
    · simp [ha]
    · simp [ha]
  refine ⟨fun x q => ?_, h.mem_suffix, fun a ha => ?_, h.cidr_port⟩
  · have heq : (x, q) = (origin.sAddr, origin.sinPort) ↔ (⟨x, q⟩ : Addr) = origin := by
      cases origin
      rw [Prod.mk.injEq, Addr.mk.injEq]
    rw [Finset.mem_insert, heq, h.mem_set]
    show _ ↔ (Function.update p.addrMap origin (some masquerade) ⟨x, q⟩).isSome = true ∨ _
    rw [hget, or_assoc]
  · rcases (hget a).mp ha with rfl | hold
    · exact ho
    · exact h.addr_port a hold

/-- A `map-cidr` line. -/
theorem SameRules.mapCidr {m : Config} {p : ConfigFile} (h : SameRules m p)
    {origin masquerade : Addr} (ho : origin.sinPort ≠ 0) (hm : masquerade.sinPort ≠ 0) :
    SameRules { m with
        concernAddrSet := insert (Config.network origin.sAddr origin.sinPort, origin.sinPort)
          m.concernAddrSet
        subnetSuffix := insert origin.sinPort m.subnetSuffix }
      (p.mapCidr origin masquerade) := by
  rw [ConfigFile.mapCidr, if_neg (not_or.mpr ⟨ho, hm⟩)]
  refine ⟨fun x q => ?_, fun i => ?_, h.addr_port, ?_⟩
  · show _ ↔ _ ∨ ∃ rule ∈ ConfigFile.insertRule origin masquerade p.cidrMap,
      Config.network rule.1.sAddr rule.1.sinPort = x ∧ rule.1.sinPort = q
    rw [ConfigFile.exists_insertRule_iff
      (P := fun a => Config.network a.sAddr a.sinPort = x ∧ a.sinPort = q),
      Finset.mem_insert, h.mem_set, Prod.mk.injEq]
    tauto
  · show _ ↔ ∃ rule ∈ ConfigFile.insertRule origin masquerade p.cidrMap, rule.1.sinPort = i
    rw [ConfigFile.exists_insertRule_iff (P := fun a => a.sinPort = i), Finset.mem_insert,
      h.mem_suffix]
    tauto
  · intro rule hrule hzero
    have hsome := (ConfigFile.exists_insertRule_iff (P := fun a => a.sinPort = 0) origin masquerade
      p.cidrMap).mp ⟨rule, hrule, hzero⟩
    -- a rule of prefix 0 would be the new one or an old one
    rcases hsome with hnew | ⟨rule', hmem, hold⟩
    · exact ho hnew
    · exact h.cidr_port rule' hmem hold

/-- The text of a valid address with a port, or of a valid network. -/
def ValidText (conv : TextConv) (text : String) (delim : Char) (most : ℤ) : Prop :=
  ∃ ip n, conv.inetAton (splitAddr text delim).1 = some ip
    ∧ conv.stoi (splitAddr text delim).2 = some n ∧ 1 ≤ n ∧ n ≤ most

/-- If the line is a `map-addr` or a `map-cidr` line, then both programs accept it. -/
def Accepted (conv : TextConv) (line : String) : Prop :=
  ∀ cmd args, getTokens line = cmd :: args →
    (cmd = "map-addr" → ∃ origin masquerade, args = [origin, masquerade]
      ∧ ValidText conv origin ':' 65535 ∧ ValidText conv masquerade ':' 65535)
    ∧ (cmd = "map-cidr" → ∃ origin masquerade, args = [origin, masquerade]
      ∧ ValidText conv origin '/' 32 ∧ ValidText conv masquerade '/' 32)

theorem ofInt_ne_zero {n : ℤ} (hpos : 1 ≤ n) (hle : n ≤ 65535) : UInt16.ofInt n ≠ 0 := by
  intro h
  have hnat := congrArg UInt16.toNat h
  rw [UInt16.ofInt, UInt16.toNat_ofNat', UInt16.toNat_zero] at hnat
  omega

/-- What the two make of a valid text of an address. -/
theorem ValidText.addr {conv : TextConv} {text : String} (h : ValidText conv text ':' 65535) :
    ∃ a : Addr, a.sinPort ≠ 0 ∧ Config.convertAddr conv text ':' = some (a.sAddr, a.sinPort)
      ∧ ConfigFile.convertAddr conv text ':' = some a := by
  obtain ⟨ip, n, hip, hn, hpos, hle⟩ := h
  refine ⟨⟨ip, htons (UInt16.ofInt n)⟩, htons_ne_zero (ofInt_ne_zero hpos hle), ?_, ?_⟩
  · simp [Config.convertAddr, hip, hn]
  · simp [ConfigFile.convertAddr, hip, hn]

/-- What the two make of a valid text of a network. -/
theorem ValidText.cidr {conv : TextConv} {text : String} (h : ValidText conv text '/' 32) :
    ∃ a : Addr, a.sinPort ≠ 0
      ∧ Config.convertAddr conv text '/' = some (Config.network a.sAddr a.sinPort, a.sinPort)
      ∧ ConfigFile.convertAddr conv text '/' = some a := by
  obtain ⟨ip, n, hip, hn, hpos, hle⟩ := h
  refine ⟨⟨ip, UInt16.ofInt n⟩, ofInt_ne_zero hpos (by omega), ?_, ?_⟩
  · simp [Config.convertAddr, hip, hn]
  · simp [ConfigFile.convertAddr, hip, hn]

/-- A line of another kind changes no rule. -/
theorem loadLine_of_ne {conv : TextConv} {p p' : ConfigFile} {line cmd : String}
    {args : List String} (htokens : getTokens line = cmd :: args) (haddr : cmd ≠ "map-addr")
    (hcidr : cmd ≠ "map-cidr") (h : p.loadLine conv line = some p') :
    p'.addrMap = p.addrMap ∧ p'.cidrMap = p.cidrMap := by
  rcases ConfigFile.loadLine_cases h with
    ⟨_, _, _, _, htokens', -⟩ | ⟨_, _, _, _, htokens', -⟩ | ⟨-, hsame⟩
  · exact absurd (List.cons.inj (htokens.symm.trans htokens')).1 haddr
  · exact absurd (List.cons.inj (htokens.symm.trans htokens')).1 hcidr
  · exact hsame

/-- Both programs read one more line. -/
theorem SameRules.line {conv : TextConv} {m m' : Config} {p p' : ConfigFile} {line : String}
    (h : SameRules m p) (haccepted : Accepted conv line) (hm : Config.initLine conv m line = some m')
    (hp : p.loadLine conv line = some p') : SameRules m' p' := by
  cases htokens : getTokens line with
  | nil =>
      rw [Config.initLine, htokens] at hm
      rw [ConfigFile.loadLine, ConfigFile.readLine, htokens] at hp
      cases hm
      cases hp
      exact h
  | cons cmd args =>
      obtain ⟨haddr, hcidr⟩ := haccepted cmd args htokens
      by_cases hcmd : cmd = "map-addr"
      · obtain ⟨o, t, rfl, ho, ht⟩ := haddr hcmd
        obtain ⟨origin, hoPort, hom, hop⟩ := ho.addr
        obtain ⟨masquerade, htPort, -, htp⟩ := ht.addr
        simp [Config.initLine, htokens, hcmd, hom, hoPort] at hm
        simp [ConfigFile.loadLine, ConfigFile.readLine, htokens, hcmd, hop, htp] at hp
        rw [← hm, ← hp]
        exact h.mapAddr hoPort htPort
      · by_cases hcmd' : cmd = "map-cidr"
        · obtain ⟨o, t, rfl, ho, ht⟩ := hcidr hcmd'
          obtain ⟨origin, hoPort, hom, hop⟩ := ho.cidr
          obtain ⟨masquerade, htPort, -, htp⟩ := ht.cidr
          simp [Config.initLine, htokens, hcmd', hom, hoPort] at hm
          simp [ConfigFile.loadLine, ConfigFile.readLine, htokens, hcmd', hop, htp] at hp
          rw [← hm, ← hp]
          exact h.mapCidr hoPort htPort
        · obtain ⟨hsame, hsame'⟩ := loadLine_of_ne htokens hcmd hcmd' hp
          -- a line of any other kind has no rule for either program
          have hm' : m' = m := by
            cases args with
            | nil => simpa [Config.initLine, htokens] using hm.symm
            | cons x more => simpa [Config.initLine, htokens, hcmd, hcmd'] using hm.symm
          rw [hm']
          exact h.congr hsame hsame'

/-- Both programs read more lines. -/
theorem SameRules.lines {conv : TextConv} {lines : List String} {m m' : Config} {p p' : ConfigFile}
    (h : SameRules m p) (haccepted : ∀ line ∈ lines, Accepted conv line)
    (hm : lines.foldlM (Config.initLine conv) m = some m')
    (hp : lines.foldlM (ConfigFile.loadLine conv) p = some p') : SameRules m' p' := by
  induction lines generalizing m p with
  | nil =>
      cases hm
      cases hp
      exact h
  | cons line lines ih =>
      rw [List.foldlM_cons, Option.bind_eq_bind, Option.bind_eq_some_iff] at hm hp
      obtain ⟨m₁, hm₁, hm⟩ := hm
      obtain ⟨p₁, hp₁, hp⟩ := hp
      have hline := h.line (haccepted line List.mem_cons_self) hm₁ hp₁
      exact ih hline (fun l hl => haccepted l (List.mem_cons_of_mem _ hl)) hm hp

/-- Both programs read a file. -/
theorem sameRules_load {conv : TextConv} {lines : List String} {m : Config} {p : ConfigFile}
    (haccepted : ∀ line ∈ lines, Accepted conv line)
    (hm : Config.initConfigFile conv lines = some m) (hp : ConfigFile.load conv lines = some p) :
    SameRules m p := by
  refine SameRules.lines ⟨?_, ?_, ?_, ?_⟩ haccepted hm hp
  · simp [ConfigFile.empty]
  · simp [ConfigFile.empty]
  · simp [ConfigFile.empty]
  · simp [ConfigFile.empty]

/-! ### Searching -/

/-- The IPv4 address and the port of a socket address, if it is an IPv4 address or one
that is mapped to IPv6. -/
def ipv4Of (a : Sockaddr) : Option Addr :=
  if a.sinFamily = AF_INET then some ⟨a.sAddr, a.sinPort⟩
  else if a.sinFamily = AF_INET6 ∧ a.sin6Addr.Mapped then some ⟨a.sin6Addr.u32₃, a.sinPort⟩
  else none

/-- The address and the port that `check_addr_is_concerned` searches. -/
def searched (a : Sockaddr) : Addr :=
  if a.sinFamily = AF_INET then ⟨a.sAddr, a.sinPort⟩
  else if a.sinFamily = AF_INET6 then
    ⟨if a.sin6Addr.Mapped then a.sin6Addr.u32₃ else 0, a.sinPort⟩
  else ⟨a.sAddr, 0⟩

theorem searched_of_ipv4Of {a : Sockaddr} {origin : Addr} (h : ipv4Of a = some origin) :
    searched a = origin := by
  unfold ipv4Of at h
  unfold searched
  split at h
  · rw [if_pos ‹_›]
    exact Option.some.inj h
  · split at h
    · obtain ⟨hfamily, hmapped⟩ := ‹a.sinFamily = AF_INET6 ∧ a.sin6Addr.Mapped›
      rw [if_neg ‹_›, if_pos hfamily, if_pos hmapped]
      exact Option.some.inj h
    · cases h

/-- A `map-addr` origin is taken for a network of the address: it is the address of
the network, and its port is the prefix length of a `map-cidr` rule. -/
def Mistaken (p : ConfigFile) (a : Addr) : Prop :=
  ∃ rule ∈ p.cidrMap,
    (p.addrMap ⟨Config.network a.sAddr rule.1.sinPort, rule.1.sinPort⟩).isSome = true

/-- What the second search of `check_addr_is_concerned` finds. -/
theorem SameRules.network_search {m : Config} {p : ConfigFile} (h : SameRules m p) (a : Addr) :
    (∃ i ∈ m.subnetSuffix, (Config.network a.sAddr i, i) ∈ m.concernAddrSet)
      ↔ Mistaken p a ∨ ∃ rule ∈ p.cidrMap, ConfigFile.InSubnet a rule.1 := by
  constructor
  · rintro ⟨i, hi, hmem⟩
    rcases (h.mem_set _ _).mp hmem with haddr | ⟨rule, hrule, hnetwork, rfl⟩
    · obtain ⟨rule, hrule, rfl⟩ := (h.mem_suffix i).mp hi
      exact Or.inl ⟨rule, hrule, haddr⟩
    · exact Or.inr ⟨rule, hrule, network_eq_iff.mp hnetwork⟩
  · rintro (⟨rule, hrule, haddr⟩ | ⟨rule, hrule, hin⟩)
    · exact ⟨_, (h.mem_suffix _).mpr ⟨rule, hrule, rfl⟩, (h.mem_set _ _).mpr (Or.inl haddr)⟩
    · refine ⟨_, (h.mem_suffix _).mpr ⟨rule, hrule, rfl⟩, (h.mem_set _ _).mpr (Or.inr ?_)⟩
      exact ⟨rule, hrule, network_eq_iff.mpr hin, rfl⟩

/-- What the first search finds is a rule for the address. A `map-cidr` rule whose
network and prefix length are the address and the port is a rule of this network. -/
theorem SameRules.hasRule_of_mem {m : Config} {p : ConfigFile} (h : SameRules m p) {a : Addr}
    (hmem : (a.sAddr, a.sinPort) ∈ m.concernAddrSet) : p.HasRule a := by
  rcases (h.mem_set _ _).mp hmem with haddr | ⟨rule, hrule, hnetwork, -⟩
  · exact Or.inl haddr
  · refine Or.inr ⟨rule, hrule, network_eq_iff.mp ?_⟩
    rw [← hnetwork, network_network]

/-- The interposer finds what it searches if it has a rule, or if an origin is
mistaken for its network. -/
theorem SameRules.checkAddrIsConcerned_iff {m : Config} {p : ConfigFile} (h : SameRules m p)
    (a : Sockaddr) :
    m.checkAddrIsConcerned a = true ↔ p.HasRule (searched a) ∨ Mistaken p (searched a) := by
  -- the two searches of `check_addr_is_concerned`, whatever they look for
  have hresult (exact : UInt32 × UInt16) (sAddr : UInt32)
      (hsearch : Config.toSearch a = (exact, sAddr)) (hsAddr : sAddr = (searched a).sAddr) :
      m.checkAddrIsConcerned a = true
        ↔ exact ∈ m.concernAddrSet ∨ Mistaken p (searched a)
          ∨ ∃ rule ∈ p.cidrMap, ConfigFile.InSubnet (searched a) rule.1 := by
    rw [Config.checkAddrIsConcerned, hsearch, ← h.network_search, ← hsAddr]
    simp
  -- both families of IP addresses search for the same address and port
  have hip (hsearch : Config.toSearch a
      = (((searched a).sAddr, (searched a).sinPort), (searched a).sAddr)) :
      m.checkAddrIsConcerned a = true ↔ p.HasRule (searched a) ∨ Mistaken p (searched a) := by
    rw [hresult _ _ hsearch rfl]
    constructor
    · rintro (hmem | hmistaken | hcidr)
      · exact Or.inl (h.hasRule_of_mem hmem)
      · exact Or.inr hmistaken
      · exact Or.inl (Or.inr hcidr)
    · rintro ((haddr | hcidr) | hmistaken)
      · exact Or.inl ((h.mem_set _ _).mpr (Or.inl haddr))
      · exact Or.inr (Or.inr hcidr)
      · exact Or.inr (Or.inl hmistaken)
  by_cases hinet : a.sinFamily = AF_INET
  · refine hip ?_
    unfold Config.toSearch searched
    rw [if_pos hinet, if_pos hinet]
  · by_cases hinet6 : a.sinFamily = AF_INET6
    · refine hip ?_
      unfold Config.toSearch searched
      rw [if_neg hinet, if_neg hinet, if_pos hinet6, if_pos hinet6]
      rfl
    · -- another family: nothing has the port 0 that the first search looks for
      have hsearched : searched a = ⟨a.sAddr, 0⟩ := by
        unfold searched
        rw [if_neg hinet, if_neg hinet6]
      have hsearch : Config.toSearch a = ((0, 0), a.sAddr) := by
        unfold Config.toSearch
        rw [if_neg hinet, if_neg hinet6]
      have hzero : ((0, 0) : UInt32 × UInt16) ∉ m.concernAddrSet := by
        intro hmem
        rcases (h.mem_set _ _).mp hmem with haddr | ⟨rule, hrule, -, hport⟩
        · exact h.addr_port _ haddr rfl
        · exact h.cidr_port rule hrule hport
      have haddr : ¬ (p.addrMap (searched a)).isSome = true := by
        intro haddr
        exact h.addr_port _ haddr (by rw [hsearched])
      rw [hresult _ _ hsearch (by rw [hsearched]), ConfigFile.HasRule, or_iff_right hzero,
        or_iff_right haddr, or_comm]

/-- The two programs agree on a socket address with an IPv4 address exactly if no origin
is mistaken for its network, or it has a rule. They agree on any other exactly if what
is searched instead has no rule and no origin is mistaken for its network. -/
theorem concerned_iff_hasRule_iff (conv : TextConv) (lines : List String) (m : Config)
    (p : ConfigFile) (haccepted : ∀ line ∈ lines, Accepted conv line)
    (hm : Config.initConfigFile conv lines = some m) (hp : ConfigFile.load conv lines = some p)
    (a : Sockaddr) :
    (m.checkAddrIsConcerned a = true ↔ ∃ origin, ipv4Of a = some origin ∧ p.HasRule origin)
      ↔ match ipv4Of a with
        | some origin => Mistaken p origin → p.HasRule origin
        | none => ¬ Mistaken p (searched a) ∧ ¬ p.HasRule (searched a) := by
  rw [(sameRules_load haccepted hm hp).checkAddrIsConcerned_iff a]
  cases hipv4 : ipv4Of a with
  | some origin =>
      rw [searched_of_ipv4Of hipv4]
      simp only [Option.some.injEq, exists_eq_left']
      exact or_iff_left_iff_imp
  | none =>
      simp only [reduceCtorEq, false_and, exists_false, iff_false, not_or]
      exact and_comm

/-! ### Both ends of a connection -/

/-- The address that `connect_peer` connects from: it binds to the origin with the
port 0, and the kernel picks a port. -/
def peerSource (origin : Addr) (port : UInt16) : Addr := { origin.host with sinPort := port }

/-- A rule of the proxy finds a connection from the origin on `port`: the origin is in
the network of a `map-cidr` rule, or a `map-addr` rule has its address with this port. -/
def RuleForSource (p : ConfigFile) (origin : Addr) (port : UInt16) : Prop :=
  (p.addrMap ⟨origin.sAddr, port⟩).isSome = true
    ∨ ∃ rule ∈ p.cidrMap, ConfigFile.InSubnet origin rule.1

/-- Take an origin with a rule, and the connection that the proxy opens from its
address on a port that the kernel picks. The interposer of the client and the one of
the peer both intercept their end exactly if a rule finds the connection on that port
as well, or an origin is mistaken for the network of the address. -/
theorem both_ends_concerned_iff (conv : TextConv) (lines : List String) (m : Config)
    (p : ConfigFile) (haccepted : ∀ line ∈ lines, Accepted conv line)
    (hm : Config.initConfigFile conv lines = some m) (hp : ConfigFile.load conv lines = some p)
    (origin : Addr) (hrule : p.HasRule origin) (port : UInt16) (connectAddr acceptAddr : Sockaddr)
    (hconnect : ipv4Of connectAddr = some origin)
    (haccept : ipv4Of acceptAddr = some (peerSource origin port)) :
    (m.checkAddrIsConcerned connectAddr = true ∧ m.checkAddrIsConcerned acceptAddr = true)
      ↔ RuleForSource p origin port ∨ Mistaken p origin := by
  have hsame := sameRules_load haccepted hm hp
  -- the rule of the origin makes the client's end concerned
  have hclient : m.checkAddrIsConcerned connectAddr = true := by
    rw [hsame.checkAddrIsConcerned_iff, searched_of_ipv4Of hconnect]
    exact Or.inl hrule
  have hpeer : m.checkAddrIsConcerned acceptAddr = true
      ↔ RuleForSource p origin port ∨ Mistaken p origin := by
    rw [hsame.checkAddrIsConcerned_iff, searched_of_ipv4Of haccept]
    -- neither a network nor what is mistaken for it depends on the port
    exact Iff.rfl
  rw [hpeer]
  exact and_iff_right hclient

/-! ### Two rules -/

namespace Demo

/-- The texts of the lines below. -/
def texts : TextConv where
  inetAton text :=
    if text = "10.0.0.5" then some 0x0500000a
    else if text = "10.0.1.5" then some 0x0501000a
    else if text = "192.168.1.1" then some 0x0101a8c0
    else none
  stoi text :=
    if text = "8192" then some 8192 else if text = "80" then some 80 else if text = "32" then some 32
    else none

/-- The port 8192 is 32 in network byte order. -/
def lines : List String :=
  ["map-addr 10.0.0.5:8192 10.0.1.5:80", "map-cidr 192.168.1.1/32 10.0.1.5/32"]

theorem accepted_lines : ∀ line ∈ lines, Accepted texts line := by
  intro line hline
  rcases List.mem_cons.mp hline with rfl | hline
  · intro cmd args htokens
    obtain ⟨rfl, rfl⟩ : "map-addr" = cmd ∧ ["10.0.0.5:8192", "10.0.1.5:80"] = args :=
      List.cons.inj (htokens.symm.trans (by decide)).symm
    refine ⟨fun _ => ⟨_, _, rfl, ?_, ?_⟩, fun h => absurd h (by decide)⟩
    · exact ⟨0x0500000a, 8192, by decide, by decide, by decide, by decide⟩
    · exact ⟨0x0501000a, 80, by decide, by decide, by decide, by decide⟩
  · obtain rfl := List.mem_singleton.mp hline
    intro cmd args htokens
    obtain ⟨rfl, rfl⟩ : "map-cidr" = cmd ∧ ["192.168.1.1/32", "10.0.1.5/32"] = args :=
      List.cons.inj (htokens.symm.trans (by decide)).symm
    refine ⟨fun h => absurd h (by decide), fun _ => ⟨_, _, rfl, ?_, ?_⟩⟩
    · exact ⟨0x0101a8c0, 32, by decide, by decide, by decide, by decide⟩
    · exact ⟨0x0501000a, 32, by decide, by decide, by decide, by decide⟩

/-- An IPv4 address with the port 22. -/
def ipv4 (sAddr : UInt32) : Sockaddr := ⟨AF_INET, 0x1600, sAddr, ⟨0, 0, 0, 0⟩⟩

/-- Both have a rule for 192.168.1.1. -/
theorem concerned_iff_hasRule_iff_network :
    ∃ m p, Config.initConfigFile texts lines = some m ∧ ConfigFile.load texts lines = some p
      ∧ (m.checkAddrIsConcerned (ipv4 0x0101a8c0) = true
        ↔ ∃ origin, ipv4Of (ipv4 0x0101a8c0) = some origin ∧ p.HasRule origin) := by
  have hrule : (ConfigFile.load texts lines).any
      (fun p => decide (p.HasRule ⟨0x0101a8c0, 0x1600⟩)) = true := by decide
  have hinit : (Config.initConfigFile texts lines).isSome = true := by decide
  obtain ⟨m, hm⟩ := Option.isSome_iff_exists.mp hinit
  obtain ⟨p, hp, hhas⟩ := (Option.any_eq_true _ _).mp hrule
  refine ⟨m, p, hm, hp, ?_⟩
  refine (concerned_iff_hasRule_iff texts lines m p accepted_lines hm hp _).mpr fun _ => ?_
  exact of_decide_eq_true hhas

/-- The interposer intercepts 10.0.0.5 with every port. -/
theorem concerned_iff_hasRule_fails :
    ¬ ∀ conv lines m p, (∀ line ∈ lines, Accepted conv line) →
      Config.initConfigFile conv lines = some m → ConfigFile.load conv lines = some p →
      ∀ a, (m.checkAddrIsConcerned a = true
        ↔ ∃ origin, ipv4Of a = some origin ∧ p.HasRule origin) := by
  intro hall
  have hconcerned : (Config.initConfigFile texts lines).any
      (fun m => m.checkAddrIsConcerned (ipv4 0x0500000a)) = true := by decide
  have hrule : (ConfigFile.load texts lines).any
      (fun p => decide (¬ p.HasRule ⟨0x0500000a, 0x1600⟩)) = true := by decide
  obtain ⟨m, hm, hyes⟩ := (Option.any_eq_true _ _).mp hconcerned
  obtain ⟨p, hp, hno⟩ := (Option.any_eq_true _ _).mp hrule
  obtain ⟨origin, horigin, hhas⟩ := (hall texts lines m p accepted_lines hm hp _).mp hyes
  obtain rfl := Option.some.inj horigin
  exact of_decide_eq_true hno hhas

/-- The peer accepts a connection from 192.168.1.1, whatever its port is. -/
theorem both_ends_concerned_iff_network :
    ∃ m p, Config.initConfigFile texts lines = some m ∧ ConfigFile.load texts lines = some p
      ∧ m.checkAddrIsConcerned (ipv4 0x0101a8c0) = true := by
  have hrule : (ConfigFile.load texts lines).any (fun p => decide
      (∃ rule ∈ p.cidrMap, ConfigFile.InSubnet ⟨0x0101a8c0, 0x1600⟩ rule.1)) = true := by decide
  have hinit : (Config.initConfigFile texts lines).isSome = true := by decide
  obtain ⟨m, hm⟩ := Option.isSome_iff_exists.mp hinit
  obtain ⟨p, hp, hnetwork⟩ := (Option.any_eq_true _ _).mp hrule
  have hnetwork := of_decide_eq_true hnetwork
  refine ⟨m, p, hm, hp, ?_⟩
  exact ((both_ends_concerned_iff texts lines m p accepted_lines hm hp ⟨0x0101a8c0, 0x1600⟩
    (Or.inr hnetwork) 0x1600 (ipv4 0x0101a8c0) (ipv4 0x0101a8c0) rfl rfl).mpr
      (Or.inl (Or.inr hnetwork))).2

/-- A rule for one address and port. -/
def exactLine : List String := ["map-addr 10.0.0.5:80 10.0.1.5:80"]

theorem accepted_exactLine : ∀ line ∈ exactLine, Accepted texts line := by
  intro line hline
  obtain rfl := List.mem_singleton.mp hline
  intro cmd args htokens
  obtain ⟨rfl, rfl⟩ : "map-addr" = cmd ∧ ["10.0.0.5:80", "10.0.1.5:80"] = args :=
    List.cons.inj (htokens.symm.trans (by decide)).symm
  refine ⟨fun _ => ⟨_, _, rfl, ?_, ?_⟩, fun h => absurd h (by decide)⟩
  · exact ⟨0x0500000a, 80, by decide, by decide, by decide, by decide⟩
  · exact ⟨0x0501000a, 80, by decide, by decide, by decide, by decide⟩

/-- The client connects to 10.0.0.5:80, and the peer accepts a connection from 10.0.0.5
and another port, which it does not intercept. -/
theorem both_ends_concerned_fails :
    ¬ ∀ conv lines m p, (∀ line ∈ lines, Accepted conv line) →
      Config.initConfigFile conv lines = some m → ConfigFile.load conv lines = some p →
      ∀ origin, p.HasRule origin → ∀ port connectAddr acceptAddr,
        ipv4Of connectAddr = some origin → ipv4Of acceptAddr = some (peerSource origin port) →
        m.checkAddrIsConcerned connectAddr = true ∧ m.checkAddrIsConcerned acceptAddr = true := by
  intro hall
  -- with another port the address of the peer matches no exact rule
  have hmissed : (Config.initConfigFile texts exactLine).any
      (fun m => !m.checkAddrIsConcerned (ipv4 0x0500000a)) = true := by decide
  have hrule : (ConfigFile.load texts exactLine).any
      (fun p => decide (p.HasRule ⟨0x0500000a, 0x5000⟩)) = true := by decide
  obtain ⟨m, hm, hno⟩ := (Option.any_eq_true _ _).mp hmissed
  obtain ⟨p, hp, hhas⟩ := (Option.any_eq_true _ _).mp hrule
  have hboth := hall texts exactLine m p accepted_exactLine hm hp ⟨0x0500000a, 0x5000⟩
    (of_decide_eq_true hhas) 0x1600 { ipv4 0x0500000a with sinPort := 0x5000 } (ipv4 0x0500000a)
    rfl rfl
  rw [hboth.2] at hno
  exact absurd hno (by decide)

end Demo

end Tmet.Tproxy
