import Tmet.Lib.Fold
import Tmet.Lib.HighMask
import Tmet.Proofs.Concerned

/-!
# `Tmet.Proofs.Tproxy.Masquerade`: addresses as network and host bits

`get_masquerade_addr` works on 32-bit words in network byte order: it swaps the
bytes, masks with `unsigned(-1) << (32 - prefix)` and swaps them back. Here an
address is the number of its bytes (`ipNum`), split by a prefix length into
`networkBits` and `hostBits`. For lengths from 1 to 32 the masks are exactly that
split (`inSubnet_iff`, `ipNum_join`).

`masquerade_spec` is the result: which of the three cases applies, what the address
of a `map-cidr` rule is, and that a rule with equal prefixes maps the addresses of
its subnet one to one, when no other rule is about any of them.

`sorted_load`: the rules are in the order of their map, so the first rule that
contains an address is the one with the least origin.
-/

set_option autoImplicit false

namespace Tmet.Tproxy

open Tmet.Lib
open Tmet.Posix

namespace ConfigFile

/-! ### Network and host bits -/

/-- The number of an address, its first byte the most significant one. -/
def ipNum (x : UInt32) : ℕ := (ntohl x).toNat

/-- The leading `len` bits of an address. -/
def networkBits (len : UInt16) (x : UInt32) : ℕ := ipNum x / 2 ^ (32 - len.toNat)

/-- The other bits. -/
def hostBits (len : UInt16) (x : UInt32) : ℕ := ipNum x % 2 ^ (32 - len.toNat)

/-- A prefix length a shift is defined for. -/
def PrefixOk (len : UInt16) : Prop := 1 ≤ len.toNat ∧ len.toNat ≤ 32

/-- The address lies in the subnet of a rule, whose port is the prefix length. -/
def Contains (network : Addr) (x : UInt32) : Prop :=
  networkBits network.sinPort x = networkBits network.sinPort network.sAddr

instance (len : UInt16) : Decidable (PrefixOk len) := inferInstanceAs (Decidable (_ ∧ _))

instance (network : Addr) (x : UInt32) : Decidable (Contains network x) :=
  inferInstanceAs (Decidable (_ = _))

/-- An address is determined by its two parts. -/
theorem ip_ext (len : UInt16) {x y : UInt32} (hn : networkBits len x = networkBits len y)
    (hh : hostBits len x = hostBits len y) : x = y := by
  have hx := Nat.div_add_mod (ipNum x) (2 ^ (32 - len.toNat))
  have hy := Nat.div_add_mod (ipNum y) (2 ^ (32 - len.toNat))
  have hnum : ipNum x = ipNum y := by
    rw [← hx, ← hy]
    exact congrArg₂ (fun n h => 2 ^ (32 - len.toNat) * n + h) hn hh
  rw [← ntohl_ntohl x, UInt32.toNat_inj.mp hnum, ntohl_ntohl]

/-- The shift is by less than 32, and so the mask is that of the network bits. -/
theorem toBitVec_netmask {len : UInt16} (h : PrefixOk len) :
    (netmask len).toBitVec = highMask 32 (32 - len.toNat) := by
  obtain ⟨hpos, hle⟩ := h
  have hshift : ((32 - len.toUInt32).toBitVec % 32).toNat = 32 - len.toNat := by
    rw [BitVec.toNat_umod]
    simp
    omega
  unfold netmask
  rw [UInt32.toBitVec_shiftLeft, BitVec.shiftLeft_eq', hshift]
  rfl

/-- The test of `get_masquerade_addr` compares the network bits. -/
theorem inSubnet_iff {origin network : Addr} (h : PrefixOk network.sinPort) :
    InSubnet origin network ↔ Contains network origin.sAddr := by
  have hmask (a : Addr) : (addrMask a (netmask network.sinPort)).toNat
      = networkBits network.sinPort a.sAddr * 2 ^ (32 - network.sinPort.toNat) := by
    show (_ &&& (netmask network.sinPort).toBitVec).toNat = _
    rw [toBitVec_netmask h]
    exact toNat_and_highMask _ _
  unfold InSubnet Contains
  rw [← UInt32.toNat_inj, hmask, hmask,
    Nat.mul_left_inj (Nat.two_pow_pos (32 - network.sinPort.toNat)).ne']
  exact eq_comm

/-- The address with the network bits of one and the host bits of another. -/
def join (len : UInt16) (network host : UInt32) : UInt32 :=
  ntohl (ntohl network &&& netmask len ||| ntohl host &&& ~~~ netmask len)

theorem ipNum_join {len : UInt16} (h : PrefixOk len) (network host : UInt32) :
    ipNum (join len network host)
      = networkBits len network * 2 ^ (32 - len.toNat) + hostBits len host := by
  unfold ipNum join
  rw [ntohl_ntohl]
  show ((ntohl network).toBitVec &&& (netmask len).toBitVec
    ||| (ntohl host).toBitVec &&& ~~~(netmask len).toBitVec).toNat = _
  rw [toBitVec_netmask h]
  exact toNat_join _ _ _

theorem networkBits_join {len : UInt16} (h : PrefixOk len) (network host : UInt32) :
    networkBits len (join len network host) = networkBits len network := by
  have hpos : 0 < 2 ^ (32 - len.toNat) := Nat.two_pow_pos _
  have hlow : hostBits len host / 2 ^ (32 - len.toNat) = 0 := Nat.div_eq_of_lt (Nat.mod_lt _ hpos)
  show ipNum (join len network host) / _ = _
  rw [ipNum_join h, Nat.add_comm, Nat.add_mul_div_right _ _ hpos, hlow, Nat.zero_add]

theorem hostBits_join {len : UInt16} (h : PrefixOk len) (network host : UInt32) :
    hostBits len (join len network host) = hostBits len host := by
  show ipNum (join len network host) % _ = _
  rw [ipNum_join h, Nat.add_comm, Nat.add_mul_mod_self_right]
  exact Nat.mod_mod _ _

/-! ### The order of the rules -/

/-- The origins of the rules ascend, as the keys of a map do. -/
def Sorted (rules : List (Addr × Addr)) : Prop :=
  rules.Pairwise fun r r' => cmpAddrLess r.1 r'.1 = true

theorem cmpAddrLess_iff {a b : Addr} :
    cmpAddrLess a b = true ↔ a.sAddr.toNat < b.sAddr.toNat
      ∨ (a.sAddr.toNat = b.sAddr.toNat ∧ a.sinPort.toNat < b.sinPort.toNat) := by
  unfold cmpAddrLess
  rw [UInt32.toNat_inj, ← UInt32.lt_iff_toNat_lt, ← UInt16.lt_iff_toNat_lt]
  by_cases h : a.sAddr = b.sAddr
  · simp [h]
  · simp [h]

theorem cmpAddrLess_trans {a b c : Addr} (hab : cmpAddrLess a b = true)
    (hbc : cmpAddrLess b c = true) : cmpAddrLess a c = true := by
  rw [cmpAddrLess_iff] at *
  omega

/-- Of two different origins one comes first. -/
theorem cmpAddrLess_of_ne {a b : Addr} (hne : a ≠ b) (h : ¬ cmpAddrLess b a = true) :
    cmpAddrLess a b = true := by
  have hnum : ¬ (a.sAddr.toNat = b.sAddr.toNat ∧ a.sinPort.toNat = b.sinPort.toNat) := by
    rw [UInt32.toNat_inj, UInt16.toNat_inj]
    intro heq
    cases a
    cases b
    exact hne (congrArg₂ Addr.mk heq.1 heq.2)
  rw [cmpAddrLess_iff] at *
  omega

/-- `which[origin] = masquerade` keeps the order. -/
theorem Sorted.insertRule {rules : List (Addr × Addr)} (h : Sorted rules)
    (origin masquerade : Addr) : Sorted (insertRule origin masquerade rules) := by
  induction rules with
  | nil => exact List.pairwise_singleton _ _
  | cons rule rules ih =>
      obtain ⟨hrule, hrules⟩ := List.pairwise_cons.mp h
      rw [ConfigFile.insertRule]
      by_cases heq : rule.1 = origin
      · rw [if_pos heq]
        exact List.pairwise_cons.mpr ⟨fun r hr => heq ▸ hrule r hr, hrules⟩
      · rw [if_neg heq]
        by_cases hlt : cmpAddrLess origin rule.1 = true
        · rw [if_pos hlt]
          refine List.pairwise_cons.mpr ⟨fun r hr => ?_, h⟩
          rcases List.mem_cons.mp hr with rfl | hr
          · exact hlt
          · exact cmpAddrLess_trans hlt (hrule r hr)
        · rw [if_neg hlt]
          refine List.pairwise_cons.mpr ⟨fun r hr => ?_, ih hrules⟩
          -- the new rule comes after this one, and so do the others
          by_contra hno
          have hex := (exists_insertRule_iff (P := fun a => ¬ cmpAddrLess rule.1 a = true) origin
            masquerade rules).mp ⟨r, hr, hno⟩
          rcases hex with hnew | ⟨r', hr', hold⟩
          · exact hnew (cmpAddrLess_of_ne heq hlt)
          · exact hold (hrule r' hr')

/-- A `map-cidr` line keeps the order, and every other line keeps the rules. -/
theorem Sorted.loadLine {conv : TextConv} {cfg cfg' : ConfigFile} {line : String}
    (h : Sorted cfg.cidrMap) (hline : cfg.loadLine conv line = some cfg') :
    Sorted cfg'.cidrMap := by
  rcases loadLine_cases hline with
    ⟨-, -, origin, masquerade, -, -, -, rfl⟩ | ⟨-, -, origin, masquerade, -, -, -, rfl⟩ | ⟨-, -, hcidr⟩
  · rw [mapAddr]
    split
    · exact h
    · exact h
  · rw [mapCidr]
    split
    · exact h
    · exact h.insertRule _ _
  · rw [hcidr]
    exact h

/-- The rules of a loaded configuration are in the order of their map. -/
theorem sorted_load {conv : TextConv} {lines : List String} {cfg : ConfigFile}
    (h : load conv lines = some cfg) : Sorted cfg.cidrMap := by
  have hempty : Sorted (empty conv).cidrMap := List.Pairwise.nil
  exact foldlM_invariant (P := fun _ c => Sorted c.cidrMap) hempty
    (fun _ _ _ _ _ hc hline => hc.loadLine hline) h

/-! ### Masquerading -/

/-- All prefix lengths are from 1 to 32. -/
def PrefixesOk (cfg : ConfigFile) : Prop :=
  ∀ rule ∈ cfg.cidrMap, PrefixOk rule.1.sinPort ∧ PrefixOk rule.2.sinPort

/-- The rule contains the address, and the others that do come after it. -/
def FirstRule (cfg : ConfigFile) (x : UInt32) (rule : Addr × Addr) : Prop :=
  rule ∈ cfg.cidrMap ∧ Contains rule.1 x
    ∧ ∀ r ∈ cfg.cidrMap, Contains r.1 x → r = rule ∨ cmpAddrLess rule.1 r.1 = true

/-- The address a rule gives, if no address of its own is mapped. -/
theorem getMasqueradeAddr_of_contains {cfg : ConfigFile} (hsorted : Sorted cfg.cidrMap)
    (hpref : cfg.PrefixesOk) {origin : Addr} (haddr : cfg.addrMap origin = none)
    (hex : ∃ rule ∈ cfg.cidrMap, Contains rule.1 origin.sAddr) :
    ∃ rule, cfg.FirstRule origin.sAddr rule
      ∧ cfg.getMasqueradeAddr origin
        = ⟨join rule.2.sinPort rule.2.sAddr origin.sAddr, origin.sinPort⟩ := by
  rw [getMasqueradeAddr, haddr]
  dsimp only
  have hiff (rule : Addr × Addr) (hr : rule ∈ cfg.cidrMap) :
      (addrMask rule.1 (netmask rule.1.sinPort) == addrMask origin (netmask rule.1.sinPort)) = true
        ↔ Contains rule.1 origin.sAddr :=
    beq_iff_eq.trans (inSubnet_iff (hpref rule hr).1)
  cases hfind : cfg.cidrMap.find? fun rule =>
      addrMask rule.1 (netmask rule.1.sinPort) == addrMask origin (netmask rule.1.sinPort) with
  | none =>
      obtain ⟨rule, hr, hin⟩ := hex
      exact absurd ((hiff rule hr).mpr hin) (List.find?_eq_none.mp hfind rule hr)
  | some rule =>
      have hr := List.mem_of_find?_eq_some hfind
      obtain ⟨hin, before, after, heq, hbefore⟩ := List.find?_eq_some_iff_append.mp hfind
      refine ⟨rule, ⟨hr, (hiff rule hr).mp hin, fun r hr' hin' => ?_⟩, rfl⟩
      rw [heq] at hr'
      rcases List.mem_append.mp hr' with hpre | hcons
      · -- the search has passed the rules before it
        have hno := hbefore r hpre
        rw [(hiff r (heq ▸ hr')).mpr hin'] at hno
        cases hno
      · rcases List.mem_cons.mp hcons with rfl | hpost
        · exact Or.inl rfl
        · rw [heq] at hsorted
          have htail := (List.pairwise_append.mp hsorted).2.1
          exact Or.inr ((List.pairwise_cons.mp htail).1 r hpost)

theorem getMasqueradeAddr_of_not_contains {cfg : ConfigFile} (hpref : cfg.PrefixesOk)
    {origin : Addr} (haddr : cfg.addrMap origin = none)
    (hno : ∀ rule ∈ cfg.cidrMap, ¬ Contains rule.1 origin.sAddr) :
    cfg.getMasqueradeAddr origin = origin := by
  rcases cfg.getMasqueradeAddr_cases origin with hsome | ⟨-, rule, hr, hin, -⟩ | ⟨-, heq⟩
  · rw [haddr] at hsome
    cases hsome
  · exact absurd ((inSubnet_iff (hpref rule hr).1).mp hin) (hno rule hr)
  · exact heq

/-- No other rule is about an address of the subnet of `rule`. -/
structure Alone (cfg : ConfigFile) (rule : Addr × Addr) : Prop where
  mem : rule ∈ cfg.cidrMap
  noAddr : ∀ origin, Contains rule.1 origin.sAddr → cfg.addrMap origin = none
  noOverlap : ∀ r ∈ cfg.cidrMap, r ≠ rule → ∀ x, ¬ (Contains r.1 x ∧ Contains rule.1 x)

/-- Such a rule decides for all addresses of its subnet. -/
theorem Alone.getMasqueradeAddr {cfg : ConfigFile} (hsorted : Sorted cfg.cidrMap)
    (hpref : cfg.PrefixesOk) {rule : Addr × Addr} (h : cfg.Alone rule) {x : UInt32}
    (hx : Contains rule.1 x) (port : UInt16) :
    cfg.getMasqueradeAddr ⟨x, port⟩ = ⟨join rule.2.sinPort rule.2.sAddr x, port⟩ := by
  obtain ⟨r, ⟨hr, hin, -⟩, heq⟩ := getMasqueradeAddr_of_contains hsorted hpref
    (h.noAddr ⟨x, port⟩ hx) ⟨rule, h.mem, hx⟩
  have hsame : r = rule := by
    by_contra hne
    exact h.noOverlap r hr hne x ⟨hin, hx⟩
  rw [heq, hsame]

/-- With equal prefixes it maps its subnet one to one onto the target subnet. -/
theorem bijOn_join {rule : Addr × Addr} (hpref : PrefixOk rule.2.sinPort)
    (heq : rule.1.sinPort = rule.2.sinPort) :
    Set.BijOn (join rule.2.sinPort rule.2.sAddr) {x | Contains rule.1 x} {x | Contains rule.2 x} := by
  refine ⟨fun x _ => networkBits_join hpref _ _, fun x hx y hy hxy => ?_, fun y hy => ?_⟩
  · have hnet : networkBits rule.2.sinPort x = networkBits rule.2.sinPort y := by
      rw [← heq]
      exact Eq.trans hx (Eq.symm hy)
    have hhost := congrArg (hostBits rule.2.sinPort) hxy
    rw [hostBits_join hpref, hostBits_join hpref] at hhost
    exact ip_ext _ hnet hhost
  · -- the address of the origin subnet with the same host bits
    refine ⟨join rule.2.sinPort rule.1.sAddr y, ?_, ?_⟩
    · show networkBits rule.1.sinPort _ = networkBits rule.1.sinPort _
      rw [heq]
      exact networkBits_join hpref _ _
    · refine ip_ext rule.2.sinPort ?_ ?_
      · rw [networkBits_join hpref]
        exact Eq.symm hy
      · rw [hostBits_join hpref, hostBits_join hpref]

/-- `get_masquerade_addr` for every rule set with prefix lengths from 1 to 32: the
target of a `map-addr` rule; else the network of the first `map-cidr` rule that
contains the address, with its own host bits and port; else the address itself. A
`map-cidr` rule with equal prefixes that is alone with its subnet maps it one to one
onto the target subnet, and different peers never to the same node. -/
theorem masquerade_spec (cfg : ConfigFile) (hsorted : Sorted cfg.cidrMap)
    (hpref : cfg.PrefixesOk) :
    (∀ origin,
      (∀ a, cfg.addrMap origin = some a → cfg.getMasqueradeAddr origin = a)
        ∧ (cfg.addrMap origin = none → (∃ rule ∈ cfg.cidrMap, Contains rule.1 origin.sAddr) →
            ∃ rule, cfg.FirstRule origin.sAddr rule
              ∧ (cfg.getMasqueradeAddr origin).sinPort = origin.sinPort
              ∧ networkBits rule.2.sinPort (cfg.getMasqueradeAddr origin).sAddr
                  = networkBits rule.2.sinPort rule.2.sAddr
              ∧ hostBits rule.2.sinPort (cfg.getMasqueradeAddr origin).sAddr
                  = hostBits rule.2.sinPort origin.sAddr)
        ∧ (cfg.addrMap origin = none → (∀ rule ∈ cfg.cidrMap, ¬ Contains rule.1 origin.sAddr) →
            cfg.getMasqueradeAddr origin = origin))
      ∧ ∀ rule, cfg.Alone rule → rule.1.sinPort = rule.2.sinPort →
          (∀ port,
            (∀ x, Contains rule.1 x → (cfg.getMasqueradeAddr ⟨x, port⟩).sinPort = port)
              ∧ Set.BijOn (fun x => (cfg.getMasqueradeAddr ⟨x, port⟩).sAddr)
                  {x | Contains rule.1 x} {x | Contains rule.2 x})
            ∧ ∀ x y port port', Contains rule.1 x → Contains rule.1 y →
                (cfg.getMasqueradeAddr ⟨x, port⟩).sAddr = (cfg.getMasqueradeAddr ⟨y, port'⟩).sAddr
                  → x = y := by
  refine ⟨fun origin => ⟨fun a ha => ?_, fun haddr hex => ?_, fun haddr hno => ?_⟩, ?_⟩
  · rw [getMasqueradeAddr, ha]
  · obtain ⟨rule, hfirst, heq⟩ := getMasqueradeAddr_of_contains hsorted hpref haddr hex
    have htarget := (hpref rule hfirst.1).2
    refine ⟨rule, hfirst, ?_⟩
    rw [heq]
    exact ⟨rfl, networkBits_join htarget _ _, hostBits_join htarget _ _⟩
  · exact getMasqueradeAddr_of_not_contains hpref haddr hno
  · intro rule halone heq
    have htarget := (hpref rule halone.mem).2
    -- of a subnet that is alone with its rule no other rule is found
    have hget {x : UInt32} (hx : Contains rule.1 x) (port : UInt16) :=
      halone.getMasqueradeAddr hsorted hpref hx port
    refine ⟨fun port => ⟨fun x hx => ?_, ?_⟩, fun x y port port' hx hy hxy => ?_⟩
    · rw [hget hx]
    · refine (bijOn_join htarget heq).congr fun x hx => ?_
      show _ = (cfg.getMasqueradeAddr ⟨x, port⟩).sAddr
      rw [hget hx]
    · rw [hget hx, hget hy] at hxy
      exact (bijOn_join htarget heq).injOn hx hy hxy

end ConfigFile

namespace Demo

open ConfigFile

/-- 10.0.0.0/8 is masqueraded as 172.16.0.0/16, and 10.0.0.0/24 as 192.168.5.0/24. -/
def wideRule : Addr × Addr := (⟨0x0000000a, 8⟩, ⟨0x000010ac, 16⟩)

def narrowRule : Addr × Addr := (⟨0x0000000a, 24⟩, ⟨0x0005a8c0, 24⟩)

/-- 192.168.9.0/24 is masqueraded as 10.9.9.0/24. -/
def subnetRule : Addr × Addr := (⟨0x0009a8c0, 24⟩, ⟨0x0009090a, 24⟩)

/-- The three rules, and 10.0.0.9:80 is 10.0.1.9:80. -/
def subnetConfig : ConfigFile :=
  { config with
      addrMap := fun a => if a = ⟨0x0900000a, 0x5000⟩ then some ⟨0x0901000a, 0x5000⟩ else none
      cidrMap := [wideRule, narrowRule, subnetRule] }

/-- Neither the other rules nor the mapped address are in 192.168.9.0/24. -/
theorem alone_subnetRule : subnetConfig.Alone subnetRule := by
  have hapart {r : Addr × Addr} (hr : ipNum r.1.sAddr = 0x0a000000)
      (hlen : r.1.sinPort = 8 ∨ r.1.sinPort = 24) (x : UInt32) :
      ¬ (Contains r.1 x ∧ Contains subnetRule.1 x) := by
    have hsubnet : ipNum subnetRule.1.sAddr = 0xc0a80900 := by decide
    rintro ⟨hwide, hx⟩
    replace hx : ipNum x / 2 ^ 8 = ipNum subnetRule.1.sAddr / 2 ^ 8 := hx
    rw [Contains, networkBits, networkBits, hr] at hwide
    rw [hsubnet] at hx
    -- the first byte is 10 for the rule, and 192 for the subnet
    rcases hlen with hlen | hlen
    · rw [hlen] at hwide
      replace hwide : ipNum x / 2 ^ 24 = 0x0a000000 / 2 ^ 24 := hwide
      omega
    · rw [hlen] at hwide
      replace hwide : ipNum x / 2 ^ 8 = 0x0a000000 / 2 ^ 8 := hwide
      omega
  refine ⟨by decide, fun origin hin => if_neg ?_, fun r hr hne => ?_⟩
  · rintro rfl
    exact absurd hin (by decide)
  · simp only [subnetConfig, List.mem_cons, List.not_mem_nil, or_false] at hr
    rcases hr with rfl | rfl | rfl
    · exact hapart (by decide) (Or.inl rfl)
    · exact hapart (by decide) (Or.inr rfl)
    · exact absurd rfl hne

/-- 10.0.0.9:80 has a mapping of its own, although two rules contain it; of these the wider
one comes first, and decides for 10.0.0.7; 192.168.9.0/24 is mapped one to one; 8.8.8.8 stays
as it is. -/
theorem masquerade_spec_subnet :
    subnetConfig.getMasqueradeAddr ⟨0x0900000a, 0x5000⟩ = ⟨0x0901000a, 0x5000⟩
      ∧ (subnetConfig.FirstRule 0x0700000a wideRule
        ∧ subnetConfig.getMasqueradeAddr ⟨0x0700000a, 0x5000⟩ = ⟨0x070010ac, 0x5000⟩)
      ∧ Set.BijOn (fun x => (subnetConfig.getMasqueradeAddr ⟨x, 0x5000⟩).sAddr)
        {x | Contains subnetRule.1 x} {x | Contains subnetRule.2 x}
      ∧ subnetConfig.getMasqueradeAddr ⟨0x08080808, 0x5000⟩ = ⟨0x08080808, 0x5000⟩ := by
  have hsorted : Sorted subnetConfig.cidrMap := by
    unfold Sorted
    decide
  have hpref : subnetConfig.PrefixesOk := by
    unfold PrefixesOk
    decide
  obtain ⟨hdecides, hmaps⟩ := masquerade_spec subnetConfig hsorted hpref
  refine ⟨(hdecides _).1 _ (by decide), ⟨?_, by decide⟩,
    ((hmaps subnetRule alone_subnetRule rfl).1 0x5000).2, (hdecides _).2.2 (by decide) (by decide)⟩
  -- both rules contain the address, and the narrow one is not first
  obtain ⟨rule, hfirst, -⟩ := (hdecides ⟨0x0700000a, 0x5000⟩).2.1 (by decide)
    ⟨wideRule, by decide, by decide⟩
  have hmem := hfirst.1
  simp only [subnetConfig, List.mem_cons, List.not_mem_nil, or_false] at hmem
  rcases hmem with rfl | rfl | rfl
  · exact hfirst
  · rcases hfirst.2.2 wideRule (by decide) (by decide) with heq | hless
    · exact absurd heq (by decide)
    · exact absurd hless (by decide)
  · exact absurd hfirst.2.1 (by decide)

end Demo

end Tmet.Tproxy
