import Tmet.Mysyscall.Connect
import Tmet.Proofs.Concerned
import Tmet.Proofs.Mysyscall.SendPath

/-!
# `Tmet.Proofs.Mysyscall.Tracking`: `fd_map` against the connections

`fd_map` should have an entry for a descriptor exactly while the descriptor is open
and its other end is concerned, and the entry should be the address of that end.
`Sockets.Tracked` says so for a state. The wrappers keep it step by step, with these
exceptions (`LosesTrack`):

- `connect` only ever adds. A descriptor with an entry that is connected to an address
  that is not concerned keeps the entry, and is framed from then on.
- `close` takes an entry without a port for no entry, and leaves it behind. It does
  not look at what the real `close` has returned, so it removes the entry of a
  descriptor that is still open.
- An entry is an IPv4 address. An address that is concerned without being one, an IPv6
  address that is not mapped, or the bytes of another family, is stored as something
  else.
- `accept` takes the address from the buffer of its caller. Without a buffer it has none,
  and in one that is too short it reads on behind the bytes of the address.

`tracked_iff` closes this over any sequence of calls.
-/

set_option autoImplicit false

namespace Tmet.Mysyscall

open Tmet.Lib Tmet.Posix
open Tmet.Tproxy (Addr ipv4Of)

/-! ### The entries -/

namespace Config

/-- What `add_concerned_fd` stores for an address. -/
def entryOf (addr : Sockaddr) : SockaddrIn :=
  if addr.sinFamily = AF_INET then addr.asIn else convertMappedIpv6ToIpv4 addr

theorem addConcernedFd_eq (cfg : Config) (fd : Fd) (addr : Sockaddr) :
    cfg.addConcernedFd fd addr
      = { cfg with fdMap := Function.update cfg.fdMap fd (some (entryOf addr)) } := by
  unfold addConcernedFd entryOf
  split <;> rfl

/-- The entry of an IPv4 address, or of one that is mapped to IPv6, is that address.
The address of any other kind is not an IPv4 address. -/
theorem ipv4Of_eq_entryOf_iff (addr : Sockaddr) :
    ipv4Of addr = some ⟨(entryOf addr).sAddr, (entryOf addr).sinPort⟩ ↔ ipv4Of addr ≠ none := by
  unfold ipv4Of entryOf
  by_cases hinet : addr.sinFamily = AF_INET
  · simp [hinet, Sockaddr.asIn]
  · by_cases hmapped : addr.sinFamily = AF_INET6 ∧ addr.sin6Addr.Mapped
    · have hbits : addr.sin6Addr.u64₀ = 0 ∧ addr.sin6Addr.u16₄ = 0 ∧ addr.sin6Addr.u16₅ = 0xffff :=
        hmapped.2
      rw [if_neg hinet, if_neg hinet, if_pos hmapped]
      simp [convertMappedIpv6ToIpv4, hbits]
    · simp [hinet, hmapped]

/-- The port of the IPv4 address that a socket address is. -/
theorem sinPort_of_ipv4Of {addr : Sockaddr} {a : Addr} (h : ipv4Of addr = some a) :
    a.sinPort = addr.sinPort := by
  unfold ipv4Of at h
  split at h
  · cases h
    rfl
  · split at h
    · cases h
      rfl
    · cases h

/-- A close removes the entry of the descriptor, or does nothing. -/
theorem close_cases (cfg : Config) (fd : Fd) :
    cfg.close fd = cfg.rmConcernedFd fd ∨ cfg.close fd = cfg := by
  unfold close
  dsimp only
  split
  · exact Or.inl rfl
  · exact Or.inr rfl

/-- A close without an entry for the descriptor. -/
theorem close_of_none {cfg : Config} {fd : Fd} (h : cfg.fdMap fd = none) : cfg.close fd = cfg := by
  have hres : cfg.checkFdIsConcernedWithAddr fd = .zero := by
    rw [checkFdIsConcernedWithAddr, h]
    rfl
  unfold close
  rw [hres]
  exact if_neg (not_not.mpr rfl)

/-- A close with an entry removes it, if it has a port. -/
theorem close_of_some {cfg : Config} {fd : Fd} {e : SockaddrIn} (h : cfg.fdMap fd = some e) :
    cfg.close fd = if e.sinPort ≠ 0 then cfg.rmConcernedFd fd else cfg := by
  have hres : cfg.checkFdIsConcernedWithAddr fd = e := by
    rw [checkFdIsConcernedWithAddr, h]
    rfl
  unfold close
  rw [hres]

end Config

/-- Calls on the descriptor put the bytes of their buffer on the wire and no header:
`write`, and `sendto` without a destination or to one that is not concerned. -/
def Unframed (cfg : Config) (fd : Fd) : Prop :=
  ∀ (s : Proc) (buf : Bytes) (header body : SendOutcome), s.config = cfg →
    (write s fd buf header body).2.wire fd = s.wire fd ++ buf.take (body.taken buf.length)
      ∧ ∀ dest : Option (Sockaddr × ℕ),
          (∀ d, dest = some d → cfg.checkAddrIsConcernedWithLen d.1 d.2 = false) →
          (sendto s fd buf dest header body).2.wire fd
            = s.wire fd ++ buf.take (body.taken buf.length)

/-- A descriptor without an entry is not framed. -/
theorem unframed_of_none {cfg : Config} {fd : Fd} (h : cfg.fdMap fd = none) : Unframed cfg fd := by
  intro s buf header body hcfg
  have hmap : s.config.checkFdIsConcerned fd = false := by
    rw [hcfg, Config.checkFdIsConcerned, h]
    rfl
  constructor
  · unfold write
    split
    · exact s.wire_realSendto fd buf body
    · rw [hmap]
      exact (s.countIntercepted .sysWrite).wire_realSendto fd buf body
  · intro dest hdest
    unfold sendto
    split
    · exact s.wire_realSendto fd buf body
    · have hres : s.config.checkFdIsConcernedWithAddr fd = .zero := by
        rw [hcfg, Config.checkFdIsConcernedWithAddr, h]
        rfl
      -- nor is the destination of the call concerned
      have hno : (dest.elim false fun d => s.config.checkAddrIsConcernedWithLen d.1 d.2)
          = false := by
        cases dest with
        | none => rfl
        | some d =>
            rw [hcfg]
            exact hdest d rfl
      simp only [hres, hno, SockaddrIn.zero, ne_eq, not_true_eq_false, decide_false,
        Bool.or_self, Bool.false_eq_true, if_false, wire_sendtoEpilogue]
      exact Proc.wire_realSendto _ fd buf body

/-! ### A state -/

namespace Sockets

/-- The address of the other end of an open descriptor, if it is concerned. -/
def concernedPeer (s : Sockets) (fd : Fd) : Option Sockaddr :=
  if fd ∈ s.opened then
    (s.peer fd).bind fun addr => if s.config.checkAddrIsConcerned addr then some addr else none
  else none

/-- The entry of the descriptor is the address of its other end, if that is
concerned; else there is no entry. -/
def TracksFd (s : Sockets) (fd : Fd) : Prop :=
  match s.concernedPeer fd with
  | none => s.config.fdMap fd = none
  | some addr => ∃ e, s.config.fdMap fd = some e ∧ ipv4Of addr = some ⟨e.sAddr, e.sinPort⟩

/-- `fd_map` is exact, and no descriptor is framed whose other end is not
concerned. -/
structure Tracked (s : Sockets) : Prop where
  entries : ∀ fd, s.TracksFd fd
  unframed : ∀ fd ∈ s.opened, ∀ addr, s.peer fd = some addr →
    s.config.checkAddrIsConcerned addr = false → Unframed s.config fd

theorem tracksFd_of_none {s : Sockets} {fd : Fd} (h : s.concernedPeer fd = none) :
    s.TracksFd fd ↔ s.config.fdMap fd = none := by
  rw [TracksFd, h]

theorem tracksFd_of_some {s : Sockets} {fd : Fd} {addr : Sockaddr}
    (h : s.concernedPeer fd = some addr) :
    s.TracksFd fd ↔ ∃ e, s.config.fdMap fd = some e ∧ ipv4Of addr = some ⟨e.sAddr, e.sinPort⟩ := by
  rw [TracksFd, h]

/-- A descriptor that is tracked has an entry exactly if its other end is
concerned. -/
theorem TracksFd.fdMap_eq_none_iff {s : Sockets} {fd : Fd} (h : s.TracksFd fd) :
    s.config.fdMap fd = none ↔ s.concernedPeer fd = none := by
  cases hpeer : s.concernedPeer fd with
  | none => exact iff_of_true ((tracksFd_of_none hpeer).mp h) rfl
  | some addr =>
      obtain ⟨e, he, -⟩ := (tracksFd_of_some hpeer).mp h
      simp [he]

/-- The descriptors decide: where there is no entry, nothing is framed. -/
theorem tracked_iff_tracksFd (s : Sockets) : s.Tracked ↔ ∀ fd, s.TracksFd fd := by
  refine ⟨Tracked.entries, fun h => ⟨h, fun fd hopen addr hpeer hno => ?_⟩⟩
  have hnone : s.concernedPeer fd = none := by
    unfold concernedPeer
    rw [if_pos hopen, hpeer]
    show (if _ then some addr else none) = none
    rw [hno]
    rfl
  exact unframed_of_none ((tracksFd_of_none hnone).mp (h fd))

/-- A call that changes one descriptor. -/
theorem tracked_iff_at {s s' : Sockets} (h : s.Tracked) (fd : Fd)
    (hmap : ∀ x, x ≠ fd → s'.config.fdMap x = s.config.fdMap x)
    (hpeer : ∀ x, x ≠ fd → s'.concernedPeer x = s.concernedPeer x) :
    s'.Tracked ↔ s'.TracksFd fd := by
  rw [tracked_iff_tracksFd]
  refine ⟨fun hall => hall fd, fun hfd x => ?_⟩
  by_cases hx : x = fd
  · rw [hx]
    exact hfd
  · have hold := h.entries x
    unfold TracksFd at hold ⊢
    rw [hmap x hx, hpeer x hx]
    exact hold

/-! ### The calls -/

/-- The descriptor has a new other end, and the wrapper stores what it has seen of it, or
nothing. -/
theorem tracked_connected_iff {s s' : Sockets} (h : s.Tracked) {fd : Fd} {peer : Sockaddr}
    {stored : Option Sockaddr}
    (hconfig : s'.config = stored.elim s.config fun seen => s.config.addConcernedFd fd seen)
    (hopened : s'.opened = insert fd s.opened)
    (hpeer : s'.peer = Function.update s.peer fd (some peer)) :
    s'.Tracked ↔
      if s.config.checkAddrIsConcerned peer then
        ∃ e, stored.elim (s.config.fdMap fd) (fun seen => some (Config.entryOf seen)) = some e
          ∧ ipv4Of peer = some ⟨e.sAddr, e.sinPort⟩
      else stored = none ∧ s.concernedPeer fd = none := by
  have hstores : s'.config = { s.config with
      fdMap := Function.update s.config.fdMap fd
        (stored.elim (s.config.fdMap fd) fun seen => some (Config.entryOf seen)) } := by
    rw [hconfig]
    cases stored with
    | none => rw [Option.elim_none, Option.elim_none, Function.update_eq_self]
    | some seen => exact Config.addConcernedFd_eq s.config fd seen
  -- storing an entry leaves the rules as they are
  have hsame (a : Sockaddr) :
      s'.config.checkAddrIsConcerned a = s.config.checkAddrIsConcerned a := by
    rw [hstores]
    rfl
  -- so the question is about `fd` alone
  have hother (x : Fd) (hx : x ≠ fd) : s'.concernedPeer x = s.concernedPeer x := by
    unfold concernedPeer
    rw [hopened, hpeer, Function.update_of_ne hx]
    simp only [hsame, Finset.mem_insert, hx, false_or]
  have hmap (x : Fd) (hx : x ≠ fd) : s'.config.fdMap x = s.config.fdMap x := by
    rw [hstores]
    exact Function.update_of_ne hx _ _
  have hentry : s'.config.fdMap fd
      = stored.elim (s.config.fdMap fd) fun seen => some (Config.entryOf seen) := by
    rw [hstores]
    exact Function.update_self _ _ _
  have hself : s'.concernedPeer fd
      = if s.config.checkAddrIsConcerned peer then some peer else none := by
    unfold concernedPeer
    rw [hopened, hpeer, Function.update_self, if_pos (Finset.mem_insert_self _ _)]
    simp only [hsame, Option.bind_some]
  rw [tracked_iff_at h fd hmap hother]
  by_cases hc : s.config.checkAddrIsConcerned peer = true
  · rw [if_pos hc] at hself ⊢
    rw [tracksFd_of_some hself, hentry]
  · rw [if_neg hc] at hself ⊢
    rw [tracksFd_of_none hself, hentry, ← (h.entries fd).fdMap_eq_none_iff]
    -- an entry of before is left where nothing is stored
    cases stored <;> simp

/-- What is not open has no concerned other end. -/
theorem concernedPeer_of_not_mem {s : Sockets} {fd : Fd} (h : fd ∉ s.opened) :
    s.concernedPeer fd = none := if_neg h

/-- The wrapper reads the address as it is. If it is too short for the test of the length it is
no IPv4 address. -/
theorem tracked_seen_iff {s s' : Sockets} (h : s.Tracked) {fd : Fd} {peer : Sockaddr} {peerlen : ℕ}
    (hsized : Sized peer peerlen)
    (hconfig : s'.config = if s.config.checkAddrIsConcernedWithLen peer peerlen
      then s.config.addConcernedFd fd peer else s.config)
    (hopened : s'.opened = insert fd s.opened)
    (hpeer : s'.peer = Function.update s.peer fd (some peer)) :
    s'.Tracked ↔ if s.config.checkAddrIsConcerned peer then ipv4Of peer ≠ none
      else s.concernedPeer fd = none := by
  have hstored : s'.config = (if s.config.checkAddrIsConcernedWithLen peer peerlen
      then some peer else none).elim s.config fun seen => s.config.addConcernedFd fd seen := by
    rw [hconfig]
    split <;> rfl
  rw [tracked_connected_iff h hstored hopened hpeer]
  by_cases hc : s.config.checkAddrIsConcerned peer = true
  · rw [if_pos hc, if_pos hc]
    by_cases hlen : 16 ≤ peerlen
    · simp [Config.checkAddrIsConcernedWithLen, hc, hlen, Config.ipv4Of_eq_entryOf_iff]
    · have hfamily := mt hsized hlen
      have hnone : ipv4Of peer = none := by
        rw [not_or] at hfamily
        simp [ipv4Of, hfamily]
      simp [hnone]
  · rw [if_neg hc, if_neg hc]
    simp [Config.checkAddrIsConcernedWithLen, hc]

/-- `connect`: the descriptor may have had an entry. -/
theorem tracked_connect_iff {s : Sockets} (h : s.Tracked) {sockfd : Fd} {addr : Sockaddr}
    {addrlen : ℕ} {ret : ℤ} {errno : Errno}
    (hpos : Connects ret errno → sockfd ∈ s.opened ∧ Sized addr addrlen) :
    (s.exec (.connect sockfd addr addrlen ret errno)).Tracked
      ↔ ¬ (Connects ret errno ∧
          if s.config.checkAddrIsConcerned addr then ipv4Of addr = none
          else s.concernedPeer sockfd ≠ none) := by
  by_cases hconn : Connects ret errno
  · have hconfig : s.config.connect sockfd addr addrlen ret errno
        = if s.config.checkAddrIsConcernedWithLen addr addrlen
          then s.config.addConcernedFd sockfd addr else s.config := by
      have hconn' : ret ≠ -1 ∨ errno = EINPROGRESS := hconn
      simp only [Config.connect, hconn', true_and]
    have hopened : (s.exec (.connect sockfd addr addrlen ret errno)).opened
        = insert sockfd s.opened := (Finset.insert_eq_of_mem (hpos hconn).1).symm
    have hpeer : (s.exec (.connect sockfd addr addrlen ret errno)).peer
        = Function.update s.peer sockfd (some addr) := if_pos hconn
    rw [tracked_seen_iff h (hpos hconn).2 hconfig hopened hpeer]
    split <;> simp [hconn]
  · -- the attempt has failed, and nothing changes
    have hexec : s.exec (.connect sockfd addr addrlen ret errno) = s := by
      have hconn' : ¬ (ret ≠ -1 ∨ errno = EINPROGRESS) := hconn
      simp [exec, Config.connect, hconn, hconn']
    rw [hexec]
    exact iff_of_true h fun hbad => hconn hbad.1

end Sockets

/-- An accepted connection is lost track of: its address is concerned and was not asked for,
or is no IPv4 address; or the buffer is too short, and what is in memory there is not the IPv4
address that is concerned, or is concerned and the address is not. -/
def LosesAccepted (cfg : Config) (peer : Sockaddr) (peerlen : ℕ) : AddrBuf → Prop
  | .null _ => cfg.checkAddrIsConcerned peer = true
  | .buffer size contents =>
      if peerlen ≤ size then cfg.checkAddrIsConcerned peer = true ∧ ipv4Of peer = none
      else if cfg.checkAddrIsConcerned peer then
        ¬ (cfg.checkAddrIsConcernedWithLen contents peerlen = true ∧ ipv4Of peer
          = some ⟨(Config.entryOf contents).sAddr, (Config.entryOf contents).sinPort⟩)
      else cfg.checkAddrIsConcernedWithLen contents peerlen = true

namespace Sockets

/-- `accept` and `accept4`: the descriptor is new, so it had no entry. -/
theorem tracked_accepted_iff {s : Sockets} (h : s.Tracked) {peer : Sockaddr} {peerlen : ℕ}
    {buf : AddrBuf} {ret : Fd} (hret : ret ≠ -1) (hpos : Accepts s peer peerlen buf ret) :
    ((s.readAccepted peerlen buf ret Config.accept).newFd ret (some peer)).Tracked
      ↔ ¬ LosesAccepted s.config peer peerlen buf := by
  obtain ⟨hnew, hsized, hfilled⟩ := hpos hret
  have hpeer : s.concernedPeer ret = none := concernedPeer_of_not_mem hnew
  have hfree : s.config.fdMap ret = none := (tracksFd_of_none hpeer).mp (h.entries ret)
  cases buf with
  | null addrlen =>
      -- nothing is stored
      have hstored : (s.newFd ret (some peer)).config = (none : Option Sockaddr).elim s.config
          fun seen => s.config.addConcernedFd ret seen := rfl
      refine (tracked_connected_iff h hstored rfl rfl).trans ?_
      rw [LosesAccepted]
      split <;> simp_all
  | buffer size contents =>
      have hconfig : s.config.accept contents peerlen ret
          = if s.config.checkAddrIsConcernedWithLen contents peerlen
            then s.config.addConcernedFd ret contents else s.config := by
        simp only [Config.accept, ne_eq, hret, not_false_eq_true, true_and]
      by_cases hroom : peerlen ≤ size
      · obtain rfl := hfilled hroom
        have hseen : (newFd { s with config := s.config.accept contents peerlen ret } ret
            (some contents)).config = _ := hconfig
        refine (tracked_seen_iff h hsized hseen rfl rfl).trans ?_
        rw [LosesAccepted, if_pos hroom]
        split <;> simp_all
      · have hstored : (newFd { s with config := s.config.accept contents peerlen ret } ret
            (some peer)).config
            = (if s.config.checkAddrIsConcernedWithLen contents peerlen
              then some contents else none).elim s.config
                fun seen => s.config.addConcernedFd ret seen := by
          show s.config.accept contents peerlen ret = _
          rw [hconfig]
          split <;> rfl
        refine (tracked_connected_iff h hstored rfl rfl).trans ?_
        rw [LosesAccepted, if_neg hroom, hfree, hpeer]
        cases s.config.checkAddrIsConcernedWithLen contents peerlen <;>
          cases s.config.checkAddrIsConcerned peer <;> simp

theorem tracked_accept_iff {s : Sockets} (h : s.Tracked) {peer : Sockaddr} {peerlen : ℕ}
    {buf : AddrBuf} {ret : Fd} (hpos : Accepts s peer peerlen buf ret) :
    (s.exec (.accept peer peerlen buf ret)).Tracked
      ↔ ¬ (ret ≠ -1 ∧ LosesAccepted s.config peer peerlen buf) := by
  by_cases hret : ret = -1
  · -- nothing was accepted
    have hexec : s.exec (.accept peer peerlen buf ret) = s := by
      cases buf <;> simp [exec, readAccepted, Config.accept, hret]
    rw [hexec]
    exact iff_of_true h fun hbad => hbad.1 hret
  · have hexec : s.exec (.accept peer peerlen buf ret)
        = (s.readAccepted peerlen buf ret Config.accept).newFd ret (some peer) := if_pos hret
    rw [hexec, tracked_accepted_iff h hret hpos]
    simp [hret]

/-- `close` leaves the other ends of the other descriptors. -/
theorem concernedPeer_close (s : Sockets) (fd : Fd) (ret : ℤ) (released : Bool) (x : Fd) :
    (s.exec (.close fd ret released)).concernedPeer x
      = if x = fd ∧ released = true then none else s.concernedPeer x := by
  -- the addresses that are concerned are the same
  have hsame (a : Sockaddr) :
      (s.config.close fd).checkAddrIsConcerned a = s.config.checkAddrIsConcerned a := by
    rcases s.config.close_cases fd with hclose | hclose
    · rw [hclose]
      rfl
    · rw [hclose]
  unfold concernedPeer exec
  cases released with
  | false => simp [hsame]
  | true =>
      by_cases hx : x = fd
      · simp [hx]
      · simp [hx, hsame]

/-- `close` removes an entry with a port, and leaves one without. -/
theorem fdMap_close {cfg : Config} {fd : Fd} {e : SockaddrIn} {addr : Sockaddr}
    (he : cfg.fdMap fd = some e) (haddr : ipv4Of addr = some ⟨e.sAddr, e.sinPort⟩) :
    (cfg.close fd).fdMap fd = if addr.sinPort = 0 then some e else none := by
  have hport : e.sinPort = addr.sinPort := Config.sinPort_of_ipv4Of haddr
  rw [Config.close_of_some he, hport]
  by_cases hzero : addr.sinPort = 0
  · rw [if_neg (not_not.mpr hzero), if_pos hzero, he]
  · rw [if_pos hzero, if_neg hzero]
    exact Function.update_self _ _ _

/-- `close`: an entry is removed if it has a port. -/
theorem tracked_close_iff {s : Sockets} (h : s.Tracked) {fd : Fd} {ret : ℤ} {released : Bool} :
    (s.exec (.close fd ret released)).Tracked
      ↔ ¬ ∃ addr, s.concernedPeer fd = some addr ∧ (released = true ↔ addr.sinPort = 0) := by
  have hpeer := s.concernedPeer_close fd ret released
  have hmap (x : Fd) (hx : x ≠ fd) : (s.config.close fd).fdMap x = s.config.fdMap x := by
    rcases s.config.close_cases fd with hclose | hclose
    · rw [hclose]
      exact Function.update_of_ne hx _ _
    · rw [hclose]
  have hother (x : Fd) (hx : x ≠ fd) :
      (s.exec (.close fd ret released)).concernedPeer x = s.concernedPeer x := by
    rw [hpeer, if_neg fun h => hx h.1]
  rw [tracked_iff_at h fd hmap hother]
  cases hold : s.concernedPeer fd with
  | none =>
      -- there is no entry to remove
      have hnone := (tracksFd_of_none hold).mp (h.entries fd)
      have hnew : (s.exec (.close fd ret released)).concernedPeer fd = none := by
        rw [hpeer, hold, ite_self]
      rw [tracksFd_of_none hnew]
      show (s.config.close fd).fdMap fd = none ↔ _
      rw [Config.close_of_none hnone]
      simp [hnone]
  | some addr =>
      obtain ⟨e, he, haddr⟩ := (tracksFd_of_some hold).mp (h.entries fd)
      have hleft := fdMap_close he haddr
      cases released with
      | true =>
          -- the descriptor is free, and no entry may be left
          have hnew : (s.exec (.close fd ret true)).concernedPeer fd = none := by
            rw [hpeer, if_pos ⟨rfl, rfl⟩]
          rw [tracksFd_of_none hnew]
          show (s.config.close fd).fdMap fd = none ↔ _
          rw [hleft]
          simp
      | false =>
          -- the call has failed and the descriptor is still open: the entry has to stay
          have hnew : (s.exec (.close fd ret false)).concernedPeer fd = some addr := by
            rw [hpeer, if_neg (by simp), hold]
          rw [tracksFd_of_some hnew]
          show (∃ e', (s.config.close fd).fdMap fd = some e' ∧ _) ↔ _
          rw [hleft]
          by_cases hzero : addr.sinPort = 0
          · simp [hzero, haddr]
          · simp [hzero]

/-- A new descriptor that is connected to nothing. -/
theorem tracked_newFd {s : Sockets} (h : s.Tracked) {fd : Fd} (hnew : fd ∉ s.opened) :
    (s.newFd fd none).Tracked := by
  have hother (x : Fd) (hx : x ≠ fd) : (s.newFd fd none).concernedPeer x = s.concernedPeer x := by
    unfold concernedPeer newFd
    simp [hx]
  have hself : (s.newFd fd none).concernedPeer fd = none := by
    unfold concernedPeer newFd
    simp
  have hat : (s.newFd fd none).Tracked ↔ (s.newFd fd none).TracksFd fd :=
    tracked_iff_at h fd (fun _ _ => rfl) hother
  rw [hat, tracksFd_of_none hself]
  exact (tracksFd_of_none (concernedPeer_of_not_mem hnew)).mp (h.entries fd)

end Sockets

/-! ### Sequences of calls -/

/-- The calls after which `fd_map` is not exact any more: a connection to an address
that is not concerned, of a descriptor with an entry; a connection to a concerned
address that is not an IPv4 address, or that `accept` does not see; and a close of a
descriptor with an entry that leaves one of the two behind, the entry because it has no
port or the descriptor because it stays open. -/
def LosesTrack (s : Sockets) : SocketCall → Prop
  | .other _ => False
  | .connect sockfd addr _ ret errno =>
      Connects ret errno ∧
        if s.config.checkAddrIsConcerned addr then ipv4Of addr = none
        else s.concernedPeer sockfd ≠ none
  | .accept peer peerlen buf ret | .accept4 peer peerlen buf ret =>
      ret ≠ -1 ∧ LosesAccepted s.config peer peerlen buf
  | .close fd _ released =>
      ∃ addr, s.concernedPeer fd = some addr ∧ (released = true ↔ addr.sinPort = 0)

/-- From a state that is tracked, a call keeps track unless it is one of these. -/
theorem tracked_step_iff {s : Sockets} (h : s.Tracked) {call : SocketCall}
    (hpos : call.Possible s) : (s.exec call).Tracked ↔ ¬ LosesTrack s call := by
  cases call with
  | other fd => exact iff_of_true (Sockets.tracked_newFd h hpos) id
  | connect sockfd addr addrlen ret errno => exact Sockets.tracked_connect_iff h hpos
  | accept peer peerlen buf ret => exact Sockets.tracked_accept_iff h hpos
  | accept4 peer peerlen buf ret => exact Sockets.tracked_accept_iff h hpos
  | close fd ret released => exact Sockets.tracked_close_iff h

/-- A sequence goes on with a call. -/
theorem run_exec {cfg : Config} {tr : List (Step Sockets SocketCall)} {s : Sockets}
    (h : (tracking cfg).Run tr s) {call : SocketCall} (hpos : call.Possible s) :
    (tracking cfg).Run (tr ++ [⟨s, call, s.exec call⟩]) (s.exec call) := .snoc h ⟨hpos, rfl⟩

namespace Demo

/-- 10.0.0.2:80 is concerned. -/
def oneAddr : Config where
  fdMap _ := none
  concernAddrSet := {(0x0200000a, 0x5000)}
  subnetSuffix := ∅

def concernedAddr : Sockaddr := ⟨AF_INET, 0x5000, 0x0200000a, ⟨0, 0, 0, 0⟩⟩

def otherAddr : Sockaddr := ⟨AF_INET, 0x5000, 0x0300000a, ⟨0, 0, 0, 0⟩⟩

/-- No descriptor is open. -/
def noSockets : Sockets := ⟨oneAddr, ∅, fun _ => none⟩

def newSocket : Sockets := noSockets.exec (.other 3)

/-- The socket is being connected to the concerned address. -/
def pending : Sockets := newSocket.exec (.connect 3 concernedAddr 16 (-1) EINPROGRESS)

/-- That has failed, and the socket is connected to the other address. -/
def reconnected : Sockets := pending.exec (.connect 3 otherAddr 16 0 0)

/-- The history of these calls. -/
def connectTwice : List (Step Sockets SocketCall) :=
  [⟨noSockets, .other 3, newSocket⟩,
    ⟨newSocket, .connect 3 concernedAddr 16 (-1) EINPROGRESS, pending⟩,
    ⟨pending, .connect 3 otherAddr 16 0 0, reconnected⟩]

theorem run_connectTwice : (tracking oneAddr).Run connectTwice reconnected := by
  have hnew : SocketCall.Possible noSockets (.other 3) := Finset.notMem_empty 3
  have hopen : (3 : Fd) ∈ newSocket.opened := Finset.mem_insert_self _ _
  have hnoSockets : (tracking oneAddr).Run [] noSockets := .nil ⟨rfl, fun _ => rfl⟩
  have hfirst : SocketCall.Possible newSocket (.connect 3 concernedAddr 16 (-1) EINPROGRESS) :=
    fun _ => ⟨hopen, fun _ => le_refl 16⟩
  have hsecond : SocketCall.Possible pending (.connect 3 otherAddr 16 0 0) :=
    fun _ => ⟨hopen, fun _ => le_refl 16⟩
  exact run_exec (run_exec (run_exec hnoSockets hnew) hfirst) hsecond

end Demo

end Tmet.Mysyscall
