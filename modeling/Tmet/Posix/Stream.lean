import Tmet.Posix.Kernel

/-!
# `Tmet.Posix.Stream`: a kernel with a stream that comes in segments

A concrete `Kernel`. Every descriptor has a receive queue. For one of them, `dst`,
there are segments on their way. A segment that arrives goes to the end of the
queue and raises an event. Segments arrive between the calls, and also after any
`recv`: how many arrive after the next ones is listed in `arrivals`, so that every
interleaving of calls and arrivals is a state. A `recv` with `MSG_WAITALL` waits for
the segments it needs, which arrive within its timeout.

The other calls succeed. `unread` is what a stream still has to give; neither an
arrival nor a peek changes it.
-/

set_option autoImplicit false

namespace Tmet.Posix

open Tmet.Lib

/-- The state of the kernel. `backlog` are the connections that wait to be accepted,
each with its two ends. -/
structure Stream (Addr : Type) where
  fds : Finset Fd
  backlog : List (Addr × Addr)
  sockname : Option Addr
  inbox : Fd → Bytes
  dst : Fd
  segments : List Bytes
  raised : Bool
  arrivals : List ℕ

namespace Stream

variable {Addr Opt : Type}

/-- The next segment arrives. -/
def arrive (k : Stream Addr) : Stream Addr :=
  match k.segments with
  | [] => k
  | seg :: rest =>
      { k with
        inbox := Function.update k.inbox k.dst (k.inbox k.dst ++ seg)
        segments := rest
        raised := true }

/-- What arrives after a `recv`. -/
def tick (k : Stream Addr) : Stream Addr :=
  match k.arrivals with
  | [] => k
  | n :: ns => arrive^[n] { k with arrivals := ns }

/-- Wait until `len` bytes are there, or nothing is on its way. -/
def await (len : ℕ) : ℕ → Stream Addr → Stream Addr
  | 0, k => k
  | n + 1, k => if len ≤ (k.inbox k.dst).length then k else await len n k.arrive

/-- What is there when a `recv` looks. -/
def settle (k : Stream Addr) (fd : Fd) (len : ℕ) (flags : RecvFlags) : Stream Addr :=
  if flags = .waitall ∧ fd = k.dst then await len k.segments.length k else k

/-- Take the first `len` bytes off the queue. -/
def consume (k : Stream Addr) (fd : Fd) (len : ℕ) : Stream Addr :=
  { k with inbox := Function.update k.inbox fd ((k.inbox fd).drop len) }

/-- `recv`. -/
def recv (k : Stream Addr) (fd : Fd) (len : ℕ) (flags : RecvFlags) : RecvResult × Stream Addr :=
  if fd ∉ k.fds then (.error EBADF, k)
  else
    let k := k.settle fd len flags
    if k.inbox fd = [] then (.error EAGAIN, k.tick)
    else
      (.ok ((k.inbox fd).take len),
        if flags = .peekDontwait then k.tick else (k.consume fd len).tick)

/-- A descriptor that is not open. -/
def freshFd (k : Stream Addr) : Fd := ((k.fds.sup Int.toNat + 1 : ℕ) : ℤ)

/-- `accept`. -/
def accept (k : Stream Addr) : Except Errno (Fd × Addr) × Stream Addr :=
  match k.backlog with
  | [] => (.error EAGAIN, k)
  | (client, origin) :: rest =>
      (.ok (k.freshFd, client),
        { k with fds := insert k.freshFd k.fds, backlog := rest, sockname := some origin })

theorem freshFd_notMem (k : Stream Addr) : k.freshFd ∉ k.fds := by
  intro hmem
  have hle : Int.toNat k.freshFd ≤ k.fds.sup Int.toNat := Finset.le_sup hmem
  rw [freshFd, Int.toNat_natCast] at hle
  omega

/-! ### Arrivals -/

/-- What the stream still has to give. -/
def unread (k : Stream Addr) : Bytes := k.inbox k.dst ++ k.segments.flatten

/-- Nothing was done from `k` to `k'` but that segments arrived. -/
structure Later (k k' : Stream Addr) : Prop where
  fds : k'.fds = k.fds
  dst : k'.dst = k.dst
  unread : k'.unread = k.unread
  raised : k.raised = true → k'.raised = true
  inbox : k'.raised = false → k'.inbox = k.inbox
  grows : ∀ fd, k.inbox fd <+: k'.inbox fd

theorem Later.refl (k : Stream Addr) : k.Later k := 
  ⟨rfl, rfl, rfl, fun h => h, fun _ => rfl, fun _ => List.prefix_refl _⟩

theorem Later.trans {k k' k'' : Stream Addr} (h : k.Later k') (h' : k'.Later k'') :
    k.Later k'' where
  fds := h'.fds.trans h.fds
  dst := h'.dst.trans h.dst
  unread := h'.unread.trans h.unread
  raised hk := h'.raised (h.raised hk)
  inbox hk'' := by
    have hk' : k'.raised = false := by
      by_contra hne
      rw [h'.raised (eq_true_of_ne_false hne)] at hk''
      cases hk''
    rw [h'.inbox hk'', h.inbox hk']
  grows fd := (h.grows fd).trans (h'.grows fd)

theorem later_arrive (k : Stream Addr) : k.Later k.arrive := by
  cases hsegments : k.segments with
  | nil =>
      rw [arrive, hsegments]
      exact .refl k
  | cons seg rest =>
      rw [arrive, hsegments]
      refine ⟨rfl, rfl, ?_, fun _ => rfl, nofun, fun fd => ?_⟩
      · show Function.update k.inbox k.dst (k.inbox k.dst ++ seg) k.dst ++ rest.flatten = k.unread
        rw [unread, hsegments, Function.update_self, List.flatten_cons, List.append_assoc]
      · show k.inbox fd <+: Function.update k.inbox k.dst (k.inbox k.dst ++ seg) fd
        by_cases hfd : fd = k.dst
        · rw [hfd, Function.update_self]
          exact List.prefix_append _ seg
        · rw [Function.update_of_ne hfd]

theorem raised_arrive {k : Stream Addr} (h : k.segments ≠ []) : k.arrive.raised = true := by
  cases hsegments : k.segments with
  | nil => exact absurd hsegments h
  | cons seg rest => rw [arrive, hsegments]

theorem length_segments_arrive (k : Stream Addr) :
    k.arrive.segments.length = k.segments.length - 1 := by
  cases hsegments : k.segments with
  | nil => rw [arrive, hsegments]; exact congrArg List.length hsegments
  | cons seg rest => rw [arrive, hsegments]; rfl

theorem later_iterate_arrive (n : ℕ) : ∀ k : Stream Addr, k.Later (arrive^[n] k) := by
  induction n with
  | zero => exact Later.refl
  | succ n ih =>
      intro k
      rw [Function.iterate_succ_apply]
      exact (later_arrive k).trans (ih k.arrive)

theorem later_tick (k : Stream Addr) : k.Later k.tick := by
  cases harrivals : k.arrivals with
  | nil =>
      rw [tick, harrivals]
      exact .refl k
  | cons n ns =>
      rw [tick, harrivals]
      have hnext : k.Later { k with arrivals := ns } :=
        ⟨rfl, rfl, rfl, fun h => h, fun _ => rfl, fun _ => List.prefix_refl _⟩
      exact hnext.trans (later_iterate_arrive n _)

theorem later_await (len n : ℕ) : ∀ k : Stream Addr, k.Later (await len n k) := by
  induction n with
  | zero => exact Later.refl
  | succ n ih =>
      intro k
      rw [await]
      split
      · exact .refl k
      · exact (later_arrive k).trans (ih k.arrive)

/-- Waiting for all the segments is enough to get what the stream has to give. -/
theorem length_inbox_await {len n : ℕ} :
    ∀ {k : Stream Addr}, k.segments.length ≤ n → len ≤ k.unread.length →
      len ≤ ((await len n k).inbox k.dst).length := by
  -- on the segments that are awaited; without any, the inbox is all there is
  induction n with
  | zero =>
      intro k hn hlen
      have hnil : k.segments = [] := List.length_eq_zero_iff.mp (Nat.le_zero.mp hn)
      rw [unread, hnil, List.flatten_nil, List.append_nil] at hlen
      exact hlen
  | succ n ih =>
      intro k hn hlen
      rw [await]
      split
      · assumption
      · have hlater := later_arrive k
        rw [← hlater.dst]
        apply ih
        · rw [length_segments_arrive]
          omega
        · rw [hlater.unread]
          exact hlen

theorem later_settle (k : Stream Addr) (fd : Fd) (len : ℕ) (flags : RecvFlags) :
    k.Later (k.settle fd len flags) := by
  rw [settle]
  split
  · exact later_await _ _ k
  · exact .refl k

/-- No segments are added to those on their way. -/
theorem segments_arrive (k : Stream Addr) : k.arrive.segments <:+ k.segments := by
  cases hsegments : k.segments with
  | nil =>
      rw [arrive, hsegments]
      exact ⟨[], hsegments⟩
  | cons seg rest =>
      rw [arrive, hsegments]
      exact List.suffix_cons seg rest

theorem segments_iterate_arrive (n : ℕ) :
    ∀ k : Stream Addr, (arrive^[n] k).segments <:+ k.segments := by
  induction n with
  | zero => exact fun k => List.suffix_refl k.segments
  | succ n ih =>
      intro k
      rw [Function.iterate_succ_apply]
      exact (ih k.arrive).trans (segments_arrive k)

theorem segments_tick (k : Stream Addr) : k.tick.segments <:+ k.segments := by
  rw [tick]
  split
  · exact List.suffix_refl k.segments
  · rename_i n ns _
    exact segments_iterate_arrive n { k with arrivals := ns }

theorem segments_await (len n : ℕ) :
    ∀ k : Stream Addr, (await len n k).segments <:+ k.segments := by
  induction n with
  | zero => exact fun k => List.suffix_refl k.segments
  | succ n ih =>
      intro k
      rw [await]
      split
      · exact List.suffix_refl k.segments
      · exact (ih k.arrive).trans (segments_arrive k)

/-! ### The calls -/

/-- What is taken off the queue, and what the stream has to give afterwards. -/
theorem take_append_unread_consume (k : Stream Addr) (len : ℕ) :
    (k.inbox k.dst).take len ++ (k.consume k.dst len).unread = k.unread := by
  show (k.inbox k.dst).take len
    ++ (Function.update k.inbox k.dst ((k.inbox k.dst).drop len) k.dst ++ k.segments.flatten) = _
  rw [Function.update_self, ← List.append_assoc, List.take_append_drop, unread]

theorem recv_peek {k : Stream Addr} {fd : Fd} (hopen : fd ∈ k.fds) (len : ℕ) :
    k.recv fd len .peekDontwait
      = (if k.inbox fd = [] then .error EAGAIN else .ok ((k.inbox fd).take len), k.tick) := by
  have hsettle : k.settle fd len .peekDontwait = k := if_neg fun h => nomatch h.1
  rw [recv, if_neg (not_not_intro hopen), hsettle]
  dsimp only
  split
  · rfl
  · rfl

theorem recv_dontwait {k : Stream Addr} {fd : Fd} (hopen : fd ∈ k.fds) (len : ℕ) :
    k.recv fd len .dontwait
      = if k.inbox fd = [] then (.error EAGAIN, k.tick)
        else (.ok ((k.inbox fd).take len), (k.consume fd len).tick) := by
  have hsettle : k.settle fd len .dontwait = k := if_neg fun h => nomatch h.1
  rw [recv, if_neg (not_not_intro hopen), hsettle]
  rfl

/-- With `MSG_WAITALL` one gets as many bytes as one asks for, if the stream has them. -/
theorem recv_waitall {k : Stream Addr} (hopen : k.dst ∈ k.fds) {len : ℕ} (hpos : 0 < len)
    (hlen : len ≤ k.unread.length) :
    ∃ k', k.recv k.dst len .waitall = (.ok (k.unread.take len), k') ∧ k'.fds = k.fds
      ∧ k'.dst = k.dst ∧ k'.unread = k.unread.drop len := by
  have hlater := later_await len k.segments.length k
  have hinbox := length_inbox_await (le_refl k.segments.length) hlen
  have hsettle : k.settle k.dst len .waitall = await len k.segments.length k := if_pos ⟨rfl, rfl⟩
  -- the state after the wait matters only by what the three facts say of it
  generalize await len k.segments.length k = k₁ at hlater hinbox hsettle
  have hne : k₁.inbox k.dst ≠ [] := List.ne_nil_of_length_pos (by omega)
  have htick := later_tick (k₁.consume k.dst len)
  have hsplit : (k₁.inbox k.dst).take len ++ (k₁.consume k.dst len).unread = k.unread := by
    rw [← hlater.dst, take_append_unread_consume, hlater.unread]
  have htake : ((k₁.inbox k.dst).take len).length = len := by
    rw [List.length_take]
    omega
  refine ⟨(k₁.consume k.dst len).tick, ?_, ?_, ?_, ?_⟩
  · rw [recv, if_neg (not_not_intro hopen), hsettle]
    dsimp only
    rw [if_neg hne, ← hsplit, List.take_left' htake]
    rfl
  · rw [htick.fds]
    exact hlater.fds
  · rw [htick.dst]
    exact hlater.dst
  · rw [htick.unread, ← hsplit, List.drop_left' htake]

/-- A `recv` after a peek returns the bytes that were seen. -/
theorem recv_after_peek {k k' : Stream Addr} {fd : Fd} {n len : ℕ} {data content : Bytes}
    (hpeek : k.recv fd n .peekDontwait = (.ok data, k'))
    (hrecv : (k'.recv fd len .waitall).1 = .ok content) : data <+: content ∨ content <+: data := by
  have hopen : fd ∈ k.fds := by
    by_contra hclosed
    rw [recv, if_pos hclosed] at hpeek
    cases hpeek
  rw [recv_peek hopen] at hpeek
  obtain ⟨hdata, rfl⟩ := Prod.mk.inj hpeek
  have hdata' : data = (k.inbox fd).take n := by
    by_cases hempty : k.inbox fd = []
    · rw [if_pos hempty] at hdata
      cases hdata
    · rw [if_neg hempty] at hdata
      exact (Except.ok.inj hdata).symm
  -- what is taken is the beginning of the same queue, which may have grown
  have hlater := (later_tick k).trans (later_settle k.tick fd len .waitall)
  rw [recv] at hrecv
  split at hrecv
  · cases hrecv
  · dsimp only at hrecv
    split at hrecv
    · cases hrecv
    · have hcontent : content = ((k.tick.settle fd len .waitall).inbox fd).take len :=
        (Except.ok.inj hrecv).symm
      have hpre : data <+: (k.tick.settle fd len .waitall).inbox fd := by
        rw [hdata']
        exact (List.take_prefix n _).trans (hlater.grows fd)
      rw [hcontent]
      exact List.prefix_or_prefix_of_prefix hpre (List.take_prefix len _)

/-- A `recv` opens and closes nothing, and the stream still leads to the same descriptor. -/
theorem fds_dst_recv (k : Stream Addr) (fd : Fd) (len : ℕ) (flags : RecvFlags) :
    (k.recv fd len flags).2.fds = k.fds ∧ (k.recv fd len flags).2.dst = k.dst := by
  rw [recv]
  split
  · exact ⟨rfl, rfl⟩
  · dsimp only
    have hsettle := later_settle k fd len flags
    have htick := hsettle.trans (later_tick _)
    split
    · exact ⟨htick.fds, htick.dst⟩
    · dsimp only
      split
      · exact ⟨htick.fds, htick.dst⟩
      · rw [(later_tick _).fds, (later_tick _).dst]
        exact ⟨hsettle.fds, hsettle.dst⟩

theorem segments_recv (k : Stream Addr) (fd : Fd) (len : ℕ) (flags : RecvFlags) :
    (k.recv fd len flags).2.segments <:+ k.segments := by
  have hsettle : (k.settle fd len flags).segments <:+ k.segments := by
    rw [settle]
    split
    · exact segments_await _ _ k
    · exact List.suffix_refl k.segments
  rw [recv]
  split
  · exact List.suffix_refl k.segments
  · dsimp only
    split
    · exact (segments_tick _).trans hsettle
    · dsimp only
      split
      · exact (segments_tick _).trans hsettle
      · exact (segments_tick ((k.settle fd len flags).consume fd len)).trans hsettle

/-- What is received without a peek is no longer there. -/
theorem unread_recv_dontwait {k k' : Stream Addr} {len : ℕ} {data : Bytes}
    (h : k.recv k.dst len .dontwait = (.ok data, k')) : data ++ k'.unread = k.unread := by
  by_cases hopen : k.dst ∈ k.fds
  · rw [recv_dontwait hopen] at h
    split at h
    · cases h
    · cases h
      rw [(later_tick _).unread]
      exact take_append_unread_consume k len
  · rw [recv, if_pos hopen] at h
    cases h

theorem recv_of_notMem {k : Stream Addr} {fd : Fd} (h : fd ∉ k.fds) (len : ℕ) (flags : RecvFlags) :
    (k.recv fd len flags).1 = .error EBADF := by
  rw [recv, if_pos h]

theorem recv_length {k : Stream Addr} {fd : Fd} {len : ℕ} {flags : RecvFlags} {data : Bytes}
    (h : (k.recv fd len flags).1 = .ok data) : data.length ≤ len := by
  rw [recv] at h
  split at h
  · cases h
  · dsimp only at h
    split at h
    · cases h
    · cases h
      exact List.length_take_le _ _

end Stream

/-- The kernel. A write to an open descriptor takes everything. -/
def streamKernel (Addr Opt : Type) : Kernel (Stream Addr) Opt Addr where
  fds := Stream.fds
  recv := Stream.recv
  write k fd data := (if fd ∈ k.fds then .ok data.length else .error EBADF, k)
  close k fd := { k with fds := k.fds.erase fd }
  accept := Stream.accept
  getsockname k _ := (k.sockname.elim (.error EBADF) .ok, k)
  socket k := (.ok k.freshFd, { k with fds := insert k.freshFd k.fds })
  -- no call of the other kinds fails
  ctl k _ := (none, k)
  garbage _ := 0
  recv_length h := Stream.recv_length h
  recv_closed h := Stream.recv_of_notMem h
  fds_recv k fd len flags := (Stream.fds_dst_recv k fd len flags).1
  write_length := by
    intro k fd data n h
    dsimp only at h
    split at h <;> cases h
    exact le_rfl
  write_pos := by
    intro k fd data n h hne
    dsimp only at h
    split at h <;> cases h
    exact List.length_pos_of_ne_nil hne
  write_closed := by
    intro k fd h data
    exact if_neg h
  fds_write _ _ _ := rfl
  fds_close _ _ := rfl
  accept_fresh := by
    intro k fd a h
    rw [Stream.accept] at h ⊢
    split at h
    · cases h
    · cases h
      exact ⟨Int.natCast_nonneg _, k.freshFd_notMem, rfl⟩
  fds_accept_error := by
    intro k e h
    rw [Stream.accept] at h ⊢
    split at h
    · rfl
    · cases h
  fds_getsockname _ _ := rfl
  socket_fresh := by
    intro k fd h
    cases h
    exact ⟨Int.natCast_nonneg _, k.freshFd_notMem, rfl⟩
  fds_socket_error := by
    intro k e h
    cases h
  fds_ctl _ _ := rfl

/-- The same kernel, but a stream that has given everything is at its end: `recv`
returns no bytes then. -/
def endingKernel (Addr Opt : Type) : Kernel (Stream Addr) Opt Addr :=
  { streamKernel Addr Opt with
    -- only what is empty for good is at its end, an empty inbox is not
    recv := fun k fd len flags =>
      if fd = k.dst ∧ fd ∈ k.fds ∧ k.unread = [] then (.ok [], k) else k.recv fd len flags
    recv_length := by
      intro k fd len flags data h
      split at h
      · cases h
        exact Nat.zero_le _
      · exact Stream.recv_length h
    recv_closed := by
      intro k fd hclosed len flags
      rw [if_neg fun h => hclosed h.2.1]
      exact Stream.recv_of_notMem hclosed len flags
    fds_recv := by
      intro k fd len flags
      split
      · rfl
      · exact (Stream.fds_dst_recv k fd len flags).1 }

/-- The same kernel, but a write to an open descriptor takes one byte. -/
def slowKernel (Addr Opt : Type) : Kernel (Stream Addr) Opt Addr :=
  { streamKernel Addr Opt with
    write := fun k fd data => (if fd ∈ k.fds then .ok (min 1 data.length) else .error EBADF, k)
    write_length := by
      intro k fd data n h
      dsimp only at h
      split at h <;> cases h
      exact Nat.min_le_right _ _
    write_pos := by
      intro k fd data n h hne
      dsimp only at h
      split at h <;> cases h
      have hpos := List.length_pos_of_ne_nil hne
      omega
    write_closed := by
      intro k fd h data
      exact if_neg h
    fds_write := fun _ _ _ => rfl }

theorem peekKeeps_streamKernel (Addr Opt : Type) : (streamKernel Addr Opt).PeekKeeps :=
  Stream.recv_after_peek

theorem writesInFull_streamKernel (Addr Opt : Type) : (streamKernel Addr Opt).WritesInFull := by
  intro k fd data n h
  replace h : (if fd ∈ k.fds then .ok data.length else .error EBADF : WriteResult) = .ok n := h
  split at h
  · exact (Except.ok.inj h).symm
  · cases h

end Tmet.Posix
