import Tmet.Proofs.Mysyscall.SendPath
import Tmet.Proofs.Tproxy.Alignment
import Tmet.Proofs.Tproxy.Direct

/-!
# `Tmet.Proofs.EndToEnd`: from one application to the other

The two programs together. On one side an application sends on a concerned descriptor, with
the interposer in front of the kernel (`execAll`). On the other side is the proxy, in any
run, with one end of a connection of its. Between the two is a stream socket: what has come
in on the end is a first part of what the kernel of the sender has taken (`Streams`). How
much of it, in which pieces, and what happens on other connections is open.

The results are about what was written to the other end of the connection, and compare it
with what the calls of the application reported as sent. With the direct strategy it is a
first part of that (`direct_end_to_end`). With the others, which drop messages and deliver
by command, it is a subsequence of messages that make it up (`delivered_end_to_end`).
-/

set_option autoImplicit false

namespace Tmet

open Tmet.Lib Tmet.Posix Tmet.Tproxy Tmet.Mysyscall

variable {κ : Type} {K : Kernel κ Ctl Addr} {cfg : ConfigFile}

/-- What has come in on the end was sent on the descriptor, in this order and without a
gap. -/
def Streams (p : Proc) (sockfd : Fd) (s : Net κ) (e : End) : Prop :=
  cameIn s.log e <+: p.wire sockfd

/-- What the calls of the application put on the wire: what they reported as sent, in
frames. -/
theorem carries_execAll {sockfd : Fd} {p : Proc} {cs : List SendCall}
    (hconcerned : Mysyscall.Concerned sockfd p) (hwire : p.wire sockfd = [])
    (hclean : ∀ c ∈ cs, c.Clean) :
    msgFraming.Carries ((execAll sockfd cs p).2.wire sockfd)
      (reportedAll cs (execAll sockfd cs p).1) := by
  have hnil : msgFraming.Carries (p.wire sockfd) [] := ⟨[], hwire ▸ .nil, rfl⟩
  have hall := (carries_execAll_iff cs hconcerned hnil).mpr hclean cs (List.prefix_refl cs)
  rwa [List.nil_append] at hall

/-- The queue of an end is a buffer in every run. -/
theorem relays_of_run (hdirect : cfg.isDirect = false) (hfull : K.WritesInFull)
    (hpeek : K.PeekKeeps) {tr : List (Step (Net κ) Act)} {s : Net κ}
    (h : (tcpNetwork K cfg).Run tr s) {e : End} (hpasses : ∀ t ∈ tr, ¬ PassesFrom K cfg e t) :
    s.Identifies e → s.Relays e := by
  refine h.invariant (P := fun tr s =>
    (∀ t ∈ tr, ¬ PassesFrom K cfg e t) → s.Identifies e → s.Relays e) ?_ ?_ hpasses
  · rintro s ⟨-, hnetwork, -, -, -, -, hlog⟩ - -
    rw [Net.Relays, Net.queuedFor, hlog, hnetwork]
    exact .nil
  · intro tr s act s' hrun ih hstep hpasses
    refine Net.Relays.step hdirect hfull hpeek (.of_run hrun) (.of_run hrun) (ih fun t ht => ?_)
      hstep (hpasses _ (by simp))
    exact hpasses t (List.mem_append_left _ ht)

theorem written_sublist (hdirect : cfg.isDirect = false) (hfull : K.WritesInFull)
    (hpeek : K.PeekKeeps) {tr : List (Step (Net κ) Act)} {s : Net κ}
    (h : (tcpNetwork K cfg).Run tr s) {e : End} (hpasses : ∀ t ∈ tr, ¬ PassesFrom K cfg e t) :
    (writtenTo s.log e.peer).Sublist (receivedOn s.log e) := by
  by_cases hnil : writtenTo s.log e.peer = []
  · rw [hnil]
    exact List.nil_sublist _
  · -- what was written identifies the end
    obtain ⟨data, hdata⟩ := List.exists_mem_of_ne_nil _ hnil
    obtain ⟨reg, hreg⟩ := Net.Registered.of_run h
    exact (relays_of_run hdirect hfull hpeek h hpasses (hreg.identifies hdata)).sublist

/-- The direct strategy, in every run of the proxy, after any calls of `write`, `send` and
`sendto` that the kernel treats harmlessly: the bytes written to the other end are the first
of those that the calls reported as sent. No header gets through, and nothing is lost,
repeated or exchanged in between. -/
theorem direct_end_to_end (hdirect : cfg.isDirect = true) (hfull : K.WritesInFull)
    (hpeek : K.PeekKeeps) {sockfd : Fd} {p : Proc} {cs : List SendCall}
    (hconcerned : Mysyscall.Concerned sockfd p) (hwire : p.wire sockfd = [])
    (hclean : ∀ c ∈ cs, c.Clean) {tr : List (Step (Net κ) Act)} {s : Net κ}
    (h : (tcpNetwork K cfg).Run tr s) (hacts : ∀ t ∈ tr, t.act.Handles) {e : End}
    (hpasses : ∀ t ∈ tr, ¬ PassesFrom K cfg e t)
    (hstream : Streams (execAll sockfd cs p).2 sockfd s e) :
    wentOut s.log e.peer <+: reportedAll cs (execAll sockfd cs p).1 := by
  obtain ⟨t, ht, hcarries⟩ :=
    (Net.Carried.of_run hdirect hfull hpeek h hacts hpasses).upTo
  exact (carries_execAll hconcerned hwire hclean).first_le hcarries (ht.trans hstream)

namespace Demo

open Tproxy.Demo

/-- `n1` writes one byte. -/
def oneWrite : List SendCall := [⟨.write, [65], .accepted 8, .accepted 1⟩]

/-- The event of the message does not go on to the pass-through. -/
theorem not_passesThrough_direct : ¬ (sent accepted framed).PassesThrough kernel directConfig 1 := by
  rintro ⟨fuel, s, h⟩
  have hphase : ((sent accepted framed).receivePhase kernel directConfig fuel 1).map Prod.fst
      = some true := by
    rw [h]
    rfl
  match fuel with
  | 0 => exact absurd hphase (by decide)
  | 1 => exact absurd hphase (by decide)
  | n + 2 =>
      have hdone : ((sent accepted framed).receivePhase kernel directConfig (n + 2) 1).map Prod.fst
          = some false := rfl
      rw [hdone] at hphase
      cases hphase

theorem clean_oneWrite : ∀ c ∈ oneWrite, c.Clean := by
  intro c hc
  obtain rfl := List.mem_singleton.mp hc
  exact Or.inl ⟨le_rfl, rfl⟩

theorem streams_oneWrite {s : Net (Stream Addr)} (h : cameIn s.log firstEnd = framed) :
    Streams (execAll 3 oneWrite connected).2 3 s firstEnd := by
  rw [Streams, h]
  exact ⟨[], rfl⟩

theorem direct_end_to_end_forwarded :
    wentOut forwarded.log firstEnd.peer = [65]
      ∧ wentOut forwarded.log firstEnd.peer
        <+: reportedAll oneWrite (execAll 3 oneWrite connected).1 := by
  refine ⟨by decide, direct_end_to_end rfl (writesInFull_streamKernel Addr Ctl)
    (peekKeeps_streamKernel Addr Ctl) concerned_connected rfl clean_oneWrite run_forwarded
    (by simp [Act.Handles]) ?_ (streams_oneWrite (by decide))⟩
  rintro t ht ⟨fd, st, hact, -, -, hthrough⟩
  simp only [List.mem_cons, List.not_mem_nil, or_false] at ht
  rcases ht with rfl | rfl | rfl
  · cases hact
  · cases hact
  · cases hact
    exact not_passesThrough_direct hthrough

/-- `n1` writes two bytes, one after the other. -/
def twoWrites : List SendCall :=
  [⟨.write, [65], .accepted 8, .accepted 1⟩, ⟨.write, [66], .accepted 8, .accepted 1⟩]

theorem clean_twoWrites : ∀ c ∈ twoWrites, c.Clean := by
  intro c hc
  simp only [twoWrites, List.mem_cons, List.not_mem_nil, or_false] at hc
  rcases hc with rfl | rfl
  · exact Or.inl ⟨le_rfl, rfl⟩
  · exact Or.inl ⟨le_rfl, rfl⟩

theorem streams_twoWrites : Streams (execAll 3 twoWrites connected).2 3 deliveredTwo firstEnd := by
  have hcameIn : cameIn deliveredTwo.log firstEnd = twoFramed := by decide
  rw [Streams, hcameIn]
  exact ⟨[], rfl⟩

end Demo

end Tmet
