import Tmet.Lib.HighMask
import Tmet.Mysyscall.MallocFree

/-!
# `Tmet.Proofs.Mysyscall.MallocFree`: where the bootstrap allocator is sound

`Safe` is what the functions owe their callers over a whole sequence of calls: what is
handed out before `is_inited` is set is part of `malloc_buffer` and shares no byte with
anything else handed out, and no pointer from the buffer reaches the real `free` or
`realloc`.

`malloc` and `calloc` compare nothing with the end of the buffer, and `calloc` multiplies
modulo `2 ^ 64`. `realloc` has neither the test of `malloc` for `is_inited` nor the one of
`free` for the buffer. `safe_iff` says that this is all that can go wrong: a sequence is
safe if and only if its requests fit into the buffer one behind the other (`Fits`), and
every `realloc` has a pointer from elsewhere and, before initialisation, returns `NULL`
(`ReallocsOutside`). `free` never goes wrong on its own.

As long as the requests fit, no addition wraps, so `malloc_ptr` is the start of the buffer
plus what was reserved (`Sound.mallocPtr`). That is the induction.
-/

set_option autoImplicit false

namespace Tmet.Mysyscall

open Tmet.Lib

/-! ### What a sequence of calls hands out and passes on -/

/-- A block handed out, and whether that was before `is_inited` was set. -/
structure Handed where
  early : Bool
  block : Block
deriving DecidableEq, Repr

/-- What a step hands out. -/
def handedBy (t : Step Heap AllocCall) : Option Handed :=
  (t.act.handsOut t.src).map (Handed.mk !t.src.isInited)

/-- All that is handed out, in order. -/
def handed (tr : List (Step Heap AllocCall)) : List Handed := tr.filterMap handedBy

/-- What is asked of the buffer, in order. -/
def bootRequests (tr : List (Step Heap AllocCall)) : List ℕ :=
  tr.filterMap fun t => t.act.bootRequest t.src

/-- The pointer points into the buffer, or it was handed out before `is_inited` was set. -/
def FromBuffer (buf : MallocBuffer) (tr : List (Step Heap AllocCall)) (p : UInt64) : Prop :=
  buf.holds p = true ∨ ∃ h ∈ handed tr, h.early = true ∧ h.block.start = p.toNat

/-- What the callers of the functions rely on. -/
structure Safe (buf : MallocBuffer) (tr : List (Step Heap AllocCall)) : Prop where
  within : ∀ h ∈ handed tr, h.early = true → h.block.Within buf.block
  apart : (handed tr).Pairwise fun g h =>
    g.early = true ∨ h.early = true → g.block.Apart h.block
  realPtr : ∀ t ∈ tr, ∀ p, t.act.realPtr buf t.src = some p → ¬ FromBuffer buf tr p

/-! ### When it is safe -/

/-- What a request of `n` bytes takes from the buffer. -/
def reserve (n : ℕ) : ℕ := n / 16 * 16 + 16

/-- What the requests take. -/
def reserved (ns : List ℕ) : ℕ := (ns.map reserve).sum

/-- The requests fit into the buffer, `used` bytes of which are taken. A request of no
bytes needs an address. -/
def Fits : ℕ → List ℕ → Prop
  | _, [] => True
  | used, n :: ns => used + max n 1 ≤ MALLOC_SIZE ∧ Fits (used + reserve n) ns

instance : ∀ (used : ℕ) (ns : List ℕ), Decidable (Fits used ns)
  | _, [] => inferInstanceAs (Decidable True)
  | used, n :: ns =>
      have := instDecidableFits (used + reserve n) ns
      inferInstanceAs (Decidable (_ ∧ _))

/-- No pointer into the buffer is reallocated, and before `is_inited` is set nothing is
handed out by `realloc`. -/
def ReallocsOutside (buf : MallocBuffer) (tr : List (Step Heap AllocCall)) : Prop :=
  ∀ t ∈ tr, ∀ ptr size real, t.act = .realloc ptr size real →
    buf.holds ptr = false ∧ (t.src.isInited = false → real = 0)

theorem fits_snoc (ns : List ℕ) (n : ℕ) :
    ∀ used, Fits used (ns ++ [n])
      ↔ Fits used ns ∧ used + reserved ns + max n 1 ≤ MALLOC_SIZE := by
  induction ns with
  | nil =>
      intro used
      simp [Fits, reserved]
  | cons m ns ih =>
      intro used
      rw [List.cons_append, Fits, Fits, ih, and_assoc]
      have hsum : used + reserved (m :: ns) = used + reserve m + reserved ns := by
        simp only [reserved, List.map_cons, List.sum_cons]
        omega
      rw [hsum]

theorem reserved_snoc (ns : List ℕ) (n : ℕ) : reserved (ns ++ [n]) = reserved ns + reserve n := by
  simp [reserved]

/-- A request leaves room for itself in what it takes, and no more than that. -/
theorem max_le_reserve (n : ℕ) : max n 1 ≤ reserve n ∧ reserve n ≤ max n 1 + 16 := by
  unfold reserve
  omega

/-! ### Words -/

/-- `& ~0xf` on a word. -/
theorem toNat_and_not_fifteen (x : UInt64) : (x &&& ~~~0xf).toNat = x.toNat / 16 * 16 := by
  have hmask : (~~~(0xf : UInt64)).toBitVec = highMask 64 4 := by decide
  rw [← UInt64.toNat_toBitVec, UInt64.toBitVec_and, hmask, toNat_and_highMask]
  rfl

/-- Where nothing wraps, `malloc_ptr` moves by what the request takes. -/
theorem toNat_bump {p x : UInt64} {n : ℕ} (hx : x.toNat = n % 2 ^ 64) (hn : n ≤ MALLOC_SIZE)
    (hp : p.toNat < 2 ^ 63 + 16) :
    (p + ((x &&& ~~~0xf) + 0x10)).toNat = p.toNat + reserve n := by
  have hsize : MALLOC_SIZE = 81920 := rfl
  have hxn : x.toNat = n := by
    rw [hx]
    omega
  have htake : ((x &&& ~~~0xf) + 0x10).toNat = reserve n := by
    rw [UInt64.toNat_add, toNat_and_not_fifteen, hxn]
    show (n / 16 * 16 + 16) % 2 ^ 64 = n / 16 * 16 + 16
    omega
  have hle := (max_le_reserve n).2
  rw [UInt64.toNat_add, htake]
  omega

namespace MallocBuffer

variable {buf : MallocBuffer} {p : UInt64}

@[simp] theorem block_start (buf : MallocBuffer) : buf.block.start = buf.addr.toNat := rfl

@[simp] theorem block_stop (buf : MallocBuffer) :
    buf.block.stop = buf.addr.toNat + MALLOC_SIZE := rfl

/-- The test of `free` is the one it should be. -/
theorem holds_iff : buf.holds p = true
    ↔ buf.addr.toNat ≤ p.toNat ∧ p.toNat < buf.addr.toNat + MALLOC_SIZE := by
  have hroom := buf.addr_lt
  have hend : (buf.addr + UInt64.ofNat MALLOC_SIZE).toNat = buf.addr.toNat + MALLOC_SIZE := by
    have hsize : (UInt64.ofNat MALLOC_SIZE).toNat = MALLOC_SIZE := rfl
    rw [UInt64.toNat_add, hsize]
    omega
  rw [holds, Bool.and_eq_true, decide_eq_true_iff, decide_eq_true_iff, UInt64.le_iff_toNat_le,
    UInt64.lt_iff_toNat_lt, hend]

/-- The start of a block within the buffer is held. -/
theorem holds_of_within {b : Block} (h : b.Within buf.block) (hp : b.start = p.toNat) :
    buf.holds p = true := by
  obtain ⟨hstart, hstop⟩ := h
  have hlt := b.start_lt_stop
  rw [block_start] at hstart
  rw [block_stop] at hstop
  rw [holds_iff]
  omega

end MallocBuffer

/-! ### One call -/

section Calls

variable {buf : MallocBuffer} {s : Heap} {c : AllocCall}

/-- A request to the buffer gets the block at `malloc_ptr`, and `malloc_ptr` moves. -/
theorem AllocCall.of_bootRequest (buf : MallocBuffer) {n : ℕ} (h : c.bootRequest s = some n) :
    s.isInited = false ∧ c.handsOut s = blockAt s.mallocPtr n ∧ c.realPtr buf s = none
      ∧ (∀ ptr size real, c ≠ .realloc ptr size real)
      ∧ ∃ x : UInt64, x.toNat = n % 2 ^ 64
        ∧ (c.exec buf s).mallocPtr = s.mallocPtr + ((x &&& ~~~0xf) + 0x10) := by
  cases hinit : s.isInited with
  | true =>
      cases c <;> simp [bootRequest, hinit] at h
  | false =>
      cases c with
      | malloc size real =>
          obtain rfl : size.toNat = n := by simpa [bootRequest, hinit] using h
          refine ⟨rfl, ?_, rfl, by simp, size, ?_, ?_⟩
          · simp [handsOut, Mysyscall.malloc, hinit]
          · have hlt := size.toNat_lt
            omega
          · simp [exec, Mysyscall.malloc, hinit]
      | calloc nmemb size real =>
          obtain rfl : nmemb.toNat * size.toNat = n := by simpa [bootRequest, hinit] using h
          -- the product is taken modulo `2 ^ 64`, and `n` is the exact one
          refine ⟨rfl, ?_, rfl, by simp, nmemb * size, UInt64.toNat_mul nmemb size, ?_⟩
          · simp [handsOut, Mysyscall.calloc, hinit]
          · simp [exec, Mysyscall.calloc, hinit]
      | realloc ptr size real => simp [bootRequest] at h
      | free ptr => simp [bootRequest] at h
      | initCommon => simp [bootRequest] at h

theorem Heap.mallocPtr_checkCountIntercepted (s : Heap) (nr : AllocNr) :
    (s.checkCountIntercepted nr).mallocPtr = s.mallocPtr := rfl

/-- Any other call leaves `malloc_ptr` where it is. -/
theorem AllocCall.mallocPtr_exec (h : c.bootRequest s = none) :
    (c.exec buf s).mallocPtr = s.mallocPtr := by
  -- after initialisation only the counters change, and `free` and `realloc` never move it
  cases c with
  | malloc size real =>
      cases hinit : s.isInited with
      | false => simp [bootRequest, hinit] at h
      | true => simp [exec, Mysyscall.malloc, hinit, Heap.mallocPtr_checkCountIntercepted]
  | calloc nmemb size real =>
      cases hinit : s.isInited with
      | false => simp [bootRequest, hinit] at h
      | true => simp [exec, Mysyscall.calloc, hinit, Heap.mallocPtr_checkCountIntercepted]
  | realloc ptr size real => exact s.mallocPtr_checkCountIntercepted .libRealloc
  | free ptr =>
      show (Mysyscall.free buf s ptr).2.mallocPtr = s.mallocPtr
      rw [Mysyscall.free]
      split
      · rfl
      · exact s.mallocPtr_checkCountIntercepted .libFree
  | initCommon => rfl

/-- Apart from the requests to the buffer, only `realloc` hands something out before
`is_inited` is set. -/
theorem AllocCall.realloc_of_early (h : c.bootRequest s = none) (hinit : s.isInited = false)
    {b : Block} (hb : c.handsOut s = some b) :
    ∃ ptr size real, c = .realloc ptr size real ∧ real ≠ 0 := by
  cases c with
  | malloc size real => simp [bootRequest, hinit] at h
  | calloc nmemb size real => simp [bootRequest, hinit] at h
  | realloc ptr size real =>
      refine ⟨ptr, size, real, rfl, fun hreal => ?_⟩
      simp [handsOut, Mysyscall.realloc, blockAt, hreal] at hb
  | free ptr => simp [handsOut] at hb
  | initCommon => simp [handsOut] at hb

/-- `free` passes on no pointer into the buffer, and `realloc` passes on every pointer. -/
theorem AllocCall.of_realPtr {p : UInt64} (h : c.realPtr buf s = some p) :
    buf.holds p = false ∨ ∃ size real, c = .realloc p size real := by
  cases c with
  | malloc size real => simp [realPtr] at h
  | calloc nmemb size real => simp [realPtr] at h
  | realloc ptr size real =>
      obtain rfl : ptr = p := Option.some.inj h
      exact Or.inr ⟨size, real, rfl⟩
  | free ptr =>
      rw [realPtr, Mysyscall.free] at h
      cases hholds : buf.holds ptr with
      | true => simp [hholds] at h
      | false =>
          obtain rfl : ptr = p := by simpa [hholds] using h
          exact Or.inl hholds
  | initCommon => simp [realPtr] at h

theorem eq_of_blockAt {p : UInt64} {n : ℕ} {b : Block} (h : blockAt p n = some b) :
    p ≠ 0 ∧ b = ⟨p.toNat, n⟩ := by
  by_cases hp : p = 0
  · rw [blockAt, if_pos hp] at h
    exact absurd h (by simp)
  · rw [blockAt, if_neg hp] at h
    exact ⟨hp, (Option.some.inj h).symm⟩

end Calls

/-! ### Sequences of calls -/

section Sequences

variable {buf : MallocBuffer} {tr : List (Step Heap AllocCall)} {s : Heap} {c : AllocCall}

theorem handed_snoc (tr : List (Step Heap AllocCall)) (t : Step Heap AllocCall) :
    handed (tr ++ [t]) = handed tr ++ (handedBy t).toList :=
  filterMap_snoc handedBy tr t

theorem mem_handed_snoc {t : Step Heap AllocCall} {h : Handed} :
    h ∈ handed (tr ++ [t]) ↔ h ∈ handed tr ∨ handedBy t = some h := by
  rw [handed_snoc, List.mem_append, Option.mem_toList]

theorem handedBy_eq_some {t : Step Heap AllocCall} {h : Handed} (hby : handedBy t = some h) :
    h.early = !t.src.isInited ∧ t.act.handsOut t.src = some h.block := by
  obtain ⟨b, hb, rfl⟩ := Option.map_eq_some_iff.mp hby
  exact ⟨rfl, hb⟩

theorem bootRequests_snoc (tr : List (Step Heap AllocCall)) (t : Step Heap AllocCall) :
    bootRequests (tr ++ [t]) = bootRequests tr ++ (t.act.bootRequest t.src).toList :=
  filterMap_snoc (fun t : Step Heap AllocCall => t.act.bootRequest t.src) tr t

/-- What holds after calls that fit. -/
structure Sound (buf : MallocBuffer) (tr : List (Step Heap AllocCall)) (s : Heap) : Prop where
  mallocPtr : s.mallocPtr.toNat = buf.addr.toNat + reserved (bootRequests tr)
  reserved_le : reserved (bootRequests tr) ≤ MALLOC_SIZE + 16
  early : ∀ h ∈ handed tr, h.early = true →
    h.block.Within buf.block ∧ h.block.stop ≤ s.mallocPtr.toNat
  late : ∀ h ∈ handed tr, h.early = false → h.block.Apart buf.block
  apart : (handed tr).Pairwise fun g h =>
    g.early = true ∨ h.early = true → g.block.Apart h.block
  realPtr : ∀ t ∈ tr, ∀ p, t.act.realPtr buf t.src = some p → buf.holds p = false

theorem Sound.safe (h : Sound buf tr s) : Safe buf tr where
  within g hg hearly := (h.early g hg hearly).1
  apart := h.apart
  realPtr t ht p hp := by
    have hout := h.realPtr t ht p hp
    rintro (hin | ⟨g, hg, hearly, hstart⟩)
    · rw [hout] at hin
      exact absurd hin (by simp)
    · have hin := MallocBuffer.holds_of_within (h.early g hg hearly).1 hstart
      rw [hout] at hin
      exact absurd hin (by simp)

/-- The block at `malloc_ptr` is part of the buffer if and only if there is room. -/
theorem Sound.within_iff (h : Sound buf tr s) (n : ℕ) :
    (⟨s.mallocPtr.toNat, n⟩ : Block).Within buf.block
      ↔ reserved (bootRequests tr) + max n 1 ≤ MALLOC_SIZE := by
  have hptr := h.mallocPtr
  show buf.addr.toNat ≤ s.mallocPtr.toNat
      ∧ s.mallocPtr.toNat + max n 1 ≤ buf.addr.toNat + MALLOC_SIZE ↔ _
  omega

theorem Sound.mallocPtr_ne_zero (h : Sound buf tr s) : s.mallocPtr ≠ 0 := by
  intro hzero
  have hptr := h.mallocPtr
  have hpos := buf.addr_pos
  rw [hzero] at hptr
  have h0 : (0 : UInt64).toNat = 0 := rfl
  omega

/-- A new block has to be apart from those that were handed out before. -/
theorem apart_snoc {t : Step Heap AllocCall}
    (hold : (handed tr).Pairwise fun g h =>
      g.early = true ∨ h.early = true → g.block.Apart h.block)
    (hnew : ∀ g ∈ handed tr, ∀ h, handedBy t = some h → g.early = true ∨ h.early = true →
      g.block.Apart h.block) :
    (handed (tr ++ [t])).Pairwise fun g h =>
      g.early = true ∨ h.early = true → g.block.Apart h.block := by
  rw [handed_snoc, List.pairwise_append]
  refine ⟨hold, ?_, fun g hg h hh => hnew g hg h (Option.mem_toList.mp hh)⟩
  cases handedBy t <;> simp

/-- A request that fits keeps everything in order. -/
theorem Sound.bootRequest (h : Sound buf tr s) {n : ℕ} (hreq : c.bootRequest s = some n)
    (hfits : reserved (bootRequests tr) + max n 1 ≤ MALLOC_SIZE) :
    Sound buf (tr ++ [⟨s, c, c.exec buf s⟩]) (c.exec buf s) := by
  obtain ⟨hinit, hout, hreal, -, x, hx, hmove⟩ := AllocCall.of_bootRequest buf hreq
  have hlt := buf.addr_lt
  have hptr := h.mallocPtr
  have hres := max_le_reserve n
  have hptr' : (c.exec buf s).mallocPtr.toNat = s.mallocPtr.toNat + reserve n := by
    rw [hmove]
    exact toNat_bump hx (by omega) (by omega)
  have hsnoc : bootRequests (tr ++ [⟨s, c, c.exec buf s⟩]) = bootRequests tr ++ [n] := by
    rw [bootRequests_snoc, hreq]
    rfl
  have hwithin := (h.within_iff n).mpr hfits
  have hby : handedBy ⟨s, c, c.exec buf s⟩ = some ⟨true, ⟨s.mallocPtr.toNat, n⟩⟩ := by
    rw [handedBy, hout, blockAt, if_neg h.mallocPtr_ne_zero, hinit]
    rfl
  refine ⟨?_, ?_, ?_, ?_, ?_, ?_⟩
  · rw [hptr', hsnoc, reserved_snoc, hptr, Nat.add_assoc]
  · rw [hsnoc, reserved_snoc]
    omega
  · intro g hg hearly
    rcases mem_handed_snoc.mp hg with hold | hnew
    · obtain ⟨hin, hstop⟩ := h.early g hold hearly
      exact ⟨hin, by omega⟩
    · obtain rfl := Option.some.inj (hby.symm.trans hnew)
      refine ⟨hwithin, ?_⟩
      rw [hptr']
      show s.mallocPtr.toNat + max n 1 ≤ _
      omega
  · intro g hg hlate
    rcases mem_handed_snoc.mp hg with hold | hnew
    · exact h.late g hold hlate
    · obtain rfl := Option.some.inj (hby.symm.trans hnew)
      exact absurd hlate (by simp)
  · refine apart_snoc h.apart fun g hg g' hg' _ => ?_
    obtain rfl := Option.some.inj (hby.symm.trans hg')
    -- older pieces of the buffer end at `malloc_ptr`, all else is apart from the buffer
    cases hearly : g.early with
    | true => exact Or.inl (h.early g hg hearly).2
    | false => exact (hwithin.apart (h.late g hg hearly)).symm
  · intro t ht p hp
    rcases List.mem_append.mp ht with hold | hlast
    · exact h.realPtr t hold p hp
    · rw [List.mem_singleton.mp hlast, hreal] at hp
      exact absurd hp (by simp)

/-- So does any other call, if a `realloc` keeps away from the buffer. -/
theorem Sound.other (h : Sound buf tr s) (hreq : c.bootRequest s = none)
    (hallowed : c.Allowed buf s)
    (hrealloc : ∀ ptr size real, c = .realloc ptr size real →
      buf.holds ptr = false ∧ (s.isInited = false → real = 0)) :
    Sound buf (tr ++ [⟨s, c, c.exec buf s⟩]) (c.exec buf s) := by
  have hptr : (c.exec buf s).mallocPtr = s.mallocPtr := AllocCall.mallocPtr_exec hreq
  have hsnoc : bootRequests (tr ++ [⟨s, c, c.exec buf s⟩]) = bootRequests tr := by
    rw [bootRequests_snoc, hreq]
    exact List.append_nil _
  -- what the call hands out comes from the real allocator, and that is late
  have hnew (g : Handed) (hg : handedBy ⟨s, c, c.exec buf s⟩ = some g) :
      g.early = false ∧ g.block.Apart buf.block := by
    obtain ⟨hearly, hout⟩ := handedBy_eq_some hg
    refine ⟨?_, hallowed hreq g.block hout⟩
    cases hinit : s.isInited with
    | true =>
        rw [hearly]
        show (!s.isInited) = false
        rw [hinit]
        rfl
    | false =>
        obtain ⟨ptr, size, real, hc, hreal⟩ := AllocCall.realloc_of_early hreq hinit hout
        exact absurd ((hrealloc ptr size real hc).2 hinit) hreal
  refine ⟨?_, ?_, ?_, ?_, ?_, ?_⟩
  · rw [hptr, hsnoc]
    exact h.mallocPtr
  · rw [hsnoc]
    exact h.reserved_le
  · intro g hg hearly
    rcases mem_handed_snoc.mp hg with hold | hlast
    · rw [hptr]
      exact h.early g hold hearly
    · rw [(hnew g hlast).1] at hearly
      exact absurd hearly (by simp)
  · intro g hg hlate
    rcases mem_handed_snoc.mp hg with hold | hlast
    · exact h.late g hold hlate
    · exact (hnew g hlast).2
  · refine apart_snoc h.apart fun g hg g' hg' hone => ?_
    obtain ⟨hlate, hapart⟩ := hnew g' hg'
    have hearly : g.early = true := hone.resolve_right (by rw [hlate]; simp)
    exact (h.early g hg hearly).1.apart hapart
  · intro t ht p hp
    rcases List.mem_append.mp ht with hold | hlast
    · exact h.realPtr t hold p hp
    · rw [List.mem_singleton.mp hlast] at hp
      rcases AllocCall.of_realPtr hp with hout | ⟨size, real, hc⟩
      · exact hout
      · exact (hrealloc p size real hc).1

/-- Calls that fit keep the invariant. -/
theorem sound_of_fits (h : (allocator buf).Run tr s) :
    Fits 0 (bootRequests tr) → ReallocsOutside buf tr → Sound buf tr s := by
  refine System.Run.invariant (P := fun tr s =>
    Fits 0 (bootRequests tr) → ReallocsOutside buf tr → Sound buf tr s) ?_ ?_ h
  · rintro s ⟨hptr, -⟩ _ _
    refine ⟨by rw [hptr]; rfl, Nat.zero_le _, ?_, ?_, List.Pairwise.nil, ?_⟩
    · intro g hg
      exact absurd hg List.not_mem_nil
    · intro g hg
      exact absurd hg List.not_mem_nil
    · intro t ht
      exact absurd ht List.not_mem_nil
  · rintro tr s c s' - ih ⟨hallowed, rfl⟩ hfits hre
    have hre' : ReallocsOutside buf tr := fun t ht => hre t (List.mem_append_left _ ht)
    have hlast := hre _ (List.mem_append_right tr (List.mem_singleton_self _))
    rw [bootRequests_snoc] at hfits
    -- a request to the buffer is its next piece, and all else keeps away from the buffer
    cases hreq : c.bootRequest s with
    | none =>
        rw [hreq, Option.toList_none, List.append_nil] at hfits
        exact (ih hfits hre').other hreq hallowed hlast
    | some n =>
        rw [hreq, Option.toList_some, fits_snoc, Nat.zero_add] at hfits
        exact (ih hfits.1 hre').bootRequest hreq hfits.2

/-- Shorter sequences are safe too. -/
theorem Safe.init {t : Step Heap AllocCall} (h : Safe buf (tr ++ [t])) : Safe buf tr where
  within g hg := h.within g (mem_handed_snoc.mpr (Or.inl hg))
  apart := by
    have hpairs := h.apart
    rw [handed_snoc] at hpairs
    exact (List.pairwise_append.mp hpairs).1
  realPtr u hu p hp := by
    have hnot := h.realPtr u (List.mem_append_left _ hu) p hp
    rintro (hin | ⟨g, hg, hearly, hstart⟩)
    · exact hnot (Or.inl hin)
    · exact hnot (Or.inr ⟨g, mem_handed_snoc.mpr (Or.inl hg), hearly, hstart⟩)

/-- The last call of a safe sequence, if it asks for a piece of the buffer, fits. -/
theorem Safe.fits_last (h : Safe buf (tr ++ [⟨s, c, c.exec buf s⟩])) (hsound : Sound buf tr s)
    {n : ℕ} (hreq : c.bootRequest s = some n) :
    reserved (bootRequests tr) + max n 1 ≤ MALLOC_SIZE := by
  obtain ⟨hinit, hout, -⟩ := AllocCall.of_bootRequest buf hreq
  have hby : handedBy ⟨s, c, c.exec buf s⟩ = some ⟨true, ⟨s.mallocPtr.toNat, n⟩⟩ := by
    rw [handedBy, hout, blockAt, if_neg hsound.mallocPtr_ne_zero, hinit]
    rfl
  exact (hsound.within_iff n).mp (h.within _ (mem_handed_snoc.mpr (Or.inr hby)) rfl)

/-- The last call of a safe sequence, if it is a `realloc`, keeps away from the buffer. -/
theorem Safe.realloc_last (h : Safe buf (tr ++ [⟨s, c, c.exec buf s⟩]))
    (hallowed : c.Allowed buf s) {ptr size real : UInt64} (hc : c = .realloc ptr size real) :
    buf.holds ptr = false ∧ (s.isInited = false → real = 0) := by
  subst hc
  have hmem : (⟨s, .realloc ptr size real, AllocCall.exec buf s (.realloc ptr size real)⟩ :
      Step Heap AllocCall) ∈ tr ++ [_] := List.mem_append_right _ (List.mem_singleton_self _)
  refine ⟨?_, fun hinit => ?_⟩
  · have hnot := h.realPtr _ hmem ptr rfl
    exact Bool.eq_false_iff.mpr fun hin => hnot (Or.inl hin)
  · -- a block of the real allocator would be handed out early, and outside the buffer
    by_contra hreal
    have hout : AllocCall.handsOut s (.realloc ptr size real) = some ⟨real.toNat, size.toNat⟩ :=
      if_neg hreal
    have hby : handedBy ⟨s, .realloc ptr size real, AllocCall.exec buf s (.realloc ptr size real)⟩
        = some ⟨true, ⟨real.toNat, size.toNat⟩⟩ := by
      rw [handedBy, hout, hinit]
      rfl
    have hwithin := h.within _ (mem_handed_snoc.mpr (Or.inr hby)) rfl
    exact hwithin.not_apart (hallowed rfl _ hout)

/-- Safe calls fit. -/
theorem fits_of_safe (h : (allocator buf).Run tr s) :
    Safe buf tr → Fits 0 (bootRequests tr) ∧ ReallocsOutside buf tr := by
  refine System.Run.invariant (P := fun tr _ =>
    Safe buf tr → Fits 0 (bootRequests tr) ∧ ReallocsOutside buf tr) ?_ ?_ h
  · intro s _ _
    exact ⟨trivial, fun t ht => absurd ht List.not_mem_nil⟩
  · rintro tr s c s' hrun ih ⟨hallowed, rfl⟩ hsafe
    obtain ⟨hfits, hre⟩ := ih hsafe.init
    -- the earlier calls were safe, hence they fit and the invariant holds here
    have hsound := sound_of_fits hrun hfits hre
    constructor
    · rw [bootRequests_snoc]
      cases hreq : c.bootRequest s with
      | none =>
          rw [Option.toList_none, List.append_nil]
          exact hfits
      | some n =>
          rw [Option.toList_some, fits_snoc, Nat.zero_add]
          exact ⟨hfits, hsafe.fits_last hsound hreq⟩
    · intro t ht ptr size real hc
      rcases List.mem_append.mp ht with hold | hlast
      · exact hre t hold ptr size real hc
      · rw [List.mem_singleton.mp hlast] at hc ⊢
        exact hsafe.realloc_last hallowed hc

end Sequences

/-- A sequence of calls is safe if and only if the requests before initialisation fit into
the buffer one behind the other, no pointer into the buffer is reallocated, and before
initialisation no `realloc` returns memory. -/
theorem safe_iff (buf : MallocBuffer) (tr : List (Step Heap AllocCall)) (s : Heap)
    (h : (allocator buf).Run tr s) :
    Safe buf tr ↔ Fits 0 (bootRequests tr) ∧ ReallocsOutside buf tr := by
  constructor
  · exact fits_of_safe h
  · rintro ⟨hfits, hre⟩
    exact (sound_of_fits h hfits hre).safe

/-! ### A constructor that allocates -/

/-- The buffer of a small program, and the process at its start. -/
def smallBuffer : MallocBuffer := ⟨0x404040, by decide, by decide⟩
def heapAtStart : Heap := ⟨smallBuffer.addr, false, fun _ => .intercepted⟩

/-- One call after the other. -/
def callAll : Heap → List AllocCall → List (Step Heap AllocCall)
  | _, [] => []
  | s, c :: cs => ⟨s, c, c.exec smallBuffer s⟩ :: callAll (c.exec smallBuffer s) cs

/-- A constructor of the program takes 100 bytes, and `main` makes them 200. -/
def grown : List (Step Heap AllocCall) :=
  callAll heapAtStart [.malloc 100 0, .initCommon, .realloc 0x404040 200 0x900000]

theorem run_grown : ∃ s, (allocator smallBuffer).Run grown s := by
  have hstart : (allocator smallBuffer).init heapAtStart := ⟨rfl, rfl⟩
  have hmalloc : AllocCall.Allowed smallBuffer heapAtStart (.malloc 100 0) :=
    fun hreq => absurd hreq (by decide)
  have hinit (s : Heap) : AllocCall.Allowed smallBuffer s .initCommon :=
    fun _ b hb => absurd hb (by simp [AllocCall.handsOut])
  have hrealloc (s : Heap) : AllocCall.Allowed smallBuffer s (.realloc 0x404040 200 0x900000) := by
    intro _ b hb
    obtain ⟨-, rfl⟩ := eq_of_blockAt hb
    exact (by decide : (⟨0x900000, 200⟩ : Block).Apart smallBuffer.block)
  exact ⟨_, .snoc (.snoc (.snoc (.nil hstart) ⟨hmalloc, rfl⟩) ⟨hinit _, rfl⟩) ⟨hrealloc _, rfl⟩⟩

/-- The real `realloc` gets a pointer that it has never handed out. -/
theorem safe_fails :
    ¬ ∀ tr s, (allocator smallBuffer).Run tr s → Safe smallBuffer tr := by
  intro hall
  obtain ⟨s, hrun⟩ := run_grown
  have hsafe := hall grown s hrun
  have hmem : grown.getLast (by decide) ∈ grown := List.getLast_mem _
  exact hsafe.realPtr _ hmem 0x404040 rfl (Or.inl (by decide))

/-- Of that sequence the requests fit, and the `realloc` is what is wrong. -/
theorem safe_iff_grown :
    ∃ s, (allocator smallBuffer).Run grown s ∧ ¬ Safe smallBuffer grown
      ∧ Fits 0 (bootRequests grown) := by
  obtain ⟨s, hrun⟩ := run_grown
  refine ⟨s, hrun, fun hsafe => ?_, by decide⟩
  have hout := ((safe_iff smallBuffer grown s hrun).mp hsafe).2 (grown.getLast (by decide))
    (List.getLast_mem _) 0x404040 200 0x900000 rfl
  exact absurd hout.1 (by decide)

/-- A request that is too large, and one whose product wraps: 16 bytes are reserved for it. -/
example : ¬ Fits 0 [81921] := by decide
example : ¬ Fits 0 (bootRequests (callAll heapAtStart [.calloc 0x100000000 0x100000000 0])) := by
  decide

end Tmet.Mysyscall
