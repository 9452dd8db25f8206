import Mathlib

/-!
# `Tmet.Lib.Framing`: length-prefixed frames

A `Framing` says how long a header is and which body length a header announces.
`readFrame` takes one frame off a string. `Frames w bodies` holds when `w` is a
sequence of complete frames with these bodies and nothing behind them, and
`parse` computes it (`parse_eq_some_iff`).

The library's main rule is `frames_append_iff`. Behind a string of complete
frames, a continuation is framed exactly when it is a string of complete frames
by itself. `Carries` adds what the bodies amount to, and `carries_append_iff` is
the same rule for it: a stream stays decodable as long as every piece that is put
behind it is decodable, and the first piece that is not breaks it.
`carries_short_iff` says what such a piece can be when it has at most one header.
-/

set_option autoImplicit false

namespace Tmet.Lib

/-- A framing: the length of a header, and the length of the body it announces
(`none` where the header is refused). A header is not empty, otherwise the empty
string could be any number of frames. -/
structure Framing (β : Type*) where
  headerLen : ℕ
  headerLen_pos : 0 < headerLen
  size : List β → Option ℕ

namespace Framing

variable {β : Type*} (F : Framing β)

/-- `F.Frames w bodies`: `w` is a sequence of complete frames, and `bodies` are
their bodies. -/
inductive Frames : List β → List (List β) → Prop
  | nil : Frames [] []
  | cons {header body rest : List β} {bodies : List (List β)} :
      header.length = F.headerLen → F.size header = some body.length → Frames rest bodies →
      Frames (header ++ (body ++ rest)) (body :: bodies)

/-- Take one frame off: its body, and what is behind it. -/
def readFrame (w : List β) : Option (List β × List β) :=
  if w.length < F.headerLen then none
  else
    match F.size (w.take F.headerLen) with
    | none => none
    | some n =>
        let behind := w.drop F.headerLen
        if behind.length < n then none else some (behind.take n, behind.drop n)

/-- Read a string of at most `fuel` frames. -/
def parseN : ℕ → List β → Option (List (List β))
  | _, [] => some []
  | 0, _ :: _ => none
  | fuel + 1, b :: bs =>
      match F.readFrame (b :: bs) with
      | none => none
      | some (body, rest) => (parseN fuel rest).map (body :: ·)

/-- Read a string as a sequence of complete frames. -/
def parse (w : List β) : Option (List (List β)) := F.parseN w.length w

variable {F}

theorem readFrame_append {header body rest : List β} (hlen : header.length = F.headerLen)
    (hsize : F.size header = some body.length) :
    F.readFrame (header ++ (body ++ rest)) = some (body, rest) := by
  have htake : (header ++ (body ++ rest)).take F.headerLen = header := by
    rw [← hlen, List.take_left]
  have hdrop : (header ++ (body ++ rest)).drop F.headerLen = body ++ rest := by
    rw [← hlen, List.drop_left]
  have hlong : ¬ (header ++ (body ++ rest)).length < F.headerLen := by
    rw [List.length_append]
    omega
  rw [readFrame, if_neg hlong, htake, hsize, hdrop]
  simp

/-- A frame that was read is the one in front. -/
theorem eq_append_of_readFrame {w body rest : List β} (h : F.readFrame w = some (body, rest)) :
    ∃ header, header.length = F.headerLen ∧ F.size header = some body.length
      ∧ w = header ++ (body ++ rest) := by
  rw [readFrame] at h
  split at h
  · cases h
  · rename_i hlong
    split at h
    · cases h
    · rename_i n hsize
      dsimp only at h
      split at h
      · cases h
      · rename_i hn
        cases h
        -- the header is what `F` was asked about, the body what it has said
        refine ⟨w.take F.headerLen, ?_, ?_, ?_⟩
        · rw [List.length_take]
          omega
        · rw [hsize, List.length_take]
          congr 1
          omega
        · rw [List.take_append_drop, List.take_append_drop]

/-- What a frame in front contributes to the parse. -/
theorem parseN_append {fuel : ℕ} {header body rest : List β} (hlen : header.length = F.headerLen)
    (hsize : F.size header = some body.length) :
    F.parseN (fuel + 1) (header ++ (body ++ rest)) = (F.parseN fuel rest).map (body :: ·) := by
  have hpos := F.headerLen_pos
  have hread : F.readFrame (header ++ (body ++ rest)) = some (body, rest) :=
    readFrame_append hlen hsize
  cases hw : header ++ (body ++ rest) with
  | nil =>
      have := congrArg List.length hw
      rw [List.length_append, List.length_nil] at this
      omega
  | cons b bs => rw [parseN, ← hw, hread]

theorem Frames.parseN {w : List β} {bodies : List (List β)} (h : F.Frames w bodies) :
    ∀ fuel, w.length ≤ fuel → F.parseN fuel w = some bodies := by
  induction h with
  | nil =>
      intro fuel _
      cases fuel <;> rfl
  | @cons header body rest bodies hlen hsize _ ih =>
      intro fuel hfuel
      have hpos := F.headerLen_pos
      simp only [List.length_append] at hfuel
      cases fuel with
      | zero => omega
      | succ fuel => rw [parseN_append hlen hsize, ih fuel (by omega), Option.map_some]

theorem frames_of_parseN {fuel : ℕ} :
    ∀ {w : List β} {bodies : List (List β)}, F.parseN fuel w = some bodies → F.Frames w bodies := by
  induction fuel with
  | zero =>
      intro w bodies h
      cases w with
      | nil => cases h; exact .nil
      | cons b bs => cases h
  | succ fuel ih =>
      intro w bodies h
      cases w with
      | nil => cases h; exact .nil
      | cons b bs =>
          rw [Framing.parseN] at h
          split at h
          · cases h
          · rename_i body rest hread
            obtain ⟨more, hmore, rfl⟩ := Option.map_eq_some_iff.mp h
            obtain ⟨header, hlen, hsize, hw⟩ := eq_append_of_readFrame hread
            rw [hw]
            exact .cons hlen hsize (ih hmore)

/-- The parser decides `Frames`. -/
theorem parse_eq_some_iff {w : List β} {bodies : List (List β)} :
    F.parse w = some bodies ↔ F.Frames w bodies :=
  ⟨frames_of_parseN, fun h => h.parseN _ le_rfl⟩

theorem Frames.append {w x : List β} {bodies more : List (List β)} (hw : F.Frames w bodies)
    (hx : F.Frames x more) : F.Frames (w ++ x) (bodies ++ more) := by
  induction hw with
  | nil => exact hx
  | cons hlen hsize _ ih =>
      rw [List.append_assoc, List.append_assoc]
      exact .cons hlen hsize ih

/-- The frame in front of a framed string is its first frame. -/
theorem frames_cons_iff {header body rest : List β} {all : List (List β)}
    (hlen : header.length = F.headerLen) (hsize : F.size header = some body.length) :
    F.Frames (header ++ (body ++ rest)) all ↔ ∃ more, all = body :: more ∧ F.Frames rest more := by
  constructor
  · intro h
    have hparse := h.parseN ((header ++ (body ++ rest)).length + 1) (Nat.le_succ _)
    rw [parseN_append hlen hsize] at hparse
    obtain ⟨more, hmore, rfl⟩ := Option.map_eq_some_iff.mp hparse
    exact ⟨more, rfl, frames_of_parseN hmore⟩
  · rintro ⟨more, rfl, hmore⟩
    exact .cons hlen hsize hmore

/-- Behind complete frames, a continuation is framed exactly when it is framed by
itself. -/
theorem frames_append_iff {w : List β} {bodies : List (List β)} (hw : F.Frames w bodies)
    {x : List β} {all : List (List β)} :
    F.Frames (w ++ x) all ↔ ∃ more, all = bodies ++ more ∧ F.Frames x more := by
  induction hw generalizing all with
  | nil => simp
  | cons hlen hsize _ ih =>
      rw [List.append_assoc, List.append_assoc, frames_cons_iff hlen hsize]
      constructor
      · rintro ⟨tail, rfl, htail⟩
        obtain ⟨more, rfl, hmore⟩ := ih.mp htail
        exact ⟨more, rfl, hmore⟩
      · rintro ⟨more, rfl, hmore⟩
        exact ⟨_, rfl, ih.mpr ⟨more, rfl, hmore⟩⟩

theorem Frames.first {w body : List β} {bodies : List (List β)} (h : F.Frames w (body :: bodies)) :
    ∃ header rest, w = header ++ (body ++ rest) ∧ header.length = F.headerLen
      ∧ F.size header = some body.length ∧ F.Frames rest bodies := by
  cases h with
  | @cons header _ rest _ hlen hsize hrest => exact ⟨header, rest, rfl, hlen, hsize, hrest⟩

/-- Every byte is a header's or a body's. -/
theorem Frames.length_eq {w : List β} {bodies : List (List β)} (h : F.Frames w bodies) :
    w.length = F.headerLen * bodies.length + bodies.flatten.length := by
  induction h with
  | nil => simp
  | cons hlen _ _ ih =>
      simp only [List.length_append, List.length_cons, List.flatten_cons, ih, hlen, Nat.mul_succ]
      omega

/-- `w` is a sequence of complete frames, and `content` is what their bodies add up
to. -/
def Carries (F : Framing β) (w content : List β) : Prop :=
  ∃ bodies, F.Frames w bodies ∧ bodies.flatten = content

theorem carries_iff_parse {w content : List β} :
    F.Carries w content ↔ (F.parse w).map List.flatten = some content := by
  rw [Option.map_eq_some_iff]
  exact exists_congr fun bodies => and_congr_left' parse_eq_some_iff.symm

instance [DecidableEq β] (w content : List β) : Decidable (F.Carries w content) :=
  decidable_of_iff _ carries_iff_parse.symm

/-- Behind a decodable string, a continuation adds `p` to the content exactly when
it carries `p` by itself. -/
theorem carries_append_iff {w content : List β} (hw : F.Carries w content) {x p : List β} :
    F.Carries (w ++ x) (content ++ p) ↔ F.Carries x p := by
  obtain ⟨bodies, hbodies, rfl⟩ := hw
  constructor
  · rintro ⟨all, hall, hflat⟩
    obtain ⟨more, rfl, hmore⟩ := (frames_append_iff hbodies).mp hall
    rw [List.flatten_append] at hflat
    exact ⟨more, hmore, List.append_cancel_left hflat⟩
  · rintro ⟨more, hmore, rfl⟩
    exact ⟨bodies ++ more, hbodies.append hmore, List.flatten_append⟩

/-- The frames of the first part of a framed string come first. -/
theorem Frames.first_le {w t : List β} {bodies first : List (List β)}
    (hw : F.Frames w bodies) (ht : F.Frames t first) (hpre : t <+: w) : first <+: bodies := by
  obtain ⟨x, rfl⟩ := hpre
  obtain ⟨more, rfl, -⟩ := (frames_append_iff ht).mp hw
  exact List.prefix_append first more

/-- So does what they carry. -/
theorem Carries.first_le {w t content first : List β} (hw : F.Carries w content)
    (ht : F.Carries t first) (hpre : t <+: w) : first <+: content := by
  obtain ⟨bodies, hbodies, rfl⟩ := hw
  obtain ⟨some, hsome, rfl⟩ := ht
  obtain ⟨more, rfl⟩ := hbodies.first_le hsome hpre
  rw [List.flatten_append]
  exact List.prefix_append _ _

/-- A piece of at most a header's length of bytes `h` and a content `p`, framed
with `p` as its content: it is empty, or it is one frame. -/
theorem carries_short_iff {h p : List β} (hh : h.length ≤ F.headerLen) :
    F.Carries (h ++ p) p
      ↔ h = [] ∧ p = [] ∨ h.length = F.headerLen ∧ F.size h = some p.length := by
  have hpos := F.headerLen_pos
  constructor
  · rintro ⟨bodies, hf, hp⟩
    have hlen := hf.length_eq
    rw [List.length_append, hp] at hlen
    -- the bytes that are not content count the frames, so there is at most one
    have hcount : h.length = F.headerLen * bodies.length := by omega
    rcases bodies with _ | ⟨body, bodies⟩
    · left
      rw [List.length_nil, Nat.mul_zero, List.length_eq_zero_iff] at hcount
      exact ⟨hcount, hp.symm⟩
    · right
      rw [List.length_cons, Nat.mul_succ] at hcount
      have hnil : bodies = [] := by
        by_contra hne
        have := Nat.mul_le_mul_left F.headerLen (List.length_pos_of_ne_nil hne)
        omega
      have hbody : body = p := by simpa [hnil] using hp
      subst hbody
      obtain ⟨header, rest, hw, hheader, hsize, -⟩ := hf.first
      have heq : h = header :=
        List.append_inj_left hw (by rw [hheader, hcount, hnil, List.length_nil]; omega)
      exact ⟨heq ▸ hheader, heq ▸ hsize⟩
  · rintro (⟨rfl, rfl⟩ | ⟨hlen, hsize⟩)
    · exact ⟨[], .nil, rfl⟩
    · have hframe : F.Frames (h ++ (p ++ [])) [p] := .cons hlen hsize .nil
      rw [List.append_nil] at hframe
      exact ⟨[p], hframe, by simp⟩

end Framing

end Tmet.Lib
