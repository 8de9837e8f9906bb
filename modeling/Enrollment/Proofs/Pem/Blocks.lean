import Enrollment.Proofs.Codec.Base64Read
import Enrollment.Proofs.Pem.Marks
import Enrollment.Proofs.Text.Blank

/-! # The blocks of a text

What it is for a text to have whole blocks, told piece by piece: what stands before a block, its
tag, its headers and its data. Reading a text finds exactly its blocks, each with the bytes whose
base64 its data are when the blanks are left out.
-/

namespace Enrollment.Pem

/-- The search for a mark comes to one. -/
def Found (mark : String) (cs : List Char) : Prop :=
  ∃ before after, cs = before ++ mark.toList ++ after ∧ Missed mark.toList before

/-- The headers and the data of a payload. An empty line ends the headers: two line feeds, or else
two line ends with carriage returns. Without an empty line all is data. -/
inductive Parts : List Char → List Char → List Char → Prop where
  | feeds {headers data : List Char} (h : Missed "\n\n".toList headers) :
    Parts (headers ++ "\n\n".toList ++ data) headers data
  | returns {headers data : List Char}
    (hFeeds : ¬Found "\n\n" (headers ++ "\r\n\r\n".toList ++ data))
    (h : Missed "\r\n\r\n".toList headers) :
    Parts (headers ++ "\r\n\r\n".toList ++ data) headers data
  | plain {data : List Char} (hFeeds : ¬Found "\n\n" data) (hReturns : ¬Found "\r\n\r\n" data) :
    Parts data [] data

/-- All of them are blanks of the kind that may stand around the pieces of a block. -/
def AllBlank (cs : List Char) : Prop := ∀ c ∈ cs, isFramingBlank c = true

def Unindented (cs : List Char) : Prop := ∀ c ∈ cs.head?, isFramingBlank c = false

/-- A whole block at the front of a text, with the blanks after it, and what is left then. -/
inductive Stands : List Char → Frame → List Char → Prop where
  | intro {opening gap payload headers data closing trail rest : List Char}
    (hOpening : Missed "-----".toList opening) (hGap : AllBlank gap) (hStart : Unindented payload)
    (hPayload : Missed "-----END ".toList payload) (hParts : Parts payload headers data)
    (hClosing : Missed "-----".toList closing) (hTrail : AllBlank trail) (hRest : Unindented rest) :
    Stands ("-----BEGIN ".toList ++ opening ++ "-----".toList ++ gap ++ payload ++
      "-----END ".toList ++ closing ++ "-----".toList ++ trail ++ rest)
      ⟨opening, headers, data, closing⟩ rest

/-- A block says what its tag is, at both ends, and which bytes it holds. -/
structure Carries (frame : Frame) (pem : Pem) : Prop where
  opening_eq : frame.opening = pem.tag.toList
  closing_eq : frame.closing = pem.tag.toList
  tag_ne : pem.tag ≠ ""
  data_eq : frame.data.filter (!Text.isBlank ·) = (Base64.encode .standard pem.contents).toList
  headers : ∀ line ∈ lines frame.headers, ':' ∈ line.toList

/-- Whole blocks one after the other, each with the text that begins with it, and what is left after
the last of them. -/
inductive Reads : List Char → List (List Char × Pem) → List Char → Prop where
  | done (cs : List Char) : Reads cs [] cs
  | block {before start rest last : List Char} {frame : Frame} {pem : Pem}
    {found : List (List Char × Pem)} (hBefore : Missed "-----BEGIN ".toList before)
    (stands : Stands start frame rest) (carries : Carries frame pem) (h : Reads rest found last) :
    Reads (before ++ start) ((start, pem) :: found) last

def HasBlock (cs : List Char) : Prop :=
  ∃ before start frame rest, cs = before ++ start ∧ Missed "-----BEGIN ".toList before ∧
    Stands start frame rest

/-- The blocks of a text are whole, and there is no other whole block after them. -/
def Blocks (cs : List Char) (pems : List Pem) : Prop :=
  ∃ found last, Reads cs found last ∧ ¬HasBlock last ∧ pems = found.map Prod.snd

/-- The first whole block of a text. -/
inductive First : List Char → Frame → Prop where
  | intro {before start rest : List Char} {frame : Frame}
    (hBefore : Missed "-----BEGIN ".toList before) (stands : Stands start frame rest) :
    First (before ++ start) frame

variable {cs payload headers data rest : List Char} {frame : Frame} {pem : Pem} {pems : List Pem}
  {text : String}

theorem not_found_iff {mark : String} : ¬Found mark cs ↔ cutAt mark cs = none := by
  rw [Option.eq_none_iff_forall_ne_some]
  simp only [Found, not_exists, Prod.forall, ne_eq, cutAt_eq_some_iff]

theorem parts_iff : Parts payload headers data ↔ splitHeaders payload = (headers, data) := by
  unfold splitHeaders
  constructor
  · intro h
    cases h with
    | feeds h => simp only [cutAt_eq_some_iff.mpr ⟨rfl, h⟩]
    | returns hFeeds h =>
      rw [not_found_iff] at hFeeds
      simp only [hFeeds, cutAt_eq_some_iff.mpr ⟨rfl, h⟩]
    | plain hFeeds hReturns =>
      rw [not_found_iff] at hFeeds hReturns
      simp only [hFeeds, hReturns]
  · intro h
    split at h
    · next hFeeds =>
      obtain ⟨rfl, hMissed⟩ := cutAt_eq_some_iff.mp (h ▸ hFeeds)
      exact .feeds hMissed
    · next hFeeds =>
      have hFeeds : ¬Found "\n\n" payload := not_found_iff.mpr hFeeds
      split at h
      · next hReturns =>
        obtain ⟨rfl, hMissed⟩ := cutAt_eq_some_iff.mp (h ▸ hReturns)
        exact .returns hFeeds hMissed
      · next hReturns =>
        cases h
        exact .plain hFeeds (not_found_iff.mpr hReturns)

theorem dropWhile_eq_iff : cs.dropWhile isFramingBlank = rest ↔
    ∃ gap, cs = gap ++ rest ∧ AllBlank gap ∧ Unindented rest := by
  constructor
  · rintro rfl
    refine ⟨cs.takeWhile isFramingBlank, List.takeWhile_append_dropWhile.symm, ?_, ?_⟩
    · intro c hc
      exact List.mem_takeWhile_imp hc
    · intro c hc
      have hNot := List.head?_dropWhile_not isFramingBlank cs
      rwa [hc] at hNot
  · rintro ⟨gap, rfl, hGap, hRest⟩
    rw [List.dropWhile_append_of_pos hGap]
    cases rest with
    | nil => rfl
    | cons c rest => rw [List.dropWhile_cons_of_neg (by simp [hRest c rfl])]

theorem dropWhile_framing {gap rest : List Char} (hGap : AllBlank gap) (hRest : Unindented rest) :
    (gap ++ rest).dropWhile isFramingBlank = rest :=
  dropWhile_eq_iff.mpr ⟨gap, rfl, hGap, hRest⟩

theorem exists_gap (cs : List Char) : ∃ gap, cs = gap ++ cs.dropWhile isFramingBlank ∧
    AllBlank gap ∧ Unindented (cs.dropWhile isFramingBlank) :=
  dropWhile_eq_iff.mp rfl

theorem Unindented.append {mark : List Char} (h : Unindented cs) (hMark : mark.head? = some '-')
    (rest : List Char) : Unindented (cs ++ mark ++ rest) := by
  cases cs with
  | nil =>
    intro c hc
    rw [List.nil_append, List.head?_append, hMark] at hc
    cases hc
    rfl
  | cons c cs => exact h

theorem Unindented.of_append {mark : List Char} (h : Unindented (cs ++ mark)) : Unindented cs := by
  cases cs with
  | nil => exact nofun
  | cons c cs => exact h

theorem nextFrame_eq_some_iff : nextFrame cs = some (frame, rest) ↔
    ∃ before start, cs = before ++ start ∧ Missed "-----BEGIN ".toList before ∧
      Stands start frame rest := by
  simp only [nextFrame, Option.bind_eq_bind, Option.bind_eq_some_iff, Prod.exists, Option.pure_def,
    Option.some.injEq, Prod.mk.injEq, cutAt_eq_some_iff]
  constructor
  · rintro ⟨before, cs₁, ⟨rfl, hBefore⟩, opening, cs₂, ⟨rfl, hOpening⟩, payload, cs₃,
      ⟨hText, hPayload⟩, closing, cs₄, ⟨rfl, hClosing⟩, rfl, hEnd⟩
    obtain ⟨gap, rfl, hGap, hStart⟩ := dropWhile_eq_iff.mp hText
    obtain ⟨trail, rfl, hTrail, hRest⟩ := dropWhile_eq_iff.mp hEnd
    have hStands := Stands.intro hOpening hGap hStart.of_append.of_append hPayload
      (parts_iff.mpr rfl) hClosing hTrail hRest
    refine ⟨before, _, ?_, hBefore, hStands⟩
    simp only [List.append_assoc]
  · rintro ⟨before, start, rfl, hBefore, hStands⟩
    cases hStands with
    | @intro opening gap payload headers data closing trail rest hOpening hGap hStart hPayload
        hParts hClosing hTrail hRest =>
      have hPieces : Unindented (payload ++ "-----END ".toList ++
          (closing ++ "-----".toList ++ (trail ++ rest))) :=
        hStart.append rfl _
      refine ⟨before, opening ++ "-----".toList ++ (gap ++ (payload ++ "-----END ".toList ++
        (closing ++ "-----".toList ++ (trail ++ rest)))),
        ⟨by simp only [List.append_assoc], hBefore⟩, opening, _, ⟨rfl, hOpening⟩, payload, _,
        ⟨dropWhile_framing hGap hPieces, hPayload⟩,
        closing, _, ⟨rfl, hClosing⟩, ?_, dropWhile_framing hTrail hRest⟩
      rw [parts_iff.mp hParts]

theorem base64_eq_ok_iff {contents : Bytes} :
    Base64.decode .standard (data.flatMap Utf8.encodeChar) = .ok contents ↔
      data = (Base64.encode .standard contents).toList := by
  have hBytes : data.flatMap Utf8.encodeChar = Utf8.encode (String.ofList data) := by
    rw [Utf8.encode, String.toList_ofList]
  rw [hBytes, Base64.decode_utf8_eq_ok_iff, ← String.toList_inj, String.toList_ofList]

theorem headers_iff : (lines headers).find? (fun line => !line.toList.contains ':') = none ↔
    ∀ line ∈ lines headers, ':' ∈ line.toList := by
  simp only [List.find?_eq_none, Bool.not_eq_true', Bool.not_eq_false, List.contains_iff_mem]

theorem decode_eq_ok_iff : decode frame = .ok pem ↔ Carries frame pem := by
  unfold decode
  simp only [bind, Except.bind, pure, Except.pure, throw, throwThe, MonadExceptOf.throw]
  constructor
  · intro h
    repeat' split at h
    all_goals cases h
    next hOpening _ hEqual _ contents hData _ hHeaders =>
      constructor
      · rw [String.toList_ofList]
      · rw [String.toList_ofList, Decidable.not_not.mp hEqual]
      · intro hTag
        rw [← String.toList_inj, String.toList_ofList] at hTag
        exact hOpening hTag
      · exact base64_eq_ok_iff.mp hData
      · exact headers_iff.mp hHeaders
  · intro h
    have hTag : frame.opening ≠ [] := by
      rw [h.opening_eq]
      exact mt String.toList_eq_nil_iff.mp h.tag_ne
    have hEqual : frame.opening = frame.closing := h.opening_eq.trans h.closing_eq.symm
    rw [if_neg hTag, if_neg (hEqual ▸ hTag), if_neg (not_not_intro hEqual)]
    simp only [base64_eq_ok_iff.mpr h.data_eq, headers_iff.mpr h.headers, h.opening_eq,
      String.ofList_toList]

theorem not_hasBlock_iff : ¬HasBlock cs ↔ nextFrame cs = none := by
  rw [Option.eq_none_iff_forall_ne_some]
  simp only [HasBlock, Prod.forall, ne_eq, nextFrame_eq_some_iff]
  constructor
  · rintro h frame rest ⟨before, start, hStands⟩
    exact h ⟨before, start, frame, rest, hStands⟩
  · rintro h ⟨before, start, frame, rest, hStands⟩
    exact h frame rest ⟨before, start, hStands⟩

theorem first_iff : First cs frame ↔ ∃ rest, nextFrame cs = some (frame, rest) := by
  simp only [nextFrame_eq_some_iff]
  constructor
  · rintro ⟨hBefore, stands⟩
    exact ⟨_, _, _, rfl, hBefore, stands⟩
  · rintro ⟨rest, before, start, rfl, hBefore, stands⟩
    exact .intro hBefore stands

/-- No line before the first block begins like a block. -/
theorem First.earliest (h : First cs frame) : ∃ before start rest, cs = before ++ start ∧
    Stands start frame rest ∧ ∀ front back, cs = front ++ back → EndsLine front →
      "-----BEGIN ".toList <+: back → before.length ≤ front.length := by
  obtain @⟨before, start, rest, frame, hBefore, stands⟩ := h
  refine ⟨before, start, rest, rfl, stands, ?_⟩
  intro front back hText hLine hMark
  exact hBefore.length_le (by decide) hText hLine hMark

theorem First.parse_eq (h : First text.toList frame) : parse text = decode frame := by
  obtain ⟨rest, hNext⟩ := first_iff.mp h
  rw [parse, hNext]

/-- A text is read as one block exactly if its first whole block is sound, and as that. -/
theorem parse_eq_ok_iff :
    parse text = .ok pem ↔ ∃ frame, First text.toList frame ∧ Carries frame pem := by
  constructor
  · intro h
    unfold parse at h
    split at h
    · cases h
    · next frame rest hNext => exact ⟨frame, first_iff.mpr ⟨rest, hNext⟩, decode_eq_ok_iff.mp h⟩
  · rintro ⟨frame, hFirst, carries⟩
    rw [hFirst.parse_eq, decode_eq_ok_iff.mpr carries]

theorem parseAllFrom_of_none (h : nextFrame cs = none) : parseAllFrom cs = .ok [] := by
  rw [parseAllFrom]
  split
  · rfl
  · next hFound => cases h.symm.trans hFound

theorem parseAllFrom_of_some (h : nextFrame cs = some (frame, rest)) :
    parseAllFrom cs = (decode frame).bind fun pem => (parseAllFrom rest).map (pem :: ·) := by
  rw [parseAllFrom]
  split
  · next hNone => cases hNone.symm.trans h
  · next hFound =>
    cases hFound.symm.trans h
    cases decode frame with
    | error e => rfl
    | ok pem => cases parseAllFrom rest <;> rfl

theorem parseAllFrom_of_reads {found : List (List Char × Pem)} {last : List Char}
    (h : Reads cs found last) (hLast : ¬HasBlock last) :
    parseAllFrom cs = .ok (found.map Prod.snd) := by
  induction h with
  | done cs => exact parseAllFrom_of_none (not_hasBlock_iff.mp hLast)
  | block hBefore stands carries h ih =>
    rw [parseAllFrom_of_some (nextFrame_eq_some_iff.mpr ⟨_, _, rfl, hBefore, stands⟩),
      decode_eq_ok_iff.mpr carries, ih hLast]
    rfl

theorem blocks_of_parseAllFrom (h : parseAllFrom cs = .ok pems) : Blocks cs pems := by
  fun_induction parseAllFrom cs generalizing pems with
  | case1 cs hNone =>
    cases h
    exact ⟨[], cs, .done cs, not_hasBlock_iff.mpr hNone, rfl⟩
  | case2 cs frame rest hFound ih =>
    cases hPem : decode frame with
    | error e =>
      rw [hPem] at h
      cases h
    | ok pem =>
      cases hRest : parseAllFrom rest with
      | error e =>
        rw [hPem, hRest] at h
        cases h
      | ok others =>
        rw [hPem, hRest] at h
        cases h
        obtain ⟨before, start, rfl, hBefore, stands⟩ := nextFrame_eq_some_iff.mp hFound
        obtain ⟨found, last, reads, hLast, rfl⟩ := ih hRest
        exact ⟨(start, pem) :: found, last,
          .block hBefore stands (decode_eq_ok_iff.mp hPem) reads, hLast, rfl⟩

/-- A text is read without fault exactly if all its whole blocks are sound, and as those. -/
theorem parseAllFrom_eq_ok_iff : parseAllFrom cs = .ok pems ↔ Blocks cs pems := by
  constructor
  · exact blocks_of_parseAllFrom
  · rintro ⟨found, last, reads, hLast, rfl⟩
    exact parseAllFrom_of_reads reads hLast

theorem Blocks.unique {other : List Pem} (h : Blocks cs pems) (hOther : Blocks cs other) :
    pems = other := by
  rw [← parseAllFrom_eq_ok_iff] at h hOther
  exact Except.ok.inj (h.symm.trans hOther)

end Enrollment.Pem
