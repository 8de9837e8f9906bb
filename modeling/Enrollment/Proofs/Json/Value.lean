import Enrollment.Proofs.Json.Number
import Enrollment.Proofs.Json.Quoted

/-! # Values there and back

A value that holds no fractions and is not nested too deep is read from its own print, with the
members of its objects in order.
-/

namespace Enrollment.Json

open Utf8 (encodeChar)

namespace Value

/-- What the scanner makes of a printed value. -/
def tokens : Value → List Token
  | .null => [.null]
  | .bool b => [.bool b]
  | .number (.int n) => [.number (.ofInt n)]
  | .number (.real _) => []
  | .text s => [.text (.of s)]
  | .list items => .openList :: itemTokens items ++ [.closeList]
  | .object members => .openObject :: memberTokens members ++ [.closeObject]
where
  itemTokens : List Value → List Token
    | [] => []
    | [item] => tokens item
    | item :: items => tokens item ++ .comma :: itemTokens items
  memberTokens : List (String × Value) → List Token
    | [] => []
    | [(name, value)] => .text (.of name) :: .colon :: tokens value
    | (name, value) :: members =>
      .text (.of name) :: .colon :: tokens value ++ .comma :: memberTokens members

def outline : Value → Outline
  | .null => .null
  | .bool b => .bool b
  | .number (.int n) => .number (.ofInt n)
  | .number (.real _) => .null
  | .text s => .text (.of s)
  | .list items => .list (itemOutlines items) .closed
  | .object members => .object (memberOutlines members) .closed
where
  itemOutlines : List Value → List Outline
    | [] => []
    | item :: items => outline item :: itemOutlines items
  memberOutlines : List (String × Value) → List (Quoted × Outline)
    | [] => []
    | (name, value) :: members => (.of name, outline value) :: memberOutlines members

/-- A value with the members of its objects in order, each name once. -/
def ordered : Value → Value
  | .null => .null
  | .bool b => .bool b
  | .number n => .number n
  | .text s => .text s
  | .list items => .list (orderedItems items)
  | .object members => .ofMembers (orderedMembers members)
where
  orderedItems : List Value → List Value
    | [] => []
    | item :: items => ordered item :: orderedItems items
  orderedMembers : List (String × Value) → List (String × Value)
    | [] => []
    | (name, value) :: members => (name, ordered value) :: orderedMembers members

/-- Whether a value can be read at some depth: its numbers are integers of sixty-four bits, and it
is nested less than the depth. -/
def Fits : Nat → Value → Prop
  | _, .null | _, .bool _ | _, .text _ => True
  | _, .number (.int n) => IsWord n
  | _, .number (.real _) => False
  | depth, .list items => 1 < depth ∧ FitItems (depth - 1) items
  | depth, .object members => 1 < depth ∧ FitMembers (depth - 1) members
where
  FitItems : Nat → List Value → Prop
    | _, [] => True
    | depth, item :: items => Fits depth item ∧ FitItems depth items
  FitMembers : Nat → List (String × Value) → Prop
    | _, [] => True
    | depth, (_, value) :: members => Fits depth value ∧ FitMembers depth members

end Value

theorem tokens_of_scan {b : UInt8} {rest after : Bytes} {t : Token} (hSpace : isSpace b = false)
    (h : scanToken b rest = (t, after)) : tokens (b :: rest) = t :: tokens after := by
  rw [tokens, hSpace, h]
  rfl

theorem scanToken_quote (rest : Bytes) :
    scanToken 0x22 rest = (.text (scanQuoted rest).1, (scanQuoted rest).2) := rfl

theorem tokens_textChars (s : String) (rest : Bytes) :
    tokens ((Value.textChars s).flatMap encodeChar ++ rest) = .text (.of s) :: tokens rest := by
  have hBytes : (Value.textChars s).flatMap encodeChar ++ rest =
      0x22 :: ((s.toList.flatMap Value.escapedChar).flatMap encodeChar ++ 0x22 :: rest) := by
    have hQuote : encodeChar '"' = [0x22] := rfl
    simp [Value.textChars, hQuote]
  rw [hBytes]
  refine tokens_of_scan rfl ?_
  rw [scanToken_quote, scanQuoted_textChars]

theorem endsNumber_of_not {b : UInt8} (rest : Bytes)
    (h : digit? b = none ∧ b ≠ 0x2E ∧ b ≠ 0x65 ∧ b ≠ 0x45) : EndsNumber (b :: rest) := by
  rintro _ ⟨⟩
  exact h

theorem scanToken_digit {b : UInt8} {d : Nat} (h : digit? b = some d) (rest : Bytes) :
    scanToken b rest = scanNumber false (b :: rest) := by
  have hBounds : 0x30 ≤ b.toNat ∧ b.toNat ≤ 0x39 := by
    unfold digit? at h
    split at h
    · next hBounds => simpa [UInt8.le_iff_toNat_le] using hBounds
    · cases h
  have hNe (c : UInt8) (hc : c.toNat < 0x30 ∨ 0x39 < c.toNat) : b ≠ c := by
    rintro rfl
    omega
  rw [scanToken, if_neg (hNe _ (by decide)), if_neg (hNe _ (by decide)), if_neg (hNe _ (by decide)),
    if_neg (hNe _ (by decide)), if_neg (hNe _ (by decide)), if_neg (hNe _ (by decide)),
    if_neg (hNe _ (by decide)), if_neg (hNe _ (by decide)), h]
  rfl

theorem isSpace_digit {b : UInt8} {d : Nat} (h : digit? b = some d) : isSpace b = false := by
  unfold isSpace
  rw [Bool.or_eq_false_iff, Bool.or_eq_false_iff, Bool.or_eq_false_iff]
  refine ⟨⟨⟨?_, ?_⟩, ?_⟩, ?_⟩
  all_goals
    rw [decide_eq_false_iff_not]
    rintro rfl
    cases h

theorem tokens_int (n : Int) {rest : Bytes} (hRest : EndsNumber rest) :
    tokens ((Number.int n).text.flatMap encodeChar ++ rest) =
      .number (.ofInt n) :: tokens rest := by
  rw [Number.text]
  rcases Int.lt_or_le n 0 with hNeg | hNonneg
  · have hMinus : encodeChar '-' = [0x2D] := rfl
    rw [intChars_of_neg hNeg, List.flatMap_cons, hMinus, Numeral.ofInt, decide_eq_true hNeg]
    refine tokens_of_scan rfl ?_
    exact scanNumber_decimals true _ hRest
  · rw [intChars_of_nonneg hNonneg, Numeral.ofInt, decide_eq_false (Int.not_lt.mpr hNonneg)]
    have hScan := scanNumber_decimals false n.natAbs hRest
    cases hDigits : Nat.toDigits 10 n.natAbs with
    | nil => exact absurd hDigits Nat.toDigits_ne_nil
    | cons c cs =>
      have hDigit : c.isDigit = true := Nat.isDigit_of_mem_toDigits (n := n.natAbs) (b := 10)
        (by decide) (by decide) (by rw [hDigits]; exact List.mem_cons_self)
      obtain ⟨b, hByte, -, hb⟩ := digit_byte hDigit
      rw [hDigits, List.flatMap_cons, hByte] at hScan
      rw [List.flatMap_cons, hByte]
      exact tokens_of_scan (isSpace_digit hb) ((scanToken_digit hb _).trans hScan)

namespace Value

theorem tokens_colon (cs : List Char) (rest : Bytes) :
    Json.tokens ((':' :: cs).flatMap encodeChar ++ rest) =
      .colon :: Json.tokens (cs.flatMap encodeChar ++ rest) := tokens_of_scan rfl rfl

theorem tokens_comma (cs : List Char) (rest : Bytes) :
    Json.tokens ((',' :: cs).flatMap encodeChar ++ rest) =
      .comma :: Json.tokens (cs.flatMap encodeChar ++ rest) := tokens_of_scan rfl rfl

theorem endsNumber_comma (cs : List Char) (rest : Bytes) :
    EndsNumber ((',' :: cs).flatMap encodeChar ++ rest) :=
  endsNumber_of_not (b := 0x2C) _ (by decide)

mutual

theorem tokens_chars {depth : Nat} (v : Value) (fits : v.Fits depth) {rest : Bytes}
    (hRest : EndsNumber rest) :
    Json.tokens (v.chars.flatMap encodeChar ++ rest) = v.tokens ++ Json.tokens rest := by
  match v, fits with
  | .null, _ => exact tokens_of_scan rfl rfl
  | .bool true, _ => exact tokens_of_scan rfl rfl
  | .bool false, _ => exact tokens_of_scan rfl rfl
  | .number (.int n), _ => exact tokens_int n hRest
  | .text s, _ => exact tokens_textChars s rest
  | .list items, fits =>
    have hEnds : EndsNumber (0x5D :: rest) := endsNumber_of_not _ (by decide)
    have hItems := tokens_itemChars items fits.2 hEnds
    have hClose : Json.tokens (0x5D :: rest) = .closeList :: Json.tokens rest :=
      tokens_of_scan rfl rfl
    have hBytes : (Value.list items).chars.flatMap encodeChar ++ rest =
        0x5B :: ((chars.itemChars items).flatMap encodeChar ++ 0x5D :: rest) := by
      rw [chars, List.flatMap_append, List.append_assoc]
      rfl
    rw [hBytes, tokens_of_scan (t := .openList) rfl rfl, hItems, hClose]
    simp [tokens]
  | .object members, fits =>
    have hEnds : EndsNumber (0x7D :: rest) := endsNumber_of_not _ (by decide)
    have hMembers := tokens_memberChars members fits.2 hEnds
    have hClose : Json.tokens (0x7D :: rest) = .closeObject :: Json.tokens rest :=
      tokens_of_scan rfl rfl
    have hBytes : (Value.object members).chars.flatMap encodeChar ++ rest =
        0x7B :: ((chars.memberChars members).flatMap encodeChar ++ 0x7D :: rest) := by
      rw [chars, List.flatMap_append, List.append_assoc]
      rfl
    rw [hBytes, tokens_of_scan (t := .openObject) rfl rfl, hMembers, hClose]
    simp [tokens]

theorem tokens_itemChars {depth : Nat} (items : List Value) (fits : Fits.FitItems depth items)
    {rest : Bytes} (hRest : EndsNumber rest) :
    Json.tokens ((chars.itemChars items).flatMap encodeChar ++ rest) =
      tokens.itemTokens items ++ Json.tokens rest := by
  match items, fits with
  | [], _ => rfl
  | [item], fits => exact tokens_chars item fits.1 hRest
  | item :: other :: items, fits =>
    have hItem := tokens_chars item fits.1
      (endsNumber_comma (chars.itemChars (other :: items)) rest)
    have hItems := tokens_itemChars (other :: items) fits.2 hRest
    rw [chars.itemChars, List.flatMap_append, List.append_assoc, hItem, tokens_comma, hItems]
    · simp [tokens.itemTokens]
    · nofun

theorem tokens_memberChars {depth : Nat} (members : List (String × Value))
    (fits : Fits.FitMembers depth members) {rest : Bytes} (hRest : EndsNumber rest) :
    Json.tokens ((chars.memberChars members).flatMap encodeChar ++ rest) =
      tokens.memberTokens members ++ Json.tokens rest := by
  match members, fits with
  | [], _ => rfl
  | [(name, value)], fits =>
    have hValue := tokens_chars value fits.1 hRest
    rw [chars.memberChars, List.flatMap_append, List.append_assoc, tokens_textChars, tokens_colon,
      hValue]
    rfl
  | (name, value) :: other :: members, fits =>
    have hValue := tokens_chars value fits.1
      (endsNumber_comma (chars.memberChars (other :: members)) rest)
    have hMembers := tokens_memberChars (other :: members) fits.2 hRest
    rw [chars.memberChars, List.append_assoc, List.flatMap_append, List.append_assoc,
      tokens_textChars, List.cons_append, tokens_colon, List.flatMap_append, List.append_assoc,
      hValue, tokens_comma, hMembers]
    · simp [tokens.memberTokens]
    · nofun

end

open Outline (step State Frame)

/-- No value begins with the end of a list, so the first item of a list is read like any other. -/
theorem step_firstItem {depth : Nat} (v : Value) (fits : v.Fits depth) (frames : List Frame)
    (rest : List Token) :
    (v.tokens ++ rest).foldl step (.firstItem frames) =
      (v.tokens ++ rest).foldl step (.value (.item [] :: frames)) := by
  cases v with
  | number n =>
    cases n with
    | int n => rfl
    | real bits => exact fits.elim
  | null | bool | text | list | object => rfl

theorem step_firstKey {members : List (String × Value)} (hNe : members ≠ [])
    (frames : List Frame) (rest : List Token) :
    (tokens.memberTokens members ++ rest).foldl step (.firstKey frames) =
      (tokens.memberTokens members ++ rest).foldl step (.key [] frames) := by
  match members with
  | [] => exact absurd rfl hNe
  | [(name, value)] => rfl
  | (name, value) :: other :: members => rfl

theorem step_firstItems {depth : Nat} {items : List Value} (hNe : items ≠ [])
    (fits : Fits.FitItems depth items) (frames : List Frame) (rest : List Token) :
    (tokens.itemTokens items ++ rest).foldl step (.firstItem frames) =
      (tokens.itemTokens items ++ rest).foldl step (.value (.item [] :: frames)) := by
  match items, fits with
  | [], _ => exact absurd rfl hNe
  | [item], fits => exact step_firstItem item fits.1 frames rest
  | item :: other :: items, fits =>
    rw [tokens.itemTokens, List.append_assoc]
    · exact step_firstItem item fits.1 frames _
    · nofun

mutual

theorem foldl_tokens {depth : Nat} (v : Value) (fits : v.Fits depth) (frames : List Frame) :
    v.tokens.foldl step (.value frames) = .after v.outline frames := by
  match v, fits with
  | .null, _ | .bool _, _ | .number (.int _), _ | .text _, _ => rfl
  | .list items, fits =>
    by_cases hNil : items = []
    · subst hNil
      rfl
    · have hItems := foldl_itemTokens items hNil fits.2 [] frames
      rw [← step_firstItems hNil fits.2] at hItems
      exact hItems
  | .object members, fits =>
    by_cases hNil : members = []
    · subst hNil
      rfl
    · have hMembers := foldl_memberTokens members hNil fits.2 [] frames
      rw [← step_firstKey hNil] at hMembers
      exact hMembers

theorem foldl_itemTokens {depth : Nat} (items : List Value) (hNe : items ≠ [])
    (fits : Fits.FitItems depth items) (before : List Outline) (frames : List Frame) :
    (tokens.itemTokens items ++ [Token.closeList]).foldl step (.value (.item before :: frames)) =
      .after (.list (before.reverse ++ outline.itemOutlines items) .closed) frames := by
  match items, fits with
  | [], _ => exact absurd rfl hNe
  | [item], fits =>
    have hItem := foldl_tokens item fits.1 (.item before :: frames)
    rw [tokens.itemTokens, List.foldl_append, hItem]
    simp [step, Outline.afterStep, outline.itemOutlines]
  | item :: other :: items, fits =>
    have hItem := foldl_tokens item fits.1 (.item before :: frames)
    have hItems := foldl_itemTokens (other :: items) (List.cons_ne_nil _ _) fits.2
      (item.outline :: before) frames
    rw [List.reverse_cons, List.append_assoc] at hItems
    rw [tokens.itemTokens, List.append_assoc, List.foldl_append, hItem]
    · exact hItems
    · nofun

theorem foldl_memberTokens {depth : Nat} (members : List (String × Value)) (hNe : members ≠ [])
    (fits : Fits.FitMembers depth members) (before : List (Quoted × Outline))
    (frames : List Frame) :
    (tokens.memberTokens members ++ [Token.closeObject]).foldl step (.key before frames) =
      .after (.object (before.reverse ++ outline.memberOutlines members) .closed) frames := by
  match members, fits with
  | [], _ => exact absurd rfl hNe
  | [(name, value)], fits =>
    have hValue := foldl_tokens value fits.1 (.member before (.of name) :: frames)
    have hFirst : (tokens.memberTokens [(name, value)] ++ [Token.closeObject]).foldl step
        (.key before frames) = (value.tokens ++ [Token.closeObject]).foldl step
          (.value (.member before (.of name) :: frames)) := rfl
    rw [hFirst, List.foldl_append, hValue]
    simp [step, Outline.afterStep, outline.memberOutlines]
  | (name, value) :: other :: members, fits =>
    have hValue := foldl_tokens value fits.1 (.member before (.of name) :: frames)
    have hMembers := foldl_memberTokens (other :: members) (List.cons_ne_nil _ _) fits.2
      ((.of name, value.outline) :: before) frames
    have hFirst : (tokens.memberTokens ((name, value) :: other :: members) ++
        [Token.closeObject]).foldl step (.key before frames) =
        (value.tokens ++ .comma :: tokens.memberTokens (other :: members) ++
          [Token.closeObject]).foldl step (.value (.member before (.of name) :: frames)) := rfl
    rw [List.reverse_cons, List.append_assoc] at hMembers
    rw [hFirst, List.append_assoc, List.foldl_append, hValue]
    exact hMembers

end

mutual

theorem ofOutline_outline {depth : Nat} (v : Value) (fits : v.Fits depth) :
    ofOutline depth v.outline = .ok v.ordered := by
  match v, fits with
  | .null, _ | .bool _, _ => rfl
  | .number (.int n), fits =>
    rw [outline, ofOutline, Numeral.read_ofInt fits]
    rfl
  | .text s, _ =>
    rw [outline, ofOutline, Quoted.read_of]
    rfl
  | .list items, fits =>
    have hItems := ofItems_outlines items fits.2
    have hEnter : enter depth = .ok (depth - 1) := if_neg (Nat.not_le.mpr fits.1)
    simp only [outline, ofOutline, hEnter, bind, Except.bind, hItems]
    rfl
  | .object members, fits =>
    have hMembers := namedValues_outlines members fits.2
    have hEnter : enter depth = .ok (depth - 1) := if_neg (Nat.not_le.mpr fits.1)
    simp only [outline, ofOutline, hEnter, bind, Except.bind, hMembers]
    rfl

theorem ofItems_outlines {depth : Nat} (items : List Value) (fits : Fits.FitItems depth items) :
    ofOutline.ofItems depth (outline.itemOutlines items) = .ok (ordered.orderedItems items) := by
  match items, fits with
  | [], _ => rfl
  | item :: items, fits =>
    have hItem := ofOutline_outline item fits.1
    have hItems := ofItems_outlines items fits.2
    simp only [outline.itemOutlines, ofOutline.ofItems, hItem, hItems, bind, Except.bind]
    rfl

theorem namedValues_outlines {depth : Nat} (members : List (String × Value))
    (fits : Fits.FitMembers depth members) :
    ofOutline.namedValues depth (outline.memberOutlines members) =
      .ok (ordered.orderedMembers members) := by
  match members, fits with
  | [], _ => rfl
  | (name, value) :: members, fits =>
    have hValue := ofOutline_outline value fits.1
    have hMembers := namedValues_outlines members fits.2
    simp only [outline.memberOutlines, ofOutline.namedValues, Quoted.read_of, hValue, hMembers,
      bind, Except.bind]
    rfl

end

theorem outline_print {v : Value} (fits : v.Fits maxDepth) :
    Outline.ofBytes (Utf8.encode v.print) = (v.outline, false) := by
  have hEnd : EndsNumber [] := by
    intro b hb
    cases hb
  have hTokens := tokens_chars v fits hEnd
  rw [List.append_nil, Json.tokens, List.append_nil] at hTokens
  rw [Outline.ofBytes, print, Utf8.encode, String.toList_ofList, hTokens, foldl_tokens v fits]
  rfl

/-- A printed value is read as the value with its members in order. -/
theorem ofBytes_print {v : Value} (fits : v.Fits maxDepth) :
    ofBytes (Utf8.encode v.print) = .ok v.ordered := by
  have hRead := ofOutline_outline v fits
  simp only [ofBytes, Reader.run, outline_print fits, reader, hRead, bind, Except.bind]
  rfl

theorem lookup_cons_eq_if (name other : String) (a : Value) (members : List (String × Value)) :
    ((other, a) :: members).lookup name =
      if name = other then some a else members.lookup name := by
  rw [List.lookup_cons]
  by_cases hName : name = other
  · simp [hName]
  · rw [if_neg hName, beq_false_of_ne hName]

theorem lookup_insert (name other : String) (a : Value) (members : List (String × Value)) :
    (insert other a members).lookup name =
      if name = other then some a else members.lookup name := by
  induction members with
  | nil => exact lookup_cons_eq_if name other a []
  | cons member members ih =>
    obtain ⟨third, b⟩ := member
    rw [insert]
    split
    · exact lookup_cons_eq_if name other a _
    split
    · next hSame =>
      rw [lookup_cons_eq_if, lookup_cons_eq_if, ← hSame]
      split <;> rfl
    · next hDiffer =>
      rw [lookup_cons_eq_if, lookup_cons_eq_if, ih]
      split
      · next hThird => rw [if_neg fun hOther => hDiffer (hOther.symm.trans hThird)]
      · rfl

theorem lookup_foldl_insert (name : String) (members sorted : List (String × Value)) :
    (members.foldl (fun sorted member => insert member.1 member.2 sorted) sorted).lookup name =
      (members.reverse ++ sorted).lookup name := by
  induction members generalizing sorted with
  | nil => rfl
  | cons member members ih =>
    rw [List.foldl_cons, ih, List.reverse_cons, List.append_assoc, List.lookup_append,
      List.lookup_append, lookup_insert]
    congr 1
    exact (lookup_cons_eq_if name member.1 member.2 sorted).symm

/-- Of members with one name the last one counts. -/
theorem field?_ofMembers (name : String) (members : List (String × Value)) :
    (ofMembers members).field? name = members.reverse.lookup name := by
  rw [ofMembers, field?, lookup_foldl_insert, List.append_nil]

end Value

end Enrollment.Json
