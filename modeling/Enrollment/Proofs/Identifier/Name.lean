import Enrollment.Identifier
import Enrollment.Proofs.Text.Blank
import Enrollment.Proofs.Text.Lower

/-! # Domain names

Which names are accepted, told by their labels, and what a text may have around the name without
changing the identifier.
-/

namespace Enrollment

namespace Text

theorem split_eq_splitOn (sep : Char) (cs : List Char) : split sep cs = cs.splitOn sep := by
  induction cs with
  | nil => rfl
  | cons c cs ih =>
    rw [List.splitOn_cons_eq_if_modifyHead, split, ih]
    by_cases hSep : c = sep
    · simp [hSep]
    · rw [if_neg hSep, if_neg (by simpa using hSep)]
      cases h : cs.splitOn sep with
      | nil => exact absurd h (List.splitOn_ne_nil sep cs)
      | cons piece pieces => rfl

theorem split_map {f : Char → Char} {sep : Char} (h : ∀ c, f c = sep ↔ c = sep) (cs : List Char) :
    split sep (cs.map f) = (split sep cs).map (List.map f) := by
  induction cs with
  | nil => rfl
  | cons c cs ih =>
    rw [List.map_cons, split, split, ih]
    by_cases hSep : c = sep
    · rw [if_pos hSep, if_pos ((h c).mpr hSep)]
      rfl
    · rw [if_neg hSep, if_neg fun hMapped => hSep ((h c).mp hMapped)]
      cases split sep cs with
      | nil => rfl
      | cons piece pieces => rfl

end Text

namespace Identifier

/-- What one label of a host name has to be like. -/
structure IsHostLabel (label : List Char) : Prop where
  ne_nil : label ≠ []
  length_le : label.length ≤ 63
  chars : ∀ c ∈ label, c.isAlphanum = true ∨ c = '-' ∨ c = '_'
  first : label.head? ≠ some '-'
  last : label.getLast? ≠ some '-'

/-- Labels with dots between them, the first of which may stand for any label. -/
def IsDomain (name : List Char) : Prop :=
  ∃ first labels, name = ['.'].intercalate (first :: labels) ∧
    (first = ['*'] ∨ IsHostLabel first) ∧ ∀ label ∈ labels, IsHostLabel label

/-- How a name lies in a text: with dots after it, and white space around both. -/
structure Framed (text : String) (name front dots back : List Char) : Prop where
  text_eq : text.toList = front ++ (name ++ dots) ++ back
  front_blank : ∀ c ∈ front, Text.isBlank c = true
  back_blank : ∀ c ∈ back, Text.isBlank c = true
  first : ∀ c ∈ (name ++ dots).head?, Text.isBlank c = false
  last : ∀ c ∈ (name ++ dots).getLast?, Text.isBlank c = false
  dots_eq : ∀ c ∈ dots, c = '.'
  undotted : name.getLast? ≠ some '.'

/-- The name in a text, less the white space around it and the dots at its end. -/
def Stripped (text : String) (name : List Char) : Prop :=
  ∃ front dots back, Framed text name front dots back

theorem isLabelChar_iff (c : Char) :
    isLabelChar c = true ↔ c.isAlphanum = true ∨ c = '-' ∨ c = '_' := by
  simp [isLabelChar, or_assoc]

theorem isLabel_iff (label : List Char) : isLabel label = true ↔ IsHostLabel label := by
  unfold isLabel
  constructor
  · intro h
    simp only [Bool.and_eq_true, Bool.not_eq_true', List.isEmpty_eq_false_iff, decide_eq_true_eq,
      bne_iff_ne, List.all_eq_true, isLabelChar_iff] at h
    obtain ⟨⟨⟨⟨hNil, hLength⟩, hFirst⟩, hLast⟩, hChars⟩ := h
    exact ⟨hNil, hLength, hChars, hFirst, hLast⟩
  · rintro ⟨hNil, hLength, hChars, hFirst, hLast⟩
    simp only [Bool.and_eq_true, Bool.not_eq_true', List.isEmpty_eq_false_iff, decide_eq_true_eq,
      bne_iff_ne, List.all_eq_true, isLabelChar_iff]
    exact ⟨⟨⟨⟨hNil, hLength⟩, hFirst⟩, hLast⟩, hChars⟩

theorem IsHostLabel.dot_not_mem {label : List Char} (h : IsHostLabel label) : '.' ∉ label := by
  intro hDot
  have hChar := h.chars _ hDot
  revert hChar
  decide

theorem isName_iff (name : List Char) :
    isName name = true ↔ (name.flatMap Utf8.encodeChar).length ≤ 253 ∧ IsDomain name := by
  rw [isName, Text.split_eq_splitOn, Bool.and_eq_true, decide_eq_true_eq]
  refine and_congr_right fun _ => ?_
  constructor
  · intro h
    have hJoin : ['.'].intercalate (name.splitOn '.') = name := List.intercalate_splitOn '.'
    cases hSplit : name.splitOn '.' with
    | nil => exact absurd hSplit (List.splitOn_ne_nil '.' name)
    | cons first labels =>
      rw [hSplit] at h hJoin
      simp only [Bool.and_eq_true, Bool.or_eq_true, decide_eq_true_eq, List.all_eq_true,
        isLabel_iff] at h
      exact ⟨first, labels, hJoin.symm, h.1, h.2⟩
  · rintro ⟨first, labels, rfl, hFirst, hLabels⟩
    have hDots : ∀ label ∈ first :: labels, '.' ∉ label := by
      intro label hMem
      rcases List.mem_cons.mp hMem with rfl | hMem
      · rcases hFirst with rfl | hHost
        · decide
        · exact hHost.dot_not_mem
      · exact (hLabels label hMem).dot_not_mem
    rw [List.splitOn_intercalate '.' hDots (List.cons_ne_nil first labels)]
    simp only [Bool.and_eq_true, Bool.or_eq_true, decide_eq_true_eq, List.all_eq_true, isLabel_iff]
    exact ⟨hFirst, hLabels⟩

theorem mem_intercalate {c sep : Char} {pieces : List (List Char)}
    (h : c ∈ [sep].intercalate pieces) : c = sep ∨ ∃ piece ∈ pieces, c ∈ piece := by
  induction pieces with
  | nil => cases h
  | cons piece pieces ih =>
    cases pieces with
    | nil =>
      rw [List.intercalate_singleton] at h
      exact .inr ⟨piece, List.mem_singleton_self piece, h⟩
    | cons second pieces =>
      rw [List.intercalate_cons_cons, List.append_assoc, List.mem_append, List.mem_append,
        List.mem_singleton] at h
      rcases h with hPiece | hSep | hRest
      · exact .inr ⟨piece, List.mem_cons_self, hPiece⟩
      · exact .inl hSep
      · rcases ih hRest with hSep | ⟨other, hMem, hOther⟩
        · exact .inl hSep
        · exact .inr ⟨other, List.mem_cons_of_mem piece hMem, hOther⟩

theorem toNat_lt_of_isAlphanum {c : Char} (h : c.isAlphanum = true) : c.toNat < 128 := by
  have hRanges : c.isAlphanum = ((decide (65 ≤ c.val ∧ c.val ≤ 90) ||
      decide (97 ≤ c.val) && decide (c.val ≤ 122)) ||
        decide (48 ≤ c.val) && decide (c.val ≤ 57)) := rfl
  rw [hRanges] at h
  simp only [Bool.or_eq_true, Bool.and_eq_true, decide_eq_true_eq, UInt32.le_iff_toNat_le,
    UInt32.reduceToNat] at h
  have hSame : c.toNat = c.val.toNat := rfl
  omega

theorem isBlank_of_isLabelChar {c : Char} (h : isLabelChar c = true) : Text.isBlank c = false := by
  have hLt : c.toNat < 128 := by
    rcases (isLabelChar_iff c).mp h with hAlphanum | rfl | rfl
    · exact toNat_lt_of_isAlphanum hAlphanum
    · decide
    · decide
  exact Text.of_ascii (P := fun c => isLabelChar c = true → Text.isBlank c = false) (by decide)
    hLt h

/-- White space is no part of a name. -/
theorem IsDomain.isBlank {name : List Char} (h : IsDomain name) :
    ∀ c ∈ name, Text.isBlank c = false := by
  obtain ⟨first, labels, rfl, hFirst, hLabels⟩ := h
  have hHost {label : List Char} (hLabel : IsHostLabel label) :
      ∀ c ∈ label, Text.isBlank c = false := fun c hc =>
    isBlank_of_isLabelChar ((isLabelChar_iff c).mpr (hLabel.chars c hc))
  intro c hc
  rcases mem_intercalate hc with rfl | ⟨label, hMem, hChar⟩
  · rfl
  rcases List.mem_cons.mp hMem with rfl | hMem
  · rcases hFirst with rfl | hLabel
    · rw [List.mem_singleton.mp hChar]
      rfl
    · exact hHost hLabel c hChar
  · exact hHost (hLabels label hMem) c hChar

theorem stripped_iff (text : String) (name : List Char) :
    Stripped text name ↔ name = Text.trimEndBy (· = '.') (Text.trim text).toList := by
  rw [Text.trim, String.toList_ofList]
  constructor
  · rintro ⟨front, dots, back, framed⟩
    rw [framed.text_eq, Text.trimBy_append_all framed.front_blank framed.back_blank,
      Text.trimBy_eq_self framed.first framed.last,
      Text.trimEndBy_append_all (by simpa using framed.dots_eq), Text.trimEndBy_eq_self]
    intro c hc
    rw [decide_eq_false_iff_not]
    rintro rfl
    exact framed.undotted hc
  · rintro rfl
    obtain ⟨front, back, hText, hFront, hBack, hFirst, hLast⟩ :=
      Text.exists_trimBy Text.isBlank text.toList
    obtain ⟨dots, hTrimmed, hDots, hName⟩ :=
      Text.exists_trimEndBy (· = '.') (Text.trimBy Text.isBlank text.toList)
    rw [hTrimmed] at hText hFirst hLast
    exact ⟨front, dots, back, {
      text_eq := hText
      front_blank := hFront
      back_blank := hBack
      first := hFirst
      last := hLast
      dots_eq := fun c hc => of_decide_eq_true (hDots c hc)
      undotted := fun hDot => of_decide_eq_false (hName '.' hDot) rfl }⟩

theorem toLower_eq_iff {d : Char}
    (h : ∀ n < 26, (Char.ofNat (97 + n) == d) = (Char.ofNat (65 + n) == d)) (c : Char) :
    c.toLower = d ↔ c = d := by
  rw [← beq_iff_eq, Text.toLower_invariant (· == d) h c, beq_iff_eq]

theorem isLabel_map_toLower (label : List Char) :
    isLabel (label.map Char.toLower) = isLabel label := by
  have hEdge (edge : Option Char) :
      (edge.map Char.toLower != some '-') = (edge != some '-') := by
    cases edge with
    | none => rfl
    | some c =>
      rw [Option.map_some, Bool.eq_iff_iff, bne_iff_ne, bne_iff_ne, ne_eq, ne_eq, Option.some_inj,
        Option.some_inj, toLower_eq_iff (by decide)]
  have hChars : isLabelChar ∘ Char.toLower = isLabelChar :=
    funext (Text.toLower_invariant isLabelChar (by decide))
  rw [isLabel, isLabel, List.isEmpty_map, List.length_map, List.head?_map, List.getLast?_map,
    hEdge, hEdge, List.all_map, hChars]

theorem length_bytes_map_toLower (name : List Char) :
    ((name.map Char.toLower).flatMap Utf8.encodeChar).length =
      (name.flatMap Utf8.encodeChar).length := by
  rw [List.length_flatMap, List.length_flatMap, List.map_map]
  exact congrArg List.sum (List.map_congr_left fun c _ => Text.length_encodeChar_toLower c)

theorem isName_map_toLower (name : List Char) :
    isName (name.map Char.toLower) = isName name := by
  have hStar (label : List Char) : label.map Char.toLower = ['*'] ↔ label = ['*'] := by
    rw [List.map_eq_singleton_iff]
    constructor
    · rintro ⟨c, rfl, hc⟩
      rw [(toLower_eq_iff (by decide) c).mp hc]
    · rintro rfl
      exact ⟨'*', rfl, rfl⟩
  rw [isName, isName, length_bytes_map_toLower, Text.split_map (toLower_eq_iff (by decide))]
  congr 1
  cases Text.split '.' name with
  | nil => rfl
  | cons first labels =>
    have hLabels : isLabel ∘ List.map Char.toLower = isLabel := funext isLabel_map_toLower
    simp only [List.map_cons, hStar, isLabel_map_toLower, List.all_map, hLabels]

variable {text other : String} {name : List Char} {identifier : Identifier}

theorem ofName_eq_ok_iff (hName : Stripped text name) : ofName text = .ok identifier ↔
    name ≠ [] ∧ isName name = true ∧ identifier = .dns (String.ofList (name.map Char.toLower)) := by
  unfold ofName
  dsimp only
  rw [← (stripped_iff text name).mp hName, isName_map_toLower]
  split
  · next hNil => exact ⟨nofun, fun h => absurd (List.map_eq_nil_iff.mp hNil) h.1⟩
  · next hNil =>
    split
    · next hValid =>
      constructor
      · intro h
        cases h
        exact ⟨fun h => hNil (List.map_eq_nil_iff.mpr h), hValid, rfl⟩
      · rintro ⟨-, -, rfl⟩
        rfl
    · next hValid => exact ⟨nofun, fun h => absurd h.2.1 hValid⟩

theorem exists_stripped (text : String) : ∃ name, Stripped text name :=
  ⟨_, (stripped_iff text _).mpr rfl⟩

/-- Texts of one name, letter case apart, stand for one identifier or for none. -/
theorem ofName_congr {first second : List Char} (hText : Stripped text first)
    (hOther : Stripped other second)
    (h : second.map Char.toLower = first.map Char.toLower) :
    ofName other = .ok identifier ↔ ofName text = .ok identifier := by
  have hNil : second = [] ↔ first = [] := by
    rw [← List.map_eq_nil_iff (f := Char.toLower), h, List.map_eq_nil_iff]
  rw [ofName_eq_ok_iff hOther, ofName_eq_ok_iff hText, ne_eq, hNil, h,
    ← isName_map_toLower second, h, isName_map_toLower]

theorem ofName_case (h : other.toList.map Char.toLower = text.toList.map Char.toLower) :
    ofName other = .ok identifier ↔ ofName text = .ok identifier := by
  obtain ⟨first, hText⟩ := exists_stripped text
  obtain ⟨second, hOther⟩ := exists_stripped other
  refine ofName_congr hText hOther ?_
  have hDot (c : Char) : decide (c.toLower = '.') = decide (c = '.') :=
    decide_eq_decide.mpr (toLower_eq_iff (by decide) c)
  rw [(stripped_iff _ _).mp hText, (stripped_iff _ _).mp hOther, Text.trim, Text.trim,
    String.toList_ofList, String.toList_ofList, ← Text.trimEndBy_map hDot,
    ← Text.trimEndBy_map hDot, ← Text.trimBy_map Text.isBlank_toLower,
    ← Text.trimBy_map Text.isBlank_toLower, h]

theorem ofName_blank {front back : String} (hFront : ∀ c ∈ front.toList, Text.isBlank c = true)
    (hBack : ∀ c ∈ back.toList, Text.isBlank c = true) :
    ofName (front ++ text ++ back) = .ok identifier ↔ ofName text = .ok identifier := by
  obtain ⟨name, hName⟩ := exists_stripped text
  refine ofName_congr hName ?_ rfl
  rw [stripped_iff, Text.trim, String.toList_append, String.toList_append,
    Text.trimBy_append_all hFront hBack]
  exact (stripped_iff text name).mp hName

theorem ofName_dot : ofName (Text.trim text ++ ".") = .ok identifier ↔
    ofName text = .ok identifier := by
  obtain ⟨name, hName⟩ := exists_stripped text
  refine ofName_congr hName ?_ rfl
  obtain ⟨-, -, -, -, -, hHead, -⟩ := Text.exists_trimBy Text.isBlank text.toList
  have hTrimmed : Text.trim (Text.trim text ++ ".") = Text.trim text ++ "." := by
    rw [Text.trim, Text.trimBy_eq_self, String.ofList_toList]
    · intro c hc
      rw [String.toList_append, List.head?_append, Text.trim, String.toList_ofList,
        Option.mem_def, Option.or_eq_some_iff] at hc
      rcases hc with hc | ⟨-, hc⟩
      · exact hHead c hc
      · cases hc
        rfl
    · intro c hc
      rw [String.toList_append, List.getLast?_append_of_ne_nil _ (by decide)] at hc
      cases hc
      rfl
  rw [stripped_iff, hTrimmed, String.toList_append, Text.trimEndBy_append_all (by simp)]
  exact (stripped_iff text name).mp hName

theorem stripped_self {name : List Char} (hBlank : ∀ c ∈ name, Text.isBlank c = false)
    (hDot : name.getLast? ≠ some '.') : Stripped (String.ofList name) name := by
  refine ⟨[], [], [], ?_, nofun, nofun, ?_, ?_, nofun, hDot⟩
  · rw [String.toList_ofList, List.nil_append, List.append_nil, List.append_nil]
  · intro c hc
    rw [List.append_nil] at hc
    exact hBlank c (List.mem_of_mem_head? hc)
  · intro c hc
    rw [List.append_nil] at hc
    exact hBlank c (List.mem_of_mem_getLast? hc)

theorem Stripped.undotted (h : Stripped text name) : name.getLast? ≠ some '.' := by
  obtain ⟨_, _, _, framed⟩ := h
  exact framed.undotted

/-- An accepted name is its own normal form. -/
theorem ofName_value (h : ofName text = .ok identifier) :
    ofName identifier.value = .ok identifier := by
  obtain ⟨name, hName⟩ := exists_stripped text
  obtain ⟨hNil, hValid, rfl⟩ := (ofName_eq_ok_iff hName).mp h
  have hBlank : ∀ c ∈ name.map Char.toLower, Text.isBlank c = false :=
    ((isName_iff _).mp ((isName_map_toLower name).trans hValid)).2.isBlank
  have hDot : (name.map Char.toLower).getLast? ≠ some '.' := by
    intro hLast
    rw [List.getLast?_map, Option.map_eq_some_iff] at hLast
    obtain ⟨c, hc, hLower⟩ := hLast
    rw [(toLower_eq_iff (by decide) c).mp hLower] at hc
    exact hName.undotted hc
  refine (ofName_congr hName (stripped_self hBlank hDot) ?_).mpr h
  rw [List.map_map]
  exact List.map_congr_left fun c _ => Text.toLower_toLower c

end Identifier

end Enrollment
