import Mathlib.Data.List.Chain
import Enrollment.Proofs.Pem.Blocks

/-! # Blocks as they are laid out

A block whose data are in lines, none of them empty, is read back whatever the lines are. What is
printed is laid out so.
-/

namespace Enrollment.Pem

/-- After a line feed comes no end of a line: no line is empty. -/
def Filled (cs : List Char) : Prop := cs.IsChain fun a b => a = '\n' → b ≠ '\n' ∧ b ≠ '\r'

/-- Data in lines. They hold no hyphen, so that no mark is found in them. -/
structure Lined (data : List Char) : Prop where
  filled : Filled data
  unindented : Unindented data
  unmarked : '-' ∉ data

/-- What can stand in a line of data. -/
def IsSymbol (c : Char) : Prop := Text.isBlank c = false ∧ c ≠ '-'

variable {cs data rest symbols : List Char} {pem : Pem}

theorem Filled.not_after_feed {front back : List Char} {c : Char}
    (h : Filled (front ++ '\n' :: c :: back)) : c ≠ '\n' ∧ c ≠ '\r' := by
  have hBack := (List.isChain_append.mp h).2.1
  exact (List.isChain_cons_cons.mp hBack).1 rfl

/-- Without an empty line there are no headers. -/
theorem Filled.parts (h : Filled data) : Parts data [] data := by
  constructor
  · rintro ⟨front, back, rfl, -⟩
    have hTwice : Filled (front ++ '\n' :: '\n' :: back) := by simpa using h
    exact hTwice.not_after_feed.1 rfl
  · rintro ⟨front, back, rfl, -⟩
    have hTwice : Filled ((front ++ ['\r']) ++ '\n' :: '\r' :: ('\n' :: back)) := by simpa using h
    exact hTwice.not_after_feed.2 rfl

theorem isFramingBlank_eq_false {c : Char} (h : Text.isBlank c = false) :
    isFramingBlank c = false := by
  rw [← Bool.not_eq_true] at h ⊢
  intro hFraming
  apply h
  simp only [isFramingBlank, Bool.or_eq_true, decide_eq_true_eq] at hFraming
  obtain ((rfl | rfl) | rfl) | rfl := hFraming <;> rfl

theorem IsSymbol.not_feed {c : Char} (h : IsSymbol c) : c ≠ '\n' := by
  rintro rfl
  cases h.1

theorem unindented_of_symbols (h : ∀ c ∈ cs, IsSymbol c) : Unindented cs := by
  intro c hc
  exact isFramingBlank_eq_false (h c (List.mem_of_mem_head? hc)).1

theorem Filled.append_line {line : List Char} (hLine : '\n' ∉ line) (h : Filled rest) :
    Filled (line ++ rest) := by
  induction line with
  | nil => exact h
  | cons c line ih =>
    rw [List.mem_cons, not_or] at hLine
    exact List.isChain_cons.mpr ⟨fun _ _ hFeed => absurd hFeed.symm hLine.1, ih hLine.2⟩

theorem Filled.cons_feed (h : Filled rest) (hRest : Unindented rest) : Filled ('\n' :: rest) := by
  refine List.isChain_cons.mpr ⟨fun c hc _ => ?_, h⟩
  have hc := hRest c hc
  constructor <;> rintro rfl <;> cases hc

/-- The ends of a line: line feed, carriage return, or both. -/
inductive LineEnd where
  | feed
  | carriage
  | carriageFeed

def LineEnd.text : LineEnd → String
  | feed => "\n"
  | carriage => "\r"
  | carriageFeed => "\r\n"

/-- Symbols in lines of any width, none of them empty, each with an end of its own. -/
inductive InLines : List Char → List Char → Prop where
  | nil : InLines [] []
  | cons {line symbols text : List Char} (hLine : line ≠ []) (ending : LineEnd)
    (h : InLines symbols text) : InLines (line ++ symbols) (line ++ (ending.text.toList ++ text))

theorem LineEnd.allBlank (ending : LineEnd) : AllBlank ending.text.toList := by
  cases ending <;> simp [AllBlank, text, isFramingBlank]

theorem isBlank_of_isFramingBlank {c : Char} (h : isFramingBlank c = true) :
    Text.isBlank c = true := by
  rw [← Bool.not_eq_false]
  intro hNot
  cases h.symm.trans (isFramingBlank_eq_false hNot)

theorem Filled.append_end (ending : LineEnd) (h : Filled rest) (hRest : Unindented rest) :
    Filled (ending.text.toList ++ rest) := by
  have hReturn : '\n' ∉ "\r".toList := by decide
  cases ending with
  | feed => exact h.cons_feed hRest
  | carriage => exact h.append_line hReturn
  | carriageFeed =>
    have hEnds : LineEnd.carriageFeed.text.toList ++ rest = "\r".toList ++ '\n' :: rest := rfl
    rw [hEnds]
    exact (h.cons_feed hRest).append_line hReturn

namespace InLines

variable {text : List Char}

theorem head?_eq (h : InLines symbols text) : text.head? = symbols.head? := by
  cases h with
  | nil => rfl
  | @cons line _ _ hLine =>
    cases line with
    | nil => exact absurd rfl hLine
    | cons c line => rfl

theorem mem {c : Char} (h : InLines symbols text) (hMem : c ∈ text) :
    c ∈ symbols ∨ Text.isBlank c = true := by
  induction h with
  | nil => cases hMem
  | @cons line _ _ hLine ending h ih =>
    rcases List.mem_append.mp hMem with hMem | hMem
    · exact .inl (List.mem_append_left _ hMem)
    rcases List.mem_append.mp hMem with hMem | hMem
    · exact .inr (isBlank_of_isFramingBlank (ending.allBlank c hMem))
    · exact (ih hMem).imp_left (List.mem_append_right _)

theorem filled (h : InLines symbols text) (hSymbols : ∀ c ∈ symbols, IsSymbol c) :
    Filled text := by
  induction h with
  | nil => exact List.isChain_nil
  | @cons line symbols text hLine ending h ih =>
    obtain ⟨hFront, hBack⟩ := List.forall_mem_append.mp hSymbols
    have hFeed : '\n' ∉ line := fun hMem => (hFront _ hMem).not_feed rfl
    have hText : Unindented text := by
      rw [Unindented, h.head?_eq]
      exact unindented_of_symbols hBack
    exact ((ih hBack).append_end ending hText).append_line hFeed

theorem filter_eq (h : InLines symbols text) (hSymbols : ∀ c ∈ symbols, IsSymbol c) :
    text.filter (!Text.isBlank ·) = symbols := by
  induction h with
  | nil => rfl
  | @cons line symbols text hLine ending h ih =>
    obtain ⟨hFront, hBack⟩ := List.forall_mem_append.mp hSymbols
    have hKept : line.filter (!Text.isBlank ·) = line := by
      rw [List.filter_eq_self]
      exact fun c hc => by rw [(hFront c hc).1]; rfl
    have hEnd : ending.text.toList.filter (!Text.isBlank ·) = [] := by cases ending <;> rfl
    rw [List.filter_append, List.filter_append, hKept, hEnd, ih hBack, List.nil_append]

theorem lined (h : InLines symbols text) (hSymbols : ∀ c ∈ symbols, IsSymbol c) : Lined text := by
  constructor
  · exact h.filled hSymbols
  · rw [Unindented, h.head?_eq]
    exact unindented_of_symbols hSymbols
  · intro hMark
    rcases h.mem hMark with hMark | hMark
    · exact (hSymbols _ hMark).2 rfl
    · cases hMark

end InLines

theorem inLines_wrap (symbols : List Char) : InLines symbols (wrap symbols) := by
  fun_induction wrap symbols with
  | case1 symbols hLong ih =>
    have hLine : symbols.take lineLength ≠ [] := by
      rw [ne_eq, List.take_eq_nil_iff, not_or]
      exact ⟨by decide, List.ne_nil_of_length_pos (Nat.zero_lt_of_lt hLong)⟩
    have hLines := InLines.cons hLine .carriageFeed ih
    rwa [List.take_append_drop, ← List.append_assoc] at hLines
  | case2 symbols hShort hEmpty =>
    rw [List.isEmpty_iff.mp hEmpty]
    exact .nil
  | case3 symbols hShort hNonempty =>
    have hLine : symbols ≠ [] := mt List.isEmpty_iff.mpr hNonempty
    simpa [LineEnd.text] using InLines.cons hLine .carriageFeed .nil

theorem isSymbol_of_mem_encode (bytes : Bytes) :
    ∀ c ∈ (Base64.encode .standard bytes).toList, IsSymbol c := by
  intro c hc
  rw [Base64.encode, String.toList_ofList] at hc
  obtain ⟨b, hb, rfl⟩ := List.mem_map.mp hc
  have hAll : ∀ n < 64, IsSymbol (Char.ofNat (Base64.Alphabet.byte .standard n).toNat) := by
    unfold IsSymbol
    decide
  exact Base64.forall_mem_encodeBytes (P := fun b => IsSymbol (Char.ofNat b.toNat))
    (by unfold IsSymbol; decide) hAll bytes b hb

section

variable {tag gap trail : List Char}

theorem stands_of_lined (hTag : '-' ∉ tag) (hGap : AllBlank gap) (hData : Lined data)
    (hTrail : AllBlank trail) (hRest : Unindented rest) :
    Stands ("-----BEGIN ".toList ++ tag ++ "-----".toList ++ gap ++ data ++
      "-----END ".toList ++ tag ++ "-----".toList ++ trail ++ rest) ⟨tag, [], data, tag⟩ rest := by
  have hClosed : Missed "-----".toList tag := missed_of_not_mem hTag
  have hEnd : Missed "-----END ".toList data := missed_of_not_mem hData.unmarked
  exact .intro hClosed hGap hData.unindented hEnd hData.filled.parts hClosed hTrail hRest

theorem carries_of_symbols (hTag : pem.tag ≠ "")
    (hData : data.filter (!Text.isBlank ·) = (Base64.encode .standard pem.contents).toList) :
    Carries ⟨pem.tag.toList, [], data, pem.tag.toList⟩ pem := by
  constructor
  · rfl
  · rfl
  · exact hTag
  · exact hData
  · exact nofun

end

def printed (pem : Pem) : Frame :=
  ⟨pem.tag.toList, [], wrap (Base64.encode .standard pem.contents).toList, pem.tag.toList⟩

theorem stands_print (hTag : '-' ∉ pem.tag.toList) (hRest : Unindented rest) :
    Stands ((print pem).toList ++ rest) (printed pem) rest := by
  have hBlank := LineEnd.carriageFeed.allBlank
  have hLined := (inLines_wrap _).lined (isSymbol_of_mem_encode pem.contents)
  have hStands := stands_of_lined hTag hBlank hLined hBlank hRest
  simpa [print, printed, LineEnd.text] using hStands

theorem stands_print_last (hTag : '-' ∉ pem.tag.toList) :
    Stands (print pem).toList (printed pem) [] := by
  have hEnd : Unindented [] := nofun
  have hStands := stands_print hTag hEnd
  rwa [List.append_nil] at hStands

theorem carries_print (hTag : pem.tag ≠ "") : Carries (printed pem) pem :=
  carries_of_symbols hTag ((inLines_wrap _).filter_eq (isSymbol_of_mem_encode pem.contents))

theorem unindented_print (pem : Pem) (rest : List Char) :
    Unindented ((print pem).toList ++ rest) := by
  simp [Unindented, print, isFramingBlank]

theorem not_hasBlock_nil : ¬HasBlock [] := not_hasBlock_iff.mpr rfl

/-- Printed blocks are whole, and nothing is left after them. -/
theorem blocks_print {pems : List Pem} (h : ∀ pem ∈ pems, pem.tag ≠ "" ∧ '-' ∉ pem.tag.toList) :
    Blocks (pems.flatMap fun pem => (print pem).toList) pems := by
  suffices hReads : ∃ found, Reads (pems.flatMap fun pem => (print pem).toList) found [] ∧
      pems = found.map Prod.snd by
    obtain ⟨found, reads, hPems⟩ := hReads
    exact ⟨found, [], reads, not_hasBlock_nil, hPems⟩
  induction pems with
  | nil => exact ⟨[], .done [], rfl⟩
  | cons pem pems ih =>
    obtain ⟨hTag, hRest⟩ := List.forall_mem_cons.mp h
    obtain ⟨found, reads, rfl⟩ := ih hRest
    have hNext : Unindented ((found.map Prod.snd).flatMap fun pem => (print pem).toList) := by
      cases found with
      | nil => exact nofun
      | cons => exact unindented_print _ _
    have hReads := Reads.block .nil (stands_print hTag.2 hNext) (carries_print hTag.1) reads
    rw [List.flatMap_cons]
    exact ⟨_, hReads, rfl⟩

/-- A text that is one block, with its data in lines. Only the end of the last line may be
missing. -/
inductive Written (pem : Pem) : String → Prop where
  | intro {data : List Char} (first : LineEnd) (last : Option LineEnd)
    (h : InLines (Base64.encode .standard pem.contents).toList data) :
    Written pem ("-----BEGIN " ++ pem.tag ++ "-----" ++ first.text ++ String.ofList data ++
      "-----END " ++ pem.tag ++ "-----" ++ (last.map LineEnd.text).getD "")

theorem written_print (pem : Pem) : Written pem (print pem) := by
  have hText : print pem = "-----BEGIN " ++ pem.tag ++ "-----" ++ LineEnd.carriageFeed.text ++
      String.ofList (wrap (Base64.encode .standard pem.contents).toList) ++
      "-----END " ++ pem.tag ++ "-----" ++ LineEnd.carriageFeed.text := by
    rw [← String.toList_inj]
    simp [print, LineEnd.text]
  rw [hText]
  exact .intro .carriageFeed (some .carriageFeed) (inLines_wrap _)

theorem Written.parse_eq {text : String} (h : Written pem text) (hTag : pem.tag ≠ "")
    (hMark : '-' ∉ pem.tag.toList) : parse text = .ok pem := by
  cases h with
  | @intro data first last h =>
    have hSymbols := isSymbol_of_mem_encode pem.contents
    have hTrail : AllBlank ((last.map LineEnd.text).getD "").toList := by
      cases last with
      | none => exact nofun
      | some last => exact last.allBlank
    have hEnd : Unindented [] := nofun
    have hStands := stands_of_lined hMark first.allBlank (h.lined hSymbols) hTrail hEnd
    rw [parse, nextFrame_eq_some_iff.mpr ⟨[], _, ?_, .nil, hStands⟩]
    · exact decode_eq_ok_iff.mpr (carries_of_symbols hTag (h.filter_eq hSymbols))
    · simp only [String.toList_append, String.toList_ofList, List.nil_append, List.append_nil]

theorem parse_print (hTag : pem.tag ≠ "") (hMark : '-' ∉ pem.tag.toList) :
    parse (print pem) = .ok pem :=
  (written_print pem).parse_eq hTag hMark

end Enrollment.Pem
