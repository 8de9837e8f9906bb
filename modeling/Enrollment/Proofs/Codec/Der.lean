import Enrollment.Codec.Der
import Enrollment.Proofs.Codec.BigEndian

/-! # DER is read in one form only

How elements are written, and that a reader takes exactly what is written so from the front of its
input: what it gives for some bytes tells what those bytes are.
-/

namespace Enrollment.Der

/-- The fewest bytes that say how long an element is. -/
def lengthBytes (n : Nat) : Bytes :=
  if n < 0x80 then [n.toUInt8] else (0x80 + BigEndian.width n).toUInt8 :: BigEndian.writeMinimal n

namespace Element

def bytes (e : Element) : Bytes := e.tag :: lengthBytes e.contents.length ++ e.contents

/-- Elements that can be written: the tag is known and the contents are not too long. -/
def Sound (e : Element) : Prop := isTag e.tag = true ∧ e.contents.length ≤ maxLength

end Element

def row (elements : List Element) : Bytes := elements.flatMap Element.bytes

variable {α β : Type} {bytes rest front : Bytes}

section

variable {reader : Reader α} {next : α → Reader β}

theorem bind_eq_some_iff {b : β} : (reader >>= next) bytes = some (b, rest) ↔
    ∃ a mid, reader bytes = some (a, mid) ∧ next a mid = some (b, rest) := by
  simp [bind, StateT.bind, Option.bind_eq_some_iff]

theorem pure_eq_some_iff {a b : α} :
    (pure a : Reader α) bytes = some (b, rest) ↔ a = b ∧ bytes = rest := by
  have hPure : (pure a : Reader α) bytes = some (a, bytes) := rfl
  rw [hPure, Option.some.injEq, Prod.mk.injEq]

theorem check_eq_some_iff {condition : Bool} {u : Unit} :
    check condition bytes = some (u, rest) ↔ condition = true ∧ bytes = rest := by
  cases condition with
  | false => exact iff_of_false nofun nofun
  | true =>
    have hCheck : check true bytes = some ((), bytes) := rfl
    simp [hCheck]

theorem check_bind_eq_some_iff {condition : Bool} {next : Unit → Reader β} {b : β} :
    (check condition >>= next) bytes = some (b, rest) ↔
      condition = true ∧ next () bytes = some (b, rest) := by
  rw [bind_eq_some_iff]
  constructor
  · rintro ⟨_, _, hCheck, h⟩
    obtain ⟨hCondition, rfl⟩ := check_eq_some_iff.mp hCheck
    exact ⟨hCondition, h⟩
  · rintro ⟨hCondition, h⟩
    exact ⟨(), bytes, check_eq_some_iff.mpr ⟨hCondition, rfl⟩, h⟩

theorem all_eq_some_iff {a : α} : reader.all bytes = some a ↔ reader bytes = some (a, []) := by
  unfold Reader.all
  split
  · next a' h => simp [h]
  · next h =>
    refine iff_of_false nofun fun hRead => ?_
    exact h a hRead

theorem within_eq_some_iff {contents : Bytes} {a : α} :
    within reader contents bytes = some (a, rest) ↔
      reader contents = some (a, []) ∧ bytes = rest := by
  simp [within, all_eq_some_iff]

theorem byte_eq_some_iff {b : UInt8} : byte bytes = some (b, rest) ↔ bytes = b :: rest := by
  cases bytes with
  | nil => simp [byte]
  | cons c bytes => simp [byte]

theorem take_eq_some_iff {n : Nat} :
    take n bytes = some (front, rest) ↔ front.length = n ∧ bytes = front ++ rest := by
  unfold take
  split
  · next hShort =>
    refine iff_of_false nofun ?_
    rintro ⟨rfl, rfl⟩
    rw [List.length_append] at hShort
    omega
  · next hLong =>
    rw [List.splitAt_eq, Option.some.injEq, Prod.mk.injEq]
    constructor
    · rintro ⟨rfl, rfl⟩
      exact ⟨List.length_take_of_le (Nat.not_lt.mp hLong), (List.take_append_drop n bytes).symm⟩
    · rintro ⟨rfl, rfl⟩
      exact ⟨List.take_left, List.drop_left⟩

end

theorem lengthBytes_of_short {n : Nat} (h : n < 0x80) : lengthBytes n = [n.toUInt8] := if_pos h

theorem lengthBytes_of_long {n : Nat} (h : 0x80 ≤ n) : lengthBytes n =
    (0x80 + BigEndian.width n).toUInt8 :: BigEndian.writeMinimal n :=
  if_neg (Nat.not_lt.mpr h)

theorem width_le_of_le_maxLength {n : Nat} (h : n ≤ maxLength) : BigEndian.width n ≤ 4 := by
  rcases Nat.eq_zero_or_pos n with rfl | hn
  · decide
  have hLess : n < 2 ^ 32 := by
    rw [maxLength] at h
    omega
  rw [← Nat.log2_lt (Nat.ne_of_gt hn)] at hLess
  rw [BigEndian.width]
  omega

theorem lengthBytes_of_length {n : Nat} (h : length bytes = some (n, rest)) :
    n ≤ maxLength ∧ bytes = lengthBytes n ++ rest := by
  obtain ⟨first, mid, hFirst, hRest⟩ := bind_eq_some_iff.mp h
  obtain rfl := byte_eq_some_iff.mp hFirst
  have hByte : first.toNat.toUInt8 = first := UInt8.ofNat_toNat
  split at hRest
  · next hShort =>
    obtain ⟨rfl, rfl⟩ := pure_eq_some_iff.mp hRest
    have hShort : first.toNat < 0x80 := UInt8.lt_iff_toNat_lt.mp hShort
    rw [lengthBytes_of_short hShort, hByte, maxLength]
    exact ⟨by omega, rfl⟩
  · next hLong =>
    have hLong : 0x80 ≤ first.toNat := by
      rw [UInt8.lt_iff_toNat_lt] at hLong
      exact Nat.not_lt.mp hLong
    obtain ⟨hSize, hTail⟩ := check_bind_eq_some_iff.mp hRest
    obtain ⟨digits, mid', hTake, hNumber⟩ := bind_eq_some_iff.mp hTail
    obtain ⟨hDigits, rfl⟩ := take_eq_some_iff.mp hTake
    obtain ⟨hChecks, hResult⟩ := check_bind_eq_some_iff.mp hNumber
    obtain ⟨rfl, rfl⟩ := pure_eq_some_iff.mp hResult
    simp only [Bool.and_eq_true, decide_eq_true_eq] at hChecks
    obtain ⟨⟨hLow, hWidth⟩, hHigh⟩ := hChecks
    -- The number is as wide as the bytes that it was read from, so that they are its own.
    have hFirst : 0x80 + BigEndian.width (BigEndian.read digits) = first.toNat := by omega
    have hWritten : BigEndian.writeMinimal (BigEndian.read digits) = digits := by
      rw [BigEndian.writeMinimal, hWidth, ← hDigits, BigEndian.write_read]
    rw [lengthBytes_of_long hLow, hFirst, hByte, hWritten]
    exact ⟨hHigh, rfl⟩

theorem length_lengthBytes {n : Nat} (h : n ≤ maxLength) (rest : Bytes) :
    length (lengthBytes n ++ rest) = some (n, rest) := by
  rcases Nat.lt_or_ge n 0x80 with hShort | hLong
  · have hFirst : n.toUInt8.toNat = n := UInt8.toNat_ofNat_of_lt' (show _ < 256 by omega)
    have hLess : n.toUInt8 < 0x80 := by
      rw [UInt8.lt_iff_toNat_lt, hFirst]
      exact hShort
    rw [lengthBytes_of_short hShort]
    refine bind_eq_some_iff.mpr ⟨n.toUInt8, rest, rfl, ?_⟩
    rw [if_pos hLess, hFirst]
    rfl
  · have hWidth := width_le_of_le_maxLength h
    have hPositive : 1 ≤ BigEndian.width n := Nat.succ_pos _
    have hFirst : (0x80 + BigEndian.width n).toUInt8.toNat = 0x80 + BigEndian.width n :=
      UInt8.toNat_ofNat_of_lt' (show _ < 256 by omega)
    have hNot : ¬(0x80 + BigEndian.width n).toUInt8 < 0x80 := by
      rw [UInt8.lt_iff_toNat_lt, hFirst]
      exact Nat.not_lt.mpr (Nat.le_add_right _ _)
    have hSize : (0x80 + BigEndian.width n).toUInt8.toNat - 0x80 = BigEndian.width n := by omega
    rw [lengthBytes_of_long hLong]
    refine bind_eq_some_iff.mpr
      ⟨(0x80 + BigEndian.width n).toUInt8, BigEndian.writeMinimal n ++ rest, rfl, ?_⟩
    rw [if_neg hNot, hSize]
    refine check_bind_eq_some_iff.mpr ⟨by simp [hPositive, hWidth], ?_⟩
    refine bind_eq_some_iff.mpr ⟨BigEndian.writeMinimal n, rest, ?_, ?_⟩
    · exact take_eq_some_iff.mpr ⟨BigEndian.length_write _ _, rfl⟩
    · refine check_bind_eq_some_iff.mpr ⟨?_, ?_⟩
      · simp only [BigEndian.read_writeMinimal, Bool.and_eq_true, decide_eq_true_eq, hLong, h,
          and_self]
      · rw [BigEndian.read_writeMinimal]
        rfl

theorem length_eq_some_iff {n : Nat} :
    length bytes = some (n, rest) ↔ n ≤ maxLength ∧ bytes = lengthBytes n ++ rest := by
  constructor
  · exact lengthBytes_of_length
  · rintro ⟨h, rfl⟩
    exact length_lengthBytes h rest

theorem element_eq_some_iff {e : Element} :
    element bytes = some (e, rest) ↔ e.Sound ∧ bytes = e.bytes ++ rest := by
  have hBytes : e.bytes ++ rest =
      e.tag :: (lengthBytes e.contents.length ++ (e.contents ++ rest)) := by
    simp [Element.bytes]
  simp only [hBytes, element, bind_eq_some_iff, byte_eq_some_iff, ↓check_bind_eq_some_iff,
    length_eq_some_iff, take_eq_some_iff, pure_eq_some_iff]
  constructor
  · rintro ⟨tag, _, rfl, hKnown, n, _, ⟨hMax, rfl⟩, contents, _, ⟨rfl, rfl⟩, rfl, rfl⟩
    exact ⟨⟨hKnown, hMax⟩, rfl⟩
  · rintro ⟨⟨hKnown, hMax⟩, rfl⟩
    exact ⟨e.tag, _, rfl, hKnown, _, _, ⟨hMax, rfl⟩, e.contents, rest, ⟨rfl, rfl⟩, rfl, rfl⟩

theorem contents_eq_some_iff {tag : UInt8} : contents tag bytes = some (front, rest) ↔
    Element.Sound ⟨tag, front⟩ ∧ bytes = Element.bytes ⟨tag, front⟩ ++ rest := by
  simp only [contents, bind_eq_some_iff, element_eq_some_iff, ↓check_bind_eq_some_iff,
    pure_eq_some_iff, decide_eq_true_eq]
  constructor
  · rintro ⟨e, _, ⟨hSound, rfl⟩, rfl, rfl, rfl⟩
    exact ⟨hSound, rfl⟩
  · rintro ⟨hSound, rfl⟩
    exact ⟨⟨tag, front⟩, rest, ⟨hSound, rfl⟩, rfl, rfl, rfl⟩

theorem sequence_eq_some_iff {reader : Reader α} {a : α} :
    sequence reader bytes = some (a, rest) ↔ ∃ inner, Element.Sound ⟨0x30, inner⟩ ∧
      bytes = Element.bytes ⟨0x30, inner⟩ ++ rest ∧ reader inner = some (a, []) := by
  simp only [sequence, bind_eq_some_iff, contents_eq_some_iff, within_eq_some_iff]
  constructor
  · rintro ⟨inner, _, ⟨hSound, rfl⟩, hRead, rfl⟩
    exact ⟨inner, hSound, rfl, hRead⟩
  · rintro ⟨inner, hSound, rfl, hRead⟩
    exact ⟨inner, rest, ⟨hSound, rfl⟩, hRead, rfl⟩

theorem optionalElement_eq_some_iff {e? : Option Element} :
    optionalElement bytes = some (e?, rest) ↔
      (∀ e ∈ e?, e.Sound) ∧ bytes = row e?.toList ++ rest ∧ (e? = none → rest = []) := by
  cases bytes with
  | nil =>
    have hNone : optionalElement [] = some (none, []) := rfl
    rw [hNone, Option.some.injEq, Prod.mk.injEq]
    constructor
    · rintro ⟨rfl, rfl⟩
      exact ⟨nofun, rfl, fun _ => rfl⟩
    · rintro ⟨-, hBytes, -⟩
      cases e? with
      | none => exact ⟨rfl, hBytes⟩
      | some e => cases hBytes
  | cons b bytes =>
    have hSome : optionalElement (b :: bytes) =
        (element >>= fun e => pure (some e)) (b :: bytes) := rfl
    rw [hSome]
    simp only [bind_eq_some_iff, element_eq_some_iff, pure_eq_some_iff]
    constructor
    · rintro ⟨e, _, ⟨hSound, hBytes⟩, rfl, rfl⟩
      refine ⟨?_, by simpa [row] using hBytes, nofun⟩
      rintro _ ⟨⟩
      exact hSound
    · rintro ⟨hSound, hBytes, hEnd⟩
      cases e? with
      | none =>
        rw [hEnd rfl] at hBytes
        cases hBytes
      | some e => exact ⟨e, rest, ⟨hSound e rfl, by simpa [row] using hBytes⟩, rfl, rfl⟩

/-- The contents of a number: the fewest bytes of which the first says that it is not negative. -/
def naturalBytes (n : Nat) : Bytes :=
  if 0x80 ≤ (BigEndian.writeMinimal n).headD 0 then 0 :: BigEndian.writeMinimal n
  else BigEndian.writeMinimal n

def IsNatural : Bytes → Prop
  | [] => False
  | [b] => b < 0x80
  | a :: b :: _ => a < 0x80 ∧ (a ≠ 0 ∨ 0x80 ≤ b)

theorem naturalBytes_of_head {b : UInt8} (hb : b ≠ 0) (hSign : b < 0x80) (rest : Bytes) :
    naturalBytes (BigEndian.read (b :: rest)) = b :: rest := by
  rw [naturalBytes, BigEndian.writeMinimal_read hb, List.headD_cons,
    if_neg (UInt8.not_le.mpr hSign)]

theorem naturalBytes_of_sign {b : UInt8} (hSign : 0x80 ≤ b) (rest : Bytes) :
    naturalBytes (BigEndian.read (b :: rest)) = 0 :: b :: rest := by
  have hb : b ≠ 0 := by
    rintro rfl
    cases hSign
  rw [naturalBytes, BigEndian.writeMinimal_read hb, List.headD_cons, if_pos hSign]

theorem read_zero_cons (bytes : Bytes) : BigEndian.read (0 :: bytes) = BigEndian.read bytes := by
  rw [BigEndian.read_cons, UInt8.toNat_zero, Nat.zero_mul, Nat.zero_add]

theorem isNatural_naturalBytes (n : Nat) :
    IsNatural (naturalBytes n) ∧ BigEndian.read (naturalBytes n) = n := by
  rcases Nat.eq_zero_or_pos n with rfl | hn
  · exact ⟨(by decide : (0 : UInt8) < 0x80), rfl⟩
  obtain ⟨b, rest, hBytes, hb⟩ := BigEndian.shortest_writeMinimal hn
  have hRead : BigEndian.read (b :: rest) = n := by rw [← hBytes, BigEndian.read_writeMinimal]
  rw [← hRead]
  by_cases hSign : 0x80 ≤ b
  · rw [naturalBytes_of_sign hSign, read_zero_cons]
    exact ⟨⟨by decide, .inr hSign⟩, rfl⟩
  · rw [UInt8.not_le] at hSign
    rw [naturalBytes_of_head hb hSign]
    cases rest with
    | nil => exact ⟨hSign, rfl⟩
    | cons c rest => exact ⟨⟨hSign, .inl hb⟩, rfl⟩

theorem isNatural_iff {n : Nat} : IsNatural bytes ∧ BigEndian.read bytes = n ↔
    bytes = naturalBytes n := by
  constructor
  · rintro ⟨h, rfl⟩
    match bytes, h with
    | [b], h =>
      by_cases hb : b = 0
      · subst hb
        rfl
      · exact (naturalBytes_of_head hb h []).symm
    | a :: b :: rest, ⟨hSign, h⟩ =>
      by_cases ha : a = 0
      · subst ha
        have hb : 0x80 ≤ b := h.resolve_left fun hZero => hZero rfl
        rw [read_zero_cons, naturalBytes_of_sign hb]
      · exact (naturalBytes_of_head ha hSign (b :: rest)).symm
  · rintro rfl
    exact isNatural_naturalBytes n

theorem natural_eq_some_iff {n : Nat} : natural bytes = some (n, rest) ↔
    Element.Sound ⟨0x02, naturalBytes n⟩ ∧
      bytes = Element.bytes ⟨0x02, naturalBytes n⟩ ++ rest := by
  simp only [natural, bind_eq_some_iff, contents_eq_some_iff]
  constructor
  · rintro ⟨inner, mid, ⟨hSound, rfl⟩, hRead⟩
    suffices h : (IsNatural inner ∧ BigEndian.read inner = n) ∧ mid = rest by
      obtain rfl := isNatural_iff.mp h.1
      exact ⟨hSound, by rw [h.2]⟩
    -- One byte is read apart from more of them: the check of its sign is all there is.
    cases inner with
    | nil => cases hRead
    | cons a tail =>
      cases tail with
      | nil | cons b tail =>
        obtain ⟨hSign, hResult⟩ := check_bind_eq_some_iff.mp hRead
        obtain ⟨hn, hRest⟩ := pure_eq_some_iff.mp hResult
        exact ⟨⟨by simpa [IsNatural] using hSign, hn⟩, hRest⟩
  · rintro ⟨hSound, rfl⟩
    refine ⟨naturalBytes n, rest, ⟨hSound, rfl⟩, ?_⟩
    obtain ⟨hNatural, hn⟩ := isNatural_naturalBytes n
    generalize naturalBytes n = inner at hNatural hn
    cases inner with
    | nil => cases hNatural
    | cons a tail =>
      cases tail with
      | nil | cons b tail =>
        exact check_bind_eq_some_iff.mpr
          ⟨by simpa [IsNatural] using hNatural, pure_eq_some_iff.mpr ⟨hn, rfl⟩⟩

theorem wholeBits_eq_some_iff : wholeBits bytes = some (front, rest) ↔
    bytes = 0 :: front ∧ rest = [] := by
  simp only [wholeBits, bind_eq_some_iff, byte_eq_some_iff, ↓check_bind_eq_some_iff,
    decide_eq_true_eq, Option.some.injEq, Prod.mk.injEq]
  constructor
  · rintro ⟨_, mid, rfl, rfl, rfl, rfl⟩
    exact ⟨rfl, rfl⟩
  · rintro ⟨rfl, rfl⟩
    exact ⟨0, front, rfl, rfl, rfl, rfl⟩

section

variable {number fields : Nat} {read : Element → Reader α} {a? : Option α} {mid : Bytes}

/-- A field that a search for another one passes over. -/
def Passed (number : Nat) (e : Element) : Prop :=
  e.Sound ∧ ∃ n < number, contextNumber? e.tag = some n

/-- What a search for a field ends at without having found it. -/
def Past (number : Nat) (bytes : Bytes) : Prop :=
  ∀ tag ∈ bytes.head?, isTag tag = true ∧ ∀ n ∈ contextNumber? tag, number < n

/-- What a search finds where it ends. -/
inductive Found (number : Nat) (read : Element → Reader α) : Bytes → Option α → Bytes → Prop where
  | missing {mid : Bytes} (h : Past number mid) : Found number read mid none mid
  | found {e : Element} {mid rest : Bytes} {a : α} (sound : e.Sound)
    (hNumber : contextNumber? e.tag = some number) (hRead : read e mid = some (a, rest)) :
    Found number read (e.bytes ++ mid) (some a) rest

theorem Element.bytes_append (e : Element) (rest : Bytes) : e.bytes ++ rest =
    e.tag :: (lengthBytes e.contents.length ++ (e.contents ++ rest)) := by
  simp [Element.bytes]

theorem Element.length_lt_bytes_append (e : Element) (rest : Bytes) :
    rest.length < (e.bytes ++ rest).length := by
  rw [bytes_append]
  simp only [List.length_cons, List.length_append]
  omega

theorem row_cons (e : Element) (elements : List Element) :
    row (e :: elements) = e.bytes ++ row elements := rfl

theorem row_append (front back : List Element) : row (front ++ back) = row front ++ row back :=
  List.flatMap_append

theorem length_contents_le_of_mem {e : Element} {elements : List Element} (h : e ∈ elements) :
    e.contents.length ≤ (row elements).length := by
  obtain ⟨front, back, rfl⟩ := List.append_of_mem h
  rw [row_append, row_cons, Element.bytes_append]
  simp only [List.length_append, List.length_cons]
  omega

theorem past_row_iff {elements : List Element} (h : ∀ e ∈ elements, e.Sound) :
    Past number (row elements) ↔
      ∀ e ∈ elements.head?, ∀ n ∈ contextNumber? e.tag, number < n := by
  cases elements with
  | nil => exact iff_of_true nofun nofun
  | cons e elements =>
    have hSound := h e List.mem_cons_self
    simp [Past, row_cons, Element.bytes, hSound.1]

theorem contextField_of_past (h : Past number bytes) (hFields : bytes.length < fields) :
    contextField number read fields bytes = some (none, bytes) := by
  obtain ⟨fields, rfl⟩ := Nat.exists_eq_add_one_of_ne_zero (Nat.ne_zero_of_lt hFields)
  cases bytes with
  | nil => rfl
  | cons tag bytes =>
    obtain ⟨hTag, hNumber⟩ := h tag rfl
    rw [contextField, hTag]
    cases hContext : contextNumber? tag with
    | none => rfl
    | some n => simp [hNumber n hContext]

theorem contextField_of_tag {n : Nat} {e : Element} (hSound : e.Sound)
    (hNumber : contextNumber? e.tag = some n) (hLess : n ≤ number) (rest : Bytes) :
    contextField number read (fields + 1) (e.bytes ++ rest) =
      if n = number then (read e rest).map fun (a, rest) => (some a, rest)
      else contextField number read fields rest := by
  have hElement : element (e.bytes ++ rest) = some (e, rest) :=
    element_eq_some_iff.mpr ⟨hSound, rfl⟩
  rw [Element.bytes_append] at hElement ⊢
  rw [contextField, hSound.1, hNumber, hElement]
  simp [Nat.not_lt.mpr hLess]

theorem front_of_contextField
    (h : contextField number read (fields + 1) bytes = some (a?, rest)) : Past number bytes ∨
      ∃ (e : Element) (n : Nat) (mid : Bytes), e.Sound ∧ contextNumber? e.tag = some n ∧
        n ≤ number ∧ bytes = e.bytes ++ mid := by
  cases bytes with
  | nil => exact .inl nofun
  | cons tag tail =>
    have hPast (hTag : isTag tag = true) (hNumber : ∀ n ∈ contextNumber? tag, number < n) :
        Past number (tag :: tail) := by
      rintro _ ⟨⟩
      exact ⟨hTag, hNumber⟩
    rw [contextField] at h
    split at h
    · cases h
    next hTag =>
    have hTag : isTag tag = true := by simpa using hTag
    split at h
    · next hNone => exact .inl (hPast hTag (by simp [hNone]))
    next n hNumber =>
    split at h
    · next hLess => exact .inl (hPast hTag (by simpa [hNumber] using hLess))
    next hLess =>
    obtain ⟨⟨e, mid⟩, hElement, -⟩ := Option.bind_eq_some_iff.mp h
    obtain ⟨hSound, hBytes⟩ := element_eq_some_iff.mp hElement
    obtain rfl : tag = e.tag := by
      rw [Element.bytes_append] at hBytes
      exact List.head_eq_of_cons_eq hBytes
    exact .inr ⟨e, n, mid, hSound, hNumber, Nat.not_lt.mp hLess, hBytes⟩

theorem exists_of_contextField (hFields : bytes.length < fields)
    (h : contextField number read fields bytes = some (a?, rest)) :
    ∃ passed mid, (∀ e ∈ passed, Passed number e) ∧ bytes = row passed ++ mid ∧
      Found number read mid a? rest := by
  induction fields generalizing bytes with
  | zero => cases hFields
  | succ fields ih =>
    rcases front_of_contextField h with hPast | ⟨e, n, mid, hSound, hNumber, hLess, rfl⟩
    · rw [contextField_of_past hPast hFields] at h
      cases h
      exact ⟨[], _, nofun, rfl, .missing hPast⟩
    rw [contextField_of_tag hSound hNumber hLess] at h
    split at h
    · next hn =>
      obtain ⟨⟨a, mid'⟩, hRead, hResult⟩ := Option.map_eq_some_iff.mp h
      cases hResult
      exact ⟨[], _, nofun, rfl, .found hSound (hn ▸ hNumber) hRead⟩
    · next hn =>
      have hShort := e.length_lt_bytes_append mid
      obtain ⟨passed, mid', hPassed, rfl, hFound⟩ := ih (by omega) h
      have hPassedOver : Passed number e := ⟨hSound, n, Nat.lt_of_le_of_ne hLess hn, hNumber⟩
      exact ⟨e :: passed, mid', List.forall_mem_cons.mpr ⟨hPassedOver, hPassed⟩,
        by rw [row_cons, List.append_assoc], hFound⟩

/-- A field is searched among fields in the order of their numbers. -/
theorem contextField_eq_some_iff (hFields : bytes.length < fields) :
    contextField number read fields bytes = some (a?, rest) ↔
      ∃ passed mid, (∀ e ∈ passed, Passed number e) ∧ bytes = row passed ++ mid ∧
        Found number read mid a? rest := by
  constructor
  · exact exists_of_contextField hFields
  · rintro ⟨passed, mid, hPassed, rfl, hFound⟩
    induction passed generalizing fields with
    | nil =>
      cases hFound with
      | missing h => exact contextField_of_past h hFields
      | @found e mid rest a hSound hNumber hRead =>
        obtain ⟨fields, rfl⟩ := Nat.exists_eq_add_one_of_ne_zero (Nat.ne_zero_of_lt hFields)
        have hNone : row [] ++ (e.bytes ++ mid) = e.bytes ++ mid := rfl
        rw [hNone, contextField_of_tag hSound hNumber (Nat.le_refl _), if_pos rfl, hRead]
        rfl
    | cons e passed ih =>
      obtain ⟨fields, rfl⟩ := Nat.exists_eq_add_one_of_ne_zero (Nat.ne_zero_of_lt hFields)
      obtain ⟨⟨hSound, n, hLess, hNumber⟩, hPassed⟩ := List.forall_mem_cons.mp hPassed
      rw [row_cons, List.append_assoc] at hFields ⊢
      rw [contextField_of_tag hSound hNumber (Nat.le_of_lt hLess), if_neg (Nat.ne_of_lt hLess)]
      have hShort := e.length_lt_bytes_append (row passed ++ mid)
      exact ih hPassed (by omega)

def implicitReader (reader : Reader α) (e : Element) : Reader α := do
  check (!isConstructed e.tag)
  within reader e.contents

theorem implicitReader_eq_some_iff {reader : Reader α} {e : Element} {a : α} :
    implicitReader reader e bytes = some (a, rest) ↔
      isConstructed e.tag = false ∧ reader e.contents = some (a, []) ∧ bytes = rest := by
  rw [implicitReader, check_bind_eq_some_iff, within_eq_some_iff, Bool.not_eq_true']

theorem implicitField_eq_some_iff {reader : Reader α} :
    implicitField number reader bytes = some (a?, rest) ↔
      ∃ passed mid, (∀ e ∈ passed, Passed number e) ∧ bytes = row passed ++ mid ∧
        Found number (implicitReader reader) mid a? rest :=
  contextField_eq_some_iff (Nat.lt_succ_self _)

/-- A field that holds one element and nothing else. -/
def Holds (e : Element) : Prop :=
  e.Sound ∧ (contextNumber? e.tag).isSome = true ∧ isConstructed e.tag = true ∧
    ∃ inner : Element, inner.Sound ∧ e.contents = inner.bytes

theorem anyField_eq_some_iff {u : Unit} : anyField bytes = some (u, rest) ↔
    ∃ e, Holds e ∧ bytes = e.bytes ++ rest := by
  simp only [anyField, bind_eq_some_iff, element_eq_some_iff, ↓check_bind_eq_some_iff,
    within_eq_some_iff, pure_eq_some_iff, Bool.and_eq_true, List.append_nil]
  constructor
  · rintro ⟨e, _, ⟨hSound, rfl⟩, ⟨hContext, hConstructed⟩, inner, _, ⟨hInner, rfl⟩, -, rfl⟩
    exact ⟨e, ⟨hSound, hContext, hConstructed, inner, hInner⟩, rfl⟩
  · rintro ⟨e, ⟨hSound, hContext, hConstructed, inner, hInner⟩, rfl⟩
    exact ⟨e, rest, ⟨hSound, rfl⟩, ⟨hContext, hConstructed⟩, inner, rest, ⟨hInner, rfl⟩, trivial,
      rfl⟩

theorem anyFields_eq_some_iff {u : Unit} (hFields : bytes.length ≤ fields) :
    anyFields fields bytes = some (u, rest) ↔
      ∃ elements, (∀ e ∈ elements, Holds e) ∧ bytes = row elements ∧ rest = [] := by
  have hNil (fields : Nat) : anyFields fields [] = some (u, rest) ↔
      ∃ elements, (∀ e ∈ elements, Holds e) ∧ [] = row elements ∧ rest = [] := by
    have hEnd : anyFields fields [] = some ((), []) := by cases fields <;> rfl
    rw [hEnd]
    constructor
    · rintro ⟨⟩
      exact ⟨[], nofun, rfl, rfl⟩
    · rintro ⟨_, _, _, rfl⟩
      rfl
  induction fields generalizing bytes with
  | zero =>
    obtain rfl := List.eq_nil_of_length_eq_zero (Nat.le_zero.mp hFields)
    exact hNil 0
  | succ fields ih =>
    cases bytes with
    | nil => exact hNil (fields + 1)
    | cons b bytes =>
      rw [anyFields, Option.bind_eq_some_iff]
      · constructor
        · rintro ⟨⟨_, mid⟩, hField, hRest⟩
          obtain ⟨e, hHolds, hBytes⟩ := anyField_eq_some_iff.mp hField
          have hShort := e.length_lt_bytes_append mid
          rw [hBytes] at hFields ⊢
          obtain ⟨elements, hElements, rfl, rfl⟩ := (ih (by omega)).mp hRest
          exact ⟨e :: elements, List.forall_mem_cons.mpr ⟨hHolds, hElements⟩, rfl, rfl⟩
        · rintro ⟨elements, hElements, hBytes, rfl⟩
          cases elements with
          | nil => cases hBytes
          | cons e elements =>
            obtain ⟨hHolds, hElements⟩ := List.forall_mem_cons.mp hElements
            have hShort := e.length_lt_bytes_append (row elements)
            rw [row_cons] at hBytes
            rw [hBytes] at hFields ⊢
            exact ⟨((), row elements), anyField_eq_some_iff.mpr ⟨e, hHolds, rfl⟩,
              (ih (by omega)).mpr ⟨elements, hElements, rfl, rfl⟩⟩
      · nofun

theorem remainingFields_eq_some_iff {u : Unit} : remainingFields bytes = some (u, rest) ↔
    ∃ elements, (∀ e ∈ elements, Holds e) ∧ bytes = row elements ∧ rest = [] :=
  anyFields_eq_some_iff (Nat.le_refl _)

end

end Enrollment.Der
