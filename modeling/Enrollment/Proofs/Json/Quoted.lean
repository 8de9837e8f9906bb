import Enrollment.Json.Value
import Enrollment.Proofs.Text.Utf8

/-! # Quoted texts there and back

A text is printed between quotes with escapes, and the scanner takes it up to its closing quote and
reads the same text.
-/

namespace Enrollment.Json

open Utf8 (encodeChar)

/-- What the scanner makes of a printed character. -/
def charPieces (c : Char) : List Piece :=
  if c.toNat < 0x20 ∧ c ∉ ['\x08', '\x0c', '\n', '\r', '\t'] then [.unit c.toNat]
  else (encodeChar c).map .byte

/-- What the scanner makes of a printed text. -/
def Quoted.of (s : String) : Quoted := ⟨s.toList.flatMap charPieces, none⟩

def Quoted.prepend (pieces : List Piece) (scanned : Quoted × Bytes) : Quoted × Bytes :=
  (⟨pieces ++ scanned.1.pieces, scanned.1.stop⟩, scanned.2)

theorem scanQuoted_short {e c : UInt8} (h : shortEscape? e = some c) (rest : Bytes) :
    scanQuoted (0x5C :: e :: rest) = Quoted.prepend [.byte c] (scanQuoted rest) := by
  have hUnit : e ≠ 0x75 := by
    rintro rfl
    cases h
  rw [scanQuoted.eq_def]
  simp [hUnit, h, Quoted.prepend]

theorem scanQuoted_unit {h₁ h₂ h₃ h₄ : UInt8} {n : Nat} (h : hexUnit? h₁ h₂ h₃ h₄ = some n)
    (rest : Bytes) :
    scanQuoted (0x5C :: 0x75 :: h₁ :: h₂ :: h₃ :: h₄ :: rest) =
      Quoted.prepend [.unit n] (scanQuoted rest) := by
  rw [scanQuoted.eq_def]
  simp [h, Quoted.prepend]

/-- Whether a byte stands for itself in a quoted text. -/
def isPlainByte (b : UInt8) : Prop := 0x20 ≤ b.toNat ∧ b ≠ 0x22 ∧ b ≠ 0x5C

theorem scanQuoted_plain {b : UInt8} (h : isPlainByte b) (rest : Bytes) :
    scanQuoted (b :: rest) = Quoted.prepend [.byte b] (scanQuoted rest) := by
  obtain ⟨hLow, hQuote, hEscape⟩ := h
  have hControl : ¬b < 0x20 := by
    rw [UInt8.lt_iff_toNat_lt]
    exact Nat.not_lt_of_le hLow
  rw [scanQuoted.eq_def]
  simp [hQuote, hEscape, hControl, Quoted.prepend]

theorem scanQuoted_plains {bytes : Bytes} (h : ∀ b ∈ bytes, isPlainByte b) (rest : Bytes) :
    scanQuoted (bytes ++ rest) = Quoted.prepend (bytes.map .byte) (scanQuoted rest) := by
  induction bytes with
  | nil => rfl
  | cons b bytes ih =>
    rw [List.cons_append, scanQuoted_plain (h b List.mem_cons_self),
      ih fun c hc => h c (List.mem_cons_of_mem _ hc)]
    rfl

theorem hexDigit_byte {k : Nat} (h : k < 16) : ∃ b, encodeChar (Hex.digit k) = [b] ∧
    Hex.value? (Char.ofNat b.toNat) = some k := by
  have hAll : ∀ k < 16, encodeChar (Hex.digit k) = [(Hex.digit k).toNat.toUInt8] ∧
      Hex.value? (Char.ofNat (Hex.digit k).toNat.toUInt8.toNat) = some k := by decide
  exact ⟨_, hAll k h⟩

theorem charPieces_of_printable {c : Char} (h : ¬c.toNat < 0x20) :
    charPieces c = (encodeChar c).map .byte := if_neg fun hControl => h hControl.1

theorem isPlainByte_of_mem {c : Char} {b : UInt8} (hQuote : c ≠ '"') (hEscape : c ≠ '\\')
    (hPrintable : ¬c.toNat < 0x20) (hb : b ∈ encodeChar c) : isPlainByte b := by
  have hChar (d : Char) (h : b.toNat = d.toNat) (hd : d.toNat < 0x80) : c = d := by
    rcases Utf8.of_mem_encodeChar hb with hSame | hHigh
    · exact Char.toNat_inj.mp (hSame.symm.trans h)
    · omega
  refine ⟨?_, ?_, ?_⟩
  · rcases Utf8.of_mem_encodeChar hb with hSame | hHigh <;> omega
  · rintro rfl
    exact hQuote (hChar '"' rfl (by decide))
  · rintro rfl
    exact hEscape (hChar '\\' rfl (by decide))

theorem pieceBytes_bytes (bytes : Bytes) (rest : List Piece) :
    pieceBytes none (bytes.map .byte ++ rest) = (pieceBytes none rest).map (bytes ++ ·) := by
  induction bytes with
  | nil => cases h : pieceBytes none rest <;> simp [h, Except.map]
  | cons b bytes ih =>
    rw [List.map_cons, List.cons_append, pieceBytes, ih]
    cases pieceBytes none rest <;> rfl

theorem scanQuoted_escapedChar (c : Char) (rest : Bytes) :
    scanQuoted ((Value.escapedChar c).flatMap encodeChar ++ rest) =
      Quoted.prepend (charPieces c) (scanQuoted rest) := by
  unfold Value.escapedChar
  split
  · next h => subst h; exact scanQuoted_short rfl rest
  split
  · next h => subst h; exact scanQuoted_short rfl rest
  split
  · next h => subst h; exact scanQuoted_short rfl rest
  split
  · next h => subst h; exact scanQuoted_short rfl rest
  split
  · next h => subst h; exact scanQuoted_short rfl rest
  split
  · next h => subst h; exact scanQuoted_short rfl rest
  split
  · next h => subst h; exact scanQuoted_short rfl rest
  split
  · next hQuote hEscape hBack hFeed hLine hReturn hTab hControl =>
    obtain ⟨h₃, hHigh, hHighValue⟩ := hexDigit_byte (k := c.toNat / 16) (by omega)
    obtain ⟨h₄, hLow, hLowValue⟩ := hexDigit_byte (k := c.toNat % 16) (by omega)
    have hUnit : hexUnit? 0x30 0x30 h₃ h₄ = some c.toNat := by
      have hZero : Hex.value? (Char.ofNat (0x30 : UInt8).toNat) = some 0 := rfl
      simp only [hexUnit?, hZero, hHighValue, hLowValue, Option.bind_eq_bind, Option.bind_some]
      exact congrArg some (by omega)
    have hPieces : charPieces c = [.unit c.toNat] :=
      if_pos ⟨hControl, by simp [hBack, hFeed, hLine, hReturn, hTab]⟩
    rw [hPieces, ← scanQuoted_unit hUnit]
    simp only [List.flatMap_cons, hHigh, hLow, List.flatMap_nil, List.append_nil]
    rfl
  · next hQuote hEscape _ _ _ _ _ hPrintable =>
    rw [charPieces_of_printable hPrintable, List.flatMap_cons, List.flatMap_nil, List.append_nil]
    exact scanQuoted_plains (fun b hb => isPlainByte_of_mem hQuote hEscape hPrintable hb) rest

theorem scanQuoted_textChars (s : String) (rest : Bytes) :
    scanQuoted ((s.toList.flatMap Value.escapedChar).flatMap encodeChar ++ 0x22 :: rest) =
      (Quoted.of s, rest) := by
  rw [Quoted.of]
  induction s.toList with
  | nil => rw [scanQuoted.eq_def]; rfl
  | cons c cs ih =>
    rw [List.flatMap_cons, List.flatMap_append, List.append_assoc, scanQuoted_escapedChar, ih]
    rfl

theorem pieceBytes_charPieces (c : Char) (rest : List Piece) :
    pieceBytes none (charPieces c ++ rest) = (pieceBytes none rest).map (encodeChar c ++ ·) := by
  unfold charPieces
  split
  · next h =>
    rw [List.cons_append, List.nil_append, pieceBytes.eq_def]
    dsimp only
    rw [if_neg (by omega), if_neg (by omega), Char.ofNat_toNat]
  · exact pieceBytes_bytes _ rest

theorem Quoted.read_of (s : String) : (Quoted.of s).read = .ok s := by
  have hBytes : pieceBytes none (s.toList.flatMap charPieces) = .ok (Utf8.encode s) := by
    rw [Utf8.encode]
    induction s.toList with
    | nil => rfl
    | cons c cs ih =>
      rw [List.flatMap_cons, pieceBytes_charPieces, ih]
      rfl
  simp only [Quoted.read, Quoted.of, hBytes, Utf8.decode?_encode]

end Enrollment.Json
