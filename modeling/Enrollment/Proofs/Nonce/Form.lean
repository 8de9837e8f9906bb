import Enrollment.Nonce
import Enrollment.Proofs.Codec.Base64Flaw
import Enrollment.Proofs.Text.Blank

/-! # The form of a nonce

A text is taken as a nonce exactly if, without the blanks around it, it is the one text of some
bytes, and those are at least one. What is taken is taken again as it is.
-/

namespace Enrollment.ReplayNonce

variable {text : String} {nonce : ReplayNonce}

theorem encodeUrl_ne_empty_iff {bytes : Bytes} : Base64.encodeUrl bytes ≠ "" ↔ bytes ≠ [] := by
  have hEmpty : Base64.encodeUrl [] = "" := rfl
  constructor
  · rintro hText rfl
    exact hText hEmpty
  · intro hBytes hText
    have hRead := Base64.decodeUrl_encodeUrl bytes
    rw [hText, ← hEmpty, Base64.decodeUrl_encodeUrl] at hRead
    exact hBytes (Except.ok.inj hRead).symm

theorem parse_eq_ok_iff : parse text = .ok nonce ↔
    nonce.text = Text.trim text ∧ Text.trim text ≠ "" ∧
      ∃ bytes, Base64.decodeUrl (Text.trim text) = .ok bytes := by
  obtain ⟨value⟩ := nonce
  unfold parse
  dsimp only
  split
  · next hBlank => simp [hBlank]
  · next hText =>
    cases hDecode : Base64.decodeUrl (Text.trim text) with
    | error e => simp
    | ok bytes => simp [hText, eq_comm]

theorem parse_text (h : parse text = .ok nonce) : parse nonce.text = .ok nonce := by
  obtain ⟨hText, hNe, hDecode⟩ := parse_eq_ok_iff.mp h
  rw [parse_eq_ok_iff, hText, Text.trim_trim]
  exact ⟨rfl, hNe, hDecode⟩

theorem parse_eq_ok_iff_encodeUrl : parse text = .ok nonce ↔ nonce.text = Text.trim text ∧
    ∃ bytes, bytes ≠ [] ∧ Text.trim text = Base64.encodeUrl bytes := by
  simp only [parse_eq_ok_iff, Base64.decodeUrl_eq_ok_iff]
  constructor
  · rintro ⟨hNonce, hText, bytes, hBytes⟩
    exact ⟨hNonce, bytes, encodeUrl_ne_empty_iff.mp (hBytes ▸ hText), hBytes⟩
  · rintro ⟨hNonce, bytes, hBytes, hText⟩
    exact ⟨hNonce, hText ▸ encodeUrl_ne_empty_iff.mpr hBytes, bytes, hText⟩

theorem parse_eq_empty_iff : parse text = .error .empty ↔ Text.trim text = "" := by
  unfold parse
  dsimp only
  split
  · next hText => exact iff_of_true rfl hText
  · next hText =>
    refine iff_of_false ?_ hText
    cases Base64.decodeUrl (Text.trim text) <;> exact nofun

theorem parse_eq_encoding_iff : (∃ cause, parse text = .error (.encoding cause)) ↔
    Text.trim text ≠ "" ∧ ¬∃ bytes, Text.trim text = Base64.encodeUrl bytes := by
  simp only [← Base64.decodeUrl_eq_ok_iff]
  unfold parse
  dsimp only
  split
  · next hText => exact iff_of_false nofun fun h => h.1 hText
  · next hText =>
    cases hRead : Base64.decodeUrl (Text.trim text) with
    | ok bytes => exact iff_of_false nofun fun h => h.2 ⟨bytes, rfl⟩
    | error cause => exact iff_of_true ⟨cause, rfl⟩ ⟨hText, nofun⟩

theorem flawed_encode_iff :
    Base64.Flawed (Utf8.encode text) ↔ ¬∃ bytes, text = Base64.encodeUrl bytes := by
  have hSame (bytes : Bytes) :
      Utf8.encode text = Base64.encodeBytes .url bytes ↔ text = Base64.encodeUrl bytes := by
    rw [← Base64.decode_eq_ok_iff, Base64.decode_utf8_eq_ok_iff, Base64.encodeUrl]
  rw [Base64.flawed_iff]
  simp only [hSame]

/-- What is taken as a nonce, what it is then, and what each refusal is for. -/
theorem parse_form (s : String) :
    (∀ nonce, parse s = .ok nonce ↔ nonce.text = Text.trim s ∧
      ∃ bytes, bytes ≠ [] ∧ Text.trim s = Base64.encodeUrl bytes) ∧
    (∀ nonce, parse s = .ok nonce → parse nonce.text = .ok nonce ∧
      ∃ bytes, Base64.decodeUrl nonce.text = .ok bytes ∧ Base64.encodeUrl bytes = nonce.text) ∧
    (parse s = .error .empty ↔ Text.trim s = "") ∧
    ((∃ cause, parse s = .error (.encoding cause)) ↔
      Text.trim s ≠ "" ∧ ¬∃ bytes, Text.trim s = Base64.encodeUrl bytes) ∧
    ((∃ cause, parse s = .error (.encoding cause)) ↔
      Text.trim s ≠ "" ∧ Base64.Flawed (Utf8.encode (Text.trim s))) := by
  refine ⟨fun nonce => parse_eq_ok_iff_encodeUrl, fun nonce h => ⟨parse_text h, ?_⟩,
    parse_eq_empty_iff, parse_eq_encoding_iff, ?_⟩
  · obtain ⟨hNonce, bytes, -, hText⟩ := parse_eq_ok_iff_encodeUrl.mp h
    have hForm : nonce.text = Base64.encodeUrl bytes := hNonce.trans hText
    exact ⟨bytes, Base64.decodeUrl_eq_ok_iff.mpr hForm, hForm.symm⟩
  · rw [parse_eq_encoding_iff, flawed_encode_iff]

/-- A nonce of one byte among blanks, one of them outside ASCII. -/
theorem parse_form_amongBlanks : parse "\u3000 AQ\n" = .ok ⟨"AQ"⟩ ∧ parse "AQ" = .ok ⟨"AQ"⟩ ∧
    ∃ bytes, Base64.decodeUrl "AQ" = .ok bytes ∧ Base64.encodeUrl bytes = "AQ" := by
  have hParsed : parse "\u3000 AQ\n" = .ok ⟨"AQ"⟩ := by decide +kernel
  obtain ⟨-, hAgain, -⟩ := parse_form "\u3000 AQ\n"
  exact ⟨hParsed, hAgain _ hParsed⟩

end Enrollment.ReplayNonce
