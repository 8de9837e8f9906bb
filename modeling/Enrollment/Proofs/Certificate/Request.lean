import Enrollment.Certificate
import Enrollment.Proofs.Pem.Layout

/-! # Requests that complete an order

A request holds the bytes of its signing request in the URL alphabet of base64. A text around the
same bytes makes the same request, however its lines are laid out, and of a text only the first
block counts.
-/

namespace Enrollment.FinalizeRequest

variable {der : Bytes} {request : FinalizeRequest} {text : String} {frame : Pem.Frame} {pem : Pem}

theorem ofDer_eq_ok_iff :
    ofDer der = .ok request ↔ der ≠ [] ∧ request = ⟨Base64.encodeUrl der⟩ := by
  unfold ofDer
  split
  · next hEmpty => simp [hEmpty]
  · next hSome => simp [hSome, eq_comm]

theorem decodeUrl_csr (h : ofDer der = .ok request) :
    Base64.decodeUrl request.csr = .ok der := by
  obtain ⟨-, rfl⟩ := ofDer_eq_ok_iff.mp h
  exact Base64.decodeUrl_encodeUrl der

theorem csr_ne_empty (h : ofDer der = .ok request) : request.csr ≠ "" := by
  intro hEmpty
  have hDecoded := decodeUrl_csr h
  rw [hEmpty] at hDecoded
  exact (ofDer_eq_ok_iff.mp h).1 (Except.ok.inj hDecoded).symm

theorem ofDer_injective {other : Bytes} (hDer : der ≠ []) (h : ofDer der = ofDer other) :
    der = other := by
  have hRequest := ofDer_eq_ok_iff.mpr ⟨hDer, rfl⟩
  exact Except.ok.inj ((decodeUrl_csr hRequest).symm.trans (decodeUrl_csr (h ▸ hRequest)))

theorem sound_tags : ∀ tag ∈ tags, tag ≠ "" ∧ '-' ∉ tag.toList := by decide

theorem ofPem_of_parse (h : Pem.parse text = .ok pem) (hTag : pem.tag ∈ tags) :
    ofPem text = ofDer pem.contents := by
  rw [ofPem, h]
  exact if_pos (List.contains_iff_mem.mpr hTag)

theorem ofPem_of_written {tag : String} (hTag : tag ∈ tags) (h : Pem.Written ⟨tag, der⟩ text) :
    ofPem text = ofDer der :=
  ofPem_of_parse (h.parse_eq (sound_tags tag hTag).1 (sound_tags tag hTag).2) hTag

theorem ofPem_eq_ok_iff : ofPem text = .ok request ↔
    ∃ frame pem, Pem.First text.toList frame ∧ Pem.Carries frame pem ∧ pem.tag ∈ tags ∧
      ofDer pem.contents = .ok request := by
  constructor
  · intro h
    unfold ofPem at h
    split at h
    · cases h
    · next pem hPem =>
      obtain ⟨frame, first, carries⟩ := Pem.parse_eq_ok_iff.mp hPem
      split at h
      · next hTag => exact ⟨frame, pem, first, carries, List.contains_iff_mem.mp hTag, h⟩
      · cases h
  · rintro ⟨frame, pem, first, carries, hTag, hDer⟩
    rw [ofPem_of_parse (Pem.parse_eq_ok_iff.mpr ⟨frame, first, carries⟩) hTag, hDer]

/-- A first block with another tag is refused, whether it is sound or not. -/
theorem ofPem_of_other_tag (h : Pem.First text.toList frame)
    (hTag : ∀ tag ∈ tags, frame.opening ≠ tag.toList) :
    ∃ reason, ofPem text = .error (.invalidRequest reason) := by
  unfold ofPem
  rw [h.parse_eq]
  cases hPem : Pem.decode frame with
  | error e => exact ⟨_, rfl⟩
  | ok pem =>
    have carries := Pem.decode_eq_ok_iff.mp hPem
    have hOther : ¬tags.contains pem.tag = true := by
      rw [List.contains_iff_mem]
      intro hMem
      exact hTag _ hMem carries.opening_eq
    exact ⟨_, if_neg hOther⟩

/-- The block of a text that a request is made of: none begins on a line before it, and its bytes
are the ones that the request holds. -/
inductive TakenFrom (request : FinalizeRequest) : List Char → Prop where
  | intro {before start rest : List Char} {frame : Pem.Frame} {pem : Pem}
    (stands : Pem.Stands start frame rest)
    (earliest : ∀ front back, before ++ start = front ++ back → Pem.EndsLine front →
      "-----BEGIN ".toList <+: back → before.length ≤ front.length)
    (carries : Pem.Carries frame pem) (hTag : pem.tag ∈ tags)
    (hBytes : Base64.decodeUrl request.csr = .ok pem.contents) :
    TakenFrom request (before ++ start)

theorem takenFrom_of_ofPem (h : ofPem text = .ok request) : request.TakenFrom text.toList := by
  obtain ⟨frame, pem, first, carries, hTag, hDer⟩ := ofPem_eq_ok_iff.mp h
  obtain ⟨before, start, rest, hText, stands, earliest⟩ := first.earliest
  rw [hText] at earliest ⊢
  exact .intro stands earliest carries hTag (decodeUrl_csr hDer)

/-- Nothing is lost of a signing request: the bytes are read back from the request, a text with
lines of any width makes the same one, and any text that makes one has those bytes in its first
block. -/
theorem csr_lossless :
    (∀ der : Bytes, der ≠ [] → ∃ request, ofDer der = .ok request ∧
      Base64.decodeUrl request.csr = .ok der ∧
      ∀ tag ∈ tags, ∀ text, Pem.Written ⟨tag, der⟩ text → ofPem text = .ok request) ∧
    (∀ der other : Bytes, der ≠ [] → other ≠ [] → der ≠ other → ofDer der ≠ ofDer other) ∧
    (∀ text request, ofPem text = .ok request ↔ ∃ frame pem, Pem.First text.toList frame ∧
      Pem.Carries frame pem ∧ pem.tag ∈ tags ∧ ofDer pem.contents = .ok request) ∧
    (∀ text request, ofPem text = .ok request →
      request.TakenFrom text.toList ∧ request.csr ≠ "") ∧
    (∀ text frame, Pem.First text.toList frame → (∀ tag ∈ tags, frame.opening ≠ tag.toList) →
      ∃ reason, ofPem text = .error (.invalidRequest reason)) := by
  refine ⟨?_, ?_, ?_, ?_, ?_⟩
  · intro der hDer
    have hRequest := ofDer_eq_ok_iff.mpr ⟨hDer, rfl⟩
    exact ⟨_, hRequest, decodeUrl_csr hRequest,
      fun tag hTag text h => (ofPem_of_written hTag h).trans hRequest⟩
  · intro der other hDer _ hDiffer hSame
    exact hDiffer (ofDer_injective hDer hSame)
  · exact fun text request => ofPem_eq_ok_iff
  · intro text request h
    obtain ⟨frame, pem, first, carries, hTag, hDer⟩ := ofPem_eq_ok_iff.mp h
    exact ⟨takenFrom_of_ofPem h, csr_ne_empty hDer⟩
  · exact fun text frame => ofPem_of_other_tag

/-- Three bytes whose symbols differ in the two alphabets. -/
def threeBytes : Bytes := [0xFB, 0xFF, 0x01]

/-- Their block, in lines of two symbols. -/
def narrowBlock : String :=
  "-----BEGIN NEW CERTIFICATE REQUEST-----\r\n+/\r\n8B\r\n-----END NEW CERTIFICATE REQUEST-----"

theorem written_narrowBlock : Pem.Written ⟨"NEW CERTIFICATE REQUEST", threeBytes⟩ narrowBlock := by
  have hSymbols : (Base64.encode .standard threeBytes).toList = ['+', '/'] ++ (['8', 'B'] ++ []) :=
    by decide +kernel
  have hLines := Pem.InLines.cons (List.cons_ne_nil '+' ['/']) .carriageFeed
    (.cons (List.cons_ne_nil '8' ['B']) .carriageFeed .nil)
  rw [← hSymbols] at hLines
  have hWritten : Pem.Written ⟨"NEW CERTIFICATE REQUEST", threeBytes⟩ _ :=
    .intro .carriageFeed none hLines
  exact (congrArg _ (by decide +kernel)).mpr hWritten

/-- A certificate in front of the block. -/
def certificateFirst : String := Pem.print ⟨"CERTIFICATE", threeBytes⟩ ++ narrowBlock

theorem first_certificateFirst :
    Pem.First certificateFirst.toList (Pem.printed ⟨"CERTIFICATE", threeBytes⟩) := by
  have hHead : narrowBlock.toList.head? = some '-' := by decide +kernel
  have hNext : Pem.Unindented narrowBlock.toList := by
    rw [Pem.Unindented, hHead]
    rintro _ ⟨⟩
    rfl
  have stands : Pem.Stands _ (Pem.printed ⟨"CERTIFICATE", threeBytes⟩) _ :=
    Pem.stands_print (by decide) hNext
  rw [← String.toList_append] at stands
  exact .intro .nil stands

theorem csr_lossless_threeBytes :
    threeBytes ≠ [] ∧ ofDer threeBytes = .ok ⟨"-_8B"⟩ ∧
      Base64.decodeUrl "-_8B" = .ok threeBytes ∧ ofDer threeBytes ≠ ofDer [0xFB] ∧
      Pem.Written ⟨"NEW CERTIFICATE REQUEST", threeBytes⟩ narrowBlock ∧
      ofPem narrowBlock = .ok ⟨"-_8B"⟩ ∧ TakenFrom ⟨"-_8B"⟩ narrowBlock.toList ∧
      ∃ reason, ofPem certificateFirst = .error (.invalidRequest reason) := by
  obtain ⟨hBytes, hDistinct, -, hTaken, hOther⟩ := csr_lossless
  have hRequest : ofDer threeBytes = .ok ⟨"-_8B"⟩ := by decide +kernel
  obtain ⟨request, hSame, hDecoded, hTexts⟩ := hBytes threeBytes (by decide)
  cases hSame.symm.trans hRequest
  have hPem := hTexts "NEW CERTIFICATE REQUEST" (by decide) _ written_narrowBlock
  refine ⟨by decide, hRequest, hDecoded, hDistinct _ _ (by decide) (by decide) (by decide),
    written_narrowBlock, hPem, (hTaken _ _ hPem).1, ?_⟩
  exact hOther _ _ first_certificateFirst (by decide +kernel)

end Enrollment.FinalizeRequest
