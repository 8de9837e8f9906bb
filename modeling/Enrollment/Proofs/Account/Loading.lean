import Enrollment.Account.Key
import Enrollment.Proofs.Account.StoredForm
import Enrollment.Proofs.Pem.Layout

/-! # The ways to load a key

A scalar, the encoding that it is stored in and a text around that encoding stand for one key. Of
what is stored, the algorithm is looked at first and the curve next: what is not known is named,
and nothing but the curve decides how a key on a curve signs.
-/

namespace Enrollment

open Der (Element row naturalBytes)

namespace StoredKey

variable {stored : StoredKey} {bytes : Bytes}

/-- Parameters that name no known curve, and what is said of them. -/
inductive UnknownCurve : Option Element → Option ObjectId → Prop where
  | missing : UnknownCurve none none
  | unnamed {e : Element} (h : ∀ oid : ObjectId, e ≠ oid.element) : UnknownCurve (some e) none
  | other {oid : ObjectId} (h : ∀ c, oid ≠ curveId c) : UnknownCurve (some oid.element) (some oid)

theorem lookup_curves_eq_some_iff {oid : ObjectId} {c : Curve} :
    curves.lookup oid = some c ↔ oid = curveId c := by
  by_cases h256 : oid = curveId .p256
  · subst h256
    cases c <;> decide
  by_cases h384 : oid = curveId .p384
  · subst h384
    cases c <;> decide
  have hNone : curves.lookup oid = none := by
    simp only [curves, List.lookup_cons, beq_false_of_ne h256, beq_false_of_ne h384,
      List.lookup_nil]
  rw [hNone]
  refine iff_of_false nofun ?_
  cases c
  · exact h256
  · exact h384

theorem parameterId?_eq_some_iff {oid : ObjectId} :
    stored.parameterId? = some oid ↔ stored.parameters = some oid.element := by
  unfold parameterId?
  cases stored.parameters with
  | none => exact iff_of_false nofun nofun
  | some e =>
    obtain ⟨tag, contents⟩ := e
    dsimp only
    rw [Option.some.injEq, ObjectId.element, Element.mk.injEq]
    split
    · next hTag => simp [hTag, ObjectId.ofContents?_eq_some_iff]
    · next hTag => simp [hTag]

theorem parameterId?_eq_none_iff : stored.parameterId? = none ↔
    ∀ oid : ObjectId, stored.parameters ≠ some oid.element := by
  simp only [Option.eq_none_iff_forall_ne_some, ne_eq, parameterId?_eq_some_iff]

theorem readRsa_cases (stored : StoredKey) : stored.readRsa = .error .encoding ∨
    ∃ key valid, stored.readRsa = .ok (.rsa key valid) := by
  unfold readRsa
  repeat' split
  · exact .inr ⟨_, ‹_›, rfl⟩
  all_goals exact .inl rfl

theorem readCurve_cases (c : Curve) (stored : StoredKey) :
    stored.readCurve c = .error .encoding ∨
      ∃ scalar valid, stored.readCurve c = .ok (.curve c scalar valid) := by
  unfold readCurve
  split
  · exact .inl rfl
  dsimp only
  repeat' split
  · exact .inr ⟨_, ‹_›, rfl⟩
  all_goals exact .inl rfl

/-- All that reading a stored key can come to. -/
inductive Reading (stored : StoredKey) : Except KeyError SecretKey → Prop where
  | rsa {key : Rsa.PrivateKey} {valid : key.isValid = true} (h : stored.algorithm = rsaAlgorithm) :
    Reading stored (.ok (.rsa key valid))
  | brokenRsa (h : stored.algorithm = rsaAlgorithm) : Reading stored (.error .encoding)
  | unknownAlgorithm (hRsa : stored.algorithm ≠ rsaAlgorithm)
    (hCurve : stored.algorithm ≠ curveAlgorithm) :
    Reading stored (.error (.algorithm stored.algorithm))
  | unknownCurve {oid? : Option ObjectId} (h : stored.algorithm = curveAlgorithm)
    (hUnknown : UnknownCurve stored.parameters oid?) : Reading stored (.error (.curve oid?))
  | curve {c : Curve} {scalar : Nat} {valid : c.isScalar scalar = true}
    (h : stored.algorithm = curveAlgorithm)
    (hCurve : stored.parameters = some (curveId c).element) :
    Reading stored (.ok (.curve c scalar valid))
  | brokenCurve {c : Curve} (h : stored.algorithm = curveAlgorithm)
    (hCurve : stored.parameters = some (curveId c).element) : Reading stored (.error .encoding)

theorem reading_read (stored : StoredKey) : Reading stored stored.read := by
  unfold read
  split
  · next hRsa =>
    obtain hRead | ⟨key, valid, hRead⟩ := stored.readRsa_cases
    · exact hRead ▸ .brokenRsa hRsa
    · exact hRead ▸ .rsa hRsa
  next hRsa =>
  split
  · next hCurve => exact .unknownAlgorithm hRsa hCurve
  next hCurve =>
  have hCurve : stored.algorithm = curveAlgorithm := Decidable.not_not.mp hCurve
  split
  · next hNone =>
    rw [parameterId?_eq_none_iff] at hNone
    refine .unknownCurve hCurve ?_
    cases hParameters : stored.parameters with
    | none => exact .missing
    | some e => exact .unnamed fun oid he => hNone oid (by rw [hParameters, he])
  · next oid hSome =>
    rw [parameterId?_eq_some_iff] at hSome
    split
    · next c hLookup =>
      rw [lookup_curves_eq_some_iff.mp hLookup] at hSome
      obtain hRead | ⟨scalar, valid, hRead⟩ := stored.readCurve_cases c
      · exact hRead ▸ .brokenCurve hCurve hSome
      · exact hRead ▸ .curve hCurve hSome
    · next hLookup =>
      refine .unknownCurve hCurve ?_
      rw [hSome]
      refine .other fun c hc => ?_
      cases hLookup.symm.trans (lookup_curves_eq_some_iff.mpr hc)

theorem UnknownCurve.unique {parameters : Option Element} {oid? oid?' : Option ObjectId}
    (h : UnknownCurve parameters oid?) (h' : UnknownCurve parameters oid?') : oid? = oid?' := by
  cases h with
  | missing => cases h'; rfl
  | unnamed h =>
    cases h' with
    | unnamed => rfl
    | other => exact absurd rfl (h _)
  | @other oid h =>
    generalize hParameters : some oid.element = parameters at h'
    cases h' with
    | missing => cases hParameters
    | unnamed h' => exact absurd (Option.some.inj hParameters).symm (h' _)
    | other h' => rw [ObjectId.element_injective (Option.some.inj hParameters)]

theorem UnknownCurve.not_curveId {parameters : Option Element} {oid? : Option ObjectId}
    (h : UnknownCurve parameters oid?) (c : Curve) :
    parameters ≠ some (curveId c).element := by
  rintro rfl
  generalize hParameters : some (curveId c).element = parameters at h
  cases h with
  | missing => cases hParameters
  | unnamed h => exact absurd (Option.some.inj hParameters).symm (h _)
  | other h => exact h c (ObjectId.element_injective (Option.some.inj hParameters).symm)

variable {result : Except KeyError SecretKey}

theorem rsaAlgorithm_ne_curveAlgorithm : rsaAlgorithm ≠ curveAlgorithm := by decide

namespace Reading

theorem algorithm_iff (h : Reading stored result) {oid : ObjectId} :
    result = .error (.algorithm oid) ↔
      oid = stored.algorithm ∧ oid ≠ rsaAlgorithm ∧ oid ≠ curveAlgorithm := by
  cases h with
  | unknownAlgorithm hRsa hCurve =>
    simp only [Except.error.injEq, KeyError.algorithm.injEq]
    constructor
    · rintro rfl
      exact ⟨rfl, hRsa, hCurve⟩
    · rintro ⟨rfl, -⟩
      rfl
  | rsa h | brokenRsa h =>
    refine iff_of_false nofun ?_
    rintro ⟨rfl, hRsa, -⟩
    exact hRsa h
  | unknownCurve h | curve h | brokenCurve h =>
    refine iff_of_false nofun ?_
    rintro ⟨rfl, -, hCurve⟩
    exact hCurve h

theorem curve_iff (h : Reading stored result) {oid? : Option ObjectId} :
    result = .error (.curve oid?) ↔
      stored.algorithm = curveAlgorithm ∧ UnknownCurve stored.parameters oid? := by
  cases h with
  | unknownCurve h hUnknown =>
    simp only [Except.error.injEq, KeyError.curve.injEq]
    constructor
    · rintro rfl
      exact ⟨h, hUnknown⟩
    · rintro ⟨-, hUnknown'⟩
      exact hUnknown.unique hUnknown'
  | rsa h | brokenRsa h =>
    refine iff_of_false nofun ?_
    rintro ⟨hCurve, -⟩
    exact rsaAlgorithm_ne_curveAlgorithm (h.symm.trans hCurve)
  | unknownAlgorithm hRsa hCurve => exact iff_of_false nofun fun hBoth => hCurve hBoth.1
  | curve h hCurve | brokenCurve h hCurve =>
    refine iff_of_false nofun ?_
    rintro ⟨-, hUnknown⟩
    exact hUnknown.not_curveId _ hCurve

end Reading

end StoredKey

namespace SecretKey

def curveAlgorithmName : Curve → String
  | .p256 => "ES256"
  | .p384 => "ES384"

/-- What is said of a stored key, by its algorithm and the curve that its parameters name. -/
structure Told (stored : StoredKey) (result : Except KeyError SecretKey) : Prop where
  algorithm : ∀ oid, result = .error (.algorithm oid) ↔
    oid = stored.algorithm ∧ oid ≠ StoredKey.rsaAlgorithm ∧ oid ≠ StoredKey.curveAlgorithm
  named : stored.algorithm ≠ StoredKey.rsaAlgorithm → stored.algorithm ≠ StoredKey.curveAlgorithm →
    ∃ e, result = .error e ∧ e.message = "desteklenmeyen hesap anahtarı algoritması: " ++
      ".".intercalate (stored.algorithm.arcs.map toString)
  curve : ∀ oid?, result = .error (.curve oid?) ↔
    stored.algorithm = StoredKey.curveAlgorithm ∧ StoredKey.UnknownCurve stored.parameters oid?
  loaded : ∀ key, result = .ok key →
    stored.algorithm = StoredKey.rsaAlgorithm ∧ key.algorithm = "RS256" ∨
    stored.algorithm = StoredKey.curveAlgorithm ∧
      ∃ c, stored.parameters = some (StoredKey.curveId c).element ∧
        (∃ scalar valid, key = .curve c scalar valid) ∧ key.algorithm = curveAlgorithmName c

theorem told_of_wellFormed {der : Bytes} {stored : StoredKey}
    (h : StoredKey.WellFormed der stored) : Told stored (ofDer der) := by
  have hRead := stored.reading_read
  rw [ofDer, StoredKey.ofDer?_eq_some_iff.mpr h]
  constructor
  · exact fun _ => hRead.algorithm_iff
  · intro hRsa hCurve
    exact ⟨_, hRead.algorithm_iff.mpr ⟨rfl, hRsa, hCurve⟩, rfl⟩
  · exact fun _ => hRead.curve_iff
  · intro key hKey
    dsimp only at hKey
    rw [hKey] at hRead
    cases hRead with
    | rsa h => exact .inl ⟨h, rfl⟩
    | @curve c scalar valid h hCurve =>
      refine .inr ⟨h, c, hCurve, ⟨scalar, valid, rfl⟩, ?_⟩
      cases c <;> rfl

/-- A scalar of 32 bytes in an encoding of its own, without its curve and its point. -/
def scalarEncoding (bytes : Bytes) : Bytes := [0x30, 0x25, 0x02, 0x01, 0x01, 0x04, 0x20] ++ bytes

/-- What is stored of a scalar of P-256: the version, the algorithm with the curve, the scalar. -/
def standardContents (bytes : Bytes) : Bytes :=
  [0x02, 0x01, 0x00] ++
  [0x30, 0x13, 0x06, 0x07, 0x2A, 0x86, 0x48, 0xCE, 0x3D, 0x02, 0x01,
    0x06, 0x08, 0x2A, 0x86, 0x48, 0xCE, 0x3D, 0x03, 0x01, 0x07] ++
  [0x04, 0x27] ++ scalarEncoding bytes

def standardEncoding (bytes : Bytes) : Bytes := [0x30, 0x41] ++ standardContents bytes

def standardLayout (bytes : Bytes) : StoredKey.Layout where
  stored := ⟨StoredKey.curveAlgorithm, some (StoredKey.curveId .p256).element, scalarEncoding bytes⟩
  attributes := []
  publicKey := none
  extensions := []

section

variable {bytes : Bytes}

theorem row_standardLayout (h : bytes.length = 32) :
    row (standardLayout bytes).elements = standardContents bytes := by
  have hVersion : Element.bytes ⟨0x02, naturalBytes (standardLayout bytes).version⟩ =
      [0x02, 0x01, 0x00] := (by decide : Element.bytes ⟨0x02, naturalBytes 0⟩ = _)
  have hKey : Element.bytes ⟨0x04, (standardLayout bytes).stored.key⟩ =
      [0x04, 0x27] ++ scalarEncoding bytes := by
    simp [standardLayout, Element.bytes, scalarEncoding, h, Der.lengthBytes]
  have hFields : row (standardLayout bytes).attributes ++
      (row (standardLayout bytes).publicKey.toList ++ row (standardLayout bytes).extensions) = [] :=
    rfl
  rw [StoredKey.Layout.row_elements, hVersion, hKey, hFields, List.append_nil]
  rfl

theorem length_standardContents (h : bytes.length = 32) :
    (standardContents bytes).length = 0x41 := by
  simp [standardContents, scalarEncoding, h]

theorem wellFormed_standardEncoding (h : bytes.length = 32) :
    StoredKey.WellFormed (standardEncoding bytes) (standardLayout bytes).stored := by
  have hRow := row_standardLayout h
  have hLength := length_standardContents h
  refine ⟨standardLayout bytes, ⟨?_, ?_, nofun, nofun, nofun, nofun⟩, rfl, ?_⟩
  · rw [hRow, hLength]
    decide
  · rintro _ ⟨⟩
    exact ObjectId.sound_element _
  · rw [StoredKey.Layout.bytes, hRow, Element.bytes, hLength]
    rfl

theorem curveReader_scalarEncoding (h : bytes.length = 32) :
    StoredKey.curveReader.all (scalarEncoding bytes) = some (bytes, none) := by
  have hVersion : Element.bytes ⟨0x02, naturalBytes 1⟩ = [0x02, 0x01, 0x01] := by decide
  have hVersionSound : Element.Sound ⟨0x02, naturalBytes 1⟩ :=
    ⟨(by decide : Der.isTag 0x02 = true), by decide⟩
  have hScalar : Element.bytes ⟨0x04, bytes⟩ = [0x04, 0x20] ++ bytes := by
    rw [Element.bytes, h]
    rfl
  have hScalarSound : Element.Sound ⟨0x04, bytes⟩ :=
    ⟨(by decide : Der.isTag 0x04 = true), h.trans_le (by decide)⟩
  have hInner : Element.bytes ⟨0x02, naturalBytes 1⟩ ++ (Element.bytes ⟨0x04, bytes⟩ ++ []) =
      [0x02, 0x01, 0x01, 0x04, 0x20] ++ bytes := by
    rw [hVersion, hScalar, List.append_nil]
    rfl
  have hLength : ([0x02, 0x01, 0x01, 0x04, 0x20] ++ bytes).length = 0x25 := by
    rw [List.length_append, h]
    rfl
  rw [Der.all_eq_some_iff, StoredKey.curveReader, Der.sequence_eq_some_iff]
  refine ⟨[0x02, 0x01, 0x01, 0x04, 0x20] ++ bytes,
    ⟨(by decide : Der.isTag 0x30 = true), ?_⟩, ?_, ?_⟩
  · exact hLength.trans_le (by decide)
  · rw [Element.bytes, hLength, List.append_nil]
    rfl
  · rw [← hInner]
    refine Der.bind_eq_some_iff.mpr
      ⟨1, _, Der.natural_eq_some_iff.mpr ⟨hVersionSound, rfl⟩, ?_⟩
    refine Der.check_bind_eq_some_iff.mpr ⟨rfl, ?_⟩
    exact Der.bind_eq_some_iff.mpr
      ⟨bytes, [], Der.contents_eq_some_iff.mpr ⟨hScalarSound, rfl⟩, rfl⟩

theorem readCurve_standard (h : bytes.length = 32) :
    (standardLayout bytes).stored.readCurve .p256 =
      if valid : Curve.isScalar .p256 (BigEndian.read bytes) then
        .ok (.curve .p256 (BigEndian.read bytes) valid)
      else .error .encoding := by
  have hKey : (standardLayout bytes).stored.key = scalarEncoding bytes := rfl
  have hSize : StoredKey.hasScalarSize .p256 bytes.length = true := by
    rw [h]
    decide
  rw [StoredKey.readCurve, hKey, curveReader_scalarEncoding h]
  simp only [hSize, Option.all_none, Bool.and_self, if_true]

theorem read_standard (bytes : Bytes) :
    (standardLayout bytes).stored.read = (standardLayout bytes).stored.readCurve .p256 := by
  have hCurve : (standardLayout bytes).stored.parameterId? = some (StoredKey.curveId .p256) :=
    StoredKey.parameterId?_eq_some_iff.mpr rfl
  have hLookup : StoredKey.curves.lookup (StoredKey.curveId .p256) = some .p256 :=
    StoredKey.lookup_curves_eq_some_iff.mpr rfl
  have hAlgorithm : (standardLayout bytes).stored.algorithm = StoredKey.curveAlgorithm := rfl
  rw [StoredKey.read, hAlgorithm, if_neg StoredKey.rsaAlgorithm_ne_curveAlgorithm.symm,
    if_neg (not_not_intro rfl), hCurve]
  dsimp only
  rw [hLookup]

theorem ofDer_standardEncoding (h : bytes.length = 32) :
    ofDer (standardEncoding bytes) =
      if valid : Curve.isScalar .p256 (BigEndian.read bytes) then
        .ok (.curve .p256 (BigEndian.read bytes) valid)
      else .error .encoding := by
  rw [ofDer, StoredKey.ofDer?_eq_some_iff.mpr (wellFormed_standardEncoding h)]
  exact (read_standard bytes).trans (readCurve_standard h)

theorem ofPem_of_written {der : Bytes} {text : String} (h : Pem.Written ⟨pemTag, der⟩ text) :
    ofPem text = ofDer der := by
  rw [ofPem, h.parse_eq (by decide : pemTag ≠ "") (by decide : '-' ∉ pemTag.toList)]
  exact if_pos rfl

/-- A scalar is loaded as one key in whatever way, or in none. -/
structure RoutesAgree (bytes : Bytes) : Prop where
  loads_iff : (∃ key, ofScalar .p256 bytes = .ok key) ↔
    1 ≤ BigEndian.read bytes ∧ BigEndian.read bytes < Curve.order .p256
  loaded : ∀ key, ofScalar .p256 bytes = .ok key → ofDer (standardEncoding bytes) = .ok key ∧
    ∀ text, Pem.Written ⟨pemTag, standardEncoding bytes⟩ text → ofPem text = .ok key
  failed : ∀ e, ofScalar .p256 bytes = .error e → e = .scalarRange ∧
    ofDer (standardEncoding bytes) = .error .encoding ∧
    ∀ text, Pem.Written ⟨pemTag, standardEncoding bytes⟩ text → ofPem text = .error .encoding

theorem routesAgree_of_length (h : bytes.length = 32) : RoutesAgree bytes := by
  have hDer := ofDer_standardEncoding h
  have hScalar : Curve.isScalar .p256 (BigEndian.read bytes) = true ↔
      1 ≤ BigEndian.read bytes ∧ BigEndian.read bytes < Curve.order .p256 := by
    rw [Curve.isScalar, Bool.and_eq_true, decide_eq_true_eq, decide_eq_true_eq]
    rfl
  by_cases valid : Curve.isScalar .p256 (BigEndian.read bytes) = true
  · have hOk : ofScalar .p256 bytes = .ok (.curve .p256 (BigEndian.read bytes) valid) :=
      dif_pos valid
    rw [dif_pos valid] at hDer
    constructor
    · exact iff_of_true ⟨_, hOk⟩ (hScalar.mp valid)
    · intro key hKey
      obtain rfl := Except.ok.inj (hOk.symm.trans hKey)
      exact ⟨hDer, fun text hText => (ofPem_of_written hText).trans hDer⟩
    · intro e hError
      cases hOk.symm.trans hError
  · have hRange : ofScalar .p256 bytes = .error .scalarRange := dif_neg valid
    rw [dif_neg valid] at hDer
    constructor
    · refine iff_of_false ?_ (mt hScalar.mpr valid)
      rintro ⟨key, hKey⟩
      cases hRange.symm.trans hKey
    · intro key hKey
      cases hRange.symm.trans hKey
    · intro e hError
      obtain rfl := Except.error.inj (hRange.symm.trans hError)
      exact ⟨rfl, hDer, fun text hText => (ofPem_of_written hText).trans hDer⟩

end

/-- Whatever way a key is loaded, it is the same key, and what is stored says which. -/
theorem loading_agrees :
    (∀ bytes : Bytes, bytes.length = 32 → RoutesAgree bytes) ∧
    (∀ (der : Bytes) (stored : StoredKey), StoredKey.WellFormed der stored →
      Told stored (ofDer der)) :=
  ⟨fun _ => routesAgree_of_length, fun _ _ => told_of_wellFormed⟩

/-- A key of an algorithm that accounts have no use for. -/
def edwardsKey : StoredKey :=
  ⟨⟨[0x2B, 0x65, 0x70], [1, 3, 101, 112], by decide⟩, none, [0x04, 0x20] ++ List.replicate 32 7⟩

def edwardsEncoding : Bytes :=
  [0x30, 0x2E, 0x02, 0x01, 0x00, 0x30, 0x05, 0x06, 0x03, 0x2B, 0x65, 0x70, 0x04, 0x22, 0x04,
    0x20] ++ List.replicate 32 7

theorem agrees_of_sevens :
    (∃ key, ofScalar .p256 (List.replicate 32 7) = .ok key ∧
      ofDer (standardEncoding (List.replicate 32 7)) = .ok key) ∧
    StoredKey.WellFormed edwardsEncoding edwardsKey ∧ Told edwardsKey (ofDer edwardsEncoding) := by
  have hRoutes := loading_agrees.1 (List.replicate 32 7) rfl
  obtain ⟨key, hKey⟩ := hRoutes.loads_iff.mpr (by decide +kernel)
  have hWellFormed : StoredKey.WellFormed edwardsEncoding edwardsKey :=
    StoredKey.ofDer?_eq_some_iff.mp (by decide +kernel)
  exact ⟨⟨key, hKey, (hRoutes.loaded key hKey).1⟩, hWellFormed,
    loading_agrees.2 _ _ hWellFormed⟩

end SecretKey

end Enrollment
