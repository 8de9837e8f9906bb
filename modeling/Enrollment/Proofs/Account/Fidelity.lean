import Mathlib.Data.List.Basic
import Enrollment.Proofs.Account.Envelope

/-! # What an envelope says

Header, payload and signature of an envelope are read back as what they were made from, whatever
text the account is named by. What is signed can be read in one way only, so that no signature
stands for two requests.
-/

namespace Enrollment

namespace Jwk

/-- The members of a public key as a document, in the order of their names. -/
def document : Jwk → Json.Value
  | .ec curve x y =>
    .object [("crv", .text curve), ("kty", .text "EC"), ("x", .text x), ("y", .text y)]
  | .rsa modulus exponent =>
    .object [("e", .text exponent), ("kty", .text "RSA"), ("n", .text modulus)]

theorem ordered_toJson (jwk : Jwk) : jwk.toJson.ordered = jwk.document := by
  cases jwk with
  | ec | rsa =>
    simp only [toJson, document, Json.Value.ordered, Json.Value.ordered.orderedMembers,
      Json.Value.ofMembers, Json.Value.insert, List.foldl_cons, List.foldl_nil, String.reduceLT,
      String.reduceEq, ↓reduceIte]

theorem document_injective {jwk jwk' : Jwk} (h : jwk.document = jwk'.document) : jwk = jwk' := by
  cases jwk with
  | ec =>
    cases jwk' with
    | ec => simpa [document] using h
    | rsa => simp [document] at h
  | rsa =>
    cases jwk' with
    | ec => simp [document] at h
    | rsa => simpa [document, And.comm] using h

end Jwk

/-- Whom a request comes from: an account by its name, or the holder of a key. -/
inductive Identity where
  | account (name : String)
  | key (jwk : Jwk)
  deriving DecidableEq

namespace Identity

def member : Identity → String × Json.Value
  | account name => ("kid", .text name)
  | key jwk => ("jwk", jwk.document)

theorem member_injective {i j : Identity} (h : i.member = j.member) : i = j := by
  cases i with
  | account name =>
    cases j with
    | account name' => simpa [member] using h
    | key jwk' => simp [member] at h
  | key jwk =>
    cases j with
    | account name' => simp [member] at h
    | key jwk' => exact congrArg key (Jwk.document_injective (congrArg Prod.snd h))

end Identity

namespace Envelope

variable {header header' payload payload' : Bytes}

/-- The bytes that are signed for a header and a payload. -/
def signedBytes (header payload : Bytes) : Bytes :=
  Utf8.encode (signingInput (Base64.encodeUrl header) (Base64.encodeUrl payload))

theorem signedBytes_eq (header payload : Bytes) :
    signedBytes header payload =
      Base64.encodeBytes .url header ++ 46 :: Base64.encodeBytes .url payload := by
  have hDot : Utf8.encode "." = [46] := by decide
  rw [signedBytes, signingInput, Utf8.encode_append, Utf8.encode_append, hDot, Base64.encodeUrl,
    Base64.encodeUrl, Base64.utf8_encode, Base64.utf8_encode, List.append_assoc]
  rfl

theorem dot_not_mem (bytes : Bytes) : 46 ∉ Base64.encodeBytes .url bytes := by
  intro hMem
  obtain ⟨v, hValue⟩ := Base64.value?_of_mem_encodeBytes bytes 46 hMem
  cases hValue

/-- The dot shows where the header ends. -/
theorem signedBytes_injective (h : signedBytes header payload = signedBytes header' payload') :
    header = header' ∧ payload = payload' := by
  rw [signedBytes_eq, signedBytes_eq] at h
  obtain ⟨hHeader, -, hPayload⟩ :=
    (List.append_cons_inj_of_notMem (dot_not_mem header) (dot_not_mem payload)).mp h
  exact ⟨Base64.encodeBytes_injective .url hHeader, Base64.encodeBytes_injective .url hPayload⟩

end Envelope

namespace AccountKey

variable {key key' : AccountKey} {payload payload' : Bytes} {nonce nonce' : ReplayNonce}
  {url url' : Url} {envelope : Envelope}

def identity (key : AccountKey) : Identity :=
  match key.account with
  | some name => .account name
  | none => .key key.jwk

theorem identity_withAccount (key : AccountKey) (name : String) :
    (key.withAccount name).identity =
      if Text.trim name = "" then .key key.jwk else .account (Text.trim name) := by
  unfold identity withAccount
  by_cases hBlank : Text.trim name = ""
  · simp only [hBlank, if_true]
    rfl
  · simp only [hBlank, if_false]

theorem secret_withAccount (key : AccountKey) (name : String) :
    (key.withAccount name).secret = key.secret := by
  rw [withAccount]

theorem algorithm_withAccount (key : AccountKey) (name : String) :
    (key.withAccount name).algorithm = key.algorithm := by
  rw [algorithm, algorithm, secret_withAccount]

/-- What a header is read as: its members in the order of their names. -/
def headerDocument (key : AccountKey) (nonce : ReplayNonce) (url : Url) : Json.Value :=
  .object [("alg", .text key.algorithm), key.identity.member, ("nonce", .text nonce.text),
    ("url", .text url.print)]

theorem ordered_header (key : AccountKey) (nonce : ReplayNonce) (url : Url) :
    (key.header nonce url).ordered = key.headerDocument nonce url := by
  unfold header headerDocument identity
  cases key.account with
  | some | none =>
    simp only [Identity.member, Json.Value.ordered, Json.Value.ordered.orderedMembers,
      Jwk.ordered_toJson, Json.Value.ofMembers, Json.Value.insert, List.foldl_cons,
      List.foldl_nil, String.reduceLT, String.reduceEq, ↓reduceIte]

theorem headerDocument_injective
    (h : key.headerDocument nonce url = key'.headerDocument nonce' url') :
    key.algorithm = key'.algorithm ∧ key.identity = key'.identity ∧ nonce = nonce' ∧
      url.print = url'.print := by
  simp only [headerDocument, Json.Value.object.injEq, List.cons.injEq, Prod.mk.injEq,
    Json.Value.text.injEq, true_and, and_true] at h
  obtain ⟨hAlgorithm, hIdentity, hNonce, hUrl⟩ := h
  exact ⟨hAlgorithm, Identity.member_injective hIdentity, congrArg ReplayNonce.mk hNonce, hUrl⟩

/-- Printing a header loses nothing, for it is read back. -/
theorem header_injective (h : Utf8.encode (key.header nonce url).print =
    Utf8.encode (key'.header nonce' url').print) :
    key.headerDocument nonce url = key'.headerDocument nonce' url' := by
  have hRead := Json.Value.ofBytes_print (fits_header key nonce url)
  rw [h, Json.Value.ofBytes_print (fits_header key' nonce' url')] at hRead
  rw [← ordered_header, ← ordered_header]
  exact (Except.ok.inj hRead).symm

/-- The bytes that a key signs for a request. -/
def signedBytes (key : AccountKey) (payload : Bytes) (nonce : ReplayNonce) (url : Url) : Bytes :=
  Envelope.signedBytes (Utf8.encode (key.header nonce url).print) payload

theorem signedBytes_of_sign (h : key.sign payload nonce url = .ok envelope) :
    Utf8.encode (Envelope.signingInput envelope.header envelope.payload) =
      key.signedBytes payload nonce url := by
  rw [header_of_sign h, payload_of_sign h, signedBytes, Envelope.signedBytes]

theorem sign_eq (key : AccountKey) (payload : Bytes) (nonce : ReplayNonce) (url : Url) :
    key.sign payload nonce url =
      match key.secret.sign (key.signedBytes payload nonce url) with
      | some signature => .ok ⟨Base64.encodeUrl (Utf8.encode (key.header nonce url).print),
          Base64.encodeUrl payload, Base64.encodeUrl signature⟩
      | none => .error ⟨⟩ := rfl

theorem signature_of_sign (h : key.sign payload nonce url = .ok envelope) :
    ∃ signature, key.secret.sign (key.signedBytes payload nonce url) = some signature ∧
      Base64.decodeUrl envelope.signature = .ok signature := by
  rw [sign_eq] at h
  generalize key.secret.sign _ = signature? at h ⊢
  cases signature? with
  | none => cases h
  | some signature =>
    refine ⟨signature, rfl, ?_⟩
    rw [← congrArg Envelope.signature (Except.ok.inj h), Base64.decodeUrl_encodeUrl]

/-- Two requests are the same in all that is signed. URLs are the same when their texts are. -/
structure SameRequest (key key' : AccountKey) (payload payload' : Bytes)
    (nonce nonce' : ReplayNonce) (url url' : Url) : Prop where
  algorithm : key.algorithm = key'.algorithm
  identity : key.identity = key'.identity
  nonce : nonce = nonce'
  url : url.print = url'.print
  payload : payload = payload'

theorem sameRequest_of_signedBytes
    (h : key.signedBytes payload nonce url = key'.signedBytes payload' nonce' url') :
    SameRequest key key' payload payload' nonce nonce' url url' := by
  obtain ⟨hHeader, hPayload⟩ := Envelope.signedBytes_injective h
  obtain ⟨hAlgorithm, hIdentity, hNonce, hUrl⟩ :=
    headerDocument_injective (header_injective hHeader)
  exact ⟨hAlgorithm, hIdentity, hNonce, hUrl, hPayload⟩

/-- An envelope says what was signed, no more and no less. -/
structure Faithful (key : AccountKey) (name : String) (payload : Bytes) (nonce : ReplayNonce)
    (url : Url) (envelope : Envelope) : Prop where
  read_header : envelope.headerValue? = some (.object [
    ("alg", .text key.algorithm),
    if Text.trim name = "" then ("jwk", key.jwk.document) else ("kid", .text (Text.trim name)),
    ("nonce", .text nonce.text), ("url", .text url.print)])
  read_payload : Base64.decodeUrl envelope.payload = .ok payload
  signed : ∃ signature,
    key.secret.sign (Utf8.encode (envelope.header ++ "." ++ envelope.payload)) =
      some signature ∧ Base64.decodeUrl envelope.signature = .ok signature
  unambiguous : ∀ (key' : AccountKey) (name' : String) (payload' : Bytes) (nonce' : ReplayNonce)
    (url' : Url) (envelope' : Envelope),
    (key'.withAccount name').sign payload' nonce' url' = .ok envelope' →
    Utf8.encode (envelope.header ++ "." ++ envelope.payload) =
      Utf8.encode (envelope'.header ++ "." ++ envelope'.payload) →
    SameRequest (key.withAccount name) (key'.withAccount name') payload payload' nonce nonce' url
      url'

theorem sign_faithful {key : AccountKey} {name : String} {payload : Bytes} {nonce : ReplayNonce}
    {url : Url} {envelope : Envelope}
    (h : (key.withAccount name).sign payload nonce url = .ok envelope) :
    Faithful key name payload nonce url envelope where
  read_header := by
    rw [headerValue?_of_sign h, ordered_header, headerDocument, identity_withAccount,
      algorithm_withAccount]
    split <;> rfl
  read_payload := by rw [payload_of_sign h, Base64.decodeUrl_encodeUrl]
  signed := by
    obtain ⟨signature, hSign, hDecoded⟩ := signature_of_sign h
    rw [← signedBytes_of_sign h, secret_withAccount] at hSign
    exact ⟨signature, hSign, hDecoded⟩
  unambiguous key' name' payload' nonce' url' envelope' h' hSame := by
    refine sameRequest_of_signedBytes ?_
    rw [← signedBytes_of_sign h, ← signedBytes_of_sign h', Envelope.signingInput,
      Envelope.signingInput, hSame]

/-- An account whose name is all but plain: blanks around it, a quote, a backslash, a control
character and a letter outside ASCII. -/
theorem isOk_sign_oddName :
    ((short.withAccount " \"\\\x01é\n").sign [0, 255] ⟨"AA"⟩ shortUrl).isOk = true := by
  decide +kernel

theorem faithful_of_oddName :
    ∃ envelope, (short.withAccount " \"\\\x01é\n").sign [0, 255] ⟨"AA"⟩ shortUrl = .ok envelope ∧
      Text.trim " \"\\\x01é\n" = "\"\\\x01é" ∧
      Faithful short " \"\\\x01é\n" [0, 255] ⟨"AA"⟩ shortUrl envelope := by
  obtain ⟨envelope, h⟩ := exists_sign_of_isOk isOk_sign_oddName
  exact ⟨envelope, h, by decide, sign_faithful h⟩

end AccountKey

end Enrollment
