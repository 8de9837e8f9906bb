import Enrollment.Account.Key
import Enrollment.Json.Access
import Enrollment.Proofs.Codec.Base64
import Enrollment.Proofs.Json.Value

/-! # Reading envelopes

The header of an envelope is read back as the header that was signed, and so is its nonce.
-/

namespace Enrollment

namespace Envelope

/-- The header of an envelope as a document, if it is one. -/
def headerValue? (envelope : Envelope) : Option Json.Value :=
  (Base64.decodeUrl envelope.header).toOption.bind fun bytes =>
    (Json.Value.ofBytes bytes).toOption

/-- The nonce that an envelope carries. -/
def nonce? (envelope : Envelope) : Option String :=
  envelope.headerValue?.bind (·.textAt? "nonce")

end Envelope

theorem Jwk.fits_toJson (jwk : Jwk) {depth : Nat} (h : 1 < depth) : jwk.toJson.Fits depth := by
  cases jwk with
  | ec => exact ⟨h, trivial, trivial, trivial, trivial, trivial⟩
  | rsa => exact ⟨h, trivial, trivial, trivial, trivial⟩

namespace AccountKey

variable {key : AccountKey} {payload : Bytes} {nonce : ReplayNonce} {url : Url}
  {envelope : Envelope}

theorem fits_header (key : AccountKey) (nonce : ReplayNonce) (url : Url) :
    (key.header nonce url).Fits Json.maxDepth := by
  unfold header
  cases key.account with
  | some account => exact ⟨by decide, trivial, trivial, trivial, trivial, trivial⟩
  | none =>
    exact ⟨by decide, trivial, trivial, trivial, key.jwk.fits_toJson (by decide), trivial⟩

theorem header_of_sign (h : key.sign payload nonce url = .ok envelope) :
    envelope.header = Base64.encodeUrl (Utf8.encode (key.header nonce url).print) := by
  unfold sign at h
  dsimp only at h
  generalize key.secret.sign _ = signature? at h
  cases signature? with
  | none => cases h
  | some signature => exact (congrArg Envelope.header (Except.ok.inj h)).symm

theorem payload_of_sign (h : key.sign payload nonce url = .ok envelope) :
    envelope.payload = Base64.encodeUrl payload := by
  unfold sign at h
  dsimp only at h
  generalize key.secret.sign _ = signature? at h
  cases signature? with
  | none => cases h
  | some signature => exact (congrArg Envelope.payload (Except.ok.inj h)).symm

theorem headerValue?_of_sign (h : key.sign payload nonce url = .ok envelope) :
    envelope.headerValue? = some (key.header nonce url).ordered := by
  rw [Envelope.headerValue?, header_of_sign h, Base64.decodeUrl_encodeUrl]
  exact congrArg Except.toOption (Json.Value.ofBytes_print (fits_header key nonce url))

theorem textAt?_nonce_header (key : AccountKey) (nonce : ReplayNonce) (url : Url) :
    (key.header nonce url).ordered.textAt? "nonce" = some nonce.text := by
  unfold header Json.Value.textAt? Json.Value.member
  cases key.account with
  | some account =>
    rw [Json.Value.ordered, Json.Value.field?_ofMembers]
    rfl
  | none =>
    rw [Json.Value.ordered, Json.Value.field?_ofMembers]
    rfl

/-- The members of a header. Of all of them only the nonce is not the key's or the URL's. -/
def headerMembers (key : AccountKey) (nonce : ReplayNonce) (url : Url) :
    List (String × Json.Value) := [
  ("alg", .text key.algorithm), ("nonce", .text nonce.text), ("url", .text url.print),
  match key.account with
  | some account => ("kid", .text account)
  | none => ("jwk", key.jwk.toJson.ordered)]

theorem lookup_reverse {members : List (String × Json.Value)} (h : (members.map Prod.fst).Nodup)
    (name : String) : members.reverse.lookup name = members.lookup name := by
  induction members with
  | nil => rfl
  | cons member members ih =>
    obtain ⟨hMember, hRest⟩ := List.nodup_cons.mp h
    rw [List.reverse_cons, List.lookup_append, ih hRest, List.lookup_cons, List.lookup_cons]
    split
    · next hName =>
      have hNone : members.lookup name = none := by
        refine List.lookup_eq_none_iff.mpr fun other hMem => ?_
        rw [beq_iff_eq.mp hName, bne_iff_ne]
        intro hSame
        exact hMember (hSame ▸ List.mem_map_of_mem hMem)
      rw [hNone]
      rfl
    · simp

theorem field?_header (key : AccountKey) (nonce : ReplayNonce) (url : Url) (name : String) :
    (key.header nonce url).ordered.field? name = (key.headerMembers nonce url).lookup name := by
  unfold header headerMembers
  cases key.account with
  | some account =>
    rw [Json.Value.ordered, Json.Value.field?_ofMembers]
    refine lookup_reverse ?_ name
    exact (by decide : ["alg", "nonce", "url", "kid"].Nodup)
  | none =>
    rw [Json.Value.ordered, Json.Value.field?_ofMembers]
    refine lookup_reverse ?_ name
    exact (by decide : ["alg", "nonce", "url", "jwk"].Nodup)

/-- An envelope carries the nonce that it was signed with. -/
theorem nonce?_of_sign (h : key.sign payload nonce url = .ok envelope) :
    envelope.nonce? = some nonce.text := by
  rw [Envelope.nonce?, headerValue?_of_sign h]
  exact textAt?_nonce_header key nonce url

end AccountKey

/-- A key of the least length that signs, to be computed with. -/
def Rsa.PrivateKey.short : Rsa.PrivateKey :=
  let p := (1 <<< 249) + 315
  let q := (1 <<< 249) + 591
  ⟨p * q, 3, (2 * ((p - 1) * (q - 1)) + 1) / 3, p, q⟩

theorem Rsa.PrivateKey.isValid_short : short.isValid = true := by decide +kernel

namespace AccountKey

variable {key : AccountKey} {payload : Bytes} {nonce : ReplayNonce} {url : Url}

def short : AccountKey := ⟨.rsa .short Rsa.PrivateKey.isValid_short, some "1"⟩

def shortUrl : Url := ⟨"https", none, .segments ["order"], none, none⟩

theorem isOk_sign_short : (short.sign [] ⟨"AA"⟩ shortUrl).isOk = true := by decide +kernel

theorem isOk_sign_short_again : (short.sign [] ⟨"AQ"⟩ shortUrl).isOk = true := by decide +kernel

theorem exists_sign_of_isOk (h : (key.sign payload nonce url).isOk = true) :
    ∃ envelope, key.sign payload nonce url = .ok envelope := by
  cases hSign : key.sign payload nonce url with
  | error e =>
    rw [hSign] at h
    cases h
  | ok envelope => exact ⟨envelope, rfl⟩

theorem exists_sign_short : ∃ envelope, short.sign [] ⟨"AA"⟩ shortUrl = .ok envelope :=
  exists_sign_of_isOk isOk_sign_short

theorem exists_sign_short_again : ∃ envelope, short.sign [] ⟨"AQ"⟩ shortUrl = .ok envelope :=
  exists_sign_of_isOk isOk_sign_short_again

end AccountKey

end Enrollment
