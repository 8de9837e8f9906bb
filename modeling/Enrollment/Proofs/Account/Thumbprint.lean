import Enrollment.Proofs.Account.Fidelity
import Enrollment.Proofs.Codec.Base64Read
import Enrollment.Proofs.Codec.BigEndian

/-! # What a thumbprint is the digest of

The digested text is put together without escapes. It is still the print of the public key's
members in the order of their names, and a public key has one such text: numbers are written in
one width, or in the fewest bytes.
-/

namespace Enrollment

namespace Json.Value

/-- Texts that are printed as they are. -/
def Plain (s : String) : Prop := ∀ c ∈ s.toList, escapedChar c = [c]

instance (s : String) : Decidable (Plain s) :=
  List.decidableBAll (fun c => escapedChar c = [c]) s.toList

theorem Plain.textChars_eq {s : String} (h : Plain s) :
    textChars s = '"' :: s.toList ++ ['"'] := by
  have hChars (cs : List Char) (h : ∀ c ∈ cs, escapedChar c = [c]) :
      cs.flatMap escapedChar = cs := by
    induction cs with
    | nil => rfl
    | cons c cs ih =>
      obtain ⟨hc, hcs⟩ := List.forall_mem_cons.mp h
      rw [List.flatMap_cons, hc, ih hcs, List.singleton_append]
  rw [textChars, hChars s.toList h]

theorem plain_encodeUrl (bytes : Bytes) : Plain (Base64.encodeUrl bytes) :=
  Base64.forall_mem_encodeUrl (by decide +kernel) bytes

theorem plain_curveName (c : Curve) : Plain c.name := by
  cases c <;> decide

end Json.Value

namespace Jwk

def Plain : Jwk → Prop
  | .ec curve x y => Json.Value.Plain curve ∧ Json.Value.Plain x ∧ Json.Value.Plain y
  | .rsa modulus exponent => Json.Value.Plain modulus ∧ Json.Value.Plain exponent

theorem Plain.canonical_eq {jwk : Jwk} (h : jwk.Plain) : jwk.canonical = jwk.document.print := by
  have hNames : ∀ name ∈ ["crv", "e", "kty", "n", "x", "y", "EC", "RSA"],
      Json.Value.Plain name := by decide
  simp only [List.forall_mem_cons] at hNames
  obtain ⟨hCrv, hE, hKty, hN, hX, hY, hEc, hRsa, -⟩ := hNames
  rw [← String.toList_inj, Json.Value.print, String.toList_ofList]
  cases jwk with
  | ec curve x y =>
    obtain ⟨hCurve, hx, hy⟩ := h
    simp [canonical, document, Json.Value.chars, Json.Value.chars.memberChars, hCrv.textChars_eq,
      hKty.textChars_eq, hX.textChars_eq, hY.textChars_eq, hEc.textChars_eq, hCurve.textChars_eq,
      hx.textChars_eq, hy.textChars_eq]
  | rsa modulus exponent =>
    obtain ⟨hModulus, hExponent⟩ := h
    simp [canonical, document, Json.Value.chars, Json.Value.chars.memberChars, hE.textChars_eq,
      hKty.textChars_eq, hN.textChars_eq, hRsa.textChars_eq, hModulus.textChars_eq,
      hExponent.textChars_eq]

theorem ordered_document (jwk : Jwk) : jwk.document.ordered = jwk.document := by
  cases jwk with
  | ec | rsa =>
    simp only [document, Json.Value.ordered, Json.Value.ordered.orderedMembers,
      Json.Value.ofMembers, Json.Value.insert, List.foldl_cons, List.foldl_nil, String.reduceLT,
      String.reduceEq, ↓reduceIte]

theorem fits_document (jwk : Jwk) : jwk.document.Fits Json.maxDepth := by
  cases jwk with
  | ec => exact ⟨by decide, trivial, trivial, trivial, trivial, trivial⟩
  | rsa => exact ⟨by decide, trivial, trivial, trivial, trivial⟩

theorem ofBytes_document (jwk : Jwk) :
    Json.Value.ofBytes (Utf8.encode jwk.document.print) = .ok jwk.document := by
  rw [Json.Value.ofBytes_print jwk.fits_document, ordered_document]

theorem ofBytes_toJson (jwk : Jwk) :
    Json.Value.ofBytes (Utf8.encode jwk.toJson.print) = .ok jwk.document := by
  rw [Json.Value.ofBytes_print (jwk.fits_toJson (by decide)), ordered_toJson]

theorem Plain.document_eq {jwk jwk' : Jwk} (h : jwk.Plain) (h' : jwk'.Plain)
    (hSame : jwk.canonical = jwk'.canonical) : jwk.document = jwk'.document := by
  -- Both texts are read, and one text is read as one document.
  rw [h.canonical_eq, h'.canonical_eq] at hSame
  have hRead := jwk.ofBytes_document
  rw [hSame, ofBytes_document] at hRead
  exact (Except.ok.inj hRead).symm

end Jwk

inductive PublicKey where
  | rsa (modulus exponent : Nat)
  | curve (c : Curve) (point : Curve.Affine)
  deriving DecidableEq

/-- The members that describe a public key: coordinates have the whole width of the curve, the
numbers of RSA the fewest bytes. -/
inductive PublicKey.Describes : List (String × Json.Value) → PublicKey → Prop where
  | rsa {n e : String} {modulus exponent : Bytes}
    (read_n : Base64.decodeUrl n = .ok modulus) (read_e : Base64.decodeUrl e = .ok exponent)
    (shortest_n : BigEndian.Shortest modulus) (shortest_e : BigEndian.Shortest exponent) :
    Describes [("e", .text e), ("kty", .text "RSA"), ("n", .text n)]
      (.rsa (BigEndian.read modulus) (BigEndian.read exponent))
  | curve {c : Curve} {x y : String} {abscissa ordinate : Bytes}
    (read_x : Base64.decodeUrl x = .ok abscissa) (read_y : Base64.decodeUrl y = .ok ordinate)
    (length_x : abscissa.length = c.size) (length_y : ordinate.length = c.size) :
    Describes [("crv", .text c.name), ("kty", .text "EC"), ("x", .text x), ("y", .text y)]
      (.curve c ⟨BigEndian.read abscissa, BigEndian.read ordinate⟩)

theorem Curve.name_injective {c c' : Curve} (h : c.name = c'.name) : c = c' := by
  revert h
  cases c <;> cases c' <;> decide

namespace PublicKey.Describes

variable {members members' : List (String × Json.Value)} {key key' : PublicKey}

theorem sorted (h : Describes members key) : (members.map Prod.fst).Pairwise (· < ·) := by
  cases h with
  | rsa => exact (by decide : ["e", "kty", "n"].Pairwise (· < ·))
  | curve => exact (by decide : ["crv", "kty", "x", "y"].Pairwise (· < ·))

theorem key_unique (h : Describes members key) (h' : Describes members key') : key = key' := by
  cases h with
  | @rsa n e _ _ hn he =>
    generalize hMembers : [("e", Json.Value.text e), _, _] = members at h'
    cases h' with
    | curve => simp at hMembers
    | rsa hn' he' =>
      simp only [List.cons.injEq, Prod.mk.injEq, Json.Value.text.injEq, true_and, and_true]
        at hMembers
      obtain ⟨rfl, rfl⟩ := hMembers
      cases hn.symm.trans hn'
      cases he.symm.trans he'
      rfl
  | @curve c x y _ _ hx hy =>
    generalize hMembers : [("crv", Json.Value.text c.name), _, _, _] = members at h'
    cases h' with
    | rsa => simp at hMembers
    | curve hx' hy' =>
      simp only [List.cons.injEq, Prod.mk.injEq, Json.Value.text.injEq, true_and, and_true]
        at hMembers
      obtain ⟨hName, rfl, rfl⟩ := hMembers
      cases Curve.name_injective hName
      cases hx.symm.trans hx'
      cases hy.symm.trans hy'
      rfl

theorem members_unique (h : Describes members key) (h' : Describes members' key) :
    members = members' := by
  cases h with
  | @rsa n e modulus exponent hn he hModulus hExponent =>
    generalize hKey : PublicKey.rsa _ _ = key at h'
    cases h' with
    | curve => cases hKey
    | rsa hn' he' hModulus' hExponent' =>
      obtain ⟨hRead, hRead'⟩ := PublicKey.rsa.inj hKey
      cases hModulus.eq_of_read hModulus' hRead
      cases hExponent.eq_of_read hExponent' hRead'
      rw [Base64.decodeUrl_eq_ok_iff.mp hn, Base64.decodeUrl_eq_ok_iff.mp he,
        Base64.decodeUrl_eq_ok_iff.mp hn', Base64.decodeUrl_eq_ok_iff.mp he']
  | curve hx hy hxLength hyLength =>
    generalize hKey : PublicKey.curve _ _ = key at h'
    cases h' with
    | rsa => cases hKey
    | curve hx' hy' hxLength' hyLength' =>
      obtain ⟨rfl, hPoint⟩ := PublicKey.curve.inj hKey
      obtain ⟨hRead, hRead'⟩ := Curve.Affine.mk.inj hPoint
      cases BigEndian.eq_of_read_of_length (hxLength.trans hxLength'.symm) hRead
      cases BigEndian.eq_of_read_of_length (hyLength.trans hyLength'.symm) hRead'
      rw [Base64.decodeUrl_eq_ok_iff.mp hx, Base64.decodeUrl_eq_ok_iff.mp hy,
        Base64.decodeUrl_eq_ok_iff.mp hx', Base64.decodeUrl_eq_ok_iff.mp hy']

end PublicKey.Describes

namespace Curve

theorem prime_lt_pow_size (c : Curve) : c.prime < 256 ^ c.size := by
  cases c <;> decide

theorem toAffine_lt (c : Curve) (p : Point) :
    (c.toAffine p).x < c.prime ∧ (c.toAffine p).y < c.prime := by
  have hPrime : 0 < c.prime := by cases c <;> decide
  exact ⟨Nat.mod_lt _ hPrime, Nat.mod_lt _ hPrime⟩

theorem multiple_lt (c : Curve) (scalar : Nat) :
    (c.multiple scalar).x < 256 ^ c.size ∧ (c.multiple scalar).y < 256 ^ c.size := by
  obtain ⟨hx, hy⟩ := c.toAffine_lt _
  exact ⟨hx.trans c.prime_lt_pow_size, hy.trans c.prime_lt_pow_size⟩

end Curve

theorem Rsa.PrivateKey.pos_of_isValid {key : PrivateKey} (h : key.isValid = true) :
    0 < key.modulus ∧ 0 < key.publicExponent := by
  simp only [isValid, Bool.and_eq_true, decide_eq_true_eq] at h
  omega

namespace SecretKey

def publicKey : SecretKey → PublicKey
  | .rsa key _ => .rsa key.modulus key.publicExponent
  | .curve c scalar _ => .curve c (c.multiple scalar)

theorem plain_jwk (key : SecretKey) : key.jwk.Plain := by
  cases key with
  | rsa key valid => exact ⟨Json.Value.plain_encodeUrl _, Json.Value.plain_encodeUrl _⟩
  | curve c scalar valid =>
    exact ⟨Json.Value.plain_curveName c, Json.Value.plain_encodeUrl _,
      Json.Value.plain_encodeUrl _⟩

theorem describes_jwk (key : SecretKey) : ∃ members, key.jwk.document = .object members ∧
    PublicKey.Describes members key.publicKey := by
  cases key with
  | rsa key valid =>
    obtain ⟨hModulus, hExponent⟩ := Rsa.PrivateKey.pos_of_isValid valid
    have hDescribes := PublicKey.Describes.rsa
      (Base64.decodeUrl_encodeUrl _) (Base64.decodeUrl_encodeUrl _)
      (BigEndian.shortest_writeMinimal hModulus) (BigEndian.shortest_writeMinimal hExponent)
    rw [BigEndian.read_writeMinimal, BigEndian.read_writeMinimal] at hDescribes
    exact ⟨_, rfl, hDescribes⟩
  | curve c scalar valid =>
    obtain ⟨hx, hy⟩ := c.multiple_lt scalar
    have hDescribes := PublicKey.Describes.curve
      (Base64.decodeUrl_encodeUrl _) (Base64.decodeUrl_encodeUrl _)
      (BigEndian.length_write c.size (c.multiple scalar).x)
      (BigEndian.length_write c.size (c.multiple scalar).y)
    rw [BigEndian.read_write_of_lt hx, BigEndian.read_write_of_lt hy] at hDescribes
    exact ⟨_, rfl, hDescribes⟩

theorem canonical_jwk (key : SecretKey) : key.jwk.canonical = key.jwk.document.print :=
  key.plain_jwk.canonical_eq

/-- Keys have the same text to digest exactly if they have the same public half. -/
theorem canonical_eq_iff {key key' : SecretKey} :
    key.jwk.canonical = key'.jwk.canonical ↔ key.publicKey = key'.publicKey := by
  obtain ⟨members, hDocument, hDescribes⟩ := key.describes_jwk
  obtain ⟨members', hDocument', hDescribes'⟩ := key'.describes_jwk
  constructor
  · intro h
    have hSame := key.plain_jwk.document_eq key'.plain_jwk h
    rw [hDocument, hDocument', Json.Value.object.injEq] at hSame
    rw [← hSame] at hDescribes'
    exact hDescribes.key_unique hDescribes'
  · intro h
    rw [← h] at hDescribes'
    rw [canonical_jwk, canonical_jwk, hDocument, hDocument', hDescribes.members_unique hDescribes']

end SecretKey

namespace AccountKey

/-- A thumbprint is the digest of the one text that a public key has. -/
structure Canonical (key : AccountKey) : Prop where
  digest : key.thumbprint =
    Base64.encodeUrl (Digest.sha256.digest (Utf8.encode key.jwk.canonical))
  text : ∃ members, PublicKey.Describes members key.secret.publicKey ∧
    (members.map Prod.fst).Pairwise (· < ·) ∧
    key.jwk.canonical = (Json.Value.object members).print ∧
    Json.Value.ofBytes (Utf8.encode key.jwk.canonical) = .ok (.object members) ∧
    Json.Value.ofBytes (Utf8.encode key.jwk.toJson.print) = .ok (.object members)
  unique : ∀ other : AccountKey, key.jwk.canonical = other.jwk.canonical ↔
    key.secret.publicKey = other.secret.publicKey
  binding : ∀ url, (key.withAccount url).jwk.canonical = key.jwk.canonical ∧
    (key.withAccount url).thumbprint = key.thumbprint

theorem thumbprint_canonical (key : AccountKey) : Canonical key where
  digest := rfl
  text := by
    obtain ⟨members, hDocument, hDescribes⟩ := key.secret.describes_jwk
    have hText : key.jwk.canonical = (Json.Value.object members).print := by
      rw [← hDocument]
      exact key.secret.canonical_jwk
    refine ⟨members, hDescribes, hDescribes.sorted, hText, ?_, ?_⟩
    · rw [hText, ← hDocument]
      exact key.secret.jwk.ofBytes_document
    · rw [← hDocument]
      exact key.jwk.ofBytes_toJson
  unique _ := SecretKey.canonical_eq_iff
  binding url := by
    rw [thumbprint, thumbprint, jwk, jwk, secret_withAccount]
    exact ⟨rfl, rfl⟩

end AccountKey

end Enrollment
