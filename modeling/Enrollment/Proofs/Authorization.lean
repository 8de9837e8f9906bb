import Enrollment.Proofs.Challenge.Acceptance
import Enrollment.Proofs.Json.Record

/-! # Which authorizations are accepted

An authorization is accepted as it is written, or it is told which of its challenges is the first
that breaks a rule and which rule it breaks first. The names of its status and of the kinds of its
challenges stay those of the document, whether they are known or not.
-/

namespace Enrollment

open Json (Outline Record)

theorem Url.reader_eq_ok_iff {depth : Nat} {node : Outline} {url : Url} :
    Url.reader depth node = .ok url ↔
      ∃ q s, node = .text q ∧ q.read = .ok s ∧ Url.parse s = .ok url := by
  unfold Url.reader
  rw [Json.Reader.textAs_eq_ok_iff]
  refine exists_congr fun q => exists_congr fun s => and_congr_right fun _ => ?_
  refine and_congr_right fun _ => ?_
  cases Url.parse s with
  | ok found => simp
  | error e => exact iff_of_false nofun nofun

/-- Names that a table knows, or that are kept with a value of their own, are not changed. -/
theorem name_getD_lookup {α : Type} {known : List (String × α)} {name : α → String} {own : α}
    {s : String} (hKnown : known.Forall fun entry => name entry.2 = entry.1)
    (hOwn : name own = s) : name ((known.lookup s).getD own) = s := by
  cases hFound : known.lookup s with
  | none => exact hOwn
  | some a =>
    obtain ⟨before, after, rfl, -⟩ := List.lookup_eq_some_iff.mp hFound
    exact List.forall_iff_forall_mem.mp hKnown (s, a) (List.mem_append_right _ List.mem_cons_self)

theorem AuthorizationStatus.name_ofName (s : String) : (ofName s).name = s :=
  name_getD_lookup (And.intro rfl (And.intro rfl (And.intro rfl
    (And.intro rfl (And.intro rfl rfl))))) rfl

theorem ChallengeKind.name_ofName (s : String) : (ofName s).name = s :=
  name_getD_lookup (And.intro rfl (And.intro rfl rfl)) rfl

theorem AuthorizationStatus.ofName_eq_pending_iff {s : String} :
    ofName s = .pending ↔ s = "pending" := by
  constructor
  · intro h
    rw [← name_ofName s, h]
    rfl
  · rintro rfl
    rfl

theorem ChallengeKind.isKnown_ofName_iff {s : String} :
    (ofName s).IsKnown ↔ s ∈ ["http-01", "dns-01", "tls-alpn-01"] := by
  constructor
  · intro h
    rw [← name_ofName s]
    rcases h with h | h | h <;> rw [h] <;> decide
  · intro h
    simp only [List.mem_cons, List.not_mem_nil, or_false] at h
    rcases h with rfl | rfl | rfl
    · exact .inl rfl
    · exact .inr (.inl rfl)
    · exact .inr (.inr rfl)

/-- The characters of the URL alphabet of base64. -/
def IsTokenChar (c : Char) : Prop :=
  'A' ≤ c ∧ c ≤ 'Z' ∨ 'a' ≤ c ∧ c ≤ 'z' ∨ '0' ≤ c ∧ c ≤ '9' ∨ c = '-' ∨ c = '_'

theorem isToken_iff {token : String} :
    isToken token = true ↔ ∀ c ∈ token.toList, IsTokenChar c := by
  rw [isToken, List.all_eq_true]
  refine forall₂_congr fun c _ => ?_
  have hRanges : c.isAlphanum = (decide ('A' ≤ c ∧ c ≤ 'Z') ||
      (decide ('a' ≤ c) && decide (c ≤ 'z')) || (decide ('0' ≤ c) && decide (c ≤ '9'))) := rfl
  rw [hRanges, IsTokenChar]
  simp only [Bool.or_eq_true, Bool.and_eq_true, decide_eq_true_eq, or_assoc]

namespace Challenge

/-- What is asked of a challenge. -/
structure Acceptable (challenge : Challenge) : Prop where
  secure : challenge.url.scheme = "https"
  carries : challenge.kind.IsKnown → ∃ token, challenge.token = some token
  alphabet : ∀ token, challenge.token = some token → ∀ c ∈ token.toList, IsTokenChar c

/-- The first of the rules that a challenge breaks. -/
inductive Breaks (challenge : Challenge) : ChallengeError → Prop
  | secure (h : challenge.url.scheme ≠ "https") :
    Breaks challenge (.insecureUrl challenge.url.scheme)
  | carries (hSecure : challenge.url.scheme = "https") (hKnown : challenge.kind.IsKnown)
    (h : challenge.token = none) : Breaks challenge (.missingToken challenge.kind.name)
  | alphabet {token : String} {c : Char} (hSecure : challenge.url.scheme = "https")
    (hToken : challenge.token = some token) (hMem : c ∈ token.toList) (h : ¬IsTokenChar c) :
    Breaks challenge .invalidToken

variable {challenge accepted : Challenge} {e : ChallengeError}

theorem accept_iff_acceptable :
    challenge.accept = .ok accepted ↔ accepted = challenge ∧ challenge.Acceptable := by
  rw [accept_eq_ok_iff]
  refine and_congr_right fun _ => ?_
  constructor
  · rintro ⟨hSecure, hCarries, hAlphabet⟩
    exact ⟨hSecure, hCarries, fun token hToken => isToken_iff.mp (hAlphabet token hToken)⟩
  · rintro ⟨hSecure, hCarries, hAlphabet⟩
    exact ⟨hSecure, hCarries, fun token hToken => isToken_iff.mpr (hAlphabet token hToken)⟩

theorem accept_iff_breaks : challenge.accept = .error e ↔ challenge.Breaks e := by
  constructor
  · intro h
    unfold accept at h
    split at h
    · next hScheme =>
      cases h
      exact .secure hScheme
    · next hScheme =>
      have hSecure := Decidable.not_not.mp hScheme
      split at h
      · next hToken =>
        split at h
        · next hNeeds =>
          cases h
          exact .carries hSecure (ChallengeKind.needsToken_iff.mp hNeeds) hToken
        · cases h
      · next token hToken =>
        split at h
        · cases h
        · next hAlphabet =>
          cases h
          rw [isToken_iff] at hAlphabet
          push Not at hAlphabet
          obtain ⟨c, hMem, hChar⟩ := hAlphabet
          exact .alphabet hSecure hToken hMem hChar
  · intro h
    cases h with
    | secure h => rw [accept, if_pos h]
    | carries hSecure hKnown h =>
      rw [accept, if_neg (not_not_intro hSecure), h]
      exact if_pos (ChallengeKind.needsToken_iff.mpr hKnown)
    | alphabet hSecure hToken hMem h =>
      rw [accept, if_neg (not_not_intro hSecure), hToken]
      exact if_neg fun hAlphabet => h (isToken_iff.mp hAlphabet _ hMem)

/-- A challenge has the kind and the address that the document gives, and a token exactly if the
document gives one. -/
structure ReadFrom (item : Outline) (challenge : Challenge) : Prop where
  kind : ∃ name, challenge.kind = .ofName name ∧ ∀ s, record.Tells item "type" s ↔ s = name
  url : (∃ s, record.Tells item "url" s) ∧
    ∀ s, record.Tells item "url" s → Url.parse s = .ok challenge.url
  token : ∀ s, challenge.token = some s ↔ record.Tells item "token" s

theorem keeps_kind : record.Keeps "type" Json.Reader.text Draft.kind :=
  ⟨⟨_, _, rfl, fun _ _ => rfl⟩, by simp [record], by simp [record], rfl⟩

theorem keeps_url : record.Keeps "url" Url.reader Draft.url :=
  ⟨⟨_, _, rfl, fun _ _ => rfl⟩, by simp [record], by simp [record], rfl⟩

theorem keeps_token : record.Keeps "token" (.optional Json.Reader.text) Draft.token :=
  ⟨⟨_, _, rfl, fun _ _ => rfl⟩, by simp [record], by simp [record], rfl⟩

theorem readFrom_of_reader {depth : Nat} {item : Outline}
    (h : reader depth item = .ok challenge) : ReadFrom item challenge := by
  obtain ⟨draft, hRead, h⟩ := bind_eq_ok_iff.mp h
  obtain ⟨kind, hKind, h⟩ := bind_eq_ok_iff.mp h
  obtain ⟨status, -, h⟩ := bind_eq_ok_iff.mp h
  obtain ⟨url, hUrl, h⟩ := bind_eq_ok_iff.mp h
  cases h
  rw [Json.required_eq_ok_iff] at hKind hUrl
  constructor
  · refine ⟨kind, rfl, fun s => ?_⟩
    rw [keeps_kind.tells_iff hRead, hKind, Option.some.injEq, eq_comm]
  · constructor
    · obtain ⟨part, given, hPart⟩ := keeps_url.gives hRead hUrl
      obtain ⟨q, s, rfl, hText, -⟩ := Url.reader_eq_ok_iff.mp hPart
      exact ⟨s, q, given, hText⟩
    · rintro s ⟨q, given, hText⟩
      obtain ⟨found, hFound, hPart⟩ := keeps_url.kept_of_gives hRead given
      obtain ⟨_, _, ⟨⟩, hRead, hParse⟩ := Url.reader_eq_ok_iff.mp hPart
      cases hUrl.symm.trans hFound
      cases hText.symm.trans hRead
      exact hParse
  · exact fun s => (keeps_token.tells_iff_join hRead).symm

end Challenge

namespace Authorization

variable {index : Nat} {challenges accepted : List Challenge} {e : AuthorizationError}
  {authorization found : Authorization} {bytes : Bytes}

theorem acceptChallenges_eq_ok_iff : acceptChallenges index challenges = .ok accepted ↔
    accepted = challenges ∧ ∀ challenge ∈ challenges, challenge.Acceptable := by
  induction challenges generalizing index accepted with
  | nil => simp [acceptChallenges, eq_comm]
  | cons challenge challenges ih =>
    rw [acceptChallenges, List.forall_mem_cons]
    split
    · next cause hBad =>
      constructor
      · intro h
        cases h
      · rintro ⟨-, acceptable, -⟩
        rw [Challenge.accept_iff_acceptable.mpr ⟨rfl, acceptable⟩] at hBad
        cases hBad
    · next first hFirst =>
      obtain ⟨rfl, acceptable⟩ := Challenge.accept_iff_acceptable.mp hFirst
      rw [map_eq_ok_iff]
      constructor
      · rintro ⟨rest, hRest, rfl⟩
        obtain ⟨rfl, hAll⟩ := ih.mp hRest
        exact ⟨rfl, acceptable, hAll⟩
      · rintro ⟨rfl, -, hAll⟩
        exact ⟨challenges, ih.mpr ⟨rfl, hAll⟩, rfl⟩

theorem acceptChallenges_of_breaks {before after : List Challenge} {challenge : Challenge}
    {cause : ChallengeError} (hBefore : ∀ earlier ∈ before, earlier.Acceptable)
    (breaks : challenge.Breaks cause) :
    acceptChallenges index (before ++ challenge :: after) =
      .error (.challenge (index + before.length) cause) := by
  induction before generalizing index with
  | nil =>
    rw [List.nil_append, acceptChallenges, Challenge.accept_iff_breaks.mpr breaks]
    rfl
  | cons first before ih =>
    obtain ⟨acceptable, hBefore⟩ := List.forall_mem_cons.mp hBefore
    rw [List.cons_append, acceptChallenges, Challenge.accept_iff_acceptable.mpr ⟨rfl, acceptable⟩,
      List.length_cons, ← Nat.add_assoc, Nat.add_right_comm]
    exact map_eq_error_iff.mpr (ih hBefore)

/-- The challenge that is refused is the first that breaks a rule. -/
theorem acceptChallenges_eq_error_iff : acceptChallenges index challenges = .error e ↔
    ∃ before challenge after cause, challenges = before ++ challenge :: after ∧
      (∀ earlier ∈ before, earlier.Acceptable) ∧ challenge.Breaks cause ∧
      e = .challenge (index + before.length) cause := by
  constructor
  · intro h
    induction challenges generalizing index with
    | nil => cases h
    | cons challenge challenges ih =>
      rw [acceptChallenges] at h
      split at h
      · next cause hBad =>
        cases h
        exact ⟨[], challenge, challenges, cause, rfl, List.forall_mem_nil _,
          Challenge.accept_iff_breaks.mp hBad, rfl⟩
      · next first hFirst =>
        obtain ⟨rfl, acceptable⟩ := Challenge.accept_iff_acceptable.mp hFirst
        obtain ⟨before, bad, after, cause, rfl, hBefore, breaks, rfl⟩ := ih (map_eq_error_iff.mp h)
        refine ⟨first :: before, bad, after, cause, rfl,
          List.forall_mem_cons.mpr ⟨acceptable, hBefore⟩, breaks, ?_⟩
        rw [List.length_cons, ← Nat.add_assoc, Nat.add_right_comm]
  · rintro ⟨before, challenge, after, cause, rfl, hBefore, breaks, rfl⟩
    exact acceptChallenges_of_breaks hBefore breaks

/-- Whether an authorization waits for challenges and has none. -/
def Bare (authorization : Authorization) : Prop :=
  authorization.status = .pending ∧ authorization.challenges = []

theorem bare_iff : authorization.status = .pending ∧ authorization.challenges.isEmpty = true ↔
    authorization.Bare := and_congr_right fun _ => List.isEmpty_iff

theorem accept_eq_ok_iff : authorization.accept = .ok found ↔
    found = authorization ∧ ¬authorization.Bare ∧
      ∀ challenge ∈ authorization.challenges, challenge.Acceptable := by
  unfold accept
  split
  · next hEmpty => exact iff_of_false nofun fun h => h.2.1 (bare_iff.mp hEmpty)
  · next hEmpty =>
    have hBare : ¬authorization.Bare := fun h => hEmpty (bare_iff.mpr h)
    rw [map_eq_ok_iff]
    constructor
    · rintro ⟨challenges, hChallenges, rfl⟩
      obtain ⟨rfl, acceptable⟩ := acceptChallenges_eq_ok_iff.mp hChallenges
      exact ⟨rfl, hBare, acceptable⟩
    · rintro ⟨rfl, -, acceptable⟩
      exact ⟨found.challenges, acceptChallenges_eq_ok_iff.mpr ⟨rfl, acceptable⟩, rfl⟩

theorem accept_eq_error_iff : authorization.accept = .error e ↔
    authorization.Bare ∧ e = .missingChallenges ∨
      ∃ before challenge after cause, authorization.challenges = before ++ challenge :: after ∧
        (∀ earlier ∈ before, earlier.Acceptable) ∧ challenge.Breaks cause ∧
        e = .challenge before.length cause := by
  unfold accept
  split
  · next hEmpty =>
    have hBare := bare_iff.mp hEmpty
    constructor
    · rintro ⟨⟩
      exact .inl ⟨hBare, rfl⟩
    · rintro (⟨-, rfl⟩ | ⟨before, challenge, after, cause, hSplit, -⟩)
      · rfl
      · rw [hBare.2] at hSplit
        exact absurd hSplit.symm (List.append_ne_nil_of_right_ne_nil before (List.cons_ne_nil _ _))
  · next hEmpty =>
    have hBare : ¬authorization.Bare := fun h => hEmpty (bare_iff.mpr h)
    rw [map_eq_error_iff, acceptChallenges_eq_error_iff, or_iff_right fun h => hBare h.1]
    simp only [Nat.zero_add]

/-- An authorization has the status that the document gives and the challenges that it lists, in
their order, or none at all if there is no list. -/
structure ReadFrom (node : Outline) (authorization : Authorization) : Prop where
  status : ∃ name, authorization.status = .ofName name ∧
    ∀ s, record.Tells node "status" s ↔ s = name
  listed : ∀ part, record.Gives node "challenges" part → ∃ items, part = .list items .closed ∧
    List.Forall₂ Challenge.ReadFrom items authorization.challenges
  unlisted : (∀ part, ¬record.Gives node "challenges" part) → authorization.challenges = []

theorem keeps_status : record.Keeps "status" Json.Reader.text Draft.status :=
  ⟨⟨_, _, rfl, fun _ _ => rfl⟩, by simp [record], by simp [record], rfl⟩

theorem keeps_challenges : record.Keeps "challenges" (.list Challenge.reader) Draft.challenges :=
  ⟨⟨_, _, rfl, fun _ _ => rfl⟩, by simp [record], by simp [record], rfl⟩

theorem readFrom_of_reader {depth : Nat} {node : Outline}
    (h : reader depth node = .ok authorization) : ReadFrom node authorization := by
  obtain ⟨draft, hRead, h⟩ := bind_eq_ok_iff.mp h
  obtain ⟨identifier, -, h⟩ := bind_eq_ok_iff.mp h
  obtain ⟨status, hStatus, h⟩ := bind_eq_ok_iff.mp h
  cases h
  constructor
  · refine ⟨status, rfl, fun s => ?_⟩
    rw [keeps_status.tells_iff hRead, Json.required_eq_ok_iff.mp hStatus, Option.some.injEq,
      eq_comm]
  · intro part given
    obtain ⟨challenges, hListed, hPart⟩ := keeps_challenges.kept_of_gives hRead given
    obtain ⟨items, rfl, -, hItems⟩ := Json.Reader.list_eq_ok_iff.mp hPart
    refine ⟨items, rfl, ?_⟩
    change List.Forall₂ Challenge.ReadFrom items (draft.challenges.getD [])
    rw [hListed, Option.getD_some]
    exact hItems.imp fun _ _ => Challenge.readFrom_of_reader
  · intro hMissing
    change draft.challenges.getD [] = []
    rw [(keeps_challenges.eq_none_iff hRead).mpr hMissing, Option.getD_none]

/-- What can be read is accepted as it is written exactly if it does not wait for challenges without
having any and all its challenges are acceptable. Otherwise the refusal names the first difficulty.
The names of the document, known or not, are those of the status and of the kinds. -/
theorem ofBytes_verdict :
    (∀ bytes wire, reader.run bytes = .ok wire →
      ((∃ accepted, ofBytes bytes = .ok accepted) ↔
        (wire.status ≠ .pending ∨ wire.challenges ≠ []) ∧
          ∀ challenge ∈ wire.challenges, challenge.Acceptable) ∧
      (∀ accepted, ofBytes bytes = .ok accepted → accepted = wire) ∧
      (∀ e, ofBytes bytes = .error e ↔
        (wire.status = .pending ∧ wire.challenges = []) ∧ e = .missingChallenges ∨
        ∃ before challenge after cause, wire.challenges = before ++ challenge :: after ∧
          (∀ earlier ∈ before, earlier.Acceptable) ∧ challenge.Breaks cause ∧
          e = .challenge before.length cause) ∧
      ∃ root, Outline.ofBytes bytes = (root, false) ∧ ReadFrom root wire) ∧
    (∀ s, (AuthorizationStatus.ofName s).name = s ∧
      (AuthorizationStatus.ofName s = .pending ↔ s = "pending")) ∧
    ∀ s, (ChallengeKind.ofName s).name = s ∧
      ((ChallengeKind.ofName s).IsKnown ↔ s ∈ ["http-01", "dns-01", "tls-alpn-01"]) := by
  refine ⟨?_, ?_, ?_⟩
  · intro bytes wire hWire
    have hVerdict : ofBytes bytes = wire.accept := by rw [ofBytes, hWire]
    rw [hVerdict]
    obtain ⟨root, hRoot, hRead⟩ := Json.Reader.run_eq_ok_iff.mp hWire
    refine ⟨?_, ?_, fun e => accept_eq_error_iff, root, hRoot, readFrom_of_reader hRead⟩
    · rw [← not_and_or]
      constructor
      · rintro ⟨accepted, hAccepted⟩
        exact (accept_eq_ok_iff.mp hAccepted).2
      · exact fun h => ⟨wire, accept_eq_ok_iff.mpr ⟨rfl, h⟩⟩
    · exact fun accepted hAccepted => (accept_eq_ok_iff.mp hAccepted).1
  · exact fun s => ⟨AuthorizationStatus.name_ofName s, AuthorizationStatus.ofName_eq_pending_iff⟩
  · exact fun s => ⟨ChallengeKind.name_ofName s, ChallengeKind.isKnown_ofName_iff⟩

/-- An authorization of an unknown status with a challenge of an unknown kind and maybe another. -/
def held (another : String) : Bytes := Utf8.encode
  ("\x7b\"identifier\":\x7b\"type\":\"dns\",\"value\":\"a.b\"\x7d,\"status\":\"held\"," ++
    "\"challenges\":[\x7b\"type\":\"x-02\",\"status\":\"valid\",\"url\":\"https://a\"\x7d" ++
    another ++ "]\x7d")

/-- A challenge that is in order, with a token. -/
def answered : String :=
  ",\x7b\"type\":\"dns-01\",\"status\":\"valid\",\"url\":\"https://b\",\"token\":\"A-_\"\x7d"

/-- A challenge without security whose token is no token either. -/
def insecure : String :=
  ",\x7b\"type\":\"dns-01\",\"status\":\"valid\",\"url\":\"http://a\",\"token\":\"!\"\x7d"

/-- The status of what is accepted and the kinds, the addresses and the tokens of its challenges. -/
def names : Except AuthorizationError Authorization →
    Except AuthorizationError (String × List (String × String × Option String)) :=
  .map fun wire =>
    (wire.status.name, wire.challenges.map fun c => (c.kind.name, c.url.print, c.token))

/-- What is refused for anything but its form has been read. -/
theorem exists_of_ofBytes_ne (h : ∀ cause, ofBytes bytes ≠ .error (.document cause)) :
    ∃ wire, reader.run bytes = .ok wire := by
  cases hWire : reader.run bytes with
  | ok wire => exact ⟨wire, rfl⟩
  | error cause => exact absurd (by rw [ofBytes, hWire]) (h cause)

theorem ofBytes_verdict_held :
    (∃ wire root, reader.run (held answered) = .ok wire ∧ ofBytes (held answered) = .ok wire ∧
      wire.status.name = "held" ∧
      wire.challenges.map (fun c => (c.kind.name, c.url.print, c.token)) =
        [("x-02", "https://a/", none), ("dns-01", "https://b/", some "A-_")] ∧
      (∀ challenge ∈ wire.challenges, challenge.Acceptable) ∧
      Outline.ofBytes (held answered) = (root, false) ∧ ReadFrom root wire) ∧
    ∃ wire before challenge after, reader.run (held insecure) = .ok wire ∧
      wire.challenges = before ++ challenge :: after ∧ before.length = 1 ∧
      challenge.Breaks (.insecureUrl "http") := by
  have hAccepted : names (ofBytes (held answered)) =
      .ok ("held", [("x-02", "https://a/", none), ("dns-01", "https://b/", some "A-_")]) := by
    decide +kernel
  have hRefused : names (ofBytes (held insecure)) =
      .error (.challenge 1 (.insecureUrl "http")) := by decide +kernel
  obtain ⟨verdict, -⟩ := ofBytes_verdict
  constructor
  · obtain ⟨accepted, hOk, hNames⟩ := map_eq_ok_iff.mp hAccepted
    obtain ⟨wire, hWire⟩ : ∃ wire, reader.run (held answered) = .ok wire :=
      exists_of_ofBytes_ne (by simp [hOk])
    obtain ⟨hIff, hSame, -, root, hRoot, readFrom⟩ := verdict _ wire hWire
    obtain rfl := hSame accepted hOk
    obtain ⟨hStatus, hChallenges⟩ := Prod.mk.inj hNames
    have acceptable := (hIff.mp ⟨accepted, hOk⟩).2
    exact ⟨accepted, root, hWire, hOk, hStatus.symm, hChallenges.symm, acceptable, hRoot, readFrom⟩
  · have hError := map_eq_error_iff.mp hRefused
    obtain ⟨wire, hWire⟩ : ∃ wire, reader.run (held insecure) = .ok wire :=
      exists_of_ofBytes_ne (by simp [hError])
    obtain ⟨-, -, hFirst, -⟩ := verdict _ wire hWire
    obtain ⟨-, h⟩ | ⟨before, challenge, after, cause, hSplit, -, hBreaks, h⟩ :=
      (hFirst _).mp hError
    · cases h
    · obtain ⟨hLength, rfl⟩ := AuthorizationError.challenge.inj h
      exact ⟨wire, before, challenge, after, hWire, hSplit, hLength.symm, hBreaks⟩

end Authorization

end Enrollment
