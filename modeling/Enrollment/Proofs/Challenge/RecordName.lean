import Enrollment.KeyAuthorization
import Enrollment.Proofs.Identifier.Name
import Enrollment.Proofs.Text.Utf8

/-! # Names of text records

The record for a name stands under the name itself, or under what a wildcard leaves of it. The
bare wildcard leaves nothing, and a name near its greatest length leaves no room for the label of
the record; all other records have names that are accepted as they are.
-/

namespace Enrollment

namespace Identifier

/-- Host labels with dots between them: a name without a wildcard. -/
def IsHostName (name : List Char) : Prop :=
  ∃ labels, labels ≠ [] ∧ name = ['.'].intercalate labels ∧ ∀ label ∈ labels, IsHostLabel label

theorem IsHostLabel.star_not_mem {label : List Char} (h : IsHostLabel label) : '*' ∉ label := by
  intro hStar
  have hChar := h.chars _ hStar
  revert hChar
  decide

namespace IsHostName

variable {name label : List Char}

theorem isDomain (h : IsHostName name) : IsDomain name := by
  obtain ⟨labels, hNe, rfl, hLabels⟩ := h
  obtain ⟨first, labels, rfl⟩ := List.exists_cons_of_ne_nil hNe
  obtain ⟨hFirst, hLabels⟩ := List.forall_mem_cons.mp hLabels
  exact ⟨first, labels, rfl, .inr hFirst, hLabels⟩

theorem star_not_mem (h : IsHostName name) : '*' ∉ name := by
  obtain ⟨labels, -, rfl, hLabels⟩ := h
  intro hStar
  rcases mem_intercalate hStar with hDot | ⟨label, hMem, hLabel⟩
  · exact absurd hDot (by decide)
  · exact (hLabels label hMem).star_not_mem hLabel

theorem splitOn (h : IsHostName name) : ∀ label ∈ name.splitOn '.', IsHostLabel label := by
  obtain ⟨labels, hNe, rfl, hLabels⟩ := h
  rw [List.splitOn_intercalate '.' (fun label hMem => (hLabels label hMem).dot_not_mem) hNe]
  exact hLabels

theorem cons (hLabel : IsHostLabel label) (h : IsHostName name) :
    IsHostName (label ++ '.' :: name) := by
  obtain ⟨labels, hNe, rfl, hLabels⟩ := h
  obtain ⟨first, labels, rfl⟩ := List.exists_cons_of_ne_nil hNe
  refine ⟨label :: first :: labels, List.cons_ne_nil _ _, ?_,
    List.forall_mem_cons.mpr ⟨hLabel, hLabels⟩⟩
  rw [List.intercalate_cons_cons, List.append_assoc]
  rfl

theorem last (h : IsHostName name) : ∃ c, name.getLast? = some c ∧ c ≠ '.' := by
  obtain ⟨labels, hNe, rfl, hLabels⟩ := h
  induction labels with
  | nil => exact absurd rfl hNe
  | cons label labels ih =>
    obtain ⟨hLabel, hLabels⟩ := List.forall_mem_cons.mp hLabels
    cases labels with
    | nil =>
      rw [List.intercalate_singleton, List.getLast?_eq_some_getLast hLabel.ne_nil]
      refine ⟨_, rfl, ?_⟩
      intro hDot
      exact hLabel.dot_not_mem (hDot ▸ List.getLast_mem hLabel.ne_nil)
    | cons second labels =>
      obtain ⟨c, hLast, hc⟩ := ih (List.cons_ne_nil _ _) hLabels
      refine ⟨c, ?_, hc⟩
      rw [List.intercalate_cons_cons, List.getLast?_append, hLast]
      rfl

end IsHostName

/-- A name is the bare wildcard, has a wildcard at its start, or has none. -/
theorem IsDomain.host_cases {name : List Char} (h : IsDomain name) :
    name = ['*'] ∨ IsHostName name ∨ ∃ base, IsHostName base ∧ name = '*' :: '.' :: base := by
  obtain ⟨first, labels, rfl, hFirst, hLabels⟩ := h
  rcases hFirst with rfl | hFirst
  · cases labels with
    | nil => exact .inl rfl
    | cons second labels =>
      refine .inr (.inr ⟨_, ⟨_, List.cons_ne_nil second labels, rfl, hLabels⟩, ?_⟩)
      rw [List.intercalate_cons_cons]
      rfl
  · exact .inr (.inl ⟨_, List.cons_ne_nil first labels, rfl,
      List.forall_mem_cons.mpr ⟨hFirst, hLabels⟩⟩)

variable {text name wildcard : String} {identifier : Identifier}

theorem exists_of_ofName (h : ofName text = .ok identifier) :
    ∃ name, identifier = .dns name ∧ IsDomain name.toList ∧
      name.toList.map Char.toLower = name.toList := by
  obtain ⟨name, hName⟩ := exists_stripped text
  obtain ⟨-, hValid, rfl⟩ := (ofName_eq_ok_iff hName).mp h
  refine ⟨_, rfl, ?_, ?_⟩
  · rw [String.toList_ofList]
    exact ((isName_iff _).mp ((isName_map_toLower name).trans hValid)).2
  · rw [String.toList_ofList, List.map_map]
    exact List.map_congr_left fun c _ => Text.toLower_toLower c

/-- A name of host labels in lower case is accepted as it is unless it is too long. -/
theorem ofName_eq_self_iff (hHost : IsHostName name.toList)
    (hLower : name.toList.map Char.toLower = name.toList) :
    ofName name = .ok (.dns name) ↔ (Utf8.encode name).length ≤ 253 := by
  obtain ⟨last, hLast, hDot⟩ := hHost.last
  have hStripped : Stripped name name.toList := by
    have hSelf := stripped_self hHost.isDomain.isBlank
      (hLast ▸ fun h => hDot (Option.some_inj.mp h))
    rwa [String.ofList_toList] at hSelf
  have hNil : name.toList ≠ [] := by
    intro hNil
    rw [hNil] at hLast
    cases hLast
  rw [ofName_eq_ok_iff hStripped, hLower, String.ofList_toList, isName_iff, Utf8.encode]
  constructor
  · rintro ⟨-, ⟨hLength, -⟩, -⟩
    exact hLength
  · intro hLength
    exact ⟨hNil, ⟨hLength, hHost.isDomain⟩, rfl⟩

theorem Framed.under_wildcard {plain front dots back : List Char} (h : Framed text plain front dots back)
    (hNe : plain ≠ []) :
    Framed ("*." ++ text) ('*' :: '.' :: (front ++ plain)) [] dots back := by
  have hEnd (rest : List Char) (hRest : plain ++ rest ≠ []) :
      ('*' :: '.' :: (front ++ plain) ++ rest).getLast? = (plain ++ rest).getLast? := by
    rw [List.cons_append, List.cons_append, List.append_assoc, ← List.cons_append,
      ← List.cons_append, List.getLast?_append_of_ne_nil _ hRest]
  refine ⟨?_, nofun, h.back_blank, ?_, ?_, h.dots_eq, ?_⟩
  · simp [String.toList_append, h.text_eq]
  · intro c hc
    cases hc
    rfl
  · rw [hEnd dots (by simp [hNe])]
    exact h.last
  · have hPlain := hEnd [] (by simp [hNe])
    rw [List.append_nil, List.append_nil] at hPlain
    rw [hPlain]
    exact h.undotted

/-- A text that is accepted after a wildcard names what it names without one. -/
theorem ofName_wildcard (hText : ofName text = .ok (.dns name))
    (hWildcard : ofName ("*." ++ text) = .ok (.dns wildcard)) : wildcard = "*." ++ name := by
  obtain ⟨plain, front, dots, back, framed⟩ := exists_stripped text
  obtain ⟨hNe, -, hName⟩ := (ofName_eq_ok_iff ⟨front, dots, back, framed⟩).mp hText
  obtain ⟨-, hValid, hIdentifier⟩ :=
    (ofName_eq_ok_iff ⟨[], dots, back, framed.under_wildcard hNe⟩).mp hWildcard
  -- the white space before the name would be within the longer one
  have hFront : front = [] := by
    refine List.eq_nil_iff_forall_not_mem.mpr fun c hc => ?_
    have hMem : c ∈ '*' :: '.' :: (front ++ plain) := by simp [hc]
    have hNot := ((isName_iff _).mp hValid).2.isBlank c hMem
    exact absurd ((framed.front_blank c hc).symm.trans hNot) (by decide)
  cases hName
  cases hIdentifier
  rw [hFront, ← String.toList_inj]
  simp

theorem stripStart?_of_isHostName (h : IsHostName name.toList) :
    Text.stripStart? "*." name = none := by
  cases hStrip : Text.stripStart? "*." name with
  | none => rfl
  | some rest =>
    rw [Text.stripStart?_eq_some_iff] at hStrip
    exact absurd (by simp [hStrip]) h.star_not_mem

/-- What is named by a name: for a wildcard the name under it. -/
theorem base_cases (h : ofName text = .ok (.dns name)) (hBare : name ≠ "*") :
    ∃ base, (Text.stripStart? "*." name).getD name = base ∧ (name = base ∨ name = "*." ++ base) ∧
      IsHostName base.toList ∧ base.toList.map Char.toLower = base.toList := by
  obtain ⟨_, hName, hDomain, hLower⟩ := exists_of_ofName h
  cases hName
  rcases hDomain.host_cases with hStar | hHost | ⟨base, hHost, hBase⟩
  · exact absurd (String.toList_inj.mp hStar) hBare
  · refine ⟨name, ?_, .inl rfl, hHost, hLower⟩
    rw [stripStart?_of_isHostName hHost]
    rfl
  · have hText : name = "*." ++ String.ofList base := by
      rw [← String.toList_inj, hBase]
      simp
    refine ⟨String.ofList base, ?_, .inr hText, ?_, ?_⟩
    · rw [Text.stripStart?_eq_some_iff.mpr hText]
      rfl
    · rwa [String.toList_ofList]
    · rw [hBase] at hLower
      rw [String.toList_ofList]
      exact (List.cons.inj (List.cons.inj hLower).2).2

end Identifier

namespace KeyAuthorization

open Identifier (ofName IsHostLabel IsHostName)

variable {k : KeyAuthorization} {text name : String} {identifier : Identifier}

theorem isHostLabel_recordLabel : IsHostLabel recordLabel.toList :=
  (Identifier.isLabel_iff _).mp (by decide)

theorem isHostName_record {base : String} (h : IsHostName base.toList) :
    IsHostName (recordLabel ++ "." ++ base).toList := by
  have hParts := IsHostName.cons isHostLabel_recordLabel h
  simpa using hParts

theorem lower_record {base : String} (h : base.toList.map Char.toLower = base.toList) :
    (recordLabel ++ "." ++ base).toList.map Char.toLower = (recordLabel ++ "." ++ base).toList := by
  have hLabel : (recordLabel ++ ".").toList.map Char.toLower = (recordLabel ++ ".").toList := by
    decide
  rw [String.toList_append, List.map_append, hLabel, h]

theorem length_record (base : String) :
    (Utf8.encode (recordLabel ++ "." ++ base)).length = 16 + (Utf8.encode base).length := by
  rw [Utf8.encode_append, List.length_append]
  rfl

theorem textRecord_of_base {base : String} (h : (Text.stripStart? "*." name).getD name = base) :
    k.textRecord (.dns name) = .ok ⟨recordLabel ++ "." ++ base,
      Base64.encodeUrl (Digest.sha256.digest (Utf8.encode k.value))⟩ := by
  rw [textRecord, h]

theorem textRecord_wildcard (hText : ofName text = .ok (.dns name))
    (hWildcard : ofName ("*." ++ text) = .ok identifier) :
    k.textRecord identifier = k.textRecord (.dns name) := by
  obtain ⟨wildcard, rfl, hDomain, -⟩ := Identifier.exists_of_ofName hWildcard
  have hName : wildcard = "*." ++ name := Identifier.ofName_wildcard hText hWildcard
  have hUnder : Text.stripStart? "*." wildcard = some name := Text.stripStart?_eq_some_iff.mpr hName
  have hPlain : Text.stripStart? "*." name = none := by
    cases hStrip : Text.stripStart? "*." name with
    | none => rfl
    | some rest =>
      rw [Text.stripStart?_eq_some_iff] at hStrip
      rw [hName, hStrip] at hDomain
      rcases hDomain.host_cases with hStar | hHost | ⟨base, hHost, hBase⟩
      · simp at hStar
      · exact absurd (by simp) hHost.star_not_mem
      · have hStar : '*' ∈ base := by
          have hSame : '*' :: '.' :: rest.toList = base := by simpa using hBase
          rw [← hSame]
          exact List.mem_cons_self
        exact absurd hStar hHost.star_not_mem
  simp only [textRecord, hUnder, hPlain]
  rfl

/-- The record for a name has a name that is itself accepted, and is free of wildcards, unless the
name is the bare wildcard or is too long for the label of the record. -/
theorem textRecord_name (k : KeyAuthorization) (h : ofName text = .ok identifier) :
    ∃ base record, k.textRecord identifier = .ok record ∧
      record.name = "_acme-challenge." ++ base ∧
      (identifier.value = base ∨ identifier.value = "*." ++ base) ∧
      (['*'] ∉ record.name.toList.splitOn '.' ↔ identifier ≠ .dns "*") ∧
      (ofName record.name = .ok (.dns record.name) ↔
        identifier ≠ .dns "*" ∧ (Utf8.encode base).length ≤ 237) ∧
      ∀ wildcard, ofName ("*." ++ text) = .ok wildcard → k.textRecord wildcard = .ok record := by
  obtain ⟨name, rfl, -, -⟩ := Identifier.exists_of_ofName h
  by_cases hBare : name = "*"
  · cases hBare
    have hStar : ['*'] ∈ "_acme-challenge.*".toList.splitOn '.' := by decide
    have hRefused : ofName "_acme-challenge.*" ≠ .ok (.dns "_acme-challenge.*") := by decide
    refine ⟨"*", ⟨"_acme-challenge.*", _⟩, rfl, rfl, .inl rfl, ?_, ?_, ?_⟩
    · exact iff_of_false (fun hNot => hNot hStar) (fun hName => hName rfl)
    · exact iff_of_false hRefused (fun hName => hName.1 rfl)
    · intro wildcard hWildcard
      exact textRecord_wildcard h hWildcard
  · obtain ⟨base, hBase, hUnder, hHost, hLower⟩ := Identifier.base_cases h hBare
    have hRecord := isHostName_record hHost
    have hName : Identifier.dns name ≠ .dns "*" := fun hSame => hBare (Identifier.dns.inj hSame)
    refine ⟨base, _, textRecord_of_base hBase, rfl, hUnder, ?_, ?_, ?_⟩
    · refine iff_of_true (fun hStar => ?_) hName
      exact (hRecord.splitOn _ hStar).star_not_mem (List.mem_singleton_self '*')
    · rw [Identifier.ofName_eq_self_iff hRecord (lower_record hLower), length_record]
      constructor
      · intro hLength
        exact ⟨hName, by omega⟩
      · rintro ⟨-, hLength⟩
        omega
    · intro wildcard hWildcard
      rw [textRecord_wildcard h hWildcard, textRecord_of_base hBase]

theorem textRecord_name_www :
    ofName "WWW.Example.com" = .ok (.dns "www.example.com") ∧
      ofName "*.WWW.Example.com" = .ok (.dns "*.www.example.com") ∧
      ∃ record, textRecord ⟨"abc", "AA"⟩ (.dns "www.example.com") = .ok record ∧
        record.name = "_acme-challenge.www.example.com" ∧
        ofName record.name = .ok (.dns record.name) ∧
        textRecord ⟨"abc", "AA"⟩ (.dns "*.www.example.com") = .ok record := by
  have hName : ofName "WWW.Example.com" = .ok (.dns "www.example.com") := by decide +kernel
  have hWildcard : ofName ("*." ++ "WWW.Example.com") = .ok (.dns "*.www.example.com") := by
    decide +kernel
  obtain ⟨base, record, hRecord, hText, hBase, -, hAccepted, hSame⟩ :=
    textRecord_name ⟨"abc", "AA"⟩ hName
  obtain rfl : base = "www.example.com" := by
    rcases hBase with hBase | hBase
    · exact hBase.symm
    · have hFirst := congrArg (fun name => name.toList.head?) hBase
      simp [Identifier.value] at hFirst
  exact ⟨hName, hWildcard, record, hRecord, hText, hAccepted.mpr ⟨by decide, by decide⟩,
    hSame _ hWildcard⟩

/-- A name of the greatest length. -/
def longestName : String :=
  String.ofList (['.'].intercalate
    [List.replicate 63 'a', List.replicate 63 'b', List.replicate 63 'c', List.replicate 61 'd'])

theorem isHostName_longestName : IsHostName longestName.toList := by
  rw [longestName, String.toList_ofList]
  refine ⟨_, by decide, rfl, ?_⟩
  intro label hMem
  rw [← Identifier.isLabel_iff]
  revert label
  decide

theorem lower_longestName : longestName.toList.map Char.toLower = longestName.toList := by
  rw [longestName, String.toList_ofList]
  decide +kernel

theorem length_longestName : (Utf8.encode longestName).length = 253 := by
  rw [Utf8.encode, longestName, String.toList_ofList]
  decide +kernel

/-- The record for the bare wildcard has a wildcard in its name, and the one for a name of the
greatest length has a name that is too long. -/
theorem illegal_of_bare_wildcard :
    ofName "*" = .ok (.dns "*") ∧ ofName longestName = .ok (.dns longestName) ∧
      ∀ k : KeyAuthorization,
        (∃ record, k.textRecord (.dns "*") = .ok record ∧
          ['*'] ∈ record.name.toList.splitOn '.' ∧ ofName record.name ≠ .ok (.dns record.name)) ∧
        ∃ record, k.textRecord (.dns longestName) = .ok record ∧
          ofName record.name ≠ .ok (.dns record.name) := by
  have hHost := isHostName_longestName
  refine ⟨by decide, ?_, fun k => ⟨?_, ?_⟩⟩
  · rw [Identifier.ofName_eq_self_iff hHost lower_longestName, length_longestName]
  · have hStar : ['*'] ∈ "_acme-challenge.*".toList.splitOn '.' := by decide
    have hRefused : ofName "_acme-challenge.*" ≠ .ok (.dns "_acme-challenge.*") := by decide
    exact ⟨⟨"_acme-challenge.*", _⟩, rfl, hStar, hRefused⟩
  · have hBase : (Text.stripStart? "*." longestName).getD longestName = longestName := by
      rw [Identifier.stripStart?_of_isHostName hHost]
      rfl
    refine ⟨_, textRecord_of_base hBase, ?_⟩
    rw [ne_eq, Identifier.ofName_eq_self_iff (isHostName_record hHost)
      (lower_record lower_longestName), length_record, length_longestName]
    decide

end KeyAuthorization

end Enrollment
