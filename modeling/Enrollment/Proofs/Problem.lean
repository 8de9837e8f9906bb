import Enrollment.Problem
import Enrollment.Proofs.Json.Reading

/-! # Problems there and back

A problem is read from its own document as it was, however it was come by: what is left out of the
document is what the reader puts in for a missing member. Identifiers are values of any shape, so
they are kept as long as they hold no fractions; one that is `null` cannot be told apart from none,
and no reader comes to it.
-/

namespace Enrollment

open Json (Outline Quoted Record Value maxDepth)
open Json.Record (memberIf)

namespace Subproblem

variable {depth : Nat} {s : Subproblem}

/-- Whether an identifier, if there is one, is no `null` and has been read at some depth. -/
def Sound (depth : Nat) (s : Subproblem) : Prop :=
  ∀ v ∈ s.identifier, v ≠ .null ∧ ∃ inner ≤ depth, v.Readable inner

/-- Whether the identifier holds no fractions. -/
def isWhole (s : Subproblem) : Bool := s.identifier.all Value.isWhole

theorem Sound.mono {deeper : Nat} (hDepth : depth ≤ deeper) (sound : s.Sound depth) :
    s.Sound deeper := by
  intro v hv
  obtain ⟨hNull, inner, hInner, readable⟩ := sound v hv
  exact ⟨hNull, inner, Nat.le_trans hInner hDepth, readable⟩

theorem keeps_type : record.Keeps "type" Json.Reader.text Draft.type :=
  ⟨⟨_, _, rfl, fun _ _ => rfl⟩, by simp [record], by simp [record], rfl⟩

theorem keeps_identifier : record.Keeps "identifier" (.optional Value.reader) Draft.identifier :=
  ⟨⟨_, _, rfl, fun _ _ => rfl⟩, by simp [record], by simp [record], rfl⟩

theorem sound_of_reader {node : Outline} (h : reader depth node = .ok s) : s.Sound (depth - 1) := by
  obtain ⟨draft, hRead, h⟩ := bind_eq_ok_iff.mp h
  cases h
  intro v hv
  obtain ⟨part, -, hNode, hValue⟩ := (keeps_identifier.join_kept_iff hRead).mp hv
  refine ⟨?_, depth - 1, Nat.le_refl _, Value.readable_of_ofOutline part hValue⟩
  rintro rfl
  exact hNode (Value.eq_null_of_ofOutline hValue)

/-- The members that stand in the document of a subproblem. -/
def outlines (s : Subproblem) : List (Quoted × Outline) :=
  (.of "type", .text (.of s.type)) ::
    (memberIf "detail" (fun detail => .text (.of detail)) s.detail ++
    memberIf "identifier" Value.outline s.identifier)

theorem outline_toJson (s : Subproblem) : s.toJson.outline = .object s.outlines .closed := by
  cases hDetail : s.detail <;> cases hIdentifier : s.identifier <;>
    simp [toJson, outlines, memberIf, hDetail, hIdentifier, Value.outline,
      Value.outline.memberOutlines]

theorem readMembers_outlines (sound : s.Sound depth) (whole : s.isWhole = true) :
    record.readMembers depth s.outlines record.empty =
      .ok ⟨some s.type, s.detail.map some, s.identifier.map some⟩ := by
  have hDetail : record.field? "detail" = some (.of "detail" (.optional Json.Reader.text)
    Draft.detail (fun d a => { d with detail := a }) true) := rfl
  have hIdentifier : record.field? "identifier" = some (.of "identifier"
    (.optional Json.Value.reader) Draft.identifier (fun d a => { d with identifier := a }) true) :=
    rfl
  have hValue : ∀ v ∈ s.identifier, v.outline ≠ .null ∧
      Value.reader depth v.outline = .ok v := by
    intro v hv
    obtain ⟨hNull, inner, hInner, readable⟩ := sound v hv
    have hWhole : v.isWhole = true := by
      rw [isWhole, hv] at whole
      exact whole
    refine ⟨Value.outline_ne_null hNull hWhole, ?_⟩
    rw [Value.reader, Value.ofOutline_outline v (readable.fits hInner v hWhole),
      readable.ordered_eq]
  calc record.readMembers depth s.outlines record.empty
    _ = record.readMembers depth s.outlines.tail ⟨some s.type, none, none⟩ :=
      Record.readMembers_of_found rfl rfl
        (map_eq_ok_iff.mpr ⟨s.type, Quoted.read_of s.type, rfl⟩)
    _ = record.readMembers depth (memberIf "identifier" Value.outline s.identifier)
          ⟨some s.type, s.detail.map some, none⟩ :=
      Record.readMembers_of_nullable hDetail rfl rfl
        fun detail _ => ⟨by simp, Quoted.read_of detail⟩
    _ = record.readMembers depth (memberIf "identifier" Value.outline s.identifier ++ [])
          ⟨some s.type, s.detail.map some, none⟩ := by rw [List.append_nil]
    _ = record.readMembers depth [] ⟨some s.type, s.detail.map some, s.identifier.map some⟩ :=
      Record.readMembers_of_nullable hIdentifier rfl rfl hValue
    _ = _ := rfl

theorem reader_toJson (hDepth : 1 < depth) (sound : s.Sound (depth - 1))
    (whole : s.isWhole = true) : reader depth s.toJson.outline = .ok s := by
  have hRead := Record.read_object_eq_ok_iff.mpr ⟨hDepth, rfl, readMembers_outlines sound whole⟩
  rw [← outline_toJson] at hRead
  refine bind_eq_ok_iff.mpr ⟨_, hRead, ?_⟩
  obtain ⟨type, detail, identifier⟩ := s
  cases detail <;> cases identifier <;> rfl

theorem fits_toJson (hDepth : 1 < depth) (sound : s.Sound (depth - 1))
    (whole : s.isWhole = true) : s.toJson.Fits depth := by
  refine ⟨hDepth, Value.fitMembers_iff.mpr fun member hMember => ?_⟩
  rw [List.append_assoc, List.mem_append, List.mem_append, List.mem_singleton,
    Option.mem_toList, Option.mem_toList, Option.map_eq_some_iff, Option.map_eq_some_iff] at hMember
  rcases hMember with rfl | ⟨detail, -, rfl⟩ | ⟨v, hv, rfl⟩
  · trivial
  · trivial
  · obtain ⟨-, inner, hInner, readable⟩ := sound v hv
    rw [isWhole, hv] at whole
    exact readable.fits hInner v whole

/-- A document that gives no type is one of the default type. -/
theorem type_of_missing {node : Outline} (hMissing : ∀ part, ¬record.Gives node "type" part)
    (h : reader depth node = .ok s) : s.type = defaultProblemType := by
  obtain ⟨draft, hRead, h⟩ := bind_eq_ok_iff.mp h
  cases h
  change draft.type.getD defaultProblemType = defaultProblemType
  rw [(keeps_type.eq_none_iff hRead).mpr hMissing, Option.getD_none]

theorem field?_toJson (s : Subproblem) : s.toJson.field? "type" = some (.text s.type) ∧
    s.toJson.field? "detail" = s.detail.map Value.text ∧
    s.toJson.field? "identifier" = s.identifier := by
  obtain ⟨type, detail, identifier⟩ := s
  cases detail <;> cases identifier <;> exact ⟨rfl, rfl, rfl⟩

end Subproblem

namespace Problem

variable {depth : Nat} {p : Problem}

/-- What can be come by: a status of sixteen bits and subproblems that can be read. -/
structure Sound (p : Problem) : Prop where
  status : ∀ n ∈ p.status, n < 65536
  subproblems : ∀ s ∈ p.subproblems, s.Sound (maxDepth - 3)

def isWhole (p : Problem) : Bool := p.subproblems.all Subproblem.isWhole

theorem keeps_type : record.Keeps "type" Json.Reader.text Draft.type :=
  ⟨⟨_, _, rfl, fun _ _ => rfl⟩, by simp [record], by simp [record], rfl⟩

theorem keeps_status : record.Keeps "status" (.optional Json.Reader.word16) Draft.status :=
  ⟨⟨_, _, rfl, fun _ _ => rfl⟩, by simp [record], by simp [record], rfl⟩

theorem keeps_subproblems :
    record.Keeps "subproblems" (.list Subproblem.reader) Draft.subproblems :=
  ⟨⟨_, _, rfl, fun _ _ => rfl⟩, by simp [record], by simp [record], rfl⟩

theorem sound_of_reader {node : Outline} (hDepth : depth ≤ maxDepth)
    (h : reader depth node = .ok p) : p.Sound := by
  obtain ⟨draft, hRead, h⟩ := bind_eq_ok_iff.mp h
  cases h
  constructor
  · intro n hStatus
    obtain ⟨part, -, -, hWord⟩ := (keeps_status.join_kept_iff hRead).mp hStatus
    exact Json.Reader.word16_lt hWord
  · cases hListed : draft.subproblems with
    | none => exact List.forall_mem_nil _
    | some subproblems =>
      obtain ⟨part, -, hPart⟩ := keeps_subproblems.gives hRead hListed
      refine Json.Reader.forall_of_list hPart fun item s hItem => ?_
      exact (Subproblem.sound_of_reader hItem).mono (by omega)

/-- The subproblems that are written, if there are any. -/
def listed (p : Problem) : Option (List Subproblem) :=
  if p.subproblems.isEmpty then none else some p.subproblems

def listedOutlines (p : Problem) : List (Quoted × Outline) :=
  memberIf "subproblems" (fun listed => .list (listed.map fun s => s.toJson.outline) .closed)
    p.listed

/-- The members that stand in the document of a problem. -/
def outlines (p : Problem) : List (Quoted × Outline) :=
  (.of "type", .text (.of p.type)) ::
    (memberIf "detail" (fun detail => .text (.of detail)) p.detail ++
    (memberIf "status" (fun status : Nat => .number (.ofInt status)) p.status ++ p.listedOutlines))

theorem outline_toJson (p : Problem) : p.toJson.outline = .object p.outlines .closed := by
  cases hDetail : p.detail <;> cases hStatus : p.status <;> cases hSub : p.subproblems <;>
    simp [toJson, outlines, listedOutlines, listed, memberIf, hDetail, hStatus, hSub,
      Value.outline, Value.int, Value.outline.memberOutlines, Value.itemOutlines_eq_map]

theorem word16_ofInt {n : Nat} (h : n < 65536) :
    Json.Reader.word16 depth (.number (.ofInt n)) = .ok n := by
  have hWord : Json.IsWord n := by
    unfold Json.IsWord Json.maxWord
    omega
  refine bind_eq_ok_iff.mpr ⟨_, Json.Numeral.read_ofInt hWord, ?_⟩
  exact if_pos ⟨Int.natCast_nonneg n, by omega⟩

theorem readMembers_listedOutlines {draft : Draft} (hNew : draft.subproblems = none)
    (sound : p.Sound) (whole : p.isWhole = true) :
    record.readMembers (maxDepth - 1) p.listedOutlines draft =
      .ok { draft with subproblems := p.listed } := by
  rw [listedOutlines, ← List.append_nil (memberIf _ _ _)]
  have hField : record.field? "subproblems" = some (.of "subproblems" (.list Subproblem.reader)
    Draft.subproblems (fun d a => { d with subproblems := a }) true) := rfl
  refine Record.readMembers_of_optional hField (congrArg Option.isSome hNew) ?_ ?_
  · intro hNone
    rw [hNone, ← hNew]
  · intro subproblems hSome
    refine map_eq_ok_iff.mpr ⟨subproblems, ?_, by rw [hSome]⟩
    rw [listed] at hSome
    split at hSome
    · cases hSome
    cases hSome
    refine Json.Reader.list_eq_ok_iff.mpr ⟨_, rfl, by decide, ?_⟩
    refine List.forall₂_map_left_iff.mpr (List.forall₂_same.mpr fun s hs => ?_)
    exact Subproblem.reader_toJson (by decide) (sound.subproblems s hs)
      (List.all_eq_true.mp whole s hs)

theorem readMembers_outlines (sound : p.Sound) (whole : p.isWhole = true) :
    record.readMembers (maxDepth - 1) p.outlines record.empty =
      .ok ⟨some p.type, p.detail.map some, p.status.map some, p.listed⟩ := by
  have hDetail : record.field? "detail" = some (.of "detail" (.optional Json.Reader.text)
    Draft.detail (fun d a => { d with detail := a }) true) := rfl
  have hStatus : record.field? "status" = some (.of "status" (.optional Json.Reader.word16)
    Draft.status (fun d a => { d with status := a }) true) := rfl
  calc record.readMembers (maxDepth - 1) p.outlines record.empty
    _ = record.readMembers (maxDepth - 1) p.outlines.tail ⟨some p.type, none, none, none⟩ :=
      Record.readMembers_of_found rfl rfl
        (map_eq_ok_iff.mpr ⟨p.type, Quoted.read_of p.type, rfl⟩)
    _ = record.readMembers (maxDepth - 1)
          (memberIf "status" (fun status : Nat => .number (.ofInt status)) p.status ++
            p.listedOutlines)
          ⟨some p.type, p.detail.map some, none, none⟩ :=
      Record.readMembers_of_nullable hDetail rfl rfl
        fun detail _ => ⟨by simp, Quoted.read_of detail⟩
    _ = record.readMembers (maxDepth - 1) p.listedOutlines
          ⟨some p.type, p.detail.map some, p.status.map some, none⟩ :=
      Record.readMembers_of_nullable hStatus rfl rfl
        fun status h => ⟨by simp, word16_ofInt (sound.status status h)⟩
    _ = _ := readMembers_listedOutlines rfl sound whole

theorem reader_toJson (sound : p.Sound) (whole : p.isWhole = true) :
    reader maxDepth p.toJson.outline = .ok p := by
  have hRead := Record.read_object_eq_ok_iff.mpr
    ⟨by decide, rfl, readMembers_outlines sound whole⟩
  rw [← outline_toJson] at hRead
  refine bind_eq_ok_iff.mpr ⟨_, hRead, ?_⟩
  obtain ⟨type, detail, status, subproblems⟩ := p
  cases detail <;> cases status <;> cases subproblems <;> rfl

theorem fits_toJson (sound : p.Sound) (whole : p.isWhole = true) : p.toJson.Fits maxDepth := by
  refine ⟨by decide, Value.fitMembers_iff.mpr fun member hMember => ?_⟩
  rw [List.append_assoc, List.append_assoc, List.mem_append, List.mem_append, List.mem_append,
    List.mem_singleton, Option.mem_toList, Option.mem_toList, Option.map_eq_some_iff,
    Option.map_eq_some_iff] at hMember
  rcases hMember with rfl | ⟨detail, -, rfl⟩ | ⟨status, hStatus, rfl⟩ | hMember
  · trivial
  · trivial
  · -- the number is written as an integer
    obtain ⟨n, hNumber, hInt⟩ := Option.bind_eq_some_iff.mp hStatus
    cases hInt
    have hBound := sound.status n hNumber
    change Json.IsWord n
    unfold Json.IsWord Json.maxWord
    omega
  · split at hMember
    · cases hMember
    obtain rfl := List.mem_singleton.mp hMember
    refine ⟨by decide, Value.fitItems_iff.mpr (List.forall_mem_map.mpr fun s hs => ?_)⟩
    exact Subproblem.fits_toJson (by decide) (sound.subproblems s hs)
      (List.all_eq_true.mp whole s hs)

theorem reader_run_toJson (sound : p.Sound) (whole : p.isWhole = true) :
    reader.run (Utf8.encode p.toJson.print) = .ok p :=
  Json.Reader.run_eq_ok_iff.mpr
    ⟨_, Value.outline_print (fits_toJson sound whole), reader_toJson sound whole⟩

theorem type_of_missing {node : Outline} (hMissing : ∀ part, ¬record.Gives node "type" part)
    (h : reader depth node = .ok p) : p.type = defaultProblemType := by
  obtain ⟨draft, hRead, h⟩ := bind_eq_ok_iff.mp h
  cases h
  change draft.type.getD defaultProblemType = defaultProblemType
  rw [(keeps_type.eq_none_iff hRead).mpr hMissing, Option.getD_none]

theorem field?_toJson (p : Problem) : p.toJson.field? "type" = some (.text p.type) ∧
    p.toJson.field? "detail" = p.detail.map Value.text ∧
    p.toJson.field? "status" = p.status.map (fun status => Value.int status) ∧
    p.toJson.field? "subproblems" =
      p.listed.map (fun listed => Value.list (listed.map Subproblem.toJson)) := by
  obtain ⟨type, detail, status, subproblems⟩ := p
  cases detail <;> cases status <;> cases subproblems <;> exact ⟨rfl, rfl, rfl, rfl⟩

/-- The ways to come by a problem: to make it, to give it a status, and to take it from a response
or from a document, as the whole of it or as a part. -/
inductive Obtained : Problem → Prop
  | new (type : String) (detail : Option String) : Obtained (new type detail)
  | withStatus {p : Problem} {status : Nat} (obtained : Obtained p) (hStatus : status < 65536) :
    Obtained (p.withStatus status)
  | response {status : Http.Status} {headers : Http.Headers} {body : Bytes} {p : Problem}
    (hCode : status.code < 1000) (h : ofResponse? status headers body = some p) : Obtained p
  | document {bytes : Bytes} {p : Problem} (h : reader.run bytes = .ok p) : Obtained p
  | part {depth : Nat} {node : Outline} {p : Problem} (hDepth : depth ≤ maxDepth)
    (h : reader depth node = .ok p) : Obtained p

theorem sound_of_run {bytes : Bytes} (h : reader.run bytes = .ok p) : p.Sound := by
  obtain ⟨root, -, hRead⟩ := Json.Reader.run_eq_ok_iff.mp h
  exact sound_of_reader (Nat.le_refl _) hRead

theorem Sound.withStatus {status : Nat} (sound : p.Sound) (hStatus : status < 65536) :
    (p.withStatus status).Sound := by
  refine ⟨?_, sound.subproblems⟩
  rintro _ ⟨⟩
  exact hStatus

theorem Obtained.sound (obtained : Obtained p) : p.Sound := by
  induction obtained with
  | new type detail => exact ⟨nofun, nofun⟩
  | withStatus _ hStatus ih => exact ih.withStatus hStatus
  | @response status headers body p hCode h =>
    unfold ofResponse? at h
    split at h
    · split at h
      · next found hRun =>
        cases h
        have sound := sound_of_run hRun
        refine sound.withStatus ?_
        cases hGiven : found.status with
        | none => exact Nat.lt_trans hCode (by decide)
        | some n => exact sound.status n hGiven
      · cases h
    · cases h
  | document h => exact sound_of_run h
  | part hDepth h => exact sound_of_reader hDepth h

/-- A problem, however it was come by, is read from its document as it was and written as the same
document again, as long as its identifiers hold no fractions. The document leaves out what is not
there, and where it gives no type the reader puts in the default one. -/
theorem document_lossless :
    (∀ p, Obtained p → p.isWhole = true →
      ∃ q, reader.run (Utf8.encode p.toJson.print) = .ok q ∧ q = p ∧
        q.toJson.print = p.toJson.print) ∧
    (∀ p : Problem, p.toJson.field? "type" = some (.text p.type) ∧
      p.toJson.field? "detail" = p.detail.map Value.text ∧
      p.toJson.field? "status" = p.status.map (fun status => Value.int status) ∧
      p.toJson.field? "subproblems" = (if p.subproblems.isEmpty then none
        else some (.list (p.subproblems.map Subproblem.toJson)))) ∧
    (∀ s : Subproblem, s.toJson.field? "type" = some (.text s.type) ∧
      s.toJson.field? "detail" = s.detail.map Value.text ∧
      s.toJson.field? "identifier" = s.identifier) ∧
    ∀ depth node,
      (∀ p, (∀ part, ¬record.Gives node "type" part) → reader depth node = .ok p →
        p.type = defaultProblemType) ∧
      ∀ s, (∀ part, ¬Subproblem.record.Gives node "type" part) →
        Subproblem.reader depth node = .ok s → s.type = defaultProblemType := by
  refine ⟨?_, ?_, Subproblem.field?_toJson, ?_⟩
  · intro p obtained whole
    exact ⟨p, reader_run_toJson obtained.sound whole, rfl, rfl⟩
  · intro p
    obtain ⟨hType, hDetail, hStatus, hSubproblems⟩ := field?_toJson p
    refine ⟨hType, hDetail, hStatus, hSubproblems.trans ?_⟩
    rw [listed]
    split <;> rfl
  · intro depth node
    exact ⟨fun p => type_of_missing, fun s => Subproblem.type_of_missing⟩

/-- A refusal without a type, one of whose two subproblems tells of a nested identifier. -/
def refusal : Bytes := Utf8.encode <|
  "\x7b\"subproblems\":[" ++
    "\x7b\"identifier\":\x7b\"value\":[1,\"\\u00e9\",null],\"type\":\"dns\"\x7d\x7d," ++
    "\x7b\"detail\":\"no\",\"identifier\":null\x7d],\"detail\":null\x7d"

/-- The refusal as it is written. -/
def refusalWritten : String :=
  "\x7b\"type\":\"about:blank\",\"status\":403,\"subproblems\":[" ++
    "\x7b\"type\":\"about:blank\"," ++
      "\"identifier\":\x7b\"type\":\"dns\",\"value\":[1,\"é\",null]\x7d\x7d," ++
    "\x7b\"type\":\"about:blank\",\"detail\":\"no\"\x7d]\x7d"

theorem document_lossless_refusal : ∃ p, ofResponse? ⟨403⟩ [] refusal = some p ∧
    p.isWhole = true ∧ p.toJson.print = refusalWritten ∧
    reader.run (Utf8.encode refusalWritten) = .ok p ∧
    ∃ q, reader 2 (.object [(.of "status", .null)] .closed) = .ok q ∧
      q.type = defaultProblemType := by
  have hRead : (ofResponse? ⟨403⟩ [] refusal).map (fun p => (p.isWhole, p.toJson.print)) =
      some (true, refusalWritten) := by decide +kernel
  obtain ⟨p, hRefusal, hPair⟩ := Option.map_eq_some_iff.mp hRead
  obtain ⟨hWhole, hWritten⟩ := Prod.mk.inj hPair
  obtain ⟨hLossless, -, -, hDefault⟩ := document_lossless
  obtain ⟨q, hBack, rfl, -⟩ := hLossless p (.response (by decide) hRefusal) hWhole
  have hStatus : reader 2 (.object [(.of "status", .null)] .closed) =
      .ok (new defaultProblemType none) :=
    bind_eq_ok_iff.mpr ⟨⟨none, none, some none, none⟩, Record.read_object_eq_ok_iff.mpr
      ⟨by decide, rfl, Record.readMembers_of_found rfl rfl rfl⟩, rfl⟩
  have hMissing : ∀ part, ¬record.Gives (.object [(.of "status", .null)] .closed) "type" part := by
    simp [Record.Gives, Quoted.read_of]
  exact ⟨q, hRefusal, hWhole, hWritten, hWritten ▸ hBack, _, hStatus,
    (hDefault 2 _).1 _ hMissing hStatus⟩

end Problem

end Enrollment
