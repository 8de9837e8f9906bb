import Enrollment.Challenge.RecordProof
import Enrollment.Proofs.KeyAuthorization

/-! # Histories of records

Proofs are shown and removed by any number of runs at once, over a name service any call to which
may fail. The runs share the book in which the records are kept for removal. What happens to records
is told by events in their order.
-/

namespace Enrollment

abbrev RecordRun := RecordWork (Except ProviderError Unit)

structure RecordKeeping where
  book : RecordBook
  runs : List RecordRun

namespace RecordKeeping

def new : RecordKeeping := ⟨.empty, []⟩

/-- What a run goes on with: an answer of the name service, or what the book holds. -/
inductive Step where
  | published (answer : Except NameServiceError PublishedRecord)
  | removed (answer : Except NameServiceError Unit)
  | look

inductive Move where
  | provision (proof : Proof)
  | deprovision (proof : Proof)
  | step (run : Nat) (step : Step)

inductive Event where
  | called
  | refused
  | published (record : PublishedRecord)
  /-- A record is kept for a token; another may have been kept for it before. -/
  | remembered (token : String) (record : PublishedRecord) (before : Option PublishedRecord)
  | forgot (token : String) (found : Option PublishedRecord)
  | removed (record : PublishedRecord)
  | unremoved (record : PublishedRecord)

namespace Event

def published? : Event → Option PublishedRecord
  | published record => some record
  | called | refused | remembered _ _ _ | forgot _ _ | removed _ | unremoved _ => none

def removed? : Event → Option PublishedRecord
  | removed record => some record
  | called | refused | published _ | remembered _ _ _ | forgot _ _ | unremoved _ => none

/-- A record that is in the book no longer and has not been removed. -/
def dropped? : Event → Option PublishedRecord
  | remembered _ _ before => before
  | unremoved record => some record
  | called | refused | published _ | forgot _ _ | removed _ => none

end Event

def withRun (s : RecordKeeping) (i : Nat) (run : RecordRun) : RecordKeeping :=
  { s with runs := s.runs.set i run }

def stepOf? (s : RecordKeeping) (i : Nat) : RecordRun → Step → Option (Event × RecordKeeping)
  | .call (.publish _) next, .published (.ok record) =>
    some (.published record, s.withRun i (next (.ok record)))
  | .call (.publish _) next, .published (.error e) => some (.refused, s.withRun i (next (.error e)))
  | .call (.remember token record) next, .look =>
    some (.remembered token record (s.book.get? token),
      { s with book := s.book.remember token record }.withRun i (next ()))
  | .call (.forget token) next, .look =>
    let (found, book) := s.book.forget token
    some (.forgot token found, { s with book }.withRun i (next found))
  | .call (.remove record) next, .removed (.ok answer) =>
    some (.removed record, s.withRun i (next (.ok answer)))
  | .call (.remove record) next, .removed (.error e) =>
    some (.unremoved record, s.withRun i (next (.error e)))
  | _, _ => none

def move? (proofs : RecordProofs) (s : RecordKeeping) : Move → Option (Event × RecordKeeping)
  | .provision proof => some (.called, { s with runs := s.runs ++ [proofs.provision proof] })
  | .deprovision proof => some (.called, { s with runs := s.runs ++ [proofs.deprovision proof] })
  | .step i step => s.runs[i]?.bind fun run => s.stepOf? i run step

inductive Run (proofs : RecordProofs) : List Event → RecordKeeping → Prop where
  | new : Run proofs [] new
  | move {past : List Event} {s t : RecordKeeping} {event : Event} (m : Move)
    (run : Run proofs past s) (moves : s.move? proofs m = some (event, t)) :
    Run proofs (past ++ [event]) t

/-! ### How far a run has come -/

/-- The record that a run has in its hands: it was published and is not in the book yet, or was
taken out of it to be removed. -/
def inHand? : RecordRun → Option PublishedRecord
  | .call (.remember _ record) _ => some record
  | .call (.remove record) _ => some record
  | .call (.publish _) _ | .call (.forget _) _ | .done _ => none

inductive Stage : RecordRun → Prop where
  | ended (result : Except ProviderError Unit) : Stage (.done result)
  | publishing {record : TextRecord} {next : Except NameServiceError PublishedRecord → RecordRun}
    (failed : ∀ e, ∃ result, next (.error e) = .done result)
    (shown : ∀ published, ∃ token result,
      next (.ok published) = .call (.remember token published) fun _ => .done result) :
    Stage (.call (.publish record) next)
  | remembering (token : String) (published : PublishedRecord)
    (result : Except ProviderError Unit) :
    Stage (.call (.remember token published) fun _ => .done result)
  | forgetting {token : String} {next : Option PublishedRecord → RecordRun}
    (absent : ∃ result, next none = .done result)
    (found : ∀ published, ∃ after, next (some published) = .call (.remove published) after ∧
      ∀ answer, ∃ result, after answer = .done result) : Stage (.call (.forget token) next)
  | removing {published : PublishedRecord} {next : Except NameServiceError Unit → RecordRun}
    (ends : ∀ answer, ∃ result, next answer = .done result) :
    Stage (.call (.remove published) next)

theorem provision_of_error (proofs : RecordProofs) {proof : Proof} {e : KeyAuthorizationError}
    (h : RecordProofs.recordOf proof = .error e) :
    proofs.provision proof = .done (.error (.keyAuthorization e)) := by
  simp only [RecordProofs.provision, h]
  rfl

theorem exists_recordOf (name : String) {token : String} (key : AccountKey) (hEmpty : token ≠ "")
    (hToken : isToken token = true) :
    ∃ record, RecordProofs.recordOf ⟨.dns name, token, key⟩ = .ok record := by
  have hRecord : RecordProofs.recordOf ⟨.dns name, token, key⟩ =
      KeyAuthorization.textRecord ⟨token, key.thumbprint⟩ (.dns name) := by
    rw [RecordProofs.recordOf, KeyAuthorization.ofKey_of_isToken key hEmpty hToken]
    rfl
  exact ⟨_, hRecord⟩

theorem exists_provision_of_ok (proofs : RecordProofs) {proof : Proof} {record : TextRecord}
    (h : RecordProofs.recordOf proof = .ok record) :
    ∃ next, proofs.provision proof = .call (.publish record) next ∧
      (∀ e, next (.error e) = .done (.error (.backend proofs.service e.message))) ∧
      ∀ published, next (.ok published) =
        .call (.remember proof.token published) fun _ => .done (.ok ()) := by
  simp only [RecordProofs.provision, h]
  exact ⟨_, rfl, fun _ => rfl, fun _ => rfl⟩

theorem exists_deprovision (proofs : RecordProofs) (proof : Proof) :
    ∃ next, proofs.deprovision proof = .call (.forget proof.token) next ∧
      next none = .done (.ok ()) ∧ ∀ published, ∃ after,
        next (some published) = .call (.remove published) after ∧
        after (.ok ()) = .done (.ok ()) ∧
        ∀ e, after (.error e) = .done (.error (.backend proofs.service e.message)) :=
  ⟨_, rfl, rfl, fun _ => ⟨_, rfl, rfl, fun _ => rfl⟩⟩

theorem stage_provision (proofs : RecordProofs) (proof : Proof) :
    Stage (proofs.provision proof) := by
  cases h : RecordProofs.recordOf proof with
  | error e =>
    rw [provision_of_error proofs h]
    exact .ended _
  | ok record =>
    obtain ⟨next, hNext, hFailed, hShown⟩ := exists_provision_of_ok proofs h
    rw [hNext]
    exact .publishing (fun e => ⟨_, hFailed e⟩) fun published => ⟨_, _, hShown published⟩

theorem stage_deprovision (proofs : RecordProofs) (proof : Proof) :
    Stage (proofs.deprovision proof) := by
  obtain ⟨next, hNext, hAbsent, hFound⟩ := exists_deprovision proofs proof
  rw [hNext]
  refine .forgetting ⟨_, hAbsent⟩ fun published => ?_
  obtain ⟨after, hAfter, hRemoved, hFailed⟩ := hFound published
  refine ⟨after, hAfter, fun answer => ?_⟩
  cases answer with
  | ok => exact ⟨_, hRemoved⟩
  | error e => exact ⟨_, hFailed e⟩

/-! ### What a step does -/

/-- All that a step does to the book and to what its run has in hand, by its event. -/
inductive Shift (book : RecordBook) :
    Option PublishedRecord → Event → RecordBook → Option PublishedRecord → Prop where
  | refused : Shift book none .refused book none
  | published (record : PublishedRecord) : Shift book none (.published record) book (some record)
  | remembered (token : String) (record : PublishedRecord) :
    Shift book (some record) (.remembered token record (book.get? token))
      (book.remember token record) none
  | forgot (token : String) :
    Shift book none (.forgot token (book.get? token)) (book.forget token).2 (book.get? token)
  | removed (record : PublishedRecord) : Shift book (some record) (.removed record) book none
  | unremoved (record : PublishedRecord) : Shift book (some record) (.unremoved record) book none

theorem shift_of_stepOf? {s t : RecordKeeping} {i : Nat} {run : RecordRun} {step : Step}
    {event : Event} (stage : Stage run) (moves : s.stepOf? i run step = some (event, t)) :
    ∃ run', t.runs = s.runs.set i run' ∧ Stage run' ∧
      Shift s.book (inHand? run) event t.book (inHand? run') := by
  cases stage with
  | ended result => cases moves
  | @publishing record next failed shown =>
    cases step with
    | published answer =>
      cases answer with
      | ok record =>
        cases moves
        obtain ⟨token, result, hNext⟩ := shown record
        exact ⟨_, rfl, hNext ▸ .remembering token record result, hNext ▸ .published record⟩
      | error e =>
        cases moves
        obtain ⟨result, hNext⟩ := failed e
        exact ⟨_, rfl, hNext ▸ .ended result, hNext ▸ .refused⟩
    | removed | look => cases moves
  | remembering token record result =>
    cases step with
    | look =>
      cases moves
      exact ⟨_, rfl, .ended result, .remembered token record⟩
    | published | removed => cases moves
  | @forgetting token next absent found =>
    cases step with
    | look =>
      cases moves
      have hNext : Stage (next (s.book.get? token)) ∧
          inHand? (next (s.book.get? token)) = s.book.get? token := by
        cases s.book.get? token with
        | none =>
          obtain ⟨result, hNone⟩ := absent
          exact ⟨hNone ▸ .ended result, hNone ▸ rfl⟩
        | some record =>
          obtain ⟨after, hSome, ends⟩ := found record
          exact ⟨hSome ▸ .removing ends, hSome ▸ rfl⟩
      refine ⟨_, rfl, hNext.1, ?_⟩
      show Shift s.book none (.forgot token (s.book.get? token)) (s.book.forget token).2
        (inHand? (next (s.book.get? token)))
      rw [hNext.2]
      exact .forgot token
    | published | removed => cases moves
  | @removing record next ends =>
    cases step with
    | removed answer =>
      obtain ⟨result, hNext⟩ := ends answer
      cases answer with
      | ok =>
        cases moves
        exact ⟨_, rfl, hNext ▸ .ended result, hNext ▸ .removed record⟩
      | error e =>
        cases moves
        exact ⟨_, rfl, hNext ▸ .ended result, hNext ▸ .unremoved record⟩
    | published | look => cases moves

/-! ### Calls that run to their end at once -/

variable {proofs : RecordProofs} {past : List Event} {s t : RecordKeeping} {event : Event}

theorem Run.step_last {book : RecordBook} {runs : List RecordRun} {work : RecordRun}
    (run : Run proofs past ⟨book, runs ++ [work]⟩) (step : Step)
    (moves : stepOf? ⟨book, runs ++ [work]⟩ runs.length work step = some (event, t)) :
    Run proofs (past ++ [event]) t := by
  refine .move (.step runs.length step) run ?_
  rw [move?, List.getElem?_concat_length, Option.bind_some, moves]

theorem withRun_last (book : RecordBook) (runs : List RecordRun) (work work' : RecordRun) :
    withRun ⟨book, runs ++ [work]⟩ runs.length work' = ⟨book, runs ++ [work']⟩ := by
  rw [withRun, List.set_append_right _ _ (Nat.le_refl _), Nat.sub_self, List.set_cons_zero]

theorem Run.provisioned (run : Run proofs past s) {proof : Proof} {text : TextRecord}
    (hText : RecordProofs.recordOf proof = .ok text) (record : PublishedRecord) :
    Run proofs (past ++ [.called] ++ [.published record] ++
        [.remembered proof.token record (s.book.get? proof.token)])
      ⟨s.book.remember proof.token record, s.runs ++ [.done (.ok ())]⟩ := by
  obtain ⟨next, hNext, -, hShown⟩ := exists_provision_of_ok proofs hText
  have called : Run proofs (past ++ [.called]) ⟨s.book, s.runs ++ [.call (.publish text) next]⟩ :=
    hNext ▸ .move (.provision proof) run rfl
  have published : Run proofs (past ++ [.called] ++ [.published record])
      ⟨s.book, s.runs ++ [.call (.remember proof.token record) fun _ => .done (.ok ())]⟩ := by
    refine called.step_last (.published (.ok record)) ?_
    rw [stepOf?, withRun_last, hShown]
  refine published.step_last .look ?_
  rw [stepOf?, withRun_last]

/-- A call that takes a proof away has in hand what was kept for its token. -/
theorem Run.taken (run : Run proofs past s) {proof : Proof}
    {next : Option PublishedRecord → RecordRun}
    (hNext : proofs.deprovision proof = .call (.forget proof.token) next) :
    Run proofs (past ++ [.called] ++ [.forgot proof.token (s.book.get? proof.token)])
      ⟨s.book.erase proof.token, s.runs ++ [next (s.book.get? proof.token)]⟩ := by
  have called : Run proofs (past ++ [.called])
      ⟨s.book, s.runs ++ [.call (.forget proof.token) next]⟩ :=
    hNext ▸ .move (.deprovision proof) run rfl
  refine called.step_last .look ?_
  show some (_, withRun ⟨s.book.erase proof.token, s.runs ++ [_]⟩ _ _) = _
  rw [withRun_last]

theorem Run.unremoved (run : Run proofs past s) {proof : Proof} {record : PublishedRecord}
    (kept : s.book.get? proof.token = some record) (e : NameServiceError) :
    Run proofs (past ++ [.called] ++ [.forgot proof.token (some record)] ++ [.unremoved record])
      ⟨s.book.erase proof.token,
        s.runs ++ [.done (.error (.backend proofs.service e.message))]⟩ := by
  obtain ⟨next, hNext, -, hFound⟩ := exists_deprovision proofs proof
  obtain ⟨after, hAfter, -, hFailed⟩ := hFound record
  have taken := run.taken hNext
  rw [kept, hAfter] at taken
  refine taken.step_last (.removed (.error e)) ?_
  rw [stepOf?, withRun_last, hFailed]

theorem Run.nothing_taken (run : Run proofs past s) (proof : Proof)
    (kept : s.book.get? proof.token = none) :
    Run proofs (past ++ [.called] ++ [.forgot proof.token none])
      ⟨s.book.erase proof.token, s.runs ++ [.done (.ok ())]⟩ := by
  obtain ⟨next, hNext, hAbsent, -⟩ := exists_deprovision proofs proof
  have taken := run.taken hNext
  rwa [kept, hAbsent] at taken

end RecordKeeping

end Enrollment
