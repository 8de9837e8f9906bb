import Enrollment.Challenge.RecordProof
import Enrollment.Challenge.WebProof

/-! # Scripted providers

Providers that keep their proofs in memory, over a name service where one is needed. They can be
told to fail.
-/

namespace Enrollment.Rehearsal

/-- What a name service was asked to do. -/
inductive RecordEvent where
  | published (record : TextRecord)
  | removing (published : PublishedRecord)

/-- A name service, and the records that are remembered for removal. -/
structure NameService where
  failPublish : Option NameServiceError
  failRemove : Option NameServiceError
  published : Nat
  remembered : RecordBook
  /-- What it was asked to do, the latest first. -/
  events : List RecordEvent

namespace NameService

def new (failPublish failRemove : Option NameServiceError) : NameService :=
  { failPublish, failRemove, published := 0, remembered := .empty, events := [] }

def handle : (action : RecordAction) → NameService → action.Answer × NameService
  | .publish record, names =>
    match names.failPublish with
    | some e => (.error e, names)
    | none =>
      let published := names.published + 1
      (.ok ⟨s!"rec-{published}", record⟩,
        { names with published, events := .published record :: names.events })
  | .remove published, names =>
    let names := { names with events := .removing published :: names.events }
    match names.failRemove with
    | some e => (.error e, names)
    | none => (.ok (), names)
  | .remember token published, names =>
    ((), { names with remembered := names.remembered.remember token published })
  | .forget token, names =>
    let (published, remembered) := names.remembered.forget token
    (published, { names with remembered })

def proofs : RecordProofs := ⟨"scripted"⟩

end NameService

inductive ScriptedProvider where
  /-- Does nothing, or fails if it is told to. -/
  | recording (failProvision failDeprovision : Bool)
  | web (proofs : WebProofs)
  | record (names : NameService)

/-- What a provider is asked for. -/
inductive ProofStep where
  | provision
  | deprovision
  deriving DecidableEq, Repr

namespace ScriptedProvider

def recordingError (reason : String) : ProviderError := .backend "recording" reason

/-- Carries out a step. The events of the name service come in the order in which they happened. -/
def run (step : ProofStep) (proof : Proof) :
    ScriptedProvider → Except ProviderError Unit × ScriptedProvider × List RecordEvent
  | recording failProvision failDeprovision =>
    let result := match step with
      | .provision => if failProvision then .error (recordingError "provision refused") else .ok ()
      | .deprovision =>
        if failDeprovision then .error (recordingError "deprovision refused") else .ok ()
    (result, recording failProvision failDeprovision, [])
  | web proofs =>
    match step with
    | .provision =>
      match proofs.provision proof with
      | .ok proofs => (.ok (), web proofs, [])
      | .error e => (.error e, web proofs, [])
    | .deprovision => (.ok (), web (proofs.deprovision proof), [])
  | record names =>
    let work := match step with
      | .provision => NameService.proofs.provision proof
      | .deprovision => NameService.proofs.deprovision proof
    let (result, names) := work.run NameService.handle { names with events := [] }
    (result, record names, names.events.reverse)

/-- How many proofs are kept, where that is known. -/
def held? : ScriptedProvider → Option Nat
  | recording _ _ => none
  | web proofs => some proofs.size
  | record names => some names.remembered.size

end ScriptedProvider

end Enrollment.Rehearsal
