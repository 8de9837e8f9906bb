import Enrollment.Calendar.Instant

/-! # Renewal scans

Which of the managed certificates expire within a threshold from now, the earliest first.
-/

namespace Enrollment

structure ManagedCertificate where
  id : Int
  name : String
  expires : Calendar.Instant
  deriving DecidableEq, Repr

structure RenewalCandidate where
  certificate : ManagedCertificate
  left : Calendar.Span
  deriving DecidableEq, Repr

inductive RenewalScanError where
  | negativeThreshold
  | thresholdRange
  | inventory (cause : String)
  deriving DecidableEq, Repr

def RenewalScanError.message : RenewalScanError → String
  | .negativeThreshold => "yenileme eşiği negatif olamaz"
  | .thresholdRange => "yenileme penceresi desteklenen tarih aralığını aşıyor"
  | .inventory cause => "sertifika envanteri okunamadı: " ++ cause

namespace Renewal

def defaultThreshold : Calendar.Span := .ofDays 40

/-- The end of the window from now, when it is in the calendar. -/
def windowEnd (threshold : Calendar.Span) (now : Calendar.Instant) :
    Except RenewalScanError Calendar.Instant :=
  if threshold.isNegative then .error .negativeThreshold
  else match now.addSpan? threshold with
    | some t => .ok t
    | none => .error .thresholdRange

/-- The certificates that expire by the end of the window; those that expire at the same time stay
in the order of the inventory. -/
def candidates (now windowEnd : Calendar.Instant) (inventory : List ManagedCertificate) :
    List RenewalCandidate :=
  let due := inventory.filter fun c => c.expires ≤ windowEnd
  (due.map fun c => ⟨c, c.expires.since now⟩).mergeSort fun a b =>
    a.certificate.expires ≤ b.certificate.expires

/-- The inventory is not read before the window is known to be sound. How it is read, and what else
that does, is up to `load`. -/
def scanWith {m : Type → Type} [Monad m] (load : m (Except String (List ManagedCertificate)))
    (threshold : Calendar.Span) (now : Calendar.Instant) :
    m (Except RenewalScanError (List RenewalCandidate)) :=
  match windowEnd threshold now with
  | .error e => pure (.error e)
  | .ok t => do
    match ← load with
    | .error cause => return .error (.inventory cause)
    | .ok inventory => return .ok (candidates now t inventory)

/-- The scan of an inventory that is at hand. -/
def scan (threshold : Calendar.Span) (now : Calendar.Instant)
    (load : Except String (List ManagedCertificate)) :
    Except RenewalScanError (List RenewalCandidate) :=
  Id.run (scanWith (pure load) threshold now)

end Renewal

end Enrollment
