import Enrollment.Log.Setup
import Enrollment.Proofs.Issuing.JobBounds
import Enrollment.Proofs.Issuing.SolverDiscipline
import Enrollment.Proofs.SingleFlight.Exclusion
import Enrollment.Proofs.Transport.Retry
import Enrollment.Proofs.Workforce.Conservation
import Enrollment.Rehearsal.Script.Flights
import Enrollment.Rehearsal.Script.Orders
import Enrollment.Rehearsal.Solving
import Enrollment.Proofs.Account.Fidelity
import Enrollment.Proofs.Nonce.Refinement
import Enrollment.Proofs.Fulfilment.History
import Enrollment.Proofs.Fulfilment.Joining
import Enrollment.Proofs.Fulfilment.Aggregation
import Enrollment.Proofs.Challenge.RecordHistory
import Enrollment.Proofs.Challenge.RecordAccount
import Enrollment.Proofs.Dispatch.Priority
import Enrollment.Proofs.Challenge.WebProof
import Enrollment.Proofs.Challenge.WebServing
import Enrollment.Proofs.Issuing.Routing
import Enrollment.Proofs.Fulfilment.Helpers
import Enrollment.Proofs.Issuance.History
import Enrollment.Proofs.Transport.Signing
import Enrollment.Proofs.Issuance.Routing
import Enrollment.Proofs.Issuing.Evidence
import Enrollment.Proofs.Fulfilment.Attendance
import Enrollment.Proofs.Fulfilment.Attribution
import Enrollment.Proofs.Challenge.Acceptance
import Enrollment.Proofs.Identifier.RoundTrip
import Enrollment.Proofs.Challenge.RecordName
import Enrollment.Proofs.Renewal.Scan
import Enrollment.Proofs.Renewal.Slots
import Enrollment.Proofs.Settings.Starting
import Enrollment.Proofs.Settings.Renewal
import Enrollment.Proofs.Codec.Base64Read
import Enrollment.Proofs.Pem.Blocks
import Enrollment.Proofs.Pem.Layout
import Enrollment.Proofs.Certificate.Chain
import Enrollment.Proofs.Pem.Continuation
import Enrollment.Proofs.Certificate.Loss
import Enrollment.Proofs.Issuing.Placing
import Enrollment.Proofs.Transport.Outcome
import Enrollment.Proofs.Renewal.Isolation
import Enrollment.Proofs.Account.Thumbprint
import Enrollment.Proofs.Account.Loading
import Enrollment.Proofs.Certificate.Request
import Enrollment.Proofs.Fallible
import Enrollment.Proofs.Json.Members
import Enrollment.Proofs.Json.Reading
import Enrollment.Proofs.Authorization
import Enrollment.Proofs.Directory
import Enrollment.Proofs.Problem
