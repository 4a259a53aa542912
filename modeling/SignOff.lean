import SignOff.Main
import SignOff.Proofs.AppendOnly
import SignOff.Proofs.AuditIndifference
import SignOff.Proofs.AuditMirror
import SignOff.Proofs.Authority
import SignOff.Proofs.Authorization
import SignOff.Proofs.CalendarLimit
import SignOff.Proofs.Commutation
import SignOff.Proofs.Completion
import SignOff.Proofs.DecisionTable
import SignOff.Proofs.ExitCodes
import SignOff.Proofs.Failure
import SignOff.Proofs.Finality
import SignOff.Proofs.FreshState
import SignOff.Proofs.LateSteps
import SignOff.Proofs.LicenseHistory
import SignOff.Proofs.LogRoundTrip
import SignOff.Proofs.PendingList
import SignOff.Proofs.Planning
import SignOff.Proofs.ReadBack
import SignOff.Proofs.ReportRoundTrip
import SignOff.Proofs.SingleWinner
import SignOff.Proofs.StateReference
import SignOff.Proofs.StoreInvariant
import SignOff.Proofs.TrailReading
