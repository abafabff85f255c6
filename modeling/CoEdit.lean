import CoEdit.Host
import CoEdit.Json.Config
import CoEdit.Navigation
import CoEdit.Proofs.Acknowledgement
import CoEdit.Proofs.Causality
import CoEdit.Proofs.Cbor.Canonical
import CoEdit.Proofs.Cbor.Frugal
import CoEdit.Proofs.Commit
import CoEdit.Proofs.CursorMarks
import CoEdit.Proofs.CursorTracking
import CoEdit.Proofs.Delivery
import CoEdit.Proofs.FillGate
import CoEdit.Proofs.FillMode
import CoEdit.Proofs.InsertTies
import CoEdit.Proofs.Json.RoundTrip
import CoEdit.Proofs.JupiterCounters
import CoEdit.Proofs.Mirror
import CoEdit.Proofs.OrderAgreement
import CoEdit.Proofs.PlainList
import CoEdit.Proofs.QueuePassage
import CoEdit.Proofs.Reshaping
import CoEdit.Proofs.Rollback
import CoEdit.Proofs.SendWindow
import CoEdit.Proofs.Settling
import CoEdit.Proofs.Strangers
import CoEdit.Proofs.Sweep
import CoEdit.Proofs.UpdatePolicy
import CoEdit.Session
