import GuestBridge.Config.Read
import GuestBridge.Outline.Host
import GuestBridge.Proofs.Calls.Guards
import GuestBridge.Proofs.Calls.Marks
import GuestBridge.Proofs.Calls.Returning
import GuestBridge.Proofs.Calls.Scope
import GuestBridge.Proofs.Calls.Stale
import GuestBridge.Proofs.Conversion.Order
import GuestBridge.Proofs.Conversion.Scalars
import GuestBridge.Proofs.Heap.Storing
import GuestBridge.Proofs.Ledger.Runs
import GuestBridge.Proofs.Packages.Methods
import GuestBridge.Proofs.Packages.Names
import GuestBridge.Proofs.Provenance.Conversions
import GuestBridge.Proofs.Telemetry.Accounting
import GuestBridge.Routine.Run
import GuestBridge.Telemetry.Export
