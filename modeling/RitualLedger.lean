import RitualLedger.Main
import RitualLedger.Proofs.Command.Process
import RitualLedger.Proofs.Completion.Indices
import RitualLedger.Proofs.Completion.Lookup
import RitualLedger.Proofs.Completion.Preview
import RitualLedger.Proofs.Completion.Repair
import RitualLedger.Proofs.Completion.Replay
import RitualLedger.Proofs.Completion.Winner
import RitualLedger.Proofs.Config.Persistence
import RitualLedger.Proofs.Document.RoundTrip
import RitualLedger.Proofs.Engine.Conflicts
import RitualLedger.Proofs.Engine.Independence
import RitualLedger.Proofs.Engine.NoTrace
import RitualLedger.Proofs.Engine.Serializability
import RitualLedger.Proofs.Engine.Steadiness
import RitualLedger.Proofs.Ledger.Effect
import RitualLedger.Proofs.Ledger.History
import RitualLedger.Proofs.Ledger.Reconstruction
import RitualLedger.Proofs.Ledger.Refusal
import RitualLedger.Proofs.Notification.Queue
import RitualLedger.Proofs.Ritual.Creation
import RitualLedger.Proofs.Ritual.Mirror
import RitualLedger.Proofs.Rule.Batches
import RitualLedger.Proofs.Rule.Conformance
import RitualLedger.Proofs.Rule.Payment
import RitualLedger.Proofs.Rule.Unlocking
import RitualLedger.Proofs.Session.Expiry
import RitualLedger.Proofs.Signal.Prompts
import RitualLedger.Proofs.Store.Commit
import RitualLedger.Proofs.Store.Queries
