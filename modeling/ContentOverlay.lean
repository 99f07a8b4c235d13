import ContentOverlay.Config.File
import ContentOverlay.Json.Forms
import ContentOverlay.Proofs.Decimal.Nearest
import ContentOverlay.Proofs.Name
import ContentOverlay.Proofs.Record.Writing
import ContentOverlay.Registry.Custody
import ContentOverlay.Session.Run
import ContentOverlay.Proofs.Decimal.Shortest
import ContentOverlay.Proofs.Decimal.Integer
import ContentOverlay.Proofs.Decimal.Notation
import ContentOverlay.Proofs.Calendar.Civil
import ContentOverlay.Proofs.Calendar.Rfc3339
import ContentOverlay.Proofs.Identity
import ContentOverlay.Proofs.Value.Text
import ContentOverlay.Proofs.Record.RoundTrip
import ContentOverlay.Proofs.Session.Step
import ContentOverlay.Proofs.Session.Sound
import ContentOverlay.Proofs.Store.Deed
import ContentOverlay.Proofs.Session.Chronicle
import ContentOverlay.Proofs.Session.Numbering
import ContentOverlay.Proofs.Session.Links
import ContentOverlay.Proofs.Session.Subscription
import ContentOverlay.Proofs.Session.Order
import ContentOverlay.Proofs.Session.Disposal
import ContentOverlay.Proofs.Session.Calm
import ContentOverlay.Proofs.Session.Staleness
import ContentOverlay.Proofs.Registry.Custody
import ContentOverlay.Proofs.Session.Change
import ContentOverlay.Proofs.Session.Contents
import ContentOverlay.Proofs.Session.Registration
import ContentOverlay.Proofs.Session.Revival
import ContentOverlay.Proofs.Session.Audience
import ContentOverlay.Proofs.Session.Discard
import ContentOverlay.Proofs.Session.Ownership
import ContentOverlay.Proofs.Session.Handles
import ContentOverlay.Proofs.Session.Accounting
import ContentOverlay.Proofs.Record.Reencoding
import ContentOverlay.Proofs.Store.Restoring
import ContentOverlay.Proofs.Record.Refusal
import ContentOverlay.Proofs.Store.Buffering
import ContentOverlay.Proofs.Record.Names
import ContentOverlay.Proofs.Session.Refusal
import ContentOverlay.Proofs.Record.Arrival
import ContentOverlay.Proofs.Value.Date
import ContentOverlay.Proofs.Config.Saving
import ContentOverlay.Proofs.Session.Termination
import ContentOverlay.Proofs.Value.Double
import ContentOverlay.Proofs.Value.NormalForm
import ContentOverlay.Proofs.Record.Payload
