import OrderKeeper.Exchange.Address
import OrderKeeper.Exchange.Http
import OrderKeeper.Rehearsal.Race
import OrderKeeper.Rehearsal.Record
import OrderKeeper.Rehearsal.Script
import OrderKeeper.Settings.Layers
import OrderKeeper.Proofs.Decimal.Exact
import OrderKeeper.Proofs.Entry.Trades
import OrderKeeper.Proofs.Entry.Absorb
import OrderKeeper.Proofs.Entry.Acts
import OrderKeeper.Proofs.Entry.Books
import OrderKeeper.Proofs.Entry.Replay
import OrderKeeper.Proofs.Entry.Confluence
import OrderKeeper.Proofs.Blotter.Lookup
import OrderKeeper.Proofs.Blotter.Overtaking
import OrderKeeper.Proofs.Entry.Progress
import OrderKeeper.Proofs.Entry.Announcing
import OrderKeeper.Proofs.Blotter.Floor
import OrderKeeper.Proofs.Blotter.Listening
import OrderKeeper.Proofs.Quota.Reserving
import OrderKeeper.Proofs.Quota.Turnstile
import OrderKeeper.Proofs.Session.Deeds
import OrderKeeper.Proofs.Session.Life
import OrderKeeper.Proofs.Session.Replacing
import OrderKeeper.Proofs.Rehearsal.Relay
import OrderKeeper.Proofs.Rehearsal.Bystanders
import OrderKeeper.Proofs.Decimal.Room
import OrderKeeper.Proofs.Entry.Breaking
import OrderKeeper.Proofs.Quota.Charging
import OrderKeeper.Proofs.Quota.Words
import OrderKeeper.Proofs.Entry.Verdicts
import OrderKeeper.Proofs.Blotter.Verdicts
import OrderKeeper.Proofs.Entry.Coherence
import OrderKeeper.Proofs.Entry.TurnedDown
import OrderKeeper.Proofs.Entry.Whole
import OrderKeeper.Proofs.Blotter.Clearing
import OrderKeeper.Proofs.Blotter.Routing
import OrderKeeper.Proofs.Blotter.Sparing
import OrderKeeper.Proofs.Quota.Approach
import OrderKeeper.Proofs.Quota.Upkeep
import OrderKeeper.Proofs.Quota.Probing
import OrderKeeper.Proofs.Quota.Alignment
import OrderKeeper.Proofs.Quota.Waiting
import OrderKeeper.Proofs.Session.Deadline
import OrderKeeper.Proofs.Session.Standing
import OrderKeeper.Proofs.Decimal.Reading
import OrderKeeper.Proofs.Json.Records
import OrderKeeper.Proofs.Json.Text
import OrderKeeper.Proofs.Time.Reading
import OrderKeeper.Proofs.Order.RoundTrip
import OrderKeeper.Proofs.Quota.Wholeness
import OrderKeeper.Proofs.Session.Keepalive
import OrderKeeper.Proofs.Session.Pausing
import OrderKeeper.Proofs.Sweep.Batch
import OrderKeeper.Proofs.Quota.Stays
import OrderKeeper.Proofs.Quota.Foresight
import OrderKeeper.Proofs.Blotter.Keeping
import OrderKeeper.Proofs.Blotter.Passing
import OrderKeeper.Proofs.Desk.Placing
import OrderKeeper.Proofs.Desk.Canceling
import OrderKeeper.Proofs.Sweep.Patrol
import OrderKeeper.Proofs.Sweep.Coverage
import OrderKeeper.Proofs.Sweep.Undisturbed
import OrderKeeper.Proofs.Decimal.Rounding
import OrderKeeper.Proofs.Settings.Capacity
import OrderKeeper.Proofs.Entry.Averaging
import OrderKeeper.Proofs.Quota.Linking
import OrderKeeper.Proofs.Order.Naming
import OrderKeeper.Proofs.Desk.Naming
import OrderKeeper.Proofs.Desk.Retention
