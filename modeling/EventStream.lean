import EventStream.Opening
import EventStream.Scenario.Script
import EventStream.Proofs.Stopping
import EventStream.Proofs.Cursor
import EventStream.Proofs.Ending
import EventStream.Proofs.Pulling
import EventStream.Proofs.RoundTrip
import EventStream.Proofs.Closing
import EventStream.Proofs.Schedule
import EventStream.Proofs.Conserving
import EventStream.Proofs.Truncation
import EventStream.Proofs.Holding
import EventStream.Proofs.Requesting
import EventStream.Proofs.WellFormed
import EventStream.Proofs.CutShort
import EventStream.Proofs.Foretelling
import EventStream.Proofs.Abandoning
import EventStream.Proofs.Announcing
import EventStream.Proofs.Counting
import EventStream.Proofs.Searching
