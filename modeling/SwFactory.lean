import SwFactory.Machine.Interaction
import SwFactory.Journal.Receipts
import SwFactory.Journal.Attempts
import SwFactory.Journal.Budget
import SwFactory.Journal.Replay
import SwFactory.Admission.Outcome
import SwFactory.Admission.Fifo
import SwFactory.Admission.Strand
import SwFactory.Cells.Timeline
import SwFactory.Evidence.Writers
import SwFactory.Restore.Window
import SwFactory.Factory.Release
import SwFactory.Backend.Backupable
import SwFactory.Backend.Ownership
import SwFactory.Backend.Orphans
import SwFactory.Journal.Recovery
import SwFactory.Junit.Agreement
import SwFactory.Inbox.Delivery
import SwFactory.Work.Agreement
import SwFactory.Build.Resume
import SwFactory.Leases.Fence
import SwFactory.Identities.RoundTrip
import SwFactory.Phase.Agreement
import SwFactory.RunState.TornWrites
import SwFactory.Gates.Staleness
import SwFactory.Gates.Authority
import SwFactory.Scope.Assertion
import SwFactory.Patch.Coverage
import SwFactory.Autonomy.Merge
import SwFactory.Spending.Ceiling
import SwFactory.Rollup.Labels
import SwFactory.Publication.Agreement
import SwFactory.Batch.Report
import SwFactory.Contracts.Agreement
import SwFactory.Verification.Honesty
import SwFactory.Publication.Ownership
import SwFactory.Work.Waves
import SwFactory.Machine.Parallel
import SwFactory.Fusion.Candidates
import SwFactory.Build.Ratchet
import SwFactory.Patch.Quoting
import SwFactory.Publication.Marker
import SwFactory.Lexical.Regex
import SwFactory.Trace.Requirements
import SwFactory.Trace.FailClosed
import SwFactory.Machine.Credits
import SwFactory.Admission.Fairness
import SwFactory.Restore.Quiesce
import SwFactory.Maintain.Passes
import SwFactory.Blueprints.SameLine
import SwFactory.Swarm.Reserve
import SwFactory.Billing.Once
import SwFactory.Publication.Identity
import SwFactory.Blueprints.FanOut
import SwFactory.Intake.Drain
import SwFactory.Fusion.Composition
import SwFactory.Scope.Audit
import SwFactory.Promotion.Gate
import SwFactory.Lexical.Pieces
import SwFactory.Harness.Observation
import SwFactory.Harness.Excerpts
import SwFactory.Harness.Exposure
import SwFactory.Harness.ReviewIndex
import SwFactory.Harness.IndexHeaders
import SwFactory.Harness.IndexSections
import SwFactory.Harness.IndexAgreement
import SwFactory.Swarm.Envelope
import SwFactory.Swarm.EvidenceFirst
import SwFactory.ControlRoom.Pages
import SwFactory.Search.Space
import SwFactory.Replay.Removal
import SwFactory.Terminal.Session
import SwFactory.Retention.Sweep
import SwFactory.Work.Managed
