import HybridLog.Anchor.ReadBack
import HybridLog.Anchor.Registry
import HybridLog.Anchor.Texts
import HybridLog.Api.Kept
import HybridLog.Api.Reads
import HybridLog.Api.Steps
import HybridLog.Async.Debt
import HybridLog.Async.Drain
import HybridLog.Async.Dues
import HybridLog.Async.Guard
import HybridLog.Async.Hold
import HybridLog.Async.Line
import HybridLog.Async.Retry
import HybridLog.Async.Schedule
import HybridLog.Async.Solo
import HybridLog.Async.Stateful
import HybridLog.Bench.Engine
import HybridLog.Bench.Permits
import HybridLog.Bench.Report
import HybridLog.Bench.Suite
import HybridLog.Bench.Tampering
import HybridLog.Chain.Deployment
import HybridLog.Chain.Events
import HybridLog.Chain.Listing
import HybridLog.Chain.Mirror
import HybridLog.Chain.Pages
import HybridLog.Core.Canonical
import HybridLog.Database.Lists
import HybridLog.Database.Paging
import HybridLog.Explorer.Blockchain
import HybridLog.Explorer.Search
import HybridLog.Js.Parse
import HybridLog.Modes.Fallback
import HybridLog.Paging.Ties
import HybridLog.Queue.Agreement
import HybridLog.Queue.Confirmed
import HybridLog.Queue.Durable
import HybridLog.Queue.Honesty
import HybridLog.Queue.Replies
import HybridLog.Queue.Resubmission
import HybridLog.Queue.Forward
import HybridLog.Queue.Settled
import HybridLog.Queue.StatusColumns
import HybridLog.Queue.Stranded
import HybridLog.Queue.Waiting
import HybridLog.Queue.Wire
import HybridLog.Storage.AllOrNone
import HybridLog.Storage.Confidential
import HybridLog.Storage.Contents
import HybridLog.Storage.Succeeds
import HybridLog.Storage.Summary
import HybridLog.Storage.WriteAhead
import HybridLog.System.Accept
import HybridLog.System.Calls
import HybridLog.System.Prefetch
import HybridLog.System.Links
import HybridLog.System.Provenance
import HybridLog.System.Queues
import HybridLog.System.Quiescence
import HybridLog.System.Settling
import HybridLog.System.Steps
import HybridLog.Verify.Anchors
import HybridLog.Verify.Backing
import HybridLog.Verify.BatchRoot
import HybridLog.Verify.Intact
