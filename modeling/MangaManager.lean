import MangaManager.Catalog.Artifacts
import MangaManager.Catalog.Fallback
import MangaManager.Catalog.Planned
import MangaManager.Catalog.Plans
import MangaManager.Catalog.Reconcile
import MangaManager.Catalog.Requeue
import MangaManager.Catalog.Resume
import MangaManager.Catalog.Tables
import MangaManager.Catalog.Tended
import MangaManager.Catalog.Tracking
import MangaManager.Catalog.Window
import MangaManager.Domain.Catalog
import MangaManager.Domain.ChapterNumbers
import MangaManager.Domain.Jobs
import MangaManager.Domain.Matching
import MangaManager.Downloads.Fencing
import MangaManager.Downloads.OrderedBytes
import MangaManager.Downloads.PagePermits
import MangaManager.Downloads.PageRuns
import MangaManager.Downloads.Reroute
import MangaManager.Kavita.Matching
import MangaManager.Kavita.Planner
import MangaManager.Kavita.Sync
import MangaManager.Lib.Cliques
import MangaManager.Lib.Components
import MangaManager.Lib.Cursor
import MangaManager.Lib.DateTime
import MangaManager.Lib.Decimal
import MangaManager.Lib.Dict
import MangaManager.Lib.Difflib
import MangaManager.Lib.Disk
import MangaManager.Lib.Feed
import MangaManager.Lib.Fencing
import MangaManager.Lib.FirstFit
import MangaManager.Lib.Maximum
import MangaManager.Lib.Paging
import MangaManager.Lib.Raise
import MangaManager.Lib.ReadCommitted
import MangaManager.Lib.Rotation
import MangaManager.Lib.Run
import MangaManager.Lib.Semaphore
import MangaManager.Lib.SharedLock
import MangaManager.Lib.Sweep
import MangaManager.Lib.Table
import MangaManager.Lib.Text
import MangaManager.Lib.Unicode
import MangaManager.Lib.UnionFind
import MangaManager.Lib.Upsert
import MangaManager.Lib.Url
import MangaManager.Library.Blobs
import MangaManager.Library.Cleanup
import MangaManager.Library.Files
import MangaManager.Library.Merge
import MangaManager.Library.Metadata
import MangaManager.Library.Reconcile
import MangaManager.Library.Repair
import MangaManager.Matches.Bands
import MangaManager.Matches.Once
import MangaManager.Matches.Operations
import MangaManager.Matches.Proposals
import MangaManager.Matches.Review
import MangaManager.Matches.Scoring
import MangaManager.Matches.Separations
import MangaManager.Matches.Symmetry
import MangaManager.Portable.Export
import MangaManager.Portable.Exportable
import MangaManager.Portable.Identity
import MangaManager.Portable.Import
import MangaManager.Portable.Kept
import MangaManager.Portable.Recovery
import MangaManager.Portable.Separated
import MangaManager.Portable.State
import MangaManager.Portable.Writers
import MangaManager.Providers.Asura
import MangaManager.Providers.Cadence
import MangaManager.Providers.Cooldown
import MangaManager.Providers.Exploration
import MangaManager.Providers.Frontier
import MangaManager.Providers.Pacing
import MangaManager.Providers.Pull
import MangaManager.Queue.Attempts
import MangaManager.Queue.Capacity
import MangaManager.Queue.Claim
import MangaManager.Queue.CycleUnits
import MangaManager.Queue.Cycles
import MangaManager.Queue.Enqueue
import MangaManager.Queue.Fencing
import MangaManager.Queue.Growth
import MangaManager.Queue.Invariant
import MangaManager.Queue.Lifecycle
import MangaManager.Queue.Machine
import MangaManager.Queue.Observations
import MangaManager.Queue.Pending
import MangaManager.Queue.Permits
import MangaManager.Queue.Pools
import MangaManager.Queue.Progress
import MangaManager.Queue.Promotion
import MangaManager.Queue.Pruning
import MangaManager.Queue.RefreshNewest
import MangaManager.Queue.RefreshPass
import MangaManager.Queue.RefreshReconcile
import MangaManager.Queue.RefreshWork
import MangaManager.Queue.RepairSeries
import MangaManager.Queue.Retention
import MangaManager.Queue.Rows
import MangaManager.Queue.Scan
import MangaManager.Queue.SeriesLock
import MangaManager.Queue.Transactions
import MangaManager.Series.Aliases
import MangaManager.Series.Clusters
import MangaManager.Series.Components
import MangaManager.Series.Covers
import MangaManager.Series.Duplicates
import MangaManager.Series.Followed
import MangaManager.Series.Idempotent
import MangaManager.Series.Ingest
import MangaManager.Series.Latest
import MangaManager.Series.Linked
import MangaManager.Series.Listings
import MangaManager.Series.Merge
import MangaManager.Series.Pooled
import MangaManager.Series.Preview
import MangaManager.Series.Primary
import MangaManager.Series.Rewritten
import MangaManager.Series.Rounds
import MangaManager.Series.Stranded
import MangaManager.Series.Summary
import MangaManager.Series.Tables
import MangaManager.Series.United
import MangaManager.Series.Upserts
import MangaManager.Series.Versions
import MangaManager.Web.EventStream
import MangaManager.Web.Pages
import MangaManager.Web.SeriesState
import MangaManager.Worker.Heartbeats
import MangaManager.Worker.Runtime
