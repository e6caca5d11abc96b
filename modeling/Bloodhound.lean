import Bloodhound.Lib.Tally
import Bloodhound.Graph.Trace
import Bloodhound.Store.Core
import Bloodhound.Graph.TraceCore
import Bloodhound.Indexer.SpendFanout
import Bloodhound.Store.Totals
import Bloodhound.Store.EdgeRows
import Bloodhound.Graph.Chunks
import Bloodhound.Graph.Reapply
import Bloodhound.Lib.Maximum
import Bloodhound.Lib.Observe
import Bloodhound.Lib.Triple
import Bloodhound.Store.BatchView
import Bloodhound.Store.EdgeOps
import Bloodhound.Store.GlobalTotals
import Bloodhound.Store.Peaks
import Bloodhound.Store.ReceivedTotals
import Bloodhound.Store.Retry
import Bloodhound.Indexer.Crawl
import Bloodhound.Indexer.Worker
import Bloodhound.Lib.Search
import Bloodhound.Ops.Hackers
import Bloodhound.Ops.RemoveHacker
import Bloodhound.Indexer.Backfill
import Bloodhound.Indexer.Effects
import Bloodhound.Indexer.Untouched
import Bloodhound.Lib.Machine
import Bloodhound.Lib.Sha2
import Bloodhound.Lib.Text
import Bloodhound.Ops.RestoreHacker
import Bloodhound.Scanner.Checkpoint
import Bloodhound.Scanner.Coverage
import Bloodhound.Scanner.DeviceHash
import Bloodhound.Scanner.HostSeed
import Bloodhound.Scanner.SeedPipeline
import Bloodhound.Scanner.Snapshots
import Bloodhound.Graph.RoleFence
import Bloodhound.Graph.GraphEdges
import Bloodhound.Graph.Hops
import Bloodhound.Graph.Paged
import Bloodhound.Lib.ProbeTable
import Bloodhound.Lib.Radix
import Bloodhound.Scanner.AddressCode
import Bloodhound.Scanner.GpuEngine
import Bloodhound.Scanner.MatchDb
import Bloodhound.Scanner.RecordHits
import Bloodhound.Indexer.TickLease
import Bloodhound.Store.Quota
import Bloodhound.Store.RateLimit
import Bloodhound.Indexer.QueueLatch
import Bloodhound.Ops.AddressOps
import Bloodhound.Ops.ExactCounters
import Bloodhound.Ops.FlaggedCache
import Bloodhound.Store.QueueCaps
import Bloodhound.Lib.Lift
import Bloodhound.Sources.BatchSync
import Bloodhound.Sources.SyncCoverage
import Bloodhound.Sources.SyncRuns
import Bloodhound.Lib.Memory
import Bloodhound.Store.SchedulerCache
import Bloodhound.Graph.EdgeKeys
import Bloodhound.Indexer.BackfillAudit
import Bloodhound.Indexer.PollGap
import Bloodhound.Indexer.TraceProgress
import Bloodhound.Lib.Ranking
import Bloodhound.Sources.ContentHash
import Bloodhound.Web.GraphFilter
import Bloodhound.Ops.PollDueRuns
import Bloodhound.Chain.OpReturn
import Bloodhound.Chain.Router
import Bloodhound.Graph.Attribution
import Bloodhound.Lib.Groups
import Bloodhound.Lib.Selection
import Bloodhound.Lib.Walks
import Bloodhound.Ops.HackStatsRuns
import Bloodhound.Store.ActivitySummary
import Bloodhound.Store.QueueOrder
import Bloodhound.Store.RootHackers
import Bloodhound.Store.TopVictims
import Bloodhound.Lib.Batches
import Bloodhound.Lib.Latest
import Bloodhound.Ops.Maintenance
import Bloodhound.Store.OpReturnLookup
import Bloodhound.Indexer.EntryHandling
import Bloodhound.Indexer.PayloadForms
import Bloodhound.Graph.ExpandFloor
import Bloodhound.Lib.BinaryMethod
import Bloodhound.Lib.CarryChain
import Bloodhound.Lib.CountedLoop
import Bloodhound.Lib.Limbs
import Bloodhound.Lib.Pocklington
import Bloodhound.Lib.ShortCurve
import Bloodhound.Scanner.AddressRoundTrip
import Bloodhound.Scanner.CanonicalAddress
import Bloodhound.Scanner.Config
import Bloodhound.Scanner.DeviceCurve
import Bloodhound.Scanner.VictimTable
import Bloodhound.Indexer.ReBackfill
import Bloodhound.Lib.InPlace
import Bloodhound.Lib.Levels
import Bloodhound.Lib.Rectangles
import Bloodhound.Ops.CronPace
import Bloodhound.Scanner.DeviceAddition
import Bloodhound.Web.HackerGroups
import Bloodhound.Web.LayoutGraph
import Bloodhound.Graph.PagedL2
import Bloodhound.Graph.PagedL2Exact
import Bloodhound.Indexer.CronLimit
import Bloodhound.Indexer.JobPick
import Bloodhound.Indexer.MaintSlices
import Bloodhound.Indexer.TickLoop
import Bloodhound.Ops.NextCron
import Bloodhound.Ops.NextCronParts
import Bloodhound.Ops.NextCronPass
import Bloodhound.Lib.OrderedMap
import Bloodhound.Lib.KeptLatest
import Bloodhound.Graph.PageShape
import Bloodhound.Lib.RecentlyUsed
import Bloodhound.Store.RecentHackers
import Bloodhound.Web.GraphClient
import Bloodhound.Lib.Incidence
import Bloodhound.Ops.RemoteAgrees
import Bloodhound.Lib.Csv
import Bloodhound.Scanner.Mnemonic
import Bloodhound.Sources.BitqueryCsv
