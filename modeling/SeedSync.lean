import SeedSync.System.File
import SeedSync.Scan.Result
import SeedSync.Scan.Fingerprint
import SeedSync.Progressive.Pair
import SeedSync.Progressive.Model
import SeedSync.Lib.Fold
import SeedSync.Progressive.Step
import SeedSync.Progressive.Drain
import SeedSync.Progressive.Absence
import SeedSync.Progressive.Fences
import SeedSync.Progressive.Hints
import SeedSync.Progressive.Cuts
import SeedSync.Progressive.Authority
import SeedSync.Lib.Dict
import SeedSync.Progressive.Reconciler
import SeedSync.Model.FileId
import SeedSync.Builder.Trees
import SeedSync.Model.File
import SeedSync.Builder.Sources
import SeedSync.Builder.SplitRoot
import SeedSync.Builder.Snapshots
import SeedSync.Builder.Transfer
import SeedSync.Builder.Render
import SeedSync.Builder.Model
import SeedSync.Lib.Stateful
import SeedSync.Builder.Downloaded
import SeedSync.Builder.Exclusions
import SeedSync.Builder.Finalizable
import SeedSync.Builder.Deletions
import SeedSync.Builder.Completion
import SeedSync.Builder.Calls
import SeedSync.Builder.Floors
import SeedSync.Builder.Buckets
import SeedSync.Builder.NameIndex
import SeedSync.Builder.Recount
import SeedSync.Builder.Nodes
import SeedSync.Builder.Owners
import SeedSync.Builder.Levels
import SeedSync.Live.Model
import SeedSync.Live.Names
import SeedSync.Live.Versions
import SeedSync.Live.Indexed
import SeedSync.Live.Coherent
import SeedSync.Live.Progress
import SeedSync.Live.Idle
import SeedSync.Live.Diff
import SeedSync.Live.Applied
import SeedSync.Lib.Json
import SeedSync.Lib.Preorder
import SeedSync.Lib.Lines
import SeedSync.Remote.Wire
import SeedSync.Remote.Decoder
import SeedSync.Remote.Consumer
import SeedSync.Remote.Soundness
import SeedSync.Remote.Written
import SeedSync.Remote.Chunks
import SeedSync.Remote.RoundTrip
import SeedSync.System.Scanner
import SeedSync.Lib.Collect
import SeedSync.System.Roots
import SeedSync.Remote.ScanFs
import SeedSync.Remote.Limits
import SeedSync.Remote.Agreement
import SeedSync.Local.Files
import SeedSync.Local.Scanner
import SeedSync.Local.Merging
import SeedSync.Local.Sides
import SeedSync.Local.Publication
import SeedSync.Lib.Queue
import SeedSync.Scan.Queue
import SeedSync.Lib.Loads
import SeedSync.Lib.Rereads
import SeedSync.Persist.Keys
import SeedSync.Persist.Controller
import SeedSync.Persist.Reload
import SeedSync.Persist.Migration
import SeedSync.Lib.Base64
import SeedSync.Lib.Paging
import SeedSync.Paging.Cursor
import SeedSync.Paging.Model
import SeedSync.Paging.Decoding
import SeedSync.Paging.Walk
import SeedSync.Scan.Coordinator
import SeedSync.Scan.Requests
import SeedSync.AutoQueue.Lineage
import SeedSync.AutoQueue.Model
import SeedSync.Lib.Replica
import SeedSync.Stream.Session
import SeedSync.Stream.Rows
import SeedSync.Stream.Converges
import SeedSync.Lib.Stamp
import SeedSync.Summary.Model
import SeedSync.Summary.Cache
import SeedSync.Summary.Counts
import SeedSync.Summary.Transparent
import SeedSync.Local.Precedence
import SeedSync.Exclude.Filter
import SeedSync.Exclude.Kept
import SeedSync.Auth.Files
import SeedSync.Auth.Store
import SeedSync.Auth.Preclaim
import SeedSync.Auth.Unclaimed
import SeedSync.Auth.Bound
import SeedSync.Auth.Credentials
import SeedSync.Auth.Startable
import SeedSync.Auth.Handover
import SeedSync.Auth.Claim
import SeedSync.Auth.Frame
import SeedSync.Auth.Recovered
import SeedSync.Auth.Aborted
import SeedSync.Auth.Window
import SeedSync.Auth.Shut
import SeedSync.Auth.OneAdministrator
import SeedSync.Auth.FailedCalls
import SeedSync.Auth.Unsaved
import SeedSync.Auth.Reread
import SeedSync.Auth.Reached
import SeedSync.Migration.Receipt
import SeedSync.Migration.Coordinator
import SeedSync.Migration.Settled
import SeedSync.Lib.Ranges
import SeedSync.System.Sidecar
import SeedSync.System.Pruned
import SeedSync.PathPairs.Collection
import SeedSync.PathPairs.Manager
import SeedSync.PathPairs.WellFormed
import SeedSync.Builder.Inventory
import SeedSync.Builder.Freshness
import SeedSync.Lftp.Patterns
import SeedSync.Lib.Covers
import SeedSync.Lftp.Parser
import SeedSync.Lftp.Membership
import SeedSync.Lftp.Recognised
import SeedSync.Extract.Dispatch
import SeedSync.Lib.Ini
import SeedSync.Lib.Pool
import SeedSync.Lib.Transaction
import SeedSync.Progressive.Delivery
import SeedSync.Scan.Pool
import SeedSync.Settings.Accepted
import SeedSync.Settings.Config
import SeedSync.Settings.Handler
import SeedSync.Settings.Writers
import SeedSync.Settings.Loading
import SeedSync.Settings.Reload
