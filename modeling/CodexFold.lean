import CodexFold.Fold.Chunking
import CodexFold.Fold.Durable
import CodexFold.Pack.Order
import CodexFold.Pack.Leases
import CodexFold.Pack.Budget
import CodexFold.Vfs.Adoption
import CodexFold.Vfs.Chain
import CodexFold.Vfs.Readers
import CodexFold.Vfs.AppendHash
import CodexFold.Prune.Removal
import CodexFold.Vfs.Journal
import CodexFold.Vfs.Retired
import CodexFold.Scan.Lookup
import CodexFold.Scan.Incremental
import CodexFold.Mount.Objects
import CodexFold.Mount.Applied
import CodexFold.Mount.Accepted
import CodexFold.Mount.Routes
import CodexFold.Mount.View
import CodexFold.Mount.Snapshots
import CodexFold.Retirement.Outcome
import CodexFold.Family.Shared
import CodexFold.Reconcile.Timestamp
import CodexFold.Family.Graph
import CodexFold.Prune.GlobalState
import CodexFold.Fskit.Calls
import CodexFold.Pack.Restored
