import PagedStorage.Disk.Volume.Lemmas
import PagedStorage.Heap.Scan
import PagedStorage.Pool.Maintenance
import PagedStorage.Proofs.Cache.Calls
import PagedStorage.Proofs.Cache.Candidates
import PagedStorage.Proofs.Cache.Drain
import PagedStorage.Proofs.Cache.FrameTable
import PagedStorage.Proofs.Cache.Recency
import PagedStorage.Proofs.Cache.Standing
import PagedStorage.Proofs.Cache.Sweep
import PagedStorage.Proofs.Disk.Blocks
import PagedStorage.Proofs.Disk.Destination
import PagedStorage.Proofs.Disk.PageMap
import PagedStorage.Proofs.Disk.Reliable
import PagedStorage.Proofs.Disk.Store
import PagedStorage.Proofs.Disk.TornTail
import PagedStorage.Proofs.Heap.Calls
import PagedStorage.Proofs.Heap.Filling
import PagedStorage.Proofs.Heap.Growth
import PagedStorage.Proofs.Heap.Handles
import PagedStorage.Proofs.Heap.Lookups
import PagedStorage.Proofs.Heap.Opening
import PagedStorage.Proofs.Heap.Pages
import PagedStorage.Proofs.Heap.Placement
import PagedStorage.Proofs.Heap.Rows
import PagedStorage.Proofs.Heap.Sessions
import PagedStorage.Proofs.Heap.Shows
import PagedStorage.Proofs.Heap.Traversal
import PagedStorage.Proofs.Heap.Upkeep
import PagedStorage.Proofs.Page.Append
import PagedStorage.Proofs.Page.Checked
import PagedStorage.Proofs.Page.Edits
import PagedStorage.Proofs.Page.Overwritten
import PagedStorage.Proofs.Page.Rows
import PagedStorage.Proofs.Page.Slots
import PagedStorage.Proofs.Pool.Accounting
import PagedStorage.Proofs.Pool.Calls
import PagedStorage.Proofs.Pool.Contents
import PagedStorage.Proofs.Pool.Durability
import PagedStorage.Proofs.Pool.Failure
import PagedStorage.Proofs.Pool.Formed
import PagedStorage.Proofs.Pool.Impediments
import PagedStorage.Proofs.Pool.Instalments
import PagedStorage.Proofs.Pool.LeastRecent
import PagedStorage.Proofs.Pool.Misses
import PagedStorage.Proofs.Pool.Newest
import PagedStorage.Proofs.Pool.Outcomes
import PagedStorage.Proofs.Pool.Pins
import PagedStorage.Proofs.Pool.Presents
import PagedStorage.Proofs.Pool.Ready
import PagedStorage.Proofs.Pool.Refusal
import PagedStorage.Proofs.Pool.Regular
import PagedStorage.Proofs.Pool.Retains
import PagedStorage.Proofs.Pool.Retry
import PagedStorage.Proofs.Pool.Run
import PagedStorage.Proofs.Pool.SecondPolicy
import PagedStorage.Proofs.Row.Fields
import PagedStorage.Proofs.Row.Grammar
import PagedStorage.Proofs.Row.RoundTrip
import PagedStorage.Proofs.Row.Truncation
import PagedStorage.Proofs.Heap.Filling
