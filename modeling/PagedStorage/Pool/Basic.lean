import PagedStorage.Cache.Policy
import PagedStorage.Disk.Store
import PagedStorage.Pool.Statistics

namespace PagedStorage

/-- At most `capacity` pages of one data file in memory. Each operation answers with the pool that
it leaves behind, also when it fails. -/
structure Pool where
  frames : FrameTable
  policies : Policies
  store : Store
  stats : Statistics
  /-- The largest number of cached pages. -/
  capacity : Nat
  capacity_pos : 0 < capacity

structure PoolSettings where
  capacity : Nat := 64
  policies : List Policy := [.clock Clock.empty]

namespace PoolSettings

def dual (capacity : Nat) (first second : Policy) : PoolSettings :=
  { capacity, policies := [first, second] }

end PoolSettings

namespace Pool

/-- An empty pool over a store. The capacity is looked at first. -/
def create (settings : PoolSettings) (store : Store) : Except StorageError Pool :=
  if h : 0 < settings.capacity then
    match Policies.ofList? settings.policies with
    | some policies => .ok ⟨FrameTable.empty, policies, store, {}, settings.capacity, h⟩
    | none => .error (.invalidArgument (.policyCount settings.policies.length))
  else .error (.invalidArgument .emptyPool)

/-- Puts a frame into the table and makes it a candidate for eviction unless it is pinned. -/
def enlist (pool : Pool) (frame : Frame) : Pool :=
  { pool with
    frames := pool.frames.put frame
    policies := pool.policies.register frame }

/-- Writes a cached page to the store if it is dirty. If the write fails the page stays dirty. -/
def writeBack (pool : Pool) (id : PageId) : Except StorageError Unit × Pool :=
  match pool.frames.find? id with
  | none => (.ok (), pool)
  | some frame =>
    if frame.IsDirty then
      match pool.store.write frame.page with
      | (.error e, store) =>
        (.error e,
          { pool with
            store
            stats := { pool.stats with failedWrites := pool.stats.failedWrites + 1 } })
      | (.ok (), store) =>
        (.ok (),
          { pool with
            frames := pool.frames.put (frame.withDirty false)
            store
            stats := { pool.stats with pagesWritten := pool.stats.pagesWritten + 1 } })
    else (.ok (), pool)

def discard (pool : Pool) (id : PageId) : Except StorageError Unit × Pool :=
  let frames := pool.frames.erase id
  match pool.policies.withdraw id with
  | (.error e, policies) => (.error e, { pool with frames, policies })
  | (.ok (), policies) =>
    (.ok (),
      { pool with
        frames
        policies
        stats := { pool.stats with evictions := pool.stats.evictions + 1 } })

/-- Evicts the victim that the policies name. It leaves the pool only once its changes are written;
if that fails it stays where it was. -/
def evict (pool : Pool) : Except StorageError Unit × Pool :=
  match pool.policies.victim pool.frames with
  | (none, policies, frames) => (.error (.noFreeFrames frames.size), { pool with policies, frames })
  | (some id, policies, frames) =>
    match writeBack { pool with policies, frames } id with
    | (.error e, pool) => (.error e, pool)
    | (.ok (), pool) => pool.discard id

def makeRoom (pool : Pool) : Except StorageError Unit × Pool :=
  if pool.frames.size < pool.capacity then (.ok (), pool) else pool.evict

def policyNames (pool : Pool) : List String := pool.policies.names

end Pool

end PagedStorage
