import PagedStorage.Heap.RecordId
import PagedStorage.Page.Rows
import PagedStorage.Pool.Access

namespace PagedStorage

/-- A handle to the rows of a pool. -/
structure Heap where
  /-- Where the next row goes, nothing as long as there are no pages. -/
  lastPage : Option PageId := none
deriving DecidableEq, Repr

namespace Heap

def pageCount (heap : Heap) : Nat :=
  match heap.lastPage with
  | some last => last.index + 1
  | none => 0

theorem isValid_of_getPage {pool after : Pool} {id : PageId} {frame : Frame}
    (h : pool.getPage id = (.ok frame, after)) : id.IsValid := by
  unfold Pool.getPage at h
  split at h
  · assumption
  · cases h

/-- Looks for pages from `probe` on until one is not found; `last` is the last page found before. -/
def probe (pool : Pool) (last : Option PageId) (id : PageId) :
    Except StorageError Heap × Pool :=
  match _h : pool.getPage id with
  | (.ok _, pool) => probe pool (some id) id.next
  | (.error e, pool) => if e.isNotFound then (.ok ⟨last⟩, pool) else (.error e, pool)
termination_by 4294967296 - id.index
decreasing_by
  have hv := isValid_of_getPage _h
  have hlt := PageId.isValid_iff.mp hv
  rw [PageId.index_next hv]
  omega

def load (pool : Pool) : Except StorageError Heap × Pool := probe pool none (PageId.ofIndex 0)

def newPage (heap : Heap) : PageId :=
  match heap.lastPage with
  | some last => last.next
  | none => PageId.ofIndex 0

def insertOnNewPage (heap : Heap) (pool : Pool) (bytes : List UInt8) :
    Except StorageError RecordId × Heap × Pool :=
  let id := heap.newPage
  match (Page.empty id).append bytes with
  | .error e => (.error e, heap, pool)
  | .ok (slot, page) =>
    match pool.updatePage id page with
    | (.error e, pool) => (.error e, heap, pool)
    | (.ok (), pool) => (.ok ⟨id, slot⟩, ⟨some id⟩, pool)

/-- Puts a written row on the last page, or on a new one if there is no room. -/
def insertBytes (heap : Heap) (pool : Pool) (bytes : List UInt8) :
    Except StorageError RecordId × Heap × Pool :=
  match heap.lastPage with
  | none => heap.insertOnNewPage pool bytes
  | some last =>
    match pool.getPage last with
    | (.error e, pool) => (.error e, heap, pool)
    | (.ok frame, pool) =>
      match frame.page.append bytes with
      | .ok (slot, page) =>
        match pool.updatePage last page with
        | (.error e, pool) => (.error e, heap, pool)
        | (.ok (), pool) => (.ok ⟨last, slot⟩, heap, pool)
      | .error e =>
        if e.isCapacity then heap.insertOnNewPage pool bytes else (.error e, heap, pool)

/-- Adds a row and tells where it is. A row that no page can hold is refused at once. -/
def insert (heap : Heap) (pool : Pool) (row : Row) :
    Except StorageError RecordId × Heap × Pool :=
  match row.encode with
  | .error e => (.error e, heap, pool)
  | .ok bytes =>
    if bytes.length ≤ maxTupleSize then heap.insertBytes pool bytes
    else (.error (.invalidArgument (.rowTooLong bytes.length)), heap, pool)

def get (pool : Pool) (id : RecordId) : Except StorageError (Option Row) × Pool :=
  match pool.getPage id.page with
  | (.error e, pool) => (.error e, pool)
  | (.ok frame, pool) => (frame.page.row id.slot, pool)

end Heap

end PagedStorage
