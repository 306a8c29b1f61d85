import PagedStorage.Heap.Basic

namespace PagedStorage

structure Scan where
  /-- The page to ask for when no rows are left. -/
  nextPage : PageId := PageId.ofIndex 0
  /-- Rows still to be given out. -/
  pending : List (RecordId × Row) := []
  finished : Bool := false

namespace Scan

/-- Asks for pages from `id` on until one has rows, and gives out the first of them. -/
def advance (pool : Pool) (id : PageId) :
    Option (Except StorageError (RecordId × Row)) × Scan × Pool :=
  match _h : pool.getPage id with
  | (.error e, pool) =>
    let scan : Scan := { nextPage := id, finished := true }
    if e.isNotFound then (none, scan, pool) else (some (.error e), scan, pool)
  | (.ok frame, pool) =>
    match frame.page.liveRows with
    | .error e => (some (.error e), { nextPage := id, finished := true }, pool)
    | .ok [] => advance pool id.next
    | .ok ((slot, row) :: rows) =>
      let pending := rows.map fun (slot, row) => (⟨id, slot⟩, row)
      (some (.ok (⟨id, slot⟩, row)), { nextPage := id.next, pending }, pool)
termination_by 4294967296 - id.index
decreasing_by
  have hv := Heap.isValid_of_getPage _h
  have hlt := PageId.isValid_iff.mp hv
  rw [PageId.index_next hv]
  omega

def next (scan : Scan) (pool : Pool) :
    Option (Except StorageError (RecordId × Row)) × Scan × Pool :=
  if scan.finished then (none, scan, pool)
  else
    match scan.pending with
    | row :: pending => (some (.ok row), { scan with pending }, pool)
    | [] => advance pool scan.nextPage

def nextRow (scan : Scan) (pool : Pool) : Option (Except StorageError Row) × Scan × Pool :=
  match scan.next pool with
  | (answer, scan, pool) => (answer.map (Except.map Prod.snd), scan, pool)

end Scan

end PagedStorage
