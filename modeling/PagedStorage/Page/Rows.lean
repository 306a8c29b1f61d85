import PagedStorage.Page.Basic
import PagedStorage.Row.Codec

namespace PagedStorage.Page

def row (page : Page) (slot : Nat) : Except StorageError (Option Row) :=
  match page.read slot with
  | .error e => .error e
  | .ok none => .ok none
  | .ok (some bytes) =>
    match Row.decode bytes with
    | .error e => .error e
    | .ok row => .ok (some row)

/-- The rows in some slots that are not deleted, each with its slot. The first slot that gives no
row or a broken one counts for all. -/
def rowsIn (page : Page) : List Nat → Except StorageError (List (Nat × Row))
  | [] => .ok []
  | slot :: slots =>
    match page.row slot, page.rowsIn slots with
    | .error e, _ => .error e
    | .ok _, .error e => .error e
    | .ok none, .ok rows => .ok rows
    | .ok (some row), .ok rows => .ok ((slot, row) :: rows)

def liveRows (page : Page) : Except StorageError (List (Nat × Row)) :=
  page.rowsIn (List.range page.slotCount)

end PagedStorage.Page
