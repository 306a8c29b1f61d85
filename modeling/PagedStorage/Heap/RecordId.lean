import PagedStorage.PageId

namespace PagedStorage

structure RecordId where
  page : PageId
  slot : Nat
deriving DecidableEq, Repr

namespace RecordId

/-- By page, and within a page by slot. -/
instance : Ord RecordId :=
  ⟨fun a b => (compare a.page b.page).then (compare a.slot b.slot)⟩

def text (id : RecordId) : String := s!"({id.page.index}, {id.slot})"

end RecordId

end PagedStorage
