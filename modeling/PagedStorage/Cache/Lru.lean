import Std.Data.TreeMap
import PagedStorage.Cache.FrameTable

namespace PagedStorage

/-- Least recently used eviction. Two maps, each the inverse of the other: one finds the candidate
with the lowest tick, and one the tick of a candidate. -/
structure Lru where
  /-- The candidates by the tick of their last registration. -/
  order : Std.TreeMap Nat PageId
  /-- The tick of each candidate. -/
  index : Std.TreeMap PageId Nat
  /-- The tick that was given last. Ticks never run out. -/
  tick : Nat

namespace Lru

def empty : Lru := ⟨∅, ∅, 0⟩

/-- The candidates by their last registration, the oldest in front. -/
def pages (lru : Lru) : List PageId := lru.order.toList.map Prod.snd

def without (lru : Lru) (page : PageId) : Lru :=
  match lru.index[page]? with
  | none => lru
  | some tick => { lru with order := lru.order.erase tick, index := lru.index.erase page }

def register (lru : Lru) (page : PageId) : Lru :=
  let others := lru.without page
  let tick := others.tick + 1
  ⟨others.order.insert tick page, others.index.insert page tick, tick⟩

/-- Takes a page off the list. The sentinel id is refused. -/
def withdraw (lru : Lru) (page : PageId) : Except StorageError Lru :=
  if page.IsValid then .ok (lru.without page)
  else .error (.invalidArgument (.notWithdrawable page))

def drop (lru : Lru) (entry : Nat × PageId) : Lru :=
  { lru with order := lru.order.erase entry.1, index := lru.index.erase entry.2 }

/-- The oldest candidate that may be evicted, which stays on the list. Older ones that may not be
are dropped. -/
def victim (lru : Lru) (table : FrameTable) : Option PageId × Lru :=
  let stale := lru.order.toList.takeWhile fun entry => ¬table.Evictable entry.2
  let left := stale.foldl drop lru
  (left.pages.head?, left)

end Lru

end PagedStorage
