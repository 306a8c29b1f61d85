import PagedStorage.Text.Decimal

namespace PagedStorage

/-- What a pool has counted since it was made or its counters were reset. The counters have no bound:
words of 64 bits agree with them as long as fewer than 2 ^ 64 events were counted, and no pool lives
to see more. -/
structure Statistics where
  /-- Requests answered from memory. -/
  hits : Nat := 0
  /-- Requests that went to the store. -/
  misses : Nat := 0
  /-- Pages dropped to make room. -/
  evictions : Nat := 0
  pagesRead : Nat := 0
  pagesWritten : Nat := 0
  /-- Writes that failed and left their page dirty. -/
  failedWrites : Nat := 0
deriving DecidableEq, Repr, Inhabited

namespace Statistics

def hitRate (stats : Statistics) : Float :=
  let requests := stats.hits + stats.misses
  if requests = 0 then 0 else stats.hits.toUInt64.toFloat / requests.toUInt64.toFloat

def text (stats : Statistics) : String :=
  s!"Stats \x7b hits: {stats.hits}, misses: {stats.misses}, evictions: {stats.evictions}, " ++
    s!"written: {stats.pagesWritten}, hit_rate: {Decimal.ofFloat 2 (stats.hitRate * 100)}% \x7d"

end Statistics

end PagedStorage
