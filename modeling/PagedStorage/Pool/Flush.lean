import PagedStorage.Pool.Basic

namespace PagedStorage.Pool

def dirtyPages (pool : Pool) : List PageId := pool.frames.dirtyIds

def flushPage (pool : Pool) (id : PageId) : Except StorageError Unit × Pool :=
  if id.IsValid then pool.writeBack id
  else (.error (.invalidArgument (.notAddressable id)), pool)

/-- Writes pages back one after another, up to the first failure. -/
def flushPages (pool : Pool) : List PageId → Except StorageError Unit × Pool
  | [] => (.ok (), pool)
  | id :: ids =>
    match pool.flushPage id with
    | (.error e, pool) => (.error e, pool)
    | (.ok (), pool) => pool.flushPages ids

def flushAll (pool : Pool) : Except StorageError Unit × Pool := pool.flushPages pool.dirtyPages

/-- Writes at most `limit` changed pages back and tells how many they were. -/
def flushBatch (pool : Pool) (limit : Nat) : Except StorageError Nat × Pool :=
  let batch := pool.dirtyPages.take limit
  match pool.flushPages batch with
  | (.error e, pool) => (.error e, pool)
  | (.ok (), pool) => (.ok batch.length, pool)

end PagedStorage.Pool
