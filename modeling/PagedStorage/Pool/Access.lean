import PagedStorage.Pool.Basic

namespace PagedStorage.Pool

/-- The frame of a page, which is read from the store if it is not cached. The page is read before
room is made for it, so a page that does not exist evicts nothing. -/
def getPage (pool : Pool) (id : PageId) : Except StorageError Frame × Pool :=
  if id.IsValid then
    match pool.frames.find? id with
    | some frame =>
      let pool := { pool with stats := { pool.stats with hits := pool.stats.hits + 1 } }
      (.ok frame.used, pool.enlist frame.used)
    | none =>
      let pool := { pool with stats := { pool.stats with misses := pool.stats.misses + 1 } }
      match pool.store.read id with
      | (.error e, store) => (.error e, { pool with store })
      | (.ok page, store) =>
        let stats := { pool.stats with pagesRead := pool.stats.pagesRead + 1 }
        match makeRoom { pool with store, stats } with
        | (.error e, pool) => (.error e, pool)
        | (.ok (), pool) => (.ok (Frame.clean page id), pool.enlist (Frame.clean page id))
  else (.error (.invalidArgument (.notAddressable id)), pool)

/-- Makes `page` the image of the page `id`, to be written later. A page that is not cached gets a
frame without being read. -/
def updatePage (pool : Pool) (id : PageId) (page : Page) : Except StorageError Unit × Pool :=
  if ¬id.IsValid then (.error (.invalidArgument (.notAddressable id)), pool)
  else if page.id ≠ id then
    (.error (.invalidArgument (.misdirectedImage page.id id)), pool)
  else
    match pool.frames.find? id with
    | some frame => (.ok (), pool.enlist (frame.updated page))
    | none =>
      match pool.makeRoom with
      | (.error e, pool) => (.error e, pool)
      | (.ok (), pool) => (.ok (), pool.enlist (Frame.fresh page id))

def pin (pool : Pool) (id : PageId) : Except StorageError Unit × Pool :=
  match pool.frames.find? id with
  | none => (.error (.pageNotFound id), pool)
  | some frame =>
    let frames := pool.frames.put (frame.withPinned true)
    let (answer, policies) := pool.policies.withdraw id
    (answer, { pool with frames, policies })

def unpin (pool : Pool) (id : PageId) : Except StorageError Unit × Pool :=
  match pool.frames.find? id with
  | none => (.error (.pageNotFound id), pool)
  | some frame => (.ok (), pool.enlist (frame.withPinned false))

def peek (pool : Pool) (id : PageId) : Option Frame := pool.frames.find? id

def Contains (pool : Pool) (id : PageId) : Prop := pool.frames.Contains id

instance (pool : Pool) (id : PageId) : Decidable (pool.Contains id) :=
  inferInstanceAs (Decidable (pool.frames.Contains id))

def resetStats (pool : Pool) : Pool := { pool with stats := {} }

end PagedStorage.Pool
