import PagedStorage.Pool.Access
import PagedStorage.Pool.Flush
import PagedStorage.Proofs.Disk.Store

namespace PagedStorage

namespace Pool

/-- A call that gives no page a new image. -/
inductive Request
  | get (id : PageId)
  | pin (id : PageId)
  | unpin (id : PageId)
  | flush (id : PageId)
  | flushAll
  | flushBatch (limit : Nat)

inductive Operation
  | request (request : Request)
  | update (id : PageId) (page : Page)

/-- A call on a pool, and the store calls that fail while it runs. A pool that serves one call reads
no page twice and writes none twice (`asksOnce_run`), so failures at any moments can be told by
page. -/
structure Step where
  operation : Operation
  fails : Access → PageId → Bool := fun _ _ => false

def failing (pool : Pool) (fails : Access → PageId → Bool) : Pool :=
  { pool with store := pool.store.failing fails }

def serve (pool : Pool) : Request → Except StorageError Unit × Pool
  | .get id => ((pool.getPage id).1.map fun _ => (), (pool.getPage id).2)
  | .pin id => pool.pin id
  | .unpin id => pool.unpin id
  | .flush id => pool.flushPage id
  | .flushAll => pool.flushAll
  | .flushBatch limit => ((pool.flushBatch limit).1.map fun _ => (), (pool.flushBatch limit).2)

def perform (pool : Pool) : Operation → Except StorageError Unit × Pool
  | .request request => pool.serve request
  | .update id page => pool.updatePage id page

def step (pool : Pool) (step : Step) : Pool := ((pool.failing step.fails).perform step.operation).2

def run (pool : Pool) (steps : List Step) : Pool := steps.foldl Pool.step pool

section flush

variable {kept : Pool → Prop} {pool : Pool}

theorem flushPage_keeps (hw : ∀ pool id, kept pool → kept (pool.writeBack id).2) (h : kept pool)
    (id : PageId) : kept (pool.flushPage id).2 := by
  unfold flushPage
  split
  · exact hw pool id h
  · exact h

/-- What no write takes away is kept while pages are written one after another. -/
theorem flushPages_keeps (hw : ∀ pool id, kept pool → kept (pool.writeBack id).2) (h : kept pool)
    (ids : List PageId) : kept (pool.flushPages ids).2 := by
  induction ids generalizing pool with
  | nil => exact h
  | cons id ids ih =>
    have hfirst := flushPage_keeps hw h id
    rw [flushPages]
    split <;> rename_i hf <;> rw [hf] at hfirst
    · exact hfirst
    · exact ih hfirst

theorem flushBatch_keeps (hw : ∀ pool id, kept pool → kept (pool.writeBack id).2) (h : kept pool)
    (limit : Nat) : kept (pool.flushBatch limit).2 := by
  have hall := flushPages_keeps hw h (pool.dirtyPages.take limit)
  rw [flushBatch]
  split <;> rename_i hf <;> rwa [hf] at hall

end flush

def updateImages (answer : Except StorageError Unit) (target : PageId) (page : Page) :
    PageId → Option Page :=
  match answer with
  | .ok () => fun id => if target = id then some page else none
  | .error _ => fun _ => none

def images (pool : Pool) (step : Step) : PageId → Option Page :=
  match step.operation with
  | .request _ => fun _ => none
  | .update target page =>
    updateImages ((pool.failing step.fails).updatePage target page).1 target page

/-- The image that a run gives to a page last. -/
def lastImage? (pool : Pool) : List Step → PageId → Option Page
  | [], _ => none
  | step :: steps, id => ((pool.step step).lastImage? steps id).or (pool.images step id)

end Pool

end PagedStorage
