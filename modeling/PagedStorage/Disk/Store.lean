import PagedStorage.Disk.Volume.Basic

namespace PagedStorage

inductive Access
  | read
  | write
deriving DecidableEq, Repr

structure Call where
  access : Access
  page : PageId
  succeeded : Bool
deriving DecidableEq, Repr

/-- One data file of a volume as a pool sees it. A call that is made to fail changes nothing, and
every call is kept, whether or not it succeeded. -/
structure Store where
  volume : Volume
  path : Path
  /-- Calls that fail before they reach the file. -/
  fails : Access → PageId → Bool := fun _ _ => false
  /-- The calls received, the latest in front. -/
  calls : List Call := []

namespace Store

def record (store : Store) (access : Access) (page : PageId) (succeeded : Bool) : Store :=
  { store with calls := ⟨access, page, succeeded⟩ :: store.calls }

def read (store : Store) (id : PageId) : Except StorageError Page × Store :=
  let answer :=
    if store.fails .read id then .error (.io .injectedRead)
    else store.volume.readPage store.path id
  (answer, store.record .read id answer.isOk)

def write (store : Store) (page : Page) : Except StorageError Unit × Store :=
  if store.fails .write page.id then
    (.error (.io .injectedWrite), store.record .write page.id false)
  else
    let (answer, volume) := store.volume.writePage store.path page
    (answer, { store with volume }.record .write page.id answer.isOk)

end Store

end PagedStorage
