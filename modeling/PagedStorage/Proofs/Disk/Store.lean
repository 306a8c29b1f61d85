import PagedStorage.Disk.Store
import PagedStorage.Proofs.Disk.Blocks
import PagedStorage.Proofs.Disk.Destination

namespace PagedStorage

namespace Store

def file? (store : Store) : Option DataFile := store.volume.file? store.path

/-- What a write makes the data file of. -/
def base (store : Store) : DataFile := store.volume.base store.path

def block? (store : Store) (index : Nat) : Option Image :=
  store.file?.bind fun file => file.block? index

def page? (store : Store) (id : PageId) : Option Page :=
  (store.volume.readPage store.path id).toOption

/-- The bytes of the data file, none if there is no file. -/
def bytes (store : Store) : Array UInt8 := (store.file?.getD DataFile.empty).toBytes

/-- The bytes at the place of a page, fewer than a page has if the data file ends before. -/
def bytesAt (store : Store) (index : Nat) : Array UInt8 :=
  store.bytes.extract (index * pageSize) ((index + 1) * pageSize)

/-- The data file is missing, or it is there and ends with a page. -/
structure Whole (store : Store) : Prop where
  revealed : store.volume.Reveals store.path
  isWhole : ∀ file, store.file? = some file → file.IsWhole

/-- No data file is there, not even one that its path hides. -/
def IsMissing (store : Store) : Prop :=
  ∀ contents, store.volume.node? store.path.destination ≠ some (.file contents)

/-- A store in an empty directory, where nobody has made its data file yet. -/
def vacant (path : Path) : Store := { volume := Volume.empty, path }

/-- The data file is the same, whatever else has changed. -/
structure SameFile (store after : Store) : Prop where
  file? : after.file? = store.file?
  base : after.base = store.base
  revealed : store.volume.Reveals store.path → after.volume.Reveals after.path

def failing (store : Store) (fails : Access → PageId → Bool) : Store := { store with fails }

section

variable {store after : Store} {page : Page} {id : PageId} {e : StorageError}

theorem page?_eq (store : Store) (id : PageId) :
    store.page? id = if id.IsValid then store.file?.bind fun file => file.page? id else none := by
  rw [page?, Volume.readPage, file?, Volume.file?]
  split
  · cases store.volume.find store.path <;> rfl
  · rfl

theorem page?_eq_some_iff :
    store.page? id = some page ↔
      id.IsValid ∧ page.id = id ∧ store.block? id.index = some page.image := by
  rw [page?_eq, block?]
  split
  · rename_i hv
    cases store.file? with
    | none => simp
    | some file =>
      simp only [Option.bind_some, hv, true_and, DataFile.page?_eq]
      cases file.block? id.index with
      | none => simp
      | some image => simp [Page.ofImage?_eq_some_iff, eq_comm (a := image)]
  · rename_i hv
    simp [hv]

theorem id_of_page? (h : store.page? id = some page) : page.id = id := (page?_eq_some_iff.mp h).2.1

theorem bytesAt_eq_iff {index : Nat} {image : Image} :
    store.bytesAt index = image.toArray ↔ store.block? index = some image := by
  rw [bytesAt, bytes, DataFile.extract_toBytes_eq_iff, block?]
  cases store.file? with
  | some file => rfl
  | none => simp [DataFile.block?, DataFile.pageCount_empty]

theorem exists_block?_iff {index : Nat} :
    (∃ image, store.block? index = some image) ↔ (index + 1) * pageSize ≤ store.bytes.size := by
  have hsize : store.bytes.size = (store.file?.getD DataFile.empty).size := by
    simp [bytes, DataFile.toBytes]
  rw [hsize, ← DataFile.lt_pageCount_iff, block?]
  cases store.file? with
  | some file => simp [DataFile.block?]
  | none => simp [DataFile.pageCount_empty]

theorem whole_of_isMissing (h : store.IsMissing) : store.Whole where
  revealed := Volume.reveals_of_no_file h
  isWhole := by
    intro file hf
    rw [file?, Volume.file?_of_no_file h] at hf
    cases hf

theorem isMissing_vacant (path : Path) : (vacant path).IsMissing :=
  Volume.node?_empty_ne_file path.destination

theorem whole_vacant (path : Path) : (vacant path).Whole :=
  whole_of_isMissing (isMissing_vacant path)

theorem page?_of_isMissing (h : store.IsMissing) (id : PageId) : store.page? id = none := by
  rw [page?_eq, file?, Volume.file?_of_no_file h]
  split <;> rfl

namespace SameFile

theorem of_eq (hv : after.volume = store.volume) (hp : after.path = store.path) :
    store.SameFile after where
  file? := by rw [Store.file?, Store.file?, hv, hp]
  base := by rw [Store.base, Store.base, hv, hp]
  revealed h := by rwa [hv, hp]

theorem whole (h : store.SameFile after) (hw : store.Whole) : after.Whole where
  revealed := h.revealed hw.revealed
  isWhole := by
    intro file hf
    rw [h.file?] at hf
    exact hw.isWhole file hf

theorem page? (h : store.SameFile after) (id : PageId) : after.page? id = store.page? id := by
  rw [page?_eq, page?_eq, h.file?]

theorem block? (h : store.SameFile after) (index : Nat) :
    after.block? index = store.block? index := by
  rw [Store.block?, Store.block?, h.file?]

end SameFile

theorem sameFile_record (store : Store) (access : Access) (id : PageId) (succeeded : Bool) :
    store.SameFile (store.record access id succeeded) := .of_eq rfl rfl

theorem sameFile_failing (store : Store) (fails : Access → PageId → Bool) :
    store.SameFile (store.failing fails) := .of_eq rfl rfl

theorem sameFile_read {answer : Except StorageError Page} (h : store.read id = (answer, after)) :
    store.SameFile after := by
  cases h
  exact .of_eq rfl rfl

theorem page?_of_read_ok (h : store.read id = (.ok page, after)) : store.page? id = some page := by
  have hanswer := congrArg Prod.fst h
  simp only [read] at hanswer
  split at hanswer
  · cases hanswer
  · rw [page?, hanswer]
    rfl

/-- A page that is in the file is read unless the call is made to fail. -/
theorem page?_of_read_error (h : store.read id = (.error e, after)) :
    (store.fails .read id = true ∧ e = .io .injectedRead) ∨ store.page? id = none := by
  have hanswer := congrArg Prod.fst h
  simp only [read] at hanswer
  split at hanswer
  · rename_i hfails
    cases hanswer
    exact Or.inl ⟨hfails, rfl⟩
  · right
    rw [page?, hanswer]
    rfl

theorem calls_read {answer : Except StorageError Page} (h : store.read id = (answer, after)) :
    after.calls = ⟨.read, id, answer.isOk⟩ :: store.calls := by
  cases h
  rfl

theorem calls_write {answer : Except StorageError Unit} (h : store.write page = (answer, after)) :
    after.calls = ⟨.write, page.id, answer.isOk⟩ :: store.calls := by
  rw [write] at h
  split at h
  · cases h
    rfl
  · cases h
    rfl

theorem fst_write (store : Store) (page : Page) :
    (store.write page).1 =
      if store.fails .write page.id then .error (.io .injectedWrite)
      else (store.volume.writePage store.path page).1 := by
  rw [write]
  split <;> rfl

/-- No write has an effect on what others answer. -/
theorem fst_write_of_write {answer : Except StorageError Unit}
    (h : store.write page = (answer, after)) (other : Page) :
    (after.write other).1 = (store.write other).1 := by
  rw [fst_write, fst_write]
  rw [write] at h
  split at h
  · cases h
    rfl
  · rcases hm : store.volume.writePage store.path page with ⟨result, volume⟩
    rw [hm] at h
    cases h
    rw [Volume.writePage, Volume.writePage, ← Volume.fst_modify_of_modify hm]
    rfl

theorem file?_write_of_ok (hr : store.volume.Reveals store.path)
    (h : store.write page = (.ok (), after)) :
    after.file? = some ((store.file?.getD DataFile.empty).write page) ∧
      after.volume.Reveals after.path := by
  rw [write] at h
  split at h
  · cases h
  · rcases hm : store.volume.writePage store.path page with ⟨answer, volume⟩
    rw [hm] at h
    cases h
    exact Volume.file?_modify_of_ok hr hm

theorem file?_write (h : store.write page = (.ok (), after)) :
    after.file? = some (store.base.write page) := by
  rw [write] at h
  split at h
  · cases h
  · rcases hm : store.volume.writePage store.path page with ⟨answer, volume⟩
    rw [hm] at h
    cases h
    exact Volume.file?_modify hm

theorem base_of_file? {file : DataFile} (h : store.file? = some file) : store.base = file :=
  Volume.base_of_file? h

theorem base_write (h : store.write page = (.ok (), after)) :
    after.base = store.base.write page := base_of_file? (file?_write h)

theorem isWhole_getD (hw : store.Whole) : (store.file?.getD DataFile.empty).IsWhole := by
  cases hf : store.file? with
  | some file => exact hw.isWhole file hf
  | none => exact DataFile.isWhole_empty

theorem whole_write_of_ok (hw : store.Whole) (hv : page.id.IsValid)
    (h : store.write page = (.ok (), after)) : after.Whole := by
  obtain ⟨hfile, hrev⟩ := file?_write_of_ok hw.revealed h
  refine ⟨hrev, ?_⟩
  intro file hf
  rw [hfile] at hf
  cases hf
  exact DataFile.isWhole_write (isWhole_getD hw) hv

/-- After a write the file has the page that was written, and otherwise the pages it had. -/
theorem page?_write_of_ok (hw : store.Whole) (hv : page.id.IsValid)
    (h : store.write page = (.ok (), after)) (id : PageId) :
    after.page? id = if id = page.id then some page else store.page? id := by
  rw [page?_eq, page?_eq, (file?_write_of_ok hw.revealed h).1, Option.bind_some,
    DataFile.page?_write (isWhole_getD hw) hv]
  by_cases hid : id = page.id
  · rw [if_pos hid, if_pos hid, if_pos (hid ▸ hv)]
  · rw [if_neg hid, if_neg hid]
    cases store.file? with
    | some file => rfl
    | none => simp [DataFile.page?_eq, DataFile.block?, DataFile.pageCount_empty]

theorem block?_write_of_ok (hw : store.Whole) (hv : page.id.IsValid)
    (h : store.write page = (.ok (), after)) {index : Nat} (hne : index ≠ page.id.index)
    {image : Image} (hb : store.block? index = some image) : after.block? index = some image := by
  rw [block?, (file?_write_of_ok hw.revealed h).1, Option.bind_some]
  apply DataFile.block?_write_of_ne hv hne
  rw [block?] at hb
  cases hf : store.file? with
  | some file => rwa [hf] at hb
  | none =>
    rw [hf] at hb
    cases hb

/-- A write that fails may leave directories behind, but the file is as it was. -/
theorem sameFile_write_of_error (h : store.write page = (.error e, after)) :
    store.SameFile after := by
  rw [write] at h
  split at h
  · cases h
    exact sameFile_record store _ _ _
  · rcases hm : store.volume.writePage store.path page with ⟨answer, volume⟩
    rw [hm] at h
    cases h
    exact ⟨Volume.file?_modify_of_error hm, Volume.base_modify_of_error hm,
      fun hr => Volume.reveals_modify_of_error hr hm⟩

theorem write_error (h : store.write page = (.error e, after)) : ∃ fault, e = .io fault := by
  rw [write] at h
  split at h
  · cases h
    exact ⟨_, rfl⟩
  · rcases hm : store.volume.writePage store.path page with ⟨answer, volume⟩
    rw [hm] at h
    cases h
    exact ⟨_, Volume.modify_error hm⟩

end

end Store

end PagedStorage
