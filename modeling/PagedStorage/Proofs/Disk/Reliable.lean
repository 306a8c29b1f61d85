import Mathlib.Order.Lattice
import PagedStorage.Proofs.Disk.Store

namespace PagedStorage

namespace DataFile

/-- Only pages with numbers below `count` have been written since the file was `start`. -/
structure Grown (start file : DataFile) (count : Nat) : Prop where
  start_le : start.size ≤ file.size
  size_le : file.size ≤ max start.size (count * pageSize)
  byte_eq : ∀ position, count * pageSize ≤ position → file.byte position = start.byte position

section

variable {start file other : DataFile} {page : Page} {id : PageId} {count : Nat}

/-- A page is denied for what is in the file, or for want of it. -/
theorem read_ne_io (file : DataFile) (id : PageId) (fault : IoFault) :
    file.read id ≠ .error (.io fault) := by
  unfold read Page.ofImage
  dsimp only
  split
  · split
    · split <;> rintro ⟨⟩
    · rintro ⟨⟩
  · rintro ⟨⟩

/-- The pages that are not found are those behind the last whole one. -/
theorem isNotFound_of_read {e : StorageError} (h : file.read id = .error e) :
    e.isNotFound = true ↔ file.pageCount ≤ id.index := by
  unfold read Page.ofImage at h
  dsimp only at h
  split at h
  · rename_i hlt
    have he : e.isNotFound = false := by
      split at h
      · split at h <;> cases h
        rfl
      · cases h
        rfl
    rw [he]
    exact iff_of_false Bool.false_ne_true (Nat.not_le_of_lt hlt)
  · rename_i hle
    cases h
    exact iff_of_true rfl (Nat.le_of_not_lt hle)

theorem read_of_pageCount_le (h : file.pageCount ≤ id.index) :
    file.read id = .error (.pageNotFound id) := if_neg (Nat.not_lt_of_le h)

theorem block?_of_read_ok (h : file.read id = .ok page) :
    page.id = id ∧ file.block? id.index = some page.image := by
  rw [read] at h
  rw [block?]
  split at h
  · rename_i hlt
    obtain ⟨hid, himage⟩ := Page.ofImage_eq_ok_iff.mp h
    rw [if_pos hlt, himage]
    exact ⟨hid, rfl⟩
  · cases h

theorem block?_eq_some {index : Nat} {image : Image} (h : file.block? index = some image) :
    index < file.pageCount ∧ file.block index = image := by
  rw [block?] at h
  split at h
  · rename_i hlt
    exact ⟨hlt, Option.some_inj.mp h⟩
  · cases h

theorem byte_eq_of_block? {position : Nat} {image : Image}
    (h : file.block? (position / pageSize) = some image)
    (h' : other.block? (position / pageSize) = some image) :
    file.byte position = other.byte position := by
  have hmod : position % pageSize < pageSize := Nat.mod_lt position (by decide)
  have hplace : position = position / pageSize * pageSize + position % pageSize := by
    rw [Nat.mul_comm]
    exact (Nat.div_add_mod position pageSize).symm
  rw [hplace, byte_add _ hmod, byte_add _ hmod, (block?_eq_some h).2, (block?_eq_some h').2]

namespace Grown

theorem refl (file : DataFile) : file.Grown file 0 :=
  ⟨le_rfl, le_max_left _ _, fun _ _ => rfl⟩

theorem mono {more : Nat} (h : start.Grown file count) (hle : count ≤ more) :
    start.Grown file more := by
  have hmul : count * pageSize ≤ more * pageSize := Nat.mul_le_mul_right pageSize hle
  obtain ⟨hstart, hsize, hbyte⟩ := h
  exact ⟨hstart, by omega, fun position hp => hbyte position (hmul.trans hp)⟩

theorem write (h : start.Grown file count) (hv : page.id.IsValid) (hlt : page.id.index < count) :
    start.Grown (file.write page) count := by
  have hend : page.id.index * pageSize + pageSize ≤ count * pageSize := by
    have hmul : (page.id.index + 1) * pageSize ≤ count * pageSize :=
      Nat.mul_le_mul_right pageSize hlt
    rwa [Nat.succ_mul] at hmul
  obtain ⟨hstart, hsize, hbyte⟩ := h
  rw [write_of_isValid file hv]
  refine ⟨hstart.trans (le_max_left _ _), ?_, ?_⟩
  · simp only [writeAt]
    omega
  · intro position hp
    rw [byte_writeAt_of_not_mem file page.image (Or.inr (hend.trans hp))]
    exact hbyte position hp

/-- Once all its pages are there a file is as long as it can be. -/
theorem size_eq (h : start.Grown file count)
    (hb : ∀ index < count, ∃ image, file.block? index = some image) :
    file.size = max start.size (count * pageSize) := by
  refine le_antisymm h.size_le (max_le h.start_le ?_)
  cases count with
  | zero => omega
  | succ last =>
    obtain ⟨image, himage⟩ := hb last (Nat.lt_succ_self last)
    exact lt_pageCount_iff.mp (block?_eq_some himage).1

/-- Two files that have grown from one and have the same first pages are the same. -/
theorem toBytes_eq (h : start.Grown file count) (h' : start.Grown other count)
    (hb : ∀ index < count, ∃ image, file.block? index = some image ∧
      other.block? index = some image) : file.toBytes = other.toBytes := by
  have hsize : file.size = other.size := by
    rw [h.size_eq fun index hlt => (hb index hlt).imp fun _ => And.left,
      h'.size_eq fun index hlt => (hb index hlt).imp fun _ => And.right]
  have hbyte : ∀ position, file.byte position = other.byte position := by
    intro position
    by_cases hp : count * pageSize ≤ position
    · rw [h.byte_eq position hp, h'.byte_eq position hp]
    · have hindex : position / pageSize < count :=
        (Nat.div_lt_iff_lt_mul (by decide)).mpr (Nat.lt_of_not_le hp)
      obtain ⟨image, hfile, hother⟩ := hb _ hindex
      exact byte_eq_of_block? hfile hother
  apply Array.ext
  · simp [toBytes, hsize]
  · intro i hi hi'
    simp only [toBytes, Array.getElem_ofFn]
    exact hbyte i

end Grown

end

end DataFile

namespace Store

def contents (store : Store) : DataFile := store.file?.getD DataFile.empty

/-- No read fails, whichever page it is about. That a page is missing or broken is no failure. -/
def Readable (store : Store) : Prop := ∀ id fault, (store.read id).1 ≠ .error (.io fault)

structure Reliable (store : Store) : Prop where
  read : ∀ id fault, (store.read id).1 ≠ .error (.io fault)
  write : ∀ page, (store.write page).1 = .ok ()

section

variable {store after : Store} {page : Page} {id : PageId}

theorem page?_eq_toOption (hv : id.IsValid) :
    store.page? id = (store.contents.read id).toOption := by
  rw [page?_eq, if_pos hv, contents]
  cases store.file? with
  | some file => rfl
  | none =>
    rw [Option.getD_none, DataFile.read_of_pageCount_le (Nat.zero_le _)]
    rfl

theorem pageCount_contents (store : Store) :
    store.contents.pageCount = store.bytes.size / pageSize := by
  simp [bytes, contents, DataFile.toBytes, DataFile.pageCount]

/-- A page that the file is long enough to hold is what its bytes spell. -/
theorem contents_read_eq (h : id.index < store.contents.pageCount) :
    store.contents.read id = Page.ofBytes id (store.bytesAt id.index).toList := by
  have hblock : store.block? id.index = some (store.contents.block id.index) := by
    rw [contents] at h ⊢
    rw [block?]
    cases hfile : store.file? with
    | some file =>
      rw [hfile] at h
      exact if_pos h
    | none =>
      rw [hfile] at h
      cases h
  rw [bytesAt_eq_iff.mpr hblock, DataFile.read, if_pos h, Page.ofBytes]
  have himage := Image.ofBytes?_toList (store.contents.block id.index)
  rw [Vector.toList] at himage
  rw [himage]

theorem contents_write_of_ok (hr : store.volume.Reveals store.path)
    (h : store.write page = (.ok (), after)) : after.contents = store.contents.write page := by
  rw [contents, (file?_write_of_ok hr h).1]
  rfl

namespace Readable

theorem not_fails (h : store.Readable) (id : PageId) : store.fails .read id = false := by
  by_contra hf
  rw [Bool.not_eq_false] at hf
  exact h id .injectedRead (if_pos hf)

theorem find_ne_blocked (h : store.Readable) : store.volume.find store.path ≠ .blocked := by
  intro hblocked
  have hv : (PageId.ofIndex 0).IsValid := by decide
  apply h (.ofIndex 0) .system
  rw [Store.read, h.not_fails, if_neg Bool.false_ne_true, Volume.readPage, if_pos hv, hblocked]

theorem read_eq (h : store.Readable) (hv : id.IsValid) :
    (store.read id).1 = store.contents.read id := by
  have hread : (store.read id).1 = store.volume.readPage store.path id := by
    simp only [Store.read, h.not_fails id, if_neg Bool.false_ne_true]
  have hmissing : DataFile.empty.read id = .error (.pageNotFound id) :=
    DataFile.read_of_pageCount_le (Nat.zero_le _)
  rw [hread, Volume.readPage, if_pos hv, contents, file?, Volume.file?]
  cases hplace : store.volume.find store.path with
  | file location found => rfl
  | blocked => exact absurd hplace h.find_ne_blocked
  | missing => exact hmissing.symm
  | vacant location => exact hmissing.symm
  | directory location => exact hmissing.symm

theorem pageCount_eq (h : store.Readable) :
    store.volume.pageCount store.path = .ok (UInt32.ofNat store.contents.pageCount) := by
  have hmissing : (.ok 0 : Except StorageError UInt32) =
      .ok (UInt32.ofNat DataFile.empty.pageCount) := rfl
  rw [Volume.pageCount, contents, file?, Volume.file?]
  cases hplace : store.volume.find store.path with
  | file location found => rfl
  | blocked => exact absurd hplace h.find_ne_blocked
  | missing => exact hmissing
  | vacant location => exact hmissing
  | directory location => exact hmissing

end Readable

namespace Reliable

theorem of_eq (h : store.Reliable) (hv : after.volume = store.volume)
    (hp : after.path = store.path) (hf : after.fails = store.fails) : after.Reliable where
  read id fault := by
    have hsame : (after.read id).1 = (store.read id).1 := by
      simp only [Store.read, hv, hp, hf]
    rw [hsame]
    exact h.read id fault
  write page := by
    have hsame : (after.write page).1 = (store.write page).1 := by
      simp only [Store.write, hv, hp, hf]
      split <;> rfl
    rw [hsame]
    exact h.write page

theorem not_fails_read (h : store.Reliable) (id : PageId) : store.fails .read id = false :=
  Readable.not_fails h.read id

theorem not_fails_write (h : store.Reliable) (id : PageId) : store.fails .write id = false := by
  by_contra hf
  rw [Bool.not_eq_false] at hf
  have hid : (Page.empty id).id = id := rfl
  have hw := h.write (Page.empty id)
  rw [Store.write, hid, if_pos hf] at hw
  cases hw

/-- A page is read from the contents of the file. -/
theorem read_eq (h : store.Reliable) (hv : id.IsValid) :
    (store.read id).1 = store.contents.read id := Readable.read_eq h.read hv

theorem of_read (h : store.Reliable) {answer : Except StorageError Page}
    (hr : store.read id = (answer, after)) : after.Reliable := by
  cases hr
  exact h.of_eq rfl rfl rfl

/-- A file that is found can be read and changed, and one that is not can be made if the path leads
to a place for it. -/
theorem of_target? {location : Location}
    (ht : (store.volume.find store.path).target? = some location)
    (hr : ∀ id, store.fails .read id = false) (hw : ∀ id, store.fails .write id = false) :
    store.Reliable where
  read id fault := by
    rw [Store.read]
    simp only [hr id, if_neg Bool.false_ne_true]
    rw [Volume.readPage]
    split
    · split
      · exact DataFile.read_ne_io _ id fault
      · rename_i hblocked
        rw [hblocked] at ht
        cases ht
      · rintro ⟨⟩
    · rintro ⟨⟩
  write page := by
    rw [Store.write, hw page.id, if_neg Bool.false_ne_true, Volume.writePage,
      Volume.modify_of_target? ht]

theorem of_write (h : store.Reliable) (hw : store.write page = (.ok (), after)) :
    after.Reliable := by
  rw [Store.write, h.not_fails_write page.id, if_neg Bool.false_ne_true] at hw
  rcases hm : store.volume.writePage store.path page with ⟨answer, volume⟩
  rw [hm] at hw
  cases hw
  obtain ⟨location, -, hfind⟩ := Volume.find_modify hm
  exact of_target? (congrArg Place.target? hfind) h.not_fails_read h.not_fails_write

end Reliable

end

end Store

end PagedStorage
