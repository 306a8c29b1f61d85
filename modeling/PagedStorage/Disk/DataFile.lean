import PagedStorage.Disk.BlockMap
import PagedStorage.Page.Basic

namespace PagedStorage

structure DataFile where
  /-- Number of bytes. -/
  size : Nat
  blocks : BlockMap
  /-- So that a file which grows reads as zeros where nothing was written. -/
  zero_past : ∀ position, size ≤ position → blocks.byte position = 0

namespace DataFile

def empty : DataFile := ⟨0, ∅, fun position _ => BlockMap.byte_empty position⟩

/-- The byte at a position, zero past the end. -/
def byte (file : DataFile) (position : Nat) : UInt8 := file.blocks.byte position

def block (file : DataFile) (index : Nat) : Image := file.blocks.block index

def pageCount (file : DataFile) : Nat := file.size / pageSize

/-- The file with `image` written from `position` on. A gap in front of it is filled with zeros. -/
def writeAt (file : DataFile) (position : Nat) (image : Image) : DataFile where
  size := max file.size (position + pageSize)
  blocks := file.blocks.overwrite position image
  zero_past p h := by
    rw [BlockMap.byte_overwrite, dif_neg (by omega)]
    exact file.zero_past p (by omega)

/-- Puts a page where its id says, and behind the last byte if it has no place yet. -/
def write (file : DataFile) (page : Page) : DataFile :=
  file.writeAt (page.id.offset?.getD file.size) page.image

def read (file : DataFile) (id : PageId) : Except StorageError Page :=
  if id.index < file.pageCount then Page.ofImage id (file.block id.index)
  else .error (.pageNotFound id)

def resize (file : DataFile) (size : Nat) : DataFile where
  size := size
  blocks := file.blocks.truncate size
  zero_past p h := by rw [BlockMap.byte_truncate, if_neg (by omega)]

def ofBytes (bytes : Array UInt8) : DataFile where
  size := bytes.size
  blocks := BlockMap.ofBytes bytes (bytes.size / pageSize + 1)
  zero_past p h := by
    rw [BlockMap.byte_ofBytes, Array.getD_eq_getD_getElem?, Array.getElem?_eq_none h]
    simp

def toBytes (file : DataFile) : Array UInt8 :=
  Array.ofFn fun i : Fin file.size => file.byte i.val

theorem byte_writeAt_add (file : DataFile) (start : Nat) (image : Image) (i : Nat)
    (hi : i < pageSize) : (file.writeAt start image).byte (start + i) = image[i] := by
  rw [byte, writeAt, BlockMap.byte_overwrite, dif_pos (by omega)]
  exact getElem_congr_idx (Nat.add_sub_cancel_left start i)

theorem byte_writeAt_of_not_mem (file : DataFile) {start position : Nat} (image : Image)
    (h : position < start ∨ start + pageSize ≤ position) :
    (file.writeAt start image).byte position = file.byte position := by
  rw [byte, writeAt, BlockMap.byte_overwrite, dif_neg (by omega)]
  rfl

theorem byte_resize (file : DataFile) (size position : Nat) :
    (file.resize size).byte position = if position < size then file.byte position else 0 :=
  BlockMap.byte_truncate file.blocks size position

/-- A write at the place of a page changes that page and no other. -/
theorem block_writeAt (file : DataFile) (index : Nat) (image : Image) (i : Nat) :
    (file.writeAt (index * pageSize) image).block i =
      if index = i then image else file.block i := by
  have hd : index * pageSize / pageSize = index := Nat.mul_div_cancel index (by decide)
  have hm : index * pageSize % pageSize = 0 := Nat.mul_mod_left index pageSize
  simp only [writeAt, block, BlockMap.overwrite, hd, hm, ↓reduceIte, BlockMap.block_insert]

theorem pageCount_writeAt (file : DataFile) (index : Nat) (image : Image) :
    (file.writeAt (index * pageSize) image).pageCount = max file.pageCount (index + 1) := by
  simp only [pageCount, writeAt, pageSize]
  omega

theorem write_of_isValid (file : DataFile) {page : Page} (h : page.id.IsValid) :
    file.write page = file.writeAt (page.id.index * pageSize) page.image := by
  rw [write, PageId.offset?, if_pos h, Option.getD_some]

theorem read_write_self (file : DataFile) {page : Page} (h : page.id.IsValid) :
    (file.write page).read page.id = .ok page := by
  rw [write_of_isValid file h, read, pageCount_writeAt, if_pos (by omega), block_writeAt,
    if_pos rfl]
  exact Page.ofImage_image page

/-- Pages that the file had are read as before after a write of another. -/
theorem read_write_of_ne (file : DataFile) {page : Page} (h : page.id.IsValid) {id : PageId}
    (hne : id ≠ page.id) (hlt : id.index < file.pageCount) :
    (file.write page).read id = file.read id := by
  have hi : page.id.index ≠ id.index := fun he => hne (PageId.index_injective he.symm)
  rw [write_of_isValid file h, read, read, pageCount_writeAt, if_pos (by omega), if_pos hlt,
    block_writeAt, if_neg hi]

theorem toBytes_ofBytes (bytes : Array UInt8) : (ofBytes bytes).toBytes = bytes := by
  apply Array.ext
  · simp [toBytes, ofBytes]
  · intro i hi hi'
    have hlt : i < (bytes.size / pageSize + 1) * pageSize := by
      simp only [pageSize]
      omega
    simp [toBytes, byte, ofBytes, BlockMap.byte_ofBytes, hlt]

end DataFile

end PagedStorage
