import PagedStorage.Disk.DataFile

namespace PagedStorage

theorem Header.ofImage_blank : Header.ofImage Image.blank = ⟨0, 0, 0, 0⟩ := by
  simp only [Header.ofImage]
  rw [Image.slice_blank 0 4 (by decide), Image.slice_blank 4 6 (by decide),
    Image.slice_blank 6 8 (by decide), Image.slice_blank 8 10 (by decide)]
  rfl

/-- A block of zeros has no tag. -/
theorem Header.not_hasMagic_blank : ¬(Header.ofImage Image.blank).HasMagic := by
  rw [ofImage_blank]
  decide

def Page.ofImage? (id : PageId) (image : Image) : Option Page := (ofImage id image).toOption

namespace Page

theorem ofImage?_eq_some_iff {id : PageId} {image : Image} {page : Page} :
    ofImage? id image = some page ↔ page.id = id ∧ page.image = image := by
  rw [← ofImage_eq_ok_iff, ofImage?]
  cases ofImage id image <;> simp [Except.toOption]

theorem ofImage_blank (id : PageId) :
    ofImage id Image.blank = .error (.format (.badMagic id 0)) := by
  simp only [ofImage]
  rw [dif_neg Header.not_hasMagic_blank, Header.ofImage_blank]

theorem ofImage?_blank (id : PageId) : ofImage? id Image.blank = none := by
  rw [ofImage?, ofImage_blank]
  rfl

end Page

namespace DataFile

def IsWhole (file : DataFile) : Prop := file.size % pageSize = 0

/-- The image of a page that the file is long enough to hold. -/
def block? (file : DataFile) (index : Nat) : Option Image :=
  if index < file.pageCount then some (file.block index) else none

def page? (file : DataFile) (id : PageId) : Option Page := (file.read id).toOption

section

variable {file : DataFile} {page : Page}

theorem page?_eq (id : PageId) :
    file.page? id = (file.block? id.index).bind (Page.ofImage? id) := by
  rw [page?, read, block?]
  split <;> rfl

theorem byte_add (index : Nat) {i : Nat} (hi : i < pageSize) :
    file.byte (index * pageSize + i) = (file.block index)[i] := by
  have hdiv : (index * pageSize + i) / pageSize = index := by
    simp only [pageSize] at *
    omega
  have hmod : (index * pageSize + i) % pageSize = i := by
    simp only [pageSize] at *
    omega
  simp only [byte, BlockMap.byte, hdiv, hmod]
  rfl

theorem lt_pageCount_iff {index : Nat} :
    index < file.pageCount ↔ (index + 1) * pageSize ≤ file.size := by
  simp only [pageCount, pageSize]
  omega

/-- The bytes of the file at the place of a page are an image exactly when it is the image of that
page. -/
theorem extract_toBytes_eq_iff {index : Nat} {image : Image} :
    file.toBytes.extract (index * pageSize) ((index + 1) * pageSize) = image.toArray ↔
      file.block? index = some image := by
  have hsize : file.toBytes.size = file.size := by simp [toBytes]
  have hget : ∀ i (hi : i < (file.toBytes.extract (index * pageSize)
      ((index + 1) * pageSize)).size) (hp : i < pageSize),
      (file.toBytes.extract (index * pageSize) ((index + 1) * pageSize))[i] =
        (file.block index)[i] := by
    intro i hi hp
    rw [Array.getElem_extract, ← byte_add index hp]
    simp [toBytes]
  -- A stretch that the end of the file cuts off is shorter than an image.
  have hlen : (file.toBytes.extract (index * pageSize) ((index + 1) * pageSize)).size = pageSize ↔
      index < file.pageCount := by
    rw [Array.size_extract, hsize, lt_pageCount_iff]
    simp only [pageSize]
    omega
  rw [block?]
  constructor
  · intro h
    have hcount : index < file.pageCount := by
      rw [← hlen, h]
      exact image.size_toArray
    rw [if_pos hcount, Option.some_inj]
    apply Vector.ext
    intro i hi
    rw [← hget i (by rw [hlen.mpr hcount]; exact hi) hi]
    simp only [h]
    rfl
  · intro h
    split at h
    · rename_i hcount
      cases h
      apply Array.ext
      · rw [hlen.mpr hcount]
        exact (file.block index).size_toArray.symm
      · intro i hi hi'
        rw [hget i hi (by rwa [← hlen.mpr hcount])]
        rfl
    · cases h

theorem block_of_size_le {index : Nat} (h : file.size ≤ index * pageSize) :
    file.block index = Image.blank := by
  apply Vector.ext
  intro i hi
  rw [← byte_add index hi]
  have hzero : file.byte (index * pageSize + i) = 0 :=
    file.zero_past _ (Nat.le_trans h (Nat.le_add_right _ _))
  rw [hzero]
  simp [Image.blank]

theorem block_of_pageCount_le (hw : file.IsWhole) {index : Nat} (h : file.pageCount ≤ index) :
    file.block index = Image.blank := by
  apply block_of_size_le
  simp only [IsWhole, pageCount, pageSize] at *
  omega

theorem isWhole_empty : empty.IsWhole := rfl

theorem pageCount_empty : empty.pageCount = 0 := rfl

theorem isWhole_write (hw : file.IsWhole) (hv : page.id.IsValid) : (file.write page).IsWhole := by
  rw [write_of_isValid file hv]
  simp only [IsWhole, writeAt, pageSize] at *
  omega

theorem block?_write_self (hv : page.id.IsValid) :
    (file.write page).block? page.id.index = some page.image := by
  rw [write_of_isValid file hv, block?, pageCount_writeAt, if_pos (by omega), block_writeAt,
    if_pos rfl]

theorem block?_write_of_ne (hv : page.id.IsValid) {index : Nat} (hne : index ≠ page.id.index)
    {image : Image} (h : file.block? index = some image) :
    (file.write page).block? index = some image := by
  rw [block?] at h ⊢
  split at h
  · rw [write_of_isValid file hv, pageCount_writeAt, if_pos (by omega), block_writeAt,
      if_neg (Ne.symm hne), h]
  · cases h

/-- Pages that are written one after another keep the image of every other page. -/
theorem block?_foldl_write {pages : List Page} {index : Nat}
    (hpages : ∀ page ∈ pages, page.id.IsValid ∧ index ≠ page.id.index) {image : Image}
    (h : file.block? index = some image) :
    (pages.foldl write file).block? index = some image := by
  induction pages generalizing file with
  | nil => exact h
  | cons page pages ih =>
    obtain ⟨⟨hv, hne⟩, hrest⟩ := List.forall_mem_cons.mp hpages
    exact ih hrest (block?_write_of_ne hv hne h)

/-- After a write the file has the page that was written, and otherwise the pages it had. -/
theorem page?_write (hw : file.IsWhole) (hv : page.id.IsValid) (id : PageId) :
    (file.write page).page? id = if id = page.id then some page else file.page? id := by
  rw [page?_eq, page?_eq]
  split
  · rename_i hid
    rw [hid, block?_write_self hv]
    exact Page.ofImage?_eq_some_iff.mpr ⟨rfl, rfl⟩
  · rename_i hne
    have hidx : page.id.index ≠ id.index := fun he => hne (PageId.index_injective he.symm)
    cases hb : file.block? id.index with
    | some image =>
      rw [block?_write_of_ne hv (Ne.symm hidx) hb]
    | none =>
      -- a gap before the page that was written reads as zeros, which spell no page
      have hcount : file.pageCount ≤ id.index := by
        rw [block?] at hb
        split at hb
        · cases hb
        · omega
      rw [block?]
      split
      · rw [write_of_isValid file hv, block_writeAt, if_neg hidx, block_of_pageCount_le hw hcount,
          Option.bind_some, Option.bind_none]
        exact Page.ofImage?_blank id
      · rfl

end

end DataFile

end PagedStorage
