import PagedStorage.Proofs.Disk.PageMap
import PagedStorage.Proofs.Disk.Reliable

namespace PagedStorage

namespace DataFile

def tailSize (file : DataFile) : Nat := file.size % pageSize

/-- The bytes behind the last whole page, and zeros after them. -/
def tail (file : DataFile) : Image := file.block file.pageCount

/-- The bytes behind the last whole page, and after them as much of an image as still goes there. -/
def seam (file : DataFile) (image : Image) : Image :=
  file.tail.overwrite file.tailSize (image.slice 0 (pageSize - file.tailSize))

section

variable {file : DataFile} {page : Page} {image : Image} {index i : Nat}

theorem tailSize_lt (file : DataFile) : file.tailSize < pageSize := Nat.mod_lt _ (by decide)

theorem pageCount_mul_add_tailSize (file : DataFile) :
    file.pageCount * pageSize + file.tailSize = file.size := Nat.div_add_mod' file.size pageSize

theorem tailSize_eq_zero : file.tailSize = 0 ↔ file.IsWhole := Iff.rfl

theorem getElem_block_resize {size : Nat} (hi : i < pageSize) :
    ((file.resize size).block index)[i] =
      if index * pageSize + i < size then (file.block index)[i] else 0 := by
  rw [← byte_add index hi, ← byte_add index hi, byte_resize]

theorem getElem_seam (hi : i < pageSize) :
    (file.seam image)[i] =
      if i < file.tailSize then file.tail[i] else image[i - file.tailSize] := by
  have hlt := file.tailSize_lt
  have hlength : (image.slice 0 (pageSize - file.tailSize)).length = pageSize - file.tailSize :=
    Image.length_slice image (Nat.sub_le _ _)
  rw [seam, Image.getElem_overwrite]
  by_cases h : i < file.tailSize
  · rw [dif_neg (by omega), if_pos h]
  · rw [dif_pos (by omega), if_neg h, Image.getElem_slice image _ (by omega)]
    simp only [Nat.zero_add]

theorem slice_seam {stop : Nat} (hs : file.tailSize ≤ stop) (hstop : stop ≤ pageSize) :
    (file.seam image).slice 0 stop =
      file.tail.slice 0 file.tailSize ++ image.slice 0 (stop - file.tailSize) := by
  have htail : (file.tail.slice 0 file.tailSize).length = file.tailSize :=
    Image.length_slice file.tail (hs.trans hstop)
  have hfront : (image.slice 0 (stop - file.tailSize)).length = stop - file.tailSize :=
    Image.length_slice image (by omega)
  have hlength : ((file.seam image).slice 0 stop).length = stop := Image.length_slice _ hstop
  apply List.ext_getElem
  · rw [List.length_append]
    omega
  · intro i hi hi'
    rw [Image.getElem_slice _ hi (by omega)]
    simp only [Nat.zero_add]
    rw [getElem_seam (by omega)]
    split
    · rename_i hlt
      rw [List.getElem_append_left (by omega), Image.getElem_slice _ _ (by omega)]
      simp only [Nat.zero_add]
    · rw [List.getElem_append_right (by omega), Image.getElem_slice _ _ (by omega)]
      simp only [htail, Nat.zero_add]

theorem tail_resize_empty (size : Nat) : (empty.resize size).tail = Image.blank := by
  apply Vector.ext
  intro i hi
  rw [tail, getElem_block_resize hi]
  split <;> simp [block, empty, BlockMap.block_empty, Image.blank]

/-- An image that is put behind whole pages has a place to itself. -/
theorem seam_of_isWhole (hw : file.IsWhole) (image : Image) : file.seam image = image := by
  have hzero := tailSize_eq_zero.mpr hw
  apply Vector.ext
  intro i hi
  rw [getElem_seam hi, if_neg (by omega)]
  simp only [hzero, Nat.sub_zero]

/-- Otherwise it is found there only if it begins with the bytes of the tail and repeats itself from
there on. -/
theorem seam_eq_iff :
    file.seam image = image ↔
      ∀ i (hi : i < pageSize),
        image[i] = if i < file.tailSize then file.tail[i] else image[i - file.tailSize] := by
  constructor
  · intro h i hi
    rw [← getElem_seam hi, h]
  · intro h
    apply Vector.ext
    intro i hi
    rw [getElem_seam hi]
    exact (h i hi).symm

theorem write_of_invalid (hp : page.id = .invalid) :
    file.write page = file.writeAt file.size page.image := by
  rw [write, hp]
  rfl

theorem pageCount_write_of_invalid (hp : page.id = .invalid) :
    (file.write page).pageCount = file.pageCount + 1 := by
  rw [write_of_invalid hp]
  simp only [pageCount, writeAt, pageSize]
  omega

/-- The whole pages lie in front of the place where the page goes. -/
theorem block_write_of_invalid (hp : page.id = .invalid) (h : index < file.pageCount) :
    (file.write page).block index = file.block index := by
  rw [write_of_invalid hp]
  apply Vector.ext
  intro i hi
  have hend := lt_pageCount_iff.mp h
  rw [Nat.succ_mul] at hend
  rw [← byte_add index hi, ← byte_add index hi]
  exact byte_writeAt_of_not_mem file page.image (Or.inl (by omega))

theorem block_write_pageCount (hp : page.id = .invalid) :
    (file.write page).block file.pageCount = file.seam page.image := by
  have hend := file.pageCount_mul_add_tailSize
  rw [write_of_invalid hp]
  apply Vector.ext
  intro i hi
  rw [← byte_add file.pageCount hi, getElem_seam hi]
  split
  · rename_i hlt
    rw [byte_writeAt_of_not_mem file page.image (Or.inl (by omega)), byte_add file.pageCount hi]
    rfl
  · rename_i hge
    have hplace : file.pageCount * pageSize + i = file.size + (i - file.tailSize) := by omega
    rw [hplace, byte_writeAt_add file file.size page.image (i - file.tailSize) (by omega)]

theorem block_of_pageCount_lt (h : file.pageCount < index) : file.block index = Image.blank := by
  have hlt := file.tailSize_lt
  have hend := file.pageCount_mul_add_tailSize
  have hmul : (file.pageCount + 1) * pageSize ≤ index * pageSize := Nat.mul_le_mul_right _ h
  rw [Nat.succ_mul] at hmul
  exact block_of_size_le (by omega)

/-- Read at the place of the broken page, a file that has grown past it has its tail there. -/
theorem read_foldl_write_of_pageCount_le {pages : List Page} {id : PageId}
    (hv : ∀ page ∈ pages, page.id.IsValid) (hl : ∀ page ∈ pages, page.id ≠ id)
    (hle : file.pageCount ≤ id.index) :
    (pages.foldl write file).read id =
      if ∃ page ∈ pages, id.index < page.id.index then Page.ofImage id (file.block id.index)
      else .error (.pageNotFound id) := by
  have hlatest : latest? pages id = none := by
    simpa [latest?] using hl
  have hlt : id.index < (pages.foldl write file).pageCount ↔
      ∃ page ∈ pages, id.index < page.id.index := by
    rw [lt_pageCount_foldl_write hv, or_iff_right (Nat.not_lt_of_le hle)]
    refine exists_congr fun page => and_congr_right fun hmem => ?_
    have hne : id.index ≠ page.id.index := fun he => hl page hmem (PageId.index_injective he.symm)
    omega
  rw [read, block_foldl_write hv, hlatest]
  simp only [hlt, Option.map_none, Option.getD_none]

end

end DataFile

namespace Page

variable {id : PageId} {image : Image}

theorem slice_image_empty (id : PageId) {stop : Nat} (h : stop ≤ Header.empty.toBytes.length) :
    (empty id).image.slice 0 stop = Header.empty.toBytes.take stop := by
  have hpart := Image.slice_overwrite_part Image.blank (Nat.zero_le stop) h
    (by decide : 0 + Header.empty.toBytes.length ≤ pageSize)
  simp only [Nat.zero_add, List.drop_zero, Nat.sub_zero] at hpart
  exact hpart

theorem isFormat_of_ofImage {e : StorageError} (h : ofImage id image = .error e) :
    ∃ fault, e = .format fault := by
  simp only [ofImage] at h
  split at h
  · split at h <;> cases h
    exact ⟨_, rfl⟩
  · cases h
    exact ⟨_, rfl⟩

theorem exists_ofImage_iff :
    (∃ page, ofImage id image = .ok page) ↔ (Header.ofImage image).Sound := by
  constructor
  · rintro ⟨page, h⟩
    rw [← (ofImage_eq_ok_iff.mp h).2]
    exact page.sound
  · intro h
    exact ⟨⟨id, image, h⟩, ofImage_eq_ok_iff.mpr ⟨rfl, rfl⟩⟩

end Page

namespace Volume

def holding (file : DataFile) : Volume := empty.put ⟨0, ["data"]⟩ (.file file)

theorem file?_holding (file : DataFile) : (holding file).file? ["data"] = some file := rfl

section

variable {volume after : Volume} {path : Path} {file : DataFile} {page : Page}
  {pages written : List Page} {id : PageId}

theorem file?_writePage (hf : volume.file? path = some file)
    (h : volume.writePage path page = (.ok (), after)) :
    after.file? path = some (file.write page) := by
  have hr := reveals_of_find (file?_eq_some_iff.mp hf)
  have hfile := (file?_modify_of_ok hr h).1
  rwa [hf] at hfile

/-- A page without a place of its own goes behind the last byte of the file. There is one page more
then, and the pages that there were read as before. What is read in the place of the new page are
the bytes that the file had there, and the front of the new image after them. So if the file was a
number of whole pages the new page is read there; and if it was not, it is only if its image begins
with the bytes that the file had there and repeats itself from there on. -/
theorem readPage_writePage_unplaced (hf : volume.file? path = some file) (hp : page.id = .invalid)
    (h : volume.writePage path page = (.ok (), after)) :
    (∃ count, volume.pageCount path = .ok count ∧ after.pageCount path = .ok (count + 1)) ∧
    (∀ id, id.index < file.pageCount → after.readPage path id = volume.readPage path id) ∧
    ∀ id, id.IsValid → id.index = file.pageCount →
      after.readPage path id = Page.ofImage id (file.seam page.image) ∧
      (file.IsWhole → after.readPage path id = .ok ⟨id, page.image, page.sound⟩) ∧
      ((∃ found, after.readPage path id = .ok found ∧ found.image = page.image) ↔
        ∀ i (hi : i < pageSize), page.image[i] =
          if i < file.tailSize then file.tail[i] else page.image[i - file.tailSize]) := by
  have hafter := file?_writePage hf h
  refine ⟨⟨_, pageCount_of_file? hf, ?_⟩, ?_, ?_⟩
  · rw [pageCount_of_file? hafter, DataFile.pageCount_write_of_invalid hp, UInt32.ofNat_add]
    rfl
  · intro id hlt
    by_cases hv : id.IsValid
    · rw [readPage_of_file? hafter hv, readPage_of_file? hf hv, DataFile.read, DataFile.read,
        DataFile.pageCount_write_of_invalid hp, if_pos (Nat.lt_succ_of_lt hlt), if_pos hlt,
        DataFile.block_write_of_invalid hp hlt]
    · rw [readPage, readPage, if_neg hv, if_neg hv]
  · intro id hv hid
    have hread : after.readPage path id = Page.ofImage id (file.seam page.image) := by
      rw [readPage_of_file? hafter hv, DataFile.read, DataFile.pageCount_write_of_invalid hp,
        if_pos (by omega), hid, DataFile.block_write_pageCount hp]
    refine ⟨hread, ?_, ?_⟩
    · intro hw
      rw [hread, DataFile.seam_of_isWhole hw]
      exact Page.ofImage_eq_ok_iff.mpr ⟨rfl, rfl⟩
    · rw [← DataFile.seam_eq_iff, hread]
      constructor
      · rintro ⟨found, hfound, himage⟩
        exact (Page.ofImage_eq_ok_iff.mp hfound).2.symm.trans himage
      · intro hseam
        rw [hseam]
        exact ⟨⟨id, page.image, page.sound⟩, Page.ofImage_eq_ok_iff.mpr ⟨rfl, rfl⟩, rfl⟩

/-- Behind a whole page a page that is put there is read as the next. -/
theorem readPage_writePage_unplaced_whole :
    ∃ after, (holding (DataFile.empty.write (.empty (.ofIndex 0)))).writePage ["data"]
        (.empty .invalid) = (.ok (), after) ∧
      after.readPage ["data"] (.ofIndex 1) = .ok (.empty (.ofIndex 1)) := by
  obtain ⟨after, hw⟩ : ∃ after, (holding (DataFile.empty.write (.empty (.ofIndex 0)))).writePage
      ["data"] (.empty .invalid) = (.ok (), after) := ⟨_, rfl⟩
  have hp : (Page.empty .invalid).id = .invalid := rfl
  have hwhole : (DataFile.empty.write (.empty (.ofIndex 0))).IsWhole :=
    DataFile.isWhole_write DataFile.isWhole_empty (by decide)
  obtain ⟨-, -, hplace⟩ := readPage_writePage_unplaced (file?_holding _) hp hw
  exact ⟨after, hw, (hplace (.ofIndex 1) (by decide) rfl).2.1 hwhole⟩

/-- Behind a single byte it is read as no page, and it is lost. -/
theorem unplaced_page_lost :
    ∃ after, (holding (DataFile.empty.resize 1)).writePage ["data"] (.empty .invalid) =
        (.ok (), after) ∧
      (holding (DataFile.empty.resize 1)).pageCount ["data"] = .ok 0 ∧
      after.pageCount ["data"] = .ok 1 ∧
      after.readPage ["data"] (.ofIndex 0) =
        .error (.format (.badMagic (.ofIndex 0) 0xDDDDDD00)) := by
  have hp : (Page.empty .invalid).id = .invalid := rfl
  have hcount : ((DataFile.empty.resize 1).write (.empty .invalid)).pageCount = 1 :=
    DataFile.pageCount_write_of_invalid hp
  obtain ⟨after, hw⟩ : ∃ after, (holding (DataFile.empty.resize 1)).writePage ["data"]
      (.empty .invalid) = (.ok (), after) := ⟨_, rfl⟩
  have hafter := file?_writePage (file?_holding _) hw
  -- The byte comes first, and the tag of the page right behind it.
  have hfront : (Page.empty .invalid).image.slice 0 3 = [0xDD, 0xDD, 0xDD] :=
    Page.slice_image_empty .invalid (by decide)
  have hslice : ((DataFile.empty.resize 1).seam (Page.empty .invalid).image).slice 0 4 =
      [0, 0xDD, 0xDD, 0xDD] := by
    rw [DataFile.slice_seam (by decide) (by decide), DataFile.tail_resize_empty,
      Image.slice_blank _ _ (by decide)]
    exact congrArg (0 :: ·) hfront
  have hmagic : (Header.ofImage ((DataFile.empty.resize 1).seam
      (Page.empty .invalid).image)).magic = 0xDDDDDD00 := by
    simp only [Header.ofImage, hslice]
    rfl
  have hblock : ((DataFile.empty.resize 1).write (.empty .invalid)).block 0 = _ :=
    DataFile.block_write_pageCount hp
  refine ⟨after, hw, pageCount_of_file? (file?_holding _), ?_, ?_⟩
  · rw [pageCount_of_file? hafter, hcount]
    rfl
  · rw [readPage_of_file? hafter (by decide), DataFile.read, hcount, if_pos (by decide)]
    have hnot : ¬(Header.ofImage ((DataFile.empty.resize 1).seam
        (Page.empty .invalid).image)).HasMagic := by
      rw [Header.HasMagic, hmagic]
      decide
    rw [show (PageId.ofIndex 0).index = 0 from rfl, hblock]
    simp only [Page.ofImage]
    rw [dif_neg hnot, hmagic]

theorem pageCount_le_of_not_found (hf : volume.file? path = some file)
    (hn : volume.readPage path id = .error (.pageNotFound id)) :
    id.IsValid ∧ file.pageCount ≤ id.index := by
  have hv : id.IsValid := by
    by_contra hv
    rw [readPage, if_neg hv] at hn
    cases hn
  rw [readPage_of_file? hf hv] at hn
  exact ⟨hv, (DataFile.isNotFound_of_read hn).mp rfl⟩

/-- A page behind the whole ones that is not written is found just if a page behind it is, and then
it is what the file had in its place. -/
theorem readPage_writePages_of_pageCount_le (hf : volume.file? path = some file)
    (hv : ∀ page ∈ pages, page.id.IsValid) (h : volume.writePages path pages = (written, after))
    (hid : id.IsValid) (hle : file.pageCount ≤ id.index) (hl : ∀ page ∈ written, page.id ≠ id) :
    after.readPage path id =
      if ∃ page ∈ written, id.index < page.id.index then Page.ofImage id (file.block id.index)
      else .error (.pageNotFound id) := by
  have hwritten : ∀ page ∈ written, page.id.IsValid :=
    fun page hmem => hv page ((sublist_writePages h).mem hmem)
  have hr := reveals_of_find (file?_eq_some_iff.mp hf)
  have hafter := file?_writePages hr h (Or.inr (hf ▸ Option.some_ne_none file))
  have hcontents : volume.contents path = file := by
    rw [contents, hf]
    rfl
  rw [readPage_of_file? hafter hid, hcontents,
    DataFile.read_foldl_write_of_pageCount_le hwritten hl hle]

/-- Pages with places of their own are written one after another into a file of any length, and
those whose write succeeds are told in `written`. A page that was not found at first and that is
not among them is found afterwards just if it is the one that the file broke off in, if a page
behind it was written, and if the bytes of the tail, followed by zeros, have a header that is
accepted. Then these bytes and zeros are its image; and otherwise it is still not found, or refused
for its form. -/
theorem readPage_writePages_torn (hf : volume.file? path = some file)
    (hv : ∀ page ∈ pages, page.id.IsValid) (h : volume.writePages path pages = (written, after))
    (hn : volume.readPage path id = .error (.pageNotFound id))
    (hl : ∀ page ∈ written, page.id ≠ id) :
    ((∃ page, after.readPage path id = .ok page) ↔
      id.index = file.pageCount ∧ (Header.ofImage file.tail).Sound ∧
        ∃ page ∈ written, id.index < page.id.index) ∧
    (∀ page, after.readPage path id = .ok page → page.image = file.tail) ∧
    ∀ e, after.readPage path id = .error e →
      e = .pageNotFound id ∨ ∃ fault, e = .format fault := by
  obtain ⟨hid, hle⟩ := pageCount_le_of_not_found hf hn
  have hread := readPage_writePages_of_pageCount_le hf hv h hid hle hl
  -- Every place behind the broken page is blank, and blank bytes are no page.
  have hspelled : ∀ page, Page.ofImage id (file.block id.index) = .ok page →
      id.index = file.pageCount ∧ page.image = file.tail := by
    intro page hpage
    rcases Nat.lt_or_eq_of_le hle with hlt | heq
    · rw [DataFile.block_of_pageCount_lt hlt, Page.ofImage_blank] at hpage
      cases hpage
    · refine ⟨heq.symm, ?_⟩
      rw [DataFile.tail, heq]
      exact (Page.ofImage_eq_ok_iff.mp hpage).2
  rw [hread]
  split
  · rename_i hlast
    refine ⟨?_, fun page hpage => (hspelled page hpage).2,
      fun e he => Or.inr (Page.isFormat_of_ofImage he)⟩
    constructor
    · rintro ⟨page, hpage⟩
      obtain ⟨heq, himage⟩ := hspelled page hpage
      exact ⟨heq, himage ▸ page.sound, hlast⟩
    · rintro ⟨heq, hsound, -⟩
      rw [heq]
      exact Page.exists_ofImage_iff.mpr hsound
  · rename_i hnone
    refine ⟨iff_of_false nofun fun h => hnone h.2.2, nofun, ?_⟩
    rintro e ⟨⟩
    exact Or.inl rfl

/-- A single zero byte is no page when the file has grown past it. -/
theorem readPage_writePages_torn_blank :
    ∃ after, (holding (DataFile.empty.resize 1)).writePages ["data"] [.empty (.ofIndex 1)] =
        ([.empty (.ofIndex 1)], after) ∧
      ∀ page, after.readPage ["data"] (.ofIndex 0) ≠ .ok page := by
  obtain ⟨after, hw⟩ : ∃ after, (holding (DataFile.empty.resize 1)).writePages ["data"]
      [.empty (.ofIndex 1)] = ([.empty (.ofIndex 1)], after) := ⟨_, rfl⟩
  have hf := file?_holding (DataFile.empty.resize 1)
  have hv : ∀ page ∈ [Page.empty (.ofIndex 1)], page.id.IsValid :=
    List.forall_mem_singleton.mpr (by decide)
  have hn : (holding (DataFile.empty.resize 1)).readPage ["data"] (.ofIndex 0) =
      .error (.pageNotFound (.ofIndex 0)) := by
    rw [readPage_of_file? hf (by decide)]
    rfl
  have hl : ∀ page ∈ [Page.empty (.ofIndex 1)], page.id ≠ .ofIndex 0 :=
    List.forall_mem_singleton.mpr (by decide)
  refine ⟨after, hw, fun page hpage => ?_⟩
  obtain ⟨-, hsound, -⟩ := (readPage_writePages_torn hf hv hw hn hl).1.mp ⟨page, hpage⟩
  rw [DataFile.tail_resize_empty] at hsound
  exact Header.not_hasMagic_blank hsound.1

/-- The front of a page as far as its header is no page when the file ends there, and a page when
the file has grown past it, without ever being written as one. -/
theorem torn_tail_read :
    ∃ file after page, file = (DataFile.empty.write (.empty (.ofIndex 0))).resize headerSize ∧
      (holding file).readPage ["data"] (.ofIndex 0) = .error (.pageNotFound (.ofIndex 0)) ∧
      (holding file).writePages ["data"] [.empty (.ofIndex 1)] =
        ([.empty (.ofIndex 1)], after) ∧
      after.readPage ["data"] (.ofIndex 0) = .ok page := by
  generalize hfile : (DataFile.empty.write (.empty (.ofIndex 0))).resize headerSize = file
  have hf := file?_holding file
  have hcount : file.pageCount = 0 := by
    rw [← hfile]
    rfl
  obtain ⟨after, hw⟩ : ∃ after, (holding file).writePages ["data"] [.empty (.ofIndex 1)] =
      ([.empty (.ofIndex 1)], after) := ⟨_, rfl⟩
  have hv : ∀ page ∈ [Page.empty (.ofIndex 1)], page.id.IsValid :=
    List.forall_mem_singleton.mpr (by decide)
  have hl : ∀ page ∈ [Page.empty (.ofIndex 1)], page.id ≠ .ofIndex 0 :=
    List.forall_mem_singleton.mpr (by decide)
  have hsound : (Header.ofImage (file.block 0)).Sound := by
    have hfront : Header.ofImage (file.block 0) =
        Header.ofImage (Page.empty (.ofIndex 0)).image := by
      apply Header.ofImage_congr
      intro i hi hlt
      rw [← hfile, DataFile.getElem_block_resize hi, if_pos (by omega),
        DataFile.block_write (by decide)]
      rfl
    rw [hfront]
    exact (Page.empty _).sound
  have hle : file.pageCount ≤ (PageId.ofIndex 0).index := hcount.le
  have hread := readPage_writePages_of_pageCount_le hf hv hw (by decide) hle hl
  rw [if_pos ⟨_, List.mem_singleton_self _, by decide⟩] at hread
  obtain ⟨page, hpage⟩ := Page.exists_ofImage_iff.mpr hsound
  refine ⟨file, after, page, rfl, ?_, hw, hread.trans hpage⟩
  rw [readPage_of_file? hf (by decide), DataFile.read, hcount]
  rfl

end

end Volume

end PagedStorage
