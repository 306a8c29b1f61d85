import Mathlib.Data.List.Induction
import Mathlib.Order.Lattice
import PagedStorage.Proofs.Disk.Blocks
import PagedStorage.Proofs.Disk.Destination

namespace PagedStorage

def latest? (pages : List Page) (id : PageId) : Option Page :=
  pages.reverse.find? fun page => page.id = id

section

variable {pages : List Page} {page : Page} {id : PageId}

theorem latest?_concat (pages : List Page) (page : Page) (id : PageId) :
    latest? (pages ++ [page]) id = if page.id = id then some page else latest? pages id := by
  rw [latest?, List.reverse_concat, List.find?_cons]
  by_cases h : page.id = id
  · simp [h]
  · simp [h, latest?]

theorem mem_of_latest? (h : latest? pages id = some page) : page ∈ pages ∧ page.id = id := by
  constructor
  · exact List.mem_reverse.mp (List.mem_of_find?_eq_some h)
  · simpa using List.find?_some h

end

namespace DataFile

section

variable {file : DataFile} {pages : List Page} {id : PageId}

theorem block_write {page : Page} (hv : page.id.IsValid) (index : Nat) :
    (file.write page).block index =
      if page.id.index = index then page.image else file.block index := by
  rw [write_of_isValid file hv, block_writeAt]

theorem size_write {page : Page} (hv : page.id.IsValid) :
    (file.write page).size = max file.size (pageSize * (page.id.index + 1)) := by
  rw [write_of_isValid file hv, writeAt]
  simp only [Nat.mul_succ, Nat.mul_comm]

/-- Where a page was written its last image stands, and elsewhere what stood there before. -/
theorem block_foldl_write (hv : ∀ page ∈ pages, page.id.IsValid) (id : PageId) :
    (pages.foldl write file).block id.index =
      ((latest? pages id).map Page.image).getD (file.block id.index) := by
  -- From the back, for the last page with an id is the one that counts.
  induction pages using List.reverseRecOn with
  | nil => rfl
  | append_singleton pages page ih =>
    have hpage : page.id.IsValid := hv page (by simp)
    have hpages : ∀ other ∈ pages, other.id.IsValid := fun other hmem => hv other (by simp [hmem])
    rw [List.foldl_append, List.foldl_cons, List.foldl_nil, block_write hpage, latest?_concat,
      ih hpages]
    by_cases h : page.id = id
    · rw [if_pos h, if_pos (congrArg PageId.index h)]
      rfl
    · rw [if_neg h, if_neg (mt PageId.index_injective h)]

theorem isWhole_foldl_write (hw : file.IsWhole) (hv : ∀ page ∈ pages, page.id.IsValid) :
    (pages.foldl write file).IsWhole := by
  induction pages generalizing file with
  | nil => exact hw
  | cons page pages ih =>
    obtain ⟨hpage, hpages⟩ := List.forall_mem_cons.mp hv
    exact ih (isWhole_write hw hpage) hpages

theorem size_foldl_write_le_iff (hv : ∀ page ∈ pages, page.id.IsValid) {size : Nat} :
    (pages.foldl write file).size ≤ size ↔
      file.size ≤ size ∧ ∀ page ∈ pages, pageSize * (page.id.index + 1) ≤ size := by
  induction pages generalizing file with
  | nil => simp
  | cons page pages ih =>
    obtain ⟨hpage, hpages⟩ := List.forall_mem_cons.mp hv
    rw [List.foldl_cons, ih hpages, size_write hpage, Nat.max_le, List.forall_mem_cons, and_assoc]

/-- The file reaches as far as the page with the largest id, or further if it did before. -/
theorem size_foldl_write (hv : ∀ page ∈ pages, page.id.IsValid) {last : Page} (hl : last ∈ pages)
    (hmax : ∀ page ∈ pages, page.id.index ≤ last.id.index) :
    (pages.foldl write file).size = max file.size (pageSize * (last.id.index + 1)) := by
  apply eq_of_forall_ge_iff
  intro size
  rw [size_foldl_write_le_iff hv, Nat.max_le]
  constructor
  · rintro ⟨hfile, hpages⟩
    exact ⟨hfile, hpages last hl⟩
  · rintro ⟨hfile, hlast⟩
    refine ⟨hfile, ?_⟩
    intro page hmem
    have hle := hmax page hmem
    exact (Nat.mul_le_mul_left pageSize (Nat.succ_le_succ hle)).trans hlast

theorem pageCount_foldl_write (hv : ∀ page ∈ pages, page.id.IsValid) {last : Page}
    (hl : last ∈ pages) (hmax : ∀ page ∈ pages, page.id.index ≤ last.id.index) :
    (pages.foldl write file).pageCount = max file.pageCount (last.id.index + 1) := by
  rw [pageCount, size_foldl_write hv hl hmax, pageCount]
  simp only [pageSize]
  omega

theorem lt_pageCount_foldl_write (hv : ∀ page ∈ pages, page.id.IsValid) {index : Nat} :
    index < (pages.foldl write file).pageCount ↔
      index < file.pageCount ∨ ∃ page ∈ pages, index ≤ page.id.index := by
  induction pages generalizing file with
  | nil => simp
  | cons page pages ih =>
    obtain ⟨hpage, hpages⟩ := List.forall_mem_cons.mp hv
    rw [List.foldl_cons, ih hpages, write_of_isValid file hpage, pageCount_writeAt, lt_sup_iff,
      Nat.lt_succ_iff, or_assoc]
    simp only [List.mem_cons, exists_eq_or_imp]

theorem read_foldl_write_of_latest? {page : Page} (hv : ∀ page ∈ pages, page.id.IsValid)
    (hl : latest? pages id = some page) : (pages.foldl write file).read id = .ok page := by
  obtain ⟨hmem, rfl⟩ := mem_of_latest? hl
  have hlt : page.id.index < (pages.foldl write file).pageCount := by
    have hsize : pageSize * (page.id.index + 1) ≤ (pages.foldl write file).size :=
      ((size_foldl_write_le_iff hv).mp le_rfl).2 page hmem
    rw [lt_pageCount_iff, Nat.mul_comm]
    exact hsize
  rw [read, if_pos hlt, block_foldl_write hv, hl]
  exact Page.ofImage_image page

theorem read_foldl_write_of_lt (hv : ∀ page ∈ pages, page.id.IsValid)
    (hl : latest? pages id = none) (hlt : id.index < file.pageCount) :
    (pages.foldl write file).read id = file.read id := by
  have hgrown : id.index < (pages.foldl write file).pageCount := by
    have hsize : file.size ≤ (pages.foldl write file).size :=
      ((size_foldl_write_le_iff hv).mp le_rfl).1
    exact hlt.trans_le (Nat.div_le_div_right hsize)
  rw [read, read, if_pos hgrown, if_pos hlt, block_foldl_write hv, hl]
  rfl

/-- A gap reads as zeros, which spell no page. -/
theorem read_foldl_write_of_gap (hw : file.IsWhole) (hv : ∀ page ∈ pages, page.id.IsValid)
    (hl : latest? pages id = none) (hle : file.pageCount ≤ id.index)
    (hlt : id.index < (pages.foldl write file).pageCount) :
    (pages.foldl write file).read id = .error (.format (.badMagic id 0)) := by
  rw [read, if_pos hlt, block_foldl_write hv, hl, Option.map_none, Option.getD_none,
    block_of_pageCount_le hw hle]
  exact Page.ofImage_blank id

end

end DataFile

namespace Volume

/-- Writes pages into a file one after another. Those whose write succeeds are told, in order. -/
def writePages (volume : Volume) (path : Path) : List Page → List Page × Volume
  | [] => ([], volume)
  | page :: pages =>
    match volume.writePage path page with
    | (.ok (), volume) =>
      let (written, volume) := volume.writePages path pages
      (page :: written, volume)
    | (.error _, volume) => volume.writePages path pages

def contents (volume : Volume) (path : Path) : DataFile := (volume.file? path).getD DataFile.empty

section

variable {volume after : Volume} {path : Path} {pages written : List Page} {id : PageId}
  {file : DataFile}

theorem readPage_of_file? (hf : volume.file? path = some file) (hv : id.IsValid) :
    volume.readPage path id = file.read id := by
  rw [readPage, if_pos hv, file?_eq_some_iff.mp hf]

theorem pageCount_of_file? (hf : volume.file? path = some file) :
    volume.pageCount path = .ok (UInt32.ofNat file.pageCount) := by
  rw [pageCount, file?_eq_some_iff.mp hf]

theorem sublist_writePages (h : volume.writePages path pages = (written, after)) :
    written.Sublist pages := by
  induction pages generalizing volume written with
  | nil =>
    cases h
    exact .slnil
  | cons page pages ih =>
    rw [writePages] at h
    split at h
    · cases h
      exact (ih rfl).cons_cons page
    · exact (ih h).cons page

theorem file?_eq_some_contents (h : volume.file? path ≠ none) :
    volume.file? path = some (volume.contents path) := by
  obtain ⟨file, hf⟩ := Option.ne_none_iff_exists'.mp h
  rw [contents, hf]
  rfl

theorem file?_ne_none_of_pageCount (h : 0 < (volume.contents path).pageCount) :
    volume.file? path ≠ none := by
  intro hn
  rw [contents, hn, Option.getD_none, DataFile.pageCount_empty] at h
  exact Nat.lt_irrefl 0 h

/-- The writes that succeed make the file of the one that was there, or of nothing. -/
theorem contents_writePages (hr : volume.Reveals path)
    (h : volume.writePages path pages = (written, after)) :
    after.contents path = written.foldl DataFile.write (volume.contents path) ∧
      (after.file? path = none ↔ written = [] ∧ volume.file? path = none) := by
  induction pages generalizing volume written with
  | nil =>
    cases h
    exact ⟨rfl, by simp⟩
  | cons page pages ih =>
    rw [writePages] at h
    split at h
    · rename_i next hwrite
      -- What was written may be the first page of the file; either way the next write finds it.
      obtain ⟨hfile, hnext⟩ := file?_modify_of_ok hr hwrite
      rcases hrest : next.writePages path pages with ⟨rest, last⟩
      rw [hrest] at h
      cases h
      obtain ⟨hcontents, hnone⟩ := ih hnext hrest
      constructor
      · rw [hcontents, contents, hfile]
        rfl
      · rw [hnone, hfile]
        simp
    · rename_i next hwrite
      have hnext := reveals_modify_of_error hr hwrite
      have hfile := file?_modify_of_error hwrite
      have hcontents : next.contents path = volume.contents path := by
        rw [contents, contents, hfile]
      rw [← hfile, ← hcontents]
      exact ih hnext h

theorem file?_writePages (hr : volume.Reveals path)
    (h : volume.writePages path pages = (written, after))
    (hs : written ≠ [] ∨ volume.file? path ≠ none) :
    after.file? path = some (written.foldl DataFile.write (volume.contents path)) := by
  obtain ⟨hcontents, hnone⟩ := contents_writePages hr h
  have hthere : after.file? path ≠ none := by
    rw [Ne, hnone, not_and_or]
    exact hs
  rw [file?_eq_some_contents hthere, hcontents]

/-- A path that leads to a file, or to a place for one, takes every page. -/
theorem writePages_of_target? {location : Location}
    (ht : (volume.find path).target? = some location)
    (h : volume.writePages path pages = (written, after)) : written = pages := by
  induction pages generalizing volume written location with
  | nil =>
    cases h
    rfl
  | cons page pages ih =>
    have hwrite := modify_of_target? ht fun file => file.write page
    obtain ⟨there, -, hfile⟩ := find_modify hwrite
    rw [writePages, writePage, hwrite] at h
    simp only at h
    cases h
    rw [ih (congrArg Place.target? hfile) rfl]

/-- The file is a map from ids to pages. Pages are written into it one after another, and those
whose write succeeds are told in `written`; that is all of them where the path leads to a file or a
place for one. Then each of them is read as it was written last. A page that the file had before and
that was not among them is read as before. Of all other ids those below the largest one written are
gaps, which are no pages, and those above it are not found; and the file ends with the largest page,
or where it ended before if that is further. A file that was missing had no page and no size. -/
theorem readPage_writePages (hr : volume.Reveals path) (hw : (volume.contents path).IsWhole)
    (hv : ∀ page ∈ pages, page.id.IsValid)
    (h : volume.writePages path pages = (written, after)) :
    (∀ location, (volume.find path).target? = some location → written = pages) ∧
    (∀ id page, latest? written id = some page → after.readPage path id = .ok page) ∧
    (∀ id, latest? written id = none → id.index < (volume.contents path).pageCount →
      after.readPage path id = volume.readPage path id) ∧
    ∀ last ∈ written, (∀ page ∈ written, page.id.index ≤ last.id.index) →
      (∀ id, latest? written id = none → (volume.contents path).pageCount ≤ id.index →
        id.index < last.id.index → after.readPage path id = .error (.format (.badMagic id 0))) ∧
      (∀ id, id.IsValid → (volume.contents path).pageCount ≤ id.index →
        last.id.index < id.index → after.readPage path id = .error (.pageNotFound id)) ∧
      (after.contents path).size =
        max (volume.contents path).size (pageSize * (last.id.index + 1)) ∧
      ((volume.contents path).pageCount < 4294967296 →
        ∃ count, after.pageCount path = .ok count ∧
          pageSize * count.toNat = (after.contents path).size) := by
  have hwritten : ∀ page ∈ written, page.id.IsValid :=
    fun page hmem => hv page ((sublist_writePages h).mem hmem)
  refine ⟨fun location ht => writePages_of_target? ht h, ?_, ?_, ?_⟩
  · intro id page hl
    obtain ⟨hmem, rfl⟩ := mem_of_latest? hl
    have hfile := file?_writePages hr h (Or.inl (List.ne_nil_of_mem hmem))
    rw [readPage_of_file? hfile (hwritten page hmem)]
    exact DataFile.read_foldl_write_of_latest? hwritten hl
  · intro id hl hlt
    -- Nothing need have been written here: the file was there before, or it had no such page.
    have hformer := file?_ne_none_of_pageCount (Nat.zero_lt_of_lt hlt)
    have hfile := file?_writePages hr h (Or.inr hformer)
    by_cases hid : id.IsValid
    · rw [readPage_of_file? hfile hid, readPage_of_file? (file?_eq_some_contents hformer) hid]
      exact DataFile.read_foldl_write_of_lt hwritten hl hlt
    · rw [readPage, readPage, if_neg hid, if_neg hid]
  · intro last hmem hmax
    have hfile := file?_writePages hr h (Or.inl (List.ne_nil_of_mem hmem))
    have hcount : (written.foldl DataFile.write (volume.contents path)).pageCount =
        max (volume.contents path).pageCount (last.id.index + 1) :=
      DataFile.pageCount_foldl_write hwritten hmem hmax
    have hlast := PageId.isValid_iff.mp (hwritten last hmem)
    refine ⟨?_, ?_, ?_, ?_⟩
    · intro id hl hle hlt
      have hid : id.IsValid := PageId.isValid_iff.mpr (hlt.trans hlast)
      rw [readPage_of_file? hfile hid]
      exact DataFile.read_foldl_write_of_gap hw hwritten hl hle (by omega)
    · intro id hid hle hlt
      rw [readPage_of_file? hfile hid, DataFile.read, if_neg (by omega)]
    · rw [(contents_writePages hr h).1]
      exact DataFile.size_foldl_write hwritten hmem hmax
    · intro hsmall
      refine ⟨_, pageCount_of_file? hfile, ?_⟩
      have hwhole := DataFile.isWhole_foldl_write hw hwritten
      have hlt : (written.foldl DataFile.write (volume.contents path)).pageCount < 4294967296 := by
        omega
      rw [(contents_writePages hr h).1, UInt32.toNat_ofNat_of_lt' hlt]
      exact Nat.mul_div_cancel' (Nat.dvd_of_mod_eq_zero hwhole)

/-- A page in front of the only one that was written is a gap. -/
theorem readPage_writePages_gap :
    ∃ after, Volume.empty.writePages ["data"] [.empty (.ofIndex 2), .empty (.ofIndex 2)] =
        ([.empty (.ofIndex 2), .empty (.ofIndex 2)], after) ∧
      after.readPage ["data"] (.ofIndex 2) = .ok (.empty (.ofIndex 2)) ∧
      after.readPage ["data"] (.ofIndex 1) = .error (.format (.badMagic (.ofIndex 1) 0)) ∧
      after.readPage ["data"] (.ofIndex 3) = .error (.pageNotFound (.ofIndex 3)) ∧
      (after.contents ["data"]).size = 3 * pageSize := by
  refine ⟨_, rfl, ?_⟩
  have hr : empty.Reveals ["data"] := reveals_of_no_file (node?_empty_ne_file _)
  have hv : ∀ page ∈ [Page.empty (.ofIndex 2), .empty (.ofIndex 2)], page.id.IsValid := by
    simp only [List.mem_cons, List.not_mem_nil, or_false, or_self]
    rintro page rfl
    decide
  obtain ⟨-, hlatest, -, hlast⟩ := readPage_writePages hr DataFile.isWhole_empty hv rfl
  obtain ⟨hgap, hpast, hsize, -⟩ := hlast (.empty (.ofIndex 2)) (by simp) (by simp)
  refine ⟨hlatest _ _ rfl, ?_, ?_, hsize⟩
  · exact hgap (.ofIndex 1) rfl (by decide) (by decide)
  · exact hpast (.ofIndex 3) (by decide) (by decide) (by decide)

end

end Volume

end PagedStorage
