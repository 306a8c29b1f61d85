import Mathlib.Data.List.Basic
import PagedStorage.Heap.Basic
import PagedStorage.Proofs.Page.Rows
import PagedStorage.Proofs.Pool.Newest

namespace PagedStorage

namespace Heap

def pageEntries (index : Nat) (rows : List Row) : List (RecordId × Row) :=
  rows.zipIdx.map fun (row, slot) => (⟨.ofIndex index, slot⟩, row)

def entriesFrom (first : Nat) : List (List Row) → List (RecordId × Row)
  | [] => []
  | rows :: pages => pageEntries first rows ++ entriesFrom (first + 1) pages

def ofPages (pages : List (List Row)) : Heap :=
  match pages.length with
  | 0 => ⟨none⟩
  | last + 1 => ⟨some (.ofIndex last)⟩

/-- The images that `find` gives are pages with these rows, none of them empty, and no others. -/
structure Laid (find : PageId → Option Page) (pages : List (List Row)) : Prop where
  nonempty : ∀ rows ∈ pages, rows ≠ []
  length_le : pages.length ≤ 4294967295
  page : ∀ id : PageId, Option.Rel Page.Holds (find id) pages[id.index]?

section

variable {find after : PageId → Option Page} {pages front tail : List (List Row)}
  {rows : List Row} {row : Row} {page : Page} {id : PageId}

theorem entriesFrom_append (first : Nat) (pages more : List (List Row)) :
    entriesFrom first (pages ++ more) =
      entriesFrom first pages ++ entriesFrom (first + pages.length) more := by
  induction pages generalizing first with
  | nil => rfl
  | cons rows pages ih =>
    rw [List.cons_append, entriesFrom, entriesFrom, ih, List.append_assoc, List.length_cons,
      Nat.add_assoc, Nat.add_comm 1]

theorem pageEntries_concat (index : Nat) (rows : List Row) (row : Row) :
    pageEntries index (rows ++ [row]) =
      pageEntries index rows ++ [(⟨.ofIndex index, rows.length⟩, row)] := by
  simp [pageEntries, List.zipIdx_append]

theorem entriesFrom_concat (front : List (List Row)) (rows : List Row) :
    entriesFrom 0 (front ++ [rows]) = entriesFrom 0 front ++ pageEntries front.length rows := by
  rw [entriesFrom_append, Nat.zero_add, entriesFrom, entriesFrom, List.append_nil]

theorem mem_pageEntries {index : Nat} {record : RecordId}
    (h : (record, row) ∈ pageEntries index rows) :
    record.page = .ofIndex index ∧ rows[record.slot]? = some row := by
  simp only [pageEntries, List.mem_map, Prod.exists, Prod.mk.injEq] at h
  obtain ⟨other, slot, hmem, rfl, rfl⟩ := h
  exact ⟨rfl, List.mem_zipIdx_iff_getElem?.mp hmem⟩

theorem mem_entriesFrom {first : Nat} {record : RecordId}
    (h : (record, row) ∈ entriesFrom first pages) :
    ∃ index rows, pages[index]? = some rows ∧ record.page = .ofIndex (first + index) ∧
      rows[record.slot]? = some row := by
  induction pages generalizing first with
  | nil => cases h
  | cons rows pages ih =>
    rcases List.mem_append.mp h with hfirst | hrest
    · exact ⟨0, rows, rfl, mem_pageEntries hfirst⟩
    · obtain ⟨index, other, hother, hpage, hrow⟩ := ih hrest
      refine ⟨index + 1, other, hother, ?_, hrow⟩
      rw [hpage, Nat.add_assoc, Nat.add_comm 1]

theorem ofPages_concat (front : List (List Row)) (rows : List Row) :
    ofPages (front ++ [rows]) = ⟨some (.ofIndex front.length)⟩ := by
  rw [ofPages, List.length_append, List.length_singleton]

theorem newPage_ofPages (h : pages.length ≤ 4294967295) :
    (ofPages pages).newPage = .ofIndex pages.length := by
  obtain rfl | ⟨front, rows, rfl⟩ := List.eq_nil_or_concat pages
  · rfl
  · rw [List.concat_eq_append] at h ⊢
    rw [List.length_append, List.length_singleton] at h
    rw [ofPages_concat, List.length_append, List.length_singleton]
    apply PageId.index_injective
    have hindex : (PageId.ofIndex front.length).index = front.length :=
      PageId.index_ofIndex (by omega)
    have hvalid : (PageId.ofIndex front.length).IsValid := by
      rw [PageId.isValid_iff, hindex]
      omega
    show (PageId.ofIndex front.length).next.index = _
    rw [PageId.index_next hvalid, hindex, PageId.index_ofIndex (by omega)]

/-- The last page is the one of the last row. -/
theorem lastPage_ofPages (hne : ∀ rows ∈ pages, rows ≠ []) :
    (ofPages pages).lastPage = (entriesFrom 0 pages).getLast?.map fun entry => entry.1.page := by
  obtain rfl | ⟨front, rows, rfl⟩ := List.eq_nil_or_concat pages
  · rfl
  · rw [List.concat_eq_append] at hne ⊢
    obtain rfl | ⟨init, row, rfl⟩ := List.eq_nil_or_concat rows
    · exact absurd rfl (hne [] (List.mem_append_right front (List.mem_singleton_self [])))
    · rw [List.concat_eq_append, ofPages_concat, entriesFrom_concat, pageEntries_concat,
        ← List.append_assoc, List.getLast?_concat]
      rfl

namespace Laid

theorem congr (h : Laid find pages) (hf : ∀ id, after id = find id) : Laid after pages :=
  ⟨h.nonempty, h.length_le, fun id => hf id ▸ h.page id⟩

theorem exists_rows (h : Laid find pages) (hp : find id = some page) :
    ∃ rows, pages[id.index]? = some rows ∧ page.Holds rows := by
  have hrel := h.page id
  rw [hp] at hrel
  cases hget : pages[id.index]? with
  | none =>
    rw [hget] at hrel
    cases hrel
  | some rows =>
    rw [hget] at hrel
    cases hrel with
    | some hholds => exact ⟨rows, rfl, hholds⟩

theorem exists_page (h : Laid find pages) (hi : id.index < pages.length) :
    ∃ page, find id = some page := by
  have hrel := h.page id
  rw [List.getElem?_eq_getElem hi] at hrel
  cases hfind : find id with
  | none =>
    rw [hfind] at hrel
    cases hrel
  | some page => exact ⟨page, rfl⟩

/-- The last page gets other rows, or a new page comes behind it. -/
theorem put (h : Laid find (front ++ tail)) (htail : tail.length ≤ 1) (hp : page.Holds rows)
    (hne : rows ≠ []) (hlt : front.length < 4294967295)
    (hafter : ∀ id, after id = if PageId.ofIndex front.length = id then some page else find id) :
    Laid after (front ++ [rows]) where
  nonempty other hmem := by
    rcases List.mem_append.mp hmem with hfront | hlast
    · exact h.nonempty other (List.mem_append_left tail hfront)
    · rwa [List.mem_singleton.mp hlast]
  length_le := by
    rw [List.length_append, List.length_singleton]
    omega
  page id := by
    have hindex : (PageId.ofIndex front.length).index = front.length :=
      PageId.index_ofIndex (by omega)
    have hrel := h.page id
    rw [hafter]
    split
    · rename_i hid
      rw [← hid, hindex, List.getElem?_concat_length]
      exact .some hp
    · rename_i hid
      have hne : id.index ≠ front.length := by
        intro he
        exact hid (PageId.index_injective (hindex.trans he.symm))
      by_cases hi : id.index < front.length
      · rw [List.getElem?_append_left hi] at hrel ⊢
        exact hrel
      · -- Behind the page that is put there is nothing, neither before nor after.
        rw [List.getElem?_eq_none (by rw [List.length_append]; omega)] at hrel
        rw [List.getElem?_eq_none (by rw [List.length_append, List.length_singleton]; omega)]
        exact hrel

end Laid

end

/-- The rows of a heap, page by page, as they are in a pool. -/
structure Stored (heap : Heap) (pool : Pool) (pages : List (List Row)) : Prop where
  handle : heap = ofPages pages
  coherent : pool.Coherent
  laid : Laid pool.page? pages

section

open Pool

variable {heap left : Heap} {pool after : Pool} {pages : List (List Row)} {row : Row}
  {record : RecordId} {bytes : List UInt8} {e : StorageError}

/-- What gives no page a new image keeps the rows. -/
theorem Stored.of_becomes (h : heap.Stored pool pages) (hb : pool.Becomes after noImages) :
    heap.Stored after pages :=
  ⟨h.handle, hb.coherent, h.laid.congr fun id => hb.page? id⟩

theorem insertOnNewPage_ok (h : heap.Stored pool pages) (he : row.encode = .ok bytes)
    (hi : heap.insertOnNewPage pool bytes = (.ok record, left, after)) :
    ∃ pages', left.Stored after pages' ∧
      entriesFrom 0 pages' = entriesFrom 0 pages ++ [(record, row)] := by
  obtain ⟨rfl, hc, hl⟩ := h
  rw [insertOnNewPage, newPage_ofPages hl.length_le] at hi
  split at hi
  · cases hi
  · rename_i slot page ha
    split at hi
    · cases hi
    · rename_i hu
      cases hi
      obtain ⟨rfl, hholds⟩ := (Page.holds_empty (.ofIndex pages.length)).append he ha
      obtain ⟨hafter, hpage⟩ := page?_updatePage_of_ok hc hu
      -- The update has succeeded, so the id behind the last page can name one.
      have hvalid : (PageId.ofIndex pages.length).IsValid :=
        (isValid_of_page? hafter ((hpage _).trans (if_pos rfl))).1
      rw [PageId.isValid_iff, PageId.index_ofIndex (Nat.lt_succ_of_le hl.length_le)] at hvalid
      refine ⟨pages ++ [[row]], ⟨(ofPages_concat pages [row]).symm, hafter, ?_⟩, ?_⟩
      · rw [← List.append_nil pages] at hl
        exact hl.put (Nat.zero_le _) hholds (List.cons_ne_nil _ _) hvalid hpage
      · rw [entriesFrom_concat]
        rfl

theorem insertOnNewPage_error (hc : pool.Coherent)
    (hi : heap.insertOnNewPage pool bytes = (.error e, left, after)) :
    left = heap ∧ pool.Becomes after noImages := by
  rw [insertOnNewPage] at hi
  split at hi
  · cases hi
    exact ⟨rfl, .refl hc⟩
  · split at hi
    · rename_i hu
      cases hi
      exact ⟨rfl, becomes_updatePage hc hu⟩
    · cases hi

/-- A written row goes to the last page, or else to a new one. -/
theorem insertBytes_ok (h : heap.Stored pool pages) (he : row.encode = .ok bytes)
    (hi : heap.insertBytes pool bytes = (.ok record, left, after)) :
    ∃ pages', left.Stored after pages' ∧
      entriesFrom 0 pages' = entriesFrom 0 pages ++ [(record, row)] := by
  obtain rfl | ⟨front, rows, rfl⟩ := List.eq_nil_or_concat pages
  · have hnone : heap.lastPage = none := by
      rw [h.handle]
      rfl
    rw [insertBytes, hnone] at hi
    exact insertOnNewPage_ok h he hi
  · rw [List.concat_eq_append] at h ⊢
    have hlast : heap.lastPage = some (.ofIndex front.length) := by
      rw [h.handle, ofPages_concat]
    have hlength := h.laid.length_le
    rw [List.length_append, List.length_singleton] at hlength
    rw [insertBytes, hlast] at hi
    dsimp only at hi
    split at hi
    · cases hi
    · rename_i frame read hg
      have hread := h.of_becomes (becomes_getPage h.coherent hg)
      split at hi
      · rename_i slot page ha
        split at hi
        · cases hi
        · rename_i hu
          cases hi
          -- What was read is the page that the heap is stored with, rows included.
          obtain ⟨old, hold, hholds⟩ := h.laid.exists_rows (page?_of_getPage_ok hg)
          rw [PageId.index_ofIndex (by omega), List.getElem?_concat_length] at hold
          cases hold
          obtain ⟨rfl, hnew⟩ := hholds.append he ha
          obtain ⟨hafter, hpage⟩ := page?_updatePage_of_ok hread.coherent hu
          refine ⟨front ++ [rows ++ [row]], ⟨?_, hafter, ?_⟩, ?_⟩
          · rw [h.handle, ofPages_concat, ofPages_concat]
          · exact hread.laid.put (Nat.le_refl 1) hnew (List.append_ne_nil_of_right_ne_nil _ nofun)
              hlength hpage
          · rw [entriesFrom_concat, entriesFrom_concat, pageEntries_concat, List.append_assoc]
      · split at hi
        · -- The last page is full, and reading it has changed nothing.
          exact insertOnNewPage_ok hread he hi
        · cases hi

theorem insertBytes_error (hc : pool.Coherent)
    (hi : heap.insertBytes pool bytes = (.error e, left, after)) :
    left = heap ∧ pool.Becomes after noImages := by
  unfold insertBytes at hi
  split at hi
  · exact insertOnNewPage_error hc hi
  · rename_i last hlast
    split at hi
    · rename_i hg
      cases hi
      exact ⟨rfl, becomes_getPage hc hg⟩
    · rename_i hg
      have hb := becomes_getPage hc hg
      split at hi
      · split at hi
        · rename_i hu
          cases hi
          exact ⟨rfl, hb.trans_noImages (becomes_updatePage hb.coherent hu)⟩
        · cases hi
      · split at hi
        · obtain ⟨hsame, hrest⟩ := insertOnNewPage_error hb.coherent hi
          exact ⟨hsame, hb.trans_noImages hrest⟩
        · cases hi
          exact ⟨rfl, hb⟩

/-- A row that is inserted comes last, under the record id that is answered. -/
theorem insert_ok (h : heap.Stored pool pages)
    (hi : heap.insert pool row = (.ok record, left, after)) :
    ∃ pages', left.Stored after pages' ∧
      entriesFrom 0 pages' = entriesFrom 0 pages ++ [(record, row)] := by
  unfold insert at hi
  split at hi
  · cases hi
  · rename_i bytes he
    split at hi
    · exact insertBytes_ok h he hi
    · cases hi

/-- An insert that fails changes neither the handle nor the image of any page. -/
theorem insert_error (hc : pool.Coherent) (hi : heap.insert pool row = (.error e, left, after)) :
    left = heap ∧ pool.Becomes after noImages := by
  unfold insert at hi
  split at hi
  · cases hi
    exact ⟨rfl, .refl hc⟩
  · split at hi
    · exact insertBytes_error hc hi
    · cases hi
      exact ⟨rfl, .refl hc⟩

end

end Heap

end PagedStorage
