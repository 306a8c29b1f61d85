import PagedStorage.Heap.Scan
import PagedStorage.Proofs.Page.Append
import PagedStorage.Proofs.Pool.Presents

namespace PagedStorage

open Pool

abbrev Pages := List Page

namespace Pages

def lookUp (pages : Pages) (id : PageId) : Except StorageError Page :=
  match pages[id.index]? with
  | some page => .ok page
  | none => .error (.pageNotFound id)

def put (pages : Pages) (id : PageId) (page : Page) : Pages :=
  pages.take id.index ++ page :: pages.drop (id.index + 1)

def get (pages : Pages) (record : RecordId) : Except StorageError (Option Row) :=
  match answerOf pages.lookUp record.page with
  | .error e => .error e
  | .ok page => page.row record.slot

def insertOnNewPage (pages : Pages) (heap : Heap) (bytes : List UInt8) :
    Except StorageError RecordId × Heap × Pages :=
  match (Page.empty heap.newPage).append bytes with
  | .error e => (.error e, heap, pages)
  | .ok (slot, page) =>
    if heap.newPage.IsValid then
      (.ok ⟨heap.newPage, slot⟩, ⟨some heap.newPage⟩, pages.put heap.newPage page)
    else (.error (.invalidArgument (.notAddressable heap.newPage)), heap, pages)

def insertBytes (pages : Pages) (heap : Heap) (bytes : List UInt8) :
    Except StorageError RecordId × Heap × Pages :=
  match heap.lastPage with
  | none => pages.insertOnNewPage heap bytes
  | some last =>
    match answerOf pages.lookUp last with
    | .error e => (.error e, heap, pages)
    | .ok page =>
      match page.append bytes with
      | .ok (slot, page) => (.ok ⟨last, slot⟩, heap, pages.put last page)
      | .error _ => pages.insertOnNewPage heap bytes

def insert (pages : Pages) (heap : Heap) (row : Row) :
    Except StorageError RecordId × Heap × Pages :=
  match row.encode with
  | .error e => (.error e, heap, pages)
  | .ok bytes =>
    if bytes.length ≤ maxTupleSize then pages.insertBytes heap bytes
    else (.error (.invalidArgument (.rowTooLong bytes.length)), heap, pages)

/-- What a scan answers of pages that are numbered from `first` on. Behind the last page there is
none, unless no id is left to ask for one. -/
def answersFrom (first : Nat) : Pages → List (Except StorageError (RecordId × Row))
  | [] =>
    if first < 4294967295 then []
    else [.error (.invalidArgument (.notAddressable (.ofIndex first)))]
  | page :: pages =>
    match page.liveRows with
    | .error e => [.error e]
    | .ok rows =>
      (rows.map fun (slot, row) => .ok (⟨.ofIndex first, slot⟩, row)) ++
        answersFrom (first + 1) pages

def ahead (pages : Pages) (scan : Scan) : List (Except StorageError (RecordId × Row)) :=
  if scan.finished then []
  else scan.pending.map .ok ++ answersFrom scan.nextPage.index (pages.drop scan.nextPage.index)

inductive InsertOutcome (pages : Pages) (heap : Heap) (row : Row) :
    Except StorageError RecordId × Heap × Pages → Prop
  | refused (e : StorageError) : InsertOutcome pages heap row (.error e, heap, pages)
  | added (last : PageId) (page after : Page) (bytes : List UInt8) (slot : Nat)
      (hlast : heap.lastPage = some last) (hpage : pages[last.index]? = some page)
      (hv : last.IsValid) (he : row.encode = .ok bytes)
      (ha : page.append bytes = .ok (slot, after)) :
      InsertOutcome pages heap row (.ok ⟨last, slot⟩, heap, pages.put last after)
  | started (after : Page) (bytes : List UInt8) (slot : Nat) (hv : heap.newPage.IsValid)
      (he : row.encode = .ok bytes)
      (ha : (Page.empty heap.newPage).append bytes = .ok (slot, after)) :
      InsertOutcome pages heap row
        (.ok ⟨heap.newPage, slot⟩, ⟨some heap.newPage⟩, pages.put heap.newPage after)

section

variable {pages : Pages} {id other : PageId} {page : Page}

theorem lookUp_eq_ok_iff : pages.lookUp id = .ok page ↔ pages[id.index]? = some page := by
  rw [lookUp]
  cases pages[id.index]? <;> simp

theorem isValid_of_getElem? {index : Nat} (hl : pages.length ≤ 4294967295)
    (hp : pages[index]? = some page) :
    (PageId.ofIndex index).index = index ∧ (PageId.ofIndex index).IsValid := by
  have hlt := (List.getElem?_eq_some_iff.mp hp).1
  have hindex : (PageId.ofIndex index).index = index := PageId.index_ofIndex (by omega)
  exact ⟨hindex, PageId.isValid_iff.mpr (by omega)⟩

theorem getElem?_put (h : id.index ≤ pages.length) (index : Nat) :
    (pages.put id page)[index]? = if id.index = index then some page else pages[index]? := by
  have hlength : (pages.take id.index).length = id.index := by
    rw [List.length_take, Nat.min_eq_left h]
  rw [put]
  rcases Nat.lt_trichotomy index id.index with hlt | rfl | hgt
  · rw [if_neg (Nat.ne_of_gt hlt), List.getElem?_append_left (hlength.symm ▸ hlt),
      List.getElem?_take_of_lt hlt]
  · rw [if_pos rfl, List.getElem?_append_right hlength.le, hlength, Nat.sub_self]
    rfl
  · rw [if_neg (Nat.ne_of_lt hgt), List.getElem?_append_right (hlength.trans_le hgt.le), hlength,
      List.getElem?_cons, if_neg (by omega), List.getElem?_drop]
    congr 1
    omega

theorem length_put (h : id.index ≤ pages.length) :
    (pages.put id page).length = max pages.length (id.index + 1) := by
  rw [put, List.length_append, List.length_take, List.length_cons, List.length_drop]
  omega

theorem lookUp_put (h : id.index ≤ pages.length) :
    (pages.put id page).lookUp = renew pages.lookUp id page := by
  funext other
  rw [lookUp, getElem?_put h, renew]
  by_cases hother : id = other
  · subst hother
    rw [if_pos rfl, if_pos rfl]
  · rw [if_neg hother, if_neg fun hi => hother (PageId.index_injective hi)]
    rfl

theorem ahead_start (pages : Pages) : pages.ahead {} = answersFrom 0 pages := rfl

theorem insertOnNewPage_outcome {heap : Heap} {row : Row} {bytes : List UInt8}
    (he : row.encode = .ok bytes) :
    InsertOutcome pages heap row (pages.insertOnNewPage heap bytes) := by
  rw [insertOnNewPage]
  split
  · exact .refused _
  · rename_i ha
    split
    · rename_i hv
      exact .started _ bytes _ hv he ha
    · exact .refused _

theorem insert_outcome {heap : Heap} {row : Row}
    {result : Except StorageError RecordId × Heap × Pages}
    (h : pages.insert heap row = result) : InsertOutcome pages heap row result := by
  subst h
  rw [insert]
  split
  · exact .refused _
  · rename_i bytes he
    split
    · rw [insertBytes]
      split
      · exact insertOnNewPage_outcome he
      · rename_i last hlast
        split
        · exact .refused _
        · rename_i page hpage
          rw [answerOf] at hpage
          split at hpage
          · rename_i hv
            split
            · rename_i ha
              exact .added last page _ bytes _ hlast (lookUp_eq_ok_iff.mp hpage) hv he ha
            · exact insertOnNewPage_outcome he
          · cases hpage
    · exact .refused _

/-- A handle that knows no page starts page 0, whether or not the table has it. -/
theorem insert_of_none {row : Row} {bytes : List UInt8} (he : row.encode = .ok bytes)
    (hb : bytes.length ≤ maxTupleSize) :
    ∃ page, (Page.empty (.ofIndex 0)).append bytes = .ok (0, page) ∧
      ∀ pages : Pages, pages.insert ⟨none⟩ row =
        (.ok ⟨.ofIndex 0, 0⟩, ⟨some (.ofIndex 0)⟩, page :: pages.drop 1) := by
  obtain ⟨page, hp⟩ := Page.append_empty (.ofIndex 0) hb
  refine ⟨page, hp, fun pages => ?_⟩
  have hid : Heap.newPage ⟨none⟩ = .ofIndex 0 := rfl
  have hv : (PageId.ofIndex 0).IsValid := by decide
  have hindex : (PageId.ofIndex 0).index = 0 := PageId.index_ofIndex (by decide)
  have hput : pages.put (.ofIndex 0) page = page :: pages.drop 1 := by
    rw [put, hindex, List.take_zero]
    rfl
  simp only [insert, he, if_pos hb, insertBytes, insertOnNewPage, hid, hp, if_pos hv, hput]

theorem isValid_of_insert {after : Pages} {heap left : Heap} {row : Row} {record : RecordId}
    (h : pages.insert heap row = (.ok record, left, after)) : record.page.IsValid := by
  cases insert_outcome h with
  | added last page after bytes slot hlast hpage hv he ha => exact hv
  | started after bytes slot hv he ha => exact hv

end

end Pages

namespace Heap

theorem index_newPage {heap : Heap} (h : heap.pageCount ≤ 4294967295) :
    heap.newPage.index = heap.pageCount := by
  obtain ⟨lastPage⟩ := heap
  cases lastPage with
  | none => rfl
  | some last =>
    have hcount : last.index + 1 ≤ 4294967295 := h
    exact PageId.index_next (PageId.isValid_iff.mpr (by omega))

end Heap

namespace Pages

/-- No page is lost by an insert, and the handle that it leaves knows of no page that is not
there. -/
theorem length_insert {pages after : Pages} {heap left : Heap} {row : Row}
    {answer : Except StorageError RecordId} (hh : heap.pageCount ≤ pages.length)
    (hl : pages.length ≤ 4294967295) (hi : pages.insert heap row = (answer, left, after)) :
    pages.length ≤ after.length ∧ left.pageCount ≤ after.length := by
  cases insert_outcome hi with
  | refused e => exact ⟨le_rfl, hh⟩
  | added last page after bytes slot hlast hpage hv he ha =>
    have hlt := (List.getElem?_eq_some_iff.mp hpage).1
    rw [length_put hlt.le]
    omega
  | started after bytes slot hv he ha =>
    have hindex := Heap.index_newPage (hh.trans hl)
    have hcount : Heap.pageCount ⟨some heap.newPage⟩ = heap.newPage.index + 1 := rfl
    rw [hcount, length_put (hindex ▸ hh)]
    omega

end Pages

end PagedStorage
