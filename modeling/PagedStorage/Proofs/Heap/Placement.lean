import PagedStorage.Proofs.Heap.Pages
import PagedStorage.Proofs.Pool.Impediments
import PagedStorage.Proofs.Row.RoundTrip

namespace PagedStorage

open Pool

namespace Row

/-- A text of the row is longer than can be told, or the row is longer than an empty page has room
for. -/
def Oversized (row : Row) : Prop :=
  (∃ s, Value.text s ∈ row ∧ maxTextSize < s.utf8ByteSize) ∨ maxTupleSize < row.encodedSize

section

variable {row : Row} {bytes : List UInt8} {e : StorageError}

theorem length_of_encode (h : row.encode = .ok bytes) : bytes.length = row.encodedSize :=
  length_of_decode (decode_of_encode h)

theorem oversized_of_encode_error (h : row.encode = .error e) :
    row.Oversized ∧ ∃ fault, e = .invalidArgument fault := by
  obtain ⟨s, hmem, hlong, he⟩ := exists_text_of_encode_error h
  exact ⟨Or.inl ⟨s, hmem, hlong⟩, _, he⟩

theorem oversized_iff_of_encode (h : row.encode = .ok bytes) :
    row.Oversized ↔ maxTupleSize < bytes.length := by
  rw [length_of_encode h, Oversized, or_iff_right_iff_imp]
  rintro ⟨s, hmem, hlong⟩
  exact absurd (utf8ByteSize_le_of_encode h hmem) (Nat.not_le_of_lt hlong)

end

end Row

namespace Heap

def HasRoom (heap : Heap) (pool : Pool) (size : Nat) : Prop :=
  ∃ last page, heap.lastPage = some last ∧ pool.page? last = some page ∧ page.CanFit size

/-- The last page, if there is one, is among the pages of the pool. -/
def Known (heap : Heap) (pool : Pool) : Prop :=
  ∀ last, heap.lastPage = some last → ∃ page, pool.page? last = some page

inductive Asked (heap : Heap) (pool : Pool) : Pool → Prop
  | nothing (h : heap.lastPage = none) : Asked heap pool pool
  | last (last : PageId) (frame : Frame) (read : Pool) (h : heap.lastPage = some last)
      (hg : pool.getPage last = (.ok frame, read)) : Asked heap pool read

/-- The place of a row that is written as `bytes`, and its page with it. -/
inductive Takes (heap : Heap) (pool : Pool) (bytes : List UInt8) : RecordId → Page → Prop
  | onLast (last : PageId) (former page : Page) (slot : Nat) (hlast : heap.lastPage = some last)
      (hp : pool.page? last = some former) (ha : former.append bytes = .ok (slot, page)) :
      Takes heap pool bytes ⟨last, slot⟩ page
  | onNew (page : Page)
      (hfull : ∀ last, heap.lastPage = some last →
        ∃ former, pool.page? last = some former ∧ ¬former.CanFit bytes.length)
      (ha : (Page.empty heap.newPage).append bytes = .ok (0, page)) :
      Takes heap pool bytes ⟨heap.newPage, 0⟩ page

inductive InsertOutcome (heap : Heap) (pool : Pool) (row : Row) :
    Except StorageError RecordId × Heap × Pool → Prop
  | refused (fault : ArgumentFault) (h : row.Oversized) :
      InsertOutcome heap pool row (.error (.invalidArgument fault), heap, pool)
  | unread (last : PageId) (e : StorageError) (after : Pool) (h : heap.lastPage = some last)
      (hg : pool.getPage last = (.error e, after)) :
      InsertOutcome heap pool row (.error e, heap, after)
  | unwritten (bytes : List UInt8) (read : Pool) (record : RecordId) (page : Page)
      (e : StorageError) (after : Pool) (he : row.encode = .ok bytes)
      (hread : heap.Asked pool read) (ht : heap.Takes read bytes record page)
      (hu : read.updatePage record.page page = (.error e, after)) :
      InsertOutcome heap pool row (.error e, heap, after)
  | written (bytes : List UInt8) (read : Pool) (record : RecordId) (page : Page) (after : Pool)
      (he : row.encode = .ok bytes) (hread : heap.Asked pool read)
      (ht : heap.Takes read bytes record page)
      (hu : read.updatePage record.page page = (.ok (), after)) :
      InsertOutcome heap pool row (.ok record, ⟨some record.page⟩, after)

/-- What an insert does with a row, told by the pages that the pool has when it is asked. -/
structure Places (heap : Heap) (pool : Pool) (row : Row)
    (result : Except StorageError RecordId × Heap × Pool) : Prop where
  /-- A row that no page can hold is refused, and nothing has been touched. -/
  refused : row.Oversized → ∃ fault, result = (.error (.invalidArgument fault), heap, pool)
  /-- As long as there is an id left, no other row is told to be at fault. -/
  oversized : heap.HasRoom pool row.encodedSize ∨ heap.pageCount < 4294967295 →
    ∀ fault, result.1 = .error (.invalidArgument fault) → row.Oversized
  /-- A row that fits on the last page goes there, into the next slot. -/
  onLast : ∀ last page record, heap.lastPage = some last → pool.page? last = some page →
    page.CanFit row.encodedSize → result.1 = .ok record →
    record = ⟨last, page.slotCount⟩ ∧ result.2.1 = heap
  /-- Any other goes to the first slot of a new page. -/
  onNew : ∀ record, ¬heap.HasRoom pool row.encodedSize → result.1 = .ok record →
    record = ⟨.ofIndex heap.pageCount, 0⟩ ∧
      result.2.1.lastPage = some (.ofIndex heap.pageCount) ∧
      result.2.1.pageCount = heap.pageCount + 1
  /-- And it does go there, unless the store fails a call or all frames are held. -/
  succeeds : ¬row.Oversized →
    heap.HasRoom pool row.encodedSize ∨ heap.pageCount < 4294967295 →
    (pool.frames.size < pool.capacity ∨ ∃ id, pool.frames.Evictable id) →
    result.2.2.store.failures = pool.store.failures → ∃ record, result.1 = .ok record
  /-- That a page is full is never told. -/
  not_full : ∀ page needed available, result.1 ≠ .error (.pageFull page needed available)
  failed : ∀ e, result.1 = .error e → result.2.1 = heap

section

variable {settings : PoolSettings} {heap left : Heap} {pool read after : Pool} {row : Row}
  {bytes : List UInt8} {record : RecordId} {page : Page} {e : StorageError}
  {answer : Except StorageError RecordId}

theorem insertOnNewPage_outcome (he : row.encode = .ok bytes) (hl : bytes.length ≤ maxTupleSize)
    (hread : heap.Asked pool read)
    (hfull : ∀ last, heap.lastPage = some last →
      ∃ former, read.page? last = some former ∧ ¬former.CanFit bytes.length) :
    InsertOutcome heap pool row (heap.insertOnNewPage read bytes) := by
  obtain ⟨page, ha⟩ := Page.append_empty heap.newPage hl
  rw [insertOnNewPage, ha]
  dsimp only
  split
  · rename_i hu
    exact .unwritten bytes read ⟨heap.newPage, 0⟩ page _ _ he hread (.onNew page hfull ha) hu
  · rename_i hu
    exact .written bytes read ⟨heap.newPage, 0⟩ page _ he hread (.onNew page hfull ha) hu

theorem insertBytes_outcome (he : row.encode = .ok bytes) (hl : bytes.length ≤ maxTupleSize) :
    InsertOutcome heap pool row (heap.insertBytes pool bytes) := by
  obtain ⟨lastPage⟩ := heap
  cases lastPage with
  | none => exact insertOnNewPage_outcome he hl (.nothing rfl) nofun
  | some last =>
    rw [insertBytes]
    dsimp only
    split
    · rename_i hg
      exact .unread last _ _ rfl hg
    · rename_i frame read hg
      have hread : Asked ⟨some last⟩ pool read := .last last frame read rfl hg
      have hlast := page?_after_getPage hg
      split
      · rename_i slot page ha
        have htakes : Takes ⟨some last⟩ read bytes ⟨last, slot⟩ page :=
          .onLast last frame.page page slot rfl hlast ha
        split
        · rename_i hu
          exact .unwritten bytes read ⟨last, slot⟩ page _ _ he hread htakes hu
        · rename_i hu
          exact .written bytes read ⟨last, slot⟩ page _ he hread htakes hu
      · rename_i e ha
        -- The page says that it is full, and that is an error of this class.
        obtain ⟨hfull, hcapacity⟩ : ¬frame.page.CanFit bytes.length ∧ e.isCapacity = true := by
          rw [Page.append] at ha
          split at ha <;> cases ha
          exact ⟨by assumption, rfl⟩
        rw [if_pos hcapacity]
        apply insertOnNewPage_outcome he hl hread
        intro other hother
        cases hother
        exact ⟨frame.page, hlast, hfull⟩

/-- A row that no page can hold is refused before anything is asked. -/
theorem insert_of_oversized (heap : Heap) (pool : Pool) (h : row.Oversized) :
    ∃ fault, heap.insert pool row = (.error (.invalidArgument fault), heap, pool) := by
  rw [insert]
  cases he : row.encode with
  | error e =>
    obtain ⟨-, fault, rfl⟩ := Row.oversized_of_encode_error he
    exact ⟨fault, rfl⟩
  | ok bytes =>
    have hlong := (Row.oversized_iff_of_encode he).mp h
    exact ⟨_, if_neg (Nat.not_le_of_lt hlong)⟩

/-- The two limits, in bytes. -/
example : maxTextSize = 65535 ∧ maxTupleSize = 8178 := by decide

theorem insert_outcome {result : Except StorageError RecordId × Heap × Pool}
    (hi : heap.insert pool row = result) : InsertOutcome heap pool row result := by
  subst hi
  by_cases h : row.Oversized
  · obtain ⟨fault, hi⟩ := insert_of_oversized heap pool h
    rw [hi]
    exact .refused fault h
  · rw [insert]
    cases he : row.encode with
    | error e => exact absurd (Row.oversized_of_encode_error he).1 h
    | ok bytes =>
      have hl := Nat.le_of_not_lt ((Row.oversized_iff_of_encode he).not.mp h)
      dsimp only
      rw [if_pos hl]
      exact insertBytes_outcome he hl

/-- Asking for the last page changes nothing that matters for the insert. -/
theorem Asked.kept (ha : heap.Asked pool read) (h : pool.Regular settings) (hf : pool.Faithful) :
    read.Regular settings ∧ pool.Retains read ∧
      read.store.failures = pool.store.failures ∧ (pool.Spare → read.Spare) := by
  cases ha with
  | nothing hnone => exact ⟨h, .refl hf, rfl, fun hspare => hspare⟩
  | last last frame read hlast hg =>
    have hread := h.getPage hg
    refine ⟨hread, retains_getPage hf hg, failures_getPage hg, fun hspare => ?_⟩
    exact hspare.of_pinned (hread.capacity.trans h.capacity.symm) fun _ => (pinned_getPage hg).mp

theorem Known.of_retains (h : heap.Known pool) (hr : pool.Retains after) : heap.Known after :=
  fun last hlast => (h last hlast).imp (hr.page? last)

theorem hasRoom_iff (hk : heap.Known pool) (hr : pool.Retains after) {size : Nat} :
    heap.HasRoom after size ↔ heap.HasRoom pool size := by
  constructor
  · rintro ⟨last, page, hlast, hpage, hfit⟩
    obtain ⟨former, hformer⟩ := hk last hlast
    cases hpage.symm.trans (hr.page? last former hformer)
    exact ⟨last, page, hlast, hformer, hfit⟩
  · rintro ⟨last, page, hlast, hpage, hfit⟩
    exact ⟨last, page, hlast, hr.page? last page hpage, hfit⟩

theorem pageCount_of_lastPage {last : PageId} (hlast : heap.lastPage = some last) :
    heap.pageCount = last.index + 1 := by
  rw [pageCount, hlast]

/-- The ids of pages that are there leave one more number for a page, be it the sentinel's. -/
theorem pageCount_le (hf : pool.Faithful) (hk : heap.Known pool) : heap.pageCount ≤ 4294967295 := by
  cases hlast : heap.lastPage with
  | none =>
    rw [pageCount, hlast]
    exact Nat.zero_le _
  | some last =>
    obtain ⟨page, hpage⟩ := hk last hlast
    rw [pageCount_of_lastPage hlast]
    exact PageId.isValid_iff.mp (hf.isValid_of_page? hpage)

theorem newPage_eq (hf : pool.Faithful) (hk : heap.Known pool) :
    heap.newPage = .ofIndex heap.pageCount := by
  rw [← index_newPage (pageCount_le hf hk), PageId.ofIndex_index]

namespace Takes

theorem id_eq (ht : heap.Takes pool bytes record page) (hf : pool.Faithful) :
    page.id = record.page := by
  cases ht with
  | onLast last former page slot hlast hp ha =>
    exact (Page.id_of_append ha).trans (hf.id_of_page? hp)
  | onNew page hfull ha => exact Page.id_of_append ha

theorem eq_of_room (ht : heap.Takes pool bytes record page) {last : PageId} {former : Page}
    (hlast : heap.lastPage = some last) (hp : pool.page? last = some former)
    (hfit : former.CanFit bytes.length) : record = ⟨last, former.slotCount⟩ := by
  cases ht with
  | onLast other found page slot hother hfound ha =>
    cases hlast.symm.trans hother
    cases hp.symm.trans hfound
    obtain ⟨-, rfl, -⟩ := Page.append_eq_ok_iff.mp ha
    rfl
  | onNew page hfull ha =>
    obtain ⟨found, hfound, hn⟩ := hfull last hlast
    cases hp.symm.trans hfound
    exact absurd hfit hn

theorem eq_of_no_room (ht : heap.Takes pool bytes record page)
    (hn : ¬heap.HasRoom pool bytes.length) : record = ⟨heap.newPage, 0⟩ := by
  cases ht with
  | onLast last former page slot hlast hp ha =>
    obtain ⟨hfit, -⟩ := Page.append_eq_ok_iff.mp ha
    exact absurd ⟨last, former, hlast, hp, hfit⟩ hn
  | onNew page hfull ha => rfl

theorem isValid (ht : heap.Takes pool bytes record page) (hf : pool.Faithful)
    (hids : heap.HasRoom pool bytes.length ∨ heap.pageCount < 4294967295) :
    record.page.IsValid := by
  by_cases hroom : heap.HasRoom pool bytes.length
  · obtain ⟨last, former, hlast, hp, hfit⟩ := hroom
    rw [ht.eq_of_room hlast hp hfit]
    exact hf.isValid_of_page? hp
  · rw [ht.eq_of_no_room hroom]
    have hlt := hids.resolve_left hroom
    exact PageId.isValid_iff.mpr ((index_newPage hlt.le).trans_lt hlt)

end Takes

/-- An insert that fails leaves the handle as it was and loses no page. If there is an id left, then
the row was too large or the pool could not serve a call. -/
theorem insert_failed (h : pool.Regular settings) (hf : pool.Faithful) (hk : heap.Known pool)
    (hi : heap.insert pool row = (.error e, left, after)) :
    left = heap ∧ after.Regular settings ∧ pool.Retains after ∧
      (row.Oversized ∨ pool.Impeded e after ∨
        ¬(heap.HasRoom pool row.encodedSize ∨ heap.pageCount < 4294967295) ∧
          e = .invalidArgument (.notAddressable heap.newPage)) := by
  cases insert_outcome hi with
  | refused fault hsize => exact ⟨rfl, h, .refl hf, Or.inl hsize⟩
  | unread last e after hlast hg =>
    obtain ⟨page, hp⟩ := hk last hlast
    have himpeded := impeded_of_getPage h hf hp hg
    exact ⟨rfl, h.getPage hg, retains_getPage hf hg, Or.inr (Or.inl himpeded)⟩
  | unwritten bytes read record page e after he hread ht hu =>
    obtain ⟨hregular, hretains, hfailures, hspare⟩ := hread.kept h hf
    have hid := ht.id_eq hretains.faithful
    have hroom : heap.HasRoom read bytes.length ↔ heap.HasRoom pool bytes.length :=
      hasRoom_iff hk hretains
    have hafter := hretains.trans (retains_updatePage_error hretains.faithful hu)
    refine ⟨rfl, hregular.updatePage hu, hafter, Or.inr ?_⟩
    rw [← Row.length_of_encode he, ← hroom]
    by_cases hids : heap.HasRoom read bytes.length ∨ heap.pageCount < 4294967295
    · have hv := ht.isValid hretains.faithful hids
      exact Or.inl ((impeded_of_updatePage hregular hv hid hu).of_later hfailures hspare)
    · refine Or.inr ⟨hids, ?_⟩
      obtain ⟨hn, hcount⟩ := not_or.mp hids
      rw [ht.eq_of_no_room hn] at hu
      have hv : ¬heap.newPage.IsValid := by
        rw [PageId.isValid_iff, index_newPage (pageCount_le hf hk)]
        exact hcount
      rw [(UpdateOutcome.unaddressable hv).eq] at hu
      cases hu
      rfl

theorem insert_placed (h : pool.Regular settings) (hf : pool.Faithful) (hk : heap.Known pool)
    (hi : heap.insert pool row = (.ok record, left, after)) :
    (∀ last page, heap.lastPage = some last → pool.page? last = some page →
      page.CanFit row.encodedSize → record = ⟨last, page.slotCount⟩ ∧ left = heap) ∧
    (¬heap.HasRoom pool row.encodedSize → record = ⟨.ofIndex heap.pageCount, 0⟩ ∧
      left.lastPage = some (.ofIndex heap.pageCount) ∧ left.pageCount = heap.pageCount + 1) := by
  cases insert_outcome hi with
  | written bytes read record page after he hread ht hu =>
    obtain ⟨-, hretains, -, -⟩ := hread.kept h hf
    rw [← Row.length_of_encode he]
    constructor
    · intro last page hlast hp hfit
      obtain rfl := ht.eq_of_room hlast (hretains.page? last page hp) hfit
      exact ⟨rfl, congrArg Heap.mk hlast.symm⟩
    · intro hn
      obtain rfl := ht.eq_of_no_room ((hasRoom_iff hk hretains).not.mpr hn)
      have hcount : pageCount ⟨some heap.newPage⟩ = heap.newPage.index + 1 := rfl
      rw [hcount, index_newPage (pageCount_le hf hk), newPage_eq hf hk]
      exact ⟨rfl, rfl, rfl⟩

theorem places_insert (h : pool.Regular settings) (hf : pool.Faithful) (hk : heap.Known pool)
    (row : Row) : heap.Places pool row (heap.insert pool row) := by
  rcases hi : heap.insert pool row with ⟨answer, left, after⟩
  cases answer with
  | ok record =>
    obtain ⟨hlast, hnew⟩ := insert_placed h hf hk hi
    refine ⟨?_, nofun, ?_, ?_, fun _ _ _ _ => ⟨record, rfl⟩, nofun, nofun⟩
    · intro hsize
      obtain ⟨fault, hrefused⟩ := insert_of_oversized _ pool hsize
      cases hi.symm.trans hrefused
    · rintro last page _ hheap hp hfit ⟨⟩
      exact hlast last page hheap hp hfit
    · rintro _ hn ⟨⟩
      exact hnew hn
  | error e =>
    obtain ⟨rfl, -, -, hcause⟩ := insert_failed h hf hk hi
    refine ⟨?_, ?_, nofun, nofun, ?_, ?_, fun _ _ => rfl⟩
    · intro hsize
      obtain ⟨fault, hrefused⟩ := insert_of_oversized _ pool hsize
      exact ⟨fault, hi.symm.trans hrefused⟩
    · rintro hids fault ⟨⟩
      rcases hcause with hsize | himpeded | ⟨hn, -⟩
      · exact hsize
      · cases himpeded
      · exact absurd hids hn
    · intro hsize hids hfree hquiet
      exfalso
      rcases hcause with hlarge | himpeded | ⟨hn, -⟩
      · exact hsize hlarge
      · have hspare := spare_of_free (h.capacity ▸ h.size_le) hfree
        exact absurd hquiet (himpeded.failures_lt hspare).ne'
      · exact hn hids
    · rintro page needed available ⟨⟩
      rcases hcause with hsize | himpeded | ⟨-, hanswer⟩
      · obtain ⟨fault, hrefused⟩ := insert_of_oversized _ pool hsize
        cases hi.symm.trans hrefused
      · cases himpeded
      · cases hanswer

end

end Heap

end PagedStorage
