import PagedStorage.Proofs.Heap.Pages
import PagedStorage.Proofs.Page.Slots

namespace PagedStorage.Pages

def Keeps (pages : Pages) (record : RecordId) (row : Row) : Prop :=
  ∃ page, pages[record.page.index]? = some page ∧ page.KeepsRow record.slot row

/-- The row is added to a page, or starts the one behind the last. -/
def Adds (pages : Pages) (record : RecordId) (row : Row) (after : Pages) : Prop :=
  ∃ bytes page, record.page.index ≤ pages.length ∧ row.encode = .ok bytes ∧
    (pages[record.page.index]?.getD (.empty record.page)).append bytes = .ok (record.slot, page) ∧
    after = pages.put record.page page

inductive Grows : Pages → List (RecordId × Row) → Pages → Prop
  | done (pages : Pages) : Grows pages [] pages
  | more {pages next after : Pages} {record : RecordId} {row : Row} {log : List (RecordId × Row)}
      (hadds : pages.Adds record row next) (hrest : Grows next log after) :
      Grows pages ((record, row) :: log) after

def rowsFrom (first : Nat) (pages : Pages) : List (RecordId × Row) :=
  (answersFrom first pages).filterMap Except.toOption

def Legible (pages : Pages) : Prop := ∀ page ∈ pages, page.Legible

section

variable {pages after : Pages} {heap left : Heap} {record new : RecordId} {row other : Row}
  {log : List (RecordId × Row)} {page : Page} {first index slot : Nat} {rows : List (Nat × Row)}

/-- An insert starts no page anew if it goes to the last page that the handle knows, or to one that
is not there. -/
theorem adds_of_insert (hh : heap.pageCount ≤ pages.length) (hl : pages.length ≤ 4294967295)
    (hi : pages.insert heap row = (.ok record, left, after))
    (hb : heap.lastPage = some record.page ∨ pages[record.page.index]? = none) :
    pages.Adds record row after := by
  cases insert_outcome hi with
  | added last page after bytes slot hlast hpage hv he ha =>
    have hle := (List.getElem?_eq_some_iff.mp hpage).1.le
    refine ⟨bytes, after, hle, he, ?_, rfl⟩
    rw [hpage]
    exact ha
  | started after bytes slot hv he ha =>
    have hindex := Heap.index_newPage (hh.trans hl)
    refine ⟨bytes, after, hindex.trans_le hh, he, ?_, rfl⟩
    rcases hb with hlast | hbehind
    · have hcount : heap.pageCount = heap.newPage.index + 1 := by
        rw [Heap.pageCount, hlast]
      omega
    · rw [hbehind]
      exact ha

theorem Adds.keeps (h : pages.Adds new row after) (hk : pages.Keeps record other) :
    after.Keeps record other := by
  obtain ⟨bytes, page, hle, -, ha, rfl⟩ := h
  obtain ⟨old, hold, hrow⟩ := hk
  by_cases hsame : new.page.index = record.page.index
  · rw [hsame, hold] at ha
    exact ⟨page, by rw [getElem?_put hle, if_pos hsame], hrow.append ha⟩
  · exact ⟨old, by rw [getElem?_put hle, if_neg hsame, hold], hrow⟩

theorem Adds.keeps_self (h : pages.Adds new row after) : after.Keeps new row := by
  obtain ⟨bytes, page, hle, he, ha, rfl⟩ := h
  exact ⟨page, by rw [getElem?_put hle, if_pos rfl], (Page.keepsRow_append_self he ha).2.2⟩

theorem Adds.not_keeps (h : pages.Adds new row after) : ¬pages.Keeps new other := by
  obtain ⟨bytes, page, -, he, ha, -⟩ := h
  rintro ⟨old, hold, hlt, -⟩
  rw [hold] at ha
  exact hlt.ne (Page.keepsRow_append_self he ha).1

theorem Grows.trans {further : Pages} {log' : List (RecordId × Row)}
    (h : pages.Grows log after) (h' : after.Grows log' further) :
    pages.Grows (log ++ log') further := by
  induction h with
  | done pages => exact h'
  | more hadds hrest ih => exact .more hadds (ih h')

theorem Grows.keeps (h : pages.Grows log after) (hk : pages.Keeps record row) :
    after.Keeps record row := by
  induction h with
  | done pages => exact hk
  | more hadds hrest ih => exact ih (hadds.keeps hk)

theorem Grows.keeps_of_mem (h : pages.Grows log after) (hmem : (record, row) ∈ log) :
    after.Keeps record row := by
  induction h with
  | done pages => cases hmem
  | more hadds hrest ih =>
    cases hmem with
    | head => exact hrest.keeps hadds.keeps_self
    | tail _ hmem => exact ih hmem

theorem Grows.not_keeps (h : pages.Grows log after) (hmem : (record, row) ∈ log) :
    ¬pages.Keeps record other := by
  induction h with
  | done pages => cases hmem
  | more hadds hrest ih =>
    cases hmem with
    | head => exact hadds.not_keeps
    | tail _ hmem => exact fun hk => ih hmem (hadds.keeps hk)

theorem Grows.nodup (h : pages.Grows log after) : (log.map Prod.fst).Nodup := by
  induction h with
  | done pages => exact List.nodup_nil
  | more hadds hrest ih =>
    refine List.nodup_cons.mpr ⟨fun hmem => ?_, ih⟩
    obtain ⟨⟨record, row⟩, hentry, rfl⟩ := List.mem_map.mp hmem
    exact hrest.not_keeps hentry hadds.keeps_self

theorem get_of_keeps (hk : pages.Keeps record row) (hl : pages.length ≤ 4294967295) :
    pages.get record = .ok (some row) := by
  obtain ⟨page, hpage, hrow⟩ := hk
  have hlt := (List.getElem?_eq_some_iff.mp hpage).1
  have hv : record.page.IsValid := PageId.isValid_iff.mpr (by omega)
  rw [get, Pool.answerOf, if_pos hv, lookUp_eq_ok_iff.mpr hpage]
  exact hrow.row_eq

/-- A scan that meets no error finds each row that is kept. -/
theorem mem_answersFrom (hok : ∀ answer ∈ answersFrom first pages, answer.isOk = true)
    (hp : pages[index]? = some page) (hk : page.KeepsRow slot row) :
    .ok (⟨.ofIndex (first + index), slot⟩, row) ∈ answersFrom first pages := by
  induction pages generalizing first index with
  | nil => cases hp
  | cons head pages ih =>
    rw [answersFrom] at hok ⊢
    split
    · rename_i e hrows
      rw [hrows] at hok
      cases hok (.error e) (List.mem_singleton_self _)
    · rename_i rows hrows
      rw [hrows] at hok
      cases index with
      | zero =>
        cases hp
        refine List.mem_append_left _ (List.mem_map.mpr ⟨(slot, row), ?_, rfl⟩)
        exact hk.mem_liveRows hrows
      | succ index =>
        rw [Nat.add_comm index, ← Nat.add_assoc]
        exact List.mem_append_right _
          (ih (fun answer hmem => hok answer (List.mem_append_right _ hmem)) hp)

theorem rowsFrom_nil : rowsFrom first [] = [] := by
  rw [rowsFrom, answersFrom]
  split <;> rfl

theorem rowsFrom_cons (h : page.liveRows = .ok rows) :
    rowsFrom first (page :: pages) =
      rows.map (fun (slot, row) => (⟨.ofIndex first, slot⟩, row)) ++
        rowsFrom (first + 1) pages := by
  rw [rowsFrom, answersFrom, h, List.filterMap_append, List.filterMap_map]
  exact congrArg (· ++ rowsFrom (first + 1) pages) (congrFun List.filterMap_eq_map rows)

theorem rowsFrom_cons_error {e : StorageError} (h : page.liveRows = .error e) :
    rowsFrom first (page :: pages) = [] := by
  rw [rowsFrom, answersFrom, h]
  rfl

theorem rowsFrom_append {front : Pages} (h : front.Legible) :
    rowsFrom first (front ++ pages) =
      rowsFrom first front ++ rowsFrom (first + front.length) pages := by
  induction front generalizing first with
  | nil =>
    rw [rowsFrom_nil]
    rfl
  | cons page front ih =>
    obtain ⟨hpage, hfront⟩ := List.forall_mem_cons.mp h
    obtain ⟨rows, hrows⟩ := hpage.exists_liveRows
    rw [List.cons_append, rowsFrom_cons hrows, rowsFrom_cons hrows, ih hfront, List.append_assoc,
      List.length_cons, Nat.add_assoc, Nat.add_comm 1]

theorem le_index_of_mem_rowsFrom (hl : first + pages.length ≤ 4294967295)
    {entry : RecordId × Row} (hmem : entry ∈ rowsFrom first pages) :
    first ≤ entry.1.page.index := by
  induction pages generalizing first with
  | nil =>
    rw [rowsFrom_nil] at hmem
    cases hmem
  | cons page pages ih =>
    rw [List.length_cons] at hl
    cases hrows : page.liveRows with
    | error e =>
      rw [rowsFrom_cons_error hrows] at hmem
      cases hmem
    | ok rows =>
      rw [rowsFrom_cons hrows] at hmem
      rcases List.mem_append.mp hmem with hhere | hbehind
      · obtain ⟨⟨slot, row⟩, -, rfl⟩ := List.mem_map.mp hhere
        exact (PageId.index_ofIndex (by omega)).ge
      · exact Nat.le_of_succ_le (ih (by omega) hbehind)

theorem nodup_rowsFrom (hl : first + pages.length ≤ 4294967295) :
    ((rowsFrom first pages).map Prod.fst).Nodup := by
  induction pages generalizing first with
  | nil =>
    rw [rowsFrom_nil]
    exact List.nodup_nil
  | cons page pages ih =>
    rw [List.length_cons] at hl
    cases hrows : page.liveRows with
    | error e =>
      rw [rowsFrom_cons_error hrows]
      exact List.nodup_nil
    | ok rows =>
      have hslots : ((rows.map Prod.fst).map (RecordId.mk (.ofIndex first))).Nodup :=
        (Page.nodup_of_liveRows hrows).map fun slot other h => (RecordId.mk.inj h).2
      rw [rowsFrom_cons hrows, List.map_append, List.map_map]
      rw [List.map_map] at hslots
      refine List.nodup_append.mpr ⟨hslots, ih (by omega), ?_⟩
      rintro record hhere _ hbehind rfl
      obtain ⟨⟨slot, row⟩, -, rfl⟩ := List.mem_map.mp hhere
      obtain ⟨entry, hentry, hrecord⟩ := List.mem_map.mp hbehind
      have hindex := le_index_of_mem_rowsFrom (by omega) hentry
      have hfirst : (PageId.ofIndex first).index = first := PageId.index_ofIndex (by omega)
      rw [hrecord] at hindex
      exact absurd (hindex.trans_eq hfirst) (Nat.not_succ_le_self first)

theorem legible_put {id : PageId} (h : pages.Legible) (hp : page.Legible) :
    (pages.put id page).Legible := by
  intro other hmem
  rcases List.mem_append.mp hmem with hfront | hrest
  · exact h other (List.mem_of_mem_take hfront)
  · rcases List.mem_cons.mp hrest with rfl | hbehind
    · exact hp
    · exact h other (List.mem_of_mem_drop hbehind)

theorem rowsFrom_put {id : PageId} (h : pages.Legible) (hle : id.index ≤ pages.length)
    (hrows : page.liveRows = .ok rows) :
    rowsFrom 0 (pages.put id page) =
      rowsFrom 0 (pages.take id.index) ++
        (rows.map (fun (slot, row) => (⟨id, slot⟩, row)) ++
          rowsFrom (id.index + 1) (pages.drop (id.index + 1))) := by
  rw [put, rowsFrom_append fun page hmem => h page (List.mem_of_mem_take hmem),
    rowsFrom_cons hrows, List.length_take, Nat.min_eq_left hle, Nat.zero_add,
    PageId.ofIndex_index]

/-- Putting a page in its own place changes no row, nor does an empty page behind the last. -/
theorem rowsFrom_put_self {id : PageId} (h : pages.Legible) (hle : id.index ≤ pages.length) :
    rowsFrom 0 (pages.put id (pages[id.index]?.getD (.empty id))) = rowsFrom 0 pages := by
  cases hp : pages[id.index]? with
  | some page =>
    obtain ⟨hlt, hget⟩ := List.getElem?_eq_some_iff.mp hp
    rw [Option.getD_some, put, ← hget, ← List.drop_eq_getElem_cons hlt, List.take_append_drop]
  | none =>
    have hend : pages.length = id.index := le_antisymm (List.getElem?_eq_none_iff.mp hp) hle
    rw [Option.getD_none, rowsFrom_put h hle (Page.liveRows_empty id), ← hend, List.take_length,
      List.drop_eq_nil_of_le (Nat.le_succ _), rowsFrom_nil]
    exact List.append_nil _

/-- A scan of pages without damage finds what it found before and the row that is added. -/
theorem Adds.perm_rowsFrom (h : pages.Adds new row after) (hl : pages.Legible) :
    after.Legible ∧ (rowsFrom 0 after).Perm (rowsFrom 0 pages ++ [(new, row)]) := by
  obtain ⟨bytes, page, hle, he, ha, rfl⟩ := h
  have hold : (pages[new.page.index]?.getD (.empty new.page)).Legible := by
    cases hp : pages[new.page.index]? with
    | some page => exact hl page (List.mem_of_getElem? hp)
    | none => exact Page.legible_empty new.page
  obtain ⟨rows, hrows⟩ := hold.exists_liveRows
  refine ⟨legible_put hl (hold.append he ha).1, ?_⟩
  rw [← rowsFrom_put_self hl hle, rowsFrom_put hl hle hrows,
    rowsFrom_put hl hle (hold.liveRows_append he ha hrows), List.map_append, List.append_assoc,
    List.append_assoc, List.append_assoc]
  exact (List.perm_append_comm.append_left _).append_left _

theorem Grows.perm_rowsFrom (h : pages.Grows log after) (hl : pages.Legible) :
    (rowsFrom 0 after).Perm (rowsFrom 0 pages ++ log) := by
  induction h with
  | done pages => rw [List.append_nil]
  | more hadds hrest ih =>
    obtain ⟨hnext, hperm⟩ := hadds.perm_rowsFrom hl
    refine (ih hnext).trans ((hperm.append_right _).trans ?_)
    rw [List.append_assoc]
    rfl

end

end PagedStorage.Pages
