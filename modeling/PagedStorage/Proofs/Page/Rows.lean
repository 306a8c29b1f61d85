import PagedStorage.Page.Rows
import PagedStorage.Proofs.Page.Append
import PagedStorage.Proofs.Row.RoundTrip

namespace PagedStorage.Page

def Holds (page : Page) (rows : List Row) : Prop :=
  ∃ tuples, page.Packed tuples ∧ tuples.map Row.decode = rows.map .ok

section

variable {page after : Page} {rows : List Row} {row : Row} {slot : Nat}

theorem holds_empty (id : PageId) : (empty id).Holds [] := ⟨[], packed_empty id, rfl⟩

theorem Holds.slotCount (h : page.Holds rows) : page.slotCount = rows.length := by
  obtain ⟨tuples, hp, hrows⟩ := h
  have hlength := congrArg List.length hrows
  rw [List.length_map, List.length_map] at hlength
  rw [hp.slotCount, hlength]

theorem Holds.row_eq (h : page.Holds rows) (hr : rows[slot]? = some row) :
    page.row slot = .ok (some row) := by
  obtain ⟨tuples, hp, hrows⟩ := h
  have hget := congrArg (fun list => list[slot]?) hrows
  simp only [List.getElem?_map, hr, Option.map_some] at hget
  obtain ⟨tuple, ht, hdecode⟩ := Option.map_eq_some_iff.mp hget
  simp only [Page.row, hp.read ht, hdecode]

theorem rowsIn_range' (page : Page) (rows : List Row) (start : Nat)
    (h : ∀ slot row, rows[slot]? = some row → page.row (start + slot) = .ok (some row)) :
    page.rowsIn (List.range' start rows.length) = .ok ((rows.zipIdx start).map Prod.swap) := by
  induction rows generalizing start with
  | nil => rfl
  | cons row rows ih =>
    have hfirst : page.row start = .ok (some row) := h 0 row rfl
    have hrest : page.rowsIn (List.range' (start + 1) rows.length) =
        .ok ((rows.zipIdx (start + 1)).map Prod.swap) := by
      apply ih
      intro slot other hother
      rw [Nat.add_assoc, Nat.add_comm 1 slot]
      exact h (slot + 1) other hother
    rw [List.length_cons, List.range'_succ, rowsIn, hfirst, hrest]
    rfl

theorem Holds.liveRows (h : page.Holds rows) :
    page.liveRows = .ok (rows.zipIdx.map Prod.swap) := by
  rw [Page.liveRows, h.slotCount, List.range_eq_range']
  apply rowsIn_range'
  intro slot row hr
  rw [Nat.zero_add]
  exact h.row_eq hr

theorem Holds.append (h : page.Holds rows) {bytes : List UInt8} (he : row.encode = .ok bytes)
    (ha : page.append bytes = .ok (slot, after)) :
    slot = rows.length ∧ after.Holds (rows ++ [row]) := by
  obtain ⟨hfit, hslot, rfl⟩ := append_eq_ok_iff.mp ha
  refine ⟨hslot.trans h.slotCount, ?_⟩
  obtain ⟨tuples, hp, hrows⟩ := h
  refine ⟨tuples ++ [bytes], hp.withTuple hfit, ?_⟩
  rw [List.map_append, List.map_append, hrows, List.map_singleton, Row.decode_of_encode he]
  rfl

end

end PagedStorage.Page
