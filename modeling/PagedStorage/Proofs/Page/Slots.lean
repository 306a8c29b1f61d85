import PagedStorage.Page.Rows
import PagedStorage.Proofs.Page.Append
import PagedStorage.Proofs.Row.RoundTrip

namespace PagedStorage.Page

/-- No slot is broken: reading one gives its row or tells that it is deleted. -/
def Readable (page : Page) : Prop := ∀ slot < page.slotCount, ∃ found, page.row slot = .ok found

/-- This slot is the first that is broken, for the reason told. -/
structure BrokenAt (page : Page) (slot : Nat) (e : StorageError) : Prop where
  lt : slot < page.slotCount
  row_eq : page.row slot = .error e
  before : ∀ other < slot, ∃ found, page.row other = .ok found

def row? (page : Page) (slot : Nat) : Option Row :=
  match page.row slot with
  | .ok found => found
  | .error _ => none

section

variable {page other : Page} {slot : Nat} {slots before after : List Nat} {row : Row}
  {rows : List (Nat × Row)} {e : StorageError}

theorem row?_eq_some_iff : page.row? slot = some row ↔ page.row slot = .ok (some row) := by
  unfold row?
  split
  · rename_i found hrow
    rw [hrow, Except.ok.injEq]
  · rename_i hrow
    rw [hrow]
    exact iff_of_false nofun nofun

theorem row_eq_none_iff : page.row slot = .ok none ↔ page.read slot = .ok none := by
  unfold Page.row
  split
  · rename_i hread
    rw [hread]
    exact iff_of_false nofun nofun
  · rename_i hread
    exact iff_of_true rfl hread
  · rename_i hread
    rw [hread]
    constructor
    · intro h
      split at h <;> cases h
    · nofun

theorem lt_slotCount_of_row (h : page.row slot = .ok (some row)) : slot < page.slotCount := by
  by_contra hle
  rw [Page.row, read, Page.slot, if_neg hle] at h
  cases h

theorem rowsIn_cons_eq_ok_iff :
    page.rowsIn (slot :: slots) = .ok rows ↔
      ∃ answer rest, page.row slot = .ok answer ∧ page.rowsIn slots = .ok rest ∧
        rows = (answer.map (slot, ·)).toList ++ rest := by
  constructor
  · intro h
    rw [rowsIn] at h
    split at h
    · cases h
    · cases h
    · rename_i hfirst hrest
      cases h
      exact ⟨none, rows, hfirst, hrest, rfl⟩
    · rename_i row rest hfirst hrest
      cases h
      exact ⟨some row, rest, hfirst, hrest, rfl⟩
  · rintro ⟨answer, rest, hfirst, hrest, rfl⟩
    rw [rowsIn, hfirst, hrest]
    cases answer <;> rfl

/-- Rows are given if no slot is broken, and then each row with its slot, in order. -/
theorem rowsIn_eq_ok_iff :
    page.rowsIn slots = .ok rows ↔ (∀ slot ∈ slots, ∃ found, page.row slot = .ok found) ∧
      slots.filterMap (fun slot => (page.row? slot).map (slot, ·)) = rows := by
  induction slots generalizing rows with
  | nil => exact ⟨fun h => ⟨nofun, Except.ok.inj h⟩, fun h => congrArg Except.ok h.2⟩
  | cons slot slots ih =>
    rw [rowsIn_cons_eq_ok_iff, List.forall_mem_cons]
    constructor
    · rintro ⟨found, rest, hfirst, hrest, rfl⟩
      obtain ⟨hslots, rfl⟩ := ih.mp hrest
      refine ⟨⟨⟨found, hfirst⟩, hslots⟩, ?_⟩
      rw [List.filterMap_cons, row?, hfirst]
      cases found <;> rfl
    · rintro ⟨⟨⟨found, hfirst⟩, hslots⟩, rfl⟩
      refine ⟨found, _, hfirst, ih.mpr ⟨hslots, rfl⟩, ?_⟩
      rw [List.filterMap_cons, row?, hfirst]
      cases found <;> rfl

theorem rowsIn_append_of_error (h : ∀ other ∈ before, ∃ found, page.row other = .ok found)
    (hs : page.row slot = .error e) : page.rowsIn (before ++ slot :: after) = .error e := by
  induction before with
  | nil => rw [List.nil_append, rowsIn, hs]
  | cons other before ih =>
    obtain ⟨⟨found, hrow⟩, hrest⟩ := List.forall_mem_cons.mp h
    rw [List.cons_append, rowsIn, hrow, ih hrest]

theorem rowsIn_congr (h : ∀ slot ∈ slots, other.row slot = page.row slot) :
    other.rowsIn slots = page.rowsIn slots := by
  induction slots with
  | nil => rfl
  | cons slot slots ih =>
    obtain ⟨hfirst, hrest⟩ := List.forall_mem_cons.mp h
    rw [rowsIn, rowsIn, hfirst, ih hrest]

theorem rowsIn_concat (h : page.rowsIn slots = .ok rows) (hr : page.row slot = .ok (some row)) :
    page.rowsIn (slots ++ [slot]) = .ok (rows ++ [(slot, row)]) := by
  obtain ⟨hslots, rfl⟩ := rowsIn_eq_ok_iff.mp h
  refine rowsIn_eq_ok_iff.mpr ⟨?_, ?_⟩
  · exact List.forall_mem_append.mpr ⟨hslots, List.forall_mem_singleton.mpr ⟨_, hr⟩⟩
  · rw [List.filterMap_append, List.filterMap_cons, row?_eq_some_iff.mpr hr]
    rfl

theorem sublist_of_rowsIn (h : page.rowsIn slots = .ok rows) :
    (rows.map Prod.fst).Sublist slots := by
  induction slots generalizing rows with
  | nil =>
    cases h
    exact .slnil
  | cons first slots ih =>
    obtain ⟨answer, rest, hfirst, hrest, rfl⟩ := rowsIn_cons_eq_ok_iff.mp h
    cases answer with
    | none => exact (ih hrest).cons first
    | some row => exact (ih hrest).cons_cons first

theorem mem_rowsIn (h : page.rowsIn slots = .ok rows) (hmem : slot ∈ slots)
    (hr : page.row slot = .ok (some row)) : (slot, row) ∈ rows := by
  obtain ⟨-, rfl⟩ := rowsIn_eq_ok_iff.mp h
  refine List.mem_filterMap.mpr ⟨slot, hmem, ?_⟩
  rw [row?_eq_some_iff.mpr hr]
  rfl

theorem liveRows_of_readable (h : page.Readable) :
    page.liveRows =
      .ok ((List.range page.slotCount).filterMap fun slot => (page.row? slot).map (slot, ·)) :=
  rowsIn_eq_ok_iff.mpr ⟨fun slot hslot => h slot (List.mem_range.mp hslot), rfl⟩

theorem BrokenAt.liveRows (h : page.BrokenAt slot e) : page.liveRows = .error e := by
  obtain ⟨more, hmore⟩ := Nat.exists_eq_add_of_lt h.lt
  have hsplit : List.range page.slotCount =
      List.range slot ++ slot :: List.range' (slot + 1) more := by
    rw [List.range_eq_range', List.range_eq_range', hmore, Nat.add_assoc, ← List.range'_append_1,
      Nat.zero_add, List.range'_succ]
  rw [Page.liveRows, hsplit]
  exact rowsIn_append_of_error (fun other hother => h.before other (List.mem_range.mp hother))
    h.row_eq

/-- Going through the slots one either meets a first broken one or none at all. -/
theorem readable_or_brokenAt (page : Page) : page.Readable ∨ ∃ slot e, page.BrokenAt slot e := by
  have hcount : ∀ count ≤ page.slotCount,
      (∀ slot < count, ∃ found, page.row slot = .ok found) ∨ ∃ slot e, page.BrokenAt slot e := by
    intro count
    induction count with
    | zero => exact fun _ => Or.inl nofun
    | succ count ih =>
      intro hlt
      rcases ih (Nat.le_of_succ_le hlt) with hbefore | hbroken
      · cases hrow : page.row count with
        | error e => exact Or.inr ⟨count, e, hlt, hrow, hbefore⟩
        | ok found =>
          refine Or.inl fun slot hslot => ?_
          rcases Nat.lt_succ_iff_lt_or_eq.mp hslot with hless | rfl
          · exact hbefore slot hless
          · exact ⟨found, hrow⟩
      · exact Or.inr hbroken
  exact hcount page.slotCount (Nat.le_refl _)

end

/-- The slot holds this row, whose bytes lie in the tuple area. -/
def KeepsRow (page : Page) (slot : Nat) (row : Row) : Prop :=
  slot < page.slotCount ∧ ∃ tuple, page.Keeps slot tuple ∧ Row.decode tuple = .ok row

def Legible (page : Page) : Prop :=
  ∀ slot < page.slotCount,
    (SlotEntry.ofImage page.image slot).IsDeleted ∨ ∃ row, page.KeepsRow slot row

section

variable {page after : Page} {row other : Row} {slot new : Nat} {bytes : List UInt8}

theorem KeepsRow.row_eq (h : page.KeepsRow slot row) : page.row slot = .ok (some row) := by
  obtain ⟨hlt, tuple, hkeeps, hdecode⟩ := h
  simp only [Page.row, hkeeps.read hlt, hdecode]

theorem KeepsRow.append (h : page.KeepsRow slot row) (ha : page.append bytes = .ok (new, after)) :
    after.KeepsRow slot row := by
  obtain ⟨hfit, -, rfl⟩ := append_eq_ok_iff.mp ha
  obtain ⟨hlt, tuple, hkeeps, hdecode⟩ := h
  refine ⟨?_, tuple, hkeeps.withTuple hlt hfit, hdecode⟩
  rw [slotCount_withTuple]
  exact Nat.lt_succ_of_lt hlt

/-- A row that is added gets the next slot. -/
theorem keepsRow_append_self (he : row.encode = .ok bytes)
    (ha : page.append bytes = .ok (new, after)) :
    new = page.slotCount ∧ after.slotCount = page.slotCount + 1 ∧ after.KeepsRow new row := by
  obtain ⟨hfit, rfl, rfl⟩ := append_eq_ok_iff.mp ha
  have hcount := slotCount_withTuple hfit
  refine ⟨rfl, hcount, ?_, bytes, keeps_withTuple_self hfit, Row.decode_of_encode he⟩
  rw [hcount]
  exact Nat.lt_succ_self _

theorem legible_empty (id : PageId) : (empty id).Legible := by
  intro slot hlt
  rw [slotCount_empty] at hlt
  exact absurd hlt (Nat.not_lt_zero slot)

theorem isDeleted_append (hlt : slot < page.slotCount)
    (hd : (SlotEntry.ofImage page.image slot).IsDeleted)
    (ha : page.append bytes = .ok (new, after)) :
    (SlotEntry.ofImage after.image slot).IsDeleted := by
  obtain ⟨hfit, -, rfl⟩ := append_eq_ok_iff.mp ha
  rw [entry_withTuple_of_lt hfit hlt]
  exact hd

theorem row_of_isDeleted (hlt : slot < page.slotCount)
    (hd : (SlotEntry.ofImage page.image slot).IsDeleted) : page.row slot = .ok none := by
  simp only [Page.row, Page.read, Page.slot, if_pos hlt, if_pos hd]

theorem Legible.readable (h : page.Legible) : page.Readable := by
  intro slot hlt
  rcases h slot hlt with hd | ⟨row, hrow⟩
  · exact ⟨none, row_of_isDeleted hlt hd⟩
  · exact ⟨some row, hrow.row_eq⟩

/-- A page stays legible when a row is added, and its slots are read as before. -/
theorem Legible.append (h : page.Legible) (he : row.encode = .ok bytes)
    (ha : page.append bytes = .ok (new, after)) :
    after.Legible ∧ ∀ slot < page.slotCount, after.row slot = page.row slot := by
  obtain ⟨hnew, hcount, hrow⟩ := keepsRow_append_self he ha
  constructor
  · intro slot hlt
    rw [hcount] at hlt
    rcases Nat.lt_succ_iff_lt_or_eq.mp hlt with hbefore | hlast
    · exact (h slot hbefore).imp (isDeleted_append hbefore · ha)
        fun ⟨other, hother⟩ => ⟨other, hother.append ha⟩
    · exact Or.inr ⟨row, hlast.trans hnew.symm ▸ hrow⟩
  · intro slot hlt
    rcases h slot hlt with hd | ⟨other, hother⟩
    · rw [row_of_isDeleted hlt hd]
      exact row_of_isDeleted (hcount ▸ Nat.lt_succ_of_lt hlt) (isDeleted_append hlt hd ha)
    · rw [hother.row_eq, (hother.append ha).row_eq]

theorem KeepsRow.mem_liveRows (h : page.KeepsRow slot row) {rows : List (Nat × Row)}
    (hrows : page.liveRows = .ok rows) : (slot, row) ∈ rows :=
  mem_rowsIn hrows (List.mem_range.mpr h.1) h.row_eq

theorem liveRows_empty (id : PageId) : (empty id).liveRows = .ok [] := by
  rw [liveRows, slotCount_empty]
  rfl

theorem nodup_of_liveRows {rows : List (Nat × Row)} (h : page.liveRows = .ok rows) :
    (rows.map Prod.fst).Nodup := (sublist_of_rowsIn h).nodup List.nodup_range

theorem Legible.exists_liveRows (h : page.Legible) : ∃ rows, page.liveRows = .ok rows :=
  ⟨_, liveRows_of_readable h.readable⟩

theorem Legible.liveRows_append (h : page.Legible) (he : row.encode = .ok bytes)
    (ha : page.append bytes = .ok (new, after)) {rows : List (Nat × Row)}
    (hrows : page.liveRows = .ok rows) : after.liveRows = .ok (rows ++ [(new, row)]) := by
  obtain ⟨hnew, hcount, hrow⟩ := keepsRow_append_self he ha
  have hsame : after.rowsIn (List.range page.slotCount) = .ok rows := by
    rw [← hrows]
    exact rowsIn_congr fun slot hmem => (h.append he ha).2 slot (List.mem_range.mp hmem)
  rw [liveRows, hcount, List.range_succ, ← hnew]
  rw [← hnew] at hsame
  exact rowsIn_concat hsame hrow.row_eq

end

end PagedStorage.Page
