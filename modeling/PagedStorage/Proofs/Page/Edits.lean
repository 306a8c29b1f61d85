import Mathlib.Logic.ExistsUnique
import PagedStorage.Proofs.Page.Append

namespace PagedStorage.Page

/-- The bytes of the page with the mark in the entry of a slot, written in a copy of its image;
nothing if the entry would lie past the end. -/
def tombstone? (page : Page) (slot : Nat) : Option (List UInt8) :=
  (SlotEntry.ofBytes? page.image.toList slot).bind fun entry =>
    SlotEntry.writeTo? { entry with length := deletedMark } page.image.toList slot

inductive Edit
  | append (tuple : List UInt8)
  | delete (slot : Nat)
deriving DecidableEq

/-- The page after an edit. A tuple that is refused leaves the page as it is, and a deletion reads
the changed bytes as a page again; there is nothing if they are none. -/
def edit? (page : Page) : Edit → Option Page
  | .append tuple =>
    match page.append tuple with
    | .ok (_, after) => some after
    | .error _ => some page
  | .delete slot => (page.tombstone? slot).bind fun bytes => (ofBytes page.id bytes).toOption

def run? (page : Page) : List Edit → Option Page
  | [] => some page
  | edit :: edits => (page.edit? edit).bind (·.run? edits)

def taken (page : Page) : Edit → List (List UInt8)
  | .append tuple =>
    match page.append tuple with
    | .ok _ => [tuple]
    | .error _ => []
  | .delete _ => []

/-- The tuples that the page takes during a run, in order. -/
def added (page : Page) : List Edit → List (List UInt8)
  | [] => []
  | edit :: edits => page.taken edit ++ ((page.edit? edit).map (·.added edits)).getD []

/-- Each deletion of a run is of a slot that the page has by then. -/
def Permits (page : Page) (edits : List Edit) : Prop :=
  ∀ front slot back before, edits = front ++ .delete slot :: back →
    page.run? front = some before → slot < before.slotCount

/-- Where a tuple begins when all are packed downwards from the end of the page. -/
def startOf (tuples : List (List UInt8)) (index : Nat) : Nat :=
  pageSize - (tuples.take (index + 1)).flatten.length

def withEntry (page : Page) (slot : Nat) (entry : SlotEntry) : Page where
  id := page.id
  image := page.image.overwrite (SlotEntry.position slot) entry.toBytes
  sound := by
    rw [Header.ofImage_overwrite_of_le _ _ (SlotEntry.headerSize_le_position slot)]
    exact page.sound

section

variable {page : Page} {entry : SlotEntry} {slot index start stop : Nat}

theorem id_withEntry : (page.withEntry slot entry).id = page.id := by
  simp only [withEntry]

theorem header_withEntry : (page.withEntry slot entry).header = page.header :=
  Header.ofImage_overwrite_of_le _ _ (SlotEntry.headerSize_le_position slot)

theorem slotCount_withEntry : (page.withEntry slot entry).slotCount = page.slotCount :=
  congrArg (·.slotCount.toNat) header_withEntry

theorem position_succ_le (h : slot < page.slotCount) :
    SlotEntry.position (slot + 1) ≤ page.header.upper.toNat := by
  have hlower : page.header.lower.toNat ≤ page.header.upper.toNat := page.sound.2.2.1
  rw [lower_eq] at hlower
  refine Nat.le_trans ?_ hlower
  exact Nat.add_le_add_left (Nat.mul_le_mul_left entrySize h) headerSize

theorem entry_withEntry_self (h : slot < page.slotCount) :
    SlotEntry.ofImage (page.withEntry slot entry).image slot = entry :=
  SlotEntry.ofImage_overwrite _ _ (Nat.le_trans (position_succ_le h) page.upper_le)

theorem entry_withEntry_of_ne (h : index < page.slotCount) (hne : index ≠ slot) :
    SlotEntry.ofImage (page.withEntry slot entry).image index =
      SlotEntry.ofImage page.image index := by
  apply SlotEntry.ofImage_congr (Nat.le_trans (position_succ_le h) page.upper_le)
  intro i hi hlo hhi
  apply Image.getElem_overwrite_of_not_mem
  rw [SlotEntry.length_toBytes]
  simp only [SlotEntry.position, entrySize] at hlo hhi ⊢
  omega

theorem slice_withEntry (h : slot < page.slotCount) (hs : page.header.upper.toNat ≤ start)
    (hstop : stop ≤ pageSize) :
    (page.withEntry slot entry).image.slice start stop = page.image.slice start stop := by
  have hend := position_succ_le h
  rw [SlotEntry.position_succ] at hend
  apply Image.slice_overwrite_of_disjoint _ hstop
  rw [SlotEntry.length_toBytes]
  omega

theorem tombstone?_eq (h : slot < page.slotCount) :
    page.tombstone? slot = some (page.withEntry slot
      { SlotEntry.ofImage page.image slot with length := deletedMark }).image.toList := by
  have hend := Nat.le_trans (position_succ_le h) page.upper_le
  rw [tombstone?, SlotEntry.ofBytes?_toList _ hend]
  exact SlotEntry.writeTo?_toList _ _ hend

/-- The bytes with the mark are those of a page. -/
theorem edit?_delete (h : slot < page.slotCount) :
    page.edit? (.delete slot) = some (page.withEntry slot
      { SlotEntry.ofImage page.image slot with length := deletedMark }) := by
  have hread := ofBytes_toList (page.withEntry slot
    { SlotEntry.ofImage page.image slot with length := deletedMark })
  rw [id_withEntry] at hread
  rw [edit?, tombstone?_eq h, Option.bind_some, hread]
  rfl

end

section

variable {page after : Page} {edits front back past : List Edit} {tuple other : List UInt8}
  {tuples more : List (List UInt8)} {slot index : Nat}

theorem run?_append :
    page.run? (front ++ back) = (page.run? front).bind (·.run? back) := by
  induction front generalizing page with
  | nil => rfl
  | cons edit front ih =>
    rw [List.cons_append, run?, run?]
    cases page.edit? edit with
    | none => rfl
    | some after => exact ih

theorem Permits.start (h : page.Permits (front ++ back)) : page.Permits front := by
  rintro front' slot back' before rfl hrun
  exact h front' slot (back' ++ back) before (by simp) hrun

theorem Permits.rest (h : page.Permits (front ++ back)) (hrun : page.run? front = some after) :
    after.Permits back := by
  rintro front' slot back' before rfl hrun'
  refine h (front ++ front') slot back' before (by simp) ?_
  rw [run?_append, hrun]
  exact hrun'

theorem startOf_append (h : index < tuples.length) :
    startOf (tuples ++ more) index = startOf tuples index := by
  rw [startOf, startOf, List.take_append_of_le_length h]

theorem startOf_length : startOf (tuples ++ [tuple]) tuples.length =
    pageSize - (tuples.flatten.length + tuple.length) := by
  rw [startOf, List.take_of_length_le (by simp), List.flatten_concat, List.length_append]

theorem length_flatten_take (ht : tuples[index]? = some tuple) :
    (tuples.take (index + 1)).flatten.length =
      (tuples.take index).flatten.length + tuple.length := by
  obtain ⟨hlt, rfl⟩ := List.getElem?_eq_some_iff.mp ht
  rw [← List.take_append_getElem hlt, List.flatten_concat, List.length_append]

/-- Each byte of the tuples put one after another belongs to exactly one of them. -/
theorem existsUnique_take_flatten {position : Nat} (h : position < tuples.flatten.length) :
    ∃! index, (tuples.take index).flatten.length ≤ position ∧
      position < (tuples.take (index + 1)).flatten.length := by
  induction tuples generalizing position with
  | nil => exact absurd h (Nat.not_lt_zero position)
  | cons tuple tuples ih =>
    simp only [List.flatten_cons, List.length_append] at h
    by_cases hfirst : position < tuple.length
    · refine ⟨0, ⟨Nat.zero_le _, by simpa using hfirst⟩, ?_⟩
      rintro (_ | index) ⟨hlo, -⟩
      · rfl
      · simp only [List.take_succ_cons, List.flatten_cons, List.length_append] at hlo
        omega
    · obtain ⟨index, ⟨hlo, hhi⟩, honly⟩ :=
        ih (show position - tuple.length < tuples.flatten.length by omega)
      refine ⟨index + 1, ?_, ?_⟩
      · simp only [List.take_succ_cons, List.flatten_cons, List.length_append]
        omega
      · rintro (_ | other) ⟨hlo', hhi'⟩
        · simp only [Nat.zero_add, List.take_succ_cons, List.take_zero, List.flatten_cons,
            List.flatten_nil, List.append_nil] at hhi'
          omega
        · simp only [List.take_succ_cons, List.flatten_cons, List.length_append] at hlo' hhi'
          rw [honly other ⟨by omega, by omega⟩]

/-- The slots of the page have been given these tuples, and some of them were deleted. -/
structure Lists (page : Page) (tuples : List (List UInt8)) (past : List Edit) : Prop where
  slotCount : page.slotCount = tuples.length
  upper : page.header.upper.toNat + tuples.flatten.length = pageSize
  deleted : ∀ slot, .delete slot ∈ past → slot < tuples.length
  entry : ∀ index tuple, tuples[index]? = some tuple →
    SlotEntry.ofImage page.image index = ⟨UInt16.ofNat (startOf tuples index),
      if .delete index ∈ past then deletedMark else UInt16.ofNat tuple.length⟩
  slice : ∀ index tuple, tuples[index]? = some tuple →
    page.image.slice (startOf tuples index) (startOf tuples index + tuple.length) = tuple

theorem lists_empty (id : PageId) : (empty id).Lists [] [] where
  slotCount := slotCount_empty id
  upper := by
    rw [header_empty]
    rfl
  deleted := nofun
  entry := nofun
  slice := nofun

namespace Lists

theorem index_lt (h : page.Lists tuples past) (ht : tuples[index]? = some tuple) :
    index < page.slotCount := by
  rw [h.slotCount]
  exact (List.getElem?_eq_some_iff.mp ht).1

/-- Each tuple ends where the one before it begins, the first at the end of the page. -/
theorem startOf_add_length (h : page.Lists tuples past) (ht : tuples[index]? = some tuple) :
    page.header.upper.toNat ≤ startOf tuples index ∧
    startOf tuples index + (tuples.take (index + 1)).flatten.length = pageSize ∧
    startOf tuples index + tuple.length + (tuples.take index).flatten.length = pageSize := by
  have hupper := h.upper
  have hnext := length_flatten_take ht
  have hsplit : (tuples.take (index + 1)).flatten.length +
      (tuples.drop (index + 1)).flatten.length = tuples.flatten.length := by
    rw [← List.length_append, ← List.flatten_append, List.take_append_drop]
  rw [startOf]
  omega

theorem toNat_entry (h : page.Lists tuples past) (ht : tuples[index]? = some tuple) :
    (SlotEntry.ofImage page.image index).offset.toNat = startOf tuples index := by
  have hend : startOf tuples index ≤ 8192 := Nat.sub_le _ _
  rw [h.entry index tuple ht, UInt16.toNat_ofNat']
  omega

theorem slot_eq (h : page.Lists tuples past) (ht : tuples[index]? = some tuple) :
    page.slot index = .ok (SlotEntry.ofImage page.image index) := if_pos (h.index_lt ht)

theorem keeps (h : page.Lists tuples past) (ht : tuples[index]? = some tuple)
    (hlive : .delete index ∉ past) : page.Keeps index tuple := by
  have hsize : pageSize = 8192 := rfl
  obtain ⟨hupper, -, hend⟩ := h.startOf_add_length ht
  have hentry := h.entry index tuple ht
  rw [if_neg hlive] at hentry
  have hlength : (SlotEntry.ofImage page.image index).length.toNat = tuple.length := by
    rw [hentry, UInt16.toNat_ofNat']
    omega
  have hslice := h.slice index tuple ht
  rw [← h.toNat_entry ht, ← hlength] at hslice
  refine ⟨?_, ?_, ?_, hslice⟩
  · -- No tuple of a page is as long as the mark of a deleted entry.
    intro hdeleted
    have hmark : (SlotEntry.ofImage page.image index).length.toNat = 65535 :=
      congrArg UInt16.toNat hdeleted
    omega
  · rw [h.toNat_entry ht]
    exact hupper
  · rw [h.toNat_entry ht, hlength]
    omega

theorem read_eq (h : page.Lists tuples past) (ht : tuples[index]? = some tuple) :
    page.read index = .ok (if .delete index ∈ past then none else some tuple) := by
  by_cases hd : .delete index ∈ past
  · have hentry := h.entry index tuple ht
    rw [if_pos hd] at hentry
    rw [if_pos hd, read, h.slot_eq ht, hentry]
    rfl
  · rw [if_neg hd]
    exact (h.keeps ht hd).read (h.index_lt ht)

theorem past_append (h : page.Lists tuples past) (tuple : List UInt8) :
    page.Lists tuples (past ++ [.append tuple]) where
  slotCount := h.slotCount
  upper := h.upper
  deleted slot hmem := h.deleted slot (by simpa using hmem)
  entry index other ho := by simpa using h.entry index other ho
  slice := h.slice

/-- A tuple that the page takes comes last, right below those that are there. -/
theorem withTuple (h : page.Lists tuples past) (hfit : page.CanFit tuple.length) :
    (page.withTuple tuple hfit).Lists (tuples ++ [tuple]) (past ++ [.append tuple]) := by
  have hgrown : (page.header.grown tuple.length).upper.toNat =
      page.header.upper.toNat - tuple.length :=
    (Header.toNat_grown page.sound.2 tuple.length).2.2
  have hroom := position_add_length_le hfit
  have hupper := h.upper
  have hstart : startOf (tuples ++ [tuple]) tuples.length =
      page.header.upper.toNat - tuple.length := by
    rw [startOf_length]
    omega
  constructor
  case slotCount =>
    rw [slotCount_withTuple, h.slotCount, List.length_append, List.length_singleton]
  case upper =>
    rw [header_withTuple, hgrown, List.flatten_concat, List.length_append]
    omega
  case deleted =>
    intro slot hmem
    have hlt := h.deleted slot (by simpa using hmem)
    rw [List.length_append]
    exact Nat.lt_add_right _ hlt
  case entry =>
    intro index other ho
    rcases getElem?_concat ho with ho | ⟨rfl, rfl⟩
    · rw [entry_withTuple_of_lt hfit (h.index_lt ho), h.entry index other ho,
        startOf_append (List.getElem?_eq_some_iff.mp ho).1]
      simp
    · have hlive : Edit.delete tuples.length ∉ past ++ [.append tuple] := by
        intro hmem
        exact absurd (h.deleted _ (by simpa using hmem)) (Nat.lt_irrefl _)
      rw [if_neg hlive, ← h.slotCount, entry_withTuple_self, nextEntry, h.slotCount, hstart]
  case slice =>
    intro index other ho
    rcases getElem?_concat ho with ho | ⟨rfl, rfl⟩
    · obtain ⟨hlow, -, hhigh⟩ := h.startOf_add_length ho
      rw [startOf_append (List.getElem?_eq_some_iff.mp ho).1,
        slice_withTuple_of_le hfit hlow (by omega)]
      exact h.slice index other ho
    · rw [hstart, Nat.sub_add_cancel (by omega)]
      exact slice_withTuple_self hfit

/-- A deletion leaves the tuple of the slot where it is, and changes no other slot. -/
theorem withEntry (h : page.Lists tuples past) (hs : slot < page.slotCount) :
    (page.withEntry slot
      { SlotEntry.ofImage page.image slot with length := deletedMark }).Lists tuples
        (past ++ [.delete slot]) := by
  constructor
  case slotCount => exact slotCount_withEntry.trans h.slotCount
  case upper =>
    rw [header_withEntry]
    exact h.upper
  case deleted =>
    intro other hmem
    rcases List.mem_append.mp hmem with hmem | hmem
    · exact h.deleted other hmem
    · cases List.mem_singleton.mp hmem
      exact h.slotCount ▸ hs
  case entry =>
    intro index tuple ht
    by_cases hi : index = slot
    · subst hi
      rw [entry_withEntry_self hs, h.entry index tuple ht]
      simp
    · rw [entry_withEntry_of_ne (h.index_lt ht) hi, h.entry index tuple ht]
      simp [hi]
  case slice =>
    intro index tuple ht
    obtain ⟨hlow, -, hhigh⟩ := h.startOf_add_length ht
    rw [slice_withEntry hs hlow (by omega)]
    exact h.slice index tuple ht

theorem edit (h : page.Lists tuples past) (edit : Edit)
    (hown : ∀ slot, edit = .delete slot → slot < page.slotCount) :
    ∃ after, page.edit? edit = some after ∧ after.id = page.id ∧
      after.Lists (tuples ++ page.taken edit) (past ++ [edit]) := by
  cases edit with
  | append tuple =>
    cases ha : page.append tuple with
    | ok given =>
      obtain ⟨hfit, -, hafter⟩ := append_eq_ok_iff.mp ha
      simp only [edit?, taken, ha]
      exact ⟨given.2, rfl, id_of_append ha, hafter ▸ h.withTuple hfit⟩
    | error e =>
      simp only [edit?, taken, ha, List.append_nil]
      exact ⟨page, rfl, rfl, h.past_append tuple⟩
  | delete slot =>
    have hs := hown slot rfl
    rw [taken, List.append_nil]
    exact ⟨_, edit?_delete hs, id_withEntry, h.withEntry hs⟩

theorem run (h : page.Lists tuples past) (hp : page.Permits edits) :
    ∃ after, page.run? edits = some after ∧ after.id = page.id ∧
      after.Lists (tuples ++ page.added edits) (past ++ edits) := by
  induction edits generalizing page tuples past with
  | nil =>
    rw [added, List.append_nil, List.append_nil]
    exact ⟨page, rfl, rfl, h⟩
  | cons edit edits ih =>
    obtain ⟨after, hedit, hid, hafter⟩ := h.edit edit fun slot he =>
      hp [] slot edits page (by rw [he]; rfl) rfl
    have hfirst : page.run? [edit] = some after := by
      rw [run?, hedit]
      rfl
    have hrest : after.Permits edits :=
      Permits.rest (show page.Permits ([edit] ++ edits) from hp) hfirst
    obtain ⟨last, hrun, hlast, hlists⟩ := ih hafter hrest
    refine ⟨last, ?_, hlast.trans hid, ?_⟩
    · rw [run?, hedit]
      exact hrun
    · rw [added, hedit]
      simpa using hlists

/-- An entry points to the place that its tuple was given, whatever the page has taken since. -/
theorem offset_eq {last : Page} (h : page.Lists tuples past)
    (ha : page.append tuple = .ok (slot, after)) (hp : after.Permits back)
    (hrun : after.run? back = some last) :
    ∃ entry, last.slot slot = .ok entry ∧ entry.offset = after.header.upper := by
  obtain ⟨hfit, hslot, hafter⟩ := append_eq_ok_iff.mp ha
  have hlists : after.Lists (tuples ++ [tuple]) (past ++ [.append tuple]) :=
    hafter ▸ h.withTuple hfit
  obtain ⟨_, hrun', -, hlast⟩ := hlists.run hp
  cases hrun.symm.trans hrun'
  have hnew : (tuples ++ [tuple] ++ after.added back)[slot]? = some tuple := by
    rw [hslot, h.slotCount, List.append_assoc, List.getElem?_append_right (Nat.le_refl _)]
    simp
  refine ⟨_, hlast.slot_eq hnew, UInt16.toNat_inj.mp ?_⟩
  have hupper := hlists.upper
  rw [List.flatten_concat, List.length_append] at hupper
  rw [hlast.toNat_entry hnew, startOf_append (by simp [hslot, h.slotCount]), hslot, h.slotCount,
    startOf_length]
  omega

/-- The same for any tuple that the page takes on the way. -/
theorem offset_run {before last : Page} (h : page.Lists tuples past)
    (hp : page.Permits (front ++ .append tuple :: back))
    (hrun : page.run? (front ++ .append tuple :: back) = some last)
    (hbefore : page.run? front = some before) (ha : before.append tuple = .ok (slot, after)) :
    ∃ entry, last.slot slot = .ok entry ∧ entry.offset = after.header.upper := by
  obtain ⟨_, hbefore', -, hlisted⟩ := h.run hp.start
  cases hbefore.symm.trans hbefore'
  have hstep : before.run? [.append tuple] = some after := by
    simp only [run?, edit?, ha, Option.bind_some]
  have hrest : after.Permits back :=
    Permits.rest (show before.Permits ([.append tuple] ++ back) from hp.rest hbefore) hstep
  rw [← List.singleton_append, run?_append, hbefore, Option.bind_some, run?_append, hstep] at hrun
  exact hlisted.offset_eq ha hrest hrun

/-- Each byte of the tuple area belongs to one tuple. -/
theorem existsUnique_tuple (h : page.Lists tuples past) {position : Nat}
    (hlow : page.header.upper.toNat ≤ position) (hhigh : position < pageSize) :
    ∃! index, ∃ tuple entry, tuples[index]? = some tuple ∧ page.slot index = .ok entry ∧
      entry.offset.toNat ≤ position ∧ position < entry.offset.toNat + tuple.length := by
  have hupper := h.upper
  -- The tuples come in order from the end of the page downwards.
  obtain ⟨index, ⟨hlo, hhi⟩, honly⟩ :=
    existsUnique_take_flatten (show pageSize - 1 - position < tuples.flatten.length by omega)
  have hlt : index < tuples.length := by
    apply Nat.lt_of_not_le
    intro hge
    rw [List.take_of_length_le hge] at hlo
    omega
  refine ⟨index, ?_, ?_⟩
  · have ht := List.getElem?_eq_getElem hlt
    obtain ⟨-, hstart, hend⟩ := h.startOf_add_length ht
    refine ⟨tuples[index], _, ht, h.slot_eq ht, ?_⟩
    rw [h.toNat_entry ht]
    omega
  · rintro other ⟨tuple, entry, ht, hslot, hcover⟩
    obtain ⟨-, hstart, hend⟩ := h.startOf_add_length ht
    cases (h.slot_eq ht).symm.trans hslot
    rw [h.toNat_entry ht] at hcover
    exact honly other ⟨by omega, by omega⟩

end Lists

end

/-- A run of edits makes an empty page a list of tuples. Let each edit add a tuple, whatever its
bytes and whether or not there is room for it, or mark a slot that the page has by then as deleted
in a copy of the image that is then read as a page. Every such image is a page. There are as many
slots as tuples were taken, and a slot gives its tuple, or nothing if it was deleted. The directory
ends behind the last entry, and the tuples take up the area from the upper bound to the end of the
page without gaps and without overlaps, each ending where the one before it begins; the entry of a
slot gives the upper bound as it was when the tuple was taken. A tuple is refused just when it and
its entry need more than lies between the two bounds, both of which the error tells, and the page is
then left as it is. The bytes of the page are read as this very page. -/
theorem run_edits (id : PageId) (edits : List Edit) (h : (empty id).Permits edits) :
    let tuples := (empty id).added edits
    ∃ page, (empty id).run? edits = some page ∧ page.id = id ∧
      page.slotCount = tuples.length ∧
      (∀ index tuple, tuples[index]? = some tuple →
        page.read index = .ok (if .delete index ∈ edits then none else some tuple)) ∧
      (∀ index, tuples.length ≤ index →
        page.read index = .error (.slotOutOfRange index tuples.length)) ∧
      page.header.lower.toNat = headerSize + entrySize * tuples.length ∧
      page.header.upper.toNat + tuples.flatten.length = pageSize ∧
      (∀ index tuple, tuples[index]? = some tuple → ∃ entry, page.slot index = .ok entry ∧
        page.header.upper.toNat ≤ entry.offset.toNat ∧
        entry.offset.toNat + (tuples.take (index + 1)).flatten.length = pageSize ∧
        entry.offset.toNat + tuple.length + (tuples.take index).flatten.length = pageSize) ∧
      (∀ front tuple back before slot after, edits = front ++ .append tuple :: back →
        (empty id).run? front = some before → before.append tuple = .ok (slot, after) →
        ∃ entry, page.slot slot = .ok entry ∧ entry.offset = after.header.upper) ∧
      (∀ position, page.header.upper.toNat ≤ position → position < pageSize →
        ∃! index, ∃ tuple entry, tuples[index]? = some tuple ∧ page.slot index = .ok entry ∧
          entry.offset.toNat ≤ position ∧ position < entry.offset.toNat + tuple.length) ∧
      (∀ tuple, entrySize + tuple.length ≤
          page.header.upper.toNat - page.header.lower.toNat →
        ∃ after, page.append tuple = .ok (tuples.length, after)) ∧
      (∀ tuple, page.header.upper.toNat - page.header.lower.toNat <
          entrySize + tuple.length →
        page.append tuple = .error (.pageFull id (entrySize + tuple.length)
          (page.header.upper.toNat - page.header.lower.toNat)) ∧
        page.edit? (.append tuple) = some page) ∧
      ofBytes id page.image.toList = .ok page := by
  intro tuples
  obtain ⟨page, hrun, hid, hlists⟩ := (lists_empty id).run h
  rw [List.nil_append, List.nil_append] at hlists
  have hcount : page.slotCount = tuples.length := hlists.slotCount
  refine ⟨page, hrun, hid, hcount, fun index tuple ht => hlists.read_eq ht, ?_, ?_, hlists.upper,
    ?_, ?_, fun position hlow hhigh => hlists.existsUnique_tuple hlow hhigh, ?_, ?_, ?_⟩
  · intro index hi
    rw [Page.read, slot, if_neg (by omega), hcount]
  · rw [lower_eq, hcount]
    rfl
  · intro index tuple ht
    refine ⟨_, hlists.slot_eq ht, ?_⟩
    rw [hlists.toNat_entry ht]
    exact hlists.startOf_add_length ht
  · rintro front tuple back before slot after hsplit hbefore ha
    rw [hsplit] at h hrun
    exact (lists_empty id).offset_run h hrun hbefore ha
  · intro tuple hfit
    exact ⟨page.withTuple tuple hfit, append_eq_ok_iff.mpr ⟨hfit, hcount.symm, rfl⟩⟩
  · intro tuple hfull
    have ha : page.append tuple = .error (.pageFull page.id _ _) :=
      dif_neg (Nat.not_le_of_lt hfull)
    rw [hid] at ha
    exact ⟨ha, by simp only [edit?, ha]⟩
  · have hbytes := ofBytes_toList page
    rwa [hid] at hbytes

/-- A deleted tuple keeps its slot. -/
theorem run_edits_deleted :
    ∃ page, (empty (.ofIndex 0)).run? [.append [7], .delete 0] = some page ∧
      page.slotCount = 1 ∧ page.read 0 = .ok none := by
  have hsize : [(7 : UInt8)].length ≤ maxTupleSize := by decide
  obtain ⟨after, ha⟩ := append_empty (.ofIndex 0) hsize
  have hfirst : (empty (.ofIndex 0)).edit? (.append [7]) = some after := by
    simp only [edit?, ha]
  have hcount : after.slotCount = 1 := by
    obtain ⟨hfit, -, rfl⟩ := append_eq_ok_iff.mp ha
    rw [slotCount_withTuple, slotCount_empty]
  have hpermits : (empty (.ofIndex 0)).Permits [.append [7], .delete 0] := by
    rintro (_ | ⟨edit, _ | ⟨_, _⟩⟩) slot back before hsplit hrun
    · cases hsplit
    · cases hsplit
      rw [run?, hfirst] at hrun
      cases hrun
      rw [hcount]
      exact Nat.zero_lt_one
    · simp at hsplit
  have hadded : (empty (.ofIndex 0)).added [.append [7], .delete 0] = [[7]] := by
    simp [added, taken, ha, hfirst, edit?_delete (show 0 < after.slotCount by omega)]
  obtain ⟨page, hrun, -, hslots, hread, -⟩ := run_edits (.ofIndex 0) _ hpermits
  rw [hadded] at hslots hread
  exact ⟨page, hrun, hslots, hread 0 [7] rfl⟩

end PagedStorage.Page
