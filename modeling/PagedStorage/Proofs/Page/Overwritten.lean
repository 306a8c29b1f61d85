import Mathlib.Tactic.ByContra
import PagedStorage.Proofs.Page.Edits

namespace PagedStorage

theorem Image.head?_slice (image : Image) {start stop : Nat} (hs : start < pageSize)
    (h : start < stop) (hstop : stop ≤ pageSize) :
    (image.slice start stop).head? = some image[start] := by
  have hlength : (image.slice start stop).length = stop - start := length_slice image hstop
  rw [List.head?_eq_getElem?, List.getElem?_eq_getElem (by omega), getElem_slice image _ hs]
  rfl

theorem Image.slice_self (image : Image) (start : Nat) : image.slice start start = [] := by
  rw [slice_eq_take_drop, Nat.sub_self, List.take_zero]

namespace Page

def start (page : Page) (index : Nat) : Nat := (SlotEntry.ofImage page.image index).offset.toNat

def stop (page : Page) (index : Nat) : Nat :=
  page.start index + (SlotEntry.ofImage page.image index).length.toNat

def IsDeleted (page : Page) (index : Nat) : Prop := (SlotEntry.ofImage page.image index).IsDeleted

/-- The slot is refused when it is read. -/
def IsStray (page : Page) (index : Nat) : Prop :=
  page.start index < page.header.lower.toNat ∨ pageSize < page.stop index

section

variable {page after : Page} {tuple : List UInt8} {index : Nat}

theorem read_of_isDeleted (hi : index < page.slotCount) (hd : page.IsDeleted index) :
    page.read index = .ok none := by
  rw [read, slot, if_pos hi]
  exact if_pos hd

theorem read_of_isStray (hi : index < page.slotCount) (hd : ¬page.IsDeleted index)
    (hs : page.IsStray index) :
    page.read index =
      .error (.format (.straySlot page.id index (page.start index) (page.stop index))) := by
  rw [read, slot, if_pos hi]
  refine (if_neg hd).trans (if_neg ?_)
  intro hin
  rcases hs with hs | hs
  · exact Nat.not_lt_of_le hin.1 hs
  · exact Nat.not_lt_of_le hin.2 hs

theorem read_of_not_isStray (hi : index < page.slotCount) (hd : ¬page.IsDeleted index)
    (hs : ¬page.IsStray index) :
    page.read index = .ok (some (page.image.slice (page.start index) (page.stop index))) := by
  rw [read, slot, if_pos hi]
  refine (if_neg hd).trans (if_pos ?_)
  rw [IsStray, not_or, Nat.not_lt, Nat.not_lt] at hs
  exact hs

theorem id_withTuple (hfit : page.CanFit tuple.length) :
    (page.withTuple tuple hfit).id = page.id := by
  simp only [withTuple]

theorem isDeleted_withTuple (hfit : page.CanFit tuple.length) (hi : index < page.slotCount) :
    (page.withTuple tuple hfit).IsDeleted index ↔ page.IsDeleted index := by
  rw [IsDeleted, IsDeleted, entry_withTuple_of_lt hfit hi]

theorem start_withTuple (hfit : page.CanFit tuple.length) (hi : index < page.slotCount) :
    (page.withTuple tuple hfit).start index = page.start index := by
  rw [start, start, entry_withTuple_of_lt hfit hi]

theorem stop_withTuple (hfit : page.CanFit tuple.length) (hi : index < page.slotCount) :
    (page.withTuple tuple hfit).stop index = page.stop index := by
  rw [stop, stop, start_withTuple hfit hi, entry_withTuple_of_lt hfit hi]

/-- The directory grows by an entry, and a tuple may begin no more where that entry is now. -/
theorem isStray_withTuple (hfit : page.CanFit tuple.length) (hi : index < page.slotCount) :
    (page.withTuple tuple hfit).IsStray index ↔
      page.start index < page.header.lower.toNat + entrySize ∨ pageSize < page.stop index := by
  have hlower : (page.header.grown tuple.length).lower.toNat =
      page.header.lower.toNat + entrySize := (Header.toNat_grown page.sound.2 tuple.length).2.1
  rw [IsStray, start_withTuple hfit hi, stop_withTuple hfit hi, header_withTuple, hlower]

/-- The slot is read as before when this tuple is added. -/
def KeepsAnswer (page : Page) (index : Nat) (tuple : List UInt8) : Prop :=
  ∀ slot after, page.append tuple = .ok (slot, after) → after.read index = page.read index

theorem keepsAnswer_iff_read (hfit : page.CanFit tuple.length) :
    page.KeepsAnswer index tuple ↔ (page.withTuple tuple hfit).read index = page.read index := by
  constructor
  · intro h
    exact h page.slotCount _ (append_eq_ok_iff.mpr ⟨hfit, rfl, rfl⟩)
  · intro h slot after happend
    obtain ⟨-, -, rfl⟩ := append_eq_ok_iff.mp happend
    exact h

theorem keepsAnswer_iff (hi : index < page.slotCount) (hfit : page.CanFit tuple.length) :
    page.KeepsAnswer index tuple ↔
      page.IsDeleted index ∨ page.IsStray index ∨
      page.header.lower.toNat + entrySize ≤ page.start index ∧
        (page.withTuple tuple hfit).image.slice (page.start index) (page.stop index) =
          page.image.slice (page.start index) (page.stop index) := by
  have hi' : index < (page.withTuple tuple hfit).slotCount := by
    rw [slotCount_withTuple]
    exact Nat.lt_succ_of_lt hi
  have hdeleted := isDeleted_withTuple hfit hi
  have hstray := isStray_withTuple hfit hi
  rw [keepsAnswer_iff_read hfit]
  by_cases hd : page.IsDeleted index
  · rw [read_of_isDeleted hi hd, read_of_isDeleted hi' (hdeleted.mpr hd)]
    exact iff_of_true rfl (Or.inl hd)
  have hd' := mt hdeleted.mp hd
  by_cases hs : page.IsStray index
  · have hs' := hstray.mpr (hs.imp_left fun hlt => Nat.lt_add_right entrySize hlt)
    rw [read_of_isStray hi hd hs, read_of_isStray hi' hd' hs', start_withTuple hfit hi,
      stop_withTuple hfit hi, id_withTuple]
    exact iff_of_true rfl (Or.inr (Or.inl hs))
  rw [read_of_not_isStray hi hd hs, or_iff_right hd, or_iff_right hs]
  by_cases hs' : (page.withTuple tuple hfit).IsStray index
  · -- The slot is refused from now on, for it begins within the new entry.
    have hlt := hstray.mp hs'
    rw [IsStray, not_or] at hs
    rw [read_of_isStray hi' hd' hs']
    exact iff_of_false nofun fun h => Nat.not_lt_of_le h.1 (hlt.resolve_right hs.2)
  · rw [read_of_not_isStray hi' hd' hs', start_withTuple hfit hi, stop_withTuple hfit hi,
      Except.ok.injEq, Option.some_inj]
    rw [hstray, not_or, Nat.not_lt] at hs'
    exact (and_iff_right hs'.1).symm

theorem head?_of_slice_withTuple (hfit : page.CanFit tuple.length) {start stop : Nat}
    (hs : start < pageSize) (hlt : start < stop) (hstop : stop ≤ pageSize)
    (hplace : start + tuple.length = page.header.upper.toNat)
    (hupper : start < page.header.upper.toNat)
    (hsame : (page.withTuple tuple hfit).image.slice start stop = page.image.slice start stop) :
    tuple.head? = some page.image[start] := by
  have hself := slice_withTuple_self hfit
  have hbegin : page.header.upper.toNat - tuple.length = start := by omega
  rw [hbegin] at hself
  have hfirst := congrArg List.head? hself
  have hkept := congrArg List.head? hsame
  rw [Image.head?_slice _ hs hupper page.upper_le] at hfirst
  rw [Image.head?_slice _ hs hlt hstop, Image.head?_slice _ hs hlt hstop] at hkept
  rw [← hfirst, hkept]

/-- A slot with bytes in the free space is changed by a tuple that reaches down to its first byte
and begins with another. -/
theorem exists_not_keepsAnswer (hi : index < page.slotCount) (hd : ¬page.IsDeleted index)
    (hs : ¬page.IsStray index) (hlower : page.header.lower.toNat + entrySize ≤ page.start index)
    (hupper : page.start index < page.header.upper.toNat)
    (hlt : page.start index < page.stop index) :
    ∃ tuple, ¬page.KeepsAnswer index tuple := by
  have hend := page.upper_le
  have hstart : page.start index < pageSize := by omega
  have hstop : page.stop index ≤ pageSize := by
    rw [IsStray] at hs
    omega
  let tuple : List UInt8 := (page.image[page.start index] + 1) ::
    List.replicate (page.header.upper.toNat - page.start index - 1) 0
  have hlength : tuple.length = page.header.upper.toNat - page.start index := by
    simp only [tuple, List.length_cons, List.length_replicate]
    omega
  have hfit : page.CanFit tuple.length := by
    have hfree := page.lower_add_freeSpace
    rw [CanFit, hlength]
    omega
  refine ⟨tuple, ?_⟩
  rw [keepsAnswer_iff hi hfit, or_iff_right hd, or_iff_right hs]
  rintro ⟨-, hsame⟩
  have hfirst := head?_of_slice_withTuple hfit hstart hlt hstop (by omega) hupper hsame
  have hbyte : page.image[page.start index] + 1 = page.image[page.start index] :=
    Option.some_inj.mp hfirst
  have hnat := congrArg UInt8.toNat hbyte
  rw [UInt8.toNat_add] at hnat
  have hone : (1 : UInt8).toNat = 1 := rfl
  omega

/-- A slot is to be read as before when a tuple is added. On a page that was filled by adding tuples
it is; on a page that comes from elsewhere the entry of the slot decides. Provided that the page has
room for any tuple at all, the slot is safe from all of them just when it is deleted or refused, or
begins in the tuple area, or has no bytes and begins behind the place of the next entry. -/
theorem read_append_iff (hi : index < page.slotCount) :
    (∀ tuple slot after, page.append tuple = .ok (slot, after) →
      after.read index = page.read index) ↔
    ¬page.CanFit 0 ∨ page.IsDeleted index ∨ page.IsStray index ∨
      page.header.upper.toNat ≤ page.start index ∨
      page.header.lower.toNat + entrySize ≤ page.start index ∧
        page.stop index = page.start index := by
  have hle : page.start index ≤ page.stop index := Nat.le_add_right _ _
  constructor
  · intro h
    by_contra hnot
    simp only [not_or, not_not, not_and, Nat.not_le] at hnot
    obtain ⟨hfit, hd, hs, hupper, hempty⟩ := hnot
    -- The smallest tuple takes an entry, so the slot begins behind it.
    have hnone : page.CanFit ([] : List UInt8).length := hfit
    have hkept := (keepsAnswer_iff hi hnone).mp (h [])
    have hlower := (hkept.resolve_left hd).resolve_left hs
    have hlt : page.start index < page.stop index :=
      Nat.lt_of_le_of_ne hle (Ne.symm (hempty hlower.1))
    obtain ⟨tuple, hchanged⟩ := exists_not_keepsAnswer hi hd hs hlower.1 hupper hlt
    exact hchanged (h tuple)
  · intro h tuple slot after happend
    obtain ⟨hfit, -, -⟩ := append_eq_ok_iff.mp happend
    have hroom := position_add_length_le hfit
    have hnext := SlotEntry.position_succ page.slotCount
    have hlower := page.lower_eq
    apply (keepsAnswer_iff hi hfit).mpr ?_ slot after happend
    rcases h with hfull | hd | hs | hupper | ⟨hbegin, hempty⟩
    · have hfree : entrySize + tuple.length ≤ page.freeSpace := hfit
      rw [CanFit] at hfull
      omega
    · exact Or.inl hd
    · exact Or.inr (Or.inl hs)
    · by_cases hs : page.IsStray index
      · exact Or.inr (Or.inl hs)
      have hstop : page.stop index ≤ pageSize := by
        rw [IsStray] at hs
        omega
      exact Or.inr (Or.inr ⟨by omega, slice_withTuple_of_le hfit hupper hstop⟩)
    · refine Or.inr (Or.inr ⟨hbegin, ?_⟩)
      rw [hempty, Image.slice_self, Image.slice_self]

/-- A slot that was filled by adding a tuple stays as it is. -/
theorem read_append_iff_added :
    ∃ page slot, (empty (.ofIndex 0)).append [0x61] = .ok (slot, page) ∧ slot < page.slotCount ∧
      ∀ tuple next after, page.append tuple = .ok (next, after) →
        after.read slot = page.read slot := by
  have htaken : ∃ page, (empty (.ofIndex 0)).append [0x61] = .ok (0, page) :=
    append_empty (.ofIndex 0) (by decide)
  obtain ⟨page, happend⟩ := htaken
  obtain ⟨hfit, -, rfl⟩ := append_eq_ok_iff.mp happend
  have hslots := slotCount_withTuple hfit
  have hkeeps := (keeps_withTuple_self hfit).upper_le
  rw [slotCount_empty] at hslots hkeeps
  have hi : 0 < ((empty (.ofIndex 0)).withTuple [0x61] hfit).slotCount := hslots ▸ Nat.zero_lt_one
  exact ⟨_, 0, happend, hi, (read_append_iff hi).mpr (Or.inr (Or.inr (Or.inr (Or.inl hkeeps))))⟩

theorem read_withTuple_of_span (hi : index < page.slotCount) (hd : ¬page.IsDeleted index)
    (hfit : page.CanFit tuple.length)
    (hstart : page.start index + tuple.length = page.header.upper.toNat)
    (hstop : page.stop index = page.header.upper.toNat) :
    (page.withTuple tuple hfit).read index = .ok (some tuple) := by
  have hroom := position_add_length_le hfit
  have hnext := SlotEntry.position_succ page.slotCount
  have hlower := page.lower_eq
  have hupper := page.upper_le
  have hbegin : page.start index = page.header.upper.toNat - tuple.length := by omega
  have hi' : index < (page.withTuple tuple hfit).slotCount := by
    rw [slotCount_withTuple]
    exact Nat.lt_succ_of_lt hi
  have hs' : ¬(page.withTuple tuple hfit).IsStray index := by
    rw [isStray_withTuple hfit hi]
    omega
  rw [read_of_not_isStray hi' (mt (isDeleted_withTuple hfit hi).mp hd) hs', start_withTuple hfit hi,
    stop_withTuple hfit hi, hstop, hbegin, slice_withTuple_self]

theorem slice_withTuple_of_free (hfit : page.CanFit tuple.length) {start stop : Nat}
    (hs : SlotEntry.position (page.slotCount + 1) ≤ start)
    (hstop : stop + tuple.length ≤ page.header.upper.toNat) :
    (page.withTuple tuple hfit).image.slice start stop = page.image.slice start stop := by
  have hupper := page.upper_le
  have hheader := SlotEntry.headerSize_le_position (page.slotCount + 1)
  apply Image.slice_congr (by omega)
  intro i hi hlo hhi
  apply getElem_withTuple hfit hi <;> omega

theorem slice_empty (id : PageId) {start stop : Nat} (hs : headerSize ≤ start)
    (hstop : stop ≤ pageSize) :
    (empty id).image.slice start stop = List.replicate (stop - start) 0 := by
  have hend : 0 + Header.empty.toBytes.length ≤ start := by
    rwa [Header.length_toBytes, Nat.zero_add]
  rw [empty, Image.slice_overwrite_of_disjoint _ hstop (Or.inr hend), Image.slice_blank _ _ hstop]

/-- A page is accepted whose only entry tells of the last free byte, and it is read as its tuple.
The next tuple goes to that very byte. -/
theorem read_overwritten :
    ∃ filled page after, (empty (.ofIndex 0)).append [0x61] = .ok (0, filled) ∧
      page = filled.withEntry 0 ⟨8190, 1⟩ ∧ ofBytes page.id page.image.toList = .ok page ∧
      page.read 0 = .ok (some [0]) ∧
      page.append [0x62] = .ok (1, after) ∧ after.read 0 = .ok (some [0x62]) := by
  have htaken : ∃ page, (empty (.ofIndex 0)).append [0x61] = .ok (0, page) :=
    append_empty (.ofIndex 0) (by decide)
  obtain ⟨filled, happend⟩ := htaken
  obtain ⟨hfirst, -, rfl⟩ := append_eq_ok_iff.mp happend
  have hhere : 0 < ((empty (.ofIndex 0)).withTuple [0x61] hfirst).slotCount := by
    rw [slotCount_withTuple, slotCount_empty]
    decide
  have hbefore : ((empty (.ofIndex 0)).withTuple [0x61] hfirst).image.slice 8190 8191 = [0] := by
    rw [slice_withTuple_of_free hfirst, slice_empty]
    · rfl
    · decide
    · decide
    · rw [slotCount_empty]
      decide
    · rw [header_empty]
      decide
  generalize hpage : ((empty (.ofIndex 0)).withTuple [0x61] hfirst).withEntry 0 ⟨8190, 1⟩ = page
  have hheader : page.header = Header.empty.grown 1 := by
    rw [← hpage, header_withEntry, header_withTuple, header_empty]
    rfl
  have hentry : SlotEntry.ofImage page.image 0 = ⟨8190, 1⟩ := by
    rw [← hpage, entry_withEntry_self hhere]
  have hslice : page.image.slice 8190 8191 = [0] := by
    rw [← hpage, withEntry, Image.slice_overwrite_of_disjoint _ (by decide) (Or.inr (by decide))]
    exact hbefore
  have hslots : page.slotCount = 1 := by
    rw [slotCount, hheader]
    rfl
  have hupper : page.header.upper.toNat = 8191 := by
    rw [hheader]
    rfl
  have hstart : page.start 0 = 8190 := by
    rw [start, hentry]
    rfl
  have hstop : page.stop 0 = 8191 := by
    rw [stop, hstart, hentry]
    rfl
  have hi : 0 < page.slotCount := hslots ▸ Nat.zero_lt_one
  have hd : ¬page.IsDeleted 0 := by
    rw [IsDeleted, hentry]
    decide
  have hs : ¬page.IsStray 0 := by
    rw [IsStray, hstart, hstop, hheader]
    decide
  have hfit : page.CanFit ([0x62] : List UInt8).length := by
    rw [CanFit, freeSpace, hheader]
    decide
  refine ⟨_, page, page.withTuple [0x62] hfit, happend, hpage.symm, ofBytes_toList page, ?_, ?_, ?_⟩
  · rw [read_of_not_isStray hi hd hs, hstart, hstop, hslice]
  · exact append_eq_ok_iff.mpr ⟨hfit, hslots.symm, rfl⟩
  · exact read_withTuple_of_span hi hd hfit (hstart ▸ hupper.symm) (hstop.trans hupper.symm)

end

end Page

end PagedStorage
