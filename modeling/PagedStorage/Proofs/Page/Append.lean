import PagedStorage.Page.Basic

namespace PagedStorage.Page

section

variable {page : Page} {tuple : List UInt8} {index start stop : Nat}

theorem id_of_append {after : Page} {slot : Nat} (h : page.append tuple = .ok (slot, after)) :
    after.id = page.id := by
  obtain ⟨hfit, -, rfl⟩ := append_eq_ok_iff.mp h
  simp only [withTuple]

/-- The new entry and the new tuple have room between the directory and the tuple area. -/
theorem position_add_length_le (h : page.CanFit tuple.length) :
    SlotEntry.position (page.slotCount + 1) + tuple.length ≤ page.header.upper.toNat := by
  have hfree := page.lower_add_freeSpace
  rw [lower_eq] at hfree
  rw [SlotEntry.position_succ]
  unfold CanFit at h
  omega

theorem getElem_withTuple (h : page.CanFit tuple.length) {i : Nat} (hi : i < pageSize)
    (hheader : headerSize ≤ i)
    (hentry : i < SlotEntry.position page.slotCount ∨ SlotEntry.position (page.slotCount + 1) ≤ i)
    (htuple : i < page.header.upper.toNat - tuple.length ∨ page.header.upper.toNat ≤ i) :
    (page.withTuple tuple h).image[i] = page.image[i] := by
  have hroom := position_add_length_le h
  rw [SlotEntry.position_succ] at hentry
  simp only [withTuple]
  rw [Image.getElem_overwrite_of_not_mem, Image.getElem_overwrite_of_not_mem,
    Image.getElem_overwrite_of_not_mem]
  · omega
  · rw [SlotEntry.length_toBytes]
    exact hentry
  · rw [Header.length_toBytes]
    omega

theorem entry_withTuple_of_lt (h : page.CanFit tuple.length) (hi : index < page.slotCount) :
    SlotEntry.ofImage (page.withTuple tuple h).image index =
      SlotEntry.ofImage page.image index := by
  have hroom := position_add_length_le h
  have hupper := page.upper_le
  have hnext : SlotEntry.position (index + 1) ≤ SlotEntry.position page.slotCount :=
    Nat.add_le_add_left (Nat.mul_le_mul_left entrySize hi) headerSize
  have hlast := SlotEntry.position_succ page.slotCount
  have hfirst := SlotEntry.headerSize_le_position index
  apply SlotEntry.ofImage_congr
  · omega
  · intro i hi hlo hhi
    apply getElem_withTuple h hi <;> omega

theorem entry_withTuple_self (h : page.CanFit tuple.length) :
    SlotEntry.ofImage (page.withTuple tuple h).image page.slotCount =
      page.nextEntry tuple.length := by
  have hroom := position_add_length_le h
  have hupper := page.upper_le
  have hfirst := SlotEntry.headerSize_le_position page.slotCount
  have hfits : SlotEntry.position (page.slotCount + 1) ≤ pageSize := by omega
  rw [← SlotEntry.ofImage_overwrite
    (page.image.overwrite (page.header.upper.toNat - tuple.length) tuple)
    (page.nextEntry tuple.length) hfits]
  apply SlotEntry.ofImage_congr hfits
  intro i hi hlo hhi
  -- Only the header is written over the entry's bytes, and it ends before them.
  apply Image.getElem_overwrite_of_not_mem
  rw [Header.length_toBytes]
  omega

theorem slice_withTuple_of_le (h : page.CanFit tuple.length)
    (hs : page.header.upper.toNat ≤ start) (hstop : stop ≤ pageSize) :
    (page.withTuple tuple h).image.slice start stop = page.image.slice start stop := by
  have hroom := position_add_length_le h
  have hfirst := SlotEntry.headerSize_le_position (page.slotCount + 1)
  apply Image.slice_congr hstop
  intro i hi hlo hhi
  apply getElem_withTuple h hi <;> omega

theorem slice_withTuple_self (h : page.CanFit tuple.length) :
    (page.withTuple tuple h).image.slice (page.header.upper.toNat - tuple.length)
      page.header.upper.toNat = tuple := by
  have hroom := position_add_length_le h
  have hupper := page.upper_le
  have hfirst := SlotEntry.headerSize_le_position page.slotCount
  have hlast := SlotEntry.position_succ page.slotCount
  have hfits : tuple.length ≤ page.header.upper.toNat := by omega
  have hwritten : (page.image.overwrite (page.header.upper.toNat - tuple.length) tuple).slice
      (page.header.upper.toNat - tuple.length)
      (page.header.upper.toNat - tuple.length + tuple.length) = tuple :=
    Image.slice_overwrite page.image (by omega)
  rw [Nat.sub_add_cancel hfits] at hwritten
  -- The entry and the header are written later, but below the tuple.
  simp only [withTuple]
  rw [Image.slice_overwrite_of_disjoint _ hupper, Image.slice_overwrite_of_disjoint _ hupper,
    hwritten]
  · rw [SlotEntry.length_toBytes]
    omega
  · rw [Header.length_toBytes]
    omega

end

/-- The entry of a slot points to this tuple, which lies within the tuple area. -/
structure Keeps (page : Page) (index : Nat) (tuple : List UInt8) : Prop where
  live : ¬(SlotEntry.ofImage page.image index).IsDeleted
  upper_le : page.header.upper.toNat ≤ (SlotEntry.ofImage page.image index).offset.toNat
  stop_le : (SlotEntry.ofImage page.image index).offset.toNat +
    (SlotEntry.ofImage page.image index).length.toNat ≤ pageSize
  slice : page.image.slice (SlotEntry.ofImage page.image index).offset.toNat
    ((SlotEntry.ofImage page.image index).offset.toNat +
      (SlotEntry.ofImage page.image index).length.toNat) = tuple

structure Packed (page : Page) (tuples : List (List UInt8)) : Prop where
  slotCount : page.slotCount = tuples.length
  keeps : ∀ index tuple, tuples[index]? = some tuple → page.Keeps index tuple

section

variable {page : Page} {tuple other : List UInt8} {tuples : List (List UInt8)} {index : Nat}

theorem Keeps.read (h : page.Keeps index tuple) (hi : index < page.slotCount) :
    page.read index = .ok (some tuple) := by
  have hlower : page.header.lower.toNat ≤ page.header.upper.toNat := page.sound.2.2.1
  rw [Page.read, slot, if_pos hi]
  simp only [if_neg h.live]
  rw [if_pos ⟨Nat.le_trans hlower h.upper_le, h.stop_le⟩, h.slice]

/-- A tuple that is there stays where it is when another is added. -/
theorem Keeps.withTuple (h : page.Keeps index other) (hi : index < page.slotCount)
    (hfit : page.CanFit tuple.length) : (page.withTuple tuple hfit).Keeps index other := by
  obtain ⟨-, -, hupper⟩ := Header.toNat_grown page.sound.2 tuple.length
  have hentry := entry_withTuple_of_lt hfit hi
  constructor <;> rw [hentry]
  · exact h.live
  · rw [header_withTuple]
    exact Nat.le_trans (Nat.le_trans (Nat.le_of_eq hupper) (Nat.sub_le _ _)) h.upper_le
  · exact h.stop_le
  · rw [slice_withTuple_of_le hfit h.upper_le h.stop_le]
    exact h.slice

theorem keeps_withTuple_self (hfit : page.CanFit tuple.length) :
    (page.withTuple tuple hfit).Keeps page.slotCount tuple := by
  obtain ⟨-, -, hupper⟩ := Header.toNat_grown page.sound.2 tuple.length
  have hroom := position_add_length_le hfit
  have hend := page.upper_le
  have hsize : pageSize = 8192 := rfl
  have hoffset : (page.nextEntry tuple.length).offset.toNat =
      page.header.upper.toNat - tuple.length := by
    rw [nextEntry, UInt16.toNat_ofNat']
    omega
  have hlength : (page.nextEntry tuple.length).length.toNat = tuple.length := by
    rw [nextEntry, UInt16.toNat_ofNat']
    omega
  have hentry := entry_withTuple_self hfit
  have hstop : page.header.upper.toNat - tuple.length + tuple.length =
      page.header.upper.toNat := by omega
  constructor <;> rw [hentry]
  · -- No tuple that fits is as long as the mark of a deleted entry.
    intro hdeleted
    have hmark := congrArg UInt16.toNat hdeleted
    rw [hlength] at hmark
    simp only [deletedMark] at hmark
    change tuple.length = 65535 at hmark
    omega
  · rw [hoffset, header_withTuple]
    exact Nat.le_of_eq hupper
  · rw [hoffset, hlength, hstop]
    exact hend
  · rw [hoffset, hlength, hstop]
    exact slice_withTuple_self hfit

/-- A page without slots has room for any tuple that is not too long for all pages. -/
theorem append_empty (id : PageId) (h : tuple.length ≤ maxTupleSize) :
    ∃ after, (empty id).append tuple = .ok (0, after) := by
  have hfit : (empty id).CanFit tuple.length := by
    rw [CanFit, freeSpace_empty]
    simp only [maxTupleSize, pageSize, headerSize, entrySize] at h ⊢
    omega
  exact ⟨_, append_eq_ok_iff.mpr ⟨hfit, (slotCount_empty id).symm, rfl⟩⟩

theorem packed_empty (id : PageId) : (empty id).Packed [] := ⟨slotCount_empty id, nofun⟩

/-- The slots of a packed page are read as the tuples that they were given. -/
theorem Packed.read (h : page.Packed tuples) (ht : tuples[index]? = some tuple) :
    page.read index = .ok (some tuple) := by
  apply (h.keeps index tuple ht).read
  rw [h.slotCount]
  exact (List.getElem?_eq_some_iff.mp ht).1

theorem getElem?_concat (h : (tuples ++ [tuple])[index]? = some other) :
    tuples[index]? = some other ∨ index = tuples.length ∧ tuple = other := by
  by_cases hlt : index < tuples.length
  · rw [List.getElem?_append_left hlt] at h
    exact Or.inl h
  · rw [List.getElem?_append_right (Nat.le_of_not_lt hlt)] at h
    obtain ⟨hlast, hother⟩ := List.getElem?_eq_some_iff.mp h
    rw [List.length_singleton] at hlast
    refine Or.inr ⟨by omega, ?_⟩
    rw [← hother, List.getElem_singleton]

theorem Packed.withTuple (h : page.Packed tuples) (hfit : page.CanFit tuple.length) :
    (page.withTuple tuple hfit).Packed (tuples ++ [tuple]) where
  slotCount := by
    rw [slotCount_withTuple, h.slotCount, List.length_append, List.length_singleton]
  keeps index other ho := by
    rcases getElem?_concat ho with ho | ⟨hlast, rfl⟩
    · have hi := (List.getElem?_eq_some_iff.mp ho).1
      exact (h.keeps index other ho).withTuple (h.slotCount ▸ hi) hfit
    · rw [hlast, ← h.slotCount]
      exact keeps_withTuple_self hfit

end

end PagedStorage.Page
