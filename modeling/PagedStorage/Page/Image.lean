import PagedStorage.Layout

namespace PagedStorage

abbrev Image := Vector UInt8 pageSize

namespace Image

def blank : Image := Vector.replicate pageSize 0

/-- The image with `bytes` written from `position` on. What would fall past the end is dropped. -/
def overwrite (image : Image) (position : Nat) : List UInt8 → Image
  | [] => image
  | b :: bs => overwrite (image.setIfInBounds position b) (position + 1) bs

def slice (image : Image) (start stop : Nat) : List UInt8 :=
  (image.toArray.extract start stop).toList

def ofBytes? (bytes : List UInt8) : Option Image :=
  if h : bytes.length = pageSize then some ⟨bytes.toArray, h⟩ else none

theorem getElem_overwrite (image : Image) (position : Nat) (bytes : List UInt8) (i : Nat)
    (hi : i < pageSize) :
    (overwrite image position bytes)[i] =
      if h : position ≤ i ∧ i < position + bytes.length then bytes[i - position]
      else image[i] := by
  induction bytes generalizing image position with
  | nil =>
    rw [dif_neg (by simp only [List.length_nil]; omega)]
    rfl
  | cons b bs ih =>
    simp only [overwrite, ih, List.length_cons]
    by_cases h : position + 1 ≤ i ∧ i < position + 1 + bs.length
    · rw [dif_pos h, dif_pos (by omega)]
      have hs : i - position = i - (position + 1) + 1 := by omega
      simp only [hs, List.getElem_cons_succ]
    · rw [dif_neg h, Vector.getElem_setIfInBounds]
      by_cases hp : position = i
      · subst hp
        rw [if_pos rfl, dif_pos (by omega)]
        simp
      · rw [if_neg hp, dif_neg (by omega)]

theorem getElem_overwrite_of_mem (image : Image) (position : Nat) (bytes : List UInt8) (i : Nat)
    (hi : i < bytes.length) (hp : position + i < pageSize) :
    (overwrite image position bytes)[position + i] = bytes[i] := by
  rw [getElem_overwrite, dif_pos (by omega)]
  simp

theorem getElem_overwrite_of_not_mem (image : Image) (position : Nat) (bytes : List UInt8) (i : Nat)
    (hi : i < pageSize) (h : i < position ∨ position + bytes.length ≤ i) :
    (overwrite image position bytes)[i] = image[i] := by
  rw [getElem_overwrite, dif_neg (by omega)]

theorem length_slice (image : Image) {start stop : Nat} (h : stop ≤ pageSize) :
    (slice image start stop).length = stop - start := by
  simp only [slice, Array.length_toList, Array.size_extract, Vector.size_toArray]
  omega

theorem getElem_slice (image : Image) {start stop i : Nat}
    (hi : i < (slice image start stop).length) (hs : start + i < pageSize) :
    (slice image start stop)[i] = image[start + i] := by
  simp [slice]

theorem slice_blank (start stop : Nat) (h : stop ≤ pageSize) :
    blank.slice start stop = List.replicate (stop - start) 0 := by
  apply List.ext_getElem
  · rw [length_slice blank h, List.length_replicate]
  · intro i hi hi'
    rw [List.length_replicate] at hi'
    rw [getElem_slice blank hi (by omega), List.getElem_replicate]
    simp [blank]

theorem slice_congr {image other : Image} {start stop : Nat} (hstop : stop ≤ pageSize)
    (h : ∀ i (hi : i < pageSize), start ≤ i → i < stop → image[i] = other[i]) :
    slice image start stop = slice other start stop := by
  apply List.ext_getElem
  · rw [length_slice image hstop, length_slice other hstop]
  · intro i hi hi'
    have hs : (slice image start stop).length = stop - start := length_slice image hstop
    rw [getElem_slice image hi (by omega), getElem_slice other hi' (by omega)]
    exact h _ _ (by omega) (by omega)

/-- Any part of the bytes that were written is read back. -/
theorem slice_overwrite_part (image : Image) {position start stop : Nat} {bytes : List UInt8}
    (hs : start ≤ stop) (hb : stop ≤ bytes.length) (h : position + bytes.length ≤ pageSize) :
    slice (overwrite image position bytes) (position + start) (position + stop) =
      (bytes.drop start).take (stop - start) := by
  apply List.ext_getElem
  · rw [length_slice _ (by omega), List.length_take, List.length_drop]
    omega
  · intro i hi hi'
    rw [List.length_take, List.length_drop] at hi'
    have he := getElem_overwrite_of_mem image position bytes (start + i) (by omega) (by omega)
    rw [getElem_slice _ hi (by omega), List.getElem_take, List.getElem_drop, ← he]
    simp only [Nat.add_assoc]

theorem slice_overwrite (image : Image) {position : Nat} {bytes : List UInt8}
    (h : position + bytes.length ≤ pageSize) :
    slice (overwrite image position bytes) position (position + bytes.length) = bytes := by
  simpa using slice_overwrite_part image (Nat.zero_le bytes.length) (Nat.le_refl _) h

/-- A stretch that the written bytes do not touch is as it was. -/
theorem slice_overwrite_of_disjoint (image : Image) {position start stop : Nat}
    {bytes : List UInt8} (hstop : stop ≤ pageSize)
    (h : stop ≤ position ∨ position + bytes.length ≤ start) :
    slice (overwrite image position bytes) start stop = slice image start stop :=
  slice_congr hstop fun i hi hlo hhi =>
    getElem_overwrite_of_not_mem image position bytes i hi (by omega)

theorem ofBytes?_toList (image : Image) : ofBytes? image.toList = some image := by
  simp [ofBytes?, Vector.toList]

theorem slice_eq_take_drop (image : Image) (start stop : Nat) :
    image.slice start stop = (image.toList.drop start).take (stop - start) := by
  rw [slice, Array.toList_extract, List.extract_eq_take_drop]
  rfl

theorem toList_overwrite (image : Image) {position : Nat} {bytes : List UInt8}
    (h : position + bytes.length ≤ pageSize) :
    (image.overwrite position bytes).toList =
      image.toList.take position ++ bytes ++ image.toList.drop (position + bytes.length) := by
  have hfront : (image.toList.take position).length = position := by
    rw [List.length_take, Vector.length_toList]
    omega
  apply List.ext_getElem
  · rw [List.length_append, List.length_append, hfront, List.length_drop, Vector.length_toList,
      Vector.length_toList]
    omega
  · intro i hi _
    rw [Vector.length_toList] at hi
    rw [Vector.getElem_toList, getElem_overwrite]
    by_cases hmem : position ≤ i ∧ i < position + bytes.length
    · rw [dif_pos hmem, List.getElem_append_left (by rw [List.length_append]; omega),
        List.getElem_append_right (by omega)]
      simp only [hfront]
    · rw [dif_neg hmem]
      by_cases hlow : i < position
      · rw [List.getElem_append_left (by rw [List.length_append]; omega),
          List.getElem_append_left (by omega), List.getElem_take, Vector.getElem_toList]
      · rw [List.getElem_append_right (by rw [List.length_append]; omega), List.getElem_drop,
          Vector.getElem_toList]
        simp only [List.length_append, hfront]
        congr 1
        omega

end Image

end PagedStorage
