import PagedStorage.Page.Header

namespace PagedStorage

structure SlotEntry where
  offset : UInt16
  length : UInt16
deriving DecidableEq, Repr

namespace SlotEntry

def position (index : Nat) : Nat := headerSize + entrySize * index

def IsDeleted (entry : SlotEntry) : Prop := entry.length = deletedMark

instance (entry : SlotEntry) : Decidable entry.IsDeleted :=
  inferInstanceAs (Decidable (entry.length = deletedMark))

def toBytes (entry : SlotEntry) : List UInt8 :=
  LittleEndian.encode 2 entry.offset.toNat ++ LittleEndian.encode 2 entry.length.toNat

def ofFields (offset length : List UInt8) : SlotEntry where
  offset := UInt16.ofNat (LittleEndian.decode offset)
  length := UInt16.ofNat (LittleEndian.decode length)

def ofBytes? (buffer : List UInt8) (index : Nat) : Option SlotEntry :=
  match buffer.drop (position index) with
  | o₀ :: o₁ :: l₀ :: l₁ :: _ => some (ofFields [o₀, o₁] [l₀, l₁])
  | _ => none

def writeTo? (entry : SlotEntry) (buffer : List UInt8) (index : Nat) : Option (List UInt8) :=
  let start := position index
  if start + entrySize ≤ buffer.length then
    some (buffer.take start ++ entry.toBytes ++ buffer.drop (start + entrySize))
  else none

def ofImage (image : Image) (index : Nat) : SlotEntry :=
  ofFields (image.slice (position index) (position index + 2))
    (image.slice (position index + 2) (position index + 4))

theorem position_succ (index : Nat) : position (index + 1) = position index + entrySize := by
  simp only [position, Nat.mul_succ, Nat.add_assoc]

theorem headerSize_le_position (index : Nat) : headerSize ≤ position index :=
  Nat.le_add_right _ _

theorem length_toBytes (entry : SlotEntry) : entry.toBytes.length = entrySize := by
  simp [toBytes, entrySize]

theorem ofFields_encode (entry : SlotEntry) :
    ofFields (LittleEndian.encode 2 entry.offset.toNat)
      (LittleEndian.encode 2 entry.length.toNat) = entry := by
  simp only [ofFields]
  rw [LittleEndian.decode_encode_of_lt entry.offset.toNat_lt,
    LittleEndian.decode_encode_of_lt entry.length.toNat_lt]
  simp

theorem ofImage_overwrite (image : Image) (entry : SlotEntry) {index : Nat}
    (h : position (index + 1) ≤ pageSize) :
    ofImage (image.overwrite (position index) entry.toBytes) index = entry := by
  rw [position_succ, ← length_toBytes entry] at h
  have hpart (start stop : Nat) (hs : start ≤ stop) (hb : stop ≤ entry.toBytes.length) :=
    Image.slice_overwrite_part image hs hb h
  have hb : entry.toBytes.length = 4 := length_toBytes entry
  have hlow := hpart 0 2 (by omega) (by omega)
  rw [Nat.add_zero] at hlow
  simp only [ofImage]
  rw [hlow, hpart 2 4 (by omega) (by omega)]
  simpa [toBytes, List.drop_append, List.take_append, List.drop_eq_nil_of_le,
    List.take_of_length_le] using ofFields_encode entry

/-- Images that agree on the bytes of an entry have the same entry there. -/
theorem ofImage_congr {image other : Image} {index : Nat} (hp : position (index + 1) ≤ pageSize)
    (h : ∀ i (hi : i < pageSize), position index ≤ i → i < position (index + 1) →
      image[i] = other[i]) :
    ofImage image index = ofImage other index := by
  rw [position_succ] at hp h
  simp only [entrySize] at hp h
  simp only [ofImage]
  rw [Image.slice_congr (by omega) fun i hi hlo hhi => h i hi hlo (by omega),
    Image.slice_congr hp fun i hi hlo hhi => h i hi (by omega) hhi]

theorem ofBytes?_toList (image : Image) {index : Nat} (h : position (index + 1) ≤ pageSize) :
    ofBytes? image.toList index = some (ofImage image index) := by
  rw [position_succ, entrySize] at h
  have hlength : (image.toList.drop (position index)).length = pageSize - position index := by
    rw [List.length_drop, Vector.length_toList]
  have hsecond : image.toList.drop (position index + 2) =
      (image.toList.drop (position index)).drop 2 := List.drop_drop.symm
  rw [ofBytes?, ofImage, Image.slice_eq_take_drop, Image.slice_eq_take_drop, hsecond,
    Nat.add_sub_cancel_left, Nat.add_sub_add_left]
  match hd : image.toList.drop (position index) with
  | o₀ :: o₁ :: l₀ :: l₁ :: rest => rfl
  | [] | [_] | [_, _] | [_, _, _] =>
    rw [hd] at hlength
    simp only [List.length_cons, List.length_nil] at hlength
    omega

theorem writeTo?_toList (entry : SlotEntry) (image : Image) {index : Nat}
    (h : position (index + 1) ≤ pageSize) :
    entry.writeTo? image.toList index =
      some (image.overwrite (position index) entry.toBytes).toList := by
  rw [position_succ] at h
  rw [Image.toList_overwrite image (by rwa [length_toBytes]), length_toBytes]
  simp only [writeTo?]
  rw [if_pos (by rwa [Vector.length_toList])]

end SlotEntry

end PagedStorage
