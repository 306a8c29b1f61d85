import PagedStorage.Bytes.LittleEndian
import PagedStorage.Page.Image

namespace PagedStorage

structure Header where
  magic : UInt32
  slotCount : UInt16
  /-- First byte past the slot directory. -/
  lower : UInt16
  /-- First byte of the tuple area. -/
  upper : UInt16
deriving DecidableEq, Repr

namespace Header

/-- Where each field begins: magic, slot count, lower and upper. -/
def fieldOffsets : List Nat := [0, 4, 6, 8]

def empty : Header := ⟨pageMagic, 0, UInt16.ofNat headerSize, UInt16.ofNat pageSize⟩

def toBytes (header : Header) : List UInt8 :=
  LittleEndian.encode 4 header.magic.toNat ++ LittleEndian.encode 2 header.slotCount.toNat ++
    LittleEndian.encode 2 header.lower.toNat ++ LittleEndian.encode 2 header.upper.toNat

def ofFields (magic slotCount lower upper : List UInt8) : Header where
  magic := UInt32.ofNat (LittleEndian.decode magic)
  slotCount := UInt16.ofNat (LittleEndian.decode slotCount)
  lower := UInt16.ofNat (LittleEndian.decode lower)
  upper := UInt16.ofNat (LittleEndian.decode upper)

def ofBytes? : List UInt8 → Option Header
  | m₀ :: m₁ :: m₂ :: m₃ :: s₀ :: s₁ :: l₀ :: l₁ :: u₀ :: u₁ :: _ =>
    some (ofFields [m₀, m₁, m₂, m₃] [s₀, s₁] [l₀, l₁] [u₀, u₁])
  | _ => none

def writeTo? (header : Header) (buffer : List UInt8) : Option (List UInt8) :=
  if headerSize ≤ buffer.length then some (header.toBytes ++ buffer.drop headerSize) else none

def ofImage (image : Image) : Header :=
  ofFields (image.slice 0 4) (image.slice 4 6) (image.slice 6 8) (image.slice 8 10)

def HasMagic (header : Header) : Prop := header.magic = pageMagic

/-- The directory ends where the slot count says, and the tuple area begins no earlier and within
the page. -/
def Consistent (header : Header) : Prop :=
  header.lower.toNat = headerSize + entrySize * header.slotCount.toNat ∧
    header.lower.toNat ≤ header.upper.toNat ∧ header.upper.toNat ≤ pageSize

def Sound (header : Header) : Prop := header.HasMagic ∧ header.Consistent

instance (header : Header) : Decidable header.HasMagic :=
  inferInstanceAs (Decidable (header.magic = pageMagic))

instance (header : Header) : Decidable header.Consistent := by
  unfold Consistent
  infer_instance

instance (header : Header) : Decidable header.Sound :=
  inferInstanceAs (Decidable (header.HasMagic ∧ header.Consistent))

def freeSpace (header : Header) : Nat := header.upper.toNat - header.lower.toNat

theorem sound_empty : empty.Sound := by decide

theorem length_toBytes (header : Header) : header.toBytes.length = headerSize := by
  simp [toBytes, headerSize]

theorem ofFields_encode (header : Header) :
    ofFields (LittleEndian.encode 4 header.magic.toNat)
      (LittleEndian.encode 2 header.slotCount.toNat) (LittleEndian.encode 2 header.lower.toNat)
      (LittleEndian.encode 2 header.upper.toNat) = header := by
  simp only [ofFields]
  rw [LittleEndian.decode_encode_of_lt header.magic.toNat_lt,
    LittleEndian.decode_encode_of_lt header.slotCount.toNat_lt,
    LittleEndian.decode_encode_of_lt header.lower.toNat_lt,
    LittleEndian.decode_encode_of_lt header.upper.toNat_lt]
  simp

theorem ofImage_overwrite (image : Image) (header : Header) :
    ofImage (image.overwrite 0 header.toBytes) = header := by
  have hl : 0 + header.toBytes.length ≤ pageSize := by
    rw [length_toBytes]
    decide
  have hpart (start stop : Nat) (hs : start ≤ stop) (hb : stop ≤ header.toBytes.length) :
      (image.overwrite 0 header.toBytes).slice start stop =
        (header.toBytes.drop start).take (stop - start) := by
    simpa using Image.slice_overwrite_part image hs hb hl
  have hb : header.toBytes.length = 10 := length_toBytes header
  simp only [ofImage]
  rw [hpart 0 4 (by omega) (by omega), hpart 4 6 (by omega) (by omega),
    hpart 6 8 (by omega) (by omega), hpart 8 10 (by omega) (by omega)]
  simpa [toBytes, List.drop_append, List.take_append, List.drop_eq_nil_of_le,
    List.take_of_length_le] using ofFields_encode header

/-- Only the first bytes of an image matter for its header. -/
theorem ofImage_congr {image other : Image}
    (h : ∀ i (hi : i < pageSize), i < headerSize → image[i] = other[i]) :
    ofImage image = ofImage other := by
  have hs (start stop : Nat) (hstop : stop ≤ headerSize) :
      image.slice start stop = other.slice start stop :=
    Image.slice_congr (Nat.le_trans hstop (by decide)) fun i hi _ hhi => h i hi (by omega)
  simp only [ofImage]
  rw [hs 0 4 (by decide), hs 4 6 (by decide), hs 6 8 (by decide), hs 8 10 (by decide)]

theorem ofImage_overwrite_of_le (image : Image) {position : Nat} (bytes : List UInt8)
    (h : headerSize ≤ position) : ofImage (image.overwrite position bytes) = ofImage image :=
  ofImage_congr fun i hi hh =>
    Image.getElem_overwrite_of_not_mem image position bytes i hi (Or.inl (by omega))

theorem ofBytes?_toList (image : Image) : ofBytes? image.toList = some (ofImage image) := by
  have hlength : image.toList.length = pageSize := Vector.length_toList
  simp only [ofImage, Image.slice_eq_take_drop]
  match hb : image.toList with
  | m₀ :: m₁ :: m₂ :: m₃ :: s₀ :: s₁ :: l₀ :: l₁ :: u₀ :: u₁ :: rest => rfl
  | [] | [_] | [_, _] | [_, _, _] | [_, _, _, _] | [_, _, _, _, _] | [_, _, _, _, _, _]
  | [_, _, _, _, _, _, _] | [_, _, _, _, _, _, _, _] | [_, _, _, _, _, _, _, _, _] =>
    rw [hb] at hlength
    exact absurd hlength (by simp [pageSize])

theorem writeTo?_toList (header : Header) (image : Image) :
    header.writeTo? image.toList = some (image.overwrite 0 header.toBytes).toList := by
  have hfits : headerSize ≤ pageSize := by decide
  rw [Image.toList_overwrite image (by rwa [length_toBytes, Nat.zero_add]), length_toBytes,
    Nat.zero_add, List.take_zero, List.nil_append, writeTo?,
    if_pos (by rwa [Vector.length_toList])]

end Header

end PagedStorage
