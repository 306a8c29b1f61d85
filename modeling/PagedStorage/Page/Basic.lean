import PagedStorage.Error
import PagedStorage.Page.SlotEntry

namespace PagedStorage

structure Page where
  id : PageId
  image : Image
  sound : (Header.ofImage image).Sound
deriving DecidableEq

namespace Header

def grown (header : Header) (size : Nat) : Header where
  magic := header.magic
  slotCount := UInt16.ofNat (header.slotCount.toNat + 1)
  lower := UInt16.ofNat (header.lower.toNat + entrySize)
  upper := UInt16.ofNat (header.upper.toNat - size)

section

variable {header : Header} {size : Nat}

/-- None of the three fields leaves its 16 bits. -/
theorem toNat_grown (hc : header.Consistent) (size : Nat) :
    (header.grown size).slotCount.toNat = header.slotCount.toNat + 1 ∧
      (header.grown size).lower.toNat = header.lower.toNat + entrySize ∧
      (header.grown size).upper.toNat = header.upper.toNat - size := by
  obtain ⟨hl, hlu, hu⟩ := hc
  simp only [headerSize, entrySize, pageSize] at hl hu
  simp only [grown, UInt16.toNat_ofNat', entrySize]
  omega

theorem sound_grown (hs : header.Sound) (hfit : entrySize + size ≤ header.freeSpace) :
    (header.grown size).Sound := by
  refine ⟨hs.1, ?_⟩
  obtain ⟨hslots, hlower, hupper⟩ := toNat_grown hs.2 size
  obtain ⟨hl, hlu, hu⟩ := hs.2
  simp only [Consistent, hslots, hlower, hupper]
  simp only [freeSpace, headerSize, entrySize, pageSize] at hl hu hfit ⊢
  omega

end

end Header

namespace Page

def empty (id : PageId) : Page where
  id := id
  image := Image.blank.overwrite 0 Header.empty.toBytes
  sound := by
    rw [Header.ofImage_overwrite]
    exact Header.sound_empty

/-- The page that an image spells. The tag is looked at before the bounds. -/
def ofImage (id : PageId) (image : Image) : Except StorageError Page :=
  let header := Header.ofImage image
  if hm : header.HasMagic then
    if hc : header.Consistent then .ok ⟨id, image, hm, hc⟩
    else
      .error (.format (.corruptHeader id header.slotCount header.lower header.upper))
  else .error (.format (.badMagic id header.magic))

def ofBytes (id : PageId) (bytes : List UInt8) : Except StorageError Page :=
  match Image.ofBytes? bytes with
  | some image => ofImage id image
  | none => .error (.format (.wrongSize id bytes.length))

def header (page : Page) : Header := Header.ofImage page.image

def slotCount (page : Page) : Nat := page.header.slotCount.toNat

def freeSpace (page : Page) : Nat := page.header.freeSpace

/-- Whether a tuple of `size` bytes still has room, together with its entry. -/
def CanFit (page : Page) (size : Nat) : Prop := entrySize + size ≤ page.freeSpace

instance (page : Page) (size : Nat) : Decidable (page.CanFit size) :=
  inferInstanceAs (Decidable (entrySize + size ≤ page.freeSpace))

def nextEntry (page : Page) (size : Nat) : SlotEntry where
  offset := UInt16.ofNat (page.header.upper.toNat - size)
  length := UInt16.ofNat size

def withTuple (page : Page) (tuple : List UInt8) (h : page.CanFit tuple.length) : Page where
  id := page.id
  image :=
    let header := page.header
    let packed := page.image.overwrite (header.upper.toNat - tuple.length) tuple
    let listed := Image.overwrite packed (SlotEntry.position page.slotCount)
      (page.nextEntry tuple.length).toBytes
    Image.overwrite listed 0 (header.grown tuple.length).toBytes
  sound := by
    rw [Header.ofImage_overwrite]
    exact Header.sound_grown page.sound h

def append (page : Page) (tuple : List UInt8) : Except StorageError (Nat × Page) :=
  if h : page.CanFit tuple.length then .ok (page.slotCount, page.withTuple tuple h)
  else .error (.pageFull page.id (entrySize + tuple.length) page.freeSpace)

def slot (page : Page) (index : Nat) : Except StorageError SlotEntry :=
  if index < page.slotCount then .ok (SlotEntry.ofImage page.image index)
  else .error (.slotOutOfRange index page.slotCount)

/-- The tuple in a slot, nothing if the slot is deleted. An entry that does not point into the tuple
area, as the header has it now, is refused. -/
def read (page : Page) (index : Nat) : Except StorageError (Option (List UInt8)) :=
  match page.slot index with
  | .error e => .error e
  | .ok entry =>
    if entry.IsDeleted then .ok none
    else
      let start := entry.offset.toNat
      let stop := start + entry.length.toNat
      if page.header.lower.toNat ≤ start ∧ stop ≤ pageSize then
        .ok (some (page.image.slice start stop))
      else .error (.format (.straySlot page.id index start stop))

def tuples (page : Page) : List (Except StorageError (Option (List UInt8))) :=
  (List.range page.slotCount).map page.read

def summary (page : Page) : String :=
  let header := page.header
  s!"Page \x7b page_id: PageId({page.id.index}), slot_count: {header.slotCount}, " ++
    s!"lower: {header.lower}, upper: {header.upper} \x7d"

section

variable {page : Page} {tuple : List UInt8}

@[ext]
theorem ext {other : Page} (hid : page.id = other.id) (himage : page.image = other.image) :
    page = other := by
  cases page
  cases other
  simp_all

theorem header_empty (id : PageId) : (empty id).header = Header.empty :=
  Header.ofImage_overwrite Image.blank Header.empty

theorem slotCount_empty (id : PageId) : (empty id).slotCount = 0 := by
  rw [slotCount, header_empty]
  rfl

theorem freeSpace_empty (id : PageId) : (empty id).freeSpace = pageSize - headerSize := by
  rw [freeSpace, header_empty]
  rfl

/-- Spelling an image gives back a page with that image, and does so just when its header is
sound. -/
theorem ofImage_eq_ok_iff {id : PageId} {image : Image} :
    ofImage id image = .ok page ↔ page.id = id ∧ page.image = image := by
  constructor
  · intro h
    simp only [ofImage] at h
    split at h
    · split at h <;> cases h
      exact ⟨rfl, rfl⟩
    · cases h
  · rintro ⟨rfl, rfl⟩
    simp only [ofImage]
    rw [dif_pos page.sound.1, dif_pos page.sound.2]

theorem ofImage_image (page : Page) : ofImage page.id page.image = .ok page :=
  ofImage_eq_ok_iff.mpr ⟨rfl, rfl⟩

theorem ofBytes_toList (page : Page) : ofBytes page.id page.image.toList = .ok page := by
  simp only [ofBytes, Image.ofBytes?_toList, ofImage_image]

theorem lower_eq (page : Page) :
    page.header.lower.toNat = SlotEntry.position page.slotCount := page.sound.2.1

theorem lower_add_freeSpace (page : Page) :
    page.header.lower.toNat + page.freeSpace = page.header.upper.toNat := by
  have h := page.sound.2.2.1
  simp only [freeSpace, Header.freeSpace, header]
  omega

theorem upper_le (page : Page) : page.header.upper.toNat ≤ pageSize := page.sound.2.2.2

theorem header_withTuple (h : page.CanFit tuple.length) :
    (page.withTuple tuple h).header = page.header.grown tuple.length :=
  Header.ofImage_overwrite _ _

theorem slotCount_withTuple (h : page.CanFit tuple.length) :
    (page.withTuple tuple h).slotCount = page.slotCount + 1 := by
  rw [slotCount, header_withTuple]
  exact (Header.toNat_grown page.sound.2 tuple.length).1

/-- An added tuple takes its bytes and an entry from the free space. -/
theorem freeSpace_withTuple (h : page.CanFit tuple.length) :
    (page.withTuple tuple h).freeSpace = page.freeSpace - (entrySize + tuple.length) := by
  obtain ⟨-, hlower, hupper⟩ := Header.toNat_grown page.sound.2 tuple.length
  simp only [freeSpace, Header.freeSpace, header_withTuple] at *
  simp only [header] at *
  omega

theorem append_eq_ok_iff {slot : Nat} {after : Page} :
    page.append tuple = .ok (slot, after) ↔
      ∃ h : page.CanFit tuple.length, slot = page.slotCount ∧ after = page.withTuple tuple h := by
  simp only [append]
  split
  · rename_i h
    simp only [Except.ok.injEq, Prod.mk.injEq, h, exists_true_left]
    exact ⟨fun ⟨hs, ha⟩ => ⟨hs.symm, ha.symm⟩, fun ⟨hs, ha⟩ => ⟨hs.symm, ha.symm⟩⟩
  · rename_i h
    simp [h]

end

end Page

end PagedStorage
