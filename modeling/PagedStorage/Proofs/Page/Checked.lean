import PagedStorage.Proofs.Page.Edits

namespace PagedStorage

/-- Bytes that are used as a page, whatever they are. -/
structure Buffer where
  id : PageId
  bytes : List UInt8

namespace Buffer

def word? (n : Nat) : Option UInt16 := if n < 65536 then some (UInt16.ofNat n) else none

def sub? (a b : Nat) : Option Nat := if b ≤ a then some (a - b) else none

/-- The bytes from `start` up to `stop`, nothing if the stretch runs backwards or past the end. -/
def stretch? (bytes : List UInt8) (start stop : Nat) : Option (List UInt8) :=
  if start ≤ stop ∧ stop ≤ bytes.length then some ((bytes.drop start).take (stop - start)) else none

def splice? (bytes : List UInt8) (start : Nat) (part : List UInt8) : Option (List UInt8) :=
  if start + part.length ≤ bytes.length then
    some (bytes.take start ++ part ++ bytes.drop (start + part.length))
  else none

def append? (buffer : Buffer) (tuple : List UInt8) :
    Option (Except StorageError Nat × Buffer) := do
  let header ← Header.ofBytes? buffer.bytes
  let needed := entrySize + tuple.length
  if header.freeSpace < needed then
    return (.error (.pageFull buffer.id needed header.freeSpace), buffer)
  let start ← sub? header.upper.toNat tuple.length
  let packed ← splice? buffer.bytes start tuple
  let offset ← word? start
  let length ← word? tuple.length
  let listed ← SlotEntry.writeTo? ⟨offset, length⟩ packed header.slotCount.toNat
  let lower ← word? (header.lower.toNat + entrySize)
  let slotCount ← word? (header.slotCount.toNat + 1)
  let bytes ← Header.writeTo? { header with slotCount, lower, upper := offset } listed
  return (.ok header.slotCount.toNat, { buffer with bytes })

def slot? (buffer : Buffer) (index : Nat) : Option (Except StorageError SlotEntry) := do
  let header ← Header.ofBytes? buffer.bytes
  if header.slotCount.toNat ≤ index then
    return .error (.slotOutOfRange index header.slotCount.toNat)
  let entry ← SlotEntry.ofBytes? buffer.bytes index
  return .ok entry

def read? (buffer : Buffer) (index : Nat) :
    Option (Except StorageError (Option (List UInt8))) := do
  match ← buffer.slot? index with
  | .error e => return .error e
  | .ok entry =>
    if entry.IsDeleted then return .ok none
    let start := entry.offset.toNat
    let stop := start + entry.length.toNat
    let header ← Header.ofBytes? buffer.bytes
    if start < header.lower.toNat ∨ pageSize < stop then
      return .error (.format (.straySlot buffer.id index start stop))
    let tuple ← stretch? buffer.bytes start stop
    return .ok (some tuple)

def tuples? (buffer : Buffer) : Option (List (Except StorageError (Option (List UInt8)))) := do
  let header ← Header.ofBytes? buffer.bytes
  (List.range header.slotCount.toNat).mapM buffer.read?

section

variable {image : Image} {start stop : Nat}

theorem word?_of_lt {n : Nat} (h : n < 65536) : word? n = some (UInt16.ofNat n) := if_pos h

theorem sub?_of_le {a b : Nat} (h : b ≤ a) : sub? a b = some (a - b) := if_pos h

theorem stretch?_toList (h : start ≤ stop) (hstop : stop ≤ pageSize) :
    stretch? image.toList start stop = some (image.slice start stop) := by
  rw [stretch?, Vector.length_toList, if_pos ⟨h, hstop⟩, Image.slice_eq_take_drop]

theorem splice?_toList {part : List UInt8} (h : start + part.length ≤ pageSize) :
    splice? image.toList start part = some (image.overwrite start part).toList := by
  rw [splice?, Vector.length_toList, if_pos h, Image.toList_overwrite image h]

end

end Buffer

namespace Page

def buffer (page : Page) : Buffer := ⟨page.id, page.image.toList⟩

section

variable {page : Page}

theorem ofBytes_eq_ok_iff {id : PageId} {bytes : List UInt8} :
    ofBytes id bytes = .ok page ↔ page.buffer = ⟨id, bytes⟩ := by
  constructor
  · intro h
    rw [ofBytes] at h
    split at h
    · rename_i image hbytes
      obtain ⟨rfl, rfl⟩ := ofImage_eq_ok_iff.mp h
      rw [Image.ofBytes?] at hbytes
      split at hbytes
      · rw [buffer, ← Option.some_inj.mp hbytes]
        rfl
      · cases hbytes
    · cases h
  · intro h
    cases h
    exact ofBytes_toList page

theorem header?_buffer (page : Page) : Header.ofBytes? page.buffer.bytes = some page.header :=
  Header.ofBytes?_toList page.image

/-- Adding a tuple meets no check that fails: the header of a page leaves room for all of it. -/
theorem append?_buffer (page : Page) (tuple : List UInt8) :
    page.buffer.append? tuple =
      match page.append tuple with
      | .ok (slot, after) => some (.ok slot, after.buffer)
      | .error e => some (.error e, page.buffer) := by
  simp only [Buffer.append?, header?_buffer, Option.bind_eq_bind, Option.bind_some]
  by_cases hfit : page.CanFit tuple.length
  · have hfree : ¬page.header.freeSpace < entrySize + tuple.length := Nat.not_lt_of_le hfit
    -- The directory still ends before the new tuple begins, so every number fits its field.
    have hroom := position_add_length_le hfit
    have hupper := page.upper_le
    have hsize : pageSize = 8192 := rfl
    have hlower : page.header.lower.toNat + entrySize =
        SlotEntry.position (page.slotCount + 1) := by
      rw [lower_eq, SlotEntry.position_succ]
    have hslots : page.header.slotCount.toNat + 1 ≤ SlotEntry.position (page.slotCount + 1) := by
      simp only [SlotEntry.position, headerSize, entrySize, slotCount]
      omega
    have hpacked : Buffer.splice? page.buffer.bytes (page.header.upper.toNat - tuple.length) tuple =
        some (page.image.overwrite (page.header.upper.toNat - tuple.length) tuple).toList :=
      Buffer.splice?_toList (by omega)
    have hlisted := SlotEntry.writeTo?_toList (page.nextEntry tuple.length)
      (page.image.overwrite (page.header.upper.toNat - tuple.length) tuple)
      (show SlotEntry.position (page.slotCount + 1) ≤ pageSize by omega)
    rw [nextEntry, slotCount] at hlisted
    -- The checks in the order in which they are made.
    rw [if_neg hfree, Buffer.sub?_of_le (by omega), Option.bind_some, hpacked, Option.bind_some,
      Buffer.word?_of_lt (by omega), Option.bind_some, Buffer.word?_of_lt (by omega),
      Option.bind_some, hlisted, Option.bind_some, Buffer.word?_of_lt (by omega), Option.bind_some,
      Buffer.word?_of_lt (by omega), Option.bind_some, Header.writeTo?_toList, append,
      dif_pos hfit]
    rfl
  · have hfree : page.header.freeSpace < entrySize + tuple.length := Nat.lt_of_not_le hfit
    rw [if_pos hfree, append, dif_neg hfit]
    rfl

theorem slot?_buffer (page : Page) (index : Nat) :
    page.buffer.slot? index = some (page.slot index) := by
  simp only [Buffer.slot?, header?_buffer, slot, Option.bind_eq_bind, Option.bind_some]
  by_cases hi : index < page.slotCount
  · have hentry := SlotEntry.ofBytes?_toList page.image
      (Nat.le_trans (position_succ_le hi) page.upper_le)
    have hin : ¬page.header.slotCount.toNat ≤ index := Nat.not_le_of_lt hi
    rw [if_neg hin, if_pos hi, buffer, hentry]
    rfl
  · have hout : page.header.slotCount.toNat ≤ index := Nat.le_of_not_lt hi
    rw [if_pos hout, if_neg hi]
    rfl

/-- Reading a slot meets no check that fails, whatever its entry says. -/
theorem read?_buffer (page : Page) (index : Nat) :
    page.buffer.read? index = some (page.read index) := by
  simp only [Buffer.read?, slot?_buffer, header?_buffer, Option.bind_eq_bind, Option.bind_some,
    read]
  cases page.slot index with
  | error e => rfl
  | ok entry =>
    simp only
    by_cases hdeleted : entry.IsDeleted
    · rw [if_pos hdeleted, if_pos hdeleted]
      rfl
    · rw [if_neg hdeleted, if_neg hdeleted]
      by_cases hin : page.header.lower.toNat ≤ entry.offset.toNat ∧
          entry.offset.toNat + entry.length.toNat ≤ pageSize
      · have hstretch : Buffer.stretch? page.buffer.bytes entry.offset.toNat
            (entry.offset.toNat + entry.length.toNat) =
              some (page.image.slice entry.offset.toNat
                (entry.offset.toNat + entry.length.toNat)) :=
          Buffer.stretch?_toList (Nat.le_add_right _ _) hin.2
        rw [if_pos hin, if_neg (by omega), hstretch]
        rfl
      · rw [if_neg hin, if_pos (by omega)]
        rfl

theorem tuples?_buffer (page : Page) : page.buffer.tuples? = some page.tuples := by
  simp only [Buffer.tuples?, header?_buffer, Option.bind_eq_bind, Option.bind_some, tuples]
  rw [funext (read?_buffer page)]
  exact List.mapM_pure

end

inductive Query
  | append (tuple : List UInt8)
  | slot (index : Nat)
  | read (index : Nat)
  | tuples

inductive Reply
  | appended (answer : Except StorageError Nat)
  | entry (answer : Except StorageError SlotEntry)
  | tuple (answer : Except StorageError (Option (List UInt8)))
  | tuples (answers : List (Except StorageError (Option (List UInt8))))

def call (page : Page) : Query → Reply × Page
  | .append tuple =>
    match page.append tuple with
    | .ok (slot, after) => (.appended (.ok slot), after)
    | .error e => (.appended (.error e), page)
  | .slot index => (.entry (page.slot index), page)
  | .read index => (.tuple (page.read index), page)
  | .tuples => (.tuples page.tuples, page)

def calls (page : Page) : List Query → List Reply × Page
  | [] => ([], page)
  | query :: queries =>
    let (reply, next) := page.call query
    let (replies, last) := next.calls queries
    (reply :: replies, last)

end Page

namespace Buffer

/-- The answer to a query and the buffer after it, nothing if a check fails on the way. -/
def call? (buffer : Buffer) : Page.Query → Option (Page.Reply × Buffer)
  | .append tuple => (buffer.append? tuple).map fun (answer, after) => (.appended answer, after)
  | .slot index => (buffer.slot? index).map fun answer => (.entry answer, buffer)
  | .read index => (buffer.read? index).map fun answer => (.tuple answer, buffer)
  | .tuples => buffer.tuples?.map fun answers => (.tuples answers, buffer)

def calls? (buffer : Buffer) : List Page.Query → Option (List Page.Reply × Buffer)
  | [] => some ([], buffer)
  | query :: queries => do
    let (reply, next) ← buffer.call? query
    let (replies, last) ← next.calls? queries
    return (reply :: replies, last)

end Buffer

namespace Page

section

variable {page : Page} {id : PageId} {bytes : List UInt8}

theorem id_call (page : Page) (query : Query) : (page.call query).2.id = page.id := by
  cases query with
  | append tuple =>
    rw [call]
    split
    · rename_i h
      exact id_of_append h
    · rfl
  | slot index => rfl
  | read index => rfl
  | tuples => rfl

theorem id_calls (page : Page) (queries : List Query) : (page.calls queries).2.id = page.id := by
  induction queries generalizing page with
  | nil => rfl
  | cons query queries ih => exact (ih (page.call query).2).trans (id_call page query)

/-- A query to the bytes of a page is answered as by the page, and leaves the bytes of a page. -/
theorem call?_buffer (page : Page) (query : Query) :
    page.buffer.call? query = some ((page.call query).1, (page.call query).2.buffer) := by
  cases query with
  | append tuple =>
    rw [Buffer.call?, append?_buffer, call]
    cases page.append tuple with
    | ok taken => rfl
    | error e => rfl
  | slot index =>
    rw [Buffer.call?, slot?_buffer]
    rfl
  | read index =>
    rw [Buffer.call?, read?_buffer]
    rfl
  | tuples =>
    rw [Buffer.call?, tuples?_buffer]
    rfl

theorem calls?_buffer (page : Page) (queries : List Query) :
    page.buffer.calls? queries = some ((page.calls queries).1, (page.calls queries).2.buffer) := by
  induction queries generalizing page with
  | nil => rfl
  | cons query queries ih =>
    simp only [Buffer.calls?, call?_buffer, ih, calls, Option.bind_eq_bind, Option.bind_some,
      Option.pure_def]

/-- A tuple that is read lies between the directory and the end of the page. -/
theorem slot_of_read {index : Nat} {tuple : List UInt8} (h : page.read index = .ok (some tuple)) :
    ∃ entry, page.slot index = .ok entry ∧ page.header.lower.toNat ≤ entry.offset.toNat ∧
      entry.offset.toNat + entry.length.toNat ≤ pageSize ∧
      tuple = page.image.slice entry.offset.toNat (entry.offset.toNat + entry.length.toNat) := by
  rw [read] at h
  split at h
  · cases h
  · rename_i entry hentry
    split at h
    · cases h
    · simp only at h
      split at h
      · rename_i hin
        cases h
        exact ⟨entry, hentry, hin.1, hin.2, rfl⟩
      · cases h

/-- No bytes that are accepted as a page make the calls on it go wrong. Whatever is asked of them,
and in whatever order, no access runs past their end and no number is too large for its field; the
answers are those of the page, the bytes are accepted again afterwards, and a tuple that is then
read is the stretch that its entry tells, between the directory and the end. -/
theorem calls?_ofBytes (h : ofBytes id bytes = .ok page) (queries : List Query) :
    ∃ replies after, page.calls queries = (replies, after) ∧
      Buffer.calls? ⟨id, bytes⟩ queries = some (replies, after.buffer) ∧
      ofBytes id after.buffer.bytes = .ok after ∧
      ∀ index tuple, after.buffer.read? index = some (.ok (some tuple)) →
        ∃ entry start stop, after.buffer.slot? index = some (.ok entry) ∧
          start = entry.offset.toNat ∧ stop = start + entry.length.toNat ∧
          after.header.lower.toNat ≤ start ∧ stop ≤ pageSize ∧
          Buffer.stretch? after.buffer.bytes start stop = some tuple := by
  have hpage := ofBytes_eq_ok_iff.mp h
  have hid : (page.calls queries).2.id = id :=
    (id_calls page queries).trans (congrArg Buffer.id hpage)
  refine ⟨_, _, rfl, hpage ▸ calls?_buffer page queries, ?_, ?_⟩
  · rw [← hid]
    exact ofBytes_toList _
  · intro index tuple hread
    rw [read?_buffer, Option.some_inj] at hread
    obtain ⟨entry, hentry, hlo, hhi, rfl⟩ := slot_of_read hread
    refine ⟨entry, _, _, ?_, rfl, rfl, hlo, hhi, ?_⟩
    · rw [slot?_buffer, hentry]
    · exact Buffer.stretch?_toList (Nat.le_add_right _ _) hhi

/-- An entry that points far past the end is refused, and the page takes tuples all the same. -/
theorem calls?_ofBytes_stray :
    ∃ page, ofBytes page.id page.image.toList = .ok page ∧ page.slot 0 = .ok ⟨65535, 65534⟩ ∧
      ∃ replies after, Buffer.calls? ⟨page.id, page.image.toList⟩
        [.read 0, .append [7], .tuples] = some (replies, after) := by
  have hfit : (empty (.ofIndex 0)).CanFit ([7] : List UInt8).length := by
    rw [CanFit, freeSpace_empty]
    decide
  have hslots := slotCount_withTuple hfit
  rw [slotCount_empty] at hslots
  have hfirst : 0 < ((empty (.ofIndex 0)).withTuple [7] hfit).slotCount :=
    hslots ▸ Nat.zero_lt_one
  refine ⟨((empty (.ofIndex 0)).withTuple [7] hfit).withEntry 0 ⟨65535, 65534⟩, ?_, ?_, ?_⟩
  · exact ofBytes_toList _
  · rw [slot, slotCount_withEntry, if_pos hfirst, entry_withEntry_self hfirst]
  · obtain ⟨replies, after, -, hcalls, -⟩ :=
      calls?_ofBytes (ofBytes_toList _) [.read 0, .append [7], .tuples]
    exact ⟨replies, after.buffer, hcalls⟩

end

end Page

end PagedStorage
