import PagedStorage.Bytes.LittleEndian
import PagedStorage.Error
import PagedStorage.Row.Value

namespace PagedStorage

def maxTextSize : Nat := 65535

namespace Value

def encode (value : Value) : Except StorageError (List UInt8) :=
  match value with
  | null => .ok [value.tag]
  | int n => .ok (value.tag :: LittleEndian.encode 4 n.toUInt32.toNat)
  | bigint n => .ok (value.tag :: LittleEndian.encode 8 n.toUInt64.toNat)
  | bool b => .ok [value.tag, if b then 1 else 0]
  | text s =>
    if s.utf8ByteSize ≤ maxTextSize then
      .ok (value.tag :: (LittleEndian.encode 2 s.utf8ByteSize ++ Utf8.encode s))
    else .error (.invalidArgument (.textTooLong s.utf8ByteSize))

end Value

/-- The first `count` of the bytes, and the rest. `size` is the size of the whole row, from which
the position of a missing byte is told. -/
def takeBytes (size count : Nat) (bytes : List UInt8) :
    Except StorageError (List UInt8 × List UInt8) :=
  let (field, rest) := bytes.splitAt count
  if field.length = count then .ok (field, rest)
  else .error (.format (.truncatedField count (size - bytes.length) size))

namespace Value

def decode (size : Nat) (tag : UInt8) (bytes : List UInt8) :
    Except StorageError (Value × List UInt8) :=
  if tag = 0 then .ok (null, bytes)
  else if tag = 1 then do
    let (field, rest) ← takeBytes size 4 bytes
    .ok (int (UInt32.ofNat (LittleEndian.decode field)).toInt32, rest)
  else if tag = 2 then do
    let (field, rest) ← takeBytes size 8 bytes
    .ok (bigint (UInt64.ofNat (LittleEndian.decode field)).toInt64, rest)
  else if tag = 3 then do
    let (field, rest) ← takeBytes size 1 bytes
    .ok (bool (LittleEndian.decode field ≠ 0), rest)
  else if tag = 4 then do
    let (field, rest) ← takeBytes size 2 bytes
    let (field, rest) ← takeBytes size (LittleEndian.decode field) rest
    match Utf8.decode field with
    | .ok s => .ok (text s, rest)
    | .error defect => .error (.format (.notText defect))
  else .error (.format (.badTag tag (size - bytes.length - 1)))

end Value

theorem takeBytes_eq_ok {size count : Nat} {bytes field rest : List UInt8}
    (h : takeBytes size count bytes = .ok (field, rest)) :
    bytes = field ++ rest ∧ field.length = count := by
  simp only [takeBytes, List.splitAt_eq] at h
  split at h
  · cases h
    exact ⟨(List.take_append_drop count bytes).symm, by assumption⟩
  · cases h

/-- Whatever is read, the bytes that remain are no more than were given. -/
theorem Value.length_le_of_decode {size : Nat} {tag : UInt8} {bytes rest : List UInt8}
    {value : Value} (h : Value.decode size tag bytes = .ok (value, rest)) :
    rest.length ≤ bytes.length := by
  have take_le {size count : Nat} {bytes field rest : List UInt8}
      (h : takeBytes size count bytes = .ok (field, rest)) : rest.length ≤ bytes.length := by
    rw [(takeBytes_eq_ok h).1, List.length_append]
    omega
  unfold Value.decode at h
  simp only [bind, Except.bind] at h
  split at h
  · cases h
    exact Nat.le_refl _
  split at h
  · split at h <;> cases h
    exact take_le (by assumption)
  split at h
  · split at h <;> cases h
    exact take_le (by assumption)
  split at h
  · split at h <;> cases h
    exact take_le (by assumption)
  split at h
  · split at h
    · cases h
    rename_i size_rest hsize
    split at h
    · cases h
    rename_i field_rest hfield
    split at h <;> cases h
    exact Nat.le_trans (take_le hfield) (take_le hsize)
  · cases h

namespace Row

def encode (row : Row) : Except StorageError (List UInt8) := do
  let fields ← row.mapM Value.encode
  .ok fields.flatten

/-- The values that the bytes of a row of `size` bytes spell from here on, after those of `read`,
which has the latest in front. -/
def decodeFrom (size : Nat) (read : List Value) (bytes : List UInt8) : Except StorageError Row :=
  match bytes with
  | [] => .ok read.reverse
  | tag :: bytes =>
    match _h : Value.decode size tag bytes with
    | .ok (value, rest) => decodeFrom size (value :: read) rest
    | .error e => .error e
termination_by bytes.length
decreasing_by
  have := Value.length_le_of_decode _h
  simp only [List.length_cons]
  omega

def decode (bytes : List UInt8) : Except StorageError Row := decodeFrom bytes.length [] bytes

end Row

end PagedStorage
