namespace PagedStorage.Utf8

/-- Why bytes are not UTF-8. `index` counts the bytes of the longest prefix that is. -/
inductive Defect
  /-- A sequence begins at `index` and is broken after its first `length` bytes. -/
  | invalid (index length : Nat)
  /-- A sequence begins at `index` and the input ends within it. -/
  | incomplete (index : Nat)
deriving DecidableEq, Repr

def Defect.text : Defect → String
  | invalid index length => s!"invalid utf-8 sequence of {length} bytes from index {index}"
  | incomplete index => s!"incomplete utf-8 byte sequence from index {index}"

structure ByteRange where
  low : UInt8
  high : UInt8

def continuation : ByteRange := ⟨0x80, 0xBF⟩

/-- What must follow a leading byte, or nothing if no sequence begins with it. The narrower ranges
keep out overlong forms, surrogates and numbers above 0x10FFFF. -/
def followers (lead : UInt8) : Option (List ByteRange) :=
  if lead < 0x80 then some []
  else if 0xC2 ≤ lead ∧ lead ≤ 0xDF then some [continuation]
  else if lead = 0xE0 then some [⟨0xA0, 0xBF⟩, continuation]
  else if lead = 0xED then some [⟨0x80, 0x9F⟩, continuation]
  else if 0xE1 ≤ lead ∧ lead ≤ 0xEF then some [continuation, continuation]
  else if lead = 0xF0 then some [⟨0x90, 0xBF⟩, continuation, continuation]
  else if 0xF1 ≤ lead ∧ lead ≤ 0xF3 then some [continuation, continuation, continuation]
  else if lead = 0xF4 then some [⟨0x80, 0x8F⟩, continuation, continuation]
  else none

/-- The first defect of the bytes from position `index` on, while the sequence that began at `start`
still owes bytes in the ranges `owed`. -/
def defectFrom (start index : Nat) : List ByteRange → List UInt8 → Option Defect
  | [], [] => none
  | _ :: _, [] => some (.incomplete start)
  | [], b :: bs =>
    match followers b with
    | some owed => defectFrom index (index + 1) owed bs
    | none => some (.invalid index 1)
  | range :: owed, b :: bs =>
    if range.low ≤ b ∧ b ≤ range.high then defectFrom start (index + 1) owed bs
    else some (.invalid start (index - start))

def defect (bytes : List UInt8) : Option Defect := defectFrom 0 0 [] bytes

def encode (text : String) : List UInt8 := text.toUTF8.data.toList

def decode (bytes : List UInt8) : Except Defect String :=
  match String.fromUTF8? ⟨bytes.toArray⟩ with
  | some text => .ok text
  | none => .error ((defect bytes).getD (.incomplete bytes.length))

theorem length_encode (text : String) : (encode text).length = text.utf8ByteSize := rfl

theorem decode_encode (text : String) : decode (encode text) = .ok text := by
  have h : String.fromUTF8? text.toUTF8 = some text := by
    simp [String.fromUTF8?, String.fromUTF8, text.isValidUTF8]
  simp only [decode, encode, Array.toArray_toList]
  rw [h]

end PagedStorage.Utf8
