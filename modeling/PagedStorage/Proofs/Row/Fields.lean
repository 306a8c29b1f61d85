import Mathlib.Data.List.Forall2
import PagedStorage.Row.Codec

namespace PagedStorage

namespace Utf8

theorem decode_of_isValidUTF8 {bytes : List UInt8} (h : ByteArray.IsValidUTF8 ⟨bytes.toArray⟩) :
    decode bytes = .ok (.ofByteArray ⟨bytes.toArray⟩ h) := by
  have htext : String.fromUTF8? ⟨bytes.toArray⟩ = some (.ofByteArray ⟨bytes.toArray⟩ h) := by
    rw [String.fromUTF8?, dif_pos h]
    rfl
  rw [decode, htext]

theorem isValidUTF8_of_decode {bytes : List UInt8} {text : String} (h : decode bytes = .ok text) :
    ByteArray.IsValidUTF8 ⟨bytes.toArray⟩ := by
  by_contra hn
  have htext : String.fromUTF8? ⟨bytes.toArray⟩ = none := by rw [String.fromUTF8?, dif_neg hn]
  rw [decode, htext] at h
  cases h

end Utf8

theorem takeBytes_append (size : Nat) {count : Nat} {field : List UInt8} (rest : List UInt8)
    (h : field.length = count) : takeBytes size count (field ++ rest) = .ok (field, rest) := by
  subst h
  simp [takeBytes, List.splitAt_eq]

theorem takeBytes_eq_error {size count : Nat} {bytes : List UInt8} {e : StorageError}
    (h : takeBytes size count bytes = .error e) :
    ∃ position, e = .format (.truncatedField count position size) := by
  simp only [takeBytes] at h
  split at h <;> cases h
  exact ⟨_, rfl⟩

namespace Value

/-- The bytes that a row can have for a value. Any byte but 0 stands for true. -/
inductive SpelledBy : Value → List UInt8 → Prop
  | null : SpelledBy null [0]
  | int (payload : List UInt8) (h : payload.length = 4) :
      SpelledBy (int (UInt32.ofNat (LittleEndian.decode payload)).toInt32) (1 :: payload)
  | bigint (payload : List UInt8) (h : payload.length = 8) :
      SpelledBy (bigint (UInt64.ofNat (LittleEndian.decode payload)).toInt64) (2 :: payload)
  | bool (payload : UInt8) : SpelledBy (bool (payload ≠ 0)) [3, payload]
  | text (size text : List UInt8) (hsize : size.length = 2)
      (htext : text.length = LittleEndian.decode size)
      (hutf8 : ByteArray.IsValidUTF8 ⟨text.toArray⟩) :
      SpelledBy (.text (.ofByteArray ⟨text.toArray⟩ hutf8)) (4 :: (size ++ text))

/-- The field that is written for the value of a field: true is written as 1. -/
def canonical : List UInt8 → List UInt8
  | [3, payload] => [3, if payload = 0 then 0 else 1]
  | field => field

inductive DecodeOutcome (size : Nat) (tag : UInt8) (bytes : List UInt8) :
    Except StorageError (Value × List UInt8) → Prop
  | read (value : Value) (payload rest : List UInt8) (hb : bytes = payload ++ rest)
      (hs : value.SpelledBy (tag :: payload)) : DecodeOutcome size tag bytes (.ok (value, rest))
  | truncated (needed position : Nat) :
      DecodeOutcome size tag bytes (.error (.format (.truncatedField needed position size)))
  | notText (defect : Utf8.Defect) :
      DecodeOutcome size tag bytes (.error (.format (.notText defect)))
  | badTag (ht : 4 < tag) :
      DecodeOutcome size tag bytes (.error (.format (.badTag tag (size - bytes.length - 1))))

section

variable {value other : Value} {size : Nat} {tag : UInt8}
  {bytes payload field field' rest rest' : List UInt8}

theorem SpelledBy.exists_payload (h : value.SpelledBy field) :
    ∃ payload, field = value.tag :: payload := by
  cases h <;> exact ⟨_, rfl⟩

/-- A field is as long as its value takes when written. -/
theorem SpelledBy.length_eq (h : value.SpelledBy field) : field.length = value.encodedSize := by
  cases h with
  | null => rfl
  | int payload h => rw [List.length_cons, h, encodedSize]
  | bigint payload h => rw [List.length_cons, h, encodedSize]
  | bool payload => rfl
  | text size text hsize htext hutf8 =>
    have hbytes : (String.ofByteArray ⟨text.toArray⟩ hutf8).utf8ByteSize = text.length := rfl
    rw [List.length_cons, List.length_append, hsize, encodedSize, hbytes]
    omega

theorem decode_of_spelledBy (h : value.SpelledBy (tag :: payload)) (size : Nat)
    (rest : List UInt8) : decode size tag (payload ++ rest) = .ok (value, rest) := by
  cases h with
  | null => rfl
  | int payload h =>
    have hfield := takeBytes_append size rest h
    simp [decode, hfield, bind, Except.bind]
  | bigint payload h =>
    have hfield := takeBytes_append size rest h
    simp [decode, hfield, bind, Except.bind]
  | bool payload =>
    have hfield : takeBytes size 1 ([payload] ++ rest) = .ok ([payload], rest) :=
      takeBytes_append size rest rfl
    rw [List.singleton_append] at hfield
    have hzero : LittleEndian.decode [payload] = 0 ↔ payload = 0 := by
      simp [LittleEndian.decode, ← UInt8.toNat_inj]
    simp [decode, hfield, hzero, bind, Except.bind]
  | text length text hsize htext hutf8 =>
    have hlength := takeBytes_append size (text ++ rest) hsize
    have hfield := takeBytes_append size rest htext
    simp [decode, List.append_assoc, hlength, hfield, Utf8.decode_of_isValidUTF8 hutf8, bind,
      Except.bind]

/-- Bytes that a payload needs are there, or reading it ends. -/
theorem DecodeOutcome.of_takeBytes {count : Nat} {left : List UInt8}
    {next : List UInt8 × List UInt8 → Except StorageError (Value × List UInt8)}
    (h : ∀ field rest, left = field ++ rest → field.length = count →
      DecodeOutcome size tag bytes (next (field, rest))) :
    DecodeOutcome size tag bytes (takeBytes size count left >>= next) := by
  cases ht : takeBytes size count left with
  | error e =>
    obtain ⟨position, rfl⟩ := takeBytes_eq_error ht
    exact .truncated count position
  | ok taken =>
    obtain ⟨field, rest⟩ := taken
    obtain ⟨hleft, hlength⟩ := takeBytes_eq_ok ht
    exact h field rest hleft hlength

theorem decode_outcome (size : Nat) (tag : UInt8) (bytes : List UInt8) :
    DecodeOutcome size tag bytes (decode size tag bytes) := by
  unfold decode
  split
  · rename_i ht
    exact .read null [] bytes rfl (ht ▸ .null)
  split
  · rename_i ht
    exact .of_takeBytes fun field rest hb hl => .read _ field rest hb (ht ▸ .int field hl)
  split
  · rename_i ht
    exact .of_takeBytes fun field rest hb hl => .read _ field rest hb (ht ▸ .bigint field hl)
  split
  · rename_i ht
    refine .of_takeBytes fun field rest hb hl => ?_
    obtain ⟨payload, rfl⟩ := List.length_eq_one_iff.mp hl
    have hzero : LittleEndian.decode [payload] ≠ 0 ↔ payload ≠ 0 := by
      simp [LittleEndian.decode, ← UInt8.toNat_inj]
    simp only [hzero]
    exact .read _ [payload] rest hb (ht ▸ .bool payload)
  split
  · rename_i ht
    refine .of_takeBytes fun length left hb hlength => ?_
    refine .of_takeBytes fun text rest hleft htext => ?_
    dsimp only
    split
    · rename_i s hs
      have hutf8 := Utf8.isValidUTF8_of_decode hs
      rw [Utf8.decode_of_isValidUTF8 hutf8] at hs
      cases hs
      refine .read _ (length ++ text) rest ?_ (ht ▸ .text length text hlength htext hutf8)
      rw [hb, hleft, List.append_assoc]
    · exact .notText _
  · rename_i h0 h1 h2 h3 h4
    refine .badTag ?_
    simp only [← UInt8.toNat_inj, UInt8.lt_iff_toNat_lt] at *
    simp only [UInt8.reduceToNat] at *
    omega

/-- What begins with a field of a value begins with no other. -/
theorem SpelledBy.append_inj (h : value.SpelledBy field) (h' : other.SpelledBy field')
    (he : field ++ rest = field' ++ rest') : field = field' ∧ rest = rest' := by
  obtain ⟨payload, rfl⟩ := h.exists_payload
  obtain ⟨payload', rfl⟩ := h'.exists_payload
  rw [List.cons_append, List.cons_append] at he
  obtain ⟨htag, hrest⟩ := List.cons.inj he
  -- What follows a tag is read as one value, and so leaves the same bytes.
  have hfirst := decode_of_spelledBy h 0 rest
  have hsecond := decode_of_spelledBy h' 0 rest'
  rw [htag, hrest, hsecond] at hfirst
  cases hfirst
  exact ⟨congrArg _ (List.append_cancel_right hrest), rfl⟩

theorem spelledBy_of_encode (h : value.encode = .ok field) : value.SpelledBy field := by
  cases value with
  | null =>
    cases h
    exact .null
  | int n =>
    cases h
    have hn : LittleEndian.decode (LittleEndian.encode 4 n.toUInt32.toNat) = n.toUInt32.toNat :=
      LittleEndian.decode_encode_of_lt n.toUInt32.toNat_lt
    have hfield := SpelledBy.int _ (LittleEndian.length_encode 4 n.toUInt32.toNat)
    rw [hn] at hfield
    simpa [tag] using hfield
  | bigint n =>
    cases h
    have hn : LittleEndian.decode (LittleEndian.encode 8 n.toUInt64.toNat) = n.toUInt64.toNat :=
      LittleEndian.decode_encode_of_lt n.toUInt64.toNat_lt
    have hfield := SpelledBy.bigint _ (LittleEndian.length_encode 8 n.toUInt64.toNat)
    rw [hn] at hfield
    simpa [tag] using hfield
  | bool b =>
    cases h
    cases b
    · exact .bool 0
    · exact .bool 1
  | text s =>
    rw [encode] at h
    split at h
    · rename_i hsize
      cases h
      have hn : LittleEndian.decode (LittleEndian.encode 2 s.utf8ByteSize) = s.utf8ByteSize :=
        LittleEndian.decode_encode_of_lt (Nat.lt_succ_of_le hsize)
      exact .text _ (Utf8.encode s) (LittleEndian.length_encode 2 _) hn.symm s.isValidUTF8
    · cases h

theorem canonical_eq_self (h : ∀ payload, field = [3, payload] → payload = 0 ∨ payload = 1) :
    canonical field = field := by
  unfold canonical
  split
  · rename_i payload
    rcases h payload rfl with rfl | rfl <;> rfl
  · rfl

theorem canonical_of_ne (h : tag ≠ 3) : canonical (tag :: payload) = tag :: payload :=
  canonical_eq_self fun _ hfield => absurd (List.cons.inj hfield).1 h

/-- Writing the value of a field changes the payload of a truth value at most. -/
theorem SpelledBy.encode_eq (h : value.SpelledBy field) :
    value.encode = .ok (canonical field) := by
  cases h with
  | null => rfl
  | int payload h =>
    have hlt : LittleEndian.decode payload < UInt32.size := LittleEndian.decode_lt_of_length h
    have hn := LittleEndian.encode_decode_of_length h
    rw [canonical_of_ne (by decide), Value.encode]
    simp [UInt32.toNat_ofNat_of_lt' hlt, hn, tag]
  | bigint payload h =>
    have hlt : LittleEndian.decode payload < UInt64.size := LittleEndian.decode_lt_of_length h
    have hn := LittleEndian.encode_decode_of_length h
    rw [canonical_of_ne (by decide), Value.encode]
    simp [UInt64.toNat_ofNat_of_lt' hlt, hn, tag]
  | bool payload => by_cases hzero : payload = 0 <;> simp [Value.encode, canonical, tag, hzero]
  | text size text hsize htext hutf8 =>
    have hbytes : (String.ofByteArray ⟨text.toArray⟩ hutf8).utf8ByteSize = text.length := rfl
    have hfits : text.length ≤ maxTextSize := by
      rw [htext]
      exact Nat.le_of_lt_succ (LittleEndian.decode_lt_of_length hsize)
    have hn := LittleEndian.encode_decode_of_length hsize
    rw [canonical_of_ne (by decide), Value.encode, hbytes, if_pos hfits, htext, hn]
    rfl

theorem length_canonical (field : List UInt8) : (canonical field).length = field.length := by
  unfold canonical
  split <;> rfl

end

end Value

namespace Row

inductive DecodeOutcome (size : Nat) (read : List Value) (bytes : List UInt8) :
    Except StorageError Row → Prop
  | read (row : Row) (fields : List (List UInt8)) (hb : bytes = fields.flatten)
      (hs : List.Forall₂ Value.SpelledBy row fields) :
      DecodeOutcome size read bytes (.ok (read.reverse ++ row))
  | stopped (row : Row) (fields : List (List UInt8)) (tag : UInt8) (rest : List UInt8)
      (e : StorageError) (hb : bytes = fields.flatten ++ tag :: rest)
      (hs : List.Forall₂ Value.SpelledBy row fields)
      (he : Value.decode size tag rest = .error e) : DecodeOutcome size read bytes (.error e)

section

variable {row other : Row} {fields fields' : List (List UInt8)} {bytes : List UInt8}
  {e : StorageError}

theorem decodeFrom_outcome (size : Nat) (read : List Value) (bytes : List UInt8) :
    DecodeOutcome size read bytes (decodeFrom size read bytes) := by
  fun_induction decodeFrom size read bytes with
  | case1 read =>
    rw [← List.append_nil read.reverse]
    exact .read [] [] rfl .nil
  | case2 read tag bytes value rest hvalue ih =>
    have hfield := Value.decode_outcome size tag bytes
    rw [hvalue] at hfield
    cases hfield with
    | read value payload rest hb hs =>
      subst hb
      generalize decodeFrom size (value :: read) rest = result at ih ⊢
      cases ih with
      | read row fields hrest hrow =>
        subst hrest
        rw [List.reverse_cons, List.append_assoc]
        exact .read (value :: row) ((tag :: payload) :: fields) rfl (.cons hs hrow)
      | stopped row fields next left e hrest hrow he =>
        subst hrest
        refine .stopped (value :: row) ((tag :: payload) :: fields) next left e ?_
          (.cons hs hrow) he
        rw [List.flatten_cons, List.append_assoc]
        rfl
  | case3 read tag bytes e he => exact .stopped [] [] tag bytes e rfl .nil he

/-- Fields are read whatever follows, and their values come behind those that were read before. -/
theorem decodeFrom_flatten (h : List.Forall₂ Value.SpelledBy row fields) (size : Nat)
    (read : List Value) (rest : List UInt8) :
    decodeFrom size read (fields.flatten ++ rest) = decodeFrom size (row.reverse ++ read) rest := by
  -- The values that were read are passed on in reverse, so the induction is over all of them.
  induction h generalizing read with
  | nil => rfl
  | @cons value field row fields hfirst _ ih =>
    obtain ⟨payload, rfl⟩ := hfirst.exists_payload
    have hvalue := Value.decode_of_spelledBy hfirst size (fields.flatten ++ rest)
    rw [List.flatten_cons, List.append_assoc, List.cons_append, decodeFrom]
    split
    · rename_i hread
      rw [hvalue] at hread
      cases hread
      rw [ih, List.reverse_cons, List.append_assoc]
      rfl
    · rename_i hread
      rw [hvalue] at hread
      cases hread

/-- Bytes are read as a row just when they are fields of its values, one after another. -/
theorem decode_eq_ok_iff :
    decode bytes = .ok row ↔
      ∃ fields, bytes = fields.flatten ∧ List.Forall₂ Value.SpelledBy row fields := by
  constructor
  · intro h
    have hrow := decodeFrom_outcome bytes.length [] bytes
    rw [← decode, h] at hrow
    cases hrow with
    | read row fields hb hs => exact ⟨fields, hb, hs⟩
  · rintro ⟨fields, rfl, h⟩
    have hread := decodeFrom_flatten h fields.flatten.length [] []
    rw [List.append_nil, List.append_nil, decodeFrom, List.reverse_reverse] at hread
    exact hread

/-- There is one way at most to cut bytes into fields. -/
theorem fields_unique (h : List.Forall₂ Value.SpelledBy row fields)
    (h' : List.Forall₂ Value.SpelledBy other fields') (he : fields.flatten = fields'.flatten) :
    fields = fields' := by
  have hne {value : Value} {field rest : List UInt8} (h : value.SpelledBy field) :
      field ++ rest ≠ [] := by
    obtain ⟨payload, rfl⟩ := h.exists_payload
    exact List.cons_ne_nil _ _
  induction h generalizing other fields' with
  | nil =>
    cases h' with
    | nil => rfl
    | cons hfirst _ => exact absurd he.symm (hne hfirst)
  | cons hfirst _ ih =>
    cases h' with
    | nil => exact absurd he (hne hfirst)
    | cons hfirst' hrest' =>
      obtain ⟨rfl, hrest⟩ := hfirst.append_inj hfirst' he
      rw [ih hrest' hrest]

theorem isFormat_of_decodeFrom {size : Nat} {read : List Value}
    (h : decodeFrom size read bytes = .error e) : ∃ fault, e = .format fault := by
  have hrow := decodeFrom_outcome size read bytes
  rw [h] at hrow
  cases hrow with
  | stopped row fields tag rest e hb hs he =>
    have hfield := Value.decode_outcome size tag rest
    rw [he] at hfield
    cases hfield <;> exact ⟨_, rfl⟩

end

end Row

end PagedStorage
