import PagedStorage.Proofs.Row.Fields

namespace PagedStorage

namespace Value

theorem utf8ByteSize_le_of_encode {s : String} {field : List UInt8}
    (h : (text s).encode = .ok field) : s.utf8ByteSize ≤ maxTextSize := by
  rw [encode] at h
  split at h
  · assumption
  · cases h

theorem exists_text_of_encode_error {value : Value} {e : StorageError}
    (h : value.encode = .error e) :
    ∃ s, value = text s ∧ maxTextSize < s.utf8ByteSize ∧
      e = .invalidArgument (.textTooLong s.utf8ByteSize) := by
  cases value with
  | null | int | bigint | bool => cases h
  | text s =>
    rw [encode] at h
    split at h <;> cases h
    exact ⟨s, rfl, Nat.lt_of_not_le (by assumption), rfl⟩

end Value

namespace Row

section

variable {row : Row} {fields : List (List UInt8)} {bytes : List UInt8} {e : StorageError}

theorem encode_cons (value : Value) (row : Row) :
    encode (value :: row) =
      match value.encode, encode row with
      | .error e, _ => .error e
      | .ok _, .error e => .error e
      | .ok front, .ok back => .ok (front ++ back) := by
  simp only [encode, List.mapM_cons, bind, Except.bind, pure, Except.pure]
  cases value.encode with
  | error e => rfl
  | ok front => cases row.mapM Value.encode <;> rfl

/-- A row is written as its values are, one after another. -/
theorem encode_eq_ok_iff :
    encode row = .ok bytes ↔
      ∃ fields, bytes = fields.flatten ∧
        List.Forall₂ (fun value field => value.encode = .ok field) row fields := by
  induction row generalizing bytes with
  | nil =>
    constructor
    · intro h
      cases h
      exact ⟨[], rfl, .nil⟩
    · rintro ⟨fields, rfl, h⟩
      cases h
      rfl
  | cons value row ih =>
    rw [encode_cons]
    constructor
    · intro h
      split at h
      · cases h
      · cases h
      · rename_i front back hfront hback
        cases h
        obtain ⟨fields, rfl, h⟩ := ih.mp hback
        exact ⟨front :: fields, rfl, .cons hfront h⟩
    · rintro ⟨fields, rfl, h⟩
      cases h with
      | cons hfront h => rw [hfront, ih.mpr ⟨_, rfl, h⟩, List.flatten_cons]

theorem spelledBy_of_encode (h : encode row = .ok bytes) :
    ∃ fields, bytes = fields.flatten ∧ List.Forall₂ Value.SpelledBy row fields := by
  obtain ⟨fields, hb, h⟩ := encode_eq_ok_iff.mp h
  exact ⟨fields, hb, h.imp fun _ _ => Value.spelledBy_of_encode⟩

theorem decode_of_encode (h : encode row = .ok bytes) : decode bytes = .ok row :=
  decode_eq_ok_iff.mpr (spelledBy_of_encode h)

/-- The values of any fields are written as the canonical fields for them. -/
theorem encode_of_spelledBy (h : List.Forall₂ Value.SpelledBy row fields) :
    encode row = .ok (fields.map Value.canonical).flatten := by
  refine encode_eq_ok_iff.mpr ⟨_, rfl, ?_⟩
  rw [List.forall₂_map_right_iff]
  exact h.imp fun _ _ => Value.SpelledBy.encode_eq

theorem length_flatten (h : List.Forall₂ Value.SpelledBy row fields) :
    fields.flatten.length = row.encodedSize := by
  induction h with
  | nil => rfl
  | cons hfirst _ ih =>
    rw [List.flatten_cons, List.length_append, hfirst.length_eq, ih, encodedSize]

theorem length_of_decode (h : decode bytes = .ok row) : bytes.length = row.encodedSize := by
  obtain ⟨fields, rfl, hs⟩ := decode_eq_ok_iff.mp h
  exact length_flatten hs

/-- Only a text that is too long keeps a row from being written. -/
theorem exists_text_of_encode_error (h : encode row = .error e) :
    ∃ s, Value.text s ∈ row ∧ maxTextSize < s.utf8ByteSize ∧
      e = .invalidArgument (.textTooLong s.utf8ByteSize) := by
  induction row with
  | nil => cases h
  | cons value row ih =>
    rw [encode_cons] at h
    split at h
    · rename_i hvalue
      cases h
      obtain ⟨s, rfl, hlong, he⟩ := Value.exists_text_of_encode_error hvalue
      exact ⟨s, List.mem_cons_self, hlong, he⟩
    · rename_i hrow
      cases h
      obtain ⟨s, hmem, hlong, he⟩ := ih hrow
      exact ⟨s, List.mem_cons_of_mem value hmem, hlong, he⟩
    · cases h

theorem utf8ByteSize_le_of_encode {s : String} (h : encode row = .ok bytes)
    (hs : Value.text s ∈ row) : s.utf8ByteSize ≤ maxTextSize := by
  obtain ⟨fields, -, hfields⟩ := encode_eq_ok_iff.mp h
  clear h
  induction hfields with
  | nil => cases hs
  | cons hfirst _ ih =>
    rcases List.mem_cons.mp hs with rfl | hs
    · exact Value.utf8ByteSize_le_of_encode hfirst
    · exact ih hs

end

end Row

end PagedStorage
