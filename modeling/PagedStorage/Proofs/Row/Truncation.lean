import PagedStorage.Proofs.Row.Grammar

namespace PagedStorage.Row

section

variable {row read : Row} {bytes : List UInt8} {n k : Nat}

theorem take_of_encode (h : encode row = .ok bytes) (n : Nat) :
    (encodedSize (row.take n) ≤ bytes.length) ∧
      decode (bytes.take (encodedSize (row.take n))) = .ok (row.take n) := by
  obtain ⟨fields, rfl, hs⟩ := spelledBy_of_encode h
  have hfront := List.forall₂_take n hs
  have hsplit : fields.flatten = (fields.take n).flatten ++ (fields.drop n).flatten := by
    rw [← List.flatten_append, List.take_append_drop]
  rw [← length_flatten hfront, hsplit, List.take_left, List.length_append]
  exact ⟨Nat.le_add_right _ _, decode_eq_ok_iff.mpr ⟨_, rfl, hfront⟩⟩

/-- What is read from the front of a row ends where a field ends. -/
theorem decode_take_eq_ok_iff (h : encode row = .ok bytes) (hk : k ≤ bytes.length) :
    decode (bytes.take k) = .ok read ↔ ∃ n, k = encodedSize (row.take n) ∧ read = row.take n := by
  constructor
  · intro hread
    have hrow := decode_of_encode h
    rw [← List.take_append_drop k bytes] at hrow
    obtain ⟨rest, -, rfl⟩ := exists_decode_of_append hread hrow
    have hlength := length_of_decode hread
    rw [List.length_take_of_le hk] at hlength
    exact ⟨read.length, by rw [List.take_left, hlength], List.take_left.symm⟩
  · rintro ⟨n, rfl, rfl⟩
    exact (take_of_encode h n).2

/-- A row whose texts are not too long is written in as many bytes as its values take, and read as
it was written. Its bytes cut short are read just when they are cut between two fields, as the
values up to there, and are of a wrong format otherwise. A row with a text that is too long,
wherever it stands, is refused. -/
theorem encode_decode_take (row : Row) :
    ((∀ s, Value.text s ∈ row → s.utf8ByteSize ≤ maxTextSize) →
      ∃ bytes, encode row = .ok bytes ∧ bytes.length = row.encodedSize ∧
        decode bytes = .ok row ∧
        ∀ k ≤ bytes.length,
          (∀ read, decode (bytes.take k) = .ok read ↔
            ∃ n, k = encodedSize (row.take n) ∧ read = row.take n) ∧
          ((¬∃ n, k = encodedSize (row.take n)) →
            ∃ fault, decode (bytes.take k) = .error (.format fault))) ∧
    ∀ s, Value.text s ∈ row → maxTextSize < s.utf8ByteSize →
      ∃ long, Value.text long ∈ row ∧ maxTextSize < long.utf8ByteSize ∧
        encode row = .error (.invalidArgument (.textTooLong long.utf8ByteSize)) := by
  cases h : encode row with
  | error e =>
    obtain ⟨long, hmem, hlong, rfl⟩ := exists_text_of_encode_error h
    exact ⟨fun hfits => absurd (hfits long hmem) (Nat.not_le_of_lt hlong),
      fun _ _ _ => ⟨long, hmem, hlong, rfl⟩⟩
  | ok bytes =>
    have hread := decode_of_encode h
    refine ⟨fun _ => ⟨bytes, rfl, length_of_decode hread, hread, fun k hk => ?_⟩, ?_⟩
    · refine ⟨fun read => decode_take_eq_ok_iff h hk, fun hn => ?_⟩
      cases hcut : decode (bytes.take k) with
      | error e =>
        obtain ⟨fault, rfl⟩ := isFormat_of_decode hcut
        exact ⟨fault, rfl⟩
      | ok read =>
        obtain ⟨n, hlength, -⟩ := (decode_take_eq_ok_iff h hk).mp hcut
        exact absurd ⟨n, hlength⟩ hn
    · intro s hmem hlong
      exact absurd (utf8ByteSize_le_of_encode h hmem) (Nat.not_le_of_lt hlong)

/-- Five bytes are the text alone, and four are no row. -/
theorem encode_decode_take_text :
    ∃ bytes, encode [.text "ab", .int 7] = .ok bytes ∧ bytes.length = 10 ∧
      decode (bytes.take 5) = .ok [.text "ab"] ∧
      ∃ fault, decode (bytes.take 4) = .error (.format fault) := by
  have hfits : ∀ s, Value.text s ∈ [.text "ab", .int 7] → s.utf8ByteSize ≤ maxTextSize := by
    intro s hs
    simp only [List.mem_cons, Value.text.injEq, reduceCtorEq, List.not_mem_nil, or_self,
      or_false] at hs
    subst hs
    decide
  obtain ⟨bytes, hencode, hlength, -, hcut⟩ := (encode_decode_take [.text "ab", .int 7]).1 hfits
  have hlength : bytes.length = 10 := hlength
  refine ⟨bytes, hencode, hlength, ?_, ?_⟩
  · exact ((hcut 5 (by omega)).1 _).mpr ⟨1, rfl, rfl⟩
  · apply (hcut 4 (by omega)).2
    rintro ⟨_ | _ | n, hn⟩
    · cases hn
    · cases hn
    · simp [encodedSize, Value.encodedSize] at hn

end

end PagedStorage.Row
