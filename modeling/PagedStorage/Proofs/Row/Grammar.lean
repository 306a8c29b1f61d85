import PagedStorage.Proofs.Row.RoundTrip

namespace PagedStorage.Row

structure Cut (bytes : List UInt8) (fields : List (List UInt8)) : Prop where
  flatten : bytes = fields.flatten
  isField : ∀ field ∈ fields, ∃ value : Value, value.SpelledBy field

section

variable {row front back : Row} {fields fields' : List (List UInt8)} {bytes rest : List UInt8}
  {e : StorageError}

theorem forall₂_spelledBy_iff :
    (∃ row, List.Forall₂ Value.SpelledBy row fields) ↔
      ∀ field ∈ fields, ∃ value : Value, value.SpelledBy field := by
  induction fields with
  | nil => exact iff_of_true ⟨[], .nil⟩ nofun
  | cons field fields ih =>
    rw [List.forall_mem_cons, ← ih]
    constructor
    · rintro ⟨_, h⟩
      cases h with
      | cons hfirst hrest => exact ⟨⟨_, hfirst⟩, _, hrest⟩
    · rintro ⟨⟨value, hfirst⟩, row, hrest⟩
      exact ⟨value :: row, .cons hfirst hrest⟩

theorem cut_iff :
    Cut bytes fields ↔
      bytes = fields.flatten ∧ ∃ row, List.Forall₂ Value.SpelledBy row fields := by
  rw [forall₂_spelledBy_iff]
  exact ⟨fun h => ⟨h.flatten, h.isField⟩, fun h => ⟨h.1, h.2⟩⟩

theorem exists_decode_iff : (∃ row, decode bytes = .ok row) ↔ ∃ fields, Cut bytes fields := by
  simp only [decode_eq_ok_iff, cut_iff]
  exact ⟨fun ⟨row, fields, hb, hs⟩ => ⟨fields, hb, row, hs⟩,
    fun ⟨fields, hb, row, hs⟩ => ⟨row, fields, hb, hs⟩⟩

theorem Cut.unique (h : Cut bytes fields) (h' : Cut bytes fields') : fields = fields' := by
  obtain ⟨hb, row, hs⟩ := cut_iff.mp h
  obtain ⟨hb', row', hs'⟩ := cut_iff.mp h'
  exact fields_unique hs hs' (hb.symm.trans hb')

theorem length_flatten_canonical (fields : List (List UInt8)) :
    (fields.map Value.canonical).flatten.length = fields.flatten.length := by
  simp only [List.length_flatten, List.map_map]
  exact congrArg _ (List.map_congr_left fun field _ => Value.length_canonical field)

/-- Fields are canonical as long as each truth value is spelled by 0 or 1. -/
theorem map_canonical (h : ∀ payload, [3, payload] ∈ fields → payload = 0 ∨ payload = 1) :
    fields.map Value.canonical = fields := by
  refine (List.map_congr_left fun field hmem => ?_).trans (List.map_id fields)
  exact Value.canonical_eq_self fun payload hfield => h payload (hfield ▸ hmem)

theorem isFormat_of_decode (h : decode bytes = .error e) : ∃ fault, e = .format fault :=
  isFormat_of_decodeFrom h

/-- The first tag that is none is told with its place, and what comes before it can be read. -/
theorem badTag_of_decode {tag : UInt8} {position : Nat}
    (h : decode bytes = .error (.format (.badTag tag position))) :
    bytes[position]? = some tag ∧ 4 < tag ∧ ∃ row, decode (bytes.take position) = .ok row := by
  have hrow := decodeFrom_outcome bytes.length [] bytes
  rw [← decode, h] at hrow
  cases hrow with
  | stopped row fields next left e hb hs he =>
    have hfield := Value.decode_outcome bytes.length next left
    rw [he] at hfield
    cases hfield with
    | badTag ht =>
      have hposition : bytes.length - left.length - 1 = fields.flatten.length := by
        rw [hb, List.length_append, List.length_cons]
        omega
      rw [hposition, hb, List.getElem?_append_right (Nat.le_refl _), Nat.sub_self, List.take_left]
      exact ⟨rfl, ht, row, decode_eq_ok_iff.mpr ⟨fields, rfl, hs⟩⟩

/-- Rows written one behind the other are read as one. -/
theorem decode_append (h : decode bytes = .ok front) (h' : decode rest = .ok back) :
    decode (bytes ++ rest) = .ok (front ++ back) := by
  obtain ⟨fields, rfl, hs⟩ := decode_eq_ok_iff.mp h
  obtain ⟨fields', rfl, hs'⟩ := decode_eq_ok_iff.mp h'
  exact decode_eq_ok_iff.mpr ⟨fields ++ fields', List.flatten_append.symm, List.rel_append hs hs'⟩

/-- What follows a row has to be a row for both to be read. -/
theorem exists_decode_of_append (h : decode bytes = .ok front)
    (h' : decode (bytes ++ rest) = .ok row) :
    ∃ back, decode rest = .ok back ∧ row = front ++ back := by
  obtain ⟨fields, rfl, hs⟩ := decode_eq_ok_iff.mp h
  have hread := decodeFrom_flatten hs (fields.flatten ++ rest).length [] rest
  rw [← decode, h', List.append_nil] at hread
  have hrest := decodeFrom_outcome (fields.flatten ++ rest).length front.reverse rest
  rw [← hread] at hrest
  cases hrest with
  | read back fields' hb hs' =>
    exact ⟨back, decode_eq_ok_iff.mpr ⟨fields', hb, hs'⟩, by rw [List.reverse_reverse]⟩

theorem decode_append_of_error (h : decode bytes = .ok front) (h' : decode rest = .error e) :
    ∃ fault, decode (bytes ++ rest) = .error (.format fault) := by
  cases hboth : decode (bytes ++ rest) with
  | error e =>
    obtain ⟨fault, rfl⟩ := isFormat_of_decode hboth
    exact ⟨fault, rfl⟩
  | ok row =>
    obtain ⟨back, hback, -⟩ := exists_decode_of_append h hboth
    rw [h'] at hback
    cases hback

/-- Bytes are read as a row just when they are fields one after another, and they are so in one way
only. What is written for a row that was read has the same fields but for truth values that are
true, which are written as 1 whatever they were; it is as long, and it is read as the same row.
Bytes that are not read are of a wrong format, and the first tag that is none is told with its
place. A row is read together with one behind it, and with nothing else. -/
theorem decode_grammar (bytes : List UInt8) :
    ((∃ row, decode bytes = .ok row) ↔ ∃ fields, Cut bytes fields) ∧
    (∀ fields fields', Cut bytes fields → Cut bytes fields' → fields = fields') ∧
    (∀ row, decode bytes = .ok row →
      ∃ fields written, Cut bytes fields ∧ written = (fields.map Value.canonical).flatten ∧
        encode row = .ok written ∧ written.length = bytes.length ∧ decode written = .ok row ∧
        ((∀ payload, [3, payload] ∈ fields → payload = 0 ∨ payload = 1) →
          encode row = .ok bytes)) ∧
    (∀ e, decode bytes = .error e →
      ∃ fault, e = .format fault ∧ ∀ tag position, fault = .badTag tag position →
        bytes[position]? = some tag ∧ 4 < tag ∧ ∃ row, decode (bytes.take position) = .ok row) ∧
    ∀ row, decode bytes = .ok row → ∀ rest,
      (∀ back, decode rest = .ok back → decode (bytes ++ rest) = .ok (row ++ back)) ∧
      ∀ e, decode rest = .error e → ∃ fault, decode (bytes ++ rest) = .error (.format fault) := by
  refine ⟨exists_decode_iff, fun _ _ => Cut.unique, ?_, ?_, ?_⟩
  · intro row h
    obtain ⟨fields, rfl, hs⟩ := decode_eq_ok_iff.mp h
    have hwritten := encode_of_spelledBy hs
    refine ⟨fields, _, cut_iff.mpr ⟨rfl, row, hs⟩, rfl, hwritten, length_flatten_canonical fields,
      decode_of_encode hwritten, fun hbool => ?_⟩
    rw [hwritten, map_canonical hbool]
  · intro e h
    obtain ⟨fault, rfl⟩ := isFormat_of_decode h
    refine ⟨fault, rfl, ?_⟩
    rintro tag position rfl
    exact badTag_of_decode h
  · intro row h rest
    exact ⟨fun back hback => decode_append h hback, fun e he => decode_append_of_error h he⟩

end

end PagedStorage.Row
