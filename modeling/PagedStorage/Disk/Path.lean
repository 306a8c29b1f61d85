namespace PagedStorage

/-- The pieces of a path between its slashes. -/
abbrev Path := List String

namespace Path

def maxSize : Nat := 4095

def maxNameSize : Nat := 255

def ofString (text : String) : Path := text.splitOn "/"

def size : Path → Nat
  | [] => 0
  | [piece] => piece.utf8ByteSize
  | piece :: path => piece.utf8ByteSize + 1 + size path

/-- Whether a path can be looked up: it is not too long and holds no zero byte. -/
def IsUsable (path : Path) : Prop := path.size ≤ maxSize ∧ ∀ piece ∈ path, '\x00' ∉ piece.toList

instance (path : Path) : Decidable path.IsUsable :=
  inferInstanceAs (Decidable (path.size ≤ maxSize ∧ ∀ piece ∈ path, '\x00' ∉ piece.toList))

def IsIdle (piece : String) : Prop := piece = "" ∨ piece = "."

instance (piece : String) : Decidable (IsIdle piece) :=
  inferInstanceAs (Decidable (piece = "" ∨ piece = "."))

def trimmed (path : Path) : Path := (path.reverse.dropWhile fun piece => IsIdle piece).reverse

def parent (path : Path) : Path := trimmed path.trimmed.dropLast

theorem isPrefix_trimmed (path : Path) : path.trimmed <+: path := by
  rw [trimmed, ← List.reverse_suffix, List.reverse_reverse]
  exact List.dropWhile_suffix _

theorem isPrefix_parent (path : Path) : path.parent <+: path :=
  ((isPrefix_trimmed _).trans (List.dropLast_prefix _)).trans (isPrefix_trimmed path)

theorem size_le_size_append (front rest : Path) : size front ≤ size (front ++ rest) := by
  induction front with
  | nil => exact Nat.zero_le _
  | cons piece front ih =>
    cases front with
    | nil =>
      cases rest with
      | nil => exact Nat.le_refl _
      | cons => simp only [List.cons_append, List.nil_append, size]; omega
    | cons => simp only [List.cons_append, size] at ih ⊢; omega

theorem IsUsable.of_append {front rest : Path} (h : IsUsable (front ++ rest)) : IsUsable front :=
  ⟨Nat.le_trans (size_le_size_append front rest) h.1,
    fun piece hp => h.2 piece (List.mem_append_left rest hp)⟩

/-- A path leads further than to its parent directory, unless it is empty. -/
theorem exists_parent_append {path : Path} (h : path ≠ []) :
    ∃ rest, rest ≠ [] ∧ path.parent ++ rest = path := by
  obtain ⟨rest, hrest⟩ := isPrefix_parent path
  refine ⟨rest, ?_, hrest⟩
  rintro rfl
  have hparent := (isPrefix_trimmed path.trimmed.dropLast).length_le
  have htrimmed := (isPrefix_trimmed path).length_le
  have hpos := List.length_pos_iff.mpr h
  have hlen := congrArg List.length hrest
  rw [List.append_nil] at hlen
  rw [List.length_dropLast] at hparent
  simp only [parent] at hlen
  omega

end Path

end PagedStorage
