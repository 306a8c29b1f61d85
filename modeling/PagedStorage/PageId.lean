import PagedStorage.Layout

namespace PagedStorage

structure PageId where
  number : UInt32
deriving DecidableEq, Repr, Inhabited

namespace PageId

/-- The id that names no place in a file. -/
def invalid : PageId := ⟨0xFFFFFFFF⟩

def IsValid (id : PageId) : Prop := id ≠ invalid

instance (id : PageId) : Decidable id.IsValid := inferInstanceAs (Decidable (id ≠ invalid))

def index (id : PageId) : Nat := id.number.toNat

def ofIndex (index : Nat) : PageId := ⟨UInt32.ofNat index⟩

/-- The page that follows. The sentinel has no successor, and no caller asks for it. -/
def next (id : PageId) : PageId := ⟨id.number + 1⟩

instance : LT PageId := ⟨fun a b => a.index < b.index⟩

instance : LE PageId := ⟨fun a b => a.index ≤ b.index⟩

instance (a b : PageId) : Decidable (a < b) := inferInstanceAs (Decidable (a.index < b.index))

instance (a b : PageId) : Decidable (a ≤ b) := inferInstanceAs (Decidable (a.index ≤ b.index))

instance : Ord PageId := ⟨fun a b => compare a.index b.index⟩

instance : Std.TransOrd PageId := inferInstanceAs (Std.TransCmp (compareOn index))

def offset? (id : PageId) : Option Nat :=
  if id.IsValid then some (id.index * pageSize) else none

def text (id : PageId) : String :=
  if id.IsValid then s!"Page({id.index})" else "Page(INVALID)"

theorem lt_def {a b : PageId} : a < b ↔ a.index < b.index := Iff.rfl

theorem index_lt (id : PageId) : id.index < 4294967296 := id.number.toNat_lt

theorem index_injective {a b : PageId} (h : a.index = b.index) : a = b := by
  cases a
  cases b
  exact congrArg PageId.mk (UInt32.toNat_inj.mp h)

theorem index_inj {a b : PageId} : a.index = b.index ↔ a = b :=
  ⟨index_injective, congrArg index⟩

theorem compare_eq_iff {a b : PageId} : compare a b = .eq ↔ a = b :=
  Nat.compare_eq_eq.trans index_inj

theorem isValid_iff {id : PageId} : id.IsValid ↔ id.index < 4294967295 := by
  have hlt := id.index_lt
  have hi : invalid.index = 4294967295 := rfl
  constructor
  · intro h
    have hne : id.index ≠ invalid.index := fun he => h (index_injective he)
    omega
  · rintro h rfl
    omega

/-- A valid id is followed by the next number, so no wrap is ever seen. -/
theorem index_next {id : PageId} (h : id.IsValid) : id.next.index = id.index + 1 := by
  have hlt := isValid_iff.mp h
  simp only [index, next, UInt32.toNat_add] at *
  exact Nat.mod_eq_of_lt (by simpa using Nat.add_lt_add_right hlt 1)

theorem ofIndex_index (id : PageId) : ofIndex id.index = id := by
  simp [ofIndex, index]

theorem index_ofIndex {n : Nat} (h : n < 4294967296) : (ofIndex n).index = n :=
  UInt32.toNat_ofNat_of_lt' h

end PageId

end PagedStorage
