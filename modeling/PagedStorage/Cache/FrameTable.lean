import PagedStorage.Cache.Frame

namespace PagedStorage

def SortedById (frames : List Frame) : Prop := frames.Pairwise fun a b => a.id < b.id

/-- The frames with one more, which takes the place of a frame with its id. -/
def insertFrame (frame : Frame) : List Frame → List Frame
  | [] => [frame]
  | other :: frames =>
    if frame.id < other.id then frame :: other :: frames
    else if frame.id = other.id then frame :: frames
    else other :: insertFrame frame frames

theorem mem_insertFrame {frame other : Frame} {frames : List Frame}
    (h : other ∈ insertFrame frame frames) : other = frame ∨ other ∈ frames := by
  induction frames with
  | nil => simpa [insertFrame] using h
  | cons head tail ih =>
    simp only [insertFrame] at h
    split at h
    · simpa using h
    split at h
    · rcases List.mem_cons.mp h with rfl | h
      · exact Or.inl rfl
      · exact Or.inr (List.mem_cons_of_mem _ h)
    · rcases List.mem_cons.mp h with rfl | h
      · exact Or.inr List.mem_cons_self
      · exact (ih h).imp_right (List.mem_cons_of_mem _)

theorem SortedById.insertFrame {frames : List Frame} (h : SortedById frames) (frame : Frame) :
    SortedById (insertFrame frame frames) := by
  induction frames with
  | nil => simp [PagedStorage.insertFrame, SortedById]
  | cons head tail ih =>
    have ⟨hhead, htail⟩ := List.pairwise_cons.mp h
    simp only [PagedStorage.insertFrame]
    split
    · rename_i hlt
      refine List.pairwise_cons.mpr ⟨fun other hother => ?_, h⟩
      rcases List.mem_cons.mp hother with rfl | hother
      · exact hlt
      · exact Nat.lt_trans hlt (hhead other hother)
    split
    · rename_i heq
      exact List.pairwise_cons.mpr ⟨fun other hother => heq ▸ hhead other hother, htail⟩
    · rename_i hlt hne
      refine List.pairwise_cons.mpr ⟨fun other hother => ?_, ih htail⟩
      rcases mem_insertFrame hother with rfl | hother
      · have hneq : other.id.index ≠ head.id.index := fun he => hne (PageId.index_injective he)
        simp only [PageId.lt_def] at hlt ⊢
        omega
      · exact hhead other hother

theorem find?_insertFrame (frame : Frame) (frames : List Frame) (id : PageId) :
    (insertFrame frame frames).find? (fun other => other.id = id) =
      if frame.id = id then some frame else frames.find? fun other => other.id = id := by
  induction frames with
  | nil =>
    simp only [insertFrame, List.find?_cons, List.find?_nil]
    split <;> simp_all
  | cons head tail ih =>
    simp only [insertFrame]
    split
    · simp only [List.find?_cons]
      split <;> simp_all
    split
    · simp only [List.find?_cons]
      split <;> simp_all
    · simp only [List.find?_cons, ih]
      split <;> simp_all

structure FrameTable where
  frames : List Frame
  sorted : SortedById frames

namespace FrameTable

def empty : FrameTable := ⟨[], List.Pairwise.nil⟩

def size (table : FrameTable) : Nat := table.frames.length

def ids (table : FrameTable) : List PageId := table.frames.map Frame.id

def find? (table : FrameTable) (id : PageId) : Option Frame :=
  table.frames.find? fun frame => frame.id = id

def Contains (table : FrameTable) (id : PageId) : Prop := (table.find? id).isSome = true

instance (table : FrameTable) (id : PageId) : Decidable (table.Contains id) :=
  inferInstanceAs (Decidable ((table.find? id).isSome = true))

def put (table : FrameTable) (frame : Frame) : FrameTable :=
  ⟨insertFrame frame table.frames, table.sorted.insertFrame frame⟩

def erase (table : FrameTable) (id : PageId) : FrameTable :=
  ⟨table.frames.filter fun frame => frame.id ≠ id, table.sorted.filter _⟩

def dirtyIds (table : FrameTable) : List PageId :=
  (table.frames.filter fun frame => frame.IsDirty).map Frame.id

def Evictable (table : FrameTable) (id : PageId) : Prop :=
  ∃ frame ∈ table.find? id, ¬frame.IsPinned

instance (table : FrameTable) (id : PageId) : Decidable (table.Evictable id) :=
  match h : table.find? id with
  | none => .isFalse (by simp [Evictable, h])
  | some frame => decidable_of_iff (¬frame.IsPinned) (by simp [Evictable, h])

theorem id_of_find? {table : FrameTable} {id : PageId} {frame : Frame}
    (h : table.find? id = some frame) : frame.id = id := by
  simpa using List.find?_some h

theorem find?_put (table : FrameTable) (frame : Frame) (id : PageId) :
    (table.put frame).find? id = if frame.id = id then some frame else table.find? id :=
  find?_insertFrame frame table.frames id

theorem find?_erase (table : FrameTable) (id other : PageId) :
    (table.erase id).find? other = if id = other then none else table.find? other := by
  simp only [find?, erase, List.find?_filter]
  split
  · subst_vars
    simp
  · congr 1
    funext frame
    simp only [decide_not]
    grind

end FrameTable

end PagedStorage
