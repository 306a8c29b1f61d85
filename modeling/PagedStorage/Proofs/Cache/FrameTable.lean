import PagedStorage.Cache.FrameTable

namespace PagedStorage

def Frame.unused (frame : Frame) : Frame := { frame with usage := 0 }

section

variable {frames : List Frame} {frame old : Frame}

theorem find?_eq_some_of_mem (hs : SortedById frames) (h : frame ∈ frames) :
    (frames.find? fun other => other.id = frame.id) = some frame := by
  induction frames with
  | nil => simp at h
  | cons head tail ih =>
    obtain ⟨hhead, htail⟩ := List.pairwise_cons.mp hs
    rcases List.mem_cons.mp h with rfl | hmem
    · simp
    · have hlt : head.id.index < frame.id.index := hhead frame hmem
      have hne : head.id ≠ frame.id := fun he => by
        rw [he] at hlt
        omega
      rw [List.find?_cons_of_neg (by simpa using hne)]
      exact ih htail hmem

/-- A frame that takes the place of another leaves the list as it was, as far as they agree. -/
theorem map_insertFrame {α : Type} (g : Frame → α) (hs : SortedById frames)
    (hf : (frames.find? fun other => other.id = frame.id) = some old) (hg : g frame = g old) :
    (insertFrame frame frames).map g = frames.map g := by
  induction frames with
  | nil => cases hf
  | cons head tail ih =>
    obtain ⟨hhead, htail⟩ := List.pairwise_cons.mp hs
    have hirrefl : ¬frame.id < frame.id := Nat.lt_irrefl _
    by_cases he : head.id = frame.id
    · rw [List.find?_cons_of_pos (by simpa using he)] at hf
      cases hf
      rw [insertFrame, he, if_neg hirrefl, if_pos rfl, List.map_cons, List.map_cons, hg]
    · rw [List.find?_cons_of_neg (by simpa using he)] at hf
      have hold : old.id = frame.id := by simpa using List.find?_some hf
      have hlt : head.id < frame.id := hold ▸ hhead old (List.mem_of_find?_eq_some hf)
      have hge : ¬frame.id < head.id := by
        rw [PageId.lt_def] at hlt ⊢
        omega
      rw [insertFrame, if_neg hge, if_neg (Ne.symm he), List.map_cons, List.map_cons,
        ih htail hf]

/-- A frame goes to the same place whatever the usage counts. -/
theorem map_unused_insertFrame (frame : Frame) (frames : List Frame) :
    (insertFrame frame frames).map Frame.unused =
      insertFrame frame.unused (frames.map Frame.unused) := by
  induction frames with
  | nil => rfl
  | cons head tail ih =>
    have hid : ∀ other : Frame, other.unused.id = other.id := fun _ => rfl
    simp only [insertFrame, List.map_cons, hid]
    split
    · rfl
    split
    · rfl
    · rw [List.map_cons, ih]

theorem filter_ne_insertFrame (frame : Frame) (frames : List Frame) :
    ((insertFrame frame frames).filter fun other => other.id ≠ frame.id) =
      frames.filter fun other => other.id ≠ frame.id := by
  induction frames with
  | nil => simp [insertFrame]
  | cons head tail ih =>
    rw [insertFrame]
    split
    · exact List.filter_cons_of_neg (by simp)
    split
    · rename_i hsame
      simp [hsame]
    · rw [List.filter_cons, List.filter_cons, ih]

theorem PageId.nodup_of_pairwise_lt {ids : List PageId} (h : ids.Pairwise (· < ·)) :
    ids.Nodup := by
  refine h.imp fun hlt => ?_
  rintro rfl
  exact Nat.lt_irrefl _ hlt

theorem length_insertFrame_le (frame : Frame) (frames : List Frame) :
    (insertFrame frame frames).length ≤ frames.length + 1 := by
  induction frames with
  | nil => simp [insertFrame]
  | cons head tail ih =>
    rw [insertFrame]
    split
    · simp
    split
    · simp
    · simpa using ih

theorem length_insertFrame_of_none
    (h : (frames.find? fun other => other.id = frame.id) = none) :
    (insertFrame frame frames).length = frames.length + 1 := by
  induction frames with
  | nil => rfl
  | cons head tail ih =>
    have hne : head.id ≠ frame.id := by simpa using List.find?_eq_none.mp h head List.mem_cons_self
    rw [List.find?_cons_of_neg (by simpa using hne)] at h
    rw [insertFrame, if_neg (Ne.symm hne)]
    split
    · rfl
    · rw [List.length_cons, List.length_cons, ih h]

theorem length_filter_ne_add_one (hs : SortedById frames) (h : frame ∈ frames) :
    (frames.filter fun other => other.id ≠ frame.id).length + 1 = frames.length := by
  induction frames with
  | nil => cases h
  | cons head tail ih =>
    obtain ⟨hhead, htail⟩ := List.pairwise_cons.mp hs
    have hother : ∀ other ∈ tail, head.id ≠ other.id := by
      intro other hmem he
      have hlt := hhead other hmem
      rw [he] at hlt
      exact Nat.lt_irrefl _ hlt
    rcases List.mem_cons.mp h with rfl | hmem
    · have hkept : (tail.filter fun other => decide (other.id ≠ frame.id)) = tail := by
        apply List.filter_eq_self.mpr
        intro other hmem
        exact decide_eq_true (Ne.symm (hother other hmem))
      rw [List.filter_cons_of_neg (by simp), hkept, List.length_cons]
    · rw [List.filter_cons_of_pos (by simpa using hother frame hmem), List.length_cons,
        List.length_cons, ih htail hmem]

end

namespace FrameTable

def Has (table : FrameTable) (id : PageId) (kind : Frame → Prop) : Prop :=
  ∃ frame ∈ table.find? id, kind frame

def Dirty (table : FrameTable) (id : PageId) : Prop := table.Has id Frame.IsDirty

def Pinned (table : FrameTable) (id : PageId) : Prop := table.Has id Frame.IsPinned

def Holds (table : FrameTable) (id : PageId) (page : Page) : Prop :=
  table.Has id fun frame => frame.IsPinned ∧ frame.page = page

/-- Each frame has an id that can name a page, and holds the page it is kept for. -/
def Owned (table : FrameTable) : Prop :=
  ∀ id frame, table.find? id = some frame → id.IsValid ∧ frame.page.id = id

/-- The same frames but for their usage counts. -/
def SameContents (table after : FrameTable) : Prop :=
  after.frames.map Frame.unused = table.frames.map Frame.unused

section

variable {table after : FrameTable} {frame old : Frame} {id : PageId}

theorem has_of_find? {kind : Frame → Prop} (h : table.find? id = some frame) :
    table.Has id kind ↔ kind frame := by
  simp [Has, h]

theorem dirty_of_find? (h : table.find? id = some frame) : table.Dirty id ↔ frame.IsDirty :=
  has_of_find? h

theorem pinned_of_find? (h : table.find? id = some frame) : table.Pinned id ↔ frame.IsPinned :=
  has_of_find? h

theorem evictable_of_find? (h : table.find? id = some frame) :
    table.Evictable id ↔ ¬frame.IsPinned := has_of_find? h

theorem holds_of_find? {page : Page} (h : table.find? id = some frame) :
    table.Holds id page ↔ frame.IsPinned ∧ frame.page = page := has_of_find? h

theorem pinned_iff_exists_holds : table.Pinned id ↔ ∃ page, table.Holds id page := by
  constructor
  · rintro ⟨frame, hf, hp⟩
    exact ⟨frame.page, frame, hf, hp, rfl⟩
  · rintro ⟨page, frame, hf, hp, -⟩
    exact ⟨frame, hf, hp⟩

theorem find?_eq_some_iff_mem :
    table.find? id = some frame ↔ frame ∈ table.frames ∧ frame.id = id := by
  constructor
  · intro h
    exact ⟨List.mem_of_find?_eq_some h, id_of_find? h⟩
  · rintro ⟨hmem, rfl⟩
    exact find?_eq_some_of_mem table.sorted hmem

theorem mem_dirtyIds : id ∈ table.dirtyIds ↔ table.Dirty id := by
  simp only [dirtyIds, List.mem_map, List.mem_filter, decide_eq_true_eq]
  constructor
  · rintro ⟨frame, ⟨hmem, hdirty⟩, rfl⟩
    exact ⟨frame, find?_eq_some_iff_mem.mpr ⟨hmem, rfl⟩, hdirty⟩
  · rintro ⟨frame, hf, hdirty⟩
    obtain ⟨hmem, hid⟩ := find?_eq_some_iff_mem.mp hf
    exact ⟨frame, ⟨hmem, hdirty⟩, hid⟩

instance (table : FrameTable) (id : PageId) : Decidable (table.Dirty id) :=
  decidable_of_iff (id ∈ table.dirtyIds) mem_dirtyIds

theorem nodup_ids (table : FrameTable) : table.ids.Nodup :=
  PageId.nodup_of_pairwise_lt (List.pairwise_map.mpr table.sorted)

/-- The changed pages are told lowest id first. -/
theorem pairwise_dirtyIds (table : FrameTable) : table.dirtyIds.Pairwise (· < ·) :=
  List.pairwise_map.mpr (table.sorted.filter _)

theorem has_put (table : FrameTable) (frame : Frame) (id : PageId) (kind : Frame → Prop) :
    (table.put frame).Has id kind ↔ if frame.id = id then kind frame else table.Has id kind := by
  rw [Has, find?_put]
  split
  · simp
  · rfl

theorem has_erase (table : FrameTable) (id other : PageId) (kind : Frame → Prop) :
    (table.erase id).Has other kind ↔ other ≠ id ∧ table.Has other kind := by
  rw [Has, find?_erase]
  by_cases h : id = other
  · simp [h]
  · rw [if_neg h]
    exact ⟨fun hd => ⟨Ne.symm h, hd⟩, fun hd => hd.2⟩

theorem dirty_put (table : FrameTable) (frame : Frame) (id : PageId) :
    (table.put frame).Dirty id ↔ if frame.id = id then frame.IsDirty else table.Dirty id :=
  has_put table frame id Frame.IsDirty

theorem dirty_put_clean (table : FrameTable) {frame : Frame} (h : ¬frame.IsDirty) (id : PageId) :
    (table.put frame).Dirty id ↔ frame.id ≠ id ∧ table.Dirty id := by
  rw [dirty_put]
  split
  · rename_i hsame
    exact iff_of_false h fun hne => hne.1 hsame
  · rename_i hother
    rw [and_iff_right hother]

theorem dirty_erase (table : FrameTable) (id other : PageId) :
    (table.erase id).Dirty other ↔ other ≠ id ∧ table.Dirty other :=
  has_erase table id other Frame.IsDirty

theorem holds_put (table : FrameTable) (frame : Frame) (id : PageId) (page : Page) :
    (table.put frame).Holds id page ↔
      if frame.id = id then frame.IsPinned ∧ frame.page = page else table.Holds id page :=
  has_put table frame id fun frame => frame.IsPinned ∧ frame.page = page

theorem holds_erase (table : FrameTable) (id other : PageId) (page : Page) :
    (table.erase id).Holds other page ↔ other ≠ id ∧ table.Holds other page :=
  has_erase table id other fun frame => frame.IsPinned ∧ frame.page = page

theorem evictable_put (table : FrameTable) (frame : Frame) (id : PageId) :
    (table.put frame).Evictable id ↔
      if frame.id = id then ¬frame.IsPinned else table.Evictable id :=
  has_put table frame id fun frame => ¬frame.IsPinned

theorem evictable_put_pinned (table : FrameTable) (frame : Frame) (id : PageId) :
    (table.put (frame.withPinned true)).Evictable id ↔ id ≠ frame.id ∧ table.Evictable id := by
  rw [evictable_put, Frame.id_withPinned]
  by_cases h : frame.id = id
  · rw [if_pos h]
    exact iff_of_false (not_not_intro rfl) fun hne => hne.1 h.symm
  · rw [if_neg h, and_iff_right (Ne.symm h)]

theorem evictable_erase (table : FrameTable) (id other : PageId) :
    (table.erase id).Evictable other ↔ other ≠ id ∧ table.Evictable other :=
  has_erase table id other fun frame => ¬frame.IsPinned

theorem not_has_of_find?_none {kind : Frame → Prop} (h : table.find? id = none) :
    ¬table.Has id kind := by
  rintro ⟨frame, hf, -⟩
  rw [h] at hf
  cases hf

theorem not_pinned_of_evictable (h : table.Evictable id) : ¬table.Pinned id := by
  obtain ⟨frame, hf, hp⟩ := h
  rw [pinned_of_find? hf]
  exact hp

theorem owned_empty : empty.Owned := by
  intro id frame h
  cases h

theorem owned_put (h : table.Owned) (hv : frame.id.IsValid) (hp : frame.page.id = frame.id) :
    (table.put frame).Owned := by
  intro id other ho
  rw [find?_put] at ho
  split at ho
  · rename_i hid
    cases ho
    exact ⟨hid ▸ hv, hp.trans hid⟩
  · exact h id other ho

theorem owned_erase (h : table.Owned) (id : PageId) : (table.erase id).Owned := by
  intro other frame hf
  rw [find?_erase] at hf
  split at hf
  · cases hf
  · exact h other frame hf

/-- What is put for a page is gone when the page is dropped. -/
theorem erase_put (h : frame.id = id) : (table.put frame).erase id = table.erase id := by
  subst h
  rw [erase, erase]
  congr 1
  exact filter_ne_insertFrame frame table.frames

theorem size_put (h : table.find? frame.id = some old) : (table.put frame).size = table.size := by
  have hmap := map_insertFrame (fun _ => ()) table.sorted h rfl
  have hlen := congrArg List.length hmap
  rwa [List.length_map, List.length_map] at hlen

theorem size_put_le (table : FrameTable) (frame : Frame) :
    (table.put frame).size ≤ table.size + 1 := length_insertFrame_le frame table.frames

theorem size_put_of_none (h : table.find? frame.id = none) :
    (table.put frame).size = table.size + 1 := length_insertFrame_of_none h

theorem size_erase_add_one (h : table.find? id = some frame) :
    (table.erase id).size + 1 = table.size := by
  obtain ⟨hmem, rfl⟩ := find?_eq_some_iff_mem.mp h
  exact length_filter_ne_add_one table.sorted hmem

theorem size_erase (h : table.find? id = some frame) : (table.erase id).size < table.size :=
  Nat.lt_of_lt_of_eq (Nat.lt_succ_self _) (size_erase_add_one h)

namespace SameContents

theorem refl (table : FrameTable) : table.SameContents table := rfl

theorem trans {last : FrameTable} (h : table.SameContents after) (h' : after.SameContents last) :
    table.SameContents last := Eq.trans h' h

theorem put_aged (h : table.find? id = some frame) : table.SameContents (table.put frame.aged) := by
  have hid : frame.id = id := id_of_find? h
  subst hid
  exact map_insertFrame Frame.unused table.sorted h rfl

theorem put (h : table.SameContents after) (frame : Frame) :
    (table.put frame).SameContents (after.put frame) := by
  have hmap := map_unused_insertFrame frame
  rw [SameContents, FrameTable.put, FrameTable.put, hmap, hmap, h]

theorem erase (h : table.SameContents after) (id : PageId) :
    (table.erase id).SameContents (after.erase id) := by
  have hmap : ∀ frames : List Frame,
      (frames.filter fun frame => frame.id ≠ id).map Frame.unused =
        (frames.map Frame.unused).filter fun frame => frame.id ≠ id := by
    intro frames
    rw [List.filter_map]
    rfl
  rw [SameContents, FrameTable.erase, FrameTable.erase, hmap, hmap, h]

theorem size (h : table.SameContents after) : after.size = table.size := by
  have hlen := congrArg List.length h
  rwa [List.length_map, List.length_map] at hlen

theorem map_find? (h : table.SameContents after) (id : PageId) :
    (after.find? id).map Frame.unused = (table.find? id).map Frame.unused := by
  have hcomm : ∀ frames : List Frame,
      (frames.find? fun frame => frame.id = id).map Frame.unused =
        (frames.map Frame.unused).find? fun frame => frame.id = id := by
    intro frames
    rw [List.find?_map]
    rfl
  rw [find?, find?, hcomm, hcomm, h]

/-- Each frame was there before, with the same page in the same state. -/
theorem exists_find? (h : table.SameContents after) (hf : after.find? id = some frame) :
    ∃ before, table.find? id = some before ∧ frame.page = before.page ∧
      frame.state = before.state := by
  have hmap := h.map_find? id
  rw [hf] at hmap
  obtain ⟨before, hbefore, heq⟩ := Option.map_eq_some_iff.mp hmap.symm
  refine ⟨before, hbefore, ?_, ?_⟩
  · exact (congrArg Frame.page heq).symm
  · exact (congrArg Frame.state heq).symm

theorem symm (h : table.SameContents after) : after.SameContents table := Eq.symm h

theorem find?_eq_none (h : table.SameContents after) :
    after.find? id = none ↔ table.find? id = none := by
  have hmap := h.map_find? id
  constructor
  · intro hn
    rw [hn] at hmap
    exact Option.map_eq_none_iff.mp hmap.symm
  · intro hn
    rw [hn] at hmap
    exact Option.map_eq_none_iff.mp hmap

/-- Whatever the page, a pin or a mark can tell of a frame is told as before. -/
theorem has (h : table.SameContents after) {kind : Frame → Prop}
    (hk : ∀ a b : Frame, a.page = b.page → a.state = b.state → kind a → kind b) :
    after.Has id kind ↔ table.Has id kind := by
  have hone : ∀ {a b : FrameTable}, a.SameContents b → b.Has id kind → a.Has id kind := by
    rintro a b hab ⟨frame, hf, hframe⟩
    obtain ⟨before, hbefore, hpage, hstate⟩ := hab.exists_find? hf
    exact ⟨before, hbefore, hk frame before hpage hstate hframe⟩
  exact ⟨hone h, hone h.symm⟩

theorem evictable (h : table.SameContents after) : after.Evictable id ↔ table.Evictable id := by
  have hk : ∀ a b : Frame, a.page = b.page → a.state = b.state → ¬a.IsPinned → ¬b.IsPinned := by
    intro a b _ hs hp
    rwa [Frame.IsPinned, ← hs]
  exact h.has hk

theorem dirty (h : table.SameContents after) : after.Dirty id ↔ table.Dirty id :=
  h.has fun a b _ hs hd => by
    rwa [Frame.IsDirty, ← hs]

theorem holds (h : table.SameContents after) {page : Page} :
    after.Holds id page ↔ table.Holds id page :=
  h.has fun a b hpage hs hheld => by
    rwa [Frame.IsPinned, ← hs, ← hpage]

theorem owned (h : table.SameContents after) (ho : table.Owned) : after.Owned := by
  intro id frame hf
  obtain ⟨before, hbefore, hpage, -⟩ := h.exists_find? hf
  rw [hpage]
  exact ho id before hbefore

end SameContents

end

end FrameTable

end PagedStorage
