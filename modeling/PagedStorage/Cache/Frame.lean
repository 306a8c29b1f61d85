import PagedStorage.Page.Basic

namespace PagedStorage

structure FrameState where
  /-- Held by a caller, and so never evicted. -/
  pinned : Bool := false
  /-- Changed since it was read or last written. -/
  dirty : Bool := false
deriving DecidableEq, Repr, Inhabited

def maxUsage : Nat := 4294967295

structure Frame where
  /-- The id under which the page is cached. -/
  id : PageId
  page : Page
  state : FrameState := {}
  usage : Nat := 0
deriving DecidableEq

namespace Frame

def IsPinned (frame : Frame) : Prop := frame.state.pinned = true

def IsDirty (frame : Frame) : Prop := frame.state.dirty = true

instance (frame : Frame) : Decidable frame.IsPinned :=
  inferInstanceAs (Decidable (frame.state.pinned = true))

instance (frame : Frame) : Decidable frame.IsDirty :=
  inferInstanceAs (Decidable (frame.state.dirty = true))

def clean (page : Page) (id : PageId := page.id) : Frame := { id, page }

def fresh (page : Page) (id : PageId := page.id) : Frame := { id, page, state := { dirty := true } }

def used (frame : Frame) : Frame := { frame with usage := min (frame.usage + 1) maxUsage }

/-- The frame after the clock hand has passed it. -/
def aged (frame : Frame) : Frame := { frame with usage := frame.usage - 1 }

def withPinned (frame : Frame) (pinned : Bool) : Frame :=
  { frame with state := { frame.state with pinned } }

def withDirty (frame : Frame) (dirty : Bool) : Frame :=
  { frame with state := { frame.state with dirty } }

def updated (frame : Frame) (page : Page) : Frame := { frame with page }.withDirty true

@[simp]
theorem id_used (frame : Frame) : frame.used.id = frame.id := rfl

@[simp]
theorem id_aged (frame : Frame) : frame.aged.id = frame.id := rfl

@[simp]
theorem id_withPinned (frame : Frame) (pinned : Bool) :
    (frame.withPinned pinned).id = frame.id := rfl

@[simp]
theorem id_withDirty (frame : Frame) (dirty : Bool) : (frame.withDirty dirty).id = frame.id := rfl

@[simp]
theorem id_updated (frame : Frame) (page : Page) : (frame.updated page).id = frame.id := rfl

theorem not_isPinned_clean (page : Page) (id : PageId) : ¬(clean page id).IsPinned :=
  Bool.false_ne_true

theorem not_isPinned_fresh (page : Page) (id : PageId) : ¬(fresh page id).IsPinned :=
  Bool.false_ne_true

theorem not_isPinned_withPinned (frame : Frame) : ¬(frame.withPinned false).IsPinned :=
  Bool.false_ne_true

theorem not_isDirty_clean (page : Page) (id : PageId) : ¬(clean page id).IsDirty :=
  Bool.false_ne_true

theorem not_isDirty_withDirty (frame : Frame) : ¬(frame.withDirty false).IsDirty :=
  Bool.false_ne_true

end Frame

end PagedStorage
