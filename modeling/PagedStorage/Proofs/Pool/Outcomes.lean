import Mathlib.Logic.Basic
import PagedStorage.Pool.Access
import PagedStorage.Proofs.Cache.FrameTable

namespace PagedStorage

namespace Pool

/-- The pool when it has just read a page that it had not cached. -/
def loadedFrom (pool : Pool) (store : Store) : Pool :=
  { pool with
    store
    stats :=
      { pool.stats with
        misses := pool.stats.misses + 1
        pagesRead := pool.stats.pagesRead + 1 } }

section

variable (pool : Pool) (id : PageId)

inductive WriteBackOutcome : Except StorageError Unit × Pool → Prop
  | unneeded (h : ¬pool.frames.Dirty id) : WriteBackOutcome (.ok (), pool)
  | failed (frame : Frame) (e : StorageError) (store : Store)
      (hf : pool.frames.find? id = some frame) (hd : frame.IsDirty)
      (hw : pool.store.write frame.page = (.error e, store)) :
      WriteBackOutcome (.error e,
        { pool with
          store
          stats := { pool.stats with failedWrites := pool.stats.failedWrites + 1 } })
  | written (frame : Frame) (store : Store)
      (hf : pool.frames.find? id = some frame) (hd : frame.IsDirty)
      (hw : pool.store.write frame.page = (.ok (), store)) :
      WriteBackOutcome (.ok (),
        { pool with
          frames := pool.frames.put (frame.withDirty false)
          store
          stats := { pool.stats with pagesWritten := pool.stats.pagesWritten + 1 } })

inductive MakeRoomOutcome : Except StorageError Unit × Pool → Prop
  | room (h : pool.frames.size < pool.capacity) : MakeRoomOutcome (.ok (), pool)
  | noVictim (policies : Policies) (frames : FrameTable)
      (h : pool.capacity ≤ pool.frames.size)
      (hv : pool.policies.victim pool.frames = (none, policies, frames)) :
      MakeRoomOutcome (.error (.noFreeFrames frames.size), { pool with policies, frames })
  | unwritten (victim : PageId) (policies : Policies) (frames : FrameTable) (e : StorageError)
      (after : Pool) (h : pool.capacity ≤ pool.frames.size)
      (hv : pool.policies.victim pool.frames = (some victim, policies, frames))
      (hw : writeBack { pool with policies, frames } victim = (.error e, after)) :
      MakeRoomOutcome (.error e, after)
  | discarded (victim : PageId) (policies : Policies) (frames : FrameTable) (written : Pool)
      (answer : Except StorageError Unit) (after : Pool)
      (h : pool.capacity ≤ pool.frames.size)
      (hv : pool.policies.victim pool.frames = (some victim, policies, frames))
      (hw : writeBack { pool with policies, frames } victim = (.ok (), written))
      (hd : written.discard victim = (answer, after)) :
      MakeRoomOutcome (answer, after)

inductive GetOutcome : Except StorageError Frame × Pool → Prop
  | unaddressable (hv : ¬id.IsValid) :
      GetOutcome (.error (.invalidArgument (.notAddressable id)), pool)
  | hit (frame : Frame) (hv : id.IsValid) (hf : pool.frames.find? id = some frame) :
      GetOutcome (.ok frame.used,
        enlist { pool with stats := { pool.stats with hits := pool.stats.hits + 1 } } frame.used)
  | unread (e : StorageError) (store : Store) (hv : id.IsValid) (hf : pool.frames.find? id = none)
      (hr : pool.store.read id = (.error e, store)) :
      GetOutcome (.error e,
        { pool with store, stats := { pool.stats with misses := pool.stats.misses + 1 } })
  | crowded (page : Page) (store : Store) (e : StorageError) (after : Pool) (hv : id.IsValid)
      (hf : pool.frames.find? id = none) (hr : pool.store.read id = (.ok page, store))
      (hm : (pool.loadedFrom store).makeRoom = (.error e, after)) :
      GetOutcome (.error e, after)
  | loaded (page : Page) (store : Store) (room : Pool) (hv : id.IsValid)
      (hf : pool.frames.find? id = none) (hr : pool.store.read id = (.ok page, store))
      (hm : (pool.loadedFrom store).makeRoom = (.ok (), room)) :
      GetOutcome (.ok (Frame.clean page id), room.enlist (Frame.clean page id))

inductive UpdateOutcome (page : Page) : Except StorageError Unit × Pool → Prop
  | unaddressable (hv : ¬id.IsValid) :
      UpdateOutcome page (.error (.invalidArgument (.notAddressable id)), pool)
  | misdirected (hv : id.IsValid) (hp : page.id ≠ id) :
      UpdateOutcome page (.error (.invalidArgument (.misdirectedImage page.id id)), pool)
  | replaced (frame : Frame) (hv : id.IsValid) (hp : page.id = id)
      (hf : pool.frames.find? id = some frame) :
      UpdateOutcome page (.ok (), pool.enlist (frame.updated page))
  | crowded (e : StorageError) (after : Pool) (hv : id.IsValid) (hp : page.id = id)
      (hf : pool.frames.find? id = none) (hm : pool.makeRoom = (.error e, after)) :
      UpdateOutcome page (.error e, after)
  | created (room : Pool) (hv : id.IsValid) (hp : page.id = id)
      (hf : pool.frames.find? id = none) (hm : pool.makeRoom = (.ok (), room)) :
      UpdateOutcome page (.ok (), room.enlist (Frame.fresh page id))

end

section

variable {pool after : Pool} {id other : PageId} {result : Except StorageError Unit × Pool}
  {answer : Except StorageError Unit}

theorem writeBack_outcome (h : pool.writeBack id = result) : WriteBackOutcome pool id result := by
  subst h
  unfold writeBack
  split
  · rename_i hf
    exact .unneeded (FrameTable.not_has_of_find?_none hf)
  · rename_i frame hf
    split
    · rename_i hd
      split
      · rename_i hw
        exact .failed frame _ _ hf hd hw
      · rename_i hw
        exact .written frame _ hf hd hw
    · rename_i hd
      exact .unneeded ((FrameTable.dirty_of_find? hf).not.mpr hd)

theorem makeRoom_outcome (h : pool.makeRoom = result) : MakeRoomOutcome pool result := by
  subst h
  unfold makeRoom
  split
  · rename_i h
    exact .room h
  · rename_i h
    have hfull := Nat.le_of_not_lt h
    unfold evict
    split
    · rename_i hv
      exact .noVictim _ _ hfull hv
    · rename_i hv
      split
      · rename_i hw
        exact .unwritten _ _ _ _ _ hfull hv hw
      · rename_i hw
        exact .discarded _ _ _ _ _ _ hfull hv hw rfl

theorem getPage_outcome {result : Except StorageError Frame × Pool} (h : pool.getPage id = result) :
    GetOutcome pool id result := by
  subst h
  unfold getPage
  split
  · rename_i hv
    split
    · rename_i frame hf
      exact .hit frame hv hf
    · rename_i hf
      simp only
      split
      · rename_i hr
        exact .unread _ _ hv hf hr
      · rename_i hr
        split
        · rename_i hm
          exact .crowded _ _ _ _ hv hf hr hm
        · rename_i hm
          exact .loaded _ _ _ hv hf hr hm
  · rename_i hv
    exact .unaddressable hv

theorem updatePage_outcome {page : Page} (h : pool.updatePage id page = result) :
    UpdateOutcome pool id page result := by
  subst h
  unfold updatePage
  split
  · rename_i hv
    exact .unaddressable hv
  · rename_i hv
    have hvalid := of_not_not hv
    split
    · rename_i hp
      exact .misdirected hvalid hp
    · rename_i hp
      have hpage := of_not_not hp
      split
      · rename_i frame hf
        exact .replaced frame hvalid hpage hf
      · rename_i hf
        split
        · rename_i hm
          exact .crowded _ _ hvalid hpage hf hm
        · rename_i hm
          exact .created _ hvalid hpage hf hm

theorem WriteBackOutcome.eq (h : WriteBackOutcome pool id result) : pool.writeBack id = result := by
  unfold writeBack
  cases h with
  | unneeded h =>
    split
    · rfl
    · rename_i frame hf
      rw [if_neg ((FrameTable.dirty_of_find? hf).not.mp h)]
  | failed frame e store hf hd hw => simp only [hf, if_pos hd, hw]
  | written frame store hf hd hw => simp only [hf, if_pos hd, hw]

theorem MakeRoomOutcome.eq (h : MakeRoomOutcome pool result) : pool.makeRoom = result := by
  cases h with
  | room h => exact if_pos h
  | noVictim policies frames h hv =>
    rw [makeRoom, if_neg (Nat.not_lt_of_le h), evict, hv]
  | unwritten victim policies frames e after h hv hw =>
    rw [makeRoom, if_neg (Nat.not_lt_of_le h), evict, hv]
    simp only [hw]
  | discarded victim policies frames written answer after h hv hw hd =>
    rw [makeRoom, if_neg (Nat.not_lt_of_le h), evict, hv]
    simp only [hw, hd]

theorem GetOutcome.eq {result : Except StorageError Frame × Pool}
    (h : GetOutcome pool id result) : pool.getPage id = result := by
  cases h with
  | unaddressable hv => exact if_neg hv
  | hit frame hv hf => simp only [getPage, if_pos hv, hf]
  | unread e store hv hf hr => simp only [getPage, if_pos hv, hf, hr]
  | crowded page store e after hv hf hr hm =>
    rw [loadedFrom] at hm
    simp only [getPage, if_pos hv, hf, hr, hm]
  | loaded page store room hv hf hr hm =>
    rw [loadedFrom] at hm
    simp only [getPage, if_pos hv, hf, hr, hm]

theorem UpdateOutcome.eq {page : Page} (h : UpdateOutcome pool id page result) :
    pool.updatePage id page = result := by
  cases h with
  | unaddressable hv => exact if_pos hv
  | misdirected hv hp => rw [updatePage, if_neg (not_not_intro hv), if_pos hp]
  | replaced frame hv hp hf =>
    rw [updatePage, if_neg (not_not_intro hv), if_neg (not_not_intro hp), hf]
  | crowded e after hv hp hf hm =>
    rw [updatePage, if_neg (not_not_intro hv), if_neg (not_not_intro hp), hf]
    simp only [hm]
  | created room hv hp hf hm =>
    rw [updatePage, if_neg (not_not_intro hv), if_neg (not_not_intro hp), hf]
    simp only [hm]

theorem find?_eq_none_of_writeBack (h : pool.writeBack id = (answer, after)) :
    after.frames.find? other = none ↔ pool.frames.find? other = none := by
  cases writeBack_outcome h with
  | unneeded hn => rfl
  | failed frame e store hf hd hw => rfl
  | written frame store hf hd hw =>
    have hid : frame.id = id := FrameTable.id_of_find? hf
    rw [FrameTable.find?_put]
    split
    · rename_i ho
      have hother : id = other := hid.symm.trans ho
      rw [← hother, hf]
      simp
    · rfl

theorem frames_of_discard (h : pool.discard id = (answer, after)) :
    after.frames = pool.frames.erase id := by
  unfold discard at h
  split at h <;> cases h <;> rfl

theorem store_of_discard (h : pool.discard id = (answer, after)) : after.store = pool.store := by
  unfold discard at h
  split at h <;> cases h <;> rfl

end

end Pool

end PagedStorage
