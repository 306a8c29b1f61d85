import PagedStorage.Proofs.Cache.Candidates
import PagedStorage.Proofs.Pool.Outcomes
import PagedStorage.Proofs.Pool.Run

namespace PagedStorage

namespace Pool

section

variable {pool after : Pool} {id other : PageId} {page : Page} {answer : Except StorageError Unit}

theorem holds_writeBack (hw : pool.writeBack id = (answer, after)) :
    after.frames.Holds other page ↔ pool.frames.Holds other page := by
  cases writeBack_outcome hw with
  | unneeded hn => rfl
  | failed frame e store hf hd hwrite => rfl
  | written frame store hf hd hwrite =>
    have hid := FrameTable.id_of_find? hf
    subst hid
    rw [FrameTable.holds_put, Frame.id_withDirty]
    split
    · rename_i hother
      rw [← hother, FrameTable.holds_of_find? hf]
      rfl
    · rfl

theorem holds_discard (hn : ¬pool.frames.Pinned id) (hd : pool.discard id = (answer, after)) :
    after.frames.Holds other page ↔ pool.frames.Holds other page := by
  rw [frames_of_discard hd, FrameTable.holds_erase]
  constructor
  · intro h
    exact h.2
  · intro h
    refine ⟨?_, h⟩
    rintro rfl
    exact hn (FrameTable.pinned_iff_exists_holds.mpr ⟨page, h⟩)

/-- The victim is never a page with a pin, so every such page stays. -/
theorem holds_makeRoom (hm : pool.makeRoom = (answer, after)) :
    after.frames.Holds other page ↔ pool.frames.Holds other page := by
  cases makeRoom_outcome hm with
  | room hr => rfl
  | noVictim policies frames hr hv => exact (Policies.sameContents_of_victim hv).holds
  | unwritten victim policies frames e after hr hv hw =>
    exact (holds_writeBack hw).trans (Policies.sameContents_of_victim hv).holds
  | discarded victim policies frames written answer after hr hv hw hd =>
    have hsame := Policies.sameContents_of_victim hv
    have hfree : ¬written.frames.Pinned victim := by
      rw [FrameTable.pinned_iff_exists_holds]
      rintro ⟨page, hheld⟩
      rw [holds_writeBack hw, hsame.holds] at hheld
      apply FrameTable.not_pinned_of_evictable (Policies.evictable_of_victim hv)
      exact FrameTable.pinned_iff_exists_holds.mpr ⟨page, hheld⟩
    exact (holds_discard hfree hd).trans ((holds_writeBack hw).trans hsame.holds)

theorem holds_getPage {answer : Except StorageError Frame}
    (hg : pool.getPage id = (answer, after)) :
    after.frames.Holds other page ↔ pool.frames.Holds other page := by
  cases getPage_outcome hg with
  | unaddressable hv => rfl
  | hit frame hv hf =>
    have hid := FrameTable.id_of_find? hf
    subst hid
    show (pool.frames.put frame.used).Holds other page ↔ pool.frames.Holds other page
    rw [FrameTable.holds_put, Frame.id_used]
    split
    · rename_i hother
      rw [← hother, FrameTable.holds_of_find? hf]
      rfl
    · rfl
  | unread e store hv hf hr => rfl
  | crowded loaded store e after hv hf hr hm =>
    have hroom : after.frames.Holds other page ↔ (pool.loadedFrom store).frames.Holds other page :=
      holds_makeRoom hm
    exact hroom
  | loaded loaded store room hv hf hr hm =>
    have hroom : room.frames.Holds other page ↔ (pool.loadedFrom store).frames.Holds other page :=
      holds_makeRoom hm
    show (room.frames.put (Frame.clean loaded id)).Holds other page ↔ pool.frames.Holds other page
    rw [FrameTable.holds_put]
    split
    · rename_i hother
      subst hother
      exact iff_of_false (fun h => nomatch h.1) (FrameTable.not_has_of_find?_none hf)
    · exact hroom

theorem pinned_getPage {answer : Except StorageError Frame}
    (hg : pool.getPage id = (answer, after)) :
    after.frames.Pinned other ↔ pool.frames.Pinned other := by
  simp only [FrameTable.pinned_iff_exists_holds, holds_getPage hg]

theorem holds_updatePage {target : PageId} {image : Page} (h : pool.frames.Holds id page)
    (hu : pool.updatePage target image = (answer, after)) :
    after.frames.Holds id ((updateImages answer target image id).getD page) := by
  cases updatePage_outcome hu with
  | unaddressable hv => exact h
  | misdirected hv hp => exact h
  | replaced frame hv hp hf =>
    have hid := FrameTable.id_of_find? hf
    subst hid
    show (pool.frames.put (frame.updated image)).Holds id
      ((if frame.id = id then some image else none).getD page)
    rw [FrameTable.holds_put, Frame.id_updated]
    split
    · rename_i hid
      rw [← hid, FrameTable.holds_of_find? hf] at h
      exact ⟨h.1, rfl⟩
    · exact h
  | crowded e after hv hp hf hm => exact (holds_makeRoom hm).mpr h
  | created room hv hp hf hm =>
    have hne : target ≠ id := by
      rintro rfl
      exact FrameTable.not_has_of_find?_none hf h
    show (room.frames.put (Frame.fresh image target)).Holds id
      ((if target = id then some image else none).getD page)
    rw [FrameTable.holds_put, Frame.fresh, if_neg hne, if_neg hne]
    exact (holds_makeRoom hm).mpr h

theorem holds_pin (h : pool.frames.Holds id page) (target : PageId) :
    (pool.pin target).2.frames.Holds id page := by
  unfold pin
  split
  · exact h
  · rename_i frame hf
    have hid := FrameTable.id_of_find? hf
    subst hid
    show (pool.frames.put (frame.withPinned true)).Holds id page
    rw [FrameTable.holds_put, Frame.id_withPinned]
    split
    · rename_i hid
      rw [← hid, FrameTable.holds_of_find? hf] at h
      exact ⟨rfl, h.2⟩
    · exact h

theorem holds_unpin (h : pool.frames.Holds id page) {target : PageId} (hne : target ≠ id) :
    (pool.unpin target).2.frames.Holds id page := by
  unfold unpin
  split
  · exact h
  · rename_i frame hf
    have hid := FrameTable.id_of_find? hf
    subst hid
    show (pool.frames.put (frame.withPinned false)).Holds id page
    rw [FrameTable.holds_put, Frame.id_withPinned, if_neg hne]
    exact h

theorem holds_flushPage (h : pool.frames.Holds id page) {target : PageId}
    (hf : pool.flushPage target = (answer, after)) : after.frames.Holds id page := by
  unfold flushPage at hf
  split at hf
  · exact (holds_writeBack hf).mpr h
  · cases hf
    exact h

theorem holds_flushPages (h : pool.frames.Holds id page) {ids : List PageId}
    (hf : pool.flushPages ids = (answer, after)) : after.frames.Holds id page := by
  have hw : ∀ (mid : Pool) (target : PageId), mid.frames.Holds id page →
      (mid.writeBack target).2.frames.Holds id page := fun _ _ => (holds_writeBack rfl).mpr
  have hall := flushPages_keeps hw h ids
  rwa [hf] at hall

theorem holds_flushBatch (h : pool.frames.Holds id page) (limit : Nat) :
    (pool.flushBatch limit).2.frames.Holds id page := by
  rw [flushBatch]
  split <;> rename_i hf <;> exact holds_flushPages h hf

theorem holds_serve (h : pool.frames.Holds id page) {request : Request}
    (hr : request ≠ .unpin id) : (pool.serve request).2.frames.Holds id page := by
  cases request with
  | get target => exact (holds_getPage rfl).mpr h
  | pin target => exact holds_pin h target
  | unpin target =>
    apply holds_unpin h
    rintro rfl
    exact hr rfl
  | flush target => exact holds_flushPage h rfl
  | flushAll => exact holds_flushPages h rfl
  | flushBatch limit => exact holds_flushBatch h limit

/-- A step that does not release the page leaves it pinned, and changes its image if it is an update
of it that succeeds. -/
theorem holds_step (h : pool.frames.Holds id page) {step : Step}
    (hu : step.operation ≠ .request (.unpin id)) :
    (pool.step step).frames.Holds id ((pool.images step id).getD page) := by
  obtain ⟨operation, fails⟩ := step
  have hfailing : (pool.failing fails).frames.Holds id page := h
  cases operation with
  | request request =>
    apply holds_serve hfailing
    rintro rfl
    exact hu rfl
  | update target image => exact holds_updatePage hfailing rfl

theorem holds_run (h : pool.frames.Holds id page) (steps : List Step)
    (hu : ∀ step ∈ steps, step.operation ≠ .request (.unpin id)) :
    (pool.run steps).frames.Holds id ((pool.lastImage? steps id).getD page) := by
  induction steps generalizing pool page with
  | nil => exact h
  | cons step steps ih =>
    obtain ⟨hstep, hsteps⟩ := List.forall_mem_cons.mp hu
    have hrest := ih (holds_step h hstep) hsteps
    -- The last image of the whole run is the last one of the rest, or else that of this step.
    rw [lastImage?, Option.getD_or]
    exact hrest

/-- From the call that pins a page to the one that releases it the page is cached and pinned,
whatever else is asked of the pool and whichever calls of the store fail. Its image is the one that
it was pinned with, or the one of the last update since then that succeeded. -/
theorem pinned_run {pinned : Pool} (hp : pool.pin id = (.ok (), pinned)) (steps : List Step)
    (hu : ∀ step ∈ steps, step.operation ≠ .request (.unpin id)) :
    ∃ former frame, pool.frames.find? id = some former ∧
      (pinned.run steps).frames.find? id = some frame ∧ frame.IsPinned ∧
      frame.page = (pinned.lastImage? steps id).getD former.page := by
  unfold pin at hp
  split at hp
  · cases hp
  · rename_i former hf
    have hid := FrameTable.id_of_find? hf
    subst hid
    obtain ⟨-, hpinned⟩ := Prod.mk.inj hp
    have hheld : pinned.frames.Holds former.id former.page := by
      rw [← hpinned, FrameTable.holds_put, Frame.id_withPinned, if_pos rfl]
      exact ⟨rfl, rfl⟩
    obtain ⟨frame, hframe, hpin, hpage⟩ := holds_run hheld steps hu
    exact ⟨former, frame, hf, hframe, hpin, hpage⟩

/-- With its only page pinned a pool refuses other pages, and the page stays as it was pinned. -/
theorem pinned_run_full :
    ∃ pool pinned, create (.dual 1 (.lru .empty) (.lru .empty)) (.vacant ["data"]) = .ok pool ∧
      (pool.step { operation := .update (.ofIndex 0) (.empty (.ofIndex 0)) }).pin (.ofIndex 0) =
        (.ok (), pinned) ∧
      ∃ frame, (pinned.run [{ operation := .update (.ofIndex 1) (.empty (.ofIndex 1)) },
          { operation := .request .flushAll, fails := fun _ _ => true }]).frames.find?
            (.ofIndex 0) = some frame ∧
        frame.IsPinned ∧ frame.page = .empty (.ofIndex 0) := by
  obtain ⟨pool, hc⟩ : ∃ pool, create (.dual 1 (.lru .empty) (.lru .empty)) (.vacant ["data"]) =
      .ok pool := ⟨_, rfl⟩
  obtain ⟨pinned, hp⟩ : ∃ pinned,
      (pool.step { operation := .update (.ofIndex 0) (.empty (.ofIndex 0)) }).pin (.ofIndex 0) =
        (.ok (), pinned) := by
    cases hc
    exact ⟨_, rfl⟩
  refine ⟨pool, pinned, hc, hp, ?_⟩
  obtain ⟨former, frame, hformer, hframe, hpin, hpage⟩ := pinned_run hp
    [{ operation := .update (.ofIndex 1) (.empty (.ofIndex 1)) },
      { operation := .request .flushAll, fails := fun _ _ => true }] (by simp)
  cases hc
  cases hp
  cases hformer
  exact ⟨frame, hframe, hpin, hpage⟩

end

end Pool

end PagedStorage
