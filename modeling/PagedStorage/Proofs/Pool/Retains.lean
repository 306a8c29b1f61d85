import PagedStorage.Proofs.Pool.Ready

namespace PagedStorage

namespace Store

variable {store after : Store} {page other : Page} {id : PageId}

theorem page?_write_self (hv : page.id.IsValid) (h : store.write page = (.ok (), after)) :
    after.page? page.id = some page := by
  rw [page?_eq, if_pos hv, file?_write h, Option.bind_some, DataFile.page?,
    DataFile.read_write_self _ hv]
  rfl

theorem page?_write_of_ne (hv : page.id.IsValid) (h : store.write page = (.ok (), after))
    (hne : id ≠ page.id) (hp : store.page? id = some other) : after.page? id = some other := by
  obtain ⟨hid, hpage, hblock⟩ := page?_eq_some_iff.mp hp
  obtain ⟨file, hfound, himage⟩ := Option.bind_eq_some_iff.mp hblock
  have hindex : id.index ≠ page.id.index := fun he => hne (PageId.index_injective he)
  refine page?_eq_some_iff.mpr ⟨hid, hpage, ?_⟩
  rw [block?, file?_write h, base_of_file? hfound, Option.bind_some]
  exact DataFile.block?_write_of_ne hv hindex himage

end Store

namespace Pool

/-- Each frame has its own page, and one that is not marked as changed is in the file. -/
structure Faithful (pool : Pool) : Prop where
  owned : pool.frames.Owned
  clean : ∀ id frame, pool.frames.find? id = some frame → ¬frame.IsDirty →
    pool.store.page? id = some frame.page

/-- No page is lost, in memory or in the file. -/
structure Retains (pool after : Pool) : Prop where
  faithful : after.Faithful
  page? : ∀ id page, pool.page? id = some page → after.page? id = some page

/-- One page has a new image, and no other is lost. -/
structure Renews (pool : Pool) (page : Page) (after : Pool) : Prop where
  faithful : after.Faithful
  self : after.page? page.id = some page
  others : ∀ id other, id ≠ page.id → pool.page? id = some other → after.page? id = some other

section

variable {settings : PoolSettings} {store : Store} {pool mid after : Pool} {id : PageId}
  {page : Page} {frame : Frame} {answer : Except StorageError Unit}

namespace Faithful

theorem put (h : pool.Faithful) (frame : Frame) (hv : frame.id.IsValid)
    (hp : frame.page.id = frame.id) (hf : after.frames = pool.frames.put frame)
    (hs : pool.store.SameFile after.store)
    (hclean : ¬frame.IsDirty → pool.store.page? frame.id = some frame.page) : after.Faithful where
  owned := hf ▸ FrameTable.owned_put h.owned hv hp
  clean id other hfind hd := by
    rw [hf, FrameTable.find?_put] at hfind
    rw [hs.page?]
    split at hfind
    · rename_i hid
      cases hfind
      exact hid ▸ hclean hd
    · exact h.clean id other hfind hd

theorem isValid_of_page? (h : pool.Faithful) (hp : pool.page? id = some page) : id.IsValid := by
  cases hf : pool.frames.find? id with
  | some frame => exact (h.owned id frame hf).1
  | none =>
    rw [page?_of_find?_none hf] at hp
    exact (Store.page?_eq_some_iff.mp hp).1

theorem id_of_page? (h : pool.Faithful) (hp : pool.page? id = some page) : page.id = id := by
  cases hf : pool.frames.find? id with
  | some frame =>
    rw [page?_of_find? hf] at hp
    exact Option.some.inj hp ▸ (h.owned id frame hf).2
  | none =>
    rw [page?_of_find?_none hf] at hp
    exact Store.id_of_page? hp

theorem store_page? (h : pool.Faithful) (hd : ¬pool.frames.Dirty id) :
    pool.store.page? id = pool.page? id := by
  cases hf : pool.frames.find? id with
  | some frame =>
    rw [page?_of_find? hf]
    exact h.clean id frame hf ((FrameTable.dirty_of_find? hf).not.mp hd)
  | none => rw [page?_of_find?_none hf]

end Faithful

namespace Retains

theorem refl (h : pool.Faithful) : pool.Retains pool := ⟨h, fun _ _ hp => hp⟩

theorem trans (h : pool.Retains mid) (h' : mid.Retains after) : pool.Retains after where
  faithful := h'.faithful
  page? id page hp := h'.page? id page (h.page? id page hp)

/-- Usage counts do not matter, nor do policies, counters and the calls of the store. -/
theorem of_sameContents (h : pool.Faithful) (hc : pool.frames.SameContents after.frames)
    (hs : pool.store.SameFile after.store) : pool.Retains after where
  faithful := by
    refine ⟨hc.owned h.owned, ?_⟩
    intro id frame hfind hd
    obtain ⟨before, hbefore, hpage, hstate⟩ := hc.exists_find? hfind
    rw [hs.page?, hpage]
    apply h.clean id before hbefore
    rwa [Frame.IsDirty, ← hstate]
  page? id page hp := by
    cases hfind : after.frames.find? id with
    | some frame =>
      obtain ⟨before, hbefore, hpage, -⟩ := hc.exists_find? hfind
      rwa [page?_of_find? hfind, hpage, ← page?_of_find? hbefore]
    | none =>
      rwa [page?_of_find?_none hfind, hs.page?,
        ← page?_of_find?_none (hc.find?_eq_none.mp hfind)]

/-- A frame goes into the table with the page that the pool has under its id, if it has one. -/
theorem put (h : pool.Faithful) (frame : Frame) (hv : frame.id.IsValid)
    (hp : frame.page.id = frame.id) (hf : after.frames = pool.frames.put frame)
    (hs : pool.store.SameFile after.store)
    (himage : ∀ page, pool.page? frame.id = some page → page = frame.page)
    (hclean : ¬frame.IsDirty → pool.store.page? frame.id = some frame.page) :
    pool.Retains after where
  faithful := h.put frame hv hp hf hs hclean
  page? id page hpage := by
    rw [Pool.page?, hf, FrameTable.find?_put]
    by_cases hid : frame.id = id
    · rw [if_pos hid, himage page (hid ▸ hpage)]
    · rw [if_neg hid]
      rw [Pool.page?] at hpage
      cases hfind : pool.frames.find? id with
      | some other => rwa [hfind] at hpage
      | none =>
        rw [hfind] at hpage
        exact (hs.page? id).trans hpage

theorem put_of_find? (h : pool.Faithful) (frame : Frame) {former : Frame}
    (hf : pool.frames.find? frame.id = some former) (hp : frame.page = former.page)
    (hd : frame.IsDirty ↔ former.IsDirty) (ha : after.frames = pool.frames.put frame)
    (hs : pool.store.SameFile after.store) : pool.Retains after := by
  obtain ⟨hvalid, hpage⟩ := h.owned frame.id former hf
  apply put h frame hvalid (hp ▸ hpage) ha hs
  · intro page himage
    rw [page?_of_find? hf] at himage
    rw [hp]
    exact (Option.some.inj himage).symm
  · intro hclean
    rw [hp]
    exact h.clean frame.id former hf (mt hd.mpr hclean)

theorem of_written (h : pool.Faithful) (hf : pool.frames.find? id = some frame)
    (hw : pool.store.write frame.page = (.ok (), store))
    (hframes : after.frames = pool.frames.put (frame.withDirty false))
    (hstore : after.store = store) : pool.Retains after := by
  have hid := FrameTable.id_of_find? hf
  subst hid
  obtain ⟨hvalid, hpage⟩ := h.owned frame.id frame hf
  have hvp : frame.page.id.IsValid := hpage.symm ▸ hvalid
  have hself : after.store.page? frame.id = some frame.page := by
    rw [hstore, ← hpage]
    exact Store.page?_write_self hvp hw
  have hother : ∀ other page, frame.id ≠ other → pool.store.page? other = some page →
      after.store.page? other = some page := by
    intro other page hne hp
    rw [hstore]
    exact Store.page?_write_of_ne hvp hw (hpage.symm ▸ Ne.symm hne) hp
  refine ⟨⟨hframes ▸ FrameTable.owned_put h.owned hvalid hpage, ?_⟩, ?_⟩
  · intro other cached hfind hclean
    rw [hframes, FrameTable.find?_put, Frame.id_withDirty] at hfind
    split at hfind
    · rename_i ho
      cases hfind
      exact ho ▸ hself
    · rename_i ho
      exact hother other _ ho (h.clean other cached hfind hclean)
  · intro other page hp
    rw [Pool.page?, hframes, FrameTable.find?_put, Frame.id_withDirty]
    by_cases ho : frame.id = other
    · rw [if_pos ho, ← hp, page?_of_find? (ho ▸ hf)]
      rfl
    · rw [if_neg ho]
      rw [Pool.page?] at hp
      cases hfind : pool.frames.find? other with
      | some cached => rwa [hfind] at hp
      | none =>
        rw [hfind] at hp
        exact hother other page ho hp

end Retains

theorem retains_writeBack (h : pool.Faithful) (hw : pool.writeBack id = (answer, after)) :
    pool.Retains after := by
  cases writeBack_outcome hw with
  | unneeded hn => exact .refl h
  | failed frame e store hf hd hwrite =>
    exact .of_sameContents h (.refl _) (Store.sameFile_write_of_error hwrite)
  | written frame store hf hd hwrite => exact .of_written h hf hwrite rfl rfl

/-- Dropping a page that is in the file loses nothing, whether or not the policies let it go. -/
theorem retains_discard (h : pool.Faithful) (hd : ¬pool.frames.Dirty id)
    (hdrop : pool.discard id = (answer, after)) : pool.Retains after := by
  have hf := frames_of_discard hdrop
  have hs := store_of_discard hdrop
  refine ⟨⟨hf ▸ FrameTable.owned_erase h.owned id, ?_⟩, ?_⟩
  · intro other frame hfind hclean
    rw [hf, FrameTable.find?_erase] at hfind
    rw [hs]
    split at hfind
    · cases hfind
    · exact h.clean other frame hfind hclean
  · intro other page hp
    rw [Pool.page?, hf, hs, FrameTable.find?_erase]
    by_cases ho : id = other
    · subst ho
      rw [if_pos rfl, ← hp]
      exact h.store_page? hd
    · rwa [if_neg ho, ← Pool.page?]

theorem retains_victim (h : pool.Faithful) {named : Option PageId} {policies : Policies}
    {frames : FrameTable} (hv : pool.policies.victim pool.frames = (named, policies, frames)) :
    pool.Retains { pool with policies, frames } :=
  .of_sameContents h (Policies.sameContents_of_victim hv) (.of_eq rfl rfl)

theorem retains_makeRoom (h : pool.Faithful) (hm : pool.makeRoom = (answer, after)) :
    pool.Retains after := by
  cases makeRoom_outcome hm with
  | room hr => exact .refl h
  | noVictim policies frames hr hv => exact retains_victim h hv
  | unwritten victim policies frames e after hr hv hw =>
    have hasked := retains_victim h hv
    exact hasked.trans (retains_writeBack hasked.faithful hw)
  | discarded victim policies frames written answer after hr hv hw hd =>
    have hasked := retains_victim h hv
    have hwritten := hasked.trans (retains_writeBack hasked.faithful hw)
    exact hwritten.trans (retains_discard hwritten.faithful (not_dirty_of_writeBack hw) hd)

/-- Asking for a page loses none, whatever is dropped for it and whether or not it is found. -/
theorem retains_getPage (h : pool.Faithful) {answer : Except StorageError Frame}
    (hg : pool.getPage id = (answer, after)) : pool.Retains after := by
  cases getPage_outcome hg with
  | unaddressable hv => exact .refl h
  | hit frame hv hf =>
    have hid := FrameTable.id_of_find? hf
    subst hid
    exact .put_of_find? h frame.used hf rfl Iff.rfl rfl (.of_eq rfl rfl)
  | unread e store hv hf hr => exact .of_sameContents h (.refl _) (Store.sameFile_read hr)
  | crowded page store e after hv hf hr hm =>
    have hread : pool.Retains (pool.loadedFrom store) :=
      .of_sameContents h (.refl _) (Store.sameFile_read hr)
    exact hread.trans (retains_makeRoom hread.faithful hm)
  | loaded page store room hv hf hr hm =>
    have hread : pool.Retains (pool.loadedFrom store) :=
      .of_sameContents h (.refl _) (Store.sameFile_read hr)
    have hroom := hread.trans (retains_makeRoom hread.faithful hm)
    have hmissing : (pool.loadedFrom store).frames.find? id = none := hf
    have hnone := find?_of_makeRoom hmissing hm
    have hpage := Store.page?_of_read_ok hr
    -- Making room may write pages, but what was read is in the file as before.
    have hstill : room.page? id = some page :=
      hroom.page? id page ((page?_of_find?_none hf).trans hpage)
    have hput : room.Retains (room.enlist (Frame.clean page id)) :=
      .put hroom.faithful (Frame.clean page id) hv (Store.id_of_page? hpage) rfl (.of_eq rfl rfl)
        (fun _ hother => Option.some.inj (hother.symm.trans hstill))
        fun _ => (page?_of_find?_none hnone).symm.trans hstill
    exact hroom.trans hput

theorem retains_pin (h : pool.Faithful) (id : PageId) : pool.Retains (pool.pin id).2 := by
  unfold pin
  split
  · exact .refl h
  · rename_i frame hf
    have hid := FrameTable.id_of_find? hf
    subst hid
    exact .put_of_find? h (frame.withPinned true) hf rfl Iff.rfl rfl (.of_eq rfl rfl)

theorem retains_unpin (h : pool.Faithful) (id : PageId) : pool.Retains (pool.unpin id).2 := by
  unfold unpin
  split
  · exact .refl h
  · rename_i frame hf
    have hid := FrameTable.id_of_find? hf
    subst hid
    exact .put_of_find? h (frame.withPinned false) hf rfl Iff.rfl rfl (.of_eq rfl rfl)

theorem page?_after_getPage (hg : pool.getPage id = (.ok frame, after)) :
    after.page? id = some frame.page := by
  cases getPage_outcome hg with
  | hit former hv hf =>
    have hid := FrameTable.id_of_find? hf
    subst hid
    exact page?_of_find? ((FrameTable.find?_put _ _ _).trans (if_pos rfl))
  | loaded page store room hv hf hr hm =>
    exact page?_of_find? ((FrameTable.find?_put _ _ _).trans (if_pos rfl))

/-- A pool that never refuses gives the pages that it has. -/
theorem Ready.getPage_of_page? (h : pool.Ready settings) (hf : pool.Faithful)
    (hp : pool.page? id = some page) :
    ∃ frame after, pool.getPage id = (.ok frame, after) ∧ frame.page = page := by
  have hanswer : ∃ frame after, pool.getPage id = (.ok frame, after) := by
    rcases hg : pool.getPage id with ⟨answer, after⟩
    cases getPage_outcome hg with
    | unaddressable hv => exact absurd (hf.isValid_of_page? hp) hv
    | hit frame hv hfind => exact ⟨_, _, rfl⟩
    | unread e store hv hfind hr =>
      rw [page?_of_find?_none hfind] at hp
      rcases Store.page?_of_read_error hr with ⟨hfails, -⟩ | hnone
      · rw [h.reliable.not_fails_read] at hfails
        cases hfails
      · rw [hnone] at hp
        cases hp
    | crowded page store e after hv hfind hr hm =>
      have hloaded := h.of_store (h.reliable.of_read hr) (pool.loadedFrom store).stats
      cases (hloaded.makeRoom hm).1
    | loaded page store room hv hfind hr hm => exact ⟨_, _, rfl⟩
  obtain ⟨frame, after, hg⟩ := hanswer
  exact ⟨frame, after, hg, Option.some.inj ((page?_of_getPage_ok hg).symm.trans hp)⟩

theorem retains_serve (h : pool.Faithful) (request : Request) :
    pool.Retains (pool.serve request).2 := by
  have hw : ∀ mid id, pool.Retains mid → pool.Retains (mid.writeBack id).2 :=
    fun _ _ hmid => hmid.trans (retains_writeBack hmid.faithful rfl)
  cases request with
  | get id => exact retains_getPage h rfl
  | pin id => exact retains_pin h id
  | unpin id => exact retains_unpin h id
  | flush id => exact flushPage_keeps hw (.refl h) id
  | flushAll => exact flushPages_keeps hw (.refl h) pool.dirtyPages
  | flushBatch limit => exact flushBatch_keeps hw (.refl h) limit

theorem retains_failing (h : pool.Faithful) (fails : Access → PageId → Bool) :
    pool.Retains (pool.failing fails) :=
  .of_sameContents h (.refl _) (Store.sameFile_failing pool.store fails)

/-- An update that fails may have made room, but no page is lost by it. -/
theorem retains_updatePage_error (h : pool.Faithful) {e : StorageError}
    (hu : pool.updatePage id page = (.error e, after)) : pool.Retains after := by
  cases updatePage_outcome hu with
  | unaddressable hv => exact .refl h
  | misdirected hv hp => exact .refl h
  | crowded e after hv hp hf hm => exact retains_makeRoom h hm

theorem renews_enlist (h : pool.Faithful) (frame : Frame) (hv : frame.id.IsValid)
    (hp : frame.page.id = frame.id) (hd : frame.IsDirty) :
    pool.Renews frame.page (pool.enlist frame) where
  faithful := h.put frame hv hp rfl (.of_eq rfl rfl) fun hclean => absurd hd hclean
  self := by
    rw [hp]
    exact page?_of_find? ((FrameTable.find?_put _ _ _).trans (if_pos rfl))
  others id other hne hpage := by
    rw [hp] at hne
    rw [Pool.page?, enlist, FrameTable.find?_put, if_neg hne.symm]
    exact hpage

theorem renews_updatePage (h : pool.Faithful) (hu : pool.updatePage id page = (.ok (), after)) :
    page.id = id ∧ pool.Renews page after := by
  cases updatePage_outcome hu with
  | replaced frame hv hp hf =>
    have hid := FrameTable.id_of_find? hf
    subst hid
    exact ⟨hp, renews_enlist h (frame.updated page) hv hp rfl⟩
  | created room hv hp hf hm =>
    have hroom := retains_makeRoom h hm
    obtain ⟨hfaithful, hself, hothers⟩ :=
      renews_enlist hroom.faithful (.fresh page id) hv hp rfl
    refine ⟨hp, hfaithful, hself, ?_⟩
    intro other found hne hpage
    exact hothers other found hne (hroom.page? other found hpage)

namespace Faithful

theorem updatePage (h : pool.Faithful) (hu : pool.updatePage id page = (answer, after)) :
    after.Faithful := by
  cases answer with
  | error e => exact (retains_updatePage_error h hu).faithful
  | ok => exact (renews_updatePage h hu).2.faithful

theorem serve (h : pool.Faithful) (request : Request) : (pool.serve request).2.Faithful :=
  (retains_serve h request).faithful

theorem failing (h : pool.Faithful) (fails : Access → PageId → Bool) :
    (pool.failing fails).Faithful := (retains_failing h fails).faithful

theorem step (h : pool.Faithful) (step : Step) : (pool.step step).Faithful := by
  obtain ⟨operation, fails⟩ := step
  have hf := h.failing fails
  cases operation with
  | request request => exact hf.serve request
  | update id page => exact hf.updatePage rfl

theorem run (h : pool.Faithful) (steps : List Step) : (pool.run steps).Faithful := by
  induction steps generalizing pool with
  | nil => exact h
  | cons step steps ih => exact ih (h.step step)

end Faithful

theorem faithful_of_create (h : create settings store = .ok pool) : pool.Faithful := by
  have hf := (frames_of_create h).1
  refine ⟨hf ▸ FrameTable.owned_empty, ?_⟩
  intro id frame hfind
  rw [hf] at hfind
  cases hfind

end

end Pool

end PagedStorage
