import PagedStorage.Proofs.Pool.Ready

namespace PagedStorage

namespace DataFile

/-- A write leaves what is read of other pages, as long as it leaves no gap in front of its own. -/
theorem read_write_of_no_gap (file : DataFile) {page : Page} (hv : page.id.IsValid) {id : PageId}
    (hne : id ≠ page.id) (hgap : id.index < page.id.index → id.index < file.pageCount) :
    (file.write page).read id = file.read id := by
  by_cases hlt : id.index < file.pageCount
  · exact read_write_of_ne file hv hne hlt
  · have hindex : id.index ≠ page.id.index := fun he => hne (PageId.index_injective he)
    have hbehind : (file.write page).pageCount ≤ id.index := by
      rw [write_of_isValid file hv, pageCount_writeAt]
      omega
    rw [read_of_pageCount_le hbehind, read_of_pageCount_le (Nat.le_of_not_lt hlt)]

end DataFile

namespace Pool

def answerOf (look : PageId → Except StorageError Page) (id : PageId) : Except StorageError Page :=
  if id.IsValid then look id else .error (.invalidArgument (.notAddressable id))

def renew (look : PageId → Except StorageError Page) (id : PageId) (page : Page) :
    PageId → Except StorageError Page := fun other => if id = other then .ok page else look other

/-- The pages that `look` tells are in memory or in the file, those with changes numbered below
`count`. The file has come from the one of `start` by writing such pages. -/
structure Presents (start : Store) (look : PageId → Except StorageError Page) (count : Nat)
    (pool : Pool) : Prop where
  revealed : pool.store.volume.Reveals pool.store.path
  cached : ∀ id frame, pool.frames.find? id = some frame → look id = .ok frame.page
  stored : ∀ id, id.IsValid → ¬pool.frames.Dirty id → pool.store.contents.read id = look id
  dirty_lt : ∀ id, pool.frames.Dirty id → id.index < count
  /-- A page that is to be written later may leave a gap, and no other page does. -/
  placed : ∀ id : PageId, id.index < count → ¬pool.frames.Dirty id →
    id.index < pool.store.contents.pageCount
  grown : start.contents.Grown pool.store.contents count
  untouched : count = 0 → pool.store.file? = start.file?

section

variable {settings : PoolSettings} {start : Store} {look : PageId → Except StorageError Page}
  {count : Nat} {pool after : Pool} {id : PageId} {page : Page} {frame : Frame}
  {answer : Except StorageError Unit}

namespace Presents

theorem of_dirty (h : pool.Presents start look count) (hs : pool.store.SameFile after.store)
    (hc : ∀ id frame, after.frames.find? id = some frame → look id = .ok frame.page)
    (hd : ∀ id, after.frames.Dirty id ↔ pool.frames.Dirty id) :
    after.Presents start look count := by
  have hcontents : after.store.contents = pool.store.contents := by
    rw [Store.contents, hs.file?]
    rfl
  refine ⟨hs.revealed h.revealed, hc, ?_, ?_, ?_, hcontents ▸ h.grown,
    fun h0 => hs.file?.trans (h.untouched h0)⟩
  · intro id hv hn
    rw [hcontents]
    exact h.stored id hv ((hd id).not.mp hn)
  · intro id hdirty
    exact h.dirty_lt id ((hd id).mp hdirty)
  · intro id hlt hn
    rw [hcontents]
    exact h.placed id hlt ((hd id).not.mp hn)

theorem of_sameContents (h : pool.Presents start look count)
    (hs : pool.store.SameFile after.store) (hf : pool.frames.SameContents after.frames) :
    after.Presents start look count := by
  apply h.of_dirty hs
  · intro id frame hfind
    obtain ⟨before, hbefore, hpage, -⟩ := hf.exists_find? hfind
    rw [hpage]
    exact h.cached id before hbefore
  · intro id
    exact hf.dirty

theorem written (h : pool.Presents start look count) (ho : pool.frames.Owned) {store : Store}
    (hf : pool.frames.find? id = some frame) (hd : frame.IsDirty)
    (hw : pool.store.write frame.page = (.ok (), store)) (stats : Statistics) :
    Presents start look count
      { pool with frames := pool.frames.put (frame.withDirty false), store, stats } := by
  have hid := FrameTable.id_of_find? hf
  subst hid
  obtain ⟨hvalid, hpage⟩ := ho frame.id frame hf
  have hvp : frame.page.id.IsValid := hpage.symm ▸ hvalid
  have hdirty : pool.frames.Dirty frame.id := (FrameTable.dirty_of_find? hf).mpr hd
  have hlt := h.dirty_lt frame.id hdirty
  have hcontents := Store.contents_write_of_ok h.revealed hw
  have hmarks := pool.frames.dirty_put_clean (Frame.not_isDirty_withDirty frame)
  rw [Frame.id_withDirty] at hmarks
  refine ⟨(Store.file?_write_of_ok h.revealed hw).2, ?_, ?_, ?_, ?_, ?_, ?_⟩
  · intro other cached hfind
    rw [FrameTable.find?_put, Frame.id_withDirty] at hfind
    split at hfind
    · rename_i hother
      cases hfind
      exact hother ▸ h.cached frame.id frame hf
    · exact h.cached other cached hfind
  · intro other hv hn
    rw [hmarks, not_and_or, not_not] at hn
    rw [hcontents]
    by_cases hother : frame.id = other
    · rw [← hother, h.cached frame.id frame hf, ← hpage]
      exact DataFile.read_write_self _ hvp
    · have hclean := hn.resolve_left hother
      rw [← h.stored other hv hclean]
      apply DataFile.read_write_of_no_gap _ hvp (hpage.symm ▸ Ne.symm hother)
      intro hbefore
      rw [hpage] at hbefore
      exact h.placed other (hbefore.trans hlt) hclean
  · intro other hother
    exact h.dirty_lt other ((hmarks other).mp hother).2
  · intro other hlt' hn
    rw [hmarks, not_and_or, not_not] at hn
    rw [hcontents, DataFile.write_of_isValid _ hvp, DataFile.pageCount_writeAt, hpage]
    by_cases hother : frame.id = other
    · rw [hother]
      omega
    · have hplaced := h.placed other hlt' (hn.resolve_left hother)
      omega
  · rw [hcontents]
    exact h.grown.write hvp (hpage.symm ▸ hlt)
  · intro h0
    omega

theorem updated (h : pool.Presents start look count) (hd : frame.IsDirty)
    (hlt : frame.id.index ≤ count) (hf : after.frames = pool.frames.put frame)
    (hs : after.store = pool.store) :
    after.Presents start (renew look frame.id frame.page) (max count (frame.id.index + 1)) := by
  have hmarks : ∀ other, after.frames.Dirty other ↔
      frame.id = other ∨ pool.frames.Dirty other := by
    intro other
    rw [hf, FrameTable.dirty_put]
    split
    · rename_i hother
      exact iff_of_true hd (Or.inl hother)
    · rename_i hother
      rw [or_iff_right hother]
  refine ⟨hs ▸ h.revealed, ?_, ?_, ?_, ?_, ?_, fun h0 => by omega⟩
  · intro other cached hfind
    rw [hf, FrameTable.find?_put] at hfind
    rw [renew]
    split at hfind
    · rename_i hother
      cases hfind
      exact if_pos hother
    · rename_i hother
      rw [if_neg hother]
      exact h.cached other cached hfind
  · intro other hv hn
    rw [hmarks, not_or] at hn
    rw [hs, renew, if_neg hn.1]
    exact h.stored other hv hn.2
  · intro other hother
    rcases (hmarks other).mp hother with rfl | hbefore
    · omega
    · have hbelow := h.dirty_lt other hbefore
      omega
  · intro other hbelow hn
    rw [hmarks, not_or] at hn
    have hindex : frame.id.index ≠ other.index := fun he => hn.1 (PageId.index_injective he)
    rw [hs]
    exact h.placed other (by omega) hn.2
  · rw [hs]
    exact h.grown.mono (le_max_left _ _)

theorem loaded (h : pool.Presents start look count) (hlook : look id = .ok page)
    (hn : pool.frames.find? id = none) (hf : after.frames = pool.frames.put (Frame.clean page id))
    (hs : after.store = pool.store) : after.Presents start look count := by
  apply h.of_dirty (.of_eq (congrArg Store.volume hs) (congrArg Store.path hs))
  · intro other cached hfind
    rw [hf, FrameTable.find?_put] at hfind
    split at hfind
    · rename_i hother
      cases hfind
      exact hother ▸ hlook
    · exact h.cached other cached hfind
  · intro other
    rw [hf, FrameTable.dirty_put_clean _ (Frame.not_isDirty_clean page id), and_iff_right_iff_imp]
    rintro hdirty rfl
    exact FrameTable.not_has_of_find?_none hn hdirty

/-- A page that is not in memory is read as it is looked up. -/
theorem read_eq (h : pool.Presents start look count) (hr : pool.store.Reliable)
    (hv : id.IsValid) (hf : pool.frames.find? id = none) : (pool.store.read id).1 = look id :=
  (hr.read_eq hv).trans (h.stored id hv (FrameTable.not_has_of_find?_none hf))

theorem writeBack (h : pool.Presents start look count) (ho : pool.frames.Owned)
    (hw : pool.writeBack id = (.ok (), after)) : after.Presents start look count := by
  cases writeBack_outcome hw with
  | unneeded hn => exact h
  | written frame store hf hd hwrite => exact h.written ho hf hd hwrite _

theorem makeRoom (h : pool.Presents start look count) (hr : pool.Ready settings)
    (hm : pool.makeRoom = (.ok (), after)) : after.Presents start look count := by
  cases makeRoom_outcome hm with
  | room hlt => exact h
  | discarded victim policies frames written answer after hfull hv hw hd =>
    have hasked : Presents start look count { pool with policies, frames } :=
      h.of_sameContents (.of_eq rfl rfl) (Policies.sameContents_of_victim hv)
    have hleft := hasked.writeBack (hr.victim hv).regular.owned hw
    have hframes := frames_of_discard hd
    have hstore := store_of_discard hd
    apply hleft.of_dirty (.of_eq (hstore ▸ rfl) (hstore ▸ rfl))
    · intro id frame hfind
      rw [hframes, FrameTable.find?_erase] at hfind
      split at hfind
      · cases hfind
      · exact hleft.cached id frame hfind
    · -- The victim has been written, so the mark of no page is dropped with it.
      intro id
      rw [hframes, FrameTable.dirty_erase, and_iff_right_iff_imp]
      rintro hdirty rfl
      exact not_dirty_of_writeBack hw hdirty

end Presents

/-- Requests are answered by what is looked up, whether or not the page is in memory. -/
theorem getPage_of_presents (h : pool.Presents start look count) (hr : pool.Ready settings)
    {answer : Except StorageError Frame} (hg : pool.getPage id = (answer, after)) :
    answer.map Frame.page = answerOf look id ∧ after.Presents start look count := by
  cases getPage_outcome hg with
  | unaddressable hv => exact ⟨(if_neg hv).symm, h⟩
  | hit frame hv hf =>
    have hid := FrameTable.id_of_find? hf
    subst hid
    have hanswer := h.cached frame.id frame hf
    refine ⟨((if_pos hv).trans hanswer).symm, ?_⟩
    have hused : pool.frames.SameContents (pool.frames.put frame.used) :=
      map_insertFrame Frame.unused pool.frames.sorted hf rfl
    exact h.of_sameContents (.of_eq rfl rfl) hused
  | unread e store hv hf hread =>
    have hanswer := h.read_eq hr.reliable hv hf
    rw [hread] at hanswer
    refine ⟨((if_pos hv).trans hanswer.symm).symm, ?_⟩
    exact h.of_sameContents (Store.sameFile_read hread) (.refl _)
  | crowded page store e after hv hf hread hm =>
    have hloaded := hr.of_store (hr.reliable.of_read hread) (pool.loadedFrom store).stats
    cases (hloaded.makeRoom hm).1
  | loaded page store room hv hf hread hm =>
    have hanswer := h.read_eq hr.reliable hv hf
    rw [hread] at hanswer
    refine ⟨((if_pos hv).trans hanswer.symm).symm, ?_⟩
    have hloaded := hr.of_store (hr.reliable.of_read hread) (pool.loadedFrom store).stats
    have hsame : (pool.loadedFrom store).Presents start look count :=
      h.of_sameContents (Store.sameFile_read hread) (.refl _)
    have hmissing : (pool.loadedFrom store).frames.find? id = none := hf
    exact (hsame.makeRoom hloaded hm).loaded hanswer.symm (find?_of_makeRoom hmissing hm) rfl rfl

/-- A page that is known, or comes next, gets the image it is given. -/
theorem updatePage_of_presents (h : pool.Presents start look count) (hr : pool.Ready settings)
    (hv : id.IsValid) (hp : page.id = id) (hlt : id.index ≤ count)
    (hu : pool.updatePage id page = (answer, after)) :
    answer = .ok () ∧ after.Presents start (renew look id page) (max count (id.index + 1)) := by
  cases updatePage_outcome hu with
  | unaddressable hn => exact absurd hv hn
  | misdirected hv hn => exact absurd hp hn
  | replaced frame hv hp hf =>
    have hid := FrameTable.id_of_find? hf
    subst hid
    have hdirty : (frame.updated page).IsDirty := rfl
    exact ⟨rfl, h.updated hdirty hlt rfl rfl⟩
  | crowded e after hv hp hf hm => cases (hr.makeRoom hm).1
  | created room hv hp hf hm =>
    have hroom := h.makeRoom hr hm
    have hdirty : (Frame.fresh page id).IsDirty := rfl
    exact ⟨rfl, hroom.updated hdirty hlt rfl rfl⟩

namespace Presents

theorem flushPage (h : pool.Presents start look count) (hr : pool.Ready settings)
    (hf : pool.flushPage id = (answer, after)) : after.Presents start look count := by
  unfold Pool.flushPage at hf
  split at hf
  · obtain ⟨rfl, -⟩ := hr.writeBack hf
    exact h.writeBack hr.regular.owned hf
  · cases hf
    exact h

theorem flushPages (h : pool.Presents start look count) (hr : pool.Ready settings)
    {ids : List PageId} (hf : pool.flushPages ids = (answer, after)) :
    after.Presents start look count := by
  induction ids generalizing pool with
  | nil =>
    cases hf
    exact h
  | cons id ids ih =>
    rw [Pool.flushPages] at hf
    split at hf
    · rename_i hfirst
      cases hf
      exact h.flushPage hr hfirst
    · rename_i hfirst
      exact ih (h.flushPage hr hfirst) (hr.flushPage hfirst).2 hf

end Presents

theorem presents_of_create (hr : start.volume.Reveals start.path)
    (h : create settings start = .ok pool) : pool.Presents start start.contents.read 0 := by
  obtain ⟨hframes, hstore⟩ := frames_of_create h
  refine ⟨hstore ▸ hr, ?_, ?_, ?_, nofun, hstore ▸ .refl _, fun _ => hstore ▸ rfl⟩
  · intro id frame hf
    rw [hframes] at hf
    cases hf
  · intro id _ _
    rw [hstore]
  · rintro id ⟨frame, hf, -⟩
    rw [hframes] at hf
    cases hf

end

end Pool

end PagedStorage
