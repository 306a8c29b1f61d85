import PagedStorage.Proofs.Cache.Candidates
import PagedStorage.Proofs.Disk.Store
import PagedStorage.Proofs.Pool.Outcomes
import PagedStorage.Proofs.Pool.Run

namespace PagedStorage

namespace StorageError

def DeniesPage : StorageError → Prop
  | pageNotFound _ | format _ => True
  | _ => False

end StorageError

namespace Pool

/-- The newest image of a page: the cached one, or else the one in the data file. -/
def page? (pool : Pool) (id : PageId) : Option Page :=
  match pool.frames.find? id with
  | some frame => some frame.page
  | none => pool.store.page? id

/-- What makes the newest images safe: a page that is not marked as changed is on disk. -/
structure Coherent (pool : Pool) : Prop where
  whole : pool.store.Whole
  owned : pool.frames.Owned
  clean : ∀ id frame, pool.frames.find? id = some frame → ¬frame.IsDirty →
    pool.store.page? id = some frame.page

def noImages : PageId → Option Page := fun _ => none

def thenImages (earlier later : PageId → Option Page) : PageId → Option Page :=
  fun id => (later id).or (earlier id)

/-- `after` is what becomes of a pool as pages get the images in `images`: these are now the newest,
and on disk only such pages and those changed before are written. -/
structure Becomes (pool after : Pool) (images : PageId → Option Page) : Prop where
  coherent : after.Coherent
  page? : ∀ id, after.page? id = (images id).or (pool.page? id)
  dirty : ∀ id, after.frames.Dirty id → images id ≠ none ∨ pool.frames.Dirty id
  block? : ∀ index image, pool.store.block? index = some image →
    (∀ id, images id ≠ none ∨ pool.frames.Dirty id → id.index ≠ index) →
    after.store.block? index = some image

section

variable {pool mid after : Pool} {id : PageId} {frame : Frame} {page : Page} {e : StorageError}
  {answer : Except StorageError Unit}

theorem page?_of_find? (h : pool.frames.find? id = some frame) :
    pool.page? id = some frame.page := by
  rw [page?, h]

theorem page?_of_find?_none (h : pool.frames.find? id = none) :
    pool.page? id = pool.store.page? id := by
  rw [page?, h]

theorem isValid_of_page? (h : pool.Coherent) (hp : pool.page? id = some page) :
    id.IsValid ∧ page.id = id := by
  cases hf : pool.frames.find? id with
  | some frame =>
    rw [page?_of_find? hf] at hp
    cases hp
    exact h.owned id frame hf
  | none =>
    rw [page?_of_find?_none hf] at hp
    obtain ⟨hv, hid, -⟩ := Store.page?_eq_some_iff.mp hp
    exact ⟨hv, hid⟩

theorem page?_of_not_dirty (h : pool.Coherent) (hd : ¬pool.frames.Dirty id) :
    pool.store.page? id = pool.page? id := by
  cases hf : pool.frames.find? id with
  | some frame =>
    rw [page?_of_find? hf]
    exact h.clean id frame hf ((FrameTable.dirty_of_find? hf).not.mp hd)
  | none => rw [page?_of_find?_none hf]

namespace Becomes

/-- Neither counters nor policies matter, nor which calls of the store fail. -/
theorem of_sameFile (h : pool.Coherent) (hf : after.frames = pool.frames)
    (hs : pool.store.SameFile after.store) : pool.Becomes after noImages where
  coherent := by
    refine ⟨hs.whole h.whole, hf ▸ h.owned, ?_⟩
    intro id frame hfind hd
    rw [hs.page?]
    exact h.clean id frame (hf ▸ hfind) hd
  page? id := by
    rw [Pool.page?, hf, Pool.page?, hs.page?]
    rfl
  dirty id hd := Or.inr (hf ▸ hd)
  block? index image hb _ := by rwa [hs.block?]

theorem refl (h : pool.Coherent) : pool.Becomes pool noImages := .of_sameFile h rfl (.of_eq rfl rfl)

theorem trans {earlier later : PageId → Option Page} (h : pool.Becomes mid earlier)
    (h' : mid.Becomes after later) : pool.Becomes after (thenImages earlier later) where
  coherent := h'.coherent
  page? id := by rw [h'.page?, h.page?, thenImages, Option.or_assoc]
  dirty id hd := by
    rw [thenImages, ne_eq, Option.or_eq_none_iff, not_and_or]
    rcases h'.dirty id hd with hl | hm
    · exact Or.inl (Or.inl hl)
    · exact (h.dirty id hm).imp_left Or.inr
  block? index image hb hne := by
    have hne' : ∀ id, later id ≠ none ∨ earlier id ≠ none ∨ pool.frames.Dirty id →
        id.index ≠ index := by
      intro id hid
      apply hne id
      rw [thenImages, ne_eq, Option.or_eq_none_iff, not_and_or]
      tauto
    apply h'.block? index image
    · exact h.block? index image hb fun id hid => hne' id (Or.inr hid)
    · intro id hid
      exact hne' id (hid.imp_right (h.dirty id))

/-- Where nothing gets a new image in the second stretch, the first one tells all. -/
theorem trans_noImages {images : PageId → Option Page} (h : pool.Becomes mid images)
    (h' : mid.Becomes after noImages) : pool.Becomes after images := h.trans h'

theorem noImages_trans {images : PageId → Option Page} (h : pool.Becomes mid noImages)
    (h' : mid.Becomes after images) : pool.Becomes after images := by
  have ht := h.trans h'
  have himages : thenImages noImages images = images := funext fun id => Option.or_none
  rwa [himages] at ht

theorem not_dirty (h : pool.Becomes after noImages) (hn : ¬pool.frames.Dirty id) :
    ¬after.frames.Dirty id := by
  intro hd
  rcases h.dirty id hd with hne | hwas
  · exact hne rfl
  · exact hn hwas

/-- A frame goes into the table. Its page is one that had this image, or that gets it now. -/
theorem put {images : PageId → Option Page} (h : pool.Coherent) (frame : Frame)
    (hv : frame.id.IsValid) (hp : frame.page.id = frame.id)
    (hf : after.frames = pool.frames.put frame) (hs : pool.store.SameFile after.store)
    (hother : ∀ id, id ≠ frame.id → images id = none)
    (himage : (images frame.id).or (pool.page? frame.id) = some frame.page)
    (hclean : ¬frame.IsDirty → pool.store.page? frame.id = some frame.page)
    (hdirty : frame.IsDirty → images frame.id ≠ none ∨ pool.frames.Dirty frame.id) :
    pool.Becomes after images where
  coherent := by
    refine ⟨hs.whole h.whole, hf ▸ FrameTable.owned_put h.owned hv hp, ?_⟩
    intro id other hfind hd
    rw [hf, FrameTable.find?_put] at hfind
    rw [hs.page?]
    split at hfind
    · rename_i hid
      cases hfind
      exact hid ▸ hclean hd
    · exact h.clean id other hfind hd
  page? id := by
    rw [Pool.page?, hf, FrameTable.find?_put]
    by_cases hid : frame.id = id
    · rw [if_pos hid, ← hid, himage]
    · rw [if_neg hid, hother id (Ne.symm hid), Pool.page?, hs.page?]
      rfl
  dirty id hd := by
    rw [hf, FrameTable.dirty_put] at hd
    split at hd
    · rename_i hid
      exact hid ▸ hdirty hd
    · exact Or.inr hd
  block? index image hb _ := by rwa [hs.block?]

end Becomes

theorem becomes_failing (h : pool.Coherent) (fails : Access → PageId → Bool) :
    pool.Becomes (pool.failing fails) noImages :=
  .of_sameFile h rfl (Store.sameFile_failing pool.store fails)

/-- A frame that has only been counted, pinned or released goes back into the table. -/
theorem becomes_enlist_of_find? (h : pool.Coherent) (frame : Frame) {former : Frame}
    (hf : pool.frames.find? frame.id = some former) (hp : frame.page = former.page)
    (hd : frame.IsDirty ↔ former.IsDirty) (ha : after.frames = pool.frames.put frame)
    (hs : pool.store.SameFile after.store) : pool.Becomes after noImages := by
  obtain ⟨hvalid, hpage⟩ := h.owned frame.id former hf
  apply Becomes.put h frame hvalid (hp ▸ hpage) ha hs fun _ _ => rfl
  · rw [page?_of_find? hf, hp]
    rfl
  · intro hclean
    rw [hp]
    exact h.clean frame.id former hf (mt hd.mpr hclean)
  · intro hdirty
    exact Or.inr ((FrameTable.dirty_of_find? hf).mpr (hd.mp hdirty))

theorem becomes_of_sameContents (h : pool.Coherent) {frames : FrameTable}
    (hc : pool.frames.SameContents frames) (hf : after.frames = frames)
    (hs : pool.store.SameFile after.store) : pool.Becomes after noImages where
  coherent := by
    subst hf
    refine ⟨hs.whole h.whole, hc.owned h.owned, ?_⟩
    intro id frame hfind hd
    obtain ⟨before, hbefore, hpage, hstate⟩ := hc.exists_find? hfind
    rw [hs.page?, hpage]
    apply h.clean id before hbefore
    rwa [Frame.IsDirty, ← hstate]
  page? id := by
    subst hf
    rw [noImages, Option.none_or]
    cases hfind : after.frames.find? id with
    | some frame =>
      obtain ⟨before, hbefore, hpage, -⟩ := hc.exists_find? hfind
      rw [page?_of_find? hfind, page?_of_find? hbefore, hpage]
    | none =>
      rw [page?_of_find?_none hfind, page?_of_find?_none (hc.find?_eq_none.mp hfind), hs.page?]
  dirty id hd := by
    subst hf
    exact Or.inr (hc.dirty.mp hd)
  block? index image hb _ := by rwa [hs.block?]

/-- A page that is written to its place stays as it is in memory, and need no longer be marked. -/
theorem becomes_written (h : pool.Coherent) {store : Store}
    (hf : pool.frames.find? id = some frame) (hd : frame.IsDirty)
    (hw : pool.store.write frame.page = (.ok (), store))
    (hframes : after.frames = pool.frames.put (frame.withDirty false))
    (hstore : after.store = store) : pool.Becomes after noImages := by
  obtain ⟨hvalid, hpage⟩ := h.owned id frame hf
  have hid : frame.id = id := FrameTable.id_of_find? hf
  have hvp : frame.page.id.IsValid := hpage.symm ▸ hvalid
  -- On disk no page but this one is different, and it is as it is in memory.
  have hafter : ∀ other, after.store.page? other =
      if frame.id = other then some frame.page else pool.store.page? other := by
    intro other
    rw [hstore, Store.page?_write_of_ok h.whole hvp hw, hpage, hid]
    simp only [eq_comm]
  refine ⟨⟨hstore ▸ Store.whole_write_of_ok h.whole hvp hw, ?_, ?_⟩, ?_, ?_, ?_⟩
  · rw [hframes]
    exact FrameTable.owned_put h.owned (hid.symm ▸ hvalid) (hpage.trans hid.symm)
  · intro other cached hfind hclean
    rw [hframes, FrameTable.find?_put, Frame.id_withDirty] at hfind
    rw [hafter]
    split at hfind
    · rename_i ho
      cases hfind
      rw [if_pos ho]
      rfl
    · rename_i ho
      rw [if_neg ho]
      exact h.clean other cached hfind hclean
  · intro other
    rw [noImages, Option.none_or, Pool.page?, hframes, FrameTable.find?_put, Frame.id_withDirty]
    by_cases ho : frame.id = other
    · rw [if_pos ho, page?_of_find? (ho ▸ hid ▸ hf)]
      rfl
    · rw [if_neg ho, hafter, if_neg ho, Pool.page?]
  · intro other hother
    rw [hframes, FrameTable.dirty_put] at hother
    split at hother
    · cases hother
    · exact Or.inr hother
  · intro index image hb hne
    rw [hstore]
    apply Store.block?_write_of_ok h.whole hvp hw _ hb
    rw [hpage]
    exact Ne.symm (hne id (Or.inr ((FrameTable.dirty_of_find? hf).mpr hd)))

theorem becomes_writeBack (h : pool.Coherent) (hw : pool.writeBack id = (answer, after)) :
    pool.Becomes after noImages := by
  cases writeBack_outcome hw with
  | unneeded hn => exact .refl h
  | failed frame e store hf hd hwrite =>
    exact .of_sameFile h rfl (Store.sameFile_write_of_error hwrite)
  | written frame store hf hd hwrite => exact becomes_written h hf hd hwrite rfl rfl

theorem not_dirty_of_writeBack (hw : pool.writeBack id = (.ok (), after)) :
    ¬after.frames.Dirty id := by
  cases writeBack_outcome hw with
  | unneeded hn => exact hn
  | written frame store hf hd hwrite =>
    have hid : frame.id = id := FrameTable.id_of_find? hf
    rw [FrameTable.dirty_put, Frame.id_withDirty, if_pos hid]
    exact Frame.not_isDirty_withDirty frame

theorem writeBack_error (hw : pool.writeBack id = (.error e, after)) : ∃ fault, e = .io fault := by
  cases writeBack_outcome hw with
  | failed frame e store hf hd hwrite => exact Store.write_error hwrite

/-- Dropping a page that is on disk loses nothing, whether or not the policies let it go. -/
theorem becomes_discard (h : pool.Coherent) (hd : ¬pool.frames.Dirty id)
    (hdrop : pool.discard id = (answer, after)) : pool.Becomes after noImages := by
  have hf := frames_of_discard hdrop
  have hs := store_of_discard hdrop
  refine ⟨⟨hs ▸ h.whole, hf ▸ FrameTable.owned_erase h.owned id, ?_⟩, ?_, ?_, ?_⟩
  · intro other frame hfind hclean
    rw [hf, FrameTable.find?_erase] at hfind
    rw [hs]
    split at hfind
    · cases hfind
    · exact h.clean other frame hfind hclean
  · intro other
    rw [noImages, Option.none_or, Pool.page?, hf, hs, FrameTable.find?_erase]
    by_cases ho : id = other
    · -- From now on the page is found on disk, where it is the same.
      subst ho
      rw [if_pos rfl]
      exact page?_of_not_dirty h hd
    · rw [if_neg ho, Pool.page?]
  · intro other hother
    rw [hf, FrameTable.dirty_erase] at hother
    exact Or.inr hother.2
  · intro index image hb _
    rwa [hs]

theorem withdraw_error {policy : Policy} (h : policy.withdraw id = .error e) :
    ∃ fault, e = .invalidArgument fault := by
  cases policy with
  | clock state => cases h
  | lru state =>
    rw [Policy.withdraw, Lru.withdraw] at h
    split at h <;> cases h
    exact ⟨_, rfl⟩
  | idle => cases h
  | retaining state =>
    cases h
    exact ⟨_, rfl⟩

theorem discard_error (hdrop : pool.discard id = (.error e, after)) :
    ∃ fault, e = .invalidArgument fault := by
  unfold discard at hdrop
  split at hdrop
  · rename_i hw
    cases hdrop
    unfold Policies.withdraw at hw
    split at hw
    · rename_i hfirst
      cases hw
      exact withdraw_error hfirst
    · split at hw
      · cases hw
      · split at hw
        · rename_i hsecond
          cases hw
          exact withdraw_error hsecond
        · cases hw
  · cases hdrop

theorem becomes_victim (h : pool.Coherent) {named : Option PageId} {policies : Policies}
    {frames : FrameTable} (hv : pool.policies.victim pool.frames = (named, policies, frames)) :
    pool.Becomes { pool with policies, frames } noImages :=
  becomes_of_sameContents h (Policies.sameContents_of_victim hv) rfl (.of_eq rfl rfl)

theorem becomes_makeRoom (h : pool.Coherent) (hm : pool.makeRoom = (answer, after)) :
    pool.Becomes after noImages := by
  cases makeRoom_outcome hm with
  | room hr => exact .refl h
  | noVictim policies frames hr hv => exact becomes_victim h hv
  | unwritten victim policies frames e after hr hv hw =>
    have hasked := becomes_victim h hv
    exact hasked.trans_noImages (becomes_writeBack hasked.coherent hw)
  | discarded victim policies frames written answer after hr hv hw hd =>
    have hasked := becomes_victim h hv
    have hwritten := becomes_writeBack hasked.coherent hw
    have hlast := becomes_discard hwritten.coherent (not_dirty_of_writeBack hw) hd
    exact (hasked.trans_noImages hwritten).trans_noImages hlast

theorem find?_of_makeRoom (hf : pool.frames.find? id = none)
    (hm : pool.makeRoom = (answer, after)) : after.frames.find? id = none := by
  cases makeRoom_outcome hm with
  | room hr => exact hf
  | noVictim policies frames hr hv =>
    exact (Policies.sameContents_of_victim hv).find?_eq_none.mpr hf
  | unwritten victim policies frames e after hr hv hw =>
    rw [find?_eq_none_of_writeBack hw]
    exact (Policies.sameContents_of_victim hv).find?_eq_none.mpr hf
  | discarded victim policies frames written answer after hr hv hw hd =>
    have hasked := (Policies.sameContents_of_victim hv).find?_eq_none.mpr hf
    rw [frames_of_discard hd, FrameTable.find?_erase,
      (find?_eq_none_of_writeBack hw).mpr hasked]
    exact ite_self none

/-- Room cannot be made for want of a victim, or because the victim stays. -/
theorem not_deniesPage_of_makeRoom (hm : pool.makeRoom = (.error e, after)) : ¬e.DeniesPage := by
  cases makeRoom_outcome hm with
  | noVictim policies frames hr hv => exact not_false
  | unwritten victim policies frames e after hr hv hw =>
    obtain ⟨fault, rfl⟩ := writeBack_error hw
    exact not_false
  | discarded victim policies frames written answer after hr hv hw hd =>
    obtain ⟨fault, rfl⟩ := discard_error hd
    exact not_false

end

end Pool

end PagedStorage
