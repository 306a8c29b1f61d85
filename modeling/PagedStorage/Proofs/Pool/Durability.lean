import PagedStorage.Proofs.Pool.Newest
import PagedStorage.Proofs.Pool.Pins
import PagedStorage.Proofs.Pool.Regular

namespace PagedStorage

namespace Pool

def Step.IsGet (step : Step) : Prop := ∃ id, step.operation = .request (.get id)

/-- No page is changed and none is pinned, so any page can be dropped at once. -/
structure AtRest (pool : Pool) : Prop where
  clean : ∀ id, ¬pool.frames.Dirty id
  free : ∀ id, ¬pool.frames.Pinned id

section

variable {settings : PoolSettings} {pool after : Pool} {id : PageId} {page : Page}
  {answer : Except StorageError Unit}

/-- A frame that is not marked as changed has the bytes that are on disk at its place. -/
theorem bytesAt_of_not_isDirty (h : pool.Coherent) {frame : Frame}
    (hf : pool.frames.find? id = some frame) (hd : ¬frame.IsDirty) :
    pool.store.bytesAt id.index = frame.page.image.toArray := by
  apply Store.bytesAt_eq_iff.mpr
  have hpage := h.clean id frame hf hd
  exact (Store.page?_eq_some_iff.mp hpage).2.2

theorem not_dirty_flushPages (h : pool.Coherent) {ids : List PageId}
    (hok : pool.flushPages ids = (.ok (), after)) : ∀ id ∈ ids, ¬after.frames.Dirty id := by
  induction ids generalizing pool with
  | nil => exact nofun
  | cons first rest ih =>
    rw [flushPages] at hok
    split at hok
    · cases hok
    · rename_i written hfirst
      have hb := becomes_flushPage h hfirst
      have hclean : ¬written.frames.Dirty first := by
        unfold flushPage at hfirst
        split at hfirst
        · exact not_dirty_of_writeBack hfirst
        · cases hfirst
      intro id hmem
      rcases List.mem_cons.mp hmem with rfl | hlater
      · -- No page is marked again in the rest of the pass.
        exact (becomes_flushPages hb.coherent hok).not_dirty hclean
      · exact ih hb.coherent hok id hlater

theorem not_dirty_flushAll (h : pool.Coherent) (hok : pool.flushAll = (.ok (), after))
    (id : PageId) : ¬after.frames.Dirty id := by
  by_cases hd : pool.frames.Dirty id
  · exact not_dirty_flushPages h hok id (FrameTable.mem_dirtyIds.mpr hd)
  · exact (becomes_flushAll h hok).not_dirty hd

theorem dirtyPages_eq_nil_iff : pool.dirtyPages = [] ↔ ∀ id, ¬pool.frames.Dirty id := by
  simp only [dirtyPages, List.eq_nil_iff_forall_not_mem, FrameTable.mem_dirtyIds]

theorem makeRoom_of_atRest (hr : pool.Regular settings) (hq : pool.AtRest)
    (hm : pool.makeRoom = (answer, after)) : answer = .ok () := by
  cases makeRoom_outcome hm with
  | room h => rfl
  | noVictim policies frames h hv =>
    -- The table is full, so it has a frame, and the policies know it.
    exfalso
    have hpos : 0 < pool.frames.frames.length := pool.capacity_pos.trans_le h
    obtain ⟨frame, hmem⟩ := List.exists_mem_of_length_pos hpos
    have hf := FrameTable.find?_eq_some_iff_mem.mpr ⟨hmem, rfl⟩
    apply hr.tracked.not_evictable_of_victim_eq_none hv frame.id
    rw [FrameTable.evictable_of_find? hf, ← FrameTable.pinned_of_find? hf]
    exact hq.free frame.id
  | unwritten victim policies frames e after h hv hw =>
    exfalso
    cases writeBack_outcome hw with
    | failed frame e store hf hd hwrite =>
      have hdirty := (FrameTable.dirty_of_find? hf).mpr hd
      exact hq.clean victim ((Policies.sameContents_of_victim hv).dirty.mp hdirty)
  | discarded victim policies frames written answer after h hv hw hd =>
    obtain ⟨frame, hf, -⟩ := Policies.evictable_of_victim hv
    obtain ⟨rest, hrest, -⟩ := ((hr.victim hv).writeBack hw).discard (hr.owned victim frame hf).1
    rw [hd] at hrest
    cases hrest
    rfl

/-- A pool at rest whose store works answers with the newest images, and with them alone. -/
theorem getPage_of_atRest (h : pool.Coherent) (hr : pool.Regular settings) (hq : pool.AtRest)
    (hw : ∀ id, pool.store.fails .read id = false) {answer : Except StorageError Frame}
    (hg : pool.getPage id = (answer, after)) : answer.toOption.map Frame.page = pool.page? id := by
  cases answer with
  | ok frame => exact (page?_of_getPage_ok hg).symm
  | error e =>
    symm
    apply Option.eq_none_iff_forall_ne_some.mpr
    intro page hp
    cases getPage_outcome hg with
    | unaddressable hv => exact hv (isValid_of_page? h hp).1
    | unread e store hv hf hread =>
      rw [page?_of_find?_none hf] at hp
      rcases Store.page?_of_read_error hread with ⟨hfails, -⟩ | hnone
      · rw [hw id] at hfails
        cases hfails
      · rw [hnone] at hp
        cases hp
    | crowded page store e after hv hf hread hm =>
      have hloaded : (pool.loadedFrom store).Regular settings := hr.of_eq rfl rfl rfl
      cases makeRoom_of_atRest hloaded ⟨hq.clean, hq.free⟩ hm

/-- Reading on a pool at rest leaves it at rest, whatever fails. -/
theorem atRest_getPage (h : pool.Coherent) (hq : pool.AtRest) {answer : Except StorageError Frame}
    (hg : pool.getPage id = (answer, after)) : after.AtRest where
  clean other := (becomes_getPage h hg).not_dirty (hq.clean other)
  free other hp := hq.free other ((pinned_getPage hg).mp hp)

theorem atRest_run (h : pool.Coherent) (hq : pool.AtRest) (steps : List Step)
    (hg : ∀ step ∈ steps, step.IsGet) : (pool.run steps).AtRest := by
  induction steps generalizing pool with
  | nil => exact hq
  | cons step steps ih =>
    obtain ⟨hstep, hsteps⟩ := List.forall_mem_cons.mp hg
    obtain ⟨operation, fails⟩ := step
    obtain ⟨id, rfl⟩ := hstep
    have hf := (becomes_failing h fails).coherent
    have hfirst : (pool.failing fails).AtRest := ⟨hq.clean, hq.free⟩
    exact ih (becomes_getPage hf rfl).coherent (atRest_getPage hf hfirst rfl) hsteps

theorem lastImage?_of_isGet (pool : Pool) (steps : List Step) (hg : ∀ step ∈ steps, step.IsGet)
    (id : PageId) : pool.lastImage? steps id = none := by
  induction steps generalizing pool with
  | nil => rfl
  | cons step steps ih =>
    obtain ⟨hstep, hsteps⟩ := List.forall_mem_cons.mp hg
    obtain ⟨operation, fails⟩ := step
    obtain ⟨asked, rfl⟩ := hstep
    rw [lastImage?, ih _ hsteps]
    rfl

variable {store : Store}

theorem atRest_of_create (hs : create settings store = .ok pool) : pool.AtRest := by
  have hf := (frames_of_create hs).1
  constructor <;> rintro id ⟨frame, hfind, -⟩ <;> rw [hf] at hfind <;> cases hfind

/-- A new pool whose store works answers with what is on disk, and with that alone, whatever was
read from it before. -/
theorem getPage_of_create (hw : store.Whole) (hn : ∀ policy ∈ settings.policies, policy.IsNew)
    (h : create settings store = .ok pool) (reads : List Step) (hg : ∀ step ∈ reads, step.IsGet)
    (id : PageId) :
    (((pool.run reads).failing fun _ _ => false).getPage id).1.toOption.map Frame.page =
      store.page? id := by
  have hc := coherent_of_create hw h
  have hrun := (becomes_run hc reads).coherent
  have hr := ((regular_of_create hn h).run reads).failing fun _ _ => false
  have hq := atRest_run hc (atRest_of_create h) reads hg
  have hb := becomes_failing hrun fun _ _ => false
  rcases hget : ((pool.run reads).failing fun _ _ => false).getPage id with ⟨answer, after⟩
  have hanswer := getPage_of_atRest hb.coherent hr ⟨hq.clean, hq.free⟩ (fun _ => rfl) hget
  rw [hanswer, hb.page?, noImages, Option.none_or, page?_run hw h,
    lastImage?_of_isGet pool reads hg, Option.none_or]

/-- What is not marked as changed is on disk, whatever fails. And a full flush that succeeds leaves
no page marked: the data file then has the image that each page was given last, the bytes of all
other pages are those it had in the beginning, and a new pool over it, of any size and with any of
the policies, answers with these images and no others. -/
theorem durable_run (hw : store.Whole) (h : create settings store = .ok pool) (steps : List Step) :
    (∀ id frame, (pool.run steps).frames.find? id = some frame → ¬frame.IsDirty →
      (pool.run steps).store.bytesAt id.index = frame.page.image.toArray) ∧
    ∀ fails after, ((pool.run steps).failing fails).flushAll = (.ok (), after) →
      after.dirtyPages = [] ∧
      (∀ id page, pool.lastImage? steps id = some page →
        after.store.bytesAt id.index = page.image.toArray) ∧
      (∀ index, (index + 1) * pageSize ≤ store.bytes.size →
        (∀ id, id.index = index → pool.lastImage? steps id = none) →
        after.store.bytesAt index = store.bytesAt index) ∧
      ∀ (next : PoolSettings) (fresh : Pool) (reads : List Step),
        (∀ policy ∈ next.policies, policy.IsNew) → create next after.store = .ok fresh →
        (∀ step ∈ reads, step.IsGet) → ∀ id,
        (((fresh.run reads).failing fun _ _ => false).getPage id).1.toOption.map Frame.page =
          (pool.lastImage? steps id).or (store.page? id) := by
  have hrun := becomes_run (coherent_of_create hw h) steps
  refine ⟨fun id frame hf hd => bytesAt_of_not_isDirty hrun.coherent hf hd, ?_⟩
  intro fails after hok
  have hfailing := becomes_failing hrun.coherent fails
  have hclean := not_dirty_flushAll hfailing.coherent hok
  have hb := (hrun.trans_noImages hfailing).trans_noImages (becomes_flushAll hfailing.coherent hok)
  -- No page is marked any more, so the newest images are those on disk.
  have hdisk : ∀ id, after.store.page? id = (pool.lastImage? steps id).or (store.page? id) := by
    intro id
    rw [page?_of_not_dirty hb.coherent (hclean id), hb.page?, page?_of_create h]
  refine ⟨dirtyPages_eq_nil_iff.mpr hclean, ?_, ?_, ?_⟩
  · intro id page hlast
    have hpage : after.store.page? id = some page := by
      rw [hdisk, hlast, Option.some_or]
    exact Store.bytesAt_eq_iff.mpr (Store.page?_eq_some_iff.mp hpage).2.2
  · intro index hsize hnone
    obtain ⟨image, himage⟩ := Store.exists_block?_iff.mpr hsize
    -- This need not be the image of a page, so it is the block that is followed here.
    have hsame : after.store.block? index = some image := by
      apply hb.block? index image
      · rwa [(frames_of_create h).2]
      · rintro id (hlast | hd) hindex
        · exact hlast (hnone id hindex)
        · exact (atRest_of_create h).clean id hd
    rw [Store.bytesAt_eq_iff.mpr hsame, Store.bytesAt_eq_iff.mpr himage]
  · intro next fresh reads hn hfresh hg id
    rw [getPage_of_create hb.coherent.whole hn hfresh reads hg, hdisk]

/-- A page that was changed in memory is on disk after the flush. -/
theorem durable_run_created :
    ∃ pool, create (.dual 1 (.clock .empty) (.lru .empty)) (.vacant ["data"]) = .ok pool ∧
      ∃ after, ((pool.run [{ operation := .update (.ofIndex 0) (.empty (.ofIndex 0)) }]).failing
          fun _ _ => false).flushAll = (.ok (), after) ∧
        after.store.bytesAt 0 = (Page.empty (.ofIndex 0)).image.toArray := by
  refine ⟨_, rfl, _, rfl, ?_⟩
  have hw := Store.whole_vacant ["data"]
  have hc : create (.dual 1 (.clock .empty) (.lru .empty)) (.vacant ["data"]) = .ok _ := rfl
  have hrun := durable_run hw hc [{ operation := .update (.ofIndex 0) (.empty (.ofIndex 0)) }]
  obtain ⟨-, hupdated, -, -⟩ := hrun.2 (fun _ _ => false) _ rfl
  exact hupdated (.ofIndex 0) (.empty (.ofIndex 0)) rfl

end

end Pool

end PagedStorage
