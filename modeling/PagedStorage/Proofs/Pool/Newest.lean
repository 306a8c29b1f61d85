import PagedStorage.Proofs.Pool.Contents

namespace PagedStorage

namespace Pool

section

variable {pool after : Pool} {id : PageId} {frame : Frame} {page : Page} {e : StorageError}

theorem becomes_getPage (h : pool.Coherent) {answer : Except StorageError Frame}
    (hg : pool.getPage id = (answer, after)) : pool.Becomes after noImages := by
  cases getPage_outcome hg with
  | unaddressable hv => exact .refl h
  | hit frame hv hf =>
    have hid := FrameTable.id_of_find? hf
    subst hid
    exact becomes_enlist_of_find? h frame.used hf rfl Iff.rfl rfl (.of_eq rfl rfl)
  | unread e store hv hf hr => exact .of_sameFile h rfl (Store.sameFile_read hr)
  | crowded page store e after hv hf hr hm =>
    have hread : pool.Becomes (pool.loadedFrom store) noImages :=
      .of_sameFile h rfl (Store.sameFile_read hr)
    exact hread.trans_noImages (becomes_makeRoom hread.coherent hm)
  | loaded page store room hv hf hr hm =>
    have hread : pool.Becomes (pool.loadedFrom store) noImages :=
      .of_sameFile h rfl (Store.sameFile_read hr)
    have hroom := hread.trans_noImages (becomes_makeRoom hread.coherent hm)
    have hmissing : (pool.loadedFrom store).frames.find? id = none := hf
    have hnone := find?_of_makeRoom hmissing hm
    have hpage := Store.page?_of_read_ok hr
    -- Making room may write pages, but what was read is on disk as before.
    have hstill : room.store.page? id = some page := by
      rw [← page?_of_find?_none hnone, hroom.page?, page?_of_find?_none hf, hpage]
      rfl
    have himage : (noImages id).or (room.page? id) = some page := by
      rw [noImages, Option.none_or, page?_of_find?_none hnone]
      exact hstill
    have hput : room.Becomes (room.enlist (Frame.clean page id)) noImages :=
      .put hroom.coherent (Frame.clean page id) hv (Store.id_of_page? hpage) rfl (.of_eq rfl rfl)
        (fun _ _ => rfl) himage (fun _ => hstill)
        fun hdirty => absurd hdirty (Frame.not_isDirty_clean page id)
    exact hroom.trans_noImages hput

theorem page?_of_getPage_ok (hg : pool.getPage id = (.ok frame, after)) :
    pool.page? id = some frame.page := by
  cases getPage_outcome hg with
  | hit former hv hf =>
    rw [page?_of_find? hf]
    rfl
  | loaded page store room hv hf hr hm =>
    rw [page?_of_find?_none hf]
    exact Store.page?_of_read_ok hr

/-- A page that has an image is not denied, whatever else goes wrong. -/
theorem not_deniesPage_of_getPage (hg : pool.getPage id = (.error e, after))
    (hp : pool.page? id = some page) : ¬e.DeniesPage := by
  cases getPage_outcome hg with
  | unaddressable hv => exact not_false
  | unread e store hv hf hr =>
    rw [page?_of_find?_none hf] at hp
    rcases Store.page?_of_read_error hr with ⟨-, rfl⟩ | hnone
    · exact not_false
    · rw [hnone] at hp
      cases hp
  | crowded page store e after hv hf hr hm => exact not_deniesPage_of_makeRoom hm

theorem becomes_updatePage (h : pool.Coherent) {answer : Except StorageError Unit}
    (hu : pool.updatePage id page = (answer, after)) :
    pool.Becomes after (updateImages answer id page) := by
  have hother : ∀ other, other ≠ id → updateImages (.ok ()) id page other = none :=
    fun other hne => if_neg (Ne.symm hne)
  have hself : updateImages (.ok ()) id page id = some page := if_pos rfl
  have himage : ∀ newest, (updateImages (.ok ()) id page id).or newest = some page := by
    intro newest
    rw [hself, Option.some_or]
  cases updatePage_outcome hu with
  | unaddressable hv => exact .refl h
  | misdirected hv hp => exact .refl h
  | replaced frame hv hp hf =>
    have hid := FrameTable.id_of_find? hf
    subst hid
    exact .put h (frame.updated page) hv hp rfl (.of_eq rfl rfl) hother (himage _)
      (fun hclean => absurd rfl hclean) fun _ => Or.inl (hself ▸ nofun)
  | crowded e after hv hp hf hm => exact becomes_makeRoom h hm
  | created room hv hp hf hm =>
    have hroom := becomes_makeRoom h hm
    have hput : room.Becomes (room.enlist (Frame.fresh page id)) (updateImages (.ok ()) id page) :=
      .put hroom.coherent (Frame.fresh page id) hv hp rfl (.of_eq rfl rfl) hother (himage _)
        (fun hclean => absurd rfl hclean) fun _ => Or.inl (hself ▸ nofun)
    exact hroom.noImages_trans hput

theorem page?_updatePage_of_ok (h : pool.Coherent)
    (hu : pool.updatePage id page = (.ok (), after)) :
    after.Coherent ∧
      ∀ other, after.page? other = if id = other then some page else pool.page? other := by
  have hb := becomes_updatePage h hu
  refine ⟨hb.coherent, fun other => ?_⟩
  rw [hb.page?]
  simp only [updateImages]
  split <;> rfl

theorem becomes_pin (h : pool.Coherent) (id : PageId) : pool.Becomes (pool.pin id).2 noImages := by
  unfold pin
  split
  · exact .refl h
  · rename_i frame hf
    have hid := FrameTable.id_of_find? hf
    subst hid
    exact becomes_enlist_of_find? h (frame.withPinned true) hf rfl Iff.rfl rfl (.of_eq rfl rfl)

theorem becomes_unpin (h : pool.Coherent) (id : PageId) :
    pool.Becomes (pool.unpin id).2 noImages := by
  unfold unpin
  split
  · exact .refl h
  · rename_i frame hf
    have hid := FrameTable.id_of_find? hf
    subst hid
    exact becomes_enlist_of_find? h (frame.withPinned false) hf rfl Iff.rfl rfl (.of_eq rfl rfl)

theorem becomes_flushPage (h : pool.Coherent) {answer : Except StorageError Unit}
    (hf : pool.flushPage id = (answer, after)) : pool.Becomes after noImages := by
  unfold flushPage at hf
  split at hf
  · exact becomes_writeBack h hf
  · cases hf
    exact .refl h

theorem becomes_flushPages (h : pool.Coherent) {ids : List PageId}
    {answer : Except StorageError Unit} (hf : pool.flushPages ids = (answer, after)) :
    pool.Becomes after noImages := by
  have hw : ∀ (mid : Pool) (id : PageId), pool.Becomes mid noImages →
      pool.Becomes (mid.writeBack id).2 noImages :=
    fun _ _ hmid => hmid.trans_noImages (becomes_writeBack hmid.coherent rfl)
  have hall := flushPages_keeps hw (.refl h) ids
  rwa [hf] at hall

theorem becomes_flushAll (h : pool.Coherent) {answer : Except StorageError Unit}
    (hf : pool.flushAll = (answer, after)) : pool.Becomes after noImages := becomes_flushPages h hf

theorem becomes_flushBatch (h : pool.Coherent) (limit : Nat) :
    pool.Becomes (pool.flushBatch limit).2 noImages := by
  rw [flushBatch]
  split <;> rename_i hf <;> exact becomes_flushPages h hf

theorem becomes_serve (h : pool.Coherent) (request : Request) :
    pool.Becomes (pool.serve request).2 noImages := by
  cases request with
  | get id => exact becomes_getPage h rfl
  | pin id => exact becomes_pin h id
  | unpin id => exact becomes_unpin h id
  | flush id => exact becomes_flushPage h rfl
  | flushAll => exact becomes_flushAll h rfl
  | flushBatch limit => exact becomes_flushBatch h limit

theorem becomes_step (h : pool.Coherent) (step : Step) :
    pool.Becomes (pool.step step) (pool.images step) := by
  obtain ⟨operation, fails⟩ := step
  have hf := becomes_failing h fails
  cases operation with
  | request request => exact hf.trans_noImages (becomes_serve hf.coherent request)
  | update id page => exact hf.noImages_trans (becomes_updatePage hf.coherent rfl)

/-- A run changes just the pages it updates, each to the image it was given last. -/
theorem becomes_run (h : pool.Coherent) (steps : List Step) :
    pool.Becomes (pool.run steps) (pool.lastImage? steps) := by
  induction steps generalizing pool with
  | nil => exact .refl h
  | cons step steps ih =>
    have hfirst := becomes_step h step
    exact hfirst.trans (ih hfirst.coherent)

end

section

variable {settings : PoolSettings} {store : Store} {pool : Pool}

theorem frames_of_create (h : create settings store = .ok pool) :
    pool.frames = FrameTable.empty ∧ pool.store = store := by
  unfold create at h
  split at h
  · split at h <;> cases h
    exact ⟨rfl, rfl⟩
  · cases h

theorem coherent_of_create (hw : store.Whole) (h : create settings store = .ok pool) :
    pool.Coherent := by
  obtain ⟨hf, hs⟩ := frames_of_create h
  refine ⟨hs ▸ hw, hf ▸ FrameTable.owned_empty, ?_⟩
  intro id frame hfind
  rw [hf] at hfind
  cases hfind

theorem page?_of_create (h : create settings store = .ok pool) (id : PageId) :
    pool.page? id = store.page? id := by
  obtain ⟨hf, hs⟩ := frames_of_create h
  rw [page?, hf, hs]
  rfl

/-- After a run the newest image of a page is the one that the run gave to it last, or else the one
that the data file had. -/
theorem page?_run (hw : store.Whole) (h : create settings store = .ok pool) (steps : List Step)
    (id : PageId) :
    (pool.run steps).page? id = (pool.lastImage? steps id).or (store.page? id) := by
  rw [(becomes_run (coherent_of_create hw h) steps).page? id, page?_of_create h]

/-- Pages are read as they were written. Whichever calls of the store fail, and when, a request that
is answered gives the image of the last update that succeeded, or else the page that was on disk
when the pool was made; and a page that there is for one of the two reasons is never said to be
missing or broken. -/
theorem getPage_run (hw : store.Whole) (h : create settings store = .ok pool) (steps : List Step)
    (fails : Access → PageId → Bool) (id : PageId) :
    (∀ frame after, ((pool.run steps).failing fails).getPage id = (.ok frame, after) →
      (pool.lastImage? steps id).or (store.page? id) = some frame.page) ∧
    (∀ e after, ((pool.run steps).failing fails).getPage id = (.error e, after) →
      (pool.lastImage? steps id).or (store.page? id) ≠ none → ¬e.DeniesPage) := by
  have hrun := (becomes_run (coherent_of_create hw h) steps).coherent
  have hpage : ((pool.run steps).failing fails).page? id =
      (pool.lastImage? steps id).or (store.page? id) := by
    rw [(becomes_failing hrun fails).page?, ← page?_run hw h]
    rfl
  rw [← hpage]
  constructor
  · intro frame after hget
    exact page?_of_getPage_ok hget
  · intro e after hget hne
    obtain ⟨page, hp⟩ := Option.ne_none_iff_exists'.mp hne
    exact not_deniesPage_of_getPage hget hp

/-- With room for one page the second update drops the first page, which is then on disk only. -/
theorem getPage_run_evicted :
    ∃ pool, create (.dual 1 (.lru .empty) (.clock .empty)) (.vacant ["data"]) = .ok pool ∧
      pool.lastImage? [{ operation := .update (.ofIndex 0) (.empty (.ofIndex 0)) },
        { operation := .update (.ofIndex 1) (.empty (.ofIndex 1)) }] (.ofIndex 1) =
          some (.empty (.ofIndex 1)) ∧
      ∃ e after,
        ((pool.run [{ operation := .update (.ofIndex 0) (.empty (.ofIndex 0)) },
          { operation := .update (.ofIndex 1) (.empty (.ofIndex 1)) }]).failing
            fun _ _ => true).getPage (.ofIndex 0) = (.error e, after) ∧ ¬e.DeniesPage := by
  refine ⟨_, rfl, ?_⟩
  have hw := Store.whole_vacant ["data"]
  have hc : create (.dual 1 (.lru .empty) (.clock .empty)) (.vacant ["data"]) = .ok _ := rfl
  have hget := getPage_run hw hc [{ operation := .update (.ofIndex 0) (.empty (.ofIndex 0)) },
    { operation := .update (.ofIndex 1) (.empty (.ofIndex 1)) }] fun _ _ => true
  constructor
  · exact (hget (.ofIndex 1)).1 _ _ rfl
  · exact ⟨_, _, rfl, (hget (.ofIndex 0)).2 _ _ rfl nofun⟩

end

end Pool

end PagedStorage
