import PagedStorage.Proofs.Pool.Regular

namespace PagedStorage

namespace Store

/-- What becomes of a page whose frame is given up: it is written if it was changed. -/
def save (store : Store) (frame : Frame) : Except StorageError Unit × Store :=
  if frame.IsDirty then store.write frame.page else (.ok (), store)

variable {store after : Store} {id : PageId} {frame other : Frame} {e : StorageError}

theorem save_congr (hp : frame.page = other.page) (hs : frame.state = other.state) :
    store.save frame = store.save other := by
  obtain ⟨id, page, state, usage⟩ := frame
  cases hp
  cases hs
  rfl

theorem not_isCapacity_of_read_error (h : store.read id = (.error e, after)) :
    e.isCapacity = false := by
  have hanswer := congrArg Prod.fst h
  simp only [read, Volume.readPage, DataFile.read, Page.ofImage] at hanswer
  repeat' split at hanswer
  all_goals cases hanswer <;> rfl

theorem not_isCapacity_of_save_error (h : store.save frame = (.error e, after)) :
    e.isCapacity = false := by
  rw [save] at h
  split at h
  · obtain ⟨fault, rfl⟩ := write_error h
    rfl
  · cases h

end Store

namespace Pool

/-- Makes room for one more frame and puts it there. -/
def takeIn (pool : Pool) (frame : Frame) : Except StorageError Unit × Pool :=
  match pool.makeRoom with
  | (.error e, pool) => (.error e, pool)
  | (.ok (), pool) => (.ok (), pool.enlist frame)

structure TakesIn (pool : Pool) (frame : Frame) (answer : Except StorageError Unit) (after : Pool) :
    Prop where
  /-- There is a frame left. -/
  room : pool.frames.size < pool.capacity →
    answer = .ok () ∧ after.frames = pool.frames.put frame ∧ after.store = pool.store ∧
      after.stats.evictions = pool.stats.evictions
  /-- Every page is held by someone. -/
  crowded : pool.frames.size = pool.capacity →
    (∀ held ∈ pool.frames.frames, held.IsPinned) →
    answer = .error (.noFreeFrames pool.capacity) ∧ pool.frames.SameContents after.frames ∧
      after.store = pool.store ∧ after.stats.evictions = pool.stats.evictions
  /-- The policies name a page that nobody holds. It goes, unless it was changed and the store does
  not take it. -/
  evicts : pool.frames.size = pool.capacity →
    (∃ free ∈ pool.frames.frames, ¬free.IsPinned) →
    ∃ victim ∈ pool.frames.frames, ¬victim.IsPinned ∧
      (pool.policies.victim pool.frames).1 = some victim.id ∧
      pool.store.save victim = (answer, after.store) ∧
      (answer = .ok () →
        ((pool.frames.erase victim.id).put frame).SameContents after.frames ∧
          after.frames.find? frame.id = some frame ∧
          after.stats.evictions = pool.stats.evictions + 1) ∧
      (∀ e, answer = .error e →
        pool.frames.SameContents after.frames ∧ after.stats.evictions = pool.stats.evictions)

section

variable {settings : PoolSettings} {pool after : Pool} {id : PageId} {frame : Frame}
  {page : Page} {store : Store} {answer : Except StorageError Unit} {e : StorageError}

theorem getPage_of_read_error (hv : id.IsValid) (hf : pool.frames.find? id = none)
    (hr : pool.store.read id = (.error e, store)) :
    pool.getPage id =
      (.error e,
        { pool with store, stats := { pool.stats with misses := pool.stats.misses + 1 } }) :=
  (GetOutcome.unread e store hv hf hr).eq

theorem getPage_of_read_ok (hv : id.IsValid) (hf : pool.frames.find? id = none)
    (hr : pool.store.read id = (.ok page, store)) :
    pool.getPage id =
      (((pool.loadedFrom store).takeIn (.clean page id)).1.map fun _ => .clean page id,
        ((pool.loadedFrom store).takeIn (.clean page id)).2) := by
  rw [takeIn]
  rcases hm : (pool.loadedFrom store).makeRoom with ⟨_ | _, room⟩
  · exact (GetOutcome.crowded page store _ room hv hf hr hm).eq
  · exact (GetOutcome.loaded page store room hv hf hr hm).eq

theorem updatePage_of_find?_none (hv : id.IsValid) (hp : page.id = id)
    (hf : pool.frames.find? id = none) :
    pool.updatePage id page = pool.takeIn (.fresh page id) := by
  rw [takeIn]
  rcases hm : pool.makeRoom with ⟨_ | _, room⟩
  · exact (UpdateOutcome.crowded _ room hv hp hf hm).eq
  · exact (UpdateOutcome.created room hv hp hf hm).eq

/-- A page is written back if it was changed, and is as easily dropped afterwards as before. -/
theorem save_of_writeBack (hf : pool.frames.find? id = some frame)
    (hw : pool.writeBack id = (answer, after)) :
    pool.store.save frame = (answer, after.store) ∧
      after.frames.erase id = pool.frames.erase id ∧
      after.stats.evictions = pool.stats.evictions ∧
      ∀ e, answer = .error e → after.frames = pool.frames := by
  cases writeBack_outcome hw with
  | unneeded hn =>
    have hclean := (FrameTable.dirty_of_find? hf).not.mp hn
    exact ⟨if_neg hclean, rfl, rfl, nofun⟩
  | failed other e store hother hd hwrite =>
    cases hf.symm.trans hother
    exact ⟨(if_pos hd).trans hwrite, rfl, rfl, fun _ _ => rfl⟩
  | written other store hother hd hwrite =>
    cases hf.symm.trans hother
    have hid : frame.id = id := FrameTable.id_of_find? hf
    exact ⟨(if_pos hd).trans hwrite, FrameTable.erase_put hid, rfl, nofun⟩

/-- The frame that the policies name was in the table before they were asked, with the same page and
marks, and it is that frame's page that is saved. -/
theorem save_of_victim {name : PageId} {policies : Policies} {frames : FrameTable} {written : Pool}
    (hv : pool.policies.victim pool.frames = (some name, policies, frames))
    (hw : writeBack { pool with policies, frames } name = (answer, written)) :
    ∃ victim ∈ pool.frames.frames, ¬victim.IsPinned ∧ victim.id = name ∧
      pool.store.save victim = (answer, written.store) ∧
      (pool.frames.erase name).SameContents (written.frames.erase name) ∧
      written.stats.evictions = pool.stats.evictions ∧
      ∀ e, answer = .error e → pool.frames.SameContents written.frames := by
  obtain ⟨victim, hf, hp⟩ := Policies.evictable_of_victim hv
  obtain ⟨hmem, hid⟩ := FrameTable.find?_eq_some_iff_mem.mp hf
  have hsame := Policies.sameContents_of_victim hv
  obtain ⟨aged, haged, hpage, hstate⟩ := hsame.symm.exists_find? hf
  obtain ⟨hsave, herase, hcount, hkept⟩ := save_of_writeBack haged hw
  refine ⟨victim, hmem, hp, hid, (Store.save_congr hpage hstate).trans hsave, ?_, hcount, ?_⟩
  · rw [herase]
    exact hsame.erase name
  · intro e he
    rw [hkept e he]
    exact hsame

theorem evictions_discard (h : pool.discard id = (.ok (), after)) :
    after.stats.evictions = pool.stats.evictions + 1 := by
  unfold discard at h
  split at h <;> cases h
  rfl

theorem makeRoom_of_lt (h : pool.frames.size < pool.capacity) : pool.makeRoom = (.ok (), pool) :=
  if_pos h

/-- In a full pool whose pages are all held the policies name nobody. -/
theorem makeRoom_of_pinned (hfull : pool.frames.size = pool.capacity)
    (hpinned : ∀ held ∈ pool.frames.frames, held.IsPinned)
    (hm : pool.makeRoom = (answer, after)) :
    answer = .error (.noFreeFrames pool.capacity) ∧ pool.frames.SameContents after.frames ∧
      after.store = pool.store ∧ after.stats.evictions = pool.stats.evictions := by
  have hnone : ∀ {victim policies frames},
      pool.policies.victim pool.frames ≠ (some victim, policies, frames) := by
    intro victim policies frames hv
    obtain ⟨frame, hf, hfree⟩ := Policies.evictable_of_victim hv
    exact hfree (hpinned frame (FrameTable.find?_eq_some_iff_mem.mp hf).1)
  cases makeRoom_outcome hm with
  | room hr => exact absurd hr hfull.not_lt
  | noVictim policies frames hr hv =>
    have hsame := Policies.sameContents_of_victim hv
    rw [hsame.size, hfull]
    exact ⟨rfl, hsame, rfl, rfl⟩
  | unwritten victim policies frames e after hr hv hw => exact absurd hv hnone
  | discarded victim policies frames written answer after hr hv hw hd => exact absurd hv hnone

namespace Regular

/-- In a full pool with a page that nobody holds the policies name such a page, and it goes if the
store takes it. -/
theorem makeRoom_of_free (h : pool.Regular settings) (hfull : pool.frames.size = pool.capacity)
    (hfree : ∃ free ∈ pool.frames.frames, ¬free.IsPinned)
    (hm : pool.makeRoom = (answer, after)) :
    ∃ victim ∈ pool.frames.frames, ¬victim.IsPinned ∧
      (pool.policies.victim pool.frames).1 = some victim.id ∧
      pool.store.save victim = (answer, after.store) ∧
      (answer = .ok () → (pool.frames.erase victim.id).SameContents after.frames ∧
        after.stats.evictions = pool.stats.evictions + 1) ∧
      (∀ e, answer = .error e →
        pool.frames.SameContents after.frames ∧ after.stats.evictions = pool.stats.evictions) := by
  cases makeRoom_outcome hm with
  | room hr => exact absurd hr hfull.not_lt
  | noVictim policies frames hr hv =>
    obtain ⟨free, hmem, hp⟩ := hfree
    have hf := FrameTable.find?_eq_some_iff_mem.mpr ⟨hmem, rfl⟩
    exact absurd ⟨free, hf, hp⟩ (h.tracked.not_evictable_of_victim_eq_none hv free.id)
  | unwritten name policies frames e after hr hv hw =>
    obtain ⟨victim, hmem, hp, rfl, hsave, -, hcount, hkept⟩ := save_of_victim hv hw
    exact ⟨victim, hmem, hp, congrArg Prod.fst hv, hsave, nofun,
      fun e he => ⟨hkept e he, hcount⟩⟩
  | discarded name policies frames written answer after hr hv hw hd =>
    obtain ⟨_, rest, -, hrest, -⟩ := h.discard_victim hv hw
    cases hd.symm.trans hrest
    obtain ⟨victim, hmem, hp, rfl, hsave, herase, hcount, -⟩ := save_of_victim hv hw
    refine ⟨victim, hmem, hp, congrArg Prod.fst hv, ?_, fun _ => ⟨?_, ?_⟩, nofun⟩
    · rw [store_of_discard hd]
      exact hsave
    · rw [frames_of_discard hd]
      exact herase
    · rw [evictions_discard hd, hcount]

theorem takesIn_takeIn (h : pool.Regular settings) (ha : pool.takeIn frame = (answer, after)) :
    pool.TakesIn frame answer after := by
  rw [takeIn] at ha
  constructor
  · intro hlt
    rw [makeRoom_of_lt hlt] at ha
    cases ha
    exact ⟨rfl, rfl, rfl, rfl⟩
  · intro hfull hpinned
    rcases hm : pool.makeRoom with ⟨made, room⟩
    obtain ⟨rfl, hkept⟩ := makeRoom_of_pinned hfull hpinned hm
    rw [hm] at ha
    cases ha
    exact ⟨rfl, hkept⟩
  · intro hfull hfree
    rcases hm : pool.makeRoom with ⟨made, room⟩
    obtain ⟨victim, hmem, hp, hnamed, hsave, hgone, hkept⟩ := h.makeRoom_of_free hfull hfree hm
    rw [hm] at ha
    refine ⟨victim, hmem, hp, hnamed, ?_⟩
    cases made with
    | error e =>
      cases ha
      exact ⟨hsave, nofun, hkept⟩
    | ok =>
      cases ha
      obtain ⟨hframes, hcount⟩ := hgone rfl
      refine ⟨hsave, fun _ => ⟨hframes.put frame, ?_, hcount⟩, nofun⟩
      exact (FrameTable.find?_put room.frames frame frame.id).trans (if_pos rfl)

end Regular

/-- Frames are wanting only where all are taken and held: a write that fails tells so otherwise. -/
theorem TakesIn.of_noFreeFrames {count : Nat}
    (h : pool.TakesIn frame (.error (.noFreeFrames count)) after)
    (hle : pool.frames.size ≤ pool.capacity) :
    count = pool.capacity ∧ pool.frames.size = pool.capacity ∧
      ∀ held ∈ pool.frames.frames, held.IsPinned := by
  rcases Nat.lt_or_eq_of_le hle with hlt | hfull
  · cases (h.room hlt).1
  · have hpinned : ∀ held ∈ pool.frames.frames, held.IsPinned := by
      intro free hmem
      by_contra hfree
      obtain ⟨victim, -, -, -, hsave, -⟩ := h.evicts hfull ⟨free, hmem, hfree⟩
      cases Store.not_isCapacity_of_save_error hsave
    obtain ⟨hanswer, -⟩ := h.crowded hfull hpinned
    cases hanswer
    exact ⟨rfl, hfull, hpinned⟩

/-- How a call ends that is for a page which is not cached, in any pool that a run can reach. A page
that is asked for is read first, and if that fails nothing is evicted. A page that was read, or that
is given an image, is taken in: with a frame left nothing else happens; with all pages held there is
no frame; and otherwise one page that nobody holds goes, written once if it was changed, and stays
only if that write fails. So a call fails for want of frames only if all are taken and held. -/
theorem miss_run (hn : ∀ policy ∈ settings.policies, policy.IsNew)
    (h : create settings store = .ok pool) (steps : List Step) (fails : Access → PageId → Bool)
    {now : Pool} (hnow : now = (pool.run steps).failing fails) (hv : id.IsValid)
    (hf : now.frames.find? id = none) :
    (∀ e left, now.store.read id = (.error e, left) →
      ∃ after, now.getPage id = (.error e, after) ∧ after.frames = now.frames ∧
        after.policies = now.policies ∧ after.store = left ∧
        after.stats.evictions = now.stats.evictions) ∧
    (∀ page left, now.store.read id = (.ok page, left) →
      ∃ answer after, now.getPage id = (answer.map fun _ => .clean page id, after) ∧
        (now.loadedFrom left).TakesIn (.clean page id) answer after) ∧
    (∀ page, page.id = id →
      ∃ answer after, now.updatePage id page = (answer, after) ∧
        now.TakesIn (.fresh page id) answer after) ∧
    ∀ count, ((now.getPage id).1 = .error (.noFreeFrames count) ∨
        ∃ page, (now.updatePage id page).1 = .error (.noFreeFrames count)) →
      count = settings.capacity ∧ now.frames.size = settings.capacity ∧
        ∀ held ∈ now.frames.frames, held.IsPinned := by
  have hr : now.Regular settings := hnow ▸ ((regular_of_create hn h).run steps).failing fails
  have hget : ∀ page left, now.store.read id = (.ok page, left) →
      ∃ answer after, now.getPage id = (answer.map fun _ => .clean page id, after) ∧
        (now.loadedFrom left).TakesIn (.clean page id) answer after := by
    intro page left hread
    have hloaded : (now.loadedFrom left).Regular settings := hr.of_eq rfl rfl rfl
    exact ⟨_, _, getPage_of_read_ok hv hf hread, hloaded.takesIn_takeIn rfl⟩
  have hupdate : ∀ page, page.id = id →
      ∃ answer after, now.updatePage id page = (answer, after) ∧
        now.TakesIn (.fresh page id) answer after := by
    intro page hp
    exact ⟨_, _, updatePage_of_find?_none hv hp hf, hr.takesIn_takeIn rfl⟩
  refine ⟨?_, hget, hupdate, ?_⟩
  · intro e left hread
    exact ⟨_, getPage_of_read_error hv hf hread, rfl, rfl, rfl, rfl⟩
  · have hle : now.frames.size ≤ now.capacity := hr.capacity ▸ hr.size_le
    rw [← hr.capacity]
    rintro count (hwant | ⟨page, hwant⟩)
    · rcases hread : now.store.read id with ⟨e | page, left⟩
      · rw [getPage_of_read_error hv hf hread] at hwant
        cases hwant
        cases Store.not_isCapacity_of_read_error hread
      · obtain ⟨answer, after, hanswer, htaken⟩ := hget page left hread
        rw [hanswer] at hwant
        cases answer with
        | ok => cases hwant
        | error e =>
          cases hwant
          exact htaken.of_noFreeFrames hle
    · by_cases hp : page.id = id
      · obtain ⟨answer, after, hanswer, htaken⟩ := hupdate page hp
        rw [hanswer] at hwant
        cases hwant
        exact htaken.of_noFreeFrames hle
      · rw [(UpdateOutcome.misdirected hv hp).eq] at hwant
        cases hwant

/-- A changed page that nobody holds is written and makes way for another. -/
theorem miss_run_written :
    ∃ pool after, create { capacity := 1 } (.vacant ["data"]) = .ok pool ∧
      ((pool.run [{ operation := .update (.ofIndex 0) (.empty (.ofIndex 0)) }]).failing
        fun _ _ => false).updatePage (.ofIndex 1) (.empty (.ofIndex 1)) = (.ok (), after) ∧
      after.frames.find? (.ofIndex 0) = none ∧ after.stats.evictions = 1 ∧
      after.store.calls = [⟨.write, .ofIndex 0, true⟩] := by
  have hn : ∀ policy ∈ ({ capacity := 1 } : PoolSettings).policies, policy.IsNew := by
    simp [Policy.IsNew]
  have hc : create { capacity := 1 } (.vacant ["data"]) = .ok _ := rfl
  have hmiss := miss_run hn hc [{ operation := .update (.ofIndex 0) (.empty (.ofIndex 0)) }]
    (fun _ _ => false) rfl (by decide : (PageId.ofIndex 1).IsValid) rfl
  obtain ⟨-, -, hupdate, -⟩ := hmiss
  obtain ⟨answer, after, hafter, htaken⟩ := hupdate (.empty (.ofIndex 1)) rfl
  obtain ⟨victim, hmem, -, -, hsave, hgone, -⟩ := htaken.evicts rfl
    ⟨.fresh (.empty (.ofIndex 0)), List.mem_singleton_self _, Frame.not_isPinned_fresh _ _⟩
  cases List.mem_singleton.mp hmem
  have hwritten := (Prod.mk.inj hsave).1
  have hstore := (Prod.mk.inj hsave).2
  cases hwritten
  obtain ⟨hframes, -, hcount⟩ := hgone rfl
  refine ⟨_, after, hc, hafter, hframes.find?_eq_none.mpr rfl, hcount, ?_⟩
  rw [← hstore]
  rfl

end

end Pool

end PagedStorage
