import PagedStorage.Proofs.Pool.Retains
import PagedStorage.Proofs.Pool.Retry

namespace PagedStorage

theorem Store.save_error {store after : Store} {frame : Frame} {e : StorageError}
    (h : store.save frame = (.error e, after)) :
    (∃ fault, e = .io fault) ∧ store.failures < after.failures := by
  rw [save] at h
  split at h
  · have hcount := failures_write h
    exact ⟨write_error h, hcount ▸ Nat.lt_succ_self _⟩
  · cases h

namespace Pool

inductive Impeded (pool : Pool) : StorageError → Pool → Prop
  /-- The store fails a call. -/
  | store (fault : IoFault) (after : Pool) (h : pool.store.failures < after.store.failures) :
      Impeded pool (.io fault) after
  /-- As many pages are pinned as there are frames. -/
  | crowded (count : Nat) (after : Pool) (h : ¬pool.Spare) :
      Impeded pool (.noFreeFrames count) after

section

variable {settings : PoolSettings} {pool read after : Pool} {id : PageId} {page : Page}
  {frame : Frame} {e : StorageError}

/-- A call is impeded as much by what is left when a call before it has been served. -/
theorem Impeded.of_later (h : read.Impeded e after)
    (hs : read.store.failures = pool.store.failures) (hp : pool.Spare → read.Spare) :
    pool.Impeded e after := by
  cases h with
  | store fault after hlt => exact .store fault after (hs ▸ hlt)
  | crowded count after hn => exact .crowded count after (mt hp hn)

/-- A frame to give away and a store that fails no call are all that is needed. -/
theorem Impeded.failures_lt (h : pool.Impeded e after) (hp : pool.Spare) :
    pool.store.failures < after.store.failures := by
  cases h with
  | store fault after hlt => exact hlt
  | crowded count after hn => exact absurd hp hn

theorem impeded_of_takeIn (h : pool.Regular settings)
    (ht : pool.takeIn frame = (.error e, after)) : pool.Impeded e after := by
  have htaken := h.takesIn_takeIn ht
  rcases Nat.lt_or_eq_of_le (h.capacity ▸ h.size_le) with hlt | hfull
  · cases (htaken.room hlt).1
  · by_cases hfree : ∃ free ∈ pool.frames.frames, ¬free.IsPinned
    · obtain ⟨victim, -, -, -, hsave, -⟩ := htaken.evicts hfull hfree
      obtain ⟨⟨fault, rfl⟩, hlt⟩ := Store.save_error hsave
      exact .store fault after hlt
    · have hpinned : ∀ held ∈ pool.frames.frames, held.IsPinned := by
        intro held hmem
        by_contra hp
        exact hfree ⟨held, hmem, hp⟩
      cases (htaken.crowded hfull hpinned).1
      refine .crowded _ after fun hspare => ?_
      obtain ⟨id, held, hf, hp⟩ := hspare.exists_evictable hfull.ge
      exact hp (hpinned held (FrameTable.find?_eq_some_iff_mem.mp hf).1)

/-- A page that the pool has can be denied for the way to it alone. -/
theorem impeded_of_getPage (h : pool.Regular settings) (hf : pool.Faithful)
    (hp : pool.page? id = some page) (hg : pool.getPage id = (.error e, after)) :
    pool.Impeded e after := by
  cases getPage_outcome hg with
  | unaddressable hv => exact absurd (hf.isValid_of_page? hp) hv
  | unread e store hv hfind hr =>
    have hcount := Store.failures_read hr
    rw [page?_of_find?_none hfind] at hp
    rcases Store.page?_of_read_error hr with ⟨-, rfl⟩ | hnone
    · exact .store _ _ (hcount ▸ Nat.lt_succ_self _)
    · rw [hnone] at hp
      cases hp
  | crowded found store e after hv hfind hr hm =>
    have hloaded : (pool.loadedFrom store).Regular settings := h.of_eq rfl rfl rfl
    have htake : (pool.loadedFrom store).takeIn (.clean found id) = (.error e, after) := by
      rw [takeIn, hm]
    exact (impeded_of_takeIn hloaded htake).of_later (Store.failures_read hr) fun hspare => hspare

theorem impeded_of_updatePage (h : pool.Regular settings) (hv : id.IsValid) (hp : page.id = id)
    (hu : pool.updatePage id page = (.error e, after)) : pool.Impeded e after := by
  cases updatePage_outcome hu with
  | unaddressable hn => exact absurd hv hn
  | misdirected hv hn => exact absurd hp hn
  | crowded e after hv hp hf hm =>
    rw [updatePage_of_find?_none hv hp hf] at hu
    exact impeded_of_takeIn h hu

theorem failures_getPage (hg : pool.getPage id = (.ok frame, after)) :
    after.store.failures = pool.store.failures := by
  cases getPage_outcome hg with
  | hit former hv hf => rfl
  | loaded page store room hv hf hr hm =>
    have hread : store.failures = pool.store.failures := Store.failures_read hr
    cases makeRoom_outcome hm with
    | room hlt => exact hread
    | discarded victim policies frames written answer room hfull hvictim hw hd =>
      have hwritten : written.store.failures = store.failures := failures_writeBack hw
      have hstore : room.store = written.store := store_of_discard hd
      exact (congrArg Store.failures hstore).trans (hwritten.trans hread)

end

end Pool

end PagedStorage
