import PagedStorage.Pool.Maintenance
import PagedStorage.Proofs.Disk.Reliable
import PagedStorage.Proofs.Pool.Newest
import PagedStorage.Proofs.Pool.Pins
import PagedStorage.Proofs.Pool.Regular

namespace PagedStorage

namespace Pool

/-- Fewer pages are pinned than the pool has frames. -/
def Spare (pool : Pool) : Prop :=
  ∀ ids : List PageId, ids.Nodup → (∀ id ∈ ids, pool.frames.Pinned id) → ids.length < pool.capacity

/-- The pool has its shape, a store that works, and a frame to give away. -/
structure Ready (settings : PoolSettings) (pool : Pool) : Prop where
  regular : pool.Regular settings
  reliable : pool.store.Reliable
  spare : pool.Spare

section

variable {settings : PoolSettings} {pool after : Pool} {id : PageId} {page : Page} {frame : Frame}
  {answer : Except StorageError Unit}

/-- With room left, or with a page that nobody holds, there is a frame to give away. -/
theorem spare_of_free (hsize : pool.frames.size ≤ pool.capacity)
    (hfree : pool.frames.size < pool.capacity ∨ ∃ id, pool.frames.Evictable id) : pool.Spare := by
  intro ids hn hpinned
  have hcached : ∀ id ∈ ids, id ∈ pool.frames.ids := by
    intro id hmem
    obtain ⟨frame, hf, -⟩ := hpinned id hmem
    obtain ⟨hframe, rfl⟩ := FrameTable.find?_eq_some_iff_mem.mp hf
    exact List.mem_map_of_mem hframe
  have hlength : pool.frames.ids.length = pool.frames.size := List.length_map _
  rcases hfree with hlt | ⟨id, he⟩
  · have hle := (List.subperm_of_subset hn hcached).length_le
    omega
  · have hfree : id ∉ ids := fun hmem => FrameTable.not_pinned_of_evictable he (hpinned id hmem)
    obtain ⟨frame, hf, -⟩ := he
    obtain ⟨hframe, rfl⟩ := FrameTable.find?_eq_some_iff_mem.mp hf
    -- The page that nobody holds is cached besides those that are pinned.
    have hall : ∀ other ∈ frame.id :: ids, other ∈ pool.frames.ids :=
      List.forall_mem_cons.mpr ⟨List.mem_map_of_mem hframe, hcached⟩
    have hle := (List.subperm_of_subset (List.nodup_cons.mpr ⟨hfree, hn⟩) hall).length_le
    rw [List.length_cons] at hle
    omega

theorem Spare.of_pinned (h : pool.Spare) (hc : after.capacity = pool.capacity)
    (hp : ∀ id, after.frames.Pinned id → pool.frames.Pinned id) : after.Spare := by
  intro ids hn hids
  rw [hc]
  exact h ids hn fun id hmem => hp id (hids id hmem)

/-- A pool with a frame to give away has a page that may be evicted, once it is full. -/
theorem Spare.exists_evictable (h : pool.Spare) (hfull : pool.capacity ≤ pool.frames.size) :
    ∃ id, pool.frames.Evictable id := by
  by_contra hnone
  have hpinned : ∀ id ∈ pool.frames.ids, pool.frames.Pinned id := by
    intro id hmem
    obtain ⟨frame, hframe, rfl⟩ := List.mem_map.mp hmem
    have hf := FrameTable.find?_eq_some_iff_mem.mpr ⟨hframe, rfl⟩
    by_contra hp
    rw [FrameTable.pinned_of_find? hf] at hp
    exact hnone ⟨frame.id, frame, hf, hp⟩
  have hlt := h _ pool.frames.nodup_ids hpinned
  rw [FrameTable.ids, List.length_map] at hlt
  exact Nat.not_lt_of_le hfull hlt

theorem pinned_writeBack (hw : pool.writeBack id = (answer, after)) {other : PageId} :
    after.frames.Pinned other ↔ pool.frames.Pinned other := by
  simp only [FrameTable.pinned_iff_exists_holds, holds_writeBack hw]

theorem pinned_makeRoom (hm : pool.makeRoom = (answer, after)) {other : PageId} :
    after.frames.Pinned other ↔ pool.frames.Pinned other := by
  simp only [FrameTable.pinned_iff_exists_holds, holds_makeRoom hm]

theorem pinned_of_updatePage (hu : pool.updatePage id page = (answer, after)) {other : PageId}
    (hp : after.frames.Pinned other) : pool.frames.Pinned other := by
  cases updatePage_outcome hu with
  | unaddressable hv => exact hp
  | misdirected hv hpage => exact hp
  | replaced frame hv hpage hf =>
    have hput : (pool.frames.put (frame.updated page)).Pinned other := hp
    rw [FrameTable.Pinned, FrameTable.has_put, Frame.id_updated] at hput
    split at hput
    · rename_i hid
      rw [← hid, FrameTable.pinned_of_find? (FrameTable.id_of_find? hf ▸ hf)]
      exact hput
    · exact hput
  | crowded e after hv hpage hf hm => exact (pinned_makeRoom hm).mp hp
  | created room hv hpage hf hm =>
    have hput : (room.frames.put (Frame.fresh page id)).Pinned other := hp
    rw [FrameTable.Pinned, FrameTable.has_put] at hput
    split at hput
    · exact absurd hput (Frame.not_isPinned_fresh page id)
    · exact (pinned_makeRoom hm).mp hput

namespace Ready

theorem of_store (h : pool.Ready settings) {store : Store} (hs : store.Reliable)
    (stats : Statistics) : Ready settings { pool with store, stats } :=
  ⟨h.regular.of_eq rfl rfl rfl, hs, h.spare⟩

theorem victim (h : pool.Ready settings) {named : Option PageId} {policies : Policies}
    {frames : FrameTable} (hv : pool.policies.victim pool.frames = (named, policies, frames)) :
    Ready settings { pool with policies, frames } where
  regular := h.regular.victim hv
  reliable := h.reliable
  spare := h.spare.of_pinned rfl fun id hp => by
    rw [FrameTable.pinned_iff_exists_holds] at hp ⊢
    exact hp.imp fun page => (Policies.sameContents_of_victim hv).holds.mp

theorem writeBack (h : pool.Ready settings) (hw : pool.writeBack id = (answer, after)) :
    answer = .ok () ∧ after.Ready settings := by
  have hr := h.regular.writeBack hw
  have hp : ∀ other, after.frames.Pinned other → pool.frames.Pinned other :=
    fun other => (pinned_writeBack hw).mp
  cases writeBack_outcome hw with
  | unneeded hn => exact ⟨rfl, h⟩
  | failed frame e store hf hd hwrite =>
    have hok := h.reliable.write frame.page
    rw [hwrite] at hok
    cases hok
  | written frame store hf hd hwrite =>
    exact ⟨rfl, hr, h.reliable.of_write hwrite, h.spare.of_pinned rfl hp⟩

theorem makeRoom (h : pool.Ready settings) (hm : pool.makeRoom = (answer, after)) :
    answer = .ok () ∧ after.Ready settings := by
  have hr := (h.regular.makeRoom hm).1
  have hp : ∀ other, after.frames.Pinned other → pool.frames.Pinned other :=
    fun other => (pinned_makeRoom hm).mp
  have hspare := h.spare.of_pinned (hr.capacity.trans h.regular.capacity.symm) hp
  cases makeRoom_outcome hm with
  | room hlt => exact ⟨rfl, h⟩
  | noVictim policies frames hfull hv =>
    exfalso
    obtain ⟨id, he⟩ := h.spare.exists_evictable hfull
    exact h.regular.tracked.not_evictable_of_victim_eq_none hv id he
  | unwritten victim policies frames e after hfull hv hw =>
    cases ((h.victim hv).writeBack hw).1
  | discarded victim policies frames written answer after hfull hv hw hd =>
    obtain ⟨-, hwritten⟩ := (h.victim hv).writeBack hw
    obtain ⟨frame, hf, -⟩ := Policies.evictable_of_victim hv
    obtain ⟨rest, hrest, -⟩ := hwritten.regular.discard (h.regular.owned victim frame hf).1
    have hstore := store_of_discard hd
    rw [hd] at hrest
    cases hrest
    exact ⟨rfl, hr, hstore ▸ hwritten.reliable, hspare⟩

/-- A request can be answered or denied for what is on disk, but not for want of room. -/
theorem getPage (h : pool.Ready settings) {answer : Except StorageError Frame}
    (hg : pool.getPage id = (answer, after)) : after.Ready settings := by
  have hr := h.regular.getPage hg
  have hspare := h.spare.of_pinned (hr.capacity.trans h.regular.capacity.symm)
    fun other => (pinned_getPage hg).mp
  refine ⟨hr, ?_, hspare⟩
  cases getPage_outcome hg with
  | unaddressable hv => exact h.reliable
  | hit frame hv hf => exact h.reliable
  | unread e store hv hf hread => exact h.reliable.of_read hread
  | crowded page store e after hv hf hread hm =>
    have hloaded := h.of_store (h.reliable.of_read hread) (pool.loadedFrom store).stats
    exact (hloaded.makeRoom hm).2.reliable
  | loaded page store room hv hf hread hm =>
    have hloaded := h.of_store (h.reliable.of_read hread) (pool.loadedFrom store).stats
    exact (hloaded.makeRoom hm).2.reliable

theorem id_of_getPage (h : pool.Ready settings) (hg : pool.getPage id = (.ok frame, after)) :
    frame.page.id = id := by
  cases getPage_outcome hg with
  | hit former hv hf => exact (h.regular.owned id former hf).2
  | loaded page store room hv hf hread hm =>
    exact Store.id_of_page? (Store.page?_of_read_ok hread)

theorem updatePage (h : pool.Ready settings) (hu : pool.updatePage id page = (answer, after)) :
    after.Ready settings := by
  have hr := h.regular.updatePage hu
  have hspare := h.spare.of_pinned (hr.capacity.trans h.regular.capacity.symm)
    fun other => pinned_of_updatePage hu
  refine ⟨hr, ?_, hspare⟩
  cases updatePage_outcome hu with
  | unaddressable hv => exact h.reliable
  | misdirected hv hp => exact h.reliable
  | replaced frame hv hp hf => exact h.reliable
  | crowded e after hv hp hf hm => exact (h.makeRoom hm).2.reliable
  | created room hv hp hf hm => exact (h.makeRoom hm).2.reliable

theorem flushPage (h : pool.Ready settings) (hf : pool.flushPage id = (answer, after)) :
    (id.IsValid → answer = .ok ()) ∧ after.Ready settings := by
  unfold Pool.flushPage at hf
  split at hf
  · obtain ⟨hok, hafter⟩ := h.writeBack hf
    exact ⟨fun _ => hok, hafter⟩
  · rename_i hv
    cases hf
    exact ⟨fun hvalid => absurd hvalid hv, h⟩

theorem flushPages (h : pool.Ready settings) {ids : List PageId} (hv : ∀ id ∈ ids, id.IsValid)
    (hf : pool.flushPages ids = (answer, after)) : answer = .ok () ∧ after.Ready settings := by
  induction ids generalizing pool with
  | nil =>
    cases hf
    exact ⟨rfl, h⟩
  | cons id ids ih =>
    obtain ⟨hfirst, hrest⟩ := List.forall_mem_cons.mp hv
    rw [Pool.flushPages] at hf
    split at hf
    · rename_i hflush
      cases (h.flushPage hflush).1 hfirst
    · rename_i hflush
      exact ih (h.flushPage hflush).2 hrest hf

theorem isValid_of_mem_dirtyPages (h : pool.Ready settings) {id : PageId}
    (hmem : id ∈ pool.dirtyPages) : id.IsValid := by
  obtain ⟨frame, hf, -⟩ := FrameTable.mem_dirtyIds.mp hmem
  exact (h.regular.owned id frame hf).1

theorem flushAll (h : pool.Ready settings) (hf : pool.flushAll = (answer, after)) :
    answer = .ok () ∧ after.Ready settings :=
  h.flushPages (fun _ => h.isValid_of_mem_dirtyPages) hf

end Ready

theorem ready_of_create {store : Store} (hn : ∀ policy ∈ settings.policies, policy.IsNew)
    (hs : store.Reliable) (h : create settings store = .ok pool) : pool.Ready settings := by
  obtain ⟨hframes, hstore⟩ := frames_of_create h
  refine ⟨regular_of_create hn h, hstore ▸ hs, ?_⟩
  intro ids _ hids
  cases ids with
  | nil => exact pool.capacity_pos
  | cons id ids =>
    -- No page is cached yet, let alone pinned.
    obtain ⟨frame, hf, -⟩ := hids id List.mem_cons_self
    rw [hframes] at hf
    cases hf

end

end Pool

end PagedStorage
