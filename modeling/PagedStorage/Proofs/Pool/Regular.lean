import PagedStorage.Proofs.Cache.Candidates
import PagedStorage.Proofs.Pool.Outcomes
import PagedStorage.Proofs.Pool.Run

namespace PagedStorage

namespace Pool

/-- The shape of a pool that was set up with `settings`. -/
structure Regular (settings : PoolSettings) (pool : Pool) : Prop where
  capacity : pool.capacity = settings.capacity
  names : pool.policyNames = settings.policies.map Policy.name
  size_le : pool.frames.size ≤ settings.capacity
  owned : pool.frames.Owned
  tracked : pool.policies.Track pool.frames

section

variable {settings : PoolSettings} {pool after : Pool} {id : PageId} {frame former : Frame}
  {page : Page} {answer : Except StorageError Unit}

namespace Regular

/-- Neither the store nor the counters matter. -/
theorem of_eq (h : pool.Regular settings) (hc : after.capacity = pool.capacity)
    (hf : after.frames = pool.frames) (hp : after.policies = pool.policies) :
    after.Regular settings where
  capacity := hc.trans h.capacity
  names := by
    rw [policyNames, hp]
    exact h.names
  size_le := hf ▸ h.size_le
  owned := hf ▸ h.owned
  tracked := hf ▸ hp ▸ h.tracked

theorem enlist (h : pool.Regular settings) (hv : frame.id.IsValid) (hp : frame.page.id = frame.id)
    (hs : (pool.frames.put frame).size ≤ settings.capacity)
    (hpin : frame.IsPinned → ¬pool.frames.Evictable frame.id) :
    (pool.enlist frame).Regular settings where
  capacity := h.capacity
  names := (Policies.names_register pool.policies frame).trans h.names
  size_le := hs
  owned := FrameTable.owned_put h.owned hv hp
  tracked := h.tracked.register hpin

theorem enlist_of_find? (h : pool.Regular settings) (hf : pool.frames.find? frame.id = some former)
    (hp : frame.page.id = frame.id) (hpin : frame.IsPinned → former.IsPinned) :
    (pool.enlist frame).Regular settings := by
  apply h.enlist (h.owned frame.id former hf).1 hp
  · rw [FrameTable.size_put hf]
    exact h.size_le
  · intro hpinned
    rw [FrameTable.evictable_of_find? hf]
    exact not_not_intro (hpin hpinned)

theorem enlist_of_room (h : pool.Regular settings) (hv : frame.id.IsValid)
    (hp : frame.page.id = frame.id) (hs : pool.frames.size < settings.capacity)
    (hpin : ¬frame.IsPinned) : (pool.enlist frame).Regular settings :=
  h.enlist hv hp ((FrameTable.size_put_le pool.frames frame).trans hs) fun hp => absurd hp hpin

theorem victim (h : pool.Regular settings) {named : Option PageId} {policies : Policies}
    {frames : FrameTable} (hv : pool.policies.victim pool.frames = (named, policies, frames)) :
    Regular settings { pool with policies, frames } where
  capacity := h.capacity
  names := (Policies.names_victim hv).trans h.names
  size_le := (Policies.sameContents_of_victim hv).size ▸ h.size_le
  owned := (Policies.sameContents_of_victim hv).owned h.owned
  tracked := h.tracked.victim hv

theorem writeBack (h : pool.Regular settings) (hw : pool.writeBack id = (answer, after)) :
    after.Regular settings := by
  cases writeBack_outcome hw with
  | unneeded hn => exact h
  | failed frame e store hf hd hwrite => exact h.of_eq rfl rfl rfl
  | written frame store hf hd hwrite =>
    have hid := FrameTable.id_of_find? hf
    subst hid
    obtain ⟨hvalid, hpage⟩ := h.owned frame.id frame hf
    have hsize : (pool.frames.put (frame.withDirty false)).size = pool.frames.size :=
      FrameTable.size_put hf
    refine ⟨h.capacity, h.names, hsize.le.trans h.size_le, ?_, ?_⟩
    · exact FrameTable.owned_put h.owned hvalid hpage
    · apply h.tracked.of_evictable
      intro other
      rw [FrameTable.evictable_put]
      split
      · rename_i ho
        rw [← ho]
        exact (FrameTable.evictable_of_find? hf).symm
      · rfl

theorem discard (h : pool.Regular settings) (hv : id.IsValid) :
    ∃ after, pool.discard id = (.ok (), after) ∧ after.Regular settings := by
  obtain ⟨left, hw, ht⟩ := h.tracked.withdraw hv (FrameTable.evictable_erase pool.frames id)
  have hsize : (pool.frames.erase id).size ≤ pool.frames.size := List.length_filter_le _ _
  unfold Pool.discard
  rw [hw]
  exact ⟨_, rfl, h.capacity, (Policies.names_withdraw hw).trans h.names,
    hsize.trans h.size_le, FrameTable.owned_erase h.owned id, ht⟩

/-- The victim was there to be named, and writing it has not dropped it, so it can be discarded. -/
theorem discard_victim (h : pool.Regular settings) {victim : PageId} {policies : Policies}
    {frames : FrameTable} {written : Pool}
    (hv : pool.policies.victim pool.frames = (some victim, policies, frames))
    (hw : Pool.writeBack { pool with policies, frames } victim = (answer, written)) :
    ∃ frame after, written.frames.find? victim = some frame ∧
      written.discard victim = (.ok (), after) ∧ after.Regular settings := by
  have hleft := (h.victim hv).writeBack hw
  obtain ⟨frame, hf, -⟩ := Policies.evictable_of_victim hv
  have hthere : written.frames.find? victim ≠ none := by
    intro hn
    rw [find?_eq_none_of_writeBack hw, (Policies.sameContents_of_victim hv).find?_eq_none] at hn
    rw [hn] at hf
    cases hf
  obtain ⟨last, hlast⟩ := Option.ne_none_iff_exists'.mp hthere
  obtain ⟨rest, hrest, hregular⟩ := hleft.discard (hleft.owned victim last hlast).1
  exact ⟨last, rest, hlast, hrest, hregular⟩

/-- Room is made by dropping a page that the policies know, and never by dropping too few. -/
theorem makeRoom (h : pool.Regular settings) (hm : pool.makeRoom = (answer, after)) :
    after.Regular settings ∧ (answer = .ok () → after.frames.size < settings.capacity) := by
  cases makeRoom_outcome hm with
  | room hr => exact ⟨h, fun _ => h.capacity ▸ hr⟩
  | noVictim policies frames hr hv => exact ⟨h.victim hv, nofun⟩
  | unwritten victim policies frames e after hr hv hw => exact ⟨(h.victim hv).writeBack hw, nofun⟩
  | discarded victim policies frames written answer after hr hv hw hd =>
    obtain ⟨last, rest, hlast, hrest, hregular⟩ := h.discard_victim hv hw
    rw [hd] at hrest
    cases hrest
    refine ⟨hregular, ?_⟩
    intro _
    rw [frames_of_discard hd]
    exact (FrameTable.size_erase hlast).trans_le ((h.victim hv).writeBack hw).size_le

theorem getPage (h : pool.Regular settings) {answer : Except StorageError Frame}
    (hg : pool.getPage id = (answer, after)) : after.Regular settings := by
  cases getPage_outcome hg with
  | unaddressable hv => exact h
  | hit frame hv hf =>
    have hid := FrameTable.id_of_find? hf
    subst hid
    have hcounted : Regular settings
        { pool with stats := { pool.stats with hits := pool.stats.hits + 1 } } :=
      h.of_eq rfl rfl rfl
    exact hcounted.enlist_of_find? hf (h.owned frame.id frame hf).2 fun hp => hp
  | unread e store hv hf hr => exact h.of_eq rfl rfl rfl
  | crowded page store e after hv hf hr hm =>
    have hread : (pool.loadedFrom store).Regular settings := h.of_eq rfl rfl rfl
    exact (hread.makeRoom hm).1
  | loaded page store room hv hf hr hm =>
    have hread : (pool.loadedFrom store).Regular settings := h.of_eq rfl rfl rfl
    obtain ⟨hroom, hsize⟩ := hread.makeRoom hm
    have hpage := Store.id_of_page? (Store.page?_of_read_ok hr)
    exact hroom.enlist_of_room hv hpage (hsize rfl) (Frame.not_isPinned_clean page id)

theorem updatePage (h : pool.Regular settings) (hu : pool.updatePage id page = (answer, after)) :
    after.Regular settings := by
  cases updatePage_outcome hu with
  | unaddressable hv => exact h
  | misdirected hv hp => exact h
  | replaced frame hv hp hf =>
    have hid := FrameTable.id_of_find? hf
    subst hid
    exact h.enlist_of_find? hf hp fun hpinned => hpinned
  | crowded e after hv hp hf hm => exact (h.makeRoom hm).1
  | created room hv hp hf hm =>
    obtain ⟨hroom, hsize⟩ := h.makeRoom hm
    exact hroom.enlist_of_room hv hp (hsize rfl) (Frame.not_isPinned_fresh page id)

theorem pin (h : pool.Regular settings) (id : PageId) : (pool.pin id).2.Regular settings := by
  unfold Pool.pin
  split
  · exact h
  · rename_i frame hf
    have hid := FrameTable.id_of_find? hf
    subst hid
    obtain ⟨hvalid, hpage⟩ := h.owned frame.id frame hf
    obtain ⟨left, hw, ht⟩ :=
      h.tracked.withdraw hvalid (FrameTable.evictable_put_pinned pool.frames frame)
    simp only [hw]
    have hsize : (pool.frames.put (frame.withPinned true)).size = pool.frames.size :=
      FrameTable.size_put hf
    exact ⟨h.capacity, (Policies.names_withdraw hw).trans h.names, hsize.le.trans h.size_le,
      FrameTable.owned_put h.owned hvalid hpage, ht⟩

theorem unpin (h : pool.Regular settings) (id : PageId) : (pool.unpin id).2.Regular settings := by
  unfold Pool.unpin
  split
  · exact h
  · rename_i frame hf
    have hid := FrameTable.id_of_find? hf
    subst hid
    exact h.enlist_of_find? hf (h.owned frame.id frame hf).2 fun hpinned =>
      absurd hpinned (Frame.not_isPinned_withPinned frame)

theorem flushPage (h : pool.Regular settings) (hf : pool.flushPage id = (answer, after)) :
    after.Regular settings := by
  unfold Pool.flushPage at hf
  split at hf
  · exact h.writeBack hf
  · cases hf
    exact h

theorem flushPages (h : pool.Regular settings) {ids : List PageId}
    (hf : pool.flushPages ids = (answer, after)) : after.Regular settings := by
  have hall := flushPages_keeps (fun _ _ hpool => hpool.writeBack rfl) h ids
  rwa [hf] at hall

theorem flushBatch (h : pool.Regular settings) (limit : Nat) :
    (pool.flushBatch limit).2.Regular settings := by
  rw [Pool.flushBatch]
  split <;> rename_i hf <;> exact h.flushPages hf

theorem serve (h : pool.Regular settings) (request : Request) :
    (pool.serve request).2.Regular settings := by
  cases request with
  | get id => exact h.getPage rfl
  | pin id => exact h.pin id
  | unpin id => exact h.unpin id
  | flush id => exact h.flushPage rfl
  | flushAll => exact Regular.flushPages h rfl
  | flushBatch limit => exact h.flushBatch limit

theorem failing (h : pool.Regular settings) (fails : Access → PageId → Bool) :
    (pool.failing fails).Regular settings := h.of_eq rfl rfl rfl

theorem step (h : pool.Regular settings) (step : Step) : (pool.step step).Regular settings := by
  obtain ⟨operation, fails⟩ := step
  have hf := h.failing fails
  cases operation with
  | request request => exact hf.serve request
  | update id page => exact hf.updatePage rfl

theorem run (h : pool.Regular settings) (steps : List Step) :
    (pool.run steps).Regular settings := by
  induction steps generalizing pool with
  | nil => exact h
  | cons step steps ih => exact ih (h.step step)

end Regular

variable {store : Store}

theorem regular_of_create (hn : ∀ policy ∈ settings.policies, policy.IsNew)
    (h : create settings store = .ok pool) : pool.Regular settings := by
  unfold create at h
  split at h
  · split at h
    · rename_i policies hp
      cases h
      have hlist := Policies.toList_ofList? hp
      refine ⟨rfl, ?_, Nat.zero_le _, FrameTable.owned_empty, ?_⟩
      · exact congrArg (List.map Policy.name) hlist
      · exact Policies.track_of_isNew (hlist ▸ hn)
    · cases h
  · cases h

/-- Whatever a run does and whichever calls of the store fail, a pool keeps no more pages than it
has room for, each under an id that can name a page, is the id of its frame and of the page in it;
and each policy has as its candidates exactly the cached pages that are not pinned, each of them
once. -/
theorem frames_policies_run (hn : ∀ policy ∈ settings.policies, policy.IsNew)
    (h : create settings store = .ok pool) (steps : List Step) :
    (pool.run steps).frames.size ≤ settings.capacity ∧
    (∀ id frame, (pool.run steps).frames.find? id = some frame →
      id.IsValid ∧ frame.id = id ∧ frame.page.id = id) ∧
    (pool.run steps).policyNames = settings.policies.map Policy.name ∧
    ∀ policy ∈ (pool.run steps).policies.toList,
      policy.candidates.Nodup ∧
        ∀ id, id ∈ policy.candidates ↔
          ∃ frame, (pool.run steps).frames.find? id = some frame ∧ ¬frame.IsPinned := by
  have hr := (regular_of_create hn h).run steps
  refine ⟨hr.size_le, ?_, hr.names, ?_⟩
  · intro id frame hf
    obtain ⟨hvalid, hpage⟩ := hr.owned id frame hf
    exact ⟨hvalid, FrameTable.id_of_find? hf, hpage⟩
  · intro policy hmem
    have ht := hr.tracked policy hmem
    exact ⟨ht.nodup, ht.mem_iff⟩

/-- A page with a pin is a candidate of neither policy. -/
theorem frames_policies_run_pinned :
    ∃ pool, create (.dual 1 (.clock .empty) (.lru .empty)) (.vacant ["data"]) = .ok pool ∧
      ∀ policy ∈ (pool.run [{ operation := .update (.ofIndex 0) (.empty (.ofIndex 0)) },
        { operation := .request (.pin (.ofIndex 0)) }]).policies.toList,
        PageId.ofIndex 0 ∉ policy.candidates := by
  refine ⟨_, rfl, ?_⟩
  have hn : ∀ policy ∈ (PoolSettings.dual 1 (.clock .empty) (.lru .empty)).policies,
      policy.IsNew := by
    simp [PoolSettings.dual, Policy.IsNew]
  have hc : create (.dual 1 (.clock .empty) (.lru .empty)) (.vacant ["data"]) = .ok _ := rfl
  have hshape := frames_policies_run hn hc
    [{ operation := .update (.ofIndex 0) (.empty (.ofIndex 0)) },
      { operation := .request (.pin (.ofIndex 0)) }]
  intro policy hmem hcandidate
  obtain ⟨frame, hf, hfree⟩ := ((hshape.2.2.2 policy hmem).2 _).mp hcandidate
  cases hf
  exact hfree rfl

end

end Pool

end PagedStorage
