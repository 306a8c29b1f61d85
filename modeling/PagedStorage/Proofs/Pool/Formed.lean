import PagedStorage.Proofs.Cache.Candidates
import PagedStorage.Proofs.Pool.Outcomes
import PagedStorage.Proofs.Pool.Run

namespace PagedStorage

namespace Pool

structure Formed (settings : PoolSettings) (pool : Pool) : Prop where
  owned : pool.frames.Owned
  names : pool.policyNames = settings.policies.map Policy.name

section

variable {settings : PoolSettings} {pool after : Pool} {id : PageId}
  {page : Page} {answer : Except StorageError Unit} {store : Store}

namespace Formed

theorem of_eq (h : pool.Formed settings) (hf : after.frames = pool.frames)
    (hp : after.policies = pool.policies) : after.Formed settings where
  owned := hf ▸ h.owned
  names := by
    rw [policyNames, hp]
    exact h.names

theorem put (h : pool.Formed settings) (frame : Frame) (hv : frame.id.IsValid)
    (hp : frame.page.id = frame.id) (hf : after.frames = pool.frames.put frame)
    (hn : after.policyNames = pool.policyNames) : after.Formed settings where
  owned := hf ▸ FrameTable.owned_put h.owned hv hp
  names := hn.trans h.names

theorem enlist (h : pool.Formed settings) (frame : Frame) (hv : frame.id.IsValid)
    (hp : frame.page.id = frame.id) : (pool.enlist frame).Formed settings :=
  h.put frame hv hp rfl (Policies.names_register pool.policies frame)

theorem victim (h : pool.Formed settings) {named : Option PageId} {policies : Policies}
    {frames : FrameTable} (hv : pool.policies.victim pool.frames = (named, policies, frames)) :
    Formed settings { pool with policies, frames } where
  owned := (Policies.sameContents_of_victim hv).owned h.owned
  names := (Policies.names_victim hv).trans h.names

theorem writeBack (h : pool.Formed settings) (hw : pool.writeBack id = (answer, after)) :
    after.Formed settings := by
  cases writeBack_outcome hw with
  | unneeded hn => exact h
  | failed frame e store hf hd hwrite => exact h.of_eq rfl rfl
  | written frame store hf hd hwrite =>
    have hid := FrameTable.id_of_find? hf
    subst hid
    obtain ⟨hvalid, hpage⟩ := h.owned frame.id frame hf
    exact h.put (frame.withDirty false) hvalid hpage rfl rfl

/-- A pool keeps its form also when a policy refuses. -/
theorem discard (h : pool.Formed settings) (hd : pool.discard id = (answer, after)) :
    after.Formed settings := by
  unfold Pool.discard at hd
  split at hd <;> rename_i hw <;> cases hd
  all_goals exact ⟨FrameTable.owned_erase h.owned id, (Policies.names_withdraw hw).trans h.names⟩

theorem makeRoom (h : pool.Formed settings) (hm : pool.makeRoom = (answer, after)) :
    after.Formed settings := by
  cases makeRoom_outcome hm with
  | room hr => exact h
  | noVictim policies frames hr hv => exact h.victim hv
  | unwritten victim policies frames e after hr hv hw => exact (h.victim hv).writeBack hw
  | discarded victim policies frames written answer after hr hv hw hd =>
    exact ((h.victim hv).writeBack hw).discard hd

theorem getPage (h : pool.Formed settings) {answer : Except StorageError Frame}
    (hg : pool.getPage id = (answer, after)) : after.Formed settings := by
  cases getPage_outcome hg with
  | unaddressable hv => exact h
  | hit frame hv hf =>
    have hid := FrameTable.id_of_find? hf
    subst hid
    have hcounted : Formed settings
        { pool with stats := { pool.stats with hits := pool.stats.hits + 1 } } := h.of_eq rfl rfl
    exact hcounted.enlist frame.used hv (h.owned frame.id frame hf).2
  | unread e store hv hf hr => exact h.of_eq rfl rfl
  | crowded page store e after hv hf hr hm =>
    have hread : (pool.loadedFrom store).Formed settings := h.of_eq rfl rfl
    exact hread.makeRoom hm
  | loaded page store room hv hf hr hm =>
    have hread : (pool.loadedFrom store).Formed settings := h.of_eq rfl rfl
    have hpage := Store.id_of_page? (Store.page?_of_read_ok hr)
    exact (hread.makeRoom hm).enlist (.clean page id) hv hpage

theorem updatePage (h : pool.Formed settings) (hu : pool.updatePage id page = (answer, after)) :
    after.Formed settings := by
  cases updatePage_outcome hu with
  | unaddressable hv => exact h
  | misdirected hv hp => exact h
  | replaced frame hv hp hf =>
    have hid := FrameTable.id_of_find? hf
    subst hid
    exact h.enlist (frame.updated page) hv hp
  | crowded e after hv hp hf hm => exact h.makeRoom hm
  | created room hv hp hf hm => exact (h.makeRoom hm).enlist (.fresh page id) hv hp

theorem pin (h : pool.Formed settings) (id : PageId) : (pool.pin id).2.Formed settings := by
  unfold Pool.pin
  split
  · exact h
  · rename_i frame hf
    have hid := FrameTable.id_of_find? hf
    subst hid
    obtain ⟨hvalid, hpage⟩ := h.owned frame.id frame hf
    exact h.put (frame.withPinned true) hvalid hpage rfl (Policies.names_withdraw rfl)

theorem unpin (h : pool.Formed settings) (id : PageId) : (pool.unpin id).2.Formed settings := by
  unfold Pool.unpin
  split
  · exact h
  · rename_i frame hf
    have hid := FrameTable.id_of_find? hf
    subst hid
    obtain ⟨hvalid, hpage⟩ := h.owned frame.id frame hf
    exact h.enlist (frame.withPinned false) hvalid hpage

theorem serve (h : pool.Formed settings) (request : Request) :
    (pool.serve request).2.Formed settings := by
  have hw : ∀ (pool : Pool) (id : PageId), pool.Formed settings →
      (pool.writeBack id).2.Formed settings := fun _ _ hpool => hpool.writeBack rfl
  cases request with
  | get id => exact h.getPage rfl
  | pin id => exact h.pin id
  | unpin id => exact h.unpin id
  | flush id => exact flushPage_keeps hw h id
  | flushAll => exact flushPages_keeps hw h pool.dirtyPages
  | flushBatch limit => exact flushBatch_keeps hw h limit

theorem failing (h : pool.Formed settings) (fails : Access → PageId → Bool) :
    (pool.failing fails).Formed settings := h.of_eq rfl rfl

theorem step (h : pool.Formed settings) (step : Step) : (pool.step step).Formed settings := by
  obtain ⟨operation, fails⟩ := step
  have hf := h.failing fails
  cases operation with
  | request request => exact hf.serve request
  | update id page => exact hf.updatePage rfl

theorem run (h : pool.Formed settings) (steps : List Step) :
    (pool.run steps).Formed settings := by
  induction steps generalizing pool with
  | nil => exact h
  | cons step steps ih => exact ih (h.step step)

end Formed

theorem formed_of_create (h : create settings store = .ok pool) : pool.Formed settings := by
  unfold create at h
  split at h
  · split at h
    · rename_i policies hp
      cases h
      exact ⟨FrameTable.owned_empty, congrArg (List.map Policy.name) (Policies.toList_ofList? hp)⟩
    · cases h
  · cases h

end

end Pool

end PagedStorage
