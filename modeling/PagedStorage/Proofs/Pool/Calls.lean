import PagedStorage.Proofs.Pool.Newest

namespace PagedStorage

def Call.key (call : Call) : Access × PageId := (call.access, call.page)

namespace Store

/-- The calls that made `after` of the store are all different. -/
def AsksOnce (store after : Store) : Prop :=
  ∃ made, after.calls = made ++ store.calls ∧ (made.map Call.key).Nodup

variable {store other after : Store}

theorem AsksOnce.refl (store : Store) : store.AsksOnce store := ⟨[], rfl, List.nodup_nil⟩

theorem AsksOnce.of_calls_eq (h : store.AsksOnce after) (hc : store.calls = other.calls) :
    other.AsksOnce after := by
  obtain ⟨made, hmade, hnodup⟩ := h
  exact ⟨made, hc ▸ hmade, hnodup⟩

end Store

namespace Pool

/-- Between the two pools just these calls were made on the store, the latest in front and none of
them twice. Pages were read where `reads` allows it and written where they were changed. -/
structure Calling (pool after : Pool) (reads : PageId → Prop) (made : List Call) : Prop where
  calls_eq : after.store.calls = made ++ pool.store.calls
  nodup : (made.map Call.key).Nodup
  reads : ∀ call ∈ made, call.access = .read → reads call.page
  writes : ∀ call ∈ made, call.access = .write → pool.frames.Dirty call.page

/-- No page that these calls wrote is marked as changed. -/
def Settled (pool : Pool) (made : List Call) : Prop :=
  ∀ call ∈ made, call.access = .write → ¬pool.frames.Dirty call.page

def noReads : PageId → Prop := fun _ => False

section

variable {pool mid after : Pool} {id : PageId} {page : Page} {reads : PageId → Prop}
  {made earlier later : List Call} {answer : Except StorageError Unit}

namespace Calling

theorem of_calls_eq (hs : after.store.calls = pool.store.calls) : pool.Calling after reads [] :=
  ⟨hs, List.nodup_nil, nofun, nofun⟩

theorem of_calls_eq_cons {call : Call} (hs : after.store.calls = call :: pool.store.calls)
    (hr : call.access = .read → reads call.page)
    (hw : call.access = .write → pool.frames.Dirty call.page) :
    pool.Calling after reads [call] where
  calls_eq := hs
  nodup := List.nodup_singleton _
  reads := List.forall_mem_singleton.mpr hr
  writes := List.forall_mem_singleton.mpr hw

theorem asksOnce (h : pool.Calling after reads made) : pool.store.AsksOnce after.store :=
  ⟨made, h.calls_eq, h.nodup⟩

theorem mono {first : PageId → Prop} (h : pool.Calling after first made)
    (hr : ∀ id, first id → reads id) : pool.Calling after reads made :=
  ⟨h.calls_eq, h.nodup, fun call hmem ha => hr _ (h.reads call hmem ha), h.writes⟩

/-- What follows on calls that left no page to be written again asks for other pages. -/
theorem trans {first second : PageId → Prop} (h : pool.Calling mid first earlier)
    (hb : pool.Becomes mid noImages) (hs : mid.Settled earlier)
    (h' : mid.Calling after second later) (hr : ∀ id, first id → ¬second id) :
    pool.Calling after (fun id => first id ∨ second id) (later ++ earlier) where
  calls_eq := by rw [h'.calls_eq, h.calls_eq, List.append_assoc]
  nodup := by
    rw [List.map_append]
    refine List.nodup_append.mpr ⟨h'.nodup, h.nodup, ?_⟩
    intro key hlater other hearlier heq
    subst heq
    obtain ⟨call, hcall, rfl⟩ := List.mem_map.mp hlater
    obtain ⟨former, hformer, hkey⟩ := List.mem_map.mp hearlier
    obtain ⟨haccess, hpage⟩ := Prod.mk.inj hkey
    -- A page read twice would be asked for in both parts, and one written twice would be marked
    -- between them.
    cases ha : call.access with
    | read =>
      have hread := h.reads former hformer (haccess.trans ha)
      rw [hpage] at hread
      exact hr call.page hread (h'.reads call hcall ha)
    | write =>
      have hclean := hs former hformer (haccess.trans ha)
      rw [hpage] at hclean
      exact hclean (h'.writes call hcall ha)
  reads call hmem ha := by
    rcases List.mem_append.mp hmem with hlater | hearlier
    · exact Or.inr (h'.reads call hlater ha)
    · exact Or.inl (h.reads call hearlier ha)
  writes call hmem ha := by
    rcases List.mem_append.mp hmem with hlater | hearlier
    · by_contra hclean
      exact hb.not_dirty hclean (h'.writes call hlater ha)
    · exact h.writes call hearlier ha

theorem trans_noReads (h : pool.Calling mid reads earlier) (hb : pool.Becomes mid noImages)
    (hs : mid.Settled earlier) (h' : mid.Calling after noReads later) :
    pool.Calling after reads (later ++ earlier) :=
  (h.trans hb hs h' fun _ _ => not_false).mono fun _ hid => hid.resolve_right not_false

theorem of_becomes (h : mid.Calling after reads made) (hb : pool.Becomes mid noImages)
    (hs : mid.store.calls = pool.store.calls) : pool.Calling after reads made where
  calls_eq := hs ▸ h.calls_eq
  nodup := h.nodup
  reads := h.reads
  writes call hmem ha := by
    by_contra hclean
    exact hb.not_dirty hclean (h.writes call hmem ha)

theorem trans_quiet (h : pool.Calling mid reads made) (hs : after.store.calls = mid.store.calls) :
    pool.Calling after reads made :=
  ⟨hs.trans h.calls_eq, h.nodup, h.reads, h.writes⟩

end Calling

theorem Settled.of_becomes (hs : mid.Settled made) (hb : mid.Becomes after noImages) :
    after.Settled made := fun call hmem ha => hb.not_dirty (hs call hmem ha)

theorem Settled.enlist (hs : pool.Settled made) {frame : Frame} (hd : ¬frame.IsDirty) :
    (pool.enlist frame).Settled made := by
  intro call hmem ha hdirty
  have hput : (pool.frames.put frame).Dirty call.page := hdirty
  rw [FrameTable.dirty_put] at hput
  split at hput
  · exact hd hput
  · exact hs call hmem ha hput

theorem Settled.append (hs : mid.Settled earlier) (hb : mid.Becomes after noImages)
    (hs' : after.Settled later) : after.Settled (later ++ earlier) := by
  intro call hmem ha
  rcases List.mem_append.mp hmem with hlater | hearlier
  · exact hs' call hlater ha
  · exact hb.not_dirty (hs call hearlier ha)

theorem settled_nil (pool : Pool) : pool.Settled [] := nofun

theorem calling_writeBack (h : pool.Coherent) (hw : pool.writeBack id = (answer, after)) :
    ∃ made, pool.Calling after noReads made ∧ (answer = .ok () → after.Settled made) := by
  have hpage : ∀ frame, pool.frames.find? id = some frame → frame.page.id = id :=
    fun frame hf => (h.owned id frame hf).2
  cases writeBack_outcome hw with
  | unneeded hn => exact ⟨[], .of_calls_eq rfl, fun _ => settled_nil pool⟩
  | failed frame e store hf hd hwrite =>
    refine ⟨_, .of_calls_eq_cons (Store.calls_write hwrite) nofun ?_, nofun⟩
    intro _
    exact hpage frame hf ▸ (FrameTable.dirty_of_find? hf).mpr hd
  | written frame store hf hd hwrite =>
    refine ⟨_, .of_calls_eq_cons (Store.calls_write hwrite) nofun ?_, ?_⟩
    · intro _
      exact hpage frame hf ▸ (FrameTable.dirty_of_find? hf).mpr hd
    · intro _ call hmem _
      cases List.mem_singleton.mp hmem
      exact (hpage frame hf).symm ▸ not_dirty_of_writeBack hw

theorem calling_makeRoom (h : pool.Coherent) (hm : pool.makeRoom = (answer, after)) :
    ∃ made, pool.Calling after noReads made ∧ (answer = .ok () → after.Settled made) := by
  cases makeRoom_outcome hm with
  | room hr => exact ⟨[], .of_calls_eq rfl, fun _ => settled_nil pool⟩
  | noVictim policies frames hr hv => exact ⟨[], .of_calls_eq rfl, nofun⟩
  | unwritten victim policies frames e after hr hv hw =>
    have hasked := becomes_victim h hv
    obtain ⟨made, hmade, -⟩ := calling_writeBack hasked.coherent hw
    exact ⟨made, hmade.of_becomes hasked rfl, nofun⟩
  | discarded victim policies frames written answer after hr hv hw hd =>
    have hasked := becomes_victim h hv
    obtain ⟨made, hmade, hsettled⟩ := calling_writeBack hasked.coherent hw
    have hwritten := becomes_writeBack hasked.coherent hw
    have hdrop := becomes_discard hwritten.coherent (not_dirty_of_writeBack hw) hd
    have hquiet := congrArg Store.calls (store_of_discard hd)
    exact ⟨made, (hmade.of_becomes hasked rfl).trans_quiet hquiet,
      fun _ => (hsettled rfl).of_becomes hdrop⟩

/-- A page is read before room is made for it. -/
theorem calling_makeRoom_of_read (h : pool.Coherent) {store : Store}
    (hr : pool.store.read id = (.ok page, store))
    (hm : (pool.loadedFrom store).makeRoom = (answer, after)) :
    ∃ made, pool.Calling after (· = id) made ∧ (answer = .ok () → after.Settled made) := by
  have hread : pool.Becomes (pool.loadedFrom store) noImages :=
    .of_sameFile h rfl (Store.sameFile_read hr)
  have hfirst : pool.Calling (pool.loadedFrom store) (· = id) [⟨.read, id, true⟩] :=
    .of_calls_eq_cons (Store.calls_read hr) (fun _ => rfl) nofun
  have hnone : (pool.loadedFrom store).Settled [⟨.read, id, true⟩] :=
    List.forall_mem_singleton.mpr nofun
  obtain ⟨made, hmade, hsettled⟩ := calling_makeRoom hread.coherent hm
  refine ⟨_, hfirst.trans_noReads hread hnone hmade, ?_⟩
  intro hok
  exact hnone.append (becomes_makeRoom hread.coherent hm) (hsettled hok)

theorem calling_getPage (h : pool.Coherent) {answer : Except StorageError Frame}
    (hg : pool.getPage id = (answer, after)) :
    ∃ made, pool.Calling after (· = id) made ∧ (answer.isOk = true → after.Settled made) := by
  cases getPage_outcome hg with
  | unaddressable hv => exact ⟨[], .of_calls_eq rfl, nofun⟩
  | hit frame hv hf => exact ⟨[], .of_calls_eq rfl, fun _ => settled_nil _⟩
  | unread e store hv hf hr =>
    exact ⟨_, .of_calls_eq_cons (Store.calls_read hr) (fun _ => rfl) nofun, nofun⟩
  | crowded page store e after hv hf hr hm =>
    obtain ⟨made, hmade, -⟩ := calling_makeRoom_of_read h hr hm
    exact ⟨made, hmade, nofun⟩
  | loaded page store room hv hf hr hm =>
    obtain ⟨made, hmade, hsettled⟩ := calling_makeRoom_of_read h hr hm
    refine ⟨made, hmade.trans_quiet rfl, ?_⟩
    intro _
    exact (hsettled rfl).enlist (Frame.not_isDirty_clean page id)

theorem calling_updatePage (h : pool.Coherent) (hu : pool.updatePage id page = (answer, after)) :
    ∃ made, pool.Calling after noReads made := by
  cases updatePage_outcome hu with
  | unaddressable hv => exact ⟨[], .of_calls_eq rfl⟩
  | misdirected hv hp => exact ⟨[], .of_calls_eq rfl⟩
  | replaced frame hv hp hf => exact ⟨[], .of_calls_eq rfl⟩
  | crowded e after hv hp hf hm =>
    obtain ⟨made, hmade, -⟩ := calling_makeRoom h hm
    exact ⟨made, hmade⟩
  | created room hv hp hf hm =>
    obtain ⟨made, hmade, -⟩ := calling_makeRoom h hm
    exact ⟨made, hmade.trans_quiet rfl⟩

theorem calling_pin (pool : Pool) (id : PageId) : pool.Calling (pool.pin id).2 noReads [] := by
  unfold pin
  split <;> exact .of_calls_eq rfl

theorem calling_unpin (pool : Pool) (id : PageId) : pool.Calling (pool.unpin id).2 noReads [] := by
  unfold unpin
  split <;> exact .of_calls_eq rfl

theorem calling_flushPage (h : pool.Coherent) (hf : pool.flushPage id = (answer, after)) :
    ∃ made, pool.Calling after noReads made ∧ (answer = .ok () → after.Settled made) := by
  unfold flushPage at hf
  split at hf
  · exact calling_writeBack h hf
  · cases hf
    exact ⟨[], .of_calls_eq rfl, nofun⟩

theorem calling_flushPages (h : pool.Coherent) {ids : List PageId}
    (hf : pool.flushPages ids = (answer, after)) : ∃ made, pool.Calling after noReads made := by
  induction ids generalizing pool with
  | nil =>
    cases hf
    exact ⟨[], .of_calls_eq rfl⟩
  | cons id ids ih =>
    rw [flushPages] at hf
    split at hf
    · rename_i hfirst
      cases hf
      obtain ⟨made, hmade, -⟩ := calling_flushPage h hfirst
      exact ⟨made, hmade⟩
    · rename_i hfirst
      have hb := becomes_flushPage h hfirst
      obtain ⟨earlier, hearlier, hsettled⟩ := calling_flushPage h hfirst
      obtain ⟨later, hlater⟩ := ih hb.coherent hf
      exact ⟨later ++ earlier, hearlier.trans_noReads hb (hsettled rfl) hlater⟩

theorem calling_serve (h : pool.Coherent) (request : Request) :
    ∃ reads made, pool.Calling (pool.serve request).2 reads made := by
  cases request with
  | get id =>
    obtain ⟨made, hmade, -⟩ := calling_getPage h rfl
    exact ⟨_, made, hmade⟩
  | pin id => exact ⟨_, [], calling_pin pool id⟩
  | unpin id => exact ⟨_, [], calling_unpin pool id⟩
  | flush id =>
    obtain ⟨made, hmade, -⟩ := calling_flushPage h rfl
    exact ⟨_, made, hmade⟩
  | flushAll => exact ⟨_, calling_flushPages h rfl⟩
  | flushBatch limit =>
    rw [serve, flushBatch]
    split <;> rename_i hf <;> exact ⟨_, calling_flushPages h hf⟩

theorem calling_step (h : pool.Coherent) (step : Step) :
    ∃ reads made, pool.Calling (pool.step step) reads made := by
  obtain ⟨operation, fails⟩ := step
  have hf := becomes_failing h fails
  cases operation with
  | request request =>
    obtain ⟨reads, made, hmade⟩ := calling_serve hf.coherent request
    exact ⟨reads, made, hmade.of_becomes hf rfl⟩
  | update id page =>
    obtain ⟨made, hmade⟩ := calling_updatePage hf.coherent rfl
    exact ⟨_, made, hmade.of_becomes hf rfl⟩

/-- In whatever state a run leaves a pool, the next step asks its store for no page twice and writes
none twice. -/
theorem asksOnce_run {settings : PoolSettings} {store : Store} (hw : store.Whole)
    (h : create settings store = .ok pool) (steps : List Step) (step : Step) :
    (pool.run steps).store.AsksOnce ((pool.run steps).step step).store := by
  have hrun := (becomes_run (coherent_of_create hw h) steps).coherent
  obtain ⟨reads, made, hmade⟩ := calling_step hrun step
  exact hmade.asksOnce

end

end Pool

end PagedStorage
