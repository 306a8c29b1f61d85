import PagedStorage.Proofs.Pool.Regular

namespace PagedStorage

namespace Pool

/-- The pool as it was, but for its counters, usage counts, and the hand and the marks of a clock.
The candidates of each policy stand in the order that they had. -/
structure Unmoved (pool after : Pool) : Prop where
  capacity : after.capacity = pool.capacity
  frames : pool.frames.SameContents after.frames
  names : after.policyNames = pool.policyNames
  candidates : after.policies.toList.map Policy.candidates =
    pool.policies.toList.map Policy.candidates
  file? : after.store.file? = pool.store.file?

def cachedPages (pool : Pool) (ids : List PageId) : List Page :=
  ids.filterMap fun id => (pool.frames.find? id).map Frame.page

/-- `after` is the pool with these pages written, in this order, and no longer marked as changed.
Nothing else is different but the counters and the calls of the store. -/
structure Flushed (pool after : Pool) (ids : List PageId) : Prop where
  capacity : after.capacity = pool.capacity
  policies : after.policies = pool.policies
  find? : ∀ id, after.frames.find? id =
    if id ∈ ids then (pool.frames.find? id).map (Frame.withDirty · false)
    else pool.frames.find? id
  stored : ∀ id ∈ ids, ∃ frame, pool.frames.find? id = some frame ∧
    after.store.block? id.index = some frame.page.image
  /-- The first page that is written makes the file if it is missing. -/
  file? : after.store.file? =
    if ids = [] then pool.store.file?
    else some ((pool.cachedPages ids).foldl DataFile.write pool.store.base)
  base : after.store.base = (pool.cachedPages ids).foldl DataFile.write pool.store.base

/-- The calls that write these pages with success, the latest in front. -/
def writesOf (ids : List PageId) : List Call := (ids.map fun id => ⟨.write, id, true⟩).reverse

/-- The pages that a pass is to write, nothing for a call that is no pass. -/
def Operation.batch? (pool : Pool) : Operation → Option (List PageId)
  | .request .flushAll => some pool.dirtyPages
  | .request (.flushBatch limit) => some (pool.dirtyPages.take limit)
  | _ => none

section

variable {settings : PoolSettings} {pool mid after : Pool} {id : PageId} {page : Page}
  {e : StorageError} {answer : Except StorageError Unit}

namespace Unmoved

theorem refl (pool : Pool) : pool.Unmoved pool := ⟨rfl, .refl _, rfl, rfl, rfl⟩

theorem trans (h : pool.Unmoved mid) (h' : mid.Unmoved after) : pool.Unmoved after where
  capacity := h'.capacity.trans h.capacity
  frames := h.frames.trans h'.frames
  names := h'.names.trans h.names
  candidates := h'.candidates.trans h.candidates
  file? := h'.file?.trans h.file?

/-- Neither the counters nor the calls of the store matter. -/
theorem of_store {store : Store} (hs : pool.store.SameFile store) (stats : Statistics) :
    pool.Unmoved { pool with store, stats } :=
  ⟨rfl, .refl _, rfl, rfl, hs.file?⟩

/-- Asking the policies for a victim only turns hands and ages frames. -/
theorem of_victim (h : pool.Regular settings) {named : Option PageId} {policies : Policies}
    {frames : FrameTable} (hv : pool.policies.victim pool.frames = (named, policies, frames)) :
    pool.Unmoved { pool with policies, frames } where
  capacity := rfl
  frames := Policies.sameContents_of_victim hv
  names := Policies.names_victim hv
  candidates := h.tracked.candidates_victim hv
  file? := rfl

end Unmoved

theorem unmoved_writeBack (hw : pool.writeBack id = (.error e, after)) : pool.Unmoved after := by
  cases writeBack_outcome hw with
  | failed frame e store hf hd hwrite => exact .of_store (Store.sameFile_write_of_error hwrite) _

/-- No room is made only where no page can go, or where the victim could not be written. Built-in
policies never refuse to let it go. -/
theorem unmoved_makeRoom (h : pool.Regular settings) (hm : pool.makeRoom = (.error e, after)) :
    pool.Unmoved after := by
  cases makeRoom_outcome hm with
  | noVictim policies frames hr hv => exact .of_victim h hv
  | unwritten victim policies frames e after hr hv hw =>
    exact (Unmoved.of_victim h hv).trans (unmoved_writeBack hw)
  | discarded victim policies frames written answer after hr hv hw hd =>
    exfalso
    obtain ⟨frame, hf, -⟩ := Policies.evictable_of_victim hv
    obtain ⟨rest, hrest, -⟩ := ((h.victim hv).writeBack hw).discard (h.owned victim frame hf).1
    rw [hd] at hrest
    cases hrest

theorem unmoved_getPage (h : pool.Regular settings) (hg : pool.getPage id = (.error e, after)) :
    pool.Unmoved after := by
  cases getPage_outcome hg with
  | unaddressable hv => exact .refl pool
  | unread e store hv hf hr => exact .of_store (Store.sameFile_read hr) _
  | crowded page store e after hv hf hr hm =>
    have hread : pool.Unmoved (pool.loadedFrom store) := .of_store (Store.sameFile_read hr) _
    have hregular : (pool.loadedFrom store).Regular settings := h.of_eq rfl rfl rfl
    exact hread.trans (unmoved_makeRoom hregular hm)

theorem unmoved_updatePage (h : pool.Regular settings)
    (hu : pool.updatePage id page = (.error e, after)) : pool.Unmoved after := by
  cases updatePage_outcome hu with
  | unaddressable hv => exact .refl pool
  | misdirected hv hp => exact .refl pool
  | crowded e after hv hp hf hm => exact unmoved_makeRoom h hm

/-- A page that is cached is pinned without fail. -/
theorem unmoved_pin (h : pool.Regular settings) (hp : pool.pin id = (.error e, after)) :
    pool.Unmoved after := by
  unfold pin at hp
  split at hp
  · cases hp
    exact .refl pool
  · exfalso
    rename_i frame hf
    have hvalid := (h.owned id frame hf).1
    obtain ⟨left, hw, -⟩ := h.tracked.withdraw hvalid (FrameTable.evictable_erase pool.frames id)
    rw [hw] at hp
    cases hp

theorem unmoved_unpin (hu : pool.unpin id = (.error e, after)) : pool.Unmoved after := by
  unfold unpin at hu
  split at hu <;> cases hu
  exact .refl pool

theorem unmoved_flushPage (hf : pool.flushPage id = (.error e, after)) : pool.Unmoved after := by
  unfold flushPage at hf
  split at hf
  · exact unmoved_writeBack hf
  · cases hf
    exact .refl pool

namespace Flushed

theorem refl (pool : Pool) : pool.Flushed pool [] where
  capacity := rfl
  policies := rfl
  find? _ := (if_neg List.not_mem_nil).symm
  stored := nofun
  file? := (if_pos rfl).symm
  base := rfl

theorem of_store {store : Store} (hs : pool.store.SameFile store) (stats : Statistics) :
    pool.Flushed { pool with store, stats } [] where
  capacity := rfl
  policies := rfl
  find? _ := (if_neg List.not_mem_nil).symm
  stored := nofun
  file? := hs.file?.trans (if_pos rfl).symm
  base := hs.base

theorem of_written (ho : pool.frames.Owned) {frame : Frame} {store : Store}
    (hf : pool.frames.find? id = some frame) (hw : pool.store.write frame.page = (.ok (), store))
    (stats : Statistics) :
    pool.Flushed { pool with frames := pool.frames.put (frame.withDirty false), store, stats }
      [id] where
  capacity := rfl
  policies := rfl
  find? other := by
    have hid := FrameTable.id_of_find? hf
    subst hid
    rw [FrameTable.find?_put, Frame.id_withDirty]
    simp only [List.mem_singleton, eq_comm (a := other)]
    split
    · rename_i hother
      rw [← hother, hf]
      rfl
    · rfl
  stored := by
    obtain ⟨hvalid, hpage⟩ := ho id frame hf
    intro other hother
    cases List.mem_singleton.mp hother
    refine ⟨frame, hf, ?_⟩
    rw [Store.block?, Store.file?_write hw, Option.bind_some, ← hpage]
    exact DataFile.block?_write_self (hpage.symm ▸ hvalid)
  file? := by
    rw [if_neg (List.cons_ne_nil id []), Store.file?_write hw, cachedPages, List.filterMap_cons, hf]
    rfl
  base := by
    rw [Store.base_write hw, cachedPages, List.filterMap_cons, hf]
    rfl

theorem file?_of_some {ids : List PageId} (h : pool.Flushed after ids) {file : DataFile}
    (hfile : pool.store.file? = some file) :
    after.store.file? = some ((pool.cachedPages ids).foldl DataFile.write file) := by
  rw [h.file?, Store.base_of_file? hfile]
  split
  · subst ids
    exact hfile
  · rfl

theorem find?_of_not_mem {ids : List PageId} (h : pool.Flushed after ids) (hn : id ∉ ids) :
    after.frames.find? id = pool.frames.find? id := by
  rw [h.find?, if_neg hn]

theorem owned {ids : List PageId} (h : pool.Flushed after ids) (ho : pool.frames.Owned) :
    after.frames.Owned := by
  intro id frame hf
  rw [h.find?] at hf
  split at hf
  · obtain ⟨former, hformer, rfl⟩ := Option.map_eq_some_iff.mp hf
    exact ho id former hformer
  · exact ho id frame hf

theorem dirty_of_append {front back : List PageId} (h : pool.Flushed after front)
    (hn : (front ++ back).Nodup) (hd : ∀ id ∈ front ++ back, pool.frames.Dirty id) :
    ∀ id ∈ back, after.frames.Dirty id := by
  intro id hback
  have hfront : id ∉ front := (List.disjoint_of_nodup_append hn).symm hback
  rw [FrameTable.Dirty, FrameTable.Has, h.find?_of_not_mem hfront]
  exact hd id (List.mem_append_right front hback)

theorem cachedPages_eq {ids others : List PageId} (h : pool.Flushed after ids)
    (hn : ∀ id ∈ others, id ∉ ids) : after.cachedPages others = pool.cachedPages others := by
  apply List.filterMap_congr
  intro id hmem
  rw [h.find?_of_not_mem (hn id hmem)]

theorem base_append {front back : List PageId} (h : pool.Flushed mid front)
    (hn : (front ++ back).Nodup) :
    (mid.cachedPages back).foldl DataFile.write mid.store.base =
      (pool.cachedPages (front ++ back)).foldl DataFile.write pool.store.base := by
  have hpages : pool.cachedPages (front ++ back) =
      pool.cachedPages front ++ pool.cachedPages back := List.filterMap_append
  have hothers : mid.cachedPages back = pool.cachedPages back :=
    h.cachedPages_eq fun other hmem => (List.disjoint_of_nodup_append hn).symm hmem
  rw [hpages, List.foldl_append, ← h.base, hothers]

/-- More pages, none of which was among the first. -/
theorem append (ho : pool.frames.Owned) {front back : List PageId} (h : pool.Flushed mid front)
    (h' : mid.Flushed after back) (hn : (front ++ back).Nodup) :
    pool.Flushed after (front ++ back) where
  capacity := h'.capacity.trans h.capacity
  policies := h'.policies.trans h.policies
  find? other := by
    rw [h'.find?]
    by_cases hback : other ∈ back
    · have hfront : other ∉ front := (List.disjoint_of_nodup_append hn).symm hback
      rw [if_pos hback, if_pos (List.mem_append_right front hback), h.find?_of_not_mem hfront]
    · rw [if_neg hback, h.find?]
      simp only [List.mem_append, hback, or_false]
  stored := by
    intro other hmem
    rcases List.mem_append.mp hmem with hfront | hback
    · -- The pages after it go to other places of the file.
      obtain ⟨frame, hf, hblock⟩ := h.stored other hfront
      refine ⟨frame, hf, ?_⟩
      rw [Store.block?] at hblock ⊢
      obtain ⟨file, hfile, himage⟩ := Option.bind_eq_some_iff.mp hblock
      rw [h'.file?_of_some hfile, Option.bind_some]
      apply DataFile.block?_foldl_write _ himage
      intro page hpage
      obtain ⟨later, hin, hlater⟩ := List.mem_filterMap.mp hpage
      obtain ⟨cached, hcached, rfl⟩ := Option.map_eq_some_iff.mp hlater
      obtain ⟨hvalid, hown⟩ := h.owned ho later cached hcached
      rw [hown]
      refine ⟨hvalid, fun heq => ?_⟩
      exact List.disjoint_of_nodup_append hn (PageId.index_injective heq ▸ hfront) hin
    · obtain ⟨cached, hcached, himage⟩ := h'.stored other hback
      have hfront : other ∉ front := (List.disjoint_of_nodup_append hn).symm hback
      exact ⟨cached, h.find?_of_not_mem hfront ▸ hcached, himage⟩
  file? := by
    rw [h'.file?]
    by_cases hback : back = []
    · rw [if_pos hback, hback, List.append_nil, h.file?]
    · have hne : front ++ back ≠ [] := fun hnil => hback (List.append_eq_nil_iff.mp hnil).2
      rw [if_neg hback, if_neg hne, h.base_append hn]
  base := h'.base.trans (h.base_append hn)

end Flushed

/-- A changed page that is flushed is written, or else nothing is. -/
theorem flushed_flushPage (ho : pool.frames.Owned) (hd : pool.frames.Dirty id)
    (hf : pool.flushPage id = (answer, after)) :
    after.store.calls = ⟨.write, id, answer.isOk⟩ :: pool.store.calls ∧
      pool.Flushed after (if answer.isOk then [id] else []) := by
  obtain ⟨frame, hframe, hdirty⟩ := hd
  obtain ⟨hvalid, hpage⟩ := ho id frame hframe
  rw [flushPage, if_pos hvalid] at hf
  cases writeBack_outcome hf with
  | unneeded hn => exact absurd ⟨frame, hframe, hdirty⟩ hn
  | failed found e store hfound hd hw =>
    rw [← (ho id found hfound).2]
    exact ⟨Store.calls_write hw, .of_store (Store.sameFile_write_of_error hw) _⟩
  | written found store hfound hd hw =>
    constructor
    · rw [← (ho id found hfound).2]
      exact Store.calls_write hw
    · exact .of_written ho hfound hw _

/-- A pass that fails has written the pages in front of the one that could not be written. -/
theorem flushed_flushPages_of_error (ho : pool.frames.Owned) {ids : List PageId}
    (hd : ∀ id ∈ ids, pool.frames.Dirty id) (hn : ids.Nodup)
    (hf : pool.flushPages ids = (.error e, after)) :
    ∃ front failed rest, ids = front ++ failed :: rest ∧ pool.Flushed after front ∧
      after.store.calls = ⟨.write, failed, false⟩ :: (writesOf front ++ pool.store.calls) := by
  induction ids generalizing pool with
  | nil => cases hf
  | cons id ids ih =>
    rw [flushPages] at hf
    have hnodup := (List.nodup_cons.mp hn).2
    have hdirty := hd id List.mem_cons_self
    split at hf
    · rename_i hfirst
      cases hf
      obtain ⟨hcalls, hflushed⟩ := flushed_flushPage ho hdirty hfirst
      exact ⟨[], id, ids, rfl, hflushed, hcalls⟩
    · rename_i mid hfirst
      obtain ⟨hcalls, hflushed⟩ := flushed_flushPage ho hdirty hfirst
      have hstill := hflushed.dirty_of_append hn hd
      obtain ⟨front, failed, rest, rfl, hrest, hlater⟩ := ih (hflushed.owned ho) hstill hnodup hf
      have hfront : (id :: front).Nodup :=
        hn.sublist ((List.sublist_append_left front _).cons_cons id)
      refine ⟨id :: front, failed, rest, rfl, hflushed.append ho hrest hfront, ?_⟩
      rw [hlater, hcalls]
      simp [writesOf, Except.isOk, Except.toBool]

/-- A pass that succeeds has written its whole batch. -/
theorem flushed_flushPages_of_ok (ho : pool.frames.Owned) {ids : List PageId}
    (hd : ∀ id ∈ ids, pool.frames.Dirty id) (hn : ids.Nodup)
    (hf : pool.flushPages ids = (.ok (), after)) : pool.Flushed after ids := by
  induction ids generalizing pool with
  | nil =>
    cases hf
    exact .refl _
  | cons id ids ih =>
    rw [flushPages] at hf
    have hnodup := (List.nodup_cons.mp hn).2
    split at hf
    · cases hf
    · rename_i mid hfirst
      obtain ⟨-, hflushed⟩ := flushed_flushPage ho (hd id List.mem_cons_self) hfirst
      have hstill := hflushed.dirty_of_append hn hd
      exact hflushed.append ho (ih (hflushed.owned ho) hstill hnodup hf) hn

theorem not_dirty_of_flushAll (ho : pool.frames.Owned) (hf : pool.flushAll = (.ok (), after))
    (id : PageId) : ¬after.frames.Dirty id := by
  have hd : ∀ id ∈ pool.dirtyPages, pool.frames.Dirty id := fun id => FrameTable.mem_dirtyIds.mp
  have hn := PageId.nodup_of_pairwise_lt pool.frames.pairwise_dirtyIds
  have hflushed := flushed_flushPages_of_ok ho hd hn hf
  rintro ⟨frame, hframe, hdirty⟩
  rw [hflushed.find?] at hframe
  split at hframe
  · obtain ⟨former, -, rfl⟩ := Option.map_eq_some_iff.mp hframe
    exact Frame.not_isDirty_withDirty former hdirty
  · rename_i hclean
    exact hclean (FrameTable.mem_dirtyIds.mpr ⟨frame, hframe, hdirty⟩)

theorem filter_lt_of_pairwise {front rest : List PageId} {failed : PageId}
    (h : (front ++ failed :: rest).Pairwise (· < ·)) :
    ((front ++ failed :: rest).filter fun id => id < failed) = front := by
  obtain ⟨-, hrest, hfront⟩ := List.pairwise_append.mp h
  have hlater := (List.pairwise_cons.mp hrest).1
  have hkept : front.filter (fun id => decide (id < failed)) = front :=
    List.filter_eq_self.mpr fun id hmem => decide_eq_true (hfront id hmem failed (by simp))
  have hdropped : rest.filter (fun id => decide (id < failed)) = [] := by
    apply List.filter_eq_nil_iff.mpr
    intro id hmem
    rw [decide_eq_true_eq]
    exact Nat.lt_asymm (hlater id hmem)
  rw [List.filter_append, List.filter_cons_of_neg (by simp [PageId.lt_def]), hkept, hdropped,
    List.append_nil]

/-- The pages in front of the one that failed are those of the batch with a lower id. -/
theorem flushed_of_batch (ho : pool.frames.Owned) {batch : List PageId}
    (hb : batch.Sublist pool.dirtyPages) (hf : pool.flushPages batch = (.error e, after)) :
    ∃ failed ∈ batch, pool.Flushed after (batch.filter fun id => id < failed) ∧
      after.store.calls = ⟨.write, failed, false⟩ ::
        (writesOf (batch.filter fun id => id < failed) ++ pool.store.calls) := by
  have hsorted : batch.Pairwise (· < ·) := pool.frames.pairwise_dirtyIds.sublist hb
  have hd : ∀ id ∈ batch, pool.frames.Dirty id := fun id hmem =>
    FrameTable.mem_dirtyIds.mp (hb.subset hmem)
  have hn := PageId.nodup_of_pairwise_lt hsorted
  obtain ⟨front, failed, rest, rfl, hflushed, hcalls⟩ := flushed_flushPages_of_error ho hd hn hf
  refine ⟨failed, by simp, ?_⟩
  rw [filter_lt_of_pairwise hsorted]
  exact ⟨hflushed, hcalls⟩

/-- A call of a pass is told by its batch, any other fails without a trace. -/
theorem unmoved_or_flushed (h : pool.Regular settings) {operation : Operation}
    (he : pool.perform operation = (.error e, after)) :
    (operation.batch? pool = none ∧ pool.Unmoved after) ∨
      ∃ batch, operation.batch? pool = some batch ∧ batch.Sublist pool.dirtyPages ∧
        pool.flushPages batch = (.error e, after) := by
  cases operation with
  | update id page => exact Or.inl ⟨rfl, unmoved_updatePage h he⟩
  | request request =>
    cases request with
    | get id =>
      obtain ⟨hanswer, hafter⟩ := Prod.mk.inj he
      rcases hg : pool.getPage id with ⟨answer, left⟩
      rw [hg] at hanswer hafter
      cases answer with
      | ok frame => cases hanswer
      | error e => exact Or.inl ⟨rfl, hafter ▸ unmoved_getPage h hg⟩
    | pin id => exact Or.inl ⟨rfl, unmoved_pin h he⟩
    | unpin id => exact Or.inl ⟨rfl, unmoved_unpin he⟩
    | flush id => exact Or.inl ⟨rfl, unmoved_flushPage he⟩
    | flushAll => exact Or.inr ⟨_, rfl, .refl _, he⟩
    | flushBatch limit =>
      refine Or.inr ⟨_, rfl, List.take_sublist limit _, ?_⟩
      rw [perform, serve, flushBatch] at he
      rcases hf : pool.flushPages (pool.dirtyPages.take limit) with ⟨answer, left⟩
      rw [hf] at he
      cases answer <;> cases he
      rfl

variable {store : Store}

/-- In whatever state a run leaves a pool, and whichever calls of the store fail, a call that fails
leaves the pool as it was if it is about one page. A pass that fails has written the pages of its
batch with lower ids than the one that could not be written, and has removed their marks; nothing
else has changed, and if it has written none then the file is as it was or missing as it was. -/
theorem perform_error (hn : ∀ policy ∈ settings.policies, policy.IsNew)
    (h : create settings store = .ok pool) (steps : List Step) (fails : Access → PageId → Bool)
    {operation : Operation}
    (he : ((pool.run steps).failing fails).perform operation = (.error e, after)) :
    (operation.batch? (pool.run steps) = none → (pool.run steps).Unmoved after) ∧
    ∀ batch, operation.batch? (pool.run steps) = some batch →
      ∃ failed ∈ batch, (pool.run steps).Flushed after (batch.filter fun id => id < failed) ∧
        after.store.calls = ⟨.write, failed, false⟩ ::
          (writesOf (batch.filter fun id => id < failed) ++ (pool.run steps).store.calls) := by
  have hr := ((regular_of_create hn h).run steps).failing fails
  have hbatch : operation.batch? ((pool.run steps).failing fails) =
      operation.batch? (pool.run steps) := rfl
  rcases unmoved_or_flushed hr he with ⟨hnone, hsame⟩ | ⟨batch, hsome, hsub, hf⟩
  · rw [← hbatch, hnone]
    refine ⟨fun _ => ?_, nofun⟩
    exact (Unmoved.of_store (Store.sameFile_failing _ fails) _).trans hsame
  · rw [← hbatch, hsome]
    refine ⟨nofun, ?_⟩
    rintro _ ⟨⟩
    obtain ⟨failed, hmem, hflushed, hcalls⟩ := flushed_of_batch hr.owned hsub hf
    exact ⟨failed, hmem, ⟨hflushed.capacity, hflushed.policies, hflushed.find?, hflushed.stored,
      hflushed.file?, hflushed.base⟩, hcalls⟩

/-- Page 1 cannot be written, so page 0 alone is on disk, in a file that was missing before. -/
theorem perform_error_flushAll :
    ∃ pool after e, create (.dual 2 (.lru .empty) (.lru .empty)) (.vacant ["data"]) = .ok pool ∧
      ((pool.run [{ operation := .update (.ofIndex 0) (.empty (.ofIndex 0)) },
        { operation := .update (.ofIndex 1) (.empty (.ofIndex 1)) }]).failing
          fun _ id => id = .ofIndex 1).perform (.request .flushAll) = (.error e, after) ∧
      after.frames.find? (.ofIndex 0) =
        some ((Frame.fresh (.empty (.ofIndex 0)) (.ofIndex 0)).withDirty false) ∧
      after.frames.find? (.ofIndex 1) = some (Frame.fresh (.empty (.ofIndex 1)) (.ofIndex 1)) ∧
      after.store.file? = some (DataFile.empty.write (.empty (.ofIndex 0))) ∧
      after.store.calls = [⟨.write, .ofIndex 1, false⟩, ⟨.write, .ofIndex 0, true⟩] := by
  obtain ⟨pool, hc⟩ : ∃ pool, create (.dual 2 (.lru .empty) (.lru .empty)) (.vacant ["data"]) =
      .ok pool := ⟨_, rfl⟩
  let steps : List Step := [{ operation := .update (.ofIndex 0) (.empty (.ofIndex 0)) },
    { operation := .update (.ofIndex 1) (.empty (.ofIndex 1)) }]
  obtain ⟨hdirty, hfirst, hsecond, hbase, hcalls⟩ :
      (pool.run steps).dirtyPages = [.ofIndex 0, .ofIndex 1] ∧
      (pool.run steps).frames.find? (.ofIndex 0) =
        some (Frame.fresh (.empty (.ofIndex 0)) (.ofIndex 0)) ∧
      (pool.run steps).frames.find? (.ofIndex 1) =
        some (Frame.fresh (.empty (.ofIndex 1)) (.ofIndex 1)) ∧
      (pool.run steps).store.base = DataFile.empty ∧ (pool.run steps).store.calls = [] := by
    cases hc
    exact ⟨rfl, rfl, rfl, rfl, rfl⟩
  obtain ⟨e, after, he, hlast⟩ : ∃ e after,
      ((pool.run steps).failing fun _ id => id = .ofIndex 1).perform (.request .flushAll) =
        (.error e, after) ∧ after.store.calls.head? = some ⟨.write, .ofIndex 1, false⟩ := by
    cases hc
    exact ⟨_, _, rfl, rfl⟩
  have hn : ∀ policy ∈ (PoolSettings.dual 2 (.lru .empty) (.lru .empty)).policies,
      policy.IsNew := by
    simp [PoolSettings.dual, Policy.IsNew]
  obtain ⟨-, hpass⟩ := perform_error hn hc steps (fun _ id => id = .ofIndex 1) he
  obtain ⟨failed, -, hflushed, hmade⟩ := hpass [.ofIndex 0, .ofIndex 1] (congrArg some hdirty)
  obtain rfl : failed = .ofIndex 1 := by
    rw [hmade] at hlast
    cases hlast
    rfl
  have hbatch : [PageId.ofIndex 0, PageId.ofIndex 1].filter (fun id => id < .ofIndex 1) =
      [.ofIndex 0] := by decide
  rw [hbatch] at hflushed hmade
  refine ⟨pool, after, e, hc, he, ?_, ?_, ?_, ?_⟩
  · rw [hflushed.find?, if_pos List.mem_cons_self, hfirst]
    rfl
  · rw [hflushed.find?, if_neg (by decide), hsecond]
  · rw [hflushed.file?, if_neg (List.cons_ne_nil _ _), hbase, cachedPages, List.filterMap_cons,
      hfirst]
    rfl
  · rw [hmade, hcalls]
    rfl

end

end Pool

end PagedStorage
