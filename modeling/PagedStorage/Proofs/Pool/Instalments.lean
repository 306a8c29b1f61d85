import Mathlib.Algebra.Ring.Nat
import Mathlib.Data.List.Perm.Basic
import PagedStorage.Pool.Maintenance
import PagedStorage.Proofs.Pool.Failure
import PagedStorage.Proofs.Pool.Formed

namespace PagedStorage

/-- The writes of these pages fail, and no others. No write changes that (`fst_write_of_write`). -/
def Store.RefusesOnly (store : Store) (refused : PageId → Prop) : Prop :=
  ∀ page, (store.write page).1 = .ok () ↔ ¬refused page.id

namespace MaintenancePass

def request : MaintenancePass → Pool.Request
  | checkpoint => .flushAll
  | writeBatch limit => .flushBatch limit

def batch (ids : List PageId) : MaintenancePass → List PageId
  | checkpoint => ids
  | writeBatch limit => ids.take limit

def limit : MaintenancePass → Nat
  | checkpoint => 0
  | writeBatch limit => limit

end MaintenancePass

namespace Pool

/-- `after` is what passes over changed pages have made of the pool: these pages are written, in
this order, and then the writes of `failures` have failed, the latest in front. -/
structure Advanced (pool after : Pool) (ids failures : List PageId) : Prop where
  flushed : pool.Flushed after ids
  calls : after.store.calls =
    failures.map (⟨.write, ·, false⟩) ++ (writesOf ids ++ pool.store.calls)
  stats : after.stats =
    { pool.stats with
      pagesWritten := pool.stats.pagesWritten + ids.length
      failedWrites := pool.stats.failedWrites + failures.length }
  answers : ∀ page, (after.store.write page).1 = (pool.store.write page).1

/-- What `count` batches answer, one after another, and the pool that they leave behind. -/
def flushBatches (pool : Pool) (limit : Nat) : Nat → List (Except StorageError Nat) × Pool
  | 0 => ([], pool)
  | count + 1 =>
    let (answer, pool) := pool.flushBatch limit
    let (answers, pool) := pool.flushBatches limit count
    (answer :: answers, pool)

def answers (pool : Pool) : List MaintenancePass → List (Except StorageError Unit)
  | [] => []
  | pass :: passes => (pool.serve pass.request).1 :: (pool.runPass pass).answers passes

def failedPasses (pool : Pool) (passes : List MaintenancePass) : Nat :=
  (pool.answers passes).countP fun answer => !answer.isOk

section

variable {settings : PoolSettings} {store : Store} {pool mid after : Pool} {id failed : PageId}
  {ids front back rest : List PageId} {refused : PageId → Prop}

theorem flushPages_append_of_ok (h : pool.flushPages front = (.ok (), mid)) (back : List PageId) :
    pool.flushPages (front ++ back) = mid.flushPages back := by
  induction front generalizing pool with
  | nil =>
    cases h
    rfl
  | cons id front ih =>
    rw [flushPages] at h
    rw [List.cons_append, flushPages]
    split at h
    · cases h
    · exact ih h

theorem nodup_dirtyPages (pool : Pool) : pool.dirtyPages.Nodup :=
  PageId.nodup_of_pairwise_lt pool.frames.pairwise_dirtyIds

theorem dirty_of_mem_dirtyPages (h : id ∈ pool.dirtyPages) : pool.frames.Dirty id :=
  FrameTable.mem_dirtyIds.mp h

theorem Flushed.dirtyPages_eq (h : pool.Flushed after front)
    (hd : pool.dirtyPages = front ++ back) : after.dirtyPages = back := by
  have hn : (front ++ back).Nodup := hd ▸ pool.nodup_dirtyPages
  have hsub : back.Sublist pool.dirtyPages := hd ▸ List.sublist_append_right front back
  have hmem : ∀ id, id ∈ after.dirtyPages ↔ id ∈ back := by
    intro id
    rw [dirtyPages, FrameTable.mem_dirtyIds]
    constructor
    · rintro ⟨frame, hf, hdirty⟩
      rw [h.find?] at hf
      split at hf
      · obtain ⟨former, -, rfl⟩ := Option.map_eq_some_iff.mp hf
        exact absurd hdirty (Frame.not_isDirty_withDirty former)
      · rename_i hfront
        have hthere : id ∈ pool.dirtyPages := FrameTable.mem_dirtyIds.mpr ⟨frame, hf, hdirty⟩
        exact (List.mem_append.mp (hd ▸ hthere)).resolve_left hfront
    · refine h.dirty_of_append hn (fun other hother => ?_) id
      exact dirty_of_mem_dirtyPages (hd ▸ hother)
  have hperm : after.dirtyPages.Perm back :=
    (List.perm_ext_iff_of_nodup after.nodup_dirtyPages (List.nodup_append.mp hn).2.1).mpr hmem
  refine hperm.eq_of_pairwise ?_ after.frames.pairwise_dirtyIds
    (pool.frames.pairwise_dirtyIds.sublist hsub)
  intro a b _ _ hab hba
  exact absurd hab (Nat.lt_asymm hba)

namespace Advanced

theorem refl (pool : Pool) : pool.Advanced pool [] [] where
  flushed := .refl pool
  calls := rfl
  stats := rfl
  answers _ := rfl

theorem refusesOnly {failures : List PageId} (h : pool.Advanced after ids failures)
    (hr : pool.store.RefusesOnly refused) : after.store.RefusesOnly refused := by
  intro page
  rw [h.answers page]
  exact hr page

/-- Once a write has failed there are no more pages that are written. -/
theorem trans (ho : pool.frames.Owned) {failures later : List PageId}
    (h : pool.Advanced mid front failures) (h' : mid.Advanced after back later)
    (hn : (front ++ back).Nodup) (hstop : failures = [] ∨ back = []) :
    pool.Advanced after (front ++ back) (later ++ failures) where
  flushed := h.flushed.append ho h'.flushed hn
  calls := by
    rw [h'.calls, h.calls]
    rcases hstop with rfl | rfl <;> simp [writesOf]
  stats := by
    rw [h'.stats, h.stats]
    simp [Nat.add_assoc, Nat.add_comm later.length]
  answers page := (h'.answers page).trans (h.answers page)

end Advanced

theorem flushPage_of_not_refused (ho : pool.frames.Owned) (hr : pool.store.RefusesOnly refused)
    (hd : pool.frames.Dirty id) (hid : ¬refused id) :
    ∃ after, pool.flushPage id = (.ok (), after) ∧ pool.Advanced after [id] [] := by
  obtain ⟨frame, hf, hdirty⟩ := hd
  obtain ⟨hv, hpage⟩ := ho id frame hf
  have hok := (hr frame.page).mpr (hpage.symm ▸ hid)
  rcases hw : pool.store.write frame.page with ⟨answer, left⟩
  obtain rfl : answer = .ok () := by rwa [hw] at hok
  rw [flushPage, if_pos hv, (WriteBackOutcome.written frame left hf hdirty hw).eq]
  refine ⟨_, rfl, .of_written ho hf hw _, ?_, rfl, Store.fst_write_of_write hw⟩
  rw [← hpage]
  exact Store.calls_write hw

theorem flushPage_of_refused (ho : pool.frames.Owned) (hr : pool.store.RefusesOnly refused)
    (hd : pool.frames.Dirty id) (hid : refused id) :
    ∃ e after, pool.flushPage id = (.error e, after) ∧ pool.Advanced after [] [id] := by
  obtain ⟨frame, hf, hdirty⟩ := hd
  obtain ⟨hv, hpage⟩ := ho id frame hf
  have hfails := (hr frame.page).not.mpr (not_not_intro (hpage.symm ▸ hid))
  rcases hw : pool.store.write frame.page with ⟨answer, left⟩
  rw [hw] at hfails
  cases answer with
  | ok done => exact absurd rfl hfails
  | error e =>
    rw [flushPage, if_pos hv, (WriteBackOutcome.failed frame e left hf hdirty hw).eq]
    refine ⟨e, _, rfl, .of_store (Store.sameFile_write_of_error hw) _, ?_, rfl,
      Store.fst_write_of_write hw⟩
    rw [← hpage]
    exact Store.calls_write hw

theorem flushPages_of_not_refused (ho : pool.frames.Owned) (hr : pool.store.RefusesOnly refused)
    (hn : ids.Nodup) (hd : ∀ id ∈ ids, pool.frames.Dirty id) (hids : ∀ id ∈ ids, ¬refused id) :
    ∃ after, pool.flushPages ids = (.ok (), after) ∧ pool.Advanced after ids [] := by
  induction ids generalizing pool with
  | nil => exact ⟨pool, rfl, .refl pool⟩
  | cons id ids ih =>
    obtain ⟨mid, hfirst, hmid⟩ :=
      flushPage_of_not_refused ho hr (hd id List.mem_cons_self) (hids id List.mem_cons_self)
    obtain ⟨after, hrest, hafter⟩ := ih (hmid.flushed.owned ho) (hmid.refusesOnly hr)
      (List.nodup_cons.mp hn).2 (hmid.flushed.dirty_of_append hn hd)
      fun other hmem => hids other (List.mem_cons_of_mem id hmem)
    refine ⟨after, ?_, hmid.trans ho hafter hn (.inl rfl)⟩
    rw [flushPages, hfirst]
    exact hrest

/-- The first page that is refused ends the pass. -/
theorem flushPages_of_refused (ho : pool.frames.Owned) (hr : pool.store.RefusesOnly refused)
    (hn : (front ++ failed :: rest).Nodup)
    (hd : ∀ id ∈ front ++ failed :: rest, pool.frames.Dirty id)
    (hfront : ∀ id ∈ front, ¬refused id) (hfailed : refused failed) :
    ∃ e after, pool.flushPages (front ++ failed :: rest) = (.error e, after) ∧
      pool.Advanced after front [failed] := by
  obtain ⟨mid, hok, hmid⟩ := flushPages_of_not_refused ho hr (List.nodup_append.mp hn).1
    (fun id hmem => hd id (List.mem_append_left _ hmem)) hfront
  have hdirty := hmid.flushed.dirty_of_append hn hd failed List.mem_cons_self
  obtain ⟨e, after, herror, hafter⟩ :=
    flushPage_of_refused (hmid.flushed.owned ho) (hmid.refusesOnly hr) hdirty hfailed
  refine ⟨e, after, ?_, ?_⟩
  · rw [flushPages_append_of_ok hok, flushPages, herror]
  · have hall := hmid.trans ho hafter (by simpa using (List.nodup_append.mp hn).1) (.inl rfl)
    simpa using hall

/-- A batch of changed pages none of which is refused leaves the others to the passes after it, and
a full flush then comes to the same end. -/
theorem flushBatch_of_not_refused (ho : pool.frames.Owned) (hr : pool.store.RefusesOnly refused)
    (limit : Nat) (hids : ∀ id ∈ pool.dirtyPages.take limit, ¬refused id) :
    ∃ mid, pool.flushBatch limit = (.ok (pool.dirtyPages.take limit).length, mid) ∧
      pool.Advanced mid (pool.dirtyPages.take limit) [] ∧
      mid.dirtyPages = pool.dirtyPages.drop limit ∧ pool.flushAll = mid.flushAll := by
  have hsplit : pool.dirtyPages = pool.dirtyPages.take limit ++ pool.dirtyPages.drop limit :=
    (List.take_append_drop limit pool.dirtyPages).symm
  obtain ⟨mid, hok, hmid⟩ := flushPages_of_not_refused ho hr
    (pool.nodup_dirtyPages.sublist (List.take_sublist limit _))
    (fun id hmem => dirty_of_mem_dirtyPages (List.mem_of_mem_take hmem)) hids
  have hleft := hmid.flushed.dirtyPages_eq hsplit
  refine ⟨mid, ?_, hmid, hleft, ?_⟩
  · rw [flushBatch, hok]
  · rw [flushAll, flushAll, hleft, ← flushPages_append_of_ok hok, ← hsplit]

theorem succ_batches {limit changed : Nat} (hl : 0 < limit) (hpos : 0 < changed) :
    (changed - limit + limit - 1) / limit + 1 = (changed + limit - 1) / limit := by
  have hsucc : (changed + limit - 1) / limit = (changed - 1) / limit + 1 := by
    rw [← Nat.add_div_right _ hl]
    congr 1
    omega
  rw [hsucc]
  rcases Nat.le_total limit changed with hle | hle
  · rw [Nat.sub_add_cancel hle]
  · rw [Nat.div_eq_of_lt (by omega), Nat.div_eq_of_lt (by omega)]

/-- Batches go on until nothing is changed, and none before that is empty. -/
theorem flushBatches_of_not_refused {limit : Nat} (hl : 0 < limit) (ho : pool.frames.Owned)
    (hr : pool.store.RefusesOnly refused) (hids : ∀ id ∈ pool.dirtyPages, ¬refused id) :
    ∃ counts : List Nat,
      pool.flushBatches limit (counts.length + 1) =
        (counts.map Except.ok ++ [.ok 0], pool.flushAll.2) ∧
      counts.length = (pool.dirtyPages.length + limit - 1) / limit ∧
      counts.sum = pool.dirtyPages.length ∧ ∀ count ∈ counts, count ≠ 0 := by
  induction hd : pool.dirtyPages.length using Nat.strong_induction_on generalizing pool with
  | _ changed ih =>
    obtain ⟨mid, hbatch, hmid, hleft, hsame⟩ := flushBatch_of_not_refused ho hr limit
      fun id hmem => hids id (List.mem_of_mem_take hmem)
    rw [List.length_take, hd] at hbatch
    rcases Nat.eq_zero_or_pos changed with rfl | hpos
    · have hnil := List.length_eq_zero_iff.mp hd
      refine ⟨[], ?_, ?_, rfl, nofun⟩
      · simp [flushBatches, flushBatch, flushAll, hnil, flushPages]
      · exact (Nat.div_eq_of_lt (by omega)).symm
    · have hrest : mid.dirtyPages.length = changed - limit := by
        rw [hleft, List.length_drop, hd]
      obtain ⟨counts, hcounts, hlength, hsum, hne⟩ := ih (changed - limit) (by omega)
        (hmid.flushed.owned ho) (hmid.refusesOnly hr)
        (fun id hmem => hids id (List.mem_of_mem_drop (hleft ▸ hmem))) hrest
      refine ⟨min limit changed :: counts, ?_, ?_, ?_, ?_⟩
      · rw [List.length_cons, flushBatches, hbatch]
        simp only [hcounts, hsame, List.map_cons, List.cons_append]
      · rw [List.length_cons, hlength, succ_batches hl hpos]
      · rw [List.sum_cons, hsum]
        omega
      · rw [List.forall_mem_cons]
        exact ⟨by omega, hne⟩

theorem serve_request (pool : Pool) (pass : MaintenancePass) :
    pool.serve pass.request = pool.flushPages (pass.batch pool.dirtyPages) := by
  cases pass with
  | checkpoint => rfl
  | writeBatch limit =>
    change ((pool.flushBatch limit).1.map fun _ => (), (pool.flushBatch limit).2) = _
    rw [flushBatch, MaintenancePass.batch]
    split <;> rename_i hf <;> rw [hf] <;> rfl

theorem runPass_eq (pool : Pool) (pass : MaintenancePass) :
    pool.runPass pass = (pool.serve pass.request).2 := by
  cases pass <;> rfl

/-- A pass over changed pages the lowest refused of which is `failed` fails if it comes to that
page, and else writes a full batch. -/
theorem serve_of_refused {below above : List PageId} (ho : pool.frames.Owned)
    (hr : pool.store.RefusesOnly refused) (hd : pool.dirtyPages = below ++ failed :: above)
    (hbelow : ∀ id ∈ below, ¬refused id) (hfailed : refused failed) (pass : MaintenancePass) :
    (∃ front back mid, below = front ++ back ∧ front.length = pass.limit ∧ pass ≠ .checkpoint ∧
      pool.serve pass.request = (.ok (), mid) ∧ pool.Advanced mid front []) ∨
    ∃ e mid, (pass = .checkpoint ∨ below.length < pass.limit) ∧
      pool.serve pass.request = (.error e, mid) ∧ pool.Advanced mid below [failed] := by
  have hn := hd ▸ pool.nodup_dirtyPages
  have hdirty : ∀ id ∈ below ++ failed :: above, pool.frames.Dirty id :=
    fun id hmem => dirty_of_mem_dirtyPages (hd ▸ hmem)
  have hblocked : ∀ rest, (failed :: rest).Sublist (failed :: above) →
      ∃ e mid, pool.flushPages (below ++ failed :: rest) = (.error e, mid) ∧
        pool.Advanced mid below [failed] := by
    intro rest hrest
    have hsub : (below ++ failed :: rest).Sublist (below ++ failed :: above) :=
      hrest.append_left below
    exact flushPages_of_refused ho hr (hn.sublist hsub)
      (fun id hmem => hdirty id (hsub.subset hmem)) hbelow hfailed
  rw [serve_request, hd]
  cases pass with
  | checkpoint =>
    obtain ⟨e, mid, hmid⟩ := hblocked above (.refl _)
    exact .inr ⟨e, mid, .inl rfl, hmid⟩
  | writeBatch limit =>
    rw [MaintenancePass.batch]
    rcases Nat.lt_or_ge below.length limit with hlt | hle
    · right
      obtain ⟨count, rfl⟩ := Nat.exists_eq_add_of_lt hlt
      obtain ⟨e, mid, hmid⟩ := hblocked (above.take count) ((List.take_sublist count _).cons_cons _)
      refine ⟨e, mid, .inr hlt, ?_⟩
      rw [Nat.add_assoc, List.take_length_add_append, List.take_succ_cons]
      exact hmid
    · left
      have hfront := List.take_sublist limit below
      obtain ⟨mid, hok, hmid⟩ := flushPages_of_not_refused ho hr
        ((List.nodup_append.mp hn).1.sublist hfront)
        (fun id hmem => hdirty id (List.mem_append_left _ (hfront.subset hmem)))
        (fun id hmem => hbelow id (hfront.subset hmem))
      refine ⟨below.take limit, below.drop limit, mid, (List.take_append_drop limit below).symm,
        List.length_take_of_le hle, nofun, ?_, hmid⟩
      rwa [List.take_append_of_le_length hle]

/-- However many passes there are, they write the pages below the refused one and go no further. -/
theorem foldl_runPass_of_refused {below above : List PageId} (ho : pool.frames.Owned)
    (hr : pool.store.RefusesOnly refused) (hd : pool.dirtyPages = below ++ failed :: above)
    (hbelow : ∀ id ∈ below, ¬refused id) (hfailed : refused failed)
    (passes : List MaintenancePass) :
    (0 < pool.failedPasses passes ↔
      .checkpoint ∈ passes ∨ below.length < (passes.map MaintenancePass.limit).sum) ∧
    ∃ front back, below = front ++ back ∧ (0 < pool.failedPasses passes → back = []) ∧
      pool.Advanced (passes.foldl runPass pool) front
        (List.replicate (pool.failedPasses passes) failed) := by
  induction passes generalizing pool below with
  | nil => exact ⟨by simp [failedPasses, answers], [], below, rfl, nofun, .refl pool⟩
  | cons pass passes ih =>
    have hn := (List.nodup_append.mp (hd ▸ pool.nodup_dirtyPages)).1
    have hcount : pool.failedPasses (pass :: passes) =
        (pool.runPass pass).failedPasses passes +
          if (pool.serve pass.request).1.isOk then 0 else 1 := by
      rw [failedPasses, answers, List.countP_cons, failedPasses]
      cases (pool.serve pass.request).1.isOk <;> rfl
    rw [hcount, List.foldl_cons, runPass_eq, List.map_cons, List.sum_cons, List.mem_cons]
    rcases serve_of_refused ho hr hd hbelow hfailed pass with
      ⟨first, later, mid, rfl, hlength, hpass, hserve, hmid⟩ | ⟨e, mid, hreach, hserve, hmid⟩
    · have hleft : mid.dirtyPages = later ++ failed :: above :=
        hmid.flushed.dirtyPages_eq (hd.trans (List.append_assoc first later _))
      obtain ⟨hiff, front, back, rfl, hback, hlast⟩ := ih (hmid.flushed.owned ho)
        (hmid.refusesOnly hr) hleft fun id hmem => hbelow id (List.mem_append_right first hmem)
      rw [hserve]
      refine ⟨?_, first ++ front, back, (List.append_assoc first front back).symm, hback, ?_⟩
      · change 0 < mid.failedPasses passes ↔ _
        have hreach : (first ++ (front ++ back)).length = pass.limit + (front ++ back).length := by
          rw [List.length_append, hlength]
        rw [hiff, hreach, Nat.add_lt_add_iff_left]
        simp only [Ne.symm hpass, false_or]
      · have hnodup : (first ++ front).Nodup :=
          hn.sublist ((List.sublist_append_left front back).append_left first)
        have hall := hmid.trans ho hlast hnodup (.inl rfl)
        rwa [List.append_nil] at hall
    · have hleft : mid.dirtyPages = [] ++ failed :: above := hmid.flushed.dirtyPages_eq hd
      obtain ⟨-, front, back, hnil, -, hlast⟩ := ih (hmid.flushed.owned ho)
        (hmid.refusesOnly hr) hleft nofun
      obtain ⟨rfl, rfl⟩ := List.append_eq_nil_iff.mp hnil.symm
      rw [hserve]
      refine ⟨?_, below, [], (List.append_nil below).symm, fun _ => rfl, ?_⟩
      · refine iff_of_true (Nat.succ_pos _) ?_
        rcases hreach with rfl | hlt
        · exact .inl (.inl rfl)
        · exact .inr (Nat.lt_add_right _ hlt)
      · have hall := hmid.trans ho hlast ((List.append_nil below).symm ▸ hn) (.inr rfl)
        rwa [List.append_nil, ← List.replicate_succ'] at hall

/-- In whatever state a run leaves a pool, and whichever writes are refused from then on: if none of
them is of a changed page, a full flush writes each changed page once, lowest id first, and batches
come to the very same end, in as few non-empty ones as there can be. Otherwise the lowest refused
page stops every checkpoint, and batches once they have come to it. Once a pass has failed, the
changed pages below that one have been written, each once, and nothing else has, however many passes
follow. -/
theorem instalments (h : create settings store = .ok pool) (steps : List Step)
    (fails : Access → PageId → Bool)
    (hr : ((pool.run steps).failing fails).store.RefusesOnly refused) {limit : Nat}
    (hl : 0 < limit) :
    let start := (pool.run steps).failing fails
    start.dirtyPages.Pairwise (· < ·) ∧
    (∀ id, id ∈ start.dirtyPages ↔ start.frames.Dirty id) ∧
    ((∀ id ∈ start.dirtyPages, ¬refused id) → ∃ (after : Pool) (counts : List Nat),
      start.flushAll = (.ok (), after) ∧ start.Advanced after start.dirtyPages [] ∧
      after.dirtyPages = [] ∧
      start.flushBatches limit (counts.length + 1) = (counts.map Except.ok ++ [.ok 0], after) ∧
      counts.length = (start.dirtyPages.length + limit - 1) / limit ∧
      counts.sum = start.dirtyPages.length ∧ ∀ count ∈ counts, count ≠ 0) ∧
    ∀ failed ∈ start.dirtyPages, refused failed →
      (∀ id ∈ start.dirtyPages, id < failed → ¬refused id) → ∀ passes,
        (0 < start.failedPasses passes ↔ .checkpoint ∈ passes ∨
          (start.dirtyPages.filter fun id => id < failed).length <
            (passes.map MaintenancePass.limit).sum) ∧
        (0 < start.failedPasses passes →
          start.Advanced (passes.foldl runPass start)
            (start.dirtyPages.filter fun id => id < failed)
            (List.replicate (start.failedPasses passes) failed)) := by
  intro start
  have ho : start.frames.Owned := ((formed_of_create h).run steps).owned
  have hsorted := start.frames.pairwise_dirtyIds
  refine ⟨hsorted, fun id => FrameTable.mem_dirtyIds, ?_, ?_⟩
  · intro hids
    obtain ⟨after, hflush, hafter⟩ := flushPages_of_not_refused ho hr start.nodup_dirtyPages
      (fun id hmem => dirty_of_mem_dirtyPages hmem) hids
    obtain ⟨counts, hcounts, hsizes⟩ := flushBatches_of_not_refused hl ho hr hids
    have hall : start.flushAll = (.ok (), after) := hflush
    rw [hall] at hcounts
    refine ⟨after, counts, hall, hafter, ?_, hcounts, hsizes⟩
    exact hafter.flushed.dirtyPages_eq (List.append_nil _).symm
  · intro failed hmem hfailed hlowest passes
    obtain ⟨below, above, hd⟩ := List.append_of_mem hmem
    have hbelow : (start.dirtyPages.filter fun id => id < failed) = below := by
      rw [hd]
      exact filter_lt_of_pairwise (hd ▸ hsorted)
    have hok : ∀ id ∈ below, ¬refused id := by
      intro id hin
      rw [← hbelow, List.mem_filter, decide_eq_true_eq] at hin
      exact hlowest id hin.1 hin.2
    obtain ⟨hiff, front, back, hsplit, hback, hlast⟩ :=
      foldl_runPass_of_refused ho hr hd hok hfailed passes
    rw [hbelow]
    refine ⟨hiff, fun hpos => ?_⟩
    rw [hback hpos, List.append_nil] at hsplit
    rwa [hsplit]

/-- Page 1 cannot be written, so page 0 alone is, by the first batch, and two passes fail. -/
theorem instalments_blocked :
    let update := fun index : Nat =>
      { operation := .update (.ofIndex index) (.empty (.ofIndex index)) : Step }
    ∃ pool, create { capacity := 3, policies := [.lru .empty] } (.vacant ["data"]) = .ok pool ∧
      let start := (pool.run [update 0, update 1, update 2]).failing fun _ id => id = .ofIndex 1
      start.Advanced ([.writeBatch 1, .writeBatch 1, .checkpoint].foldl runPass start)
        [.ofIndex 0] [.ofIndex 1, .ofIndex 1] := by
  intro update
  have hc : create { capacity := 3, policies := [.lru .empty] } (.vacant ["data"]) = .ok _ := rfl
  refine ⟨_, hc, ?_⟩
  intro start
  have hr : start.store.RefusesOnly (· = .ofIndex 1) := by
    intro page
    have htarget : (start.store.volume.find start.store.path).target? =
        some ⟨0, ["data"]⟩ := by decide +kernel
    rw [Store.fst_write, Volume.writePage, Volume.modify_of_target? htarget]
    change (if decide (page.id = .ofIndex 1) = true then _ else _) = _ ↔ _
    simp
  have hchanged : start.dirtyPages = [.ofIndex 0, .ofIndex 1, .ofIndex 2] := by decide +kernel
  have hfailed : start.failedPasses [.writeBatch 1, .writeBatch 1, .checkpoint] = 2 := by
    decide +kernel
  have hmem : PageId.ofIndex 1 ∈ start.dirtyPages := hchanged ▸ by decide
  have hbelow : (start.dirtyPages.filter fun id => id < PageId.ofIndex 1) = [.ofIndex 0] := by
    rw [hchanged]
    decide
  have hlowest : ∀ id ∈ start.dirtyPages, id < PageId.ofIndex 1 → ¬id = .ofIndex 1 := by
    rintro _ _ hlt rfl
    exact Nat.lt_irrefl _ hlt
  obtain ⟨-, -, -, hblocked⟩ := instalments hc _ _ hr Nat.one_pos
  have hlast := (hblocked _ hmem rfl hlowest _).2 (hfailed ▸ Nat.two_pos)
  rwa [hfailed, hbelow] at hlast

end

end Pool

end PagedStorage
