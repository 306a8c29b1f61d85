import PagedStorage.Proofs.Pool.Newest
import PagedStorage.Proofs.Pool.Regular

namespace PagedStorage

def Call.number (calls : List Call) (access : Access) (succeeded : Bool) : Nat :=
  calls.countP fun call => call.access = access ∧ call.succeeded = succeeded

namespace FrameTable

def mark (table : FrameTable) (id : PageId) : Nat := if table.Dirty id then 1 else 0

variable {table after : FrameTable} {id : PageId}

theorem mark_le_one (table : FrameTable) (id : PageId) : table.mark id ≤ 1 := by
  unfold mark
  split <;> omega

theorem mark_of_dirty (h : table.Dirty id) : table.mark id = 1 := if_pos h

theorem mark_of_not_dirty (h : ¬table.Dirty id) : table.mark id = 0 := if_neg h

theorem mark_le_mark (h : after.Dirty id → table.Dirty id) : after.mark id ≤ table.mark id := by
  by_cases hd : after.Dirty id
  · rw [mark_of_dirty hd, mark_of_dirty (h hd)]
  · rw [mark_of_not_dirty hd]
    exact Nat.zero_le _

theorem mark_put (table : FrameTable) (frame : Frame) (id : PageId) :
    (table.put frame).mark id =
      if frame.id = id then if frame.IsDirty then 1 else 0 else table.mark id := by
  simp only [mark, dirty_put]
  by_cases h : frame.id = id
  · simp only [if_pos h]
  · simp only [if_neg h]

end FrameTable

namespace Pool

/-- What happened to a pool between two states. -/
structure Account where
  /-- The calls on the store, the latest in front. -/
  made : List Call := []
  /-- The pages asked for, cached or not. -/
  requests : Nat := 0
  /-- The pages cached to answer a request. -/
  loaded : Nat := 0
  /-- The pages cached for a new image. -/
  created : Nat := 0
  /-- The images that each page was given. -/
  updates : PageId → Nat := fun _ => 0

def Account.andThen (first second : Account) : Account where
  made := second.made ++ first.made
  requests := second.requests + first.requests
  loaded := second.loaded + first.loaded
  created := second.created + first.created
  updates id := second.updates id + first.updates id

theorem Account.number_andThen (first second : Account) (access : Access) (succeeded : Bool) :
    Call.number (first.andThen second).made access succeeded =
      Call.number second.made access succeeded + Call.number first.made access succeeded :=
  List.countP_append

structure Balanced (pool after : Pool) (account : Account) : Prop where
  calls : after.store.calls = account.made ++ pool.store.calls
  requests : after.stats.hits + after.stats.misses =
    pool.stats.hits + pool.stats.misses + account.requests
  pagesRead : after.stats.pagesRead = pool.stats.pagesRead + Call.number account.made .read true
  pagesWritten : after.stats.pagesWritten =
    pool.stats.pagesWritten + Call.number account.made .write true
  failedWrites : after.stats.failedWrites =
    pool.stats.failedWrites + Call.number account.made .write false
  /-- Each page that came in is still cached or was evicted. -/
  frames : after.frames.size + after.stats.evictions =
    pool.frames.size + pool.stats.evictions + account.loaded + account.created
  /-- A write uses up a mark, and only a new image makes one. -/
  marks : ∀ id, account.made.count ⟨.write, id, true⟩ + after.frames.mark id ≤
    pool.frames.mark id + account.updates id

section

variable {pool mid after : Pool} {settings : PoolSettings} {id : PageId} {page : Page}
  {frame former : Frame} {answer : Except StorageError Unit} {first second : Account}

namespace Balanced

theorem quiet (hcalls : after.store.calls = pool.store.calls) (hstats : after.stats = pool.stats)
    (hsize : after.frames.size = pool.frames.size)
    (hd : ∀ id, after.frames.Dirty id → pool.frames.Dirty id) : pool.Balanced after {} where
  calls := hcalls
  requests := by rw [hstats, Nat.add_zero]
  pagesRead := by rw [hstats]; rfl
  pagesWritten := by rw [hstats]; rfl
  failedWrites := by rw [hstats]; rfl
  frames := by rw [hstats, hsize]; rfl
  marks id := by
    rw [List.count_nil, Nat.zero_add]
    exact FrameTable.mark_le_mark (hd id)

theorem refl (pool : Pool) : pool.Balanced pool {} := quiet rfl rfl rfl fun _ hd => hd

theorem trans (h : pool.Balanced mid first) (h' : mid.Balanced after second) :
    pool.Balanced after (first.andThen second) where
  calls := by rw [h'.calls, h.calls, Account.andThen, List.append_assoc]
  requests := by
    have hfirst := h.requests
    have hsecond := h'.requests
    simp only [Account.andThen]
    omega
  pagesRead := by
    rw [h'.pagesRead, h.pagesRead, Account.number_andThen]
    omega
  pagesWritten := by
    rw [h'.pagesWritten, h.pagesWritten, Account.number_andThen]
    omega
  failedWrites := by
    rw [h'.failedWrites, h.failedWrites, Account.number_andThen]
    omega
  frames := by
    have hfirst := h.frames
    have hsecond := h'.frames
    simp only [Account.andThen]
    omega
  marks id := by
    have hfirst := h.marks id
    have hsecond := h'.marks id
    simp only [Account.andThen, List.count_append]
    omega

end Balanced

theorem balanced_victim {named : Option PageId} {policies : Policies} {frames : FrameTable}
    (hv : pool.policies.victim pool.frames = (named, policies, frames)) :
    pool.Balanced { pool with policies, frames } {} := by
  have hsame := Policies.sameContents_of_victim hv
  exact .quiet rfl rfl hsame.size fun _ => hsame.dirty.mp

/-- The call that writes a page back counts against its mark. -/
theorem balanced_writeBack (ho : pool.frames.Owned) (hw : pool.writeBack id = (answer, after)) :
    ∃ made, pool.Balanced after { made } := by
  cases writeBack_outcome hw with
  | unneeded hn => exact ⟨[], .refl pool⟩
  | failed frame e store hf hd hwrite =>
    refine ⟨[⟨.write, frame.page.id, false⟩], Store.calls_write hwrite, rfl, rfl, rfl, rfl, rfl, ?_⟩
    intro other
    rw [List.count_cons_of_ne (by simp), List.count_nil, Nat.zero_add]
    exact Nat.le_refl _
  | written frame store hf hd hwrite =>
    have hid := FrameTable.id_of_find? hf
    subst hid
    have hpage := (ho frame.id frame hf).2
    have hcalls := Store.calls_write hwrite
    rw [hpage] at hcalls
    refine ⟨[⟨.write, frame.id, true⟩], hcalls, rfl, rfl, rfl, rfl, ?_, ?_⟩
    · have hsize : (pool.frames.put (frame.withDirty false)).size = pool.frames.size :=
        FrameTable.size_put hf
      exact congrArg (· + pool.stats.evictions) hsize
    · intro other
      -- The mark of this page is gone, and the call that took it is counted instead.
      have hclean := Frame.not_isDirty_withDirty frame
      rw [FrameTable.mark_put, if_neg hclean, Frame.id_withDirty]
      by_cases hother : frame.id = other
      · subst hother
        rw [if_pos rfl, FrameTable.mark_of_dirty ((FrameTable.dirty_of_find? hf).mpr hd),
          List.count_singleton_self]
      · rw [if_neg hother, List.count_cons_of_ne (by simpa using hother), List.count_nil,
          Nat.zero_add]
        exact Nat.le_refl _

theorem balanced_discard (hf : pool.frames.find? id = some frame)
    (hd : pool.discard id = (.ok (), after)) : pool.Balanced after {} := by
  unfold discard at hd
  split at hd
  · cases hd
  · cases hd
    refine ⟨rfl, rfl, rfl, rfl, rfl, ?_, ?_⟩
    · have hsize := FrameTable.size_erase_add_one hf
      simp only [Nat.add_zero]
      omega
    · intro other
      rw [List.count_nil, Nat.zero_add]
      exact FrameTable.mark_le_mark fun hdirty => ((FrameTable.dirty_erase _ _ _).mp hdirty).2

theorem balanced_makeRoom (h : pool.Regular settings) (hm : pool.makeRoom = (answer, after)) :
    ∃ made, pool.Balanced after { made } := by
  cases makeRoom_outcome hm with
  | room hr => exact ⟨[], .refl pool⟩
  | noVictim policies frames hr hv => exact ⟨[], balanced_victim hv⟩
  | unwritten victim policies frames e after hr hv hw =>
    obtain ⟨made, hmade⟩ := balanced_writeBack (h.victim hv).owned hw
    exact ⟨_, (balanced_victim hv).trans hmade⟩
  | discarded victim policies frames written answer after hr hv hw hd =>
    obtain ⟨made, hmade⟩ := balanced_writeBack (h.victim hv).owned hw
    -- The victim is cached still, so it is discarded without an error and counted as evicted.
    obtain ⟨last, rest, hlast, hrest, -⟩ := h.discard_victim hv hw
    rw [hd] at hrest
    cases hrest
    exact ⟨_, ((balanced_victim hv).trans hmade).trans (balanced_discard hlast hd)⟩

theorem balanced_put (hf : pool.frames.find? frame.id = some former)
    (hd : frame.IsDirty → former.IsDirty) (policies : Policies) :
    pool.Balanced { pool with frames := pool.frames.put frame, policies } {} := by
  refine .quiet rfl rfl ?_ ?_
  · exact FrameTable.size_put hf
  · intro other hdirty
    rw [FrameTable.dirty_put] at hdirty
    split at hdirty
    · rename_i hother
      subst hother
      exact (FrameTable.dirty_of_find? hf).mpr (hd hdirty)
    · exact hdirty

theorem balanced_enlist_clean (page : Page) (hf : pool.frames.find? id = none) :
    pool.Balanced (pool.enlist (Frame.clean page id)) { loaded := 1 } where
  calls := rfl
  requests := rfl
  pagesRead := rfl
  pagesWritten := rfl
  failedWrites := rfl
  frames := by
    have hsize : (pool.enlist (Frame.clean page id)).frames.size = pool.frames.size + 1 :=
      FrameTable.size_put_of_none hf
    rw [hsize]
    exact Nat.add_right_comm _ _ _
  marks other := by
    rw [List.count_nil, Nat.zero_add]
    apply FrameTable.mark_le_mark
    intro hdirty
    exact ((FrameTable.dirty_put_clean _ (Frame.not_isDirty_clean page id) other).mp hdirty).2

/-- A frame with a new image, however many frames there are then. -/
theorem balanced_enlist_image (frame : Frame) {count : Nat}
    (hs : (pool.frames.put frame).size = pool.frames.size + count) :
    pool.Balanced (pool.enlist frame)
      { created := count, updates := fun other => (decide (frame.id = other)).toNat } where
  calls := rfl
  requests := rfl
  pagesRead := rfl
  pagesWritten := rfl
  failedWrites := rfl
  frames := by
    have hsize : (pool.enlist frame).frames.size = pool.frames.size + count := hs
    rw [hsize]
    exact Nat.add_right_comm _ _ _
  marks other := by
    rw [List.count_nil, Nat.zero_add]
    change (pool.frames.put frame).mark other ≤
      pool.frames.mark other + (decide (frame.id = other)).toNat
    by_cases hother : frame.id = other
    · rw [decide_eq_true hother]
      exact (FrameTable.mark_le_one _ _).trans (Nat.le_add_left _ _)
    · rw [FrameTable.mark_put, if_neg hother]
      exact Nat.le_add_right _ _

theorem balanced_read {result : Except StorageError Page} {store : Store}
    (hr : pool.store.read id = (result, store)) :
    pool.Balanced
      { pool with
        store
        stats :=
          { pool.stats with
            misses := pool.stats.misses + 1
            pagesRead := pool.stats.pagesRead + result.isOk.toNat } }
      { made := [⟨.read, id, result.isOk⟩], requests := 1 } where
  calls := Store.calls_read hr
  requests := rfl
  pagesRead := by cases result <;> rfl
  pagesWritten := by cases result <;> rfl
  failedWrites := by cases result <;> rfl
  frames := rfl
  marks other := by
    rw [List.count_cons_of_ne (by simp), List.count_nil, Nat.zero_add]
    exact Nat.le_refl _

theorem contains_of_find? (hf : pool.frames.find? id = some frame) : pool.Contains id :=
  Option.isSome_of_eq_some hf

theorem not_contains_of_find?_none (hf : pool.frames.find? id = none) : ¬pool.Contains id := by
  rw [Contains, FrameTable.Contains, hf]
  exact Bool.false_ne_true

/-- A request is a hit or a miss, and only a miss that is answered brings a page in. -/
theorem balanced_getPage (h : pool.Regular settings) {answer : Except StorageError Frame}
    (hg : pool.getPage id = (answer, after)) :
    ∃ made, pool.Balanced after
      { made
        requests := (decide id.IsValid).toNat
        loaded := (answer.isOk && ¬pool.Contains id).toNat } := by
  cases getPage_outcome hg with
  | unaddressable hv =>
    rw [decide_eq_false hv]
    exact ⟨[], .refl pool⟩
  | hit frame hv hf =>
    have hid := FrameTable.id_of_find? hf
    subst hid
    rw [decide_eq_true hv, decide_eq_false (not_not_intro (contains_of_find? hf))]
    let asked : Pool := { pool with stats := { pool.stats with hits := pool.stats.hits + 1 } }
    have hasked : pool.Balanced asked { requests := 1 } :=
      ⟨rfl, Nat.add_right_comm _ _ _, rfl, rfl, rfl, rfl, fun _ => (Nat.zero_add _).le⟩
    have hthere : asked.frames.find? frame.used.id = some frame := hf
    exact ⟨_, hasked.trans (balanced_put hthere (fun hd => hd) _)⟩
  | unread e store hv hf hr =>
    rw [decide_eq_true hv]
    exact ⟨_, balanced_read hr⟩
  | crowded page store e after hv hf hr hm =>
    -- The page was read but found no room: a miss and a read, and nothing is loaded.
    rw [decide_eq_true hv]
    have hread : (pool.loadedFrom store).Regular settings := h.of_eq rfl rfl rfl
    obtain ⟨made, hmade⟩ := balanced_makeRoom hread hm
    exact ⟨_, (balanced_read hr).trans hmade⟩
  | loaded page store room hv hf hr hm =>
    rw [decide_eq_true hv, decide_eq_true (not_contains_of_find?_none hf)]
    have hread : (pool.loadedFrom store).Regular settings := h.of_eq rfl rfl rfl
    obtain ⟨made, hmade⟩ := balanced_makeRoom hread hm
    have hnone : (pool.loadedFrom store).frames.find? id = none := hf
    exact ⟨_, ((balanced_read hr).trans hmade).trans
      (balanced_enlist_clean page (find?_of_makeRoom hnone hm))⟩

/-- A new image is counted for its page, which is marked from then on. -/
theorem balanced_updatePage (h : pool.Regular settings)
    (hu : pool.updatePage id page = (answer, after)) :
    ∃ made, pool.Balanced after
      { made
        created := (decide (after.Contains id) && ¬pool.Contains id).toNat
        updates := fun other => (answer.isOk && id = other).toNat } := by
  have hsame : (decide (pool.Contains id) && decide (¬pool.Contains id)) = false := by simp
  cases updatePage_outcome hu with
  | unaddressable hv =>
    rw [hsame]
    exact ⟨[], .refl pool⟩
  | misdirected hv hp =>
    rw [hsame]
    exact ⟨[], .refl pool⟩
  | replaced frame hv hp hf =>
    have hid := FrameTable.id_of_find? hf
    subst hid
    rw [decide_eq_false (not_not_intro (contains_of_find? hf)), Bool.and_false]
    have hsize : (pool.frames.put (frame.updated page)).size = pool.frames.size :=
      FrameTable.size_put hf
    exact ⟨[], balanced_enlist_image (frame.updated page) hsize⟩
  | crowded e after hv hp hf hm =>
    rw [decide_eq_false (not_contains_of_find?_none (find?_of_makeRoom hf hm))]
    exact balanced_makeRoom h hm
  | created room hv hp hf hm =>
    have hput := FrameTable.find?_put room.frames (Frame.fresh page id) id
    have hthere : (room.enlist (Frame.fresh page id)).Contains id :=
      contains_of_find? (hput.trans (if_pos rfl))
    rw [decide_eq_true hthere, decide_eq_true (not_contains_of_find?_none hf)]
    have hnone : room.frames.find? (Frame.fresh page id).id = none := find?_of_makeRoom hf hm
    obtain ⟨made, hmade⟩ := balanced_makeRoom h hm
    exact ⟨_, hmade.trans (balanced_enlist_image _ (FrameTable.size_put_of_none hnone))⟩

theorem balanced_pin (pool : Pool) (id : PageId) : pool.Balanced (pool.pin id).2 {} := by
  unfold pin
  split
  · exact .refl pool
  · rename_i frame hf
    have hid := FrameTable.id_of_find? hf
    subst hid
    have hthere : pool.frames.find? (frame.withPinned true).id = some frame := hf
    exact balanced_put hthere (fun hd => hd) _

theorem balanced_unpin (pool : Pool) (id : PageId) : pool.Balanced (pool.unpin id).2 {} := by
  unfold unpin
  split
  · exact .refl pool
  · rename_i frame hf
    have hid := FrameTable.id_of_find? hf
    subst hid
    have hthere : pool.frames.find? (frame.withPinned false).id = some frame := hf
    exact balanced_put hthere (fun hd => hd) _

theorem balanced_flushPage (h : pool.Regular settings) (hf : pool.flushPage id = (answer, after)) :
    ∃ made, pool.Balanced after { made } := by
  unfold flushPage at hf
  split at hf
  · exact balanced_writeBack h.owned hf
  · cases hf
    exact ⟨[], .refl pool⟩

theorem balanced_flushPages (h : pool.Regular settings) {ids : List PageId}
    (hf : pool.flushPages ids = (answer, after)) : ∃ made, pool.Balanced after { made } := by
  induction ids generalizing pool with
  | nil =>
    cases hf
    exact ⟨[], .refl _⟩
  | cons id ids ih =>
    rw [flushPages] at hf
    split at hf
    · rename_i hfirst
      cases hf
      exact balanced_flushPage h hfirst
    · rename_i hfirst
      obtain ⟨earlier, hearlier⟩ := balanced_flushPage h hfirst
      obtain ⟨later, hlater⟩ := ih (h.flushPage hfirst) hf
      exact ⟨_, hearlier.trans hlater⟩

theorem balanced_flushBatch (h : pool.Regular settings) (limit : Nat) :
    ∃ made, pool.Balanced (pool.flushBatch limit).2 { made } := by
  rw [flushBatch]
  split <;> rename_i hf <;> exact balanced_flushPages h hf

def asksForPage (_ : Pool) (step : Step) : Bool :=
  match step.operation with
  | .request (.get id) => id.IsValid
  | _ => false

/-- A request for a page that is not cached, and that is answered all the same. -/
def loadsPage (pool : Pool) (step : Step) : Bool :=
  match step.operation with
  | .request (.get id) => ((pool.failing step.fails).getPage id).1.isOk && ¬pool.Contains id
  | _ => false

/-- A new image for a page that gets a frame by it. -/
def createsFrame (pool : Pool) (step : Step) : Bool :=
  match step.operation with
  | .update id _ => (pool.step step).Contains id && ¬pool.Contains id
  | _ => false

def updatesPage (id : PageId) (pool : Pool) (step : Step) : Bool :=
  match step.operation with
  | .update target page =>
    ((pool.failing step.fails).updatePage target page).1.isOk && target = id
  | _ => false

def tally (kind : Pool → Step → Bool) (pool : Pool) : List Step → Nat
  | [] => 0
  | step :: steps => tally kind (pool.step step) steps + (kind pool step).toNat

theorem balanced_step (h : pool.Regular settings) (step : Step) :
    ∃ made, pool.Balanced (pool.step step)
      { made
        requests := (asksForPage pool step).toNat
        loaded := (loadsPage pool step).toNat
        created := (createsFrame pool step).toNat
        updates := fun id => (updatesPage id pool step).toNat } := by
  obtain ⟨operation, fails⟩ := step
  have hf := h.failing fails
  have hsame : pool.Balanced (pool.failing fails) {} := .quiet rfl rfl rfl fun _ hd => hd
  cases operation with
  | request request =>
    cases request with
    | get id =>
      obtain ⟨made, hmade⟩ := balanced_getPage hf (Prod.eta _).symm
      exact ⟨_, hsame.trans hmade⟩
    | pin id => exact ⟨_, hsame.trans (balanced_pin _ id)⟩
    | unpin id => exact ⟨_, hsame.trans (balanced_unpin _ id)⟩
    | flush id =>
      obtain ⟨made, hmade⟩ := balanced_flushPage hf (Prod.eta _).symm
      exact ⟨_, hsame.trans hmade⟩
    | flushAll =>
      obtain ⟨made, hmade⟩ := balanced_flushPages hf (Prod.eta _).symm
      exact ⟨_, hsame.trans hmade⟩
    | flushBatch limit =>
      obtain ⟨made, hmade⟩ := balanced_flushBatch hf limit
      exact ⟨_, hsame.trans hmade⟩
  | update id page =>
    obtain ⟨made, hmade⟩ := balanced_updatePage hf (Prod.eta _).symm
    exact ⟨_, hsame.trans hmade⟩

theorem balanced_run (h : pool.Regular settings) (steps : List Step) :
    ∃ made, pool.Balanced (pool.run steps)
      { made
        requests := tally asksForPage pool steps
        loaded := tally loadsPage pool steps
        created := tally createsFrame pool steps
        updates := fun id => tally (updatesPage id) pool steps } := by
  -- Accounts add up from step to step, as long as the pool stays regular.
  induction steps generalizing pool with
  | nil => exact ⟨[], .refl pool⟩
  | cons step steps ih =>
    obtain ⟨earlier, hearlier⟩ := balanced_step h step
    obtain ⟨later, hlater⟩ := ih (h.step step)
    exact ⟨_, hearlier.trans hlater⟩

theorem stats_of_create {store : Store} (h : create settings store = .ok pool) :
    pool.stats = {} := by
  unfold create at h
  split at h
  · split at h
    · cases h
      rfl
    · cases h
  · cases h

/-- From the moment it is made a pool counts right, whatever a run does and whichever calls of the
store fail. Hits and misses are the requests for pages that can exist; the other counters are the
calls on the store that succeeded, or failed, in reading or writing; each page that a request or an
update brought in is cached or was evicted; and no page is written more often than it was given an
image, not even once the page in memory, if changed, is written too. -/
theorem stats_run {store : Store} (hn : ∀ policy ∈ settings.policies, policy.IsNew)
    (h : create settings store = .ok pool) (steps : List Step) :
    ∃ made, (pool.run steps).store.calls = made ++ store.calls ∧
      (pool.run steps).stats.hits + (pool.run steps).stats.misses =
        tally asksForPage pool steps ∧
      (pool.run steps).stats.pagesRead = Call.number made .read true ∧
      (pool.run steps).stats.pagesWritten = Call.number made .write true ∧
      (pool.run steps).stats.failedWrites = Call.number made .write false ∧
      (pool.run steps).frames.size + (pool.run steps).stats.evictions =
        tally loadsPage pool steps + tally createsFrame pool steps ∧
      ∀ id, made.count ⟨.write, id, true⟩ + (if (pool.run steps).frames.Dirty id then 1 else 0) ≤
        tally (updatesPage id) pool steps := by
  obtain ⟨made, hmade⟩ := balanced_run (regular_of_create hn h) steps
  obtain ⟨hcalls, hrequests, hread, hwritten, hfailed, hframes, hmarks⟩ := hmade
  obtain ⟨hempty, hstore⟩ := frames_of_create h
  rw [hstore] at hcalls
  simp only [stats_of_create h, Nat.zero_add] at hrequests hread hwritten hfailed
  rw [stats_of_create h, hempty] at hframes
  have hnone : FrameTable.empty.size = 0 := rfl
  refine ⟨made, hcalls, hrequests, hread, hwritten, hfailed, ?_, ?_⟩
  · simp only [hnone, Nat.zero_add] at hframes
    exact hframes
  · intro id
    have hclean : FrameTable.empty.mark id = 0 :=
      FrameTable.mark_of_not_dirty (FrameTable.not_has_of_find?_none rfl)
    have hmark := hmarks id
    rw [hempty, hclean, Nat.zero_add] at hmark
    exact hmark

/-- With room for one page a second one comes in only once the first can be written. -/
theorem stats_run_refused :
    ∃ pool, create (.dual 1 (.lru .empty) (.clock .empty)) (.vacant ["data"]) = .ok pool ∧
      ∀ after, pool.run
        [{ operation := .update (.ofIndex 0) (.empty (.ofIndex 0)) },
          { operation := .update (.ofIndex 1) (.empty (.ofIndex 1)), fails := fun _ _ => true },
          { operation := .update (.ofIndex 1) (.empty (.ofIndex 1)) },
          { operation := .request (.get (.ofIndex 1)) }] = after →
        after.stats.hits + after.stats.misses = 1 ∧
        after.frames.size + after.stats.evictions = 2 := by
  refine ⟨_, rfl, ?_⟩
  have hn : ∀ policy ∈ (PoolSettings.dual 1 (.lru .empty) (.clock .empty)).policies,
      policy.IsNew := by
    simp [PoolSettings.dual, Policy.IsNew]
  have hc : create (.dual 1 (.lru .empty) (.clock .empty)) (.vacant ["data"]) = .ok _ := rfl
  rintro after rfl
  obtain ⟨made, -, hrequests, -, -, -, hframes, -⟩ := stats_run hn hc _
  exact ⟨hrequests.trans rfl, hframes.trans rfl⟩

end

end Pool

end PagedStorage
