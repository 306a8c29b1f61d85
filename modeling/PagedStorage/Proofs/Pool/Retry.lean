import Mathlib.Data.List.DropRight
import PagedStorage.Proofs.Cache.Standing
import PagedStorage.Proofs.Pool.Misses

namespace PagedStorage

namespace Clock

variable {ahead behind : List Candidate} {table aged : FrameTable} {page : PageId} {after : Clock}

theorem eq_empty_of_sweep (h : sweep ahead behind table = (none, after, aged)) :
    after = empty := by
  fun_induction sweep ahead behind table with
  | case1 behind table candidate ahead hnone ih => exact ih h
  | case2 behind table candidate ahead frame hf hpinned ih => exact ih h
  | case3 behind table candidate ahead frame hf hpinned hmarked ih => exact ih h
  | case4 behind table candidate ahead frame hf hpinned hmarked => cases h
  | case5 table =>
    cases h
    rfl
  | case6 table candidate behind ih => exact ih h

end Clock

namespace Lru

variable {lru after : Lru} {table : FrameTable} {named : Option PageId}

theorem victim_exhausted (h : lru.victim table = (none, after)) (other : FrameTable) :
    after.victim other = (none, after) := by
  have hfirst := victim_fst lru table
  rw [h] at hfirst
  rw [victim_eq_self, ← hfirst]
  rw [← hfirst]
  exact nofun

end Lru

namespace Policy

variable {policy after : Policy} {table aged : FrameTable} {page : PageId}

theorem victim_again (h : policy.victim table = (some page, after, aged)) :
    after.victim aged = (some page, after, aged) := by
  have hc := chosen_victim policy table
  rw [h] at hc
  exact (isNext_of_victim h).victim (hc.aged.evictable.mpr (hc.answered page rfl).2)

theorem victim_exhausted (h : policy.victim table = (none, after, aged)) (other : FrameTable) :
    after.victim other = (none, after, other) := by
  cases policy with
  | clock state =>
    rcases hv : state.victim table with ⟨named, next, last⟩
    simp only [victim, hv] at h
    cases h
    cases Clock.eq_empty_of_sweep hv
    simp only [victim, Clock.victim_empty]
  | lru state =>
    rcases hv : state.victim table with ⟨named, next⟩
    simp only [victim, hv] at h
    cases h
    simp only [victim, Lru.victim_exhausted hv]
  | idle =>
    cases h
    rfl
  | retaining state =>
    rcases hv : state.victim table with ⟨named, next⟩
    simp only [victim, hv] at h
    cases h
    simp only [victim, Lru.victim_exhausted hv]

end Policy

/-- Who asks for a victim again gets the same one, and nothing more moves. -/
theorem Policies.victim_again {policies after : Policies} {table aged : FrameTable} {page : PageId}
    (h : policies.victim table = (some page, after, aged)) :
    after.victim aged = (some page, after, aged) := by
  obtain ⟨first, second⟩ := policies
  rw [victim] at h
  split at h
  · rename_i hv
    cases h
    simp only [victim, Policy.victim_again hv]
  · rename_i hv
    cases second with
    | none => cases h
    | some second =>
      rcases hv' : second.victim _ with ⟨named, next, last⟩
      simp only at h
      rw [hv'] at h
      cases h
      simp only [victim, Policy.victim_exhausted hv, Policy.victim_again hv']

namespace Volume

/-- No page can be written into the file at a path, and trying leaves nothing behind. -/
def Refuses (volume : Volume) (path : Path) : Prop :=
  ∀ page, ∃ e, volume.writePage path page = (.error e, volume)

theorem refuses_of_writePage_error {volume after : Volume} {path : Path} {page : Page}
    {e : StorageError} (h : volume.writePage path page = (.error e, after)) :
    after.Refuses path := fun _ => ⟨e, modify_of_modify_error h _⟩

end Volume

namespace Store

def failures (store : Store) : Nat := store.calls.countP fun call => !call.succeeded

/-- The store has the files of another and fails no call that the other lets through. -/
structure NoWorse (store other : Store) : Prop where
  volume : other.volume = store.volume
  path : other.path = store.path
  fails : ∀ access id, store.fails access id = true → other.fails access id = true

section

variable {store other after : Store} {id : PageId} {page : Page} {e : StorageError}

theorem failures_read {answer : Except StorageError Page} (h : store.read id = (answer, after)) :
    after.failures = store.failures + if answer.isOk then 0 else 1 := by
  rw [failures, calls_read h, List.countP_cons, failures]
  cases answer <;> rfl

theorem volume_read {answer : Except StorageError Page} (h : store.read id = (answer, after)) :
    after.volume = store.volume ∧ after.path = store.path := by
  cases h
  exact ⟨rfl, rfl⟩

theorem failures_write {answer : Except StorageError Unit}
    (h : store.write page = (answer, after)) :
    after.failures = store.failures + if answer.isOk then 0 else 1 := by
  rw [failures, calls_write h, List.countP_cons, failures]
  cases answer <;> rfl

theorem write_of_refuses (h : store.volume.Refuses store.path) (page : Page) :
    ∃ e after, store.write page = (.error e, after) := by
  rw [write]
  split
  · exact ⟨_, _, rfl⟩
  · obtain ⟨e, he⟩ := h page
    rw [he]
    exact ⟨_, _, rfl⟩

/-- Where a write fails nothing has changed, or no other will succeed. -/
theorem volume_of_write_error (h : store.write page = (.error e, after)) :
    after.path = store.path ∧
      (after.volume = store.volume ∨ after.volume.Refuses after.path) := by
  rw [write] at h
  split at h
  · cases h
    exact ⟨rfl, Or.inl rfl⟩
  · rcases hm : store.volume.writePage store.path page with ⟨answer, volume⟩
    rw [hm] at h
    cases h
    exact ⟨rfl, Or.inr (Volume.refuses_of_writePage_error hm)⟩

namespace NoWorse

theorem not_fails (h : store.NoWorse other) {access : Access}
    (hf : ¬other.fails access id = true) : ¬store.fails access id = true :=
  fun hfails => hf (h.fails access id hfails)

theorem read (h : store.NoWorse other) (hr : other.read id = (.ok page, after)) :
    ∃ left, store.read id = (.ok page, left) ∧ left.NoWorse after := by
  have hanswer := congrArg Prod.fst hr
  simp only [Store.read] at hanswer
  split at hanswer
  · cases hanswer
  · rename_i hf
    have hread : (store.read id).1 = .ok page := by
      simp only [Store.read, if_neg (h.not_fails hf), ← h.volume, ← h.path]
      exact hanswer
    obtain rfl : (other.read id).2 = after := congrArg Prod.snd hr
    exact ⟨_, Prod.ext hread rfl, h.volume, h.path, h.fails⟩

theorem write (h : store.NoWorse other) (hw : other.write page = (.ok (), after)) :
    ∃ left, store.write page = (.ok (), left) ∧ left.NoWorse after := by
  rw [Store.write] at hw
  split at hw
  · cases hw
  · rename_i hf
    rw [Store.write, if_neg (h.not_fails hf), ← h.volume, ← h.path]
    rcases hm : other.volume.writePage other.path page with ⟨answer, volume⟩
    rw [hm] at hw
    cases hw
    exact ⟨_, rfl, rfl, rfl, h.fails⟩

end NoWorse

end

end Store

namespace Pool

/-- The same pages and candidates over the same volume. What was counted, and which calls the stores
received and let through, may differ. -/
structure Alike (pool other : Pool) : Prop where
  capacity : other.capacity = pool.capacity
  frames : other.frames = pool.frames
  policies : other.policies = pool.policies
  volume : other.store.volume = pool.store.volume
  path : other.store.path = pool.store.path

structure NoWorse (pool other : Pool) : Prop where
  capacity : other.capacity = pool.capacity
  frames : other.frames = pool.frames
  policies : other.policies = pool.policies
  store : pool.store.NoWorse other.store

/-- No page can be taken in any more: the next victim cannot be written, for what is on the
volume. -/
structure Stuck (pool : Pool) : Prop where
  full : pool.capacity ≤ pool.frames.size
  named : ∃ victim, pool.policies.victim pool.frames = (some victim, pool.policies, pool.frames) ∧
    pool.frames.Dirty victim
  refuses : pool.store.volume.Refuses pool.store.path

/-- What calls that failed in the store leave of a pool. Either its policies have not been asked, or
they have named the victim that they would name again. -/
structure Retried (pool other : Pool) : Prop where
  capacity : other.capacity = pool.capacity
  path : other.store.path = pool.store.path
  moved : (other.frames = pool.frames ∧ other.policies = pool.policies) ∨
    pool.capacity ≤ pool.frames.size ∧ ∃ victim,
      pool.policies.victim pool.frames = (some victim, other.policies, other.frames)
  volume : other.store.volume = pool.store.volume ∨ other.Stuck

def Misses (pool : Pool) : Operation → Prop
  | .request (.get id) => id.IsValid ∧ pool.frames.find? id = none
  | .update id page => id.IsValid ∧ page.id = id ∧ pool.frames.find? id = none
  | _ => False

def FailsIn (pool : Pool) (step : Step) : Prop :=
  pool.store.failures < (pool.step step).store.failures

def GetsThrough (pool : Pool) (step : Step) : Prop :=
  (pool.step step).store.failures = pool.store.failures

instance (pool : Pool) (step : Step) : Decidable (pool.FailsIn step) :=
  inferInstanceAs (Decidable (pool.store.failures < (pool.step step).store.failures))

instance (pool : Pool) (step : Step) : Decidable (pool.GetsThrough step) :=
  inferInstanceAs (Decidable ((pool.step step).store.failures = pool.store.failures))

def AllFail (pool : Pool) : List Step → Prop
  | [] => True
  | step :: steps => pool.FailsIn step ∧ (pool.step step).AllFail steps

section

variable {pool other after : Pool} {id : PageId} {frame : Frame} {page : Page} {e : StorageError}
  {answer : Except StorageError Unit} {operation : Operation}

theorem failures_writeBack (hw : pool.writeBack id = (answer, after)) :
    after.store.failures = pool.store.failures + if answer.isOk then 0 else 1 := by
  cases writeBack_outcome hw with
  | unneeded hn => rfl
  | failed frame e store hf hd hwrite => exact Store.failures_write hwrite
  | written frame store hf hd hwrite => exact Store.failures_write hwrite

namespace NoWorse

theorem alike (h : pool.NoWorse other) : pool.Alike other :=
  ⟨h.capacity, h.frames, h.policies, h.store.volume, h.store.path⟩

theorem enlist (h : pool.NoWorse other) (frame : Frame) :
    (pool.enlist frame).NoWorse (other.enlist frame) where
  capacity := h.capacity
  frames := congrArg (FrameTable.put · frame) h.frames
  policies := congrArg (Policies.register · frame) h.policies
  store := h.store

theorem writeBack (h : pool.NoWorse other) (hw : other.writeBack id = (.ok (), after)) :
    ∃ left, pool.writeBack id = (.ok (), left) ∧ left.NoWorse after := by
  have hframes := h.frames
  cases writeBack_outcome hw with
  | unneeded hn =>
    rw [hframes] at hn
    exact ⟨pool, (WriteBackOutcome.unneeded hn).eq, h⟩
  | written frame store hf hd hwrite =>
    obtain ⟨left, hleft, hstore⟩ := h.store.write hwrite
    rw [hframes] at hf
    refine ⟨_, (WriteBackOutcome.written frame left hf hd hleft).eq, h.capacity, ?_, h.policies,
      hstore⟩
    exact congrArg (FrameTable.put · _) hframes

theorem discard (h : pool.NoWorse other) (hd : other.discard id = (answer, after)) :
    ∃ left, pool.discard id = (answer, left) ∧ left.NoWorse after := by
  have hframes : other.frames.erase id = pool.frames.erase id :=
    congrArg (FrameTable.erase · id) h.frames
  unfold Pool.discard at hd ⊢
  rw [h.policies] at hd
  rcases hw : pool.policies.withdraw id with ⟨_ | _, policies⟩
  · simp only [hw] at hd
    cases hd
    exact ⟨_, rfl, h.capacity, hframes, rfl, h.store⟩
  · simp only [hw] at hd
    cases hd
    exact ⟨_, rfl, h.capacity, hframes, rfl, h.store⟩

end NoWorse

theorem alike_failing (fails : Access → PageId → Bool) : pool.Alike (pool.failing fails) :=
  ⟨rfl, rfl, rfl, rfl, rfl⟩

theorem alike_loadedFrom {answer : Except StorageError Page} {left : Store}
    (hr : pool.store.read id = (answer, left)) : pool.Alike (pool.loadedFrom left) := by
  obtain ⟨hvolume, hpath⟩ := Store.volume_read hr
  exact ⟨rfl, rfl, rfl, hvolume, hpath⟩

namespace Alike

theorem symm (h : pool.Alike other) : other.Alike pool :=
  ⟨h.capacity.symm, h.frames.symm, h.policies.symm, h.volume.symm, h.path.symm⟩

theorem trans (h : pool.Alike other) (h' : other.Alike after) : pool.Alike after where
  capacity := h'.capacity.trans h.capacity
  frames := h'.frames.trans h.frames
  policies := h'.policies.trans h.policies
  volume := h'.volume.trans h.volume
  path := h'.path.trans h.path

end Alike

namespace Stuck

theorem of_alike (h : pool.Stuck) (ha : pool.Alike after) : after.Stuck where
  full := by
    rw [ha.capacity, ha.frames]
    exact h.full
  named := by
    rw [ha.policies, ha.frames]
    exact h.named
  refuses := by
    rw [ha.volume, ha.path]
    exact h.refuses

theorem failures_takeIn (h : pool.Stuck) (frame : Frame) :
    pool.store.failures < (pool.takeIn frame).2.store.failures := by
  obtain ⟨victim, hv, last, hf, hd⟩ := h.named
  obtain ⟨e, left, hwrite⟩ := Store.write_of_refuses h.refuses last.page
  have hw := (WriteBackOutcome.failed last e left hf hd hwrite).eq
  have hm := (MakeRoomOutcome.unwritten victim _ _ e _ h.full hv hw).eq
  have hcount := Store.failures_write hwrite
  rw [takeIn, hm]
  exact hcount ▸ Nat.lt_succ_self _

end Stuck

namespace Retried

theorem refl (pool : Pool) : pool.Retried pool :=
  ⟨rfl, rfl, Or.inl ⟨rfl, rfl⟩, Or.inl rfl⟩

theorem of_alike (h : pool.Retried other) (ha : other.Alike after) : pool.Retried after where
  capacity := ha.capacity.trans h.capacity
  path := ha.path.trans h.path
  moved := by
    rw [ha.frames, ha.policies]
    exact h.moved
  volume := h.volume.imp ha.volume.trans fun hs => hs.of_alike ha

theorem sameContents (h : pool.Retried other) : pool.frames.SameContents other.frames := by
  rcases h.moved with ⟨hframes, -⟩ | ⟨-, victim, hv⟩
  · rw [hframes]
    exact .refl _
  · exact Policies.sameContents_of_victim hv

/-- Whom the policies name now they would have named at first. -/
theorem victim (h : pool.Retried other) {named : Option PageId} {policies : Policies}
    {frames : FrameTable} (hv : other.policies.victim other.frames = (named, policies, frames)) :
    pool.policies.victim pool.frames = (named, policies, frames) := by
  rcases h.moved with ⟨hframes, hpolicies⟩ | ⟨-, victim, hfirst⟩
  · rwa [hframes, hpolicies] at hv
  · rw [Policies.victim_again hfirst] at hv
    rwa [← hv]

theorem eq_of_lt (h : pool.Retried other) (hlt : other.frames.size < other.capacity) :
    other.frames = pool.frames ∧ other.policies = pool.policies := by
  rcases h.moved with hsame | ⟨hfull, -⟩
  · exact hsame
  · rw [h.sameContents.size, h.capacity] at hlt
    exact absurd hlt (Nat.not_lt_of_le hfull)

theorem full (h : pool.Retried other) (hr : other.capacity ≤ other.frames.size) :
    pool.capacity ≤ pool.frames.size := by
  rwa [h.capacity, h.sameContents.size] at hr

/-- An attempt to take a page in that fails in the store leaves the victim to be named again. -/
theorem takeIn (h : pool.Retried other)
    (hf : other.store.failures < (other.takeIn frame).2.store.failures) :
    pool.Retried (other.takeIn frame).2 := by
  rw [Pool.takeIn] at hf ⊢
  rcases hm : other.makeRoom with ⟨answer, room⟩
  simp only [hm] at hf ⊢
  cases makeRoom_outcome hm with
  | room hr => exact absurd hf (Nat.lt_irrefl _)
  | noVictim policies frames hr hv => exact absurd hf (Nat.lt_irrefl _)
  | unwritten victim policies frames e after hr hv hw =>
    cases writeBack_outcome hw with
    | failed last e store hlast hd hwrite =>
      have hstuck : store.volume.Refuses store.path → Stuck
          { other with
            policies
            frames
            store
            stats := { other.stats with failedWrites := other.stats.failedWrites + 1 } } := by
        intro hrefuses
        refine ⟨?_, ⟨victim, Policies.victim_again hv, last, hlast, hd⟩, hrefuses⟩
        have hsize := (Policies.sameContents_of_victim hv).size
        exact hr.trans hsize.ge
      obtain ⟨hpath, hvolume⟩ := Store.volume_of_write_error hwrite
      refine ⟨h.capacity, hpath.trans h.path, Or.inr ⟨h.full hr, victim, h.victim hv⟩, ?_⟩
      rcases hvolume with hvolume | hrefuses
      · refine h.volume.imp hvolume.trans fun hs => hstuck ?_
        rw [hvolume, hpath]
        exact hs.refuses
      · exact Or.inr (hstuck hrefuses)
  | discarded victim policies frames written answer after hr hv hw hd =>
    -- The victim was written, so the store failed nothing.
    have hcount := failures_writeBack hw
    have hstore := store_of_discard hd
    cases answer <;> simp only [hstore, enlist, hcount] at hf <;> exact absurd hf (Nat.lt_irrefl _)

/-- Room is made as it would have been at first, if the store lets the calls through. -/
theorem makeRoom (h : pool.Retried other) (hs : pool.store.NoWorse other.store)
    (hm : other.makeRoom = (answer, after)) (hq : after.store.failures = other.store.failures) :
    ∃ left, pool.makeRoom = (answer, left) ∧ left.NoWorse after ∧
      left.store.failures = pool.store.failures := by
  cases makeRoom_outcome hm with
  | room hr =>
    obtain ⟨hframes, hpolicies⟩ := h.eq_of_lt hr
    rw [hframes, h.capacity] at hr
    exact ⟨pool, (MakeRoomOutcome.room hr).eq, ⟨h.capacity, hframes, hpolicies, hs⟩, rfl⟩
  | noVictim policies frames hr hv =>
    exact ⟨_, (MakeRoomOutcome.noVictim policies frames (h.full hr) (h.victim hv)).eq,
      ⟨h.capacity, rfl, rfl, hs⟩, rfl⟩
  | unwritten victim policies frames e after hr hv hw =>
    rw [failures_writeBack hw] at hq
    exact absurd hq (Nat.succ_ne_self _)
  | discarded victim policies frames written answer after hr hv hw hd =>
    have hnow : NoWorse { pool with policies, frames } { other with policies, frames } :=
      ⟨h.capacity, rfl, rfl, hs⟩
    obtain ⟨left, hleft, hworse⟩ := hnow.writeBack hw
    obtain ⟨last, hlast, hend⟩ := hworse.discard hd
    refine ⟨last, ?_, hend, ?_⟩
    · exact (MakeRoomOutcome.discarded victim policies frames left answer last (h.full hr)
        (h.victim hv) hleft hlast).eq
    · rw [store_of_discard hlast]
      exact failures_writeBack hleft

/-- As long as a page can be taken in the volume is as it was. -/
theorem volume_eq (h : pool.Retried other)
    (hq : (other.takeIn frame).2.store.failures = other.store.failures) :
    other.store.volume = pool.store.volume := by
  rcases h.volume with hvolume | hstuck
  · exact hvolume
  · exact absurd hq (hstuck.failures_takeIn frame).ne'

/-- A page is taken in as it would have been at first, if the store lets the calls through. -/
theorem takeIn_quiet (h : pool.Retried other)
    (hfails : ∀ access id, pool.store.fails access id = true → other.store.fails access id = true)
    (hq : (other.takeIn frame).2.store.failures = other.store.failures) :
    (pool.takeIn frame).1 = (other.takeIn frame).1 ∧
      (pool.takeIn frame).2.Alike (other.takeIn frame).2 ∧
      (pool.takeIn frame).2.store.failures = pool.store.failures := by
  have hs : pool.store.NoWorse other.store := ⟨h.volume_eq hq, h.path, hfails⟩
  rcases hm : other.makeRoom with ⟨answer, room⟩
  have hroom : (other.takeIn frame).2.store = room.store := by
    rw [Pool.takeIn, hm]
    cases answer <;> rfl
  rw [hroom] at hq
  obtain ⟨left, hleft, hworse, hcount⟩ := h.makeRoom hs hm hq
  rw [Pool.takeIn, Pool.takeIn, hm, hleft]
  cases answer with
  | error e => exact ⟨rfl, hworse.alike, hcount⟩
  | ok => exact ⟨rfl, (hworse.enlist frame).alike, hcount⟩

theorem perform (h : pool.Retried other) (hm : pool.Misses operation)
    (hf : other.store.failures < (other.perform operation).2.store.failures) :
    pool.Retried (other.perform operation).2 := by
  match operation, hm with
  | .request (.get id), ⟨hv, hnone⟩ =>
    have hmiss := h.sameContents.find?_eq_none.mpr hnone
    rcases hr : other.store.read id with ⟨e | page, left⟩
    · obtain ⟨hvolume, hpath⟩ := Store.volume_read hr
      simp only [Pool.perform, serve, getPage_of_read_error hv hmiss hr]
      exact h.of_alike ⟨rfl, rfl, rfl, hvolume, hpath⟩
    · have hcount : left.failures = other.store.failures := Store.failures_read hr
      simp only [Pool.perform, serve, getPage_of_read_ok hv hmiss hr] at hf ⊢
      rw [← hcount] at hf
      exact (h.of_alike (alike_loadedFrom hr)).takeIn hf
  | .update id page, ⟨hv, hp, hnone⟩ =>
    have hmiss := h.sameContents.find?_eq_none.mpr hnone
    simp only [Pool.perform, updatePage_of_find?_none hv hp hmiss] at hf ⊢
    exact h.takeIn hf

/-- A call that the store lets through ends as it would have ended at first. -/
theorem perform_quiet (h : pool.Retried other) (hm : pool.Misses operation)
    (hfails : ∀ access id, pool.store.fails access id = true → other.store.fails access id = true)
    (hq : (other.perform operation).2.store.failures = other.store.failures) :
    (pool.perform operation).1 = (other.perform operation).1 ∧
      (pool.perform operation).2.Alike (other.perform operation).2 ∧
      (pool.perform operation).2.store.failures = pool.store.failures := by
  match operation, hm with
  | .request (.get id), ⟨hv, hnone⟩ =>
    have hmiss := h.sameContents.find?_eq_none.mpr hnone
    rcases hr : other.store.read id with ⟨e | page, left⟩
    · simp only [Pool.perform, serve, getPage_of_read_error hv hmiss hr] at hq
      rw [Store.failures_read hr] at hq
      exact absurd hq (Nat.succ_ne_self _)
    · have hcount : left.failures = other.store.failures := Store.failures_read hr
      simp only [Pool.perform, serve, getPage_of_read_ok hv hmiss hr] at hq ⊢
      rw [← hcount] at hq
      have hloaded := h.of_alike (alike_loadedFrom hr)
      obtain ⟨hvolume, -⟩ := Store.volume_read hr
      have hs : pool.store.NoWorse other.store :=
        ⟨hvolume.symm.trans (hloaded.volume_eq hq), h.path, hfails⟩
      obtain ⟨first, hfirst, hworse⟩ := hs.read hr
      have hretried : (pool.loadedFrom first).Retried (other.loadedFrom left) :=
        ⟨h.capacity, hworse.path, h.moved, Or.inl hworse.volume⟩
      obtain ⟨hanswer, halike, hend⟩ := hretried.takeIn_quiet hworse.fails hq
      rw [getPage_of_read_ok hv hnone hfirst, hanswer]
      exact ⟨rfl, halike, hend.trans (Store.failures_read hfirst)⟩
  | .update id page, ⟨hv, hp, hnone⟩ =>
    have hmiss := h.sameContents.find?_eq_none.mpr hnone
    simp only [Pool.perform, updatePage_of_find?_none hv hp hmiss,
      updatePage_of_find?_none hv hp hnone] at hq ⊢
    exact h.takeIn_quiet hfails hq

end Retried

/-- Any number of attempts leave no more behind than one. -/
theorem Retried.run (h : pool.Retried other) (hm : pool.Misses operation)
    {attempts : List (Access → PageId → Bool)}
    (hf : other.AllFail (attempts.map fun fails => ⟨operation, fails⟩)) :
    pool.Retried (other.run (attempts.map fun fails => ⟨operation, fails⟩)) := by
  induction attempts generalizing other with
  | nil => exact h
  | cons fails attempts ih =>
    obtain ⟨hfirst, hrest⟩ := hf
    have hfailing : pool.Retried (other.failing fails) := h.of_alike (alike_failing fails)
    exact ih (hfailing.perform hm hfirst) hrest

/-- A call for no page, or for one that is cached, asks nothing of the store. -/
theorem perform_of_not_misses
    (ho : (∃ id, operation = .request (.get id)) ∨ ∃ id page, operation = .update id page)
    (hm : ¬pool.Misses operation) :
    ∃ answer, ∃ after : Pool, after.store = pool.store ∧
      ∀ fails, (pool.failing fails).perform operation = (answer, after.failing fails) := by
  rcases ho with ⟨id, rfl⟩ | ⟨id, page, rfl⟩
  · by_cases hv : id.IsValid
    · obtain ⟨frame, hf⟩ := Option.ne_none_iff_exists'.mp fun hnone => hm ⟨hv, hnone⟩
      let counted := { pool with stats := { pool.stats with hits := pool.stats.hits + 1 } }
      refine ⟨.ok (), counted.enlist frame.used, rfl, fun fails => ?_⟩
      have hcached : (pool.failing fails).frames.find? id = some frame := hf
      have hget := (GetOutcome.hit frame hv hcached).eq
      rw [perform, serve, hget]
      rfl
    · refine ⟨.error (.invalidArgument (.notAddressable id)), pool, rfl, fun fails => ?_⟩
      have hget : (pool.failing fails).getPage id = _ := (GetOutcome.unaddressable hv).eq
      rw [perform, serve, hget]
      rfl
  · by_cases hv : id.IsValid
    · by_cases hp : page.id = id
      · obtain ⟨frame, hf⟩ := Option.ne_none_iff_exists'.mp fun hnone => hm ⟨hv, hp, hnone⟩
        refine ⟨.ok (), pool.enlist (frame.updated page), rfl, fun fails => ?_⟩
        have hcached : (pool.failing fails).frames.find? id = some frame := hf
        exact (UpdateOutcome.replaced frame hv hp hcached).eq
      · exact ⟨_, pool, rfl, fun fails => (UpdateOutcome.misdirected hv hp).eq⟩
    · exact ⟨_, pool, rfl, fun fails => (UpdateOutcome.unaddressable hv).eq⟩

/-- Whatever the pool, let a page be asked for or given an image again and again, so that the store
fails a call each time, and let the last attempt get through. Then the store would let through a
call made at once, too; and any call that it lets through has the answer of the last attempt and
leaves the same pages with the same pins, marks and usage counts, the same candidates in the same
order with the same marks and the hand on the same one, and the same files. So it has evicted the
same page. -/
theorem retry_alike (pool : Pool)
    (ho : (∃ id, operation = .request (.get id)) ∨ ∃ id page, operation = .update id page)
    {attempts : List (Access → PageId → Bool)}
    (hf : pool.AllFail (attempts.map fun fails => ⟨operation, fails⟩))
    (hafter : after = pool.run (attempts.map fun fails => ⟨operation, fails⟩))
    {last : Access → PageId → Bool} (hlast : after.GetsThrough ⟨operation, last⟩) :
    pool.GetsThrough ⟨operation, last⟩ ∧
    ∀ single, pool.GetsThrough ⟨operation, single⟩ →
      ((pool.failing single).perform operation).1 = ((after.failing last).perform operation).1 ∧
      (pool.step ⟨operation, single⟩).Alike (after.step ⟨operation, last⟩) := by
  by_cases hm : pool.Misses operation
  · have hretried : pool.Retried after := hafter ▸ (Retried.refl pool).run hm hf
    -- Each call that gets through is compared with the one that nothing is made to fail in.
    have hcalm : ∀ {other : Pool} {fails others}, pool.Retried other →
        other.GetsThrough ⟨operation, fails⟩ →
        (∀ access id, others access id = true → fails access id = true) →
        ((pool.failing others).perform operation).1 =
            ((other.failing fails).perform operation).1 ∧
          (pool.step ⟨operation, others⟩).Alike (other.step ⟨operation, fails⟩) ∧
          pool.GetsThrough ⟨operation, others⟩ := by
      intro other fails others h hq hle
      have hfailing : (pool.failing others).Retried (other.failing fails) :=
        ⟨h.capacity, h.path, h.moved,
          h.volume.imp_right fun hs => hs.of_alike (alike_failing fails)⟩
      exact hfailing.perform_quiet hm hle hq
    refine ⟨(hcalm hretried hlast fun _ _ => id).2.2, fun single hsingle => ?_⟩
    have hnone : ∀ {fails : Access → PageId → Bool} access id,
        (fun _ _ => false : Access → PageId → Bool) access id = true → fails access id = true := by
      intro fails access id hfalse
      cases hfalse
    obtain ⟨hanswer, halike, -⟩ := hcalm (.refl pool) hsingle hnone
    obtain ⟨hanswer', halike', -⟩ := hcalm hretried hlast hnone
    exact ⟨hanswer.symm.trans hanswer', halike.symm.trans halike'⟩
  · obtain ⟨answer, next, hstore, hperform⟩ := perform_of_not_misses ho hm
    have hstep : ∀ fails, pool.step ⟨operation, fails⟩ = next.failing fails :=
      fun fails => congrArg Prod.snd (hperform fails)
    have hthrough : ∀ fails, pool.GetsThrough ⟨operation, fails⟩ := by
      intro fails
      rw [GetsThrough, hstep, ← hstore]
      rfl
    -- No attempt can have failed, so there was none.
    cases attempts with
    | nil =>
      rw [show after = pool from hafter] at hlast ⊢
      refine ⟨hlast, fun single _ => ⟨?_, ?_⟩⟩
      · exact (congrArg Prod.fst (hperform single)).trans
          (congrArg Prod.fst (hperform last)).symm
      · rw [hstep, hstep]
        exact ⟨rfl, rfl, rfl, rfl, rfl⟩
    | cons fails attempts => exact absurd (hthrough fails) hf.1.ne'

/-- The write of the victim fails once. Then the call gets through, as if that had not happened. -/
theorem retry_alike_written :
    ∃ pool, create { capacity := 1, policies := [.lru .empty] } (.vacant ["data"]) = .ok pool ∧
      let full := pool.step { operation := .update (.ofIndex 0) (.empty (.ofIndex 0)) }
      let call : Operation := .update (.ofIndex 1) (.empty (.ofIndex 1))
      let failed := full.step ⟨call, fun access _ => access = .write⟩
      full.FailsIn ⟨call, fun access _ => access = .write⟩ ∧
        (full.step { operation := call }).Alike (failed.step { operation := call }) := by
  refine ⟨_, rfl, ?_⟩
  intro full call failed
  let attempts : List (Access → PageId → Bool) := [fun access _ => access = .write]
  have hfirst : full.FailsIn ⟨call, fun access _ => access = .write⟩ := by decide +kernel
  have hf : full.AllFail (attempts.map fun fails => ⟨call, fails⟩) := ⟨hfirst, trivial⟩
  have hlast : failed.GetsThrough { operation := call } := by decide +kernel
  obtain ⟨hsingle, hend⟩ := retry_alike full (.inr ⟨_, _, rfl⟩) hf rfl hlast
  exact ⟨hfirst, (hend _ hsingle).2⟩

end

end Pool

end PagedStorage
