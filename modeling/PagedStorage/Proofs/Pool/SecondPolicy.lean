import PagedStorage.Proofs.Pool.Regular

namespace PagedStorage

namespace Policy

theorem victim_of_candidates_eq_nil {policy : Policy} (h : policy.candidates = [])
    (table : FrameTable) :
    (policy.victim table).1 = none ∧ (policy.victim table).2.2 = table := by
  cases policy with
  | clock state =>
    obtain ⟨ahead, behind⟩ := state
    obtain ⟨rfl, rfl⟩ := List.append_eq_nil_iff.mp (List.map_eq_nil_iff.mp h)
    simp [victim, Clock.victim, Clock.sweep]
  | lru state | retaining state =>
    have hnone : state.pages = [] := h
    have hself : state.victim table = _ := Lru.victim_eq_self (by simp [hnone])
    simp [victim, hself, hnone]
  | idle => exact ⟨rfl, rfl⟩

end Policy

namespace Policies

def alone (policies : Policies) : Policies := ⟨policies.first, none⟩

variable {policies : Policies} {table : FrameTable} {page : PageId}

theorem alone_withdraw (h : policies.Track table) (hv : page.IsValid) :
    policies.alone.withdraw page =
      ((policies.withdraw page).1, (policies.withdraw page).2.alone) := by
  obtain ⟨first, second⟩ := policies
  obtain ⟨-, hsecond⟩ := track_iff.mp h
  simp only [withdraw, alone]
  cases first.withdraw page with
  | error e => rfl
  | ok left =>
    cases second with
    | none => rfl
    | some second =>
      have htracks := hsecond second rfl
      obtain ⟨left', hok, -⟩ := Policy.exists_withdraw htracks.builtIn htracks.sound hv
      simp only [hok]

/-- The second policy is asked when the first has found nobody to evict, and finds nobody either. -/
theorem alone_victim (h : policies.Track table) :
    policies.alone.victim table =
      ((policies.victim table).1, (policies.victim table).2.1.alone,
        (policies.victim table).2.2) := by
  obtain ⟨first, second⟩ := policies
  obtain ⟨hfirst, hsecond⟩ := track_iff.mp h
  have haged := (Policy.chosen_victim first table).aged
  have hnone := hfirst.not_evictable_of_victim_eq_none
  simp only [victim, alone]
  rcases hv : first.victim table with ⟨_ | named, left, aged⟩
  · cases second with
    | none => rfl
    | some second =>
      rw [hv] at haged hnone
      have hempty : second.candidates = [] := by
        apply List.eq_nil_iff_forall_not_mem.mpr
        intro id hmem
        exact hnone rfl id (((hsecond second rfl).mem_iff id).mp hmem)
      obtain ⟨hnamed, htable⟩ := Policy.victim_of_candidates_eq_nil hempty aged
      simp only [hnamed, htable]
  · rfl

end Policies

namespace Pool

/-- What a call answers, in full: a request for a page its frame, and a batch the number of pages
that were written. -/
inductive Reply
  | done
  | frame (frame : Frame)
  | written (count : Nat)

def reply (pool : Pool) : Operation → Except StorageError Reply
  | .request (.get id) => (pool.getPage id).1.map .frame
  | .request (.flushBatch limit) => (pool.flushBatch limit).1.map .written
  | operation => (pool.perform operation).1.map fun _ => .done

def replies (pool : Pool) : List Step → List (Except StorageError Reply)
  | [] => []
  | step :: steps =>
    (pool.failing step.fails).reply step.operation :: (pool.step step).replies steps

def alone (pool : Pool) : Pool := { pool with policies := pool.policies.alone }

section

variable {settings : PoolSettings} {pool after : Pool} {id : PageId}
  {answer : Except StorageError Unit}

theorem alone_writeBack (h : pool.writeBack id = (answer, after)) :
    pool.alone.writeBack id = (answer, after.alone) := by
  apply WriteBackOutcome.eq
  cases writeBack_outcome h with
  | unneeded hn => exact .unneeded hn
  | failed frame e store hf hd hw => exact .failed frame e store hf hd hw
  | written frame store hf hd hw => exact .written frame store hf hd hw

theorem alone_discard (h : pool.Regular settings) (hv : id.IsValid)
    (hd : pool.discard id = (answer, after)) : pool.alone.discard id = (answer, after.alone) := by
  have hw : pool.alone.policies.withdraw id = _ := Policies.alone_withdraw h.tracked hv
  rw [discard, hw]
  rw [discard] at hd
  rcases hleft : pool.policies.withdraw id with ⟨_ | _, left⟩ <;> rw [hleft] at hd <;> cases hd <;>
    rfl

/-- The two pools make room by dropping the same page, or fail to for the same reason. -/
theorem alone_makeRoom (h : pool.Regular settings) (hm : pool.makeRoom = (answer, after)) :
    pool.alone.makeRoom = (answer, after.alone) := by
  have hvictim {named : Option PageId} {policies : Policies} {frames : FrameTable}
      (hv : pool.policies.victim pool.frames = (named, policies, frames)) :
      pool.alone.policies.victim pool.alone.frames = (named, policies.alone, frames) := by
    have halone := Policies.alone_victim h.tracked
    rwa [hv] at halone
  apply MakeRoomOutcome.eq
  cases makeRoom_outcome hm with
  | room hr => exact .room hr
  | noVictim policies frames hr hv => exact .noVictim _ frames hr (hvictim hv)
  | unwritten victim policies frames e after hr hv hw =>
    exact .unwritten victim _ frames e _ hr (hvictim hv) (alone_writeBack hw)
  | discarded victim policies frames written answer after hr hv hw hd =>
    obtain ⟨frame, hf, -⟩ := Policies.evictable_of_victim hv
    have hleft := (h.victim hv).writeBack hw
    exact .discarded victim _ frames _ answer _ hr (hvictim hv) (alone_writeBack hw)
      (alone_discard hleft (h.owned victim frame hf).1 hd)

theorem alone_getPage (h : pool.Regular settings) {answer : Except StorageError Frame}
    (hg : pool.getPage id = (answer, after)) : pool.alone.getPage id = (answer, after.alone) := by
  have hread (store : Store) : (pool.loadedFrom store).Regular settings := h.of_eq rfl rfl rfl
  apply GetOutcome.eq
  cases getPage_outcome hg with
  | unaddressable hv => exact .unaddressable hv
  | hit frame hv hf => exact .hit frame hv hf
  | unread e store hv hf hr => exact .unread e store hv hf hr
  | crowded page store e after hv hf hr hm =>
    exact .crowded page store e _ hv hf hr (alone_makeRoom (hread store) hm)
  | loaded page store room hv hf hr hm =>
    exact .loaded page store room.alone hv hf hr (alone_makeRoom (hread store) hm)

theorem alone_updatePage (h : pool.Regular settings) {page : Page}
    (hu : pool.updatePage id page = (answer, after)) :
    pool.alone.updatePage id page = (answer, after.alone) := by
  apply UpdateOutcome.eq
  cases updatePage_outcome hu with
  | unaddressable hv => exact .unaddressable hv
  | misdirected hv hp => exact .misdirected hv hp
  | replaced frame hv hp hf => exact .replaced frame hv hp hf
  | crowded e after hv hp hf hm => exact .crowded e _ hv hp hf (alone_makeRoom h hm)
  | created room hv hp hf hm => exact .created room.alone hv hp hf (alone_makeRoom h hm)

theorem alone_pin (h : pool.Regular settings) (hp : pool.pin id = (answer, after)) :
    pool.alone.pin id = (answer, after.alone) := by
  have hfind : pool.alone.frames.find? id = pool.frames.find? id := rfl
  unfold pin at hp ⊢
  rw [hfind]
  split at hp
  · cases hp
    rfl
  · rename_i frame hf
    have hw : pool.alone.policies.withdraw id = _ :=
      Policies.alone_withdraw h.tracked (h.owned id frame hf).1
    cases hp
    simp only [hw]
    rfl

theorem alone_unpin (h : pool.unpin id = (answer, after)) :
    pool.alone.unpin id = (answer, after.alone) := by
  have hfind : pool.alone.frames.find? id = pool.frames.find? id := rfl
  unfold unpin at h ⊢
  rw [hfind]
  split at h <;> cases h <;> rfl

theorem alone_flushPage (h : pool.flushPage id = (answer, after)) :
    pool.alone.flushPage id = (answer, after.alone) := by
  unfold flushPage at h ⊢
  split at h
  · rename_i hv
    rw [if_pos hv]
    exact alone_writeBack h
  · rename_i hv
    cases h
    rw [if_neg hv]

theorem alone_flushPages {ids : List PageId} (h : pool.flushPages ids = (answer, after)) :
    pool.alone.flushPages ids = (answer, after.alone) := by
  induction ids generalizing pool with
  | nil =>
    cases h
    rfl
  | cons id ids ih =>
    rw [flushPages] at h ⊢
    split at h
    · rename_i hfirst
      cases h
      rw [alone_flushPage hfirst]
    · rename_i hfirst
      rw [alone_flushPage hfirst]
      exact ih h

theorem alone_flushBatch {limit : Nat} {answer : Except StorageError Nat}
    (h : pool.flushBatch limit = (answer, after)) :
    pool.alone.flushBatch limit = (answer, after.alone) := by
  have hdirty : pool.alone.dirtyPages = pool.dirtyPages := rfl
  unfold flushBatch at h ⊢
  rw [hdirty]
  dsimp only at h ⊢
  split at h
  · rename_i hf
    cases h
    rw [alone_flushPages hf]
  · rename_i hf
    cases h
    rw [alone_flushPages hf]

theorem alone_serve (h : pool.Regular settings) (request : Request) :
    pool.alone.serve request = ((pool.serve request).1, (pool.serve request).2.alone) := by
  cases request with
  | get id =>
    rcases hg : pool.getPage id with ⟨answer, after⟩
    simp only [serve, alone_getPage h hg, hg]
  | pin id => exact alone_pin h rfl
  | unpin id => exact alone_unpin rfl
  | flush id => exact alone_flushPage rfl
  | flushAll => exact alone_flushPages rfl
  | flushBatch limit =>
    rcases hf : pool.flushBatch limit with ⟨answer, after⟩
    simp only [serve, alone_flushBatch hf, hf]

theorem alone_perform (h : pool.Regular settings) (operation : Operation) :
    pool.alone.perform operation =
      ((pool.perform operation).1, (pool.perform operation).2.alone) := by
  cases operation with
  | request request => exact alone_serve h request
  | update id page => exact alone_updatePage h rfl

theorem alone_reply (h : pool.Regular settings) (operation : Operation) :
    pool.alone.reply operation = pool.reply operation := by
  have hperform := alone_perform h operation
  unfold reply
  split
  · rename_i id
    rcases hg : pool.getPage id with ⟨answer, after⟩
    rw [alone_getPage h hg]
  · rename_i limit
    rcases hf : pool.flushBatch limit with ⟨answer, after⟩
    rw [alone_flushBatch hf]
  · rw [hperform]

theorem alone_step (h : pool.Regular settings) (step : Step) :
    pool.alone.step step = (pool.step step).alone :=
  congrArg Prod.snd (alone_perform (h.failing step.fails) step.operation)

theorem alone_run (h : pool.Regular settings) (steps : List Step) :
    pool.alone.run steps = (pool.run steps).alone := by
  induction steps generalizing pool with
  | nil => rfl
  | cons step steps ih =>
    show (pool.alone.step step).run steps = ((pool.step step).run steps).alone
    rw [alone_step h, ih (h.step step)]

theorem alone_replies (h : pool.Regular settings) (steps : List Step) :
    pool.alone.replies steps = pool.replies steps := by
  induction steps generalizing pool with
  | nil => rfl
  | cons step steps ih =>
    have hreply := alone_reply (h.failing step.fails) step.operation
    rw [replies, replies, alone_step h, ih (h.step step)]
    exact congrArg (· :: _) hreply

end

section

variable {first second : Policy} {store : Store}

/-- The pool with the first policy alone is set up whenever that with both is. -/
theorem create_alone (second : Policy) {capacity : Nat} :
    create { capacity, policies := [first] } store =
      (create (.dual capacity first second) store).map alone := by
  unfold create PoolSettings.dual
  by_cases hc : 0 < capacity
  · rw [dif_pos hc, dif_pos hc]
    rfl
  · rw [dif_neg hc, dif_neg hc]
    rfl

/-- A second policy makes no difference. Take any two of the built-in policies, any number of frames
and any store. A pool with both is set up just when one with the first alone is, and whatever a run
does and whichever calls of the store fail, the two pools answer the same to each call, make the
same calls of the store in the same order, and have the same file, frames, counters and first
policy after it. -/
theorem run_second_policy (hfirst : first.IsNew) (hsecond : second.IsNew) (capacity : Nat)
    (store : Store) :
    (∀ e, create (.dual capacity first second) store = .error e →
      create { capacity, policies := [first] } store = .error e) ∧
    ∀ pool, create (.dual capacity first second) store = .ok pool →
      ∃ single, create { capacity, policies := [first] } store = .ok single ∧
        ∀ steps,
          single.replies steps = pool.replies steps ∧
          (single.run steps).store.calls = (pool.run steps).store.calls ∧
          (single.run steps).store = (pool.run steps).store ∧
          (single.run steps).frames = (pool.run steps).frames ∧
          (single.run steps).stats = (pool.run steps).stats ∧
          (single.run steps).policies.first = (pool.run steps).policies.first := by
  rw [create_alone second]
  refine ⟨fun e he => by rw [he]; rfl, fun pool hc => ⟨pool.alone, by rw [hc]; rfl, ?_⟩⟩
  intro steps
  have hnew : ∀ policy ∈ (PoolSettings.dual capacity first second).policies, policy.IsNew := by
    simp [PoolSettings.dual, hfirst, hsecond]
  have hpool := regular_of_create hnew hc
  rw [alone_run hpool steps]
  exact ⟨alone_replies hpool steps, rfl, rfl, rfl, rfl, rfl⟩

/-- With a least recently used order behind a clock a full pool still drops the page that the clock
names. -/
theorem run_second_policy_evicted :
    ∃ pool single, create (.dual 1 (.clock .empty) (.lru .empty)) (.vacant ["data"]) = .ok pool ∧
      create { capacity := 1, policies := [.clock .empty] } (.vacant ["data"]) = .ok single ∧
      let steps : List Step := [{ operation := .update (.ofIndex 0) (.empty (.ofIndex 0)) },
        { operation := .update (.ofIndex 1) (.empty (.ofIndex 1)) }]
      single.replies steps = pool.replies steps ∧
      (single.run steps).store.calls = (pool.run steps).store.calls ∧
      (single.run steps).frames = (pool.run steps).frames := by
  obtain ⟨pool, hc⟩ : ∃ pool,
      create (.dual 1 (.clock .empty) (.lru .empty)) (.vacant ["data"]) = .ok pool := ⟨_, rfl⟩
  obtain ⟨single, hsingle, hrun⟩ :=
    (run_second_policy (.inl rfl) (.inr rfl) 1 (.vacant ["data"])).2 pool hc
  obtain ⟨hreplies, hcalls, -, hframes, -⟩ := hrun _
  exact ⟨pool, single, hc, hsingle, hreplies, hcalls, hframes⟩

end

end Pool

end PagedStorage
