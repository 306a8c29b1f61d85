import Mathlib.Data.List.Dedup
import PagedStorage.Proofs.Pool.Formed

namespace PagedStorage

section

variable {pages earlier later : List PageId} {page other : PageId} {kept : PageId → Prop}
  [DecidablePred kept]

/-- Of the pages that are kept, the first by their last places is the one that all the others come
after. -/
theorem exists_of_head?_dedup (h : (pages.dedup.filter fun page => kept page).head? = some page) :
    kept page ∧ ∃ earlier later, pages = earlier ++ page :: later ∧ page ∉ later ∧
      ∀ other ∈ pages, kept other → other ≠ page → other ∈ later := by
  induction pages with
  | nil => cases h
  | cons head pages ih =>
    by_cases hmem : head ∈ pages
    · rw [List.dedup_cons_of_mem hmem] at h
      obtain ⟨hk, earlier, later, hsplit, hlast, hothers⟩ := ih h
      refine ⟨hk, head :: earlier, later, congrArg (head :: ·) hsplit, hlast, ?_⟩
      intro other hother
      rcases List.mem_cons.mp hother with rfl | hother
      · exact hothers other hmem
      · exact hothers other hother
    rw [List.dedup_cons_of_notMem hmem] at h
    by_cases hk : kept head
    · rw [List.filter_cons_of_pos (by simpa using hk)] at h
      cases h
      refine ⟨hk, [], pages, rfl, hmem, ?_⟩
      intro other hother _ hne
      exact (List.mem_cons.mp hother).resolve_left hne
    · rw [List.filter_cons_of_neg (by simpa using hk)] at h
      obtain ⟨hpage, earlier, later, hsplit, hlast, hothers⟩ := ih h
      refine ⟨hpage, head :: earlier, later, congrArg (head :: ·) hsplit, hlast, ?_⟩
      intro other hother hkept
      rcases List.mem_cons.mp hother with rfl | hother
      · exact absurd hkept hk
      · exact hothers other hother hkept

end

namespace Policy

variable {policy : Policy} {table after : FrameTable} {history : List PageId} {frame : Frame}
  {page : PageId}

/-- The policy is a recency list of the pages that may be evicted, by their last places in
`history`. -/
structure Recalls (policy : Policy) (table : FrameTable) (history : List PageId) : Prop where
  tracks : policy.Tracks table
  exists_lru : ∃ state, policy = lru state
  candidates_eq : policy.candidates = history.dedup.filter fun page => table.Evictable page

namespace Recalls

theorem of_evictable (h : policy.Recalls table history)
    (he : ∀ id, after.Evictable id ↔ table.Evictable id) : policy.Recalls after history where
  tracks := h.tracks.of_evictable he
  exists_lru := h.exists_lru
  candidates_eq := by
    rw [h.candidates_eq]
    simp only [he]

/-- A frame that is pinned, and was if it was there, is nothing to the policy. -/
theorem register_of_pinned (h : policy.Recalls table history) (hp : frame.IsPinned)
    (he : ¬table.Evictable frame.id) :
    (policy.register frame).Recalls (table.put frame) history := by
  unfold register
  rw [if_pos hp]
  apply h.of_evictable
  intro id
  rw [FrameTable.evictable_put]
  split
  · rename_i hid
    exact iff_of_false (not_not_intro hp) (hid ▸ he)
  · rfl

theorem register_of_not_pinned (h : policy.Recalls table history) (hp : ¬frame.IsPinned) :
    (policy.register frame).Recalls (table.put frame) (history ++ [frame.id]) where
  tracks := h.tracks.register fun hpinned => absurd hpinned hp
  exists_lru := by
    obtain ⟨state, rfl⟩ := h.exists_lru
    exact ⟨state.register frame.id, if_neg hp⟩
  candidates_eq := by
    obtain ⟨state, rfl⟩ := h.exists_lru
    have hsound : state.Sound := h.tracks.sound
    have hpages : state.pages = _ := h.candidates_eq
    rw [register, if_neg hp]
    change (state.register frame.id).pages = _
    rw [hsound.pages_register, hpages, dedup_concat, List.filter_append, List.filter_filter,
      List.filter_filter]
    congr 1
    · apply List.filter_congr
      intro other _
      by_cases ho : other = frame.id
      · simp [ho]
      · simp [FrameTable.evictable_put, Ne.symm ho, ho]
    · simp [FrameTable.evictable_put, hp]

theorem withdraw (h : policy.Recalls table history) (hv : page.IsValid)
    (he : ∀ id, after.Evictable id ↔ id ≠ page ∧ table.Evictable id) :
    ∃ left, policy.withdraw page = .ok left ∧ left.Recalls after history := by
  obtain ⟨left, hok, htracks⟩ := h.tracks.withdraw hv he
  obtain ⟨same, hsame, -, hcandidates⟩ := exists_withdraw h.tracks.builtIn h.tracks.sound hv
  cases hok.symm.trans hsame
  refine ⟨left, hok, htracks, ?_, ?_⟩
  · obtain ⟨state, rfl⟩ := h.exists_lru
    rw [Policy.withdraw, Lru.withdraw, if_pos hv] at hok
    cases hok
    exact ⟨_, rfl⟩
  · rw [hcandidates, h.candidates_eq, List.filter_filter]
    apply List.filter_congr
    intro other _
    simp only [he, ← Bool.decide_and]

theorem victim_eq (h : policy.Recalls table history) :
    policy.victim table = (policy.candidates.head?, policy, table) := by
  obtain ⟨state, rfl⟩ := h.exists_lru
  have hhead : ∀ page ∈ state.pages.head?, table.Evictable page :=
    fun page hpage => (h.tracks.mem_iff page).mp (List.mem_of_head? hpage)
  rw [victim, Lru.victim_eq_self hhead]
  rfl

end Recalls

end Policy

namespace Policies

variable {policies left : Policies} {table aged : FrameTable} {history : List PageId}
  {page : PageId} {answer : Option PageId}

/-- The second policy decides whether a page is let go, but not what the first is left with. -/
theorem first_withdraw {done : Except StorageError Unit} {first : Policy}
    (h : policies.withdraw page = (done, left)) (hok : policies.first.withdraw page = .ok first) :
    left.first = first := by
  simp only [withdraw, hok] at h
  split at h
  · cases h
    rfl
  · split at h <;> cases h <;> rfl

/-- The second policy is asked only if nothing may be evicted, and then names nobody either. -/
theorem victim_of_recalls (h : policies.first.Recalls table history)
    (hv : policies.victim table = (answer, left, aged)) :
    left.first = policies.first ∧ answer = policies.first.candidates.head? := by
  have hnobody : policies.first.candidates.head? = none → answer = none := by
    intro hhead
    cases answer with
    | none => rfl
    | some page =>
      have hmem := (h.tracks.mem_iff page).mpr (evictable_of_victim hv)
      rw [List.head?_eq_none_iff.mp hhead] at hmem
      cases hmem
  rw [victim, h.victim_eq] at hv
  cases hhead : policies.first.candidates.head? with
  | some page =>
    simp only [hhead] at hv
    cases hv
    exact ⟨rfl, rfl⟩
  | none =>
    simp only [hhead] at hv
    refine ⟨?_, hnobody hhead⟩
    split at hv <;> cases hv <;> rfl

end Policies

namespace Pool

/-- The page that a call registers: the one that it is for, if it succeeds and the page may be
evicted afterwards. -/
def registered (pool : Pool) (operation : Operation) : List PageId :=
  match operation, pool.perform operation with
  | .request (.get id), (.ok (), after) | .update id _, (.ok (), after) =>
    if after.frames.Evictable id then [id] else []
  | .request (.unpin id), (.ok (), _) => [id]
  | _, _ => []

def registrations (pool : Pool) : List Step → List PageId
  | [] => []
  | step :: steps =>
    (pool.failing step.fails).registered step.operation ++ (pool.step step).registrations steps

def Recalls (pool : Pool) (history : List PageId) : Prop :=
  pool.policies.first.Recalls pool.frames history

/-- No page is gone but the first policy's oldest candidate. -/
def LosesOldest (pool after : Pool) : Prop :=
  ∀ id, after.frames.find? id = none →
    pool.frames.find? id = none ∨ pool.policies.first.candidates.head? = some id

section

variable {settings : PoolSettings} {pool after : Pool} {history : List PageId} {id : PageId}
  {frame former : Frame} {page : Page} {answer : Except StorageError Unit} {store : Store}

theorem LosesOldest.refl (pool : Pool) : pool.LosesOldest pool := fun _ hn => Or.inl hn

theorem LosesOldest.of_kept (h : ∀ id, after.frames.find? id = none → pool.frames.find? id = none) :
    pool.LosesOldest after := fun id hn => Or.inl (h id hn)

theorem LosesOldest.enlist (h : pool.LosesOldest after) (frame : Frame) :
    pool.LosesOldest (after.enlist frame) := by
  intro id hn
  apply h id
  rw [Pool.enlist, FrameTable.find?_put] at hn
  split at hn
  · cases hn
  · exact hn

namespace Recalls

theorem of_eq (h : pool.Recalls history) (hf : after.frames = pool.frames)
    (hp : after.policies = pool.policies) : after.Recalls history := by
  rw [Recalls, hf, hp]
  exact h

theorem enlist (h : pool.Recalls history)
    (hpin : frame.IsPinned → ¬pool.frames.Evictable frame.id) :
    (pool.enlist frame).Recalls (history ++
      if (pool.enlist frame).frames.Evictable frame.id then [frame.id] else []) := by
  have hput : (pool.enlist frame).frames.Evictable frame.id ↔ ¬frame.IsPinned := by
    rw [Pool.enlist, FrameTable.evictable_put, if_pos rfl]
  by_cases hpinned : frame.IsPinned
  · rw [if_neg (hput.not.mpr (not_not_intro hpinned)), List.append_nil]
    exact h.register_of_pinned hpinned (hpin hpinned)
  · rw [if_pos (hput.mpr hpinned)]
    exact h.register_of_not_pinned hpinned

theorem enlist_of_find? (h : pool.Recalls history) (hf : pool.frames.find? frame.id = some former)
    (hpin : frame.IsPinned → former.IsPinned) :
    (pool.enlist frame).Recalls (history ++
      if (pool.enlist frame).frames.Evictable frame.id then [frame.id] else []) := by
  apply h.enlist
  intro hpinned
  rw [FrameTable.evictable_of_find? hf]
  exact not_not_intro (hpin hpinned)

theorem writeBack (h : pool.Recalls history) (hw : pool.writeBack id = (answer, after)) :
    after.Recalls history := by
  cases writeBack_outcome hw with
  | unneeded hn => exact h
  | failed frame e store hf hd hwrite => exact h.of_eq rfl rfl
  | written frame store hf hd hwrite =>
    have hid := FrameTable.id_of_find? hf
    subst hid
    apply h.of_evictable
    intro other
    rw [FrameTable.evictable_put]
    split
    · rename_i ho
      rw [← ho]
      exact (FrameTable.evictable_of_find? hf).symm
    · rfl

/-- Also when the second policy keeps a page, the first has let it go. -/
theorem discard (h : pool.Recalls history) (hv : id.IsValid)
    (hd : pool.discard id = (answer, after)) : after.Recalls history := by
  obtain ⟨left, hok, hleft⟩ := h.withdraw hv (FrameTable.evictable_erase pool.frames id)
  unfold Pool.discard at hd
  split at hd <;> rename_i hw <;> cases hd
  all_goals
    rw [← Policies.first_withdraw hw hok] at hleft
    exact hleft

theorem victim (h : pool.Recalls history) {named : Option PageId} {policies : Policies}
    {frames : FrameTable} (hv : pool.policies.victim pool.frames = (named, policies, frames)) :
    Recalls { pool with policies, frames } history := by
  change policies.first.Recalls frames history
  rw [(Policies.victim_of_recalls h hv).1]
  exact h.of_evictable fun _ => (Policies.sameContents_of_victim hv).evictable

theorem makeRoom (h : pool.Recalls history) (hformed : pool.Formed settings)
    (hm : pool.makeRoom = (answer, after)) : after.Recalls history ∧ pool.LosesOldest after := by
  cases makeRoom_outcome hm with
  | room hr => exact ⟨h, .refl pool⟩
  | noVictim policies frames hr hv =>
    have hsame := Policies.sameContents_of_victim hv
    exact ⟨h.victim hv, .of_kept fun _ => hsame.find?_eq_none.mp⟩
  | unwritten victim policies frames e after hr hv hw =>
    have hsame := Policies.sameContents_of_victim hv
    refine ⟨(h.victim hv).writeBack hw, .of_kept fun _ hn => ?_⟩
    exact hsame.find?_eq_none.mp ((find?_eq_none_of_writeBack hw).mp hn)
  | discarded victim policies frames written answer after hr hv hw hd =>
    have hsame := Policies.sameContents_of_victim hv
    obtain ⟨frame, hf, -⟩ := Policies.evictable_of_victim hv
    have hvalid := (hformed.owned victim frame hf).1
    refine ⟨((h.victim hv).writeBack hw).discard hvalid hd, ?_⟩
    intro id hn
    rw [frames_of_discard hd, FrameTable.find?_erase] at hn
    split at hn
    · rename_i hid
      subst hid
      exact Or.inr (Policies.victim_of_recalls h hv).2.symm
    · exact Or.inl (hsame.find?_eq_none.mp ((find?_eq_none_of_writeBack hw).mp hn))

theorem getPage (h : pool.Recalls history) (hformed : pool.Formed settings)
    {answer : Except StorageError Frame} (hg : pool.getPage id = (answer, after)) :
    after.Recalls (history ++ pool.registered (.request (.get id))) ∧ pool.LosesOldest after := by
  have hnone : history ++ [] = history := List.append_nil history
  simp only [registered, Pool.perform, Pool.serve, hg]
  cases getPage_outcome hg with
  | unaddressable hv => exact ⟨hnone.symm ▸ h, .refl pool⟩
  | hit frame hv hf =>
    have hid := FrameTable.id_of_find? hf
    subst hid
    have hcounted : Recalls
        { pool with stats := { pool.stats with hits := pool.stats.hits + 1 } } history :=
      h.of_eq rfl rfl
    have hkept : pool.LosesOldest
        { pool with stats := { pool.stats with hits := pool.stats.hits + 1 } } :=
      .of_kept fun _ hn => hn
    exact ⟨hcounted.enlist_of_find? hf fun hp => hp, hkept.enlist frame.used⟩
  | unread e store hv hf hr => exact ⟨hnone.symm ▸ h.of_eq rfl rfl, .of_kept fun _ hn => hn⟩
  | crowded page store e after hv hf hr hm =>
    have hread : (pool.loadedFrom store).Recalls history := h.of_eq rfl rfl
    obtain ⟨hroom, hloses⟩ := hread.makeRoom (hformed.of_eq rfl rfl) hm
    exact ⟨hnone.symm ▸ hroom, hloses⟩
  | loaded page store room hv hf hr hm =>
    have hread : (pool.loadedFrom store).Recalls history := h.of_eq rfl rfl
    obtain ⟨hroom, hloses⟩ := hread.makeRoom (hformed.of_eq rfl rfl) hm
    have hfree := Frame.not_isPinned_clean page id
    exact ⟨hroom.enlist fun hp => absurd hp hfree, hloses.enlist _⟩

theorem updatePage (h : pool.Recalls history) (hformed : pool.Formed settings)
    (hu : pool.updatePage id page = (answer, after)) :
    after.Recalls (history ++ pool.registered (.update id page)) ∧ pool.LosesOldest after := by
  have hnone : history ++ [] = history := List.append_nil history
  simp only [registered, Pool.perform, hu]
  cases updatePage_outcome hu with
  | unaddressable hv => exact ⟨hnone.symm ▸ h, .refl pool⟩
  | misdirected hv hp => exact ⟨hnone.symm ▸ h, .refl pool⟩
  | replaced frame hv hp hf =>
    have hid := FrameTable.id_of_find? hf
    subst hid
    exact ⟨h.enlist_of_find? hf fun hpinned => hpinned,
      (LosesOldest.refl pool).enlist (frame.updated page)⟩
  | crowded e after hv hp hf hm =>
    obtain ⟨hroom, hloses⟩ := h.makeRoom hformed hm
    exact ⟨hnone.symm ▸ hroom, hloses⟩
  | created room hv hp hf hm =>
    obtain ⟨hroom, hloses⟩ := h.makeRoom hformed hm
    have hfree := Frame.not_isPinned_fresh page id
    exact ⟨hroom.enlist fun hpinned => absurd hpinned hfree, hloses.enlist _⟩

/-- The first policy lets a page go before the second can refuse. -/
theorem pin (h : pool.Recalls history) (hformed : pool.Formed settings) (id : PageId) :
    (pool.pin id).2.Recalls history ∧ pool.LosesOldest (pool.pin id).2 := by
  unfold Pool.pin
  split
  · exact ⟨h, .refl pool⟩
  · rename_i frame hf
    have hid := FrameTable.id_of_find? hf
    subst hid
    obtain ⟨left, hok, hleft⟩ := h.withdraw (hformed.owned frame.id frame hf).1
      (FrameTable.evictable_put_pinned pool.frames frame)
    rw [← Policies.first_withdraw (rfl : pool.policies.withdraw frame.id = _) hok] at hleft
    exact ⟨hleft, (LosesOldest.refl pool).enlist (frame.withPinned true)⟩

theorem unpin (h : pool.Recalls history) (id : PageId) :
    (pool.unpin id).2.Recalls (history ++ pool.registered (.request (.unpin id))) ∧
      pool.LosesOldest (pool.unpin id).2 := by
  simp only [registered, Pool.perform, Pool.serve]
  unfold Pool.unpin
  split
  · exact ⟨(List.append_nil history).symm ▸ h, .refl pool⟩
  · rename_i frame hf
    have hid := FrameTable.id_of_find? hf
    subst hid
    exact ⟨h.register_of_not_pinned (Frame.not_isPinned_withPinned frame),
      (LosesOldest.refl pool).enlist (frame.withPinned false)⟩

/-- A call other than an update registers what it says and drops the oldest page at most. -/
theorem serve (h : pool.Recalls history) (hformed : pool.Formed settings) (request : Request) :
    (pool.serve request).2.Recalls (history ++ pool.registered (.request request)) ∧
      pool.LosesOldest (pool.serve request).2 := by
  -- Writing back is all that a flush does, and it drops nothing.
  have hw : ∀ (mid : Pool) (id : PageId), mid.Recalls history ∧ pool.LosesOldest mid →
      (mid.writeBack id).2.Recalls history ∧ pool.LosesOldest (mid.writeBack id).2 :=
    fun mid id hmid => ⟨hmid.1.writeBack rfl,
      fun other hn => hmid.2 other ((find?_eq_none_of_writeBack rfl).mp hn)⟩
  have hstart : pool.Recalls history ∧ pool.LosesOldest pool := ⟨h, .refl pool⟩
  have hnone : history ++ [] = history := List.append_nil history
  cases request with
  | get id => exact h.getPage hformed rfl
  | pin id => exact hnone.symm ▸ h.pin hformed id
  | unpin id => exact h.unpin id
  | flush id => exact hnone.symm ▸ flushPage_keeps hw hstart id
  | flushAll => exact hnone.symm ▸ flushPages_keeps hw hstart pool.dirtyPages
  | flushBatch limit => exact hnone.symm ▸ flushBatch_keeps hw hstart limit

theorem perform (h : pool.Recalls history) (hformed : pool.Formed settings)
    (operation : Operation) :
    (pool.perform operation).2.Recalls (history ++ pool.registered operation) ∧
      pool.LosesOldest (pool.perform operation).2 := by
  cases operation with
  | request request => exact h.serve hformed request
  | update id page => exact h.updatePage hformed rfl

theorem run (h : pool.Recalls history) (hformed : pool.Formed settings) (steps : List Step) :
    (pool.run steps).Recalls (history ++ pool.registrations steps) := by
  induction steps generalizing pool history with
  | nil => exact (List.append_nil history).symm ▸ h
  | cons step steps ih =>
    have hstart : (pool.failing step.fails).Recalls history := h.of_eq rfl rfl
    have hstep := (hstart.perform (hformed.failing step.fails) step.operation).1
    rw [registrations, ← List.append_assoc]
    exact ih hstep (hformed.step step)

end Recalls

theorem recalls_of_create {others : List Policy} (hs : settings.policies = .lru .empty :: others)
    (h : create settings store = .ok pool) : pool.Recalls [] := by
  unfold create at h
  split at h
  · split at h
    · rename_i policies hp
      cases h
      have hlist := (Policies.toList_ofList? hp).trans hs
      have hfirst : policies.first = .lru .empty := (List.cons.inj hlist).1
      change policies.first.Recalls FrameTable.empty []
      rw [hfirst]
      exact ⟨Policy.tracks_of_isNew (Or.inr rfl), ⟨_, rfl⟩, rfl⟩
    · cases h
  · cases h

/-- In a pool whose first policy is LRU, whichever policy is asked second and whatever fails, a page
that is evicted was free to be, and it is the one that was registered longest ago: every other page
that might have been evicted has been registered since. A page is registered by a request for it or
a new image that succeeds and leaves it free, and when it is let go of; other calls, and those that
fail, do not count. -/
theorem oldest_of_evicted {others : List Policy} (hs : settings.policies = .lru .empty :: others)
    (h : create settings store = .ok pool) (steps : List Step) (step : Step)
    (hc : (pool.run steps).Contains id) (hg : ¬((pool.run steps).step step).Contains id) :
    (pool.run steps).frames.Evictable id ∧
      ∃ earlier later, pool.registrations steps = earlier ++ id :: later ∧ id ∉ later ∧
        ∀ other, (pool.run steps).frames.Evictable other → other ≠ id → other ∈ later := by
  have hcreated := formed_of_create h
  have hrun := (recalls_of_create hs h).run hcreated steps
  have hformed := (hcreated.run steps).failing step.fails
  have hstart : ((pool.run steps).failing step.fails).Recalls (pool.registrations steps) :=
    hrun.of_eq rfl rfl
  have hgone : ((pool.run steps).step step).frames.find? id = none :=
    Option.not_isSome_iff_eq_none.mp hg
  have hthere : ¬(pool.run steps).frames.find? id = none := Option.isSome_iff_ne_none.mp hc
  have hhead := ((hstart.perform hformed step.operation).2 id hgone).resolve_left hthere
  rw [hstart.candidates_eq] at hhead
  obtain ⟨he, earlier, later, hsplit, hlast, hothers⟩ := exists_of_head?_dedup hhead
  refine ⟨he, earlier, later, hsplit, hlast, ?_⟩
  intro other hother hne
  have hmem := (hrun.tracks.mem_iff other).mpr hother
  rw [hrun.candidates_eq] at hmem
  exact hothers other (List.mem_dedup.mp (List.mem_filter.mp hmem).1) hother hne

/-- A page that was asked for again outlives one that was given its image later. -/
theorem oldest_of_evicted_request :
    ∃ pool, create { capacity := 2, policies := [.lru .empty] } (.vacant ["data"]) = .ok pool ∧
      ¬((pool.run [{ operation := .update (.ofIndex 0) (.empty (.ofIndex 0)) },
        { operation := .update (.ofIndex 1) (.empty (.ofIndex 1)) },
        { operation := .request (.get (.ofIndex 0)) }]).step
        { operation := .update (.ofIndex 2) (.empty (.ofIndex 2)) }).Contains (.ofIndex 1) ∧
      ∃ earlier later, pool.registrations
        [{ operation := .update (.ofIndex 0) (.empty (.ofIndex 0)) },
          { operation := .update (.ofIndex 1) (.empty (.ofIndex 1)) },
          { operation := .request (.get (.ofIndex 0)) }] = earlier ++ .ofIndex 1 :: later ∧
        PageId.ofIndex 0 ∈ later := by
  have hc : create { capacity := 2, policies := [.lru .empty] } (.vacant ["data"]) = .ok _ := rfl
  refine ⟨_, hc, by decide +kernel, ?_⟩
  obtain ⟨-, earlier, later, hsplit, -, hothers⟩ := oldest_of_evicted rfl hc
    [{ operation := .update (.ofIndex 0) (.empty (.ofIndex 0)) },
      { operation := .update (.ofIndex 1) (.empty (.ofIndex 1)) },
      { operation := .request (.get (.ofIndex 0)) }]
    { operation := .update (.ofIndex 2) (.empty (.ofIndex 2)) }
    (by decide +kernel : Pool.Contains _ (.ofIndex 1)) (by decide +kernel)
  exact ⟨earlier, later, hsplit, hothers (.ofIndex 0) (by decide +kernel) (by decide)⟩

end

end Pool

end PagedStorage
