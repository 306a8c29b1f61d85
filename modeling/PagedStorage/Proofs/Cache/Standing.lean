import PagedStorage.Proofs.Cache.Sweep

namespace PagedStorage

namespace Policy

variable {policy after left : Policy} {table aged : FrameTable} {page other : PageId}
  {frame : Frame}

/-- The page under the hand, without a mark, or the oldest on the list. -/
def IsNext (policy : Policy) (page : PageId) : Prop :=
  match policy with
  | clock state => state.ahead.head? = some ⟨page, false⟩
  | lru state | retaining state => state.pages.head? = some page
  | idle => False

/-- A call that leaves a page alone. A question has to find it cached and not pinned. -/
def Action.Spares (page : PageId) : Action → Prop
  | register frame => frame.id ≠ page
  | withdraw other => other ≠ page
  | victim table => table.Evictable page
  | pick _ => False

/-- The hand has taken the mark of the candidate it rests on. -/
theorem head?_ahead_sweep {ahead behind : List Clock.Candidate} {state : Clock}
    (h : Clock.sweep ahead behind table = (some page, state, aged)) :
    state.ahead.head? = some ⟨page, false⟩ := by
  fun_induction Clock.sweep ahead behind table with
  | case1 behind table candidate ahead hnone ih => exact ih h
  | case2 behind table candidate ahead frame hf hpinned ih => exact ih h
  | case3 behind table candidate ahead frame hf hpinned hmarked ih => exact ih h
  | case4 behind table candidate ahead frame hf hpinned hmarked =>
    cases h
    rw [← Bool.eq_false_iff.mpr hmarked]
    rfl
  | case5 table => cases h
  | case6 table candidate behind ih => exact ih h

theorem isNext_of_victim (h : policy.victim table = (some page, after, aged)) :
    after.IsNext page := by
  cases policy with
  | clock state =>
    rcases hv : state.victim table with ⟨named, next, last⟩
    simp only [victim, hv] at h
    cases h
    exact head?_ahead_sweep hv
  | lru state | retaining state =>
    have hfirst := Lru.victim_fst state table
    rcases hv : state.victim table with ⟨named, next⟩
    simp only [victim, hv] at h hfirst
    cases h
    exact hfirst.symm
  | idle => cases h

namespace IsNext

/-- Asked again, the policy names the page at once: nothing moves. -/
theorem victim (h : policy.IsNext page) (he : table.Evictable page) :
    policy.victim table = (some page, policy, table) := by
  cases policy with
  | clock state =>
    obtain ⟨ahead, behind⟩ := state
    obtain ⟨rest, rfl⟩ := List.head?_eq_some_iff.mp h
    obtain ⟨frame, hf, hp⟩ := he
    have hf : table.find? page = some frame := hf
    simp [Policy.victim, Clock.victim, Clock.sweep, hf, hp]
  | lru state | retaining state =>
    have hhead : state.pages.head? = some page := h
    have hself : state.victim table = (state.pages.head?, state) := by
      apply Lru.victim_eq_self
      intro oldest holdest
      cases hhead.symm.trans holdest
      exact he
    rw [Policy.victim, hself, hhead]
  | idle => exact h.elim

/-- Other pages join behind it. -/
theorem register (h : policy.IsNext page) (hs : policy.Sound) (hne : frame.id ≠ page) :
    (policy.register frame).IsNext page := by
  unfold Policy.register
  split
  · exact h
  cases policy with
  | clock state =>
    obtain ⟨ahead, behind⟩ := state
    obtain ⟨rest, rfl⟩ := List.head?_eq_some_iff.mp h
    change (Clock.register _ _).ahead.head? = _
    rw [Clock.register]
    split
    · exact congrArg some (if_neg hne.symm)
    · rfl
  | lru state | retaining state =>
    obtain ⟨rest, hpages⟩ := List.head?_eq_some_iff.mp h
    change (state.register frame.id).pages.head? = _
    rw [Lru.Sound.pages_register hs, hpages, List.filter_cons_of_pos (by simpa using hne.symm)]
    rfl
  | idle => exact h.elim

theorem withdraw (h : policy.IsNext page) (hs : policy.Sound) (hne : other ≠ page)
    (hw : policy.withdraw other = .ok left) : left.IsNext page := by
  cases policy with
  | clock state =>
    cases hw
    obtain ⟨ahead, behind⟩ := state
    obtain ⟨rest, rfl⟩ := List.head?_eq_some_iff.mp h
    change (Clock.withdraw _ _).ahead.head? = _
    rw [Clock.withdraw, List.filter_cons_of_pos (by simpa using hne.symm)]
    rfl
  | lru state =>
    rw [Policy.withdraw, Lru.withdraw] at hw
    split at hw <;> cases hw
    obtain ⟨rest, hpages⟩ := List.head?_eq_some_iff.mp h
    change (state.without other).pages.head? = _
    rw [Lru.Sound.pages_without hs, hpages, List.filter_cons_of_pos (by simpa using hne.symm)]
    rfl
  | idle => exact h.elim
  | retaining state => cases hw

theorem act {action : Action} (h : policy.IsNext page) (hs : policy.Sound)
    (hspares : action.Spares page) : (policy.act action).IsNext page := by
  cases action with
  | register frame => exact h.register hs hspares
  | withdraw other =>
    rw [Policy.act]
    split
    · rename_i hw
      exact h.withdraw hs hspares hw
    · exact h
  | victim table =>
    rw [Policy.act, h.victim hspares]
    exact h
  | pick table => exact hspares.elim

theorem run {actions : List Action} (h : policy.IsNext page) (hs : policy.Sound)
    (hspares : ∀ action ∈ actions, action.Spares page) : (policy.run actions).IsNext page := by
  induction actions generalizing policy with
  | nil => exact h
  | cons action actions ih =>
    have hfirst := hspares action List.mem_cons_self
    exact ih (h.act hs hfirst) (hs.act action) fun later hmem =>
      hspares later (List.mem_cons_of_mem _ hmem)

end IsNext

theorem sound_of_isNew (h : policy.IsNew) : policy.Sound := (tracks_of_isNew h).sound

/-- A page that a clock or a recency list has named, whatever was called before, is named again
after any calls that leave it alone, whatever becomes of the other frames, as long as it is cached
and not pinned. Nothing else changes then. -/
theorem victim_stands {start : Policy} {more : List Action} {now : FrameTable} (hnew : start.IsNew)
    (actions : List Action) (hv : (start.run actions).victim table = (some page, left, aged))
    (hspares : ∀ action ∈ more, action.Spares page) (he : now.Evictable page) :
    (left.run more).victim now = (some page, left.run more, now) := by
  have hsound : left.Sound := by
    have hleft := ((sound_of_isNew hnew).run actions).victim table
    rwa [hv] at hleft
  exact ((isNext_of_victim hv).run hsound hspares).victim he

/-- A page that a clock has named outlives a newcomer, a neighbour that is withdrawn and another
that is dropped from the table. -/
theorem victim_stands_clock :
    let frame := fun index => Frame.fresh (.empty (.ofIndex index))
    let pair := fun index => (FrameTable.empty.put (frame 0)).put (frame index)
    let more : List Action := [.register (frame 2), .withdraw (.ofIndex 1), .victim (pair 2)]
    ∃ left aged,
      ((clock .empty).run [.register (frame 0), .register (frame 1)]).victim (pair 1) =
        (some (.ofIndex 0), left, aged) ∧
      (left.run more).victim (pair 3) = (some (.ofIndex 0), left.run more, pair 3) := by
  intro frame pair more
  let ring : Clock := ⟨[⟨.ofIndex 0, true⟩, ⟨.ofIndex 1, true⟩], []⟩
  have hring : (clock .empty).run [.register (frame 0), .register (frame 1)] = clock ring := rfl
  have hmarked : ∀ candidate ∈ ring.sweepOrder,
      (pair 1).Evictable candidate.page → candidate.marked := by
    intro candidate hmem _
    revert candidate
    decide
  obtain ⟨left, hv, -⟩ := Clock.victim_of_marked hmarked
  have hfirst : (Clock.passed (pair 1) ring.sweepOrder).head?.map Clock.Candidate.page =
      some (.ofIndex 0) := by
    rw [Clock.head?_passed]
    decide +kernel
  have hnamed : ((clock .empty).run [.register (frame 0), .register (frame 1)]).victim (pair 1) =
      (some (.ofIndex 0), clock left, (ring.victim (pair 1)).2.2) := by
    rw [hring, victim, hv, hfirst]
  refine ⟨_, _, hnamed, ?_⟩
  apply victim_stands (.inl rfl) _ hnamed
  · simp only [more, List.forall_mem_cons]
    have hother : ∀ index ∈ [1, 2], PageId.ofIndex index ≠ .ofIndex 0 := by decide
    have hasked : (pair 2).Evictable (.ofIndex 0) := by decide +kernel
    exact ⟨hother 2 (by decide), hother 1 (by decide), hasked, nofun⟩
  · decide +kernel

end Policy

end PagedStorage
