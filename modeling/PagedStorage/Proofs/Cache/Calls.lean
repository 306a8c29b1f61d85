import PagedStorage.Proofs.Cache.Candidates

namespace PagedStorage

namespace Policy

inductive Action
  | register (frame : Frame)
  | withdraw (page : PageId)
  | victim (table : FrameTable)
  | pick (table : FrameTable)

/-- The policy after a call. One that is refused changes nothing. -/
def act (policy : Policy) : Action → Policy
  | .register frame => policy.register frame
  | .withdraw page =>
    match policy.withdraw page with
    | .ok left => left
    | .error _ => policy
  | .victim table => (policy.victim table).2.1
  | .pick table => (policy.pick table).2.1

def run (policy : Policy) (actions : List Action) : Policy := actions.foldl act policy

variable {policy : Policy}

namespace Sound

theorem pick (h : policy.Sound) (table : FrameTable) : (policy.pick table).2.1.Sound := by
  have hleft := h.victim table
  unfold Policy.pick
  split
  · rename_i hv
    rwa [hv] at hleft
  · rename_i hv
    rw [hv] at hleft
    split
    · rename_i hw
      exact hleft.withdraw hw
    · exact hleft

theorem act (h : policy.Sound) (action : Action) : (policy.act action).Sound := by
  cases action with
  | register frame => exact h.register frame
  | withdraw page =>
    rw [Policy.act]
    split
    · rename_i hw
      exact h.withdraw hw
    · exact h
  | victim table => exact h.victim table
  | pick table => exact h.pick table

theorem run (h : policy.Sound) (actions : List Action) : (policy.run actions).Sound := by
  induction actions generalizing policy with
  | nil => exact h
  | cons action actions ih => exact ih (h.act action)

end Sound

theorem sublist_pick (h : policy.Sound) (table : FrameTable) :
    (policy.pick table).2.1.candidates.Sublist policy.candidates := by
  have hc := chosen_victim policy table
  have hsound := h.victim table
  unfold pick
  split
  · rename_i hv
    rw [hv] at hc
    exact hc.sublist
  · rename_i hv
    rw [hv] at hc hsound
    split
    · rename_i hw
      exact (sublist_withdraw hsound hw).trans hc.sublist
    · exact hc.sublist

theorem name_pick (policy : Policy) (table : FrameTable) :
    (policy.pick table).2.1.name = policy.name := by
  have hname := name_victim policy table
  unfold pick
  split
  · rename_i hv
    rwa [hv] at hname
  · rename_i hv
    rw [hv] at hname
    split
    · rename_i hw
      exact (name_withdraw hw).trans hname
    · exact hname

theorem name_run (policy : Policy) (actions : List Action) :
    (policy.run actions).name = policy.name := by
  induction actions generalizing policy with
  | nil => rfl
  | cons action actions ih =>
    refine (ih (policy.act action)).trans ?_
    cases action with
    | register frame => exact name_register policy frame
    | withdraw page =>
      rw [act]
      split
      · rename_i hw
        exact name_withdraw hw
      · rfl
    | victim table => exact name_victim policy table
    | pick table => exact name_pick policy table

theorem exists_run_lru (state : Lru) (actions : List Action) :
    ∃ left, (lru state).run actions = lru left := by
  have hname := name_run (lru state) actions
  cases hleft : (lru state).run actions with
  | lru left => exact ⟨left, rfl⟩
  | clock left | idle | retaining left =>
    rw [hleft] at hname
    exact absurd hname (by simp [name])

theorem exists_run_clock (state : Clock) (actions : List Action) :
    ∃ left, (clock state).run actions = clock left := by
  have hname := name_run (clock state) actions
  cases hleft : (clock state).run actions with
  | clock left => exact ⟨left, rfl⟩
  | lru left | idle | retaining left =>
    rw [hleft] at hname
    exact absurd hname (by simp [name])

/-- Whatever calls a recency list has been through, its two maps are inverse to each other, with no
tick ahead of the last one. A registration moves the page of an unpinned frame to the end, and does
nothing for a pinned one; a page is taken off without moving the others, and the sentinel id is
refused. Asked for a victim, the list drops just the candidates in front of the oldest that may be
evicted, and names that one; it names nobody, and is empty, if there is none. -/
theorem recency_run (actions : List Action) :
    ∃ state, (lru .empty).run actions = lru state ∧
      (∀ (tick : Nat) (page : PageId),
        state.order[tick]? = some page ↔ state.index[page]? = some tick) ∧
      (∀ (tick : Nat) (page : PageId), state.order[tick]? = some page → tick ≤ state.tick) ∧
      state.pages.Nodup ∧
      (∀ frame, frame.IsPinned → (lru state).register frame = lru state) ∧
      (∀ frame, ¬frame.IsPinned → ∃ left, (lru state).register frame = lru left ∧
        left.pages = (state.pages.filter fun page => page ≠ frame.id) ++ [frame.id]) ∧
      (∀ page, page.IsValid → ∃ left, (lru state).withdraw page = .ok (lru left) ∧
        left.pages = state.pages.filter fun other => other ≠ page) ∧
      (lru state).withdraw .invalid = .error (.invalidArgument (.notWithdrawable .invalid)) ∧
      (lru state).act (.withdraw .invalid) = lru state ∧
      ∀ table, ∃ answer left older, (lru state).victim table = (answer, lru left, table) ∧
        state.pages = older ++ left.pages ∧
        (∀ page ∈ older, ¬table.Evictable page) ∧
        answer = left.pages.head? ∧
        (∀ page, answer = some page → table.Evictable page) ∧
        (answer = none ↔ ∀ page ∈ state.pages, ¬table.Evictable page) := by
  obtain ⟨state, hstate⟩ := exists_run_lru .empty actions
  have hempty : (lru .empty).Sound := Lru.sound_empty
  have hsound : (lru state).Sound := hstate ▸ hempty.run actions
  have h : state.Sound := hsound
  refine ⟨state, hstate, h.inverse, h.le_tick, h.nodup_pages, ?_, ?_, ?_, rfl, rfl, ?_⟩
  · intro frame hp
    exact if_pos hp
  · intro frame hp
    exact ⟨state.register frame.id, if_neg hp, h.pages_register frame.id⟩
  · intro page hv
    refine ⟨state.without page, ?_, h.pages_without page⟩
    rw [withdraw, Lru.withdraw, if_pos hv]
    rfl
  · intro table
    have hc := Lru.chosen_victim state table
    refine ⟨(state.victim table).1, (state.victim table).2,
      state.pages.takeWhile fun page => ¬table.Evictable page, rfl, ?_, ?_, rfl,
      fun page ha => (hc.answered page ha).2, hc.eq_none_iff⟩
    · rw [Lru.pages_victim, List.takeWhile_append_dropWhile]
    · intro page hmem
      simpa using List.mem_takeWhile_imp hmem

end Policy

end PagedStorage
