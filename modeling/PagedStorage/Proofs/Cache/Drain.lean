import PagedStorage.Proofs.Cache.Sweep

namespace PagedStorage

namespace Clock

variable {table after : FrameTable} {front : List Candidate} {marked : Bool} {page : PageId}

/-- The candidates that may be evicted and have a mark, or those that have none. -/
def live (table : FrameTable) (marked : Bool) (candidates : List Candidate) : List PageId :=
  (candidates.filter fun candidate =>
    table.Evictable candidate.page ∧ candidate.marked = marked).map Candidate.page

theorem live_append (table : FrameTable) (marked : Bool) (front back : List Candidate) :
    live table marked (front ++ back) = live table marked front ++ live table marked back := by
  rw [live, List.filter_append, List.map_append]
  rfl

theorem live_congr (h : table.SameContents after) (marked : Bool) (candidates : List Candidate) :
    live after marked candidates = live table marked candidates := by
  simp only [live, h.evictable]

theorem live_withdraw (table : FrameTable) (marked : Bool) (clock : Clock) (page : PageId) :
    live table marked (clock.withdraw page).sweepOrder =
      (live table marked clock.sweepOrder).filter fun other => other ≠ page := by
  rw [sweepOrder_withdraw, live, live, List.filter_map, List.filter_filter, List.filter_filter]
  congr 1
  apply List.filter_congr
  intro candidate _
  exact Bool.and_comm _ _

theorem live_cons_of_not_marked {candidate : Candidate} (he : table.Evictable candidate.page)
    (hm : ¬candidate.marked) (back : List Candidate) :
    live table false (candidate :: back) = candidate.page :: live table false back ∧
      live table true (candidate :: back) = live table true back := by
  simp [live, he, hm]

theorem live_of_marked
    (h : ∀ candidate ∈ front, table.Evictable candidate.page → candidate.marked) :
    live table false front = [] ∧
      live table true front = (passed table front).map Candidate.page := by
  constructor
  · rw [live, List.map_eq_nil_iff, List.filter_eq_nil_iff]
    intro candidate hmem hlive
    obtain ⟨he, hm⟩ := of_decide_eq_true hlive
    exact Bool.false_ne_true (hm.symm.trans (h candidate hmem he))
  · rw [live, pages_passed, List.filter_map]
    congr 1
    apply List.filter_congr
    intro candidate hmem
    simpa using h candidate hmem

/-- The hand leaves candidates behind that may be evicted and have no mark. -/
theorem live_passed (table : FrameTable) (front : List Candidate) :
    live table false (passed table front) = (passed table front).map Candidate.page ∧
      live table true (passed table front) = [] := by
  have hunmarked : ∀ candidate ∈ passed table front,
      table.Evictable candidate.page ∧ candidate.marked = false :=
    fun candidate hmem => (of_mem_passed hmem).imp_right Bool.eq_false_iff.mpr
  constructor
  · rw [live, List.filter_eq_self.mpr]
    intro candidate hmem
    exact decide_eq_true (hunmarked candidate hmem)
  · rw [live, List.map_eq_nil_iff, List.filter_eq_nil_iff]
    intro candidate hmem hlive
    obtain ⟨-, hm⟩ := of_decide_eq_true hlive
    exact Bool.false_ne_true ((hunmarked candidate hmem).2.symm.trans hm)

def waiting (clock : Clock) (table : FrameTable) : List PageId :=
  live table false clock.sweepOrder ++ live table true clock.sweepOrder

/-- The first in line is named, and the line stays as it is: candidates that the hand has passed
are behind those that it has not seen yet, and before those that still have a mark. -/
theorem victim_waiting (clock : Clock) (table : FrameTable) :
    (clock.victim table).1 = (clock.waiting table).head? ∧
      (clock.victim table).2.1.waiting (clock.victim table).2.2 = clock.waiting table := by
  have hsame : table.SameContents (clock.victim table).2.2 :=
    (chosen_sweep clock.ahead clock.behind table).aged
  cases hfind : clock.sweepOrder.find?
      fun candidate => decide (table.Evictable candidate.page ∧ ¬candidate.marked) with
  | some candidate =>
    obtain ⟨hlive, front, back, horder, hfirst⟩ := List.find?_eq_some_iff_append.mp hfind
    obtain ⟨he, hm⟩ := of_decide_eq_true hlive
    have hfront : ∀ other ∈ front, table.Evictable other.page → other.marked :=
      fun other hmem hother => by simpa [hother] using hfirst other hmem
    obtain ⟨left, hv, hleft⟩ := victim_of_not_marked horder hfront he hm
    obtain ⟨hunmarked, hmarked⟩ := live_of_marked hfront
    obtain ⟨hpassed, hnone⟩ := live_passed table front
    obtain ⟨hhead, hskip⟩ := live_cons_of_not_marked he hm back
    rw [hv] at hsame ⊢
    simp only [waiting, live_congr hsame, hleft, horder, live_append, hunmarked, hmarked, hpassed,
      hnone, hhead, hskip]
    exact ⟨rfl, by simp⟩
  | none =>
    have hall : ∀ candidate ∈ clock.sweepOrder,
        table.Evictable candidate.page → candidate.marked := by
      intro candidate hmem he
      simpa [he] using List.find?_eq_none.mp hfind candidate hmem
    obtain ⟨left, hv, hleft⟩ := victim_of_marked hall
    obtain ⟨hunmarked, hmarked⟩ := live_of_marked hall
    obtain ⟨hpassed, hnone⟩ := live_passed table clock.sweepOrder
    rw [hv] at hsame ⊢
    simp only [waiting, live_congr hsame, hleft, hunmarked, hmarked, hpassed, hnone,
      List.nil_append, List.append_nil, List.head?_map]
    exact ⟨trivial, trivial⟩

theorem mem_waiting (clock : Clock) (table : FrameTable) (page : PageId) :
    page ∈ clock.waiting table ↔ page ∈ clock.pages ∧ table.Evictable page := by
  simp only [waiting, live, List.mem_append, List.mem_map, List.mem_filter, decide_eq_true_eq,
    mem_sweepOrder, pages]
  constructor
  · rintro (⟨candidate, ⟨hmem, he, -⟩, rfl⟩ | ⟨candidate, ⟨hmem, he, -⟩, rfl⟩)
    · exact ⟨⟨candidate, hmem, rfl⟩, he⟩
    · exact ⟨⟨candidate, hmem, rfl⟩, he⟩
  · rintro ⟨⟨candidate, hmem, rfl⟩, he⟩
    cases hm : candidate.marked with
    | false => exact .inl ⟨candidate, ⟨hmem, he, hm⟩, rfl⟩
    | true => exact .inr ⟨candidate, ⟨hmem, he, hm⟩, rfl⟩

theorem Sound.nodup_waiting {clock : Clock} (h : clock.Sound) (table : FrameTable) :
    (clock.waiting table).Nodup := by
  have hperm : clock.sweepOrder.Perm clock.candidates := List.perm_append_comm
  have hpages : (clock.sweepOrder.map Candidate.page).Nodup :=
    (hperm.map Candidate.page).nodup_iff.mpr h.nodup
  have hsub : ∀ marked, (live table marked clock.sweepOrder).Nodup := fun marked =>
    (List.filter_sublist.map Candidate.page).nodup hpages
  refine List.nodup_append.mpr ⟨hsub false, hsub true, ?_⟩
  rintro page hfalse other htrue rfl
  obtain ⟨candidate, hmem, rfl⟩ := List.mem_map.mp hfalse
  obtain ⟨same, hsame, hpage⟩ := List.mem_map.mp htrue
  simp only [List.mem_filter, decide_eq_true_eq] at hmem hsame
  obtain rfl := List.inj_on_of_nodup_map hpages hsame.1 hmem.1 hpage
  exact Bool.false_ne_true (hmem.2.2.symm.trans hsame.2.2)

end Clock

/-- The oldest page that may be evicted is named, and those that may stay in their order. -/
theorem Lru.victim_waiting (lru : Lru) (table : FrameTable) :
    (lru.victim table).1 = (lru.pages.filter fun page => table.Evictable page).head? ∧
      ((lru.victim table).2.pages.filter fun page => table.Evictable page) =
        lru.pages.filter fun page => table.Evictable page := by
  rw [victim_fst, pages_victim]
  simp only [decide_not]
  constructor
  · rw [List.head?_filter, List.find?_eq_head?_dropWhile_not]
  · have hstale : ((lru.pages.takeWhile fun page => !decide (table.Evictable page)).filter
        fun page => table.Evictable page) = [] := by
      rw [List.filter_eq_nil_iff]
      intro page hmem
      simpa using List.mem_takeWhile_imp hmem
    conv_rhs => rw [← List.takeWhile_append_dropWhile (l := lru.pages)
      (p := fun page => !decide (table.Evictable page)), List.filter_append, hstale]
    rfl

namespace Policy

variable {policy left : Policy} {table aged : FrameTable} {page : PageId} {history : List PageId}

/-- Who will be named, one after another, as each is withdrawn. -/
def waiting (policy : Policy) (table : FrameTable) : List PageId :=
  match policy with
  | clock state => state.waiting table
  | lru state | retaining state => state.pages.filter fun page => table.Evictable page
  | idle => []

theorem victim_waiting (policy : Policy) (table : FrameTable) :
    (policy.victim table).1 = (policy.waiting table).head? ∧
      (policy.victim table).2.1.waiting (policy.victim table).2.2 = policy.waiting table := by
  cases policy with
  | clock state => exact state.victim_waiting table
  | lru state | retaining state => exact state.victim_waiting table
  | idle => exact ⟨rfl, rfl⟩

theorem waiting_withdraw (h : policy.Sound) (hw : policy.withdraw page = .ok left)
    (table : FrameTable) :
    left.waiting table = (policy.waiting table).filter fun other => other ≠ page := by
  cases policy with
  | clock state =>
    cases hw
    change Clock.waiting _ table = (Clock.waiting _ table).filter _
    rw [Clock.waiting, Clock.live_withdraw, Clock.live_withdraw, ← List.filter_append]
    rfl
  | lru state =>
    rw [withdraw, Lru.withdraw] at hw
    split at hw <;> cases hw
    change (state.without page).pages.filter _ = (state.pages.filter _).filter _
    rw [Lru.Sound.pages_without h, List.filter_filter, List.filter_filter]
    exact List.filter_congr fun other _ => Bool.and_comm _ _
  | idle =>
    cases hw
    rfl
  | retaining state => cases hw

/-- Every candidate that may be evicted waits, once. -/
theorem mem_waiting (policy : Policy) (table : FrameTable) (page : PageId) :
    page ∈ policy.waiting table ↔ page ∈ policy.candidates ∧ table.Evictable page := by
  cases policy with
  | clock state => exact state.mem_waiting table page
  | lru state | retaining state => simp [waiting, candidates]
  | idle => simp [waiting, candidates]

theorem Sound.nodup_waiting (h : policy.Sound) (table : FrameTable) :
    (policy.waiting table).Nodup := by
  cases policy with
  | clock state => exact Clock.Sound.nodup_waiting h table
  | lru state | retaining state => exact (Lru.Sound.nodup_pages h).filter _
  | idle => exact List.nodup_nil

def picks (policy : Policy) (table : FrameTable) :
    Nat → List (Option PageId) × Policy × FrameTable
  | 0 => ([], policy, table)
  | count + 1 =>
    let (answer, policy, table) := policy.pick table
    let (answers, policy, table) := policy.picks table count
    (answer :: answers, policy, table)

/-- A clock or a recency list without the sentinel id among its candidates: each of them can be
withdrawn. -/
structure Drainable (policy : Policy) : Prop where
  builtIn : policy.IsBuiltIn
  sound : policy.Sound
  isValid : ∀ page ∈ policy.candidates, page.IsValid

namespace Drainable

theorem victim (h : policy.Drainable) (table : FrameTable) :
    (policy.victim table).2.1.Drainable where
  builtIn := isBuiltIn_victim h.builtIn
  sound := h.sound.victim table
  isValid page hmem := h.isValid page ((chosen_victim policy table).sublist.subset hmem)

theorem pick (h : policy.Drainable) (table : FrameTable) :
    ∃ left aged, policy.pick table = ((policy.waiting table).head?, left, aged) ∧
      left.Drainable ∧ left.waiting aged = (policy.waiting table).tail ∧
      (policy.waiting table = [] → left.candidates = []) := by
  have hc := chosen_victim policy table
  have hnext := h.victim table
  obtain ⟨hfirst, hline⟩ := policy.victim_waiting table
  rcases hv : policy.victim table with ⟨answer, middle, aged⟩
  rw [hv] at hc hnext hfirst hline
  subst hfirst
  cases hw : policy.waiting table with
  | nil =>
    refine ⟨middle, aged, ?_, hnext, hline.trans hw, fun _ => hc.exhausted (congrArg List.head? hw)⟩
    rw [Policy.pick, hv, hw]
    rfl
  | cons page rest =>
    have hnamed : (policy.waiting table).head? = some page := congrArg List.head? hw
    obtain ⟨hmem, -⟩ := hc.answered page hnamed
    obtain ⟨left, hok, hbuiltIn, hleft⟩ :=
      exists_withdraw hnext.builtIn hnext.sound (hnext.isValid page hmem)
    have hpage : page ∉ rest := (List.nodup_cons.mp (hw ▸ h.sound.nodup_waiting table)).1
    refine ⟨left, aged, ?_, ⟨hbuiltIn, hnext.sound.withdraw hok, ?_⟩, ?_, nofun⟩
    · rw [Policy.pick, hv, hw, List.head?_cons]
      simp only [hok]
    · intro other hother
      rw [hleft] at hother
      exact hnext.isValid other (List.mem_of_mem_filter hother)
    · rw [waiting_withdraw hnext.sound hok, hline, hw, List.filter_cons_of_neg (by simp),
        List.filter_eq_self.mpr, List.tail_cons]
      intro other hother
      exact decide_eq_true fun he => hpage (he ▸ hother)

/-- Those in line are picked one after another, and then nobody. -/
theorem picks (h : policy.Drainable) (table : FrameTable) (count : Nat) :
    (policy.picks table count).1 = ((policy.waiting table).take count).map some ++
        List.replicate (count - (policy.waiting table).length) none ∧
      ((policy.waiting table).length < count →
        (policy.picks table count).2.1.candidates = []) := by
  induction count generalizing policy table with
  | zero => exact ⟨by simp [Policy.picks], fun hlt => absurd hlt (Nat.not_lt_zero _)⟩
  | succ count ih =>
    obtain ⟨left, aged, hpick, hleft, hline, hempty⟩ := h.pick table
    obtain ⟨hrest, hnone⟩ := ih hleft aged
    rw [hline] at hrest hnone
    rw [Policy.picks, hpick]
    cases hw : policy.waiting table with
    | nil =>
      rw [hw] at hrest hnone hempty
      refine ⟨by simp [hrest, List.replicate_succ], fun _ => ?_⟩
      cases count with
      | zero => exact hempty rfl
      | succ count => exact hnone (Nat.succ_pos count)
    | cons page rest =>
      rw [hw] at hrest hnone
      exact ⟨by simp [hrest], fun hlt => hnone (Nat.lt_of_succ_lt_succ hlt)⟩

theorem withdraw (h : policy.Drainable) (hw : policy.withdraw page = .ok left) :
    left.Drainable where
  builtIn := isBuiltIn_withdraw h.builtIn hw
  sound := h.sound.withdraw hw
  isValid other hmem := h.isValid other ((sublist_withdraw h.sound hw).subset hmem)

theorem act {action : Action} (h : policy.Drainable)
    (hv : ∀ frame, action = .register frame → frame.id.IsValid) :
    (policy.act action).Drainable := by
  cases action with
  | register frame =>
    by_cases hp : frame.IsPinned
    · have hsame : policy.register frame = policy := if_pos hp
      rwa [Policy.act, hsame]
    · refine ⟨isBuiltIn_register h.builtIn, h.sound.register frame, fun other hmem => ?_⟩
      rcases (mem_candidates_register h.builtIn h.sound hp other).mp hmem with rfl | hother
      · exact hv frame rfl
      · exact h.isValid other hother
  | withdraw page =>
    rw [Policy.act]
    split
    · rename_i hw
      exact h.withdraw hw
    · exact h
  | victim table => exact h.victim table
  | pick table =>
    obtain ⟨left, aged, hpick, hleft, -⟩ := h.pick table
    rwa [Policy.act, hpick]

theorem run {actions : List Action} (h : policy.Drainable)
    (hv : ∀ frame, .register frame ∈ actions → frame.id.IsValid) :
    (policy.run actions).Drainable := by
  induction actions generalizing policy with
  | nil => exact h
  | cons action actions ih =>
    have hfirst : ∀ frame, action = .register frame → frame.id.IsValid := by
      rintro frame rfl
      exact hv frame List.mem_cons_self
    exact ih (h.act hfirst) fun frame hmem => hv frame (List.mem_cons_of_mem _ hmem)

end Drainable

/-- The pages that a call registers. A pinned frame is passed over. -/
def Action.registered : Action → List PageId
  | register frame => if frame.IsPinned then [] else [frame.id]
  | withdraw _ | victim _ | pick _ => []

def registrations (actions : List Action) : List PageId := actions.flatMap Action.registered

theorem sublist_act {state : Lru} (hs : state.Sound) (h : state.pages.Sublist history.dedup)
    (action : Action) :
    ((lru state).act action).candidates.Sublist (history ++ action.registered).dedup := by
  have hsound : (lru state).Sound := hs
  cases action with
  | register frame =>
    rw [act, register, Action.registered]
    split
    · rwa [List.append_nil]
    · change (state.register frame.id).pages.Sublist _
      rw [hs.pages_register, dedup_concat]
      exact (h.filter _).append_right _
  | withdraw page =>
    rw [act, Action.registered, List.append_nil]
    split
    · rename_i hw
      exact (sublist_withdraw hsound hw).trans h
    · exact h
  | victim table =>
    rw [Action.registered, List.append_nil]
    exact (chosen_victim (lru state) table).sublist.trans h
  | pick table =>
    rw [Action.registered, List.append_nil]
    exact (sublist_pick hsound table).trans h

theorem sublist_run {state : Lru} (hs : state.Sound) (h : state.pages.Sublist history.dedup)
    (actions : List Action) :
    ((lru state).run actions).candidates.Sublist (history ++ registrations actions).dedup := by
  induction actions generalizing state history with
  | nil => rwa [registrations, List.flatMap_nil, List.append_nil]
  | cons action actions ih =>
    obtain ⟨left, hleft⟩ := exists_run_lru state [action]
    have hact : (lru state).act action = lru left := hleft
    have hstep := sublist_act hs h action
    have hlru : (lru state).Sound := hs
    have hsound := hlru.act action
    rw [hact] at hstep hsound
    rw [run, List.foldl_cons, hact, registrations, List.flatMap_cons, ← List.append_assoc]
    exact ih hsound hstep

/-- What comes of picking again and again from a table. -/
structure Drains (policy : Policy) (table : FrameTable) (order : List PageId) : Prop where
  nodup : order.Nodup
  mem_iff : ∀ page, page ∈ order ↔ page ∈ policy.candidates ∧ table.Evictable page
  /-- The pages of the order are picked, each at its turn, and from then on nobody. -/
  picks : ∀ count, (policy.picks table count).1 =
    (order.take count).map some ++ List.replicate (count - order.length) none
  size_eq : ∀ count, order.length < count → (policy.picks table count).2.1.size = 0

theorem Drainable.drains (h : policy.Drainable) (table : FrameTable) :
    policy.Drains table (policy.waiting table) where
  nodup := h.sound.nodup_waiting table
  mem_iff := policy.mem_waiting table
  picks count := (h.picks table count).1
  size_eq count hlt := List.length_eq_zero_iff.mpr ((h.picks table count).2 hlt)

/-- Whatever calls a policy has been through, with valid page ids: picked again and again it yields
each candidate that may be evicted once, and then nobody, with no candidates left. A clock yields
those without a mark first, then those with one, both in the order in which the hand meets them; a
recency list goes by the last registrations. -/
theorem drain_run (actions : List Action)
    (hv : ∀ frame, .register frame ∈ actions → frame.id.IsValid) :
    (∃ state, (clock .empty).run actions = clock state ∧ ∀ table,
      (clock state).Drains table
        (Clock.live table false state.sweepOrder ++ Clock.live table true state.sweepOrder)) ∧
    ∃ state, (lru .empty).run actions = lru state ∧ ∀ table, ∃ order,
      (lru state).Drains table order ∧
      order.Pairwise fun page other => ∃ earlier later,
        registrations actions = earlier ++ page :: later ∧ page ∉ later ∧ other ∈ later := by
  constructor
  · obtain ⟨state, hstate⟩ := exists_run_clock .empty actions
    have hempty : (clock .empty).Drainable := ⟨trivial, Clock.sound_empty, nofun⟩
    have hdrainable := hempty.run hv
    rw [hstate] at hdrainable
    exact ⟨state, hstate, hdrainable.drains⟩
  · obtain ⟨state, hstate⟩ := exists_run_lru .empty actions
    have hempty : (lru .empty).Drainable := ⟨trivial, Lru.sound_empty, nofun⟩
    have hdrainable := hempty.run hv
    have hnone : Lru.empty.pages.Sublist ([] : List PageId).dedup := List.nil_sublist _
    have hsub := sublist_run Lru.sound_empty hnone actions
    rw [hstate] at hdrainable hsub
    refine ⟨state, hstate, fun table => ⟨_, hdrainable.drains table, ?_⟩⟩
    exact (pairwise_dedup _).sublist (List.filter_sublist.trans hsub)

/-- A candidate that is not cached any more is not picked. -/
theorem drain_run_dropped :
    let frame := fun index => Frame.fresh (.empty (.ofIndex index))
    let table := (FrameTable.empty.put (frame 0)).put (frame 2)
    (((clock .empty).run [.register (frame 0), .register (frame 1), .register (frame 2)]).picks
      table 3).1 = [some (.ofIndex 0), some (.ofIndex 2), none] := by
  intro frame table
  have hv : ∀ other, .register other ∈
      [Action.register (frame 0), .register (frame 1), .register (frame 2)] → other.id.IsValid := by
    intro other hmem
    simp only [List.mem_cons, Action.register.injEq, List.not_mem_nil, or_false] at hmem
    rcases hmem with rfl | rfl | rfl <;> decide
  obtain ⟨⟨state, hstate, hdrains⟩, -⟩ := drain_run _ hv
  obtain rfl : Clock.mk [⟨.ofIndex 0, true⟩, ⟨.ofIndex 1, true⟩, ⟨.ofIndex 2, true⟩] [] = state :=
    Policy.clock.inj hstate
  rw [hstate, (hdrains table).picks]
  decide +kernel

end Policy

end PagedStorage
