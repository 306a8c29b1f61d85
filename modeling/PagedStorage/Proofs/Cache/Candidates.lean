import Mathlib.Data.List.Nodup
import Mathlib.Data.List.Perm.Subperm
import Mathlib.Data.List.TakeWhile
import PagedStorage.Cache.Policy
import PagedStorage.Proofs.Cache.FrameTable
import PagedStorage.Proofs.Cache.Recency

namespace PagedStorage

/-- The outcome of asking a policy with candidates `before` for a victim: its answer, the candidates
that are left and the table. -/
structure Chosen (table : FrameTable) (before : List PageId) (answer : Option PageId)
    (left : List PageId) (aged : FrameTable) : Prop where
  aged : table.SameContents aged
  sublist : left.Sublist before
  kept : ∀ id ∈ before, table.Evictable id → id ∈ left
  answered : ∀ id, answer = some id → id ∈ left ∧ table.Evictable id
  exhausted : answer = none → left = []

namespace Chosen

variable {table aged : FrameTable} {before left front rest : List PageId} {answer : Option PageId}
  {id : PageId}

/-- A candidate that may not be evicted can be dropped first. -/
theorem of_dropped (h : Chosen table (front ++ rest) answer left aged) (hne : ¬table.Evictable id) :
    Chosen table (front ++ id :: rest) answer left aged where
  aged := h.aged
  sublist := h.sublist.trans ((List.sublist_cons_self id rest).append_left front)
  kept other hmem he := by
    have hother : other ≠ id := by
      rintro rfl
      exact hne he
    apply h.kept other _ he
    simpa [hother] using hmem
  answered := h.answered
  exhausted := h.exhausted

theorem of_sameContents {start : FrameTable} (hs : start.SameContents table)
    (h : Chosen table before answer left aged) : Chosen start before answer left aged where
  aged := hs.trans h.aged
  sublist := h.sublist
  kept other hmem he := h.kept other hmem (hs.evictable.mpr he)
  answered other ha := (h.answered other ha).imp_right hs.evictable.mp
  exhausted := h.exhausted

/-- Nobody is named just where nobody may be evicted. -/
theorem eq_none_iff (h : Chosen table before answer left aged) :
    answer = none ↔ ∀ page ∈ before, ¬table.Evictable page := by
  constructor
  · intro hn page hmem he
    have hkept := h.kept page hmem he
    rw [h.exhausted hn] at hkept
    cases hkept
  · intro hnone
    cases ha : answer with
    | none => rfl
    | some page =>
      obtain ⟨hleft, he⟩ := h.answered page ha
      exact absurd he (hnone page (h.sublist.subset hleft))

end Chosen

namespace Clock

variable {clock : Clock} {page : PageId}

def pages (clock : Clock) : List PageId := clock.candidates.map Candidate.page

theorem page_mark (candidate : Candidate) : (candidate.mark page).page = candidate.page := by
  rw [Candidate.mark]
  split <;> rfl

theorem pages_register (clock : Clock) (page : PageId) :
    (clock.register page).pages =
      if page ∈ clock.pages then clock.pages else clock.pages ++ [page] := by
  have hmark : Candidate.page ∘ Candidate.mark page = Candidate.page := funext page_mark
  have hmem : (∃ candidate ∈ clock.candidates, candidate.page = page) ↔ page ∈ clock.pages := by
    simp [pages]
  rw [register]
  simp only [hmem]
  split
  · simp [pages, candidates, hmark]
  · simp [pages, candidates]

theorem candidates_ofParts (ahead behind : List Candidate) :
    (ofParts ahead behind).candidates = behind ++ ahead := by
  rw [ofParts]
  split
  · rename_i h
    simp [candidates, h]
  · rfl

theorem pages_withdraw (clock : Clock) (page : PageId) :
    (clock.withdraw page).pages = clock.pages.filter fun other => other ≠ page := by
  have hcomp : ((fun other => decide (other ≠ page)) ∘ Candidate.page) =
      fun candidate : Candidate => decide (candidate.page ≠ page) := rfl
  rw [withdraw, pages, candidates_ofParts, ← List.filter_append, pages, List.filter_map, hcomp]
  rfl

/-- The order of registration outlives the sweep, which only drops candidates. -/
theorem chosen_sweep (ahead behind : List Candidate) (table : FrameTable) :
    Chosen table ((behind ++ ahead).map Candidate.page) (sweep ahead behind table).1
      (sweep ahead behind table).2.1.pages (sweep ahead behind table).2.2 := by
  fun_induction sweep ahead behind table with
  | case1 behind table candidate ahead hnone ih =>
    -- A page that is not cached any more leaves the ring, like one that is pinned.
    rw [List.map_append, List.map_cons]
    rw [List.map_append] at ih
    exact ih.of_dropped (by simp [FrameTable.Evictable, hnone])
  | case2 behind table candidate ahead frame hf hpinned ih =>
    rw [List.map_append, List.map_cons]
    rw [List.map_append] at ih
    apply ih.of_dropped
    rw [FrameTable.evictable_of_find? hf]
    exact not_not_intro hpinned
  | case3 behind table candidate ahead frame hf hpinned hmarked ih =>
    -- Only the mark goes, and the hand moves on: the ring keeps its pages in their order.
    have hpages : (behind ++ [{ candidate with marked := false }] ++ ahead).map Candidate.page =
        (behind ++ candidate :: ahead).map Candidate.page := by simp
    rw [hpages] at ih
    exact ih.of_sameContents (.put_aged hf)
  | case4 behind table candidate ahead frame hf hpinned hmarked =>
    refine ⟨.refl table, .refl _, fun _ hmem _ => hmem, ?_, nofun⟩
    rintro id ⟨⟩
    exact ⟨by simp [pages, candidates], (FrameTable.evictable_of_find? hf).mpr hpinned⟩
  | case5 table => exact ⟨.refl table, .refl _, fun _ hmem _ => hmem, nofun, fun _ => rfl⟩
  | case6 table candidate behind ih =>
    -- The hand comes round to the front.
    rw [List.append_nil]
    exact ih

/-- No page is on the ring twice, and the hand is under a candidate as long as there is one. -/
structure Sound (clock : Clock) : Prop where
  nodup : clock.pages.Nodup
  behind_eq : clock.ahead = [] → clock.behind = []

theorem sound_empty : empty.Sound := ⟨List.nodup_nil, fun _ => rfl⟩

theorem victim_empty (table : FrameTable) : empty.victim table = (none, empty, table) := by
  rw [victim, empty, sweep]
  rfl

theorem behind_ofParts {ahead behind : List Candidate} (h : (ofParts ahead behind).ahead = []) :
    (ofParts ahead behind).behind = [] := by
  rw [ofParts] at h ⊢
  split at h
  · rename_i hahead
    rw [if_pos hahead]
  · rename_i hahead
    exact absurd h hahead

/-- The hand comes to rest on the victim, or on nothing if the ring is empty. -/
theorem behind_sweep (ahead behind : List Candidate) (table : FrameTable)
    (h : (sweep ahead behind table).2.1.ahead = []) :
    (sweep ahead behind table).2.1.behind = [] := by
  fun_induction sweep ahead behind table with
  | case1 behind table candidate ahead hnone ih => exact ih h
  | case2 behind table candidate ahead frame hf hpinned ih => exact ih h
  | case3 behind table candidate ahead frame hf hpinned hmarked ih => exact ih h
  | case4 behind table candidate ahead frame hf hpinned hmarked => cases h
  | case5 table => rfl
  | case6 table candidate behind ih => exact ih h

namespace Sound

theorem register (h : clock.Sound) (page : PageId) : (clock.register page).Sound where
  nodup := by
    rw [pages_register]
    split
    · exact h.nodup
    · rename_i hmem
      refine List.nodup_append.mpr ⟨h.nodup, List.nodup_singleton _, ?_⟩
      intro id hid other hother he
      exact hmem (List.mem_singleton.mp hother ▸ he ▸ hid)
  behind_eq := by
    rw [Clock.register]
    split
    · intro hahead
      rw [h.behind_eq (List.map_eq_nil_iff.mp hahead), List.map_nil]
    · exact fun hahead => absurd hahead (List.append_ne_nil_of_right_ne_nil _ nofun)

theorem withdraw (h : clock.Sound) (page : PageId) : (clock.withdraw page).Sound where
  nodup := by
    rw [pages_withdraw]
    exact h.nodup.filter _
  behind_eq := behind_ofParts

theorem victim (h : clock.Sound) (table : FrameTable) : (clock.victim table).2.1.Sound where
  nodup := (chosen_sweep clock.ahead clock.behind table).sublist.nodup h.nodup
  behind_eq := behind_sweep clock.ahead clock.behind table

end Sound

end Clock

namespace Lru

theorem chosen_victim (lru : Lru) (table : FrameTable) :
    Chosen table lru.pages (lru.victim table).1 (lru.victim table).2.pages table := by
  rw [victim_fst, pages_victim]
  constructor
  · exact .refl table
  · exact List.dropWhile_sublist _
  · intro id hmem he
    rw [← List.takeWhile_append_dropWhile (l := lru.pages)
      (p := fun page => ¬table.Evictable page)] at hmem
    rcases List.mem_append.mp hmem with hold | hleft
    · have hn := List.mem_takeWhile_imp hold
      simp only [decide_eq_true_eq] at hn
      exact absurd he hn
    · exact hleft
  · intro id ha
    have hhead := List.head?_dropWhile_not (fun page => decide ¬table.Evictable page) lru.pages
    rw [ha] at hhead
    exact ⟨List.mem_of_head? ha, by simpa using hhead⟩
  · exact List.head?_eq_none_iff.mp

end Lru

namespace Policy

variable {policy left : Policy} {table after : FrameTable} {frame : Frame} {page : PageId}

def IsBuiltIn : Policy → Prop
  | clock _ | lru _ => True
  | idle | retaining _ => False

/-- A built-in policy that has been told of no page yet. -/
def IsNew (policy : Policy) : Prop := policy = clock Clock.empty ∨ policy = lru Lru.empty

def Sound : Policy → Prop
  | clock state => state.Sound
  | lru state | retaining state => state.Sound
  | idle => True

/-- The candidates are exactly the pages that may be evicted, each of them once. -/
structure Tracks (policy : Policy) (table : FrameTable) : Prop where
  builtIn : policy.IsBuiltIn
  sound : policy.Sound
  mem_iff : ∀ id, id ∈ policy.candidates ↔ table.Evictable id

theorem chosen_victim (policy : Policy) (table : FrameTable) :
    Chosen table policy.candidates (policy.victim table).1 (policy.victim table).2.1.candidates
      (policy.victim table).2.2 := by
  cases policy with
  | clock state => exact Clock.chosen_sweep state.ahead state.behind table
  | lru state => exact Lru.chosen_victim state table
  | idle => exact ⟨.refl table, .refl _, fun _ hmem _ => hmem, nofun, fun _ => rfl⟩
  | retaining state => exact Lru.chosen_victim state table

theorem name_victim (policy : Policy) (table : FrameTable) :
    (policy.victim table).2.1.name = policy.name := by
  cases policy <;> rfl

theorem name_register (policy : Policy) (frame : Frame) :
    (policy.register frame).name = policy.name := by
  unfold register
  split
  · rfl
  · cases policy <;> rfl

theorem name_withdraw (h : policy.withdraw page = .ok left) : left.name = policy.name := by
  cases policy with
  | clock state =>
    cases h
    rfl
  | lru state =>
    rw [withdraw, Lru.withdraw] at h
    split at h <;> cases h
    rfl
  | idle =>
    cases h
    rfl
  | retaining state => cases h

theorem isBuiltIn_victim (h : policy.IsBuiltIn) : (policy.victim table).2.1.IsBuiltIn := by
  cases policy with
  | clock state => trivial
  | lru state => trivial
  | idle => exact h.elim
  | retaining state => exact h.elim

theorem isBuiltIn_withdraw (h : policy.IsBuiltIn) (hw : policy.withdraw page = .ok left) :
    left.IsBuiltIn := by
  cases policy with
  | clock state =>
    cases hw
    trivial
  | lru state =>
    rw [withdraw, Lru.withdraw] at hw
    split at hw <;> cases hw
    trivial
  | idle => exact h.elim
  | retaining state => cases hw

namespace Sound

theorem nodup (h : policy.Sound) : policy.candidates.Nodup := by
  cases policy with
  | clock state => exact Clock.Sound.nodup h
  | lru state => exact Lru.Sound.nodup_pages h
  | idle => exact List.nodup_nil
  | retaining state => exact Lru.Sound.nodup_pages h

theorem register (h : policy.Sound) (frame : Frame) : (policy.register frame).Sound := by
  unfold Policy.register
  split
  · exact h
  cases policy with
  | clock state => exact Clock.Sound.register h frame.id
  | lru state => exact Lru.Sound.register h frame.id
  | idle => trivial
  | retaining state => exact Lru.Sound.register h frame.id

theorem withdraw (h : policy.Sound) (hw : policy.withdraw page = .ok left) : left.Sound := by
  cases policy with
  | clock state =>
    cases hw
    exact Clock.Sound.withdraw h page
  | lru state =>
    rw [Policy.withdraw, Lru.withdraw] at hw
    split at hw <;> cases hw
    exact Lru.Sound.without h page
  | idle =>
    cases hw
    trivial
  | retaining state => cases hw

theorem victim (h : policy.Sound) (table : FrameTable) : (policy.victim table).2.1.Sound := by
  cases policy with
  | clock state => exact Clock.Sound.victim h table
  | lru state => exact Lru.Sound.victim h table
  | idle => trivial
  | retaining state => exact Lru.Sound.victim h table

end Sound

theorem sublist_withdraw (h : policy.Sound) (hw : policy.withdraw page = .ok left) :
    left.candidates.Sublist policy.candidates := by
  cases policy with
  | clock state =>
    cases hw
    change (state.withdraw page).pages.Sublist state.pages
    rw [Clock.pages_withdraw]
    exact List.filter_sublist
  | lru state =>
    rw [withdraw, Lru.withdraw] at hw
    split at hw <;> cases hw
    change (state.without page).pages.Sublist state.pages
    rw [Lru.Sound.pages_without h]
    exact List.filter_sublist
  | idle =>
    cases hw
    exact .refl _
  | retaining state => cases hw

theorem tracks_of_isNew (h : policy.IsNew) : policy.Tracks FrameTable.empty := by
  have hnone : ∀ id, ¬FrameTable.empty.Evictable id := by
    rintro id ⟨frame, hf, -⟩
    cases hf
  obtain rfl | rfl := h
  · exact ⟨trivial, Clock.sound_empty, fun id => iff_of_false List.not_mem_nil (hnone id)⟩
  · exact ⟨trivial, Lru.sound_empty, fun id => iff_of_false List.not_mem_nil (hnone id)⟩

theorem mem_candidates_register (hb : policy.IsBuiltIn) (h : policy.Sound) (hp : ¬frame.IsPinned)
    (id : PageId) :
    id ∈ (policy.register frame).candidates ↔ id = frame.id ∨ id ∈ policy.candidates := by
  cases policy with
  | clock state =>
    have hpages := Clock.pages_register state frame.id
    simp only [register, if_neg hp]
    change id ∈ (state.register frame.id).pages ↔ id = frame.id ∨ id ∈ state.pages
    rw [hpages]
    split
    · rename_i hmem
      exact ⟨Or.inr, fun hor => hor.elim (fun he => he ▸ hmem) fun hin => hin⟩
    · rw [List.mem_append, List.mem_singleton, or_comm]
  | lru state =>
    simp only [register, if_neg hp, candidates, Lru.Sound.pages_register h, List.mem_append,
      List.mem_filter, List.mem_singleton, decide_eq_true_eq]
    by_cases hid : id = frame.id <;> simp [hid]
  | idle => exact hb.elim
  | retaining state => exact hb.elim

theorem isBuiltIn_register (h : policy.IsBuiltIn) : (policy.register frame).IsBuiltIn := by
  unfold register
  split
  · exact h
  cases policy with
  | clock state => trivial
  | lru state => trivial
  | idle => exact h.elim
  | retaining state => exact h.elim

/-- A built-in policy lets go of any page that a pool can have cached. -/
theorem exists_withdraw (hb : policy.IsBuiltIn) (h : policy.Sound) (hv : page.IsValid) :
    ∃ after, policy.withdraw page = .ok after ∧ after.IsBuiltIn ∧
      after.candidates = policy.candidates.filter fun other => other ≠ page := by
  cases policy with
  | clock state => exact ⟨_, rfl, trivial, Clock.pages_withdraw state page⟩
  | lru state =>
    refine ⟨lru (state.without page), ?_, trivial, Lru.Sound.pages_without h page⟩
    rw [withdraw, Lru.withdraw, if_pos hv]
    rfl
  | idle => exact hb.elim
  | retaining state => exact hb.elim

namespace Tracks

theorem of_evictable (h : policy.Tracks table)
    (he : ∀ id, after.Evictable id ↔ table.Evictable id) : policy.Tracks after :=
  ⟨h.builtIn, h.sound, fun id => (h.mem_iff id).trans (he id).symm⟩

theorem nodup (h : policy.Tracks table) : policy.candidates.Nodup := h.sound.nodup

theorem register (h : policy.Tracks table) (hp : frame.IsPinned → ¬table.Evictable frame.id) :
    (policy.register frame).Tracks (table.put frame) where
  builtIn := isBuiltIn_register h.builtIn
  sound := h.sound.register frame
  mem_iff id := by
    rw [FrameTable.evictable_put]
    by_cases hpinned : frame.IsPinned
    · unfold Policy.register
      rw [if_pos hpinned, h.mem_iff]
      split
      · -- A pinned frame can only replace one that was no candidate either.
        rename_i hid
        exact iff_of_false (hid ▸ hp hpinned) (not_not_intro hpinned)
      · rfl
    · rw [mem_candidates_register h.builtIn h.sound hpinned, h.mem_iff]
      split
      · rename_i hid
        exact iff_of_true (Or.inl hid.symm) hpinned
      · rename_i hid
        exact or_iff_right (Ne.symm hid)

theorem withdraw (h : policy.Tracks table) (hv : page.IsValid)
    (he : ∀ id, after.Evictable id ↔ id ≠ page ∧ table.Evictable id) :
    ∃ left, policy.withdraw page = .ok left ∧ left.Tracks after := by
  obtain ⟨left, hok, hbuilt, hcand⟩ := exists_withdraw h.builtIn h.sound hv
  refine ⟨left, hok, hbuilt, h.sound.withdraw hok, fun id => ?_⟩
  rw [hcand, List.mem_filter, he, h.mem_iff, decide_eq_true_eq, and_comm]

/-- A policy that tracks the table loses no candidate when it is asked for a victim. -/
theorem victim (h : policy.Tracks table) :
    (policy.victim table).2.1.Tracks (policy.victim table).2.2 := by
  have hc := chosen_victim policy table
  refine ⟨isBuiltIn_victim h.builtIn, h.sound.victim table, fun id => ?_⟩
  rw [hc.aged.evictable]
  constructor
  · intro hmem
    exact (h.mem_iff id).mp (hc.sublist.subset hmem)
  · intro he
    exact hc.kept id ((h.mem_iff id).mpr he) he

theorem candidates_victim (h : policy.Tracks table) :
    (policy.victim table).2.1.candidates = policy.candidates := by
  have hc := chosen_victim policy table
  have hkept : policy.candidates ⊆ (policy.victim table).2.1.candidates :=
    fun id hmem => hc.kept id hmem ((h.mem_iff id).mp hmem)
  exact hc.sublist.eq_of_length_le (List.subperm_of_subset h.nodup hkept).length_le

/-- Such a policy finds a victim as long as there is a page to evict. -/
theorem not_evictable_of_victim_eq_none (h : policy.Tracks table)
    (hn : (policy.victim table).1 = none) (id : PageId) : ¬table.Evictable id := by
  intro he
  exact (chosen_victim policy table).eq_none_iff.mp hn id ((h.mem_iff id).mpr he) he

end Tracks

end Policy

namespace Policies

variable {policies left : Policies} {table after aged : FrameTable} {frame : Frame} {page : PageId}
  {answer : Option PageId}

def Track (policies : Policies) (table : FrameTable) : Prop :=
  ∀ policy ∈ policies.toList, policy.Tracks table

theorem track_iff :
    policies.Track table ↔
      policies.first.Tracks table ∧ ∀ second ∈ policies.second, second.Tracks table := by
  simp [Track, toList]

theorem sameContents_of_victim (h : policies.victim table = (answer, left, aged)) :
    table.SameContents aged := by
  have hfirst := (Policy.chosen_victim policies.first table).aged
  rw [victim] at h
  split at h
  · rename_i hv
    cases h
    rw [hv] at hfirst
    exact hfirst
  · rename_i first middle hv
    rw [hv] at hfirst
    split at h
    · cases h
      exact hfirst
    · cases h
      exact hfirst.trans (Policy.chosen_victim _ middle).aged

/-- Whatever the policies, the page that they name is cached and not pinned. -/
theorem evictable_of_victim (h : policies.victim table = (some page, left, aged)) :
    table.Evictable page := by
  have hfirst := Policy.chosen_victim policies.first table
  rw [victim] at h
  split at h
  · rename_i hv
    cases h
    rw [hv] at hfirst
    exact (hfirst.answered page rfl).2
  · rename_i first middle hv
    rw [hv] at hfirst
    split at h
    · cases h
    · have hanswer := congrArg Prod.fst h
      exact hfirst.aged.evictable.mp ((Policy.chosen_victim _ middle).answered page hanswer).2

theorem names_register (policies : Policies) (frame : Frame) :
    (policies.register frame).names = policies.names := by
  obtain ⟨first, second⟩ := policies
  cases second <;> simp [names, toList, register, Policy.name_register]

theorem names_victim (h : policies.victim table = (answer, left, aged)) :
    left.names = policies.names := by
  obtain ⟨first, second⟩ := policies
  have hfirst := Policy.name_victim first table
  rw [victim] at h
  split at h
  · rename_i hv
    cases h
    rw [hv] at hfirst
    exact congrArg (· :: _) hfirst
  · rename_i hv
    rw [hv] at hfirst
    cases second with
    | none =>
      cases h
      exact congrArg (· :: _) hfirst
    | some second =>
      have hleft := congrArg (fun result => result.2.1) h
      simp only at hleft
      rw [← hleft]
      simp only [names, toList, List.map_cons, hfirst, Option.toList_some, Policy.name_victim]

theorem names_withdraw {done : Except StorageError Unit}
    (h : policies.withdraw page = (done, left)) : left.names = policies.names := by
  obtain ⟨first, second⟩ := policies
  unfold withdraw at h
  cases hfirst : first.withdraw page with
  | error e =>
    simp only [hfirst] at h
    cases h
    rfl
  | ok next =>
    have hname := Policy.name_withdraw hfirst
    cases second with
    | none =>
      simp only [hfirst] at h
      cases h
      simp [names, toList, hname]
    | some second =>
      cases hsecond : second.withdraw page with
      | error e =>
        simp only [hfirst, hsecond] at h
        cases h
        simp [names, toList, hname]
      | ok last =>
        simp only [hfirst, hsecond] at h
        cases h
        simp [names, toList, hname, Policy.name_withdraw hsecond]

theorem toList_ofList? {list : List Policy} (h : ofList? list = some policies) :
    policies.toList = list := by
  unfold ofList? at h
  split at h <;> cases h <;> rfl

theorem track_of_isNew (h : ∀ policy ∈ policies.toList, policy.IsNew) :
    policies.Track FrameTable.empty := fun policy hmem => Policy.tracks_of_isNew (h policy hmem)

namespace Track

theorem of_evictable (h : policies.Track table)
    (he : ∀ id, after.Evictable id ↔ table.Evictable id) : policies.Track after :=
  fun policy hmem => (h policy hmem).of_evictable he

theorem register (h : policies.Track table) (hp : frame.IsPinned → ¬table.Evictable frame.id) :
    (policies.register frame).Track (table.put frame) := by
  rw [track_iff] at h ⊢
  refine ⟨h.1.register hp, ?_⟩
  intro second hsecond
  obtain ⟨former, hformer, rfl⟩ := Option.map_eq_some_iff.mp hsecond
  exact (h.2 former hformer).register hp

theorem withdraw (h : policies.Track table) (hv : page.IsValid)
    (he : ∀ id, after.Evictable id ↔ id ≠ page ∧ table.Evictable id) :
    ∃ left, policies.withdraw page = (.ok (), left) ∧ left.Track after := by
  obtain ⟨first, second⟩ := policies
  obtain ⟨hfirst, hsecond⟩ := track_iff.mp h
  obtain ⟨left, hok, hleft⟩ := hfirst.withdraw hv he
  cases second with
  | none => exact ⟨⟨left, none⟩, by simp [Policies.withdraw, hok], track_iff.mpr ⟨hleft, nofun⟩⟩
  | some second =>
    obtain ⟨left', hok', hleft'⟩ := (hsecond second rfl).withdraw hv he
    refine ⟨⟨left, some left'⟩, by simp [Policies.withdraw, hok, hok'], track_iff.mpr ⟨hleft, ?_⟩⟩
    rintro other ⟨⟩
    exact hleft'

theorem victim (h : policies.Track table) (hv : policies.victim table = (answer, left, aged)) :
    left.Track aged := by
  obtain ⟨first, second⟩ := policies
  obtain ⟨hfirst, hsecond⟩ := track_iff.mp h
  have hnext := hfirst.victim
  have hsame := (Policy.chosen_victim first table).aged
  rw [Policies.victim] at hv
  split at hv
  · rename_i hnamed
    cases hv
    rw [hnamed] at hnext hsame
    refine track_iff.mpr ⟨hnext, ?_⟩
    intro other hother
    exact (hsecond other hother).of_evictable fun id => hsame.evictable
  · rename_i next middle hnamed
    rw [hnamed] at hnext hsame
    cases second with
    | none =>
      cases hv
      exact track_iff.mpr ⟨hnext, nofun⟩
    | some second =>
      cases hv
      -- The first policy has aged frames in vain, which the second does not notice.
      have hsecond' : second.Tracks middle :=
        (hsecond second rfl).of_evictable fun id => hsame.evictable
      have hsame' := (Policy.chosen_victim second middle).aged
      refine track_iff.mpr ⟨hnext.of_evictable fun id => hsame'.evictable, ?_⟩
      rintro other ⟨⟩
      exact hsecond'.victim

theorem candidates_victim (h : policies.Track table)
    (hv : policies.victim table = (answer, left, aged)) :
    left.toList.map Policy.candidates = policies.toList.map Policy.candidates := by
  obtain ⟨first, second⟩ := policies
  obtain ⟨hfirst, hsecond⟩ := track_iff.mp h
  have hnext := hfirst.candidates_victim
  have hsame := (Policy.chosen_victim first table).aged
  rw [Policies.victim] at hv
  split at hv
  · rename_i hnamed
    cases hv
    rw [hnamed] at hnext
    exact congrArg (· :: _) hnext
  · rename_i next middle hnamed
    rw [hnamed] at hnext hsame
    cases second with
    | none =>
      cases hv
      exact congrArg (· :: _) hnext
    | some second =>
      cases hv
      have hsecond' : second.Tracks middle :=
        (hsecond second rfl).of_evictable fun id => hsame.evictable
      have hlast := hsecond'.candidates_victim
      show [next.candidates, (second.victim middle).2.1.candidates] = _
      rw [hnext, hlast]
      rfl

/-- As long as there is a page to evict the policies name one. -/
theorem not_evictable_of_victim_eq_none (h : policies.Track table)
    (hv : policies.victim table = (none, left, aged)) (id : PageId) : ¬table.Evictable id := by
  -- The first policy tracks the whole table, so that it names nobody says all.
  have hfirst := (track_iff.mp h).1
  apply hfirst.not_evictable_of_victim_eq_none
  rw [Policies.victim] at hv
  split at hv
  · cases hv
  · rename_i hnamed
    rw [hnamed]

end Track

end Policies

end PagedStorage
