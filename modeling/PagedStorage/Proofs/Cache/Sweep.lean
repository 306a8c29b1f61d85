import Mathlib.Data.List.Rotate
import PagedStorage.Proofs.Cache.Calls

namespace PagedStorage

namespace FrameTable

variable {table after : FrameTable} {page id : PageId} {frame : Frame} {pages : List PageId}

def age (table : FrameTable) (page : PageId) : FrameTable :=
  match table.find? page with
  | none => table
  | some frame => table.put frame.aged

def ageAll (table : FrameTable) (pages : List PageId) : FrameTable := pages.foldl age table

theorem age_of_find? (h : table.find? page = some frame) :
    table.age page = table.put frame.aged := by
  rw [age, h]

theorem find?_age (table : FrameTable) (page id : PageId) :
    (table.age page).find? id =
      if page = id then (table.find? id).map Frame.aged else table.find? id := by
  unfold age
  split
  · rename_i hnone
    split
    · rename_i hid
      rw [← hid, hnone]
      rfl
    · rfl
  · rename_i frame hf
    rw [find?_put, Frame.id_aged, id_of_find? hf]
    split
    · rename_i hid
      rw [← hid, hf]
      rfl
    · rfl

theorem find?_ageAll (hn : pages.Nodup) (table : FrameTable) (id : PageId) :
    (table.ageAll pages).find? id =
      if id ∈ pages then (table.find? id).map Frame.aged else table.find? id := by
  induction pages generalizing table with
  | nil => rfl
  | cons page pages ih =>
    obtain ⟨hpage, hrest⟩ := List.nodup_cons.mp hn
    rw [ageAll, List.foldl_cons, ← ageAll, ih hrest, find?_age]
    by_cases hid : page = id
    · subst hid
      rw [if_neg hpage, if_pos rfl, if_pos List.mem_cons_self]
    · rw [if_neg hid]
      simp [Ne.symm hid]

theorem sameContents_age (table : FrameTable) (page : PageId) :
    table.SameContents (table.age page) := by
  unfold age
  split
  · exact .refl table
  · rename_i hf
    exact .put_aged hf

theorem sameContents_ageAll (table : FrameTable) (pages : List PageId) :
    table.SameContents (table.ageAll pages) := by
  induction pages generalizing table with
  | nil => exact .refl table
  | cons page pages ih => exact (table.sameContents_age page).trans (ih _)

theorem ageAll_append (table : FrameTable) (front back : List PageId) :
    table.ageAll (front ++ back) = (table.ageAll front).ageAll back := List.foldl_append

end FrameTable

namespace Clock

variable {candidate : Candidate} {ahead behind front back rest : List Candidate}
  {table after : FrameTable} {clock : Clock}

def Candidate.unmark (candidate : Candidate) : Candidate := { candidate with marked := false }

/-- What a pass of the hand leaves of marked candidates. -/
def passed (table : FrameTable) (candidates : List Candidate) : List Candidate :=
  (candidates.filter fun candidate => table.Evictable candidate.page).map Candidate.unmark

theorem passed_append (table : FrameTable) (front back : List Candidate) :
    passed table (front ++ back) = passed table front ++ passed table back := by
  rw [passed, List.filter_append, List.map_append]
  rfl

theorem passed_congr (h : table.SameContents after) (candidates : List Candidate) :
    passed after candidates = passed table candidates := by
  simp only [passed, h.evictable]

theorem passed_cons_of_evictable (h : table.Evictable candidate.page) (rest : List Candidate) :
    passed table (candidate :: rest) = candidate.unmark :: passed table rest := by
  rw [passed, List.filter_cons_of_pos (by simpa using h), List.map_cons]
  rfl

theorem passed_cons_of_not_evictable (h : ¬table.Evictable candidate.page)
    (rest : List Candidate) : passed table (candidate :: rest) = passed table rest := by
  rw [passed, List.filter_cons_of_neg (by simpa using h)]
  rfl

theorem of_mem_passed (h : candidate ∈ passed table front) :
    table.Evictable candidate.page ∧ ¬candidate.marked := by
  obtain ⟨former, hmem, rfl⟩ := List.mem_map.mp h
  exact ⟨of_decide_eq_true (List.mem_filter.mp hmem).2, Bool.false_ne_true⟩

theorem pages_passed (table : FrameTable) (front : List Candidate) :
    (passed table front).map Candidate.page =
      (front.map Candidate.page).filter fun page => table.Evictable page := by
  rw [passed, List.map_map, List.filter_map]
  rfl

theorem sweep_cons_of_not_evictable (h : ¬table.Evictable candidate.page) :
    sweep (candidate :: ahead) behind table = sweep ahead behind table := by
  rw [sweep]
  split
  · rfl
  · rename_i frame hf
    rw [if_pos (of_not_not ((FrameTable.evictable_of_find? hf).not.mp h))]

theorem sweep_cons_of_marked (h : table.Evictable candidate.page) (hm : candidate.marked) :
    sweep (candidate :: ahead) behind table =
      sweep ahead (behind ++ [candidate.unmark]) (table.age candidate.page) := by
  obtain ⟨frame, hf, hp⟩ := h
  rw [sweep, FrameTable.age_of_find? hf]
  have hf : table.find? candidate.page = some frame := hf
  simp only [hf, if_neg hp, if_pos hm]
  rfl

theorem sweep_cons_of_not_marked (h : table.Evictable candidate.page) (hm : ¬candidate.marked) :
    sweep (candidate :: ahead) behind table =
      (some candidate.page, ⟨candidate :: ahead, behind⟩, table) := by
  obtain ⟨frame, hf, hp⟩ := h
  rw [sweep]
  have hf : table.find? candidate.page = some frame := hf
  simp only [hf, if_neg hp, if_neg hm]

/-- At the end of the row the hand goes back to its front. -/
theorem sweep_nil (behind : List Candidate) (table : FrameTable) :
    sweep [] behind table = sweep behind [] table := by
  cases behind with
  | nil => rfl
  | cons candidate behind => conv_lhs => rw [sweep]

/-- A pass of the hand: who is not cached or is pinned goes, and the others lose a mark and a
use. -/
theorem sweep_append (h : ∀ candidate ∈ front, table.Evictable candidate.page → candidate.marked) :
    sweep (front ++ rest) behind table =
      sweep rest (behind ++ passed table front)
        (table.ageAll ((passed table front).map Candidate.page)) := by
  induction front generalizing behind table with
  | nil =>
    rw [show passed table [] = [] from rfl, List.append_nil]
    rfl
  | cons candidate front ih =>
    have hrest := fun other hmem => h other (List.mem_cons_of_mem _ hmem)
    rw [List.cons_append]
    by_cases he : table.Evictable candidate.page
    · have hsame := table.sameContents_age candidate.page
      rw [sweep_cons_of_marked he (h candidate List.mem_cons_self he), ih, passed_congr hsame,
        passed_cons_of_evictable he, List.append_assoc]
      · rfl
      · intro other hmem hother
        exact hrest other hmem (hsame.evictable.mp hother)
    · rw [sweep_cons_of_not_evictable he, ih hrest, passed_cons_of_not_evictable he]

/-- Once the hand has passed all that is ahead it goes back to the front of the row. -/
theorem sweep_round (h : ∀ candidate ∈ ahead, table.Evictable candidate.page → candidate.marked) :
    sweep ahead behind table =
      sweep (behind ++ passed table ahead) []
        (table.ageAll ((passed table ahead).map Candidate.page)) := by
  rw [← sweep_nil, ← sweep_append h, List.append_nil]

theorem sweep_of_ahead (hfront : ∀ other ∈ front, table.Evictable other.page → other.marked)
    (he : table.Evictable candidate.page) (hm : ¬candidate.marked) :
    sweep (front ++ candidate :: back) behind table =
      (some candidate.page, ⟨candidate :: back, behind ++ passed table front⟩,
        table.ageAll ((passed table front).map Candidate.page)) := by
  have hsame := table.sameContents_ageAll ((passed table front).map Candidate.page)
  rw [sweep_append hfront, sweep_cons_of_not_marked (hsame.evictable.mpr he) hm]

theorem sweep_of_behind
    (hfront : ∀ other ∈ ahead ++ front, table.Evictable other.page → other.marked)
    (he : table.Evictable candidate.page) (hm : ¬candidate.marked) :
    sweep ahead (front ++ candidate :: back) table =
      (some candidate.page, ⟨candidate :: (back ++ passed table ahead), passed table front⟩,
        table.ageAll ((passed table (ahead ++ front)).map Candidate.page)) := by
  have hsame := table.sameContents_ageAll ((passed table ahead).map Candidate.page)
  have hfront' : ∀ other ∈ front, FrameTable.Evictable
      (table.ageAll ((passed table ahead).map Candidate.page)) other.page → other.marked :=
    fun other hmem hother =>
      hfront other (List.mem_append_right ahead hmem) (hsame.evictable.mp hother)
  rw [sweep_round fun other hmem => hfront other (List.mem_append_left front hmem),
    List.append_assoc, List.cons_append, sweep_of_ahead hfront' (hsame.evictable.mpr he) hm,
    passed_congr hsame, passed_append, List.map_append, FrameTable.ageAll_append, List.nil_append]

/-- The hand stops at the first unmarked candidate that may be evicted. -/
theorem victim_of_not_marked (h : clock.sweepOrder = front ++ candidate :: back)
    (hfront : ∀ other ∈ front, table.Evictable other.page → other.marked)
    (he : table.Evictable candidate.page) (hm : ¬candidate.marked) :
    ∃ left, clock.victim table =
        (some candidate.page, left, table.ageAll ((passed table front).map Candidate.page)) ∧
      left.sweepOrder = candidate :: back ++ passed table front := by
  obtain ⟨ahead, behind⟩ := clock
  have hround : ∀ more, front = ahead ++ more → behind = more ++ candidate :: back →
      ∃ left, victim ⟨ahead, behind⟩ table =
          (some candidate.page, left, table.ageAll ((passed table front).map Candidate.page)) ∧
        left.sweepOrder = candidate :: back ++ passed table front := by
    rintro more rfl rfl
    refine ⟨_, sweep_of_behind hfront he hm, ?_⟩
    rw [sweepOrder, passed_append, List.cons_append, List.cons_append, List.append_assoc]
  rcases List.append_eq_append_iff.mp h with ⟨more, hfronts, hbehind⟩ | ⟨more, hahead, hback⟩
  · exact hround more hfronts hbehind
  cases more with
  | nil => exact hround [] (by simpa using hahead.symm) hback.symm
  | cons other more =>
    obtain ⟨rfl, rfl⟩ := List.cons.inj hback
    obtain rfl : ahead = front ++ candidate :: more := hahead
    exact ⟨_, sweep_of_ahead hfront he hm, (List.append_assoc (candidate :: more) behind _).symm⟩

/-- Where everyone may be evicted and nobody is marked the first is named and nothing changes. -/
theorem sweep_of_unmarked
    (h : ∀ candidate ∈ ahead ++ behind, table.Evictable candidate.page ∧ ¬candidate.marked) :
    ∃ left, sweep ahead behind table =
        ((ahead ++ behind).head?.map Candidate.page, left, table) ∧
      left.sweepOrder = ahead ++ behind := by
  cases ahead with
  | cons candidate ahead =>
    obtain ⟨he, hm⟩ := h candidate List.mem_cons_self
    exact ⟨⟨candidate :: ahead, behind⟩, sweep_cons_of_not_marked he hm, rfl⟩
  | nil =>
    rw [sweep_nil]
    cases behind with
    | nil => exact ⟨empty, victim_empty table, rfl⟩
    | cons candidate behind =>
      obtain ⟨he, hm⟩ := h candidate List.mem_cons_self
      exact ⟨⟨candidate :: behind, []⟩, sweep_cons_of_not_marked he hm, List.append_nil _⟩

/-- Where all that may be evicted are marked the hand goes round once and stops at the first of
them. -/
theorem victim_of_marked
    (h : ∀ candidate ∈ clock.sweepOrder, table.Evictable candidate.page → candidate.marked) :
    ∃ left, clock.victim table =
        ((passed table clock.sweepOrder).head?.map Candidate.page, left,
          table.ageAll ((passed table clock.sweepOrder).map Candidate.page)) ∧
      left.sweepOrder = passed table clock.sweepOrder := by
  obtain ⟨ahead, behind⟩ := clock
  have hsame := table.sameContents_ageAll ((passed table ahead).map Candidate.page)
  have hbehind : ∀ candidate ∈ behind, FrameTable.Evictable
      (table.ageAll ((passed table ahead).map Candidate.page)) candidate.page →
      candidate.marked :=
    fun candidate hmem he =>
      h candidate (List.mem_append_right ahead hmem) (hsame.evictable.mp he)
  have hround : victim ⟨ahead, behind⟩ table =
      sweep (passed table ahead) (passed table behind)
        (table.ageAll ((passed table (ahead ++ behind)).map Candidate.page)) := by
    rw [victim, sweep_round fun candidate hmem => h candidate (List.mem_append_left behind hmem),
      sweep_append hbehind, passed_congr hsame, ← FrameTable.ageAll_append, ← List.map_append,
      ← passed_append, List.nil_append]
  have hsame' := table.sameContents_ageAll ((passed table (ahead ++ behind)).map Candidate.page)
  have hunmarked : ∀ candidate ∈ passed table ahead ++ passed table behind, FrameTable.Evictable
      (table.ageAll ((passed table (ahead ++ behind)).map Candidate.page)) candidate.page ∧
      ¬candidate.marked := by
    intro candidate hmem
    rw [← passed_append] at hmem
    exact (of_mem_passed hmem).imp_left hsame'.evictable.mpr
  rw [hround, sweepOrder, passed_append]
  rw [passed_append] at hunmarked
  exact sweep_of_unmarked hunmarked

/-- The ring as one row of candidates, with the place of the hand. -/
structure Dial where
  entries : List Candidate
  hand : Nat

def dial (clock : Clock) : Dial := ⟨clock.candidates, clock.hand⟩

/-- One turn: the candidate under the hand is dropped, or passed, or named. The hand goes back to
the first place from behind the last one. -/
def Dial.turn (dial : Dial) (table : FrameTable) : Option PageId × Dial × FrameTable :=
  match dial.entries[dial.hand]? with
  | none => (none, dial, table)
  | some candidate =>
    if table.Evictable candidate.page then
      if candidate.marked then
        (none, ⟨dial.entries.set dial.hand candidate.unmark,
          (dial.hand + 1) % dial.entries.length⟩, table.age candidate.page)
      else (some candidate.page, dial, table)
    else
      (none, ⟨dial.entries.eraseIdx dial.hand,
        if dial.hand < dial.entries.length - 1 then dial.hand else 0⟩, table)

/-- Turns until a candidate is named or nobody is left, if `count` of them are enough. -/
def Dial.turns (dial : Dial) (table : FrameTable) :
    Nat → Option (Option PageId × Dial × FrameTable)
  | 0 => if dial.entries = [] then some (none, dial, table) else none
  | count + 1 =>
    if dial.entries = [] then some (none, dial, table)
    else
      match dial.turn table with
      | (some page, dial, table) => some (some page, dial, table)
      | (none, dial, table) => dial.turns table count

theorem victim_ofParts (ahead behind : List Candidate) (table : FrameTable) :
    (ofParts ahead behind).victim table = sweep ahead behind table := by
  rw [ofParts]
  split
  · rename_i hahead
    rw [hahead, sweep_nil]
    rfl
  · rfl

theorem dial_ofParts (ahead behind : List Candidate) :
    (ofParts ahead behind).dial =
      ⟨behind ++ ahead, if behind.length < (behind ++ ahead).length then behind.length else 0⟩ := by
  rw [dial, candidates_ofParts, hand, ofParts]
  cases ahead with
  | nil => simp
  | cons candidate ahead => simp

theorem sweepOrder_ofParts (ahead behind : List Candidate) :
    (ofParts ahead behind).sweepOrder = ahead ++ behind := by
  rw [ofParts]
  split
  · rename_i h
    rw [h]
    exact List.append_nil behind
  · rfl

/-- A turn does what the sweep does with one candidate. -/
theorem turn_dial (candidate : Candidate) (ahead behind : List Candidate) (table : FrameTable) :
    (dial ⟨candidate :: ahead, behind⟩).turn table =
      if table.Evictable candidate.page then
        if candidate.marked then
          (none, (ofParts ahead (behind ++ [candidate.unmark])).dial, table.age candidate.page)
        else (some candidate.page, dial ⟨candidate :: ahead, behind⟩, table)
      else (none, (ofParts ahead behind).dial, table) := by
  have hunder : (dial ⟨candidate :: ahead, behind⟩).entries[behind.length]? = some candidate := by
    simp [dial, candidates]
  have hset : (behind ++ candidate :: ahead).set behind.length candidate.unmark =
      behind ++ [candidate.unmark] ++ ahead := by simp
  have herase : (behind ++ candidate :: ahead).eraseIdx behind.length = behind ++ ahead := by
    rw [List.eraseIdx_append_of_length_le le_rfl, Nat.sub_self, List.eraseIdx_cons_zero]
  have hnext : (behind.length + 1) % (behind ++ candidate :: ahead).length =
      if (behind ++ [candidate.unmark]).length < (behind ++ [candidate.unmark] ++ ahead).length then
        (behind ++ [candidate.unmark]).length else 0 := by
    cases ahead with
    | nil => simp
    | cons other ahead => simp [Nat.mod_eq_of_lt]
  have hlast : (behind ++ candidate :: ahead).length - 1 = (behind ++ ahead).length := by simp
  rw [dial_ofParts, dial_ofParts, ← hnext, ← hset, ← hlast, ← herase, Dial.turn,
    show (dial ⟨candidate :: ahead, behind⟩).hand = behind.length from rfl, hunder]
  rfl

theorem remaining_append (front back : List Candidate) :
    remaining (front ++ back) = remaining front + remaining back := by
  simp only [remaining, List.length_append, List.countP_append]
  omega

/-- A sweep takes no more turns than the ring has candidates and marks, and one. -/
theorem turns_dial (hb : clock.ahead = [] → clock.behind = []) {count : Nat}
    (h : remaining clock.sweepOrder < count) (table : FrameTable) :
    clock.dial.turns table count =
      some ((clock.victim table).1, (clock.victim table).2.1.dial, (clock.victim table).2.2) := by
  induction count generalizing clock table with
  | zero => exact absurd h (Nat.not_lt_zero _)
  | succ count ih =>
    obtain ⟨ahead, behind⟩ := clock
    cases ahead with
    | nil =>
      obtain rfl : behind = [] := hb rfl
      have hv := victim_empty table
      rw [empty] at hv
      rw [hv]
      rfl
    | cons candidate ahead =>
      have hne : (dial ⟨candidate :: ahead, behind⟩).entries ≠ [] := by simp [dial, candidates]
      change remaining (candidate :: (ahead ++ behind)) < count + 1 at h
      rw [remaining_cons] at h
      rw [Dial.turns, if_neg hne, turn_dial, victim]
      by_cases he : table.Evictable candidate.page
      · rw [if_pos he]
        by_cases hm : candidate.marked
        · rw [if_pos hm] at h ⊢
          rw [sweep_cons_of_marked he hm, ← victim_ofParts]
          apply ih behind_ofParts
          -- It came to the end of the order, where it counts for one instead of two.
          have hunmark : remaining [candidate.unmark] = 1 := rfl
          rw [sweepOrder_ofParts, ← List.append_assoc, remaining_append, hunmark]
          omega
        · rw [if_neg hm, sweep_cons_of_not_marked he hm]
      · rw [if_neg he, sweep_cons_of_not_evictable he, ← victim_ofParts]
        apply ih behind_ofParts
        rw [sweepOrder_ofParts]
        split at h <;> omega

theorem sweepOrder_eq_rotate (clock : Clock) :
    clock.sweepOrder = clock.candidates.rotate clock.hand :=
  (List.rotate_append_length_eq clock.behind clock.ahead).symm

theorem sweepOrder_withdraw (clock : Clock) (page : PageId) :
    (clock.withdraw page).sweepOrder =
      clock.sweepOrder.filter fun candidate => candidate.page ≠ page := by
  rw [withdraw, sweepOrder_ofParts, ← List.filter_append]
  rfl

theorem candidates_withdraw (clock : Clock) (page : PageId) :
    (clock.withdraw page).candidates =
      clock.candidates.filter fun candidate => candidate.page ≠ page := by
  rw [withdraw, candidates_ofParts, ← List.filter_append]
  rfl

theorem mem_sweepOrder : candidate ∈ clock.sweepOrder ↔ candidate ∈ clock.candidates := by
  rw [sweepOrder, candidates, List.mem_append, List.mem_append, or_comm]

namespace Sound

theorem hand (h : clock.Sound) : clock.hand = 0 ∨ clock.hand < clock.candidates.length := by
  rw [Clock.hand, candidates, List.length_append]
  cases ha : clock.ahead with
  | nil => exact Or.inl (List.length_eq_zero_iff.mpr (h.behind_eq ha))
  | cons candidate ahead => exact Or.inr (by simp)

theorem getElem?_hand (h : clock.Sound) :
    clock.candidates[clock.hand]? = clock.sweepOrder.head? := by
  rw [Clock.hand, candidates, sweepOrder, List.getElem?_append_right le_rfl, Nat.sub_self]
  cases ha : clock.ahead with
  | nil => rw [h.behind_eq ha]; rfl
  | cons candidate ahead => rfl

theorem nodup_passed (h : clock.Sound) (hf : front <+: clock.sweepOrder) (table : FrameTable) :
    ((passed table front).map Candidate.page).Nodup := by
  have hperm : clock.sweepOrder.Perm clock.candidates := List.perm_append_comm
  have hpages := (hperm.map Candidate.page).nodup_iff.mpr h.nodup
  rw [pages_passed]
  exact ((hf.sublist.map Candidate.page).nodup hpages).filter _

end Sound

/-- What comes of asking a clock for a victim. A candidate is live if it may be evicted. -/
structure Swept (clock : Clock) (table : FrameTable) (answer : Option PageId) (left : Clock)
    (aged : FrameTable) : Prop where
  /-- Two rounds and one turn are enough. -/
  turns : clock.dial.turns table (2 * clock.sweepOrder.length + 1) = some (answer, left.dial, aged)
  none_iff : answer = none ↔ ∀ candidate ∈ clock.sweepOrder, ¬table.Evictable candidate.page
  candidates_of_none : answer = none → left.candidates = []
  /-- The hand rests on the victim. -/
  under_hand : left.candidates[left.hand]?.map Candidate.page = answer
  /-- The first live one without a mark is named. Those before it are passed, and nothing happens to
  those behind it. -/
  of_not_marked : ∀ front candidate back, clock.sweepOrder = front ++ candidate :: back →
    (∀ other ∈ front, table.Evictable other.page → other.marked) →
    table.Evictable candidate.page → ¬candidate.marked →
      answer = some candidate.page ∧
      left.sweepOrder = candidate :: back ++ passed table front ∧
      ∀ id, aged.find? id =
        if id ∈ (passed table front).map Candidate.page then (table.find? id).map Frame.aged
        else table.find? id
  /-- If all live ones are marked, all are passed and the first of them is named. -/
  of_marked : (∀ candidate ∈ clock.sweepOrder, table.Evictable candidate.page → candidate.marked) →
    answer = (clock.sweepOrder.find? fun candidate => table.Evictable candidate.page).map
      Candidate.page ∧
    left.sweepOrder = passed table clock.sweepOrder ∧
    ∀ id, aged.find? id =
      if id ∈ (passed table clock.sweepOrder).map Candidate.page then
        (table.find? id).map Frame.aged
      else table.find? id

theorem head?_passed (table : FrameTable) (front : List Candidate) :
    (passed table front).head?.map Candidate.page =
      (front.find? fun candidate => table.Evictable candidate.page).map Candidate.page := by
  rw [passed, List.head?_map, List.head?_filter, Option.map_map]
  rfl

theorem head?_victim (clock : Clock) (table : FrameTable) :
    (clock.victim table).2.1.sweepOrder.head?.map Candidate.page = (clock.victim table).1 := by
  cases hfind : clock.sweepOrder.find?
      fun candidate => decide (table.Evictable candidate.page ∧ ¬candidate.marked) with
  | some candidate =>
    obtain ⟨hlive, front, back, horder, hfront⟩ := List.find?_eq_some_iff_append.mp hfind
    obtain ⟨he, hm⟩ := of_decide_eq_true hlive
    obtain ⟨left, hv, hleft⟩ := victim_of_not_marked horder
      (fun other hmem hother => by simpa [hother] using hfront other hmem) he hm
    rw [hv, hleft]
    rfl
  | none =>
    have hmarked : ∀ candidate ∈ clock.sweepOrder,
        table.Evictable candidate.page → candidate.marked := by
      intro candidate hmem he
      simpa [he] using List.find?_eq_none.mp hfind candidate hmem
    obtain ⟨left, hv, hleft⟩ := victim_of_marked hmarked
    rw [hv, hleft]

theorem Sound.swept (h : clock.Sound) (table : FrameTable) :
    clock.Swept table (clock.victim table).1 (clock.victim table).2.1 (clock.victim table).2.2 where
  turns := by
    apply turns_dial h.behind_eq
    have hmarks := clock.sweepOrder.countP_le_length (p := Candidate.marked)
    rw [remaining]
    omega
  none_iff := by
    rw [Clock.victim, (chosen_sweep clock.ahead clock.behind table).eq_none_iff,
      List.forall_mem_map]
    exact forall_congr' fun candidate => imp_congr_left mem_sweepOrder.symm
  candidates_of_none hn :=
    List.map_eq_nil_iff.mp ((chosen_sweep clock.ahead clock.behind table).exhausted hn)
  under_hand := by
    rw [(h.victim table).getElem?_hand]
    exact head?_victim clock table
  of_not_marked front candidate back horder hfront he hm := by
    obtain ⟨left, hv, hleft⟩ := victim_of_not_marked horder hfront he hm
    have hn := h.nodup_passed (horder ▸ List.prefix_append front _) table
    rw [hv]
    exact ⟨rfl, hleft, FrameTable.find?_ageAll hn table⟩
  of_marked hmarked := by
    obtain ⟨left, hv, hleft⟩ := victim_of_marked hmarked
    have hn := h.nodup_passed (List.prefix_refl _) table
    rw [hv]
    exact ⟨head?_passed table _, hleft, FrameTable.find?_ageAll hn table⟩

end Clock

/-- Whatever calls a clock has been through, no page is on its ring twice and the hand is on a
candidate, or at the first place. A page is taken off without changing the order in which the hand
meets the others. Asked for a victim the clock does all that `Clock.Swept` says. -/
theorem Policy.sweep_run (actions : List Policy.Action) :
    ∃ state, (clock .empty).run actions = clock state ∧
      state.pages.Nodup ∧
      (state.hand = 0 ∨ state.hand < state.candidates.length) ∧
      state.sweepOrder = state.candidates.rotate state.hand ∧
      (∀ page, ∃ left, (clock state).withdraw page = .ok (clock left) ∧
        left.candidates = (state.candidates.filter fun candidate => candidate.page ≠ page) ∧
        left.candidates.rotate left.hand =
          state.sweepOrder.filter fun candidate => candidate.page ≠ page) ∧
      ∀ table, ∃ answer left aged,
        (clock state).victim table = (answer, clock left, aged) ∧
        left.pages.Sublist state.pages ∧
        state.Swept table answer left aged := by
  obtain ⟨state, hstate⟩ := exists_run_clock .empty actions
  have hempty : (clock .empty).Sound := Clock.sound_empty
  have hsound : (clock state).Sound := hstate ▸ hempty.run actions
  have h : state.Sound := hsound
  refine ⟨state, hstate, h.nodup, h.hand, state.sweepOrder_eq_rotate, ?_, ?_⟩
  · intro page
    refine ⟨state.withdraw page, rfl, state.candidates_withdraw page, ?_⟩
    rw [← Clock.sweepOrder_eq_rotate, Clock.sweepOrder_withdraw]
  · intro table
    exact ⟨_, _, _, rfl, (Clock.chosen_sweep state.ahead state.behind table).sublist,
      h.swept table⟩

end PagedStorage
