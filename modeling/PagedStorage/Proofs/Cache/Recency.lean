import Mathlib.Data.List.Dedup
import Mathlib.Data.List.Nodup
import PagedStorage.Cache.Lru

namespace PagedStorage

theorem dedup_concat (pages : List PageId) (page : PageId) :
    (pages ++ [page]).dedup = (pages.dedup.filter fun other => other ≠ page) ++ [page] := by
  induction pages with
  | nil => simp
  | cons head pages ih =>
    by_cases hmem : head ∈ pages
    · rw [List.cons_append, List.dedup_cons_of_mem (List.mem_append_left _ hmem),
        List.dedup_cons_of_mem hmem, ih]
    rw [List.cons_append, List.dedup_cons_of_notMem hmem]
    by_cases hp : head = page
    · subst hp
      rw [List.dedup_cons_of_mem (by simp), ih, List.filter_cons_of_neg (by simp)]
    · rw [List.dedup_cons_of_notMem (by simp [hmem, hp]), ih,
        List.filter_cons_of_pos (by simpa using hp), List.cons_append]

/-- Each page that stays has its last place before the last places of those behind it. -/
theorem pairwise_dedup (pages : List PageId) :
    pages.dedup.Pairwise fun page other =>
      ∃ earlier later, pages = earlier ++ page :: later ∧ page ∉ later ∧ other ∈ later := by
  induction pages with
  | nil => exact List.Pairwise.nil
  | cons head pages ih =>
    have hrest : pages.dedup.Pairwise fun page other => ∃ earlier later,
        head :: pages = earlier ++ page :: later ∧ page ∉ later ∧ other ∈ later := by
      refine ih.imp ?_
      rintro page other ⟨earlier, later, hsplit, hlast, hother⟩
      exact ⟨head :: earlier, later, congrArg (head :: ·) hsplit, hlast, hother⟩
    by_cases hmem : head ∈ pages
    · rwa [List.dedup_cons_of_mem hmem]
    · rw [List.dedup_cons_of_notMem hmem]
      refine hrest.cons fun other hother => ?_
      exact ⟨[], pages, rfl, hmem, List.mem_dedup.mp hother⟩

section

variable {ticks : Std.TreeMap Nat PageId} {entries front back : List (Nat × PageId)} {tick : Nat}
  {page : PageId}

theorem pairwise_toList (ticks : Std.TreeMap Nat PageId) :
    ticks.toList.Pairwise fun a b => a.1 < b.1 :=
  Std.TreeMap.ordered_keys_toList.imp Nat.compare_eq_lt.mp

/-- The entries of a map are listed in just one way that ascends. -/
theorem toList_eq_of_mem_iff (hs : entries.Pairwise fun a b => a.1 < b.1)
    (hm : ∀ tick page, (tick, page) ∈ entries ↔ ticks[tick]? = some page) :
    ticks.toList = entries := by
  have hne : ∀ {list : List (Nat × PageId)}, list.Pairwise (fun a b => a.1 < b.1) → list.Nodup := by
    intro list h
    refine h.imp ?_
    rintro a _ hlt rfl
    exact Nat.lt_irrefl _ hlt
  have hperm : ticks.toList.Perm entries := by
    rw [List.perm_ext_iff_of_nodup (hne (pairwise_toList ticks)) (hne hs)]
    rintro ⟨tick, page⟩
    rw [hm, Std.TreeMap.mem_toList_iff_getElem?_eq_some]
  refine hperm.eq_of_pairwise ?_ (pairwise_toList ticks) hs
  intro a b _ _ hab hba
  exact absurd hab (Nat.lt_asymm hba)

theorem toList_erase (ticks : Std.TreeMap Nat PageId) (tick : Nat) :
    (ticks.erase tick).toList = ticks.toList.filter fun entry => entry.1 ≠ tick := by
  apply toList_eq_of_mem_iff ((pairwise_toList ticks).filter _)
  intro other page
  rw [List.mem_filter, Std.TreeMap.mem_toList_iff_getElem?_eq_some, Std.TreeMap.getElem?_erase]
  by_cases h : other = tick
  · simp [h]
  · simp [h, Ne.symm h]

theorem toList_insert (h : ∀ other page, ticks[other]? = some page → other < tick) :
    (ticks.insert tick page).toList = ticks.toList ++ [(tick, page)] := by
  apply toList_eq_of_mem_iff
  · refine List.pairwise_append.mpr ⟨pairwise_toList ticks, List.pairwise_singleton _ _, ?_⟩
    rintro ⟨other, held⟩ hmem _ hlast
    rw [List.mem_singleton.mp hlast]
    exact h other held (Std.TreeMap.mem_toList_iff_getElem?_eq_some.mp hmem)
  · intro other held
    simp only [List.mem_append, Std.TreeMap.mem_toList_iff_getElem?_eq_some, List.mem_singleton,
      Prod.mk.injEq, Std.TreeMap.getElem?_insert, Nat.compare_eq_eq]
    by_cases ht : tick = other
    · subst ht
      have hnone : ¬ticks[tick]? = some held := fun hf => Nat.lt_irrefl _ (h tick held hf)
      simp [hnone, eq_comm]
    · simp [ht, Ne.symm ht]

end

namespace Lru

variable {lru : Lru} {table : FrameTable} {tick : Nat} {page other : PageId}

/-- The two maps are inverse to each other, and no tick in use is ahead of the last one. -/
structure Sound (lru : Lru) : Prop where
  inverse : ∀ (tick : Nat) (page : PageId),
    lru.order[tick]? = some page ↔ lru.index[page]? = some tick
  le_tick : ∀ (tick : Nat) (page : PageId), lru.order[tick]? = some page → tick ≤ lru.tick

theorem sound_empty : empty.Sound where
  inverse tick page := by simp [empty]
  le_tick tick page h := by simp [empty] at h

theorem mem_pages : page ∈ lru.pages ↔ ∃ tick : Nat, lru.order[tick]? = some page := by
  simp [pages, Std.TreeMap.mem_toList_iff_getElem?_eq_some]

namespace Sound

theorem nodup_pages (h : lru.Sound) : lru.pages.Nodup := by
  refine List.pairwise_map.mpr ((pairwise_toList lru.order).imp_of_mem ?_)
  rintro ⟨tick, page⟩ ⟨later, other⟩ hmem hmem' hlt (rfl : page = other)
  -- Two ticks for one page are one tick, since the index knows only one.
  rw [Std.TreeMap.mem_toList_iff_getElem?_eq_some, h.inverse] at hmem hmem'
  rw [hmem] at hmem'
  cases hmem'
  exact Nat.lt_irrefl _ hlt

theorem mem_pages_iff (h : lru.Sound) :
    page ∈ lru.pages ↔ ∃ tick : Nat, lru.index[page]? = some tick := by
  simp only [mem_pages, h.inverse]

theorem drop (h : lru.Sound) (hf : lru.order[tick]? = some page) :
    (lru.drop (tick, page)).Sound where
  inverse other held := by
    have hback := (h.inverse tick page).mp hf
    simp only [Lru.drop, Std.TreeMap.getElem?_erase, Nat.compare_eq_eq, PageId.compare_eq_iff]
    by_cases ht : tick = other
    · subst ht
      rw [if_pos rfl]
      -- The tick goes with its page: whoever has it still would be that page.
      refine iff_of_false nofun fun hheld => ?_
      split at hheld
      · cases hheld
      · rename_i hne
        rw [← h.inverse, hf] at hheld
        exact hne (Option.some.inj hheld)
    · rw [if_neg ht, h.inverse]
      split
      · rename_i hp
        subst hp
        rw [hback]
        exact iff_of_false (fun he => ht (Option.some.inj he)) nofun
      · rfl
  le_tick other held hheld := by
    simp only [Lru.drop, Std.TreeMap.getElem?_erase] at hheld
    split at hheld
    · cases hheld
    · exact h.le_tick other held hheld

theorem pages_drop (h : lru.Sound) (hf : lru.order[tick]? = some page) :
    (lru.drop (tick, page)).pages = lru.pages.filter fun other => other ≠ page := by
  rw [pages, Lru.drop, toList_erase, pages, List.filter_map]
  congr 1
  apply List.filter_congr
  rintro ⟨other, held⟩ hmem
  rw [Std.TreeMap.mem_toList_iff_getElem?_eq_some] at hmem
  have hsame : other = tick ↔ held = page := by
    constructor
    · rintro rfl
      rw [hmem] at hf
      exact Option.some.inj hf
    · rintro rfl
      rw [h.inverse] at hmem hf
      rw [hmem] at hf
      exact Option.some.inj hf
  simp [hsame]

/-- A page is taken off with its tick, if it has one. -/
theorem without_cases (h : lru.Sound) (page : PageId) :
    (page ∉ lru.pages ∧ lru.without page = lru) ∨
      ∃ tick : Nat, lru.order[tick]? = some page ∧ lru.without page = lru.drop (tick, page) := by
  unfold Lru.without
  split
  · rename_i hnone
    refine Or.inl ⟨fun hmem => ?_, rfl⟩
    obtain ⟨tick, hf⟩ := h.mem_pages_iff.mp hmem
    rw [hnone] at hf
    cases hf
  · rename_i tick hf
    exact Or.inr ⟨tick, (h.inverse tick page).mpr hf, rfl⟩

theorem without (h : lru.Sound) (page : PageId) : (lru.without page).Sound := by
  rcases h.without_cases page with ⟨-, heq⟩ | ⟨tick, hf, heq⟩
  · rwa [heq]
  · rw [heq]
    exact h.drop hf

theorem pages_without (h : lru.Sound) (page : PageId) :
    (lru.without page).pages = lru.pages.filter fun other => other ≠ page := by
  rcases h.without_cases page with ⟨hmem, heq⟩ | ⟨tick, hf, heq⟩
  · rw [heq, List.filter_eq_self.mpr]
    intro other hother
    exact decide_eq_true fun he => hmem (he ▸ hother)
  · rw [heq]
    exact h.pages_drop hf

theorem register (h : lru.Sound) (page : PageId) : (lru.register page).Sound := by
  have hrest := h.without page
  -- The new tick is ahead of every tick in use, and the page has none.
  have hfree : ∀ other, ¬(lru.without page).order[(lru.without page).tick + 1]? = some other :=
    fun other hf => Nat.not_succ_le_self _ (hrest.le_tick _ other hf)
  have hgone : ∀ tick, ¬(lru.without page).index[page]? = some tick := by
    intro tick hf
    have hmem := hrest.mem_pages_iff.mpr ⟨tick, hf⟩
    rw [h.pages_without] at hmem
    simp at hmem
  constructor
  · intro tick other
    simp only [Lru.register, Std.TreeMap.getElem?_insert, Nat.compare_eq_eq, PageId.compare_eq_iff]
    by_cases ht : (lru.without page).tick + 1 = tick
    · subst ht
      by_cases hp : page = other
      · simp [hp]
      · rw [if_pos rfl, if_neg hp, ← hrest.inverse]
        exact iff_of_false (fun he => hp (Option.some.inj he)) (hfree other)
    · rw [if_neg ht]
      by_cases hp : page = other
      · subst hp
        rw [if_pos rfl, hrest.inverse]
        exact iff_of_false (hgone tick) fun he => ht (Option.some.inj he)
      · rw [if_neg hp, hrest.inverse]
  · intro tick other hf
    simp only [Lru.register, Std.TreeMap.getElem?_insert, Nat.compare_eq_eq] at hf ⊢
    split at hf
    · rename_i ht
      exact Nat.le_of_eq ht.symm
    · exact Nat.le_succ_of_le (hrest.le_tick tick other hf)

theorem pages_register (h : lru.Sound) (page : PageId) :
    (lru.register page).pages = (lru.pages.filter fun other => other ≠ page) ++ [page] := by
  rw [← h.pages_without, pages, Lru.register, toList_insert, List.map_append]
  · rfl
  · intro tick other hf
    exact Nat.lt_succ_of_le ((h.without page).le_tick tick other hf)

end Sound

theorem toList_drop {entry : Nat × PageId} {rest : List (Nat × PageId)}
    (h : lru.order.toList = entry :: rest) : (lru.drop entry).order.toList = rest := by
  have hs := pairwise_toList lru.order
  rw [h, List.pairwise_cons] at hs
  rw [drop, toList_erase, h, List.filter_cons_of_neg (by simp), List.filter_eq_self]
  intro later hmem
  exact decide_eq_true (Nat.ne_of_gt (hs.1 later hmem))

theorem toList_foldl_drop {front back : List (Nat × PageId)}
    (h : lru.order.toList = front ++ back) : (front.foldl drop lru).order.toList = back := by
  induction front generalizing lru with
  | nil => exact h
  | cons entry front ih => exact ih (toList_drop h)

theorem Sound.foldl_drop {front back : List (Nat × PageId)} (hs : lru.Sound)
    (h : lru.order.toList = front ++ back) : (front.foldl Lru.drop lru).Sound := by
  induction front generalizing lru with
  | nil => exact hs
  | cons entry front ih =>
    have hmem : entry ∈ lru.order.toList := h ▸ List.mem_cons_self
    exact ih (hs.drop (Std.TreeMap.mem_toList_iff_getElem?_eq_some.mp hmem)) (toList_drop h)

theorem victim_fst (lru : Lru) (table : FrameTable) :
    (lru.victim table).1 = (lru.victim table).2.pages.head? := rfl

/-- The candidates in front of the victim go. -/
theorem pages_victim (lru : Lru) (table : FrameTable) :
    (lru.victim table).2.pages = lru.pages.dropWhile fun page => ¬table.Evictable page := by
  have hsplit : lru.order.toList = _ ++ _ :=
    (List.takeWhile_append_dropWhile (p := fun entry => ¬table.Evictable entry.2)).symm
  rw [pages, victim, toList_foldl_drop hsplit, pages, List.dropWhile_map]
  rfl

/-- Nothing is dropped if the oldest candidate may be evicted. -/
theorem victim_eq_self (h : ∀ page ∈ lru.pages.head?, table.Evictable page) :
    lru.victim table = (lru.pages.head?, lru) := by
  have hstale : (lru.order.toList.takeWhile fun entry => ¬table.Evictable entry.2) = [] := by
    rw [pages] at h
    cases hentries : lru.order.toList with
    | nil => rfl
    | cons entry rest =>
      rw [hentries] at h
      exact List.takeWhile_cons_of_neg (by simpa using h entry.2 rfl)
  rw [victim, hstale]
  rfl

theorem Sound.victim (h : lru.Sound) (table : FrameTable) : (lru.victim table).2.Sound :=
  h.foldl_drop List.takeWhile_append_dropWhile.symm

end Lru

end PagedStorage
