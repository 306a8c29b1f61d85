import PagedStorage.Proofs.Heap.Traversal
import PagedStorage.Proofs.Page.Slots
import PagedStorage.Proofs.Pool.Retains

namespace PagedStorage

open Pool

namespace RecordId

theorem compare_of_page_lt {a b : RecordId} (h : a.page.index < b.page.index) :
    compare a b = .lt := by
  have hpage : compare a.page b.page = .lt := Nat.compare_eq_lt.mpr h
  change (compare a.page b.page).then (compare a.slot b.slot) = .lt
  rw [hpage]
  rfl

theorem compare_of_slot_lt {a b : RecordId} (hp : a.page = b.page) (h : a.slot < b.slot) :
    compare a b = .lt := by
  have hpage : compare a.page b.page = .eq := PageId.compare_eq_iff.mpr hp
  change (compare a.page b.page).then (compare a.slot b.slot) = .lt
  rw [hpage]
  exact Nat.compare_eq_lt.mpr h

end RecordId

namespace Page

def entries (page : Page) : List (RecordId × Row) :=
  (List.range page.slotCount).filterMap fun slot => (page.row? slot).map (⟨page.id, slot⟩, ·)

section

variable {page : Page} {record : RecordId} {row : Row}

theorem mem_entries :
    (record, row) ∈ page.entries ↔
      record.page = page.id ∧ page.row record.slot = .ok (some row) := by
  simp only [entries, List.mem_filterMap, List.mem_range, Option.map_eq_some_iff, Prod.mk.injEq,
    row?_eq_some_iff]
  constructor
  · rintro ⟨slot, hlt, found, hrow, rfl, rfl⟩
    exact ⟨rfl, hrow⟩
  · rintro ⟨hpage, hrow⟩
    exact ⟨record.slot, lt_slotCount_of_row hrow, row, hrow, hpage ▸ rfl, rfl⟩

theorem pairwise_entries (page : Page) :
    page.entries.Pairwise fun entry other => compare entry.1 other.1 = .lt := by
  refine List.pairwise_lt_range.filterMap _ ?_
  intro slot other hlt entry hentry following hfollowing
  obtain ⟨row, -, rfl⟩ := Option.map_eq_some_iff.mp hentry
  obtain ⟨further, -, rfl⟩ := Option.map_eq_some_iff.mp hfollowing
  exact RecordId.compare_of_slot_lt rfl hlt

theorem Readable.exists_liveRows (h : page.Readable) :
    ∃ rows, page.liveRows = .ok rows ∧
      rows.map (fun (slot, row) => (⟨page.id, slot⟩, row)) = page.entries := by
  refine ⟨_, liveRows_of_readable h, ?_⟩
  rw [List.map_filterMap, entries]
  congr 1
  funext slot
  cases page.row? slot <;> rfl

end

end Page

namespace Scan

/-- How a scan ends at a page: at the first that is not found without an error, or else with the
error of the page or of its first broken slot. -/
inductive Stops (pool : Pool) (id : PageId) : Option StorageError → Pool → Prop
  | missing (e : StorageError) (after : Pool) (hg : pool.getPage id = (.error e, after))
      (hn : e.isNotFound = true) : Stops pool id none after
  | denied (e : StorageError) (after : Pool) (hg : pool.getPage id = (.error e, after))
      (hn : e.isNotFound = false) : Stops pool id (some e) after
  | broken (frame : Frame) (slot : Nat) (e : StorageError) (after : Pool)
      (hg : pool.getPage id = (.ok frame, after)) (hb : frame.page.BrokenAt slot e) :
      Stops pool id (some e) after

/-- The pages that a scan passes from `id` on, one request after another, and how it ends. -/
inductive Meets : Pool → PageId → List Page → Option StorageError → Pool → Prop
  | stopped (pool : Pool) (id : PageId) (ending : Option StorageError) (after : Pool)
      (hs : Stops pool id ending after) : Meets pool id [] ending after
  | passed (pool : Pool) (id : PageId) (frame : Frame) (read : Pool) (pages : List Page)
      (ending : Option StorageError) (after : Pool) (hg : pool.getPage id = (.ok frame, read))
      (hr : frame.page.Readable) (hm : Meets read id.next pages ending after) :
      Meets pool id (frame.page :: pages) ending after

/-- The rows of these pages come in the order of their ids and are the rows that the pool gives when
it is asked for each by its id. -/
structure Agrees (pages : List Page) (pool : Pool) : Prop where
  increasing :
    (pages.flatMap Page.entries).Pairwise fun entry other => compare entry.1 other.1 = .lt
  index_eq : ∀ (index : Nat) (page : Page), pages[index]? = some page → page.id.index = index
  mem_iff : ∀ record row, (record, row) ∈ pages.flatMap Page.entries ↔
    record.page.index < pages.length ∧ (Heap.get pool record).1 = .ok (some row)
  /-- No slot is left out but the deleted ones. -/
  exists_row : ∀ page ∈ pages, ∀ slot < page.slotCount, page.read slot ≠ .ok none →
    ∃ row, (⟨page.id, slot⟩, row) ∈ pages.flatMap Page.entries
  deleted : ∀ page ∈ pages, ∀ slot, page.read slot = .ok none →
    (Heap.get pool ⟨page.id, slot⟩).1 = .ok none

def answers (pages : List Page) (ending : Option StorageError) :
    List (Except StorageError (RecordId × Row)) :=
  (pages.flatMap Page.entries).map .ok ++ ending.toList.map .error

/-- A scan of the pool, asked often enough, has given these answers and is at `final` from then on,
and a plain scan has given the same without record ids. -/
structure Gives (pool : Pool) (given : List (Except StorageError (RecordId × Row))) (final : Scan)
    (last : Pool) : Prop where
  take_eq : ∀ limit, given.length < limit → take {} pool limit = (given, final, last)
  takeRows_eq : ∀ limit, given.length < limit →
    takeRows {} pool limit = (given.map (Except.map Prod.snd), final, last)
  next_eq : ∀ further, final.next further = (none, final, further)
  nextRow_eq : ∀ further, final.nextRow further = (none, final, further)

section

variable {settings : PoolSettings} {store : Store} {pool read after : Pool} {id : PageId}
  {frame : Frame} {page : Page} {pages : List Page} {ending : Option StorageError}

/-- Every scan meets its end, if only because the page ids run out. -/
theorem exists_meets (pool : Pool) (id : PageId) :
    ∃ pages ending after, Meets pool id pages ending after := by
  rcases hg : pool.getPage id with ⟨answer, read⟩
  cases answer with
  | error e =>
    cases hn : e.isNotFound with
    | true => exact ⟨[], none, read, .stopped _ _ _ _ (.missing e read hg hn)⟩
    | false => exact ⟨[], some e, read, .stopped _ _ _ _ (.denied e read hg hn)⟩
  | ok frame =>
    rcases frame.page.readable_or_brokenAt with hr | ⟨slot, e, hb⟩
    · obtain ⟨pages, ending, after, hm⟩ := exists_meets read id.next
      exact ⟨frame.page :: pages, ending, after, .passed _ _ _ _ _ _ _ hg hr hm⟩
    · exact ⟨[], some e, read, .stopped _ _ _ _ (.broken frame slot e read hg hb)⟩
termination_by 4294967296 - id.index
decreasing_by
  have hv := Heap.isValid_of_getPage hg
  have hlt := PageId.isValid_iff.mp hv
  rw [PageId.index_next hv]
  omega

theorem next_of_finished {scan : Scan} (hf : scan.finished = true) (pool : Pool) :
    scan.next pool = (none, scan, pool) ∧ scan.nextRow pool = (none, scan, pool) := by
  have hnext : scan.next pool = (none, scan, pool) := by rw [next, if_pos hf]
  refine ⟨hnext, ?_⟩
  rw [nextRow, hnext]
  rfl

theorem Stops.advance_eq (h : Stops pool id ending after) :
    advance pool id = (ending.map .error, { nextPage := id, finished := true }, after) := by
  cases h with
  | missing e after hg hn =>
    rw [advance]
    split <;> rename_i hother <;> rw [hg] at hother <;> cases hother
    exact if_pos hn
  | denied e after hg hn =>
    rw [advance]
    split <;> rename_i hother <;> rw [hg] at hother <;> cases hother
    exact if_neg (ne_true_of_eq_false hn)
  | broken frame slot e after hg hb =>
    rw [advance]
    split <;> rename_i hother <;> rw [hg] at hother <;> cases hother
    rw [hb.liveRows]
    rfl

/-- A page without rows is passed over, any other one gives its first row. -/
theorem advance_of_readable (hg : pool.getPage id = (.ok frame, read)) (hid : frame.page.id = id)
    (hr : frame.page.Readable) :
    advance pool id =
      match frame.page.entries with
      | [] => advance read id.next
      | entry :: pending => (some (.ok entry), { nextPage := id.next, pending }, read) := by
  obtain ⟨rows, hlive, hentries⟩ := hr.exists_liveRows
  rw [← hentries, hid, advance]
  split <;> rename_i hother <;> rw [hg] at hother <;> cases hother
  rw [hlive]
  cases rows <;> rfl

theorem take_pending (pool : Pool) (id : PageId) (pending : List (RecordId × Row)) (limit : Nat) :
    take { nextPage := id, pending } pool (pending.length + limit) =
      (pending.map .ok ++ (take { nextPage := id } pool limit).1,
        (take { nextPage := id } pool limit).2) := by
  induction pending with
  | nil => rw [List.length_nil, Nat.zero_add, List.map_nil, List.nil_append]
  | cons entry pending ih =>
    have hnext : next { nextPage := id, pending := entry :: pending } pool =
        (some (.ok entry), { nextPage := id, pending }, pool) := rfl
    rw [List.length_cons, Nat.add_right_comm, take, hnext]
    simp only [ih, List.map_cons, List.cons_append]

theorem take_of_readable (hg : pool.getPage id = (.ok frame, read)) (hid : frame.page.id = id)
    (hr : frame.page.Readable) (limit : Nat) :
    take { nextPage := id } pool (frame.page.entries.length + (limit + 1)) =
      (frame.page.entries.map .ok ++ (take { nextPage := id.next } read (limit + 1)).1,
        (take { nextPage := id.next } read (limit + 1)).2) := by
  have hadvance := advance_of_readable hg hid hr
  have hnext : next { nextPage := id } pool = advance pool id := rfl
  cases hentries : frame.page.entries with
  | nil =>
    rw [hentries] at hadvance
    have hfollowing : next { nextPage := id.next } read = advance read id.next := rfl
    rw [List.length_nil, Nat.zero_add, List.map_nil, List.nil_append, take, take, hnext, hadvance,
      hfollowing]
  | cons entry pending =>
    rw [hentries] at hadvance
    rw [List.length_cons, Nat.add_right_comm, take, hnext, hadvance]
    simp only [take_pending, List.map_cons, List.cons_append]

namespace Meets

/-- Asked more often than it has answers, a scan gives all of them and is finished. -/
theorem exists_take (hm : Meets pool id pages ending after) (h : pool.Ready settings) :
    ∃ final, final.finished = true ∧ ∀ extra,
      take { nextPage := id } pool ((answers pages ending).length + (extra + 1)) =
        (answers pages ending, final, after) := by
  induction hm with
  | stopped pool id ending after hs =>
    refine ⟨{ nextPage := id, finished := true }, rfl, fun extra => ?_⟩
    have hnext : next { nextPage := id } pool =
        (ending.map .error, { nextPage := id, finished := true }, after) := hs.advance_eq
    cases ending with
    | none =>
      have hnone : answers [] none = [] := rfl
      rw [hnone, List.length_nil, Nat.zero_add, take, hnext]
      rfl
    | some e =>
      have hlast : answers [] (some e) = [.error e] := rfl
      rw [hlast, List.length_singleton, Nat.add_comm, take, hnext]
      dsimp only [Option.map_some]
      rw [take_of_finished after rfl]
  | passed pool id frame read pages ending after hg hr hm ih =>
    obtain ⟨final, hfinal, htake⟩ := ih (h.getPage hg)
    refine ⟨final, hfinal, fun extra => ?_⟩
    have hanswers : answers (frame.page :: pages) ending =
        frame.page.entries.map .ok ++ answers pages ending := by
      rw [answers, answers, List.flatMap_cons, List.map_append, List.append_assoc]
    rw [hanswers, List.length_append, List.length_map, Nat.add_assoc, ← Nat.add_assoc _ extra,
      take_of_readable hg (h.id_of_getPage hg) hr, Nat.add_assoc, htake]

theorem retains (hm : Meets pool id pages ending after) (h : pool.Ready settings)
    (hf : pool.Faithful) :
    after.Ready settings ∧ pool.Retains after ∧
      ∀ page ∈ pages, after.page? page.id = some page := by
  induction hm with
  | stopped pool id ending after hs =>
    have hkept : ∀ {answer}, pool.getPage id = (answer, after) →
        after.Ready settings ∧ pool.Retains after := fun hg => ⟨h.getPage hg, retains_getPage hf hg⟩
    have hlast : after.Ready settings ∧ pool.Retains after := by
      cases hs with
      | missing e after hg hn => exact hkept hg
      | denied e after hg hn => exact hkept hg
      | broken frame slot e after hg hb => exact hkept hg
    exact ⟨hlast.1, hlast.2, nofun⟩
  | passed pool id frame read pages ending after hg hr hm ih =>
    have hread := retains_getPage hf hg
    obtain ⟨hready, hrest, hpages⟩ := ih (h.getPage hg) hread.faithful
    refine ⟨hready, hread.trans hrest, List.forall_mem_cons.mpr ⟨?_, hpages⟩⟩
    apply hrest.page?
    rw [h.id_of_getPage hg]
    exact page?_after_getPage hg

theorem index_eq (hm : Meets pool id pages ending after) (h : pool.Ready settings) {index : Nat}
    (hp : pages[index]? = some page) : page.id.index = id.index + index := by
  induction hm generalizing index with
  | stopped pool id ending after hs => cases hp
  | passed pool id frame read pages ending after hg hr hm ih =>
    cases index with
    | zero =>
      cases hp
      rw [h.id_of_getPage hg]
      rfl
    | succ index =>
      rw [ih (h.getPage hg) hp, PageId.index_next (Heap.isValid_of_getPage hg)]
      omega

theorem exists_gives (hm : Meets pool (.ofIndex 0) pages ending after) (h : pool.Ready settings) :
    ∃ final, Gives pool (answers pages ending) final after := by
  obtain ⟨final, hfinished, hextra⟩ := hm.exists_take h
  have htake : ∀ limit, (answers pages ending).length < limit →
      take {} pool limit = (answers pages ending, final, after) := by
    intro limit hlt
    obtain ⟨extra, rfl⟩ := Nat.exists_eq_add_of_lt hlt
    exact hextra extra
  refine ⟨final, htake, fun limit hlt => ?_, fun further => (next_of_finished hfinished further).1,
    fun further => (next_of_finished hfinished further).2⟩
  rw [takeRows_eq, htake limit hlt]

theorem pairwise_entries (hm : Meets pool id pages ending after) (h : pool.Ready settings) :
    (pages.flatMap Page.entries).Pairwise fun entry other => compare entry.1 other.1 = .lt := by
  refine List.pairwise_flatMap.mpr ⟨fun page _ => page.pairwise_entries, ?_⟩
  refine List.pairwise_iff_getElem.mpr fun first second hfirst hsecond hlt => ?_
  rintro ⟨record, row⟩ hrow ⟨other, further⟩ hfurther
  apply RecordId.compare_of_page_lt
  rw [(Page.mem_entries.mp hrow).1, (Page.mem_entries.mp hfurther).1,
    hm.index_eq h (List.getElem?_eq_getElem hfirst),
    hm.index_eq h (List.getElem?_eq_getElem hsecond)]
  omega

theorem readable (hm : Meets pool id pages ending after) : ∀ page ∈ pages, page.Readable := by
  induction hm with
  | stopped pool id ending after hs => nofun
  | passed pool id frame read pages ending after hg hr hm ih =>
    exact List.forall_mem_cons.mpr ⟨hr, ih⟩

theorem exists_cons (hm : Meets pool id pages ending after)
    (hg : pool.getPage id = (.ok frame, read)) (hr : frame.page.Readable) :
    ∃ rest, pages = frame.page :: rest := by
  cases hm with
  | stopped pool id ending after hs =>
    exfalso
    cases hs with
    | missing e after herror hn => cases hg.symm.trans herror
    | denied e after herror hn => cases hg.symm.trans herror
    | broken other slot e after hother hb =>
      cases hg.symm.trans hother
      obtain ⟨found, hrow⟩ := hr slot hb.lt
      cases hrow.symm.trans hb.row_eq
  | passed pool id other left pages ending after hother hr hm =>
    cases hg.symm.trans hother
    exact ⟨pages, rfl⟩

theorem get_eq (hm : Meets pool id pages ending after) (h : pool.Ready settings)
    (hf : pool.Faithful) (hp : page ∈ pages) (slot : Nat) :
    (Heap.get after ⟨page.id, slot⟩).1 = page.row slot := by
  obtain ⟨hready, hretains, hpages⟩ := hm.retains h hf
  obtain ⟨frame, left, hg, hpage⟩ :=
    hready.getPage_of_page? hretains.faithful (hpages page hp)
  rw [Heap.get, hg, ← hpage]

/-- A row is among the entries if it is found on one of the pages, and no other is. -/
theorem mem_iff (hm : Meets pool (.ofIndex 0) pages ending after) (h : pool.Ready settings)
    (hf : pool.Faithful) (record : RecordId) (row : Row) :
    (record, row) ∈ pages.flatMap Page.entries ↔
      record.page.index < pages.length ∧ (Heap.get after record).1 = .ok (some row) := by
  have hindex : ∀ (index : Nat) (page : Page), pages[index]? = some page → page.id.index = index :=
    fun index page hp => (hm.index_eq h hp).trans (Nat.zero_add index)
  obtain ⟨id, slot⟩ := record
  constructor
  · intro hmem
    obtain ⟨page, hp, hentry⟩ := List.mem_flatMap.mp hmem
    obtain ⟨rfl, hrow⟩ := Page.mem_entries.mp hentry
    obtain ⟨index, hget⟩ := List.mem_iff_getElem?.mp hp
    refine ⟨?_, (hm.get_eq h hf hp slot).trans hrow⟩
    rw [hindex index page hget]
    exact (List.getElem?_eq_some_iff.mp hget).1
  · rintro ⟨hlt, hget⟩
    have hid := PageId.index_injective (hindex _ _ (List.getElem?_eq_getElem hlt))
    have hmem := List.getElem_mem hlt
    refine List.mem_flatMap.mpr ⟨_, hmem, Page.mem_entries.mpr ⟨hid.symm, ?_⟩⟩
    rw [← hm.get_eq h hf hmem slot, hid]
    exact hget

/-- What is read on the way and what is looked up behind it are the same. -/
theorem agrees (hm : Meets pool (.ofIndex 0) pages ending after) (h : pool.Ready settings)
    (hf : pool.Faithful) : Agrees pages after where
  increasing := hm.pairwise_entries h
  index_eq index page hp := (hm.index_eq h hp).trans (Nat.zero_add index)
  mem_iff := hm.mem_iff h hf
  exists_row page hp slot hlt hread := by
    obtain ⟨found, hrow⟩ := hm.readable page hp slot hlt
    cases found with
    | none => exact absurd (Page.row_eq_none_iff.mp hrow) hread
    | some row => exact ⟨row, List.mem_flatMap.mpr ⟨page, hp, Page.mem_entries.mpr ⟨rfl, hrow⟩⟩⟩
  deleted page hp slot hread :=
    (hm.get_eq h hf hp slot).trans (Page.row_eq_none_iff.mpr hread)

end Meets

/-- A scan of any data file agrees with looking its rows up. Whatever a pool has been through, as
long as no call of its store fails from then on and not all its frames are pinned, a scan passes
the pages up to the first that it is not given or that has a broken slot. It gives a row for each of
their slots that is not deleted, in the order of the ids and as looking it up after the scan gives
it, then the error that has stopped it, if it was one, and nothing more. -/
theorem take_run (hn : ∀ policy ∈ settings.policies, policy.IsNew)
    (hc : create settings store = .ok pool) (steps : List Step) (fails : Access → PageId → Bool)
    (hs : ((pool.run steps).failing fails).store.Reliable)
    (hfree : (pool.run steps).frames.size < settings.capacity ∨
      ∃ id, (pool.run steps).frames.Evictable id) :
    ∃ pages ending last final,
      Meets ((pool.run steps).failing fails) (.ofIndex 0) pages ending last ∧
      Gives ((pool.run steps).failing fails) (answers pages ending) final last ∧
      Agrees pages last := by
  have hregular := ((regular_of_create hn hc).run steps).failing fails
  have hspare : ((pool.run steps).failing fails).Spare :=
    spare_of_free (hregular.capacity ▸ hregular.size_le) (hregular.capacity ▸ hfree)
  have hready : ((pool.run steps).failing fails).Ready settings := ⟨hregular, hs, hspare⟩
  have hfaithful := ((faithful_of_create hc).run steps).failing fails
  obtain ⟨pages, ending, last, hm⟩ := exists_meets ((pool.run steps).failing fails) (.ofIndex 0)
  obtain ⟨final, hgives⟩ := hm.exists_gives hready
  exact ⟨pages, ending, last, final, hm, hgives, hm.agrees hready hfaithful⟩

/-- With all frames in use, but none of them pinned, the page with the row is passed. -/
theorem take_run_row :
    ∃ page pool, (Page.empty (.ofIndex 0)).append [1, 1, 0, 0, 0] = .ok (0, page) ∧
      create { capacity := 1, policies := [.clock .empty] } (.vacant ["data"]) = .ok pool ∧
      ∃ pages ending last final,
        Gives ((pool.run [{ operation := .update (.ofIndex 0) page }]).failing fun _ _ => false)
          (answers (page :: pages) ending) final last ∧
        (Heap.get last ⟨.ofIndex 0, 0⟩).1 = .ok (some [.int 1]) := by
  have hlength : [(1 : UInt8), 1, 0, 0, 0].length ≤ maxTupleSize := by decide
  have hencode : Row.encode [.int 1] = .ok [1, 1, 0, 0, 0] := rfl
  obtain ⟨page, hp⟩ := Page.append_empty (.ofIndex 0) hlength
  have hholds := ((Page.holds_empty (.ofIndex 0)).append hencode hp).2
  have hrow : page.row 0 = .ok (some [.int 1]) := hholds.row_eq rfl
  have hid : page.id = .ofIndex 0 := by
    obtain ⟨hfit, -, rfl⟩ := Page.append_eq_ok_iff.mp hp
    rfl
  let pool : Pool := ⟨.empty, ⟨.clock .empty, none⟩, .vacant ["data"], {}, 1, Nat.one_pos⟩
  let start : Pool := pool.enlist (Frame.fresh page (.ofIndex 0))
  let steps : List Step := [{ operation := .update (.ofIndex 0) page }]
  have hc : create { capacity := 1, policies := [.clock .empty] } (.vacant ["data"]) = .ok pool :=
    rfl
  have hupdate : pool.updatePage (.ofIndex 0) page = (.ok (), start) := by
    rw [updatePage, if_neg (by decide), if_neg (not_not_intro hid)]
    rfl
  have hstart : (pool.run steps).failing (fun _ _ => false) = start :=
    congrArg (fun result => result.2.failing fun _ _ => false) hupdate
  have hframes : (pool.run steps).frames = start.frames :=
    congrArg (fun result => result.2.frames) hupdate
  have hfind : start.frames.find? (.ofIndex 0) = some (Frame.fresh page (.ofIndex 0)) := rfl
  have hevictable : start.frames.Evictable (.ofIndex 0) :=
    ⟨_, hfind, Frame.not_isPinned_fresh page _⟩
  have ht : (start.store.volume.find start.store.path).target? = some ⟨0, ["data"]⟩ := rfl
  have hs : start.store.Reliable := .of_target? ht (fun _ => rfl) fun _ => rfl
  have hrun := take_run (by simp [Policy.IsNew]) hc steps (fun _ _ => false) (hstart ▸ hs)
    (Or.inr ⟨.ofIndex 0, hframes ▸ hevictable⟩)
  obtain ⟨pages, ending, last, final, hm, hgives, hagrees⟩ := hrun
  have hreadable : page.Readable := by
    intro slot hlt
    obtain rfl : slot = 0 := by
      rw [hholds.slotCount] at hlt
      exact Nat.lt_one_iff.mp hlt
    exact ⟨_, hrow⟩
  obtain ⟨frame, read, hg, hpage⟩ : ∃ frame read,
      start.getPage (.ofIndex 0) = (.ok frame, read) ∧ frame.page = page := ⟨_, _, rfl, rfl⟩
  rw [hstart] at hm
  obtain ⟨rest, rfl⟩ := hm.exists_cons hg (hpage ▸ hreadable)
  rw [hpage] at hgives hagrees
  refine ⟨page, pool, hp, hc, rest, ending, last, final, hgives, ?_⟩
  have hentry : (⟨.ofIndex 0, 0⟩, [.int 1]) ∈ page.entries :=
    Page.mem_entries.mpr ⟨hid.symm, hrow⟩
  exact ((hagrees.mem_iff _ _).mp (List.mem_append_left _ hentry)).2

end

end Scan

end PagedStorage
