import PagedStorage.Proofs.Heap.Shows
import PagedStorage.Proofs.Pool.Failure

namespace PagedStorage

open Pool

namespace Heap

inductive Query
  | insert (row : Row)
  | get (record : RecordId)
  /-- Scans the table from the beginning for as many answers, or to the end. -/
  | scan (limit : Nat)
  /-- The same without record ids. -/
  | scanRows (limit : Nat)

inductive Answer
  | inserted (answer : Except StorageError RecordId)
  | found (answer : Except StorageError (Option Row))
  | scanned (answers : List (Except StorageError (RecordId × Row)))
  | scannedRows (answers : List (Except StorageError Row))

inductive Task
  | ask (query : Query)
  | flush (id : PageId)
  | upkeep (pass : MaintenancePass)

def Task.query? : Task → Option Query
  | .ask query => some query
  | _ => none

def ask (heap : Heap) (pool : Pool) : Query → Answer × Heap × Pool
  | .insert row => (.inserted (heap.insert pool row).1, (heap.insert pool row).2)
  | .get record => (.found (get pool record).1, heap, (get pool record).2)
  | .scan limit => (.scanned (Scan.take {} pool limit).1, heap, (Scan.take {} pool limit).2.2)
  | .scanRows limit =>
    (.scannedRows (Scan.takeRows {} pool limit).1, heap, (Scan.takeRows {} pool limit).2.2)

def session (heap : Heap) (pool : Pool) : List Task → List Answer × Heap × Pool
  | [] => ([], heap, pool)
  | .ask query :: tasks =>
    let (answer, heap, pool) := heap.ask pool query
    let (answers, heap, pool) := heap.session pool tasks
    (answer :: answers, heap, pool)
  | .flush id :: tasks => heap.session (pool.flushPage id).2 tasks
  | .upkeep pass :: tasks => heap.session (pool.runPass pass) tasks

end Heap

namespace Pages

def ask (pages : Pages) (heap : Heap) : Heap.Query → Heap.Answer × Heap × Pages
  | .insert row => (.inserted (pages.insert heap row).1, (pages.insert heap row).2)
  | .get record => (.found (pages.get record), heap, pages)
  | .scan limit => (.scanned ((pages.ahead {}).take limit), heap, pages)
  | .scanRows limit =>
    (.scannedRows (((pages.ahead {}).map (Except.map Prod.snd)).take limit), heap, pages)

def session (pages : Pages) (heap : Heap) : List Heap.Query → List Heap.Answer × Heap × Pages
  | [] => ([], heap, pages)
  | query :: queries =>
    let (answer, heap, pages) := pages.ask heap query
    let (answers, heap, pages) := pages.session heap queries
    (answer :: answers, heap, pages)

end Pages

namespace Pool

section

variable {settings settings' : PoolSettings} {start : Store} {pages : Pages}
  {pool pool' after : Pool} {heap left : Heap}

theorem ask_of_shows (h : pool.Shows settings start pages) (hh : heap.pageCount ≤ pages.length)
    {query : Heap.Query} {answer : Heap.Answer} (ha : heap.ask pool query = (answer, left, after)) :
    ∃ pages', pages.ask heap query = (answer, left, pages') ∧
      after.Shows settings start pages' ∧ left.pageCount ≤ pages'.length := by
  cases query with
  | insert row =>
    rcases hi : heap.insert pool row with ⟨done, further, room⟩
    obtain ⟨pages', hpages, hafter⟩ := insert_of_shows h hh hi
    have hcount := (Pages.length_insert hh h.length_le hpages).2
    rw [Heap.ask, hi] at ha
    cases ha
    rw [Pages.ask, hpages]
    exact ⟨pages', rfl, hafter, hcount⟩
  | get record =>
    obtain ⟨hanswer, hafter⟩ := get_of_shows h record
    cases ha
    rw [Pages.ask, ← hanswer]
    exact ⟨pages, rfl, hafter, hh⟩
  | scan limit =>
    obtain ⟨hanswer, hafter⟩ := take_of_shows h {} limit
    cases ha
    rw [Pages.ask, ← hanswer]
    exact ⟨pages, rfl, hafter, hh⟩
  | scanRows limit =>
    obtain ⟨hanswer, hafter⟩ := takeRows_of_shows h {} limit
    cases ha
    rw [Pages.ask, ← hanswer]
    exact ⟨pages, rfl, hafter, hh⟩

theorem session_of_shows (h : pool.Shows settings start pages)
    (hh : heap.pageCount ≤ pages.length) (tasks : List Heap.Task) :
    ∃ pages',
      pages.session heap (tasks.filterMap Heap.Task.query?) =
        ((heap.session pool tasks).1, (heap.session pool tasks).2.1, pages') ∧
      (heap.session pool tasks).2.2.Shows settings start pages' := by
  induction tasks generalizing heap pool pages with
  | nil => exact ⟨pages, rfl, h⟩
  | cons task tasks ih =>
    cases task with
    | ask query =>
      rcases ha : heap.ask pool query with ⟨answer, further, read⟩
      obtain ⟨middle, hmiddle, hread, hcount⟩ := ask_of_shows h hh ha
      obtain ⟨pages', hrest, hlast⟩ := ih hread hcount
      refine ⟨pages', ?_, ?_⟩
      · rw [Heap.session, ha]
        show pages.session heap (query :: tasks.filterMap Heap.Task.query?) = _
        rw [Pages.session, hmiddle]
        dsimp only
        rw [hrest]
      · rw [Heap.session, ha]
        exact hlast
    | flush id => exact ih (flushPage_of_shows h id) hh
    | upkeep pass => exact ih (runPass_of_shows h pass) hh

theorem block?_of_shows (h : pool.Shows settings start pages) (hd : ∀ id, ¬pool.frames.Dirty id)
    {index : Nat} {page : Page} (hp : pages[index]? = some page) :
    pool.store.contents.block? index = some page.image := by
  obtain ⟨hindex, hvalid⟩ := Pages.isValid_of_getElem? h.length_le hp
  have hread := h.presents.stored _ hvalid (hd _)
  rw [Pages.lookUp_eq_ok_iff.mpr (hindex.symm ▸ hp)] at hread
  have hplace := (DataFile.block?_of_read_ok hread).2
  rwa [hindex] at hplace

theorem file?_of_shows (h : pool.Shows settings start pages) (hd : ∀ id, ¬pool.frames.Dirty id)
    (hne : 0 < pages.length) : pool.store.file? = some pool.store.contents := by
  have hfirst := block?_of_shows h hd (List.getElem?_eq_getElem hne)
  rw [Store.contents] at hfirst ⊢
  cases hf : pool.store.file? with
  | some file => rfl
  | none =>
    rw [hf] at hfirst
    cases hfirst

/-- Once all changes are written, the file depends on the pages alone and on what it was. -/
theorem map_toBytes_of_shows (h : pool.Shows settings start pages)
    (h' : pool'.Shows settings' start pages) (hd : ∀ id, ¬pool.frames.Dirty id)
    (hd' : ∀ id, ¬pool'.frames.Dirty id) :
    pool.store.file?.map DataFile.toBytes = pool'.store.file?.map DataFile.toBytes := by
  rcases Nat.eq_zero_or_pos pages.length with hempty | hne
  · -- Nothing was ever written, so the file is what it was, or is missing as it was.
    rw [h.presents.untouched hempty, h'.presents.untouched hempty]
  · rw [file?_of_shows h hd hne, file?_of_shows h' hd' hne, Option.map_some, Option.map_some]
    refine congrArg some (h.presents.grown.toBytes_eq h'.presents.grown ?_)
    intro index hlt
    have hpage := List.getElem?_eq_getElem hlt
    exact ⟨_, block?_of_shows h hd hpage, block?_of_shows h' hd' hpage⟩

end

section

variable {settings settings' : PoolSettings} {store : Store} {pool pool' opened : Pool}
  {heap : Heap}

/-- Take any file in which a table is found and any two pools over it whose stores work. Both find
the same table. If they are asked the same then they answer the same, and come to the same last
page, whichever pages are written in between and when; and once all changes are written the two
files have the same bytes. -/
theorem session_eq (hr : store.volume.Reveals store.path) (hs : store.Reliable)
    (hn : ∀ policy ∈ settings.policies, policy.IsNew)
    (hn' : ∀ policy ∈ settings'.policies, policy.IsNew)
    (hc : create settings store = .ok pool) (hc' : create settings' store = .ok pool')
    (hl : Heap.load pool = (.ok heap, opened)) :
    ∃ opened', Heap.load pool' = (.ok heap, opened') ∧
      ∀ tasks tasks' : List Heap.Task,
        tasks.filterMap Heap.Task.query? = tasks'.filterMap Heap.Task.query? →
        (heap.session opened tasks).1 = (heap.session opened' tasks').1 ∧
        (heap.session opened tasks).2.1 = (heap.session opened' tasks').2.1 ∧
        ∃ last last', (heap.session opened tasks).2.2.flushAll = (.ok (), last) ∧
          (heap.session opened' tasks').2.2.flushAll = (.ok (), last') ∧
          last.store.file?.map DataFile.toBytes = last'.store.file?.map DataFile.toBytes := by
  obtain ⟨pages, opened', hl', hlength, hshows, hshows'⟩ :=
    shows_of_load (presents_of_create hr hc) (ready_of_create hn hs hc)
      (presents_of_create hr hc') (ready_of_create hn' hs hc') hl
  refine ⟨opened', hl', fun tasks tasks' hqueries => ?_⟩
  obtain ⟨left, hleft, hend⟩ := session_of_shows hshows hlength.ge tasks
  obtain ⟨left', hleft', hend'⟩ := session_of_shows hshows' hlength.ge tasks'
  rw [hqueries, hleft'] at hleft
  obtain ⟨hanswers, hrest⟩ := Prod.mk.inj hleft
  obtain ⟨hhandle, rfl⟩ := Prod.mk.inj hrest
  rcases hf : (heap.session opened tasks).2.2.flushAll with ⟨done, last⟩
  rcases hf' : (heap.session opened' tasks').2.2.flushAll with ⟨done', last'⟩
  obtain ⟨rfl, hlast⟩ := flushAll_of_shows hend hf
  obtain ⟨rfl, hlast'⟩ := flushAll_of_shows hend' hf'
  refine ⟨hanswers.symm, hhandle.symm, last, last', rfl, rfl,
    map_toBytes_of_shows hlast hlast' ?_ ?_⟩
  · exact not_dirty_of_flushAll hend.ready.regular.owned hf
  · exact not_dirty_of_flushAll hend'.ready.regular.owned hf'

/-- One pool has room for one page and writes it at once, the other has room for two and waits. -/
theorem session_eq_checkpoint :
    ∃ pool pool' opened opened',
      create { capacity := 1, policies := [.clock .empty] } (.vacant ["data"]) = .ok pool ∧
      create (.dual 2 (.lru .empty) (.clock .empty)) (.vacant ["data"]) = .ok pool' ∧
      Heap.load pool = (.ok ⟨none⟩, opened) ∧ Heap.load pool' = (.ok ⟨none⟩, opened') ∧
      (Heap.session ⟨none⟩ opened [.ask (.insert [.int 1]), .upkeep .checkpoint,
          .ask (.scan 2)]).1 =
        (Heap.session ⟨none⟩ opened' [.ask (.insert [.int 1]), .ask (.scan 2)]).1 := by
  obtain ⟨pool, hc⟩ : ∃ pool,
      create { capacity := 1, policies := [.clock .empty] } (.vacant ["data"]) = .ok pool :=
    ⟨_, rfl⟩
  obtain ⟨pool', hc'⟩ : ∃ pool',
      create (.dual 2 (.lru .empty) (.clock .empty)) (.vacant ["data"]) = .ok pool' := ⟨_, rfl⟩
  have ht : ((Store.vacant ["data"]).volume.find ["data"]).target? = some ⟨0, ["data"]⟩ := rfl
  have hs : (Store.vacant ["data"]).Reliable := .of_target? ht (fun _ => rfl) fun _ => rfl
  have hn : ∀ policy ∈ ({ capacity := 1, policies := [.clock .empty] } : PoolSettings).policies,
      policy.IsNew := by
    simp [Policy.IsNew]
  have hn' : ∀ policy ∈ (PoolSettings.dual 2 (.lru .empty) (.clock .empty)).policies,
      policy.IsNew := by
    simp [PoolSettings.dual, Policy.IsNew]
  obtain ⟨opened, hl⟩ : ∃ opened, Heap.load pool = (.ok ⟨none⟩, opened) := by
    cases hc
    exact ⟨_, Heap.probe_of_isNotFound rfl rfl⟩
  obtain ⟨opened', hl', hsame⟩ :=
    session_eq (Store.whole_vacant ["data"]).revealed hs hn hn' hc hc' hl
  have hanswers := hsame
    [.ask (.insert [.int 1]), .upkeep .checkpoint, .ask (.scan 2)]
    [.ask (.insert [.int 1]), .ask (.scan 2)] rfl
  exact ⟨pool, pool', opened, opened', hc, hc', hl, hl', hanswers.1⟩

end

end Pool

end PagedStorage
