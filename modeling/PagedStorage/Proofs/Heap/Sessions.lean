import PagedStorage.Proofs.Heap.Traversal
import PagedStorage.Proofs.Pool.Durability

namespace PagedStorage

/-- A table between two calls: a data file, or a pool over it and a handle. -/
inductive Table
  | closed (store : Store)
  | opened (pool : Pool) (heap : Heap)

namespace Table

open Pool

inductive Call
  /-- Begins a session. -/
  | start (settings : PoolSettings)
  /-- Writes all changes and, if that succeeds, ends the session. -/
  | close
  | insert (row : Row)
  | get (record : RecordId)
  /-- Scans the table for as many answers, or to the end. -/
  | scan (limit : Nat)
  /-- The same without record ids. -/
  | scanRows (limit : Nat)
  | request (request : Request)

/-- A call on a table, and the store calls that fail while it runs, none of which is made twice
(`asksOnce_run`). -/
structure Event where
  call : Call
  fails : Access → PageId → Bool := fun _ _ => false

def openWith (store : Store) (settings : PoolSettings) : Table :=
  match create settings store with
  | .error _ => closed store
  | .ok pool =>
    match Heap.load pool with
    | (.error _, pool) => closed pool.store
    | (.ok heap, pool) => opened pool heap

def serve (pool : Pool) (heap : Heap) : Call → Table
  | .start _ => opened pool heap
  | .close =>
    match pool.flushAll with
    | (.error _, pool) => opened pool heap
    | (.ok (), pool) => closed pool.store
  | .insert row => opened (heap.insert pool row).2.2 (heap.insert pool row).2.1
  | .get record => opened (Heap.get pool record).2 heap
  | .scan limit => opened (Scan.take {} pool limit).2.2 heap
  | .scanRows limit => opened (Scan.takeRows {} pool limit).2.2 heap
  | .request request => opened (pool.serve request).2 heap

def step : Table → Event → Table
  | closed store, ⟨.start settings, fails⟩ => openWith (store.failing fails) settings
  | closed store, _ => closed store
  | opened pool heap, ⟨call, fails⟩ => serve (pool.failing fails) heap call

def inserted : Table → Event → List (RecordId × Row)
  | opened pool heap, ⟨.insert row, fails⟩ =>
    match (heap.insert (pool.failing fails) row).1 with
    | .ok record => [(record, row)]
    | .error _ => []
  | _, _ => []

def run (table : Table) (events : List Event) : Table := events.foldl Table.step table

/-- The rows that a history adds with success, in the order in which they come. -/
def log (table : Table) : List Event → List (RecordId × Row)
  | [] => []
  | event :: events => table.inserted event ++ (table.step event).log events

def Keeps (pages : List (List Row)) : Table → Prop
  | closed store => store.Whole ∧ Heap.Laid store.page? pages
  | opened pool heap => heap.Stored pool pages

section

variable {pages : List (List Row)} {store : Store} {pool after : Pool} {heap : Heap}

theorem keeps_closed (hc : pool.Coherent) (hl : Heap.Laid pool.page? pages)
    (hd : ∀ id, ¬pool.frames.Dirty id) : (closed pool.store).Keeps pages :=
  ⟨hc.whole, hl.congr fun id => page?_of_not_dirty hc (hd id)⟩

theorem keeps_of_flushAll (h : heap.Stored pool pages) (hf : pool.flushAll = (.ok (), after)) :
    (closed after.store).Keeps pages := by
  have hafter := h.of_becomes (becomes_flushAll h.coherent hf)
  exact keeps_closed hafter.coherent hafter.laid (not_dirty_flushAll h.coherent hf)

theorem keeps_openWith (hw : store.Whole) (hl : Heap.Laid store.page? pages)
    (settings : PoolSettings) : (openWith store settings).Keeps pages := by
  unfold openWith
  split
  · exact ⟨hw, hl⟩
  · rename_i pool hcreate
    have hc := coherent_of_create hw hcreate
    have hlaid := hl.congr (page?_of_create hcreate)
    have hb := Heap.becomes_load hc
    split
    · rename_i e read hload
      rw [hload] at hb
      -- Looking for the heap has changed no page, so none is lost with the pool.
      exact keeps_closed hb.coherent (hlaid.congr hb.page?) fun id =>
        hb.not_dirty ((atRest_of_create hcreate).clean id)
    · rename_i heap read hload
      rw [hload] at hb
      exact ⟨Heap.load_ok hc hlaid hload, hb.coherent, hlaid.congr hb.page?⟩

theorem keeps_failing (h : heap.Stored pool pages) (fails : Access → PageId → Bool) :
    heap.Stored (pool.failing fails) pages := h.of_becomes (becomes_failing h.coherent fails)

/-- A call keeps the rows and adds the one that it inserts with success. -/
theorem keeps_step {table : Table} (h : table.Keeps pages) (event : Event) :
    ∃ pages', (table.step event).Keeps pages' ∧
      Heap.entriesFrom 0 pages' = Heap.entriesFrom 0 pages ++ table.inserted event := by
  obtain ⟨call, fails⟩ := event
  have hsame : ∀ {table' : Table}, table'.Keeps pages →
      ∃ pages', table'.Keeps pages' ∧
        Heap.entriesFrom 0 pages' = Heap.entriesFrom 0 pages ++ [] := by
    intro table' hkeeps
    exact ⟨pages, hkeeps, (List.append_nil _).symm⟩
  cases table with
  | closed store =>
    cases call with
    | start settings =>
      have hfile := Store.sameFile_failing store fails
      exact hsame (keeps_openWith (hfile.whole h.1) (h.2.congr hfile.page?) settings)
    -- Between sessions no other call finds a table.
    | close => exact hsame h
    | insert row => exact hsame h
    | get record => exact hsame h
    | scan limit => exact hsame h
    | scanRows limit => exact hsame h
    | request request => exact hsame h
  | opened pool heap =>
    have hf := keeps_failing h fails
    cases call with
    | start settings => exact hsame hf
    | close =>
      rw [step, serve]
      split
      · rename_i e left hflush
        exact hsame (hf.of_becomes (becomes_flushAll hf.coherent hflush))
      · rename_i left hflush
        exact hsame (keeps_of_flushAll hf hflush)
    | insert row =>
      rw [step, serve, inserted]
      rcases hi : heap.insert (pool.failing fails) row with ⟨answer, left, after⟩
      cases answer with
      | error e =>
        obtain ⟨rfl, hb⟩ := Heap.insert_error hf.coherent hi
        exact hsame (hf.of_becomes hb)
      | ok record => exact Heap.insert_ok hf hi
    | get record => exact hsame (hf.of_becomes (Heap.becomes_get hf.coherent record))
    | scan limit => exact hsame (hf.of_becomes (Scan.becomes_take hf.coherent {} limit))
    | scanRows limit => exact hsame (hf.of_becomes (Scan.becomes_takeRows hf.coherent {} limit))
    | request request => exact hsame (hf.of_becomes (becomes_serve hf.coherent request))

theorem keeps_run {table : Table} (h : table.Keeps pages) (events : List Event) :
    ∃ pages', (table.run events).Keeps pages' ∧
      Heap.entriesFrom 0 pages' = Heap.entriesFrom 0 pages ++ table.log events := by
  induction events generalizing table pages with
  | nil => exact ⟨pages, h, (List.append_nil _).symm⟩
  | cons event events ih =>
    obtain ⟨first, hfirst, hentry⟩ := keeps_step h event
    obtain ⟨last, hlast, hentries⟩ := ih hfirst
    refine ⟨last, hlast, ?_⟩
    rw [hentries, hentry, List.append_assoc, log]

theorem keeps_of_isMissing (h : store.IsMissing) : (closed store).Keeps [] := by
  refine ⟨Store.whole_of_isMissing h, nofun, Nat.zero_le _, fun id => ?_⟩
  rw [Store.page?_of_isMissing h]
  exact .none

/-- Over every history a table is the list of the rows that were inserted. An insert that fails
changes neither the last page nor any image. A scan ends, and if it does so without an error it has
given the inserted rows of all sessions in the order in which they came, each once and nothing else,
with their record ids if it was asked for these. A record id that is looked up with success gives
its row. And once all changes are written, a new session that finds a heap finds the one with this
last page. -/
theorem run_log (hm : store.IsMissing) (events : List Event)
    (hrun : (closed store).run events = opened pool heap) :
    heap.lastPage = ((closed store).log events).getLast?.map (fun entry => entry.1.page) ∧
    (∀ fails row e left after, heap.insert (pool.failing fails) row = (.error e, left, after) →
      left.lastPage = heap.lastPage ∧ ∀ id, after.page? id = pool.page? id) ∧
    (∀ fails limit,
      (Scan.take {} (pool.failing fails) limit).1.length ≤
        ((closed store).log events).length + 1 ∧
      ((Scan.take {} (pool.failing fails) limit).1.length < limit →
        (∀ answer ∈ (Scan.take {} (pool.failing fails) limit).1, answer.isOk = true) →
        (Scan.take {} (pool.failing fails) limit).1 = ((closed store).log events).map .ok)) ∧
    (∀ fails limit,
      (Scan.takeRows {} (pool.failing fails) limit).1.length ≤
        ((closed store).log events).length + 1 ∧
      ((Scan.takeRows {} (pool.failing fails) limit).1.length < limit →
        (∀ answer ∈ (Scan.takeRows {} (pool.failing fails) limit).1, answer.isOk = true) →
        (Scan.takeRows {} (pool.failing fails) limit).1 =
          ((closed store).log events).map fun entry => .ok entry.2)) ∧
    (∀ fails record row answer after, (record, row) ∈ (closed store).log events →
      Heap.get (pool.failing fails) record = (.ok answer, after) → answer = some row) ∧
    ∀ fails after, (pool.failing fails).flushAll = (.ok (), after) →
      ∀ settings fails' fresh left last,
        create settings (after.store.failing fails') = .ok fresh →
        Heap.load fresh = (.ok left, last) → left.lastPage = heap.lastPage := by
  obtain ⟨pages, hkeeps, hlog⟩ := keeps_run (keeps_of_isMissing hm) events
  rw [hrun] at hkeeps
  have hstored : heap.Stored pool pages := hkeeps
  have hentries : (closed store).log events = Heap.entriesFrom 0 pages := hlog.symm
  rw [hentries]
  refine ⟨?_, ?_, ?_, ?_, ?_, ?_⟩
  · rw [hstored.handle]
    exact Heap.lastPage_ofPages hstored.laid.nonempty
  · intro fails row e left after hi
    obtain ⟨rfl, hb⟩ := Heap.insert_error (keeps_failing hstored fails).coherent hi
    exact ⟨rfl, hb.page?⟩
  · intro fails limit
    have hf := keeps_failing hstored fails
    exact ⟨Scan.length_take_le hf.coherent hf.laid limit, Scan.take_eq_of_ended hf.coherent hf.laid⟩
  · intro fails limit
    have hf := keeps_failing hstored fails
    refine ⟨?_, Scan.takeRows_eq_of_ended hf.coherent hf.laid⟩
    rw [Scan.takeRows_eq, List.length_map]
    exact Scan.length_take_le hf.coherent hf.laid limit
  · intro fails record row answer after hmem hg
    exact Heap.get_ok (keeps_failing hstored fails) hmem hg
  · intro fails after hflush settings fails' fresh left last hcreate hload
    have hf := keeps_failing hstored fails
    obtain ⟨hw, hl⟩ := keeps_of_flushAll hf hflush
    have hfile := Store.sameFile_failing after.store fails'
    have hc := coherent_of_create (hfile.whole hw) hcreate
    have hlaid := (hl.congr hfile.page?).congr (page?_of_create hcreate)
    rw [Heap.load_ok hc hlaid hload, hstored.handle]

/-- A row that went to a vacant file is there in the state that the history leaves. -/
theorem run_log_inserted :
    ∃ pool heap,
      (closed (.vacant ["data"])).run [{ call := .start (.dual 1 (.lru .empty) (.clock .empty)) },
        { call := .insert [.int 1] }] = opened pool heap ∧
      heap.lastPage = some (.ofIndex 0) ∧
      (∀ fails, (∀ answer ∈ (Scan.takeRows {} (pool.failing fails) 3).1, answer.isOk = true) →
        (Scan.takeRows {} (pool.failing fails) 3).1 = [.ok [.int 1]]) ∧
      ∀ fails answer after, Heap.get (pool.failing fails) ⟨.ofIndex 0, 0⟩ = (.ok answer, after) →
        answer = some [.int 1] := by
  have hlength : [(1 : UInt8), 1, 0, 0, 0].length ≤ maxTupleSize := by decide
  have hencode : Row.encode [.int 1] = .ok [1, 1, 0, 0, 0] := rfl
  obtain ⟨page, hp⟩ := Page.append_empty (.ofIndex 0) hlength
  let pool : Pool :=
    ⟨.empty, ⟨.lru .empty, some (.clock .empty)⟩, .vacant ["data"], {}, 1, Nat.one_pos⟩
  let loaded : Pool := (pool.getPage (.ofIndex 0)).2
  let left : Pool := loaded.enlist (Frame.fresh page (.ofIndex 0))
  have hload : Heap.load pool = (.ok ⟨none⟩, loaded) := Heap.probe_of_isNotFound rfl rfl
  have hstart : (closed (.vacant ["data"])).step
      { call := .start (.dual 1 (.lru .empty) (.clock .empty)) } = opened loaded ⟨none⟩ := by
    show (match Heap.load pool with
      | (.error _, pool) => closed pool.store
      | (.ok heap, pool) => opened pool heap) = _
    rw [hload]
  have hupdate : loaded.updatePage (.ofIndex 0) page = (.ok (), left) := by
    have hpage : page.id = .ofIndex 0 := by
      obtain ⟨hfit, -, rfl⟩ := Page.append_eq_ok_iff.mp hp
      rfl
    rw [updatePage, if_neg (by decide), if_neg (not_not_intro hpage)]
    rfl
  have hinsert : Heap.insert ⟨none⟩ (loaded.failing fun _ _ => false) [.int 1] =
      (.ok ⟨.ofIndex 0, 0⟩, ⟨some (.ofIndex 0)⟩, left) := by
    have hid : Heap.newPage ⟨none⟩ = .ofIndex 0 := rfl
    show Heap.insert ⟨none⟩ loaded [.int 1] = _
    simp only [Heap.insert, hencode, if_pos hlength, Heap.insertBytes, Heap.insertOnNewPage, hid,
      hp, hupdate]
  have hrun : (closed (.vacant ["data"])).run
      [{ call := .start (.dual 1 (.lru .empty) (.clock .empty)) }, { call := .insert [.int 1] }] =
        opened left ⟨some (.ofIndex 0)⟩ := by
    rw [run, List.foldl_cons, List.foldl_cons, hstart, step, serve, hinsert]
    rfl
  have hlog : (closed (.vacant ["data"])).log
      [{ call := .start (.dual 1 (.lru .empty) (.clock .empty)) }, { call := .insert [.int 1] }] =
        [(⟨.ofIndex 0, 0⟩, [.int 1])] := by
    simp only [log, hstart, inserted, hinsert, List.nil_append, List.append_nil]
  obtain ⟨hlast, -, -, hrows, hget, -⟩ := run_log (Store.isMissing_vacant ["data"]) _ hrun
  rw [hlog] at hlast hrows hget
  refine ⟨left, ⟨some (.ofIndex 0)⟩, hrun, hlast, ?_, ?_⟩
  · intro fails hok
    obtain ⟨hlength, hgiven⟩ := hrows fails 3
    exact hgiven (Nat.lt_succ_of_le hlength) hok
  · intro fails answer after
    exact hget fails _ _ answer after (List.mem_singleton_self _)

end

end Table

end PagedStorage
