import PagedStorage.Proofs.Heap.Growth
import PagedStorage.Proofs.Heap.Shows

namespace PagedStorage

open Pool

/-- A pool with the handles of those who share it. -/
structure Shared (Holder : Type) where
  pool : Pool
  handle : Holder → Heap

namespace Shared

inductive Turn (Holder : Type)
  | insert (holder : Holder) (row : Row)
  | get (record : RecordId)
  | scan (limit : Nat)
  | scanRows (limit : Nat)
  /-- The holder looks for the table again. -/
  | reopen (holder : Holder)
  /-- The target goes on with a copy of the handle that the source has. -/
  | copy (source target : Holder)
  | flush (id : PageId)
  | upkeep (pass : MaintenancePass)

section

variable {Holder : Type}

def common (pool : Pool) (heap : Heap) : Shared Holder := ⟨pool, fun _ => heap⟩

def inserted (shared : Shared Holder) : Turn Holder → List (RecordId × Row)
  | .insert holder row =>
    match ((shared.handle holder).insert shared.pool row).1 with
    | .ok record => [(record, row)]
    | .error _ => []
  | _ => []

/-- An insert goes to the last page that its handle knows, or to one that the table does not have
yet. -/
def Appends (shared : Shared Holder) : Turn Holder → Prop
  | .insert holder row =>
    ∀ record, ((shared.handle holder).insert shared.pool row).1 = .ok record →
      (shared.handle holder).lastPage = some record.page ∨ shared.pool.page? record.page = none
  | _ => True

variable [DecidableEq Holder]

def give (shared : Shared Holder) (holder : Holder) (heap : Heap) : Shared Holder :=
  { shared with handle := Function.update shared.handle holder heap }

def step (shared : Shared Holder) : Turn Holder → Shared Holder
  | .insert holder row =>
    let (_, heap, pool) := (shared.handle holder).insert shared.pool row
    { shared with pool }.give holder heap
  | .get record => { shared with pool := (Heap.get shared.pool record).2 }
  | .scan limit => { shared with pool := (Scan.take {} shared.pool limit).2.2 }
  | .scanRows limit => { shared with pool := (Scan.takeRows {} shared.pool limit).2.2 }
  | .reopen holder =>
    match Heap.load shared.pool with
    | (.error _, pool) => { shared with pool }
    | (.ok heap, pool) => { shared with pool }.give holder heap
  | .copy source target => shared.give target (shared.handle source)
  | .flush id => { shared with pool := (shared.pool.flushPage id).2 }
  | .upkeep pass => { shared with pool := shared.pool.runPass pass }

def run (shared : Shared Holder) (turns : List (Turn Holder)) : Shared Holder :=
  turns.foldl step shared

/-- The rows that the turns add with success, in the order in which they come. -/
def log (shared : Shared Holder) : List (Turn Holder) → List (RecordId × Row)
  | [] => []
  | turn :: turns => shared.inserted turn ++ (shared.step turn).log turns

def AllAppend (shared : Shared Holder) : List (Turn Holder) → Prop
  | [] => True
  | turn :: turns => shared.Appends turn ∧ (shared.step turn).AllAppend turns

variable {shared : Shared Holder} {turn : Turn Holder} {turns : List (Turn Holder)}

theorem handle_give (holder : Holder) (heap : Heap) :
    (shared.give holder heap).handle holder = heap := Function.update_self _ _ _

theorem run_nil : shared.run [] = shared := rfl

theorem run_cons : shared.run (turn :: turns) = (shared.step turn).run turns := rfl

end

/-- The pool shows these pages, and no handle knows of a page that is not among them. -/
structure Shows {Holder : Type} (settings : PoolSettings) (store : Store) (pages : Pages)
    (shared : Shared Holder) : Prop where
  pool : shared.pool.Shows settings store pages
  known : ∀ holder, (shared.handle holder).pageCount ≤ pages.length

section

variable {Holder : Type} {settings : PoolSettings} {store : Store} {pages : Pages}
  {shared : Shared Holder} {pool : Pool} {heap : Heap} {holder : Holder} {row : Row}

theorem Shows.withPool (h : shared.Shows settings store pages)
    (hp : pool.Shows settings store pages) :
    ({ shared with pool } : Shared Holder).Shows settings store pages := ⟨hp, h.known⟩

/-- A handle that knows all pages starts none that is there. -/
theorem appends_of_current (h : shared.Shows settings store pages)
    (hcurrent : (shared.handle holder).pageCount = pages.length) :
    shared.Appends (.insert holder row) := by
  intro record hrecord
  rcases hi : (shared.handle holder).insert shared.pool row with ⟨answer, left, after⟩
  rw [hi] at hrecord
  cases hrecord
  obtain ⟨pages', hpages, -⟩ := insert_of_shows h.pool (h.known holder) hi
  cases Pages.insert_outcome hpages with
  | added last page after bytes slot hlast hpage hv he ha => exact .inl hlast
  | started after bytes slot hv he ha =>
    have hindex := Heap.index_newPage (hcurrent.trans_le h.pool.length_le)
    refine .inr ?_
    rw [page?_of_shows h.pool hv, hindex, hcurrent]
    exact List.getElem?_eq_none le_rfl

variable [DecidableEq Holder]

theorem Shows.give (h : shared.Shows settings store pages) (holder : Holder)
    (hh : heap.pageCount ≤ pages.length) :
    (shared.give holder heap).Shows settings store pages := by
  refine ⟨h.pool, fun other => ?_⟩
  show (Function.update shared.handle holder heap other).pageCount ≤ pages.length
  rw [Function.update_apply]
  split
  · exact hh
  · exact h.known other

/-- An insert is told by the pages alone. -/
theorem Shows.insert (h : shared.Shows settings store pages) (holder : Holder)
    {answer : Except StorageError RecordId} {left : Heap} {after : Pages}
    (hi : pages.insert (shared.handle holder) row = (answer, left, after)) :
    ((shared.handle holder).insert shared.pool row).1 = answer ∧
      (shared.step (.insert holder row)).handle = Function.update shared.handle holder left ∧
      (shared.step (.insert holder row)).Shows settings store after := by
  rcases hp : (shared.handle holder).insert shared.pool row with ⟨answer', left', read⟩
  obtain ⟨pages', hpages, hread⟩ := insert_of_shows h.pool (h.known holder) hp
  cases hi.symm.trans hpages
  obtain ⟨hlength, hleft⟩ := Pages.length_insert (h.known holder) h.pool.length_le hi
  have hshows : ({ shared with pool := read } : Shared Holder).Shows settings store after :=
    ⟨hread, fun other => (h.known other).trans hlength⟩
  rw [step, hp]
  exact ⟨rfl, rfl, hshows.give holder hleft⟩

/-- A turn that starts no page anew adds the row that it inserts, if it inserts one. -/
theorem grows_step (h : shared.Shows settings store pages) {turn : Turn Holder}
    (ha : shared.Appends turn) :
    ∃ pages', pages.Grows (shared.inserted turn) pages' ∧
      (shared.step turn).Shows settings store pages' := by
  cases turn with
  | insert holder row =>
    rcases hi : pages.insert (shared.handle holder) row with ⟨answer, left, after⟩
    obtain ⟨hanswer, -, hnext⟩ := h.insert holder hi
    refine ⟨after, ?_, hnext⟩
    rw [inserted, hanswer]
    cases answer with
    | error e =>
      cases Pages.insert_outcome hi with
      | refused e => exact .done pages
    | ok record =>
      have hplace := ha record hanswer
      rw [page?_of_shows h.pool (Pages.isValid_of_insert hi)] at hplace
      exact .more (Pages.adds_of_insert (h.known holder) h.pool.length_le hi hplace) (.done after)
  | get record => exact ⟨pages, .done pages, h.withPool (get_of_shows h.pool record).2⟩
  | scan limit => exact ⟨pages, .done pages, h.withPool (take_of_shows h.pool {} limit).2⟩
  | scanRows limit => exact ⟨pages, .done pages, h.withPool (takeRows_of_shows h.pool {} limit).2⟩
  | reopen holder =>
    refine ⟨pages, .done pages, ?_⟩
    rw [step]
    split
    · rename_i e after hl
      exact h.withPool (load_of_shows h.pool hl).2
    · rename_i heap after hl
      obtain ⟨hcount, hafter⟩ := load_of_shows h.pool hl
      exact (h.withPool hafter).give holder (hcount heap rfl).le
  | copy source target => exact ⟨pages, .done pages, h.give target (h.known source)⟩
  | flush id => exact ⟨pages, .done pages, h.withPool (flushPage_of_shows h.pool id)⟩
  | upkeep pass => exact ⟨pages, .done pages, h.withPool (runPass_of_shows h.pool pass)⟩

theorem grows_run (h : shared.Shows settings store pages) {turns : List (Turn Holder)}
    (ha : shared.AllAppend turns) :
    ∃ pages', pages.Grows (shared.log turns) pages' ∧
      (shared.run turns).Shows settings store pages' := by
  induction turns generalizing shared pages with
  | nil => exact ⟨pages, .done pages, h⟩
  | cons turn turns ih =>
    obtain ⟨first, hfirst, hnext⟩ := grows_step h ha.1
    obtain ⟨last, hlast, hrun⟩ := ih hnext ha.2
    exact ⟨last, hfirst.trans hlast, hrun⟩

theorem legible_of_store (h : pool.Shows settings store pages)
    (hlookUp : pages.lookUp = store.contents.read)
    (hl : ∀ id page, store.page? id = some page → page.Legible) : pages.Legible := by
  intro page hmem
  obtain ⟨index, hpage⟩ := List.mem_iff_getElem?.mp hmem
  obtain ⟨hindex, hvalid⟩ := Pages.isValid_of_getElem? h.length_le hpage
  refine hl (.ofIndex index) page ?_
  rw [Store.page?_eq_toOption hvalid, ← hlookUp, Pages.lookUp, hindex, hpage]
  rfl

end

/-- A file that is missing is an empty table. -/
theorem exists_opened_vacant :
    ∃ pool opened,
      create { capacity := 4, policies := [.clock .empty] } (.vacant ["data"]) = .ok pool ∧
      Heap.load pool = (.ok ⟨none⟩, opened) ∧ (Store.vacant ["data"]).Reliable ∧
      (common opened ⟨none⟩ : Shared Bool).Shows { capacity := 4, policies := [.clock .empty] }
        (.vacant ["data"]) [] := by
  obtain ⟨pool, hc⟩ : ∃ pool,
      create { capacity := 4, policies := [.clock .empty] } (.vacant ["data"]) = .ok pool :=
    ⟨_, rfl⟩
  obtain ⟨opened, hl⟩ : ∃ opened, Heap.load pool = (.ok ⟨none⟩, opened) := by
    cases hc
    exact ⟨_, Heap.probe_of_isNotFound rfl rfl⟩
  have ht : ((Store.vacant ["data"]).volume.find ["data"]).target? = some ⟨0, ["data"]⟩ := rfl
  have hs : (Store.vacant ["data"]).Reliable := .of_target? ht (fun _ => rfl) fun _ => rfl
  have hready := ready_of_create (by simp [Policy.IsNew]) hs hc
  obtain ⟨pages, hlength, -, hshows⟩ :=
    exists_pages_of_load (presents_of_create (Store.whole_vacant ["data"]).revealed hc) hready hl
  cases List.length_eq_zero_iff.mp hlength
  exact ⟨pool, opened, hc, hl, hs, hshows, fun _ => le_rfl⟩

section

variable {Holder : Type} [DecidableEq Holder] {settings : PoolSettings} {store : Store}
  {pool opened : Pool} {heap : Heap}

/-- Take any file in which a table is found, and any number of handles on it. If no insert starts a
page that the table has, then no record id is given twice, each row that was inserted is read under
its own, and a scan finds each of them once. The table may have pages that cannot be read in full,
and a scan that meets one ends in an error; if it has none then a scan finds the rows that it would
have found at the beginning and those that were inserted. -/
theorem log_kept (hr : store.volume.Reveals store.path) (hs : store.Reliable)
    (hn : ∀ policy ∈ settings.policies, policy.IsNew) (hc : create settings store = .ok pool)
    (hl : Heap.load pool = (.ok heap, opened)) (turns : List (Turn Holder))
    (ha : (common opened heap).AllAppend turns) :
    (((common opened heap).log turns).map Prod.fst).Nodup ∧
    (∀ record row, (record, row) ∈ (common opened heap).log turns →
      (Heap.get ((common opened heap).run turns).pool record).1 = .ok (some row)) ∧
    ∃ answers : List (Except StorageError (RecordId × Row)),
      (∀ limit, (Scan.take {} ((common opened heap).run turns).pool limit).1 =
        answers.take limit) ∧
      (∀ limit, (Scan.takeRows {} ((common opened heap).run turns).pool limit).1 =
        (answers.map (Except.map Prod.snd)).take limit) ∧
      ((answers.filterMap Except.toOption).map Prod.fst).Nodup ∧
      ((∀ answer ∈ answers, answer.isOk = true) →
        ∀ entry ∈ (common opened heap).log turns, .ok entry ∈ answers) ∧
      ((∀ id page, store.page? id = some page → page.Legible) →
        ∃ known : List (Except StorageError (RecordId × Row)),
          (∀ limit, (Scan.take {} opened limit).1 = known.take limit) ∧
          (answers.filterMap Except.toOption).Perm
            (known.filterMap Except.toOption ++ (common opened heap).log turns)) := by
  obtain ⟨pages, hlength, hlookUp, hopened⟩ :=
    exists_pages_of_load (presents_of_create hr hc) (ready_of_create hn hs hc) hl
  have hstart : (common opened heap : Shared Holder).Shows settings store pages :=
    ⟨hopened, fun _ => hlength.ge⟩
  obtain ⟨last, hgrows, hlast⟩ := grows_run hstart ha
  have hbound : 0 + last.length ≤ 4294967295 := by
    rw [Nat.zero_add]
    exact hlast.pool.length_le
  refine ⟨hgrows.nodup, ?_, Pages.answersFrom 0 last, ?_, ?_, Pages.nodup_rowsFrom hbound, ?_, ?_⟩
  · intro record row hmem
    rw [(get_of_shows hlast.pool record).1]
    exact Pages.get_of_keeps (hgrows.keeps_of_mem hmem) hlast.pool.length_le
  · exact fun limit => (take_of_shows hlast.pool {} limit).1
  · exact fun limit => (takeRows_of_shows hlast.pool {} limit).1
  · rintro hok ⟨record, row⟩ hmem
    obtain ⟨page, hpage, hrow⟩ := hgrows.keeps_of_mem hmem
    have hfound := Pages.mem_answersFrom hok hpage hrow
    rwa [Nat.zero_add, PageId.ofIndex_index] at hfound
  · intro hlegible
    exact ⟨Pages.answersFrom 0 pages, fun limit => (take_of_shows hopened {} limit).1,
      hgrows.perm_rowsFrom (legible_of_store hopened hlookUp hlegible)⟩

/-- A copy of a handle goes on where the other has come to. -/
theorem log_kept_copy :
    ∃ pool opened,
      create { capacity := 4, policies := [.clock .empty] } (.vacant ["data"]) = .ok pool ∧
      Heap.load pool = (.ok ⟨none⟩, opened) ∧
      (common opened ⟨none⟩).AllAppend
        [.insert false [.int 1], .copy false true, .insert true [.int 2]] ∧
      (Heap.get ((common opened ⟨none⟩).run
        [.insert false [.int 1], .copy false true, .insert true [.int 2]]).pool
          ⟨.ofIndex 0, 0⟩).1 = .ok (some [.int 1]) := by
  obtain ⟨pool, opened, hc, hl, hs, hstart⟩ := exists_opened_vacant
  have hencode : Row.encode [.int 1] = .ok [1, 1, 0, 0, 0] := rfl
  obtain ⟨page, -, hinsert⟩ := Pages.insert_of_none hencode (by decide)
  obtain ⟨hanswer, hhandle, hfirst⟩ := hstart.insert false (hinsert [])
  have hsource : ((common opened ⟨none⟩).step (.insert false [.int 1])).handle false =
      ⟨some (.ofIndex 0)⟩ := by
    rw [hhandle]
    rfl
  have hcopied : (((common opened ⟨none⟩).step (.insert false [.int 1])).step
      (.copy false true)).handle true = ⟨some (.ofIndex 0)⟩ := (handle_give _ _).trans hsource
  have happend : (common opened ⟨none⟩).AllAppend
      [.insert false [.int 1], .copy false true, .insert true [.int 2]] := by
    have hcopy := hfirst.give true (hfirst.known false)
    refine ⟨appends_of_current hstart rfl, trivial, appends_of_current hcopy ?_, trivial⟩
    have hcount : Heap.pageCount ⟨some (.ofIndex 0)⟩ = 1 :=
      congrArg Nat.succ (PageId.index_ofIndex (by decide))
    rw [hcopied, hcount]
    rfl
  obtain ⟨-, hget, -⟩ :=
    log_kept (Store.whole_vacant ["data"]).revealed hs (by simp [Policy.IsNew]) hc hl _ happend
  refine ⟨pool, opened, hc, hl, happend, hget _ _ ?_⟩
  rw [log, inserted, hanswer]
  exact List.mem_cons_self

/-- Neither handle knows of the page that the other starts. Both are told the same record id, under
which the first row is lost. -/
theorem row_overwritten :
    ∃ pool opened,
      create { capacity := 4, policies := [.clock .empty] } (.vacant ["data"]) = .ok pool ∧
      Heap.load pool = (.ok ⟨none⟩, opened) ∧
      (common opened ⟨none⟩).log [.insert false [.int 1], .insert true [.int 2]] =
        [(⟨.ofIndex 0, 0⟩, [.int 1]), (⟨.ofIndex 0, 0⟩, [.int 2])] ∧
      (Heap.get ((common opened ⟨none⟩).run [.insert false [.int 1], .insert true [.int 2]]).pool
        ⟨.ofIndex 0, 0⟩).1 = .ok (some [.int 2]) ∧
      ∀ limit, (Scan.take {} ((common opened ⟨none⟩).run
        [.insert false [.int 1], .insert true [.int 2]]).pool limit).1 =
          [.ok (⟨.ofIndex 0, 0⟩, [.int 2])].take limit := by
  obtain ⟨pool, opened, hc, hl, -, hstart⟩ := exists_opened_vacant
  have hencode : Row.encode [.int 1] = .ok [1, 1, 0, 0, 0] := rfl
  have hencode' : Row.encode [.int 2] = .ok [1, 2, 0, 0, 0] := rfl
  obtain ⟨page, -, hinsert⟩ := Pages.insert_of_none hencode (by decide)
  obtain ⟨page', happend, hinsert'⟩ := Pages.insert_of_none hencode' (by decide)
  obtain ⟨hanswer, hhandle, hfirst⟩ := hstart.insert false (hinsert [])
  have hbehind : ((common opened ⟨none⟩).step (.insert false [.int 1])).handle true = ⟨none⟩ := by
    rw [hhandle]
    rfl
  obtain ⟨hanswer', -, hlast⟩ := hfirst.insert true (hbehind ▸ hinsert' _)
  have hrows : page'.liveRows = .ok [(0, [.int 2])] :=
    (Page.legible_empty _).liveRows_append hencode' happend (Page.liveRows_empty _)
  have hkeeps : Pages.Keeps [page'] ⟨.ofIndex 0, 0⟩ [.int 2] := by
    refine ⟨page', ?_, (Page.keepsRow_append_self hencode' happend).2.2⟩
    rw [PageId.index_ofIndex (by decide)]
    rfl
  refine ⟨pool, opened, hc, hl, ?_, ?_, fun limit => ?_⟩
  · rw [log, log, log, inserted, inserted, hanswer, hanswer']
    rfl
  · rw [run_cons, run_cons, run_nil, (get_of_shows hlast.pool _).1]
    exact Pages.get_of_keeps hkeeps hlast.pool.length_le
  · rw [run_cons, run_cons, run_nil, (take_of_shows hlast.pool {} limit).1, Pages.ahead_start]
    show (Pages.answersFrom 0 [page']).take limit = _
    rw [Pages.answersFrom, hrows]
    rfl

end

end Shared

end PagedStorage
