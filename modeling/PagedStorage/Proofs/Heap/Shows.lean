import PagedStorage.Proofs.Heap.Pages
import PagedStorage.Proofs.Heap.Traversal

namespace PagedStorage

namespace Pool

/-- The pool shows these pages, and will not refuse to do so. -/
structure Shows (settings : PoolSettings) (start : Store) (pages : Pages) (pool : Pool) : Prop where
  ready : pool.Ready settings
  presents : pool.Presents start pages.lookUp pages.length
  length_le : pages.length ≤ 4294967295

section

variable {settings : PoolSettings} {start : Store} {pages : Pages} {pool after : Pool}
  {id : PageId} {page : Page} {heap left : Heap} {bytes : List UInt8} {row : Row}
  {record : RecordId}

theorem getPage_of_shows (h : pool.Shows settings start pages)
    {answer : Except StorageError Frame} (hg : pool.getPage id = (answer, after)) :
    answer.map Frame.page = answerOf pages.lookUp id ∧ after.Shows settings start pages := by
  obtain ⟨hanswer, hafter⟩ := getPage_of_presents h.presents h.ready hg
  exact ⟨hanswer, h.ready.getPage hg, hafter, h.length_le⟩

theorem updatePage_of_shows (h : pool.Shows settings start pages) (hv : id.IsValid)
    (hp : page.id = id) (hle : id.index ≤ pages.length) {answer : Except StorageError Unit}
    (hu : pool.updatePage id page = (answer, after)) :
    answer = .ok () ∧ after.Shows settings start (pages.put id page) := by
  obtain ⟨hanswer, hafter⟩ := updatePage_of_presents h.presents h.ready hv hp hle hu
  rw [← Pages.lookUp_put hle, ← Pages.length_put hle] at hafter
  refine ⟨hanswer, h.ready.updatePage hu, hafter, ?_⟩
  have hlt := PageId.isValid_iff.mp hv
  have hlength := h.length_le
  rw [Pages.length_put hle]
  omega

theorem flushPage_of_shows (h : pool.Shows settings start pages) (id : PageId) :
    (pool.flushPage id).2.Shows settings start pages :=
  ⟨(h.ready.flushPage rfl).2, h.presents.flushPage h.ready rfl, h.length_le⟩

theorem flushAll_of_shows (h : pool.Shows settings start pages)
    {answer : Except StorageError Unit} (hf : pool.flushAll = (answer, after)) :
    answer = .ok () ∧ after.Shows settings start pages := by
  obtain ⟨hanswer, hready⟩ := h.ready.flushAll hf
  exact ⟨hanswer, hready, h.presents.flushPages h.ready hf, h.length_le⟩

theorem runPass_of_shows (h : pool.Shows settings start pages) (pass : MaintenancePass) :
    (pool.runPass pass).Shows settings start pages := by
  cases pass with
  | checkpoint => exact (flushAll_of_shows h rfl).2
  | writeBatch limit =>
    have hvalid : ∀ id ∈ pool.dirtyPages.take limit, id.IsValid := fun id hmem =>
      h.ready.isValid_of_mem_dirtyPages (List.mem_of_mem_take hmem)
    have hbatch : (pool.runPass (.writeBatch limit)) =
        (pool.flushPages (pool.dirtyPages.take limit)).2 := by
      rw [runPass, flushBatch]
      split <;> rename_i hf <;> rw [hf]
    rw [hbatch]
    exact ⟨(h.ready.flushPages hvalid rfl).2, h.presents.flushPages h.ready rfl, h.length_le⟩

theorem insertOnNewPage_of_shows (h : pool.Shows settings start pages)
    (hh : heap.pageCount ≤ pages.length) {answer : Except StorageError RecordId}
    (hi : heap.insertOnNewPage pool bytes = (answer, left, after)) :
    ∃ pages', pages.insertOnNewPage heap bytes = (answer, left, pages') ∧
      after.Shows settings start pages' := by
  have hindex := Heap.index_newPage (hh.trans h.length_le)
  rw [Heap.insertOnNewPage] at hi
  rw [Pages.insertOnNewPage]
  cases ha : (Page.empty heap.newPage).append bytes with
  | error e =>
    rw [ha] at hi
    cases hi
    exact ⟨pages, rfl, h⟩
  | ok added =>
    obtain ⟨slot, page⟩ := added
    have hpage : page.id = heap.newPage := Page.id_of_append ha
    rw [ha] at hi
    dsimp only at hi ⊢
    by_cases hv : heap.newPage.IsValid
    · rcases hu : pool.updatePage heap.newPage page with ⟨done, room⟩
      obtain ⟨rfl, hafter⟩ := updatePage_of_shows h hv hpage (hindex ▸ hh) hu
      rw [hu] at hi
      cases hi
      exact ⟨_, if_pos hv, hafter⟩
    · have hu : pool.updatePage heap.newPage page =
          (.error (.invalidArgument (.notAddressable heap.newPage)), pool) := if_pos hv
      rw [hu] at hi
      cases hi
      exact ⟨pages, if_neg hv, h⟩

theorem insertBytes_of_shows (h : pool.Shows settings start pages)
    (hh : heap.pageCount ≤ pages.length) {answer : Except StorageError RecordId}
    (hi : heap.insertBytes pool bytes = (answer, left, after)) :
    ∃ pages', pages.insertBytes heap bytes = (answer, left, pages') ∧
      after.Shows settings start pages' := by
  rw [Heap.insertBytes] at hi
  rw [Pages.insertBytes]
  cases hlast : heap.lastPage with
  | none =>
    rw [hlast] at hi
    exact insertOnNewPage_of_shows h hh hi
  | some last =>
    rw [hlast] at hi
    dsimp only at hi ⊢
    rcases hg : pool.getPage last with ⟨found, read⟩
    obtain ⟨hanswer, hread⟩ := getPage_of_shows h hg
    rw [hg] at hi
    cases found with
    | error e =>
      cases hi
      rw [← hanswer]
      exact ⟨pages, rfl, hread⟩
    | ok frame =>
      rw [← hanswer]
      dsimp only [Except.map] at hi ⊢
      have hvalid := Heap.isValid_of_getPage hg
      cases ha : frame.page.append bytes with
      | error e =>
        have hfull : e.isCapacity = true := by
          rw [Page.append] at ha
          split at ha <;> cases ha
          rfl
        rw [ha] at hi
        dsimp only at hi
        rw [if_pos hfull] at hi
        exact insertOnNewPage_of_shows hread hh hi
      | ok added =>
        obtain ⟨slot, page⟩ := added
        have hpage : page.id = last := (Page.id_of_append ha).trans (h.ready.id_of_getPage hg)
        have hcount : heap.pageCount = last.index + 1 := by
          rw [Heap.pageCount, hlast]
        have hle : last.index ≤ pages.length := by omega
        rcases hu : read.updatePage last page with ⟨done, room⟩
        obtain ⟨rfl, hafter⟩ := updatePage_of_shows hread hvalid hpage hle hu
        rw [ha] at hi
        dsimp only at hi
        rw [hu] at hi
        cases hi
        exact ⟨_, rfl, hafter⟩

/-- The newest images in the pool are the pages of the table. -/
theorem page?_of_shows (h : pool.Shows settings start pages) (hv : id.IsValid) :
    pool.page? id = pages[id.index]? := by
  cases hf : pool.frames.find? id with
  | some frame =>
    rw [page?_of_find? hf, Pages.lookUp_eq_ok_iff.mp (h.presents.cached id frame hf)]
  | none =>
    have hread := h.presents.stored id hv (FrameTable.not_has_of_find?_none hf)
    rw [page?_of_find?_none hf, Store.page?_eq_toOption hv, hread, Pages.lookUp]
    cases pages[id.index]? <;> rfl

theorem getElem?_of_answerOf (h : answerOf pages.lookUp id = .ok page) :
    pages[id.index]? = some page := by
  rw [answerOf] at h
  split at h
  · exact Pages.lookUp_eq_ok_iff.mp h
  · cases h

/-- An insert depends on the pages alone, and changes them alone. -/
theorem insert_of_shows (h : pool.Shows settings start pages)
    (hh : heap.pageCount ≤ pages.length) {answer : Except StorageError RecordId}
    (hi : heap.insert pool row = (answer, left, after)) :
    ∃ pages', pages.insert heap row = (answer, left, pages') ∧
      after.Shows settings start pages' := by
  rw [Heap.insert] at hi
  rw [Pages.insert]
  cases he : row.encode with
  | error e =>
    rw [he] at hi
    cases hi
    exact ⟨pages, rfl, h⟩
  | ok bytes =>
    rw [he] at hi
    dsimp only at hi ⊢
    split at hi
    · rename_i hlength
      rw [if_pos hlength]
      exact insertBytes_of_shows h hh hi
    · rename_i hlength
      cases hi
      rw [if_neg hlength]
      exact ⟨pages, rfl, h⟩

theorem get_of_shows (h : pool.Shows settings start pages) (record : RecordId) :
    (Heap.get pool record).1 = pages.get record ∧
      (Heap.get pool record).2.Shows settings start pages := by
  rcases hg : pool.getPage record.page with ⟨found, read⟩
  obtain ⟨hanswer, hread⟩ := getPage_of_shows h hg
  rw [Heap.get, hg, Pages.get, ← hanswer]
  cases found with
  | error e => exact ⟨rfl, hread⟩
  | ok frame => exact ⟨rfl, hread⟩

theorem drop_of_getElem? {index : Nat} (h : pages[index]? = some page) :
    pages.drop index = page :: pages.drop (index + 1) := by
  obtain ⟨hlt, hget⟩ := List.getElem?_eq_some_iff.mp h
  rw [List.drop_eq_getElem_cons hlt, hget]

theorem answersFrom_of_liveRows {index : Nat} {rows : List (Nat × Row)}
    (hp : pages[index]? = some page) (hrows : page.liveRows = .ok rows) :
    Pages.answersFrom index (pages.drop index) =
      (rows.map fun (slot, row) => .ok (⟨.ofIndex index, slot⟩, row)) ++
        Pages.answersFrom (index + 1) (pages.drop (index + 1)) := by
  rw [drop_of_getElem? hp, Pages.answersFrom, hrows]

theorem advance_of_shows (h : pool.Shows settings start pages)
    {answer : Option (Except StorageError (RecordId × Row))} {scan : Scan}
    (ha : Scan.advance pool id = (answer, scan, after)) :
    Pages.answersFrom id.index (pages.drop id.index) = answer.toList ++ pages.ahead scan ∧
      (answer = none → pages.ahead scan = []) ∧ after.Shows settings start pages := by
  fun_induction Scan.advance pool id with
  | case1 pool id e read hg stopped hnone =>
    obtain ⟨rfl, hrest⟩ := Prod.mk.inj ha
    obtain ⟨hscan, rfl⟩ := Prod.mk.inj hrest
    rw [← hscan]
    obtain ⟨hanswer, hread⟩ := getPage_of_shows h hg
    refine ⟨?_, fun _ => rfl, hread⟩
    rw [answerOf] at hanswer
    split at hanswer
    · rename_i hv
      rw [Pages.lookUp] at hanswer
      split at hanswer
      · cases hanswer
      · rename_i hbehind
        rw [List.drop_eq_nil_of_le (List.getElem?_eq_none_iff.mp hbehind), Pages.answersFrom,
          if_pos (PageId.isValid_iff.mp hv)]
        rfl
    · cases hanswer
      cases hnone
  | case2 pool id e read hg stopped hfound =>
    obtain ⟨rfl, hrest⟩ := Prod.mk.inj ha
    obtain ⟨hscan, rfl⟩ := Prod.mk.inj hrest
    rw [← hscan]
    obtain ⟨hanswer, hread⟩ := getPage_of_shows h hg
    refine ⟨?_, fun hnone => absurd hnone (Option.some_ne_none _), hread⟩
    rw [answerOf] at hanswer
    split at hanswer
    · rw [Pages.lookUp] at hanswer
      split at hanswer
      · cases hanswer
      · cases hanswer
        exact absurd rfl hfound
    · rename_i hv
      -- The ids have run out, so the file cannot have a page here.
      rw [PageId.isValid_iff] at hv
      have hbehind : pages.length ≤ id.index := h.length_le.trans (Nat.le_of_not_lt hv)
      cases hanswer
      rw [List.drop_eq_nil_of_le hbehind, Pages.answersFrom, if_neg hv, PageId.ofIndex_index]
      rfl
  | case3 pool id frame read hg e hrows =>
    cases ha
    obtain ⟨hanswer, hread⟩ := getPage_of_shows h hg
    have hpage := getElem?_of_answerOf hanswer.symm
    rw [drop_of_getElem? hpage, Pages.answersFrom, hrows]
    exact ⟨rfl, fun hnone => absurd hnone (Option.some_ne_none _), hread⟩
  | case4 pool id frame read hg hrows ih =>
    obtain ⟨hanswer, hread⟩ := getPage_of_shows h hg
    have hpage := getElem?_of_answerOf hanswer.symm
    have hnext := PageId.index_next (Heap.isValid_of_getPage hg)
    rw [answersFrom_of_liveRows hpage hrows, ← hnext]
    exact ih hread ha
  | case5 pool id frame read hg slot row rows hrows pending =>
    cases ha
    obtain ⟨hanswer, hread⟩ := getPage_of_shows h hg
    have hpage := getElem?_of_answerOf hanswer.symm
    have hnext := PageId.index_next (Heap.isValid_of_getPage hg)
    refine ⟨?_, fun hnone => absurd hnone (Option.some_ne_none _), hread⟩
    rw [answersFrom_of_liveRows hpage hrows, Pages.ahead, if_neg Bool.false_ne_true, hnext,
      PageId.ofIndex_index, List.map_cons, List.map_map]
    rfl

theorem next_of_shows (h : pool.Shows settings start pages) {scan further : Scan}
    {answer : Option (Except StorageError (RecordId × Row))}
    (hn : scan.next pool = (answer, further, after)) :
    pages.ahead scan = answer.toList ++ pages.ahead further ∧
      (answer = none → pages.ahead further = []) ∧ after.Shows settings start pages := by
  rw [Scan.next] at hn
  rw [Pages.ahead]
  split at hn
  · rename_i hf
    cases hn
    rw [if_pos hf, Pages.ahead, if_pos hf]
    exact ⟨rfl, fun _ => rfl, h⟩
  · rename_i hf
    rw [if_neg hf]
    split at hn
    · rename_i entry pending hpending
      cases hn
      rw [hpending, Pages.ahead, if_neg hf]
      exact ⟨rfl, fun hnone => absurd hnone (Option.some_ne_none _), h⟩
    · rename_i hpending
      rw [hpending]
      exact advance_of_shows h hn

/-- A scan gives what is ahead of it, as far as it is asked. -/
theorem take_of_shows (h : pool.Shows settings start pages) (scan : Scan) (limit : Nat) :
    (scan.take pool limit).1 = (pages.ahead scan).take limit ∧
      (scan.take pool limit).2.2.Shows settings start pages := by
  induction limit generalizing pool scan with
  | zero => exact ⟨rfl, h⟩
  | succ limit ih =>
    rw [Scan.take]
    rcases hn : scan.next pool with ⟨answer, further, read⟩
    obtain ⟨hahead, hend, hread⟩ := next_of_shows h hn
    cases answer with
    | none =>
      rw [hahead, hend rfl]
      exact ⟨rfl, hread⟩
    | some answer =>
      obtain ⟨hrest, hlast⟩ := ih hread further
      refine ⟨?_, hlast⟩
      rw [hahead]
      exact congrArg (answer :: ·) hrest

theorem takeRows_of_shows (h : pool.Shows settings start pages) (scan : Scan) (limit : Nat) :
    (scan.takeRows pool limit).1 = ((pages.ahead scan).map (Except.map Prod.snd)).take limit ∧
      (scan.takeRows pool limit).2.2.Shows settings start pages := by
  obtain ⟨htake, hafter⟩ := take_of_shows h scan limit
  rw [Scan.takeRows_eq, htake, List.map_take]
  exact ⟨rfl, hafter⟩

/-- What a pool answers from the file is found there, and the pages of a table are in the pool or
found there. -/
theorem shows_of_lookUp (h : pool.Presents start pages.lookUp 0) (hr : pool.Ready settings)
    (hle : pages.length ≤ 4294967295) : pool.Shows settings start pages := by
  refine ⟨hr, ⟨h.revealed, h.cached, h.stored, ?_, ?_, h.grown.mono (Nat.zero_le _),
    fun _ => h.untouched rfl⟩, hle⟩
  · intro id hd
    exact absurd (h.dirty_lt id hd) (Nat.not_lt_zero _)
  · intro id hlt hd
    have hread := h.stored id (PageId.isValid_iff.mpr (by omega)) hd
    rw [Pages.lookUp_eq_ok_iff.mpr (List.getElem?_eq_getElem hlt)] at hread
    by_contra hbehind
    rw [DataFile.read_of_pageCount_le (Nat.le_of_not_lt hbehind)] at hread
    cases hread

theorem probe_of_shows (h : pool.Shows settings start pages) (last : Option PageId)
    (id : PageId) : (Heap.probe pool last id).2.Shows settings start pages := by
  have hread : ∀ (pool : Pool) (id : PageId), pool.Shows settings start pages →
      (pool.getPage id).2.Shows settings start pages := fun _ _ h => (getPage_of_shows h rfl).2
  exact Heap.probe_keeps hread h last id

end

section

variable {settings : PoolSettings} {start : Store} {look : PageId → Except StorageError Page}
  {count : Nat} {pool after : Pool} {heap : Heap} {last : Option PageId} {id : PageId}
  {frame : Frame} {e : StorageError}

theorem probe_of_getPage_ok (hg : pool.getPage id = (.ok frame, after)) :
    Heap.probe pool last id = Heap.probe after (some id) id.next := by
  rw [Heap.probe]
  split
  · rename_i hok
    rw [hg] at hok
    cases hok
    rfl
  · rename_i herror
    rw [hg] at herror
    cases herror

theorem probe_of_getPage_error (hg : pool.getPage id = (.error e, after)) :
    Heap.probe pool last id =
      if e.isNotFound then (.ok ⟨last⟩, after) else (.error e, after) := by
  rw [Heap.probe]
  split
  · rename_i hok
    rw [hg] at hok
    cases hok
  · rename_i herror
    rw [hg] at herror
    cases herror
    rfl

/-- The search for a table tells how many pages can be looked up, up to the first that is not
found. -/
theorem probe_of_presents (h : pool.Presents start look count) (hr : pool.Ready settings)
    (hlast : Heap.pageCount ⟨last⟩ = id.index)
    (hp : Heap.probe pool last id = (.ok heap, after)) :
    (∀ other : PageId, id.index ≤ other.index → other.index < heap.pageCount →
      ∃ page, look other = .ok page) ∧
    (∃ behind e, look behind = .error e ∧ e.isNotFound = true ∧ behind.IsValid ∧
      behind.index = heap.pageCount) ∧
    after.Presents start look count ∧ after.Ready settings := by
  fun_induction Heap.probe pool last id with
  | case1 pool last id frame read hg ih =>
    obtain ⟨hanswer, hread⟩ := getPage_of_presents h hr hg
    have hvalid := Heap.isValid_of_getPage hg
    have hnext := PageId.index_next hvalid
    obtain ⟨hfound, hrest⟩ := ih hread (hr.getPage hg) hnext.symm hp
    refine ⟨?_, hrest⟩
    intro other hle hlt
    rcases Nat.eq_or_lt_of_le hle with heq | hbeyond
    · rw [answerOf, if_pos hvalid] at hanswer
      rw [← PageId.index_injective heq]
      exact ⟨_, hanswer.symm⟩
    · exact hfound other (hnext ▸ hbeyond) hlt
  | case2 pool last id e read hg hnone =>
    cases hp
    obtain ⟨hanswer, hread⟩ := getPage_of_presents h hr hg
    rw [hlast]
    refine ⟨fun other hle hlt => absurd hlt (Nat.not_lt_of_le hle), ?_, hread, hr.getPage hg⟩
    rw [answerOf] at hanswer
    split at hanswer
    · rename_i hv
      exact ⟨id, e, hanswer.symm, hnone, hv, rfl⟩
    · cases hanswer
      cases hnone
  | case3 pool last id e read hg hfound => cases hp

theorem load_of_shows {pages : Pages} (h : pool.Shows settings start pages)
    {answer : Except StorageError Heap} (hl : Heap.load pool = (answer, after)) :
    (∀ heap, answer = .ok heap → heap.pageCount = pages.length) ∧
      after.Shows settings start pages := by
  have hafter := probe_of_shows h none (.ofIndex 0)
  rw [← Heap.load, hl] at hafter
  refine ⟨?_, hafter⟩
  rintro heap rfl
  obtain ⟨hfound, ⟨behind, e, hnone, -, -, hindex⟩, -⟩ :=
    probe_of_presents h.presents h.ready rfl hl
  have hle : pages.length ≤ heap.pageCount := by
    by_contra hlt
    obtain ⟨page, hpage⟩ : ∃ page, pages[behind.index]? = some page := by
      rw [hindex]
      exact ⟨_, List.getElem?_eq_getElem (Nat.lt_of_not_le hlt)⟩
    rw [Pages.lookUp_eq_ok_iff.mpr hpage] at hnone
    cases hnone
  refine le_antisymm ?_ hle
  by_contra hlt
  have hlength := h.length_le
  have hend : (PageId.ofIndex pages.length).index = pages.length :=
    PageId.index_ofIndex (by omega)
  obtain ⟨page, hpage⟩ := hfound (.ofIndex pages.length) (Nat.zero_le _) (by omega)
  rw [Pages.lookUp_eq_ok_iff, hend, List.getElem?_eq_none le_rfl] at hpage
  cases hpage

theorem probe_eq_of_presents {settings' : PoolSettings} {pool' : Pool}
    (h : pool.Presents start look count) (hr : pool.Ready settings)
    (h' : pool'.Presents start look count) (hr' : pool'.Ready settings') :
    (Heap.probe pool last id).1 = (Heap.probe pool' last id).1 := by
  fun_induction Heap.probe pool last id generalizing pool' with
  | case1 pool last id frame read hg ih =>
    obtain ⟨hanswer, hread⟩ := getPage_of_presents h hr hg
    rcases hg' : pool'.getPage id with ⟨found, read'⟩
    obtain ⟨hanswer', hread'⟩ := getPage_of_presents h' hr' hg'
    cases found with
    | error e => cases hanswer.trans hanswer'.symm
    | ok frame' =>
      rw [probe_of_getPage_ok hg']
      exact ih hread (hr.getPage hg) hread' (hr'.getPage hg')
  | case2 pool last id e read hg hnone =>
    obtain ⟨hanswer, -⟩ := getPage_of_presents h hr hg
    rcases hg' : pool'.getPage id with ⟨found, read'⟩
    obtain ⟨hanswer', -⟩ := getPage_of_presents h' hr' hg'
    cases found with
    | error e' =>
      cases hanswer.trans hanswer'.symm
      rw [probe_of_getPage_error hg', if_pos hnone]
    | ok frame' => cases hanswer.trans hanswer'.symm
  | case3 pool last id e read hg hfound =>
    obtain ⟨hanswer, -⟩ := getPage_of_presents h hr hg
    rcases hg' : pool'.getPage id with ⟨found, read'⟩
    obtain ⟨hanswer', -⟩ := getPage_of_presents h' hr' hg'
    cases found with
    | error e' =>
      cases hanswer.trans hanswer'.symm
      rw [probe_of_getPage_error hg', if_neg hfound]
    | ok frame' => cases hanswer.trans hanswer'.symm

/-- Where a table is found, what can be looked up are its pages. -/
theorem exists_pages_of_load (h : pool.Presents start start.contents.read 0)
    (hr : pool.Ready settings) (hl : Heap.load pool = (.ok heap, after)) :
    ∃ pages : Pages, pages.length = heap.pageCount ∧ pages.lookUp = start.contents.read ∧
      after.Shows settings start pages := by
  obtain ⟨hfound, ⟨behind, e, hnone, hnotFound, hvalid, hindex⟩, hafter, hready⟩ :=
    probe_of_presents h hr rfl hl
  have hend := (DataFile.isNotFound_of_read hnone).mp hnotFound
  have hlimit := PageId.isValid_iff.mp hvalid
  rw [hindex] at hend hlimit
  have hofIndex : ∀ index : Fin heap.pageCount,
      (PageId.ofIndex index).index = index := fun index =>
    PageId.index_ofIndex (by omega)
  have heach : ∀ index : Fin heap.pageCount,
      ∃ page, start.contents.read (.ofIndex index) = .ok page := fun index =>
    hfound _ (Nat.zero_le _) ((hofIndex index).trans_lt index.isLt)
  choose page hpage using heach
  have hlookUp : Pages.lookUp (List.ofFn page) = start.contents.read := by
    funext id
    rw [Pages.lookUp, List.getElem?_ofFn]
    by_cases hlt : id.index < heap.pageCount
    · rw [dif_pos hlt]
      exact (hpage ⟨id.index, hlt⟩).symm.trans (congrArg _ (PageId.ofIndex_index id))
    · rw [dif_neg hlt, DataFile.read_of_pageCount_le (hend.trans (Nat.le_of_not_lt hlt))]
  have hlength : (List.ofFn page).length = heap.pageCount := List.length_ofFn
  refine ⟨List.ofFn page, hlength, hlookUp, shows_of_lookUp (hlookUp ▸ hafter) hready ?_⟩
  rw [hlength]
  exact hlimit.le

/-- Two pools over one file find the same table or none, and show the same pages. -/
theorem shows_of_load {settings' : PoolSettings} {pool' : Pool}
    (h : pool.Presents start start.contents.read 0) (hr : pool.Ready settings)
    (h' : pool'.Presents start start.contents.read 0) (hr' : pool'.Ready settings')
    (hl : Heap.load pool = (.ok heap, after)) :
    ∃ (pages : Pages) (after' : Pool), Heap.load pool' = (.ok heap, after') ∧
      pages.length = heap.pageCount ∧ after.Shows settings start pages ∧
      after'.Shows settings' start pages := by
  obtain ⟨pages, hlength, hlookUp, hshows⟩ := exists_pages_of_load h hr hl
  have hsame : (Heap.load pool).1 = (Heap.load pool').1 := probe_eq_of_presents h hr h' hr'
  rcases hl' : Heap.load pool' with ⟨answer, after'⟩
  rw [hl, hl'] at hsame
  subst hsame
  obtain ⟨-, -, hafter', hready'⟩ := probe_of_presents h' hr' rfl hl'
  rw [← hlookUp] at hafter'
  exact ⟨pages, after', rfl, hlength, hshows, shows_of_lookUp hafter' hready' hshows.length_le⟩

end

end Pool

end PagedStorage
