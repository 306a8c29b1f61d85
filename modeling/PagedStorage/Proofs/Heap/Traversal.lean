import PagedStorage.Heap.Scan
import PagedStorage.Proofs.Heap.Rows

namespace PagedStorage

open Pool

namespace StorageError

theorem deniesPage_of_isNotFound {e : StorageError} (h : e.isNotFound = true) : e.DeniesPage := by
  cases e with
  | pageNotFound page => trivial
  | format fault => cases h
  | pageFull page needed available => cases h
  | noFreeFrames cached => cases h
  | slotOutOfRange slot slotCount => cases h
  | invalidArgument fault => cases h
  | io fault => cases h

end StorageError

theorem Pool.getPage_noImages (pool mid : Pool) (id : PageId) (h : pool.Becomes mid noImages) :
    pool.Becomes (mid.getPage id).2 noImages := h.trans_noImages (becomes_getPage h.coherent rfl)

namespace Heap

section keeps

variable {kept : Pool → Prop} {pool : Pool}

theorem get_keeps (hk : ∀ pool id, kept pool → kept (pool.getPage id).2) (h : kept pool)
    (record : RecordId) : kept (get pool record).2 := by
  have hread := hk pool record.page h
  unfold get
  split <;> rename_i hg <;> rwa [hg] at hread

/-- What no request for a page takes away is kept while a heap is looked for. -/
theorem probe_keeps (hk : ∀ pool id, kept pool → kept (pool.getPage id).2) (h : kept pool)
    (last : Option PageId) (id : PageId) : kept (probe pool last id).2 := by
  fun_induction probe pool last id with
  | case1 pool last id frame read hg ih =>
    have hread := hk pool id h
    rw [hg] at hread
    exact ih hread
  | case2 pool last id e read hg hnone =>
    have hread := hk pool id h
    rwa [hg] at hread
  | case3 pool last id e read hg hfound =>
    have hread := hk pool id h
    rwa [hg] at hread

theorem load_keeps (hk : ∀ pool id, kept pool → kept (pool.getPage id).2) (h : kept pool) :
    kept (load pool).2 := probe_keeps hk h none (.ofIndex 0)

end keeps

section

variable {heap left : Heap} {pool after : Pool} {pages : List (List Row)} {row : Row}
  {record : RecordId} {last : Option PageId} {id : PageId} {e : StorageError}

theorem becomes_get (hc : pool.Coherent) (record : RecordId) :
    pool.Becomes (get pool record).2 noImages :=
  get_keeps pool.getPage_noImages (Becomes.refl hc) record

/-- A record id of the heap that is looked up with success gives its row. -/
theorem get_ok (h : heap.Stored pool pages) (hm : (record, row) ∈ entriesFrom 0 pages)
    {answer : Option Row} (hg : get pool record = (.ok answer, after)) : answer = some row := by
  obtain ⟨index, rows, hrows, hpage, hrow⟩ := mem_entriesFrom hm
  have hlength := h.laid.length_le
  have hlt := (List.getElem?_eq_some_iff.mp hrows).1
  unfold get at hg
  split at hg
  · cases hg
  · rename_i frame read hread
    obtain ⟨found, hfound, hholds⟩ := h.laid.exists_rows (page?_of_getPage_ok hread)
    rw [hpage, Nat.zero_add, PageId.index_ofIndex (by omega), hrows] at hfound
    cases hfound
    rw [hholds.row_eq hrow] at hg
    cases hg
    rfl

/-- The first page that is not found is behind the last. -/
theorem Laid.length_le_of_isNotFound (hl : Laid pool.page? pages)
    (hg : pool.getPage id = (.error e, after)) (hn : e.isNotFound = true) :
    pages.length ≤ id.index := by
  by_contra hlt
  obtain ⟨page, hp⟩ := hl.exists_page (Nat.lt_of_not_le hlt)
  exact not_deniesPage_of_getPage hg hp (StorageError.deniesPage_of_isNotFound hn)

theorem probe_ok (hc : pool.Coherent) (hl : Laid pool.page? pages) (hid : id.index ≤ pages.length)
    (hlast : ⟨last⟩ = ofPages (pages.take id.index))
    (hp : probe pool last id = (.ok left, after)) : left = ofPages pages := by
  fun_induction probe pool last id with
  | case1 pool last id frame read hg ih =>
    have hb := becomes_getPage hc hg
    obtain ⟨rows, hrows, -⟩ := hl.exists_rows (page?_of_getPage_ok hg)
    have hlt := (List.getElem?_eq_some_iff.mp hrows).1
    have hnext := PageId.index_next (isValid_of_getPage hg)
    -- The page that was found is the last of the pages up to it.
    apply ih hb.coherent (hl.congr hb.page?) _ _ hp
    · rw [hnext]
      exact hlt
    · rw [hnext, List.take_add_one, hrows, Option.toList_some, ofPages_concat, List.length_take,
        Nat.min_eq_left hid, PageId.ofIndex_index]
  | case2 pool last id e read hg hnone =>
    cases hp
    rw [hlast, List.take_of_length_le (hl.length_le_of_isNotFound hg hnone)]
  | case3 pool last id e read hg hfound => cases hp

theorem probe_of_isNotFound (hg : pool.getPage id = (.error e, after)) (hn : e.isNotFound = true) :
    probe pool last id = (.ok ⟨last⟩, after) := by
  rw [probe]
  split
  · rename_i hok
    rw [hg] at hok
    cases hok
  · rename_i herror
    rw [hg] at herror
    cases herror
    exact if_pos hn

theorem becomes_load (hc : pool.Coherent) : pool.Becomes (load pool).2 noImages :=
  load_keeps pool.getPage_noImages (Becomes.refl hc)

/-- A heap that is found in a pool is the one that was stored. -/
theorem load_ok (hc : pool.Coherent) (hl : Laid pool.page? pages)
    (hload : load pool = (.ok left, after)) : left = ofPages pages := by
  have hzero : (PageId.ofIndex 0).index = 0 := rfl
  apply probe_ok hc hl _ _ hload
  · rw [hzero]
    exact Nat.zero_le _
  · rw [hzero]
    rfl

end

end Heap

namespace Scan

/-- The answers of a scan that is asked until it ends, but no more than `limit` times. -/
def take (scan : Scan) (pool : Pool) :
    Nat → List (Except StorageError (RecordId × Row)) × Scan × Pool
  | 0 => ([], scan, pool)
  | limit + 1 =>
    match scan.next pool with
    | (none, scan, pool) => ([], scan, pool)
    | (some answer, scan, pool) =>
      let (answers, scan, pool) := scan.take pool limit
      (answer :: answers, scan, pool)

def takeRows (scan : Scan) (pool : Pool) : Nat → List (Except StorageError Row) × Scan × Pool
  | 0 => ([], scan, pool)
  | limit + 1 =>
    match scan.nextRow pool with
    | (none, scan, pool) => ([], scan, pool)
    | (some answer, scan, pool) =>
      let (answers, scan, pool) := scan.takeRows pool limit
      (answer :: answers, scan, pool)

def left (pages : List (List Row)) (scan : Scan) : List (RecordId × Row) :=
  scan.pending ++ Heap.entriesFrom scan.nextPage.index (pages.drop scan.nextPage.index)

inductive Answered (pages : List (List Row)) (entries : List (RecordId × Row)) :
    Option (Except StorageError (RecordId × Row)) × Scan × Pool → Prop
  | ended (scan : Scan) (after : Pool) (he : entries = []) :
      Answered pages entries (none, scan, after)
  | failed (e : StorageError) (scan : Scan) (after : Pool) (hf : scan.finished = true) :
      Answered pages entries (some (.error e), scan, after)
  | given (entry : RecordId × Row) (scan : Scan) (after : Pool) (hf : scan.finished = false)
      (he : entries = entry :: scan.left pages) :
      Answered pages entries (some (.ok entry), scan, after)

theorem takeRows_eq (scan : Scan) (pool : Pool) (limit : Nat) :
    scan.takeRows pool limit =
      ((scan.take pool limit).1.map (Except.map Prod.snd), (scan.take pool limit).2) := by
  induction limit generalizing scan pool with
  | zero => rfl
  | succ limit ih =>
    rw [takeRows, take, nextRow]
    generalize scan.next pool = result
    obtain ⟨answer, further, read⟩ := result
    cases answer with
    | none => rfl
    | some answer =>
      simp only [Option.map_some, ih further read]
      rfl

section keeps

variable {kept : Pool → Prop} {pool : Pool}

theorem advance_keeps (hk : ∀ pool id, kept pool → kept (pool.getPage id).2) (h : kept pool)
    (id : PageId) : kept (advance pool id).2.2 := by
  fun_induction advance pool id with
  | case1 pool id e read hg stopped hnone =>
    have hread := hk pool id h
    rwa [hg] at hread
  | case2 pool id e read hg stopped hfound =>
    have hread := hk pool id h
    rwa [hg] at hread
  | case3 pool id frame read hg e hrows =>
    have hread := hk pool id h
    rwa [hg] at hread
  | case4 pool id frame read hg hrows ih =>
    have hread := hk pool id h
    rw [hg] at hread
    exact ih hread
  | case5 pool id frame read hg slot row rows hrows pending =>
    have hread := hk pool id h
    rwa [hg] at hread

theorem next_keeps (hk : ∀ pool id, kept pool → kept (pool.getPage id).2) (h : kept pool)
    (scan : Scan) : kept (scan.next pool).2.2 := by
  rw [next]
  split
  · exact h
  · split
    · exact h
    · exact advance_keeps hk h scan.nextPage

/-- What no request for a page takes away is kept by a scan. -/
theorem take_keeps (hk : ∀ pool id, kept pool → kept (pool.getPage id).2) (h : kept pool)
    (scan : Scan) (limit : Nat) : kept (scan.take pool limit).2.2 := by
  induction limit generalizing pool scan with
  | zero => exact h
  | succ limit ih =>
    have hnext := next_keeps hk h scan
    rw [take]
    generalize scan.next pool = result at hnext ⊢
    obtain ⟨answer, further, read⟩ := result
    cases answer with
    | none => exact hnext
    | some answer => exact ih hnext further

theorem takeRows_keeps (hk : ∀ pool id, kept pool → kept (pool.getPage id).2) (h : kept pool)
    (scan : Scan) (limit : Nat) : kept (scan.takeRows pool limit).2.2 := by
  rw [takeRows_eq]
  exact take_keeps hk h scan limit

end keeps

section

variable {pool : Pool} {pages : List (List Row)}

theorem becomes_advance (hc : pool.Coherent) (id : PageId) :
    pool.Becomes (advance pool id).2.2 noImages :=
  advance_keeps pool.getPage_noImages (Becomes.refl hc) id

theorem becomes_next (hc : pool.Coherent) (scan : Scan) :
    pool.Becomes (scan.next pool).2.2 noImages :=
  next_keeps pool.getPage_noImages (Becomes.refl hc) scan

theorem becomes_take (hc : pool.Coherent) (scan : Scan) (limit : Nat) :
    pool.Becomes (scan.take pool limit).2.2 noImages :=
  take_keeps pool.getPage_noImages (Becomes.refl hc) scan limit

theorem becomes_takeRows (hc : pool.Coherent) (scan : Scan) (limit : Nat) :
    pool.Becomes (scan.takeRows pool limit).2.2 noImages :=
  takeRows_keeps pool.getPage_noImages (Becomes.refl hc) scan limit

theorem advance_answered (hl : Heap.Laid pool.page? pages) (id : PageId) :
    Answered pages (Heap.entriesFrom id.index (pages.drop id.index)) (advance pool id) := by
  rw [advance]
  split
  · rename_i e after hg
    dsimp only
    split
    · rename_i hn
      apply Answered.ended
      rw [List.drop_eq_nil_of_le (hl.length_le_of_isNotFound hg hn)]
      rfl
    · exact .failed _ _ _ rfl
  · rename_i frame after hg
    obtain ⟨rows, hrows, hholds⟩ := hl.exists_rows (page?_of_getPage_ok hg)
    obtain ⟨hlt, hget⟩ := List.getElem?_eq_some_iff.mp hrows
    rw [hholds.liveRows]
    -- A page of the heap has a row, so it is never passed over.
    cases rows with
    | nil => exact absurd rfl (hl.nonempty [] (List.mem_of_getElem? hrows))
    | cons row rest =>
      apply Answered.given _ _ _ rfl
      rw [List.drop_eq_getElem_cons hlt, hget, Heap.entriesFrom, Heap.pageEntries,
        PageId.ofIndex_index, Scan.left, PageId.index_next (Heap.isValid_of_getPage hg),
        List.zipIdx_cons, List.map_cons, List.cons_append, Nat.zero_add, List.map_map]
      rfl

theorem next_answered (hl : Heap.Laid pool.page? pages) {scan : Scan}
    (hf : scan.finished = false) : Answered pages (scan.left pages) (scan.next pool) := by
  rw [next, hf, if_neg Bool.false_ne_true]
  split
  · rename_i entry pending hpending
    apply Answered.given _ _ _ rfl
    rw [left, left, hpending]
    rfl
  · rename_i hpending
    rw [left, hpending, List.nil_append]
    exact advance_answered hl scan.nextPage

theorem take_of_finished (pool : Pool) {scan : Scan} (hf : scan.finished = true) (limit : Nat) :
    scan.take pool limit = ([], scan, pool) := by
  cases limit with
  | zero => rfl
  | succ limit => rw [take, next, if_pos hf]

/-- A scan gives the rows that it has still to give, in order and each once, as far as it is asked
and up to the first error. -/
theorem take_answers (hc : pool.Coherent) (hl : Heap.Laid pool.page? pages) {scan : Scan}
    (hf : scan.finished = false) (limit : Nat) :
    ∃ given rest, scan.left pages = given ++ rest ∧
      ((scan.take pool limit).1 = given.map .ok ∧
          ((scan.take pool limit).1.length < limit → rest = []) ∨
        ∃ e, (scan.take pool limit).1 = given.map .ok ++ [.error e]) := by
  induction limit generalizing pool scan with
  | zero => exact ⟨[], _, rfl, Or.inl ⟨rfl, fun h => absurd h (Nat.not_lt_zero _)⟩⟩
  | succ limit ih =>
    have ha := next_answered hl hf
    have hb := becomes_next hc scan
    rw [take]
    generalize scan.next pool = result at ha hb ⊢
    cases ha with
    | ended further read he => exact ⟨[], [], he, Or.inl ⟨rfl, fun _ => rfl⟩⟩
    | failed e further read hdone =>
      dsimp only
      rw [take_of_finished read hdone]
      exact ⟨[], _, rfl, Or.inr ⟨e, rfl⟩⟩
    | given entry further read hgoing he =>
      obtain ⟨given, rest, hleft, hanswers⟩ := ih hb.coherent (hl.congr hb.page?) hgoing
      refine ⟨entry :: given, rest, by rw [he, hleft]; rfl, ?_⟩
      rcases hanswers with ⟨hok, hend⟩ | ⟨e, herror⟩
      · refine Or.inl ⟨congrArg (Except.ok entry :: ·) hok, ?_⟩
        intro hlt
        exact hend (Nat.lt_of_succ_lt_succ hlt)
      · exact Or.inr ⟨e, congrArg (Except.ok entry :: ·) herror⟩

theorem take_eq_of_ended (hc : pool.Coherent) (hl : Heap.Laid pool.page? pages) {limit : Nat}
    (hend : (take {} pool limit).1.length < limit)
    (hok : ∀ answer ∈ (take {} pool limit).1, answer.isOk = true) :
    (take {} pool limit).1 = (Heap.entriesFrom 0 pages).map .ok := by
  have hstart : ({} : Scan).finished = false := rfl
  obtain ⟨given, rest, hleft, hanswers⟩ := take_answers hc hl hstart limit
  have hall : left pages {} = Heap.entriesFrom 0 pages := rfl
  rw [hall] at hleft
  rcases hanswers with ⟨hgiven, hrest⟩ | ⟨e, herror⟩
  · rw [hgiven, hleft, hrest hend, List.append_nil]
  · have hlast := hok (.error e) (by rw [herror]; exact List.mem_concat_self)
    cases hlast

/-- A plain scan that ends without an error has given the same rows without their record ids. -/
theorem takeRows_eq_of_ended (hc : pool.Coherent) (hl : Heap.Laid pool.page? pages) {limit : Nat}
    (hend : (takeRows {} pool limit).1.length < limit)
    (hok : ∀ answer ∈ (takeRows {} pool limit).1, answer.isOk = true) :
    (takeRows {} pool limit).1 = (Heap.entriesFrom 0 pages).map fun entry => .ok entry.2 := by
  have hlength : (takeRows {} pool limit).1.length = (take {} pool limit).1.length := by
    rw [takeRows_eq, List.length_map]
  have hentries : ∀ answer ∈ (take {} pool limit).1, answer.isOk = true := by
    intro answer hmem
    rw [takeRows_eq] at hok
    have hrow := hok _ (List.mem_map_of_mem hmem)
    cases answer with
    | ok entry => rfl
    | error e => exact hrow
  rw [takeRows_eq, take_eq_of_ended hc hl (hlength ▸ hend) hentries, List.map_map]
  rfl

/-- A scan gives no more than the rows of the heap and an error. -/
theorem length_take_le (hc : pool.Coherent) (hl : Heap.Laid pool.page? pages) (limit : Nat) :
    (take {} pool limit).1.length ≤ (Heap.entriesFrom 0 pages).length + 1 := by
  have hstart : ({} : Scan).finished = false := rfl
  obtain ⟨given, rest, hleft, hanswers⟩ := take_answers hc hl hstart limit
  have hlength := congrArg List.length hleft
  have hall : left pages {} = Heap.entriesFrom 0 pages := rfl
  rw [hall, List.length_append] at hlength
  rcases hanswers with ⟨hgiven, -⟩ | ⟨e, herror⟩
  · rw [hgiven, List.length_map]
    omega
  · rw [herror, List.length_append, List.length_map, List.length_singleton]
    omega

end

end Scan

end PagedStorage
