import PagedStorage.Proofs.Heap.Lookups
import PagedStorage.Proofs.Heap.Placement
import PagedStorage.Proofs.Heap.Sessions

namespace PagedStorage

open Pool

namespace Heap

/-- The heap had `first` pages when it was found, and has taken the rows in `log` since. -/
structure Filled (settings : PoolSettings) (first : Nat) (log : List (RecordId × Row))
    (pool : Pool) (heap : Heap) : Prop where
  regular : pool.Regular settings
  faithful : pool.Faithful
  known : heap.Known pool
  first_le : first ≤ heap.pageCount
  kept : ∀ record row, (record, row) ∈ log → record.page.index < heap.pageCount ∧
    ∃ page, pool.page? record.page = some page ∧ page.KeepsRow record.slot row
  increasing : (log.map Prod.fst).Pairwise fun a b => compare a b = .lt
  /-- A page was started for a row, and the page before it is as it was then. -/
  started : ∀ index, first ≤ index → index < heap.pageCount →
    ∃ row, (⟨.ofIndex index, 0⟩, row) ∈ log ∧
      (0 < index → ∃ former, pool.page? (.ofIndex (index - 1)) = some former ∧
        ¬former.CanFit row.encodedSize)

section

variable {settings : PoolSettings} {first : Nat} {log : List (RecordId × Row)} {heap left : Heap}
  {pool after : Pool} {row : Row} {bytes : List UInt8} {record : RecordId} {page : Page}

namespace Filled

theorem of_retains (h : Filled settings first log pool heap) (hr : pool.Retains after)
    (ha : after.Regular settings) : Filled settings first log after heap where
  regular := ha
  faithful := hr.faithful
  known := h.known.of_retains hr
  first_le := h.first_le
  kept record row hmem := by
    obtain ⟨hlt, page, hpage, hrow⟩ := h.kept record row hmem
    exact ⟨hlt, page, hr.page? record.page page hpage, hrow⟩
  increasing := h.increasing
  started index hle hlt := by
    obtain ⟨row, hmem, hformer⟩ := h.started index hle hlt
    refine ⟨row, hmem, fun hpos => ?_⟩
    obtain ⟨former, hpage, hfull⟩ := hformer hpos
    exact ⟨former, hr.page? _ former hpage, hfull⟩

/-- A row comes to the log that is behind all others, on the last page or on the next one. -/
theorem concat (h : Filled settings first log pool heap) (ha : after.Regular settings)
    (hr : pool.Renews page after) (hid : page.id = record.page)
    (hle : heap.pageCount ≤ record.page.index + 1) (hge : record.page.index ≤ heap.pageCount)
    (hrow : page.KeepsRow record.slot row)
    (hkept : ∀ entry ∈ log, entry.1.page = record.page →
      entry.1.slot < record.slot ∧ page.KeepsRow entry.1.slot entry.2)
    (hstarted : heap.pageCount = record.page.index → record.slot = 0 ∧
      (0 < record.page.index →
        ∃ former, pool.page? (.ofIndex (record.page.index - 1)) = some former ∧
          ¬former.CanFit row.encodedSize)) :
    Filled settings first (log ++ [(record, row)]) after ⟨some record.page⟩ := by
  obtain ⟨hfaithful, hself, hothers⟩ := hr
  rw [hid] at hself hothers
  have hcount : pageCount ⟨some record.page⟩ = record.page.index + 1 := rfl
  refine ⟨ha, hfaithful, ?_, h.first_le.trans hle, ?_, ?_, ?_⟩
  · rintro last ⟨⟩
    exact ⟨page, hself⟩
  · intro old row' hmem
    rcases List.mem_append.mp hmem with hmem | hmem
    · obtain ⟨hlt, former, hformer, hkeeps⟩ := h.kept old row' hmem
      refine ⟨hlt.trans_le hle, ?_⟩
      by_cases hpage : old.page = record.page
      · exact ⟨page, hpage.symm ▸ hself, (hkept (old, row') hmem hpage).2⟩
      · exact ⟨former, hothers old.page former hpage hformer, hkeeps⟩
    · cases List.mem_singleton.mp hmem
      exact ⟨hcount ▸ Nat.lt_succ_self _, page, hself, hrow⟩
  · rw [List.map_append, List.pairwise_append]
    refine ⟨h.increasing, List.pairwise_singleton _ _, ?_⟩
    intro old hold new hnew
    cases List.mem_singleton.mp hnew
    obtain ⟨entry, hmem, rfl⟩ := List.mem_map.mp hold
    by_cases hpage : entry.1.page = record.page
    · exact RecordId.compare_of_slot_lt hpage (hkept entry hmem hpage).1
    · have hlt := (h.kept entry.1 entry.2 hmem).1
      have hindex : entry.1.page.index ≠ record.page.index :=
        fun he => hpage (PageId.index_injective he)
      have hbefore : entry.1.page.index < record.page.index := by omega
      exact RecordId.compare_of_page_lt hbefore
  · -- The page before one that was started is not the page that has been written now.
    have hbefore : ∀ index former, 0 < index → index ≤ record.page.index →
        pool.page? (.ofIndex (index - 1)) = some former →
        after.page? (.ofIndex (index - 1)) = some former := by
      intro index former hpos hupto
      apply hothers
      intro he
      have hlimit := record.page.index_lt
      have hindex := congrArg PageId.index he
      rw [PageId.index_ofIndex (by omega)] at hindex
      omega
    intro index hfirst hlt
    have hupto : index ≤ record.page.index := Nat.le_of_lt_succ hlt
    rcases Nat.lt_or_ge index heap.pageCount with hold | hnew
    · obtain ⟨row', hmem, hformer⟩ := h.started index hfirst hold
      refine ⟨row', List.mem_append_left _ hmem, fun hpos => ?_⟩
      obtain ⟨former, hpage, hfull⟩ := hformer hpos
      exact ⟨former, hbefore index former hpos hupto hpage, hfull⟩
    · obtain rfl : index = record.page.index := by omega
      obtain ⟨hslot, hformer⟩ := hstarted (by omega)
      refine ⟨row, List.mem_append_right _ ?_, fun hpos => ?_⟩
      · rw [PageId.ofIndex_index, ← hslot]
        exact List.mem_singleton_self _
      · obtain ⟨former, hpage, hfull⟩ := hformer hpos
        exact ⟨former, hbefore _ former hpos le_rfl hpage, hfull⟩

theorem takes (h : Filled settings first log pool heap) (he : row.encode = .ok bytes)
    (ht : heap.Takes pool bytes record page) (ha : after.Regular settings)
    (hr : pool.Renews page after) :
    Filled settings first (log ++ [(record, row)]) after ⟨some record.page⟩ := by
  have hid := ht.id_eq h.faithful
  cases ht with
  | onLast last former page slot hlast hp hadd =>
    have hcount := pageCount_of_lastPage hlast
    obtain ⟨rfl, -, hrow⟩ := Page.keepsRow_append_self he hadd
    refine h.concat ha hr hid hcount.le (hcount ▸ Nat.le_succ _) hrow ?_ ?_
    · intro entry hmem hpage
      obtain ⟨-, found, hfound, hkeeps⟩ := h.kept entry.1 entry.2 hmem
      rw [hpage, hp] at hfound
      cases hfound
      exact ⟨hkeeps.1, hkeeps.append hadd⟩
    · intro hnew
      rw [hcount] at hnew
      exact absurd hnew (Nat.succ_ne_self _)
  | onNew page hfull hadd =>
    have hindex := index_newPage (pageCount_le h.faithful h.known)
    obtain ⟨-, -, hrow⟩ := Page.keepsRow_append_self he hadd
    refine h.concat ha hr hid (hindex ▸ Nat.le_succ _) hindex.le hrow ?_ ?_
    · intro entry hmem hpage
      have hlt := (h.kept entry.1 entry.2 hmem).1
      rw [hpage, hindex] at hlt
      exact absurd hlt (Nat.lt_irrefl _)
    · rintro -
      refine ⟨rfl, fun hpos => ?_⟩
      rw [hindex] at hpos ⊢
      -- There is a page in front of the new one, and it was the last.
      cases hlast : heap.lastPage with
      | none =>
        rw [pageCount, hlast] at hpos
        exact absurd hpos (Nat.lt_irrefl 0)
      | some last =>
        rw [pageCount_of_lastPage hlast, Nat.add_sub_cancel, PageId.ofIndex_index,
          ← Row.length_of_encode he]
        exact hfull last hlast

theorem insert_ok (h : Filled settings first log pool heap)
    (hi : heap.insert pool row = (.ok record, left, after)) :
    Filled settings first (log ++ [(record, row)]) after left := by
  cases insert_outcome hi with
  | written bytes read record page after he hread ht hu =>
    obtain ⟨hregular, hretains, -, -⟩ := hread.kept h.regular h.faithful
    have hr := (renews_updatePage hretains.faithful hu).2
    exact (h.of_retains hretains hregular).takes he ht (hregular.updatePage hu) hr

theorem insert_error (h : Filled settings first log pool heap) {e : StorageError}
    (hi : heap.insert pool row = (.error e, left, after)) :
    left = heap ∧ Filled settings first log after heap := by
  obtain ⟨hleft, hregular, hretains, -⟩ := insert_failed h.regular h.faithful h.known hi
  exact ⟨hleft, h.of_retains hretains hregular⟩

end Filled

theorem filled_getPage (pool : Pool) (id : PageId) (h : Filled settings first log pool heap) :
    Filled settings first log (pool.getPage id).2 heap :=
  h.of_retains (retains_getPage h.faithful rfl) (h.regular.getPage rfl)

/-- The last page that was found is one that the pool has. -/
theorem known_of_probe {last : Option PageId} {id : PageId} (hf : pool.Faithful)
    (hk : Known ⟨last⟩ pool) (hp : probe pool last id = (.ok heap, after)) : heap.Known after := by
  fun_induction probe pool last id with
  | case1 pool last id frame read hg ih =>
    refine ih (retains_getPage hf hg).faithful ?_ hp
    rintro _ ⟨⟩
    exact ⟨frame.page, page?_after_getPage hg⟩
  | case2 pool last id e read hg hnone =>
    cases hp
    exact hk.of_retains (retains_getPage hf hg)
  | case3 pool last id e read hg hfound => cases hp

theorem filled_of_load (hr : pool.Regular settings) (hf : pool.Faithful)
    (hl : load pool = (.ok heap, after)) : Filled settings heap.pageCount [] after heap := by
  have hkept : (load pool).2.Regular settings ∧ (load pool).2.Faithful :=
    ⟨load_keeps (fun _ _ (hread : Regular settings _) => hread.getPage rfl) hr,
      load_keeps (fun _ _ (hread : Faithful _) => (retains_getPage hread rfl).faithful) hf⟩
  have hnone : Known ⟨none⟩ pool := by rintro last ⟨⟩
  rw [hl] at hkept
  refine ⟨hkept.1, hkept.2, known_of_probe hf hnone hl, le_rfl, nofun, .nil, ?_⟩
  intro index hle hlt
  exact absurd hlt (Nat.not_lt_of_le hle)

/-- A call within a session adds the row that it inserts, and a page only if the row needs one. -/
theorem filled_step (h : Filled settings first log pool heap) (event : Table.Event)
    (hc : event.call ≠ .close) :
    ∃ next left, (Table.opened pool heap).step event = .opened next left ∧
      Filled settings first (log ++ (Table.opened pool heap).inserted event) next left ∧
      (left.pageCount = heap.pageCount ∨
        left.pageCount = heap.pageCount + 1 ∧
          ∃ row, event.call = .insert row ∧ ¬heap.HasRoom pool row.encodedSize) := by
  obtain ⟨call, fails⟩ := event
  have hf : Filled settings first log (pool.failing fails) heap :=
    h.of_retains (retains_failing h.faithful fails) (h.regular.failing fails)
  have hsame : ∀ {next}, Filled settings first log next heap →
      Filled settings first (log ++ []) next heap := by
    intro next hnext
    rwa [List.append_nil]
  cases call with
  | start settings => exact ⟨_, _, rfl, hsame hf, Or.inl rfl⟩
  | close => exact absurd rfl hc
  | insert row =>
    refine ⟨_, _, rfl, ?_⟩
    rw [Table.inserted]
    rcases hi : heap.insert (pool.failing fails) row with ⟨answer, left, after⟩
    cases answer with
    | error e =>
      obtain ⟨rfl, hafter⟩ := hf.insert_error hi
      exact ⟨hsame hafter, Or.inl rfl⟩
    | ok record =>
      refine ⟨hf.insert_ok hi, ?_⟩
      obtain ⟨hlast, hnew⟩ := insert_placed hf.regular hf.faithful hf.known hi
      by_cases hroom : heap.HasRoom pool row.encodedSize
      · obtain ⟨last, page, hheap, hpage, hfit⟩ := hroom
        obtain ⟨-, rfl⟩ := hlast last page hheap hpage hfit
        exact Or.inl rfl
      · obtain ⟨-, -, hcount⟩ := hnew hroom
        exact Or.inr ⟨hcount, row, rfl, hroom⟩
  | get record => exact ⟨_, _, rfl, hsame (get_keeps filled_getPage hf record), Or.inl rfl⟩
  | scan limit => exact ⟨_, _, rfl, hsame (Scan.take_keeps filled_getPage hf {} limit), Or.inl rfl⟩
  | scanRows limit =>
    exact ⟨_, _, rfl, hsame (Scan.takeRows_keeps filled_getPage hf {} limit), Or.inl rfl⟩
  | request request =>
    have hserved := hf.of_retains (retains_serve hf.faithful request) (hf.regular.serve request)
    exact ⟨_, _, rfl, hsame hserved, Or.inl rfl⟩

theorem filled_run (h : Filled settings first log pool heap) (events : List Table.Event)
    (hc : ∀ event ∈ events, event.call ≠ .close) :
    ∃ now left, (Table.opened pool heap).run events = .opened now left ∧
      Filled settings first (log ++ (Table.opened pool heap).log events) now left := by
  induction events generalizing log pool heap with
  | nil => exact ⟨pool, heap, rfl, (List.append_nil log).symm ▸ h⟩
  | cons event events ih =>
    obtain ⟨hfirst, hrest⟩ := List.forall_mem_cons.mp hc
    obtain ⟨next, grown, hstep, hnext, -⟩ := filled_step h event hfirst
    obtain ⟨now, left, hrun, hnow⟩ := ih hnext hrest
    refine ⟨now, left, ?_, ?_⟩
    · rw [Table.run, List.foldl_cons, hstep]
      exact hrun
    · rw [Table.log, hstep, ← List.append_assoc]
      exact hnow

variable {store : Store} {opened : Pool} {found : Heap}

/-- Take a heap that was found in a pool, whatever the pool had been asked before, and let all
changes since come from inserts through its handle. Then, whatever fails on the way, each insert
refuses or places its row as told by `Places`. The record ids that were given out increase. Another
page is there after a call only if the call inserts a row that did not fit on the last page. And
each page that was started has, in its first slot, a row that does not fit on the page before. -/
theorem places_run (hn : ∀ policy ∈ settings.policies, policy.IsNew)
    (hc : create settings store = .ok pool) (steps : List Step) (fails : Access → PageId → Bool)
    (hl : load ((pool.run steps).failing fails) = (.ok found, opened))
    (events : List Table.Event) (he : ∀ event ∈ events, event.call ≠ .close) :
    ∃ now heap, (Table.opened opened found).run events = .opened now heap ∧
      heap.Known now ∧
      (∀ fails row, heap.Places (now.failing fails) row (heap.insert (now.failing fails) row)) ∧
      (((Table.opened opened found).log events).map Prod.fst).Pairwise
        (fun a b => compare a b = .lt) ∧
      (∀ event : Table.Event, event.call ≠ .close →
        ∃ next left, (Table.opened now heap).step event = .opened next left ∧
          (left.pageCount = heap.pageCount ∨
            left.pageCount = heap.pageCount + 1 ∧
              ∃ row, event.call = .insert row ∧ ¬heap.HasRoom now row.encodedSize)) ∧
      ∀ index, found.pageCount ≤ index → index < heap.pageCount →
        ∃ row page, (⟨.ofIndex index, 0⟩, row) ∈ (Table.opened opened found).log events ∧
          now.page? (.ofIndex index) = some page ∧ page.row 0 = .ok (some row) ∧
          (0 < index → ∃ former, now.page? (.ofIndex (index - 1)) = some former ∧
            ¬former.CanFit row.encodedSize) := by
  have hregular := ((regular_of_create hn hc).run steps).failing fails
  have hfaithful := ((faithful_of_create hc).run steps).failing fails
  have hopened := filled_of_load hregular hfaithful hl
  obtain ⟨now, heap, hrun, h⟩ := filled_run hopened events he
  rw [List.nil_append] at h
  refine ⟨now, heap, hrun, h.known, ?_, h.increasing, ?_, ?_⟩
  · intro fails row
    have hretains := retains_failing h.faithful fails
    have hknown := h.known.of_retains hretains
    exact places_insert (h.regular.failing fails) hretains.faithful hknown row
  · intro event hevent
    obtain ⟨next, left, hstep, -, hcount⟩ := filled_step h event hevent
    exact ⟨next, left, hstep, hcount⟩
  · intro index hle hlt
    obtain ⟨row, hmem, hformer⟩ := h.started index hle hlt
    obtain ⟨-, page, hpage, hrow⟩ := h.kept _ row hmem
    exact ⟨row, page, hmem, hpage, hrow.row_eq, hformer⟩

/-- The first row that an empty heap takes is in the first slot of its first page. -/
theorem places_run_started :
    ∃ pool opened now,
      create { capacity := 1 } (.vacant ["data"]) = .ok pool ∧
      load ((pool.run []).failing fun _ _ => false) = (.ok ⟨none⟩, opened) ∧
      (Table.opened opened ⟨none⟩).run [{ call := .insert [.int 1] }] =
        .opened now ⟨some (.ofIndex 0)⟩ ∧
      ∃ page, now.page? (.ofIndex 0) = some page ∧ page.row 0 = .ok (some [.int 1]) := by
  have hlength : [(1 : UInt8), 1, 0, 0, 0].length ≤ maxTupleSize := by decide
  have hencode : Row.encode [.int 1] = .ok [1, 1, 0, 0, 0] := rfl
  obtain ⟨page, hp⟩ := Page.append_empty (.ofIndex 0) hlength
  let pool : Pool := ⟨.empty, ⟨.clock .empty, none⟩, .vacant ["data"], {}, 1, Nat.one_pos⟩
  let opened : Pool := (pool.getPage (.ofIndex 0)).2
  let now : Pool := opened.enlist (Frame.fresh page (.ofIndex 0))
  have hc : create { capacity := 1 } (.vacant ["data"]) = .ok pool := rfl
  have hload : load ((pool.run []).failing fun _ _ => false) = (.ok ⟨none⟩, opened) :=
    probe_of_isNotFound rfl rfl
  have hupdate : opened.updatePage (.ofIndex 0) page = (.ok (), now) := by
    have hpage : page.id = .ofIndex 0 := Page.id_of_append hp
    rw [updatePage, if_neg (by decide), if_neg (not_not_intro hpage)]
    rfl
  have hinsert : insert ⟨none⟩ (opened.failing fun _ _ => false) [.int 1] =
      (.ok ⟨.ofIndex 0, 0⟩, ⟨some (.ofIndex 0)⟩, now) := by
    have hid : newPage ⟨none⟩ = .ofIndex 0 := rfl
    show insert ⟨none⟩ opened [.int 1] = _
    simp only [insert, hencode, if_pos hlength, insertBytes, insertOnNewPage, hid, hp, hupdate]
  have hstep : (Table.opened opened ⟨none⟩).step { call := .insert [.int 1] } =
      .opened now ⟨some (.ofIndex 0)⟩ := by
    rw [Table.step, Table.serve, hinsert]
  have hlog : (Table.opened opened ⟨none⟩).log [{ call := .insert [.int 1] }] =
      [(⟨.ofIndex 0, 0⟩, [.int 1])] := by
    rw [Table.log, Table.log, Table.inserted, hinsert]
    rfl
  obtain ⟨now', heap, hrun, -, -, -, -, hstarted⟩ :=
    places_run (by simp [Policy.IsNew]) hc [] (fun _ _ => false) hload
      [{ call := .insert [.int 1] }] (by simp)
  cases hstep.symm.trans hrun
  obtain ⟨row, page, hmem, hpage, hrow, -⟩ := hstarted 0 le_rfl (by decide)
  rw [hlog] at hmem
  cases List.mem_singleton.mp hmem
  exact ⟨pool, opened, now, hc, hload, hrun, page, hpage, hrow⟩

end

end Heap

end PagedStorage
