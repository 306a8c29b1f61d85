import PagedStorage.Proofs.Heap.Sessions
import PagedStorage.Proofs.Pool.Calls

namespace PagedStorage

open Pool

namespace Heap

section

variable {pool : Pool}

theorem calling_probe (hc : pool.Coherent) (last : Option PageId) (id : PageId) :
    ∃ made, pool.Calling (probe pool last id).2 (fun other => id.index ≤ other.index) made := by
  fun_induction probe pool last id with
  | case1 pool last id frame read hg ih =>
    have hb := becomes_getPage hc hg
    have hnext := PageId.index_next (isValid_of_getPage hg)
    obtain ⟨earlier, hearlier, hsettled⟩ := calling_getPage hc hg
    obtain ⟨later, hlater⟩ := ih hb.coherent
    refine ⟨later ++ earlier, (hearlier.trans hb (hsettled rfl) hlater ?_).mono ?_⟩
    · rintro other rfl hle
      omega
    · rintro other (rfl | hle)
      · exact le_rfl
      · omega
  | case2 pool last id e read hg hnone =>
    obtain ⟨made, hmade, -⟩ := calling_getPage hc hg
    exact ⟨made, hmade.mono fun other hother => hother ▸ le_rfl⟩
  | case3 pool last id e read hg hfound =>
    obtain ⟨made, hmade, -⟩ := calling_getPage hc hg
    exact ⟨made, hmade.mono fun other hother => hother ▸ le_rfl⟩

theorem calling_get (hc : pool.Coherent) (record : RecordId) :
    ∃ made, pool.Calling (get pool record).2 (· = record.page) made := by
  unfold get
  split <;> rename_i hg
  · obtain ⟨made, hmade, -⟩ := calling_getPage hc hg
    exact ⟨made, hmade⟩
  · obtain ⟨made, hmade, -⟩ := calling_getPage hc hg
    exact ⟨made, hmade⟩

theorem calling_insertOnNewPage (hc : pool.Coherent) (heap : Heap) (bytes : List UInt8) :
    ∃ made, pool.Calling (heap.insertOnNewPage pool bytes).2.2 noReads made := by
  unfold insertOnNewPage
  dsimp only
  split
  · exact ⟨[], .of_calls_eq rfl⟩
  · split <;> rename_i hu <;> exact calling_updatePage hc hu

theorem calling_insertBytes (hc : pool.Coherent) (heap : Heap) (bytes : List UInt8) :
    ∃ reads made, pool.Calling (heap.insertBytes pool bytes).2.2 reads made := by
  unfold insertBytes
  split
  · exact ⟨_, calling_insertOnNewPage hc heap bytes⟩
  · split
    · rename_i hg
      obtain ⟨made, hmade, -⟩ := calling_getPage hc hg
      exact ⟨_, made, hmade⟩
    · rename_i frame read hg
      have hb := becomes_getPage hc hg
      obtain ⟨earlier, hearlier, hsettled⟩ := calling_getPage hc hg
      -- An update reads nothing, so it can follow on the read of the last page.
      have hthen : ∀ {after : Pool}, (∃ later, read.Calling after noReads later) →
          ∃ reads made, pool.Calling after reads made := by
        rintro after ⟨later, hlater⟩
        exact ⟨_, later ++ earlier, hearlier.trans_noReads hb (hsettled rfl) hlater⟩
      split
      · split <;> rename_i hu <;> exact hthen (calling_updatePage hb.coherent hu)
      · split
        · exact hthen (calling_insertOnNewPage hb.coherent heap bytes)
        · exact ⟨_, earlier, hearlier⟩

theorem calling_insert (hc : pool.Coherent) (heap : Heap) (row : Row) :
    ∃ reads made, pool.Calling (heap.insert pool row).2.2 reads made := by
  unfold insert
  split
  · exact ⟨noReads, [], .of_calls_eq rfl⟩
  · split
    · exact calling_insertBytes hc heap _
    · exact ⟨noReads, [], .of_calls_eq rfl⟩

end

end Heap

namespace Scan

def between (first bound : Nat) (id : PageId) : Prop := first ≤ id.index ∧ id.index < bound

/-- The way of a scan from page `first` on to where it is now. Unless it is finished, it will ask
for none of the pages again and write none of them again. -/
def Passed (pool after : Pool) (first : Nat) (scan : Scan) : Prop :=
  ∃ bound made, pool.Calling after (between first bound) made ∧
    (scan.finished = false → first ≤ bound ∧ bound ≤ scan.nextPage.index ∧ after.Settled made)

section

variable {pool mid after : Pool} {id : PageId} {first : Nat} {scan further : Scan}

theorem passed_refl (pool : Pool) (hle : first ≤ scan.nextPage.index) :
    Passed pool pool first scan :=
  ⟨first, [], .of_calls_eq rfl, fun _ => ⟨le_rfl, hle, settled_nil pool⟩⟩

theorem Passed.trans (h : Passed pool mid first scan) (hf : scan.finished = false)
    (hb : pool.Becomes mid noImages) (hb' : mid.Becomes after noImages)
    (h' : Passed mid after scan.nextPage.index further) : Passed pool after first further := by
  obtain ⟨bound, earlier, hearlier, hgoing⟩ := h
  obtain ⟨bound', later, hlater, hgoing'⟩ := h'
  obtain ⟨hfirst, hbound, hsettled⟩ := hgoing hf
  refine ⟨max bound bound', later ++ earlier, ?_, ?_⟩
  · -- The second stretch starts where the first one has ended, so it asks for other pages.
    refine (hearlier.trans hb hsettled hlater ?_).mono ?_
    · rintro id ⟨-, hlt⟩ ⟨hle, -⟩
      omega
    · rintro id (⟨hle, hlt⟩ | ⟨hle, hlt⟩)
      · exact ⟨hle, Nat.lt_of_lt_of_le hlt (Nat.le_max_left _ _)⟩
      · exact ⟨(hfirst.trans hbound).trans hle, Nat.lt_of_lt_of_le hlt (Nat.le_max_right _ _)⟩
  · intro hdone
    obtain ⟨hfirst', hbound', hsettled'⟩ := hgoing' hdone
    refine ⟨hfirst.trans (Nat.le_max_left _ _), ?_, hsettled.append hb' hsettled'⟩
    exact Nat.max_le.mpr ⟨(hbound.trans hfirst').trans hbound', hbound'⟩

/-- One request of a scan, which is then behind the page or finished. -/
theorem passed_getPage (hc : pool.Coherent) {answer : Except StorageError Frame}
    (hg : pool.getPage id = (answer, after))
    (hf : scan.finished = true ∨ answer.isOk = true ∧ scan.nextPage = id.next) :
    Passed pool after id.index scan := by
  obtain ⟨made, hmade, hsettled⟩ := calling_getPage hc hg
  refine ⟨id.index + 1, made, hmade.mono ?_, ?_⟩
  · rintro other rfl
    exact ⟨le_rfl, Nat.lt_succ_self _⟩
  · intro hgoing
    obtain ⟨hok, hnext⟩ := hf.resolve_left (Bool.eq_false_iff.mp hgoing)
    refine ⟨Nat.le_succ _, ?_, hsettled hok⟩
    cases answer with
    | ok frame => rw [hnext, PageId.index_next (Heap.isValid_of_getPage hg)]
    | error e => cases hok

theorem passed_advance (hc : pool.Coherent) (id : PageId) :
    Passed pool (advance pool id).2.2 id.index (advance pool id).2.1 := by
  fun_induction advance pool id with
  | case1 pool id e read hg stopped hnone => exact passed_getPage hc hg (Or.inl rfl)
  | case2 pool id e read hg stopped hfound => exact passed_getPage hc hg (Or.inl rfl)
  | case3 pool id frame read hg e hrows => exact passed_getPage hc hg (Or.inl rfl)
  | case4 pool id frame read hg hrows ih =>
    have hskip : Passed pool read id.index { nextPage := id.next } :=
      passed_getPage hc hg (Or.inr ⟨rfl, rfl⟩)
    have hb := becomes_getPage hc hg
    exact hskip.trans rfl hb (becomes_advance hb.coherent id.next) (ih hb.coherent)
  | case5 pool id frame read hg slot row rows hrows pending =>
    exact passed_getPage hc hg (Or.inr ⟨rfl, rfl⟩)

theorem passed_next (hc : pool.Coherent) (scan : Scan) :
    Passed pool (scan.next pool).2.2 scan.nextPage.index (scan.next pool).2.1 := by
  rw [next]
  split
  · exact passed_refl pool le_rfl
  · split
    · exact passed_refl pool le_rfl
    · exact passed_advance hc scan.nextPage

theorem passed_take (hc : pool.Coherent) (scan : Scan) (limit : Nat) :
    Passed pool (scan.take pool limit).2.2 scan.nextPage.index (scan.take pool limit).2.1 := by
  induction limit generalizing pool scan with
  | zero => exact passed_refl pool le_rfl
  | succ limit ih =>
    have hnext := passed_next hc scan
    have hb := becomes_next hc scan
    rw [take]
    generalize scan.next pool = result at hnext hb ⊢
    obtain ⟨answer, further, read⟩ := result
    cases answer with
    | none => exact hnext
    | some answer =>
      dsimp only
      cases hf : further.finished with
      | true => rwa [take_of_finished read hf]
      | false =>
        have hrest := becomes_take hb.coherent further limit
        exact hnext.trans hf hb hrest (ih hb.coherent further)

end

end Scan

namespace Table

def store : Table → Store
  | closed store => store
  | opened pool _ => pool.store

section

variable {pages : List (List Row)} {table : Table} {store : Store} {pool : Pool} {heap : Heap}

theorem asksOnce_openWith (hw : store.Whole) (settings : PoolSettings) :
    store.AsksOnce (openWith store settings).store := by
  unfold openWith
  split
  · exact .refl store
  · rename_i pool hcreate
    have hstore := (frames_of_create hcreate).2
    obtain ⟨made, hmade⟩ :=
      Heap.calling_probe (coherent_of_create hw hcreate) none (PageId.ofIndex 0)
    rw [← hstore]
    split <;> rename_i hload <;> rw [Heap.load] at hload <;> rw [hload] at hmade
    · exact hmade.asksOnce
    · exact hmade.asksOnce

theorem asksOnce_serve (hc : pool.Coherent) (heap : Heap) (call : Call) :
    pool.store.AsksOnce (serve pool heap call).store := by
  cases call with
  | start settings => exact .refl pool.store
  | close =>
    rw [serve]
    split
    · rename_i hflush
      obtain ⟨made, hmade⟩ := calling_flushPages hc hflush
      exact hmade.asksOnce
    · rename_i hflush
      obtain ⟨made, hmade⟩ := calling_flushPages hc hflush
      exact hmade.asksOnce
  | insert row =>
    obtain ⟨reads, made, hmade⟩ := Heap.calling_insert hc heap row
    exact hmade.asksOnce
  | get record =>
    obtain ⟨made, hmade⟩ := Heap.calling_get hc record
    exact hmade.asksOnce
  | scan limit =>
    obtain ⟨bound, made, hmade, -⟩ := Scan.passed_take hc {} limit
    exact hmade.asksOnce
  | scanRows limit =>
    obtain ⟨bound, made, hmade, -⟩ := Scan.passed_take hc {} limit
    rw [serve, Scan.takeRows_eq]
    exact hmade.asksOnce
  | request request =>
    obtain ⟨reads, made, hmade⟩ := calling_serve hc request
    exact hmade.asksOnce

theorem asksOnce_step (h : table.Keeps pages) (event : Event) :
    table.store.AsksOnce (table.step event).store := by
  obtain ⟨call, fails⟩ := event
  cases table with
  | closed store =>
    cases call with
    | start settings =>
      have hw := (Store.sameFile_failing store fails).whole h.1
      exact (asksOnce_openWith hw settings).of_calls_eq rfl
    | close => exact .refl store
    | insert row => exact .refl store
    | get record => exact .refl store
    | scan limit => exact .refl store
    | scanRows limit => exact .refl store
    | request request => exact .refl store
  | opened pool heap =>
    have hc := (keeps_failing h fails).coherent
    exact (asksOnce_serve hc heap call).of_calls_eq rfl

/-- Whatever the history of a table, its next call reads no page twice and writes none twice. -/
theorem asksOnce_run (hm : store.IsMissing) (events : List Event) (event : Event) :
    ((closed store).run events).store.AsksOnce (((closed store).run events).step event).store := by
  obtain ⟨pages, hkeeps, -⟩ := keeps_run (keeps_of_isMissing hm) events
  exact asksOnce_step hkeeps event

end

end Table

end PagedStorage
