import PagedStorage.Proofs.Disk.TornTail
import PagedStorage.Proofs.Heap.Shows
import PagedStorage.Proofs.Pool.Misses

namespace PagedStorage

theorem DataFile.isFormat_of_read {file : DataFile} {id : PageId} {e : StorageError}
    (hlt : id.index < file.pageCount) (h : file.read id = .error e) :
    ∃ fault, e = .format fault := by
  rw [read, if_pos hlt] at h
  exact Page.isFormat_of_ofImage h

namespace Store

def spelledAt (store : Store) (index : Nat) : Except StorageError Page :=
  Page.ofBytes (.ofIndex index) (store.bytesAt index).toList

theorem read_ofIndex {store : Store} {index : Nat} (hcount : store.contents.pageCount < 4294967295)
    (hlt : index < store.contents.pageCount) :
    store.contents.read (.ofIndex index) = store.spelledAt index := by
  have hindex : (PageId.ofIndex index).index = index := PageId.index_ofIndex (by omega)
  rw [contents_read_eq (hindex.trans_lt hlt), hindex]
  rfl

end Store

namespace FrameTable

/-- The table has only pages in front of `count`, which nobody holds and nobody has changed. -/
def IdleBelow (table : FrameTable) (count : Nat) : Prop :=
  ∀ id frame, table.find? id = some frame → id.index < count ∧ ¬frame.IsDirty ∧ ¬frame.IsPinned

namespace IdleBelow

variable {table after : FrameTable} {count : Nat} {id : PageId}

theorem erase (h : table.IdleBelow count) (id : PageId) : (table.erase id).IdleBelow count := by
  intro other frame hf
  rw [find?_erase] at hf
  split at hf
  · cases hf
  · exact h other frame hf

theorem put_clean (h : table.IdleBelow id.index) (page : Page) :
    (table.put (Frame.clean page id)).IdleBelow (id.index + 1) := by
  intro other frame hf
  rw [find?_put] at hf
  split at hf
  · rename_i hid
    cases hf
    rw [← hid]
    exact ⟨Nat.lt_succ_self _, Frame.not_isDirty_clean page id, Frame.not_isPinned_clean page id⟩
  · obtain ⟨hlt, hidle⟩ := h other frame hf
    exact ⟨Nat.lt_succ_of_lt hlt, hidle⟩

theorem of_sameContents (h : table.IdleBelow count) (hs : table.SameContents after) :
    after.IdleBelow count := by
  intro id frame hf
  obtain ⟨before, hbefore, -, hstate⟩ := hs.exists_find? hf
  rw [Frame.IsDirty, Frame.IsPinned, hstate]
  exact h id before hbefore

theorem find?_eq_none (h : table.IdleBelow id.index) : table.find? id = none := by
  rw [Option.eq_none_iff_forall_ne_some]
  intro frame hf
  exact Nat.lt_irrefl _ (h id frame hf).1

theorem of_mem (h : table.IdleBelow count) : ∀ frame ∈ table.frames,
    ¬frame.IsDirty ∧ ¬frame.IsPinned := by
  intro frame hmem
  exact (h frame.id frame (find?_eq_some_iff_mem.mpr ⟨hmem, rfl⟩)).2

end IdleBelow

end FrameTable

namespace Pool

/-- The calls of a search that has found the first `count` pages, the latest in front. -/
def findings (count : Nat) : List Call :=
  (List.range count).reverse.map fun index => ⟨.read, .ofIndex index, true⟩

/-- A pool over `store` in which a search has come to page `count`. The store has received `calls`,
and nothing else has happened to it. -/
structure Searched (settings : PoolSettings) (store : Store) (count : Nat) (calls : List Call)
    (pool : Pool) : Prop where
  regular : pool.Regular settings
  idle : pool.frames.IdleBelow count
  store_eq : pool.store = { store with calls }

section

variable {settings : PoolSettings} {store : Store} {pool : Pool} {count : Nat} {calls : List Call}
  {id : PageId} {page : Page} {e : StorageError}

theorem findings_succ (id : PageId) :
    findings (id.index + 1) = ⟨.read, id, true⟩ :: findings id.index := by
  rw [findings, List.range_succ, List.reverse_append, List.reverse_singleton, List.map_append,
    List.map_singleton, PageId.ofIndex_index]
  rfl

/-- A page finds room in such a pool. If there is none, a page goes that needs no writing. -/
theorem takeIn_of_idle (h : pool.Regular settings) (hi : pool.frames.IdleBelow id.index)
    (page : Page) :
    ∃ after, pool.takeIn (.clean page id) = (.ok (), after) ∧
      after.frames.IdleBelow (id.index + 1) ∧ after.store = pool.store := by
  rcases ht : pool.takeIn (.clean page id) with ⟨answer, after⟩
  have htaken := h.takesIn_takeIn ht
  rcases Nat.lt_or_eq_of_le (h.capacity ▸ h.size_le) with hlt | hfull
  · obtain ⟨rfl, hframes, hsame, -⟩ := htaken.room hlt
    exact ⟨after, rfl, hframes ▸ hi.put_clean page, hsame⟩
  · have hpos : 0 < pool.frames.frames.length := pool.capacity_pos.trans_eq hfull.symm
    obtain ⟨frame, hmem⟩ := List.exists_mem_of_length_pos hpos
    obtain ⟨victim, hvictim, -, -, hsave, hgone, -⟩ :=
      htaken.evicts hfull ⟨frame, hmem, (hi.of_mem frame hmem).2⟩
    rw [Store.save, if_neg (hi.of_mem victim hvictim).1] at hsave
    obtain ⟨rfl, hsame⟩ := Prod.mk.inj hsave
    obtain ⟨hframes, -, -⟩ := hgone rfl
    exact ⟨after, rfl, ((hi.erase victim.id).put_clean page).of_sameContents hframes, hsame.symm⟩

namespace Searched

theorem read (h : pool.Searched settings store count calls) (hr : store.Readable)
    (hv : id.IsValid) :
    pool.store.read id =
      (store.contents.read id,
        { store with calls := ⟨.read, id, (store.contents.read id).isOk⟩ :: calls }) := by
  have hanswer := hr.read_eq hv
  rw [h.store_eq]
  simp only [Store.read] at hanswer ⊢
  rw [hanswer]
  rfl

theorem getPage_ok (h : pool.Searched settings store id.index calls) (hr : store.Readable)
    (hv : id.IsValid) (hread : store.contents.read id = .ok page) :
    ∃ after, pool.getPage id = (.ok (.clean page id), after) ∧
      after.Searched settings store (id.index + 1) (⟨.read, id, true⟩ :: calls) := by
  let left : Store := { store with calls := ⟨.read, id, true⟩ :: calls }
  have hstore : pool.store.read id = (.ok page, left) := by
    rw [h.read hr hv, hread]
    rfl
  have hloaded : (pool.loadedFrom left).Regular settings := h.regular.of_eq rfl rfl rfl
  obtain ⟨after, htake, hidle, hafter⟩ := takeIn_of_idle hloaded h.idle page
  have hget : pool.getPage id = (.ok (.clean page id), after) := by
    rw [getPage_of_read_ok hv h.idle.find?_eq_none hstore, htake]
    rfl
  exact ⟨after, hget, h.regular.getPage hget, hidle, hafter⟩

theorem getPage_error (h : pool.Searched settings store id.index calls) (hr : store.Readable)
    (hv : id.IsValid) (hread : store.contents.read id = .error e) :
    ∃ after, pool.getPage id = (.error e, after) ∧
      after.Searched settings store id.index (⟨.read, id, false⟩ :: calls) := by
  have hstore := h.read hr hv
  rw [hread] at hstore
  have hget := getPage_of_read_error hv h.idle.find?_eq_none hstore
  exact ⟨_, hget, h.regular.of_eq rfl rfl rfl, h.idle, rfl⟩

end Searched

theorem searched_of_create (hn : ∀ policy ∈ settings.policies, policy.IsNew)
    (h : create settings store = .ok pool) :
    pool.Searched settings store 0 (findings 0 ++ store.calls) := by
  obtain ⟨hframes, hstore⟩ := frames_of_create h
  refine ⟨regular_of_create hn h, ?_, hstore⟩
  intro id frame hf
  rw [hframes] at hf
  cases hf

end

end Pool

namespace Heap

open Pool

section

variable {settings : PoolSettings} {store : Store}

theorem lastPage_eq (heap : Heap) :
    heap.lastPage =
      if heap.pageCount = 0 then none else some (.ofIndex (heap.pageCount - 1)) := by
  obtain ⟨lastPage⟩ := heap
  cases lastPage with
  | none => rfl
  | some last =>
    rw [pageCount, if_neg (Nat.succ_ne_zero _), Nat.add_sub_cancel, PageId.ofIndex_index]

/-- The search ends at the first page that cannot be read. It has asked once for each page up to
that one. -/
theorem probe_searched {pool : Pool} {last : Option PageId} {id : PageId} (hr : store.Readable)
    (hcount : store.contents.pageCount < 4294967295)
    (h : pool.Searched settings store id.index (findings id.index ++ store.calls))
    (hle : id.index ≤ store.contents.pageCount) (hlast : pageCount ⟨last⟩ = id.index) :
    ∃ asked e left after,
      probe pool last id = (if e.isNotFound then .ok left else .error e, after) ∧
      left.pageCount = asked ∧ asked ≤ store.contents.pageCount ∧
      (∀ index, id.index ≤ index → index < asked →
        ∃ page, store.contents.read (.ofIndex index) = .ok page) ∧
      store.contents.read (.ofIndex asked) = .error e ∧
      after.Searched settings store asked
        (⟨.read, .ofIndex asked, false⟩ :: (findings asked ++ store.calls)) := by
  have hv : id.IsValid := PageId.isValid_iff.mpr (hle.trans_lt hcount)
  cases hread : store.contents.read id with
  | error e =>
    obtain ⟨after, hget, hafter⟩ := h.getPage_error hr hv hread
    have hprobe : probe pool last id =
        (if e.isNotFound then .ok ⟨last⟩ else .error e, after) := by
      rw [probe_of_getPage_error hget]
      split <;> rfl
    refine ⟨id.index, e, ⟨last⟩, after, hprobe, hlast, hle, ?_, ?_, ?_⟩
    · intro index hfrom hlt
      omega
    · rwa [PageId.ofIndex_index]
    · rwa [PageId.ofIndex_index]
  | ok page =>
    have hlt : id.index < store.contents.pageCount :=
      (DataFile.block?_eq_some (DataFile.block?_of_read_ok hread).2).1
    have hnext := PageId.index_next hv
    have hknown : pageCount ⟨some id⟩ = id.next.index := hnext.symm
    obtain ⟨after, hget, hafter⟩ := h.getPage_ok hr hv hread
    rw [← List.cons_append, ← findings_succ, ← hnext] at hafter
    obtain ⟨asked, e, left, final, hprobe, hleft, hasked, hfound, hrest⟩ :=
      probe_searched hr hcount hafter (hnext.trans_le hlt) hknown
    rw [← probe_of_getPage_ok hget] at hprobe
    refine ⟨asked, e, left, final, hprobe, hleft, hasked, ?_, hrest⟩
    intro index hfrom hbefore
    rcases Nat.eq_or_lt_of_le hfrom with rfl | hbeyond
    · rw [PageId.ofIndex_index]
      exact ⟨page, hread⟩
    · exact hfound index (hnext.trans_le hbeyond) hbefore
termination_by store.contents.pageCount - id.index
decreasing_by omega

/-- A new pool finds the heap of its file, whatever is in the file and however long it is, as long
as it can be read. The search succeeds just when the bytes of each whole page spell a page, and then
the heap has as many pages as the file; bytes behind the last whole page do not count. Otherwise the
answer is what is wrong with the first page that is none. Each page is read once, up to the one that
ends the search, and nothing is written. No more pages are left in memory than there is room for,
and any of them can be dropped at once. -/
theorem load_fresh {pool : Pool} (hn : ∀ policy ∈ settings.policies, policy.IsNew)
    (hr : store.Readable) (hcount : store.bytes.size / pageSize < 4294967295)
    (hc : create settings store = .ok pool) :
    ∃ answer after asked, load pool = (answer, after) ∧
      (answer.isOk = true ↔
        ∀ index < store.bytes.size / pageSize, ∃ page, store.spelledAt index = .ok page) ∧
      (∀ heap, answer = .ok heap →
        heap.pageCount = store.bytes.size / pageSize ∧
        (store.volume.pageCount store.path).map UInt32.toNat = .ok heap.pageCount ∧
        heap.lastPage =
          if heap.pageCount = 0 then none else some (.ofIndex (heap.pageCount - 1))) ∧
      (∀ e, answer = .error e →
        (∃ fault, e = .format fault) ∧
        ∃ index < store.bytes.size / pageSize, store.spelledAt index = .error e ∧
          ∀ before < index, ∃ page, store.spelledAt before = .ok page) ∧
      asked ≤ store.bytes.size / pageSize ∧
      after.store =
        { store with
          calls := ⟨.read, .ofIndex asked, false⟩ :: (findings asked ++ store.calls) } ∧
      after.frames.size ≤ settings.capacity ∧
      ∀ frame ∈ after.frames.frames, ¬frame.IsDirty ∧ ¬frame.IsPinned := by
  rw [← Store.pageCount_contents] at hcount ⊢
  have hstart := searched_of_create hn hc
  have hknown : pageCount ⟨none⟩ = (PageId.ofIndex 0).index := rfl
  obtain ⟨asked, e, left, after, hload, hleft, hasked, hfound, hend, hafter⟩ :=
    probe_searched hr hcount hstart (Nat.zero_le _) hknown
  have hspelled : ∀ before < asked, ∃ page, store.spelledAt before = .ok page := by
    intro before hlt
    rw [← Store.read_ofIndex hcount (hlt.trans_le hasked)]
    exact hfound before (Nat.zero_le _) hlt
  have hindex : (PageId.ofIndex asked).index = asked := PageId.index_ofIndex (by omega)
  have hbehind := DataFile.isNotFound_of_read hend
  rw [hindex] at hbehind
  refine ⟨_, after, asked, hload, ?_, ?_, ?_, hasked, hafter.store_eq, hafter.regular.size_le,
    hafter.idle.of_mem⟩
  · by_cases hnone : e.isNotFound = true
    · rw [if_pos hnone]
      exact iff_of_true rfl fun index hlt => hspelled index (hlt.trans_le (hbehind.mp hnone))
    · rw [if_neg hnone]
      refine iff_of_false Bool.false_ne_true fun hall => ?_
      have hlt := Nat.lt_of_not_le (hbehind.not.mp hnone)
      obtain ⟨page, hpage⟩ := hall asked hlt
      rw [← Store.read_ofIndex hcount hlt, hend] at hpage
      cases hpage
  · intro heap hok
    split at hok
    · rename_i hnone
      cases hok
      have hpages : left.pageCount = store.contents.pageCount := by
        have hle := hbehind.mp hnone
        omega
      refine ⟨hpages, ?_, lastPage_eq left⟩
      rw [hr.pageCount_eq, hpages]
      exact congrArg Except.ok (UInt32.toNat_ofNat_of_lt' (hcount.trans (by decide)))
    · cases hok
  · intro fault herror
    split at herror
    · cases herror
    · rename_i hnone
      cases herror
      have hlt := Nat.lt_of_not_le (hbehind.not.mp hnone)
      refine ⟨DataFile.isFormat_of_read (hindex.trans_lt hlt) hend, asked, hlt, ?_, hspelled⟩
      rw [← Store.read_ofIndex hcount hlt, hend]

/-- A pool with a single frame finds both pages of a file, though it can keep only one of them. -/
theorem load_fresh_crowded :
    ∃ file pool after,
      file = (DataFile.empty.write (.empty (.ofIndex 0))).write (.empty (.ofIndex 1)) ∧
      create { capacity := 1 } { volume := .holding file, path := ["data"] } = .ok pool ∧
      load pool = (.ok ⟨some (.ofIndex 1)⟩, after) ∧ after.store.volume = .holding file ∧
      after.frames.size ≤ 1 := by
  have hv : (Page.empty (.ofIndex 0)).id.IsValid := by decide
  have hv' : (Page.empty (.ofIndex 1)).id.IsValid := by decide
  let file := (DataFile.empty.write (.empty (.ofIndex 0))).write (.empty (.ofIndex 1))
  let store : Store := { volume := .holding file, path := ["data"] }
  have hpages : store.contents.pageCount = 2 := by
    show DataFile.pageCount ((DataFile.empty.write _).write _) = 2
    rw [DataFile.write_of_isValid _ hv', DataFile.pageCount_writeAt, DataFile.write_of_isValid _ hv,
      DataFile.pageCount_writeAt]
    rfl
  have hcount : store.bytes.size / pageSize = 2 := store.pageCount_contents.symm.trans hpages
  have ht : (store.volume.find store.path).target? = some ⟨0, ["data"]⟩ := rfl
  have hs : store.Reliable := .of_target? ht (fun _ => rfl) fun _ => rfl
  have hread : ∀ index < 2, ∃ page, store.contents.read (.ofIndex index) = .ok page := by
    intro index hlt
    rcases Nat.lt_succ_iff_lt_or_eq.mp hlt with hfirst | rfl
    · obtain rfl := Nat.lt_one_iff.mp hfirst
      have hkept : store.contents.read (.ofIndex 0) =
          (DataFile.empty.write (.empty (.ofIndex 0))).read (.ofIndex 0) :=
        DataFile.read_write_of_ne _ hv' (by decide) (by decide)
      exact ⟨_, hkept.trans (DataFile.read_write_self _ hv)⟩
    · exact ⟨_, DataFile.read_write_self _ hv'⟩
  obtain ⟨pool, hc⟩ : ∃ pool, create { capacity := 1 } store = .ok pool := ⟨_, rfl⟩
  obtain ⟨answer, after, asked, hload, hok, hheap, -, -, hstore, hsize, -⟩ :=
    load_fresh (by simp [Policy.IsNew]) hs.read (by rw [hcount]; decide) hc
  rw [hcount] at hok hheap
  have hfound : answer.isOk = true := by
    refine hok.mpr fun index hlt => ?_
    rw [← Store.read_ofIndex (by rw [hpages]; decide) (hpages.symm ▸ hlt)]
    exact hread index hlt
  cases answer with
  | error e => cases hfound
  | ok heap =>
    obtain ⟨hlength, -, hlast⟩ := hheap heap rfl
    rw [hlength] at hlast
    obtain ⟨lastPage⟩ := heap
    obtain rfl : lastPage = some (.ofIndex 1) := hlast
    exact ⟨file, pool, after, rfl, hc, hload, congrArg Store.volume hstore, hsize⟩

end

end Heap

end PagedStorage
