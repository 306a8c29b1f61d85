import PagedStorage.Proofs.Pool.Contents
import PagedStorage.Proofs.Pool.Formed

namespace PagedStorage

def StorageError.IsRefusal : StorageError → Prop
  | invalidArgument (.withdrawalRefused _) => True
  | _ => False

def PoolSettings.Refuses (settings : PoolSettings) : Prop :=
  ∃ state, Policy.retaining state ∈ settings.policies

theorem Store.not_isRefusal_of_read_error {store after : Store} {id : PageId} {e : StorageError}
    (h : store.read id = (.error e, after)) : ¬e.IsRefusal := by
  have hanswer := congrArg Prod.fst h
  simp only [read, Volume.readPage, DataFile.read, Page.ofImage] at hanswer
  repeat' split at hanswer
  all_goals cases hanswer <;> exact not_false

namespace Policy

variable {policy : Policy} {page : PageId}

/-- Only one kind of policy refuses a page that a pool can have cached. -/
theorem withdraw_cases (policy : Policy) (hv : page.IsValid) :
    (policy.name = "refuse" ∧
        policy.withdraw page = .error (.invalidArgument (.withdrawalRefused page))) ∨
      (policy.name ≠ "refuse" ∧ ∃ left, policy.withdraw page = .ok left) := by
  cases policy with
  | clock state => exact Or.inr ⟨by simp [name], _, rfl⟩
  | lru state =>
    refine Or.inr ⟨by simp [name], lru (state.without page), ?_⟩
    rw [withdraw, Lru.withdraw, if_pos hv]
    rfl
  | idle => exact Or.inr ⟨by simp [name], _, rfl⟩
  | retaining state => exact Or.inl ⟨rfl, rfl⟩

theorem name_eq_refuse : policy.name = "refuse" ↔ ∃ state, policy = retaining state := by
  cases policy <;> simp [name]

end Policy

namespace Policies

variable {policies left : Policies} {page : PageId} {answer : Except StorageError Unit}

/-- A page is refused by the first policy that keeps it, if there is one. -/
theorem withdraw_cases (hv : page.IsValid) (h : policies.withdraw page = (answer, left)) :
    ("refuse" ∈ policies.names ∧
        answer = .error (.invalidArgument (.withdrawalRefused page))) ∨
      ("refuse" ∉ policies.names ∧ answer = .ok ()) := by
  obtain ⟨first, second⟩ := policies
  rw [withdraw] at h
  rcases first.withdraw_cases hv with ⟨hname, hw⟩ | ⟨hname, next, hw⟩
  · simp only [hw] at h
    cases h
    exact Or.inl ⟨hname ▸ List.mem_cons_self, rfl⟩
  simp only [hw] at h
  cases second with
  | none =>
    cases h
    exact Or.inr ⟨by simpa [names, toList] using Ne.symm hname, rfl⟩
  | some second =>
    rcases second.withdraw_cases hv with ⟨hlast, hw'⟩ | ⟨hlast, last, hw'⟩
    · simp only [hw'] at h
      cases h
      exact Or.inl ⟨by simp [names, toList, hlast], rfl⟩
    · simp only [hw'] at h
      cases h
      exact Or.inr ⟨by simpa [names, toList] using ⟨Ne.symm hname, Ne.symm hlast⟩, rfl⟩

end Policies

namespace Pool

/-- What a request or an update that fails leaves of the cached pages: all of them, unless a policy
would not let the victim go, which then is gone. -/
structure Failed (settings : PoolSettings) (pool : Pool) (e : StorageError) (after : Pool) : Prop
    where
  kept : ¬e.IsRefusal → ∀ id, after.Contains id ↔ pool.Contains id
  lost : e.IsRefusal → settings.Refuses ∧
    ∃ victim, e = .invalidArgument (.withdrawalRefused victim) ∧ pool.frames.Evictable victim ∧
      ∀ id, after.Contains id ↔ id ≠ victim ∧ pool.Contains id

section

variable {settings : PoolSettings} {pool after : Pool} {id : PageId} {frame : Frame} {page : Page}
  {e : StorageError} {store : Store}

theorem contains_iff : pool.Contains id ↔ pool.frames.find? id ≠ none := Option.isSome_iff_ne_none

theorem Failed.of_find? (h : ¬e.IsRefusal)
    (hf : ∀ id, after.frames.find? id = none ↔ pool.frames.find? id = none) :
    pool.Failed settings e after where
  kept _ id := by rw [contains_iff, contains_iff, Ne, Ne, hf]
  lost hr := absurd hr h

theorem refuse_mem_names (h : pool.Formed settings) :
    "refuse" ∈ pool.policies.names ↔ settings.Refuses := by
  have hnames : pool.policies.names = settings.policies.map Policy.name := h.names
  simp only [hnames, List.mem_map, Policy.name_eq_refuse, PoolSettings.Refuses]
  constructor
  · rintro ⟨policy, hmem, state, rfl⟩
    exact ⟨state, hmem⟩
  · rintro ⟨state, hmem⟩
    exact ⟨_, hmem, state, rfl⟩

theorem discard_error_cases (h : pool.Formed settings) (hv : id.IsValid)
    (hd : pool.discard id = (.error e, after)) :
    settings.Refuses ∧ e = .invalidArgument (.withdrawalRefused id) := by
  unfold discard at hd
  split at hd <;> rename_i hw <;> cases hd
  rcases Policies.withdraw_cases hv hw with ⟨hrefuse, he⟩ | ⟨-, he⟩
  · cases he
    exact ⟨(refuse_mem_names h).mp hrefuse, rfl⟩
  · cases he

/-- The victim is dropped before it is known whether the policies let it go. -/
theorem failed_makeRoom (h : pool.Formed settings) (hm : pool.makeRoom = (.error e, after)) :
    pool.Failed settings e after := by
  cases makeRoom_outcome hm with
  | noVictim policies frames hr hv =>
    exact .of_find? not_false fun _ => (Policies.sameContents_of_victim hv).find?_eq_none
  | unwritten victim policies frames e after hr hv hw =>
    obtain ⟨fault, rfl⟩ := writeBack_error hw
    exact .of_find? not_false fun _ =>
      (find?_eq_none_of_writeBack hw).trans (Policies.sameContents_of_victim hv).find?_eq_none
  | discarded victim policies frames written answer after hr hv hw hd =>
    have hfree := Policies.evictable_of_victim hv
    have ⟨frame, hf, _⟩ := hfree
    have hvalid := (h.owned victim frame hf).1
    have hwritten := (h.victim hv).writeBack hw
    obtain ⟨hrefuse, rfl⟩ := discard_error_cases hwritten hvalid hd
    refine ⟨fun hn => absurd trivial hn, fun _ => ⟨hrefuse, victim, rfl, hfree, ?_⟩⟩
    intro id
    rw [contains_iff, contains_iff, frames_of_discard hd, FrameTable.find?_erase]
    split
    · rename_i hid
      simp [hid]
    · rename_i hid
      rw [Ne, find?_eq_none_of_writeBack hw, (Policies.sameContents_of_victim hv).find?_eq_none,
        and_iff_right (Ne.symm hid)]

theorem failed_getPage (h : pool.Formed settings) (hg : pool.getPage id = (.error e, after)) :
    pool.Failed settings e after := by
  cases getPage_outcome hg with
  | unaddressable hv => exact .of_find? not_false fun _ => Iff.rfl
  | unread e store hv hf hr =>
    exact .of_find? (Store.not_isRefusal_of_read_error hr) fun _ => Iff.rfl
  | crowded page store e after hv hf hr hm =>
    have hread : (pool.loadedFrom store).Formed settings := h.of_eq rfl rfl
    obtain ⟨hkept, hlost⟩ := failed_makeRoom hread hm
    exact ⟨hkept, hlost⟩

theorem failed_updatePage (h : pool.Formed settings)
    (hu : pool.updatePage id page = (.error e, after)) : pool.Failed settings e after := by
  cases updatePage_outcome hu with
  | unaddressable hv => exact .of_find? not_false fun _ => Iff.rfl
  | misdirected hv hp => exact .of_find? not_false fun _ => Iff.rfl
  | crowded e after hv hp hf hm => exact failed_makeRoom h hm

/-- The pin is set before it is known whether the policies let the page go. -/
theorem pin_of_find? (h : pool.Formed settings) (hf : pool.frames.find? id = some frame) :
    (pool.pin id).2.frames = pool.frames.put (frame.withPinned true) ∧
      (settings.Refuses ∧
          (pool.pin id).1 = .error (.invalidArgument (.withdrawalRefused id)) ∨
        ¬settings.Refuses ∧ (pool.pin id).1 = .ok ()) := by
  have hvalid := (h.owned id frame hf).1
  rcases hw : pool.policies.withdraw id with ⟨answer, policies⟩
  have hcases := Policies.withdraw_cases hvalid hw
  rw [refuse_mem_names h] at hcases
  simp only [pin, hf, hw]
  exact ⟨trivial, hcases⟩

theorem pin_of_find?_none (hf : pool.frames.find? id = none) :
    pool.pin id = (.error (.pageNotFound id), pool) := by
  rw [pin, hf]

/-- A pin that fails changes nothing only where there was nothing to change. -/
theorem pinned_pin_iff (h : pool.Formed settings) (id : PageId) :
    ((pool.pin id).2.frames.Pinned id ↔ pool.frames.Pinned id) ↔ ¬pool.frames.Evictable id := by
  cases hf : pool.frames.find? id with
  | none =>
    rw [pin_of_find?_none hf]
    exact iff_of_true Iff.rfl (FrameTable.not_has_of_find?_none hf)
  | some frame =>
    have hid : frame.id = id := FrameTable.id_of_find? hf
    have hput : (pool.frames.put (frame.withPinned true)).Pinned id := by
      rw [FrameTable.Pinned, FrameTable.has_put, Frame.id_withPinned, if_pos hid]
      rfl
    rw [(pin_of_find? h hf).1, iff_true_left hput, FrameTable.pinned_of_find? hf,
      FrameTable.evictable_of_find? hf, not_not]

/-- What calls leave behind, in any state that a run can reach, if a policy refuses. The pin of a
cached page is set in any case; the call fails if one of the policies keeps every page, so a call
that fails leaves the pin as it was only if the page is not cached or was pinned before. A request
or an update that fails leaves all pages cached, unless it is such a policy that fails it: then the
victim is gone. -/
theorem refusal_run (h : create settings store = .ok pool) (steps : List Step)
    (fails : Access → PageId → Bool) {now : Pool} (hnow : now = (pool.run steps).failing fails)
    (id : PageId) :
    (now.frames.find? id = none → now.pin id = (.error (.pageNotFound id), now)) ∧
    (∀ frame, now.frames.find? id = some frame →
      (now.pin id).2.frames = now.frames.put (frame.withPinned true) ∧
      (settings.Refuses ∧
          (now.pin id).1 = .error (.invalidArgument (.withdrawalRefused id)) ∨
        ¬settings.Refuses ∧ (now.pin id).1 = .ok ())) ∧
    (((now.pin id).2.frames.Pinned id ↔ now.frames.Pinned id) ↔ ¬now.frames.Evictable id) ∧
    (∀ e after, now.getPage id = (.error e, after) → now.Failed settings e after) ∧
    ∀ page e after, now.updatePage id page = (.error e, after) → now.Failed settings e after := by
  have hformed : now.Formed settings := hnow ▸ ((formed_of_create h).run steps).failing fails
  exact ⟨pin_of_find?_none, fun _ => pin_of_find? hformed, pinned_pin_iff hformed id,
    fun _ _ => failed_getPage hformed, fun _ _ _ => failed_updatePage hformed⟩

/-- One policy lets the page go and the other does not: the page is pinned all the same. -/
theorem refusal_run_dual :
    ∃ pool, create (.dual 2 (.clock .empty) (.retaining .empty)) (.vacant ["data"]) = .ok pool ∧
      ∃ now, now = (pool.run [{ operation := .update (.ofIndex 0) (.empty (.ofIndex 0)) }]).failing
          (fun _ _ => false) ∧
        (now.pin (.ofIndex 0)).1 =
          .error (.invalidArgument (.withdrawalRefused (.ofIndex 0))) ∧
        ¬((now.pin (.ofIndex 0)).2.frames.Pinned (.ofIndex 0) ↔
          now.frames.Pinned (.ofIndex 0)) := by
  have hc : create (.dual 2 (.clock .empty) (.retaining .empty)) (.vacant ["data"]) = .ok _ := rfl
  obtain ⟨-, hpin, hpinned, -⟩ := refusal_run hc
    [{ operation := .update (.ofIndex 0) (.empty (.ofIndex 0)) }] (fun _ _ => false) rfl
    (.ofIndex 0)
  obtain ⟨-, ⟨-, hanswer⟩ | ⟨hletgo, -⟩⟩ := hpin (.fresh (.empty (.ofIndex 0)) (.ofIndex 0)) rfl
  · exact ⟨_, hc, _, rfl, hanswer, hpinned.not.mpr (not_not_intro (by decide +kernel))⟩
  · exact absurd ⟨_, List.mem_cons_of_mem _ List.mem_cons_self⟩ hletgo

/-- A refused pin stays, and so does the gap that a refused victim leaves. -/
theorem changed_by_refusal :
    ∃ pool now, create { capacity := 1, policies := [.retaining .empty] } (.vacant ["data"]) =
        .ok pool ∧
      now = pool.run [{ operation := .update (.ofIndex 0) (.empty (.ofIndex 0)) }] ∧
      (∃ e pinned, now.pin (.ofIndex 0) = (.error e, pinned) ∧
        ¬now.frames.Pinned (.ofIndex 0) ∧ pinned.frames.Pinned (.ofIndex 0)) ∧
      now.frames.find? (.ofIndex 1) = none ∧
      ∃ e after, now.updatePage (.ofIndex 1) (.empty (.ofIndex 1)) = (.error e, after) ∧
        now.frames.ids = [.ofIndex 0] ∧ after.frames.ids = [] := by
  refine ⟨_, _, rfl, rfl, ⟨_, _, rfl, ?_, ?_⟩, rfl, _, _, rfl, rfl, rfl⟩
  · exact (FrameTable.pinned_of_find? rfl).not.mpr (Frame.not_isPinned_fresh _ _)
  · exact ⟨(Frame.fresh (.empty (.ofIndex 0)) (.ofIndex 0)).withPinned true, rfl, rfl⟩

end

end Pool

end PagedStorage
