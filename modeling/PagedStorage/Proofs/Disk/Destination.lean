import PagedStorage.Disk.Volume.Lemmas

namespace PagedStorage

def Location.move (here : Location) (piece : String) : Location :=
  if Path.IsIdle piece then here else if piece = ".." then here.up else here.down piece

/-- Where a path leads once all directories on its way are there. -/
def Path.destination (path : Path) : Location := path.foldl Location.move .start

def Place.location? : Place → Option Location
  | .vacant location | .directory location | .file location _ => some location
  | _ => none

theorem Place.eq_of_target? {place : Place} {location : Location}
    (h : place.target? = some location) :
    place = .vacant location ∨ ∃ contents, place = .file location contents := by
  cases place with
  | missing => cases h
  | vacant there =>
    cases h
    exact Or.inl rfl
  | directory there => cases h
  | file there contents =>
    cases h
    exact Or.inr ⟨contents, rfl⟩
  | blocked => cases h

namespace Volume

def file? (volume : Volume) (path : Path) : Option DataFile :=
  match volume.find path with
  | .file _ contents => some contents
  | _ => none

/-- What a file under the path is made of when it is changed: the file that stands at the
destination, be it hidden, or an empty one. -/
def base (volume : Volume) (path : Path) : DataFile :=
  match volume.node? path.destination with
  | some (.file contents) => contents
  | _ => DataFile.empty

/-- The path finds the file that stands at its destination. A path hides a file if it goes through a
missing directory and up again: making that directory would uncover the file. -/
def Reveals (volume : Volume) (path : Path) : Prop :=
  ∀ contents, volume.node? path.destination = some (.file contents) →
    volume.find path = .file path.destination contents

section

variable {volume : Volume} {here location : Location} {path : Path} {contents : DataFile}

theorem location?_step {piece : String}
    (h : (volume.step here piece).location? = some location) : location = here.move piece := by
  simp only [step] at h
  simp only [Location.move]
  repeat' split at h
  all_goals simp_all [Place.location?]

theorem eq_move_of_target? {piece : String}
    (h : (volume.step here piece).target? = some location) : location = here.move piece := by
  apply location?_step
  rcases Place.eq_of_target? h with hs | ⟨found, hs⟩ <;> rw [hs] <;> rfl

/-- Where a file can be written, one is found if it stands there. -/
theorem node?_step_iff {piece : String} (h : (volume.step here piece).target? = some location) :
    volume.node? location = some (.file contents) ↔
      volume.step here piece = .file location contents := by
  rcases Place.eq_of_target? h with hs | ⟨found, hs⟩
  · rw [hs, (node?_of_step_vacant hs).2]
    exact ⟨nofun, nofun⟩
  · rw [hs]
    simp only [step] at hs
    repeat' split at hs
    all_goals cases hs
    rename_i hnode
    rw [hnode]
    simp

theorem follow_of_target? (h : (volume.follow here path).target? = some location) :
    location = path.foldl Location.move here ∧
      ∀ contents, volume.node? location = some (.file contents) ↔
        volume.follow here path = .file location contents := by
  induction path generalizing here with
  | nil => cases h
  | cons piece path ih =>
    rw [follow] at h ⊢
    split at h
    · rename_i there hs
      have hthere : there = here.move piece := location?_step (congrArg Place.location? hs)
      subst hthere
      exact ih h
    · cases path with
      | nil => exact ⟨eq_move_of_target? h, fun _ => node?_step_iff h⟩
      | cons next path =>
        -- A walk that stops before the last piece stops where no file can be.
        rw [target?_past_cons] at h
        cases h

theorem find_of_target? (h : (volume.find path).target? = some location) :
    location = path.destination ∧
      ∀ contents, volume.node? location = some (.file contents) ↔
        volume.find path = .file location contents := by
  rw [find] at h ⊢
  split at h
  · rw [if_pos ‹_›]
    exact follow_of_target? h
  · cases h

theorem find_eq_file (h : volume.find path = .file location contents) :
    location = path.destination ∧ volume.node? location = some (.file contents) := by
  obtain ⟨hdest, hnode⟩ := find_of_target? (congrArg Place.target? h)
  exact ⟨hdest, (hnode contents).mpr h⟩

theorem file?_eq_some_iff :
    volume.file? path = some contents ↔ volume.find path = .file path.destination contents := by
  rw [file?]
  constructor
  · intro h
    split at h
    · rename_i found hf
      cases h
      rw [hf, (find_eq_file hf).1]
    · cases h
  · intro h
    rw [h]

theorem base_of_node? (h : volume.node? path.destination = some (.file contents)) :
    volume.base path = contents := by
  rw [base, h]

theorem base_of_no_file (h : ∀ contents, volume.node? path.destination ≠ some (.file contents)) :
    volume.base path = DataFile.empty := by
  rw [base]
  split
  · rename_i contents hc
    exact absurd hc (h contents)
  · rfl

theorem base_of_file? (h : volume.file? path = some contents) : volume.base path = contents :=
  base_of_node? (find_eq_file (file?_eq_some_iff.mp h)).2

theorem base_congr {other : Volume}
    (h : ∀ contents, other.node? path.destination = some (.file contents) ↔
      volume.node? path.destination = some (.file contents)) :
    other.base path = volume.base path := by
  by_cases hn : ∃ contents, volume.node? path.destination = some (.file contents)
  · obtain ⟨contents, hc⟩ := hn
    rw [base_of_node? hc, base_of_node? ((h contents).mpr hc)]
  · rw [not_exists] at hn
    rw [base_of_no_file hn, base_of_no_file fun contents hc => hn contents ((h contents).mp hc)]

/-- A path that finds a file hides none. -/
theorem reveals_of_find (h : volume.find path = .file location contents) : volume.Reveals path := by
  intro found hfound
  obtain ⟨rfl, hn⟩ := find_eq_file h
  rw [hn] at hfound
  cases hfound
  exact h

/-- Where no file stands at the destination none is found, and none is hidden. -/
theorem reveals_of_no_file (h : ∀ contents, volume.node? path.destination ≠ some (.file contents)) :
    volume.Reveals path := fun contents hc => absurd hc (h contents)

theorem node?_empty_ne_file (location : Location) (contents : DataFile) :
    empty.node? location ≠ some (.file contents) := by
  intro h
  change (if location.names = [] then some Node.directory else none) =
    some (Node.file contents) at h
  split at h <;> cases h

theorem file?_of_no_file (h : ∀ contents, volume.node? path.destination ≠ some (.file contents)) :
    volume.file? path = none := by
  rw [Option.eq_none_iff_forall_ne_some]
  intro contents hc
  exact h contents (find_eq_file (file?_eq_some_iff.mp hc)).2

theorem no_file_of_reveals (hr : volume.Reveals path) (hf : volume.file? path = none) :
    ∀ contents, volume.node? path.destination ≠ some (.file contents) := by
  intro contents hc
  rw [file?_eq_some_iff.mpr (hr contents hc)] at hf
  cases hf

theorem base_eq_getD (hr : volume.Reveals path) :
    volume.base path = (volume.file? path).getD DataFile.empty := by
  cases hf : volume.file? path with
  | some contents => exact base_of_file? hf
  | none => exact base_of_no_file (no_file_of_reveals hr hf)

theorem contents_of_target? (h : (volume.find path).target? = some location) :
    (volume.find path).contents = volume.base path := by
  rcases Place.eq_of_target? h with hplace | ⟨contents, hplace⟩
  · rw [hplace]
    refine (base_of_no_file fun contents hc => ?_).symm
    obtain ⟨rfl, hnode⟩ := find_of_target? h
    cases hplace.symm.trans ((hnode contents).mp hc)
  · obtain ⟨rfl, hnode⟩ := find_eq_file hplace
    rw [hplace]
    exact (base_of_node? hnode).symm

end

section

variable {volume after : Volume} {path : Path} {change : DataFile → DataFile}

/-- A change that succeeds is made to the file at the destination, or to an empty one. -/
theorem file?_modify (h : volume.modify path change = (.ok (), after)) :
    after.file? path = some (change (volume.base path)) := by
  obtain ⟨location, htarget, hfind⟩ := find_modify h
  obtain ⟨rfl, -⟩ := find_eq_file hfind
  rw [file?_eq_some_iff.mpr hfind, contents_of_target? htarget]
  -- Making the parent adds directories alone.
  exact congrArg (fun file => some (change file))
    (base_congr fun _ => node?_makeDirectories_eq_file_iff)

theorem file?_modify_of_ok (hr : volume.Reveals path)
    (h : volume.modify path change = (.ok (), after)) :
    after.file? path = some (change ((volume.file? path).getD DataFile.empty)) ∧
      after.Reveals path := by
  obtain ⟨location, -, hfind⟩ := find_modify h
  rw [file?_modify h, base_eq_getD hr]
  exact ⟨rfl, reveals_of_find hfind⟩

theorem file?_modify_of_error {e : StorageError}
    (h : volume.modify path change = (.error e, after)) :
    after.file? path = volume.file? path := by
  have hnone : ∀ {v : Volume}, (∀ location contents, v.find path ≠ .file location contents) →
      v.file? path = none := by
    intro v hv
    rw [Option.eq_none_iff_forall_ne_some]
    intro contents hc
    exact hv _ contents (file?_eq_some_iff.mp hc)
  have hfile := find_ne_file_of_modify_error h
  rw [hnone fun location contents => (hfile location contents).1,
    hnone fun location contents => (hfile location contents).2]

theorem base_modify_of_error {e : StorageError}
    (h : volume.modify path change = (.error e, after)) : after.base path = volume.base path :=
  base_congr fun _ => node?_eq_file_iff_of_modify_error h

theorem reveals_modify_of_error {e : StorageError} (hr : volume.Reveals path)
    (h : volume.modify path change = (.error e, after)) : after.Reveals path := by
  intro contents hc
  have hbefore := hr contents ((node?_eq_file_iff_of_modify_error h).mp hc)
  exact absurd hbefore (find_ne_file_of_modify_error h _ _).1

theorem extend_error {here : Location} {e : StorageError}
    (h : (volume.extend here path).1 = .error e) : e = .io .system := by
  induction path generalizing volume here with
  | nil => cases h
  | cons piece path ih =>
    rw [extend] at h
    split at h
    · exact ih h
    · exact ih h
    · cases h
      rfl

/-- A change that fails for what is on the volume fails again, and changes nothing any more. -/
theorem modify_of_modify_error {e : StorageError}
    (h : volume.modify path change = (.error e, after)) (other : DataFile → DataFile) :
    after.modify path other = (.error e, after) := by
  rw [modify] at h ⊢
  split at h
  · rename_i hm
    cases h
    rw [makeDirectories_makeDirectories hm]
  · rename_i hm
    simp only at h
    split at h
    · cases h
    · rename_i htarget
      cases h
      rw [makeDirectories_makeDirectories hm]
      simp only [htarget]

/-- Whether a file can be changed has nothing to do with the change. -/
theorem fst_modify (volume : Volume) (path : Path) (change other : DataFile → DataFile) :
    (volume.modify path change).1 = (volume.modify path other).1 := by
  unfold modify
  split
  · rfl
  · simp only
    split <;> rfl

/-- No change has an effect on whether others can be made. -/
theorem fst_modify_of_modify {answer : Except StorageError Unit}
    (h : volume.modify path change = (answer, after)) (other : DataFile → DataFile) :
    (after.modify path other).1 = (volume.modify path other).1 := by
  rw [fst_modify volume path other change, h]
  cases answer with
  | error e => rw [modify_of_modify_error h other]
  | ok done =>
    obtain ⟨location, -, hfind⟩ := find_modify h
    rw [modify_of_target? (congrArg Place.target? hfind)]

theorem modify_error {e : StorageError} (h : volume.modify path change = (.error e, after)) :
    e = .io .system := by
  rw [modify] at h
  split at h
  · rename_i hm
    cases h
    rw [makeDirectories] at hm
    split at hm
    · exact extend_error (congrArg Prod.fst hm)
    · cases hm
      rfl
  · simp only at h
    split at h <;> cases h
    rfl

end

end Volume

end PagedStorage
