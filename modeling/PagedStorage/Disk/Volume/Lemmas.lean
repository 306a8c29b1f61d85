import PagedStorage.Disk.Volume.Basic

namespace PagedStorage

namespace Volume

theorem lookup_filter_of_ne (nodes : List (Location × Node)) {location other : Location}
    (h : other ≠ location) :
    (nodes.filter fun entry => entry.1 ≠ location).lookup other = nodes.lookup other := by
  induction nodes with
  | nil => rfl
  | cons entry nodes ih =>
    obtain ⟨name, node⟩ := entry
    by_cases hp : name = location
    · have ho : (other == name) = false := by simpa [hp] using h
      rw [List.filter_cons_of_neg (by simp [hp]), ih, List.lookup_cons, ho]
    · rw [List.filter_cons_of_pos (by simp [hp]), List.lookup_cons, List.lookup_cons, ih]

theorem node?_put_self (volume : Volume) {location : Location} (h : location.names ≠ [])
    (node : Node) : (volume.put location node).node? location = some node := by
  simp [node?, put, h]

theorem node?_put_of_ne (volume : Volume) {location other : Location} (h : other ≠ location)
    (node : Node) : (volume.put location node).node? other = volume.node? other := by
  have ho : (other == location) = false := by simpa using h
  simp only [node?, put, List.lookup_cons, ho, lookup_filter_of_ne volume.nodes h]

theorem target?_past_cons (place : Place) (piece : String) (path : Path) :
    (place.past (piece :: path)).target? = none := by
  cases place <;> rfl

theorem past_ne_directory {place : Place} (h : ∀ here, place ≠ .directory here) (path : Path)
    (there : Location) : place.past path ≠ .directory there := by
  cases path with
  | nil => exact h there
  | cons => cases place <;> exact nofun

theorem follow_append (volume : Volume) (here : Location) (front rest : Path) :
    volume.follow here (front ++ rest) =
      match volume.follow here front with
      | .directory there => volume.follow there rest
      | place => place.past rest := by
  induction front generalizing here with
  | nil => rfl
  | cons piece front ih =>
    simp only [List.cons_append, follow]
    cases volume.step here piece with
    | directory there => exact ih there
    | missing => cases front <;> cases rest <;> rfl
    | vacant => cases front <;> cases rest <;> rfl
    | file => cases front <;> cases rest <;> rfl
    | blocked => cases front <;> cases rest <;> rfl

/-- Where all directories are in place none is made. -/
theorem extend_of_follow {volume : Volume} {here there : Location} {path : Path}
    (h : volume.follow here path = .directory there) :
    volume.extend here path = (.ok (), volume) := by
  induction path generalizing here with
  | nil => rfl
  | cons piece path ih =>
    rw [follow] at h
    rw [extend]
    split at h
    · rename_i hs
      rw [hs]
      exact ih h
    · rename_i hs
      exact absurd h (past_ne_directory hs path there)

theorem node?_of_step_vacant {volume : Volume} {here there : Location} {piece : String}
    (h : volume.step here piece = .vacant there) :
    there.names ≠ [] ∧ volume.node? there = none := by
  simp only [step] at h
  repeat' split at h
  all_goals cases h
  rename_i hnone
  exact ⟨List.cons_ne_nil _ _, hnone⟩

/-- Directories are only made where nothing was, so every file stays and none appears. -/
theorem node?_extend_eq_file_iff {volume : Volume} {here location : Location} {path : Path}
    {contents : DataFile} :
    (volume.extend here path).2.node? location = some (.file contents) ↔
      volume.node? location = some (.file contents) := by
  induction path generalizing volume here with
  | nil => rfl
  | cons piece path ih =>
    rw [extend]
    split
    · exact ih
    · rename_i there hs
      obtain ⟨hnames, hnone⟩ := node?_of_step_vacant hs
      rw [ih]
      by_cases hl : location = there
      · subst hl
        rw [node?_put_self volume hnames, hnone]
        exact ⟨nofun, nofun⟩
      · rw [node?_put_of_ne volume hl]
    · rfl

theorem node?_extend_of_directory {volume : Volume} {here location : Location} {path : Path}
    (h : volume.node? location = some .directory) :
    (volume.extend here path).2.node? location = some .directory := by
  induction path generalizing volume here with
  | nil => exact h
  | cons piece path ih =>
    rw [extend]
    split
    · exact ih h
    · rename_i there hs
      apply ih
      obtain ⟨hnames, hnone⟩ := node?_of_step_vacant hs
      have hne : location ≠ there := by
        rintro rfl
        rw [h] at hnone
        cases hnone
      rw [node?_put_of_ne volume hne, h]
    · exact h

theorem step_extend_of_directory {volume : Volume} {here there : Location} {piece : String}
    (h : volume.step here piece = .directory there) (start : Location) (path : Path) :
    (volume.extend start path).2.step here piece = .directory there := by
  simp only [step] at h ⊢
  split at h
  · rw [if_pos ‹_›, h]
  · split at h
    · rw [if_neg ‹_›, if_pos ‹_›, h]
    · split at h
      · cases h
      · split at h
        · cases h
        · rename_i hn
          rw [if_neg ‹_›, if_neg ‹_›, if_neg ‹_›, node?_extend_of_directory hn]
          exact h
        · cases h

theorem step_put_directory {volume : Volume} {here there : Location} {piece : String}
    (h : volume.step here piece = .vacant there) :
    (volume.put there .directory).step here piece = .directory there := by
  have hnode (node : Node) : (volume.put (here.down piece) node).node? (here.down piece) =
      some node := node?_put_self volume (List.cons_ne_nil _ _) node
  simp only [step] at h ⊢
  repeat' split at h
  all_goals cases h
  rw [if_neg ‹_›, if_neg ‹_›, if_neg ‹_›, hnode]

/-- Once as many directories are made as can be, there are no more to make. -/
theorem extend_extend {volume after : Volume} {here : Location} {path : Path}
    {answer : Except StorageError Unit} (h : volume.extend here path = (answer, after)) :
    after.extend here path = (answer, after) := by
  induction path generalizing volume here with
  | nil =>
    cases h
    rfl
  | cons piece path ih =>
    rw [extend] at h
    have hafter : ∀ {before : Volume} {there : Location},
        before.extend there path = (answer, after) →
        before.step here piece = .directory there → after.step here piece = .directory there := by
      intro before there hrest hs
      have hstep := step_extend_of_directory hs there path
      rwa [hrest] at hstep
    split at h
    · rename_i there hs
      rw [extend, hafter h hs]
      exact ih h
    · rename_i there hs
      rw [extend, hafter h (step_put_directory hs)]
      exact ih h
    · rename_i hdirectory hvacant
      cases h
      rw [extend]
      split
      · rename_i there hs
        exact absurd hs (hdirectory there)
      · rename_i there hs
        exact absurd hs (hvacant there)
      · rfl

theorem node?_makeDirectories_eq_file_iff {volume : Volume} {path : Path} {location : Location}
    {contents : DataFile} :
    (volume.makeDirectories path).2.node? location = some (.file contents) ↔
      volume.node? location = some (.file contents) := by
  rw [makeDirectories]
  split
  · exact node?_extend_eq_file_iff
  · rfl

theorem node?_eq_file_iff_of_modify_error {volume after : Volume} {path : Path}
    {change : DataFile → DataFile} {e : StorageError} {location : Location} {contents : DataFile}
    (h : volume.modify path change = (.error e, after)) :
    after.node? location = some (.file contents) ↔
      volume.node? location = some (.file contents) := by
  have hafter : after = (volume.makeDirectories path.parent).2 := by
    rw [modify] at h
    split at h
    · rename_i hm
      cases h
      rw [hm]
    · rename_i hm
      rw [hm]
      simp only at h ⊢
      split at h <;> cases h
      rfl
  rw [hafter]
  exact node?_makeDirectories_eq_file_iff

/-- Where a file is found, or can be made, there is no directory left to make. -/
theorem makeDirectories_of_target? {volume : Volume} {path : Path} {location : Location}
    (h : (volume.find path).target? = some location) :
    volume.makeDirectories path.parent = (.ok (), volume) := by
  rw [find] at h
  split at h
  · rename_i husable
    have hne : path ≠ [] := by
      rintro rfl
      cases h
    obtain ⟨rest, hrest, hpath⟩ := Path.exists_parent_append hne
    rw [← hpath] at h husable
    rw [makeDirectories, if_pos husable.of_append]
    rw [follow_append] at h
    split at h
    · rename_i hparent
      exact extend_of_follow hparent
    · cases rest with
      | nil => exact absurd rfl hrest
      | cons piece rest =>
        rw [target?_past_cons] at h
        cases h
  · cases h

theorem makeDirectories_of_file {volume : Volume} {path : Path} {location : Location}
    {contents : DataFile} (h : volume.find path = .file location contents) :
    volume.makeDirectories path.parent = (.ok (), volume) :=
  makeDirectories_of_target? (congrArg Place.target? h)

theorem makeDirectories_makeDirectories {volume after : Volume} {path : Path}
    {answer : Except StorageError Unit} (h : volume.makeDirectories path = (answer, after)) :
    after.makeDirectories path = (answer, after) := by
  rw [makeDirectories] at h ⊢
  split at h
  · rw [if_pos ‹_›]
    exact extend_extend h
  · cases h
    rw [if_neg ‹_›]

/-- A file that is there is changed in its place, and a missing one is made there. -/
theorem modify_of_target? {volume : Volume} {path : Path} {location : Location}
    (h : (volume.find path).target? = some location) (change : DataFile → DataFile) :
    volume.modify path change =
      (.ok (), volume.put location (.file (change (volume.find path).contents))) := by
  simp only [modify, makeDirectories_of_target? h, h]

theorem modify_of_file {volume : Volume} {path : Path} {location : Location} {contents : DataFile}
    (h : volume.find path = .file location contents) (change : DataFile → DataFile) :
    volume.modify path change = (.ok (), volume.put location (.file (change contents))) := by
  simp only [modify, makeDirectories_of_file h, h, Place.target?, Place.contents]

/-- A change fails only where no file is found, and the directories that it leaves behind uncover
none. -/
theorem find_ne_file_of_modify_error {volume after : Volume} {path : Path}
    {change : DataFile → DataFile} {e : StorageError}
    (h : volume.modify path change = (.error e, after)) (location : Location)
    (contents : DataFile) :
    volume.find path ≠ .file location contents ∧ after.find path ≠ .file location contents := by
  constructor
  · intro hf
    rw [modify_of_file hf] at h
    cases h
  · intro hf
    have hparent := makeDirectories_of_file hf
    rw [modify] at h
    split at h
    · rename_i hm
      cases h
      rw [makeDirectories_makeDirectories hm] at hparent
      cases hparent
    · simp only at h
      split at h
      · cases h
      · rename_i hnone
        cases h
        rw [hf] at hnone
        cases hnone

theorem node?_ne_of_target?_step {volume : Volume} {here location : Location} {piece : String}
    (h : (volume.step here piece).target? = some location) :
    volume.node? location ≠ some .directory := by
  simp only [step] at h
  repeat' split at h
  all_goals cases h
  all_goals simp [*]

theorem step_put_file {volume : Volume} {here location : Location} {piece : String}
    (h : (volume.step here piece).target? = some location) (contents : DataFile) :
    (volume.put location (.file contents)).step here piece = .file location contents := by
  have hnode (node : Node) : (volume.put (here.down piece) node).node? (here.down piece) =
      some node := node?_put_self volume (List.cons_ne_nil _ _) node
  simp only [step] at h ⊢
  repeat' split at h
  all_goals cases h
  all_goals rw [if_neg ‹_›, if_neg ‹_›, if_neg ‹_›, hnode]

theorem step_put_of_directory {volume : Volume} {here location there : Location} {piece : String}
    (hl : volume.node? location ≠ some .directory) (h : volume.step here piece = .directory there)
    (node : Node) : (volume.put location node).step here piece = .directory there := by
  simp only [step] at h ⊢
  split at h
  · rw [if_pos ‹_›, h]
  · split at h
    · rw [if_neg ‹_›, if_pos ‹_›, h]
    · split at h
      · cases h
      · split at h
        · cases h
        · rename_i hn
          have hne : here.down piece ≠ location := fun he => hl (he ▸ hn)
          rw [if_neg ‹_›, if_neg ‹_›, if_neg ‹_›, node?_put_of_ne volume hne, hn]
          exact h
        · cases h

theorem node?_ne_of_target?_follow {volume : Volume} {here location : Location} {path : Path}
    (h : (volume.follow here path).target? = some location) :
    volume.node? location ≠ some .directory := by
  induction path generalizing here with
  | nil => cases h
  | cons piece path ih =>
    rw [follow] at h
    split at h
    · exact ih h
    · cases path with
      | nil => exact node?_ne_of_target?_step h
      | cons => rw [target?_past_cons] at h; cases h

theorem follow_put_file {volume : Volume} {here location : Location} {path : Path}
    (h : (volume.follow here path).target? = some location) (contents : DataFile) :
    (volume.put location (.file contents)).follow here path = .file location contents := by
  have hl := node?_ne_of_target?_follow h
  induction path generalizing here with
  | nil => cases h
  | cons piece path ih =>
    rw [follow] at h ⊢
    split at h
    · rename_i hs
      rw [step_put_of_directory hl hs]
      exact ih h
    · cases path with
      | nil =>
        rw [step_put_file h]
        rfl
      | cons => rw [target?_past_cons] at h; cases h

theorem find_modify {volume after : Volume} {path : Path} {change : DataFile → DataFile}
    (h : volume.modify path change = (.ok (), after)) :
    ∃ location,
      ((volume.makeDirectories path.parent).2.find path).target? = some location ∧
      after.find path = .file location
        (change ((volume.makeDirectories path.parent).2.find path).contents) := by
  rw [modify] at h
  split at h
  · cases h
  · rename_i made hmade
    rw [hmade]
    simp only at h ⊢
    split at h
    · rename_i location ht
      cases h
      refine ⟨location, ht, ?_⟩
      rw [find] at ht ⊢
      split at ht
      · rw [if_pos ‹_›]
        exact follow_put_file ht _
      · cases ht
    · cases h

end Volume

end PagedStorage
