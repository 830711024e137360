import StepGrid.CommandLine.Folder
import StepGrid.Proofs.FallibleMap

/-! What a write does to a folder. The content is found again on the path that it was written
to, however that path leads there, and nothing else in the folder has changed. -/

namespace StepGrid.Proofs.FolderFiles
open CommandLine Folder

private theorem lookup_filter_ne {path other : Path} (different : other ≠ path) (entries : List (Path × Entry)) :
    (entries.filter (·.1 ≠ path)).lookup other = entries.lookup other := by
  induction entries with
  | nil => rfl
  | cons one rest ih =>
    obtain ⟨key, entry⟩ := one
    by_cases same : key = path
    · have passed : (other == key) = false := beq_false_of_ne (same ▸ different)
      rw [List.filter_cons_of_neg (by simpa using same), ih, List.lookup_cons, passed]
    · rw [List.filter_cons_of_pos (by simpa using same), List.lookup_cons, List.lookup_cons, ih]

theorem entry?_put_of_ne (folder : Folder) {path other : Path} (entry : Entry) (different : other ≠ path) :
    Folder.entry? (folder.put path entry) other = folder.entry? other := by
  have passed : (other == path) = false := beq_false_of_ne different
  unfold entry?
  rw [put, List.lookup_cons, passed, lookup_filter_ne different]

theorem entry?_put_self (folder : Folder) {path : Path} (entry : Entry) (filled : path ≠ []) :
    Folder.entry? (folder.put path entry) path = some entry := by
  unfold entry?
  rw [put, List.lookup_cons_self, if_neg (by simpa using filled)]

theorem walk_append (folder : Folder) {place next : Place} {first : List String} (second : List String)
    (walked : folder.walk place first = .ok next) : folder.walk place (first ++ second) = folder.walk next second := by
  induction first generalizing place with
  | nil =>
    cases walked
    rfl
  | cons part rest ih =>
    rw [walk] at walked
    split at walked
    next found =>
      rw [List.cons_append, walk, found]
      exact ih walked
    next => cases walked

/-- A way into a folder leads through folders only. -/
theorem folder_of_enter {folder : Folder} {path : Path} {part : String} {next : Place}
    (entered : folder.enter (.inside path) part = .ok next) : folder.entry? path = some .folder := by
  unfold enter at entered
  dsimp only at entered
  split at entered
  next => cases entered
  next => cases entered
  next found => exact found

section Put
variable {folder : Folder} {file : Path} {content : List UInt8} (free : folder.entry? file ≠ some .folder)
include free

private theorem enter_put {place next : Place} {part : String} (entered : folder.enter place part = .ok next) :
    (folder.put file (.file content)).enter place part = .ok next := by
  cases place with
  | outside => exact entered
  | inside path =>
    -- What is entered is a folder, and what stands at the file's path is none.
    have different : path ≠ file := by
      rintro rfl
      exact free (folder_of_enter entered)
    unfold enter at entered ⊢
    dsimp only at entered ⊢
    rwa [entry?_put_of_ne folder _ different]

/-- A new file stands in nobody's way. -/
theorem walk_put {place next : Place} {way : List String} (walked : folder.walk place way = .ok next) :
    (folder.put file (.file content)).walk place way = .ok next := by
  induction way generalizing place with
  | nil => exact walked
  | cons part rest ih =>
    rw [walk] at walked ⊢
    split at walked
    next found =>
      rw [enter_put free found]
      exact ih walked
    next => cases walked

end Put

structure LeadsTo (folder : Folder) (path : String) (file : Path) : Prop where
  filled : path.isEmpty = false
  ended : endsInSlash path = false
  free : folder.entry? file ≠ some .folder
  walked : folder.walk (origin path) (parts path) = .ok (.inside file)

theorem leadsTo_of_target {folder : Folder} {path : String} {file : Path} (found : folder.target path = .ok file) :
    LeadsTo folder path file := by
  unfold target at found
  split at found
  next => cases found
  next filled =>
    split at found
    next => cases found
    next => cases found
    next place last before final =>
      split at found
      next => cases found
      next => cases found
      next entered =>
        split at found
        next => cases found
        next named =>
          split at found
          next => cases found
          next free =>
            cases found
            have split : parts path = (parts path).dropLast ++ [last] := (List.dropLast_append_getLast? last final).symm
            refine ⟨Bool.eq_false_iff.mpr filled, Bool.eq_false_iff.mpr fun ended => named (.inl ended), free, ?_⟩
            have arrived : folder.walk place [last] = .ok (.inside file) := by rw [walk, entered]; rfl
            rw [split, walk_append folder [last] before, arrived]

theorem LeadsTo.file_ne_nil {folder : Folder} {path : String} {file : Path} (leads : LeadsTo folder path file) :
    file ≠ [] := by
  rintro rfl
  exact leads.free rfl

theorem write_eq_ok {folder after : Folder} {path : String} {content : List UInt8} :
    folder.write path content = .ok after ↔
      ∃ file, folder.target path = .ok file ∧ after = folder.put file (.file content) := by
  unfold write
  cases folder.target path with
  | error fault => simp [Except.map]
  | ok file => simp [Except.map, eq_comm]

/-- What is written is read again. -/
theorem read_of_write {folder after : Folder} {path : String} {content : List UInt8}
    (written : folder.write path content = .ok after) : after.read path = .ok content := by
  obtain ⟨file, found, rfl⟩ := write_eq_ok.mp written
  have leads := leadsTo_of_target found
  have stored := entry?_put_self folder (.file content) leads.file_ne_nil
  rw [Folder.read, leads.filled, walk_put leads.free leads.walked]
  simp only [Bool.false_eq_true, ↓reduceIte, stored, leads.ended]

theorem mem_entries_of_entry? {folder : Folder} {path : Path} {entry : Entry} (filled : path ≠ [])
    (stored : folder.entry? path = some entry) : (path, entry) ∈ folder.entries := by
  unfold entry? at stored
  rw [if_neg (by simpa using filled), List.lookup_eq_some_iff] at stored
  obtain ⟨before, rest, split, _⟩ := stored
  rw [split]
  exact List.mem_append_right before List.mem_cons_self

theorem mem_changesFrom {folder before : Folder} {path : Path} {content : List UInt8} :
    (path, content) ∈ folder.changesFrom before ↔
      folder.entry? path = some (.file content) ∧ before.entry? path ≠ some (.file content) := by
  unfold changesFrom
  rw [List.mem_filterMap]
  constructor
  · rintro ⟨⟨key, entry⟩, _, found⟩
    dsimp only at found
    split at found
    next stored =>
      split at found
      next => cases found
      next changed =>
        cases found
        exact ⟨stored, changed⟩
    next => cases found
  · rintro ⟨stored, changed⟩
    have filled : path ≠ [] := by
      rintro rfl
      cases stored
    refine ⟨(path, .file content), mem_entries_of_entry? filled stored, ?_⟩
    simp only [stored, if_neg changed]

end StepGrid.Proofs.FolderFiles
