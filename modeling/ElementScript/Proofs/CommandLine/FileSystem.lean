import ElementScript.CommandLine.FileSystem

/-! # Writing a file and reading it

A name leads to a place through directories. Writing changes what is at that place and nothing else
(`contents?_put`), and the directories on the way to it stay directories, so afterwards the same
name leads to what was written (`contentsAt?_of_write`).
-/

namespace ElementScript.CommandLine

/-- Whether a file may be written at a place. -/
inductive Place.Takes (path : Path) : Place → Prop where
  | file (contents : ByteArray) : Takes path (.file path contents)
  | vacant : Takes path (.vacant path)

namespace FileSystem

variable {system written : FileSystem} {path other : Path} {contents : ByteArray}

/-! ## Putting a file in its place -/

theorem lookup_filter (files : List (Path × ByteArray)) (path other : Path) :
    (files.filter (·.1 ≠ path)).lookup other =
      if other = path then none else files.lookup other := by
  induction files with
  | nil => simp
  | cons file files induction =>
      rcases file with ⟨place, bytes⟩
      by_cases removed : place = path
      · rw [List.filter_cons_of_neg (by simp [removed]), induction]
        split
        · rfl
        · rename_i different
          rw [List.lookup_cons, removed, beq_eq_false_iff_ne.mpr different]
      · rw [List.filter_cons_of_pos (by simp [removed]), List.lookup_cons, List.lookup_cons,
          induction]
        by_cases found : other = place
        · simp [found, removed]
        · rw [beq_eq_false_iff_ne.mpr found]

/-- A file that is put in its place is found there, and all others are where they were. -/
theorem contents?_put (system : FileSystem) (path other : Path) (contents : ByteArray) :
    (system.put path contents).contents? other =
      if other = path then some contents else system.contents? other := by
  simp only [contents?, put, List.lookup_append, lookup_filter]
  by_cases same : other = path
  · simp [same]
  · have differs : (other == path) = false := beq_eq_false_iff_ne.mpr same
    simp [same, List.lookup_cons, differs]

/-- No directory is lost when a file is put in its place. -/
theorem isDirectory_put (isDirectory : system.isDirectory other) :
    (system.put path contents).isDirectory other := by
  unfold FileSystem.isDirectory at *
  rw [Bool.or_eq_true, List.any_eq_true] at *
  rcases isDirectory with above | ⟨file, member, below⟩
  · exact Or.inl above
  · refine Or.inr ?_
    by_cases same : file.1 = path
    · exact ⟨(path, contents), by simp [put], by rw [← same]; exact below⟩
    · exact ⟨file, by simp [put, member, same], below⟩

theorem place_put_self (system : FileSystem) (path : Path) (contents : ByteArray) :
    (system.put path contents).place path = .file path contents := by
  simp [place, contents?_put]

theorem place_eq_directory_iff {directory : Path} :
    system.place path = .directory directory ↔
      path = directory ∧ system.contents? path = none ∧ system.isDirectory path := by
  unfold place
  cases system.contents? path with
  | some contents => simp
  | none => cases system.isDirectory path <;> simp

/-- Putting a file in its place leaves every other directory as it is. -/
theorem place_put_directory {directory : Path} (different : other ≠ path)
    (reached : system.place other = .directory directory) :
    (system.put path contents).place other = .directory directory := by
  rw [place_eq_directory_iff] at *
  rw [contents?_put, if_neg different]
  exact ⟨reached.1, reached.2.1, isDirectory_put reached.2.2⟩

/-! ## Following names -/

variable {place next start : Place} {directory further : Path} {name : Text} {names : List Text}

@[simp] theorem refusal_put (system : FileSystem) (path : Path) (contents : ByteArray) :
    (system.put path contents).refusal = system.refusal := rfl

theorem eq_of_place_takes (takes : (system.place other).Takes path) : other = path := by
  unfold FileSystem.place at takes
  split at takes
  · cases takes
    rfl
  · split at takes
    · cases takes
    · cases takes
      rfl

/-- Whether a name leads from a directory down to a path. -/
structure Descends (system : FileSystem) (directory : Path) (name : Text) (path : Path) : Prop where
  nonempty : name.isEmpty = false
  free : system.refusal .enter directory = none
  moves : name ≠ here
  down : name ≠ above
  reaches : directory ++ [name] = path

theorem Descends.follow_eq (descends : system.Descends directory name path) :
    system.follow directory name = .ok (system.place path) := by
  rcases descends with ⟨nonempty, free, moves, down, rfl⟩
  simp only [follow, nonempty, free, if_neg moves, if_neg down]
  rfl

theorem Descends.put (descends : system.Descends directory name path) (contents : ByteArray) :
    (system.put path contents).Descends directory name path := by
  rcases descends with ⟨nonempty, free, moves, down, reaches⟩
  exact ⟨nonempty, free, moves, down, reaches⟩

/-- Only down is there a place that takes a file. -/
theorem descends_of_follow (followed : system.follow directory name = .ok place)
    (takes : place.Takes path) : system.Descends directory name path := by
  unfold follow at followed
  split at followed
  · cases followed
    cases takes
  · rename_i nonempty
    split at followed
    · cases followed
    · rename_i free
      split at followed
      · cases followed
        cases takes
      · rename_i moves
        split at followed
        · cases followed
          cases takes
        · rename_i down
          cases followed
          exact ⟨by simpa using nonempty, free, moves, down, eq_of_place_takes takes⟩

/-- What a name leads to is what has its path, if it takes a file. -/
theorem place_of_follow (followed : system.follow directory name = .ok place)
    (takes : place.Takes path) : system.place path = place := by
  have same := (descends_of_follow followed takes).follow_eq.symm.trans followed
  exact Except.ok.inj same

/-- Directories are reached as before once a file is put in a place that takes one. -/
theorem follow_put_directory (target : (system.place path).Takes path)
    (followed : system.follow directory name = .ok (.directory further)) :
    (system.put path contents).follow directory name = .ok (.directory further) := by
  unfold follow at followed ⊢
  split at followed
  · rename_i empty
    rw [if_pos empty, followed]
  · rename_i nonempty
    rw [if_neg nonempty, refusal_put]
    split at followed
    · cases followed
    · rename_i free
      split at followed
      · rename_i stays
        rw [if_pos stays, followed]
      · rename_i moves
        rw [if_neg moves]
        split at followed
        · rename_i up
          rw [if_pos up, followed]
        · rename_i down
          rw [if_neg down]
          have reached := Except.ok.inj followed
          have different : directory ++ [name] ≠ path := by
            rintro rfl
            rw [reached] at target
            cases target
          rw [place_put_directory different reached]

/-- The name that leads to a place that takes a file leads to the file that is put there. -/
theorem follow_put_self (followed : system.follow directory name = .ok place)
    (takes : place.Takes path) (contents : ByteArray) :
    (system.put path contents).follow directory name = .ok (.file path contents) := by
  rw [((descends_of_follow followed takes).put contents).follow_eq, place_put_self]

/-- Behind a place that is no directory there are no names to follow. -/
theorem not_takes_of_walk (noDirectory : ∀ directory, start ≠ .directory directory)
    (walked : system.walk start (name :: names) = .ok place) : ¬ place.Takes path := by
  intro takes
  unfold walk at walked
  split at walked
  · exact noDirectory _ rfl
  · split at walked
    · cases walked
      cases takes
    · cases walked
  · split at walked
    · cases walked
      cases takes
    · cases walked
  · cases walked

/-- Names lead to a place that takes a file through directories, and the last one that is followed
leads to the place. -/
theorem walk_cases (walked : system.walk (.directory directory) (name :: names) = .ok place)
    (takes : place.Takes path) :
    (∃ further, system.follow directory name = .ok (.directory further) ∧
      system.walk (.directory further) names = .ok place) ∨
    (system.follow directory name = .ok place ∧ names = []) := by
  rw [walk] at walked
  cases followed : system.follow directory name with
  | error error =>
      rw [followed] at walked
      cases walked
  | ok next =>
      rw [followed] at walked
      cases next with
      | directory further => exact .inl ⟨further, rfl, walked⟩
      | _ =>
          cases names with
          | nil => exact .inr ⟨walked, rfl⟩
          | cons second names => exact absurd takes (not_takes_of_walk (by simp) walked)

/-- The place that a name leads to is the one that its path has. -/
theorem place_of_walk (walked : system.walk (.directory directory) names = .ok place)
    (takes : place.Takes path) : system.place path = place := by
  induction names generalizing directory with
  | nil =>
      cases walked
      cases takes
  | cons name names induction =>
      rcases walk_cases walked takes with ⟨further, followed, rest⟩ | ⟨followed, last⟩
      · exact induction rest
      · exact place_of_follow followed takes

/-- Afterwards the same name leads to what was put in the place that it leads to. -/
theorem walk_put (walked : system.walk (.directory directory) names = .ok place)
    (takes : place.Takes path) (contents : ByteArray) :
    (system.put path contents).walk (.directory directory) names = .ok (.file path contents) := by
  have target : (system.place path).Takes path := by
    rw [place_of_walk walked takes]
    exact takes
  induction names generalizing directory with
  | nil =>
      cases walked
      cases takes
  | cons name names induction =>
      rw [walk]
      rcases walk_cases walked takes with ⟨further, followed, rest⟩ | ⟨followed, rfl⟩
      · rw [follow_put_directory target followed]
        exact induction rest
      · rw [follow_put_self followed takes]
        rfl

/-! ## Writing -/

theorem unlessRefused_eq_ok_iff {α : Type} {access : Access} {answer : Except FileError α}
    {value : α} :
    system.unlessRefused access path answer = .ok value ↔
      system.refusal access path = none ∧ answer = .ok value := by
  unfold unlessRefused
  cases system.refusal access path <;> simp

theorem exists_of_write (wrote : system.write name contents = .ok written) :
    ∃ place path, system.resolve name = .ok place ∧ place.Takes path ∧
      written = system.put path contents := by
  unfold write at wrote
  split at wrote
  · rename_i path old resolved
    cases (unlessRefused_eq_ok_iff.mp wrote).2
    exact ⟨_, path, resolved, .file old, rfl⟩
  · rename_i path resolved
    cases (unlessRefused_eq_ok_iff.mp wrote).2
    exact ⟨_, path, resolved, .vacant, rfl⟩
  · cases wrote
  · cases wrote
  · cases wrote

/-- The contents of the file that a name leads to, whether or not it may be read. -/
def contentsAt? (system : FileSystem) (name : Text) : Option ByteArray :=
  match system.resolve name with
  | .ok (.file _ contents) => some contents
  | _ => none

/-- What is written under a name is what is found under it afterwards. -/
theorem contentsAt?_of_write (wrote : system.write name contents = .ok written) :
    written.contentsAt? name = some contents := by
  rcases exists_of_write wrote with ⟨place, path, resolved, takes, rfl⟩
  rw [contentsAt?, resolve, walk_put resolved takes]

end FileSystem

end ElementScript.CommandLine
