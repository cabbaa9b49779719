/-
# What changes of the file tree do

A successful operation changes one place at most: the one its path names.  Each
operation has one lemma that says what it found there and what it left there.
Files can come, change and go without a path to a directory being lost, so what
is written at a path can be read there again.
-/

import InterfaceProbe.Proofs.Files.Walking

namespace InterfaceProbe.Tree

/-- The steps end with a name, in a directory that can be entered, and so name a place. -/
def NamesFrom (files : Tree) (start : Place) (steps : List String) (place : Place) : Prop :=
  ∃ last name, place = last ++ [name] ∧ files.approach start steps = .ok last ∧
    LastStep.ofSteps steps = .name name ∧ name.utf8ByteSize ≤ maximalNameLength

/-- The path can be followed and names a place. -/
def Names (files : Tree) (directory : Place) (path : PathName) (place : Place) : Prop :=
  path.check = .ok () ∧ files.NamesFrom (startOf directory path) path.steps place

variable {files files' : Tree} {directory start place : Place} {path : PathName} {node : Node}
  {contents : Bytes} {mode : Nat} {steps : List String}

section Names

theorem NamesFrom.ne_nil (h : files.NamesFrom start steps place) : place ≠ [] := by
  rcases h with ⟨last, name, rfl, -⟩
  exact List.concat_ne_nil name last

theorem NamesFrom.follow (h : files.NamesFrom start steps place) :
    files.follow start steps = .ok place := by
  rcases h with ⟨last, name, rfl, hlast, hname, hlength⟩
  refine follow_eq_ok_iff.2 ⟨last, hlast, fun other hother => ?_, ?_⟩
  · cases hname.symm.trans hother
    exact hlength
  · rw [hname, LastStep.lead]

theorem Names.follow (h : files.Names directory path place) :
    files.follow (startOf directory path) path.steps = .ok place :=
  h.2.follow

theorem Names.eq_ofPath (h : files.Names directory path place) :
    place = Place.ofPath directory path :=
  walk_of_follow h.follow

theorem Names.find (h : files.Names directory path place) (hnode : files.get? place = some node)
    (hslash : node ≠ .directory → path.endsInSlash = false) :
    files.find directory path = .ok (place, node) :=
  find_eq_ok_iff.2 ⟨h.1, h.follow, hnode, hslash⟩

theorem Names.find_eq_error (h : files.Names directory path place)
    (hnode : files.get? place = none) : files.find directory path = .error .notFound := by
  rw [Tree.find, h.1, h.follow]
  simp [bind, Except.bind, hnode]

theorem KeepsDirectories.namesFrom (hkeeps : files.KeepsDirectories files')
    (h : files.NamesFrom start steps place) : files'.NamesFrom start steps place := by
  rcases h with ⟨last, name, hplace, hlast, hname⟩
  exact ⟨last, name, hplace, hkeeps.enter hlast, hname⟩

theorem KeepsDirectories.names (hkeeps : files.KeepsDirectories files')
    (h : files.Names directory path place) : files'.Names directory path place :=
  ⟨h.1, hkeeps.namesFrom h.2⟩

end Names

section Directories

theorem KeepsDirectories.trans {files'' : Tree} (h : files.KeepsDirectories files')
    (h' : files'.KeepsDirectories files'') : files.KeepsDirectories files'' :=
  fun place hplace => h' place (h place hplace)

/-- A file may take any place that is no directory's. -/
theorem keepsDirectories_insert (h : files.get? place ≠ some .directory) :
    files.KeepsDirectories (files.insert place node) := by
  intro other hother
  rw [get?_insert]
  split
  · next heq => exact absurd (heq.2 ▸ hother) h
  · exact hother

theorem keepsDirectories_erase (h : files.get? place ≠ some .directory) :
    files.KeepsDirectories (files.erase place) := by
  intro other hother
  rw [get?_erase]
  split
  · next heq => exact absurd (heq.2 ▸ hother) h
  · exact hother

end Directories

section Operations

theorem makeLast_eq_ok_iff :
    files.makeLast start steps = .ok files' ↔
      ∃ place, files.NamesFrom start steps place ∧ files.get? place = none ∧
        files' = files.insert place .directory := by
  rw [makeLast, bind_eq_ok_iff]
  apply Iff.intro
  · rintro ⟨last, hlast, h⟩
    split at h
    · next name hname =>
      obtain ⟨place, hplace, h⟩ := bind_eq_ok_iff.1 h
      obtain ⟨hlength, rfl⟩ := child_eq_ok_iff.1 hplace
      split at h
      · cases h
      · next hnode =>
        cases h
        exact ⟨_, ⟨last, name, rfl, hlast, hname, hlength⟩, hnode, rfl⟩
    · cases h
  · rintro ⟨place, ⟨last, name, rfl, hlast, hname, hlength⟩, hnode, rfl⟩
    refine ⟨last, hlast, ?_⟩
    rw [hname]
    exact bind_eq_ok_iff.2 ⟨_, child_eq_ok_iff.2 ⟨hlength, rfl⟩, by rw [hnode]⟩

theorem makeDirectory_eq_ok_iff :
    files.makeDirectory directory path = .ok files' ↔
      ∃ place, files.Names directory path place ∧ files.get? place = none ∧
        files' = files.insert place .directory := by
  rw [makeDirectory, check_bind_eq_ok_iff, makeLast_eq_ok_iff]
  simp only [Names, and_assoc, exists_and_left]

theorem locateFile_eq_ok_iff :
    files.locateFile directory path = .ok place ↔
      files.Names directory path place ∧ path.endsInSlash = false := by
  rw [locateFile, check_bind_eq_ok_iff, bind_eq_ok_iff]
  apply Iff.intro
  · rintro ⟨hcheck, last, hlast, h⟩
    split at h
    · next name hname =>
      split at h
      · cases h
      · next hslash =>
        obtain ⟨hlength, rfl⟩ := child_eq_ok_iff.1 h
        exact ⟨⟨hcheck, last, name, rfl, hlast, hname, hlength⟩, by simpa using hslash⟩
    · cases h
  · rintro ⟨⟨hcheck, last, name, rfl, hlast, hname, hlength⟩, hslash⟩
    refine ⟨hcheck, last, hlast, ?_⟩
    rw [hname]
    simp only [hslash]
    exact child_eq_ok_iff.2 ⟨hlength, rfl⟩

theorem exists_of_writeFile (h : files.writeFile directory path contents = .ok files') :
    ∃ place mode, files.Names directory path place ∧ path.endsInSlash = false ∧
      files.get? place ≠ some .directory ∧ files' = files.insert place (.file contents mode) := by
  rw [writeFile, bind_eq_ok_iff] at h
  rcases h with ⟨place, hplace, h⟩
  obtain ⟨hnames, hslash⟩ := locateFile_eq_ok_iff.1 hplace
  split at h
  · cases h
  · next hnode =>
    cases h
    exact ⟨place, _, hnames, hslash, by simp [hnode], rfl⟩
  · next hnode =>
    cases h
    exact ⟨place, _, hnames, hslash, by simp [hnode], rfl⟩

theorem setMode_of_find {old : Nat} (mode : Nat)
    (h : files.find directory path = .ok (place, .file contents old)) :
    files.setMode directory path mode = .ok (files.insert place (.file contents mode)) :=
  bind_eq_ok_iff.2 ⟨_, h, rfl⟩

theorem removeFile_eq_ok_iff :
    files.removeFile directory path = .ok files' ↔
      ∃ place contents mode, files.find directory path = .ok (place, .file contents mode) ∧
        files' = files.erase place := by
  rw [removeFile, bind_eq_ok_iff]
  apply Iff.intro
  · rintro ⟨⟨place, node⟩, hfind, h⟩
    cases node with
    | directory => cases h
    | file contents mode =>
      cases h
      exact ⟨place, contents, mode, hfind, rfl⟩
  · rintro ⟨place, contents, mode, hfind, rfl⟩
    exact ⟨_, hfind, rfl⟩

theorem removeDirectory_eq_ok_iff :
    files.removeDirectory directory path = .ok files' ↔
      ∃ place, files.find directory path = .ok (place, .directory) ∧ files' = files.prune place := by
  rw [removeDirectory, bind_eq_ok_iff]
  apply Iff.intro
  · rintro ⟨⟨place, node⟩, hfind, h⟩
    cases node with
    | directory =>
      cases h
      exact ⟨place, hfind, rfl⟩
    | file contents mode => cases h
  · rintro ⟨place, hfind, rfl⟩
    exact ⟨_, hfind, rfl⟩

theorem removeDirectory_of_find (h : files.find directory path = .ok (place, .directory)) :
    files.removeDirectory directory path = .ok (files.prune place) :=
  removeDirectory_eq_ok_iff.2 ⟨place, h, rfl⟩

end Operations

/-- A file can be found at the path it was put at. -/
theorem Names.find_insert (h : files.Names directory path place)
    (hslash : path.endsInSlash = false) (hnode : files.get? place ≠ some .directory)
    (contents : Bytes) (mode : Nat) :
    (files.insert place (.file contents mode)).find directory path =
      .ok (place, .file contents mode) := by
  apply ((keepsDirectories_insert hnode).names h).find
  · simp [get?_insert, h.2.ne_nil]
  · exact fun _ => hslash

@[simp] theorem insert_insert (files : Tree) (place : Place) (first second : Node) :
    (files.insert place first).insert place second = files.insert place second := by
  simp [insert, without, List.filter_filter]

/-- A file that was just written can be given permissions, and then only the file was made. -/
theorem exists_of_writeFile_setMode {written : Tree}
    (h : files.writeFile directory path contents = .ok written) (mode : Nat) :
    ∃ place, files.Names directory path place ∧ path.endsInSlash = false ∧
      files.get? place ≠ some .directory ∧
        written.setMode directory path mode = .ok (files.insert place (.file contents mode)) := by
  obtain ⟨place, old, hnames, hslash, hnode, rfl⟩ := exists_of_writeFile h
  refine ⟨place, hnames, hslash, hnode, ?_⟩
  rw [setMode_of_find _ (hnames.find_insert hslash hnode _ _), insert_insert]

end InterfaceProbe.Tree
