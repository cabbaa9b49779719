/-
# Where paths lead

Without links in a file tree the place a path leads to can be read off the path:
`Place.walk` takes its steps without looking at the tree.  The tree only decides
whether the steps can be taken, and it does so by its directories, so a path that
can be followed in one tree can be followed in any other that has its directories.

What an operation on files does is said here once for each operation.  It finds
the one place its path leads to, it looks at what is there, and nothing but that
place changes.
-/

import InterfaceProbe.Files.Operations

namespace InterfaceProbe

/-- Where the steps lead from a place, whatever is on the way. -/
def Place.walk (start : Place) : List String → Place
  | [] => start
  | step :: rest =>
    if step = "." then walk start rest
    else if step = ".." then walk start.dropLast rest
    else walk (start ++ [step]) rest

/-- Where a path leads that may be relative to a directory. -/
def Place.ofPath (directory : Place) (path : PathName) : Place :=
  walk (Tree.startOf directory path) path.steps

theorem Place.walk_append (start : Place) (front back : List String) :
    start.walk (front ++ back) = (start.walk front).walk back := by
  induction front generalizing start with
  | nil => rfl
  | cons step rest ih =>
    simp only [List.cons_append, walk]
    split
    · exact ih start
    · split
      · exact ih start.dropLast
      · exact ih (start ++ [step])

namespace Tree

/-- Whatever is a directory in the first tree is one in the second. -/
def KeepsDirectories (before after : Tree) : Prop :=
  ∀ place, before.get? place = some .directory → after.get? place = some .directory

variable {files files' : Tree} {directory start last place : Place} {steps : List String}
  {path : PathName} {name : String} {node : Node} {contents : Bytes} {mode : Nat}

theorem bind_eq_ok_iff {α β : Type} {x : Except FileError α} {f : α → Except FileError β} {b : β} :
    x >>= f = .ok b ↔ ∃ a, x = .ok a ∧ f a = .ok b := by
  cases x with
  | error error => simp [bind, Except.bind]
  | ok a => simp [bind, Except.bind]

theorem check_bind_eq_ok_iff {β : Type} {x : Except FileError Unit} {y : Except FileError β}
    {b : β} : (x >>= fun _ => y) = .ok b ↔ x = .ok () ∧ y = .ok b := by
  rw [bind_eq_ok_iff]
  exact ⟨fun ⟨_, hx, hy⟩ => ⟨hx, hy⟩, fun ⟨hx, hy⟩ => ⟨(), hx, hy⟩⟩

theorem child_eq_ok_iff :
    child directory name = .ok place ↔
      name.utf8ByteSize ≤ maximalNameLength ∧ place = directory ++ [name] := by
  unfold child
  split
  · next h => simp [Nat.not_le_of_lt h]
  · next h => simp [Nat.le_of_not_lt h, eq_comm]

theorem enter_cons_eq_ok_iff {step : String} {rest : List String} (hstay : step ≠ ".")
    (hup : step ≠ "..") :
    files.enter directory (step :: rest) = .ok last ↔
      step.utf8ByteSize ≤ maximalNameLength ∧
        files.get? (directory ++ [step]) = some .directory ∧
          files.enter (directory ++ [step]) rest = .ok last := by
  simp only [enter, hstay, hup, ↓reduceIte]
  by_cases hlength : step.utf8ByteSize ≤ maximalNameLength
  · rw [(child_eq_ok_iff).2 ⟨hlength, rfl⟩]
    cases h : files.get? (directory ++ [step]) with
    | none => simp [bind, Except.bind, h]
    | some node => cases node <;> simp [bind, Except.bind, h, hlength]
  · simp [child, Nat.lt_of_not_le hlength, hlength, bind, Except.bind]

theorem walk_of_enter (h : files.enter directory steps = .ok last) :
    last = directory.walk steps := by
  induction steps generalizing directory with
  | nil => exact (Except.ok.inj h).symm
  | cons step rest ih =>
    by_cases hstay : step = "."
    · subst hstay
      exact ih h
    · by_cases hup : step = ".."
      · subst hup
        exact ih h
      · simp only [Place.walk, hstay, hup, ↓reduceIte]
        exact ih ((enter_cons_eq_ok_iff hstay hup).1 h).2.2

/-- Who can take some steps can take them wherever the directories are still there. -/
theorem KeepsDirectories.enter (hkeeps : files.KeepsDirectories files')
    (h : files.enter directory steps = .ok last) : files'.enter directory steps = .ok last := by
  induction steps generalizing directory with
  | nil => exact h
  | cons step rest ih =>
    by_cases hstay : step = "."
    · subst hstay
      exact ih h
    · by_cases hup : step = ".."
      · subst hup
        exact ih h
      · rw [enter_cons_eq_ok_iff hstay hup] at h ⊢
        exact ⟨h.1, hkeeps _ h.2.1, ih h.2.2⟩

end Tree

namespace PathName

/-- A relative path follows after one slash, which is there already or put in between. -/
theorem join_cases (left : PathName) {right : PathName} (h : right.isAbsolute = false) :
    join left right = left ++ right ∧ (left = "" ∨ ∃ front, left.toList = front ++ ['/']) ∨
      join left right = left ++ "/" ++ right ∧ left ≠ "" := by
  by_cases hempty : left = ""
  · exact .inl ⟨by simp [join, h, hempty], .inl hempty⟩
  · by_cases hslash : left.toList.getLast? = some '/'
    · exact .inl ⟨by simp [join, h, hslash], .inr (List.getLast?_eq_some_iff.1 hslash)⟩
    · exact .inr ⟨by simp [join, h, hempty, hslash], hempty⟩

/-- A path below another starts where that one starts. -/
theorem isAbsolute_join {left right : PathName} (h : right.isAbsolute = false) :
    (join left right).isAbsolute = left.isAbsolute := by
  have happend : ∀ tail : String, left ≠ "" → isAbsolute (left ++ tail) = left.isAbsolute := by
    intro tail hne
    have hlist : left.toList ≠ [] := mt String.toList_eq_nil_iff.1 hne
    obtain ⟨first, rest, hleft⟩ := List.exists_cons_of_ne_nil hlist
    simp [isAbsolute, hleft]
  rcases join_cases left h with ⟨hjoin, -⟩ | ⟨hjoin, hne⟩
  · by_cases hempty : left = ""
    · rw [hjoin, hempty, String.empty_append, h]
      rfl
    · rw [hjoin, happend right hempty]
  · rw [hjoin, String.append_assoc, happend _ hne]

/-- The steps of a path below another come after those of that one. -/
theorem steps_join {left right : PathName} (h : right.isAbsolute = false) :
    (join left right).steps = left.steps ++ right.steps := by
  rcases join_cases left h with ⟨hjoin, hempty | ⟨front, hfront⟩⟩ | ⟨hjoin, -⟩
  · rw [hjoin, hempty, String.empty_append]
    rfl
  · have hleft : cutChars '/' left.toList = cutChars '/' front ++ [[]] := by
      rw [hfront, cutChars_append_mark]
      rfl
    have hboth : cutChars '/' (join left right).toList =
        cutChars '/' front ++ cutChars '/' right.toList := by
      rw [hjoin, String.toList_append, hfront, List.append_assoc]
      exact cutChars_append_mark '/' front right.toList
    simp [steps, pieces, hleft, hboth]
  · have hboth : cutChars '/' (join left right).toList =
        cutChars '/' left.toList ++ cutChars '/' right.toList := by
      rw [hjoin, String.toList_append, String.toList_append, List.append_assoc]
      exact cutChars_append_mark '/' left.toList right.toList
    simp [steps, pieces, hboth]

end PathName

theorem Place.ofPath_join (directory : Place) {left right : PathName}
    (h : right.isAbsolute = false) :
    ofPath directory (left.join right) = (ofPath directory left).walk right.steps := by
  rw [ofPath, ofPath, Tree.startOf, Tree.startOf, PathName.isAbsolute_join h,
    PathName.steps_join h, walk_append]

/-- Where a last step leads from the place it is taken at. -/
def LastStep.lead (place : Place) : LastStep → Place
  | .stay => place
  | .up => place.dropLast
  | .name step => place ++ [step]

theorem Place.walk_eq_lead (start : Place) (steps : List String) :
    start.walk steps = (LastStep.ofSteps steps).lead (start.walk steps.dropLast) := by
  rcases List.eq_nil_or_concat steps with rfl | ⟨front, step, rfl⟩
  · rfl
  · rw [List.concat_eq_append, walk_append, LastStep.ofSteps, List.getLast?_concat,
      List.dropLast_concat]
    by_cases hstay : step = "."
    · simp [walk, hstay, LastStep.lead]
    · by_cases hup : step = ".."
      · simp [walk, hup, LastStep.lead]
      · simp [walk, hstay, hup, LastStep.lead]

namespace Tree

variable {files files' : Tree} {directory start last place : Place} {steps : List String}
  {path : PathName} {name : String} {node : Node} {contents : Bytes} {mode : Nat}

theorem follow_eq_ok_iff :
    files.follow start steps = .ok place ↔
      ∃ last, files.approach start steps = .ok last ∧
        (∀ name, LastStep.ofSteps steps = .name name → name.utf8ByteSize ≤ maximalNameLength) ∧
          place = (LastStep.ofSteps steps).lead last := by
  rw [follow, bind_eq_ok_iff]
  apply exists_congr
  intro last
  cases LastStep.ofSteps steps with
  | stay => simp [LastStep.lead, eq_comm]
  | up => simp [LastStep.lead, eq_comm]
  | name name => simp [LastStep.lead, child_eq_ok_iff]

theorem walk_of_follow (h : files.follow start steps = .ok place) : place = start.walk steps := by
  rcases follow_eq_ok_iff.1 h with ⟨last, hlast, -, rfl⟩
  rw [Place.walk_eq_lead, walk_of_enter hlast]

theorem KeepsDirectories.follow (hkeeps : files.KeepsDirectories files')
    (h : files.follow start steps = .ok place) : files'.follow start steps = .ok place := by
  obtain ⟨last, hlast, h⟩ := follow_eq_ok_iff.1 h
  exact follow_eq_ok_iff.2 ⟨last, hkeeps.enter hlast, h⟩

/-- What is found is at the place the path leads to, and the path can be followed. -/
theorem find_eq_ok_iff :
    files.find directory path = .ok (place, node) ↔
      path.check = .ok () ∧ files.follow (startOf directory path) path.steps = .ok place ∧
        files.get? place = some node ∧ (node ≠ .directory → path.endsInSlash = false) := by
  rw [find, check_bind_eq_ok_iff, bind_eq_ok_iff]
  apply and_congr_right
  intro _
  apply Iff.intro
  · rintro ⟨found, hfollow, h⟩
    split at h
    · cases h
    · next hnode =>
      cases h
      exact ⟨hfollow, hnode, fun hne => absurd rfl hne⟩
    · next hnode =>
      split at h
      · cases h
      · next hslash =>
        cases h
        exact ⟨hfollow, hnode, fun _ => by simpa using hslash⟩
  · rintro ⟨hfollow, hnode, hslash⟩
    refine ⟨place, hfollow, ?_⟩
    rw [hnode]
    cases node with
    | directory => rfl
    | file contents mode => simp [hslash nofun]

theorem contentsAt_eq_ok_iff :
    files.contentsAt directory path = .ok contents ↔
      ∃ place mode, files.find directory path = .ok (place, .file contents mode) := by
  rw [contentsAt, bind_eq_ok_iff]
  apply Iff.intro
  · rintro ⟨⟨place, node⟩, hfind, h⟩
    cases node with
    | directory => cases h
    | file _ mode =>
      cases h
      exact ⟨place, mode, hfind⟩
  · rintro ⟨place, mode, hfind⟩
    exact ⟨_, hfind, rfl⟩

end Tree

end InterfaceProbe
