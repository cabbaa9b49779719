/-
# What a build leaves in the file tree

A build works in a directory of its own, which is not there before.  While it
lasts, the tree differs from the one before in three ways only: the workspace with
what is in it, new directories on the way to the executables, and the places that
the build touched.  Pruning the workspace undoes the first.

A file or directory that is removed can no longer be found at its path, whatever
else is removed afterwards.
-/

import InterfaceProbe.Proofs.Files.Directories

namespace InterfaceProbe.Tree

/-- A tree during a build, compared with the one before. -/
structure Underway (before : Tree) (workspace : Place) (way touched : Place → Prop)
    (during : Tree) : Prop where
  closed : during.Closed
  get?_workspace : during.get? workspace = some .directory
  keeps : before.KeepsDirectories during
  get?_cases : ∀ place, ¬ workspace <+: place → during.get? place = before.get? place ∨
    (before.get? place = none ∧ during.get? place = some .directory ∧ way place) ∨ touched place

/-- A tree after a build: it has new directories on the way, some files are gone, and some were
written and are left. -/
structure Spared (before : Tree) (way gone : Place → Prop) (left : Place → Node → Prop)
    (after : Tree) : Prop where
  closed : after.Closed
  keeps : before.KeepsDirectories after
  get?_cases : ∀ place, after.get? place = before.get? place ∨
    (before.get? place = none ∧ after.get? place = some .directory ∧ way place) ∨
    ((∃ contents mode, before.get? place = some (.file contents mode)) ∧
      after.get? place = none ∧ gone place) ∨
    ∃ contents mode, after.get? place = some (.file contents mode) ∧
      left place (.file contents mode)

/-- The path leads to a file at the place. -/
def LeadsToFile (files : Tree) (directory : Place) (path : PathName) (place : Place) : Prop :=
  ∃ contents mode, files.find directory path = .ok (place, .file contents mode)

/-- Whatever is in the first tree is in the second. -/
def Within (files files' : Tree) : Prop :=
  ∀ place node, files.get? place = some node → files'.get? place = some node

variable {files files' before during after : Tree} {directory start workspace place : Place}
  {way touched gone : Place → Prop} {left : Place → Node → Prop} {path : PathName}
  {steps : List String} {node : Node} {contents : Bytes} {mode : Nat}

namespace Underway

theorem mono {more : Place → Prop} (h : Underway before workspace way touched during)
    (hmore : ∀ place, touched place → more place) :
    Underway before workspace way more during where
  closed := h.closed
  get?_workspace := h.get?_workspace
  keeps := h.keeps
  get?_cases place hout := (h.get?_cases place hout).imp_right (Or.imp_right (hmore place))

/-- It begins with an empty workspace. -/
theorem begin (hclosed : before.Closed) (hstart : before.get? start = some .directory)
    (hnames : before.NamesFrom start steps workspace) (hnone : before.get? workspace = none) :
    Underway before workspace way touched (before.insert workspace .directory) where
  closed := hnames.closed_insert hclosed hstart (by rw [hnone]; nofun) .directory
  get?_workspace := by simp [get?_insert, hnames.ne_nil]
  keeps := keepsDirectories_insert (by rw [hnone]; nofun)
  get?_cases place hout := by
    refine .inl ?_
    rw [get?_insert, if_neg]
    rintro ⟨-, rfl⟩
    exact hout (List.prefix_refl place)

/-- It goes on as long as directories stay and only the workspace and touched places change. -/
theorem changed (h : Underway before workspace way touched during) (hclosed : after.Closed)
    (hkeeps : during.KeepsDirectories after)
    (hsame : ∀ place, ¬ workspace <+: place →
      after.get? place = during.get? place ∨ touched place) :
    Underway before workspace way touched after where
  closed := hclosed
  get?_workspace := hkeeps _ h.get?_workspace
  keeps := h.keeps.trans hkeeps
  get?_cases place hout := by
    rcases hsame place hout with hsame | htouched
    · rw [hsame]
      exact h.get?_cases place hout
    · exact .inr (.inr htouched)

theorem insert (h : Underway before workspace way touched during)
    (hstart : during.get? start = some .directory) (hnames : during.NamesFrom start steps place)
    (hnode : during.get? place ≠ some .directory) (hplace : workspace <+: place ∨ touched place)
    (node : Node) : Underway before workspace way touched (during.insert place node) := by
  apply h.changed (hnames.closed_insert h.closed hstart hnode node) (keepsDirectories_insert hnode)
  intro other hout
  rw [get?_insert]
  split
  · next heq =>
    obtain ⟨-, rfl⟩ := heq
    exact .inr (hplace.resolve_left hout)
  · exact .inl rfl

theorem erase (h : Underway before workspace way touched during)
    (hnode : during.get? place ≠ some .directory) (hplace : touched place) :
    Underway before workspace way touched (during.erase place) := by
  apply h.changed (h.closed.erase hnode) (keepsDirectories_erase hnode)
  intro other hout
  rw [get?_erase]
  split
  · next heq =>
    obtain ⟨-, rfl⟩ := heq
    exact .inr hplace
  · exact .inl rfl

theorem grown (h : Underway before workspace way touched during)
    (hgrown : Grown start steps during after)
    (hway : ∀ front, front <+: steps → way (start.walk front)) :
    Underway before workspace way touched after where
  closed := hgrown.closed
  get?_workspace := hgrown.keepsDirectories _ h.get?_workspace
  keeps := h.keeps.trans hgrown.keepsDirectories
  get?_cases place hout := by
    rcases hgrown.get?_cases place with hsame | ⟨hnone, hnew, front, hfront, rfl⟩
    · rw [hsame]
      exact h.get?_cases place hout
    · rcases h.get?_cases _ hout with hsame | ⟨-, hold, -⟩ | htouched
      · exact .inr (.inl ⟨hsame ▸ hnone, hnew, hway front hfront⟩)
      · cases hnone.symm.trans hold
      · exact .inr (.inr htouched)

/-- When the file at a path is removed that was all that was touched, no touched place is left. -/
theorem removeFile (h : Underway before workspace way (during.LeadsToFile directory path) during)
    (hafter : (during.removeFile directory path).toOption.getD during = after) :
    Underway before workspace way
      (fun place => place = Place.ofPath directory path ∧ after.get? place = none) after := by
  cases hremove : during.removeFile directory path with
  | error error =>
    rw [hremove] at hafter
    subst hafter
    -- A file that was touched could have been removed, so there is none.
    apply h.mono
    rintro place ⟨contents, mode, hfind⟩
    cases hremove.symm.trans (removeFile_eq_ok_iff.2 ⟨place, contents, mode, hfind, rfl⟩)
  | ok removed =>
    rw [hremove] at hafter
    subst hafter
    obtain ⟨found, contents, mode, hfind, rfl⟩ := removeFile_eq_ok_iff.1 hremove
    obtain ⟨-, hfollow, hnode, -⟩ := find_eq_ok_iff.1 hfind
    have hne : found ≠ [] := by
      rintro rfl
      cases hnode
    have honly : Underway before workspace way (fun place => place = found) during := by
      apply h.mono
      rintro place ⟨contents', mode', hfind'⟩
      exact congrArg Prod.fst (Except.ok.inj (hfind'.symm.trans hfind))
    apply (honly.erase (by rw [hnode]; nofun) rfl).mono
    rintro place rfl
    refine ⟨walk_of_follow hfollow, ?_⟩
    rw [Except.toOption, Option.getD_some, get?_erase, if_pos ⟨hne, rfl⟩]

/-- Without the workspace, nothing of a build is left but directories on the way and what was
touched and is not gone. -/
theorem prune (h : Underway before workspace way
      (fun place => gone place ∧ during.get? place = none ∨
        ∃ contents mode, during.get? place = some (.file contents mode) ∧
          left place (.file contents mode)) during)
    (hclosed : before.Closed) (hnone : before.get? workspace = none) :
    Spared before way gone left (during.prune workspace) where
  closed := h.closed.prune workspace
  keeps place hplace := by
    have hout : ¬ workspace <+: place := fun hin => by
      cases (hclosed.get?_of_isPrefix hnone hin).symm.trans hplace
    rw [get?_prune, if_neg fun hboth => hout hboth.2]
    exact h.keeps place hplace
  get?_cases place := by
    by_cases hin : workspace <+: place
    · have hplace : before.get? place = none := hclosed.get?_of_isPrefix hnone hin
      have hne : place ≠ [] := by
        rintro rfl
        cases hplace
      exact .inl (by rw [get?_prune, if_pos ⟨hne, hin⟩, hplace])
    · rw [get?_prune, if_neg fun hboth => hin hboth.2]
      rcases h.get?_cases place hin with hsame | hnew | ⟨hgone, hremoved⟩ | hleft
      · exact .inl hsame
      · exact .inr (.inl hnew)
      · -- What is gone was nothing before, which is no change, or a file, since directories stay.
        cases hplace : before.get? place with
        | none => exact .inl hremoved
        | some node =>
          cases node with
          | directory => cases hremoved.symm.trans (h.keeps place hplace)
          | file contents mode =>
            exact .inr (.inr (.inl ⟨⟨contents, mode, rfl⟩, hremoved, hgone⟩))
      · exact .inr (.inr (.inr hleft))

end Underway

namespace Spared

theorem refl (hclosed : files.Closed) : Spared files way gone left files :=
  ⟨hclosed, fun _ => id, fun _ => .inl rfl⟩

theorem mono {way' gone' : Place → Prop} {left' : Place → Node → Prop}
    (h : Spared before way gone left after) (hway : ∀ place, way place → way' place)
    (hgone : ∀ place, gone place → gone' place)
    (hleft : ∀ place node, left place node → left' place node) :
    Spared before way' gone' left' after where
  closed := h.closed
  keeps := h.keeps
  get?_cases place := by
    rcases h.get?_cases place with hsame | ⟨hnone, hnew, hmade⟩ | ⟨hfile, hnone, hlost⟩ |
      ⟨contents, mode, hfile, hwritten⟩
    · exact .inl hsame
    · exact .inr (.inl ⟨hnone, hnew, hway place hmade⟩)
    · exact .inr (.inr (.inl ⟨hfile, hnone, hgone place hlost⟩))
    · exact .inr (.inr (.inr ⟨contents, mode, hfile, hleft place _ hwritten⟩))

/-- Where there is nothing to make, nothing to lose and nothing to leave, the entries are the
same. -/
theorem get?_eq (h : Spared before way gone left after)
    (hway : ∀ place, way place → before.get? place ≠ none)
    (hgone : ∀ place contents mode, gone place →
      before.get? place ≠ some (.file contents mode))
    (hleft : ∀ place node, ¬ left place node) : after.get? = before.get? := by
  funext place
  rcases h.get?_cases place with hsame | ⟨hnone, -, hnew⟩ | ⟨⟨contents, mode, hfile⟩, -, hlost⟩ |
    ⟨contents, mode, -, hwritten⟩
  · exact hsame
  · exact absurd hnone (hway place hnew)
  · exact absurd hfile (hgone place contents mode hlost)
  · exact absurd hwritten (hleft place _)

end Spared

namespace Within

theorem refl (files : Tree) : files.Within files := fun _ _ => id

theorem trans {files'' : Tree} (h : files.Within files') (h' : files'.Within files'') :
    files.Within files'' :=
  fun place node hnode => h' place node (h place node hnode)

theorem without (files : Tree) (condition : Place → Bool) :
    (files.without condition).Within files := by
  intro place node hplace
  rw [get?_without] at hplace
  split at hplace
  · cases hplace
  · exact hplace

theorem prune (files : Tree) (place : Place) : (files.prune place).Within files :=
  without files _

theorem erase (files : Tree) (place : Place) : (files.erase place).Within files :=
  without files _

theorem removeFile (files : Tree) (directory : Place) (path : PathName) :
    ((files.removeFile directory path).toOption.getD files).Within files := by
  cases hremove : files.removeFile directory path with
  | error error => exact refl files
  | ok removed =>
    obtain ⟨place, contents, mode, -, rfl⟩ := removeFile_eq_ok_iff.1 hremove
    exact erase files place

theorem removeDirectory (files : Tree) (directory : Place) (path : PathName) :
    ((files.removeDirectory directory path).toOption.getD files).Within files := by
  cases hremove : files.removeDirectory directory path with
  | error error => exact refl files
  | ok removed =>
    obtain ⟨place, -, rfl⟩ := removeDirectory_eq_ok_iff.1 hremove
    exact prune files place

/-- What is found in one tree is found in every larger one. -/
theorem find (h : files.Within files') (hfind : files.find directory path = .ok (place, node)) :
    files'.find directory path = .ok (place, node) := by
  obtain ⟨hcheck, hfollow, hnode, hslash⟩ := find_eq_ok_iff.1 hfind
  have hkeeps : files.KeepsDirectories files' := fun other => h other .directory
  exact find_eq_ok_iff.2 ⟨hcheck, hkeeps.follow hfollow, h place node hnode, hslash⟩

theorem contentsAt (h : files.Within files')
    (hread : files.contentsAt directory path = .ok contents) :
    files'.contentsAt directory path = .ok contents := by
  obtain ⟨place, mode, hfind⟩ := contentsAt_eq_ok_iff.1 hread
  exact contentsAt_eq_ok_iff.2 ⟨place, mode, h.find hfind⟩

end Within

/-- Whether or not there was a file to remove, there is none afterwards. -/
theorem contentsAt_removeFile_ne_ok (files : Tree) (directory : Place) (path : PathName)
    (contents : Bytes) :
    ((files.removeFile directory path).toOption.getD files).contentsAt directory path ≠
      .ok contents := by
  intro hread
  obtain ⟨place, mode, hfind⟩ := contentsAt_eq_ok_iff.1 hread
  cases hremove : files.removeFile directory path with
  | error error =>
    rw [hremove] at hfind
    cases hremove.symm.trans (removeFile_eq_ok_iff.2 ⟨place, contents, mode, hfind, rfl⟩)
  | ok removed =>
    rw [hremove] at hfind
    obtain ⟨found, contents', mode', hfound, rfl⟩ := removeFile_eq_ok_iff.1 hremove
    have hplace : place = found :=
      (walk_of_follow (find_eq_ok_iff.1 hfind).2.1).trans
        (walk_of_follow (find_eq_ok_iff.1 hfound).2.1).symm
    have hnode := (find_eq_ok_iff.1 hfind).2.2.1
    dsimp only [Except.toOption, Option.getD] at hnode
    rw [get?_erase, hplace] at hnode
    split at hnode
    · cases hnode
    · next hkept =>
      have hroot : found = [] := by simpa using hkept
      subst hroot
      cases hnode

/-- Whether or not there was a directory to remove, there is none afterwards, unless it is the
root. -/
theorem find_removeDirectory_ne_ok (files : Tree) (hroot : Place.ofPath directory path ≠ [])
    (place : Place) :
    ((files.removeDirectory directory path).toOption.getD files).find directory path ≠
      .ok (place, .directory) := by
  intro hfind
  cases hremove : files.removeDirectory directory path with
  | error error =>
    rw [hremove] at hfind
    cases hremove.symm.trans (removeDirectory_of_find hfind)
  | ok removed =>
    rw [hremove] at hfind
    obtain ⟨found, hfound, rfl⟩ := removeDirectory_eq_ok_iff.1 hremove
    have hplace : place = Place.ofPath directory path := walk_of_follow (find_eq_ok_iff.1 hfind).2.1
    have hsame : found = Place.ofPath directory path := walk_of_follow (find_eq_ok_iff.1 hfound).2.1
    have hnode := (find_eq_ok_iff.1 hfind).2.2.1
    dsimp only [Except.toOption, Option.getD] at hnode
    rw [get?_prune, hplace, hsame, if_pos ⟨hroot, List.prefix_refl _⟩] at hnode
    cases hnode

end InterfaceProbe.Tree
