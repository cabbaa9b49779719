/-
# Making directories

In a closed tree every entry is in a directory, and closed trees stay closed.
Making a directory with those on the way to it only adds directories, and only
where the first steps of the path lead.  The tree may have grown when the attempt
fails half-way.
-/

import InterfaceProbe.Proofs.Files.Changes
import Mathlib.Data.List.Induction

namespace InterfaceProbe

/-- Some of the first components of the path lead to the place. -/
def Place.OnTheWay (directory : Place) (path : PathName) (place : Place) : Prop :=
  ∃ front, front <+: path.components ∧ place = (Tree.startOf directory path).walk front

theorem PathName.components_eq_filter (path : PathName) :
    path.components = path.steps.filter fun step => step ≠ "." := by
  rw [components, steps, List.filter_filter]
  congr 1
  funext piece
  simp only [staysPut, Bool.not_or, decide_not]
  rw [Bool.and_comm]
  rfl

/-- A step that stays may be left out. -/
theorem Place.walk_filter (start : Place) (steps : List String) :
    start.walk (steps.filter fun step => step ≠ ".") = start.walk steps := by
  induction steps generalizing start with
  | nil => rfl
  | cons step rest ih =>
    by_cases hstay : step = "."
    · simpa [hstay, walk] using ih start
    · by_cases hup : step = ".."
      · simpa [hup, walk] using ih start.dropLast
      · simpa [hstay, hup, walk] using ih (start ++ [step])

namespace Tree

/-- Every entry is in a directory. -/
def Closed (files : Tree) : Prop :=
  ∀ place name, files.get? (place ++ [name]) ≠ none → files.get? place = some .directory

variable {files files' : Tree} {directory start last place other : Place} {path : PathName}
  {node : Node} {name : String} {steps : List String}

section Closed

/-- A path starts at a directory if relative paths do. -/
theorem get?_startOf (h : files.get? directory = some .directory) (path : PathName) :
    files.get? (startOf directory path) = some .directory := by
  rw [startOf]
  split
  · rfl
  · exact h

/-- Below the root there is nothing but the entries. -/
theorem mem_entries_of_get? (hne : place ≠ []) (h : files.get? place = some node) :
    (place, node) ∈ files.entries := by
  rw [get?, if_neg hne] at h
  obtain ⟨front, back, hentries, -⟩ := List.lookup_eq_some_iff.1 h
  rw [hentries]
  exact List.mem_append_right _ List.mem_cons_self

/-- A tree is closed if its entries are in directories. -/
theorem closed_of_entries
    (h : ∀ entry ∈ files.entries, files.get? entry.1.dropLast = some .directory) :
    files.Closed := by
  intro place name hne
  obtain ⟨node, hnode⟩ := Option.ne_none_iff_exists'.1 hne
  have hplace := h _ (mem_entries_of_get? (List.concat_ne_nil name place) hnode)
  rwa [List.dropLast_concat] at hplace

theorem Closed.dropLast (hclosed : files.Closed) (h : files.get? place = some .directory) :
    files.get? place.dropLast = some .directory := by
  rcases List.eq_nil_or_concat place with rfl | ⟨front, name, rfl⟩
  · rfl
  · rw [List.concat_eq_append, List.dropLast_concat]
    exact hclosed front name (by rw [← List.concat_eq_append, h]; nofun)

/-- Nothing is below a place where nothing is. -/
theorem Closed.get?_of_isPrefix (hclosed : files.Closed) (hplace : files.get? place = none)
    (hother : place <+: other) : files.get? other = none := by
  rcases hother with ⟨below, rfl⟩
  induction below using List.reverseRecOn with
  | nil => rwa [List.append_nil]
  | append_singleton front name ih =>
    apply Decidable.byContradiction
    intro hne
    rw [← List.append_assoc] at hne
    cases ih.symm.trans (hclosed _ _ hne)

/-- Steps lead from one directory to another. -/
theorem Closed.enter (hclosed : files.Closed) (hstart : files.get? start = some .directory)
    (h : files.enter start steps = .ok last) : files.get? last = some .directory := by
  induction steps generalizing start with
  | nil => exact Except.ok.inj h ▸ hstart
  | cons step rest ih =>
    by_cases hstay : step = "."
    · subst hstay
      exact ih hstart h
    · by_cases hup : step = ".."
      · subst hup
        exact ih (hclosed.dropLast hstart) h
      · obtain ⟨-, hstep, h⟩ := (enter_cons_eq_ok_iff hstay hup).1 h
        exact ih hstep h

theorem Closed.insert (hclosed : files.Closed) (hparent : files.get? last = some .directory)
    (hnode : files.get? (last ++ [name]) ≠ some .directory) (node : Node) :
    (files.insert (last ++ [name]) node).Closed := by
  intro place child hchild
  have hkeeps : files.KeepsDirectories (files.insert (last ++ [name]) node) :=
    keepsDirectories_insert hnode
  rw [get?_insert] at hchild
  split at hchild
  · next heq =>
    have : place = last := (List.append_inj' heq.2 rfl).1
    exact hkeeps _ (this ▸ hparent)
  · exact hkeeps _ (hclosed place child hchild)

theorem Closed.erase (hclosed : files.Closed) (hnode : files.get? place ≠ some .directory) :
    (files.erase place).Closed := by
  intro other child hchild
  rw [get?_erase] at hchild
  split at hchild
  · exact absurd rfl hchild
  · exact keepsDirectories_erase hnode _ (hclosed other child hchild)

theorem Closed.prune (hclosed : files.Closed) (place : Place) : (files.prune place).Closed := by
  intro other child hchild
  rw [get?_prune] at hchild
  split at hchild
  · exact absurd rfl hchild
  · next hout =>
    rw [get?_prune, if_neg]
    · exact hclosed other child hchild
    · intro hin
      exact hout ⟨List.concat_ne_nil child other, hin.2.trans (List.prefix_append other [child])⟩

end Closed

/-- All that is new are directories where some first steps lead. -/
structure Grown (start : Place) (steps : List String) (before after : Tree) : Prop where
  closed : after.Closed
  get?_cases : ∀ place, after.get? place = before.get? place ∨
    before.get? place = none ∧ after.get? place = some .directory ∧
      ∃ front, front <+: steps ∧ place = start.walk front

namespace Grown

variable {before middle after : Tree} {all : List String}

theorem refl (start : Place) (steps : List String) (hclosed : files.Closed) :
    Grown start steps files files :=
  ⟨hclosed, fun _ => .inl rfl⟩

theorem keepsDirectories (h : Grown start steps before after) : before.KeepsDirectories after := by
  intro place hplace
  rcases h.get?_cases place with hsame | ⟨hnone, -, -⟩
  · rw [hsame, hplace]
  · cases hnone.symm.trans hplace

theorem trans (h : Grown start steps before middle) (h' : Grown start steps middle after) :
    Grown start steps before after := by
  refine ⟨h'.closed, fun place => ?_⟩
  rcases h'.get?_cases place with hsame | ⟨hnone, hnew⟩
  · rw [hsame]
    exact h.get?_cases place
  · rcases h.get?_cases place with hsame | ⟨-, hold, -⟩
    · exact .inr ⟨hsame ▸ hnone, hnew⟩
    · cases hnone.symm.trans hold

theorem mono (h : Grown start steps before after) (hall : steps <+: all) :
    Grown start all before after := by
  refine ⟨h.closed, fun place => (h.get?_cases place).imp_right ?_⟩
  rintro ⟨hnone, hnew, front, hfront, hplace⟩
  exact ⟨hnone, hnew, front, hfront.trans hall, hplace⟩

end Grown

/-- An entry that the steps name is in a directory. -/
theorem NamesFrom.closed_insert (hclosed : files.Closed)
    (hstart : files.get? start = some .directory) (h : files.NamesFrom start steps place)
    (hnode : files.get? place ≠ some .directory) (node : Node) :
    (files.insert place node).Closed := by
  rcases h with ⟨last, name, rfl, hlast, -⟩
  exact hclosed.insert (hclosed.enter hstart hlast) hnode node

section Making

variable {all front : List String} {error : FileError} {made : Tree}
  {before : Unit → Except FileError Unit × Tree}

/-- The new directory is where the steps lead. -/
theorem grown_of_makeLast (hclosed : files.Closed) (hstart : files.get? start = some .directory)
    (h : files.makeLast start steps = .ok made) (hfront : front <+: all)
    (hwalk : start.walk front = start.walk steps) : Grown start all files made := by
  obtain ⟨place, hnames, hnone, rfl⟩ := makeLast_eq_ok_iff.1 h
  refine ⟨hnames.closed_insert hclosed hstart (by rw [hnone]; nofun) .directory, fun other => ?_⟩
  rw [get?_insert]
  split
  · next heq =>
    obtain ⟨-, rfl⟩ := heq
    exact .inr ⟨hnone, rfl, front, hfront, (walk_of_follow hnames.follow).trans hwalk.symm⟩
  · exact .inl rfl

/-- A directory at the end of the steps, unless there is one. -/
def makeOrSettle (files : Tree) (start : Place) (steps : List String) :
    Except FileError Unit × Tree :=
  match files.makeLast start steps with
  | .ok made => (.ok (), made)
  | .error error => (files.settle start steps error, files)

theorem makeAfter_of_ne (h : files.makeLast start steps ≠ .error .notFound) :
    files.makeAfter start steps before = files.makeOrSettle start steps := by
  rw [makeAfter, makeOrSettle]
  cases hmake : files.makeLast start steps with
  | ok made => rfl
  | error error =>
    cases error with
    | notFound => exact absurd hmake h
    | _ => rfl

theorem makeAfter_of_error (h : files.makeLast start steps = .error .notFound)
    (hbefore : before () = (.error error, made)) :
    files.makeAfter start steps before = (.error error, made) := by
  rw [makeAfter, h]
  dsimp only
  rw [hbefore]

theorem makeAfter_of_ok (h : files.makeLast start steps = .error .notFound)
    (hbefore : before () = (.ok (), made)) :
    files.makeAfter start steps before = made.makeOrSettle start steps := by
  rw [makeAfter, h]
  dsimp only
  rw [hbefore]
  rfl

theorem grown_makeOrSettle (hclosed : files.Closed) (hstart : files.get? start = some .directory)
    (hfront : front <+: all) (hwalk : start.walk front = start.walk steps) :
    Grown start all files (files.makeOrSettle start steps).2 := by
  rw [makeOrSettle]
  cases hmake : files.makeLast start steps with
  | ok made => exact grown_of_makeLast hclosed hstart hmake hfront hwalk
  | error error => exact Grown.refl start all hclosed

theorem grown_makeAfter (hclosed : files.Closed) (hstart : files.get? start = some .directory)
    (hfront : front <+: all) (hwalk : start.walk front = start.walk steps)
    (hbefore : Grown start all files (before ()).2) :
    Grown start all files (files.makeAfter start steps before).2 := by
  by_cases hmissing : files.makeLast start steps = .error .notFound
  · cases hway : before () with
    | mk result made =>
      rw [hway] at hbefore
      cases result with
      | error error =>
        rw [makeAfter_of_error hmissing hway]
        exact hbefore
      | ok =>
        rw [makeAfter_of_ok hmissing hway]
        exact hbefore.trans (grown_makeOrSettle hbefore.closed
          (hbefore.keepsDirectories _ hstart) hfront hwalk)
  · rw [makeAfter_of_ne hmissing]
    exact grown_makeOrSettle hclosed hstart hfront hwalk

theorem grown_makeWay (hclosed : files.Closed) (hstart : files.get? start = some .directory)
    (way : List String) : Grown start way.reverse files (files.makeWay start way).2 := by
  induction way with
  | nil => exact Grown.refl start _ hclosed
  | cons last front ih =>
    rw [makeWay]
    apply grown_makeAfter hclosed hstart (List.prefix_refl _) rfl
    apply ih.mono
    rw [List.reverse_cons]
    exact List.prefix_append _ _

/-- Making a directory with those on the way to it makes nothing else, even if it fails. -/
theorem grown_makeDirectories (hclosed : files.Closed)
    (hdirectory : files.get? directory = some .directory) (path : PathName) :
    Grown (startOf directory path) path.components files
      (files.makeDirectories directory path).2 := by
  rw [makeDirectories]
  split
  · exact Grown.refl _ _ hclosed
  · split
    · exact Grown.refl _ _ hclosed
    · have hstart := get?_startOf hdirectory path
      apply grown_makeAfter hclosed hstart (List.prefix_refl _)
      · rw [PathName.components_eq_filter, Place.walk_filter]
      · apply (grown_makeWay hclosed hstart _).mono
        rw [List.tail_reverse, List.reverse_reverse]
        exact List.dropLast_prefix _

end Making

end Tree

end InterfaceProbe
