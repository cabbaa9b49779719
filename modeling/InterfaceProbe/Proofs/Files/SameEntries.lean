/-
# Trees with the same entries

Operations on files look at what is at a place and at nothing else of a tree.
So they cannot tell two trees apart that have the same node at every place: they
give the same results there, and leave trees that have the same nodes again.
-/

import InterfaceProbe.Proofs.Files.Directories

namespace InterfaceProbe.Tree

/-- A change that cannot tell trees with the same entries apart. -/
def Blind (edit : Tree → Place → Except FileError Tree) : Prop :=
  ∀ files files' : Tree, files.get? = files'.get? → ∀ directory,
    (edit files directory).map get? = (edit files' directory).map get?

section Reading

variable {files files' : Tree}

theorem enter_congr (h : files.get? = files'.get?) : files.enter = files'.enter := by
  funext directory steps
  induction steps generalizing directory with
  | nil => rfl
  | cons step rest ih => simp only [enter, ih, h]

theorem follow_congr (h : files.get? = files'.get?) : files.follow = files'.follow := by
  funext start steps
  simp only [follow, approach, enter_congr h]

theorem find_congr (h : files.get? = files'.get?) : files.find = files'.find := by
  funext directory path
  simp only [find, follow_congr h, h]

end Reading

section Changing

variable {files files' : Tree}

theorem insert_congr (h : files.get? = files'.get?) (place : Place) (node : Node) :
    (files.insert place node).get? = (files'.insert place node).get? := by
  funext other
  rw [get?_insert, get?_insert, h]

theorem erase_congr (h : files.get? = files'.get?) (place : Place) :
    (files.erase place).get? = (files'.erase place).get? := by
  funext other
  rw [get?_erase, get?_erase, h]

theorem prune_congr (h : files.get? = files'.get?) (place : Place) :
    (files.prune place).get? = (files'.prune place).get? := by
  funext other
  rw [get?_prune, get?_prune, h]

theorem map_bind_congr {α : Type} {x : Except FileError α} {f f' : α → Except FileError Tree}
    (h : ∀ a, (f a).map get? = (f' a).map get?) : (x >>= f).map get? = (x >>= f').map get? := by
  cases x with
  | error error => rfl
  | ok a => exact h a

theorem makeLast_congr (h : files.get? = files'.get?) (start : Place) (steps : List String) :
    (files.makeLast start steps).map get? = (files'.makeLast start steps).map get? := by
  rw [makeLast, makeLast, approach, approach, enter_congr h]
  apply map_bind_congr
  intro last
  cases LastStep.ofSteps steps with
  | stay => rfl
  | up => rfl
  | name name =>
    apply map_bind_congr
    intro place
    rw [h]
    cases files'.get? place with
    | none => exact congrArg Except.ok (insert_congr h place .directory)
    | some node => rfl

theorem blind_makeDirectory (path : PathName) :
    Blind fun files directory => files.makeDirectory directory path := by
  intro files files' h directory
  exact map_bind_congr fun _ => makeLast_congr h _ _

theorem blind_writeFile (path : PathName) (contents : Bytes) :
    Blind fun files directory => files.writeFile directory path contents := by
  intro files files' h directory
  simp only [writeFile, locateFile, approach, enter_congr h]
  apply map_bind_congr
  intro place
  rw [h]
  cases files'.get? place with
  | none => exact congrArg Except.ok (insert_congr h place _)
  | some node =>
    cases node with
    | directory => rfl
    | file old mode => exact congrArg Except.ok (insert_congr h place _)

theorem blind_setMode (path : PathName) (mode : Nat) :
    Blind fun files directory => files.setMode directory path mode := by
  intro files files' h directory
  simp only [setMode, find_congr h]
  apply map_bind_congr
  intro found
  cases found with
  | mk place node =>
    cases node with
    | directory => exact congrArg Except.ok h
    | file contents old => exact congrArg Except.ok (insert_congr h place _)

theorem blind_removeFile (path : PathName) :
    Blind fun files directory => files.removeFile directory path := by
  intro files files' h directory
  simp only [removeFile, find_congr h]
  apply map_bind_congr
  intro found
  cases found with
  | mk place node =>
    cases node with
    | directory => rfl
    | file contents mode => exact congrArg Except.ok (erase_congr h place)

theorem blind_removeDirectory (path : PathName) :
    Blind fun files directory => files.removeDirectory directory path := by
  intro files files' h directory
  simp only [removeDirectory, find_congr h]
  apply map_bind_congr
  intro found
  cases found with
  | mk place node =>
    cases node with
    | directory => exact congrArg Except.ok (prune_congr h place)
    | file contents mode => rfl

/-- Changes with the same outcome both fail, for the same reason, or both succeed. -/
theorem cases_of_map_eq {made made' : Except FileError Tree} (h : made.map get? = made'.map get?) :
    (∃ files files', made = .ok files ∧ made' = .ok files' ∧ files.get? = files'.get?) ∨
      ∃ error, made = .error error ∧ made' = .error error := by
  cases made with
  | ok files =>
    cases made' with
    | ok files' => exact .inl ⟨files, files', rfl, rfl, Except.ok.inj h⟩
    | error error => cases h
  | error error =>
    cases made' with
    | ok files' => cases h
    | error other =>
      cases h
      exact .inr ⟨error, rfl, rfl⟩

theorem eq_error_iff_of_map_eq {made made' : Except FileError Tree}
    (h : made.map get? = made'.map get?) (error : FileError) :
    made = .error error ↔ made' = .error error := by
  rcases cases_of_map_eq h with ⟨files, files', rfl, rfl, -⟩ | ⟨other, rfl, rfl⟩
  · exact iff_of_false nofun nofun
  · exact Iff.rfl

/-- What becomes of a tree by a change that is made in full or not at all. -/
theorem changed_congr {made made' : Except FileError Tree} (hmade : made.map get? = made'.map get?)
    (h : files.get? = files'.get?) :
    made.map (fun _ => ()) = made'.map (fun _ => ()) ∧
      (made.toOption.getD files).get? = (made'.toOption.getD files').get? := by
  rcases cases_of_map_eq hmade with ⟨_, _, rfl, rfl, hsame⟩ | ⟨error, rfl, rfl⟩
  · exact ⟨rfl, hsame⟩
  · exact ⟨rfl, h⟩

end Changing

section Directories

variable {files files' : Tree}

/-- The outcome of a change that may fail on the way, up to trees with the same entries. -/
def entriesOf (outcome : Except FileError Unit × Tree) :
    Except FileError Unit × (Place → Option Node) :=
  (outcome.1, outcome.2.get?)

theorem isDirectory_congr (h : files.get? = files'.get?) :
    files.isDirectory = files'.isDirectory := by
  funext place
  rw [isDirectory, isDirectory, h]

theorem settle_congr (h : files.get? = files'.get?) : files.settle = files'.settle := by
  funext start steps error
  rw [settle, settle, follow_congr h, isDirectory_congr h]

theorem makeOrSettle_congr (h : files.get? = files'.get?) (start : Place) (steps : List String) :
    entriesOf (files.makeOrSettle start steps) = entriesOf (files'.makeOrSettle start steps) := by
  rw [makeOrSettle, makeOrSettle]
  rcases cases_of_map_eq (makeLast_congr h start steps) with
    ⟨made, made', hmade, hmade', hsame⟩ | ⟨error, herror, herror'⟩
  · rw [hmade, hmade']
    exact Prod.ext rfl hsame
  · rw [herror, herror', settle_congr h]
    exact Prod.ext rfl h

theorem makeAfter_congr (h : files.get? = files'.get?) (start : Place) (steps : List String)
    {before before' : Unit → Except FileError Unit × Tree}
    (hbefore : entriesOf (before ()) = entriesOf (before' ())) :
    entriesOf (files.makeAfter start steps before) =
      entriesOf (files'.makeAfter start steps before') := by
  have hiff := eq_error_iff_of_map_eq (makeLast_congr h start steps) .notFound
  by_cases hmissing : files.makeLast start steps = .error .notFound
  · obtain ⟨hresult, hsame⟩ := Prod.ext_iff.1 hbefore
    cases hway : before () with
    | mk result made =>
      cases hway' : before' () with
      | mk result' made' =>
        rw [hway, hway'] at hresult hsame
        cases hresult
        cases result with
        | error error =>
          rw [makeAfter_of_error hmissing hway, makeAfter_of_error (hiff.1 hmissing) hway']
          exact Prod.ext rfl hsame
        | ok =>
          rw [makeAfter_of_ok hmissing hway, makeAfter_of_ok (hiff.1 hmissing) hway']
          exact makeOrSettle_congr hsame start steps
  · rw [makeAfter_of_ne hmissing, makeAfter_of_ne (mt hiff.2 hmissing)]
    exact makeOrSettle_congr h start steps

theorem makeWay_congr (h : files.get? = files'.get?) (start : Place) (way : List String) :
    entriesOf (files.makeWay start way) = entriesOf (files'.makeWay start way) := by
  induction way with
  | nil => exact Prod.ext rfl h
  | cons last front ih => exact makeAfter_congr h start _ ih

theorem makeDirectories_congr (h : files.get? = files'.get?) (directory : Place)
    (path : PathName) :
    entriesOf (files.makeDirectories directory path) =
      entriesOf (files'.makeDirectories directory path) := by
  rw [makeDirectories, makeDirectories]
  split
  · exact Prod.ext rfl h
  · split
    · exact Prod.ext rfl h
    · exact makeAfter_congr h _ _ (makeWay_congr h _ _)

end Directories

end InterfaceProbe.Tree
