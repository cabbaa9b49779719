/-
# The file tree

A file tree gives what is at each place.  A place is the list of names on the
way to it from the root; the root itself is always a directory.  Two entries
for one place never matter, because the first one counts and changes replace
every one.
-/

import InterfaceProbe.Json.Text

namespace InterfaceProbe

/-- The names on the way from the root to an entry. -/
abbrev Place := List String

/-- What can be at a place. -/
inductive Node
  | directory
  /-- A file with its bytes and permission bits. -/
  | file (contents : Bytes) (mode : Nat)
  deriving DecidableEq, Repr, Inhabited

/-- The permission bits of new files. -/
def Node.defaultMode : Nat := 0o644

/-- Whether anyone may run the file. -/
def Node.isExecutable : Node → Bool
  | .directory => false
  | .file _ mode => mode &&& 0o111 ≠ 0

/-- A file tree as its entries below the root. -/
structure Tree where
  entries : List (Place × Node) := []
  deriving Inhabited

namespace Tree

/-- What is at a place. -/
def get? (files : Tree) (place : Place) : Option Node :=
  if place = [] then some .directory else files.entries.lookup place

/-- Whether a directory is at a place. -/
def isDirectory (files : Tree) (place : Place) : Bool :=
  files.get? place = some .directory

/-- Without the entries at the places that satisfy the condition. -/
def without (files : Tree) (condition : Place → Bool) : Tree :=
  ⟨files.entries.filter fun entry => !condition entry.1⟩

/-- With another node at a place. -/
def insert (files : Tree) (place : Place) (node : Node) : Tree :=
  ⟨(place, node) :: (files.without (· == place)).entries⟩

/-- Without the node at a place. -/
def erase (files : Tree) (place : Place) : Tree := files.without (· == place)

/-- Without the node at a place and everything below it. -/
def prune (files : Tree) (place : Place) : Tree := files.without place.isPrefixOf

/-- The names of the entries right below a place, in no particular order. -/
def names (files : Tree) (place : Place) : List String :=
  files.entries.filterMap fun entry =>
    match entry.1.getLast? with
    | none => none
    | some name => if entry.1.dropLast = place then some name else none

theorem lookup_filter_not (condition : Place → Bool) (entries : List (Place × Node))
    (place : Place) :
    (entries.filter fun entry => !condition entry.1).lookup place =
      if condition place then none else entries.lookup place := by
  induction entries with
  | nil => simp
  | cons entry rest ih =>
    obtain ⟨key, node⟩ := entry
    by_cases hkey : place = key
    · subst hkey
      by_cases hc : condition place = true
      · simpa [hc] using ih
      · simp [hc]
    · have hne : (place == key) = false := by simpa using hkey
      by_cases hc : condition key = true
      · simp [hc, ih, List.lookup_cons, hne]
      · simp [hc, ih, List.lookup_cons, hne]

theorem get?_without (files : Tree) (condition : Place → Bool) (place : Place) :
    (files.without condition).get? place =
      if place ≠ [] ∧ condition place then none else files.get? place := by
  unfold get? without
  by_cases h : place = []
  · simp [h]
  · simp [h, lookup_filter_not]

theorem get?_erase (files : Tree) (place other : Place) :
    (files.erase place).get? other =
      if other ≠ [] ∧ other = place then none else files.get? other := by
  simp [erase, get?_without]

theorem get?_prune (files : Tree) (place other : Place) :
    (files.prune place).get? other =
      if other ≠ [] ∧ place <+: other then none else files.get? other := by
  simp [prune, get?_without, List.isPrefixOf_iff_prefix]

theorem get?_insert (files : Tree) (place other : Place) (node : Node) :
    (files.insert place node).get? other =
      if other ≠ [] ∧ other = place then some node else files.get? other := by
  unfold insert get?
  by_cases h : other = []
  · simp [h]
  · by_cases he : other = place
    · subst he
      simp [h]
    · have hne : (other == place) = false := by simpa using he
      have := lookup_filter_not (· == place) files.entries other
      simp only [hne, Bool.false_eq_true, ↓reduceIte] at this
      simp only [h, he, hne, List.lookup_cons, without, this, ↓reduceIte, and_false]

end Tree

end InterfaceProbe
