/-
# What signatures depend on

The signatures of a package depend on the name a package goes by exactly if its
path is one of the imports and is not the local one.  If no such name changes, no
signature does.  If one changes, the texts of a signature before and after agree
but where that name stands, and that is enough to tell them apart: the length
gives away a change of the name's length, and without one the first place does.
-/

import InterfaceProbe.Proofs.Model.Structure
import Mathlib.Logic.ExistsUnique

namespace InterfaceProbe

section Exchange

variable {x y : String} {count other : Nat} {first second : String}

/-- Two texts that agree but at `count` places, where the first has `x` and the second `y`. -/
inductive Exchanged (x y : String) : Nat → String → String → Prop
  | same (text : String) : Exchanged x y 0 text text
  | place : Exchanged x y 1 x y
  | append {count other : Nat} {first second front back : String} :
      Exchanged x y count first second → Exchanged x y other front back →
        Exchanged x y (count + other) (first ++ front) (second ++ back)

namespace Exchanged

theorem behind (h : Exchanged x y count first second) (front : String) :
    Exchanged x y count (front ++ first) (front ++ second) := by
  have happend := (same front).append h
  rwa [Nat.zero_add] at happend

theorem before (h : Exchanged x y count first second) (back : String) :
    Exchanged x y count (first ++ back) (second ++ back) :=
  h.append (same back)

theorem eq_of_zero (h : Exchanged x y count first second) (hcount : count = 0) :
    first = second := by
  induction h with
  | same text => rfl
  | place => cases hcount
  | append _ _ ihfirst ihback =>
      rw [ihfirst (Nat.eq_zero_of_add_eq_zero_right hcount),
        ihback (Nat.eq_zero_of_add_eq_zero_left hcount)]

theorem length_add (h : Exchanged x y count first second) :
    first.length + count * y.length = second.length + count * x.length := by
  induction h with
  | same text => simp
  | place => simp [Nat.add_comm]
  | append _ _ ihfirst ihback =>
      simp only [String.length_append, Nat.add_mul]
      omega

/-- With texts of one length exchanged, the places line up. -/
theorem eq_of_length (h : Exchanged x y count first second) (hlength : x.length = y.length)
    (heq : first = second) (hcount : count ≠ 0) : x = y := by
  induction h with
  | same text => exact absurd rfl hcount
  | place => exact heq
  | @append count other first second front back hfirst hback ihfirst ihback =>
      have hsame := hfirst.length_add
      rw [hlength, Nat.add_right_cancel_iff, ← String.length_toList,
        ← String.length_toList] at hsame
      have hlists := congrArg String.toList heq
      rw [String.toList_append, String.toList_append] at hlists
      obtain ⟨hfront, htail⟩ := List.append_inj hlists hsame
      rcases Nat.eq_zero_or_pos count with hzero | hpos
      · exact ihback (String.toList_inj.1 htail) (by omega)
      · exact ihfirst (String.toList_inj.1 hfront) (Nat.ne_of_gt hpos)

/-- Exchanging a text for another one shows. -/
theorem ne (h : Exchanged x y count first second) (hne : x ≠ y) (hcount : count ≠ 0) :
    first ≠ second := by
  intro heq
  have hlength := h.length_add
  rw [heq, Nat.add_left_cancel_iff] at hlength
  exact hne (h.eq_of_length (Nat.eq_of_mul_eq_mul_left (Nat.pos_of_ne_zero hcount) hlength).symm
    heq hcount)

end Exchanged

end Exchange

section Occurrences

/-- How often the name of the package at `path` stands in the text of something that mentions
these paths: the local package is named nowhere. -/
def occurrences (localPackage path : String) (paths : List String) : Nat :=
  (paths.filter (· ≠ localPackage)).count path

variable {localPackage path : String}

theorem occurrences_append (front back : List String) :
    occurrences localPackage path (front ++ back) =
      occurrences localPackage path front + occurrences localPackage path back := by
  simp [occurrences]

theorem occurrences_ne_zero_iff {paths : List String} :
    occurrences localPackage path paths ≠ 0 ↔ path ∈ paths ∧ path ≠ localPackage := by
  simp [occurrences, List.count_eq_zero]

end Occurrences

section Texts

variable {first second : Qualifiers} {localPackage path : String}

/-- Two ways of naming packages agree on the paths, the local one and `path` apart. -/
def AgreeBut (first second : Qualifiers) (localPackage path : String) (paths : List String) :
    Prop :=
  ∀ other ∈ paths, other ≠ localPackage → other ≠ path →
    first.effective other = second.effective other

/-- A text that names each of the paths once: if the two ways of naming packages agree on them but
for `path`, the texts are the same but for the places of its name. -/
def NamesOnce (first second : Qualifiers) (localPackage path : String) (paths : List String)
    (text : Qualifiers → String) : Prop :=
  AgreeBut first second localPackage path paths →
    Exchanged (first.effective path) (second.effective path)
      (occurrences localPackage path paths) (text first) (text second)

namespace NamesOnce

variable {paths others : List String} {text more : Qualifiers → String}

theorem behind (h : NamesOnce first second localPackage path paths text) (front : String) :
    NamesOnce first second localPackage path paths fun qualifiers => front ++ text qualifiers :=
  fun hagree => (h hagree).behind front

theorem before (h : NamesOnce first second localPackage path paths text) (back : String) :
    NamesOnce first second localPackage path paths fun qualifiers => text qualifiers ++ back :=
  fun hagree => (h hagree).before back

theorem append (h : NamesOnce first second localPackage path paths text)
    (hmore : NamesOnce first second localPackage path others more) :
    NamesOnce first second localPackage path (paths ++ others)
      fun qualifiers => text qualifiers ++ more qualifiers := by
  intro hagree
  rw [occurrences_append]
  exact (h fun other hother => hagree other (List.mem_append_left _ hother)).append
    (hmore fun other hother => hagree other (List.mem_append_right _ hother))

theorem perm (h : NamesOnce first second localPackage path paths text)
    (hperm : paths.Perm others) : NamesOnce first second localPackage path others text := by
  intro hagree
  have hcount : occurrences localPackage path paths = occurrences localPackage path others :=
    (hperm.filter _).count_eq path
  rw [← hcount]
  exact h fun other hother => hagree other (hperm.mem_iff.1 hother)

theorem separated {α : Type} {members : List α} {paths : α → List String}
    {text : Qualifiers → α → String}
    (h : ∀ member ∈ members, NamesOnce first second localPackage path (paths member)
      fun qualifiers => text qualifiers member) (separator : String) :
    NamesOnce first second localPackage path (members.flatMap paths) fun qualifiers =>
      InterfaceProbe.separated separator (members.map (text qualifiers)) := by
  induction members with
  | nil => exact fun _ => .same ""
  | cons member rest ih =>
      obtain ⟨hmember, hrest⟩ := List.forall_mem_cons.1 h
      cases rest with
      | nil => simpa [InterfaceProbe.separated] using hmember
      | cons next rest => exact (hmember.before separator).append (ih hrest)

theorem literal {α : Type} {members : List α} {paths : α → List String}
    {text : Qualifiers → α → String}
    (h : ∀ member ∈ members, NamesOnce first second localPackage path (paths member)
      fun qualifiers => text qualifiers member) (keyword : String) :
    NamesOnce first second localPackage path (members.flatMap paths) fun qualifiers =>
      spelledLiteral keyword (members.map (text qualifiers)) := by
  cases members with
  | nil => exact fun _ => .same _
  | cons member rest => exact ((separated h "; ").behind (keyword ++ "\x7b ")).before " \x7d"

end NamesOnce

theorem namesOnce_spelledName (package : Option String) (name : String) :
    NamesOnce first second localPackage path package.toList
      fun qualifiers => spelledName qualifiers localPackage package name := by
  intro hagree
  cases package with
  | none => exact .same name
  | some other =>
      by_cases hlocal : other = localPackage
      · simpa [spelledName, hlocal, occurrences] using Exchanged.same name
      · by_cases hpath : other = path
        · subst hpath
          simpa [spelledName, hlocal, occurrences] using
            (Exchanged.place.before ".").before name
        · have hsame := hagree other (by simp) hlocal hpath
          simpa [spelledName, hlocal, occurrences, hpath, hsame] using Exchanged.same _

theorem namesOnce_argument {argument : Bool × Parameter}
    (h : NamesOnce first second localPackage path argument.2.type.paths
      fun qualifiers => argument.2.type.spelling qualifiers localPackage) :
    NamesOnce first second localPackage path argument.2.type.paths
      fun qualifiers => spelledArgument qualifiers localPackage argument := by
  obtain ⟨marked, name, type⟩ := argument
  by_cases hname : name = "" <;> cases marked <;>
    simp only [spelledArgument, spelledVariadic, spelledParameter, hname, String.isEmpty_iff,
      if_true, if_false, Bool.false_eq_true]
  · exact h
  · exact h.behind "..."
  · exact h.behind (name ++ " ")
  · exact (h.behind "...").behind (name ++ " ")

theorem namesOnce_arguments {params : List Parameter} {variadic : Option Parameter}
    (hparams : ∀ p ∈ params, NamesOnce first second localPackage path p.type.paths
      fun qualifiers => p.type.spelling qualifiers localPackage)
    (hvariadic : ∀ p ∈ variadic, NamesOnce first second localPackage path p.type.paths
      fun qualifiers => p.type.spelling qualifiers localPackage) :
    NamesOnce first second localPackage path (parameterPaths params ++ optionPaths variadic)
      fun qualifiers => separated ", "
        ((arguments params variadic).map (spelledArgument qualifiers localPackage)) := by
  have hmembers := forall_mem_arguments.2 ⟨hparams, hvariadic⟩
  have h := NamesOnce.separated (fun member hmember => namesOnce_argument (hmembers member hmember))
    ", "
  simpa [arguments, List.flatMap_append, List.flatMap_map] using h

theorem namesOnce_results {results : List Parameter}
    (h : ∀ p ∈ results, NamesOnce first second localPackage path p.type.paths
      fun qualifiers => p.type.spelling qualifiers localPackage) :
    NamesOnce first second localPackage path (parameterPaths results)
      fun qualifiers => spelledResults (spelledParameters qualifiers localPackage results) := by
  rcases spelledResults_cases results with rfl | ⟨type, rfl⟩ | hlisted
  · exact fun _ => .same ""
  · have htype := (List.forall_mem_singleton.1 h).behind " "
    simpa [spelledResults] using htype
  · have hnone : ∀ p ∈ (none : Option Parameter), NamesOnce first second localPackage path
        p.type.paths fun qualifiers => p.type.spelling qualifiers localPackage := by simp
    have hlist := ((namesOnce_arguments h hnone).behind " (").before ")"
    rw [optionPaths, List.append_nil] at hlist
    simpa only [hlisted] using hlist

theorem namesOnce_signature {params results : List Parameter} {variadic : Option Parameter}
    (hparams : ∀ p ∈ params, NamesOnce first second localPackage path p.type.paths
      fun qualifiers => p.type.spelling qualifiers localPackage)
    (hresults : ∀ p ∈ results, NamesOnce first second localPackage path p.type.paths
      fun qualifiers => p.type.spelling qualifiers localPackage)
    (hvariadic : ∀ p ∈ variadic, NamesOnce first second localPackage path p.type.paths
      fun qualifiers => p.type.spelling qualifiers localPackage) :
    NamesOnce first second localPackage path
      (parameterPaths params ++ parameterPaths results ++ optionPaths variadic)
      fun qualifiers => spelledSignature (spelledParameters qualifiers localPackage params)
        (spelledParameters qualifiers localPackage results)
        (spelledOption qualifiers localPackage variadic) := by
  simp only [spelledSignature_eq]
  refine ((((namesOnce_arguments hparams hvariadic).behind "(").before ")").append
    (namesOnce_results hresults)).perm ?_
  rw [List.append_assoc, List.append_assoc]
  exact List.perm_append_comm.append_left _

theorem Method.namesOnce_of_declared {m : Method}
    (h : ∀ p ∈ m.declared, NamesOnce first second localPackage path p.type.paths
      fun qualifiers => p.type.spelling qualifiers localPackage) :
    NamesOnce first second localPackage path m.paths
      fun qualifiers => m.signature qualifiers localPackage := by
  obtain ⟨hparams, hresults, hvariadic⟩ := forall_mem_declared.1 h
  have hsignature := namesOnce_signature hparams hresults hvariadic
  simp only [parameterPaths_eq_flatMap, optionPaths_eq_flatMap, ← List.flatMap_append]
    at hsignature
  exact hsignature

/-- The spelling of a type names every path that the type mentions, as often as it does. -/
theorem GoType.namesOnce (type : GoType) :
    NamesOnce first second localPackage path type.paths
      fun qualifiers => type.spelling qualifiers localPackage := by
  induction type using GoType.induct with
  | named package name => exact namesOnce_spelledName package name
  | pointer elem ih => exact ih.behind "*"
  | array len elem ih =>
      cases len with
      | none => exact ih.behind "[]"
      | some len => exact ih.behind ("[" ++ Decimal.signedNumeral len.toInt ++ "]")
  | map key value ihkey ihvalue => exact ((ihkey.behind "map[").before "]").append ihvalue
  | chan dir elem ih =>
      cases dir with
      | both => exact ih.behind "chan "
      | recv => exact ih.behind "<-chan "
      | send => exact ih.behind "chan<- "
  | func params results variadic ihparams ihresults ihvariadic =>
      exact (namesOnce_signature ihparams ihresults ihvariadic).behind "func"
  | struct fields ih =>
      simp only [spelling, paths, fieldPaths_eq_flatMap, spelledFields_eq_map]
      exact .literal (fun f hf => (ih f hf).behind (f.name ++ " ")) "struct"
  | interface methods ih =>
      simp only [spelling, paths, methodPaths_eq_flatMap, spelledMethods_eq_map]
      exact .literal (fun m hm => (Method.namesOnce_of_declared (ih m hm)).behind m.name)
        "interface"
  | predeclared name => exact fun _ => .same name

/-- So does the signature of a method. -/
theorem Method.namesOnce (m : Method) :
    NamesOnce first second localPackage path m.paths
      fun qualifiers => m.signature qualifiers localPackage :=
  namesOnce_of_declared fun p _ => p.type.namesOnce

end Texts

section Imports

theorem mem_insertIncreasing {text other : String} {texts : List String} :
    other ∈ insertIncreasing text texts ↔ other = text ∨ other ∈ texts := by
  induction texts with
  | nil => simp [insertIncreasing]
  | cons head rest ih =>
      simp only [insertIncreasing]
      split
      · exact List.mem_cons
      · split
        · next heq => simp [heq]
        · simp only [List.mem_cons, ih]
          exact or_left_comm

theorem mem_increasing {text : String} {texts : List String} :
    text ∈ increasing texts ↔ text ∈ texts := by
  induction texts with
  | nil => rfl
  | cons head rest ih =>
      rw [increasing, List.foldr_cons, mem_insertIncreasing, List.mem_cons]
      exact or_congr_right ih

theorem Package.mem_imports_iff {p : Package} {path : String} :
    path ∈ p.imports ↔ ∃ i ∈ p.interfaces, ∃ m ∈ i.methods, path ∈ m.paths := by
  simp only [imports, mem_increasing, List.mem_flatMap]

end Imports

/-- The signatures of a package depend on the names of its imports and on nothing else: if two ways
of naming packages agree on the imports other than the local package, they give the same
signatures, and if they differ on exactly one of these, they give another signature somewhere. -/
theorem Package.signatures_determined_by_imports (p : Package) (localPackage : String)
    (first second : Qualifiers) :
    ((∀ path ∈ p.imports, path ≠ localPackage → first.effective path = second.effective path) →
      ∀ i ∈ p.interfaces, ∀ m ∈ i.methods,
        m.signature first localPackage = m.signature second localPackage) ∧
    ((∃! path, (path ∈ p.imports ∧ path ≠ localPackage) ∧
        first.effective path ≠ second.effective path) →
      ∃ i ∈ p.interfaces, ∃ m ∈ i.methods,
        m.signature first localPackage ≠ m.signature second localPackage) := by
  constructor
  · intro hagree i hi m hm
    -- The local package is named nowhere, so it may stand for the path that may differ.
    have hexchanged : Exchanged _ _ (occurrences localPackage localPackage m.paths) _ _ :=
      m.namesOnce fun other hother hlocal _ =>
        hagree other (mem_imports_iff.2 ⟨i, hi, m, hm, hother⟩) hlocal
    exact hexchanged.eq_of_zero (Decidable.byContradiction fun hcount =>
      (occurrences_ne_zero_iff.1 hcount).2 rfl)
  · rintro ⟨path, ⟨⟨himport, hlocal⟩, hdiffer⟩, hunique⟩
    obtain ⟨i, hi, m, hm, hpath⟩ := mem_imports_iff.1 himport
    refine ⟨i, hi, m, hm, (m.namesOnce fun other hother hother' hne => ?_).ne hdiffer ?_⟩
    · exact Decidable.byContradiction fun hcontra => hne (hunique other
        ⟨⟨mem_imports_iff.2 ⟨i, hi, m, hm, hother⟩, hother'⟩, hcontra⟩)
    · exact occurrences_ne_zero_iff.2 ⟨hpath, hlocal⟩

/-- A package whose one method takes a slice of requests and a reader. -/
def requestSample : Package :=
  ⟨"p", [⟨"I", [⟨"M", [⟨"", .slice (.pointer (.named (some "net/http") "Request"))⟩,
    ⟨"r", .named (some "io") "Reader"⟩], [], none⟩]⟩]⟩

theorem signatures_determined_for_sample :
    (∃! path, (path ∈ requestSample.imports ∧ path ≠ "io") ∧
      Qualifiers.none.effective path ≠
        (Qualifiers.ofList [("net/http", "web"), ("io", "stream")]).effective path) ∧
    ∃ i ∈ requestSample.interfaces, ∃ m ∈ i.methods,
      m.signature Qualifiers.none "io" ≠
        m.signature (Qualifiers.ofList [("net/http", "web"), ("io", "stream")]) "io" := by
  have hunique : ∃! path, (path ∈ requestSample.imports ∧ path ≠ "io") ∧
      Qualifiers.none.effective path ≠
        (Qualifiers.ofList [("net/http", "web"), ("io", "stream")]).effective path := by
    have himports : requestSample.imports = ["io", "net/http"] := by decide
    refine ⟨"net/http", by rw [himports]; decide, ?_⟩
    rintro path ⟨⟨hpath, hlocal⟩, -⟩
    rw [himports] at hpath
    simpa [hlocal] using hpath
  exact ⟨hunique, (requestSample.signatures_determined_by_imports "io" _ _).2 hunique⟩

end InterfaceProbe
