/-
# The imports of a package

The imports of a package are the paths of the named types that stand anywhere in
its signatures, each once, in the order of their UTF-8 bytes.  A sorted list is
determined by its members, so nothing that leaves these alone changes the imports:
neither the order of interfaces, methods, fields and parameters nor how often one
of them stands there, at any depth.
-/

import InterfaceProbe.Proofs.Json.Compact
import InterfaceProbe.Proofs.Model.ImportDependence
import Mathlib.Data.List.Sort
import Mathlib.Data.String.Basic

namespace InterfaceProbe

section Membership

variable {path : String}

theorem Method.mem_paths_iff {m : Method} :
    path ∈ m.paths ↔ ∃ p ∈ m.declared, path ∈ p.type.paths := List.mem_flatMap

/-- The paths of a type are those of the named types in it. -/
theorem GoType.mem_paths_iff {type : GoType} :
    path ∈ type.paths ↔ ∃ name, Contains (.named (some path) name) type := by
  constructor
  · intro h
    induction type using GoType.induct with
    | named package name =>
        rw [paths, Option.mem_toList] at h
        obtain rfl := h
        exact ⟨name, .whole⟩
    | pointer elem ih => exact (ih h).imp fun _ => .pointer
    | array len elem ih => exact (ih h).imp fun _ => .array
    | map key value ihkey ihvalue =>
        rcases List.mem_append.1 h with h | h
        · exact (ihkey h).imp fun _ => .key
        · exact (ihvalue h).imp fun _ => .value
    | chan dir elem ih => exact (ih h).imp fun _ => .chan
    | func params results variadic ihparams ihresults ihvariadic =>
        simp only [paths, parameterPaths_eq_flatMap, optionPaths_eq_flatMap, List.mem_append,
          List.mem_flatMap, Option.mem_toList] at h
        rcases h with (⟨p, hp, h⟩ | ⟨p, hp, h⟩) | ⟨p, hp, h⟩
        · exact (ihparams p hp h).imp fun _ => .param hp
        · exact (ihresults p hp h).imp fun _ => .result hp
        · exact (ihvariadic p hp h).imp fun _ => .variadic hp
    | struct fields ih =>
        simp only [paths, fieldPaths_eq_flatMap, List.mem_flatMap] at h
        obtain ⟨f, hf, h⟩ := h
        exact (ih f hf h).imp fun _ => .field hf
    | interface methods ih =>
        simp only [paths, methodPaths_eq_flatMap, List.mem_flatMap, Method.mem_paths_iff] at h
        obtain ⟨m, hm, p, hp, h⟩ := h
        exact (ih m hm p hp h).imp fun _ => .method hm hp
    | predeclared name => cases h
  · rintro ⟨name, h⟩
    induction h with
    | whole => exact List.mem_singleton.2 rfl
    | pointer _ ih => exact ih
    | array _ ih => exact ih
    | key _ ih => exact List.mem_append_left _ ih
    | value _ ih => exact List.mem_append_right _ ih
    | chan _ ih => exact ih
    | param hp _ ih =>
        simp only [paths, parameterPaths_eq_flatMap, List.mem_append, List.mem_flatMap]
        exact Or.inl (Or.inl ⟨_, hp, ih⟩)
    | result hp _ ih =>
        simp only [paths, parameterPaths_eq_flatMap, List.mem_append, List.mem_flatMap]
        exact Or.inl (Or.inr ⟨_, hp, ih⟩)
    | variadic hp _ ih =>
        simp only [paths, optionPaths_eq_flatMap, List.mem_append, List.mem_flatMap,
          Option.mem_toList]
        exact Or.inr ⟨_, hp, ih⟩
    | field hf _ ih =>
        simp only [paths, fieldPaths_eq_flatMap, List.mem_flatMap]
        exact ⟨_, hf, ih⟩
    | method hm hp _ ih =>
        simp only [paths, methodPaths_eq_flatMap, List.mem_flatMap, Method.mem_paths_iff]
        exact ⟨_, hm, _, hp, ih⟩

end Membership

section ByteOrder

theorem toNat_val_lt (c : Char) : c.val.toNat < 1114112 := by
  rcases c.valid with h | ⟨-, h⟩
  · exact Nat.lt_trans h (by decide)
  · exact h

/-- The encodings of two characters differ in their order and before either ends. -/
theorem utf8EncodeChar_append_lt {first second : Char} (h : first < second) (back rest : Bytes) :
    String.utf8EncodeChar first ++ back < String.utf8EncodeChar second ++ rest := by
  have hlt : first.val.toNat < second.val.toNat := h
  have hmax := toNat_val_lt second
  have htwo : ∀ n, n / 4096 = n / 64 / 64 := by omega
  have hthree : ∀ n, n / 262144 = n / 64 / 64 / 64 := by omega
  simp only [String.utf8EncodeChar, htwo, hthree]
  -- One case for each pair of lengths; the leading byte tells the lengths apart.
  split_ifs <;> simp (disch := omega) only [List.cons_append, List.nil_append,
    List.cons_lt_cons_iff, UInt8.lt_iff_toNat_lt, ← UInt8.toNat_inj, UInt8.toNat_ofNat',
    Nat.mod_eq_of_lt (b := 2 ^ 8)] <;> omega

theorem append_lt_append_left {first second : Bytes} (front : Bytes) (h : first < second) :
    front ++ first < front ++ second := by
  induction front with
  | nil => exact h
  | cons byte front ih => exact List.cons_lt_cons_iff.2 (Or.inr ⟨rfl, ih⟩)

/-- The order of texts is that of their bytes. -/
theorem utf8_lt_utf8 {first second : String} (h : first < second) : utf8 first < utf8 second := by
  rw [String.lt_iff_toList_lt] at h
  rw [utf8_eq_flatMap, utf8_eq_flatMap]
  generalize first.toList = chars at h ⊢
  generalize second.toList = others at h ⊢
  induction chars generalizing others with
  | nil =>
      cases others with
      | nil => exact absurd h (lt_irrefl _)
      | cons other others =>
          obtain ⟨byte, bytes, heq⟩ : ∃ byte bytes, String.utf8EncodeChar other = byte :: bytes :=
            List.exists_cons_of_ne_nil (List.ne_nil_of_length_pos (by
              rw [String.length_utf8EncodeChar]; exact Char.utf8Size_pos other))
          rw [List.flatMap_cons, heq]
          exact List.nil_lt_cons _ _
  | cons char chars ih =>
      cases others with
      | nil => cases h
      | cons other others =>
          rw [List.flatMap_cons, List.flatMap_cons]
          rcases List.cons_lt_cons_iff.1 h with hchar | ⟨rfl, hchars⟩
          · exact utf8EncodeChar_append_lt hchar _ _
          · exact append_lt_append_left _ (ih others hchars)

theorem pairwise_insertIncreasing {text : String} {texts : List String}
    (h : texts.Pairwise (· < ·)) : (insertIncreasing text texts).Pairwise (· < ·) := by
  induction texts with
  | nil => exact List.pairwise_singleton _ _
  | cons head rest ih =>
      obtain ⟨hhead, hrest⟩ := List.pairwise_cons.1 h
      simp only [insertIncreasing]
      split
      · next hlt =>
          refine List.pairwise_cons.2 ⟨List.forall_mem_cons.2 ⟨hlt, ?_⟩, h⟩
          exact fun other hother => hlt.trans (hhead other hother)
      · next hnot =>
          split
          · exact h
          · next hne =>
              refine List.pairwise_cons.2 ⟨fun other hother => ?_, ih hrest⟩
              rcases mem_insertIncreasing.1 hother with rfl | hother
              · exact lt_of_le_of_ne (not_lt.1 hnot) (Ne.symm hne)
              · exact hhead other hother

theorem pairwise_increasing (texts : List String) : (increasing texts).Pairwise (· < ·) := by
  induction texts with
  | nil => exact List.Pairwise.nil
  | cons text texts ih => exact pairwise_insertIncreasing ih

theorem Package.pairwise_imports (p : Package) : p.imports.Pairwise (· < ·) :=
  pairwise_increasing _

end ByteOrder

section Rearrangements

/-- Two lists in which each member has a partner in the other one, whatever the order of the two
and however often a member stands in either. -/
def Matched {α : Type} (same : α → α → Prop) (first second : List α) : Prop :=
  (∀ x ∈ first, ∃ y ∈ second, same x y) ∧ ∀ y ∈ second, ∃ x ∈ first, same x y

/-- Two parameters with one name and types that are the same as far as `same` says. -/
def Parameter.Alike (same : GoType → GoType → Prop) (first second : Parameter) : Prop :=
  first.name = second.name ∧ same first.type second.type

/-- Two fields with one name and types that are the same as far as `same` says. -/
def Field.Alike (same : GoType → GoType → Prop) (first second : Field) : Prop :=
  first.name = second.name ∧ same first.type second.type

/-- Two methods with one name that declare the same parameters, results and variadic one, in any
order and any number. -/
def Method.Alike (same : GoType → GoType → Prop) (first second : Method) : Prop :=
  first.name = second.name ∧ Matched (Parameter.Alike same) first.params second.params ∧
    Matched (Parameter.Alike same) first.results second.results ∧
    Matched (Parameter.Alike same) first.variadic.toList second.variadic.toList

/-- Two types that are equal, or of one constructor and the same right below it, in any order and
any number where a list stands. -/
inductive GoType.Alike (same : GoType → GoType → Prop) : GoType → GoType → Prop
  | refl (type : GoType) : Alike same type type
  | pointer {elem other : GoType} : same elem other → Alike same (.pointer elem) (.pointer other)
  | array {len : Option Int64} {elem other : GoType} :
      same elem other → Alike same (.array len elem) (.array len other)
  | map {key value otherKey other : GoType} : same key otherKey → same value other →
      Alike same (.map key value) (.map otherKey other)
  | chan {dir : ChanDir} {elem other : GoType} :
      same elem other → Alike same (.chan dir elem) (.chan dir other)
  | func {params results otherParams otherResults : List Parameter}
      {variadic other : Option Parameter} : Matched (Parameter.Alike same) params otherParams →
      Matched (Parameter.Alike same) results otherResults →
      Matched (Parameter.Alike same) variadic.toList other.toList →
      Alike same (.func params results variadic) (.func otherParams otherResults other)
  | struct {fields others : List Field} :
      Matched (Field.Alike same) fields others → Alike same (.struct fields) (.struct others)
  | interface {methods others : List Method} : Matched (Method.Alike same) methods others →
      Alike same (.interface methods) (.interface others)

/-- Types that come from each other by reordering and repeating parameters, results, fields and
methods down to some depth. -/
def GoType.Rearranged : Nat → GoType → GoType → Prop
  | 0 => Eq
  | levels + 1 => Alike (Rearranged levels)

/-- Packages that come from each other by reordering and repeating interfaces and methods and,
down to some depth of the types, everything that stands in a list there. -/
def Package.Rearranged (levels : Nat) (first second : Package) : Prop :=
  Matched (fun i j => i.name = j.name ∧
    Matched (Method.Alike (GoType.Rearranged levels)) i.methods j.methods)
    first.interfaces second.interfaces

variable {path : String}

/-- Lists with the same members match. -/
theorem Matched.of_mem_iff {α : Type} {same : α → α → Prop} {first second : List α}
    (hrefl : ∀ x, same x x) (h : ∀ x, x ∈ first ↔ x ∈ second) : Matched same first second :=
  ⟨fun x hx => ⟨x, (h x).1 hx, hrefl x⟩, fun x hx => ⟨x, (h x).2 hx, hrefl x⟩⟩

theorem Matched.nil {α : Type} {same : α → α → Prop} : Matched same [] [] :=
  ⟨List.forall_mem_nil _, List.forall_mem_nil _⟩

theorem Matched.single {α : Type} {same : α → α → Prop} {x y : α} (h : same x y) :
    Matched same [x] [y] :=
  ⟨List.forall_mem_singleton.2 ⟨y, List.mem_singleton_self y, h⟩,
    List.forall_mem_singleton.2 ⟨x, List.mem_singleton_self x, h⟩⟩

theorem Matched.mem_flatMap_iff {α : Type} {same : α → α → Prop} {first second : List α}
    {paths : α → List String} (h : Matched same first second)
    (hsame : ∀ x y, same x y → (path ∈ paths x ↔ path ∈ paths y)) :
    path ∈ first.flatMap paths ↔ path ∈ second.flatMap paths := by
  rcases h with ⟨hthere, hback⟩
  rw [List.mem_flatMap, List.mem_flatMap]
  constructor
  · rintro ⟨x, hx, hpath⟩
    obtain ⟨y, hy, hxy⟩ := hthere x hx
    exact ⟨y, hy, (hsame x y hxy).1 hpath⟩
  · rintro ⟨y, hy, hpath⟩
    obtain ⟨x, hx, hxy⟩ := hback y hy
    exact ⟨x, hx, (hsame x y hxy).2 hpath⟩

variable {same : GoType → GoType → Prop}

theorem Method.Alike.mem_paths_iff {first second : Method} (h : Alike same first second)
    (hsame : ∀ x y, same x y → (path ∈ x.paths ↔ path ∈ y.paths)) :
    path ∈ first.paths ↔ path ∈ second.paths := by
  rcases h with ⟨-, hparams, hresults, hvariadic⟩
  have htypes : ∀ x y : Parameter, Parameter.Alike same x y →
      (path ∈ x.type.paths ↔ path ∈ y.type.paths) := fun x y hxy => hsame _ _ hxy.2
  simp only [Method.paths, Method.declared, List.flatMap_append, List.mem_append,
    hparams.mem_flatMap_iff htypes, hresults.mem_flatMap_iff htypes,
    hvariadic.mem_flatMap_iff htypes]

/-- One level: if the types right below mention a path together, so do the types. -/
theorem GoType.Alike.mem_paths_iff {first second : GoType} (h : Alike same first second)
    (hsame : ∀ x y, same x y → (path ∈ x.paths ↔ path ∈ y.paths)) :
    path ∈ first.paths ↔ path ∈ second.paths := by
  have htypes : ∀ x y : Parameter, Parameter.Alike same x y →
      (path ∈ x.type.paths ↔ path ∈ y.type.paths) := fun x y hxy => hsame _ _ hxy.2
  cases h with
  | refl => exact Iff.rfl
  | pointer helem => simpa only [paths] using hsame _ _ helem
  | array helem => simpa only [paths] using hsame _ _ helem
  | map hkey hvalue =>
      simp only [paths, List.mem_append, hsame _ _ hkey, hsame _ _ hvalue]
  | chan helem => simpa only [paths] using hsame _ _ helem
  | func hparams hresults hvariadic =>
      simp only [paths, parameterPaths_eq_flatMap, optionPaths_eq_flatMap, List.mem_append,
        hparams.mem_flatMap_iff htypes, hresults.mem_flatMap_iff htypes,
        hvariadic.mem_flatMap_iff htypes]
  | struct hfields =>
      simp only [paths, fieldPaths_eq_flatMap]
      exact hfields.mem_flatMap_iff fun x y hxy => hsame _ _ hxy.2
  | interface hmethods =>
      simp only [paths, methodPaths_eq_flatMap]
      exact hmethods.mem_flatMap_iff fun x y hxy => hxy.mem_paths_iff hsame

theorem GoType.Rearranged.mem_paths_iff {levels : Nat} {first second : GoType}
    (h : Rearranged levels first second) : path ∈ first.paths ↔ path ∈ second.paths := by
  induction levels generalizing first second with
  | zero => rw [show first = second from h]
  | succ levels ih => exact GoType.Alike.mem_paths_iff h fun _ _ => ih

theorem Package.Rearranged.mem_imports_iff {levels : Nat} {first second : Package}
    (h : Rearranged levels first second) : path ∈ first.imports ↔ path ∈ second.imports := by
  simp only [imports, mem_increasing]
  exact h.mem_flatMap_iff fun i j hij => hij.2.mem_flatMap_iff fun m n hmn =>
    hmn.mem_paths_iff fun _ _ => GoType.Rearranged.mem_paths_iff

end Rearrangements

/-- The imports of a package are the paths of the named types that stand in the signature of one
of its methods, at any depth.  They stand there once each, in the order of their bytes, so that a
package that comes by reordering or repeating interfaces, methods, fields or parameters has the
same imports. -/
theorem Package.imports_are_contained_paths (p : Package) :
    (∀ path, path ∈ p.imports ↔ ∃ i ∈ p.interfaces, ∃ m ∈ i.methods, ∃ q ∈ m.declared,
      ∃ name, GoType.Contains (.named (some path) name) q.type) ∧
    p.imports.Pairwise (fun first second => utf8 first < utf8 second) ∧
    ∀ levels other, Rearranged levels p other → p.imports = other.imports := by
  refine ⟨fun path => ?_, p.pairwise_imports.imp utf8_lt_utf8, fun levels other h => ?_⟩
  · simp only [mem_imports_iff, Method.mem_paths_iff, GoType.mem_paths_iff]
  · exact p.pairwise_imports.eq_of_mem_iff other.pairwise_imports fun _ => h.mem_imports_iff

/-- A package whose one method takes a function of the given parameters. -/
def callbackSample (params : List Parameter) : Package :=
  ⟨"p", [⟨"I", [⟨"M", [⟨"", .func params [] none⟩], [], none⟩]⟩]⟩

theorem imports_of_rearranged_callback :
    let reader : Parameter := ⟨"r", .named (some "io") "Reader"⟩
    let request : Parameter := ⟨"", .pointer (.named (some "net/http") "Request")⟩
    Package.Rearranged 1 (callbackSample [reader, request])
      (callbackSample [request, reader, request]) ∧
    (callbackSample [reader, request]).imports =
      (callbackSample [request, reader, request]).imports := by
  intro reader request
  have hparams : Matched (Parameter.Alike Eq) [reader, request] [request, reader, request] :=
    .of_mem_iff (fun _ => ⟨rfl, rfl⟩) (by simp [or_comm])
  have hfunc : GoType.Rearranged 1 (.func [reader, request] [] none)
      (.func [request, reader, request] [] none) := .func hparams .nil .nil
  have h : Package.Rearranged 1 (callbackSample [reader, request])
      (callbackSample [request, reader, request]) :=
    .single ⟨rfl, .single ⟨rfl, .single ⟨rfl, hfunc⟩, .nil, .nil⟩⟩
  exact ⟨h, (callbackSample [reader, request]).imports_are_contained_paths.2.2 1 _ h⟩

end InterfaceProbe
