/-
# What the slots of a record are written as

The wire form of a record, slot by slot.  A draft from which a record is built
determines the entries of its wire form: the kind of a variant first, then an
entry for each slot whose value is present, whether the slot was filled or has
its default.  A draft from which no record is built lacks a required slot, and
that is the fault.

The lemmas go through the records one by one, so that nothing else has to.
-/

import InterfaceProbe.Proofs.Wire.CompactForm

namespace InterfaceProbe

section Entries

/-- The entry of a key with a value; null is left out. -/
def writtenEntry (key : String) : Json → List (String × Json)
  | .null => []
  | tree => [(key, tree)]

theorem wireForm_ne_null {target : Target} (htarget : target.Present) (value : target.Value) :
    wireForm target value ≠ .null := by
  rcases wireForm_cases htarget value with ⟨text, heq⟩ | ⟨n, heq⟩ | ⟨_, _, -, -, heq⟩ |
    ⟨_, _, _, -, -, -, heq⟩ <;> simp [heq]

theorem writtenEntry_of_ne_null {tree : Json} (h : tree ≠ .null) (key : String) :
    writtenEntry key tree = [(key, tree)] := by
  cases tree with
  | null => exact absurd rfl h
  | _ => rfl

theorem writtenEntry_wireForm {target : Target} (htarget : target.Present) (key : String)
    (value : target.Value) :
    writtenEntry key (wireForm target value) = [(key, wireForm target value)] :=
  writtenEntry_of_ne_null (wireForm_ne_null htarget value) key

theorem writtenEntry_optional (target : Target) (htarget : target.Present) (key : String)
    (value : Option target.Value) :
    writtenEntry key (wireForm (.optional target) value) =
      optionalEntry key (value.map (wireForm target)) := by
  cases value with
  | none => rfl
  | some present => exact writtenEntry_wireForm htarget key present

/-- What a slot of a draft is written as, from its value or its default. -/
def Draft.entriesAt (draft : Draft) (slot : Slot) : List (String × Json) :=
  match draft.get slot with
  | .error _ => []
  | .ok value => writtenEntry slot.label (wireForm slot.target value)

theorem Draft.entriesAt_of_get {draft : Draft} {slot : Slot} {value : slot.Value}
    (h : draft.get slot = .ok value) :
    draft.entriesAt slot = writtenEntry slot.label (wireForm slot.target value) := by
  rw [entriesAt, h]

/-- The entry that says the kind of a variant. -/
def Shape.kindEntries : Shape → List (String × Json)
  | .variant kind => [(kindKey, .string kind.name)]
  | _ => []

end Entries

section Building

variable {draft : Draft}

/-- The wire form of a record that is built has what its slots are written as. -/
theorem wireForm_of_build (shape : Shape) {value : shape.target.Value}
    (h : shape.record.build draft = .ok value) :
    wireForm shape.target value =
      .object (shape.kindEntries ++ shape.record.slots.flatMap draft.entriesAt) := by
  have one {α β : Type} {x : Except Fault α} {f : α → β} {b : β}
      (h : (do let a ← x; return f a : Except Fault β) = .ok b) : ∃ a, b = f a ∧ x = .ok a :=
    (build_one_iff fun _ => Iff.rfl).1 h
  have two {α β γ : Type} {x : Except Fault α} {y : Except Fault β} {f : α → β → γ} {c : γ}
      (h : (do let a ← x; let b ← y; return f a b : Except Fault γ) = .ok c) :
      ∃ a b, c = f a b ∧ x = .ok a ∧ y = .ok b :=
    (build_two_iff (fun _ => Iff.rfl) fun _ => Iff.rfl).1 h
  have present {slot : Slot} {found : slot.Value} (hget : draft.get slot = .ok found)
      (hslot : slot.target.Present) :
      draft.entriesAt slot = [(slot.label, wireForm slot.target found)] :=
    (Draft.entriesAt_of_get hget).trans (writtenEntry_wireForm hslot _ _)
  cases shape with
  | package =>
      obtain ⟨name, interfaces, rfl, hname, hinterfaces⟩ := two h
      simp [Shape.record, Record.package, Shape.kindEntries, present hname trivial,
        present hinterfaces trivial, wireForm, Slot.label, Package.toJson]
  | interface =>
      obtain ⟨name, methods, rfl, hname, hmethods⟩ := two h
      simp [Shape.record, Record.interface, Shape.kindEntries, present hname trivial,
        present hmethods trivial, wireForm, Slot.label, Interface.toJson]
  | method =>
      obtain ⟨name, params, results, variadic, rfl, hname, hparams, hresults, hvariadic⟩ :=
        (build_four_iff (fun _ => Iff.rfl) (fun _ => Iff.rfl) (fun _ => Iff.rfl)
          fun _ => Iff.rfl).1 h
      simp [Shape.record, Record.method, Shape.kindEntries, present hname trivial,
        present hparams trivial, present hresults trivial,
        (Draft.entriesAt_of_get hvariadic).trans (writtenEntry_optional .parameter trivial _ _),
        wireForm, Slot.label, Method.toJson, signatureEntries]
  | parameter =>
      obtain ⟨name, type, rfl, hname, htype⟩ := two h
      simp [Shape.record, Record.parameter, Shape.kindEntries, present hname trivial,
        present htype trivial, wireForm, Slot.label, Parameter.toJson, parameterJson]
  | field =>
      obtain ⟨name, type, rfl, hname, htype⟩ := two h
      simp [Shape.record, Record.field, Shape.kindEntries, present hname trivial,
        present htype trivial, wireForm, Slot.label, Field.toJson, parameterJson]
  | variant kind =>
      cases kind with
      | named =>
          obtain ⟨path, name, rfl, hpath, hname⟩ := two h
          simp [Shape.record, Kind.record, Shape.kindEntries, present hname trivial,
            (Draft.entriesAt_of_get hpath).trans (writtenEntry_optional .text trivial _ _),
            wireForm, Slot.label, GoType.toJson, typeJson]
      | pointer =>
          obtain ⟨elem, rfl, helem⟩ := one h
          simp [Shape.record, Kind.record, Shape.kindEntries, present helem trivial, wireForm,
            Slot.label, GoType.toJson, typeJson]
      | array =>
          obtain ⟨len, elem, rfl, hlen, helem⟩ := two h
          simp [Shape.record, Kind.record, Shape.kindEntries, present helem trivial,
            (Draft.entriesAt_of_get hlen).trans (writtenEntry_optional .int64 trivial _ _),
            wireForm, Slot.label, GoType.toJson, typeJson]
      | map =>
          obtain ⟨key, value, rfl, hkey, hvalue⟩ := two h
          simp [Shape.record, Kind.record, Shape.kindEntries, present hkey trivial,
            present hvalue trivial, wireForm, Slot.label, GoType.toJson, typeJson]
      | chan =>
          obtain ⟨dir, elem, rfl, hdir, helem⟩ := two h
          simp [Shape.record, Kind.record, Shape.kindEntries, present hdir trivial,
            present helem trivial, wireForm, Slot.label, GoType.toJson, typeJson]
      | func =>
          obtain ⟨params, results, variadic, rfl, hparams, hresults, hvariadic⟩ :=
            (build_three_iff (fun _ => Iff.rfl) (fun _ => Iff.rfl) fun _ => Iff.rfl).1 h
          simp [Shape.record, Kind.record, Shape.kindEntries, present hparams trivial,
            present hresults trivial,
            (Draft.entriesAt_of_get hvariadic).trans (writtenEntry_optional .parameter trivial _ _),
            wireForm, Slot.label, GoType.toJson, typeJson, signatureEntries]
      | struct =>
          obtain ⟨fields, rfl, hfields⟩ := one h
          simp [Shape.record, Kind.record, Shape.kindEntries, present hfields trivial, wireForm,
            Slot.label, GoType.toJson, typeJson]
      | interface =>
          obtain ⟨methods, rfl, hmethods⟩ := one h
          simp [Shape.record, Kind.record, Shape.kindEntries, present hmethods trivial, wireForm,
            Slot.label, GoType.toJson, typeJson]
      | predeclared =>
          obtain ⟨name, rfl, hname⟩ := one h
          simp [Shape.record, Kind.record, Shape.kindEntries, present hname trivial, wireForm,
            Slot.label, GoType.toJson, typeJson]

theorem bind_eq_error_iff {α β : Type} {x : Except Fault α} {f : α → Except Fault β}
    {fault : Fault} :
    x >>= f = .error fault ↔ x = .error fault ∨ ∃ a, x = .ok a ∧ f a = .error fault := by
  cases x <;> simp [bind, Except.bind]

theorem map_eq_error_iff {α β : Type} {x : Except Fault α} {f : α → β} {fault : Fault} :
    f <$> x = .error fault ↔ x = .error fault := by
  cases x <;> simp [Functor.map, Except.map]

/-- A record that is not built lacks one of its slots. -/
theorem exists_get_of_build_eq_error (shape : Shape) {fault : Fault}
    (h : shape.record.build draft = .error fault) :
    ∃ slot ∈ shape.record.slots, draft.get slot = .error fault := by
  cases shape with
  | variant kind =>
      cases kind <;>
        simp [Shape.record, Kind.record, bind_eq_error_iff, map_eq_error_iff] at h ⊢ <;> tauto
  | _ =>
      simp [Shape.record, Record.package, Record.interface, Record.method, Record.parameter,
        Record.field, bind_eq_error_iff, map_eq_error_iff] at h ⊢
      tauto

end Building

section Trees

/-- A wire form means what it was written for. -/
theorem meaning_wireForm {target : Target} (htarget : target.Present) (value : target.Value) :
    (wireForm target value).meaning target value := by
  obtain ⟨tree, htree, -, hmeaning⟩ : TreeText _ _ target value :=
    readsAs_of_spells (spells_compact true _ htarget value (Nat.le_refl _))
  rwa [ValueText.unique (valueText_compact _ htarget value) htree]

theorem reading_wireForm {target : Target} (htarget : target.Present) (value : target.Value) :
    (wireForm target value).reading target = .ok value :=
  Json.reading_eq_ok_iff.2 (meaning_wireForm htarget value)

end Trees

end InterfaceProbe
