/-
# Reports with one entry changed

A report is written with every key that has a value.  When one entry is taken
out of one of its objects, however deep that is, the report is rejected for the
missing key or describes the package with the default in that place; when one
entry is put in a second time, the report is rejected for the repeated key.
-/

import InterfaceProbe.Proofs.Wire.Places

namespace InterfaceProbe

/-- The report of a tree: an empty line, the sentinel line and the tree on one line. -/
def reportOf (tree : Json) : Bytes := utf8 ("\n" ++ sentinel ++ "\n" ++ tree.compact ++ "\n")

/-- The keys that objects for a target have to have.  Every name is required except that of a
parameter. -/
def IsRequired (target : Target) (key : String) : Prop :=
  key ∈ ["kind", "type", "elem", "key", "value"] ∨ key = "name" ∧ target ≠ .parameter

instance (target : Target) (key : String) : Decidable (IsRequired target key) :=
  inferInstanceAs (Decidable (_ ∨ _))

/-- What the wire form has for a key that takes its default: an empty name, both directions, an
empty list, or nothing for what may be absent. -/
def defaultEntries : String → List (String × Json)
  | "name" => [("name", .string "")]
  | "dir" => [("dir", .string "both")]
  | "package" | "len" | "variadic" => []
  | key => [(key, .array [])]

section Objects

variable {target : Target} {value : target.Value} {before after : List (String × Json)}
  {key : String} {tree : Json}

/-- The key of an entry is that of a slot, or it is the kind of a type. -/
theorem entry_cases (htarget : target.Present)
    (hentries : wireForm target value = .object (before ++ (key, tree) :: after)) :
    (target = .type ∧ key = kindKey) ∨
      ∃ (shape : Shape) (slot : Slot), shape.target = target ∧
        shape.HasKind (before ++ (key, tree) :: after) ∧ slot ∈ shape.record.slots ∧
        slot.label = key := by
  rcases wireForm_cases htarget value with ⟨text, heq⟩ | ⟨n, heq⟩ |
    ⟨item, values, hitem, rfl, heq⟩ | ⟨shape, entries, record, rfl, hkind, -, heq⟩
  · cases heq.symm.trans hentries
  · cases heq.symm.trans hentries
  · cases heq.symm.trans hentries
  · rw [hentries, Json.object.injEq] at heq
    subst heq
    have hmem : (key, tree) ∈ before ++ (key, tree) :: after := by simp
    have hknown := (keys_sublist_known hentries hkind).subset (List.mem_map_of_mem hmem)
    rcases mem_known_iff.1 hknown with hkey | hkey
    · rw [← shape.map_label_slots] at hkey
      obtain ⟨slot, hslot, hlabel⟩ := List.mem_map.1 hkey
      exact .inr ⟨shape, slot, rfl, hkind, hslot, hlabel⟩
    · exact .inl hkey

/-- The required keys are those of the slots without a default. -/
theorem isRequired_iff (shape : Shape) :
    ∀ slot ∈ shape.record.slots, IsRequired shape.target slot.label ↔ slot.default? = none := by
  cases shape with
  | variant kind =>
      cases kind <;> simp [Shape.record, Kind.record, IsRequired, Slot.label, Slot.default?]
  | _ =>
      simp [Shape.record, Record.package, Record.interface, Record.method, Record.parameter,
        Record.field, IsRequired, Slot.label, Slot.default?]

theorem writtenEntry_default {slot : Slot} {default : slot.Value}
    (h : slot.default? = some default) :
    writtenEntry slot.label (wireForm slot.target default) = defaultEntries slot.label := by
  cases slot <;> cases h <;> rfl

/-- Without one entry a record is incomplete, or it has the default there. -/
theorem reading_of_removed (htarget : target.Present)
    (hentries : wireForm target value = .object (before ++ (key, tree) :: after)) :
    (IsRequired target key →
      (Json.object (before ++ after)).reading target = .error (.missingField key)) ∧
    (¬ IsRequired target key → ∃ value',
      (Json.object (before ++ after)).reading target = .ok value' ∧
        wireForm target value' = .object (before ++ (defaultEntries key ++ after))) := by
  rcases entry_cases htarget hentries with
    ⟨rfl, rfl⟩ | ⟨shape, slot, rfl, hkind, hslot, rfl⟩
  · exact ⟨fun _ => reading_of_removed_kind hentries,
      fun h => absurd (.inl (by simp [kindKey])) h⟩
  · rw [isRequired_iff shape slot hslot]
    refine ⟨reading_of_removed_required hentries hkind hslot, fun h => ?_⟩
    obtain ⟨default, hdefault⟩ := Option.ne_none_iff_exists'.1 h
    obtain ⟨value', hreading, hform⟩ :=
      exists_reading_of_removed hentries hkind hslot hdefault
    rw [writtenEntry_default hdefault] at hform
    exact ⟨value', hreading, hform⟩

/-- A record with an entry twice is rejected. -/
theorem reading_of_repeated_entry (htarget : target.Present)
    (hentries : wireForm target value = .object (before ++ (key, tree) :: after))
    {front back : List (String × Json)} (hsplit : front ++ back = before ++ (key, tree) :: after) :
    (Json.object (front ++ (key, tree) :: back)).reading target =
      .error (.duplicateField key) := by
  rcases entry_cases htarget hentries with
    ⟨rfl, rfl⟩ | ⟨shape, slot, rfl, hkind, hslot, rfl⟩
  · exact reading_of_repeated_kind hentries hsplit
  · exact reading_of_repeated hentries hkind hslot hsplit

end Objects

section Reports

variable {package : Package} {frames : List Frame} {entries others : List (String × Json)}

theorem reportOf_toJson (package : Package) : reportOf package.toJson = encode package := rfl

theorem decode_reportOf (tree : Json) :
    decode (reportOf tree) =
      match readPackage (utf8 tree.compact ++ [10]) with
      | .ok package => .ok package
      | .error fault => .error (.fault fault) := by
  have hsplit : reportOf tree = 10 :: (utf8 sentinel ++ [10]) ++ (utf8 tree.compact ++ [10]) := by
    simp only [reportOf, utf8_append, List.append_assoc]
    rfl
  rw [hsplit]
  exact decode_of_sentinelHead sentinelHead_report _

/-- A report with some of the entries of an object, in any order and number, is read as its tree
is. -/
theorem decode_of_fewer (hplace : package.toJson = plug frames (.object entries))
    (hothers : others ⊆ entries) (hdepth : (plug frames (.object others)).depth ≤ 127) :
    decode (reportOf (plug frames (.object others))) =
      match (plug frames (.object others)).reading .package with
      | .ok package => .ok package
      | .error fault => .error (.fault fault) := by
  have hfits : Fits .package package.toJson := fits_wireForm .package trivial package
  rw [hplace] at hfits
  rw [decode_reportOf, readPackage_of_fits (hfits.plug hothers) hdepth]
  rfl

/-- A report without an entry that may be left out describes the package with the default there. -/
theorem exists_decode_of_removed {before after : List (String × Json)} {key : String} {value : Json}
    (hplace : package.toJson = plug frames (.object (before ++ (key, value) :: after)))
    (hkey : ¬ IsRequired (targetAt .package frames) key)
    (hdepth : (plug frames (.object (before ++ after))).depth ≤ 127) :
    ∃ package' : Package,
      decode (reportOf (plug frames (.object (before ++ after)))) = .ok package' ∧
        package'.toJson = plug frames (.object (before ++ (defaultEntries key ++ after))) := by
  obtain ⟨htarget, part, put, hpart, hread, hput⟩ :=
    opens_frames .package trivial hplace
  obtain ⟨value', hvalue, hform⟩ := (reading_of_removed htarget hpart).2 hkey
  refine ⟨put value', ?_, (hput value').trans (by rw [hform])⟩
  rw [decode_of_fewer hplace (by simp) hdepth, hread, hvalue]
  rfl

/-- One entry of one object of a report, taken out or put in twice.  Without a required entry the
report is rejected for the missing key, and without any other it describes the package with the
default in that place and nothing else changed.  With the entry twice, wherever in the object the
copy stands, the report is rejected for the repeated key.  Both faults name the key. -/
theorem decode_of_changed_entry (package : Package) (hdepth : package.toJson.depth ≤ 127)
    (frames : List Frame) (before after : List (String × Json)) (key : String) (value : Json)
    (hplace : package.toJson = plug frames (.object (before ++ (key, value) :: after))) :
    (IsRequired (targetAt .package frames) key →
      decode (reportOf (plug frames (.object (before ++ after)))) =
        .error (.fault (.missingField key))) ∧
    (¬ IsRequired (targetAt .package frames) key → ∃ package' : Package,
      decode (reportOf (plug frames (.object (before ++ after)))) = .ok package' ∧
        package'.toJson = plug frames (.object (before ++ (defaultEntries key ++ after)))) ∧
    (∀ front back, front ++ back = before ++ (key, value) :: after →
      decode (reportOf (plug frames (.object (front ++ (key, value) :: back)))) =
        .error (.fault (.duplicateField key))) ∧
    (DecodeError.fault (.missingField key)).message = "missing field `" ++ key ++ "`" ∧
    (DecodeError.fault (.duplicateField key)).message = "duplicate field `" ++ key ++ "`" := by
  obtain ⟨htarget, part, put, hpart, hread, hput⟩ :=
    opens_frames .package trivial hplace
  have hwithin {others : List (String × Json)}
      (hothers : others ⊆ before ++ (key, value) :: after) :
      (plug frames (.object others)).depth ≤ 127 :=
    Nat.le_trans (depth_plug_le hothers) (hplace ▸ hdepth)
  have hremoved : before ++ after ⊆ before ++ (key, value) :: after := by simp
  refine ⟨fun h => ?_, fun h => exists_decode_of_removed hplace h (hwithin hremoved),
    fun front back hsplit => ?_, rfl, rfl⟩
  · rw [decode_of_fewer hplace hremoved (hwithin hremoved), hread,
      (reading_of_removed htarget hpart).1 h]
    rfl
  · have hmem : (key, value) ∈ front ++ back := by simp [hsplit]
    have hrepeated : front ++ (key, value) :: back ⊆ before ++ (key, value) :: after := by
      rw [← hsplit]
      exact List.append_subset.2 ⟨List.subset_append_left _ _,
        List.cons_subset.2 ⟨hmem, List.subset_append_right _ _⟩⟩
    rw [decode_of_fewer hplace hrepeated (hwithin hrepeated), hread,
      reading_of_repeated_entry htarget hpart hsplit]
    rfl

/-- A package whose only method takes something of the type. -/
def packageTaking (type : GoType) : Package := ⟨"p", [⟨"I", [⟨"M", [⟨"c", type⟩], [], none⟩]⟩]⟩

/-- The way to the type of the only parameter. -/
def takenFrames : List Frame :=
  [.entry [("name", .string "p")] "interfaces" [], .item [] [],
    .entry [("name", .string "I")] "methods" [], .item [] [],
    .entry [("name", .string "M")] "params" [("results", .array [])], .item [] [],
    .entry [("name", .string "c")] "type" []]

theorem toJson_packageTaking (type : GoType) :
    (packageTaking type).toJson = plug takenFrames type.toJson := rfl

/-- A channel type that leaves out its direction. -/
theorem decode_of_channel_without_direction :
    (packageTaking (.chan .recv (.predeclared "int"))).toJson.depth ≤ 127 ∧
    (packageTaking (.chan .recv (.predeclared "int"))).toJson =
      plug takenFrames (.object ([(kindKey, .string "chan")] ++
        ("dir", .string "recv") :: [("elem", (GoType.predeclared "int").toJson)])) ∧
    ∃ package' : Package,
      decode (reportOf (plug takenFrames (.object [(kindKey, .string "chan"),
        ("elem", (GoType.predeclared "int").toJson)]))) = .ok package' ∧
      package'.toJson = plug takenFrames (.object [(kindKey, .string "chan"),
        ("dir", .string "both"), ("elem", (GoType.predeclared "int").toJson)]) := by
  have hdepth : (packageTaking (.chan .recv (.predeclared "int"))).toJson.depth ≤ 127 := by decide
  refine ⟨hdepth, rfl, ?_⟩
  exact (decode_of_changed_entry _ hdepth takenFrames [(kindKey, .string "chan")]
    [("elem", (GoType.predeclared "int").toJson)] "dir" (.string "recv") rfl).2.1
    (by decide)

end Reports

end InterfaceProbe
