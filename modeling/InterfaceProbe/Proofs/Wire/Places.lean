/-
# Places in a wire form

A place is the way to it: at each step an array with an item left open, or an
object with the value of a key left open.  What is read at a place depends on
the last key on the way only, apart from the items of lists.

A wire form with an object put in at a place is read as the object is: with a
fault of the object it has that fault, and otherwise it is the old value with
another part.
-/

import InterfaceProbe.Proofs.Wire.Changes
import InterfaceProbe.Proofs.Wire.Verdicts

namespace InterfaceProbe

/-- An array or object with one value left open. -/
inductive Frame
  | item (before after : List Json)
  | entry (before : List (String × Json)) (key : String) (after : List (String × Json))

namespace Frame

/-- The array or object around a value. -/
def around : Frame → Json → Json
  | .item before after, tree => .array (before ++ tree :: after)
  | .entry before key after, tree => .object (before ++ (key, tree) :: after)

/-- What stands where the value is left open in something for the target. -/
def target : Frame → Target → Target
  | .item _ _, .sequence target => target
  | .item _ _, target => target
  | .entry _ key _, _ => entryTarget key

end Frame

/-- A value with frames around it, the outermost first. -/
def plug (frames : List Frame) (tree : Json) : Json := frames.foldr Frame.around tree

/-- What stands behind the frames in something for the target. -/
def targetAt (target : Target) (frames : List Frame) : Target :=
  frames.foldl (fun target frame => frame.target target) target

section Containers

/-- An array or an object. -/
def Json.IsContainer : Json → Prop
  | .array _ | .object _ => True
  | _ => False

theorem Frame.isContainer_around (frame : Frame) (tree : Json) :
    (frame.around tree).IsContainer := by
  cases frame <;> trivial

theorem isContainer_plug (frames : List Frame) (entries : List (String × Json)) :
    (plug frames (.object entries)).IsContainer := by
  cases frames with
  | nil => trivial
  | cons frame frames => exact frame.isContainer_around _

theorem Json.IsContainer.ne_null {tree : Json} (h : tree.IsContainer) : tree ≠ .null := by
  rintro rfl
  exact h

theorem Json.IsContainer.ne_string {tree : Json} (h : tree.IsContainer) (text : String) :
    tree ≠ .string text := by
  rintro rfl
  exact h

end Containers

section Frames

variable {target : Target} {value : target.Value} {frame : Frame} {tree : Json}

/-- A present value as one that may be absent. -/
theorem exists_lift {part whole : Target} (hpart : part.Present)
    (h : whole = part ∨ whole = .optional part) (key : String) :
    ∃ lift : part.Value → whole.Value,
      (∀ tree : Json, tree ≠ .null → tree.reading whole = lift <$> tree.reading part) ∧
      ∀ value, writtenEntry key (wireForm whole (lift value)) = [(key, wireForm part value)] := by
  rcases h with rfl | rfl
  · exact ⟨id, fun tree _ => (id_map _).symm, writtenEntry_wireForm hpart key⟩
  · exact ⟨some, fun tree htree => Json.reading_optional htree part,
      writtenEntry_wireForm hpart key⟩

/-- What is read at a frame: a part of a wire form that is an array or object is read by itself,
and what is read of it goes where it stood. -/
def Frame.Opens (frame : Frame) (target : Target) (tree : Json) : Prop :=
  ∃ (part : (frame.target target).Value) (put : (frame.target target).Value → target.Value),
    wireForm (frame.target target) part = tree ∧
    (∀ other : Json, other.IsContainer →
      (frame.around other).reading target = put <$> other.reading (frame.target target)) ∧
    ∀ other, wireForm target (put other) = frame.around (wireForm (frame.target target) other)

theorem reading_all {target : Target} (htarget : target.Present) (values : List target.Value) :
    (values.map (wireForm target)).mapM (fun tree => tree.reading target) = .ok values := by
  rw [mapM_eq_ok_iff, List.forall₂_map_left_iff, List.forall₂_same]
  exact fun value _ => reading_wireForm htarget value

/-- A list is read around an item. -/
theorem opens_item {item : Target} (hitem : item.Present) {values : List item.Value}
    {before after : List Json} (h : values.map (wireForm item) = before ++ tree :: after) :
    (Frame.item before after).Opens (.sequence item) tree := by
  obtain ⟨front, rest, rfl, rfl, hrest⟩ := List.map_eq_append_iff.1 h
  obtain ⟨part, back, rfl, rfl, rfl⟩ := List.map_eq_cons_iff.1 hrest
  refine ⟨part, fun (other : item.Value) => front ++ other :: back, rfl, fun other _ => ?_,
    fun (other : item.Value) => ?_⟩
  · rw [Frame.around, Json.reading_sequence, List.mapM_append, List.mapM_cons,
      reading_all hitem front, reading_all hitem back]
    change _ = _ <$> other.reading item
    cases other.reading item <;> rfl
  · simp [wireForm, Frame.around, Frame.target]

/-- A record is read around the value of a slot. -/
theorem opens_entry {shape : Shape} {record : shape.target.Value}
    {before after : List (String × Json)} {key : String}
    (hentries : wireForm shape.target record = .object (before ++ (key, tree) :: after))
    (hkind : shape.HasKind (before ++ (key, tree) :: after)) (htree : tree.IsContainer) :
    (Frame.entry before key after).Opens shape.target tree := by
  have hmem : (key, tree) ∈ before ++ (key, tree) :: after := by simp
  obtain ⟨part, hpart⟩ := exists_value_of_entry hentries hmem
  have hkey : key ∈ shape.keys := by
    have hknown := (keys_sublist_known hentries hkind).subset (List.mem_map_of_mem hmem)
    rcases mem_known_iff.1 hknown with hkey | ⟨-, rfl⟩
    · exact hkey
    · exact absurd hpart (htree.ne_string _)
  rw [← shape.map_label_slots] at hkey
  obtain ⟨slot, hslot, rfl⟩ := List.mem_map.1 hkey
  obtain ⟨lift, hread, hwritten⟩ :=
    exists_lift (present_entryTarget slot.label) (slot_target slot) slot.label
  choose put hput hform using fun other =>
    exists_reading_of_replaced hentries hkind hslot (lift other)
  refine ⟨part, put, hpart.symm, fun other hother => ?_,
    fun (other : (entryTarget slot.label).Value) => ?_⟩
  · have hlifted := hread other hother.ne_null
    change (Json.object _).reading shape.target = put <$> other.reading (entryTarget slot.label)
    cases hvalue : other.reading (entryTarget slot.label) with
    | error fault =>
        rw [hvalue] at hlifted
        exact reading_of_faulty hentries hkind hslot hlifted
    | ok value =>
        rw [hvalue] at hlifted
        exact hput value other hlifted
  · rw [hform, hwritten]
    rfl

/-- A wire form is read around every array or object in it. -/
theorem opens_frame (htarget : target.Present) (htree : tree.IsContainer)
    (h : wireForm target value = frame.around tree) :
    (frame.target target).Present ∧ frame.Opens target tree := by
  rcases wireForm_cases htarget value with ⟨text, heq⟩ | ⟨n, heq⟩ |
    ⟨item, values, hitem, rfl, heq⟩ | ⟨shape, entries, record, rfl, hkind, hentries, heq⟩
  · cases frame <;> cases heq.symm.trans h
  · cases frame <;> cases heq.symm.trans h
  · cases frame with
    | item before after =>
        rw [heq, Frame.around, Json.array.injEq] at h
        exact ⟨hitem, opens_item hitem h⟩
    | entry before key after => cases heq.symm.trans h
  · cases frame with
    | item before after => cases heq.symm.trans h
    | entry before key after =>
        rw [heq, Frame.around, Json.object.injEq] at h
        subst h
        exact ⟨present_entryTarget key, opens_entry heq hkind htree⟩

end Frames

section Ways

variable {target : Target} {value : target.Value} {frames : List Frame}
  {entries fewer : List (String × Json)}

/-- A wire form is read around every object in it. -/
theorem opens_frames (target : Target) {value : target.Value} (htarget : target.Present)
    (h : wireForm target value = plug frames (.object entries)) :
    (targetAt target frames).Present ∧
      ∃ (part : (targetAt target frames).Value) (put : (targetAt target frames).Value →
          target.Value),
        wireForm (targetAt target frames) part = .object entries ∧
        (∀ others, (plug frames (.object others)).reading target =
          put <$> (Json.object others).reading (targetAt target frames)) ∧
        ∀ other, wireForm target (put other) =
          plug frames (wireForm (targetAt target frames) other) := by
  induction frames generalizing target value with
  | nil => exact ⟨htarget, value, id, h, fun _ => (id_map _).symm, fun _ => rfl⟩
  | cons frame frames ih =>
      obtain ⟨hinner, part, put, hpart, hread, hput⟩ :=
        opens_frame htarget (isContainer_plug frames entries) h
      obtain ⟨hlast, last, putLast, hlastForm, hreadLast, hputLast⟩ := ih _ hinner hpart
      refine ⟨hlast, last, fun other => put (putLast other), hlastForm, fun others => ?_,
        fun other => ?_⟩
      · have hframe := hread _ (isContainer_plug frames others)
        rw [hreadLast others] at hframe
        apply hframe.trans
        change _ = _ <$> (Json.object others).reading
          (targetAt (frame.target target) frames)
        cases (Json.object others).reading (targetAt (frame.target target) frames) <;> rfl
      · exact (hput _).trans (congrArg frame.around (hputLast other))

theorem Frame.depth_around_le {frame : Frame} {tree other : Json} (h : tree.depth ≤ other.depth) :
    (frame.around tree).depth ≤ (frame.around other).depth := by
  cases frame with
  | item before after =>
      have hall := Json.itemsDepth_le_iff.1
        (Nat.le_refl (Json.itemsDepth (before ++ other :: after)))
      rw [List.forall_mem_append, List.forall_mem_cons] at hall
      change Json.itemsDepth _ + 1 ≤ Json.itemsDepth _ + 1
      rw [Nat.add_le_add_iff_right, Json.itemsDepth_le_iff, List.forall_mem_append,
        List.forall_mem_cons]
      exact ⟨hall.1, Nat.le_trans h hall.2.1, hall.2.2⟩
  | entry before key after =>
      have hall := Json.entriesDepth_le_iff.1
        (Nat.le_refl (Json.entriesDepth (before ++ (key, other) :: after)))
      rw [List.forall_mem_append, List.forall_mem_cons] at hall
      change Json.entriesDepth _ + 1 ≤ Json.entriesDepth _ + 1
      rw [Nat.add_le_add_iff_right, Json.entriesDepth_le_iff, List.forall_mem_append,
        List.forall_mem_cons]
      exact ⟨hall.1, Nat.le_trans h hall.2.1, hall.2.2⟩

/-- A place with fewer entries nests no deeper. -/
theorem depth_plug_le (h : fewer ⊆ entries) :
    (plug frames (.object fewer)).depth ≤ (plug frames (.object entries)).depth := by
  induction frames with
  | nil =>
      change Json.entriesDepth fewer + 1 ≤ Json.entriesDepth entries + 1
      rw [Nat.add_le_add_iff_right, Json.entriesDepth_le_iff]
      exact fun entry hentry => Json.entriesDepth_le_iff.1 (Nat.le_refl _) entry (h hentry)
  | cons frame frames ih => exact Frame.depth_around_le ih

theorem Plain.of_around {frame : Frame} {tree : Json} (h : Plain (frame.around tree)) :
    Plain tree ∧ ∀ other, Plain other → Plain (frame.around other) := by
  cases frame with
  | item before after =>
      cases h with
      | array hitems =>
          rw [List.forall_mem_append, List.forall_mem_cons] at hitems
          refine ⟨hitems.2.1, fun other hother => .array ?_⟩
          rw [List.forall_mem_append, List.forall_mem_cons]
          exact ⟨hitems.1, hother, hitems.2.2⟩
  | entry before key after =>
      cases h with
      | object hentries =>
          rw [List.forall_mem_append, List.forall_mem_cons] at hentries
          refine ⟨hentries.2.1, fun other hother => .object ?_⟩
          rw [List.forall_mem_append, List.forall_mem_cons]
          exact ⟨hentries.1, hother, hentries.2.2⟩

theorem Plain.plug (frames : List Frame) (h : Plain (plug frames (.object entries))) (hfewer : fewer ⊆ entries) :
    Plain (plug frames (.object fewer)) := by
  induction frames with
  | nil =>
      cases h with
      | object hentries => exact .object fun entry hentry => hentries entry (hfewer hentry)
  | cons frame frames ih =>
      obtain ⟨hinner, haround⟩ := Plain.of_around h
      exact haround _ (ih hinner)

/-- A place with fewer entries fits where it fitted before. -/
theorem Fits.plug (h : Fits target (plug frames (.object entries))) (hfewer : fewer ⊆ entries) :
    Fits target (plug frames (.object fewer)) := by
  induction frames generalizing target with
  | nil =>
      cases h with
      | buffered htarget hplain => exact .buffered htarget (Plain.plug [] hplain hfewer)
      | record htarget hshape hkeys hentries =>
          exact .record htarget hshape (fun entry hentry => hkeys entry (hfewer hentry))
            fun entry hentry => hentries entry (hfewer hentry)
      | type hplain hkind =>
          exact .type (fun entry hentry => hplain entry (hfewer hentry))
            fun entry hentry => hkind entry (hfewer hentry)
  | cons frame frames ih =>
      cases frame with
      | item before after =>
          cases h with
          | buffered htarget hplain =>
              exact .buffered htarget (Plain.plug (.item before after :: frames) hplain hfewer)
          | sequence hitems =>
              rw [List.forall_mem_append, List.forall_mem_cons] at hitems
              refine .sequence ?_
              rw [List.forall_mem_append, List.forall_mem_cons]
              exact ⟨hitems.1, ih hitems.2.1, hitems.2.2⟩
      | entry before key after =>
          cases h with
          | buffered htarget hplain =>
              exact .buffered htarget (Plain.plug (.entry before key after :: frames) hplain hfewer)
          | record htarget hshape hkeys hentries =>
              rw [List.forall_mem_append, List.forall_mem_cons] at hkeys hentries
              refine .record htarget hshape ?_ ?_
              · rw [List.forall_mem_append, List.forall_mem_cons]
                exact hkeys
              · rw [List.forall_mem_append, List.forall_mem_cons]
                exact ⟨hentries.1, ih hentries.2.1, hentries.2.2⟩
          | type hplain hkind =>
              rw [List.forall_mem_append, List.forall_mem_cons] at hplain hkind
              refine .type ?_ ?_
              · rw [List.forall_mem_append, List.forall_mem_cons]
                exact ⟨hplain.1, Plain.plug frames hplain.2.1 hfewer, hplain.2.2⟩
              · rw [List.forall_mem_append, List.forall_mem_cons]
                refine ⟨hkind.1, fun hkey => ?_, hkind.2.2⟩
                obtain ⟨name, hname⟩ := hkind.2.1 hkey
                exact absurd hname ((isContainer_plug frames entries).ne_string name)

end Ways

end InterfaceProbe
