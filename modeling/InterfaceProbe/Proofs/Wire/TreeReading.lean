/-
# Reading trees

`Json.reading` answers with a value exactly when the tree means it.  Both sides
are built from what the items and entries of a tree are, so the lemmas compare
them one container at a time and leave the recursion to the last theorem.
-/

import InterfaceProbe.Proofs.Wire.Drafts

namespace InterfaceProbe

open Reader (Steps steps_congr)

/-- The values that a reading answers with. -/
def Reading.toMeaning (reading : Reading) : Meaning := fun target value =>
  reading target = .ok value

theorem Reading.functional_toMeaning : Functional Reading.toMeaning := by
  intro reading target value other h hother
  cases h.symm.trans hother
  rfl

section Forms

variable {X Y : Type}

/-- The form with its values replaced. -/
def Form.map (f : X → Y) : Form X → Form Y
  | .items values => .items (values.map f)
  | .entries members => .entries (members.map fun member => (member.1, f member.2))

theorem Form.members_map (f : X → Y) (keys : List String) (form : Form X) :
    (form.map f).members keys = (form.members keys).map fun member => (member.1, f member.2) := by
  cases form with
  | items values => exact List.zip_map_right
  | entries members => rfl

/-- What ignores every unknown value depends on the meanings of the values alone. -/
theorem isRecord_map_iff (shape : Shape) (means : X → Meaning) (form : Form X)
    (value : shape.target.Value) :
    IsRecord shape (fun _ => True) id (form.map means) value ↔
      IsRecord shape (fun _ => True) means form value := by
  have hfits : (form.map means).Fits shape.keys ↔ form.Fits shape.keys := by
    cases form with
    | items values => simp [Form.map, Form.Fits]
    | entries members => exact Iff.rfl
  apply Iff.intro
  · intro h
    rcases h with ⟨hform, -, hknown⟩
    rw [Form.members_map, List.map_map] at hknown
    exact ⟨hfits.1 hform, fun _ _ _ => trivial, hknown⟩
  · intro h
    rcases h with ⟨hform, -, hknown⟩
    refine ⟨hfits.2 hform, fun _ _ _ => trivial, ?_⟩
    rw [Form.members_map, List.map_map]
    exact hknown

theorem Form.tagged_map_iff (f : X → Y) (form : Form X) (tag : Y) (rest : Form Y) :
    (form.map f).Tagged tag rest ↔ ∃ x others, form.Tagged x others ∧ tag = f x ∧
      rest = others.map f := by
  cases form with
  | items values =>
      apply Iff.intro
      · intro h
        rcases h with ⟨others, hvalues, rfl⟩
        obtain ⟨x, values', rfl, rfl, rfl⟩ := List.map_eq_cons_iff.1 hvalues
        exact ⟨x, .items values', ⟨values', rfl, rfl⟩, rfl, rfl⟩
      · intro h
        rcases h with ⟨x, _, ⟨others, rfl, rfl⟩, rfl, rfl⟩
        exact ⟨others.map f, rfl, rfl⟩
  | entries members =>
      have hfilter (keep : String → Bool) :
          (members.map fun member => (member.1, f member.2)).filter (fun member => keep member.1) =
            (members.filter fun member => keep member.1).map fun member => (member.1, f member.2) :=
        List.filter_map
      apply Iff.intro
      · intro h
        rcases h with ⟨hvalues, rfl⟩
        rw [hfilter fun key => decide (key = kindKey), List.map_map] at hvalues
        rw [hfilter fun key => decide (key ≠ kindKey)]
        obtain ⟨member, hmember, rfl⟩ := List.map_eq_singleton_iff.1 hvalues
        exact ⟨member.2, _, ⟨by rw [hmember]; rfl, rfl⟩, rfl, rfl⟩
      · intro h
        rcases h with ⟨x, _, ⟨hvalues, rfl⟩, rfl, rfl⟩
        refine ⟨?_, ?_⟩
        · obtain ⟨member, hmember, rfl⟩ := List.map_eq_singleton_iff.1 hvalues
          rw [hfilter fun key => decide (key = kindKey), hmember]
          rfl
        · rw [hfilter fun key => decide (key ≠ kindKey)]
          rfl

end Forms

section Runs

variable {σ τ : Type}

/-- A fold that may fail succeeds when each of its steps does. -/
theorem foldlM_eq_ok_iff {f : σ → τ → Except Fault σ} {members : List τ} {state result : σ} :
    members.foldlM f state = .ok result ↔
      Steps (fun state member state' => f state member = .ok state') state members result := by
  induction members generalizing state with
  | nil =>
      apply Iff.intro
      · intro h
        cases h
        exact .nil
      · intro h
        cases h
        rfl
  | cons member members ih =>
      rw [List.foldlM_cons, bind_eq_ok_iff]
      apply Iff.intro
      · intro h
        rcases h with ⟨middle, hstep, hsteps⟩
        exact .cons hstep (ih.1 hsteps)
      · intro h
        cases h with
        | cons hstep hsteps => exact ⟨_, hstep, ih.2 hsteps⟩

theorem map_eq_ok_iff {f : σ → τ} {x : Except Fault σ} {b : τ} :
    f <$> x = .ok b ↔ ∃ a, b = f a ∧ x = .ok a := by
  cases x with
  | error fault => simp [Functor.map, Except.map]
  | ok a => simp [Functor.map, Except.map, eq_comm]

theorem mapM_eq_ok_iff {f : σ → Except Fault τ} {members : List σ} {values : List τ} :
    members.mapM f = .ok values ↔
      List.Forall₂ (fun member value => f member = .ok value) members values := by
  induction members generalizing values with
  | nil =>
      rw [List.mapM_nil, List.forall₂_nil_left_iff]
      apply Iff.intro
      · intro h
        cases h
        rfl
      · rintro rfl
        rfl
  | cons member members ih =>
      rw [List.mapM_cons, bind_eq_ok_iff, List.forall₂_cons_left_iff]
      apply Iff.intro
      · intro h
        rcases h with ⟨value, hvalue, h⟩
        obtain ⟨values', hvalues, h⟩ := bind_eq_ok_iff.1 h
        cases h
        exact ⟨value, values', hvalue, ih.1 hvalues, rfl⟩
      · intro h
        rcases h with ⟨value, values', hvalue, hvalues, rfl⟩
        exact ⟨value, hvalue, bind_eq_ok_iff.2 ⟨values', ih.2 hvalues, rfl⟩⟩

end Runs

namespace Reading

section Records

/-- What one entry of an object does to a draft. -/
def fillEntry {α : Type} (record : Record α) (draft : Draft) (entry : String × Reading) :
    Except Fault Draft := do
  match ← record.slotFor draft entry.1 with
  | none => return draft
  | some slot => return draft.set slot (← entry.2 slot.target)

theorem recordOfEntries_eq_foldlM {α : Type} (record : Record α)
    (entries : List (String × Reading)) :
    recordOfEntries record entries =
      entries.foldlM (fillEntry record) Draft.empty >>= record.build := rfl

theorem fillEntry_eq_ok_iff {α : Type} {record : Record α} {draft draft' : Draft}
    {entry : String × Reading} :
    fillEntry record draft entry = .ok draft' ↔
      Fills record (fun _ => True) toMeaning draft entry draft' := by
  rcases entry with ⟨key, reading⟩
  rw [fillEntry, Fills, bind_eq_ok_iff, Record.slotFor]
  cases hslot : record.slot? key with
  | none =>
      apply Iff.intro
      · intro h
        rcases h with ⟨_, h, h'⟩
        cases h
        cases h'
        exact .inl ⟨rfl, trivial, rfl⟩
      · intro h
        rcases h with ⟨-, -, rfl⟩ | ⟨slot, h, -⟩
        · exact ⟨none, rfl, rfl⟩
        · cases h
  | some slot =>
      by_cases hfilled : (draft slot).isSome
      · simp only [hfilled, if_true]
        apply Iff.intro
        · intro h
          rcases h with ⟨_, h, -⟩
          cases h
        · intro h
          rcases h with ⟨h, -⟩ | ⟨_, h, hempty, -⟩
          · cases h
          · cases h
            rw [hempty] at hfilled
            cases hfilled
      · simp only [hfilled]
        apply Iff.intro
        · intro h
          rcases h with ⟨_, h, h'⟩
          cases h
          obtain ⟨value, hvalue, h'⟩ := bind_eq_ok_iff.1 h'
          cases h'
          exact .inr ⟨slot, rfl, by simpa using hfilled, value, hvalue, rfl⟩
        · intro h
          rcases h with ⟨h, -⟩ | ⟨_, h, -, value, hvalue, rfl⟩
          · cases h
          · cases h
            exact ⟨some slot, rfl, bind_eq_ok_iff.2 ⟨value, hvalue, rfl⟩⟩

theorem recordOfEntries_eq_ok_iff (shape : Shape) {entries : List (String × Reading)}
    {value : shape.target.Value} :
    recordOfEntries shape.record entries = .ok value ↔
      IsRecord shape (fun _ => True) toMeaning (.entries entries) value := by
  rw [isRecord_entries_iff functional_toMeaning, recordOfEntries_eq_foldlM, bind_eq_ok_iff]
  apply exists_congr
  intro draft
  apply and_congr_left'
  rw [foldlM_eq_ok_iff]
  exact steps_congr fun _ _ _ => fillEntry_eq_ok_iff

theorem recordOfItems_eq_ok_iff (shape : Shape) {items : List Reading}
    {value : shape.target.Value} :
    recordOfItems shape.record items = .ok value ↔
      IsRecord shape (fun _ => True) toMeaning (.items items) value := by
  rw [isRecord_items_iff functional_toMeaning, recordOfItems, bind_eq_ok_iff, ← exists_and_left]
  apply exists_congr
  intro draft
  rw [foldlM_eq_ok_iff, and_left_comm]
  have hstep : (fun (draft : Draft) (item : Slot × Reading) (draft' : Draft) =>
      (do return draft.set item.1 (← item.2 item.1.target) : Except Fault Draft) = .ok draft') =
      Sets toMeaning := by
    funext draft item draft'
    apply propext
    rw [bind_eq_ok_iff, Sets]
    apply Iff.intro
    · intro h
      rcases h with ⟨value, hvalue, h⟩
      cases h
      exact ⟨value, hvalue, rfl⟩
    · intro h
      rcases h with ⟨value, hvalue, rfl⟩
      exact ⟨value, hvalue, rfl⟩
  rw [hstep]
  apply and_congr_right
  intro _
  cases firstRequired items.length (shape.record.slots.drop items.length) with
  | some missing => simp
  | none =>
      by_cases hlong : shape.record.slots.length < items.length
      · simp [hlong, Nat.not_le.2 hlong]
      · simp [hlong, Nat.not_lt.1 hlong]

end Records

section Kinds

/-- Going on through the entries of a type finds its kind where it is named, at most once. -/
theorem foldlM_kind_eq_ok_iff {entries : List (String × Reading)} {found result : Option Kind} :
    entries.foldlM (fun (found : Option Kind) (entry : String × Reading) => (do
      if entry.1 = kindKey then
        if found.isSome then .error (.duplicateField kindKey)
        else return some (← entry.2 .kind)
      else return found : Except Fault (Option Kind))) found = .ok result ↔
    valuesAt entries kindKey = [] ∧ result = found ∨
      found = none ∧ ∃ tag kind, valuesAt entries kindKey = [tag] ∧ tag .kind = .ok kind ∧
        result = some kind := by
  induction entries generalizing found with
  | nil =>
      apply Iff.intro
      · intro h
        cases h
        exact .inl ⟨rfl, rfl⟩
      · intro h
        rcases h with ⟨-, rfl⟩ | ⟨-, tag, kind, h, -⟩
        · rfl
        · cases h
  | cons member entries ih =>
      rcases member with ⟨name, reading⟩
      rw [List.foldlM_cons, bind_eq_ok_iff, valuesAt_cons]
      by_cases hname : name = kindKey
      · simp only [hname, if_true]
        cases found with
        | some kind =>
            apply Iff.intro
            · intro h
              rcases h with ⟨_, h, -⟩
              cases h
            · rintro (⟨h, -⟩ | ⟨h, -⟩) <;> cases h
        | none =>
            apply Iff.intro
            · intro h
              rcases h with ⟨_, h, hrest⟩
              obtain ⟨kind, hkind, h⟩ := bind_eq_ok_iff.1 h
              cases h
              rcases ih.1 hrest with ⟨hnil, rfl⟩ | ⟨h, -⟩
              · exact .inr ⟨rfl, reading, kind, by rw [hnil], hkind, rfl⟩
              · cases h
            · intro h
              rcases h with ⟨h, -⟩ | ⟨-, tag, kind, hvalues, hkind, rfl⟩
              · cases h
              · obtain ⟨rfl, hnil⟩ := List.cons.inj hvalues
                exact ⟨some kind, bind_eq_ok_iff.2 ⟨kind, hkind, rfl⟩,
                  ih.2 (.inl ⟨hnil, rfl⟩)⟩
      · simp only [hname, if_false]
        apply Iff.intro
        · intro h
          rcases h with ⟨_, h, hrest⟩
          cases h
          exact ih.1 hrest
        · exact fun h => ⟨found, rfl, ih.2 h⟩

/-- The entries of a type are read when its kind occurs once. -/
theorem kindOfEntries_eq_ok_iff {entries : List (String × Reading)} {kind : Kind}
    {rest : List (String × Reading)} :
    kindOfEntries entries = .ok (kind, rest) ↔
      ∃ tag, (Form.entries entries).Tagged tag (.entries rest) ∧ tag .kind = .ok kind := by
  rw [kindOfEntries, bind_eq_ok_iff]
  apply Iff.intro
  · intro h
    rcases h with ⟨found, hfound, h⟩
    rcases foldlM_kind_eq_ok_iff.1 hfound with ⟨-, rfl⟩ | ⟨-, tag, kind', hvalues, hkind, rfl⟩
    · cases h
    · cases h
      exact ⟨tag, ⟨hvalues, rfl⟩, hkind⟩
  · intro h
    rcases h with ⟨tag, ⟨hvalues, hrest⟩, hkind⟩
    cases hrest
    exact ⟨some kind, foldlM_kind_eq_ok_iff.2 (.inr ⟨rfl, tag, kind, hvalues, hkind, rfl⟩), rfl⟩

theorem kind_ofName_eq_ok_iff {name : String} {kind : Kind} :
    Kind.ofName name = .ok kind ↔ name = kind.name := by
  have hname (kind : Kind) : Kind.ofName kind.name = .ok kind := by
    cases kind <;> rfl
  apply Iff.intro
  · intro h
    unfold Kind.ofName at h
    split at h
    · next hfound =>
        cases h
        have hsame := List.find?_some hfound
        exact (eq_of_beq hsame).symm
    · cases h
  · rintro rfl
    exact hname kind

theorem kind_ofIndex_eq_ok_iff {index : Nat} {kind : Kind} :
    Kind.ofIndex index = .ok kind ↔ Kind.all[index]? = some kind := by
  unfold Kind.ofIndex
  cases Kind.all[index]? <;> simp

theorem dir_ofName_eq_ok_iff {name : String} {dir : ChanDir} :
    ChanDir.ofName name = .ok dir ↔ name = dir.name := by
  have hname (dir : ChanDir) : ChanDir.ofName dir.name = .ok dir := by
    cases dir <;> rfl
  apply Iff.intro
  · intro h
    unfold ChanDir.ofName at h
    split at h
    · next hfound =>
        cases h
        have hsame := List.find?_some hfound
        exact (eq_of_beq hsame).symm
    · cases h
  · rintro rfl
    exact hname dir

end Kinds

section Places

theorem int64_ofScalar_iff {n : Int} {value : Int64} :
    ofScalar (.int n) .int64 = .ok value ↔ scalarMeaning (.int n) .int64 value := by
  simp only [ofScalar, scalarMeaning, Json.number.injEq, JsonNumber.integer.injEq]
  apply Iff.intro
  · intro h
    split at h
    · next hrange =>
        cases h
        exact (Int64.toInt_ofInt_of_le hrange.1 hrange.2).symm
    · cases h
  · rintro rfl
    rw [if_pos ⟨value.le_toInt, value.toInt_lt⟩, Int64.ofInt_toInt]

theorem kind_ofScalar_iff {n : Int} {kind : Kind} :
    ofScalar (.int n) .kind = .ok kind ↔ scalarMeaning (.int n) .kind kind := by
  simp only [ofScalar, scalarMeaning, Json.number.injEq, JsonNumber.integer.injEq, reduceCtorEq,
    false_or]
  apply Iff.intro
  · intro h
    split at h
    · next hn => exact ⟨n.toNat, (Int.toNat_of_nonneg hn).symm, kind_ofIndex_eq_ok_iff.1 h⟩
    · cases h
  · intro h
    rcases h with ⟨index, rfl, hindex⟩
    rw [if_pos (Int.natCast_nonneg index), Int.toNat_natCast]
    exact kind_ofIndex_eq_ok_iff.2 hindex

/-- A scalar is read as what it means. -/
theorem toMeaning_ofScalar (tree : Json) : (ofScalar tree).toMeaning = scalarMeaning tree := by
  funext target value
  apply propext
  change ofScalar tree target = .ok value ↔ scalarMeaning tree target value
  induction target with
  | optional target ih =>
      cases tree with
      | null =>
          simp only [ofScalar, scalarMeaning, Except.ok.injEq]
          exact eq_comm
      | _ =>
          simp only [ofScalar, scalarMeaning, ← ih]
          rw [map_eq_ok_iff]
  | text =>
      cases tree <;> simp [ofScalar, scalarMeaning, mismatch]
  | unit => cases tree <;> simp [ofScalar, scalarMeaning, mismatch]
  | dir =>
      cases tree with
      | string name => simp [ofScalar, scalarMeaning, dir_ofName_eq_ok_iff]
      | _ => simp [ofScalar, scalarMeaning, mismatch]
  | int64 =>
      cases tree with
      | number number =>
          cases number with
          | integer n => exact int64_ofScalar_iff
          | real x => simp [ofScalar, scalarMeaning, mismatch]
      | _ => simp [ofScalar, scalarMeaning, mismatch]
  | kind =>
      cases tree with
      | string name => simp [ofScalar, scalarMeaning, kind_ofName_eq_ok_iff]
      | number number =>
          cases number with
          | integer n => exact kind_ofScalar_iff
          | real x => simp [ofScalar, scalarMeaning, mismatch]
      | _ => simp [ofScalar, scalarMeaning, mismatch]
  | _ => simp [ofScalar, scalarMeaning, mismatch]

/-- A record at a place of its own is the record of the meanings inside. -/
theorem record_iff {shape : Shape} {form : Form Reading} {value : shape.target.Value}
    {outcome : Except Fault shape.target.Value}
    (h : outcome = .ok value ↔ IsRecord shape (fun _ => True) toMeaning form value) :
    outcome = .ok value ↔ IsRecord shape (fun _ => True) id (form.map toMeaning) value :=
  h.trans (isRecord_map_iff shape toMeaning form value).symm

/-- A type is read by its kind and then as a record of that variant. -/
theorem isType_map_iff {form : Form Reading} {type : GoType} :
    IsType (fun tag kind => tag .kind kind) id (form.map toMeaning) type ↔
      ∃ tag rest kind, form.Tagged tag rest ∧ tag .kind = .ok kind ∧
        IsRecord (.variant kind) (fun _ => True) toMeaning rest type := by
  apply Iff.intro
  · intro h
    rcases h with ⟨_, _, kind, htagged, hkind, hrecord⟩
    obtain ⟨tag, rest, hform, rfl, rfl⟩ := (Form.tagged_map_iff toMeaning form _ _).1 htagged
    exact ⟨tag, rest, kind, hform, hkind,
      (isRecord_map_iff (.variant kind) toMeaning rest type).1 hrecord⟩
  · intro h
    rcases h with ⟨tag, rest, kind, hform, hkind, hrecord⟩
    exact ⟨_, _, kind, (Form.tagged_map_iff toMeaning form _ _).2 ⟨tag, rest, hform, rfl, rfl⟩,
      hkind, (isRecord_map_iff (.variant kind) toMeaning rest type).2 hrecord⟩

/-- An array is read as what its items make it mean. -/
theorem toMeaning_ofItems (items : List Reading) :
    (ofItems items).toMeaning = formMeaning ((Form.items items).map toMeaning) := by
  funext target value
  apply propext
  change ofItems items target = .ok value ↔ _
  induction target with
  | optional target ih =>
      simp only [ofItems, formMeaning, ← ih]
      exact map_eq_ok_iff
  | sequence target =>
      simp only [ofItems, formMeaning, Form.map, Form.items.injEq, exists_eq_left',
        List.forall₂_map_left_iff]
      exact mapM_eq_ok_iff
  | type =>
      simp only [ofItems, formMeaning]
      rw [isType_map_iff]
      cases items with
      | nil =>
          apply Iff.intro
          · intro h
            cases h
          · intro h
            rcases h with ⟨_, _, _, ⟨_, h, _⟩, _⟩
            cases h
      | cons tag items =>
          rw [bind_eq_ok_iff]
          apply Iff.intro
          · intro h
            rcases h with ⟨kind, hkind, hrecord⟩
            exact ⟨tag, _, kind, ⟨items, rfl, rfl⟩, hkind,
              (recordOfItems_eq_ok_iff (.variant kind)).1 hrecord⟩
          · intro h
            rcases h with ⟨_, _, kind, ⟨_, h, rfl⟩, hkind, hrecord⟩
            cases h
            exact ⟨kind, hkind, (recordOfItems_eq_ok_iff (.variant kind)).2 hrecord⟩
  | parameter => exact record_iff (recordOfItems_eq_ok_iff .parameter)
  | field => exact record_iff (recordOfItems_eq_ok_iff .field)
  | method => exact record_iff (recordOfItems_eq_ok_iff .method)
  | interface => exact record_iff (recordOfItems_eq_ok_iff .interface)
  | package => exact record_iff (recordOfItems_eq_ok_iff .package)
  | _ => simp [ofItems, formMeaning, Form.map, mismatch]

/-- An object is read as what its entries make it mean. -/
theorem toMeaning_ofEntries (entries : List (String × Reading)) :
    (ofEntries entries).toMeaning = formMeaning ((Form.entries entries).map toMeaning) := by
  funext target value
  apply propext
  change ofEntries entries target = .ok value ↔ _
  induction target with
  | optional target ih =>
      simp only [ofEntries, formMeaning, ← ih]
      exact map_eq_ok_iff
  | type =>
      simp only [ofEntries, formMeaning]
      rw [isType_map_iff, bind_eq_ok_iff]
      apply Iff.intro
      · intro h
        rcases h with ⟨⟨kind, rest⟩, hkind, hrecord⟩
        obtain ⟨tag, htagged, hkind⟩ := kindOfEntries_eq_ok_iff.1 hkind
        exact ⟨tag, _, kind, htagged, hkind,
          (recordOfEntries_eq_ok_iff (.variant kind)).1 hrecord⟩
      · intro h
        rcases h with ⟨tag, _, kind, ⟨hvalues, rfl⟩, hkind, hrecord⟩
        exact ⟨⟨kind, _⟩, kindOfEntries_eq_ok_iff.2 ⟨tag, ⟨hvalues, rfl⟩, hkind⟩,
          (recordOfEntries_eq_ok_iff (.variant kind)).2 hrecord⟩
  | parameter => exact record_iff (recordOfEntries_eq_ok_iff .parameter)
  | field => exact record_iff (recordOfEntries_eq_ok_iff .field)
  | method => exact record_iff (recordOfEntries_eq_ok_iff .method)
  | interface => exact record_iff (recordOfEntries_eq_ok_iff .interface)
  | package => exact record_iff (recordOfEntries_eq_ok_iff .package)
  | dir =>
      simp only [ofEntries, formMeaning, Form.map, Form.entries.injEq, List.map_eq_singleton_iff]
      split
      · next name reading =>
          rw [bind_eq_ok_iff]
          apply Iff.intro
          · intro h
            rcases h with ⟨dir, hdir, h⟩
            obtain ⟨_, hunit, h⟩ := bind_eq_ok_iff.1 h
            cases h
            rw [dir_ofName_eq_ok_iff] at hdir
            exact ⟨reading.toMeaning, ⟨_, rfl, by rw [hdir]⟩, hunit⟩
          · intro h
            rcases h with ⟨_, ⟨_, h, h'⟩, hunit⟩
            cases h
            cases h'
            exact ⟨value, dir_ofName_eq_ok_iff.2 rfl, bind_eq_ok_iff.2 ⟨(), hunit, rfl⟩⟩
      · next hother =>
          apply Iff.intro
          · intro h
            cases h
          · intro h
            rcases h with ⟨_, ⟨member, rfl, -⟩, -⟩
            exact absurd rfl (hother member.1 member.2)
  | unit => cases entries <;> simp [ofEntries, formMeaning, Form.map, mismatch]
  | _ => simp [ofEntries, formMeaning, Form.map, mismatch]

end Places

end Reading

mutual

/-- A tree is read as what it means. -/
theorem Json.toMeaning_reading : (tree : Json) → tree.reading.toMeaning = tree.meaning
  | .array items => by
      rw [Json.reading, Json.meaning, Reading.toMeaning_ofItems, Form.map, map_itemReadings items]
  | .object entries => by
      rw [Json.reading, Json.meaning, Reading.toMeaning_ofEntries, Form.map,
        map_entryReadings entries]
  | .null => Reading.toMeaning_ofScalar .null
  | .bool value => Reading.toMeaning_ofScalar (.bool value)
  | .number value => Reading.toMeaning_ofScalar (.number value)
  | .string value => Reading.toMeaning_ofScalar (.string value)
termination_by structural tree => tree

theorem map_itemReadings :
    (items : List Json) → (itemReadings items).map Reading.toMeaning = itemMeanings items
  | [] => rfl
  | item :: rest => by
      rw [itemReadings, itemMeanings, List.map_cons, item.toMeaning_reading, map_itemReadings rest]
termination_by structural items => items

theorem map_entryReadings : (entries : List (String × Json)) →
    (entryReadings entries).map (fun entry => (entry.1, entry.2.toMeaning)) = entryMeanings entries
  | [] => rfl
  | (key, value) :: rest => by
      rw [entryReadings, entryMeanings, List.map_cons, value.toMeaning_reading,
        map_entryReadings rest]
termination_by structural entries => entries

end

/-- A reading answers with a value exactly when the tree means it. -/
theorem Json.reading_eq_ok_iff {tree : Json} {target : Target} {value : target.Value} :
    tree.reading target = .ok value ↔ tree.meaning target value := by
  rw [← tree.toMeaning_reading]
  rfl

/-- A tree means at most one value of a kind. -/
theorem Json.functional_meaning : Functional Json.meaning := by
  intro tree target value other h hother
  rw [← tree.toMeaning_reading] at h hother
  exact Reading.functional_toMeaning h hother

theorem entryReadings_filter (keep : String → Bool) (entries : List (String × Json)) :
    (entryReadings entries).filter (fun entry => keep entry.1) =
      entryReadings (entries.filter fun entry => keep entry.1) := by
  rw [entryReadings_eq_map, entryReadings_eq_map, List.filter_map]
  rfl

end InterfaceProbe
