/-
# Reading the wire form from a text

What each target's reader takes.  A type is read as a tree whose kind is
checked on the way; everything else is read while its text goes by.  The last
theorem is for every target and every bound on the open arrays and objects:
`Reader.stream` takes exactly the texts that mean a value of the target.
-/

import InterfaceProbe.Proofs.Wire.RecordText

namespace InterfaceProbe.Reader

open Grammar

section Scalars

theorem text_takes : Takes (fun _ => True) text StringText := by
  refine Takes.of_peek (fun {b tail value rest} _ h => ?_) fun {taken value rest} htaken _ => ?_
  · split at h
    · next hb =>
        subst hb
        rw [run_bind_of_ok (run_skip_cons 34 tail)] at h
        exact run_literal_sound h
    · exact absurd h run_mismatch_ne_ok
  · obtain ⟨tail, rfl, hliteral⟩ := run_literal_of_stringText htaken rest
    refine ⟨34, tail, by decide, rfl, ?_⟩
    rw [if_pos rfl, run_bind_of_ok (run_skip_cons 34 _)]
    exact hliteral

theorem kindName_takes :
    Takes (fun _ => True) kindName fun text kind => StringText text kind.name := by
  refine Takes.of_peek (fun {b tail kind rest} _ h => ?_) fun {taken kind rest} htaken _ => ?_
  · split at h
    · next hb =>
        subst hb
        rw [run_bind_of_ok (run_skip_cons 34 tail)] at h
        obtain ⟨name, middle, hliteral, hname⟩ := run_bind_eq_ok.1 h
        obtain ⟨hkind, rfl⟩ := run_ofExcept_eq_ok.1 hname
        obtain ⟨taken, htaken, htext⟩ := run_literal_sound hliteral
        rw [Reading.kind_ofName_eq_ok_iff] at hkind
        exact ⟨taken, hkind ▸ htaken, htext⟩
    · exact absurd h run_mismatch_ne_ok
  · obtain ⟨tail, rfl, hliteral⟩ := run_literal_of_stringText htaken rest
    refine ⟨34, tail, by decide, rfl, ?_⟩
    rw [if_pos rfl, run_bind_of_ok (run_skip_cons 34 _), run_bind_of_ok hliteral]
    exact run_ofExcept_eq_ok.2 ⟨Reading.kind_ofName_eq_ok_iff.2 rfl, rfl⟩

theorem valueWithin_string_iff {levels : Nat} {text : Bytes} {value : String} :
    ValueWithin levels text (.string value) ↔ StringText text value := by
  apply Iff.intro
  · intro h
    rcases h with ⟨htext, -⟩
    cases htext with
    | string hstring => exact hstring
  · exact fun h => ⟨.string h, Nat.zero_le _⟩

/-- A value that is read whole is taken by what it means. -/
theorem reading_takes (levels : Nat) (target : Target) :
    Takes Ends (do ofExcept ((← value levels).reading target)) fun text found =>
      TreeText levels text target found where
  sound h := by
    obtain ⟨tree, middle, htree, hreading⟩ := run_bind_eq_ok.1 h
    obtain ⟨hmeaning, rfl⟩ := run_ofExcept_eq_ok.1 hreading
    obtain ⟨blank, taken, hblank, ⟨htaken, hdepth⟩, htext⟩ := (value_takes levels).sound htree
    exact ⟨blank, taken, hblank, ⟨tree, htaken, hdepth, Json.reading_eq_ok_iff.1 hmeaning⟩, htext⟩
  complete hblank htaken hrest := by
    rcases htaken with ⟨tree, htaken, hdepth, hmeaning⟩
    rw [run_bind_of_ok ((value_takes levels).complete hblank ⟨htaken, hdepth⟩ hrest)]
    exact run_ofExcept_eq_ok.2 ⟨Json.reading_eq_ok_iff.2 hmeaning, rfl⟩

end Scalars

section Types

variable {levels : Nat}

/-- What an item does to the kind and the values found so far: the first gives the kind. -/
def TypeItem (levels : Nat) (found : Option (Kind × List Json)) (text : Bytes)
    (found' : Option (Kind × List Json)) : Prop :=
  match found with
  | none => ∃ kind : Kind, StringText text kind.name ∧ found' = some (kind, [])
  | some (kind, values) => ∃ value, ValueWithin levels text value ∧
      found' = some (kind, value :: values)

theorem typeItem_takes (found : Option (Kind × List Json)) :
    Takes Ends (typeItem levels found) (TypeItem levels found) := by
  cases found with
  | none => exact (kindName_takes.map fun kind => some (kind, [])).weaken
  | some found => exact (value_takes levels).map fun value => some (found.1, value :: found.2)

theorem TypeItem.start {found found' : Option (Kind × List Json)} {text : Bytes}
    (h : TypeItem levels found text found') : ∃ b tail, text = b :: tail ∧ IsValueStart b := by
  cases found with
  | none =>
      rcases h with ⟨kind, hkind, -⟩
      exact (valueWithin_string_iff.2 hkind : ValueWithin 0 text _).start
  | some found =>
      rcases h with ⟨value, hvalue, -⟩
      exact hvalue.start

theorem steps_typeItem_some_iff {kind : Kind} {values : List Json} {texts : List Bytes}
    {result : Option (Kind × List Json)} :
    Steps (TypeItem levels) (some (kind, values)) texts result ↔
      ∃ collected, Steps (Collects (ValueWithin levels)) values texts collected ∧
        result = some (kind, collected) := by
  apply Iff.intro
  · intro h
    induction texts generalizing values with
    | nil =>
        cases h
        exact ⟨values, .nil, rfl⟩
    | cons text texts ih =>
        cases h with
        | cons hstep hsteps =>
            rcases hstep with ⟨value, hvalue, rfl⟩
            obtain ⟨collected, hcollected, hresult⟩ := ih hsteps
            exact ⟨collected, .cons ⟨value, hvalue, rfl⟩ hcollected, hresult⟩
  · intro h
    rcases h with ⟨collected, hsteps, rfl⟩
    induction hsteps with
    | nil => exact .nil
    | cons hstep _ ih =>
        rcases hstep with ⟨value, hvalue, rfl⟩
        exact .cons ⟨value, hvalue, rfl⟩ ih

/-- The items of a type are read behind its bracket exactly when they denote its kind's name and
then its values. -/
theorem run_typeItems_eq_ok_iff {kind : Kind} {collected : List Json} {tail rest : Bytes} :
    (items (typeItem levels) none).run tail = .ok (some (kind, collected), rest) ↔
      ∃ taken, ValueWithin (levels + 1) taken (.array (.string kind.name :: collected.reverse)) ∧
        91 :: tail = taken ++ rest := by
  rw [run_items_eq_ok_iff typeItem_takes TypeItem.start]
  apply Iff.intro
  · intro h
    rcases h with ⟨texts, taken, hmembers, hsteps, rfl⟩
    cases hsteps with
    | @cons _ _ _ first texts hfirst hsteps =>
        rcases hfirst with ⟨kind', hkind, rfl⟩
        obtain ⟨_, hsteps, h⟩ := steps_typeItem_some_iff.1 hsteps
        cases h
        obtain ⟨values, hvalues, rfl⟩ := steps_collects_iff.1 hsteps
        refine ⟨91 :: taken, valueWithin_array_iff.2 ⟨_, ⟨taken, hmembers, rfl⟩, ?_⟩, rfl⟩
        rw [List.append_nil, List.reverse_reverse]
        exact .cons (valueWithin_string_iff.2 hkind) hvalues
  · intro h
    rcases h with ⟨_, hvalue, htext⟩
    obtain ⟨texts, ⟨taken, hmembers, rfl⟩, hvalues⟩ := valueWithin_array_iff.1 hvalue
    cases hvalues with
    | cons hkind hvalues =>
        refine ⟨_, taken, hmembers, .cons ⟨kind, valueWithin_string_iff.1 hkind, rfl⟩ ?_,
          (List.cons.inj htext).2⟩
        refine steps_typeItem_some_iff.2 ⟨collected, steps_collects_iff.2 ⟨_, hvalues, ?_⟩, rfl⟩
        rw [List.append_nil, List.reverse_reverse]

/-- What an entry with the key does to the kind and the entries found so far. -/
def TypeEntry (levels : Nat) (found : Option Kind × List (String × Json)) (name : String)
    (text : Bytes) (found' : Option Kind × List (String × Json)) : Prop :=
  if name = kindKey then
    found.1 = none ∧ ∃ kind : Kind, StringText text kind.name ∧ found' = (some kind, found.2)
  else ∃ value, ValueWithin levels text value ∧ found' = (found.1, (name, value) :: found.2)

/-- What is left of an entry of a type behind its key. -/
def typeContent (levels : Nat) (found : Option Kind × List (String × Json)) (name : String) :
    Reader (Option Kind × List (String × Json)) :=
  if name = kindKey then
    if found.1.isSome then fail (.duplicateField kindKey)
    else do
      colon
      return (some (← kindName), found.2)
  else do
    colon
    return (found.1, (name, ← value levels) :: found.2)

theorem typeContent_takes (found : Option Kind × List (String × Json)) (name : String) :
    TakesBehindColon (typeContent levels found name) (TypeEntry levels found name) := by
  unfold typeContent TypeEntry
  by_cases hname : name = kindKey
  · simp only [hname, if_true]
    cases hfound : found.1 with
    | some kind =>
        constructor
        · intro text found' rest h
          cases h
        · rintro before after taken found' rest - - ⟨h, -⟩
          cases h
    | none =>
        have hkind : Takes Ends (do return (some (← kindName), found.2)) fun text found' =>
            ∃ kind : Kind, StringText text kind.name ∧ found' = (some kind, found.2) :=
          (kindName_takes.map fun kind => (some kind, found.2)).weaken
        have htakes := TakesBehindColon.of_takes hkind
        constructor
        · intro text found' rest h
          obtain ⟨before, after, taken, hbefore, hafter, htaken, htext⟩ := htakes.sound h
          exact ⟨before, after, taken, hbefore, hafter, ⟨rfl, htaken⟩, htext⟩
        · rintro before after taken found' rest hbefore hafter ⟨-, htaken⟩ hrest
          exact htakes.complete hbefore hafter htaken hrest
  · simp only [hname, if_false]
    exact TakesBehindColon.of_takes ((value_takes levels).map fun value =>
      (found.1, (name, value) :: found.2))

/-- Reading on through the entries of a type collects them, and the kind where one names it. -/
theorem entries_of_steps_typeEntry {found found' : Option Kind}
    {values values' : List (String × Json)} {texts : List (Bytes × Bytes)}
    (h : Steps (fun state => EntryReads (TypeEntry levels state)) (found, values) texts
      (found', values')) :
    ∃ entries, List.Forall₂ (EntryWithin levels) texts entries ∧
      values' = (entries.filter fun entry => entry.1 ≠ kindKey).reverse ++ values ∧
      (valuesAt entries kindKey = [] ∧ found' = found ∨
        found = none ∧ ∃ kind : Kind, valuesAt entries kindKey = [.string kind.name] ∧
          found' = some kind) := by
  induction texts generalizing found values with
  | nil =>
      cases h
      exact ⟨[], .nil, rfl, .inl ⟨rfl, rfl⟩⟩
  | cons text texts ih =>
      cases h with
      | cons hstep hsteps =>
          rcases hstep with ⟨name, hname, hentry⟩
          unfold TypeEntry at hentry
          by_cases hkey : name = kindKey
          · rw [if_pos hkey] at hentry
            rcases hentry with ⟨rfl, kind, hkind, rfl⟩
            obtain ⟨entries, hentries, hvalues, hfound⟩ := ih hsteps
            refine ⟨(name, .string kind.name) :: entries,
              .cons ⟨hname, valueWithin_string_iff.2 hkind⟩ hentries, ?_, .inr ⟨rfl, kind, ?_⟩⟩
            · simp [hvalues, hkey]
            · rcases hfound with ⟨hnil, hfound⟩ | ⟨h, -⟩
              · rw [valuesAt_cons, if_pos hkey, hnil]
                exact ⟨rfl, hfound⟩
              · cases h
          · rw [if_neg hkey] at hentry
            rcases hentry with ⟨value, hvalue, rfl⟩
            obtain ⟨entries, hentries, hvalues, hfound⟩ := ih hsteps
            refine ⟨(name, value) :: entries, .cons ⟨hname, hvalue⟩ hentries, ?_, ?_⟩
            · simp [hvalues, hkey]
            · rw [valuesAt_cons, if_neg hkey]
              exact hfound

/-- Entries that name the kind at most once are read on through. -/
theorem steps_typeEntry_of_entries {found found' : Option Kind}
    {values values' : List (String × Json)} {texts : List (Bytes × Bytes)}
    {entries : List (String × Json)} (hentries : List.Forall₂ (EntryWithin levels) texts entries)
    (hvalues : values' = (entries.filter fun entry => entry.1 ≠ kindKey).reverse ++ values)
    (hfound : valuesAt entries kindKey = [] ∧ found' = found ∨
      found = none ∧ ∃ kind : Kind, valuesAt entries kindKey = [.string kind.name] ∧
        found' = some kind) :
    Steps (fun state => EntryReads (TypeEntry levels state)) (found, values) texts
      (found', values') := by
  induction hentries generalizing found values with
  | nil =>
      rcases hfound with ⟨-, rfl⟩ | ⟨-, kind, h, -⟩
      · rw [hvalues]
        exact .nil
      · cases h
  | @cons text entry texts entries hentry _ ih =>
      rcases entry with ⟨name, value⟩
      rcases hentry with ⟨hname, hvalue⟩
      rw [valuesAt_cons] at hfound
      by_cases hkey : name = kindKey
      · rw [if_pos hkey] at hfound
        rcases hfound with ⟨h, -⟩ | ⟨rfl, kind, hkind, rfl⟩
        · cases h
        obtain ⟨rfl, hnil⟩ := List.cons.inj hkind
        have hrest : Steps (fun state => EntryReads (TypeEntry levels state)) (some kind, values)
            texts (some kind, values') :=
          ih (by simpa [hkey] using hvalues) (.inl ⟨hnil, rfl⟩)
        refine .cons ⟨name, hname, ?_⟩ hrest
        unfold TypeEntry
        rw [if_pos hkey]
        exact ⟨rfl, kind, valueWithin_string_iff.1 hvalue, rfl⟩
      · rw [if_neg hkey] at hfound
        have hrest : Steps (fun state => EntryReads (TypeEntry levels state))
            (found, (name, value) :: values) texts (found', values') :=
          ih (by simpa [hkey] using hvalues) hfound
        refine .cons ⟨name, hname, ?_⟩ hrest
        unfold TypeEntry
        rw [if_neg hkey]
        exact ⟨value, hvalue, rfl⟩

/-- The entries of a type are read behind its brace exactly when its kind is named once. -/
theorem run_typeEntries_eq_ok_iff {kind : Kind} {collected : List (String × Json)}
    {tail rest : Bytes} :
    (entries (typeEntry levels) (none, [])).run tail = .ok ((some kind, collected), rest) ↔
      ∃ taken entries, ValueWithin (levels + 1) taken (.object entries) ∧
        (Form.entries entries).Tagged (.string kind.name) (.entries collected.reverse) ∧
        123 :: tail = taken ++ rest := by
  apply (run_entries_of_key_iff typeContent_takes).trans
  apply Iff.intro
  · intro h
    rcases h with ⟨texts, taken, htext, hsteps, heq⟩
    obtain ⟨entries, hentries, hvalues, hfound⟩ := entries_of_steps_typeEntry hsteps
    refine ⟨taken, entries, valueWithin_object_iff.2 ⟨texts, htext, hentries⟩, ⟨?_, ?_⟩, heq⟩
    · rcases hfound with ⟨-, h⟩ | ⟨-, kind', hkind, h⟩
      · cases h
      · cases h
        exact hkind
    · rw [hvalues, List.append_nil, List.reverse_reverse]
  · intro h
    rcases h with ⟨taken, entries, hvalue, ⟨hkind, hvalues⟩, heq⟩
    obtain ⟨texts, htext, hentries⟩ := valueWithin_object_iff.1 hvalue
    refine ⟨texts, taken, htext, steps_typeEntry_of_entries hentries ?_ ?_, heq⟩
    · rw [← Form.entries.inj hvalues, List.append_nil, List.reverse_reverse]
    · exact .inr ⟨rfl, kind, hkind, rfl⟩

/-- The items of a tree are read as a record exactly when they are one. -/
theorem recordOfItems_readings_iff {kind : Kind} {trees : List Json} {type : GoType} :
    Reading.recordOfItems kind.record (itemReadings trees) = .ok type ↔
      IsRecord (.variant kind) (fun _ => True) Json.meaning (.items trees) type := by
  apply (Reading.recordOfItems_eq_ok_iff (.variant kind)).trans
  rw [← isRecord_map_iff (.variant kind), ← isRecord_map_iff (.variant kind) Json.meaning]
  simp only [Form.map, map_itemReadings, itemMeanings_eq_map]

theorem recordOfEntries_readings_iff (shape : Shape) {entries : List (String × Json)}
    {value : shape.target.Value} :
    Reading.recordOfEntries shape.record (entryReadings entries) = .ok value ↔
      IsRecord shape (fun _ => True) Json.meaning (.entries entries) value := by
  apply (Reading.recordOfEntries_eq_ok_iff shape).trans
  rw [← isRecord_map_iff shape, ← isRecord_map_iff shape Json.meaning]
  simp only [Form.map, map_entryReadings, entryMeanings_eq_map]

/-- A type is taken before any rest. -/
theorem typeValue_takes (levels : Nat) :
    Takes (fun _ => True) (typeValue levels) (TypeText levels) := by
  refine Takes.of_peek (fun {b tail type rest} _ h => ?_) fun {taken type rest} htaken _ => ?_
  · split at h
    · next hb =>
        obtain ⟨found, middle, henter, hlast⟩ := run_bind_eq_ok.1 h
        obtain ⟨hlevels, hitems⟩ := run_enter_eq_ok_iff.1 henter
        obtain ⟨levels, rfl⟩ := Nat.exists_eq_succ_of_ne_zero (Nat.ne_of_gt hlevels)
        cases found with
        | none => cases hlast
        | some found =>
            rcases found with ⟨kind, collected⟩
            obtain ⟨hrecord, rfl⟩ := run_ofExcept_eq_ok.1 hlast
            obtain ⟨taken, hvalue, heq⟩ := run_typeItems_eq_ok_iff.1 hitems
            refine ⟨taken,
              ⟨.items (.string kind.name :: collected.reverse), hvalue.1, hvalue.2, ?_⟩,
              by rw [hb, heq]⟩
            exact ⟨_, _, kind, ⟨_, rfl, rfl⟩, rfl, recordOfItems_readings_iff.1 hrecord⟩
    split at h
    · next hb =>
        obtain ⟨⟨found, collected⟩, middle, henter, hlast⟩ := run_bind_eq_ok.1 h
        obtain ⟨hlevels, hentries⟩ := run_enter_eq_ok_iff.1 henter
        obtain ⟨levels, rfl⟩ := Nat.exists_eq_succ_of_ne_zero (Nat.ne_of_gt hlevels)
        cases found with
        | none => cases hlast
        | some kind =>
            obtain ⟨hrecord, rfl⟩ := run_ofExcept_eq_ok.1 hlast
            obtain ⟨taken, entries, hvalue, htagged, heq⟩ := run_typeEntries_eq_ok_iff.1 hentries
            refine ⟨taken, ⟨.entries entries, hvalue.1, hvalue.2, ?_⟩, by rw [hb, heq]⟩
            exact ⟨_, _, kind, htagged, rfl,
              (recordOfEntries_readings_iff (.variant kind)).1 hrecord⟩
    · exact absurd h run_mismatch_ne_ok
  · rcases htaken with ⟨form, hvalue, hdepth, tag, others, kind, htagged, rfl, hrecord⟩
    cases form with
    | items trees =>
        rcases htagged with ⟨trees, rfl, rfl⟩
        have hlevels : 0 < levels := Nat.lt_of_lt_of_le (Nat.succ_pos _) hdepth
        obtain ⟨levels, rfl⟩ := Nat.exists_eq_succ_of_ne_zero (Nat.ne_of_gt hlevels)
        obtain ⟨texts, ⟨inside, hmembers, rfl⟩, -⟩ := valueWithin_array_iff.1 ⟨hvalue, hdepth⟩
        refine ⟨91, inside, by decide, rfl, ?_⟩
        rw [if_pos rfl]
        refine run_bind_eq_ok.2 ⟨some (kind, trees.reverse), rest,
          run_enter_eq_ok_iff.2 ⟨hlevels, run_typeItems_eq_ok_iff.2 ⟨91 :: inside, ?_, rfl⟩⟩, ?_⟩
        · rw [List.reverse_reverse]
          exact ⟨hvalue, hdepth⟩
        · refine run_ofExcept_eq_ok.2 ⟨recordOfItems_readings_iff.2 ?_, rfl⟩
          rwa [List.reverse_reverse]
    | entries entries =>
        have hlevels : 0 < levels := Nat.lt_of_lt_of_le (Nat.succ_pos _) hdepth
        obtain ⟨levels, rfl⟩ := Nat.exists_eq_succ_of_ne_zero (Nat.ne_of_gt hlevels)
        rcases htagged with ⟨hkind, rfl⟩
        obtain ⟨texts, ⟨_, inside, _, _, rfl⟩, -⟩ := valueWithin_object_iff.1 ⟨hvalue, hdepth⟩
        refine ⟨123, inside, by decide, rfl, ?_⟩
        rw [if_neg (by decide), if_pos rfl]
        refine run_bind_eq_ok.2
          ⟨(some kind, (entries.filter fun entry => entry.1 ≠ kindKey).reverse), rest,
            run_enter_eq_ok_iff.2 ⟨hlevels, run_typeEntries_eq_ok_iff.2
              ⟨_, entries, ⟨hvalue, hdepth⟩, ⟨hkind, ?_⟩, rfl⟩⟩, ?_⟩
        · rw [List.reverse_reverse]
        · refine run_ofExcept_eq_ok.2 ⟨(recordOfEntries_readings_iff (.variant kind)).2 ?_, rfl⟩
          rwa [List.reverse_reverse]

end Types

section WellFormed

variable {means : Bytes → Meaning}

/-- The values of a record are well formed, known or not. -/
theorem IsRecord.wellFormed {shape : Shape} {form : Form Bytes} {value : shape.target.Value}
    (h : IsRecord shape WellFormed means form value)
    (hmeans : ∀ {text target value}, means text target value → WellFormed text) :
    ∀ member ∈ form.members shape.keys, WellFormed member.2 := by
  intro member hmember
  by_cases hkey : member.1 ∈ shape.keys
  · obtain ⟨slot, -, -, found, hfound⟩ := exists_meaning_of_describes shape h.known hmember hkey
    exact hmeans hfound
  · exact h.unknown member hmember hkey

/-- An array or object of well-formed values is well formed. -/
theorem FormText.wellFormed (keys : List String) {form : Form Bytes} {text : Bytes}
    (htext : FormText form text) (hfits : form.Fits keys)
    (hmembers : ∀ member ∈ form.members keys, WellFormed member.2) : WellFormed text := by
  cases form with
  | items values =>
      refine .array htext fun item hitem => ?_
      have hlength : values.length ≤ keys.length := hfits
      rw [← List.map_snd_zip hlength] at hitem
      obtain ⟨member, hmember, rfl⟩ := List.mem_map.1 hitem
      exact hmembers member hmember
  | entries members =>
      rcases htext with ⟨texts, htext, hsame⟩
      have hentry (entry : Bytes × Bytes) (hentry : entry ∈ texts) :
          LooseString entry.1 ∧ WellFormed entry.2 := by
        obtain ⟨member, hmember, hkey, hvalue⟩ := exists_related_of_mem hsame.flip hentry
        refine ⟨hkey.loose, ?_⟩
        rw [hvalue]
        exact hmembers member hmember
      exact .object htext (fun entry h => (hentry entry h).1) fun entry h => (hentry entry h).2

theorem RecordText.wellFormed {levels : Nat} {shape : Shape} {text : Bytes}
    {value : shape.target.Value} (h : RecordText levels means shape text value)
    (hmeans : ∀ {text target value}, means text target value → WellFormed text) :
    WellFormed text := by
  rcases h with ⟨-, form, htext, hrecord⟩
  exact FormText.wellFormed _ htext hrecord.fits (IsRecord.wellFormed hrecord hmeans)

theorem textMeaning_wellFormed {levels : Nat}
    (hmeans : ∀ {text target value}, means text target value → WellFormed text) {text : Bytes}
    {target : Target} {value : target.Value} (h : textMeaning levels means text target value) :
    WellFormed text := by
  induction target with
  | text => exact .string (StringText.loose h)
  | kind => exact .string (StringText.loose h)
  | type =>
      rcases h with ⟨form, htext, -⟩
      exact htext.wellFormed
  | parameter => exact RecordText.wellFormed h hmeans
  | method => exact RecordText.wellFormed h hmeans
  | interface => exact RecordText.wellFormed h hmeans
  | package => exact RecordText.wellFormed h hmeans
  | sequence target =>
      rcases h with ⟨-, items, htext, hitems⟩
      refine .array htext fun item hitem => ?_
      obtain ⟨value, -, hvalue⟩ := exists_related_of_mem hitems hitem
      exact hmeans hvalue
  | optional target ih =>
      rcases h with ⟨rfl, -⟩ | ⟨-, present, -, hpresent⟩
      · exact .null
      · exact ih hpresent
  | int64 | dir | unit | field =>
      rcases h with ⟨tree, htext, -⟩
      exact htext.wellFormed

theorem TextMeans.wellFormed {levels : Nat} {text : Bytes} {target : Target}
    {value : target.Value} (h : TextMeans levels text target value) : WellFormed text := by
  induction levels generalizing text target value with
  | zero => exact textMeaning_wellFormed (fun h => h.elim) h
  | succ levels ih => exact textMeaning_wellFormed ih h

end WellFormed

section Targets

variable {α : Type} {relation : Bytes → α → Prop}

theorem sequence_takes {levels : Nat} {item : Reader α} (hitem : Takes Ends item relation)
    (hstart : ∀ {text value}, relation text value → ∃ b tail, text = b :: tail ∧ IsValueStart b) :
    Takes (fun _ => True) (sequence levels item) fun text values =>
      0 < levels ∧ ∃ items, ArrayText items text ∧ List.Forall₂ relation items values := by
  refine Takes.of_peek (fun {b tail values rest} _ h => ?_) fun {taken values rest} htaken _ => ?_
  · split at h
    · next hb =>
        obtain ⟨collected, middle, henter, hlast⟩ := run_bind_eq_ok.1 h
        cases hlast
        obtain ⟨hlevels, hitems⟩ := run_enter_eq_ok_iff.1 henter
        obtain ⟨items, taken, htext, hvalues, heq⟩ :=
          (run_items_collecting_iff hitem hstart).1 hitems
        exact ⟨taken, ⟨hlevels, items, htext, hvalues⟩, by rw [hb, heq]⟩
    · exact absurd h run_mismatch_ne_ok
  · rcases htaken with ⟨hlevels, items, htext, hvalues⟩
    obtain ⟨inside, -, rfl⟩ := id htext
    refine ⟨91, inside, by decide, rfl, ?_⟩
    rw [if_pos rfl]
    refine run_bind_eq_ok.2 ⟨values.reverse, rest, run_enter_eq_ok_iff.2 ⟨hlevels,
      run_items_of_arrayText hitem hstart htext hvalues rest⟩, ?_⟩
    rw [List.reverse_reverse]
    rfl

/-- A well-formed text with the first letter of `null` is that word. -/
theorem eq_nullText_of_wellFormed {tail : Bytes} (h : WellFormed (110 :: tail)) :
    110 :: tail = nullText := by
  generalize htext : 110 :: tail = text at h
  cases h with
  | null => rfl
  | true => cases htext
  | false => cases htext
  | number hnumber =>
      obtain ⟨b, tail', rfl, hb⟩ := exists_cons_of_numberText hnumber
      cases htext
      rcases hb with hb | hb
      · cases hb
      · simp [isDigit] at hb
  | string hstring =>
      rcases hstring with ⟨inside, -, rfl⟩
      cases htext
  | array harray _ =>
      rcases harray with ⟨inside, -, rfl⟩
      cases htext
  | object hobject _ _ =>
      rcases hobject with ⟨_, inside, -, -, rfl⟩
      cases htext

theorem optional_takes {follow : Bytes → Prop} {present : Reader α}
    (hpresent : Takes follow present relation)
    (hwell : ∀ {text value}, relation text value → WellFormed text) :
    Takes follow (optional present) fun text found =>
      text = nullText ∧ found = none ∨
        text ≠ nullText ∧ ∃ value, found = some value ∧ relation text value := by
  refine Takes.of_peek (fun {b tail found rest} hb h => ?_)
    fun {taken found rest} htaken hrest => ?_
  · split at h
    · obtain ⟨_, middle, hword, hlast⟩ := run_bind_eq_ok.1 h
      cases hlast
      exact ⟨nullText, .inl ⟨rfl, rfl⟩, run_word_eq_ok.1 hword⟩
    · next hne =>
        obtain ⟨value, middle, hvalue, hlast⟩ := run_bind_eq_ok.1 h
        cases hlast
        obtain ⟨blank, taken, hblank, htaken, htext⟩ := hpresent.sound hvalue
        cases blank with
        | nil =>
            refine ⟨taken, .inr ⟨?_, value, rfl, htaken⟩, htext⟩
            rintro rfl
            exact hne (List.cons.inj htext).1
        | cons c blank =>
            have hc := hblank.isBlank List.mem_cons_self
            rw [← (List.cons.inj htext).1, hb] at hc
            cases hc
  · rcases htaken with ⟨rfl, rfl⟩ | ⟨hne, value, rfl, htaken⟩
    · refine ⟨110, [117, 108, 108], by decide, rfl, ?_⟩
      rw [if_pos rfl]
      exact run_bind_eq_ok.2 ⟨(), rest, run_word_eq_ok.2 rfl, rfl⟩
    · obtain ⟨b, tail, rfl, hb⟩ := (hwell htaken).start
      have hletter : b ≠ 110 := by
        rintro rfl
        exact hne (eq_nullText_of_wellFormed (hwell htaken))
      refine ⟨b, tail, hb.ne.1, rfl, ?_⟩
      rw [if_neg hletter]
      exact run_bind_eq_ok.2 ⟨value, rest, hpresent.complete Blank.nil htaken hrest, rfl⟩

end Targets

section Stream

variable {levels : Nat} {inner : (target : Target) → Reader target.Value} {means : Bytes → Meaning}

/-- Each target is read as its texts mean, given that of the targets one level further in. -/
theorem targetValue_takes
    (hinner : ∀ target, Takes Ends (inner target) fun text value => means text target value)
    (hwell : ∀ {text target value}, means text target value → WellFormed text) (target : Target) :
    Takes Ends (targetValue levels inner target) fun text value =>
      textMeaning levels means text target value := by
  have hmeans : Functional means := fun _ _ _ _ h => (hinner _).functional ends_nil h
  have hrecord (shape : Shape) :
      Takes Ends (recordValue shape.record (fun slot => inner slot.target) levels)
        (RecordText levels means shape) :=
    (recordValue_takes shape (fun slot => hinner slot.target) (fun h => (hwell h).start) hmeans
      levels).weaken
  induction target with
  | text => exact text_takes.weaken
  | kind => exact kindName_takes.weaken
  | type => exact (typeValue_takes levels).weaken
  | parameter => exact hrecord .parameter
  | method => exact hrecord .method
  | interface => exact hrecord .interface
  | package => exact hrecord .package
  | sequence target => exact (sequence_takes (hinner target) fun h => (hwell h).start).weaken
  | optional target ih => exact optional_takes ih fun h => textMeaning_wellFormed hwell h
  | int64 => exact reading_takes levels .int64
  | dir => exact reading_takes levels .dir
  | unit => exact reading_takes levels .unit
  | field => exact reading_takes levels .field

/-- Nothing is taken past the last level. -/
theorem tooDeep_takes {α : Type} {follow : Bytes → Prop} :
    Takes follow (malformed .tooDeep : Reader α) fun _ _ => False where
  sound h := by cases h
  complete _ h _ := h.elim

/-- Every target is read exactly from the texts that mean a value of it. -/
theorem stream_takes (levels : Nat) (target : Target) :
    Takes Ends (stream levels target) fun text value => TextMeans levels text target value := by
  induction levels generalizing target with
  | zero => exact targetValue_takes (fun _ => tooDeep_takes) (fun h => h.elim) target
  | succ levels ih => exact targetValue_takes ih TextMeans.wellFormed target

theorem functional_textMeans (levels : Nat) : Functional (TextMeans levels) :=
  fun _ _ _ _ h => (stream_takes levels _).functional ends_nil h

/-- A package is read before any rest. -/
theorem stream_package_takes (levels : Nat) :
    Takes (fun _ => True) (stream levels .package) fun text value =>
      TextMeans levels text .package value := by
  cases levels with
  | zero =>
      let nothing : Bytes → Meaning := fun _ _ _ => False
      have hdeep (slot : Slot) : Takes Ends (malformed .tooDeep : Reader slot.Value)
          fun text value => nothing text slot.target value := tooDeep_takes
      exact recordValue_takes .package hdeep (fun h => h.elim) (fun _ _ _ _ h => h.elim) 0
  | succ levels =>
      exact recordValue_takes .package (fun slot => stream_takes levels slot.target)
        (fun h => (TextMeans.wellFormed h).start) (functional_textMeans levels) (levels + 1)

end Stream

end InterfaceProbe.Reader
