/-
# Reading containers against the grammar

The loops over items and entries, for any reader of one member.  `Steps` is a
run of the state along the texts of the members; a loop succeeds exactly when
its text is `Members` and its state has run along them.  Loops that collect
what they read are a special case, in which the run says what each member was
read as.
-/

import InterfaceProbe.Proofs.Json.WellFormed

namespace InterfaceProbe.Reader

open Grammar

/-- A run of the state, one step for each member. -/
inductive Steps {σ τ : Type} (step : σ → τ → σ → Prop) : σ → List τ → σ → Prop
  | nil {state : σ} : Steps step state [] state
  | cons {first second third : σ} {member : τ} {members : List τ} :
      step first member second → Steps step second members third →
      Steps step first (member :: members) third

section Steps

variable {σ τ υ : Type}

/-- Steps that put what they read in front of what was collected. -/
def Collects (relation : τ → υ → Prop) (collected : List υ) (member : τ)
    (collected' : List υ) : Prop :=
  ∃ value, relation member value ∧ collected' = value :: collected

theorem steps_collects_iff {relation : τ → υ → Prop} {collected result : List υ}
    {members : List τ} :
    Steps (Collects relation) collected members result ↔
      ∃ values, List.Forall₂ relation members values ∧ result = values.reverse ++ collected := by
  apply Iff.intro
  · intro h
    induction h with
    | nil => exact ⟨[], .nil, rfl⟩
    | cons hstep _ ih =>
        rcases hstep with ⟨value, hvalue, rfl⟩
        rcases ih with ⟨values, hvalues, rfl⟩
        exact ⟨value :: values, .cons hvalue hvalues, by simp⟩
  · intro h
    rcases h with ⟨values, hvalues, rfl⟩
    induction hvalues generalizing collected with
    | nil => exact .nil
    | cons hvalue _ ih =>
        refine .cons ⟨_, hvalue, rfl⟩ ?_
        rw [List.reverse_cons, List.append_assoc]
        exact ih

theorem steps_congr {step other : σ → τ → σ → Prop}
    (h : ∀ state member state', step state member state' ↔ other state member state')
    {state result : σ} {members : List τ} :
    Steps step state members result ↔ Steps other state members result := by
  have hsame : step = other := by
    funext state member state'
    exact propext (h state member state')
  rw [hsame]

/-- Steps along texts that are seen through to what the texts are made of. -/
theorem steps_exists_iff {step : σ → υ → σ → Prop} {relation : υ → τ → Prop} {state result : σ}
    {texts : List τ} :
    Steps (fun state text state' => ∃ member, relation member text ∧ step state member state')
        state texts result ↔
      ∃ members, List.Forall₂ relation members texts ∧ Steps step state members result := by
  apply Iff.intro
  · intro h
    induction h with
    | nil => exact ⟨[], .nil, .nil⟩
    | cons hstep _ ih =>
        rcases hstep with ⟨member, hmember, hstep⟩
        rcases ih with ⟨members, hmembers, hsteps⟩
        exact ⟨member :: members, .cons hmember hmembers, .cons hstep hsteps⟩
  · intro h
    rcases h with ⟨members, hmembers, hsteps⟩
    induction hmembers generalizing state with
    | nil =>
        cases hsteps
        exact .nil
    | cons hmember _ ih =>
        cases hsteps with
        | cons hstep hsteps => exact .cons ⟨_, hmember, hstep⟩ (ih hsteps)

end Steps

section Takes

variable {α β : Type} {follow : Bytes → Prop} {relation : Bytes → α → Prop}

/-- What is made of a value that was read. -/
theorem Takes.map {reader : Reader α} (h : Takes follow reader relation) (f : α → β) :
    Takes follow (do return f (← reader))
      (fun text value => ∃ a, relation text a ∧ value = f a) where
  sound hrun := by
    obtain ⟨a, middle, hreader, hpure⟩ := run_bind_eq_ok.1 hrun
    cases hpure
    obtain ⟨blank, taken, hblank, htaken, htext⟩ := h.sound hreader
    exact ⟨blank, taken, hblank, ⟨a, htaken, rfl⟩, htext⟩
  complete hblank htaken hfollow := by
    rcases htaken with ⟨a, htaken, rfl⟩
    rw [run_bind_of_ok (h.complete hblank htaken hfollow)]
    rfl

end Takes

/-- What follows a member of a container ends a number. -/
theorem ends_of_further {close : UInt8} (hclose : close = 93 ∨ close = 125)
    {members : List Bytes} {text : Bytes} (h : Further close members text) (rest : Bytes) :
    Ends (text ++ rest) := by
  cases h with
  | close hblank =>
      rw [List.append_assoc]
      exact ends_blank_cons hblank (.inr (.inr hclose)) _
  | comma hbefore _ _ =>
      rw [List.append_assoc]
      exact ends_blank_cons hbefore (.inl rfl) _

section Items

variable {σ : Type} {step : σ → Reader σ} {relation : σ → Bytes → σ → Prop}

theorem itemsFrom_of_bracket {state : σ} {text rest : Bytes} (h : skipBlank text = 93 :: rest) :
    itemsFrom step state text = .ok (state, rest) := by
  rw [itemsFrom]
  split
  · next hskip => cases hskip.symm.trans h
  · next hskip =>
      cases hskip.symm.trans h
      rfl

/-- Behind a comma an item is read and then the others. -/
theorem itemsFrom_eq_of_comma {state : σ} {text tail : Bytes} (h : skipBlank text = 44 :: tail)
    {b : UInt8} (hb : b ∈ (skipBlank tail).head?) (hb' : b ≠ 93) :
    itemsFrom step state text =
      match (step state).run tail with
      | .error fault => .error fault
      | .ok (state', rest) => itemsFrom step state' rest := by
  rw [itemsFrom]
  split
  · next hskip => cases hskip.symm.trans h
  · next hskip =>
      cases hskip.symm.trans h
      simp only [show (44 : UInt8) ≠ 93 by decide, if_false, if_true]
      split
      · next hempty => simp [hempty] at hb
      · next hfirst =>
          rw [hfirst] at hb
          cases hb
          rw [if_neg hb']
          split
          · next hrun => rw [hrun]
          · next hrun => rw [hrun]

theorem itemsFrom_of_comma {state state' : σ} {text tail rest : Bytes}
    (h : skipBlank text = 44 :: tail) {b : UInt8} (hb : b ∈ (skipBlank tail).head?) (hb' : b ≠ 93)
    (hstep : (step state).run tail = .ok (state', rest)) :
    itemsFrom step state text = itemsFrom step state' rest := by
  rw [itemsFrom_eq_of_comma h hb hb', hstep]

theorem itemsFrom_sound (hstep : ∀ state, Takes Ends (step state) (relation state))
    {state result : σ} {text rest : Bytes} (h : itemsFrom step state text = .ok (result, rest)) :
    ∃ items taken, Further 93 items taken ∧ Steps relation state items result ∧
      text = taken ++ rest := by
  fun_induction itemsFrom step state text with
  | case1 | case3 | case4 | case5 | case7 => cases h
  | case2 state text tail hskip =>
      cases h
      obtain ⟨blank, hblank, rfl⟩ := exists_of_skipBlank_eq_cons hskip
      exact ⟨[], blank ++ [93], .close hblank, .nil, by simp⟩
  | case6 state text tail _ _ _ _ state' rest' hrun hskip _ ih =>
      obtain ⟨before, hbefore, rfl⟩ := exists_of_skipBlank_eq_cons hskip
      obtain ⟨after, item, hafter, hitem, rfl⟩ := (hstep state).sound hrun
      obtain ⟨items, taken, htaken, hsteps, rfl⟩ := ih h
      exact ⟨item :: items, _, .comma hbefore hafter htaken, .cons hitem hsteps, by simp⟩

theorem itemsFrom_of_further (hstep : ∀ state, Takes Ends (step state) (relation state))
    (hstart : ∀ {state item state'}, relation state item state' →
      ∃ b tail, item = b :: tail ∧ IsValueStart b)
    {state result : σ} {items : List Bytes} {text : Bytes} (htext : Further 93 items text)
    (hsteps : Steps relation state items result) (rest : Bytes) :
    itemsFrom step state (text ++ rest) = .ok (result, rest) := by
  induction htext generalizing state with
  | close hblank =>
      cases hsteps
      rw [List.append_assoc]
      exact itemsFrom_of_bracket (skipBlank_blank_cons hblank (by decide) rest)
  | @comma before after item text items hbefore hafter hfurther ih =>
      cases hsteps with
      | cons hitem hsteps =>
          obtain ⟨b, tail, rfl, hb⟩ := hstart hitem
          have hrun := (hstep _).complete hafter hitem (ends_of_further (.inl rfl) hfurther rest)
          rw [← ih hsteps, List.append_assoc, List.cons_append, List.append_assoc,
            List.append_assoc]
          refine itemsFrom_of_comma (skipBlank_blank_cons hbefore (by decide) _) ?_
            hb.ne.2.2.2.1 hrun
          rw [List.cons_append, skipBlank_blank_cons hafter hb.ne.1]
          rfl

/-- The items of an array are read behind its bracket exactly when they stand there and the state
runs along them. -/
theorem run_items_eq_ok_iff (hstep : ∀ state, Takes Ends (step state) (relation state))
    (hstart : ∀ {state item state'}, relation state item state' →
      ∃ b tail, item = b :: tail ∧ IsValueStart b)
    {state result : σ} {text rest : Bytes} :
    (items step state).run text = .ok (result, rest) ↔
      ∃ items taken, Members 93 items taken ∧ Steps relation state items result ∧
        text = taken ++ rest := by
  apply Iff.intro
  · intro h
    simp only [items] at h
    split at h
    · cases h
    · next b tail hskip =>
        obtain ⟨blank, hblank, rfl⟩ := exists_of_skipBlank_eq_cons hskip
        split at h
        · next hb =>
            cases h
            exact ⟨[], blank ++ [93], .none hblank, .nil, by simp [hb]⟩
        · split at h
          · cases h
          · next state' middle hrun =>
              obtain ⟨after, item, hafter, hitem, htext⟩ := (hstep state).sound hrun
              obtain ⟨items, taken, htaken, hsteps, rfl⟩ := itemsFrom_sound hstep h
              exact ⟨item :: items, _, .some (hblank.append hafter) htaken, .cons hitem hsteps,
                by simp [htext]⟩
  · intro h
    rcases h with ⟨members, taken, hmembers, hsteps, rfl⟩
    cases hmembers with
    | none hblank =>
        cases hsteps
        rw [List.append_assoc]
        simp only [items, List.cons_append,
          skipBlank_blank_cons hblank (by decide : isBlank 93 = false), if_true, List.nil_append]
    | @some blank item text members hblank hfurther =>
        cases hsteps with
        | cons hitem hsteps =>
            obtain ⟨b, tail, rfl, hb⟩ := hstart hitem
            have hrun := (hstep _).complete Blank.nil hitem
              (ends_of_further (.inl rfl) hfurther rest)
            rw [List.nil_append, List.cons_append] at hrun
            rw [List.append_assoc, List.append_assoc, List.cons_append]
            simp only [items, skipBlank_blank_cons hblank hb.ne.1, if_neg hb.ne.2.2.2.1, hrun]
            exact itemsFrom_of_further hstep hstart hfurther hsteps rest

end Items

section Entries

/-- The reader of an entry takes exactly the texts of the relation, before anything that ends a
number.  It is only asked about texts that start with a quote. -/
structure TakesEntry {α : Type} (entry : Reader α) (relation : Bytes → α → Prop) : Prop where
  sound : ∀ {blank tail value rest}, Blank blank →
    entry.run (blank ++ 34 :: tail) = .ok (value, rest) →
    ∃ taken, relation taken value ∧ 34 :: tail = taken ++ rest
  complete : ∀ {blank taken value rest}, Blank blank → relation taken value → Ends rest →
    entry.run (blank ++ (taken ++ rest)) = .ok (value, rest)
  start : ∀ {taken value}, relation taken value → ∃ tail, taken = 34 :: tail

variable {σ : Type} {entry : σ → Reader σ} {relation : σ → Bytes → σ → Prop}

theorem entriesFrom_of_brace {state : σ} {text rest : Bytes} (h : skipBlank text = 125 :: rest) :
    entriesFrom entry state text = .ok (state, rest) := by
  rw [entriesFrom]
  split
  · next hskip => cases hskip.symm.trans h
  · next hskip =>
      cases hskip.symm.trans h
      rfl

/-- Behind a comma an entry is read and then the others. -/
theorem entriesFrom_eq_of_comma {state : σ} {text tail : Bytes}
    (h : skipBlank text = 44 :: tail) (hquote : (skipBlank tail).head? = some 34) :
    entriesFrom entry state text =
      match (entry state).run tail with
      | .error fault => .error fault
      | .ok (state', rest) => entriesFrom entry state' rest := by
  rw [entriesFrom]
  split
  · next hskip => cases hskip.symm.trans h
  · next hskip =>
      cases hskip.symm.trans h
      simp only [show (44 : UInt8) ≠ 125 by decide, if_false, if_true]
      split
      · next hempty => simp [hempty] at hquote
      · next hfirst =>
          rw [hfirst] at hquote
          cases hquote
          rw [if_pos rfl]
          split
          · next hrun => rw [hrun]
          · next hrun => rw [hrun]

theorem entriesFrom_of_comma {state state' : σ} {text tail rest : Bytes}
    (h : skipBlank text = 44 :: tail) (hquote : (skipBlank tail).head? = some 34)
    (hentry : (entry state).run tail = .ok (state', rest)) :
    entriesFrom entry state text = entriesFrom entry state' rest := by
  rw [entriesFrom_eq_of_comma h hquote, hentry]

theorem entriesFrom_sound (hentry : ∀ state, TakesEntry (entry state) (relation state))
    {state result : σ} {text rest : Bytes}
    (h : entriesFrom entry state text = .ok (result, rest)) :
    ∃ entries taken, Further 125 entries taken ∧ Steps relation state entries result ∧
      text = taken ++ rest := by
  fun_induction entriesFrom entry state text with
  | case1 | case3 | case4 | case6 | case7 | case8 => cases h
  | case2 state text tail hskip =>
      cases h
      obtain ⟨blank, hblank, rfl⟩ := exists_of_skipBlank_eq_cons hskip
      exact ⟨[], blank ++ [125], .close hblank, .nil, by simp⟩
  | case5 state text tail inside state' rest' hrun hskip _ hquote ih =>
      obtain ⟨before, hbefore, rfl⟩ := exists_of_skipBlank_eq_cons hskip
      obtain ⟨after, hafter, rfl⟩ := exists_of_skipBlank_eq_cons hquote
      obtain ⟨member, hmember, htext⟩ := (hentry state).sound hafter hrun
      obtain ⟨entries, taken, htaken, hsteps, rfl⟩ := ih h
      exact ⟨member :: entries, _, .comma hbefore hafter htaken, .cons hmember hsteps,
        by simp [htext]⟩

theorem entriesFrom_of_further (hentry : ∀ state, TakesEntry (entry state) (relation state))
    {state result : σ} {entries : List Bytes} {text : Bytes} (htext : Further 125 entries text)
    (hsteps : Steps relation state entries result) (rest : Bytes) :
    entriesFrom entry state (text ++ rest) = .ok (result, rest) := by
  induction htext generalizing state with
  | close hblank =>
      cases hsteps
      rw [List.append_assoc]
      exact entriesFrom_of_brace (skipBlank_blank_cons hblank (by decide) rest)
  | @comma before after member text entries hbefore hafter hfurther ih =>
      cases hsteps with
      | cons hmember hsteps =>
          obtain ⟨tail, rfl⟩ := (hentry _).start hmember
          have hrun := (hentry _).complete hafter hmember
            (ends_of_further (.inr rfl) hfurther rest)
          rw [← ih hsteps, List.append_assoc, List.cons_append, List.append_assoc,
            List.append_assoc]
          refine entriesFrom_of_comma (skipBlank_blank_cons hbefore (by decide) _) ?_ hrun
          rw [List.cons_append, skipBlank_blank_cons hafter (by decide)]
          rfl

/-- The entries of an object are read behind its brace exactly when they stand there and the
state runs along them. -/
theorem run_entries_eq_ok_iff (hentry : ∀ state, TakesEntry (entry state) (relation state))
    {state result : σ} {text rest : Bytes} :
    (entries entry state).run text = .ok (result, rest) ↔
      ∃ entries taken, Members 125 entries taken ∧ Steps relation state entries result ∧
        text = taken ++ rest := by
  apply Iff.intro
  · intro h
    simp only [entries] at h
    split at h
    · cases h
    · next b tail hskip =>
        obtain ⟨blank, hblank, rfl⟩ := exists_of_skipBlank_eq_cons hskip
        split at h
        · next hb =>
            cases h
            exact ⟨[], blank ++ [125], .none hblank, .nil, by simp [hb]⟩
        · split at h
          · next hquote =>
              split at h
              · cases h
              · next state' middle hrun =>
                  subst hquote
                  obtain ⟨member, hmember, htext⟩ := (hentry state).sound Blank.nil hrun
                  obtain ⟨entries, taken, htaken, hsteps, rfl⟩ := entriesFrom_sound hentry h
                  exact ⟨member :: entries, _, .some hblank htaken, .cons hmember hsteps,
                    by simp [htext]⟩
          · cases h
  · intro h
    rcases h with ⟨members, taken, hmembers, hsteps, rfl⟩
    cases hmembers with
    | none hblank =>
        cases hsteps
        rw [List.append_assoc]
        simp only [entries, List.cons_append,
          skipBlank_blank_cons hblank (by decide : isBlank 125 = false), if_true, List.nil_append]
    | @some blank member text members hblank hfurther =>
        cases hsteps with
        | cons hmember hsteps =>
            obtain ⟨tail, rfl⟩ := (hentry _).start hmember
            have hrun := (hentry _).complete Blank.nil hmember
              (ends_of_further (.inr rfl) hfurther rest)
            rw [List.nil_append, List.cons_append] at hrun
            rw [List.append_assoc, List.append_assoc, List.cons_append]
            simp only [entries, skipBlank_blank_cons hblank (by decide : isBlank 34 = false),
              show (34 : UInt8) ≠ 125 by decide, if_false, if_true, hrun]
            exact entriesFrom_of_further hentry hfurther hsteps rest

end Entries

end InterfaceProbe.Reader
