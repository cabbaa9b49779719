/-
# Indented texts

A value is written with every member on a line of its own or without any blanks.
White space is all that tells the two texts apart.  The indented text denotes the
value as well, and without its layout it is the compact text, byte for byte.

Layout is the white space outside of string literals.  To take it out one has to know
of JSON no more than where a literal ends, so the scanner that does it reads texts
that are not JSON too.  Decimals of rounded numbers are left out, as they are for
compact texts.
-/

import InterfaceProbe.Proofs.Wire.CompactForm

namespace InterfaceProbe

open Grammar Reader

section Scanning

/-- Where in a text a byte stands: outside of literals, inside of one, or right behind the
backslash of an escape. -/
inductive Side
  | outside | inside | escaped
  deriving DecidableEq

/-- Where the next byte stands. -/
def Side.next : Side → UInt8 → Side
  | .outside, b => if b = 34 then .inside else .outside
  | .inside, b => if b = 34 then .outside else if b = 92 then .escaped else .inside
  | .escaped, _ => .inside

/-- The text without the white space outside of its literals. -/
def withoutLayout (side : Side) : Bytes → Bytes
  | [] => []
  | b :: rest =>
    if side = .outside ∧ Reader.isBlank b = true then withoutLayout side rest
    else b :: withoutLayout (side.next b) rest

/-- Without its layout the text is the other one, and it ends outside of literals. -/
def ReducesTo (text reduced : Bytes) : Prop :=
  ∀ rest, withoutLayout .outside (text ++ rest) = reduced ++ withoutLayout .outside rest

variable {text reduced other otherReduced : Bytes}

theorem ReducesTo.withoutLayout (h : ReducesTo text reduced) :
    withoutLayout .outside text = reduced := by
  have hall := h []
  rwa [List.append_nil, InterfaceProbe.withoutLayout, List.append_nil] at hall

theorem ReducesTo.append (h : ReducesTo text reduced) (hother : ReducesTo other otherReduced) :
    ReducesTo (text ++ other) (reduced ++ otherReduced) := by
  intro rest
  rw [List.append_assoc, h, hother, List.append_assoc]

theorem reducesTo_blank (h : Blank text) : ReducesTo text [] := by
  intro rest
  induction text with
  | nil => rfl
  | cons b text ih =>
      obtain ⟨hb, htext⟩ := List.forall_mem_cons.1 h
      rw [List.cons_append, InterfaceProbe.withoutLayout, if_pos ⟨rfl, isBlank_iff.2 hb⟩]
      exact ih htext

/-- Bytes that are neither white space nor quotes stay. -/
theorem reducesTo_solid (h : ∀ b ∈ text, Reader.isBlank b = false ∧ b ≠ 34) :
    ReducesTo text text := by
  intro rest
  induction text with
  | nil => rfl
  | cons b text ih =>
      obtain ⟨⟨hblank, hquote⟩, htext⟩ := List.forall_mem_cons.1 h
      rw [List.cons_append, InterfaceProbe.withoutLayout, if_neg (by simp [hblank]), Side.next,
        if_neg hquote, ih htext]
      rfl

theorem reducesTo_byte (b : UInt8) (hblank : Reader.isBlank b = false) (hquote : b ≠ 34) :
    ReducesTo [b] [b] :=
  reducesTo_solid (List.forall_mem_singleton.2 ⟨hblank, hquote⟩)

theorem withoutLayout_inside {b : UInt8} (hquote : b ≠ 34) (hbackslash : b ≠ 92) (rest : Bytes) :
    withoutLayout .inside (b :: rest) = b :: withoutLayout .inside rest := by
  simp [withoutLayout, Side.next, hquote, hbackslash]

theorem withoutLayout_escape (letter : UInt8) (rest : Bytes) :
    withoutLayout .inside (92 :: letter :: rest) = 92 :: letter :: withoutLayout .inside rest := by
  simp [withoutLayout, Side.next]

theorem ne_special_of_hexDigit {b : UInt8} {n : Nat} (h : HexDigit b n) : b ≠ 34 ∧ b ≠ 92 := by
  have hvalue : b.toNat ≠ 34 ∧ b.toNat ≠ 92 := by
    rcases h with ⟨hn, hb⟩ | ⟨hn, hn', hb | hb⟩ <;> omega
  exact ⟨fun h => hvalue.1 (by rw [h]; rfl), fun h => hvalue.2 (by rw [h]; rfl)⟩

/-- What stands inside of a literal stays. -/
theorem withoutLayout_loosePieces (h : LoosePieces text) (rest : Bytes) :
    withoutLayout .inside (text ++ rest) = text ++ withoutLayout .inside rest := by
  induction h with
  | nil => rfl
  | plain hb _ ih =>
      rw [List.cons_append, withoutLayout_inside hb.2.1 hb.2.2, ih]
      rfl
  | short _ _ ih =>
      rw [List.cons_append, List.cons_append, withoutLayout_escape, ih]
      rfl
  | unit hdigits _ ih =>
      cases hdigits with
      | mk ha hb hc hd =>
          obtain ⟨haquote, haslash⟩ := ne_special_of_hexDigit ha
          obtain ⟨hbquote, hbslash⟩ := ne_special_of_hexDigit hb
          obtain ⟨hcquote, hcslash⟩ := ne_special_of_hexDigit hc
          obtain ⟨hdquote, hdslash⟩ := ne_special_of_hexDigit hd
          simp only [List.cons_append, List.nil_append, withoutLayout_escape,
            withoutLayout_inside haquote haslash, withoutLayout_inside hbquote hbslash,
            withoutLayout_inside hcquote hcslash, withoutLayout_inside hdquote hdslash, ih]

theorem reducesTo_string (h : LooseString text) : ReducesTo text text := by
  intro rest
  rcases h with ⟨inside, hinside, rfl⟩
  have hopen : withoutLayout .outside (34 :: (inside ++ [34]) ++ rest) =
      34 :: withoutLayout .inside (inside ++ 34 :: rest) := by
    simp [withoutLayout, Side.next, Reader.isBlank]
  have hclose : withoutLayout .inside (34 :: rest) = 34 :: withoutLayout .outside rest := by
    simp [withoutLayout, Side.next]
  rw [hopen, withoutLayout_loosePieces hinside, hclose]
  simp

theorem reducesTo_intercalate {separator separatorReduced : Bytes} {texts others : List Bytes}
    (hseparator : ReducesTo separator separatorReduced)
    (h : List.Forall₂ ReducesTo texts others) :
    ReducesTo (separator.intercalate texts) (separatorReduced.intercalate others) := by
  induction h with
  | nil => exact fun _ => rfl
  | @cons text other texts others htext hrest ih =>
      cases hrest with
      | nil => simpa using htext
      | cons _ _ =>
          rw [List.intercalate_cons_cons, List.intercalate_cons_cons, List.append_assoc,
            List.append_assoc]
          exact htext.append (hseparator.append ih)

end Scanning

section Lines

variable {opening closing : String} {level : Nat} {close : UInt8}

theorem blank_lineBreak (level : Nat) : Blank (utf8 (Json.lineBreak level)) := by
  intro b hb
  rw [Json.lineBreak, utf8_append, utf8_ofList (List.replicate _ _), List.mem_append,
    List.mem_flatMap] at hb
  rcases hb with hb | ⟨c, hc, hb⟩
  · obtain rfl := List.mem_singleton.1 hb
    exact .inr (.inr (.inl rfl))
  · obtain rfl := List.eq_of_mem_replicate hc
    obtain rfl := List.mem_singleton.1 hb
    exact .inl rfl

/-- The members of a container on lines of their own. -/
theorem utf8_bracketed {members : List String} (h : members ≠ []) :
    utf8 (Json.bracketed opening closing level members) =
      utf8 opening ++ (utf8 (Json.lineBreak (level + 1)) ++
        ((44 :: utf8 (Json.lineBreak (level + 1))).intercalate (members.map utf8) ++
          (utf8 (Json.lineBreak level) ++ utf8 closing))) := by
  obtain ⟨first, rest, rfl⟩ := List.exists_cons_of_ne_nil h
  simp only [Json.bracketed, utf8_append, utf8_separated, List.append_assoc]
  rfl

variable (opening level) in
/-- Members on lines of their own are the members of a container. -/
theorem exists_members_of_bracketed (hclose : utf8 closing = [close]) (members : List String) :
    ∃ inside, Members close (members.map utf8) inside ∧
      utf8 (Json.bracketed opening closing level members) = utf8 opening ++ inside := by
  cases members with
  | nil => exact ⟨[close], .none Blank.nil, by rw [Json.bracketed, utf8_append, hclose]⟩
  | cons first rest =>
      obtain ⟨text, htext, heq⟩ := exists_further_of_intercalate (blank_lineBreak (level + 1))
        (blank_lineBreak level) close (utf8 first) (rest.map utf8)
      refine ⟨_, .some (blank_lineBreak (level + 1)) htext, ?_⟩
      rw [utf8_bracketed (List.cons_ne_nil _ _), hclose, List.map_cons, heq]

/-- Without their lines the members stand between the brackets with commas between them. -/
theorem reducesTo_bracketed {members others : List String}
    (hopening : ReducesTo (utf8 opening) (utf8 opening))
    (hclosing : ReducesTo (utf8 closing) (utf8 closing))
    (h : List.Forall₂ (fun member other => ReducesTo (utf8 member) (utf8 other)) members others) :
    ReducesTo (utf8 (Json.bracketed opening closing level members))
      (utf8 (opening ++ separated "," others ++ closing)) := by
  have hcompact : utf8 (opening ++ separated "," others ++ closing) =
      utf8 opening ++
        ([] ++ ((44 :: []).intercalate (others.map utf8) ++ ([] ++ utf8 closing))) := by
    simp only [utf8_append, utf8_separated, List.append_assoc]
    rfl
  rw [hcompact]
  cases members with
  | nil =>
      cases h
      rw [Json.bracketed, utf8_append]
      exact hopening.append hclosing
  | cons first rest =>
      have hcomma : ReducesTo (44 :: utf8 (Json.lineBreak (level + 1))) [44] :=
        (reducesTo_byte 44 (by decide) (by decide)).append (reducesTo_blank (blank_lineBreak _))
      have hmembers : List.Forall₂ ReducesTo ((first :: rest).map utf8) (others.map utf8) := by
        rwa [List.forall₂_map_left_iff, List.forall₂_map_right_iff]
      rw [utf8_bracketed (List.cons_ne_nil _ _)]
      exact hopening.append ((reducesTo_blank (blank_lineBreak _)).append
        ((reducesTo_intercalate hcomma hmembers).append
          ((reducesTo_blank (blank_lineBreak _)).append hclosing)))

end Lines

section Values

variable {tree : Json}

theorem indented_array (level : Nat) (items : List Json) :
    (Json.array items).indented level =
      Json.bracketed "[" "]" level (items.map (Json.indented (level + 1))) := by
  rw [Json.indented, Json.indentedItems_eq_map]

theorem indented_object (level : Nat) (entries : List (String × Json)) :
    (Json.object entries).indented level = Json.bracketed "\x7b" "\x7d" level
      (entries.map fun entry => quoted entry.1 ++ ": " ++ entry.2.indented (level + 1)) := by
  rw [Json.indented, Json.indentedEntries_eq_map]

/-- The indented text of a plain value denotes the value. -/
theorem Plain.valueText_indented (h : Plain tree) (level : Nat) :
    ValueText (utf8 (tree.indented level)) tree := by
  induction h generalizing level with
  | string text => exact .string (stringText_quoted text)
  | int hlow hhigh => exact valueText_signedNumeral hlow hhigh
  | @array items _ ih =>
      have hclose : utf8 "]" = [93] := rfl
      obtain ⟨inside, hmembers, heq⟩ := exists_members_of_bracketed "[" level hclose
        (items.map (Json.indented (level + 1)))
      rw [indented_array, heq]
      refine .of_forall₂_items ⟨inside, hmembers, rfl⟩ ?_
      rw [List.map_map, List.forall₂_map_left_iff, List.forall₂_same]
      exact fun item hitem => ih item hitem (level + 1)
  | @object entries _ ih =>
      have hclose : utf8 "\x7d" = [125] := rfl
      obtain ⟨inside, hmembers, heq⟩ := exists_members_of_bracketed "\x7b" level hclose
        (entries.map fun entry => quoted entry.1 ++ ": " ++ entry.2.indented (level + 1))
      rw [indented_object, heq]
      have htext : ObjectText (entries.map fun entry =>
          (utf8 (quoted entry.1), utf8 (entry.2.indented (level + 1)))) (123 :: inside) := by
        refine ⟨_, inside, ?_, hmembers, rfl⟩
        rw [List.map_map, List.forall₂_map_left_iff, List.forall₂_map_right_iff, List.forall₂_same]
        intro entry _
        refine ⟨[], [32], Blank.nil, by simp [Blank], ?_⟩
        simp only [Function.comp_apply, utf8_append, List.append_assoc]
        rfl
      refine .of_forall₂_entries htext ?_
      rw [List.forall₂_map_left_iff, List.forall₂_same]
      exact fun entry hentry => ⟨stringText_quoted entry.1, ih entry hentry (level + 1)⟩

theorem reducesTo_quoted (text : String) :
    ReducesTo (utf8 (quoted text)) (utf8 (quoted text)) :=
  reducesTo_string (stringText_quoted text).loose

/-- Numerals have neither white space nor quotes. -/
theorem reducesTo_signedNumeral (n : Int) :
    ReducesTo (utf8 (Decimal.signedNumeral n)) (utf8 (Decimal.signedNumeral n)) := by
  have hdigit : ∀ digit < 10, Reader.isBlank (UInt8.ofNat (48 + digit)) = false ∧
      UInt8.ofNat (48 + digit) ≠ 34 := by decide
  refine reducesTo_solid fun b hb => ?_
  rw [utf8_signedNumeral, List.mem_append] at hb
  rcases hb with hb | hb
  · split at hb
    · obtain rfl := List.mem_singleton.1 hb
      decide
    · cases hb
  · obtain ⟨digit, hmem, rfl⟩ := List.mem_map.1 hb
    exact hdigit digit ((isNumeral_digitsOf _).2 digit hmem)

/-- Without its layout the indented text of a plain value is the compact one. -/
theorem Plain.reducesTo_indented (h : Plain tree) (level : Nat) :
    ReducesTo (utf8 (tree.indented level)) (utf8 tree.compact) := by
  induction h generalizing level with
  | string text => exact reducesTo_quoted text
  | int _ _ => exact reducesTo_signedNumeral _
  | @array items _ ih =>
      rw [indented_array, compact_array]
      refine reducesTo_bracketed (reducesTo_byte 91 (by decide) (by decide))
        (reducesTo_byte 93 (by decide) (by decide)) ?_
      rw [List.forall₂_map_left_iff, List.forall₂_map_right_iff, List.forall₂_same]
      exact fun item hitem => ih item hitem (level + 1)
  | @object entries _ ih =>
      rw [indented_object, compact_object]
      refine reducesTo_bracketed (reducesTo_byte 123 (by decide) (by decide))
        (reducesTo_byte 125 (by decide) (by decide)) ?_
      rw [List.map_map, List.forall₂_map_left_iff, List.forall₂_map_right_iff, List.forall₂_same]
      intro entry hentry
      have hcolon : ReducesTo (utf8 ": ") (utf8 ":") := fun _ => rfl
      simp only [Function.comp_apply, utf8_append]
      exact ((reducesTo_quoted entry.1).append hcolon).append (ih entry hentry (level + 1))

end Values

end InterfaceProbe
