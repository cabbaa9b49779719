/-
# The grammar of JSON texts

Which bytes are a JSON text, said without a reader.  A text is related to what
it denotes: `StringText` to a string, `NumberText` to the parts of a literal,
`ValueText` to a tree.  `WellFormed` asks for the grammar alone and leaves open
whether escapes form Unicode text and whether a number has a value.

Containers are described by the texts of their members, so one description of
brackets, commas and white space serves every relation that reads the members
in its own way.
-/

import InterfaceProbe.Wire.Frame
import Mathlib.Algebra.Ring.Int.Defs
import Mathlib.Data.List.Forall2

namespace InterfaceProbe.Grammar

/-- White space: blanks, tabs, line feeds and carriage returns. -/
def Blank (text : Bytes) : Prop := ∀ b ∈ text, b = 32 ∨ b = 9 ∨ b = 10 ∨ b = 13

/-- A text with white space around it. -/
def Padded (inside text : Bytes) : Prop :=
  ∃ before after, Blank before ∧ Blank after ∧ text = before ++ (inside ++ after)

section Containers

/-- What follows a member of a container: further members, each after a comma, and the end. -/
inductive Further (close : UInt8) : List Bytes → Bytes → Prop
  | close {blank : Bytes} : Blank blank → Further close [] (blank ++ [close])
  | comma {before after member text : Bytes} {members : List Bytes} :
      Blank before → Blank after → Further close members text →
      Further close (member :: members) (before ++ 44 :: (after ++ (member ++ text)))

/-- What follows the opening byte of a container: its members and the closing byte. -/
inductive Members (close : UInt8) : List Bytes → Bytes → Prop
  | none {blank : Bytes} : Blank blank → Members close [] (blank ++ [close])
  | some {blank member text : Bytes} {members : List Bytes} :
      Blank blank → Further close members text →
      Members close (member :: members) (blank ++ (member ++ text))

/-- An array with items of the given texts. -/
def ArrayText (items : List Bytes) (text : Bytes) : Prop :=
  ∃ inside, Members 93 items inside ∧ text = 91 :: inside

/-- An entry of an object, given the texts of its key and its value. -/
def EntryText (entry : Bytes × Bytes) (text : Bytes) : Prop :=
  ∃ before after, Blank before ∧ Blank after ∧
    text = entry.1 ++ (before ++ 58 :: (after ++ entry.2))

/-- An object with entries whose keys and values have the given texts. -/
def ObjectText (entries : List (Bytes × Bytes)) (text : Bytes) : Prop :=
  ∃ texts inside, List.Forall₂ EntryText entries texts ∧ Members 125 texts inside ∧
    text = 123 :: inside

end Containers

section Strings

/-- A hexadecimal digit of either case. -/
def HexDigit (b : UInt8) (n : Nat) : Prop :=
  n < 10 ∧ b.toNat = 48 + n ∨
    10 ≤ n ∧ n < 16 ∧ (b.toNat = 87 + n ∨ b.toNat = 55 + n)

/-- Four hexadecimal digits and the code unit they denote. -/
inductive HexQuad : Bytes → Nat → Prop
  | mk {a b c d : UInt8} {i j k l : Nat} :
      HexDigit a i → HexDigit b j → HexDigit c k → HexDigit d l →
      HexQuad [a, b, c, d] (((i * 16 + j) * 16 + k) * 16 + l)

/-- The escapes of one letter, each with the byte it stands for. -/
inductive ShortEscape : (letter : UInt8) → (byte : UInt8) → Prop
  | quote : ShortEscape 34 34
  | backslash : ShortEscape 92 92
  | slash : ShortEscape 47 47
  | backspace : ShortEscape 98 8
  | formFeed : ShortEscape 102 12
  | lineFeed : ShortEscape 110 10
  | carriageReturn : ShortEscape 114 13
  | tab : ShortEscape 116 9

/-- A byte that stands for itself in a string: neither a control character nor special. -/
def IsPlain (b : UInt8) : Prop := 32 ≤ b.toNat ∧ b ≠ 34 ∧ b ≠ 92

/-- A smallest part of a string's text, with the bytes it stands for.  Escaped surrogates stand
for a code point in pairs only. -/
inductive Piece : Bytes → Bytes → Prop
  | plain {b : UInt8} : IsPlain b → Piece [b] [b]
  | short {letter b : UInt8} : ShortEscape letter b → Piece [92, letter] [b]
  | unit {digits : Bytes} {n : Nat} :
      HexQuad digits n → ¬ (0xD800 ≤ n ∧ n ≤ 0xDFFF) →
      Piece (92 :: 117 :: digits) (String.utf8EncodeChar (Char.ofNat n))
  | pair {leading trailing : Bytes} {high low : Nat} :
      HexQuad leading (0xD800 + high) → HexQuad trailing (0xDC00 + low) →
      high < 0x400 → low < 0x400 →
      Piece (92 :: 117 :: (leading ++ 92 :: 117 :: trailing))
        (String.utf8EncodeChar (Char.ofNat (0x10000 + high * 0x400 + low)))

/-- A run of pieces and the bytes they stand for. -/
inductive Pieces : Bytes → Bytes → Prop
  | nil : Pieces [] []
  | cons {text bytes texts rest : Bytes} :
      Piece text bytes → Pieces texts rest → Pieces (text ++ texts) (bytes ++ rest)

/-- A string literal, quotes included, and the string it denotes. -/
def StringText (text : Bytes) (value : String) : Prop :=
  ∃ inside, Pieces inside (utf8 value) ∧ text = 34 :: (inside ++ [34])

/-- A run of pieces that need not form Unicode text. -/
inductive LoosePieces : Bytes → Prop
  | nil : LoosePieces []
  | plain {b : UInt8} {text : Bytes} : IsPlain b → LoosePieces text → LoosePieces (b :: text)
  | short {letter b : UInt8} {text : Bytes} :
      ShortEscape letter b → LoosePieces text → LoosePieces (92 :: letter :: text)
  | unit {digits text : Bytes} {n : Nat} :
      HexQuad digits n → LoosePieces text → LoosePieces (92 :: 117 :: (digits ++ text))

/-- A string literal by the grammar alone. -/
def LooseString (text : Bytes) : Prop :=
  ∃ inside, LoosePieces inside ∧ text = 34 :: (inside ++ [34])

end Strings

section Numbers

/-- The bytes of decimal digits. -/
def digitBytes (digits : List Nat) : Bytes := digits.map fun digit => UInt8.ofNat (48 + digit)

/-- At least one digit, all of them decimal. -/
def IsNumeral (digits : List Nat) : Prop := digits ≠ [] ∧ ∀ digit ∈ digits, digit < 10

/-- A fraction, or nothing. -/
inductive FractionText : Bytes → Option (List Nat) → Prop
  | none : FractionText [] none
  | some {digits : List Nat} :
      IsNumeral digits → FractionText (46 :: digitBytes digits) (some digits)

/-- The sign of an exponent, which may be left out, and whether it is minus. -/
inductive SignText : Bytes → Bool → Prop
  | none : SignText [] false
  | plus : SignText [43] false
  | minus : SignText [45] true

/-- An exponent, or nothing. -/
inductive ExponentText : Bytes → Option (Bool × List Nat) → Prop
  | none : ExponentText [] none
  | some {letter : UInt8} {sign : Bytes} {negative : Bool} {digits : List Nat} :
      letter = 101 ∨ letter = 69 → SignText sign negative → IsNumeral digits →
      ExponentText (letter :: (sign ++ digitBytes digits)) (some (negative, digits))

/-- A number literal and its parts.  Only a lone digit before the point may be zero. -/
inductive NumberText : Bytes → NumberLiteral → Prop
  | mk {negative : Bool} {whole : List Nat} {fraction : Option (List Nat)}
      {exponent : Option (Bool × List Nat)} {fractionText exponentText : Bytes} :
      IsNumeral whole → (whole.head? = some 0 → whole = [0]) →
      FractionText fractionText fraction → ExponentText exponentText exponent →
      NumberText
        ((if negative then [45] else []) ++ (digitBytes whole ++ (fractionText ++ exponentText)))
        ⟨negative, whole, fraction, exponent⟩

/-- Digits without a fraction and an exponent are a number. -/
theorem IsNumeral.numberText {whole : List Nat} (h : IsNumeral whole)
    (hzero : whole.head? = some 0 → whole = [0]) (negative : Bool) :
    NumberText ((if negative then [45] else []) ++ digitBytes whole)
      ⟨negative, whole, none, none⟩ := by
  have htext : NumberText ((if negative then [45] else []) ++ (digitBytes whole ++ ([] ++ [])))
      ⟨negative, whole, none, none⟩ := .mk h hzero .none .none
  rwa [List.append_nil, List.append_nil] at htext

end Numbers

/-- The literal denotes an integer of 64 bits, signed or unsigned: it has neither a fraction nor
an exponent and is not minus zero. -/
structure Denotes (literal : NumberLiteral) (n : Int) : Prop where
  fraction : literal.fraction = none
  exponent : literal.exponent = none
  value : n = if literal.negative then -(Decimal.ofDigits literal.whole : Int)
    else Decimal.ofDigits literal.whole
  not_minus_zero : literal.negative = true → n ≠ 0
  range : -2 ^ 63 ≤ n ∧ n < 2 ^ 64

/-- A JSON value, white space around it not included, and the tree it denotes. -/
inductive ValueText : Bytes → Json → Prop
  | null : ValueText [110, 117, 108, 108] .null
  | true : ValueText [116, 114, 117, 101] (.bool true)
  | false : ValueText [102, 97, 108, 115, 101] (.bool false)
  | integer {text : Bytes} {literal : NumberLiteral} {n : Int} :
      NumberText text literal → Denotes literal n → ValueText text (.number (.integer n))
  | real {text : Bytes} {literal : NumberLiteral} {x : Decimal.Binary64} :
      NumberText text literal → literal.value = .ok (.real x) → ValueText text (.number (.real x))
  | string {text : Bytes} {value : String} : StringText text value → ValueText text (.string value)
  | array {text : Bytes} {texts : List Bytes} {items : List Json} :
      ArrayText texts text → texts.length = items.length →
      (∀ item ∈ texts.zip items, ValueText item.1 item.2) → ValueText text (.array items)
  | object {text : Bytes} {texts : List (Bytes × Bytes)} {entries : List (String × Json)} :
      ObjectText texts text → texts.length = entries.length →
      (∀ entry ∈ texts.zip entries, StringText entry.1.1 entry.2.1) →
      (∀ entry ∈ texts.zip entries, ValueText entry.1.2 entry.2.2) →
      ValueText text (.object entries)

/-- A JSON value by the grammar alone, white space around it not included. -/
inductive WellFormed : Bytes → Prop
  | null : WellFormed [110, 117, 108, 108]
  | true : WellFormed [116, 114, 117, 101]
  | false : WellFormed [102, 97, 108, 115, 101]
  | number {text : Bytes} {literal : NumberLiteral} : NumberText text literal → WellFormed text
  | string {text : Bytes} : LooseString text → WellFormed text
  | array {text : Bytes} {items : List Bytes} :
      ArrayText items text → (∀ item ∈ items, WellFormed item) → WellFormed text
  | object {text : Bytes} {entries : List (Bytes × Bytes)} :
      ObjectText entries text → (∀ entry ∈ entries, LooseString entry.1) →
      (∀ entry ∈ entries, WellFormed entry.2) → WellFormed text

end InterfaceProbe.Grammar
