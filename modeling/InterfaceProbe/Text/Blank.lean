/-
# Blanks

The characters that have the Unicode property White_Space, and the trimming of
texts at both ends.
-/

import InterfaceProbe.Text.CharRange

namespace InterfaceProbe

/-- The code points of blanks. -/
def blankRanges : List CharRange :=
  [(0x0009, 0x000D), (0x0020, 0x0020), (0x0085, 0x0085), (0x00A0, 0x00A0), (0x1680, 0x1680),
   (0x2000, 0x200A), (0x2028, 0x2029), (0x202F, 0x202F), (0x205F, 0x205F), (0x3000, 0x3000)]

/-- Whether the character is a blank. -/
def isBlank (c : Char) : Bool := inRanges blankRanges c

/-- The characters without those at either end that satisfy the condition. -/
def trimChars (condition : Char → Bool) (text : List Char) : List Char :=
  ((text.dropWhile condition).reverse.dropWhile condition).reverse

/-- The text without blanks at either end. -/
def withoutBlanks (text : String) : String := String.ofList (trimChars isBlank text.toList)

/-- The text without line feeds at either end. -/
def withoutLineFeeds (text : String) : String :=
  String.ofList (trimChars (fun c => c == '\n') text.toList)

end InterfaceProbe
