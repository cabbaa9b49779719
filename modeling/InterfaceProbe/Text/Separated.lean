/-
# Texts with a separator between neighbours

The one way in which lists are written in this library: the texts in order,
with the separator between neighbours and nowhere else.
-/

namespace InterfaceProbe

/-- The texts in order, with `separator` between neighbours. -/
def separated (separator : String) : List String → String
  | [] => ""
  | [text] => text
  | text :: next :: rest => text ++ separator ++ separated separator (next :: rest)

end InterfaceProbe
