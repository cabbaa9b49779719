/-
# Texts of lines

Every line ends in a line feed, the last one included.
-/

namespace InterfaceProbe

/-- The lines one after the other. -/
def asLines : List String → String
  | [] => ""
  | line :: rest => line ++ "\n" ++ asLines rest

theorem asLines_append (front back : List String) :
    asLines (front ++ back) = asLines front ++ asLines back := by
  induction front with
  | nil => simp [asLines]
  | cons line rest ih => simp [asLines, ih, String.append_assoc]

end InterfaceProbe
