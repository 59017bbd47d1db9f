import TypeDerivation.Derivation.Context
import TypeDerivation.Literal.Suffix

namespace TypeDerivation.Context

variable (c : Context)

/-- A number has the kind that its suffix names, or the default one. Byte strings have no type
here. -/
def literalType (l : Literal) : Ty :=
  match l.kind with
  | .int => ((Numeral.ofInt (c.tree.text l.text)).suffix.elim (.int c.settings.defaultInt) .ofNumeric)
  | .float =>
    ((Numeral.ofFloat (c.tree.text l.text)).suffix.elim (.float c.settings.defaultFloat) .ofNumeric)
  | .str => .str
  | .char => .char
  | .bool _ => .bool
  | .byte => .int .u8
  | .byteStr => .unknown

end TypeDerivation.Context
