import TypeDerivation.Settings.DepthLimit
import TypeDerivation.Ty.Primitive

namespace TypeDerivation

structure Settings where
  primitives : PrimitiveTable
  defaultInt : IntKind
  defaultFloat : FloatKind
  /-- How many requests may be open inside each other; no bound if absent. -/
  maxDepth : Option Nat

namespace Settings

def standard : Settings := ⟨.standard, .i32, .f64, none⟩

def maxDepthVariable : String := "RSTY_MAX_DEPTH"

/-- The standard settings with the depth that the variable asks for; a value that cannot be read
is ignored. -/
def ofVariable (value : Option String) : Settings :=
  match value.map DepthLimit.parse with
  | some (.ok limit) => { standard with maxDepth := limit }
  | _ => standard

def isStandard (s : Settings) : Bool :=
  s.primitives.isStandard && s.defaultInt = .i32 && s.defaultFloat = .f64 && s.maxDepth = none

end Settings
end TypeDerivation
