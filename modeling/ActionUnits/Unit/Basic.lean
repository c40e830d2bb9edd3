import ActionUnits.Unit.Package
import ActionUnits.Unit.Registry

/-!
# Source units
-/

namespace ActionUnits

/-- A generated source unit: its fragments have been read, so it can always be written as tokens. -/
structure SourceUnit where
  /-- The name as configured. -/
  name : String
  package : Option Package
  imports : List (Source.Fragment Source.Import)
  /-- The module that holds the generated types. -/
  companion : Ident
  classes : List ClassDecl
  registry : Registry

end ActionUnits
