import ActionUnits.Files.Path

/-!
# Module definitions

A module says which units are generated, from which files, and what they share.
-/

namespace ActionUnits

/-- A unit to be generated and the files that define its actions. -/
structure Binding where
  /-- The name of the unit. -/
  name : String
  /-- Paths or patterns of the files, seen from the module's directory. -/
  configFiles : List String
deriving DecidableEq

/-- The definition of a module. -/
structure ModuleDef where
  /-- The source text of the type that actions transform. -/
  datasetType : String
  /-- The package of the generated units, its segments separated by points. -/
  package : String
  imports : List String := []
  bindings : List Binding := []
deriving DecidableEq

namespace ModuleDef

def withImports (module : ModuleDef) (imports : List String) : ModuleDef :=
  { module with imports }

def addBinding (module : ModuleDef) (binding : Binding) : ModuleDef :=
  { module with bindings := module.bindings ++ [binding] }

/-- The segments of the package; the empty package has none. -/
def packageSegments (module : ModuleDef) : List String :=
  if module.package.isEmpty then []
  else (Text.splitAll '.' module.package.toList).map String.ofList

/-- Where a unit of the module is written, below the output root. -/
def filePath (module : ModuleDef) (unit extension : String) : FilePath :=
  let folder := module.packageSegments.foldl (fun path segment => FilePath.join path ⟨segment⟩) ⟨""⟩
  FilePath.join folder ⟨unit ++ "." ++ extension⟩

end ModuleDef

end ActionUnits
