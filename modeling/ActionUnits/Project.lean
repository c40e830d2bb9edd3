import ActionUnits.Generator
import ActionUnits.Load

/-!
# Generating modules

All units of a module, each from the files that its binding names. A module is generated as a whole
or not at all.
-/

namespace ActionUnits.Generator

def generateBinding (generator : Generator) (fs : FileSystem) (module : ModuleDef)
    (base : FilePath) (binding : Binding) : Logged Failure GeneratedUnit := do
  let files ← (fs.resolve base binding.configFiles).mapError .reported
  let set ← (fs.loadSets files).mapError .reported
  generator.generateUnit set module binding.name

/-- Generates the units of a module. Its files are seen from the given folder. -/
def generate (generator : Generator) (fs : FileSystem) (module : ModuleDef) (base : FilePath) :
    Logged Failure (List GeneratedUnit) :=
  Logged.forEach (generator.generateBinding fs module base) module.bindings

/-- Generates the units of a module that is read from a file. Its files are seen from the folder of
that file. -/
def generateFromFile (generator : Generator) (fs : FileSystem) (path : FilePath) :
    Logged Failure (List GeneratedUnit) := do
  let module ← (fs.loadModule path).mapError .reported
  generator.generate fs module (path.parent?.getD ⟨""⟩)

end ActionUnits.Generator
