import ActionUnits.Emit.Emitter
import ActionUnits.Logged
import ActionUnits.Unit.Synthesis

/-!
# Generating units
-/

namespace ActionUnits

/-- A generated file. -/
structure GeneratedUnit where
  name : String
  /-- Where the file belongs, below the output root. -/
  path : FilePath
  content : String
deriving DecidableEq

/-- How units are generated. -/
structure Generator where
  emitter : Emitter := .rust
  config : EmitConfig := {}

namespace Generator

/-- How diagnostics show a generator. -/
def debug (generator : Generator) : String :=
  "ModuleGenerator \x7b emitter: " ++ Text.Quoted.debug generator.emitter.id ++ ", config: " ++
    generator.config.debug ++ " \x7d"

/-- Reads the fragments of a unit. Ids that occur more than once are reported. -/
def synthesize (set : ActionSet) (module : ModuleDef) (name : String) :
    Logged Error SourceUnit := do
  let unit ← .ofExcept (Synthesis.unit set module name)
  .report unit.registry.warnings
  return unit

def generateUnit (generator : Generator) (set : ActionSet) (module : ModuleDef) (name : String) :
    Logged Failure GeneratedUnit := do
  let unit ← (synthesize set module name).mapError .reported
  let content ← .ofExcept (generator.emitter.emit generator.config unit)
  let path := module.filePath name generator.emitter.extension
  .report [.generatedUnit name path.text set.size generator.emitter.id]
  return ⟨name, path, content⟩

end Generator

/-- The source text of an action set as a unit, with the default settings. -/
def ActionSet.code (set : ActionSet) (module : ModuleDef) (name : String) :
    Logged Failure String := do
  let unit ← Generator.generateUnit {} set module name
  return unit.content

end ActionUnits
