import ActionUnits.Text.Quoted

/-!
# Settings of emitters
-/

namespace ActionUnits

/-- What an emitter may be told. -/
structure EmitConfig where
  /-- Whether generated types get documentation. -/
  generateDocs : Bool := true
  /-- Further traits that generated types derive, as source text. -/
  extraDerives : List String := []

namespace EmitConfig

/-- How diagnostics show settings. -/
def debug (config : EmitConfig) : String :=
  let derives := ", ".intercalate (config.extraDerives.map Text.Quoted.debug)
  "EmitterConfig \x7b generate_docs: " ++ toString config.generateDocs ++
    ", extra_derives: [" ++ derives ++ "] \x7d"

end EmitConfig

end ActionUnits
