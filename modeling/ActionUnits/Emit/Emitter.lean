import ActionUnits.Emit.Tokens
import ActionUnits.Error
import ActionUnits.Print.File

/-!
# Emitters

An emitter turns a unit into text. Anything may be one; the emitter of source files and one that
only lists ids are given here.
-/

namespace ActionUnits

/-- A way to write units as text. -/
structure Emitter where
  /-- The short name of the emitter. -/
  id : String
  /-- The name of the emitter. -/
  name : String
  /-- The extension of generated files. -/
  extension : String
  /-- The text of a unit. -/
  emit : EmitConfig → SourceUnit → Except Failure String

namespace Emitter

/-- The text of the source file that tokens are. Tokens that are no file are refused, but a file
with a part that the printer has no rule for ends the program. -/
def sourceText (unit : String) (tokens : List Token) : Except Failure String :=
  match Source.readFile? tokens with
  | none => .error (.reported (.emit unit .grammar))
  | some file =>
    match Print.fileText? (Source.depthFor tokens) file.value with
    | some text => .ok text
    | none => .error .crash

/-- Source text of the generated types. -/
def rust : Emitter where
  id := "rust"
  name := "Rust Action Generator"
  extension := "rs"
  emit config unit := do
    sourceText unit.name (← (Emit.unitTokens config unit).mapError .reported)

/-- The ids of the actions, one per line. -/
def outline : Emitter where
  id := "outline"
  name := "Action Outline"
  extension := "txt"
  emit _ unit := .ok ("\n".intercalate (unit.registry.entries.map (·.discriminator)))

end Emitter

end ActionUnits
