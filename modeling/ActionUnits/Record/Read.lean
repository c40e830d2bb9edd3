import ActionUnits.Record.Decode
import ActionUnits.Record.Format
import ActionUnits.Record.Json
import ActionUnits.Record.Toml.Document

/-!
# Records from texts

A JSON text is read only as far as the record needs it, so that a fault of the record is found
before a fault of the text behind it. A TOML text is read as a whole before it is taken for a record.
-/

namespace ActionUnits.Record

def ofJson {δ ρ : Type} (schema : Schema δ ρ) (text : String) : Decoded ρ := do
  let (data, complete) := Json.read text
  let record ← data.asRecord true schema
  if complete then return record else throw .malformed

def ofToml {δ ρ : Type} (schema : Schema δ ρ) (text : String) : Decoded ρ :=
  match Toml.read? text with
  | some data => data.asRecord false schema
  | none => .error .malformed

/-- Reads a record from the text of a file. The schema depends on whether lists must have exactly
the fields of a record, which is so in JSON. -/
def ofText {δ ρ : Type} (schema : Bool → Schema δ ρ) (format : ConfigFormat) (path text : String) :
    Except Error ρ :=
  match format with
  | .json => (ofJson (schema true) text).mapError (Error.invalidJson path)
  | .toml => (ofToml (schema false) text).mapError (Error.invalidToml path)

end ActionUnits.Record
