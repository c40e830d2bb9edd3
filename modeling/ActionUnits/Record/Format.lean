import ActionUnits.Error
import ActionUnits.Files.Path

/-!
# Formats of configuration files
-/

namespace ActionUnits

/-- A format of configuration files. -/
inductive ConfigFormat where
  | toml
  | json
deriving DecidableEq

namespace ConfigFormat

/-- The name of a format, which is also its file extension. -/
def name : ConfigFormat → String
  | .toml => "toml"
  | .json => "json"

def ofPath (path : FilePath) : Except Error ConfigFormat :=
  match path.extension? with
  | some "toml" => .ok .toml
  | some "json" => .ok .json
  | _ => .error (.unsupportedFormat path.text)

end ConfigFormat

end ActionUnits
