import ActionUnits.Files.PatternFault
import ActionUnits.Source.Fragment

/-!
# Errors

Causes of failure, and their wording in one place. Where a fragment or a record does not read, the
cause is that it does not read: which token was unexpected is not part of an error.
-/

namespace ActionUnits

/-- The kinds of configured source fragments. -/
inductive FragmentKind where
  | paramType
  | paramName
  | expression
  | importDecl
  | datasetType
  | className
  | package
  | derive
deriving DecidableEq

/-- What a fragment is called in messages. -/
def FragmentKind.text : FragmentKind → String
  | .paramType => "parameter type"
  | .paramName => "parameter name"
  | .expression => "body expression"
  | .importDecl => "import"
  | .datasetType => "dataset type"
  | .className => "class name"
  | .package => "package"
  | .derive => "derive path"

/-- The wording where the grammar alone decides that a text does not read. -/
def unreadText : String :=
  "<parser>"

/-- Why a fragment was refused. -/
inductive FragmentFault where
  /-- The text does not follow the grammar. -/
  | grammar
  /-- The text is no single identifier. -/
  | ident (fault : Source.IdentFault)
  /-- The name of a unit is also the name of its companion module. -/
  | collision (companion : Ident)
  /-- A reason in words. -/
  | stated (text : String)
deriving DecidableEq

/-- Why an identifier was refused. -/
def identFaultText : Source.IdentFault → String
  | .unreadable => "cannot parse string into token stream"
  | .empty => "unexpected end of input, expected identifier"
  | .keyword word => s!"expected identifier, found keyword `{word}`"
  | .notIdent => "expected identifier"
  | .trailing => "unexpected token"

/-- Why a fragment was refused. -/
def FragmentFault.text : FragmentFault → String
  | .grammar => unreadText
  | .ident fault => identFaultText fault
  | .collision companion => s!"unit name collides with its companion module `{companion.text}`"
  | .stated text => text

/-- Why a record was refused. -/
inductive RecordFault where
  /-- The text does not follow the format, or a value has the wrong shape. -/
  | malformed
  | missingField (name : String)
  | duplicateField (name : String)
  /-- A reason in words. -/
  | stated (text : String)
deriving DecidableEq

/-- Why a record was refused. -/
def RecordFault.text : RecordFault → String
  | .stated text => text
  | _ => unreadText

/-- The part of a record that was refused, where one can be named. -/
def RecordFault.detail? : RecordFault → Option String
  | .missingField name => some s!"missing field `{name}`"
  | .duplicateField name => some s!"duplicate field `{name}`"
  | _ => none

/-- Why the file system refused an operation. -/
inductive IoFault where
  | notFound
  | isDirectory
  | notDirectory
  | alreadyExists
  | permissionDenied
  | noSpace
  | invalidText
deriving DecidableEq

/-- The wording of a refusal by the file system. -/
def IoFault.text : IoFault → String
  | .notFound => "No such file or directory (os error 2)"
  | .isDirectory => "Is a directory (os error 21)"
  | .notDirectory => "Not a directory (os error 20)"
  | .alreadyExists => "File exists (os error 17)"
  | .permissionDenied => "Permission denied (os error 13)"
  | .noSpace => "No space left on device (os error 28)"
  | .invalidText => "stream did not contain valid UTF-8"

/-- Why a pattern was refused. -/
inductive PatternCause where
  | malformed (fault : PatternFault)
  /-- A reason in words. -/
  | stated (text : String)
deriving DecidableEq

/-- Why a pattern was refused. -/
def PatternCause.text : PatternCause → String
  | .malformed fault => fault.message
  | .stated text => text

/-- A failure. -/
inductive Error where
  /-- A configured source fragment does not read. -/
  | fragment (kind : FragmentKind) (owner source : String) (fault : FragmentFault)
  /-- A configuration file cannot be read. -/
  | read (path : String) (fault : IoFault)
  | invalidToml (path : String) (fault : RecordFault)
  | invalidJson (path : String) (fault : RecordFault)
  | unsupportedFormat (path : String)
  | invalidPattern (pattern : String) (cause : PatternCause)
  | noMatch (pattern : String)
  /-- A folder for a generated file cannot be made. -/
  | createDir (path : String) (fault : IoFault)
  | writeFile (path : String) (fault : IoFault)
  /-- A generated file cannot be read for comparison. -/
  | readBack (path : String) (fault : IoFault)
  /-- The tokens of a unit are no source file. -/
  | emit (unit : String) (fault : FragmentFault)
deriving DecidableEq

/-- How a computation ends that gives no result. -/
inductive Failure where
  /-- The caller is told of an error. -/
  | reported (error : Error)
  /-- The program ends. -/
  | crash
deriving DecidableEq

/-- The wording of a failure. -/
def Error.message : Error → String
  | .fragment kind owner source fault =>
    s!"Syntax error in {kind.text} of '{owner}': {fault.text}\n  source: {source}"
  | .read path fault => s!"Failed to read {path}: {fault.text}"
  | .invalidToml path fault => s!"Invalid TOML in {path}: {fault.text}"
  | .invalidJson path fault => s!"Invalid JSON in {path}: {fault.text}"
  | .unsupportedFormat path => s!"Unsupported configuration format: {path}"
  | .invalidPattern pattern cause =>
    s!"Invalid config file pattern '{pattern}': {cause.text}"
  | .noMatch pattern => s!"No config files match '{pattern}'"
  | .createDir path fault => s!"Failed to create directory {path}: {fault.text}"
  | .writeFile path fault => s!"Failed to write file {path}: {fault.text}"
  | .readBack path fault => s!"Failed to read file {path}: {fault.text}"
  | .emit unit fault => s!"Generated code for '{unit}' is not a valid source file: {fault.text}"

end ActionUnits
