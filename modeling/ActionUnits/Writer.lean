import ActionUnits.Files.System
import ActionUnits.Generator

/-!
# Writing generated units

Writes units below an output root, or only says what would be written, and compares units with the
files that are there. What was written before a failure stays.
-/

namespace ActionUnits

/-- What became of a unit. -/
inductive WriteResult where
  /-- The unit was written: where, and how many bytes. -/
  | written (path : FilePath) (bytes : Nat)
  /-- The unit was not written: what would be written where. -/
  | skipped (path : FilePath) (content : String)
deriving DecidableEq

/-- The state of a generated file. -/
inductive Freshness where
  | upToDate
  | stale
  | missing
deriving DecidableEq

def GeneratedUnit.destination (unit : GeneratedUnit) (root : FilePath) : FilePath :=
  root.join unit.path

/-- Writes units, unless it is a dry run. -/
structure Writer where
  dryRun : Bool

namespace Writer

/-- A failure that leaves a file system behind. -/
def failed {α : Type} (fs : FileSystem) (error : Error) : FileSystem × Logged Error α :=
  (fs, .ofExcept (.error error))

/-- Makes the folder of a path, if it does not exist. -/
def makeParent (fs : FileSystem) (path : FilePath) : FileSystem × Except Error Unit :=
  match path.parent? with
  | none => (fs, .ok ())
  | some parent =>
    if fs.exists? parent then (fs, .ok ())
    else
      let (fs, result) := fs.makeFolders parent
      (fs, result.mapError (Error.createDir parent.text))

def writeUnit (writer : Writer) (root : FilePath) (unit : GeneratedUnit) (fs : FileSystem) :
    FileSystem × Logged Error WriteResult :=
  let path := unit.destination root
  if writer.dryRun then (fs, ⟨.ok (.skipped path unit.content), [.skippedWrite path.text]⟩)
  else
    match makeParent fs path with
    | (fs, .error error) => failed fs error
    | (fs, .ok ()) =>
      match fs.write path unit.content.toUTF8 with
      | (fs, .error fault) => failed fs (.writeFile path.text fault)
      | (fs, .ok ()) =>
        (fs, ⟨.ok (.written path unit.content.utf8ByteSize), [.wroteUnit unit.name path.text]⟩)

/-- Writes units in order, up to the first failure. -/
def writeAll (writer : Writer) (root : FilePath) :
    List GeneratedUnit → FileSystem → FileSystem × Logged Error (List WriteResult)
  | [], fs => (fs, pure [])
  | unit :: units, fs =>
    let (fs, first) := writer.writeUnit root unit fs
    match first.result with
    | .error error => (fs, ⟨.error error, first.events⟩)
    | .ok result =>
      let (fs, rest) := writer.writeAll root units fs
      (fs, ⟨rest.result.map (result :: ·), first.events ++ rest.events⟩)

/-- Compares a unit with the file that is there; blanks around the content do not count. -/
def check (fs : FileSystem) (root : FilePath) (unit : GeneratedUnit) : Except Error Freshness := do
  let path := unit.destination root
  if !fs.exists? path then return .missing
  let existing ← (fs.read path).mapError (Error.readBack path.text)
  if Text.trimText existing == Text.trimText unit.content then return .upToDate else return .stale

end Writer

end ActionUnits
