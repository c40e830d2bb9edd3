import ActionUnits.Files.Search
import ActionUnits.Logged
import ActionUnits.Record.Read

/-!
# Loading configuration files

Action sets and modules from files, and the files that a module's patterns name. Loading never
changes the file system.
-/

namespace ActionUnits.FileSystem

/-- Reads a record from a file. Its extension is looked at first, then its content. -/
def loadRecord {δ ρ : Type} (fs : FileSystem) (schema : Bool → Record.Schema δ ρ)
    (path : FilePath) : Except Error ρ := do
  let format ← ConfigFormat.ofPath path
  let text ← (fs.read path).mapError (Error.read path.text)
  Record.ofText schema format path.text text

def loadActions (fs : FileSystem) (path : FilePath) : Logged Error ActionSet := do
  let set ← .ofExcept (fs.loadRecord Record.setSchema path)
  .report [.loadedActions path.text set.size set.imports.length]
  return set

/-- Loads action sets and merges them into a set, from left to right. -/
def loadInto (fs : FileSystem) : ActionSet → List FilePath → Logged Error ActionSet
  | merged, [] => pure merged
  | merged, path :: paths => do
    let set ← fs.loadActions path
    let next := merged.merge set
    .report [.mergedActions merged.size set.size next.size]
    fs.loadInto next paths

/-- Loads action sets and merges them from left to right. -/
def loadSets (fs : FileSystem) (paths : List FilePath) : Logged Error ActionSet :=
  fs.loadInto .empty paths

def loadModule (fs : FileSystem) (path : FilePath) : Logged Error ModuleDef := do
  let module ← .ofExcept (fs.loadRecord Record.moduleSchema path)
  .report [.loadedModule path.text module.package module.bindings.length]
  return module

/-! ## Patterns -/

/-- The pattern that an entry stands for below a folder. The folder is taken as it is. -/
def patternBelow (base : FilePath) (entry : String) : Except PatternFault PathPattern :=
  PathPattern.parse ((FilePath.mk (PathPattern.escape base.text)).join ⟨entry⟩).text

/-- The files that an entry names, seen from a folder. A plain path names itself, whether it exists
or not; a pattern names the paths that match it, of which there must be one. -/
def resolveEntry (fs : FileSystem) (base : FilePath) (entry : String) :
    Logged Error (List FilePath) :=
  if PathPattern.isPattern entry then do
    let pattern ← .ofExcept ((patternBelow base entry).mapError fun fault =>
      Error.invalidPattern entry (.malformed fault))
    let found := fs.search pattern
    if found.isEmpty then .ofExcept (.error (.noMatch entry))
    .report [.expandedPattern entry found.length]
    return found
  else return [base.join ⟨entry⟩]

/-- The files that entries name, in the order of the entries. -/
def resolve (fs : FileSystem) (base : FilePath) (entries : List String) :
    Logged Error (List FilePath) := do
  let found ← Logged.forEach (fs.resolveEntry base) entries
  return found.flatten

end ActionUnits.FileSystem
