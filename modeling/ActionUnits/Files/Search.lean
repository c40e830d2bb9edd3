import ActionUnits.Files.Pattern
import ActionUnits.Files.System

/-!
# Searching for paths

The paths of a file system that match a pattern, written as the pattern is: names where the pattern
has wildcards, and the pattern's own text elsewhere.
-/

namespace ActionUnits

def FilePath.isCurrent (path : FilePath) : Bool :=
  path.components == [.current]

/-- The path of a name in a folder. The current folder is not mentioned. -/
def FilePath.child (path : FilePath) (name : String) : FilePath :=
  if path.isCurrent then ⟨name⟩ else path.join ⟨name⟩

mutual

/-- The names and paths of everything below a folder. -/
def FileEntry.inside (path : FilePath) : FileEntry → List (String × FilePath)
  | .file _ => []
  | .folder entries => insideAll path entries

/-- The names and paths of entries of a folder and of everything below them. -/
def insideAll (path : FilePath) : List (String × FileEntry) → List (String × FilePath)
  | [] => []
  | (name, entry) :: entries =>
    (name, path.child name) :: entry.inside (path.child name) ++ insideAll path entries

end

namespace FileSystem

/-- The names in a folder. A path that denotes no folder has none. -/
def names (fs : FileSystem) (path : FilePath) : List String :=
  match fs.entry path with
  | .ok (.folder entries) => entries.map (·.1)
  | _ => []

/-- The names and paths of everything below a path. -/
def below (fs : FileSystem) (path : FilePath) : List (String × FilePath) :=
  match fs.entry path with
  | .ok entry => entry.inside path
  | .error _ => []

/-- The path that a literal component leads to. -/
def literal? (fs : FileSystem) (path : FilePath) (name : String) : Option FilePath :=
  let next := path.child name
  let found := if name == "." || name == ".." then fs.isFolder path else fs.exists? next
  if found then some next else none

/-- The paths in a folder that a component with wildcards leads to. -/
def wild (fs : FileSystem) (path : FilePath) (pattern : NamePattern) : List FilePath :=
  if fs.isFolder path then
    pattern.pointNames.map (fun name => path.join ⟨name⟩) ++
      ((fs.names path).filter pattern.matchName).map path.child
  else []

/-- The paths that components lead to. -/
def expand (fs : FileSystem) (foldersOnly : Bool) : List NamePattern → FilePath → List FilePath
  | [], path => if foldersOnly && !fs.isFolder path then [] else [path]
  | [.recursive], path => ((fs.below path).map (·.2)).filter fs.isFolder
  | .recursive :: pattern :: patterns, path =>
    ((fs.below path).filter fun found => pattern.matchName found.1).flatMap fun found =>
      expand fs foldersOnly patterns found.2
  | .literal name :: patterns, path =>
    (fs.literal? path name).toList.flatMap (expand fs foldersOnly patterns)
  | .wild wildcards :: patterns, path =>
    (fs.wild path (.wild wildcards)).flatMap (expand fs foldersOnly patterns)

/-- The paths that match a pattern, in the order of paths. -/
def search (fs : FileSystem) (pattern : PathPattern) : List FilePath :=
  let start : FilePath := if pattern.absolute then ⟨"/"⟩ else ⟨"."⟩
  (fs.expand pattern.foldersOnly pattern.names start).mergeSort fun a b => (a.compare b).isLE

end FileSystem

end ActionUnits
