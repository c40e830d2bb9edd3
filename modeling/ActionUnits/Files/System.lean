import ActionUnits.Error
import ActionUnits.Files.Path
import ActionUnits.Files.Tree

/-!
# File systems

What paths denote and what can be done with them. A path is followed name by name; `.` and a repeated
slash stay where they are and `..` goes up, each only in a folder that exists.

There are no links, every name is text, and whatever exists can be read. Writes may meet faults that
the tree does not tell of, before a file is opened or half way through its content; making folders
fails only where the tree says so.
-/

namespace ActionUnits

/-- What can go wrong with a write. -/
inductive WriteFault where
  /-- The file cannot be opened. -/
  | refused (fault : IoFault)
  /-- No more of the content than its first bytes gets into the file. -/
  | cut (kept : Nat) (fault : IoFault)

/-- A file tree and the folder in which relative paths start. -/
structure FileSystem where
  tree : FileTree
  workFolder : Location
  /-- What the next writes meet; those after them meet no fault. -/
  faults : List (Option WriteFault) := []

namespace FileSystem

/-! ## Following paths -/

/-- Follows one part of a path. -/
def step (fs : FileSystem) (here : Location) (part : List Char) : Except IoFault Location :=
  match fs.tree.get? here with
  | none => .error .notFound
  | some (.file _) => .error .notDirectory
  | some (.folder _) =>
    if part.isEmpty || part == ['.'] then .ok here
    else if part == ['.', '.'] then .ok here.dropLast
    else .ok (here ++ [String.ofList part])

def start (fs : FileSystem) (path : FilePath) : Location :=
  if path.isAbsolute then [] else fs.workFolder

def follow (fs : FileSystem) (path : FilePath) (parts : List (List Char)) :
    Except IoFault Location :=
  if path.text.isEmpty then .error .notFound else parts.foldlM fs.step (fs.start path)

def entry (fs : FileSystem) (path : FilePath) : Except IoFault FileEntry := do
  match fs.tree.get? (← fs.follow path path.parts) with
  | some entry => .ok entry
  | none => .error .notFound

/-- Whether a path denotes a file or a folder. -/
def exists? (fs : FileSystem) (path : FilePath) : Bool :=
  (fs.entry path).isOk

def isFolder (fs : FileSystem) (path : FilePath) : Bool :=
  match fs.entry path with
  | .ok (.folder _) => true
  | _ => false

/-- Where a file or folder of a path would be made: in a folder that exists. -/
def place (fs : FileSystem) (path : FilePath) : Except IoFault Location :=
  fs.follow path (Text.dropTrailing List.isEmpty path.parts)

/-! ## Files -/

def read (fs : FileSystem) (path : FilePath) : Except IoFault String := do
  match ← fs.entry path with
  | .folder _ => throw .isDirectory
  | .file content =>
    match String.fromUTF8? content with
    | some text => return text
    | none => throw .invalidText

def put (fs : FileSystem) (location : Location) (entry : FileEntry) : FileSystem :=
  { fs with tree := fs.tree.put location entry }

/-- Where a path puts a file. A path that ends in a slash is no path of a file. -/
def fileTarget (fs : FileSystem) (path : FilePath) : Except IoFault Location := do
  let place ← fs.place path
  match fs.tree.get? place with
  | some (.folder _) => throw .isDirectory
  | _ => if path.text.toList.getLast? == some '/' then throw .isDirectory else return place

/-- Makes a file or replaces its content. Opening the file empties it, so a write that stops half
way leaves a beginning of the new content. -/
def write (fs : FileSystem) (path : FilePath) (content : ByteArray) :
    FileSystem × Except IoFault Unit :=
  match fs.fileTarget path with
  | .error fault => (fs, .error fault)
  | .ok place =>
    let later := { fs with faults := fs.faults.tail }
    match fs.faults.headD none with
    | none => (later.put place (.file content), .ok ())
    | some (.refused fault) => (later, .error fault)
    | some (.cut kept fault) => (later.put place (.file (content.extract 0 kept)), .error fault)

/-! ## Folders -/

def makeFolder (fs : FileSystem) (path : FilePath) : Except IoFault FileSystem := do
  let place ← fs.place path
  match fs.tree.get? place with
  | some _ => throw .alreadyExists
  | none => return fs.put place (.folder [])

def ensureFolder (fs : FileSystem) (path : FilePath) : Except IoFault FileSystem :=
  match fs.makeFolder path with
  | .ok fs => .ok fs
  | .error fault => if fs.isFolder path then .ok fs else .error fault

/-- Makes a folder and the folders on the way to it, at most so many. Folders made before a failure
stay. -/
def makeFoldersTo : Nat → FileSystem → FilePath → FileSystem × Except IoFault Unit
  | 0, fs, _ => (fs, .error .notFound)
  | fuel + 1, fs, path =>
    if path.text.isEmpty then (fs, .ok ())
    else
      match fs.ensureFolder path, path.parent? with
      | .ok fs, _ => (fs, .ok ())
      | .error .notFound, some parent =>
        match makeFoldersTo fuel fs parent with
        | (fs, .ok ()) =>
          match fs.ensureFolder path with
          | .ok fs => (fs, .ok ())
          | .error fault => (fs, .error fault)
        | failed => failed
      | .error fault, _ => (fs, .error fault)

/-- Makes a folder and the folders on the way to it. There are at most as many as the path has
parts. -/
def makeFolders (fs : FileSystem) (path : FilePath) : FileSystem × Except IoFault Unit :=
  makeFoldersTo (path.parts.length + 1) fs path

end FileSystem

end ActionUnits
