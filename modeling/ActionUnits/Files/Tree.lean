import ActionUnits.Named

/-!
# File trees

Files and folders as a value, without links. A location is the list of names on the way from the
root.
-/

namespace ActionUnits

/-- What stands at a location. -/
inductive FileEntry where
  | file (content : ByteArray)
  | folder (entries : List (String × FileEntry))

/-- The names on the way from the root. -/
abbrev Location := List String

/-- The content of the root folder. -/
abbrev FileTree := List (String × FileEntry)

namespace FileTree

def get? : FileTree → Location → Option FileEntry
  | tree, [] => some (.folder tree)
  | tree, name :: rest =>
    match tree.lookup name with
    | some (.folder inner) => get? inner rest
    | some (.file content) => if rest.isEmpty then some (.file content) else none
    | none => none

/-- Puts an entry at a location in an existing folder. Elsewhere nothing is put. -/
def put : FileTree → Location → FileEntry → FileTree
  | tree, [], _ => tree
  | tree, [name], entry => Named.set name entry tree
  | tree, name :: rest, entry =>
    match tree.lookup name with
    | some (.folder inner) => Named.set name (.folder (put inner rest entry)) tree
    | _ => tree

end FileTree

end ActionUnits
