import ActionUnits.Text.Blank

/-!
# File paths

Paths as texts with `/` between their parts. Texts are kept as written: `a//b` and `a/b` are
different texts with the same components.
-/

namespace ActionUnits

/-- A path as written. -/
structure FilePath where
  text : String
deriving DecidableEq, Inhabited

/-- A component of a path. -/
inductive Component where
  | root
  | current
  | parent
  | normal (name : String)
deriving DecidableEq

namespace Component

/-- The place of a component's kind in the order of components. -/
def kindRank : Component → Nat
  | .root => 0
  | .current => 1
  | .parent => 2
  | .normal _ => 3

def name : Component → String
  | .normal name => name
  | _ => ""

def compare (a b : Component) : Ordering :=
  (Ord.compare a.kindRank b.kindRank).then (Ord.compare a.name b.name)

end Component

namespace FilePath

/-- The parts of a path between slashes. -/
def parts (path : FilePath) : List (List Char) :=
  Text.splitAll '/' path.text.toList

/-- Whether a path starts at the root. -/
def isAbsolute (path : FilePath) : Bool :=
  path.text.toList.head? == some '/'

/-- The component that a part other than the first one stands for. -/
def component? (part : List Char) : Option Component :=
  if part.isEmpty || part == ['.'] then none
  else if part == ['.', '.'] then some .parent
  else some (.normal (String.ofList part))

/-- The components of a path. Empty parts and `.` do not count, except that a first part `.` does. -/
def components (path : FilePath) : List Component :=
  match path.parts with
  | [] => []
  | first :: rest =>
    let head :=
      if path.isAbsolute then [.root]
      else if first == ['.'] then [.current]
      else (component? first).toList
    head ++ rest.filterMap component?

/-- The path of `other` seen from `base`: an absolute path stands for itself. -/
def join (base other : FilePath) : FilePath :=
  if other.isAbsolute then other
  else if base.text.isEmpty || base.text.toList.getLast? == some '/' then
    ⟨base.text ++ other.text⟩
  else ⟨base.text ++ "/" ++ other.text⟩

/-- Drops trailing parts that are no components; the first part stays. -/
def trimParts : List (List Char) → List (List Char)
  | [] => []
  | first :: rest => first :: Text.dropTrailing (fun part => (component? part).isNone) rest

/-- The text of parts that a path starts with. -/
def ofParts (absolute : Bool) (parts : List (List Char)) : FilePath :=
  if absolute && parts.length ≤ 1 then ⟨"/"⟩
  else ⟨String.ofList (['/'].intercalate parts)⟩

/-- The path without its last component; the root and the empty path have none. -/
def parent? (path : FilePath) : Option FilePath :=
  match trimParts path.parts with
  | [] => none
  | [first] => if path.isAbsolute || first.isEmpty then none else some ⟨""⟩
  | parts => some (ofParts path.isAbsolute (trimParts parts.dropLast))

def fileName? (path : FilePath) : Option String :=
  match path.components.getLast? with
  | some (.normal name) => some name
  | _ => none

/-- The text after the last point of the file name; a point at its start does not count. -/
def extension? (path : FilePath) : Option String := do
  let name ← path.fileName?
  match Text.splitAll '.' name.toList with
  | [] => none
  | [_] => none
  | [[], _] => none
  | pieces => pieces.getLast?.map String.ofList

def compare (a b : FilePath) : Ordering :=
  compareLists a.components b.components
where
  /-- The lexicographic order of component lists. -/
  compareLists : List Component → List Component → Ordering
    | [], [] => .eq
    | [], _ :: _ => .lt
    | _ :: _, [] => .gt
    | a :: as, b :: bs => (a.compare b).then (compareLists as bs)

end FilePath

end ActionUnits
