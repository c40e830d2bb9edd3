import ActionUnits.Named
import ActionUnits.Record.Data

/-!
# Tables of TOML

A table is built line by line, and how it came about decides what may be added to it: a table that
has its own header is not extended by keys with points, and a table made by such keys gets no header.
Tables inside values are closed once read.
-/

namespace ActionUnits.Record.Toml

/-- How a table came about. -/
inductive Origin where
  /-- By its own header. -/
  | header
  /-- By the header of a table inside it. -/
  | inner
  /-- By keys with points. -/
  | keys
deriving DecidableEq

/-- What stands under a key. -/
inductive Item where
  /-- A value, to which nothing can be added. -/
  | value (data : Data)
  | table (origin : Origin) (entries : List (String × Item))
  /-- Tables that share a header; the last one can be added to. -/
  | tables (elements : List (List (String × Item)))

/-- The content of a table. -/
abbrev Entries := List (String × Item)

namespace Entries

/-- Changes the table at a path below a table. Tables on the way are made if they are missing, with
the given origin; `change` gets the table's origin and content. -/
def at? (made : Origin) (change : Origin → Entries → Option Entries) :
    List String → Origin → Entries → Option Entries
  | [], origin, entries => change origin entries
  | key :: path, _, entries =>
    match entries.lookup key with
    | none => do
      let inner ← at? made change path made []
      return Named.set key (.table made inner) entries
    | some (.table origin inner) =>
      if made = .keys && origin = .header then none
      else do
        let inner ← at? made change path origin inner
        return Named.set key (.table origin inner) entries
    | some (.tables elements) => do
      let last ← elements.getLast?
      let last ← at? made change path .header last
      return Named.set key (.tables (elements.dropLast ++ [last])) entries
    | some (.value _) => none

/-- Splits a path into the keys before the last one and the last one. -/
def splitPath? (path : List String) : Option (List String × String) :=
  path.getLast?.map fun key => (path.dropLast, key)

/-- Puts a value under a path of keys. A key is not used twice, and only keys with points add to a
table that such keys have made. -/
def put? (path : List String) (data : Data) (origin : Origin) (entries : Entries) :
    Option Entries := do
  let (tables, key) ← splitPath? path
  at? .keys (fun origin entries =>
    if (origin = .keys) == tables.isEmpty || (entries.lookup key).isSome then none
    else some (Named.set key (.value data) entries)) tables origin entries

/-- Opens the table of a header. A table has at most one header of its own. -/
def openTable? (path : List String) (entries : Entries) : Option Entries := do
  let (tables, key) ← splitPath? path
  at? .inner (fun _ entries =>
    match entries.lookup key with
    | none => some (Named.set key (.table .header []) entries)
    | some (.table .inner inner) => some (Named.set key (.table .header inner) entries)
    | some _ => none) tables .header entries

/-- Opens one more of the tables that share a header. -/
def openElement? (path : List String) (entries : Entries) : Option Entries := do
  let (tables, key) ← splitPath? path
  at? .inner (fun _ entries =>
    match entries.lookup key with
    | none => some (Named.set key (.tables [[]]) entries)
    | some (.tables elements) => some (Named.set key (.tables (elements ++ [[]])) entries)
    | some _ => none) tables .header entries

/-- Puts a value under a path of keys into the table that was opened last. -/
def putBelow? (opened path : List String) (data : Data) (entries : Entries) : Option Entries :=
  at? .inner (put? path data) opened .header entries

end Entries

/-! ## Data -/

/-- Members in the order of their names. -/
def sortMembers (entries : List (String × Data)) : Data :=
  let sorted := entries.mergeSort fun a b => a.1 ≤ b.1
  .members (sorted.map fun entry => (some entry.1, entry.2)) true

mutual

def Item.data : Item → Data
  | .value data => data
  | .table _ entries => sortMembers (membersOf entries)
  | .tables elements => .list (elementsOf elements) true

def membersOf : List (String × Item) → List (String × Data)
  | [] => []
  | (key, item) :: entries => (key, item.data) :: membersOf entries

def elementsOf : List (List (String × Item)) → List Data
  | [] => []
  | entries :: elements => sortMembers (membersOf entries) :: elementsOf elements

end

def Entries.data (entries : Entries) : Data :=
  sortMembers (membersOf entries)

end ActionUnits.Record.Toml
