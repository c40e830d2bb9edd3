import ActionUnits.Record.Toml.Scalar
import ActionUnits.Record.Toml.Table
import ActionUnits.Record.Toml.Text

/-!
# TOML documents

Reads the data of a TOML text, line by line. A text that breaks a rule anywhere has no data.
-/

namespace ActionUnits.Record.Toml

/-- Drops a comment, if there is one; it ends before the line break. -/
def dropComment : List Char → List Char
  | '#' :: cs => cs.dropWhile fun c => !isControl c
  | cs => cs

def lineBreak? : List Char → Option (List Char)
  | '\n' :: cs => some cs
  | '\r' :: '\n' :: cs => some cs
  | _ => none

/-- Drops spaces, line breaks and comments. A character that bars a comment stays. -/
def dropBlanks : Bool → List Char → List Char
  | _, [] => []
  | _, '\n' :: cs => dropBlanks false cs
  | _, '\r' :: '\n' :: cs => dropBlanks false cs
  | comment, c :: cs =>
    if comment then if isControl c then c :: cs else dropBlanks true cs
    else if c == '#' then dropBlanks true cs
    else if isSpace c then dropBlanks false cs
    else c :: cs

mutual

/-- Reads a value inside so many collections. -/
def valueTo : Nat → Nat → List Char → Option (Data × List Char)
  | 0, _, _ => none
  | fuel + 1, depth, cs =>
    match cs with
    | '[' :: rest =>
      if depth < depthLimit then elementsTo fuel (depth + 1) [] (dropBlanks false rest) else none
    | '\x7b' :: rest =>
      if depth < depthLimit then membersTo fuel (depth + 1) [] (dropBlanks false rest) else none
    | '"' :: _ | '\'' :: _ => (text? cs).map fun r => (.text (some (String.ofList r.1)), r.2)
    | _ => scalar? cs

/-- Reads the rest of a list, after elements already read. -/
def elementsTo : Nat → Nat → List Data → List Char → Option (Data × List Char)
  | 0, _, _, _ => none
  | fuel + 1, depth, elements, cs =>
    match cs with
    | ']' :: rest => some (.list elements true, rest)
    | _ => do
      let (element, rest) ← valueTo fuel depth cs
      let elements := elements ++ [element]
      match dropBlanks false rest with
      | ',' :: rest => elementsTo fuel depth elements (dropBlanks false rest)
      | ']' :: rest => return (.list elements true, rest)
      | _ => none

/-- Reads the rest of a table inside a value, after members already read. -/
def membersTo : Nat → Nat → Entries → List Char → Option (Data × List Char)
  | 0, _, _, _ => none
  | fuel + 1, depth, entries, cs =>
    match cs with
    | '\x7d' :: rest => some (entries.data, rest)
    | _ => do
      let (path, rest) ← keys? cs
      let rest ← mark? '=' (dropBlanks false rest)
      let (value, rest) ← valueTo fuel depth (dropBlanks false rest)
      let entries ← entries.put? path value .header
      match dropBlanks false rest with
      | ',' :: rest => membersTo fuel depth entries (dropBlanks false rest)
      | '\x7d' :: rest => return (entries.data, rest)
      | _ => none

end

/-- Reads a value. Each rule reads a character or hands a value on, so that twice the length
bounds their number. -/
def value? (cs : List Char) : Option (Data × List Char) :=
  valueTo (2 * cs.length + 2) 0 cs

/-! ## Lines -/

/-- What a line says. -/
inductive Line where
  | blank
  /-- The header of a table. -/
  | table (path : List String)
  /-- The header of one of several tables. -/
  | element (path : List String)
  | entry (path : List String) (data : Data)

/-- Reads the content of a line: what follows may be a comment. -/
def line? (cs : List Char) : Option (Line × List Char) := do
  match cs with
  | '[' :: '[' :: rest =>
    let (path, rest) ← keys? rest
    return (.element path, ← mark? ']' (← mark? ']' rest))
  | '[' :: rest =>
    let (path, rest) ← keys? rest
    return (.table path, ← mark? ']' rest)
  | [] => return (.blank, cs)
  | c :: _ =>
    if c == '#' || c == '\n' || c == '\r' then return (.blank, cs)
    else
      let (path, rest) ← keys? cs
      let rest ← mark? '=' rest
      let (data, rest) ← value? (rest.dropWhile isSpace)
      return (.entry path data, rest)

/-- Reads lines to the end, at most so many. -/
def linesTo : Nat → List Char → Option (List Line)
  | 0, _ => none
  | fuel + 1, cs => do
    let (line, rest) ← line? (cs.dropWhile isSpace)
    match dropComment (rest.dropWhile isSpace) with
    | [] => return [line]
    | rest => return line :: (← linesTo fuel (← lineBreak? rest))

/-- The document so far: the table that was opened last, and everything there is. -/
structure Document where
  opened : List String := []
  entries : Entries := []

def Document.add? (document : Document) : Line → Option Document
  | .blank => some document
  | .table path => (document.entries.openTable? path).map fun entries => ⟨path, entries⟩
  | .element path => (document.entries.openElement? path).map fun entries => ⟨path, entries⟩
  | .entry path data =>
    (document.entries.putBelow? document.opened path data).map fun entries =>
      { document with entries }

/-- Drops a mark of the byte order at the start of a text. -/
def dropByteOrderMark : List Char → List Char
  | '\ufeff' :: cs => cs
  | cs => cs

def read? (text : String) : Option Data := do
  let cs := dropByteOrderMark text.toList
  let lines ← linesTo (cs.length + 1) cs
  let document ← lines.foldlM Document.add? {}
  return document.entries.data

end ActionUnits.Record.Toml
