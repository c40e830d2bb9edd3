import ActionUnits.Record.Data
import ActionUnits.Text.Quoted

/-!
# JSON

Reads the data of a JSON text. The text is split into lexemes first; a place that is no lexeme ends
them. Escaped surrogates that are not paired are accepted in a text, which then denotes nothing.
-/

namespace ActionUnits.Record.Json

/-- A lexeme of a JSON text. -/
inductive Lexeme where
  | openList
  | closeList
  | openObject
  | closeObject
  | comma
  | colon
  | null
  | flag (value : Bool)
  | number
  | text (value : Option String)

/-! ## Texts -/

/-- A part of a text: a character, or an escaped code. -/
inductive TextUnit where
  | char (char : Char)
  | code (code : Nat)

/-- The characters that short escapes stand for. -/
def shortEscape? : Char → Option Char
  | '"' => some '"'
  | '\\' => some '\\'
  | '/' => some '/'
  | 'b' => some '\x08'
  | 'f' => some '\x0c'
  | 'n' => some '\n'
  | 'r' => some '\r'
  | 't' => some '\t'
  | _ => none

/-- The number that four hexadecimal digits denote. -/
def hexCode? (a b c d : Char) : Option Nat := do
  let a ← Text.Quoted.hexValue? a
  let b ← Text.Quoted.hexValue? b
  let c ← Text.Quoted.hexValue? c
  let d ← Text.Quoted.hexValue? d
  return ((a * 16 + b) * 16 + c) * 16 + d

/-- Reads the rest of a text up to its closing quote: its parts, and what follows. -/
def textUnits : List Char → Option (List TextUnit × List Char)
  | [] => none
  | '"' :: cs => some ([], cs)
  | '\\' :: 'u' :: a :: b :: c :: d :: cs => do
    let code ← hexCode? a b c d
    let (units, rest) ← textUnits cs
    return (.code code :: units, rest)
  | '\\' :: c :: cs => do
    let char ← shortEscape? c
    let (units, rest) ← textUnits cs
    return (.char char :: units, rest)
  | c :: cs =>
    if c.toNat < 0x20 || c == '\\' then none
    else do
      let (units, rest) ← textUnits cs
      return (.char c :: units, rest)

/-- Whether a code is the first half of a surrogate pair. -/
def isLeading (code : Nat) : Bool :=
  0xd800 ≤ code && code < 0xdc00

/-- Whether a code is the second half of a surrogate pair. -/
def isTrailing (code : Nat) : Bool :=
  0xdc00 ≤ code && code < 0xe000

/-- The characters that the parts of a text denote. -/
def assemble : List TextUnit → Option (List Char)
  | [] => some []
  | .char c :: units => (assemble units).map (c :: ·)
  | .code code :: units =>
    if isTrailing code then none
    else if isLeading code then
      match units with
      | .code second :: units =>
        if isTrailing second then
          let c := Char.ofNat (0x10000 + (code - 0xd800) * 0x400 + (second - 0xdc00))
          (assemble units).map (c :: ·)
        else none
      | _ => none
    else (assemble units).map (Char.ofNat code :: ·)

/-! ## Lexemes -/

/-- Drops the digits at the start of a text, of which there must be one. -/
def skipDigits (cs : List Char) : Option (List Char) :=
  let rest := cs.dropWhile Char.isDigit
  if rest.length == cs.length then none else some rest

/-- Drops the whole part of a number, which has no needless zero. -/
def skipWhole : List Char → Option (List Char)
  | '0' :: c :: cs => if c.isDigit then none else some (c :: cs)
  | cs => skipDigits cs

/-- Drops the fraction of a number, if there is one. -/
def skipFraction : List Char → Option (List Char)
  | '.' :: cs => skipDigits cs
  | cs => some cs

/-- Drops the exponent of a number, if there is one. -/
def skipExponent : List Char → Option (List Char)
  | e :: sign :: cs =>
    if e == 'e' || e == 'E' then
      if sign == '+' || sign == '-' then skipDigits cs else skipDigits (sign :: cs)
    else some (e :: sign :: cs)
  | [e] => if e == 'e' || e == 'E' then none else some [e]
  | [] => some []

/-- Reads a number: what follows it. -/
def number (cs : List Char) : Option (List Char) := do
  let unsigned := match cs with
    | '-' :: cs => cs
    | cs => cs
  skipExponent (← skipFraction (← skipWhole unsigned))

/-- Whether a character may stand between lexemes. -/
def isSpace (c : Char) : Bool :=
  c == ' ' || c == '\n' || c == '\t' || c == '\r'

/-- Reads a lexeme: the lexeme and what follows. -/
def lexeme? : List Char → Option (Lexeme × List Char)
  | '[' :: cs => some (.openList, cs)
  | ']' :: cs => some (.closeList, cs)
  | '\x7b' :: cs => some (.openObject, cs)
  | '\x7d' :: cs => some (.closeObject, cs)
  | ',' :: cs => some (.comma, cs)
  | ':' :: cs => some (.colon, cs)
  | 'n' :: 'u' :: 'l' :: 'l' :: cs => some (.null, cs)
  | 't' :: 'r' :: 'u' :: 'e' :: cs => some (.flag true, cs)
  | 'f' :: 'a' :: 'l' :: 's' :: 'e' :: cs => some (.flag false, cs)
  | '"' :: cs => do
    let (units, rest) ← textUnits cs
    return (.text ((assemble units).map String.ofList), rest)
  | cs => do
    let rest ← number cs
    return (.number, rest)

/-- The lexemes of a text, at most so many; `none` at the end stands for a place that is no
lexeme. -/
def lexemesTo : Nat → List Char → List (Option Lexeme)
  | 0, _ => []
  | fuel + 1, cs =>
    match cs.dropWhile isSpace with
    | [] => []
    | cs =>
      match lexeme? cs with
      | some (lexeme, rest) => some lexeme :: lexemesTo fuel rest
      | none => [none]

/-- The lexemes of a text. A lexeme has at least one character. -/
def lexemes (cs : List Char) : List (Option Lexeme) :=
  lexemesTo (cs.length + 1) cs

/-! ## Data -/

mutual

/-- Reads a value: its data and the lexemes that follow, of which there are none after a broken
place. -/
def valueTo : Nat → List (Option Lexeme) → Data × List (Option Lexeme)
  | _ + 1, some .null :: rest => (.null, rest)
  | _ + 1, some (.flag value) :: rest => (.flag value, rest)
  | _ + 1, some .number :: rest => (.number, rest)
  | _ + 1, some (.text value) :: rest => (.text value, rest)
  | _ + 1, some .openList :: some .closeList :: rest => (.list [] true, rest)
  | fuel + 1, some .openList :: rest => elementsTo fuel [] rest
  | _ + 1, some .openObject :: some .closeObject :: rest => (.members [] true, rest)
  | fuel + 1, some .openObject :: rest => membersTo fuel [] rest
  | _, _ => (.broken, [])

/-- Reads the elements of a list that is not empty, after those already read. -/
def elementsTo : Nat → List Data → List (Option Lexeme) → Data × List (Option Lexeme)
  | fuel + 1, elements, lexemes =>
    let (element, rest) := valueTo fuel lexemes
    let elements := elements ++ [element]
    match rest with
    | some .comma :: rest => elementsTo fuel elements rest
    | some .closeList :: rest => (.list elements true, rest)
    | _ => (.list elements false, [])
  | 0, elements, _ => (.list elements false, [])

/-- Reads the members of an object that is not empty, after those already read. -/
def membersTo : Nat → List (Option String × Data) → List (Option Lexeme) →
    Data × List (Option Lexeme)
  | fuel + 1, entries, some (.text key) :: some .colon :: lexemes =>
    let (value, rest) := valueTo fuel lexemes
    let entries := entries ++ [(key, value)]
    match rest with
    | some .comma :: rest => membersTo fuel entries rest
    | some .closeObject :: rest => (.members entries true, rest)
    | _ => (.members entries false, [])
  | _ + 1, entries, some (.text key) :: _ => (.members (entries ++ [(key, .broken)]) false, [])
  | _, entries, _ => (.members entries false, [])

end

/-- A depth that no reading of the lexemes exceeds: each rule is entered at most once for each
lexeme, and a list or an object is entered in two steps. -/
def depthFor (lexemes : List (Option Lexeme)) : Nat :=
  2 * lexemes.length + 2

/-- The data of a JSON text, and whether nothing follows it. -/
def read (text : String) : Data × Bool :=
  let lexemes := lexemes text.toList
  let (data, rest) := valueTo (depthFor lexemes) lexemes
  (data, rest.isEmpty)

end ActionUnits.Record.Json
