import ActionUnits.Text.Table.Cased
import ActionUnits.Text.Table.Casing

/-!
# Upper and lower case

The full, locale-independent case mappings: one character may map to several, and a capital sigma
at the end of a word has a lower-case form of its own.
-/

namespace ActionUnits.Text

/-- The image of a character beyond ASCII under a case mapping given by its tables. -/
def mapCase (special : List (Nat × List Nat)) (runs : List ShiftRun) (c : Char) : List Char :=
  match special.lookup c.toNat with
  | some codes => codes.map Char.ofNat
  | none =>
    match runs.find? (·.covers c.toNat) with
    | some run => [run.image c.toNat]
    | none => [c]

/-- The upper-case form of a character. -/
def upperChar (c : Char) : List Char :=
  if c.toNat < 0x80 then [c.toUpper] else mapCase Table.upperSpecial Table.upperRuns c

/-- The lower-case form of a character, out of context. -/
def lowerChar (c : Char) : List Char :=
  if c.toNat < 0x80 then [c.toLower] else mapCase Table.lowerSpecial Table.lowerRuns c

/-- Whether a character has the property `Cased`. -/
def isCased (c : Char) : Bool :=
  c.isAlpha || (0x80 ≤ c.toNat && Table.cased.covers c.toNat)

/-- Whether casing looks through a character when it searches for the edge of a word. -/
def isCaseIgnorable (c : Char) : Bool :=
  c == '\'' || c == '.' || c == ':' || c == '^' || c == '\x60' ||
    (0x80 ≤ c.toNat && Table.caseIgnorable.covers c.toNat)

/-- Whether the first character that casing does not look through is cased. -/
def leadsToCased (cs : List Char) : Bool :=
  (cs.dropWhile isCaseIgnorable).head?.any isCased

/-- Lower case of the rest of a text, given the characters before it, last one first. -/
def lowerAfter (before : List Char) : List Char → List Char
  | [] => []
  | c :: cs =>
    let image :=
      if c == 'Σ' then
        if leadsToCased before && !leadsToCased cs then ['ς'] else ['σ']
      else lowerChar c
    image ++ lowerAfter (c :: before) cs

/-- The lower-case form of a text. -/
def lower (cs : List Char) : List Char :=
  lowerAfter [] cs

/-- The upper-case form of a text. -/
def upper (cs : List Char) : List Char :=
  cs.flatMap upperChar

/-- Upper case for the first character of a word; the others stay. -/
def capitalize : List Char → List Char
  | [] => []
  | c :: cs => upperChar c ++ cs

end ActionUnits.Text
