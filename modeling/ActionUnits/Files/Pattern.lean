import ActionUnits.Files.Path
import ActionUnits.Files.PatternFault

/-!
# Path patterns

In a pattern `?` stands for a character, `*` for any characters of a name, `[ab-d]` and `[!ab-d]` for
a character in or outside of ranges, and `**`, as a whole component, for folders of any depth. There
are no escapes other than ranges of one character.
-/

namespace ActionUnits

/-- An element of a pattern. -/
inductive Wildcard where
  | char (char : Char)
  | any
  | sequence
  | within (ranges : List (Char × Char))
  | outside (ranges : List (Char × Char))
  /-- Folders of any depth. -/
  | recursive
deriving DecidableEq

namespace Wildcard

/-! ## Reading -/

/-- The ranges that are written between brackets. -/
def ranges : List Char → List (Char × Char)
  | first :: '-' :: last :: cs => (first, last) :: ranges cs
  | c :: cs => (c, c) :: ranges cs
  | [] => []

/-- Reads characters up to a closing bracket. The first one is never the closing bracket. -/
def bracketed? : List Char → Option (List Char × List Char)
  | [] => none
  | first :: cs =>
    let inside := cs.takeWhile (· != ']')
    match cs.drop inside.length with
    | [] => none
    | _ :: rest => some (first :: inside, rest)

/-- Reads the rest of a pair of brackets. -/
def brackets? : List Char → Option (Wildcard × List Char)
  | '!' :: cs => (bracketed? cs).map fun r => (.outside (ranges r.1), r.2)
  | cs => (bracketed? cs).map fun r => (.within (ranges r.1), r.2)

/-- Whether a double asterisk after the given character starts a component. -/
def startsComponent : Option Char → Bool
  | none => true
  | some c => c == '/'

/-- Reads a run of asterisks at a position, after the given character. A double one takes the slash
behind it. -/
def asterisks (position : Nat) (before : Option Char) (cs : List Char) :
    Except PatternFault (Wildcard × List Char) :=
  let count := (cs.takeWhile (· == '*')).length
  let rest := cs.drop count
  if count ≤ 1 then .ok (.sequence, rest)
  else if 2 < count then .error ⟨position + 2, .manyAsterisks⟩
  else if !startsComponent before then .error ⟨position - 1, .partialRecursion⟩
  else
    match rest with
    | [] => .ok (.recursive, [])
    | '/' :: rest => .ok (.recursive, rest)
    | _ => .error ⟨position + 2, .partialRecursion⟩

/-- Reads one element at a position, after the given character. -/
def read (position : Nat) (before : Option Char) (c : Char) (cs : List Char) :
    Except PatternFault (Wildcard × List Char) :=
  if c == '?' then .ok (.any, cs)
  else if c == '*' then asterisks position before (c :: cs)
  else if c == '[' then
    match brackets? cs with
    | some r => .ok r
    | none => .error ⟨position, .range⟩
  else .ok (.char c, cs)

/-- Reads at most so many elements of a pattern, from a position on. -/
def readAllTo : Nat → List Char → Nat → List Char → Except PatternFault (List Wildcard)
  | fuel + 1, done, position, c :: cs => do
    let (wildcard, rest) ← read position done.head? c cs
    let used := (c :: cs).take (cs.length + 1 - rest.length)
    let wildcards ← readAllTo fuel (used.reverse ++ done) (position + used.length) rest
    return wildcard :: wildcards
  | _, _, _, _ => .ok []

/-- The elements of a pattern. An element has at least one character. -/
def readAll (cs : List Char) : Except PatternFault (List Wildcard) :=
  readAllTo cs.length [] 0 cs

/-! ## Matching -/

/-- Whether a character lies in one of the ranges. -/
def inRanges (ranges : List (Char × Char)) (c : Char) : Bool :=
  ranges.any fun range => range.1 ≤ c && c ≤ range.2

/-- A text without more and more of its first characters. -/
def suffixes : List Char → List (List Char)
  | [] => [[]]
  | c :: cs => (c :: cs) :: suffixes cs

/-- Whether an element stands for a character. -/
def accepts : Wildcard → Char → Bool
  | .char d, c => c == d
  | .any, _ => true
  | .within ranges, c => inRanges ranges c
  | .outside ranges, c => !inRanges ranges c
  | .sequence, _ | .recursive, _ => false

/-- Whether elements match a name as a whole. -/
def matchAll : List Wildcard → List Char → Bool
  | [], cs => cs.isEmpty
  | .sequence :: wildcards, cs => (suffixes cs).any (matchAll wildcards)
  | wildcard :: wildcards, cs =>
    match cs with
    | [] => false
    | c :: cs => wildcard.accepts c && matchAll wildcards cs

/-- The character that an element stands for, if there is only one. -/
def char? : Wildcard → Option Char
  | .char c => some c
  | _ => none

end Wildcard

/-- A component of a pattern. -/
inductive NamePattern where
  | literal (name : String)
  | wild (wildcards : List Wildcard)
  /-- Folders of any depth. -/
  | recursive
deriving DecidableEq

namespace NamePattern

/-- The component that elements form. -/
def ofWildcards (wildcards : List Wildcard) : NamePattern :=
  if wildcards == [.recursive] then .recursive
  else
    match wildcards.mapM Wildcard.char? with
    | some name => .literal (String.ofList name)
    | none => .wild wildcards

def matchName (pattern : NamePattern) (name : String) : Bool :=
  match pattern with
  | .literal text => text == name
  | .wild wildcards => Wildcard.matchAll wildcards name.toList
  | .recursive => false

/-- The entries of every folder, `.` and `..`, that a component asks for: those that it matches, if
it starts with a point of its own. -/
def pointNames : NamePattern → List String
  | .wild (.char '.' :: wildcards) =>
    ["..", "."].filter fun name => Wildcard.matchAll (.char '.' :: wildcards) name.toList
  | _ => []

/-- Drops a double asterisk before a double asterisk. -/
def collapse : List NamePattern → List NamePattern
  | .recursive :: .recursive :: patterns => collapse (.recursive :: patterns)
  | pattern :: patterns => pattern :: collapse patterns
  | [] => []

end NamePattern

/-- A pattern of paths. -/
structure PathPattern where
  absolute : Bool
  names : List NamePattern
  /-- Whether only folders are asked for. -/
  foldersOnly : Bool
deriving DecidableEq

namespace PathPattern

/-- Whether a text has a character that makes it a pattern. -/
def isPattern (text : String) : Bool :=
  text.toList.any fun c => c == '*' || c == '?' || c == '['

/-- The pattern that matches a text only. -/
def escape (text : String) : String :=
  String.ofList (text.toList.flatMap fun c =>
    if c == '?' || c == '*' || c == '[' || c == ']' then ['[', c, ']'] else [c])

/-- The components of a text between slashes; a slash at the end opens none. -/
def pieces (cs : List Char) : List (List Char) :=
  let parts := Text.splitAll '/' cs
  if parts.getLast? == some [] then parts.dropLast else parts

/-- Reads a pattern. The text as a whole is checked first, then each component, whose faults are
counted from its own start. -/
def parse (text : String) : Except PatternFault PathPattern := do
  let cs := text.toList
  let absolute := cs.head? == some '/'
  let _ ← Wildcard.readAll cs
  let names ← (pieces (if absolute then cs.drop 1 else cs)).mapM fun piece =>
    (Wildcard.readAll piece).map NamePattern.ofWildcards
  return ⟨absolute, NamePattern.collapse names, cs.getLast? == some '/'⟩

end PathPattern

end ActionUnits
