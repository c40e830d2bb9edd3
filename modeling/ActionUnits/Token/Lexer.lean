import ActionUnits.Text.Blank
import ActionUnits.Text.Identifier
import ActionUnits.Token.Basic

/-!
# From text to tokens

Blanks and comments separate tokens and leave no trace, except documentation comments, which stand
for `doc` attributes. Brackets must be balanced. A text that does not split into tokens has no
reading at all, so the lexer answers with an option.
-/

namespace ActionUnits.Lexer

open ActionUnits.Text

/-- Removes a given beginning. -/
def strip? : List Char → List Char → Option (List Char)
  | [], cs => some cs
  | p :: ps, c :: cs => if p == c then strip? ps cs else none
  | _ :: _, [] => none

/-- Whether a text starts with a given beginning. -/
def startsWith (start : String) (cs : List Char) : Bool :=
  start.toList.isPrefixOf cs

/-! ## Blanks and comments -/

/-- Whether a character separates tokens: blanks and the two directional marks. -/
def isSpace (c : Char) : Bool :=
  isBlank c || c.toNat == 0x200e || c.toNat == 0x200f

/-- Splits a text before its first line break. -/
def splitLine : List Char → List Char × List Char
  | [] => ([], [])
  | '\n' :: cs => ([], '\n' :: cs)
  | '\r' :: '\n' :: cs => ([], '\n' :: cs)
  | c :: cs => let (line, rest) := splitLine cs; (c :: line, rest)

/-- Splits a text after the end of the block comment that is `depth` levels deep at its start.
Comments nest. -/
def splitBlock (depth : Nat) : List Char → Option (List Char × List Char)
  | '/' :: '*' :: cs =>
    (splitBlock (depth + 1) cs).map fun r => ('/' :: '*' :: r.1, r.2)
  | '*' :: '/' :: cs =>
    if depth ≤ 1 then some (['*', '/'], cs)
    else (splitBlock (depth - 1) cs).map fun r => ('*' :: '/' :: r.1, r.2)
  | c :: cs => (splitBlock depth cs).map fun r => (c :: r.1, r.2)
  | [] => none

def startsLineComment (cs : List Char) : Bool :=
  startsWith "//" cs && (!startsWith "///" cs || startsWith "////" cs) && !startsWith "//!" cs

def startsBlockComment (cs : List Char) : Bool :=
  startsWith "/**/" cs ||
    (startsWith "/*" cs && (!startsWith "/**" cs || startsWith "/***" cs) && !startsWith "/*!" cs)

/-- One blank or plain comment at the start of a text. -/
def skipOne? (cs : List Char) : Option (List Char) :=
  if startsLineComment cs then some (splitLine cs).2
  else if startsBlockComment cs then (splitBlock 0 cs).map (·.2)
  else
    match cs with
    | c :: rest => if isSpace c then some rest else none
    | [] => none

/-- Drops blanks and plain comments, at most as many as `fuel` allows. -/
def skipBlanks : Nat → List Char → List Char
  | 0, cs => cs
  | fuel + 1, cs =>
    match skipOne? cs with
    | some rest => skipBlanks fuel rest
    | none => cs

/-! ## Documentation comments -/

/-- The text of a documentation comment, whether it describes what encloses it, and the rest. -/
def docComment? (cs : List Char) : Option (List Char × Bool × List Char) :=
  let block (inner : Bool) : Option (List Char × Bool × List Char) := do
    let (comment, rest) ← splitBlock 0 cs
    return ((comment.drop 3).take (comment.length - 5), inner, rest)
  if startsWith "//!" cs then
    let (line, rest) := splitLine (cs.drop 3)
    some (line, true, rest)
  else if startsWith "/*!" cs then block true
  else if startsWith "///" cs && !startsWith "////" cs then
    let (line, rest) := splitLine (cs.drop 3)
    some (line, false, rest)
  else if startsWith "/**" cs && !startsWith "/***" cs then block false
  else none

/-- Whether every carriage return is followed by a line feed. -/
def hasNoBareReturn : List Char → Bool
  | [] => true
  | '\r' :: '\n' :: cs => hasNoBareReturn cs
  | '\r' :: _ => false
  | _ :: cs => hasNoBareReturn cs

/-- The attribute that a documentation comment stands for. -/
def docAttribute (text : List Char) (inner : Bool) : List Token :=
  .punct '#' false :: (if inner then [.punct '!' false] else []) ++
    [.group .bracket [.word "doc", .punct '=' false, .string (String.ofList text)]]

/-! ## Identifiers -/

/-- An identifier without raw marker, and the rest. -/
def plainIdent? : List Char → Option (List Char × List Char)
  | [] => none
  | c :: cs =>
    if isIdentStart c then
      some (c :: cs.takeWhile isIdentContinue, cs.dropWhile isIdentContinue)
    else none

/-- Names that the raw marker does not turn into identifiers. -/
def neverRaw : List String :=
  ["_", "super", "self", "Self", "crate"]

/-- An identifier, possibly raw, and the rest. -/
def anyIdent? (cs : List Char) : Option (Ident × List Char) :=
  match cs with
  | 'r' :: '#' :: body => do
    let (name, rest) ← plainIdent? body
    if neverRaw.contains (String.ofList name) then none
    else some (⟨String.ofList ('r' :: '#' :: name)⟩, rest)
  | _ => (plainIdent? cs).map fun r => (⟨String.ofList r.1⟩, r.2)

/-- Beginnings that promise a literal and so start no identifier. -/
def literalOpeners : List String :=
  ["r\"", "r#\"", "r##", "b\"", "b'", "br\"", "br#", "c\"", "cr\"", "cr#"]

/-- An identifier where no literal was found. -/
def ident? (cs : List Char) : Option (Ident × List Char) :=
  if literalOpeners.any (startsWith · cs) then none else anyIdent? cs

/-! ## Literals

A reader of a literal answers with what follows the literal. -/

/-- Drops a suffix, which is an identifier that touches the literal. -/
def skipSuffix (cs : List Char) : List Char :=
  match plainIdent? cs with
  | some (_, rest) => rest
  | none => cs

/-- A quoted literal that starts with the given letters. -/
def quoted? (letters : String) (kind : Quoted.Kind) (cs : List Char) : Option (List Char) := do
  let body ← strip? (letters.toList ++ ['"']) cs
  let (_, rest) ← Quoted.readBody kind .plain body
  return skipSuffix rest

/-- A raw literal that starts with the given letters. -/
def rawQuoted? (letters : String) (kind : Quoted.Kind) (cs : List Char) : Option (List Char) := do
  let body ← strip? letters.toList cs
  let (_, rest) ← Quoted.readRaw kind body
  return skipSuffix rest

/-- Reads an escape of a character literal, after its backslash, up to its last character. -/
def escaped? (kind : Quoted.Kind) : Quoted.Mode → List Char → Option (List Char)
  | _, [] => none
  | mode, c :: cs =>
    match Quoted.step kind mode c with
    | some (.plain, _) => some cs
    | some (.margin, _) => none
    | some (.marginFeed, _) => none
    | some (next, _) => escaped? kind next cs
    | none => none

/-- A character literal, of a byte or of a character. -/
def character? (letters : String) (kind : Quoted.Kind) (cs : List Char) : Option (List Char) := do
  let body ← strip? (letters.toList ++ ['\'']) cs
  let rest ← match body with
    | '\\' :: esc => escaped? kind .escape esc
    | c :: rest => if kind = .bytes && 0x80 ≤ c.toNat then none else some rest
    | [] => none
  let rest ← strip? ['\''] rest
  return skipSuffix rest

/-- The exponent of a number, after its letter. -/
def exponent? (signed valued : Bool) : List Char → Option (List Char)
  | [] => if valued then some [] else none
  | c :: cs =>
    if c == '+' || c == '-' then
      if valued then some (c :: cs)
      else if signed then none
      else exponent? true false cs
    else if c.isDigit then exponent? signed true cs
    else if c == '_' then exponent? signed valued cs
    else if valued then some (c :: cs)
    else none

/-- The digits of a number with a point or an exponent, after its first digit. -/
def floatDigits? (pointed : Bool) : List Char → Option (List Char)
  | [] => if pointed then some [] else none
  | c :: cs =>
    if c.isDigit || c == '_' then floatDigits? pointed cs
    else if c == '.' && !pointed then
      if cs.head?.any fun d => d == '.' || isIdentStart d then none else floatDigits? true cs
    else if c == 'e' || c == 'E' then
      match exponent? false false cs with
      | some rest => some rest
      | none => if pointed then some (c :: cs) else none
    else if pointed then some (c :: cs)
    else none

/-- Drops the suffix of a number; no identifier character may remain. -/
def endNumber? (cs : List Char) : Option (List Char) :=
  let rest := skipSuffix cs
  if rest.head?.any isIdentContinue then none else some rest

/-- A number with a point or an exponent. -/
def float? : List Char → Option (List Char)
  | c :: cs => if c.isDigit then floatDigits? false cs >>= endNumber? else none
  | [] => none

/-- The digits of an integer in the given base. A decimal digit too large for the base spoils the
number, a letter too large ends it. -/
def intDigits? (base : Nat) (empty : Bool) : List Char → Option (List Char)
  | [] => if empty then none else some []
  | c :: cs =>
    let stop := if empty then none else some (c :: cs)
    if c.isDigit then
      if c.toNat - '0'.toNat < base then intDigits? base false cs else none
    else if c == '_' then
      if empty && base == 10 then none else intDigits? base empty cs
    else
      match Quoted.hexValue? c with
      | some n => if n < base then intDigits? base false cs else stop
      | none => stop

/-- An integer. -/
def int? (cs : List Char) : Option (List Char) :=
  let digits := match cs with
    | '0' :: 'x' :: rest => intDigits? 16 true rest
    | '0' :: 'o' :: rest => intDigits? 8 true rest
    | '0' :: 'b' :: rest => intDigits? 2 true rest
    | _ => intDigits? 10 true cs
  digits >>= endNumber?

/-- What follows the literal at the start of a text. -/
def afterLiteral? (cs : List Char) : Option (List Char) :=
  quoted? "" .text cs <|> rawQuoted? "r" .text cs <|>
    quoted? "b" .bytes cs <|> rawQuoted? "br" .bytes cs <|>
    quoted? "c" .nulFree cs <|> rawQuoted? "cr" .nulFree cs <|>
    character? "b" .bytes cs <|> character? "" .text cs <|>
    float? cs <|> int? cs

/-- The literal at the start of a text. -/
def literal? (cs : List Char) : Option (String × List Char) := do
  let rest ← afterLiteral? cs
  return (String.ofList (cs.take (cs.length - rest.length)), rest)

/-! ## Punctuation -/

def punctuation : List Char :=
  "~!@#$%^&*-=+|;:,<.>/?'".toList

/-- The punctuation character at the start of a text; a comment starts with none. -/
def punctChar? (cs : List Char) : Option (Char × List Char) :=
  if startsWith "//" cs || startsWith "/*" cs then none
  else
    match cs with
    | c :: rest => if punctuation.contains c then some (c, rest) else none
    | [] => none

/-- The punctuation token at the start of a text. An apostrophe needs a lifetime after it. -/
def punct? (cs : List Char) : Option (Token × List Char) := do
  let (c, rest) ← punctChar? cs
  if c == '\'' then
    let (_, after) ← anyIdent? rest
    if startsWith "'" after || (startsWith "#" after && !startsWith "r#" rest) then none
    else return (.punct c true, rest)
  else return (.punct c (punctChar? rest).isSome, rest)

/-! ## Texts -/

/-- A text that stands for a token that could not be written; it is read as one literal. -/
def errorMark : String :=
  "(/*ERROR*/)"

def leaf? (cs : List Char) : Option (Token × List Char) :=
  (literal? cs).map (fun r => (.literal r.1, r.2)) <|>
    punct? cs <|>
    (ident? cs).map (fun r => (.ident r.1, r.2)) <|>
    (strip? errorMark.toList cs).map (fun rest => (.literal errorMark, rest))

/-- A group that is still open: its delimiter, and the tokens before it, last one first. -/
abbrev OpenGroup := Delimiter × List Token

/-- Reads tokens until the text ends. `done` holds the tokens of the innermost open group, last one
first, and `stack` the groups around it. -/
def lexFrom : Nat → List OpenGroup → List Token → List Char → Option (List Token)
  | 0, _, _, _ => none
  | fuel + 1, stack, done, cs =>
    let cs := skipBlanks cs.length cs
    match (docComment? cs).filter fun r => hasNoBareReturn r.1 with
    | some (text, inner, rest) =>
      lexFrom fuel stack ((docAttribute text inner).reverse ++ done) rest
    | none =>
      match cs with
      | [] => if stack.isEmpty then some done.reverse else none
      | c :: rest =>
        match if startsWith errorMark cs then none else Delimiter.ofOpening? c with
        | some delimiter => lexFrom fuel ((delimiter, done) :: stack) [] rest
        | none =>
          match Delimiter.ofClosing? c, stack with
          | some delimiter, (opened, outer) :: stack =>
            if delimiter = opened then
              lexFrom fuel stack (.group delimiter done.reverse :: outer) rest
            else none
          | some _, [] => none
          | none, _ => do
            let (token, rest) ← leaf? cs
            lexFrom fuel stack (token :: done) rest

/-- The tokens of a text; a byte order mark in front is dropped. -/
def lex? (text : String) : Option (List Token) :=
  let cs := match text.toList with
    | c :: rest => if c.toNat == 0xfeff then rest else c :: rest
    | [] => []
  lexFrom (cs.length + 1) [] [] cs

end ActionUnits.Lexer
