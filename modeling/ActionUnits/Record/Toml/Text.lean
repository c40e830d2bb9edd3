import ActionUnits.Text.Quoted

/-!
# Texts and keys of TOML

The four ways to write a text, and the keys, which are bare words or texts on one line. Each reader
returns what it read and what follows.
-/

namespace ActionUnits.Record.Toml

/-- Whether a character is barred from comments and from the written form of texts. Line breaks are
barred too; a text over several lines takes them apart. -/
def isControl (c : Char) : Bool :=
  (c.toNat < 0x20 && c != '\t') || c.toNat == 0x7f

/-- Whether a character is a space between the parts of a line. -/
def isSpace (c : Char) : Bool :=
  c == ' ' || c == '\t'

/-! ## Escaped texts -/

/-- What the reader of an escaped text expects next. -/
inductive Mode where
  /-- A character or a backslash. -/
  | plain
  /-- The character after a backslash. -/
  | escape
  /-- So many digits of a code, after digits of the given value. -/
  | code (left value : Nat)
  /-- The line break after a backslash and spaces. -/
  | lineEnd
  /-- Blanks after an escaped line break. -/
  | margin
  /-- The line feed of an escaped line break that began with a carriage return. -/
  | marginFeed
  /-- The line feed of a line break that began with a carriage return. -/
  | lineFeed
deriving DecidableEq

/-- A character before which no escape is open. -/
def stepPlain (lines : Bool) (c : Char) : Option (Mode × List Char) :=
  if c == '\\' then some (.escape, [])
  else if lines && c == '\n' then some (.plain, ['\n'])
  else if lines && c == '\r' then some (.lineFeed, [])
  else if isControl c then none
  else some (.plain, [c])

/-- A blank after a backslash or after the spaces behind it. -/
def stepLineEnd (c : Char) : Option (Mode × List Char) :=
  if isSpace c then some (.lineEnd, [])
  else if c == '\n' then some (.margin, [])
  else if c == '\r' then some (.marginFeed, [])
  else none

/-- The character after a backslash. -/
def stepEscape (lines : Bool) (c : Char) : Option (Mode × List Char) :=
  match c with
  | 'b' => some (.plain, ['\x08'])
  | 't' => some (.plain, ['\t'])
  | 'n' => some (.plain, ['\n'])
  | 'f' => some (.plain, ['\x0c'])
  | 'r' => some (.plain, ['\r'])
  | 'e' => some (.plain, ['\x1b'])
  | '"' => some (.plain, ['"'])
  | '\\' => some (.plain, ['\\'])
  | 'x' => some (.code 2 0, [])
  | 'u' => some (.code 4 0, [])
  | 'U' => some (.code 8 0, [])
  | c => if lines then stepLineEnd c else none

/-- A digit of a code. The last one completes a character. -/
def stepCode (left value : Nat) (c : Char) : Option (Mode × List Char) := do
  let digit ← Text.Quoted.hexValue? c
  let value := value * 16 + digit
  if 1 < left then some (.code (left - 1) value, [])
  else if value.isValidChar then some (.plain, [Char.ofNat value])
  else none

/-- Reads one character: the next mode and what the character contributes. Line breaks count only
if the text may have `lines`. -/
def step (lines : Bool) : Mode → Char → Option (Mode × List Char)
  | .plain, c => stepPlain lines c
  | .escape, c => stepEscape lines c
  | .code left value, c => stepCode left value c
  | .lineEnd, c => stepLineEnd c
  | .margin, c =>
    if isSpace c || c == '\n' then some (.margin, [])
    else if c == '\r' then some (.marginFeed, [])
    else stepPlain lines c
  | .marginFeed, c => if c == '\n' then some (.margin, []) else none
  | .lineFeed, c => if c == '\n' then some (.plain, ['\r', '\n']) else none

/-- Whether quotes close the text in the given mode. -/
def Mode.mayClose : Mode → Bool
  | .plain | .margin => true
  | _ => false

/-- Reads an escaped text up to its closing quote. -/
def escapedBody : Mode → List Char → Option (List Char × List Char)
  | _, [] => none
  | mode, c :: cs =>
    if c == '"' && mode.mayClose then some ([], cs)
    else do
      let (next, out) ← step false mode c
      let (text, rest) ← escapedBody next cs
      return (out ++ text, rest)

/-! ## Texts over several lines -/

/-- Whether a text starts with three quotes. -/
def startsWithQuotes (quote : Char) (cs : List Char) : Bool :=
  cs.take 3 == [quote, quote, quote]

/-- The end of a text over several lines: of up to five quotes, the last three close it. -/
def closing (quote : Char) (cs : List Char) : List Char × List Char :=
  let inside := ((cs.drop 3).take 2).takeWhile (· == quote)
  (inside, cs.drop (3 + inside.length))

/-- Drops a line break at the start of a text. -/
def dropLineBreak : List Char → List Char
  | '\n' :: cs => cs
  | '\r' :: '\n' :: cs => cs
  | cs => cs

/-- Reads an escaped text over several lines up to its closing quotes. -/
def escapedLines : Mode → List Char → Option (List Char × List Char)
  | _, [] => none
  | mode, c :: cs =>
    if startsWithQuotes '"' (c :: cs) && mode.mayClose then some (closing '"' (c :: cs))
    else do
      let (next, out) ← step true mode c
      let (text, rest) ← escapedLines next cs
      return (out ++ text, rest)

/-- Reads a literal text over several lines up to its closing quotes. -/
def literalLines : List Char → Option (List Char × List Char)
  | [] => none
  | '\r' :: '\n' :: cs => (literalLines cs).map fun r => ('\r' :: '\n' :: r.1, r.2)
  | c :: cs =>
    if startsWithQuotes '\'' (c :: cs) then some (closing '\'' (c :: cs))
    else if isControl c && c != '\n' then none
    else (literalLines cs).map fun r => (c :: r.1, r.2)

/-- Reads a literal text up to its closing quote. -/
def literalBody : List Char → Option (List Char × List Char)
  | [] => none
  | c :: cs =>
    if c == '\'' then some ([], cs)
    else if isControl c then none
    else (literalBody cs).map fun r => (c :: r.1, r.2)

def lineText? : List Char → Option (List Char × List Char)
  | '"' :: cs => escapedBody .plain cs
  | '\'' :: cs => literalBody cs
  | _ => none

/-- Reads a text of any of the four kinds. -/
def text? (cs : List Char) : Option (List Char × List Char) :=
  if startsWithQuotes '"' cs then escapedLines .plain (dropLineBreak (cs.drop 3))
  else if startsWithQuotes '\'' cs then literalLines (dropLineBreak (cs.drop 3))
  else lineText? cs

/-! ## Keys -/

/-- Whether a character may stand in a bare key. -/
def isBare (c : Char) : Bool :=
  c.isAlphanum || c == '_' || c == '-'

/-- Reads a key: a bare word or a text on one line. -/
def key? (cs : List Char) : Option (String × List Char) :=
  let bare := cs.takeWhile isBare
  if bare.isEmpty then (lineText? cs).map fun r => (String.ofList r.1, r.2)
  else some (String.ofList bare, cs.drop bare.length)

/-- Reads keys with points between them, at most so many. -/
def keysTo : Nat → List Char → Option (List String × List Char)
  | 0, _ => none
  | fuel + 1, cs => do
    let (key, rest) ← key? (cs.dropWhile isSpace)
    match rest.dropWhile isSpace with
    | '.' :: rest =>
      let (keys, rest) ← keysTo fuel rest
      return (key :: keys, rest)
    | rest => return ([key], rest)

/-- How deep collections may stand inside each other, and how many keys a path may have. -/
def depthLimit : Nat :=
  80

/-- Reads keys with points between them, unless there are too many. A key has at least one
character. -/
def keys? (cs : List Char) : Option (List String × List Char) := do
  let (path, rest) ← keysTo (cs.length + 1) cs
  if path.length ≤ depthLimit then return (path, rest) else none

end ActionUnits.Record.Toml
