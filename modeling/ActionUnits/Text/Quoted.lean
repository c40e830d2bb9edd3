import ActionUnits.Text.Visible

/-!
# Quoted literals

Texts as string literals of the generated source. Quotes, backslashes, line breaks and tabs have
short escapes; characters without a glyph and marks that would attach to the quote are written by
code point. `decode` reads a literal of that form back, so it is the meaning that a literal has in
the generated source.
-/

namespace ActionUnits.Text.Quoted

/-- The lower-case hexadecimal digits of a number. -/
def hexDigits (n : Nat) : List Char :=
  Nat.toDigits 16 n

def escapeCode (c : Char) : List Char :=
  ['\\', 'u', '\x7b'] ++ hexDigits c.toNat ++ ['\x7d']

/-- The escape of one character other than NUL. -/
def escapeChar (c : Char) : List Char :=
  if c == '\t' then ['\\', 't']
  else if c == '\r' then ['\\', 'r']
  else if c == '\n' then ['\\', 'n']
  else if c == '"' || c == '\\' then ['\\', c]
  else if isExtending c || !isVisible c then escapeCode c
  else [c]

/-- The body of a literal. NUL has a short escape, written in full before an octal digit. -/
def encodeBody : List Char → List Char
  | [] => []
  | c :: cs =>
    if c.toNat == 0 then
      let octalNext := cs.head?.any fun d => '0' ≤ d && d ≤ '7'
      (if octalNext then ['\\', 'x', '0', '0'] else ['\\', '0']) ++ encodeBody cs
    else escapeChar c ++ encodeBody cs

/-- A text as a string literal. -/
def encode (s : String) : String :=
  String.ofList ('"' :: encodeBody s.toList ++ ['"'])

/-- The form in which diagnostics show a text: as `encode`, with the short escape for every NUL. -/
def debug (s : String) : String :=
  let body := s.toList.flatMap fun c => if c.toNat == 0 then ['\\', '0'] else escapeChar c
  String.ofList ('"' :: body ++ ['"'])

/-- The value of a hexadecimal digit. -/
def hexValue? (c : Char) : Option Nat :=
  if '0' ≤ c && c ≤ '9' then some (c.toNat - '0'.toNat)
  else if 'a' ≤ c && c ≤ 'f' then some (c.toNat - 'a'.toNat + 10)
  else if 'A' ≤ c && c ≤ 'F' then some (c.toNat - 'A'.toNat + 10)
  else none

/-- The kinds of literals that are written between quotes. -/
inductive Kind where
  /-- Any text; two-digit escapes stay within ASCII. -/
  | text
  /-- ASCII only, escapes by byte; there are no escapes by code point. -/
  | bytes
  /-- Any text and bytes without NUL. -/
  | nulFree
deriving DecidableEq

/-- What the reader of a literal's body expects next. -/
inductive Mode where
  /-- A character or a backslash. -/
  | plain
  /-- The character after a backslash. -/
  | escape
  /-- The first digit of a two-digit escape. -/
  | hexHigh
  /-- The second digit of a two-digit escape, after a first digit of the given value. -/
  | hexLow (high : Nat)
  /-- The opening brace of an escape by code point. -/
  | codeOpen
  /-- Digits of an escape by code point: their number so far, and their value. -/
  | code (count value : Nat)
  /-- Blanks after an escaped line break. -/
  | margin
  /-- The line feed of an escaped line break that began with a carriage return. -/
  | marginFeed
  /-- The line feed of a line break that began with a carriage return. -/
  | lineFeed
deriving DecidableEq

/-- A character of the body before which no escape is open. -/
def stepPlain (kind : Kind) (c : Char) : Option (Mode × List Char) :=
  if c == '\\' then some (.escape, [])
  else if c == '\r' then some (.lineFeed, [])
  else if kind = .bytes && 0x80 ≤ c.toNat then none
  else if kind = .nulFree && c.toNat == 0 then none
  else some (.plain, [c])

/-- The character after a backslash. -/
def stepEscape (kind : Kind) (c : Char) : Option (Mode × List Char) :=
  match c with
  | 'n' => some (.plain, ['\n'])
  | 'r' => some (.plain, ['\r'])
  | 't' => some (.plain, ['\t'])
  | '0' => if kind = .nulFree then none else some (.plain, [Char.ofNat 0])
  | '\\' => some (.plain, ['\\'])
  | '\'' => some (.plain, ['\''])
  | '"' => some (.plain, ['"'])
  | 'x' => some (.hexHigh, [])
  | 'u' => if kind = .bytes then none else some (.codeOpen, [])
  | '\n' => some (.margin, [])
  | '\r' => some (.marginFeed, [])
  | _ => none

/-- The end of an escape by code point. -/
def closeCode (kind : Kind) (value : Nat) : Option (Mode × List Char) :=
  if kind = .nulFree && value == 0 then none
  else if value.isValidChar then some (.plain, [Char.ofNat value])
  else none

/-- Reads one character of a literal's body: the next mode and what the character contributes. -/
def step (kind : Kind) : Mode → Char → Option (Mode × List Char)
  | .plain, c => stepPlain kind c
  | .escape, c => stepEscape kind c
  | .hexHigh, c => do
    let n ← hexValue? c
    if kind = .text && 8 ≤ n then none else some (.hexLow n, [])
  | .hexLow high, c => do
    let n ← hexValue? c
    let value := high * 16 + n
    if kind = .nulFree && value == 0 then none else some (.plain, [Char.ofNat value])
  | .codeOpen, c => if c == '\x7b' then some (.code 0 0, []) else none
  | .code count value, c =>
    if c == '\x7d' then if count == 0 then none else closeCode kind value
    else if c == '_' then if count == 0 then none else some (.code count value, [])
    else if count == 6 then none
    else (hexValue? c).map fun n => (.code (count + 1) (value * 16 + n), [])
  | .margin, c =>
    if c == ' ' || c == '\t' || c == '\n' then some (.margin, [])
    else if c == '\r' then some (.marginFeed, [])
    else stepPlain kind c
  | .marginFeed, c => if c == '\n' then some (.margin, []) else none
  | .lineFeed, c => if c == '\n' then some (.plain, ['\n']) else none

/-- Whether a quote closes the literal in the given mode. -/
def Mode.mayClose : Mode → Bool
  | .plain => true
  | .margin => true
  | _ => false

/-- Reads a literal's body up to its closing quote: the text it denotes, and what follows. -/
def readBody (kind : Kind) : Mode → List Char → Option (List Char × List Char)
  | _, [] => none
  | mode, c :: cs =>
    if c == '"' && mode.mayClose then some ([], cs)
    else do
      let (next, out) ← step kind mode c
      let (text, rest) ← readBody kind next cs
      return (out ++ text, rest)

/-- Whether a text starts with so many hash signs. -/
def startsWithHashes : Nat → List Char → Bool
  | 0, _ => true
  | n + 1, '#' :: cs => startsWithHashes n cs
  | _ + 1, _ => false

/-- Reads the body of a raw literal up to a quote followed by so many hash signs: the body, and
what follows them. -/
def readRawBody (kind : Kind) (hashes : Nat) : List Char → Option (List Char × List Char)
  | [] => none
  | '\r' :: '\n' :: cs => (readRawBody kind hashes cs).map fun r => ('\r' :: '\n' :: r.1, r.2)
  | c :: cs =>
    if c == '"' && startsWithHashes hashes cs then some ([], cs.drop hashes)
    else if c == '\r' || (kind = .bytes && 0x80 ≤ c.toNat) || (kind = .nulFree && c.toNat == 0) then
      none
    else (readRawBody kind hashes cs).map fun r => (c :: r.1, r.2)

/-- Reads a raw literal whose opening letters have been read. At most 255 hash signs guard it. -/
def readRaw (kind : Kind) (cs : List Char) : Option (List Char × List Char) :=
  let hashes := (cs.takeWhile (· == '#')).length
  match cs.drop hashes with
  | '"' :: body => if 255 < hashes then none else readRawBody kind hashes body
  | _ => none

/-- The text that a string literal denotes; `none` for literals of other kinds. -/
def decode? (literal : String) : Option String :=
  match literal.toList with
  | '"' :: body => (readBody .text .plain body).map fun r => String.ofList r.1
  | 'r' :: body => (readRaw .text body).map fun r => String.ofList r.1
  | _ => none

end ActionUnits.Text.Quoted
