import ActionUnits.Source.Node

/-!
# Parsers on tokens

A parser reads tokens and writes the tokens of the fragment it has recognised. What it writes is
what it reads, with operators split or joined as the grammar reads them, so a fragment's tokens
come with its tree. A parser that fails has no answer: the wording of its failure is not kept.
-/

namespace ActionUnits.Source

/-- The tokens still to be read, and those written so far, last one first. -/
structure Cursor where
  rest : List Token
  written : List Token

/-- A parser with results of type `α`. -/
abbrev Parser := StateT Cursor Option

/-- A question about the tokens that come next. -/
abbrev Peek := List Token → Bool

/-! ## Looking ahead -/

/-- Whether the next tokens spell an operator; they are joined to each other, and the last one may
be joined to more. -/
def nextIsOp : List Char → Peek
  | [c], .punct d _ :: _ => c == d
  | c :: cs, .punct d true :: rest => c == d && nextIsOp cs rest
  | _, _ => false

/-- Whether an operator comes next. -/
def isOp (text : String) : Peek :=
  nextIsOp text.toList

/-- Whether the next token is the given word. -/
def isWord (text : String) : Peek
  | .ident name :: _ => name.text == text
  | _ => false

/-- Words that are no identifiers. -/
def keywords : List String :=
  ["_", "abstract", "as", "async", "await", "become", "box", "break", "const", "continue", "crate",
   "do", "dyn", "else", "enum", "extern", "false", "final", "fn", "for", "if", "impl", "in", "let",
   "loop", "macro", "match", "mod", "move", "mut", "override", "priv", "pub", "ref", "return",
   "Self", "self", "static", "struct", "super", "trait", "true", "try", "type", "typeof", "unsafe",
   "unsized", "use", "virtual", "where", "while", "yield"]

/-- Whether a word is reserved. -/
def isKeyword (name : Ident) : Bool :=
  keywords.contains name.text

/-- Whether an identifier comes next. -/
def isIdent : Peek
  | .ident name :: _ => !isKeyword name
  | _ => false

/-- Whether an identifier or a keyword comes next. -/
def isAnyWord : Peek
  | .ident _ :: _ => true
  | _ => false

/-- Whether a lifetime comes next. -/
def isLifetime : Peek
  | .punct '\'' true :: .ident _ :: _ => true
  | _ => false

/-- Whether a group comes next. -/
def isGroup (delimiter : Delimiter) : Peek
  | .group d _ :: _ => d == delimiter
  | _ => false

/-- Whether a literal is a number. -/
def isNumeral (text : String) : Bool :=
  text.toList.head?.any Char.isDigit

/-- Whether the characters after the letter of an exponent make one: digits and underscores, with a
sign or at least one digit. -/
def isExponent : List Char → Bool
  | [] => false
  | c :: cs =>
    if c == '+' || c == '-' then true
    else if c.isDigit then true
    else if c == '_' then isExponent cs
    else false

/-- Whether the digits of a decimal number are followed by a point or an exponent. -/
def hasFraction : List Char → Bool
  | [] => false
  | c :: cs =>
    if c.isDigit || c == '_' then hasFraction cs
    else c == '.' || ((c == 'e' || c == 'E') && isExponent cs)

/-- Whether a literal is a number with a point or an exponent. -/
def isFloat (text : String) : Bool :=
  match text.toList with
  | '0' :: 'x' :: _ => false
  | '0' :: 'o' :: _ => false
  | '0' :: 'b' :: _ => false
  | cs => isNumeral text && hasFraction cs

/-- Whether a literal expression comes next; a minus sign may precede a number. -/
def isLiteral : Peek
  | .literal _ :: _ => true
  | .ident name :: _ => name.text == "true" || name.text == "false"
  | .punct '-' _ :: .literal text :: _ => isNumeral text
  | _ => false

/-- Whether a string literal comes next. -/
def isString : Peek
  | .literal text :: _ => text.toList.head?.any fun c => c == '"' || c == 'r'
  | _ => false

/-- The tokens after the next one; a lifetime counts as one. -/
def afterOne : List Token → List Token
  | .punct '\'' true :: .ident _ :: rest => rest
  | _ :: rest => rest
  | [] => []

def second (peek : Peek) : Peek :=
  fun tokens => peek (afterOne tokens)

def third (peek : Peek) : Peek :=
  fun tokens => peek (afterOne (afterOne tokens))

/-- Both questions. -/
def Peek.and (p q : Peek) : Peek :=
  fun tokens => p tokens && q tokens

/-- Either question. -/
def Peek.or (p q : Peek) : Peek :=
  fun tokens => p tokens || q tokens

/-- The first question and not the second. -/
def Peek.butNot (p q : Peek) : Peek :=
  fun tokens => p tokens && !q tokens

/-- Any of the questions. -/
def anyOf (peeks : List Peek) : Peek :=
  fun tokens => peeks.any (· tokens)

/-- Whether one of the operators comes next. -/
def isAnyOp (ops : List String) : Peek :=
  fun tokens => ops.any (isOp · tokens)

/-- Whether one of the words comes next. -/
def isOneOf (words : List String) : Peek :=
  fun tokens => words.any (isWord · tokens)

/-! ## Reading -/

/-- Asks about the tokens that come next. -/
def peek (question : Peek) : Parser Bool :=
  return question (← get).rest

/-- Fails unless the condition holds. -/
def require (condition : Bool) : Parser Unit :=
  if condition then pure () else failure

/-- Whether all tokens have been read. -/
def atEnd : Parser Bool :=
  peek List.isEmpty

def write (tokens : List Token) : Parser Unit :=
  modify fun cursor => { cursor with written := tokens.reverse ++ cursor.written }

/-- Reads the next token without writing it. -/
def take : Parser Token := do
  match (← get).rest with
  | token :: rest =>
    modify fun cursor => { cursor with rest }
    return token
  | [] => failure

/-- Reads so many tokens without writing them. -/
def skip (count : Nat) : Parser Unit :=
  modify fun cursor => { cursor with rest := cursor.rest.drop count }

/-- Reads an operator. -/
def op (text : String) : Parser Unit := do
  require (← peek (isOp text))
  skip text.length
  write (Token.operator text)

/-- Reads an operator if it comes next. -/
def op? (text : String) : Parser Bool := do
  if ← peek (isOp text) then op text; return true
  else return false

/-- Reads an identifier or keyword. -/
def anyWord : Parser Ident := do
  match ← take with
  | .ident name => write [.ident name]; return name
  | _ => failure

def ident : Parser Ident := do
  require (← peek isIdent)
  anyWord

/-- Reads the given word. -/
def word (text : String) : Parser Unit := do
  require (← peek (isWord text))
  let _ ← anyWord

/-- Reads the given word if it comes next. -/
def word? (text : String) : Parser Bool := do
  if ← peek (isWord text) then word text; return true
  else return false

/-- Reads a lifetime; its name has no apostrophe. -/
def lifetime : Parser Ident := do
  require (← peek isLifetime)
  write [← take]
  anyWord

/-- Reads a lifetime if one comes next. -/
def lifetime? : Parser (Option Ident) := do
  if ← peek isLifetime then return some (← lifetime)
  else return none

/-- Reads a literal; a number may have a minus sign. -/
def literal : Parser Node := do
  require (← peek isLiteral)
  match ← take with
  | .literal text => write [.literal text]; return .literal text
  | .ident name => write [.ident name]; return .literal name.text
  | _ =>
    match ← take with
    | .literal text =>
      write [.punct '-' false, .literal text]
      return .literal ("-" ++ text)
    | _ => failure

/-- Runs a parser on the same tokens and gives its result with what it has written, not writing
it. -/
def capture {α : Type} (parser : Parser α) : Parser (α × List Token) := do
  let before ← get
  set { before with written := [] }
  let result ← parser
  let after ← get
  set { after with written := before.written }
  return (result, after.written.reverse)

/-- Runs a parser on the contents of a group, which it must read to their end. -/
def group {α : Type} (delimiter : Delimiter) (parser : Parser α) : Parser α := do
  match ← take with
  | .group d body =>
    require (d == delimiter)
    let (result, after) ← StateT.lift (parser { rest := body, written := [] })
    require after.rest.isEmpty
    write [.group d after.written.reverse]
    return result
  | _ => failure

/-- Reads a group and keeps its contents as they are. -/
def anyGroup : Parser (Delimiter × List Token) := do
  match ← take with
  | .group d body => write [.group d body]; return (d, body)
  | _ => failure

/-- Gives up the reading since `start`: its tokens are written as they were read. -/
def keepVerbatim (start : Cursor) : Parser Node := do
  let now ← get
  let tokens := start.rest.take (start.rest.length - now.rest.length)
  set { now with written := tokens.reverse ++ start.written }
  return .verbatim tokens

/-! ## Repetition -/

/-- Repeats a step until it gives nothing, at most as often as `fuel` allows. -/
def repeatStep {α : Type} (step : Parser (Option α)) : Nat → Parser (List α)
  | 0 => failure
  | fuel + 1 => do
    match ← step with
    | some a => return a :: (← repeatStep step fuel)
    | none => return []

/-- Repeats a step that reads at least one token until it gives nothing. -/
def repeated {α : Type} (step : Parser (Option α)) : Parser (List α) := do
  repeatStep step ((← get).rest.length + 1)

/-- Repeats a parser while a question is answered with yes. -/
def many {α : Type} (more : Peek) (parser : Parser α) : Parser (List α) :=
  repeated do
    if ← peek more then return some (← parser)
    else return none

/-- Repeats a parser until all tokens have been read. -/
def untilEnd {α : Type} (parser : Parser α) : Parser (List α) :=
  many (fun tokens => !tokens.isEmpty) parser

/-- Reads elements and the separators between them up to a closing place; a separator may also
stand after the last element. -/
def separated {α : Type} (separator : String) (stop : Peek) (parser : Parser α) :
    Parser (List α) :=
  repeated do
    if ← peek stop then return none
    else
      let a ← parser
      unless ← peek stop do op separator
      return some a

/-- Reads elements separated by commas to the end. -/
def commaList {α : Type} (parser : Parser α) : Parser (List α) :=
  separated "," List.isEmpty parser

/-- Reads elements joined by plus signs for as long as a plus sign follows and no stop is reached;
there may be none, and a plus sign may also stand after the last one. -/
def plusList {α : Type} (stop : Peek) (parser : Parser α) : Parser (List α) := do
  let step : Bool → Parser (Option (α × Bool)) := fun more => do
    if !more || (← peek stop) then return none
    else
      let a ← parser
      return some (a, ← op? "+")
  let rec go : Nat → Bool → Parser (List α)
    | 0, _ => failure
    | fuel + 1, more => do
      match ← step more with
      | some (a, more) => return a :: (← go fuel more)
      | none => return []
  go ((← get).rest.length + 1) true

/-- Repeats a change for as long as it applies, at most as often as `fuel` allows. -/
def iterateStep {α : Type} (step : α → Parser (Option α)) : Nat → α → Parser α
  | 0, _ => failure
  | fuel + 1, a => do
    match ← step a with
    | some a => iterateStep step fuel a
    | none => return a

/-- Repeats a change that reads at least one token for as long as it applies. -/
def iterate {α : Type} (step : α → Parser (Option α)) (start : α) : Parser α := do
  iterateStep step ((← get).rest.length + 1) start

/-- Runs a parser if a question is answered with yes. -/
def when? {α : Type} (question : Peek) (parser : Parser α) : Parser (Option α) := do
  if ← peek question then return some (← parser)
  else return none

end ActionUnits.Source
