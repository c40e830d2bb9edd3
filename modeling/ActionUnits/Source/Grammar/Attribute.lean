import ActionUnits.Source.Grammar.Basic

/-!
# Attributes, plain paths and macro calls
-/

namespace ActionUnits.Source

/-- Whether a segment of a plain path comes next. -/
def isPlainSegment : Peek :=
  isIdent.or (isOneOf ["super", "self", "Self", "crate"])

def plainSegment : Parser Ident := do
  require (← peek isPlainSegment)
  anyWord

def plainPath : Parser PlainPath := do
  let rooted ← op? "::"
  let first ← plainSegment
  let others ← many (isOp "::") do
    op "::"
    plainSegment
  return ⟨rooted, first :: others⟩

/-- Whether a group comes next. -/
def isAnyGroup : Peek :=
  anyOf [isGroup .paren, isGroup .bracket, isGroup .brace]

/-- Whether an exclamation mark comes next that is no part of `!=`. -/
def isBang : Peek :=
  (isOp "!").butNot (isOp "!=")

def macroArguments (path : PlainPath) : Parser MacroCall := do
  op "!"
  let (delimiter, body) ← anyGroup
  return ⟨path, delimiter, body⟩

/-- The path that an attribute names. -/
def attrPath : Parser PlainPath := do
  if ← peek (isWord "unsafe") then return ⟨false, [← anyWord]⟩
  else plainPath

/-- The contents of an attribute. -/
def metaItem (g : Grammar) (inner : Bool) : Parser Node := do
  let path ← attrPath
  if ← peek isAnyGroup then
    let (delimiter, body) ← anyGroup
    return .attrList inner path delimiter body
  else if ← op? "=" then
    require (!(← peek ((isOp "#").and (second (isGroup .bracket)))))
    return .attrValue inner path (← g (.expr true))
  else return .attrWord inner path

/-- The attributes in front of something. -/
def outerAttrs (g : Grammar) : Parser (List Node) :=
  many (isOp "#") do
    op "#"
    group .bracket (metaItem g false)

/-- The attributes at the start of the inside of something. -/
def innerAttrs (g : Grammar) : Parser (List Node) :=
  many ((isOp "#").and (second (isOp "!"))) do
    op "#"
    op "!"
    group .bracket (metaItem g true)

/-- A block in braces that may start with attributes of its own. -/
def blockWithAttrs (g : Grammar) : Parser (List Node × Node) :=
  group .brace do
    let attrs ← innerAttrs g
    return (attrs, ← g .statements)

/-- Whether the contents of parentheses restrict a visibility: a path after `in`, or one of three
words alone. -/
def isRestriction (body : List Token) : Bool :=
  isWord "in" body || (isOneOf ["crate", "self", "super"] body && body.tail.isEmpty)

/-- Whether parentheses come next that restrict a visibility. -/
def isRestricted : Peek
  | .group .paren body :: _ => isRestriction body
  | _ => false

/-- The contents of the parentheses of a visibility. -/
def restriction : Parser PlainPath := do
  if ← word? "in" then plainPath
  else return ⟨false, [← anyWord]⟩

/-- A visibility, possibly the empty one. -/
def visibility : Parser Visibility := do
  if ← word? "pub" then
    if ← peek isRestricted then return .within (← group .paren restriction)
    else return .everywhere
  else return .inherited

end ActionUnits.Source
