import ActionUnits.Source.Grammar.Type

/-!
# Patterns
-/

namespace ActionUnits.Source

/-- A colon that is no part of `::`. -/
def isColon : Peek :=
  (isOp ":").butNot (isOp "::")

/-- The dots of a range: whether it is closed. Three dots also close a range if `obsolete` holds. -/
def rangeLimits (obsolete : Bool) : Parser Bool := do
  if ← op? "..=" then return true
  else if obsolete && (← peek (isOp "...")) then
    skip 3
    write (Token.operator "..=")
    return true
  else
    require (!(← peek (isOp "...")))
    op ".."
    return false

/-- A block that is evaluated when the program is compiled. -/
def constBlock (g : Grammar) : Parser Node := do
  word "const"
  let (attrs, body) ← blockWithAttrs g
  return .withAttrs attrs (.constBlock body)

/-- Whether a pattern has no upper bound here. -/
def isBoundAbsent : Peek :=
  anyOf [List.isEmpty, isOp "|", isOp "=", isColon, isOp ",", isOp ";", isWord "if"]

def rangeBound? (g : Grammar) : Parser (Option Node) := do
  if ← peek isBoundAbsent then return none
  else if ← peek isLiteral then return some (← literal)
  else if ← peek (anyOf [isIdent, isOp "::", isOp "<",
      isOneOf ["self", "Self", "super", "crate"]]) then
    return some (← qualifiedPath g true)
  else return some (← constBlock g)

/-- The rest of a range pattern after its lower bound. -/
def rangePattern (g : Grammar) (start : Node) : Parser Node := do
  let closed ← rangeLimits true
  let stop ← rangeBound? g
  require (!closed || stop.isSome)
  return .range (some start) closed stop

/-- The position that a number names: decimal digits, perhaps with underscores between them, whose
value fits into 32 bits. -/
def position? (numeral : List Char) : Option Nat :=
  let digits := numeral.filter (· != '_')
  let index := digits.foldl (fun n c => n * 10 + (c.toNat - '0'.toNat)) 0
  if !digits.isEmpty && digits.all Char.isDigit && index < 0x100000000 then some index else none

/-- A field, by name or by position. -/
def member : Parser Member := do
  if ← peek isIdent then return .named (← ident)
  else
    match ← take with
    | .literal text =>
      match position? text.toList with
      | some index =>
        write [.literal (toString index)]
        return .position index
      | none => failure
    | _ => failure

def fieldPattern (g : Grammar) (attrs : List Node) : Parser Node := do
  let start ← get
  let boxed ← word? "box"
  let byRef ← word? "ref"
  let mutable ← word? "mut"
  let marked := boxed || byRef || mutable
  let member ← if marked then pure (.named (← ident)) else member
  match member with
  | .named name =>
    if !marked && (← peek (isOp ":")) then
      op ":"
      return .fieldPattern attrs (some member) (← g .pattern)
    else if boxed then return .fieldPattern attrs none (← keepVerbatim start)
    else return .fieldPattern attrs none (.bindingPattern byRef mutable name none)
  | .position _ =>
    op ":"
    return .fieldPattern attrs (some member) (← g .pattern)

/-- The fields of a struct pattern, and the attributes of the dots that stand for the rest. -/
def structPatternFields (g : Grammar) : Parser (List Node × Option (List Node)) := do
  let rec go : Nat → Parser (List Node × Option (List Node))
    | 0 => failure
    | fuel + 1 => do
      if ← atEnd then return ([], none)
      else
        let attrs ← outerAttrs g
        if ← op? ".." then return ([], some attrs)
        else
          let field ← fieldPattern g attrs
          if ← atEnd then return ([field], none)
          else
            op ","
            let (fields, rest) ← go fuel
            return (field :: fields, rest)
  go ((← get).rest.length + 1)

def pathPattern (g : Grammar) : Parser Node := do
  let path ← qualifiedPath g true
  match path.plainPath?, ← peek isBang with
  | some plain, true => return .macroCall (← macroArguments plain)
  | _, _ =>
    if ← peek (isGroup .brace) then
      let (fields, rest) ← group .brace (structPatternFields g)
      return .structPattern path fields rest
    else if ← peek (isGroup .paren) then
      return .tupleStructPattern path (← group .paren (commaList (g .pattern)))
    else if ← peek (isOp "..") then rangePattern g path
    else return path

def isPathPattern : Peek :=
  let after : Peek :=
    anyOf [isOp "::", isOp "!", isGroup .brace, isGroup .paren, isOp ".."]
  anyOf [isIdent.and (second after), (isWord "self").and (second (isOp "::")), isOp "::", isOp "<",
    isOneOf ["Self", "super", "crate"]]

/-- A name that is bound, perhaps to what a further pattern matches. -/
def bindingPattern (g : Grammar) : Parser Node := do
  let byRef ← word? "ref"
  let mutable ← word? "mut"
  let name ← if ← peek (isWord "self") then anyWord else ident
  let sub ← when? (isOp "@") do
    op "@"
    g .singlePattern
  return .bindingPattern byRef mutable name sub

/-- Whether a pattern stands for the elements that are left. -/
def isRestPattern : Node → Bool
  | .restPattern => true
  | _ => false

/-- A pattern in parentheses, or a tuple of patterns. -/
def parenPattern (g : Grammar) : Parser Node :=
  group .paren do
    let parts ← repeated do
      if ← atEnd then return none
      else
        let pattern ← g .pattern
        if ← atEnd then return some (pattern, false)
        else
          op ","
          return some (pattern, true)
    match parts with
    | [(pattern, false)] =>
      if isRestPattern pattern then return .tuplePattern [pattern] false
      else return .parenPattern pattern
    | _ => return .tuplePattern (parts.map (·.1)) true

/-- Whether a pattern is a range that lacks a bound. -/
def isOpenRange : Node → Bool
  | .range none _ _ => true
  | .range _ _ none => true
  | _ => false

/-- A pattern without alternatives at its top. -/
def singlePattern (g : Grammar) : Parser Node := do
  if ← peek isPathPattern then pathPattern g
  else if ← word? "_" then return .wildPattern
  else if ← peek (isWord "box") then
    let start ← get
    word "box"
    let _ ← g .singlePattern
    keepVerbatim start
  else if ← peek (anyOf [isOp "-", isLiteral, isWord "const"]) then
    match ← rangeBound? g with
    | some start => if ← peek (isOp "..") then rangePattern g start else return start
    | none => failure
  else if ← peek (isIdent.or (isOneOf ["ref", "mut", "self"])) then bindingPattern g
  else if ← op? "&" then
    let mutable ← word? "mut"
    return .referencePattern mutable (← g .singlePattern)
  else if ← peek (isGroup .paren) then parenPattern g
  else if ← peek (isGroup .bracket) then
    let elements ← group .bracket (commaList (g .pattern))
    require (!elements.any isOpenRange)
    return .slicePattern elements
  else
    let closed ← rangeLimits false
    match ← rangeBound? g with
    | some stop => return .range none closed (some stop)
    | none =>
      require (!closed)
      return .restPattern

/-- Whether a bar comes next that separates alternatives. -/
def isAlternative : Peek :=
  (isOp "|").butNot (isAnyOp ["||", "|="])

def pattern (g : Grammar) : Parser Node := do
  let leading ← op? "|"
  let first ← g .singlePattern
  let others ← many isAlternative do
    op "|"
    g .singlePattern
  if leading || !others.isEmpty then return .orPattern leading (first :: others)
  else return first

end ActionUnits.Source
