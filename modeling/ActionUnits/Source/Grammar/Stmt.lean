import ActionUnits.Source.Grammar.Item

/-!
# Statements
-/

namespace ActionUnits.Source

def closesBrace (tokens : List Token) : Bool :=
  match tokens.getLast? with
  | some (.group delimiter _) => delimiter == .brace
  | _ => false

mutual

/-- Whether a type, or a part of one, ends in a brace. -/
def typeEndsInBrace : Node → Bool
  | .pointerType _ target => typeEndsInBrace target
  | .referenceType _ _ target => typeEndsInBrace target
  | .functionType _ _ _ _ _ (some output) => typeEndsInBrace output
  | .implType bounds => lastEndsInBrace bounds
  | .traitObject bounds => lastEndsInBrace bounds
  | .traitBound _ _ _ path => typeEndsInBrace path
  | .path _ segments => lastEndsInBrace segments
  | .qualifiedPath _ _ segments => lastEndsInBrace segments
  | .segment _ (some arguments) => typeEndsInBrace arguments
  | .parenArguments _ (some output) => typeEndsInBrace output
  | .macroCall call => call.delimiter == .brace
  | .verbatim tokens => closesBrace tokens
  | _ => false
termination_by structural node => node

/-- Whether the last one of several parts of a type ends in a brace. -/
def lastEndsInBrace : List Node → Bool
  | [] => false
  | [node] => typeEndsInBrace node
  | _ :: nodes => lastEndsInBrace nodes
termination_by structural nodes => nodes

end

def endsInBrace : Node → Bool
  | .attributed _ e => endsInBrace e
  | .asyncBlock _ _ => true
  | .blockExpr _ _ => true
  | .constBlock _ => true
  | .forLoop _ _ _ _ => true
  | .ifElse _ _ _ => true
  | .loop _ _ => true
  | .matchOn _ _ => true
  | .structExpr _ _ _ _ => true
  | .tryBlock _ => true
  | .unsafeBlock _ => true
  | .whileLoop _ _ _ => true
  | .assign _ right => endsInBrace right
  | .binary _ _ right => endsInBrace right
  | .breakExpr _ (some value) => endsInBrace value
  | .cast _ ty => typeEndsInBrace ty
  | .closure _ _ _ _ _ _ _ body => endsInBrace body
  | .letCondition _ value => endsInBrace value
  | .macroCall call => call.delimiter == .brace
  | .range _ _ (some stop) => endsInBrace stop
  | .rawAddress _ place => endsInBrace place
  | .reference _ place => endsInBrace place
  | .returnExpr (some value) => endsInBrace value
  | .unary _ operand => endsInBrace operand
  | .verbatim tokens => closesBrace tokens
  | .yieldExpr (some value) => endsInBrace value
  | _ => false
termination_by structural e => e

/-- A declaration of local variables, after its attributes. -/
def localStmt (g : Grammar) (attrs : List Node) : Parser Node := do
  word "let"
  let pattern ← g .singlePattern
  let pattern ← if ← op? ":" then pure (.typedPattern [] pattern (← g (.ty true)))
    else pure pattern
  if ← op? "=" then
    let value ← g (.expr true)
    let diverge ←
      if !endsInBrace value && (← peek (isWord "else")) then
        word "else"
        pure (some (.blockExpr none (← blockIn g)))
      else pure none
    op ";"
    return .localStmt attrs pattern (some value) diverge
  else
    op ";"
    return .localStmt attrs pattern none none

/-- Attaches attributes to the leftmost operand of an expression. -/
def attachAttrs (attrs : List Node) : Node → Node
  | .assign left right => .assign (attachAttrs attrs left) right
  | .binary left operator right => .binary (attachAttrs attrs left) operator right
  | .cast value ty => .cast (attachAttrs attrs value) ty
  | e => .withAttrs attrs e
termination_by structural e => e

/-- An expression as a statement, after its attributes. -/
def exprStmt (g : Grammar) (attrs : List Node) : Parser Node := do
  let e ← g .earlyExpr
  let e := if attrs.isEmpty then e else attachAttrs attrs e
  let semicolon ← op? ";"
  match e.splitAttrs with
  | (attrs, .macroCall call) =>
    if semicolon || call.delimiter == .brace then return .macroStmt attrs call semicolon
    else return .exprStmt e false
  | _ => return .exprStmt e semicolon

def isItemStart : Peek :=
  let function : Peek := isOneOf ["unsafe", "extern", "fn"]
  anyOf
    [isOneOf ["pub", "extern", "use", "fn", "mod", "type", "struct", "enum", "trait", "impl",
      "macro"],
     (isWord "crate").butNot (second (isOp "::")),
     (isWord "static").and (second ((isWord "mut").or isIdent)),
     (isWord "const").butNot (anyOf
       [second (isGroup .brace), second (isOneOf ["static", "move"]), second (isOp "|"),
        (second (isWord "async")).butNot (third function)]),
     (isWord "unsafe").butNot (second (isGroup .brace)),
     (isWord "async").and (second function),
     (isWord "union").and (second isIdent),
     (isWord "auto").and (second (isWord "trait")),
     (isWord "default").and (second (isOneOf ["unsafe", "impl"]))]

/-- How a macro call at the start of a statement is read. -/
inductive MacroStart where
  /-- As an item that the macro names. -/
  | item
  /-- As a statement that its braces end. -/
  | statement
  /-- As an expression, or there is no macro call. -/
  | other

/-- The tokens after the names of a plain path. -/
def afterNames : List Token → Option (List Token)
  | .ident name :: rest =>
    if isPlainSegment [.ident name] then
      match rest with
      | .punct ':' true :: .punct ':' _ :: more => afterNames more
      | _ => some rest
    else none
  | _ => none

def afterPlainPath (tokens : List Token) : Option (List Token) :=
  afterNames (if isOp "::" tokens then tokens.drop 2 else tokens)

/-- Looks at a macro call at the start of a statement. -/
def macroStart (tokens : List Token) : MacroStart :=
  match afterPlainPath tokens with
  | none => .other
  | some after =>
    if !isOp "!" after then .other
    else if second (isIdent.or (isWord "try")) after then .item
    else if second (isGroup .brace) after &&
        !(third (((isOp ".").butNot (isOp "..")).or (isOp "?")) after) then
      .statement
    else .other

def statement (g : Grammar) : Parser Node := do
  let start ← get
  let attrs ← outerAttrs g
  match macroStart (← get).rest with
  | .statement =>
    let path ← plainPath
    let call ← macroArguments path
    return .macroStmt attrs call (← op? ";")
  | .item => restOfItem g start attrs
  | .other =>
    if ← peek (isWord "let") then localStmt g attrs
    else if ← peek isItemStart then restOfItem g start attrs
    else exprStmt g attrs

/-- Whether a statement must be the last one of its block. -/
def mustBeLast : Node → Bool
  | .exprStmt e false =>
    match e.bare with
    | .macroCall call => call.delimiter != .brace
    | _ => !isBlockLike e
  | .macroStmt _ call semicolon => !semicolon && call.delimiter != .brace
  | _ => false

/-- The statements of a block. A semicolon alone is an empty statement. -/
def statements (g : Grammar) : Parser Node := do
  let parts ← repeated do
    if ← op? ";" then return some (.exprStmt (.verbatim []) true)
    else if ← atEnd then return none
    else
      let node ← statement g
      require (!mustBeLast node || (← atEnd))
      return some node
  return .block parts

end ActionUnits.Source
