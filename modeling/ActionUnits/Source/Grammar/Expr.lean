import ActionUnits.Source.Grammar.Pattern

/-!
# Expressions

Operators bind by strength; operators of one strength group to the left, except assignments, which
group to the right, and comparisons and ranges, which do not group at all. A block-like expression
at the start of a statement or of a match arm ends that expression.
-/

namespace ActionUnits.Source

/-! ## Operators -/

/-- Operators between two operands, longer ones first, with their binding strengths. -/
def binaryOperators : List (String × Precedence) :=
  [("+=", .assign), ("-=", .assign), ("*=", .assign), ("/=", .assign), ("%=", .assign),
   ("^=", .assign), ("&=", .assign), ("|=", .assign), ("<<=", .assign), (">>=", .assign),
   ("&&", .and), ("||", .or), ("<<", .shift), (">>", .shift), ("==", .compare), ("<=", .compare),
   ("!=", .compare), (">=", .compare), ("+", .sum), ("-", .sum), ("*", .product), ("/", .product),
   ("%", .product), ("^", .bitXor), ("&", .bitAnd), ("|", .bitOr), ("<", .compare),
   (">", .compare)]

def nextOperator (tokens : List Token) : Option (String × Precedence) :=
  binaryOperators.find? fun entry => isOp entry.1 tokens

def strengthOf (operator : String) : Precedence :=
  (binaryOperators.lookup operator).getD .jump

/-- Whether an equals sign comes next that is no part of `=>`. -/
def isAssign : Peek :=
  (isOp "=").butNot (isOp "=>")

/-- The binding strength of what comes next; the weakest if it is no operator. -/
def nextStrength (tokens : List Token) : Precedence :=
  match nextOperator tokens with
  | some (_, strength) => strength
  | none =>
    if isAssign tokens then .assign
    else if isOp ".." tokens then .range
    else if isWord "as" tokens then .cast
    else .jump

def isRange (e : Node) : Bool :=
  match e.bare with
  | .range _ _ _ => true
  | _ => false

/-- Whether an expression is a comparison. -/
def isComparison (e : Node) : Bool :=
  match e.bare with
  | .binary _ operator _ => strengthOf operator == .compare
  | _ => false

def isRangeEnd (braces : Bool) : Peek :=
  anyOf [List.isEmpty, (isOp ".").butNot (isOp ".."),
    isAnyOp [",", ";", "?", "=>", "=", "+", "/", "%", "^", ">", "<=", "!=", "-=", "*=", "&=", "|=",
      "<<="],
    isWord "as", fun tokens => !braces && isGroup .brace tokens]

def rangeEnd (g : Grammar) (closed braces : Bool) : Parser (Option Node) := do
  if !closed && (← peek (isRangeEnd braces)) then return none
  else return some (← g (.operand braces .range))

/-- Whether something follows that cannot be applied to a cast. -/
def isCastTrailer : Peek :=
  anyOf [(isOp ".").butNot (isOp ".."), isOp "?", isGroup .bracket, isGroup .paren]

/-- Extends an expression by the operators that follow it and bind at least as strongly as
`base`. -/
def operators (g : Grammar) (braces : Bool) (base : Precedence) (start : Node) : Parser Node :=
  iterate (fun left => do
    if isRange left then return none
    else
      let tokens := (← get).rest
      match nextOperator tokens with
      | some (text, strength) =>
        if strength.rank < base.rank then return none
        else
          require (!(strength == .compare && isComparison left))
          op text
          return some (.binary left text (← g (.operand braces strength)))
      | none =>
        if base.rank ≤ Precedence.assign.rank && isAssign tokens then
          op "="
          return some (.assign left (← g (.operand braces .assign)))
        else if base.rank ≤ Precedence.range.rank && isOp ".." tokens then
          let closed ← rangeLimits false
          return some (.range (some left) closed (← rangeEnd g closed braces))
        else if base.rank ≤ Precedence.cast.rank && isWord "as" tokens then
          word "as"
          let ty ← g (.ty false)
          require (!(← peek isCastTrailer))
          return some (.cast left ty)
        else return none) start

/-- The right operand of an operator of the given strength. -/
def operand (g : Grammar) (braces : Bool) (strength : Precedence) : Parser Node := do
  iterate (fun right => do
    let before := (← get).rest
    let next := nextStrength before
    if strength.rank < next.rank || (next == strength && strength == .assign) then
      let extended ← operators g braces next right
      if (← get).rest.length == before.length then return none else return some extended
    else return none) (← g (.unary braces))

/-- An expression. -/
def expr (g : Grammar) (braces : Bool) : Parser Node := do
  operators g braces .jump (← g (.unary braces))

/-! ## Blocks, conditions and loops -/

/-- An `if` with the branches that follow it. -/
def ifElse (g : Grammar) : Parser Node := do
  let rec go : Nat → Parser Node
    | 0 => failure
    | fuel + 1 => do
      word "if"
      let condition ← g (.expr false)
      let body ← blockIn g
      if ← word? "else" then
        if ← peek (isWord "if") then return .ifElse condition body (some (← go fuel))
        else return .ifElse condition body (some (.blockExpr none (← blockIn g)))
      else return .ifElse condition body none
  go ((← get).rest.length + 1)

def whileLoop (g : Grammar) (label : Option Ident) : Parser Node := do
  word "while"
  let condition ← g (.expr false)
  let (attrs, body) ← blockWithAttrs g
  return .withAttrs attrs (.whileLoop label condition body)

def forLoop (g : Grammar) (label : Option Ident) : Parser Node := do
  word "for"
  let pattern ← g .pattern
  word "in"
  let source ← g (.expr false)
  let (attrs, body) ← blockWithAttrs g
  return .withAttrs attrs (.forLoop label pattern source body)

def plainLoop (g : Grammar) (label : Option Ident) : Parser Node := do
  word "loop"
  let (attrs, body) ← blockWithAttrs g
  return .withAttrs attrs (.loop label body)

def blockExpr (g : Grammar) (label : Option Ident) : Parser Node := do
  let (attrs, body) ← blockWithAttrs g
  return .withAttrs attrs (.blockExpr label body)

/-- A loop or block with a label. -/
def labelled (g : Grammar) : Parser Node := do
  let label ← lifetime
  op ":"
  if ← peek (isWord "while") then whileLoop g (some label)
  else if ← peek (isWord "for") then forLoop g (some label)
  else if ← peek (isWord "loop") then plainLoop g (some label)
  else blockExpr g (some label)

/-- Whether an expression needs no separator after it in a list of arms. -/
def isBlockLike (e : Node) : Bool :=
  match e.bare with
  | .ifElse _ _ _ => true
  | .matchOn _ _ => true
  | .blockExpr _ _ => true
  | .unsafeBlock _ => true
  | .whileLoop _ _ _ => true
  | .loop _ _ => true
  | .forLoop _ _ _ _ => true
  | .tryBlock _ => true
  | .constBlock _ => true
  | _ => false

def arm (g : Grammar) : Parser Node := do
  let attrs ← outerAttrs g
  let pattern ← g .pattern
  let guard ← when? (isWord "if") do
    word "if"
    g (.expr true)
  op "=>"
  let body ← g .earlyExpr
  if !isBlockLike body && !(← atEnd) then op ","
  else let _ ← op? ","
  return .arm attrs pattern guard body

def matchOn (g : Grammar) : Parser Node := do
  word "match"
  let scrutinee ← g (.expr false)
  let (attrs, arms) ← group .brace do
    let attrs ← innerAttrs g
    return (attrs, ← untilEnd (arm g))
  return .withAttrs attrs (.matchOn scrutinee arms)

def unsafeBlock (g : Grammar) : Parser Node := do
  word "unsafe"
  let (attrs, body) ← blockWithAttrs g
  return .withAttrs attrs (.unsafeBlock body)

/-- A block whose failures stay inside it. -/
def tryBlock (g : Grammar) : Parser Node := do
  word "try"
  return .tryBlock (← blockIn g)

/-! ## Operands -/

def closureParam (g : Grammar) : Parser Node := do
  let attrs ← outerAttrs g
  let pattern ← g .singlePattern
  if ← op? ":" then return .typedPattern attrs pattern (← g (.ty true))
  else return .withAttrs attrs pattern

def closure (g : Grammar) (braces : Bool) : Parser Node := do
  let lifetimes ← boundLifetimes? g
  let isConst ← word? "const"
  let isStatic ← word? "static"
  let isAsync ← word? "async"
  let move ← word? "move"
  op "|"
  let params ← separated "," (isOp "|") (closureParam g)
  op "|"
  if ← op? "->" then
    let output ← g (.ty true)
    let body := .blockExpr none (← blockIn g)
    return .closure lifetimes isConst isStatic isAsync move params (some output) body
  else
    return .closure lifetimes isConst isStatic isAsync move params none (← g (.expr braces))

/-- Whether an expression can start here. -/
def isExprStart : Peek :=
  anyOf [isAnyWord.butNot (isWord "as"), isGroup .paren, isGroup .bracket, isGroup .brace,
    isLiteral, (isOp "!").butNot (isOp "!="), (isOp "-").butNot (isAnyOp ["-=", "->"]),
    (isOp "*").butNot (isOp "*="), (isOp "|").butNot (isOp "|="), (isOp "&").butNot (isOp "&="),
    isOp "..", (isOp "<").butNot (isAnyOp ["<=", "<<="]), isOp "::", isLifetime, isOp "#"]

/-- A field of a struct expression. -/
def fieldValue (g : Grammar) : Parser Node := do
  let attrs ← outerAttrs g
  let member ← member
  let named := match member with
    | .named _ => true
    | .position _ => false
  if !named || (← peek (isOp ":")) then
    op ":"
    return .fieldValue attrs member (some (← g (.expr true)))
  else return .fieldValue attrs member none

/-- The contents of the braces of a struct expression. -/
def structFields (g : Grammar) (path : Node) : Parser Node := do
  let rec go : Nat → List Node → Parser Node
    | 0, _ => failure
    | fuel + 1, fields => do
      if ← atEnd then return .structExpr path fields false none
      else if ← op? ".." then
        if ← atEnd then return .structExpr path fields true none
        else return .structExpr path fields true (some (← g (.expr true)))
      else
        let fields := fields ++ [← fieldValue g]
        unless ← atEnd do op ","
        go fuel fields
  go ((← get).rest.length + 1) []

/-- An expression that starts with a path. -/
def pathExpr (g : Grammar) (braces : Bool) : Parser Node := do
  let path ← qualifiedPath g true
  match path.plainPath?, ← peek isBang with
  | some plain, true => return .macroCall (← macroArguments plain)
  | _, _ =>
    if braces && (← peek (isGroup .brace)) then group .brace (structFields g path)
    else return path

/-- An expression in parentheses, or a tuple. -/
def parenExpr (g : Grammar) : Parser Node :=
  group .paren do
    if ← atEnd then return .tuple []
    else
      let first ← g (.expr true)
      if ← atEnd then return .paren first
      else
        op ","
        return .tuple (first :: (← commaList (g (.expr true))))

/-- An array, given by its elements or by one element and a length. -/
def arrayExpr (g : Grammar) : Parser Node :=
  group .bracket do
    if ← atEnd then return .array []
    else
      let first ← g (.expr true)
      if ← atEnd then return .array [first]
      else if ← op? "," then return .array (first :: (← commaList (g (.expr true))))
      else
        op ";"
        return .repeatArray first (← g (.expr true))

def breakExpr (g : Grammar) (braces : Bool) : Parser Node := do
  word "break"
  let label ← lifetime?
  require (!(label.isSome && (← peek (isOp ":"))))
  if (← peek isExprStart) && (braces || !(← peek (isGroup .brace))) then
    return .breakExpr label (some (← g (.expr true)))
  else return .breakExpr label none

/-- An expression that a keyword puts in front of an optional value. -/
def jump (g : Grammar) (keyword : String) (make : Option Node → Node) : Parser Node := do
  word keyword
  return make (← when? isExprStart (g (.expr true)))

/-- A pattern that is tested in a condition. -/
def letCondition (g : Grammar) : Parser Node := do
  word "let"
  let pattern ← g .pattern
  op "="
  return .letCondition pattern (← operators g false .compare (← g (.unary false)))

def isClosureStart : Peek :=
  anyOf [isOp "|", isWord "move", (isWord "for").and (second' isGenericsStart),
    (isWord "const").butNot (second (isGroup .brace)), isWord "static",
    (isWord "async").and (second ((isOp "|").or (isWord "move")))]
where
  /-- A question about the tokens after the first one. -/
  second' (question : Peek) : Peek := fun tokens => question tokens.tail

def isPathExprStart : Peek :=
  anyOf [isIdent, isOp "::", isOp "<", isOneOf ["self", "Self", "super", "crate"],
    (isWord "try").and (second ((isOp "!").or (isOp "::")))]

/-- Whether an expression that is built into the compiler starts here. -/
def isBuiltinStart : Peek :=
  (isWord "builtin").and (second (isOp "#"))

/-- An expression that is built into the compiler. It is kept unread. -/
def builtinExpr : Parser Node := do
  let start ← get
  word "builtin"
  op "#"
  let _ ← ident
  let arguments ← anyGroup
  require (arguments.1 == .paren)
  keepVerbatim start

/-- Whether a block of asynchronous code starts here. -/
def isAsyncBlock : Peek :=
  (isWord "async").and <|
    (second (isGroup .brace)).or ((second (isWord "move")).and (third (isGroup .brace)))

/-- An operand without what is applied to it. -/
def atom (g : Grammar) (braces : Bool) : Parser Node := do
  if ← peek isLiteral then literal
  else if ← peek isAsyncBlock then
    word "async"
    let move ← word? "move"
    return .asyncBlock move (← blockIn g)
  else if ← peek ((isWord "try").and (second (isGroup .brace))) then tryBlock g
  else if ← peek isClosureStart then closure g braces
  else if ← peek isBuiltinStart then builtinExpr
  else if ← peek isPathExprStart then pathExpr g braces
  else if ← peek (isGroup .paren) then parenExpr g
  else if ← peek (isWord "break") then breakExpr g braces
  else if ← word? "continue" then return .continueExpr (← lifetime?)
  else if ← peek (isWord "return") then jump g "return" .returnExpr
  else if ← peek (isWord "become") then
    let start ← get
    word "become"
    let _ ← g (.expr true)
    keepVerbatim start
  else if ← peek (isGroup .bracket) then arrayExpr g
  else if ← peek (isWord "let") then letCondition g
  else if ← peek (isWord "if") then ifElse g
  else if ← peek (isWord "while") then whileLoop g none
  else if ← peek (isWord "for") then forLoop g none
  else if ← peek (isWord "loop") then plainLoop g none
  else if ← peek (isWord "match") then matchOn g
  else if ← peek (isWord "yield") then jump g "yield" .yieldExpr
  else if ← peek (isWord "unsafe") then unsafeBlock g
  else if ← peek (isWord "const") then constBlock g
  else if ← peek (isGroup .brace) then blockExpr g none
  else if ← peek (isOp "..") then
    let closed ← rangeLimits false
    return .range none closed (← rangeEnd g closed braces)
  else if ← word? "_" then return .underscore
  else labelled g

/-- The positions that a number such as `0.1` names one after the other. -/
def positions (parts : List (List Char)) (base : Node) : Parser Node := do
  match parts with
  | [] => return base
  | part :: rest =>
    match position? part with
    | some index =>
      write [.literal (toString index)]
      unless rest.isEmpty do write (Token.operator ".")
      positions rest (.field base (.position index))
    | none => failure

def splitPoints : List Char → List (List Char)
  | [] => [[]]
  | c :: cs =>
    match splitPoints cs with
    | [] => [[c]]
    | part :: parts => if c == '.' then [] :: part :: parts else (c :: part) :: parts

/-- A field or a method call, after the point. -/
def fieldOrMethod (g : Grammar) (base : Node) : Parser Node := do
  if ← word? "await" then return .await base
  else
    match ← member with
    | .named name =>
      let turbofish ← when? (isOp "::") do
        op "::"
        g .angleArguments
      if turbofish.isSome || (← peek (isGroup .paren)) then
        let arguments ← group .paren (commaList (g (.expr true)))
        return .methodCall base name turbofish arguments
      else return .field base (.named name)
    | .position index => return .field base (.position index)

/-- What follows a point after an expression. A number with points names several positions. -/
def afterPoint (g : Grammar) (base : Node) : Parser Node := do
  match (← get).rest with
  | .literal text :: _ =>
    if isFloat text then
      skip 1
      let parts := splitPoints text.toList
      match parts.getLast? with
      | some [] =>
        let base ← positions parts.dropLast base
        write (Token.operator ".")
        fieldOrMethod g base
      | _ => positions parts base
    else fieldOrMethod g base
  | _ => fieldOrMethod g base

/-- Applies to an expression what follows it: calls, fields, indices and question marks. -/
def trailers (g : Grammar) (start : Node) : Parser Node :=
  iterate (fun base => do
    if ← peek (isGroup .paren) then
      return some (.call base (← group .paren (commaList (g (.expr true)))))
    else if !isRange base && (← peek ((isOp ".").butNot (isOp ".."))) then
      op "."
      return some (← afterPoint g base)
    else if ← peek (isGroup .bracket) then
      return some (.index base (← group .bracket (g (.expr true))))
    else if !isRange base && (← peek (isOp "?")) then
      op "?"
      return some (.tryExpr base)
    else return none) start

/-- An operand with its prefix operators. -/
def unary (g : Grammar) (braces : Bool) : Parser Node := do
  let attrs ← outerAttrs g
  if ← op? "&" then
    if ← peek ((isWord "raw").and (second (isOneOf ["mut", "const"]))) then
      word "raw"
      let mutable ← word? "mut"
      unless mutable do word "const"
      return .withAttrs attrs (.rawAddress mutable (← g (.unary braces)))
    else
      let mutable ← word? "mut"
      return .withAttrs attrs (.reference mutable (← g (.unary braces)))
  else if ← op? "*" then return .withAttrs attrs (.unary '*' (← g (.unary braces)))
  else if ← op? "!" then return .withAttrs attrs (.unary '!' (← g (.unary braces)))
  else if ← op? "-" then return .withAttrs attrs (.unary '-' (← g (.unary braces)))
  else return .withAttrs attrs (← trailers g (← atom g braces))

/-- A block-like expression that ends a statement, if one starts here. -/
def earlyBlock? (g : Grammar) : Parser (Option Node) := do
  if ← peek (isWord "if") then return some (← ifElse g)
  else if ← peek (isWord "while") then return some (← whileLoop g none)
  else if ← peek ((isWord "for").butNot fun tokens => isGenericsStart tokens.tail) then
    return some (← forLoop g none)
  else if ← peek (isWord "loop") then return some (← plainLoop g none)
  else if ← peek (isWord "match") then return some (← matchOn g)
  else if ← peek ((isWord "try").and (second (isGroup .brace))) then return some (← tryBlock g)
  else if ← peek (isWord "unsafe") then return some (← unsafeBlock g)
  else if ← peek ((isWord "const").and (second (isGroup .brace))) then
    return some (← constBlock g)
  else if ← peek (isGroup .brace) then return some (← blockExpr g none)
  else if ← peek isLifetime then return some (← labelled g)
  else return none

/-- An expression that ends after a closing brace at its start, unless a field, a method or a
question mark follows. -/
def earlyExpr (g : Grammar) : Parser Node := do
  let attrs ← outerAttrs g
  match ← earlyBlock? g with
  | some block =>
    if ← peek (((isOp ".").butNot (isOp "..")).or (isOp "?")) then
      operators g true .jump (.withAttrs attrs (← trailers g block))
    else return .withAttrs attrs block
  | none => operators g true .jump (.withAttrs attrs (← g (.unary true)))

end ActionUnits.Source
