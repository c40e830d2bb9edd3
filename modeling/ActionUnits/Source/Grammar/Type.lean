import ActionUnits.Source.Grammar.Generics

/-!
# Types
-/

namespace ActionUnits.Source

/-- Whether a bound names a trait or hides what it is. -/
def isTraitLike : Node → Bool
  | .lifetime _ => false
  | _ => true

/-- A type given by at least one trait. -/
def requireTrait (bounds : List Node) : Parser Unit :=
  require (bounds.any isTraitLike)

def segmentsOf : Node → List Node
  | .path _ segments => segments
  | .qualifiedPath _ _ segments => segments
  | _ => []

def addSegments (more : List Node) : Node → Node
  | .path rooted segments => .path rooted (segments ++ more)
  | .qualifiedPath self traitPath segments => .qualifiedPath self traitPath (segments ++ more)
  | other => other

/-- Whether a path may go on after arguments in parentheses: they have no result, or one in
parentheses. -/
def mayGoOn (path : Node) : Bool :=
  match (segmentsOf path).getLast? with
  | some (.segment _ (some (.parenArguments _ none))) => true
  | some (.segment _ (some (.parenArguments _ (some (.parenType _))))) => true
  | _ => false

/-- A path in a type, whose last segment may have arguments in parentheses. After arguments without
a result the path may go on. -/
def typePath (g : Grammar) : Parser Node := do
  let start ← qualifiedPath g false
  iterate (fun path => do
    match ← withParenArguments g path with
    | none => return none
    | some extended =>
      if mayGoOn extended then return some (addSegments (← restOfPath g false) extended)
      else return some extended) start

/-- The bounds after plus signs that follow a first bound; a plus sign must have a bound after it. -/
def moreBounds (g : Grammar) : Parser (List Node) :=
  many (isOp "+") do
    op "+"
    bound g ⟨false, false⟩

/-- The bound that a type in parentheses is, if it can be one. -/
def asParenBound? : Node → Option Node
  | .path rooted segments => some (.traitBound true false none (.path rooted segments))
  | .traitObject [.traitBound _ relaxed lifetimes path] =>
    some (.traitBound true relaxed lifetimes path)
  | .traitObject [bound] => some bound
  | _ => none

/-- What is in the parentheses of a type. -/
inductive ParenContents where
  /-- A finished type. -/
  | finished (ty : Node)
  /-- A relaxed bound, the first of a sum. -/
  | relaxedBound (bound : Node)
  /-- A single type. -/
  | single (ty : Node)

def parenContents (g : Grammar) : Parser ParenContents := do
  if ← atEnd then return .finished (.tupleType [])
  else if ← peek isLifetime then
    let bounds ← bounds g true ⟨false, true⟩
    requireTrait bounds
    return .finished (.parenType (.traitObject bounds))
  else if ← peek (isOp "?") then
    match ← traitBound g false true with
    | some bound => return .relaxedBound bound
    | none => failure
  else
    let first ← g (.ty true)
    if ← op? "," then
      return .finished (.tupleType (first :: (← commaList (g (.ty true)))))
    else return .single first

def parenType (g : Grammar) (plus : Bool) : Parser Node := do
  match ← group .paren (parenContents g) with
  | .finished ty => return ty
  | .relaxedBound first => return .traitObject (first :: (← moreBounds g))
  | .single ty =>
    let isSum ← peek (isOp "+")
    match if plus && isSum then asParenBound? ty else none with
    | some first => return .traitObject (first :: (← moreBounds g))
    | none => return .parenType ty

/-- The calling convention of a function. -/
def abi : Parser Abi := do
  if ← word? "extern" then
    if ← peek isString then
      match ← literal with
      | .literal text => return .named text
      | _ => failure
    else return .default
  else return .absent

/-- Whether the open end of a parameter list comes next. -/
def isVariadicStart : Peek :=
  (isOp "...").or <| (isIdent.or (isWord "_")).and <| (second (isOp ":")).and (third (isOp "..."))

/-- A name and a colon in front of the type of a parameter. -/
def paramName? : Parser (Option Ident) :=
  when? ((isIdent.or (isOneOf ["_", "self"])).and (second ((isOp ":").butNot (isOp "::")))) do
    let name ← anyWord
    op ":"
    return name

/-- The parameters of a function type, and its open end. -/
def functionTypeParams (g : Grammar) : Parser (List Node × Option Node) := do
  let parts ← commaList do
    let attrs ← outerAttrs g
    if ← peek isVariadicStart then
      let name ← paramName?
      op "..."
      return (true, Node.variadic attrs (name.map .ofIdent))
    else
      let attrs := attrs ++ (← outerAttrs g)
      let name ← paramName?
      return (false, .functionTypeParam attrs name (← g (.ty true)))
  -- Nothing follows the open end.
  require (parts.dropLast.all (!·.1))
  match parts.getLast? with
  | some (true, last) => return (parts.dropLast.map (·.2), some last)
  | _ => return (parts.map (·.2), none)

def functionType (g : Grammar) (lifetimes : Option (List Node)) : Parser Node := do
  let isUnsafe ← word? "unsafe"
  let abi ← abi
  word "fn"
  let (params, variadic) ← group .paren (functionTypeParams g)
  return .functionType lifetimes isUnsafe abi params variadic (← returnType? g false)

/-- A type that starts with a path: the path itself, a macro call, or a sum of bounds. -/
def namedType (g : Grammar) (plus : Bool) (lifetimes : Option (List Node)) : Parser Node := do
  let path ← typePath g
  match path with
  | .qualifiedPath _ _ _ => return path
  | _ =>
    match path.plainPath?, ← peek isBang with
    | some plain, true => return .macroCall (← macroArguments plain)
    | _, _ =>
      let isSum ← peek (isOp "+")
      if lifetimes.isSome || (plus && isSum) then
        let first := .traitBound false false lifetimes path
        if plus && isSum then
          op "+"
          let more := isBoundStart false
          let rest ← plusList (fun tokens => !more tokens) (bound g ⟨false, false⟩)
          return .traitObject (first :: rest)
        else return .traitObject [first]
      else return path

/-- Whether a path comes next in a type. -/
def isTypePathStart : Peek :=
  anyOf [isIdent, isOneOf ["super", "self", "Self", "crate"], isOp "::", isOp "<"]

/-- A type; `plus` allows a sum of bounds. -/
def type (g : Grammar) (plus : Bool) : Parser Node := do
  let start ← get
  let lifetimes ← boundLifetimes? g
  if lifetimes.isSome then
    require (← peek (isIdent.or
      (isOneOf ["fn", "unsafe", "extern", "super", "self", "Self", "crate"])))
  if ← peek (isGroup .paren) then parenType g plus
  else if ← peek (isOneOf ["fn", "unsafe", "extern"]) then functionType g lifetimes
  else if ← peek isTypePathStart then namedType g plus lifetimes
  else if ← word? "dyn" then
    let star ← op? "*"
    let bounds ← bounds g plus ⟨false, true⟩
    requireTrait bounds
    if star then keepVerbatim start else return .traitObject bounds
  else if ← peek (isGroup .bracket) then
    group .bracket do
      let element ← g (.ty true)
      if ← op? ";" then return .arrayType element (← g (.expr true))
      else return .sliceType element
  else if ← op? "*" then
    let mutable ← word? "mut"
    unless mutable do word "const"
    return .pointerType mutable (← g (.ty false))
  else if ← op? "&" then
    let lifetime ← lifetime?
    let mutable ← word? "mut"
    return .referenceType lifetime mutable (← g (.ty false))
  else if ← peek ((isOp "!").butNot (isOp "=")) then
    op "!"
    return .neverType
  else if ← word? "impl" then
    let bounds ← bounds g plus ⟨true, true⟩
    requireTrait bounds
    return .implType bounds
  else if ← word? "_" then return .inferredType
  else
    require (← peek isLifetime)
    let bounds ← bounds g true ⟨false, true⟩
    requireTrait bounds
    return .traitObject bounds

end ActionUnits.Source
