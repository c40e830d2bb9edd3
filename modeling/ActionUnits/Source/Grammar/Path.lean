import ActionUnits.Source.Grammar.Attribute

/-!
# Paths, generic arguments and bounds
-/

namespace ActionUnits.Source

/-- A part of an angle-bracketed list: whether it is a lifetime, its tokens, and whether a comma
followed. -/
structure AnglePart where
  isLifetime : Bool
  tokens : List Token
  comma : Bool

namespace AnglePart

def written (part : AnglePart) : List Token :=
  part.tokens ++ if part.comma then [.punct ',' false] else []

/-- The tokens of parts of which the first needs a comma in front unless `closed` holds. -/
def join : Bool → List AnglePart → List Token
  | _, [] => []
  | closed, part :: parts =>
    (if closed then [] else [.punct ',' false]) ++ part.written ++ join part.comma parts

/-- The tokens of the parts of a list: lifetimes come first. -/
def inOrder (parts : List AnglePart) : List Token :=
  let lifetimes := parts.filter (·.isLifetime)
  let others := parts.filter (!·.isLifetime)
  let closed := match lifetimes.getLast? with
    | some part => part.comma
    | none => true
  lifetimes.flatMap written ++ join closed others

end AnglePart

/-- A list in angle brackets, in which lifetimes are moved to the front. An empty list is written
only if `keepEmpty` holds. -/
def angleList (keepEmpty : Bool) (isLifetime : Node → Bool) (element : Parser Node) :
    Parser (List Node) := do
  let (elements, _) ← capture do
    op "<"
    let elements ← repeated do
      if ← peek (isOp ">") then return none
      else
        let (node, tokens) ← capture element
        let comma := !(← peek (isOp ">"))
        if comma then op ","
        return some (node, AnglePart.mk (isLifetime node) tokens comma)
    op ">"
    return elements
  if keepEmpty || !elements.isEmpty then
    write (Token.operator "<" ++ AnglePart.inOrder (elements.map (·.2)) ++ Token.operator ">")
  let nodes := elements.map (·.1)
  return nodes.filter isLifetime ++ nodes.filter (!isLifetime ·)

def isLifetimeArgument : Node → Bool
  | .lifetime _ => true
  | _ => false

/-- A constant among generic arguments. -/
def constArgument (g : Grammar) : Parser Node := do
  if ← peek isLiteral then literal
  else if ← peek isIdent then return .ofIdent (← ident)
  else
    let (attrs, body) ← blockWithAttrs g
    return .withAttrs attrs (.blockExpr none body)

/-- Whether a constant must follow among generic arguments. -/
def isConstArgument : Peek :=
  isLiteral.or (isGroup .brace)

/-- The lifetimes that `for` introduces. -/
def boundLifetimes (g : Grammar) : Parser (List Node) := do
  word "for"
  op "<"
  let params ← separated "," (isOp ">") do
    let attrs ← outerAttrs g
    return .lifetimeParam attrs (← lifetime) []
  op ">"
  return params

/-- The lifetimes that `for` introduces, if it comes next. -/
def boundLifetimes? (g : Grammar) : Parser (Option (List Node)) :=
  when? (isWord "for") (boundLifetimes g)

/-- The type after an arrow, if an arrow comes next. -/
def returnType? (g : Grammar) (plus : Bool) : Parser (Option Node) :=
  when? (isOp "->") do
    op "->"
    g (.ty plus)

/-- The arguments of a callable trait. -/
def parenArguments (g : Grammar) : Parser Node := do
  let inputs ← group .paren (commaList (g (.ty true)))
  return .parenArguments inputs (← returnType? g false)

/-- Whether arguments in parentheses follow a path. -/
def isParenArguments : Peek :=
  (isGroup .paren).or ((isOp "::").and (third (isGroup .paren)))

/-- How the last segment of a path gets arguments, if it has none. -/
def openSegment? : Node → Option (Node → Node)
  | .path rooted segments =>
    match segments.getLast? with
    | some (.segment name none) =>
      some fun arguments => .path rooted (segments.dropLast ++ [.segment name (some arguments)])
    | _ => none
  | .qualifiedPath self traitPath segments =>
    match segments.getLast? with
    | some (.segment name none) =>
      some fun arguments =>
        .qualifiedPath self traitPath (segments.dropLast ++ [.segment name (some arguments)])
    | _ => none
  | _ => none

/-- Gives arguments in parentheses to the last segment of a path, if it has none and they follow;
two colons in front of them are dropped. -/
def withParenArguments (g : Grammar) (path : Node) : Parser (Option Node) := do
  match openSegment? path with
  | none => return none
  | some extend =>
    if ← peek isParenArguments then
      let _ ← capture (op? "::")
      return some (extend (← parenArguments g))
    else return none

/-- Which special forms a bound may take. -/
structure BoundRules where
  /-- Whether captured parameters may be listed. -/
  capture : Bool
  /-- Whether a bound may hold in constant contexts only. -/
  const : Bool

/-- A segment of a path. In an expression a `<` does not open arguments by itself. -/
def pathSegment (g : Grammar) (inExpr : Bool) : Parser Node := do
  if ← peek (isOneOf ["super", "self", "crate", "try"]) then
    return .segment (← anyWord) none
  else
    let name ← if ← peek (isWord "Self") then anyWord else ident
    let opens := (isOp "<").butNot (isOp "<=")
    let turbofish := (isOp "::").and (third (isOp "<"))
    if (!inExpr && (← peek opens)) || (← peek turbofish) then
      let _ ← op? "::"
      return .segment name (some (← g .angleArguments))
    else return .segment name none

/-- The segments of a path after its first one. -/
def restOfPath (g : Grammar) (inExpr : Bool) : Parser (List Node) :=
  many ((isOp "::").butNot (third (isGroup .paren))) do
    op "::"
    pathSegment g inExpr

def path (g : Grammar) (inExpr : Bool) : Parser Node := do
  let rooted ← op? "::"
  let first ← pathSegment g inExpr
  return .path rooted (first :: (← restOfPath g inExpr))

/-- The mark of a bound that holds in constant contexts only: whether there is one. -/
def constMark (const : Bool) : Parser Bool := do
  let conditional ← peek (isGroup .bracket)
  let unconditional ← peek (isWord "const")
  require (const || !(conditional || unconditional))
  if conditional then group .bracket (word "const"); return true
  else if unconditional then word "const"; return true
  else return false

def traitPath (g : Grammar) : Parser Node := do
  let path ← path g false
  return (← withParenArguments g path).getD path

/-- A trait as a bound; `none` if it is a form that is kept unread. A question mark is written in
front of lifetimes. -/
def traitBound (g : Grammar) (const parens : Bool) : Parser (Option Node) := do
  let (early, earlyTokens) ← capture (boundLifetimes? g)
  let marked ← constMark const
  let relaxed ← op? "?"
  write earlyTokens
  let late ← if early.isNone && relaxed then boundLifetimes? g else pure none
  let path ← traitPath g
  return if marked then none else some (.traitBound parens relaxed (early <|> late) path)

def traitOrGroup (g : Grammar) (const : Bool) : Parser (Option Node) := do
  if ← peek (isGroup .paren) then group .paren (traitBound g const true)
  else traitBound g const false

/-- The generic parameters that a hidden type captures. -/
def captureBound : Parser Node := do
  word "use"
  op "<"
  let params ← separated "," (isOp ">") do
    if ← peek isLifetime then return .lifetime (← lifetime)
    else if ← peek (isWord "Self") then return .ofIdent (← anyWord)
    else return .ofIdent (← ident)
  op ">"
  return .captureBound params

def bound (g : Grammar) (rules : BoundRules) : Parser Node := do
  if ← peek isLifetime then return .lifetime (← lifetime)
  else if ← peek (isWord "use") then
    require rules.capture
    captureBound
  else
    let start ← get
    match ← traitOrGroup g rules.const with
    | some bound => return bound
    | none => keepVerbatim start

/-- Whether a type is one plain segment, perhaps with arguments in angle brackets; then its name and
arguments. -/
def soleSegment? : Node → Option (Ident × Option Node)
  | .path false [.segment name none] => some (name, none)
  | .path false [.segment name (some (.angleArguments arguments))] =>
    some (name, some (.angleArguments arguments))
  | _ => none

def genericArgument (g : Grammar) : Parser Node := do
  if ← peek (isLifetime.butNot (second (isOp "+"))) then return .lifetime (← lifetime)
  else if ← peek isConstArgument then return .constArgument (← constArgument g)
  else
    let ty ← g (.ty true)
    match soleSegment? ty with
    | none => return ty
    | some (name, own) =>
      if ← op? "=" then
        if ← peek isConstArgument then return .bindConst name own (← constArgument g)
        else return .bindType name own (← g (.ty true))
      else if ← op? ":" then
        let bounds ← plusList (isAnyOp [",", ">"]) (bound g ⟨false, true⟩)
        return .bindBounds name own bounds
      else return ty

def angleArguments (g : Grammar) : Parser Node := do
  return .angleArguments (← angleList true isLifetimeArgument (genericArgument g))

/-- A path that may start from a type in angle brackets. -/
def qualifiedPath (g : Grammar) (inExpr : Bool) : Parser Node := do
  if ← peek (isOp "<") then
    op "<"
    let self ← g (.ty true)
    let traitPath ← when? (isWord "as") do
      word "as"
      path g false
    op ">"
    op "::"
    let first ← pathSegment g inExpr
    let others ← many (isOp "::") do
      op "::"
      pathSegment g inExpr
    return .qualifiedPath self traitPath (first :: others)
  else path g inExpr

/-- Whether a bound may follow a plus sign. -/
def isBoundStart (const : Bool) : Peek :=
  anyOf [isAnyWord, isOp "::", isOp "?", isLifetime, isGroup .paren,
    fun tokens => const && (isGroup .bracket tokens || isWord "const" tokens)]

/-- At least one bound; further ones after plus signs if `plus` holds. -/
def bounds (g : Grammar) (plus : Bool) (rules : BoundRules) : Parser (List Node) := do
  let first ← bound g rules
  if plus && (← peek (isOp "+")) then
    op "+"
    let more := isBoundStart rules.const
    return first :: (← plusList (fun tokens => !more tokens) (bound g rules))
  else return [first]

end ActionUnits.Source
