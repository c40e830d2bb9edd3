import ActionUnits.Source.Grammar.Expr
import ActionUnits.Source.Grammar.Use

/-!
# Items

Items of files, modules and blocks, and the items inside of implementations, traits and foreign
blocks. A few forms are accepted although they have no meaning; they are kept unread.
-/

namespace ActionUnits.Source

/-! ## Functions -/

/-- Whether a function head comes next. -/
def isSignature (tokens : List Token) : Bool :=
  let dropWord (text : String) (tokens : List Token) : List Token :=
    if isWord text tokens then tokens.drop 1 else tokens
  let tokens := dropWord "unsafe" (dropWord "async" (dropWord "const" tokens))
  let tokens :=
    if isWord "extern" tokens then
      let after := tokens.drop 1
      if isString after then after.drop 1 else after
    else tokens
  isWord "fn" tokens

def receiver (g : Grammar) (attrs : List Node) : Parser Node := do
  let byRef ← when? (isOp "&") do
    op "&"
    lifetime?
  let mutable ← word? "mut"
  word "self"
  let ty ← if byRef.isSome then pure none else when? (isOp ":") do
    op ":"
    g (.ty true)
  return .receiver attrs byRef mutable ty

/-- The tokens after a word, if it comes next. -/
def afterWord (text : String) (tokens : List Token) : List Token :=
  if isWord text tokens then tokens.tail else tokens

/-- The tokens after a lifetime, if one comes next. -/
def afterLifetime (tokens : List Token) : List Token :=
  if isLifetime tokens then tokens.drop 2 else tokens

/-- Whether the receiver of a method comes next. A path may also start with `self`, and a name
with an open end may be `self`. -/
def isReceiverStart : Peek := fun tokens =>
  if isOp "&" tokens then isWord "self" (afterWord "mut" (afterLifetime tokens.tail))
  else
    let self := afterWord "mut" tokens
    let noType : Peek := (isOp ".").or ((isOp ":").butNot (isOp "::"))
    isWord "self" self && !(isOp ":" self.tail && noType self.tail.tail)

/-- A parameter of a function; the flag tells that it is the open end of the list. -/
def functionParam (g : Grammar) : Parser (Bool × Node) := do
  let attrs ← outerAttrs g
  if ← op? "..." then return (true, .variadic attrs none)
  else if ← peek isReceiverStart then return (false, ← receiver g attrs)
  else if ← peek (isIdent.and (second (isOp "<"))) then
    write [.word "_", .punct ':' false]
    return (false, .typedPattern attrs .wildPattern (← g (.ty true)))
  else
    let pattern ← g .singlePattern
    op ":"
    if ← op? "..." then return (true, .variadic attrs (some pattern))
    else return (false, .typedPattern attrs pattern (← g (.ty true)))

def isReceiver : Node → Bool
  | .receiver _ _ _ _ => true
  | _ => false

/-- The head of a function. -/
def signature (g : Grammar) : Parser Node := do
  let isConst ← word? "const"
  let isAsync ← word? "async"
  let isUnsafe ← word? "unsafe"
  let abi ← abi
  word "fn"
  let name ← ident
  let params ← genericParams g
  let inputs ← group .paren (commaList (functionParam g))
  -- Nothing follows the open end, and only the first parameter is a receiver.
  require (inputs.dropLast.all (!·.1))
  require (inputs.tail.all fun input => !isReceiver input.2)
  let output ← returnType? g true
  let predicates ← whereClause g
  let (fixed, variadic) := match inputs.getLast? with
    | some (true, last) => (inputs.dropLast, some last)
    | _ => (inputs, none)
  return .signature isConst isAsync isUnsafe abi name (.generics params predicates)
    (fixed.map (·.2)) variadic output

/-- What a rule for items finds: a node with the attributes found inside of it, or a form that is
kept unread. -/
inductive Found where
  | node (attrs : List Node) (vis : Visibility) (isDefault : Bool) (node : Node)
  | unread

/-- A function with its body, after its visibility. -/
def functionItem (g : Grammar) (vis : Visibility) (isDefault : Bool) : Parser Found := do
  let signature ← signature g
  if ← op? ";" then return .unread
  else
    let (attrs, body) ← blockWithAttrs g
    return .node attrs vis isDefault (.function signature (some body))

/-! ## Fields -/

def namedField (g : Grammar) : Parser Node := do
  let attrs ← outerAttrs g
  let vis ← visibility
  if ← peek (isWord "_") then
    let name ← anyWord
    op ":"
    if ← peek ((isWord "struct").or ((isWord "union").and (second (isGroup .brace)))) then
      let start ← get
      let _ ← anyWord
      let _ ← anyGroup
      return .fieldDecl attrs vis (some name) (← keepVerbatim start)
    else return .fieldDecl attrs vis (some name) (← g (.ty true))
  else
    let name ← ident
    op ":"
    return .fieldDecl attrs vis (some name) (← g (.ty true))

/-- A field without a name. -/
def tupleField (g : Grammar) : Parser Node := do
  let attrs ← outerAttrs g
  let vis ← visibility
  return .fieldDecl attrs vis none (← g (.ty true))

def namedFields (g : Grammar) : Parser Node := do
  return .namedFields (← group .brace (commaList (namedField g)))

def tupleFields (g : Grammar) : Parser Node := do
  return .tupleFields (← group .paren (commaList (tupleField g)))

/-- A struct, after its visibility. Conditions stand before fields with names and after others. -/
def structItem (g : Grammar) : Parser Node := do
  word "struct"
  let name ← ident
  let params ← genericParams g
  if ← peek (isGroup .paren) then
    let fields ← tupleFields g
    let predicates ← whereClause g
    op ";"
    return .structItem name (.generics params predicates) fields
  else
    let predicates ← whereClause g
    if ← peek (isGroup .brace) then
      return .structItem name (.generics params predicates) (← namedFields g)
    else
      op ";"
      return .structItem name (.generics params predicates) .unitFields

def dropVisibility : Parser Unit := do
  let _ ← capture visibility

/-- A variant of an enumeration; it has no visibility. -/
def variant (g : Grammar) : Parser Node := do
  let attrs ← outerAttrs g
  dropVisibility
  let name ← ident
  let fields ←
    if ← peek (isGroup .brace) then namedFields g
    else if ← peek (isGroup .paren) then tupleFields g
    else pure .unitFields
  let discriminant ← when? (isOp "=") do
    op "="
    g (.expr true)
  return .variant attrs name fields discriminant

/-- An enumeration, after its visibility. -/
def enumItem (g : Grammar) : Parser Node := do
  word "enum"
  let name ← ident
  let params ← genericParams g
  let predicates ← whereClause g
  let variants ← group .brace (commaList (variant g))
  return .enumItem name (.generics params predicates) variants

/-- A union, after its visibility. -/
def unionItem (g : Grammar) : Parser Node := do
  word "union"
  let name ← ident
  let params ← genericParams g
  let predicates ← whereClause g
  return .unionItem name (.generics params predicates) (← namedFields g)

/-! ## Constants and type aliases -/

/-- A constant, after its visibility. `needsValue` tells that one without a value is kept unread. -/
def constItem (g : Grammar) (needsValue : Bool) : Parser (Option Node) := do
  word "const"
  require (← peek (isIdent.or (isWord "_")))
  let name ← anyWord
  let generic ← peek (isOp "<")
  let _ ← genericParams g
  op ":"
  let ty ← g (.ty true)
  let value ← when? (isOp "=") do
    op "="
    g (.expr true)
  let conditional ← peek (isWord "where")
  let _ ← whereClause g
  op ";"
  if generic || conditional || (needsValue && value.isNone) then return none
  else return some (.constItem name ty value)

/-- A type alias, after its visibility: its node, whether it has a colon (if `asksColon` holds), and
whether it has a definition. Conditions stand before the definition or after it. -/
def typeItem (g : Grammar) (asksColon whereFirst : Bool) : Parser (Node × Bool × Bool) := do
  word "type"
  let name ← ident
  let params ← genericParams g
  let colon ← if asksColon then peek (isOp ":") else pure false
  let stop := anyOf [isWord "where", isOp "=", isOp ";"]
  let bounds ← colonList (plusList stop (bound g ⟨false, true⟩))
  let early ← if whereFirst then whereClause g else pure []
  let ty ← when? (isOp "=") do
    op "="
    g (.ty true)
  let late ← if whereFirst then pure [] else whereClause g
  op ";"
  return (.typeItem name (.generics params (early ++ late)) bounds ty, colon, ty.isSome)

/-- A macro call as an item; unless it is in braces, a semicolon ends it. -/
def macroItem (named : Bool) : Parser Node := do
  let path ← plainPath
  op "!"
  let name ← if named then when? (isIdent.or (isWord "try")) anyWord else pure none
  let (delimiter, body) ← anyGroup
  let semicolon := delimiter != .brace
  if semicolon then op ";"
  return .macroItem name ⟨path, delimiter, body⟩ semicolon

def isMacroStart : Peek :=
  anyOf [isIdent, isOneOf ["self", "super", "crate"], isOp "::"]

/-! ## Items inside of other items -/

/-- Puts attributes in front of what was found, or keeps everything since `start` unread. -/
def finish (start : Cursor) (attrs : List Node) : Found → Parser Node
  | .node inner vis isDefault node => return .item (attrs ++ inner) vis isDefault node
  | .unread => keepVerbatim start

def implItem (g : Grammar) : Parser Node := do
  let start ← get
  let attrs ← outerAttrs g
  let vis ← visibility
  let isDefault ← if ← peek ((isWord "default").butNot (second (isOp "!"))) then word? "default"
    else pure false
  let isInherited := match vis with
    | .inherited => true
    | _ => false
  let found ←
    if ← peek isSignature then functionItem g vis isDefault
    else if ← peek (isWord "const") then
      match ← constItem g true with
      | some node => pure (.node [] vis isDefault node)
      | none => pure .unread
    else if ← peek (isWord "type") then
      let (node, colon, defined) ← typeItem g true false
      if colon || !defined then pure .unread else pure (.node [] vis isDefault node)
    else
      require (isInherited && !isDefault && (← peek isMacroStart))
      pure (.node [] vis false (← macroItem false))
  finish start attrs found

def traitItem (g : Grammar) : Parser Node := do
  let start ← get
  let attrs ← outerAttrs g
  let vis ← visibility
  let isDefault ← word? "default"
  let isInherited := match vis with
    | .inherited => true
    | _ => false
  let found ←
    if ← peek isSignature then
      let signature ← signature g
      if ← op? ";" then pure (.node [] vis isDefault (.function signature none))
      else
        let (inner, body) ← blockWithAttrs g
        pure (.node inner vis isDefault (.function signature (some body)))
    else if ← peek (isWord "const") then
      match ← constItem g false with
      | some node => pure (.node [] vis isDefault node)
      | none => pure .unread
    else if ← peek (isWord "type") then
      let (node, _, _) ← typeItem g false false
      pure (.node [] vis isDefault node)
    else
      require (isInherited && !isDefault && (← peek isMacroStart))
      pure (.node [] vis false (← macroItem false))
  if isInherited && !isDefault then finish start attrs found else keepVerbatim start

def foreignItem (g : Grammar) : Parser Node := do
  let start ← get
  let attrs ← outerAttrs g
  let vis ← visibility
  let safe ← if ← peek ((isWord "safe").and (second (isOneOf ["fn", "static", "extern"]))) then
    word? "safe" else pure false
  let found ←
    if ← peek isSignature then
      let signature ← signature g
      if ← op? ";" then
        if safe then pure .unread else pure (.node [] vis false (.function signature none))
      else
        let _ ← blockWithAttrs g
        pure .unread
    else if ← peek ((isWord "static").or ((isWord "unsafe").and (second (isWord "static")))) then
      let isUnsafe ← word? "unsafe"
      word "static"
      let mutable ← word? "mut"
      let name ← ident
      op ":"
      let ty ← g (.ty true)
      let value ← when? (isOp "=") do
        op "="
        g (.expr true)
      op ";"
      if safe || isUnsafe || value.isSome then pure .unread
      else pure (.node [] vis false (.staticItem mutable name ty none))
    else if ← peek (isWord "type") then
      let (node, colon, defined) ← typeItem g true true
      if colon || defined then pure .unread else pure (.node [] vis false node)
    else
      require (← peek isMacroStart)
      pure (.node [] vis false (← macroItem false))
  finish start attrs found

/-! ## Items -/

/-- A block of foreign items, after its attributes. -/
def foreignItems (g : Grammar) (vis : Visibility) : Parser Found := do
  let isUnsafe ← word? "unsafe"
  let abi ← abi
  let (attrs, items) ← group .brace do
    let attrs ← innerAttrs g
    return (attrs, ← untilEnd (foreignItem g))
  return .node attrs vis false (.foreignItems isUnsafe abi items)

def moduleItem (g : Grammar) (vis : Visibility) : Parser Found := do
  let isUnsafe ← word? "unsafe"
  word "mod"
  let name ← if ← peek (isWord "try") then anyWord else ident
  if ← op? ";" then return .node [] vis false (.module isUnsafe name none)
  else
    let (attrs, items) ← group .brace do
      let attrs ← innerAttrs g
      return (attrs, ← untilEnd (g .item))
    return .node attrs vis false (.module isUnsafe name (some items))

def traitOrAlias (g : Grammar) (vis : Visibility) : Parser Found := do
  let isUnsafe ← word? "unsafe"
  let isAuto ← word? "auto"
  word "trait"
  let name ← ident
  let params ← genericParams g
  if !isUnsafe && !isAuto && (← peek (isOp "=")) then
    op "="
    let stop := anyOf [isWord "where", isOp ";"]
    let bounds ← plusList stop (bound g ⟨false, false⟩)
    let predicates ← whereClause g
    op ";"
    return .node [] vis false (.traitAlias name (.generics params predicates) bounds)
  else
    let stop := anyOf [isWord "where", isGroup .brace]
    let bounds ← colonList (plusList stop (bound g ⟨false, true⟩))
    let predicates ← whereClause g
    let (attrs, items) ← group .brace do
      let attrs ← innerAttrs g
      return (attrs, ← untilEnd (traitItem g))
    return .node attrs vis false
      (.traitItem isUnsafe isAuto name (.generics params predicates) bounds items)

/-- The parameters of an implementation and the type after them, as they are written. Brackets
without parameters are not written, and the start of a type `<T>::X` then reads as a parameter. -/
def asWritten : List Node → Node → List Node × Node
  | [], .qualifiedPath (.path false [.segment name none]) none segments =>
    if isKeyword name then ([], .qualifiedPath (.ofIdent name) none segments)
    else ([.typeParam [] name [] none], .path true segments)
  | params, ty => (params, ty)

def implementation (g : Grammar) (vis : Visibility) : Parser Found := do
  let isDefault ← word? "default"
  let isUnsafe ← word? "unsafe"
  word "impl"
  let params ← if ← peek isGenericsStart then genericParams g else pure []
  let isConst ← peek ((isWord "const").or ((isOp "?").and (second (isWord "const"))))
  if isConst then
    let _ ← op? "?"
    word "const"
  let negative ← if ← peek ((isOp "!").butNot (second (isGroup .brace))) then op? "!"
    else pure false
  let first ← g (.ty true)
  let forTrait ← word? "for"
  require (forTrait || !negative)
  let isPath := match first with
    | .path _ _ => true
    | _ => false
  let self ← if forTrait then g (.ty true) else pure first
  let predicates ← whereClause g
  let (attrs, items) ← group .brace do
    let attrs ← innerAttrs g
    return (attrs, ← untilEnd (implItem g))
  let isInherited := match vis with
    | .inherited => true
    | _ => false
  if !isInherited || isConst || (forTrait && !isPath) then return .unread
  else
    let traitPath := if forTrait then some first else none
    let (params, self) := if forTrait then (params, self) else asWritten params self
    return .node attrs vis isDefault
      (.implementation isUnsafe (.generics params predicates) negative traitPath self items)

/-- A static variable, after its visibility. -/
def staticItem (g : Grammar) (vis : Visibility) : Parser Found := do
  word "static"
  let mutable ← word? "mut"
  let name ← ident
  if ← op? "=" then
    let _ ← g (.expr true)
    op ";"
    return .unread
  else
    op ":"
    let ty ← g (.ty true)
    if ← op? ";" then return .unread
    else
      op "="
      let value ← g (.expr true)
      op ";"
      return .node [] vis false (.staticItem mutable name ty (some value))

/-- A macro definition by declaration, after its visibility; it is kept unread. -/
def macroDefinition : Parser Found := do
  word "macro"
  let _ ← ident
  if ← peek (isGroup .paren) then
    let _ ← anyGroup
    require (← peek (isGroup .brace))
  else require (← peek (isGroup .brace))
  let _ ← anyGroup
  return .unread

/-- An item that starts with `extern`. -/
def externItem (g : Grammar) (vis : Visibility) : Parser Found := do
  if ← peek (second (isWord "crate")) then
    word "extern"
    word "crate"
    let name ← if ← peek (isWord "self") then anyWord else ident
    let newName ← when? (isWord "as") do
      word "as"
      useAlias
    op ";"
    return .node [] vis false (.externCrate name newName)
  else
    let opensBlock := (second (isGroup .brace)).or ((second isString).and (third (isGroup .brace)))
    require (← peek opensBlock)
    foreignItems g vis

def itemKind (g : Grammar) (vis : Visibility) : Parser Found := do
  let isInherited := match vis with
    | .inherited => true
    | _ => false
  let sole (parser : Parser Node) : Parser Found := return .node [] vis false (← parser)
  let isTrait : Peek := (isWord "trait").or ((isWord "auto").and (second (isWord "trait")))
  if ← peek isSignature then functionItem g vis false
  else if ← peek (isWord "extern") then externItem g vis
  else if ← peek (isWord "use") then
    match ← useItem true with
    | some node => return .node [] vis false node
    | none => return .unread
  else if ← peek (isWord "static") then staticItem g vis
  else if ← peek (isWord "const") then
    match ← constItem g true with
    | some node => return .node [] vis false node
    | none => return .unread
  else if ← peek (isWord "unsafe") then
    if ← peek fun tokens => isTrait (afterOne tokens) then traitOrAlias g vis
    else if ← peek (second (isWord "impl")) then implementation g vis
    else if ← peek (second (isWord "extern")) then foreignItems g vis
    else moduleItem g vis
  else if ← peek (isWord "mod") then moduleItem g vis
  else if ← peek (isWord "type") then
    let (node, colon, defined) ← typeItem g true true
    if colon || !defined then return .unread else return .node [] vis false node
  else if ← peek (isWord "struct") then sole (structItem g)
  else if ← peek (isWord "enum") then sole (enumItem g)
  else if ← peek ((isWord "union").and (second isIdent)) then sole (unionItem g)
  else if ← peek isTrait then traitOrAlias g vis
  else if ← peek ((isWord "impl").or ((isWord "default").butNot (second (isOp "!")))) then
    implementation g vis
  else if ← peek (isWord "macro") then macroDefinition
  else
    require (isInherited && (← peek isMacroStart))
    sole (macroItem true)

/-- An item after its attributes; `start` is where they began. -/
def restOfItem (g : Grammar) (start : Cursor) (attrs : List Node) : Parser Node := do
  let vis ← visibility
  finish start attrs (← itemKind g vis)

def item (g : Grammar) : Parser Node := do
  let start ← get
  let attrs ← outerAttrs g
  restOfItem g start attrs

/-- The items of a source file. -/
def file (g : Grammar) : Parser Node := do
  let attrs ← innerAttrs g
  return .file attrs (← untilEnd (g .item))

end ActionUnits.Source
