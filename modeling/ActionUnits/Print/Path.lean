import ActionUnits.Print.Attribute

/-!
# Printing paths, bounds and generics
-/

namespace ActionUnits.Print

open ActionUnits.Layout ActionUnits.Layout.Doc ActionUnits.Source

/-- Where a path stands: in an expression a `::` precedes the arguments of a segment. -/
inductive PathPlace where
  | type
  | expr
deriving DecidableEq

/-- A generic parameter that is a lifetime, or one of the lifetimes that `for` introduces. -/
def lifetimeParam (p : Printer) : Node → Doc
  | .lifetimeParam attrs name bounds =>
    outerAttrs p attrs ++ lifetime name ++
      (if bounds.isEmpty then []
      else text ": " ++ sepBy (text " + ") (bounds.map fun
        | .lifetime name => lifetime name
        | _ => []))
  | _ => []

/-- The lifetimes that `for` introduces. -/
def boundLifetimes (p : Printer) (lifetimes : Option (List Node)) : Doc :=
  optional lifetimes fun params =>
    text "for<" ++ sepBy (text ", ") (params.map (lifetimeParam p)) ++ text "> "

def returnType (p : Printer) (output : Option Node) : Doc :=
  optional output fun ty => text " -> " ++ p .type ty

/-- A constant among generic arguments: literals, names and blocks stand alone. -/
def constArgument (p : Printer) (value : Node) : Doc :=
  match value.bare with
  | .literal _ => p (.expr false) value
  | .path _ _ => p (.expr false) value
  | .blockExpr _ _ => p (.expr false) value
  | _ => text "\x7b" ++ p (.expr false) value ++ text "\x7d"

/-- Bounds after a colon, in a box of their own. -/
def boundBox (bounds : List Doc) : Doc :=
  inconsistent indentWidth
    (if bounds.isEmpty then [] else text ": " ++ sepBy (space ++ text "+ ") bounds)

def angleList (place : PathPlace) (arguments : List Doc) : Doc :=
  if arguments.isEmpty then []
  else textIf (place == .expr) "::" ++ commaList "<" ">" indentWidth arguments

def bound (p : Printer) : Node → Doc
  | .lifetime name => lifetime name
  | .captureBound params =>
    text "use<" ++ sepBy (text ", ") (params.map fun
      | .lifetime name => lifetime name
      | node => p .type node) ++ text ">"
  | .traitBound parens relaxed lifetimes path =>
    textIf parens "(" ++ boundLifetimes p lifetimes ++ textIf relaxed "?" ++ p .type path ++
      textIf parens ")"
  | _ => unprintable

mutual

def arguments (p : Printer) (place : PathPlace) : Node → Doc
  | .angleArguments nodes => angleList place (genericArguments p nodes)
  | .parenArguments inputs output =>
    consistent indentWidth
      (text "(" ++ zeroBreak ++
        eachLast (fun ty last => p .type ty ++ trailingComma last) inputs ++ outdent ++
        text ")" ++ returnType p output)
  | _ => []

def optionalArguments (p : Printer) (place : PathPlace) : Option Node → Doc
  | some node => arguments p place node
  | none => []

def genericArguments (p : Printer) : List Node → List Doc
  | [] => []
  | node :: nodes => genericArgument p node :: genericArguments p nodes

def genericArgument (p : Printer) : Node → Doc
  | .lifetime name => lifetime name
  | .constArgument value => constArgument p value
  | .bindType name own ty =>
    ident name ++ optionalArguments p .type own ++ text " = " ++ p .type ty
  | .bindConst name own value =>
    ident name ++ optionalArguments p .type own ++ text " = " ++ constArgument p value
  | .bindBounds name own nodes =>
    ident name ++ optionalArguments p .type own ++ boundBox (nodes.map (bound p))
  | ty => p .type ty

end

def segment (p : Printer) (place : PathPlace) : Node → Doc
  | .segment name own => ident name ++ optionalArguments p place own
  | _ => []

/-- A path, perhaps one that starts from a type in angle brackets. The rules of types, patterns and
expressions end here, so what reaches the last case is source that is kept unread. -/
def path (p : Printer) (place : PathPlace) : Node → Doc
  | .path rooted segments =>
    textIf rooted "::" ++ sepBy (text "::") (segments.map (segment p place))
  | .qualifiedPath self traitPath segments =>
    text "<" ++ p .type self ++
      optional traitPath (fun node => text " as " ++ p .type node) ++ text ">" ++
      segments.flatMap fun node => text "::" ++ segment p place node
  | _ => unprintable

def genericParam (p : Printer) : Node → Doc
  | .typeParam attrs name nodes default =>
    outerAttrs p attrs ++ ident name ++
      inconsistent indentWidth
        ((if nodes.isEmpty then []
          else text ": " ++ sepBy (space ++ text "+ ") (nodes.map (bound p))) ++
          optional default fun ty => space ++ text "= " ++ p .type ty)
  | .constParam attrs name ty default =>
    outerAttrs p attrs ++ text "const " ++ ident name ++ text ": " ++ p .type ty ++
      optional default fun value => text " = " ++ constArgument p value
  | node => lifetimeParam p node

def genericParams (p : Printer) : Node → Doc
  | .generics params _ =>
    if params.isEmpty then [] else commaList "<" ">" 0 (params.map (genericParam p))
  | _ => []

/-- A condition. -/
def predicate (p : Printer) : Node → Doc
  | .lifetimePredicate name nodes =>
    lifetime name ++ text ":" ++ inconsistent indentWidth (listed (nodes.map (bound p)))
  | .typePredicate lifetimes ty nodes =>
    boundLifetimes p lifetimes ++ p .type ty ++ text ":" ++
      inconsistent (if nodes.length == 1 then 0 else indentWidth) (listed (nodes.map (bound p)))
  | _ => []
where
  /-- Bounds after a colon. -/
  listed (nodes : List Doc) : Doc :=
    if nodes.isEmpty then [] else blank ++ sepBy (space ++ text "+ ") nodes

def predicatesOf : Node → List Node
  | .generics _ predicates => predicates
  | _ => []

/-- The conditions in front of a body, each on a line of its own. -/
def whereBody (p : Printer) (generics : Node) : Doc :=
  let nodes := predicatesOf generics
  if nodes.isEmpty then blank
  else
    hardBreak ++ outdent ++ text "where" ++ hardBreak ++
      nodes.flatMap (fun node => predicate p node ++ text "," ++ hardBreak) ++ outdent

/-- The conditions in front of a semicolon, each on a line of its own. -/
def whereSemicolon (p : Printer) (generics : Node) : Doc :=
  let nodes := predicatesOf generics
  if nodes.isEmpty then text ";"
  else
    hardBreak ++ outdent ++ text "where" ++ hardBreak ++
      eachLast (fun node last =>
        predicate p node ++ if last then text ";" else text "," ++ hardBreak) nodes

/-- The conditions in front of a definition, on one line if they fit. -/
def whereLine (p : Printer) (generics : Node) : Doc :=
  let nodes := predicatesOf generics
  if nodes.isEmpty then blank
  else
    space ++ outdent ++ text "where" ++ space ++
      eachLast (fun node last => predicate p node ++ trailingCommaOrSpace last) nodes ++ outdent

/-- The conditions between a definition and a semicolon, on one line if they fit. -/
def whereLineSemicolon (p : Printer) (generics : Node) : Doc :=
  let nodes := predicatesOf generics
  if nodes.isEmpty then text ";"
  else
    space ++ outdent ++ text "where" ++ space ++
      eachLast (fun node last =>
        predicate p node ++ if last then text ";" else trailingCommaOrSpace false) nodes

end ActionUnits.Print
