import ActionUnits.Print.Path

/-!
# Printing types and patterns
-/

namespace ActionUnits.Print

open ActionUnits.Layout ActionUnits.Layout.Doc ActionUnits.Source

/-- A parameter of a function type, or the open end of its parameters. -/
def functionTypeParam (p : Printer) : Node → Doc
  | .functionTypeParam attrs name ty =>
    outerAttrs p attrs ++ optional name (fun name => ident name ++ text ": ") ++ p .type ty
  | .variadic attrs pattern =>
    outerAttrs p attrs ++ optional pattern (fun node => p .pattern node ++ text ": ") ++ text "..."
  | _ => []

/-- Parameters with an open end, without the brackets around them. -/
def openParams (params : List Doc) (variadic : Option Doc) : Doc :=
  zeroBreak ++
    eachLast (fun param last => param ++ trailingComma (last && variadic.isNone)) params ++
    optional variadic (fun doc => doc ++ zeroBreak) ++ outdent

def type (p : Printer) : Node → Doc
  | .sliceType element => text "[" ++ p .type element ++ text "]"
  | .arrayType element length =>
    text "[" ++ p .type element ++ text "; " ++ p (.expr false) length ++ text "]"
  | .pointerType mutable target =>
    text "*" ++ text (if mutable then "mut " else "const ") ++ p .type target
  | .referenceType name mutable target =>
    text "&" ++ optional name (fun name => lifetime name ++ blank) ++ textIf mutable "mut " ++
      p .type target
  | .neverType => text "!"
  | .inferredType => text "_"
  | .tupleType elements => tuple (elements.map (p .type))
  | .parenType ty => text "(" ++ p .type ty ++ text ")"
  | .traitObject nodes => text "dyn " ++ sepBy (text " + ") (nodes.map (bound p))
  | .implType nodes => text "impl " ++ sepBy (text " + ") (nodes.map (bound p))
  | .functionType lifetimes isUnsafe convention params variadic output =>
    boundLifetimes p lifetimes ++ textIf isUnsafe "unsafe " ++ abi convention ++ text "fn(" ++
      consistent indentWidth
        (openParams (params.map (functionTypeParam p)) (variadic.map (functionTypeParam p))) ++
      text ")" ++ returnType p output
  | .macroCall call => macroCall call none false
  | node => path p .type node

/-- Whether a pattern is a literal or matches everything. -/
def isPlainCase (node : Node) : Bool :=
  match node.bare with
  | .literal _ => true
  | .wildPattern => true
  | _ => false

def fieldPattern (p : Printer) : Node → Doc
  | .fieldPattern attrs name pattern =>
    outerAttrs p attrs ++ optional name (fun name => member name ++ text ": ") ++
      p .pattern pattern
  | _ => []

def pattern (p : Printer) : Node → Doc
  | .attributed attrs node => outerAttrs p attrs ++ p .pattern node
  | .bindingPattern byRef mutable name sub =>
    textIf byRef "ref " ++ textIf mutable "mut " ++ ident name ++
      optional sub fun node => text " @ " ++ p .pattern node
  | .orPattern _ cases =>
    let body := sepBy (space ++ text "| ") (cases.map (p .pattern))
    if cases.all isPlainCase then inconsistent 0 body else consistent 0 body
  | .parenPattern node => text "(" ++ p .pattern node ++ text ")"
  | .referencePattern mutable node => text "&" ++ textIf mutable "mut " ++ p .pattern node
  | .restPattern => text ".."
  | .slicePattern elements =>
    text "[" ++ eachLast (fun node last => p .pattern node ++ trailingComma last) elements ++
      text "]"
  | .structPattern node fields rest =>
    consistent indentWidth
      (path p .expr node ++ text " \x7b" ++ spaceIfNonempty ++
        eachLast (fun field last =>
          fieldPattern p field ++ trailingCommaOrSpace (last && rest.isNone)) fields ++
        optional rest (fun attrs => outerAttrs p attrs ++ text ".." ++ space) ++ outdent) ++
      text "\x7d"
  | .tuplePattern [element] trailing =>
    text "(" ++
      consistent indentWidth
        (zeroBreak ++ p .pattern element ++ textIf trailing "," ++ zeroBreak ++ outdent) ++
      text ")"
  | .tuplePattern elements _ => commaList "(" ")" indentWidth (elements.map (p .pattern))
  | .tupleStructPattern node elements =>
    path p .expr node ++ commaList "(" ")" indentWidth (elements.map (p .pattern))
  | .typedPattern attrs node ty =>
    outerAttrs p attrs ++ p .pattern node ++ text ": " ++ p .type ty
  | .wildPattern => text "_"
  | node => p (.expr false) node

end ActionUnits.Print
