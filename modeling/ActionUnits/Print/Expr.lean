import ActionUnits.Print.Shape
import ActionUnits.Print.Type
import ActionUnits.Source.Parser

/-!
# Printing expressions
-/

namespace ActionUnits.Print

open ActionUnits.Layout ActionUnits.Layout.Doc ActionUnits.Source

/-! ## Blocks -/

def statementsOf : Node → List Node
  | .block statements => statements
  | _ => []

/-- Statements, each on a line of its own. -/
def statements (p : Printer) (nodes : List Node) : Doc :=
  eachLast (fun node last => p (.stmt last) node) nodes

/-- A block in braces, which may be on one line if it is a single expression. -/
def smallBlock (p : Printer) (attrs : List Node) (block : Node) : Doc :=
  let nodes := statementsOf block
  let body := match nodes with
    | [.exprStmt e false] => inconsistent 0 (p (.expr true) e) ++ space
    | _ => statements p nodes
  text "\x7b" ++
    (if hasInner attrs || !nodes.isEmpty then space ++ innerAttrs p attrs ++ body ++ outdent
    else []) ++
    text "\x7d"

/-- A box around a small block, after its keyword. -/
def boxedBlock (p : Printer) (attrs : List Node) (block : Node) : Doc :=
  consistent indentWidth (smallBlock p attrs block)

/-- A block in braces whose statements are always on lines of their own. -/
def tallBlock (p : Printer) (attrs : List Node) (block : Node) : Doc :=
  text "\x7b" ++ neverBreak ++
    consistent indentWidth
      (hardBreakIfNonempty ++ innerAttrs p attrs ++ statements p (statementsOf block) ++
        outdent) ++
    text "\x7d"

def condition (p : Printer) (e : Node) : Doc :=
  consistent 0 (p (.expr false) e ++ if wrapsBrace e then space else blank)

/-! ## Chains of fields and calls -/

def callArguments (p : Printer) (nodes : List Node) : Doc :=
  let boxed := commaList "(" ")" indentWidth (nodes.map (p (.expr false)))
  match nodes with
  | [node] =>
    if isBlocklike node then text "(" ++ p (.expr false) node ++ text ")" else boxed
  | _ => boxed

/-- A place before a point, which is missing after a short name at the start of a line. -/
def pointBreak (lineStart : Bool) (base : Node) : Doc :=
  if lineStart && isShortName base then [] else zeroBreak

/-- The links of a chain. `flush` tells that the arguments of the last call are not indented;
other expressions are no links. -/
def link? (p : Printer) (lineStart flush : Bool) : Node → Option Doc
  | .await base => some (p (.chain lineStart) base ++ pointBreak lineStart base ++ text ".await")
  | .field base name =>
    some (p (.chain lineStart) base ++ pointBreak lineStart base ++ text "." ++ member name)
  | .index base position =>
    some (p (.chain lineStart) base ++ text "[" ++ p (.expr false) position ++ text "]")
  | .methodCall receiver method turbofish nodes =>
    some
      (p (.chain lineStart) receiver ++ pointBreak lineStart receiver ++ text "." ++
        ident method ++ optionalArguments p .expr turbofish ++
        consistent (if flush then -indentWidth else 0) (callArguments p nodes))
  | .tryExpr base => some (p (.chain lineStart) base ++ text "?")
  | _ => none

/-- An expression that a link of a chain is applied to. -/
def chain (p : Printer) (lineStart : Bool) (node : Node) : Doc :=
  match node.bare with
  | .call function nodes => p (.chain false) function ++ callArguments p nodes
  | bare =>
    match link? p lineStart false bare with
    | some doc => doc
    | none => consistent (-indentWidth) (p (.expr false) node)

/-- Whether the arguments of the last call of a chain are not indented. -/
def isFlush (lineStart : Bool) : Node → Bool
  | .methodCall receiver _ _ _ => lineStart && isShortName receiver
  | _ => false

/-! ## Closures and matches -/

/-- An expression that is put into braces, or else parentheses, if it is broken. -/
def wrapped (e : Node) (body : Doc) (comma : Bool) : Doc :=
  let alone := standsAlone e
  consistent indentWidth
    (line { before := some (if alone then '\x7b' else '(') } ++ body ++
      line
        { offset := -indentWidth
          before := if alone && addsSemicolon e then some ';' else none
          after := if alone then "\x7d" else if comma then ")," else ")"
          unbroken := if comma && needsComma e then some ',' else none })

/-- Whether the body of a closure is printed as it is. -/
def isBareBody (body : Node) : Bool :=
  match body.splitAttrs with
  | (attrs, .matchOn _ _) => !hasOuter attrs
  | (attrs, .call _ _) => !hasOuter attrs
  | _ => isBlocklike body

def closureTail (p : Printer) (params : List Node) (output : Option Node) (body : Node) : Doc :=
  let inputs := text "|" ++ (if params.isEmpty then [] else zeroBreak) ++
    sepBy (text "," ++ space) (params.map (p .pattern))
  match output with
  | none =>
    consistent indentWidth (inputs ++ text "|" ++ space ++ outdent) ++ neverBreak ++
      if isBareBody body then p (.expr false) body else wrapped body (p (.expr false) body) false
  | some ty =>
    consistent indentWidth
      (inputs ++ (if params.isEmpty then [] else trailingComma true ++ outdent) ++ text "|") ++
      text " -> " ++ p .type ty ++ blank ++ neverBreak ++ p (.expr false) body

def arm (p : Printer) : Node → Doc
  | .arm attrs pattern guard body =>
    let head := p .pattern pattern ++
      optional guard (fun e => text " if " ++ p (.expr false) e) ++ text " => "
    let body := armBody body
    outerAttrs p attrs ++ inconsistent 0
      (head ++
        match body.splitAttrs with
        | (attrs, .blockExpr name block) => label name ++ tallBlock p attrs block
        | _ => neverBreak ++ wrapped body (p (.expr true) body) true)
  | _ => []

/-! ## Branches -/

/-- The branches after the first one. -/
def branches (p : Printer) : Option Node → Doc
  | none => []
  | some (.ifElse test body otherwise) =>
    text " else " ++ text "if " ++ consistent (-indentWidth) (condition p test) ++
      smallBlock p [] body ++ branches p otherwise
  | some (.blockExpr _ body) => text " else " ++ smallBlock p [] body
  | some _ => []

/-- A conditional expression. Without further branches its body is on lines of its own. -/
def ifElse (p : Printer) (test body : Node) (otherwise : Option Node) : Doc :=
  let nodes := statementsOf body
  consistent indentWidth
    (text "if " ++ consistent (-indentWidth) (condition p test) ++
      match otherwise with
      | some _ => smallBlock p [] body ++ branches p otherwise
      | none =>
        if nodes.isEmpty then text "\x7b\x7d"
        else text "\x7b" ++ hardBreak ++ statements p nodes ++ outdent ++ text "\x7d")

/-! ## Arrays and structs -/

/-- Whether an expression is a number without a fraction, a character, a byte or a truth value. -/
def isSimpleLiteral : Node → Bool
  | .literal text =>
    text == "true" || text == "false" || text.startsWith "'" || text.startsWith "b'" ||
      (isNumeral text && !isFloat text)
  | _ => false

/-- An array; simple elements fill their lines. -/
def array (p : Printer) (elements : List Node) : Doc :=
  let docs := elements.map (p (.expr false))
  if elements.isEmpty then text "[]"
  else if elements.all isSimpleLiteral then
    text "[" ++
      consistent indentWidth
        (zeroBreak ++ inconsistent 0 (sepBy (text "," ++ space) docs) ++ trailingComma true ++
          outdent) ++
      text "]"
  else commaList "[" "]" indentWidth docs

/-- A field of a struct expression. -/
def fieldValue (p : Printer) : Node → Doc
  | .fieldValue attrs name value =>
    outerAttrs p attrs ++ member name ++
      optional value fun e => text ": " ++ inconsistent 0 (p (.expr false) e)
  | _ => []

/-- The widest struct expression on one line. -/
def structWidth : Nat := 34

def structExpr (p : Printer) (node : Node) (fields : List Node) (rest : Option Node) : Doc :=
  consistentWithin indentWidth structWidth
    (inconsistent (-indentWidth) (path p .expr node) ++ text " \x7b" ++ spaceIfNonempty ++
      eachLast (fun field last =>
        fieldValue p field ++ trailingCommaOrSpace (last && rest.isNone)) fields ++
      optional rest (fun e => text ".." ++ p (.expr false) e ++ space) ++ outdent) ++
    text "\x7d"

/-! ## Expressions -/

def keyword (p : Printer) (word : String) (value : Option Node) : Doc :=
  text word ++ optional value fun e => blank ++ p (.expr false) e

def infixed (p : Printer) (left : Node) (operator : String) (right : Doc) : Doc :=
  inconsistent indentWidth
    (inconsistent (-indentWidth) (p (.expr false) left) ++ space ++ text operator ++ blank ++
      right)

/-- An expression that is no link of a chain, with its attributes. -/
def plainExpr (p : Printer) (attrs : List Node) : Node → Doc
  | .array elements => array p elements
  | .assign left right =>
    inconsistent 0
      (p (.expr false) left ++ text " = " ++ neverBreak ++ p (.expr false) right)
  | .asyncBlock move body => text "async " ++ textIf move "move " ++ boxedBlock p attrs body
  | .binary left operator right => infixed p left operator (p (.expr false) right)
  | .blockExpr name body => label name ++ boxedBlock p attrs body
  | .breakExpr name value =>
    text "break" ++ optional name (fun name => blank ++ lifetime name) ++ keyword p "" value
  | .call function nodes => p (.expr false) function ++ callArguments p nodes
  | .cast value ty => infixed p value "as" (p .type ty)
  | .closure lifetimes isConst isStatic isAsync move params output body =>
    inconsistent 0
      (boundLifetimes p lifetimes ++ textIf isConst "const " ++ textIf isStatic "static " ++
        textIf isAsync "async " ++ textIf move "move " ++ closureTail p params output body)
  | .constBlock body => text "const " ++ boxedBlock p attrs body
  | .continueExpr name => text "continue" ++ optional name fun name => blank ++ lifetime name
  | .forLoop name pattern source body =>
    inconsistent 0
      (label name ++ text "for " ++ p .pattern pattern ++ text " in " ++ neverBreak ++
        condition p source ++ tallBlock p attrs body)
  | .ifElse test body otherwise => ifElse p test body otherwise
  | .underscore => text "_"
  | .letCondition pattern value =>
    inconsistent 0
      (text "let " ++ p .pattern pattern ++ text " = " ++ neverBreak ++ p (.expr false) value)
  | .literal literal => text literal
  | .loop name body =>
    label name ++ text "loop \x7b" ++
      consistent indentWidth
        (hardBreakIfNonempty ++ innerAttrs p attrs ++ statements p (statementsOf body) ++
          outdent) ++
      text "\x7d"
  | .macroCall call => macroCall call none false
  | .matchOn scrutinee arms =>
    inconsistent 0
      (text "match " ++ condition p scrutinee ++ text "\x7b" ++ neverBreak ++
        consistent indentWidth
          (hardBreakIfNonempty ++ innerAttrs p attrs ++
            arms.flatMap (fun node => arm p node ++ hardBreak) ++ outdent) ++
        text "\x7d")
  | .paren inner => text "(" ++ p (.expr false) inner ++ text ")"
  | .range start closed stop =>
    optional start (p (.expr false)) ++ text (if closed then "..=" else "..") ++
      optional stop (p (.expr false))
  | .rawAddress mutable place =>
    text "&raw " ++ text (if mutable then "mut " else "const ") ++ p (.expr false) place
  | .reference mutable place => text "&" ++ textIf mutable "mut " ++ p (.expr false) place
  | .repeatArray element length =>
    text "[" ++ p (.expr false) element ++ text "; " ++ p (.expr false) length ++ text "]"
  | .returnExpr value => keyword p "return" value
  | .structExpr node fields _ rest => structExpr p node fields rest
  | .tryBlock body => text "try " ++ boxedBlock p attrs body
  | .tuple elements => Doc.tuple (elements.map (p (.expr false)))
  | .unary operator operand => text operator.toString ++ p (.expr false) operand
  | .unsafeBlock body => text "unsafe " ++ boxedBlock p attrs body
  | .whileLoop name test body =>
    label name ++ text "while " ++ condition p test ++ tallBlock p attrs body
  | .yieldExpr value => keyword p "yield" value
  | node => path p .expr node

/-- An expression. -/
def expr (p : Printer) (lineStart : Bool) (node : Node) : Doc :=
  let (attrs, bare) := node.splitAttrs
  outerAttrs p attrs ++
    match link? p lineStart (isFlush lineStart bare) bare with
    | some doc => consistent indentWidth doc
    | none => plainExpr p attrs bare

end ActionUnits.Print
