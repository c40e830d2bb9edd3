import ActionUnits.Print.Basic

/-!
# Shapes of expressions

Questions about expressions that decide how they are laid out: whether an expression can open a
line by itself, whether it needs a separator after it, and how it behaves when it is broken.
-/

namespace ActionUnits.Print

open ActionUnits.Source

/-- Whether an expression is a plain name no wider than one step of indentation. -/
def isShortName : Node → Bool
  | .path false [.segment name none] => name.text.utf8ByteSize ≤ 4
  | _ => false

/-- Whether an expression brings brackets of its own that may be broken in its place. -/
def isBlocklike (e : Node) : Bool :=
  let (attrs, e) := e.splitAttrs
  let bracketed := match e with
    | .array _ => true
    | .asyncBlock _ _ => true
    | .blockExpr _ _ => true
    | .closure _ _ _ _ _ _ _ _ => true
    | .constBlock _ => true
    | .structExpr _ _ _ _ => true
    | .tryBlock _ => true
    | .tuple _ => true
    | .unsafeBlock _ => true
    | _ => false
  bracketed && !hasOuter attrs

/-- Whether an expression needs a comma after it as the body of a match arm. -/
def needsComma (e : Node) : Bool :=
  match e.bare with
  | .ifElse _ _ _ => false
  | .matchOn _ _ => false
  | .blockExpr _ _ => false
  | .unsafeBlock _ => false
  | .whileLoop _ _ _ => false
  | .loop _ _ => false
  | .forLoop _ _ _ _ => false
  | .tryBlock _ => false
  | .constBlock _ => false
  | _ => true

/-- Whether an expression needs a semicolon after it before another statement. -/
def needsSemicolon (e : Node) : Bool :=
  match e.bare with
  | .macroCall call => call.delimiter != .brace
  | _ => needsComma e

def assignOperators : List String :=
  ["+=", "-=", "*=", "/=", "%=", "^=", "&=", "|=", "<<=", ">>="]

/-- Whether an expression gets a semicolon although none was written. -/
def addsSemicolon (e : Node) : Bool :=
  match e.bare with
  | .assign _ _ => true
  | .breakExpr _ _ => true
  | .continueExpr _ => true
  | .returnExpr _ => true
  | .yieldExpr _ => true
  | .binary _ operator _ => assignOperators.contains operator
  | _ => false

/-- Whether the semicolon after an expression is left out. -/
def dropsSemicolon : Node → Bool
  | .attributed _ e => dropsSemicolon e
  | .forLoop _ _ _ _ => true
  | .whileLoop _ _ _ => true
  | .ifElse _ _ none => true
  | .ifElse _ _ (some otherwise) => dropsSemicolon otherwise
  | _ => false

/-- Whether an expression can stand as a statement: it does not start with a block that would end
the statement early. -/
def standsAlone : Node → Bool
  | .attributed _ e => standsAlone e
  | .assign left _ => standsAlone left
  | .await base => standsAlone base
  | .binary left _ _ => needsSemicolon left && standsAlone left
  | .call function _ => needsSemicolon function && standsAlone function
  | .cast value _ => needsSemicolon value && standsAlone value
  | .field base _ => standsAlone base
  | .index base _ => needsSemicolon base && standsAlone base
  | .methodCall receiver _ _ _ => standsAlone receiver
  | .range (some start) _ _ => needsSemicolon start && standsAlone start
  | .tryExpr base => standsAlone base
  | _ => true

/-- Whether a condition that is broken puts the brace after it on a line of its own. -/
def wrapsBrace : Node → Bool
  | .attributed _ e => wrapsBrace e
  | .assign _ _ => true
  | .await _ => true
  | .binary _ _ _ => true
  | .cast _ _ => true
  | .field _ _ => true
  | .index _ _ => true
  | .methodCall _ _ _ _ => true
  | .breakExpr _ (some value) => wrapsBrace value
  | .call function _ => wrapsBrace function
  | .letCondition _ value => wrapsBrace value
  | .paren inner => wrapsBrace inner
  | .range _ _ (some stop) => wrapsBrace stop
  | .rawAddress _ place => wrapsBrace place
  | .reference _ place => wrapsBrace place
  | .returnExpr (some value) => wrapsBrace value
  | .tryExpr base => wrapsBrace base
  | .unary _ operand => wrapsBrace operand
  | .yieldExpr (some value) => wrapsBrace value
  | _ => false

/-- The body of a match arm without braces around a single expression. -/
def armBody : Node → Node
  | .blockExpr none (.block [.exprStmt inner false]) => armBody inner
  | .tuple [] => .blockExpr none (.block [])
  | body => body

end ActionUnits.Print
