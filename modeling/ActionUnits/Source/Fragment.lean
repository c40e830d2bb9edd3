import ActionUnits.Source.Grammar.Stmt

/-!
# Fragments of source text

The grammar with its knot tied, and the fragments that action definitions are made of. A fragment
keeps the tree and the tokens of what was read; the whole text must be read.
-/

namespace ActionUnits.Source

def rule (g : Grammar) : Grammar
  | .angleArguments => angleArguments g
  | .ty plus => type g plus
  | .pattern => pattern g
  | .singlePattern => singlePattern g
  | .expr braces => expr g braces
  | .earlyExpr => earlyExpr g
  | .unary braces => unary g braces
  | .operand braces strength => operand g braces strength
  | .statements => statements g
  | .item => item g

/-- The grammar, in which rules may refer to each other at most so many times in a row. -/
def grammarTo : Nat → Grammar
  | 0, _ => failure
  | depth + 1, nonterminal => fun cursor => rule (grammarTo depth) nonterminal cursor

/-- A depth that no reading of the tokens exceeds: each rule reads a token before a rule that was
entered at the same place is entered again, and there are fewer rules than 16. -/
def depthFor (tokens : List Token) : Nat :=
  16 * Token.sizeAll tokens + 16

/-- What was read: a value and the tokens it stands for. -/
structure Fragment (α : Type) where
  value : α
  tokens : List Token

def readAll? {α : Type} (parser : Grammar → Parser α) (tokens : List Token) :
    Option (Fragment α) := do
  let (value, after) ← parser (grammarTo (depthFor tokens)) ⟨tokens, []⟩
  if after.rest.isEmpty then return ⟨value, after.written.reverse⟩ else none

def readType? (tokens : List Token) : Option (Fragment Node) :=
  readAll? (fun g => g (.ty true)) tokens

def readBlock? (tokens : List Token) : Option (Fragment Node) :=
  readAll? blockIn tokens

def readPath? (tokens : List Token) : Option (Fragment Node) :=
  readAll? (fun g => path g false) tokens

/-- An import: its tree and its visibility. -/
structure Import where
  node : Node
  vis : Fragment Visibility

def readImport? (tokens : List Token) : Option (Fragment Import) :=
  readAll? (fun g => do
    let attrs ← outerAttrs g
    let (vis, visTokens) ← capture visibility
    write visTokens
    match ← useItem false with
    | some node => return ⟨.item attrs vis false node, ⟨vis, visTokens⟩⟩
    | none => failure) tokens

def readFile? (tokens : List Token) : Option (Fragment Node) :=
  readAll? file tokens

/-- Why tokens are not a single identifier. -/
inductive IdentFault where
  /-- The text has no tokens because it does not split into tokens. -/
  | unreadable
  /-- There are no tokens. -/
  | empty
  /-- The first token is a reserved word. -/
  | keyword (word : String)
  /-- The first token is no word. -/
  | notIdent
  /-- Something follows the identifier. -/
  | trailing
deriving DecidableEq

def readIdent : List Token → Except IdentFault Ident
  | [] => .error .empty
  | .ident name :: rest =>
    if isKeyword name then .error (.keyword name.text)
    else if rest.isEmpty then .ok name
    else .error .trailing
  | _ :: _ => .error .notIdent

end ActionUnits.Source
