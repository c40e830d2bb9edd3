import ActionUnits.Source.Grammar.Path

/-!
# Generic parameters and conditions
-/

namespace ActionUnits.Source

/-- A colon and what follows it; the colon is written only if something follows. -/
def colonList (elements : Parser (List Node)) : Parser (List Node) := do
  if ← peek (isOp ":") then
    let (nodes, tokens) ← capture do
      op ":"
      elements
    unless nodes.isEmpty do write tokens
    return nodes
  else return []

def genericParam (g : Grammar) : Parser Node := do
  let attrs ← outerAttrs g
  if ← peek isLifetime then
    let name ← lifetime
    let stop := anyOf [List.isEmpty, isOp ",", isOp ">"]
    let bounds ← colonList (plusList stop (return .lifetime (← lifetime)))
    return .lifetimeParam attrs name bounds
  else if ← peek isIdent then
    let name ← ident
    let stop := anyOf [List.isEmpty, isOp ",", isOp ">", isOp "="]
    let bounds ← colonList (plusList stop (bound g ⟨false, true⟩))
    let default ← when? (isOp "=") do
      op "="
      g (.ty true)
    return .typeParam attrs name bounds default
  else if ← word? "const" then
    let name ← ident
    op ":"
    let ty ← g (.ty true)
    let default ← when? (isOp "=") do
      op "="
      constArgument g
    return .constParam attrs name ty default
  else
    require (← peek (isWord "_"))
    return .typeParam attrs (← anyWord) [] none

def isLifetimeParam : Node → Bool
  | .lifetimeParam _ _ _ => true
  | _ => false

/-- Generic parameters in angle brackets, or none. -/
def genericParams (g : Grammar) : Parser (List Node) := do
  if ← peek (isOp "<") then angleList false isLifetimeParam (genericParam g)
  else return []

/-- Whether the conditions of an item end here. -/
def isPredicateEnd : Peek :=
  anyOf [List.isEmpty, isGroup .brace, isOp ",", isOp ";", (isOp ":").butNot (isOp "::"), isOp "="]

/-- A condition on a lifetime or on a type. -/
def predicate (g : Grammar) : Parser Node := do
  if ← peek (isLifetime.and (second (isOp ":"))) then
    let name ← lifetime
    op ":"
    let bounds ← plusList isPredicateEnd (return .lifetime (← lifetime))
    return .lifetimePredicate name bounds
  else
    let lifetimes ← boundLifetimes? g
    let ty ← g (.ty true)
    op ":"
    let bounds ← plusList isPredicateEnd (bound g ⟨false, true⟩)
    return .typePredicate lifetimes ty bounds

/-- Conditions separated by commas up to their end. -/
def predicates (g : Grammar) : Parser (List Node) := do
  let rec go : Nat → Parser (List Node)
    | 0 => failure
    | fuel + 1 => do
      if ← peek isPredicateEnd then return []
      else
        let first ← predicate g
        if ← op? "," then return first :: (← go fuel)
        else return [first]
  go ((← get).rest.length + 1)

/-- The conditions of an item, or none; without conditions the keyword is not written. -/
def whereClause (g : Grammar) : Parser (List Node) := do
  if ← peek (isWord "where") then
    let (nodes, tokens) ← capture do
      word "where"
      predicates g
    unless nodes.isEmpty do write tokens
    return nodes
  else return []

/-- Whether angle brackets after a keyword hold generic parameters and not the start of a path. -/
def isGenericsStart : Peek :=
  let after : Peek := anyOf [isOp ">", isOp ",", (isOp ":").butNot (isOp "::"), isOp "="]
  (isOp "<").and <| anyOf
    [second (isOp ">"), second (isOp "#"), second (isWord "const"),
     (second (isLifetime.or isIdent)).and (third after)]

end ActionUnits.Source
