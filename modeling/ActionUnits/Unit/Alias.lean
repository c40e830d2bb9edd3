import ActionUnits.Token.Basic

/-!
# Input aliases

The expression that computes the names of the input datasets of an action from its fields.
-/

namespace ActionUnits

/-- An expression for a list of dataset names. -/
inductive AliasExpr where
  /-- No names. -/
  | empty
  /-- The values of fields that hold one name each. -/
  | seq (fields : List Ident)
  /-- The names in a field that holds an optional list. -/
  | orEmpty (field : Ident)
  | append (left right : AliasExpr)

namespace AliasExpr

/-- The leaves of an expression, from left to right. -/
def operands : AliasExpr → List AliasExpr
  | .append left right => left.operands ++ right.operands
  | leaf => [leaf]

/-- The names that an expression denotes, given the values of the fields. -/
def value (single : Ident → String) (list : Ident → Option (List String)) :
    AliasExpr → List String
  | .empty => []
  | .seq fields => fields.map single
  | .orEmpty field => (list field).getD []
  | .append left right => left.value single list ++ right.value single list

/-- Appends expressions one after the other; there is none without any. -/
def appendAll? : List AliasExpr → Option AliasExpr
  | [] => none
  | first :: rest => some (rest.foldl .append first)

/-- Single names first, then the lists. -/
def ofFields (singles lists : List Ident) : AliasExpr :=
  match singles.isEmpty, appendAll? (lists.map .orEmpty) with
  | true, none => .empty
  | true, some lists => lists
  | false, none => .seq singles
  | false, some lists => .append (.seq singles) lists

end AliasExpr

end ActionUnits
