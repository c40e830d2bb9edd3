import ActionUnits.Source.Parser

/-!
# The grammar as a family of parsers

Rules of the grammar refer to each other through a `Grammar`, which gives a parser for each
nonterminal. A rule is a parser that takes the grammar as an argument, so each group of rules can be
read on its own; the knot is tied where all of them are known.
-/

namespace ActionUnits.Source

/-- Binding strengths of operators, from loose to tight. -/
inductive Precedence where
  | jump
  | assign
  | range
  | or
  | and
  | compare
  | bitOr
  | bitXor
  | bitAnd
  | shift
  | sum
  | product
  | cast
deriving DecidableEq

/-- The place of a binding strength in their order. -/
def Precedence.rank : Precedence → Nat
  | .jump => 0
  | .assign => 1
  | .range => 2
  | .or => 3
  | .and => 4
  | .compare => 5
  | .bitOr => 6
  | .bitXor => 7
  | .bitAnd => 8
  | .shift => 9
  | .sum => 10
  | .product => 11
  | .cast => 12

/-- The nonterminals through which rules refer to each other. -/
inductive Nonterminal where
  /-- Generic arguments in angle brackets. -/
  | angleArguments
  /-- A type; `plus` allows a sum of bounds. -/
  | ty (plus : Bool)
  /-- A pattern with alternatives. -/
  | pattern
  /-- A pattern without alternatives at its top. -/
  | singlePattern
  /-- An expression; `braces` allows a path to open a struct expression. -/
  | expr (braces : Bool)
  /-- An expression that ends after a closing brace at its start. -/
  | earlyExpr
  /-- An operand with its prefix operators. -/
  | unary (braces : Bool)
  /-- The right operand of an operator of the given strength. -/
  | operand (braces : Bool) (strength : Precedence)
  /-- The statements of a block. -/
  | statements
  /-- An item with its attributes. -/
  | item

abbrev Grammar := Nonterminal → Parser Node

def blockIn (g : Grammar) : Parser Node :=
  group .brace (g .statements)

end ActionUnits.Source
