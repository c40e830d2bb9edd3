/-!
# Faults of path patterns
-/

namespace ActionUnits

/-- What is wrong with a path pattern. -/
inductive PatternFaultKind where
  /-- More than two asterisks in a row. -/
  | manyAsterisks
  /-- Two asterisks that are not a whole component. -/
  | partialRecursion
  /-- Brackets that are not closed, or are empty. -/
  | range
deriving DecidableEq

/-- A fault of a path pattern, with the number of characters before it. -/
structure PatternFault where
  position : Nat
  kind : PatternFaultKind
deriving DecidableEq

namespace PatternFault

def kindText : PatternFaultKind → String
  | .manyAsterisks => "wildcards are either regular `*` or recursive `**`"
  | .partialRecursion => "recursive wildcards must form a single path component"
  | .range => "invalid range pattern"

def message (fault : PatternFault) : String :=
  s!"Pattern syntax error near position {fault.position}: {kindText fault.kind}"

end PatternFault

end ActionUnits
