import ActionUnits.Action.Definition

/-!
# Sets of action definitions

A set is ordered. Merging keeps the first of equal definitions and of equal imports; two different
definitions with one id are both kept.
-/

namespace ActionUnits

/-- Action definitions with the imports that their bodies need. -/
structure ActionSet where
  definitions : List Action
  imports : List String := []
deriving DecidableEq

namespace ActionSet

/-- The set without definitions and imports. -/
def empty : ActionSet :=
  ⟨[], []⟩

def withImports (set : ActionSet) (imports : List String) : ActionSet :=
  { set with imports }

def size (set : ActionSet) : Nat :=
  set.definitions.length

def isEmpty (set : ActionSet) : Bool :=
  set.definitions.isEmpty

/-- Both sets together, the first one first; of equal elements the first one stays. -/
def merge (a b : ActionSet) : ActionSet where
  definitions := (a.definitions ++ b.definitions).eraseDups
  imports := (a.imports ++ b.imports).eraseDups

end ActionSet

end ActionUnits
