/-!
# Parameters of actions
-/

namespace ActionUnits

/-- A parameter of an action, which becomes a field of the generated type. -/
structure Param where
  name : String
  /-- The source text of the field's type. -/
  type : String
  /-- The name of the field in serialized actions, if it differs. -/
  mappedName : Option String := none
  isRequired : Bool := false
  /-- Whether the value is an expression in the query language. -/
  isSqlExpr : Bool := false
  /-- Whether the value names an input dataset. -/
  isDatasetRef : Bool := false
  /-- Whether the value is an optional list of names of input datasets. -/
  isDatasetRefList : Bool := false
deriving DecidableEq

namespace Param

def withMappedName (param : Param) (name : String) : Param :=
  { param with mappedName := some name }

def withRequired (param : Param) (value : Bool) : Param :=
  { param with isRequired := value }

def withSqlExpr (param : Param) (value : Bool) : Param :=
  { param with isSqlExpr := value }

def withDatasetRef (param : Param) (value : Bool) : Param :=
  { param with isDatasetRef := value }

def withDatasetRefList (param : Param) (value : Bool) : Param :=
  { param with isDatasetRefList := value }

end Param

end ActionUnits
