import ActionUnits.Action.Param
import ActionUnits.Text.Blank
import ActionUnits.Text.Casing

/-!
# Action definitions
-/

namespace ActionUnits

/-- The definition of an action. -/
structure Action where
  id : String
  /-- The source text of the body of the transformation. -/
  expr : String
  params : List Param := []
  /-- Whether the action has several outputs. -/
  isMultiOut : Bool := false
  description : Option String := none
deriving DecidableEq

namespace Action

def withParams (action : Action) (params : List Param) : Action :=
  { action with params }

def addParam (action : Action) (param : Param) : Action :=
  { action with params := action.params ++ [param] }

def withMultiOut (action : Action) (value : Bool) : Action :=
  { action with isMultiOut := value }

def withDescription (action : Action) (text : String) : Action :=
  { action with description := some text }

/-- The characters of the name of the type generated for an id: the segments between underscores,
each with its first character in upper case, and the word `Action`. -/
def classNameChars (id : List Char) : List Char :=
  (Text.splitAll '_' id).flatMap Text.capitalize ++ "Action".toList

/-- The name of the generated type. -/
def className (action : Action) : String :=
  String.ofList (classNameChars action.id.toList)

/-- Parameters that name an input dataset, in order. -/
def singleRefs (action : Action) : List Param :=
  action.params.filter (·.isDatasetRef)

/-- Parameters that list input datasets, in order. -/
def listRefs (action : Action) : List Param :=
  action.params.filter (·.isDatasetRefList)

end Action

end ActionUnits
