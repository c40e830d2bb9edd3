import ActionUnits.Source.Fragment
import ActionUnits.Unit.Alias

/-!
# Generated types
-/

namespace ActionUnits

/-- A field of a generated type. -/
structure Field where
  ident : Ident
  type : Source.Fragment Source.Node
  /-- The name in serialized actions, if it differs. -/
  rename : Option String
  required : Bool
  sqlExpr : Bool

/-- How many datasets an action puts out. -/
inductive Arity where
  | single
  | multi
deriving DecidableEq

/-- A generated type with its implementation. -/
structure ClassDecl where
  ident : Ident
  /-- The id that tells this action from others. -/
  discriminator : String
  arity : Arity
  datasetType : Source.Fragment Source.Node
  fields : List Field
  /-- The block that transforms the inputs. -/
  body : Source.Fragment Source.Node
  inputAliases : AliasExpr
  description : Option String

namespace ClassDecl

def statementCount (decl : ClassDecl) : Nat :=
  match decl.body.value with
  | .block statements => statements.length
  | _ => 0

end ClassDecl

end ActionUnits
