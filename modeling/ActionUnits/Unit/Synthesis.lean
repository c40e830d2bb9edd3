import ActionUnits.Action.Set
import ActionUnits.Error
import ActionUnits.Module.Definition
import ActionUnits.Text.Snake
import ActionUnits.Token.Lexer
import ActionUnits.Unit.Basic

/-!
# From definitions to units

Every configured fragment is read here. The first fragment that does not read fails the unit:
package, imports, dataset type, classes, and at last the names of the unit.
-/

namespace ActionUnits

namespace Synthesis

def readIdent (kind : FragmentKind) (owner text : String) : Except Error Ident :=
  let read : Except Source.IdentFault Ident := match Lexer.lex? text with
    | none => .error .unreadable
    | some tokens => Source.readIdent tokens
  read.mapError fun fault => .fragment kind owner text (.ident fault)

/-- Reads a text by a rule of the grammar; `source` is the text as configured. -/
def readFragment {α : Type} (rule : List Token → Option (Source.Fragment α)) (kind : FragmentKind)
    (owner source text : String) : Except Error (Source.Fragment α) :=
  match Lexer.lex? text >>= rule with
  | some fragment => .ok fragment
  | none => .error (.fragment kind owner source .grammar)

/-- The qualifier of a module's package. -/
def package (module : ModuleDef) : Except Error (Option Package) := do
  let segments ← module.packageSegments.mapM (readIdent .package module.package)
  return Package.ofSegments? segments

/-- Whether a text opens with a keyword that blanks or a parenthesis follow. -/
def opensWith (keyword : String) (cs : List Char) : Bool :=
  match Lexer.strip? keyword.toList cs with
  | some (next :: _) => Text.isBlank next || next == '('
  | _ => false

/-- The declaration that an import text stands for; its keyword and semicolon are optional. -/
def importDeclaration (text : String) : String :=
  let body := Text.trimEnd (Text.dropTrailing (· == ';') (Text.trim text.toList))
  let declaration := String.ofList body ++ ";"
  if opensWith "use" body || opensWith "pub" body then declaration else "use " ++ declaration

def importDecl (owner text : String) : Except Error (Source.Fragment Source.Import) :=
  readFragment Source.readImport? .importDecl owner text (importDeclaration text)

def datasetType (module : ModuleDef) : Except Error (Source.Fragment Source.Node) :=
  readFragment Source.readType? .datasetType module.package module.datasetType module.datasetType

/-- The name by which errors refer to a parameter. -/
def paramOwner (actionId : String) (param : Param) : String :=
  actionId ++ "." ++ param.name

def paramIdent (actionId : String) (param : Param) : Except Error Ident :=
  readIdent .paramName (paramOwner actionId param) param.name

def field (actionId : String) (param : Param) : Except Error Field := do
  let ident ← paramIdent actionId param
  let type ← readFragment Source.readType? .paramType (paramOwner actionId param) param.type
    param.type
  return ⟨ident, type, param.mappedName, param.isRequired, param.isSqlExpr⟩

def inputAliases (action : Action) : Except Error AliasExpr := do
  let singles ← action.singleRefs.mapM (paramIdent action.id)
  let lists ← action.listRefs.mapM (paramIdent action.id)
  return .ofFields singles lists

def classDecl (datasetType : Source.Fragment Source.Node) (action : Action) :
    Except Error ClassDecl := do
  let ident ← readIdent .className action.id action.className
  let fields ← action.params.mapM (field action.id)
  let body ← readFragment Source.readBlock? .expression action.id action.expr
    ("\x7b\n" ++ action.expr ++ "\n\x7d")
  let inputAliases ← inputAliases action
  return {
    ident, datasetType, fields, body, inputAliases
    discriminator := action.id
    arity := if action.isMultiOut then .multi else .single
    description := action.description
  }

/-- The names of a unit: of its registry and of its companion module, which must differ. -/
def unitNames (name : String) : Except Error (Ident × Ident) := do
  let registry ← readIdent .className name name
  let companion ← readIdent .className name (String.ofList (Text.snake name.toList))
  if companion = registry then
    .error (.fragment .className name name (.collision companion))
  else return (registry, companion)

/-- The unit of an action set. Its imports are the set's own, then the module's. -/
def unit (set : ActionSet) (module : ModuleDef) (name : String) : Except Error SourceUnit := do
  let package ← package module
  let imports ← (set.imports ++ module.imports).mapM (importDecl name)
  let datasetType ← datasetType module
  let classes ← set.definitions.mapM (classDecl datasetType)
  let (registry, companion) ← unitNames name
  return {
    name, package, imports, companion, classes
    registry := .ofClasses registry companion datasetType classes
  }

end Synthesis

end ActionUnits
