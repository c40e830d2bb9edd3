import ActionUnits.Emit.Config
import ActionUnits.Error
import ActionUnits.Text.Blank
import ActionUnits.Token.Lexer
import ActionUnits.Unit.Basic

/-!
# Units as tokens

The fixed shape of a generated unit: imports, a companion module with one type and one
implementation per action, and the registry.
-/

namespace ActionUnits.Emit

open ActionUnits.Token (word operator)

def words (texts : List String) : List Token :=
  texts.map word

def inside (delimiter : Delimiter) (body : List Token) : List Token :=
  [.group delimiter body]

def comma : List Token :=
  operator ","

/-- Sequences of tokens with commas between them. -/
def commaSeparated (parts : List (List Token)) : List Token :=
  comma.intercalate parts

def pathTo (segments : List String) : List Token :=
  (operator "::").intercalate (segments.map fun segment => [word segment])

/-- An attribute that documents something. -/
def docAttr (inner : Bool) (text : String) : List Token :=
  operator "#" ++ (if inner then operator "!" else []) ++
    inside .bracket (word "doc" :: operator "=" ++ [.string text])

def qualifiedName (unit : SourceUnit) : String :=
  let qualifier := match unit.package with
    | some package => package.segments.map Ident.text
    | none => []
  "::".intercalate (qualifier ++ [unit.name])

def header (unit : SourceUnit) : List Token :=
  docAttr true s!" Generated actions for `{qualifiedName unit}`." ++
    docAttr true "" ++
    docAttr true " Do not edit by hand."

/-! ## Fields -/

/-- The arguments that tell how a field is serialized. -/
def serdeArguments (field : Field) : List (List Token) :=
  (match field.rename with
    | some name => [word "rename" :: operator "=" ++ [.string name]]
    | none => []) ++
  (if field.required then [] else [[word "default"]])

/-- The attribute that tells how a field is serialized; it is left out without arguments. -/
def serdeAttr (field : Field) : List Token :=
  match serdeArguments field with
  | [] => []
  | arguments =>
    operator "#" ++ inside .bracket (word "serde" :: inside .paren (commaSeparated arguments))

/-- The attribute that marks an expression of the query language. -/
def sqlAttr (field : Field) : List Token :=
  if field.sqlExpr then
    operator "#" ++ inside .bracket (word "action" :: inside .paren [word "sql_expr"])
  else []

/-- A field of a generated type. -/
def fieldTokens (field : Field) : List Token :=
  serdeAttr field ++ sqlAttr field ++
    [word "pub", .ident field.ident] ++ operator ":" ++ field.type.tokens

/-! ## Input aliases -/

/-- A field of the action itself. -/
def selfField (field : Ident) : List Token :=
  word "self" :: operator "." ++ [.ident field]

def methodCall (method : String) : List Token :=
  operator "." ++ [word method] ++ inside .paren []

def aliasLeaf : AliasExpr → List Token
  | .empty => pathTo ["Vec", "new"] ++ inside .paren []
  | .seq fields =>
    word "vec" :: operator "!" ++ inside .bracket
      (commaSeparated (fields.map fun field => selfField field ++ methodCall "clone"))
  | .orEmpty field => selfField field ++ methodCall "clone" ++ methodCall "unwrap_or_default"
  | .append _ _ => []

/-- An alias expression: one leaf, or the concatenation of all leaves. -/
def aliasTokens : AliasExpr → List Token
  | .append left right =>
    inside .bracket (commaSeparated ((AliasExpr.append left right).operands.map aliasLeaf)) ++
      methodCall "concat"
  | leaf => aliasLeaf leaf

/-! ## Types -/

def applied (name : String) (argument : List Token) : List Token :=
  word name :: operator "<" ++ argument ++ operator ">"

/-- A type whose argument is a type with one argument; the closing brackets touch. -/
def appliedTwice (outer inner : String) (argument : List Token) : List Token :=
  word outer :: operator "<" ++ word inner :: operator "<" ++ argument ++ operator ">>"

/-- The documentation of a generated type. -/
def classDocs (decl : ClassDecl) : List Token :=
  let description := match decl.description with
    | some text => "" :: (Text.lines text.toList).map fun line => " " ++ String.ofList line
    | none => []
  (s!" Action `{decl.discriminator}`." :: description).flatMap (docAttr false)

/-- The traits that generated types derive. -/
def deriveAttr (extra : List (List Token)) : List Token :=
  let own := [[word "Debug"], [word "Clone"], [word "PartialEq"],
    operator "::" ++ pathTo ["serde", "Serialize"],
    operator "::" ++ pathTo ["serde", "Deserialize"], [word "ActionParams"]]
  operator "#" ++ inside .bracket (word "derive" :: inside .paren (commaSeparated (own ++ extra)))

/-- The head of a method on a shared receiver, with further parameters. -/
def methodHead (name : String) (params output : List Token) : List Token :=
  words ["fn", name] ++ inside .paren (operator "&" ++ [word "self"] ++ params) ++
    operator "->" ++ output

/-- The trait that an action implements, and the result of its transformation. -/
def outputTypes (decl : ClassDecl) : String × List Token :=
  let dataset := decl.datasetType.tokens
  match decl.arity with
  | .single => ("SingleOutputAction", applied "TransformResult" dataset)
  | .multi => ("MultiOutputAction", appliedTwice "TransformResult" "Outputs" dataset)

/-- The struct of a generated type, after its documentation. -/
def structTokens (extra : List (List Token)) (decl : ClassDecl) : List Token :=
  deriveAttr extra ++ words ["pub", "struct"] ++ [.ident decl.ident] ++
    inside .brace (decl.fields.flatMap fun field => fieldTokens field ++ comma)

/-- The implementation of a generated type. -/
def implTokens (decl : ClassDecl) : List Token :=
  let (base, output) := outputTypes decl
  let dataset := decl.datasetType.tokens
  let text := operator "&" ++ [.punct '\'' true, word "static", word "str"]
  let inputs := comma ++ [word "inputs"] ++ operator ":" ++ operator "&" ++
    applied "Inputs" dataset
  word "impl" :: applied base dataset ++ [word "for", .ident decl.ident] ++ inside .brace
    (methodHead "id" [] text ++ inside .brace [.string decl.discriminator] ++
      methodHead "input_aliases" [] (applied "Vec" [word "String"]) ++
        inside .brace (aliasTokens decl.inputAliases) ++
      methodHead "transform" inputs output ++ decl.body.tokens)

/-- A generated type with its implementation. -/
def classTokens (config : EmitConfig) (extra : List (List Token)) (decl : ClassDecl) :
    List Token :=
  (if config.generateDocs then classDocs decl else []) ++ structTokens extra decl ++
    implTokens decl

/-- The module that holds the generated types. -/
def companionTokens (config : EmitConfig) (extra : List (List Token)) (unit : SourceUnit) :
    List Token :=
  words ["pub", "mod"] ++ [.ident unit.companion] ++ inside .brace
    (words ["use", "super"] ++ operator "::" ++ operator "*" ++ operator ";" ++
      unit.classes.flatMap (classTokens config extra))

/-! ## Registries -/

def entryTokens (entry : RegistryEntry) : List Token :=
  pathTo ["NamedType", "new"] ++ operator "::" ++ operator "<" ++ [.ident entry.ident] ++
    operator ">" ++ inside .paren [.string entry.discriminator]

def entryList (registry : Registry) : List Token :=
  match registry.entries with
  | [] => pathTo ["Vec", "new"] ++ inside .paren []
  | entries =>
    words ["use", "self"] ++ operator "::" ++ [.ident registry.companion] ++ operator "::" ++
      operator "*" ++ operator ";" ++ pathTo ["Vec", "from"] ++
      inside .paren (inside .bracket (commaSeparated (entries.map entryTokens)))

def registryTokens (config : EmitConfig) (registry : Registry) : List Token :=
  let dataset := registry.datasetType.tokens
  (if config.generateDocs then
    docAttr false s!" Registry of the actions in [`{registry.companion.text}`]."
  else []) ++
    words ["pub", "struct"] ++ [.ident registry.ident] ++ operator ";" ++
    [word "impl"] ++ applied "ActionRegistry" dataset ++ [word "for", .ident registry.ident] ++
    inside .brace (methodHead "types" [] (appliedTwice "Vec" "NamedType" dataset) ++
      inside .brace (entryList registry))

/-! ## Units -/

/-- Reads the further traits to derive. -/
def extraDerives (unit : SourceUnit) (config : EmitConfig) : Except Error (List (List Token)) :=
  config.extraDerives.mapM fun text =>
    match Lexer.lex? text >>= Source.readPath? with
    | some fragment => .ok fragment.tokens
    | none => .error (.fragment .derive unit.name text .grammar)

def unitTokens (config : EmitConfig) (unit : SourceUnit) : Except Error (List Token) := do
  let extra ← extraDerives unit config
  return header unit ++ unit.imports.flatMap (·.tokens) ++ companionTokens config extra unit ++
    registryTokens config unit.registry

end ActionUnits.Emit
