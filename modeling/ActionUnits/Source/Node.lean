import ActionUnits.Token.Basic

/-!
# Source trees

The tree of a piece of source text. Types, patterns, expressions, statements and items share one
type of nodes, as they nest in each other in every way: an array type holds an expression, an
expression holds a block, a block holds items. What a rule of the grammar accepts at a place is the
grammar's business and not the tree's.

A tree keeps what the layout of the source depends on. Separators and trailing commas are not part
of it; the tokens of a fragment are kept beside its tree.
-/

namespace ActionUnits.Source

/-- A path of plain names, as in visibilities, attributes and macro calls. -/
structure PlainPath where
  /-- Whether the path starts with `::`. -/
  rooted : Bool
  names : List Ident
deriving DecidableEq

/-- Who may name an item or a field. -/
inductive Visibility where
  | inherited
  | everywhere
  | within (path : PlainPath)

/-- The call of a macro with its unread arguments. -/
structure MacroCall where
  path : PlainPath
  delimiter : Delimiter
  body : List Token

/-- The tree of a `use` declaration. -/
inductive UseTree where
  | path (name : Ident) (tree : UseTree)
  | name (name : Ident)
  | rename (name newName : Ident)
  | glob
  | group (trees : List UseTree)

/-- A field, by name or by position. -/
inductive Member where
  | named (name : Ident)
  | position (index : Nat)

/-- The calling convention of a function: absent, default, or named by a literal. -/
inductive Abi where
  | absent
  | default
  | named (literal : String)

/-- A piece of source text. -/
inductive Node where
  -- Attributes.
  /-- An attribute that is only a path. -/
  | attrWord (inner : Bool) (path : PlainPath)
  /-- An attribute with bracketed arguments. -/
  | attrList (inner : Bool) (path : PlainPath) (delimiter : Delimiter) (body : List Token)
  /-- An attribute with a value. -/
  | attrValue (inner : Bool) (path : PlainPath) (value : Node)
  /-- A node with attributes in front of it, or inside its braces. -/
  | attributed (attrs : List Node) (node : Node)
  -- Paths and their arguments.
  /-- A path, in a type, a pattern or an expression. -/
  | path (rooted : Bool) (segments : List Node)
  /-- A path that starts from a type in angle brackets, perhaps seen as a trait. -/
  | qualifiedPath (self : Node) (traitPath : Option Node) (segments : List Node)
  /-- One segment of a path. -/
  | segment (name : Ident) (arguments : Option Node)
  /-- Arguments in angle brackets. -/
  | angleArguments (arguments : List Node)
  /-- Arguments in parentheses, as callable traits have them. -/
  | parenArguments (inputs : List Node) (output : Option Node)
  /-- A lifetime, by its name without apostrophe. -/
  | lifetime (name : Ident)
  /-- A constant among generic arguments. -/
  | constArgument (value : Node)
  /-- An associated type among generic arguments. -/
  | bindType (name : Ident) (arguments : Option Node) (ty : Node)
  /-- An associated constant among generic arguments. -/
  | bindConst (name : Ident) (arguments : Option Node) (value : Node)
  /-- Bounds on an associated type among generic arguments. -/
  | bindBounds (name : Ident) (arguments : Option Node) (bounds : List Node)
  -- Bounds and generic parameters.
  /-- A trait as a bound; `relaxed` stands for a question mark. -/
  | traitBound (parens relaxed : Bool) (lifetimes : Option (List Node)) (path : Node)
  /-- The generic parameters that a hidden type captures. -/
  | captureBound (parameters : List Node)
  /-- A generic parameter that is a lifetime. -/
  | lifetimeParam (attrs : List Node) (name : Ident) (bounds : List Node)
  /-- A generic parameter that is a type. -/
  | typeParam (attrs : List Node) (name : Ident) (bounds : List Node) (default : Option Node)
  /-- A generic parameter that is a constant. -/
  | constParam (attrs : List Node) (name : Ident) (ty : Node) (default : Option Node)
  /-- A condition on a lifetime. -/
  | lifetimePredicate (name : Ident) (bounds : List Node)
  /-- A condition on a type. -/
  | typePredicate (lifetimes : Option (List Node)) (ty : Node) (bounds : List Node)
  /-- Generic parameters and conditions of an item. -/
  | generics (parameters predicates : List Node)
  -- Types; a path or a macro call is also a type.
  | sliceType (element : Node)
  | arrayType (element length : Node)
  | pointerType (mutable : Bool) (target : Node)
  | referenceType (lifetime : Option Ident) (mutable : Bool) (target : Node)
  | neverType
  | inferredType
  | tupleType (elements : List Node)
  | parenType (ty : Node)
  | traitObject (bounds : List Node)
  | implType (bounds : List Node)
  | functionType (lifetimes : Option (List Node)) (isUnsafe : Bool) (abi : Abi)
      (params : List Node) (variadic : Option Node) (output : Option Node)
  /-- A parameter of a function type. -/
  | functionTypeParam (attrs : List Node) (name : Option Ident) (ty : Node)
  /-- The open end of a parameter list. -/
  | variadic (attrs : List Node) (pattern : Option Node)
  -- Patterns; paths, literals, ranges and macro calls are also patterns.
  | bindingPattern (byRef mutable : Bool) (name : Ident) (sub : Option Node)
  | orPattern (leading : Bool) (cases : List Node)
  | parenPattern (pattern : Node)
  | referencePattern (mutable : Bool) (pattern : Node)
  | restPattern
  | slicePattern (elements : List Node)
  | structPattern (path : Node) (fields : List Node) (rest : Option (List Node))
  /-- A tuple of patterns; `trailing` tells of a comma after the last one. -/
  | tuplePattern (elements : List Node) (trailing : Bool)
  | tupleStructPattern (path : Node) (elements : List Node)
  | typedPattern (attrs : List Node) (pattern ty : Node)
  | wildPattern
  /-- A field of a struct pattern; without a member it binds the field's name. -/
  | fieldPattern (attrs : List Node) (member : Option Member) (pattern : Node)
  -- Expressions.
  | array (elements : List Node)
  | assign (left right : Node)
  | asyncBlock (move : Bool) (body : Node)
  | await (base : Node)
  | binary (left : Node) (operator : String) (right : Node)
  /-- The statements between two braces. -/
  | block (statements : List Node)
  | blockExpr (label : Option Ident) (body : Node)
  | breakExpr (label : Option Ident) (value : Option Node)
  | call (function : Node) (arguments : List Node)
  | cast (value ty : Node)
  | closure (lifetimes : Option (List Node)) (isConst isStatic isAsync move : Bool)
      (params : List Node) (output : Option Node) (body : Node)
  | constBlock (body : Node)
  | continueExpr (label : Option Ident)
  | field (base : Node) (member : Member)
  | forLoop (label : Option Ident) (pattern source body : Node)
  | ifElse (condition body : Node) (otherwise : Option Node)
  | index (base position : Node)
  | underscore
  | letCondition (pattern value : Node)
  | literal (text : String)
  | loop (label : Option Ident) (body : Node)
  | macroCall (call : MacroCall)
  | matchOn (scrutinee : Node) (arms : List Node)
  | methodCall (receiver : Node) (method : Ident) (turbofish : Option Node) (arguments : List Node)
  | paren (inner : Node)
  | range (start : Option Node) (closed : Bool) (stop : Option Node)
  | rawAddress (mutable : Bool) (place : Node)
  | reference (mutable : Bool) (place : Node)
  | repeatArray (element length : Node)
  | returnExpr (value : Option Node)
  | structExpr (path : Node) (fields : List Node) (isOpen : Bool) (rest : Option Node)
  | tryExpr (base : Node)
  | tryBlock (body : Node)
  | tuple (elements : List Node)
  | unary (operator : Char) (operand : Node)
  | unsafeBlock (body : Node)
  | whileLoop (label : Option Ident) (condition body : Node)
  | yieldExpr (value : Option Node)
  /-- An arm of a `match`. -/
  | arm (attrs : List Node) (pattern : Node) (guard : Option Node) (body : Node)
  /-- A field of a struct expression; without a value it takes the field's name. -/
  | fieldValue (attrs : List Node) (member : Member) (value : Option Node)
  -- Statements; an item is also a statement.
  | localStmt (attrs : List Node) (pattern : Node) (value diverge : Option Node)
  | exprStmt (value : Node) (semicolon : Bool)
  | macroStmt (attrs : List Node) (call : MacroCall) (semicolon : Bool)
  -- Items.
  /-- An item with its attributes, visibility and overridability. -/
  | item (attrs : List Node) (vis : Visibility) (isDefault : Bool) (node : Node)
  | constItem (name : Ident) (ty : Node) (value : Option Node)
  | enumItem (name : Ident) (generics : Node) (variants : List Node)
  | externCrate (name : Ident) (newName : Option Ident)
  | function (signature : Node) (body : Option Node)
  | foreignItems (isUnsafe : Bool) (abi : Abi) (items : List Node)
  | implementation (isUnsafe : Bool) (generics : Node) (negative : Bool) (traitPath : Option Node)
      (ty : Node) (items : List Node)
  | macroItem (name : Option Ident) (call : MacroCall) (semicolon : Bool)
  | module (isUnsafe : Bool) (name : Ident) (items : Option (List Node))
  | staticItem (mutable : Bool) (name : Ident) (ty : Node) (value : Option Node)
  | structItem (name : Ident) (generics fields : Node)
  | traitItem (isUnsafe isAuto : Bool) (name : Ident) (generics : Node) (bounds items : List Node)
  | traitAlias (name : Ident) (generics : Node) (bounds : List Node)
  | typeItem (name : Ident) (generics : Node) (bounds : List Node) (ty : Option Node)
  | unionItem (name : Ident) (generics fields : Node)
  | useItem (rooted : Bool) (tree : UseTree)
  /-- The head of a function. -/
  | signature (isConst isAsync isUnsafe : Bool) (abi : Abi) (name : Ident) (generics : Node)
      (params : List Node) (variadic : Option Node) (output : Option Node)
  /-- The receiver of a method. -/
  | receiver (attrs : List Node) (byRef : Option (Option Ident)) (mutable : Bool)
      (ty : Option Node)
  | unitFields
  | namedFields (fields : List Node)
  | tupleFields (fields : List Node)
  | fieldDecl (attrs : List Node) (vis : Visibility) (name : Option Ident) (ty : Node)
  | variant (attrs : List Node) (name : Ident) (fields : Node) (discriminant : Option Node)
  /-- A whole source file. -/
  | file (attrs items : List Node)
  /-- Text that is accepted and kept unread. -/
  | verbatim (tokens : List Token)

namespace Node

/-- Attaches attributes to a node; none leave it as it is. -/
def withAttrs (attrs : List Node) (node : Node) : Node :=
  match attrs, node with
  | [], _ => node
  | _, .attributed inner node => .attributed (attrs ++ inner) node
  | _, _ => .attributed attrs node

/-- The attributes of a node, and the node without them. -/
def splitAttrs : Node → List Node × Node
  | .attributed attrs node => (attrs, node)
  | node => ([], node)

/-- A node without its attributes. -/
def bare (node : Node) : Node :=
  node.splitAttrs.2

def ofIdent (name : Ident) : Node :=
  .path false [.segment name none]

/-- The name of a segment without arguments. -/
def plainName? : Node → Option Ident
  | .segment name none => some name
  | _ => none

/-- The plain path that a path without arguments is. -/
def plainPath? : Node → Option PlainPath
  | .path rooted segments => (segments.mapM plainName?).map (PlainPath.mk rooted)
  | _ => none

end Node

end ActionUnits.Source
