import ActionUnits.Print.Expr

/-!
# Printing statements and items
-/

namespace ActionUnits.Print

open ActionUnits.Layout ActionUnits.Layout.Doc ActionUnits.Source

/-! ## Statements -/

/-- A declaration of local variables. -/
def localStmt (p : Printer) (pattern : Node) (value diverge : Option Node) : Doc :=
  let head := text "let " ++ p .pattern pattern ++
    optional value fun e => text " = " ++ neverBreak ++ p (.expr false) e
  match diverge with
  | some (.blockExpr _ body) =>
    inconsistent 0 (head ++ space ++ text "else ") ++ neverBreak ++
      consistent indentWidth (smallBlock p [] body ++ text ";")
  | _ => inconsistent 0 (head ++ text ";")

/-- A statement. An empty one is not printed. -/
def stmt (p : Printer) (last : Bool) : Node → Doc
  | .localStmt attrs pattern value diverge =>
    outerAttrs p attrs ++ localStmt p pattern value diverge ++ hardBreak
  | .exprStmt e false =>
    inconsistent 0 (p (.expr true) e ++ textIf (addsSemicolon e) ";") ++ hardBreak
  | .exprStmt (.verbatim []) true => []
  | .exprStmt e true =>
    inconsistent 0 (p (.expr true) e ++ textIf (!dropsSemicolon e) ";") ++ hardBreak
  | .macroStmt attrs call semicolon =>
    outerAttrs p attrs ++ macroCall call none (semicolon || !last) ++ hardBreak
  | node => p .item node

/-! ## Functions -/

/-- A parameter of a function, or the open end of its parameters. -/
def functionParam (p : Printer) : Node → Doc
  | .receiver attrs byRef mutable ty =>
    outerAttrs p attrs ++
      optional byRef (fun name =>
        text "&" ++ optional name fun name => lifetime name ++ blank) ++
      textIf mutable "mut " ++ text "self" ++ optional ty fun ty => text ": " ++ p .type ty
  | .variadic attrs pattern => functionTypeParam p (.variadic attrs pattern)
  | node => p .pattern node

/-- The head of a function. -/
def signature (p : Printer) : Node → Doc
  | .signature isConst isAsync isUnsafe convention name generics params variadic output =>
    textIf isConst "const " ++ textIf isAsync "async " ++ textIf isUnsafe "unsafe " ++
      abi convention ++ text "fn " ++ ident name ++ genericParams p generics ++ text "(" ++
      neverBreak ++
      consistent 0
        (openParams (params.map (functionParam p)) (variadic.map (functionParam p))) ++
      text ")" ++ consistent (-indentWidth) (returnType p output)
  | _ => []

/-- The generics of a function head. -/
def genericsOf : Node → Node
  | .signature _ _ _ _ _ generics _ _ _ => generics
  | node => node

/-- The inside of braces after the head of an item, each part on lines of its own. -/
def itemBody (contents : Doc) : Doc :=
  text "\x7b" ++ hardBreakIfNonempty ++ contents ++ outdent

def bracedItem (head contents : Doc) : Doc :=
  consistent indentWidth (head ++ itemBody contents) ++ text "\x7d"

/-- A function. Without a body a semicolon ends it. -/
def function (p : Printer) (attrs : List Node) (head : Doc) (sig : Node) (body : Option Node) :
    Doc :=
  match body with
  | some block =>
    bracedItem (head ++ signature p sig ++ whereBody p (genericsOf sig))
      (innerAttrs p attrs ++ statements p (statementsOf block))
  | none =>
    consistent indentWidth (head ++ signature p sig ++ whereSemicolon p (genericsOf sig))

/-! ## Fields -/

def fieldDecl (p : Printer) : Node → Doc
  | .fieldDecl attrs vis name ty =>
    outerAttrs p attrs ++ visibility vis ++ optional name (fun name => ident name ++ text ": ") ++
      p .type ty
  | _ => []

def tupleFields (p : Printer) (fields : List Node) : Doc :=
  text "(" ++ zeroBreak ++
    eachLast (fun field last => fieldDecl p field ++ trailingComma last) fields ++ outdent ++
    text ")"

def fieldLines (p : Printer) (fields : List Node) : Doc :=
  fields.flatMap fun field => fieldDecl p field ++ text "," ++ hardBreak

def variant (p : Printer) : Node → Doc
  | .variant attrs name fields discriminant =>
    outerAttrs p attrs ++ ident name ++
      (match fields with
        | .namedFields fields =>
          blank ++ text "\x7b" ++
            consistent indentWidth
              (space ++ eachLast (fun field last =>
                fieldDecl p field ++ trailingCommaOrSpace last) fields ++ outdent) ++
            text "\x7d"
        | .tupleFields fields => consistent indentWidth (tupleFields p fields)
        | _ => []) ++
      optional discriminant fun e => text " = " ++ p (.expr false) e
  | _ => []

/-- A struct after its generics, and the brace that follows its box. -/
def structItem (p : Printer) (head : Doc) (generics : Node) : Node → Doc
  | .namedFields fields => bracedItem (head ++ whereBody p generics) (fieldLines p fields)
  | .tupleFields fields =>
    consistent indentWidth (head ++ tupleFields p fields ++ whereSemicolon p generics)
  | _ => consistent indentWidth (head ++ whereSemicolon p generics)

/-! ## Imports -/

def endsInGroup : UseTree → Bool
  | .path _ tree => endsInGroup tree
  | .group _ => true
  | _ => false

mutual

def useTree : UseTree → Doc
  | .path name tree => ident name ++ text "::" ++ useTree tree
  | .name name => ident name
  | .rename name newName => ident name ++ text " as " ++ ident newName
  | .glob => text "*"
  | .group trees =>
    text "\x7b" ++
      consistent indentWidth
        (zeroBreak ++ inconsistent 0 (useTrees trees) ++ trailingComma true ++ outdent) ++
      text "\x7d"

/-- The trees of a group of imports; a line ends after a group. -/
def useTrees : List UseTree → Doc
  | [] => []
  | tree :: trees =>
    useTree tree ++
      (if trees.isEmpty then []
      else text "," ++ if endsInGroup tree then hardBreak else space) ++
      useTrees trees

end

/-! ## Items -/

/-- A definition with an equals sign in front of its value. -/
def defined (p : Printer) (value : Option Node) : Doc :=
  optional value fun e => text " = " ++ neverBreak ++ p (.expr false) e

def constItem (p : Printer) (head : Doc) (name : Ident) (ty : Node) (value : Option Node) : Doc :=
  consistent 0
    (head ++ text "const " ++ ident name ++ text ": " ++ p .type ty ++ defined p value ++ text ";")

def staticItem (p : Printer) (head : Doc) (mutable : Bool) (name : Ident) (ty : Node)
    (value : Option Node) : Doc :=
  consistent 0
    (head ++ text "static " ++ textIf mutable "mut " ++ ident name ++ text ": " ++ p .type ty ++
      defined p value ++ text ";")

/-- What defines a type alias, in a box of its own. -/
def aliasedType (p : Printer) (ty : Option Node) : Doc :=
  optional ty fun ty => text " = " ++ neverBreak ++ inconsistent (-indentWidth) (p .type ty)

/-- The attributes, visibility and overridability of an item, and the item without them. -/
def itemParts : Node → List Node × Visibility × Bool × Node
  | .item attrs vis isDefault node => (attrs, vis, isDefault, node)
  | node => ([], .inherited, false, node)

def implItem (p : Printer) (node : Node) : Doc :=
  let (attrs, vis, isDefault, node) := itemParts node
  let head := visibility vis ++ textIf isDefault "default "
  outerAttrs p attrs ++
    (match node with
      | .constItem name ty value => constItem p head name ty value
      | .function sig body => function p attrs head sig body
      | .typeItem name generics _ ty =>
        consistent indentWidth
          (head ++ text "type " ++ ident name ++ genericParams p generics ++ aliasedType p ty ++
            whereLineSemicolon p generics)
      | .macroItem name call _ => macroCall call name true
      | _ => unprintable) ++
    hardBreak

def traitMember (p : Printer) (node : Node) : Doc :=
  let (attrs, _, _, node) := itemParts node
  outerAttrs p attrs ++
    (match node with
      | .constItem name ty value => constItem p [] name ty value
      | .function sig body => function p attrs [] sig body
      | .typeItem name generics nodes ty =>
        consistent indentWidth
          (text "type " ++ ident name ++ genericParams p generics ++
            (if nodes.isEmpty then []
            else text ": " ++ sepBy (space ++ text "+ ") (nodes.map (bound p))) ++
            aliasedType p ty ++ whereLineSemicolon p generics)
      | .macroItem name call _ => macroCall call name true
      | _ => unprintable) ++
    hardBreak

def foreignItem (p : Printer) (node : Node) : Doc :=
  let (attrs, vis, _, node) := itemParts node
  let head := visibility vis
  outerAttrs p attrs ++
    (match node with
      | .function sig body => function p attrs head sig body
      | .staticItem mutable name ty _ => staticItem p head mutable name ty none
      | .typeItem name generics _ _ =>
        consistent 0 (head ++ text "type " ++ ident name ++ genericParams p generics ++ text ";")
      | .macroItem name call _ => macroCall call name true
      | _ => unprintable) ++
    hardBreak

def implementation (p : Printer) (attrs : List Node) (isDefault isUnsafe : Bool)
    (generics : Node) (negative : Bool) (traitPath : Option Node) (ty : Node)
    (items : List Node) : Doc :=
  bracedItem
    (inconsistent (-indentWidth)
      (consistent indentWidth
        (textIf isDefault "default " ++ textIf isUnsafe "unsafe " ++ text "impl" ++
          genericParams p generics) ++
        blank ++
        optional traitPath (fun node =>
          textIf negative "!" ++ p .type node ++ space ++ text "for ") ++
        p .type ty) ++
      whereBody p generics)
    (innerAttrs p attrs ++ items.flatMap (implItem p))

def traitItem (p : Printer) (attrs : List Node) (head : Doc) (name : Ident) (generics : Node)
    (nodes items : List Node) : Doc :=
  bracedItem
    (head ++ text "trait " ++ ident name ++ genericParams p generics ++
      (if nodes.isEmpty then [] else text ": " ++ sepBy (text " + ") (nodes.map (bound p))) ++
      whereBody p generics)
    (innerAttrs p attrs ++ items.flatMap (traitMember p))

/-- An item without its attributes in front and the end of its last line. -/
def itemKind (p : Printer) (attrs : List Node) (vis : Visibility) (isDefault : Bool) :
    Node → Doc
  | .constItem name ty value => constItem p (visibility vis) name ty value
  | .enumItem name generics variants =>
    bracedItem
      (visibility vis ++ text "enum " ++ ident name ++ genericParams p generics ++
        whereBody p generics)
      (variants.flatMap fun node => variant p node ++ text "," ++ hardBreak)
  | .externCrate name newName =>
    visibility vis ++ text "extern crate " ++ ident name ++
      optional newName (fun newName => text " as " ++ ident newName) ++ text ";"
  | .function sig body => function p attrs (visibility vis) sig body
  | .foreignItems isUnsafe convention items =>
    bracedItem (textIf isUnsafe "unsafe " ++ abi convention)
      (innerAttrs p attrs ++ items.flatMap (foreignItem p))
  | .implementation isUnsafe generics negative traitPath ty items =>
    implementation p attrs isDefault isUnsafe generics negative traitPath ty items
  | .macroItem name call _ => macroCall call name true
  | .module isUnsafe name items =>
    let head := visibility vis ++ textIf isUnsafe "unsafe " ++ text "mod " ++ ident name
    match items with
    | some items =>
      consistent indentWidth
        (head ++ text " \x7b" ++ hardBreakIfNonempty ++ innerAttrs p attrs ++
          items.flatMap (p .item) ++ outdent) ++
        text "\x7d"
    | none => consistent indentWidth (head ++ text ";")
  | .staticItem mutable name ty value => staticItem p (visibility vis) mutable name ty value
  | .structItem name generics fields =>
    structItem p (visibility vis ++ text "struct " ++ ident name ++ genericParams p generics)
      generics fields
  | .traitItem isUnsafe isAuto name generics nodes items =>
    traitItem p attrs (visibility vis ++ textIf isUnsafe "unsafe " ++ textIf isAuto "auto ") name
      generics nodes items
  | .traitAlias name generics nodes =>
    consistent indentWidth
      (visibility vis ++ text "trait " ++ ident name ++ genericParams p generics ++ text " = " ++
        neverBreak ++ sepBy (space ++ text "+ ") (nodes.map (bound p)) ++
        whereSemicolon p generics)
  | .typeItem name generics _ ty =>
    consistent indentWidth
      (visibility vis ++ text "type " ++ ident name ++ genericParams p generics ++
        whereLine p generics ++ text "= " ++ neverBreak ++
        inconsistent (-indentWidth) (optional ty (p .type)) ++ text ";")
  | .unionItem name generics fields =>
    structItem p (visibility vis ++ text "union " ++ ident name ++ genericParams p generics)
      generics fields
  | .useItem rooted tree =>
    visibility vis ++ text "use " ++ textIf rooted "::" ++ useTree tree ++ text ";"
  | _ => unprintable

def item (p : Printer) (node : Node) : Doc :=
  let (attrs, vis, isDefault, node) := itemParts node
  outerAttrs p attrs ++ itemKind p attrs vis isDefault node ++ hardBreak

def file (p : Printer) : Node → Doc
  | .file attrs items => consistent 0 (innerAttrs p attrs ++ items.flatMap (p .item))
  | _ => []

end ActionUnits.Print
