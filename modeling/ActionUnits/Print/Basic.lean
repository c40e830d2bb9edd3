import ActionUnits.Layout.Doc
import ActionUnits.Source.Node

/-!
# Printing source trees

How a node is laid out depends on the node and on its role at its place. Rules for the roles refer
to each other through a `Printer`; the knot is tied where all of them are known. This module holds
the roles and the parts that need no printer.

A part of the source that was kept as it is (`become`, a box pattern, `dyn*`, an item without its
body and the like) has no rule: its document holds the mark for it, and then the whole file has no
text. Comments are no part of a tree. How deep the rules may call each other is not limited.
-/

namespace ActionUnits.Print

open ActionUnits.Layout ActionUnits.Layout.Doc ActionUnits.Source

/-- What a node is at its place. -/
inductive Role where
  | type
  | pattern
  /-- An expression; `lineStart` tells that it starts a line. -/
  | expr (lineStart : Bool)
  /-- An expression that a field, a call or the like is applied to. -/
  | chain (lineStart : Bool)
  /-- A statement; `last` tells that it ends its block. -/
  | stmt (last : Bool)
  | item

abbrev Printer := Role → Node → Doc

def optional {α : Type} (part : Option α) (print : α → Doc) : Doc :=
  match part with
  | some x => print x
  | none => []

/-- Text that stands only if a condition holds. -/
def textIf (condition : Bool) (text : String) : Doc :=
  if condition then Doc.text text else []

def ident (name : Ident) : Doc :=
  text name.text

def lifetime (name : Ident) : Doc :=
  text ("'" ++ name.text)

/-- The label of a loop or block. -/
def label (name : Option Ident) : Doc :=
  optional name fun name => lifetime name ++ text ": "

def plainPath (path : PlainPath) : Doc :=
  textIf path.rooted "::" ++ sepBy (text "::") (path.names.map ident)

/-- A field, by name or by position. -/
def member : Member → Doc
  | .named name => ident name
  | .position index => text (toString index)

/-- A calling convention. -/
def abi : Abi → Doc
  | .absent => []
  | .default => text "extern "
  | .named literal => text "extern " ++ text literal ++ blank

/-- A visibility. Only a path from the crate, the module or its parent stands without `in`. -/
def visibility : Visibility → Doc
  | .inherited => []
  | .everywhere => text "pub "
  | .within path =>
    let short := path = ⟨false, [⟨"self"⟩]⟩ ∨ path = ⟨false, [⟨"super"⟩]⟩ ∨
      path = ⟨false, [⟨"crate"⟩]⟩
    text "pub(" ++ (if short then [] else text "in ") ++ plainPath path ++ text ") "

/-- Whether a node is an attribute inside of what it belongs to. -/
def isInnerAttr : Node → Bool
  | .attrWord inner _ => inner
  | .attrList inner _ _ _ => inner
  | .attrValue inner _ _ => inner
  | _ => false

/-- Whether there are attributes in front. -/
def hasOuter (attrs : List Node) : Bool :=
  attrs.any (!isInnerAttr ·)

/-- Whether there are attributes inside. -/
def hasInner (attrs : List Node) : Bool :=
  attrs.any isInnerAttr

end ActionUnits.Print
