/-!
# Documents

A document is text with places where a line may end. The places are grouped by nested boxes: a box
that does not fit on the rest of its line is broken, and then indents what it holds. A consistent
box that is broken ends a line at each of its own places, an inconsistent one only where the text up
to its next place does not fit. Where a part of a source tree has no rule that prints it, the
document holds a mark instead.
-/

namespace ActionUnits.Layout

/-- The columns of one step of indentation. -/
def indentWidth : Int := 4

/-- A width that no line can hold. -/
def infinite : Nat := 0xffff

/-- A place where a line may end. -/
structure Place where
  /-- Spaces written if the line does not end here. -/
  blank : Nat := 0
  /-- Further indentation of the next line. -/
  offset : Int := 0
  /-- A character written before the end of the line. -/
  before : Option Char := none
  /-- Text written at the start of the next line. -/
  after : String := ""
  /-- A character written if the line does not end here. -/
  unbroken : Option Char := none
  /-- Whether the place is dropped at the end of its box. -/
  ifNonempty : Bool := false
  /-- Whether the line never ends here. -/
  never : Bool := false
deriving DecidableEq

/-- A step of a document. -/
inductive Command where
  | text (text : String)
  | line (place : Place)
  | openBox (offset : Int) (consistent : Bool)
  | closeBox
  /-- Closes a box that is broken if it is wider than `width`. -/
  | closeWithin (width : Nat)
  /-- Adds to the offset of the place just before. -/
  | shift (offset : Int)
  /-- A part that has no rule. -/
  | unprintable
deriving DecidableEq

/-- Text with places where a line may end. -/
abbrev Doc := List Command

namespace Doc

/-- A piece of text without line ends. -/
def text (text : String) : Doc :=
  [.text text]

/-- A place given by its properties. -/
def line (place : Place) : Doc :=
  [.line place]

/-- A place that is empty or ends the line. -/
def zeroBreak : Doc :=
  line {}

/-- A place that is a space or ends the line. -/
def space : Doc :=
  line { blank := 1 }

/-- A space that does not end the line. -/
def blank : Doc :=
  text " "

def hardBreak : Doc :=
  line { blank := infinite }

/-- The end of a line, unless nothing follows in the box. -/
def hardBreakIfNonempty : Doc :=
  line { blank := infinite, ifNonempty := true }

/-- A place that is a space or ends the line, unless nothing follows in the box. -/
def spaceIfNonempty : Doc :=
  line { blank := 1, ifNonempty := true }

/-- A place that separates widths and never ends the line. -/
def neverBreak : Doc :=
  line { never := true }

/-- A comma between elements, or after the last one if the line ends there. -/
def trailingComma (last : Bool) : Doc :=
  if last then line { before := some ',' } else text "," ++ space

/-- A comma between elements; after the last one a space, or a comma if the line ends there. -/
def trailingCommaOrSpace (last : Bool) : Doc :=
  if last then line { blank := 1, before := some ',' } else text "," ++ space

/-- A box whose places end lines together. -/
def consistent (offset : Int) (body : Doc) : Doc :=
  .openBox offset true :: body ++ [.closeBox]

/-- A box whose places end lines one by one. -/
def inconsistent (offset : Int) (body : Doc) : Doc :=
  .openBox offset false :: body ++ [.closeBox]

/-- A box whose places end lines together, at the latest when it is wider than `width`. -/
def consistentWithin (offset : Int) (width : Nat) (body : Doc) : Doc :=
  .openBox offset true :: body ++ [.closeWithin width]

/-- A part that has no rule. -/
def unprintable : Doc :=
  [.unprintable]

/-- Whether all of a document has been laid out. -/
def isPrintable (doc : Doc) : Bool :=
  !doc.contains .unprintable

/-- Puts the line after the place just before back by one step. -/
def outdent : Doc :=
  [.shift (-indentWidth)]

/-- Elements one after the other; each is told whether it is the last one. -/
def eachLast {α : Type} (element : α → Bool → Doc) : List α → Doc
  | [] => []
  | [x] => element x true
  | x :: rest => element x false ++ eachLast element rest

/-- Elements with something between them. -/
def sepBy (separator : Doc) (elements : List Doc) : Doc :=
  separator.intercalate elements

/-- Elements in brackets, on one line or on lines of their own with a comma after each. -/
def commaList (opening closing : String) (offset : Int) (elements : List Doc) : Doc :=
  text opening ++
    consistent offset
      (zeroBreak ++ eachLast (fun element last => element ++ trailingComma last) elements ++
        outdent) ++
    text closing

/-- Elements in parentheses, in which a single element has a comma after it. -/
def tuple (elements : List Doc) : Doc :=
  match elements with
  | [element] =>
    text "(" ++ consistent indentWidth (zeroBreak ++ element ++ text "," ++ zeroBreak ++ outdent) ++
      text ")"
  | _ => commaList "(" ")" indentWidth elements

end Doc

end ActionUnits.Layout
