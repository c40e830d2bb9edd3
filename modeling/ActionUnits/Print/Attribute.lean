import ActionUnits.Print.Macro
import ActionUnits.Text.Blank
import ActionUnits.Text.Quoted

/-!
# Printing attributes

Documentation is printed as comments where a comment can hold it.
-/

namespace ActionUnits.Print

open ActionUnits.Layout ActionUnits.Layout.Doc ActionUnits.Source

/-- The text that an attribute of the given name holds. -/
def attrText? (name : String) : Node → Option String
  | .attrValue _ path (.literal literal) =>
    if path = ⟨false, [⟨name⟩]⟩ then Text.Quoted.decode? literal else none
  | _ => none

/-- Whether the comments that a text opens and closes are balanced, at the given depth. -/
def balancedComments : Nat → List Char → Bool
  | depth, '/' :: '*' :: cs => balancedComments (depth + 1) cs
  | 0, '*' :: '/' :: _ => false
  | depth + 1, '*' :: '/' :: cs => balancedComments depth cs
  | depth, _ :: cs => balancedComments depth cs
  | depth, [] => depth == 0

/-- Whether a text can stand inside of a block comment. -/
def fitsBlockComment (cs : List Char) : Bool :=
  balancedComments 0 cs && cs.getLast? != some '/'

/-- Whether a text starts with one of the characters. -/
def startsWithAny (chars cs : List Char) : Bool :=
  match cs with
  | c :: _ => chars.contains c
  | [] => false

/-- Drops spaces at the end of every line but the last. -/
def trimInner (cs : List Char) : List Char :=
  let lines := Text.splitAll '\n' cs
  match lines.getLast? with
  | some last =>
    ['\n'].intercalate (lines.dropLast.map (Text.dropTrailing (· == ' ')) ++ [last])
  | none => []

/-- A comment for a text: a line comment if it is one line, else a block comment. `barredLine` and
`barredBlock` are the characters that such a comment must not start with. -/
def comment? (lineStart blockStart : String) (barredLine barredBlock : List Char)
    (value : String) : Option Doc :=
  let cs := value.toList
  if !cs.contains '\n' && !startsWithAny barredLine cs then
    some (text lineStart ++ text (String.ofList (Text.dropTrailing (· == ' ') cs)) ++ hardBreak)
  else if cs.contains '\n' && fitsBlockComment cs && !startsWithAny barredBlock cs then
    some (text blockStart ++ text (String.ofList (trimInner cs)) ++ text "*/" ++ hardBreak)
  else none

/-- The comment that an attribute is printed as, if any. -/
def attrComment? (attr : Node) : Option Doc :=
  match attrText? "doc" attr with
  | some value =>
    if isInnerAttr attr then comment? "//!" "/*!" [] [] value
    else comment? "///" "/**" ['/'] ['*', '/'] value
  | none =>
    match attrText? "comment" attr with
    | some value => comment? "//" "/*" [] ['*', '!'] value
    | none => none

mutual

/-- One token of the arguments of an attribute; `afterWord` tells that a word stands before it, and
`last` that nothing follows in its group. -/
def attrToken (afterWord last : Bool) : Token → Doc
  | .ident name => (if afterWord then space else []) ++ ident name
  | .literal literal => (if afterWord then space else []) ++ text literal
  | .punct ',' _ => trailingComma last
  | .punct '=' _ => textIf afterWord " " ++ text "=" ++ blank
  | .punct char _ => text char.toString
  | .group .paren body =>
    let closed := match body.getLast? with
      | some (.punct ',' _) => true
      | _ => false
    text "(" ++
      consistent indentWidth
        (zeroBreak ++ attrTokens false body ++ (if closed then [] else zeroBreak) ++ outdent) ++
      text ")"
  | .group delimiter body =>
    text delimiter.opening.toString ++ attrTokens false body ++ text delimiter.closing.toString

/-- Tokens of the arguments of an attribute. -/
def attrTokens (afterWord : Bool) : List Token → Doc
  | [] => []
  | token :: tokens =>
    let isWord := match token with
      | .ident _ => true
      | .literal _ => true
      | _ => false
    attrToken afterWord tokens.isEmpty token ++ attrTokens isWord tokens

end

/-- An attribute. -/
def attr (p : Printer) (node : Node) : Doc :=
  match attrComment? node with
  | some doc => doc
  | none =>
    let contents := match node with
      | .attrWord _ path => plainPath path
      | .attrList _ path delimiter body =>
        plainPath path ++ attrToken false true (.group delimiter body)
      | .attrValue _ path value => plainPath path ++ text " = " ++ p (.expr false) value
      | _ => []
    text (if isInnerAttr node then "#!" else "#") ++ text "[" ++ contents ++ text "]" ++ space

/-- The attributes in front of something. -/
def outerAttrs (p : Printer) (attrs : List Node) : Doc :=
  (attrs.filter (!isInnerAttr ·)).flatMap (attr p)

/-- The attributes inside of something. -/
def innerAttrs (p : Printer) (attrs : List Node) : Doc :=
  (attrs.filter isInnerAttr).flatMap (attr p)

end ActionUnits.Print
