import ActionUnits.Text.Quoted

/-!
# Tokens

The tokens of generated source text. A token is an identifier, a punctuation character, a literal
or a bracketed group. A punctuation character is joint when the next token is punctuation that
belongs to the same operator; a lifetime is a joint apostrophe followed by an identifier.
-/

namespace ActionUnits

/-- An identifier as written; a raw identifier keeps its `r#`. -/
structure Ident where
  text : String
deriving DecidableEq, Inhabited

/-- The brackets that enclose a group of tokens. -/
inductive Delimiter where
  | paren
  | bracket
  | brace
deriving DecidableEq

/-- A token of the generated source. -/
inductive Token where
  | ident (name : Ident)
  | punct (char : Char) (joint : Bool)
  | literal (text : String)
  | group (delimiter : Delimiter) (body : List Token)

namespace Delimiter

def opening : Delimiter → Char
  | paren => '('
  | bracket => '['
  | brace => '\x7b'

def closing : Delimiter → Char
  | paren => ')'
  | bracket => ']'
  | brace => '\x7d'

def ofOpening? : Char → Option Delimiter
  | '(' => some paren
  | '[' => some bracket
  | '\x7b' => some brace
  | _ => none

def ofClosing? : Char → Option Delimiter
  | ')' => some paren
  | ']' => some bracket
  | '\x7d' => some brace
  | _ => none

end Delimiter

namespace Token

/-- An identifier or keyword with the given text. -/
def word (text : String) : Token :=
  .ident ⟨text⟩

/-- A string literal that denotes the given text. -/
def string (text : String) : Token :=
  .literal (Text.Quoted.encode text)

/-- The characters of an operator, joined to each other and not to what follows. -/
def operatorChars : List Char → List Token
  | [] => []
  | [c] => [.punct c false]
  | c :: cs => .punct c true :: operatorChars cs

def operator (text : String) : List Token :=
  operatorChars text.toList

/-- Whether the next token follows without a space. -/
def isJoint : Token → Bool
  | .punct _ joint => joint
  | _ => false

/-- Puts a space between two tokens unless the first one is joint. -/
def gap (token : Token) (following : List Token) : String :=
  if following.isEmpty || token.isJoint then "" else " "

mutual

/-- The text of a token. Braces are padded, the other brackets are not. -/
def render : Token → String
  | .ident name => name.text
  | .punct char _ => char.toString
  | .literal text => text
  | .group .brace [] => "\x7b \x7d"
  | .group .brace body => "\x7b " ++ renderAll body ++ " \x7d"
  | .group delimiter body =>
    delimiter.opening.toString ++ renderAll body ++ delimiter.closing.toString

/-- The text of a sequence of tokens. -/
def renderAll : List Token → String
  | [] => ""
  | token :: tokens => render token ++ gap token tokens ++ renderAll tokens

end

mutual

/-- The number of tokens in a token, brackets and their contents included. -/
def size : Token → Nat
  | .group _ body => sizeAll body + 1
  | _ => 1

/-- The number of tokens in a sequence, contents of brackets included. -/
def sizeAll : List Token → Nat
  | [] => 0
  | token :: tokens => size token + sizeAll tokens

end

end Token

end ActionUnits
