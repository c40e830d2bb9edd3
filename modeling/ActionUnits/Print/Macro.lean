import ActionUnits.Print.Basic

/-!
# Printing macro calls

The arguments of a macro are unread tokens. They are printed one by one; whether a space stands
between two tokens follows from what the tokens before them look like.
-/

namespace ActionUnits.Print

open ActionUnits.Layout ActionUnits.Layout.Doc ActionUnits.Source

/-- What the tokens before look like. -/
inductive Context where
  | start
  /-- After `$`. -/
  | dollar
  /-- After a variable in a matcher. -/
  | variable
  /-- After the colon that follows a variable. -/
  | fragment
  /-- After a repeated group. -/
  | repetition
  /-- After the separator of a repeated group. -/
  | separator
  /-- After `#`. -/
  | pound
  /-- After `#!`. -/
  | poundBang
  /-- After a point. -/
  | point
  /-- After the first half of `::`. -/
  | colon
  /-- After `::`. -/
  | colons
  /-- After a name or literal. -/
  | name
  /-- After a name and an exclamation mark. -/
  | nameBang
  /-- After a group in parentheses or brackets. -/
  | group
  | other
deriving DecidableEq

/-- Words that are printed apart from what follows them. -/
def spacedWords : List String :=
  ["as", "async", "await", "box", "break", "const", "continue", "crate", "dyn", "else", "enum",
   "extern", "fn", "for", "if", "impl", "in", "let", "loop", "macro", "match", "mod", "move", "mut",
   "pub", "ref", "return", "static", "struct", "super", "trait", "type", "unsafe", "use", "where",
   "while", "yield"]

/-- Whether a space stands before a token, and the context after it. -/
def Context.next (matcher : Bool) (context : Context) (token : Token) : Bool × Context :=
  match context, token with
  | .dollar, .ident _ => (false, if matcher then .variable else .other)
  | .variable, .punct ':' false => (false, .fragment)
  | .fragment, .ident _ => (false, .other)
  | .repetition, .punct '+' false => (false, .other)
  | .repetition, .punct '*' false => (false, .other)
  | .repetition, .punct '?' false => (false, .other)
  | .repetition, .ident _ => (false, .separator)
  | .repetition, .literal _ => (false, .separator)
  | .repetition, .punct _ true => (false, .repetition)
  | .repetition, .punct _ false => (false, .separator)
  | .separator, .punct '+' _ => (false, .other)
  | .separator, .punct '*' _ => (false, .other)
  | .pound, .punct '!' _ => (false, .poundBang)
  | .dollar, .group .paren _ => (false, .repetition)
  | .pound, .group .bracket _ => (false, .other)
  | .poundBang, .group .bracket _ => (false, .other)
  | .name, .group .paren _ => (false, .group)
  | .name, .group .bracket _ => (false, .group)
  | .name, .punct '!' false => (false, .nameBang)
  | .nameBang, .group .paren _ => (false, .other)
  | .nameBang, .group .bracket _ => (false, .other)
  | .colon, .punct ':' _ => (false, .colons)
  | _, .group .brace _ => (true, .other)
  | _, .group _ _ => (true, .group)
  | _, .ident word =>
    if spacedWords.contains word.text then (true, .other)
    else (context != .point && context != .colons, .name)
  | _, .literal text =>
    (context != .point, if text.endsWith "." then .other else .name)
  | _, .punct char joint =>
    if char == ',' || char == ';' then (false, .other)
    else if char == '.' && !matcher then (context != .name && context != .group, .point)
    else if char == ':' && joint then (context != .name, .colon)
    else if char == '$' then (true, .dollar)
    else if char == '#' then (true, .pound)
    else (true, .other)

def touchesNext : Token → Bool
  | .punct char joint => joint || char == '$'
  | _ => false

/-- What stands between a token and the one before, unless they touch. -/
def gapBefore (needsSpace : Bool) : Token → Doc
  | .punct '.' _ => if needsSpace then space else zeroBreak
  | _ => if needsSpace then space else []

mutual

def macroToken (matcher : Bool) : Token → Doc
  | .ident name => ident name
  | .punct char _ => text char.toString
  | .literal literal => text literal
  | .group .brace [] => text "\x7b" ++ text "\x7d"
  | .group .brace body =>
    text "\x7b" ++ space ++ macroTokens matcher .start true body ++ space ++ text "\x7d"
  | .group delimiter body =>
    text delimiter.opening.toString ++ macroTokens matcher .start true body ++
      text delimiter.closing.toString

/-- Tokens of the arguments of a macro; `touching` tells that nothing stands before the first. -/
def macroTokens (matcher : Bool) (context : Context) (touching : Bool) : List Token → Doc
  | [] => []
  | token :: tokens =>
    let (needsSpace, next) := context.next matcher token
    (if touching then [] else gapBefore needsSpace token) ++ macroToken matcher token ++
      macroTokens matcher next (touchesNext token) tokens

end

/-- Tokens in a box of their own, each line of which may end at every place. -/
def tokenBox (matcher : Bool) (edge : Doc) (tokens : List Token) : Doc :=
  if tokens.isEmpty then []
  else
    consistent indentWidth
      (edge ++ inconsistent 0 (macroTokens matcher .start true tokens) ++ edge ++ outdent)

/-- What is expected next among the rules of a macro by example. -/
inductive RulePart where
  | matcher
  | equals
  | arrowHead
  | body
  | semicolon

/-- The rules of a macro by example, from the given part of a rule on. Tokens that are no rules have
no rule here either; a last rule may stop early. -/
def macroRules : RulePart → List Token → Doc
  | .matcher, [] => []
  | .semicolon, [] => text ";" ++ hardBreak
  | _, [] => hardBreak
  | .matcher, .group delimiter matcher :: rest =>
    text delimiter.opening.toString ++ tokenBox true zeroBreak matcher ++
      text delimiter.closing.toString ++ macroRules .equals rest
  | .equals, .punct '=' true :: rest => text " =" ++ macroRules .arrowHead rest
  | .arrowHead, .punct '>' false :: rest => text ">" ++ macroRules .body rest
  | .body, .group _ body :: rest =>
    text " \x7b" ++ neverBreak ++ tokenBox false hardBreak body ++ text "\x7d" ++
      macroRules .semicolon rest
  | .semicolon, .punct ';' false :: rest => text ";" ++ hardBreak ++ macroRules .matcher rest
  | _, _ :: _ => unprintable

/-- A macro call, perhaps with a name after it. A semicolon follows if asked for, unless braces
enclose the arguments. -/
def macroCall (call : MacroCall) (name : Option Ident) (semicolon : Bool) : Doc :=
  match name, decide (call.path = ⟨false, [⟨"macro_rules"⟩]⟩) with
  | some name, true =>
    text "macro_rules! " ++ ident name ++ text " \x7b" ++
      consistent indentWidth (hardBreakIfNonempty ++ macroRules .matcher call.body ++ outdent) ++
      text "\x7d"
  | _, _ =>
    let head := plainPath call.path ++ text "!" ++ optional name fun name => blank ++ ident name
    let closed := textIf semicolon ";"
    match call.delimiter with
    | .paren => head ++ text "(" ++ tokenBox false zeroBreak call.body ++ text ")" ++ closed
    | .bracket => head ++ text "[" ++ tokenBox false zeroBreak call.body ++ text "]" ++ closed
    | .brace => head ++ text " \x7b" ++ tokenBox false hardBreak call.body ++ text "\x7d"

end ActionUnits.Print
