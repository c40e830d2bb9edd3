import ActionUnits.Proofs.Source.Replay.Follow

/-! # The knot of the grammar

Rules refer to each other through the nonterminals. A rule is replayed under the
assumption that the nonterminals are, on fewer tokens. Where a nonterminal starts,
both readings agree in what the rules that use it ask about.
-/

namespace ActionUnits.Source

/-! ## Types and generic arguments -/

/-- Whether what follows a word belongs to the same type. -/
def insideType : Peek := fun tokens =>
  !anyOf [List.isEmpty, isOp ">", isOp ",", isOp "=", isColon, isGroup .brace] tokens

/-- Whether a token may be the first one of a type. -/
def startsType : Kind → Bool
  | .word name => !(["const", "in"].contains name.text)
  | .lifetime _ => true
  | .group .paren => true
  | .group .bracket => true
  | .punct char => [':', '<', '*', '&', '!'].contains char
  | _ => false

/-- Whether a name comes next that may stand in front of a colon. -/
def isNameStart : Peek := isIdent.or (isOneOf ["_", "self"])

instance : Headed isNameStart := inferInstanceAs (Headed (isIdent.or (isOneOf ["_", "self"])))

/-- Whether a word comes next that may be all of a type. -/
def isTypeWord : Peek := isIdent.or (isOneOf ["_", "self", "super", "crate"])

theorem isTypeWord_of_isNameStart {u : List Token} (h : isNameStart u = true) :
    isTypeWord u = true := by
  simp only [isNameStart, isTypeWord, Peek.or, isOneOf, List.any_cons, List.any_nil, Bool.or_false,
    Bool.or_eq_true] at h ⊢
  tauto

/-- Both readings go on with a type that `P` relates the tokens after. -/
structure TypeStart (P : Follow) (u u' : List Token) : Prop extends Lead u u' where
  starts : startsType (kind u) = true
  path : kind u = .punct ':' → isOp "::" u = true
  word : isTypeWord u = true → ∀ name r r', u = .ident name :: r → u' = .ident name :: r' →
    P r r' ∨ insideType r' = true
  lifetime : isLifetime u = true → second (isOp "+") u' = true
  generics : Absent isGenericsStart u u'
  less : isOp "<=" u' = false
  restricted : Absent isRestricted u u'

/-- Both readings go on with arguments in angle brackets. -/
structure AngleStart (u u' : List Token) : Prop extends Lead u u' where
  starts : kind u = .punct '<'
  less : Absent (isOp "<=") u u'

/-! ## Patterns -/

/-- Whether a token may be the first one of a pattern. -/
def startsPattern : Kind → Bool
  | .word _ => true
  | .literal _ _ => true
  | .group .paren => true
  | .group .bracket => true
  | .punct char => [':', '<', '-', '&', '|', '.'].contains char
  | _ => false

/-- Both readings go on with a pattern. -/
structure PatternStart (u u' : List Token) : Prop extends Lead u u' where
  starts : startsPattern (kind u) = true
  generics : Absent isGenericsStart u u'

/-- Whether a colon comes next that no type follows. -/
def isUntyped : Peek := fun tokens =>
  isOp ":" tokens && ((isOp ".").or ((isOp ":").butNot (isOp "::"))) tokens.tail

/-- Both readings go on with a pattern without alternatives that `P` relates the tokens after. -/
structure SingleStart (P : Follow) (u u' : List Token) : Prop extends PatternStart u u' where
  word : ∀ name r r', u = .ident name :: r → u' = .ident name :: r' →
    P r r' ∨ Absent (isOp "<") r r'
  receiver : (∀ r r', P r r' → isUntyped r = true → isUntyped r' = true) →
    Absent isReceiverStart u u'
  ellipsis : isOp "..." u' = false

/-! ## Attributes -/

/-- Whether an attribute of what follows comes next. -/
def isOuterAttr : Peek := (isOp "#").and (second (isGroup .bracket))

/-- Whether an attribute of the surroundings comes next. -/
def isInnerAttr : Peek := (isOp "#").and (second (isOp "!"))

/-- Both readings go on with an attribute. -/
structure AttrStart (u u' : List Token) : Prop extends Lead u u' where
  left : isOuterAttr u = true
  right : isOuterAttr u' = true

/-- Both readings go on with something inside of braces that is no attribute of theirs. -/
structure InnerStart (u u' : List Token) : Prop extends Lead u u' where
  inner : isInnerAttr u' = false

/-! ## Expressions -/

/-- Whether a token may be the first one of an expression. -/
def startsExpr : Kind → Bool
  | .nothing => false
  | .punct char => ['#', '&', '*', '!', '-', '|', ':', '<', '.'].contains char
  | _ => true

/-- Whether the head of a function goes on here after its first words. -/
def isFunctionWord : Peek := isOneOf ["unsafe", "extern", "fn"]

/-- The tokens after a word tell alike what the word starts. -/
structure WordAlike (name : Ident) (r r' : List Token) : Prop extends Lead r r' where
  const : name.text = "const" → isWord "async" r = true →
    second isFunctionWord r' = second isFunctionWord r
  loop : name.text = "for" → isGenericsStart r' = isGenericsStart r
  async : name.text = "async" → isWord "move" r = true →
    second (isGroup .brace) r' = second (isGroup .brace) r

/-- Both readings go on with an expression; less may be joined to its first character. -/
structure Start (u u' : List Token) : Prop extends Lead u u' where
  ops : ∀ text ∈ longOps, isOp text u' = true → isOp text u = true
  starts : startsExpr (kind u) = true
  attr : kind u = .punct '#' → AttrStart u u'
  word : ∀ name r r', u = .ident name :: r → u' = .ident name :: r' → WordAlike name r r'
  item : Absent isItemStart u u'
  call : macroStart u' = macroStart u

/-- Whether no operator comes next that extends an expression. -/
def IsEnd (u : List Token) : Prop :=
  nextOperator u = none ∧ isAssign u = false ∧ isOp ".." u = false ∧ isWord "as" u = false

/-- What may follow an expression that a closing brace may have ended. -/
structure EarlyEnds (e : Node) (u u' : List Token) : Prop extends Lead u u' where
  edge : IsEnd u ∨ isRange e = true → Edge u u'

/-! ## The knot -/

/-- Every nonterminal replays, up to so many tokens. -/
structure Knot (m : Mode) (size : Nat) (g g' : Grammar) : Prop where
  angle : Replays m size 1 (fun _ => Any) (g .angleArguments) (g' .angleArguments) AngleStart
  ty : ∀ plus P, (∀ r r', P r r' → TypeEnds r r') →
    Replays m size 1 (fun _ => P) (g (.ty plus)) (g' (.ty plus)) (TypeStart P)
  pattern : Replays m size 1 (fun _ => PatternEnds) (g .pattern) (g' .pattern) PatternStart
  singlePattern : ∀ P, (∀ r r', P r r' → SinglePatternEnds r r') →
    Replays m size 1 (fun _ => P) (g .singlePattern) (g' .singlePattern) (SingleStart P)
  expr : ∀ braces, Replays m size 1 (fun _ => Edge) (g (.expr braces)) (g' (.expr braces)) Start
  earlyExpr : Replays m size 1 EarlyEnds (g .earlyExpr) (g' .earlyExpr) Start
  unary : ∀ braces, Replays m size 1 (fun _ => Edge) (g (.unary braces)) (g' (.unary braces)) Start
  operand : ∀ braces strength, Replays m size 1 (fun _ => Edge) (g (.operand braces strength))
    (g' (.operand braces strength)) Start
  statements : Replays m size 0 (fun _ => AtEnd) (g .statements) (g' .statements) InnerStart
  item : Replays m size 1 (fun _ => Lead) (g .item) (g' .item) InnerStart
  wild : ∀ joint rest z, g' .singlePattern ⟨.word "_" :: .punct ':' joint :: rest, z⟩ =
    some (.wildPattern, ⟨.punct ':' joint :: rest, .word "_" :: z⟩)

end ActionUnits.Source
