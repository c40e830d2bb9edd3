import ActionUnits.Proofs.Source.Replay.Loops
import ActionUnits.Source.Grammar.Stmt

/-! # What may follow a construct

Types, patterns and expressions end where no question makes them go on. For each
of them a relation says which answers must survive in the second reading. All of
them hold where both readings go on alike, up to the few operators that start
with characters of longer ones.
-/

namespace ActionUnits.Source

variable {m : Mode} {size least : Nat} {u u' : List Token}

/-! ## Questions about paths -/

/-- Whether arguments in angle brackets follow a name in a type. -/
def opensArguments : Peek := (isOp "<").butNot (isOp "<=")

/-- Whether arguments in angle brackets follow a name and two colons. -/
def isTurbofish : Peek := (isOp "::").and (third (isOp "<"))

/-- Whether a further segment of a path follows. -/
def goesOn : Peek := (isOp "::").butNot (third (isGroup .paren))

theorem third_of_path {question : Peek} (h : isOp "::" u = true) :
    third question u = question (u.drop 2) := by
  obtain ⟨joint, rest, rfl⟩ := @exists_of_isOp_two "::" ':' ':' rfl _ h
  rfl

instance {question : Peek} [hq : Headed question] :
    Stable ((isOp "::").and (third question)) where
  eq_of_lead {u u'} h := by
    unfold Peek.and
    cases hop : isOp "::" u with
    | false => rw [← h.path_eq, hop, Bool.false_and, Bool.false_and]
    | true =>
        have hop' : isOp "::" u' = true := by rw [← h.path_eq, hop]
        rw [hop', third_of_path hop, third_of_path hop', hq.eq_of_kind_eq (h.third_eq hop)]

instance {question : Peek} [hq : Headed question] :
    Stable ((isOp "::").butNot (third question)) where
  eq_of_lead {u u'} h := by
    unfold Peek.butNot
    cases hop : isOp "::" u with
    | false => rw [← h.path_eq, hop, Bool.false_and, Bool.false_and]
    | true =>
        have hop' : isOp "::" u' = true := by rw [← h.path_eq, hop]
        rw [hop', third_of_path hop, third_of_path hop', hq.eq_of_kind_eq (h.third_eq hop)]

instance : Stable isTurbofish := inferInstanceAs (Stable ((isOp "::").and (third (isOp "<"))))
instance : Stable goesOn := inferInstanceAs (Stable ((isOp "::").butNot (third (isGroup .paren))))
instance : Stable isParenArguments :=
  inferInstanceAs (Stable ((isGroup .paren).or ((isOp "::").and (third (isGroup .paren)))))

instance (answer : Bool) : Headed fun _ => answer := ⟨fun _ => rfl⟩

instance (const : Bool) : Stable (isBoundStart const) := by
  unfold isBoundStart
  cases const
  · exact inferInstanceAs (Stable (anyOf [isAnyWord, isOp "::", isOp "?", isLifetime,
      isGroup .paren, fun _ => false]))
  · exact inferInstanceAs (Stable (anyOf [isAnyWord, isOp "::", isOp "?", isLifetime,
      isGroup .paren, (isGroup .bracket).or (isWord "const")]))

/-! ## Ends of paths and types -/

/-- What may follow a path. -/
structure PathEnds (inExpr : Bool) (u u' : List Token) : Prop where
  turbofish : Absent isTurbofish u u'
  goesOn : Absent goesOn u u'
  path : Absent (isOp "::") u u'
  opens : inExpr = false → Absent opensArguments u u'

theorem PathEnds.inExpr {inExpr : Bool} (h : PathEnds inExpr u u') : PathEnds true u u' :=
  ⟨h.turbofish, h.goesOn, h.path, nofun⟩

/-- What may follow a type. -/
structure TypeEnds (u u' : List Token) : Prop extends PathEnds false u u' where
  paren : Absent isParenArguments u u'
  arrow : Absent (isOp "->") u u'
  bang : Absent isBang u u'
  plus : Absent (isOp "+") u u'
  bound : ∀ const, Absent (isBoundStart const) u u'

/-- A question with a stable answer stays answered with no. -/
theorem Absent.of_stable {question : Peek} [hq : Stable question] (h : Lead u u') :
    Absent question u u' := by
  intro hno
  rw [← hq.eq_of_lead h, hno]

/-- A question is answered with no if the second reading answers it so. -/
theorem Absent.of_not {question : Peek} (h : question u' = false) : Absent question u u' :=
  fun _ => h

/-- An operator starts with its first character. -/
theorem kind_of_isOp {text : String} {char : Char} {chars : List Char}
    (htext : text.toList = char :: chars) (hchar : char ≠ '\'') (h : isOp text u = true) :
    kind u = .punct char := by
  rw [isOp, htext] at h
  obtain ⟨joint, rest, rfl⟩ := exists_of_nextIsOp h
  exact kind_punct hchar joint rest

theorem isOp_of_kind {text : String} {char : Char} {chars : List Char}
    (htext : text.toList = char :: chars) (hchar : char ≠ '\'') (h : kind u ≠ .punct char) :
    isOp text u = false := by
  cases hop : isOp text u with
  | false => rfl
  | true => exact absurd (kind_of_isOp htext hchar hop) h

/-- An operator of one character is told by the kind. -/
theorem isOp_iff_kind {text : String} {char : Char} (htext : text.toList = [char])
    (hchar : char ≠ '\'') : isOp text u = true ↔ kind u = .punct char := by
  refine ⟨kind_of_isOp htext hchar, fun h => ?_⟩
  rcases kind_cases u with rfl | ⟨name, rest, rfl⟩ | ⟨name, rest, rfl⟩ |
    ⟨other, joint, rest, rfl, hkind⟩ | ⟨text, rest, rfl⟩ | ⟨delimiter, body, rest, rfl⟩
  case inr.inr.inr.inl =>
    rw [hkind] at h
    cases h
    rw [isOp, htext]
    simp [nextIsOp]
  all_goals cases h

/-- After a path, nothing that goes on with it may come up. -/
theorem Lead.pathEnds (h : Lead u u') : PathEnds true u u' :=
  ⟨.of_stable h, .of_stable h, .of_stable h, nofun⟩

/-- Tokens that no question at the end of a type tells from longer operators. -/
def endsType : Kind → Bool
  | .punct char => !(['<', '!', '-'].contains char)
  | _ => true

/-- After a type, nothing that goes on with it may come up. -/
theorem Lead.typeEnds (h : Lead u u') (hkind : endsType (kind u) = true) : TypeEnds u u' := by
  have hne : ∀ char, char ∈ ['<', '!', '-'] → kind u' ≠ .punct char := by
    intro char hchar heq
    rw [h.kind_eq, heq, endsType, Bool.not_eq_true', ← Bool.not_eq_true,
      List.contains_iff_mem] at hkind
    exact hkind hchar
  refine ⟨⟨.of_stable h, .of_stable h, .of_stable h, fun _ => .of_not ?_⟩, .of_stable h, .of_not ?_,
    .of_not ?_, .of_stable h, fun const => .of_stable h⟩
  · rw [opensArguments, Peek.butNot,
      isOp_of_kind (rfl : "<".toList = ['<']) (by decide) (hne '<' (by decide)), Bool.false_and]
  · exact isOp_of_kind (rfl : "->".toList = ['-', '>']) (by decide) (hne '-' (by decide))
  · rw [isBang, Peek.butNot,
      isOp_of_kind (rfl : "!".toList = ['!']) (by decide) (hne '!' (by decide)), Bool.false_and]

/-- Tokens with which no type goes on. -/
def closesType : Kind → Bool
  | .nothing => true
  | .group .brace => true
  | .punct char => !(['\'', '<', '!', '-', '+', '?', ':'].contains char)
  | _ => false

/-- A question that no token that closes a type answers with yes. -/
theorem not_of_closesType {question : Peek} [hq : Headed question] (h : closesType (kind u) = true)
    (hnothing : question [] = false) (hbrace : question [.group .brace []] = false)
    (hpunct : ∀ char, closesType (.punct char) = true → question [.punct char false] = false) :
    question u = false := by
  cases hkind : kind u with
  | nothing => rw [← hnothing]; exact hq.eq_of_kind_eq hkind
  | word name => rw [hkind] at h; cases h
  | punct char =>
      rw [hkind] at h
      have hchar : char ≠ '\'' := by
        rintro rfl
        cases h
      rw [← hpunct char h]
      exact hq.eq_of_kind_eq (hkind.trans (kind_punct hchar _ _).symm)
  | lifetime name => rw [hkind] at h; cases h
  | literal isNumeral isString => rw [hkind] at h; cases h
  | group delimiter =>
      cases delimiter with
      | brace => rw [← hbrace]; exact hq.eq_of_kind_eq hkind
      | paren => rw [hkind] at h; cases h
      | bracket => rw [hkind] at h; cases h

/-- A closing mark ends every type. -/
theorem typeEnds_of_closesType (h : closesType (kind u') = true) : TypeEnds u u' := by
  have hop : ∀ {text : String} {char : Char} {chars : List Char}, text.toList = char :: chars →
      char ∈ ['<', '!', '-', '+', '?', ':'] → isOp text u' = false := by
    intro text char chars htext hchar
    refine isOp_of_kind htext ?_ fun hkind => ?_
    · rintro rfl
      revert hchar
      decide
    · rw [hkind, closesType, Bool.not_eq_true', ← Bool.not_eq_true, List.contains_iff_mem] at h
      exact h (List.mem_cons_of_mem _ hchar)
  have hheaded : ∀ {question : Peek} [Headed question], question [] = false →
      question [.group .brace []] = false → (∀ char, question [.punct char false] = false) →
      question u' = false :=
    fun hnothing hbrace hpunct => not_of_closesType h hnothing hbrace fun char _ => hpunct char
  have hpath : isOp "::" u' = false := hop rfl (by decide)
  have hparen : isGroup .paren u' = false := hheaded rfl rfl fun _ => rfl
  refine ⟨⟨.of_not ?_, .of_not ?_, .of_not hpath, fun _ => .of_not ?_⟩, .of_not ?_,
    .of_not (hop rfl (by decide)), .of_not ?_, .of_not (hop rfl (by decide)),
    fun const => .of_not ?_⟩
  · rw [isTurbofish, Peek.and, hpath, Bool.false_and]
  · rw [goesOn, Peek.butNot, hpath, Bool.false_and]
  · rw [opensArguments, Peek.butNot, hop rfl (by decide), Bool.false_and]
  · rw [isParenArguments, Peek.or, Peek.and, hpath, hparen]
    rfl
  · rw [isBang, Peek.butNot, hop rfl (by decide), Bool.false_and]
  · have hword : isAnyWord u' = false := hheaded rfl rfl fun _ => rfl
    have hmark : isOp "?" u' = false := hop rfl (by decide)
    have hlifetime : isLifetime u' = false := hheaded rfl rfl fun _ => by simp [isLifetime]
    have hbracket : isGroup .bracket u' = false := hheaded rfl rfl fun _ => rfl
    have hconst : isWord "const" u' = false := hheaded rfl rfl fun _ => rfl
    simp [isBoundStart, anyOf, hword, hpath, hmark, hlifetime, hparen, hbracket, hconst]

theorem Absent.of_imp {question : Peek} (h : question u' = true → question u = true) :
    Absent question u u' := by
  intro hno
  cases hyes : question u' with
  | false => rfl
  | true => rw [h hyes] at hno; cases hno

theorem Colon.typeEnds (h : Colon u u') : TypeEnds u u' := by
  have hheaded : ∀ {question : Peek} [Headed question], question [.punct ':' false] = false →
      question u' = false := by
    intro question hq hno
    rw [← hno]
    exact hq.eq_of_kind_eq h.kind_right
  have hthird : ∀ {question : Peek} [Headed question], isOp "::" u' = true →
      third question u = third question u' := by
    intro question hq hop
    rw [third_of_path (h.path_imp hop), third_of_path hop, hq.eq_of_kind_eq (h.third_eq hop)]
  refine ⟨⟨.of_imp fun hyes => ?_, .of_imp fun hyes => ?_, .of_imp h.path_imp,
    fun _ => .of_not ?_⟩, .of_imp fun hyes => ?_, .of_not ?_, .of_not ?_, .of_not (hheaded rfl),
    fun const => .of_imp fun hyes => ?_⟩
  · unfold isTurbofish Peek.and at hyes ⊢
    rw [Bool.and_eq_true] at hyes ⊢
    exact ⟨h.path_imp hyes.1, by rw [hthird hyes.1]; exact hyes.2⟩
  · unfold Source.goesOn Peek.butNot at hyes ⊢
    rw [Bool.and_eq_true] at hyes ⊢
    exact ⟨h.path_imp hyes.1, by rw [hthird hyes.1]; exact hyes.2⟩
  · rw [opensArguments, Peek.butNot, hheaded (rfl : isOp "<" _ = false), Bool.false_and]
  · unfold isParenArguments Peek.or Peek.and at hyes ⊢
    rw [hheaded (rfl : isGroup .paren _ = false), Bool.false_or, Bool.and_eq_true] at hyes
    rw [h.path_imp hyes.1, hthird hyes.1, hyes.2, Bool.and_self, Bool.or_true]
  · refine isOp_of_kind (rfl : "->".toList = ['-', '>']) (by decide) ?_
    rw [h.kind_right]
    decide
  · rw [isBang, Peek.butNot, hheaded (rfl : isOp "!" _ = false), Bool.false_and]
  · have hpath : isOp "::" u' = true := by
      simp only [isBoundStart, anyOf, List.any_cons, List.any_nil, Bool.or_false,
        hheaded (rfl : isAnyWord _ = false), hheaded (rfl : isOp "?" _ = false),
        hheaded (rfl : isLifetime _ = false), hheaded (rfl : isGroup .paren _ = false),
        hheaded (rfl : isGroup .bracket _ = false), hheaded (rfl : isWord "const" _ = false),
        Bool.false_or, Bool.and_false] at hyes
      exact hyes
    simp [isBoundStart, anyOf, h.path_imp hpath]

/-! ## Ends of patterns -/

instance : Stable isColon := inferInstanceAs (Stable ((isOp ":").butNot (isOp "::")))
instance : Stable isBoundAbsent :=
  inferInstanceAs (Stable (anyOf [List.isEmpty, isOp "|", isOp "=", isColon, isOp ",", isOp ";",
    isWord "if"]))

/-- What may follow a pattern without alternatives. -/
structure SinglePatternEnds (u u' : List Token) : Prop extends PathEnds true u u' where
  stays : Source.goesOn u = false → isOp "::" u = true → isOp "::" u' = true
  noBang : isOp "!" u = false
  bang : isOp "!" u' = false
  brace : Absent (isGroup .brace) u u'
  paren : Absent (isGroup .paren) u u'
  point : Absent (isOp ".") u u'
  dots : Absent (isOp "..") u u'
  assign : Absent (isOp "=") u u'
  sub : Absent (isOp "@") u u'
  bound : isBoundAbsent u = true → isBoundAbsent u' = true

/-- What may follow a pattern. -/
structure PatternEnds (u u' : List Token) : Prop extends SinglePatternEnds u u' where
  bar : Absent isAlternative u u'

theorem Lead.singlePatternEnds (h : Lead u u') (hkind : kind u ≠ .punct '!') :
    SinglePatternEnds u u' := by
  refine ⟨h.pathEnds, fun _ hpath => h.path_eq.symm.trans hpath, ?_, ?_, .of_stable h, .of_stable h,
    .of_stable h, .of_stable h, .of_stable h, .of_stable h, fun hyes => ?_⟩
  · exact isOp_of_kind (rfl : "!".toList = ['!']) (by decide) hkind
  · rw [h.kind_eq] at hkind
    exact isOp_of_kind (rfl : "!".toList = ['!']) (by decide) hkind
  · exact (Stable.eq_of_lead h).symm.trans hyes

/-- After a pattern, nothing that goes on with it may come up. -/
theorem Lead.patternEnds (h : Lead u u') (hbang : kind u ≠ .punct '!')
    (hbar : kind u ≠ .punct '|') : PatternEnds u u' := by
  refine ⟨h.singlePatternEnds hbang, .of_not ?_⟩
  rw [h.kind_eq] at hbar
  rw [isAlternative, Peek.butNot, isOp_of_kind (rfl : "|".toList = ['|']) (by decide) hbar,
    Bool.false_and]

theorem Colon.patternEnds (h : Colon u u')
    (htail : kind u.tail = .punct ':' → isOp "::" u.tail = true) : PatternEnds u u' := by
  have hheaded : ∀ {question : Peek} [Headed question], question [.punct ':' false] = false →
      question u' = false := by
    intro question hq hno
    rw [← hno]
    exact hq.eq_of_kind_eq h.kind_right
  have hcolon : ∀ {v}, kind v = .punct ':' → isBoundAbsent v = !isOp "::" v := by
    intro v hv
    have hv' : ∀ {question : Peek} [Headed question],
        question v = question [.punct ':' false] := Headed.eq_of_kind_eq hv
    simp only [isBoundAbsent, anyOf, isColon, Peek.butNot, List.any_cons, List.any_nil,
      Bool.or_false, (hv' : List.isEmpty v = _), (hv' : isOp "|" v = _),
      (hv' : isOp "=" v = _), (hv' : isOp ":" v = _), (hv' : isOp "," v = _),
      (hv' : isOp ";" v = _), (hv' : isWord "if" v = _)]
    cases isOp "::" v <;> rfl
  refine ⟨⟨h.typeEnds.toPathEnds.inExpr, fun hno hpath => ?_,
    isOp_of_kind rfl (by decide) (by rw [h.kind_left]; decide), hheaded rfl, .of_not (hheaded rfl),
    .of_not (hheaded rfl), .of_not (hheaded rfl), .of_not ?_, .of_not (hheaded rfl),
    .of_not (hheaded rfl), fun hyes => ?_⟩, .of_not ?_⟩
  · -- A type that starts with two colons has no parentheses after the first of them.
    obtain ⟨joint, rest, rfl⟩ := @exists_of_isOp_two "::" ':' ':' rfl _ hpath
    obtain ⟨joint, rest, hrest⟩ := @exists_of_isOp_two "::" ':' ':' rfl _ (htail rfl)
    cases hrest
    cases hno
  · refine isOp_of_kind (rfl : "..".toList = ['.', '.']) (by decide) ?_
    rw [h.kind_right]
    decide
  · rw [hcolon h.kind_left, Bool.not_eq_true'] at hyes
    rw [hcolon h.kind_right, Bool.not_eq_true']
    exact h.typeEnds.path hyes
  · rw [isAlternative, Peek.butNot, hheaded (rfl : isOp "|" _ = false), Bool.false_and]

/-! ## Ends of expressions -/

/-- The operators whose characters may be told apart only by spacing. -/
def longOps : List String :=
  ["+=", "-=", "*=", "/=", "%=", "^=", "&=", "|=", "<<=", ">>=", "&&", "||", "<<", ">>", "==",
   "<=", "!=", ">=", "=>", "->"]

/-- Both readings go on with the same operator, or with none. -/
structure Edge (u u' : List Token) : Prop extends Lead u u' where
  ops : ∀ text ∈ longOps, isOp text u = isOp text u'

/-- Whether a token is none that an operator could start with. -/
def isNoOperator : Kind → Bool
  | .punct char => !(['+', '-', '*', '/', '%', '^', '&', '|', '<', '>', '=', '!'].contains char)
  | _ => true

theorem isOp_of_isNoOperator {v : List Token} (h : isNoOperator (kind v) = true) :
    ∀ text ∈ longOps, isOp text v = false := by
  have hne : ∀ char, isNoOperator (.punct char) = false → kind v ≠ .punct char := by
    intro char hchar heq
    rw [heq, hchar] at h
    cases h
  intro text htext
  simp only [longOps, List.mem_cons, List.not_mem_nil, or_false] at htext
  rcases htext with rfl | rfl | rfl | rfl | rfl | rfl | rfl | rfl | rfl | rfl | rfl | rfl | rfl |
    rfl | rfl | rfl | rfl | rfl | rfl | rfl
  all_goals exact isOp_of_kind rfl (by decide) (hne _ (by decide))

/-- What is no operator ends every expression. -/
theorem Lead.edge (h : Lead u u') (hkind : isNoOperator (kind u) = true) : Edge u u' := by
  refine ⟨h, fun text htext => ?_⟩
  rw [isOp_of_isNoOperator hkind text htext]
  rw [h.kind_eq] at hkind
  rw [isOp_of_isNoOperator hkind text htext]

theorem AtEnd.edge (h : AtEnd u u') : Edge u u' := by
  obtain ⟨rfl, rfl⟩ := h
  exact (Lead.refl []).edge rfl

/-- What ends an expression ends a type. -/
theorem Edge.typeEnds (h : Edge u u') : TypeEnds u u' := by
  have hlead := h.toLead
  have hless : isOp "<" u = isOp "<" u' := Stable.eq_of_lead hlead
  have hbang : isOp "!" u = isOp "!" u' := Stable.eq_of_lead hlead
  refine ⟨⟨.of_stable hlead, .of_stable hlead, .of_stable hlead, fun _ hno => ?_⟩, .of_stable hlead,
    fun hno => ?_, fun hno => ?_, .of_stable hlead, fun const => .of_stable hlead⟩
  · rw [opensArguments, Peek.butNot, ← hless, ← h.ops "<=" (by decide)]
    exact hno
  · rw [← h.ops "->" (by decide)]
    exact hno
  · rw [isBang, Peek.butNot, ← hbang, ← h.ops "!=" (by decide)]
    exact hno

theorem AtEnd.typeEnds (h : AtEnd u u') : TypeEnds u u' := h.edge.typeEnds

theorem AtEnd.patternEnds (h : AtEnd u u') : PatternEnds u u' := by
  obtain ⟨rfl, rfl⟩ := h
  exact (Lead.refl []).patternEnds (by decide) (by decide)

end ActionUnits.Source
