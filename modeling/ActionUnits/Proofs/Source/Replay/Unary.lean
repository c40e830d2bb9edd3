import ActionUnits.Proofs.Source.Replay.Atom

/-! # Replaying operands

An operand is one of many forms, told apart by its first tokens. Prefix operators
come before it, and calls, fields and indices after it. At the start of a
statement a form that ends with a brace is an expression by itself.
-/

namespace ActionUnits.Source

variable {m : Mode} {size : Nat} {g g' : Grammar} {u u' : List Token}

/-! ## Forms that keywords start -/

/-- The `let` of a condition is read the same again. -/
theorem letCondition_replays (hg : Knot m size g g') :
    Replays m size 1 (fun _ => Edge) (letCondition g) (letCondition g') (Keyword "let") := by
  unfold letCondition
  refine (word_then "let" Lead).keep PatternStart (fun _ => ?_) fun _ _ _ h => h.toLead
  refine hg.pattern.forget.bind (fun u u' => isOp "=" u = true ∧ Lead u u') (fun pattern => ?_) ?_
  · refine (op_known "=").forget.bind Start (fun _ => ?_) fun _ _ _ _ => trivial
    refine (hg.unary false).forget.bind Edge (fun start => ?_) fun _ _ _ h => h
    exact (operators_replays hg false .compare start fun _ _ _ h _ => h).wrap
  · intro _ u u' h
    have hkind := kind_of_isOp (rfl : "=".toList = ['=']) (by decide) h.1
    exact h.2.patternEnds (by rw [hkind]; decide) (by rw [hkind]; decide)

/-- An expression that is kept as it was read. -/
theorem become_replays (hg : Knot .verbatim size g g') :
    Replays m size 1 (fun _ => Edge)
      (get >>= fun start => word "become" >>= fun _ => g (.expr true) >>= fun _ => keepVerbatim start)
      (get >>= fun start => word "become" >>= fun _ => g' (.expr true) >>= fun _ => keepVerbatim start)
      (Keyword "become") := by
  have hword : Replays .verbatim size 1 (fun _ => Edge) (word "become" >>= fun _ => g (.expr true))
      (word "become" >>= fun _ => g' (.expr true)) (Keyword "become") :=
    (word_then "become" Lead).keep Start (fun _ => (hg.expr true).forget) fun _ _ _ h => h.toLead
  have hkept := Replays.unread (m := m) hword
  simp only [bind_assoc] at hkept
  exact hkept

/-- The name and the hash sign at the start of what is built into the compiler. -/
def BuiltinStart : Follow := fun u u' =>
  isWord "builtin" u = true ∧ WordThen (fun r r' => isOp "#" r = true ∧ Lead r r') u u'

/-- Compiler built-ins are kept as they are and read the same again. -/
theorem builtinExpr_replays :
    Replays m size 1 (fun _ => Any) builtinExpr builtinExpr BuiltinStart := by
  have harguments : Replays .verbatim size 0 (fun _ => Any)
      (anyGroup >>= fun arguments => require (arguments.1 == .paren))
      (anyGroup >>= fun arguments => require (arguments.1 == .paren)) Lead :=
    anyGroup_closed.forget.seq Any fun _ => by
      unfold require
      exact .fixed (fun _ => .pure ()) fun _ => .failure
  have hread := (word_then "builtin" fun r r' => isOp "#" r = true ∧ Lead r r').keep _
    (fun _ => (op_known "#").forget.seq Lead fun _ => ident_closed.forget.seq Lead fun _ =>
      harguments) fun _ _ _ h => h
  have hkept := Replays.unread (m := m) hread
  simp only [bind_assoc] at hkept
  exact hkept

/-- Asynchronous blocks are read the same again. -/
theorem asyncBlock_replays (hg : Knot m size g g') :
    Replays m size 1 (fun _ => Any)
      (word "async" >>= fun _ => word? "move" >>= fun move => blockIn g >>= fun body =>
        pure (Node.asyncBlock move body))
      (word "async" >>= fun _ => word? "move" >>= fun move => blockIn g' >>= fun body =>
        pure (Node.asyncBlock move body))
      fun u u' => isWord "async" u = true ∧ WordThen (Marked "move" BraceStart) u u' := by
  refine (word_then "async" (Marked "move" BraceStart)).keep _ (fun _ => mark_replays "move"
    (fun move => ?_) fun _ _ h => h.2) fun _ _ _ h => h
  exact ((group_replays .brace Any hg.statements fun _ => atEnd_nil).smaller.noting
    kind_of_group).forget.wrap.before fun _ _ h => ⟨h.1, h.2.lead⟩

theorem constBlock_braces (hg : Knot m size g g') :
    Replays m size 1 (fun _ => Any) (constBlock g) (constBlock g')
      fun u u' => isWord "const" u = true ∧ WordThen BraceStart u u' :=
  (word_then "const" BraceStart).keep BraceStart
    (fun _ => (blockWithAttrs_replays hg).forget.wrap) fun _ _ _ h => h

/-! ## Where the forms start -/

theorem Start.of_literal (h : Lead u u') (hwords : AfterWord Edge u u')
    (hliteral : isLiteral u = true) : Start u u' := by
  have hliteral' : isLiteral u' = true := h.literal_eq.symm.trans hliteral
  unfold isLiteral at hliteral
  split at hliteral
  next text rest => exact .of_kind h rfl rfl rfl
  next name rest =>
      obtain ⟨r', rfl⟩ := exists_of_kind_word h.kind_eq.symm
      obtain ⟨text⟩ := name
      simp only [Bool.or_eq_true, beq_iff_eq] at hliteral
      rcases hliteral with rfl | rfl
      · exact .of_wordThen rfl (.of_lead (hwords _ _ _ rfl rfl).toLead (by decide))
      · exact .of_wordThen rfl (.of_lead (hwords _ _ _ rfl rfl).toLead (by decide))
  next joint text rest =>
      have hkind : kind u' = .punct '-' := h.kind_eq.symm
      refine .of_lead h rfl fun long hlong hyes => absurd hyes ?_
      -- A number after the minus sign makes no operator of it.
      unfold isLiteral at hliteral'
      split at hliteral'
      next => cases hkind
      next => cases hkind
      next joint' text' rest' =>
          have hlonger : ∀ long ∈ longOps, 2 ≤ long.toList.length := by decide
          have hlength := hlonger long hlong
          rw [isOp]
          generalize long.toList = chars at hlength ⊢
          rcases chars with _ | ⟨c, _ | ⟨c', cs⟩⟩
          · cases hlength
          · simp at hlength
          · cases joint' <;> simp [nextIsOp]
      next => cases hliteral'
  next => cases hliteral

theorem Keyword.start {text : String} (h : Keyword text u u')
    (htext : isPlainSegment [.word text] = false := by rfl)
    (hname : text ∉ ["const", "for", "async"] := by decide) : Start u u' :=
  .of_keyword h htext hname

theorem BraceStart.start (h : BraceStart u u') : Start u u' := .of_kind h.2 h.1 rfl rfl

theorem Start.of_asyncBlock (h : isWord "async" u = true ∧ WordThen (Marked "move" BraceStart) u u') :
    Start u u' := by
  refine .of_alike ⟨h.1, h.2.mono fun r r' hmove => ?_⟩ rfl
  refine ⟨Marked.lead (fun _ _ h => h.2) hmove, fun hname => absurd hname (by decide),
    fun hname => absurd hname (by decide), fun _ hyes => ?_⟩
  refine hmove.elim (fun _ h => ?_) fun _ h => ?_
  · obtain ⟨name, t, t', rfl, rfl, hbrace⟩ := h
    exact (Stable.eq_of_lead hbrace.2).symm
  · exact absurd (h.1.symm.trans (kind_of_isWord hyes)) nofun

theorem Start.of_constBlock (h : isWord "const" u = true ∧ WordThen BraceStart u u') :
    Start u u' := by
  refine .of_alike ⟨h.1, h.2.mono fun r r' hbrace => ?_⟩ rfl
  refine ⟨hbrace.2, fun _ hasync => ?_, fun hname => absurd hname (by decide),
    fun hname => absurd hname (by decide)⟩
  have hkind := hbrace.1
  rw [kind_of_isWord hasync] at hkind
  cases hkind

/-- The name in front of a hash sign is no macro call and no item. -/
theorem Start.of_builtin (h : BuiltinStart u u') : Start u u' := by
  obtain ⟨hname, name, r, r', rfl, rfl, hhash, hlead⟩ := h
  obtain ⟨text⟩ := name
  obtain rfl : text = "builtin" := eq_of_beq hname
  have hkind : kind r = .punct '#' := kind_of_isOp (rfl : "#".toList = ['#']) (by decide) hhash
  have hcall : ∀ {v}, kind v = .punct '#' → macroStart (.word "builtin" :: v) = .other := by
    intro v hv
    have hpath : isOp "::" v = false := isOp_of_kind rfl (by decide) (by rw [hv]; decide)
    have hbang : isBang v = false := by
      rw [isBang, Peek.butNot, isOp_of_kind (rfl : "!".toList = ['!']) (by decide) (by rw [hv]; decide)]
      rfl
    refine macroStart_of_not_isBang ?_ hbang
    change afterNames (.word "builtin" :: v) = some v
    rw [Token.word, afterNames_ident, if_pos (by decide), afterTail,
      if_neg (by rw [hpath]; exact Bool.false_ne_true)]
  have halike : WordAlike ⟨"builtin"⟩ r r' := .of_lead hlead (by decide)
  refine ⟨.word _ _ _, ops_of_isNoOperator rfl, rfl, fun hmark => ?_, fun _ _ _ hu hu' => ?_,
    fun hno => (isItemStart_alike halike).trans hno, ?_⟩
  · cases hmark
  · cases hu
    cases hu'
    exact halike
  · exact (hcall (hlead.kind_eq ▸ hkind)).trans (hcall hkind).symm

/-- A loop over a pattern is no closure with lifetimes. -/
theorem Start.of_forLoop (h : isWord "for" u = true ∧ WordThen PatternStart u u')
    (hgenerics : isGenericsStart u.tail = false) : Start u u' := by
  obtain ⟨hfor, name, r, r', rfl, rfl, hpattern⟩ := h
  refine .of_alike ⟨hfor, name, r, r', rfl, rfl, hpattern.toLead, fun hname => absurd hname (by decide),
    fun _ => ?_, fun hname => absurd hname (by decide)⟩ rfl
  exact (hpattern.generics hgenerics).trans hgenerics.symm

theorem DotsStart.start (h : DotsStart u u') : Start u u' :=
  .of_kind h.2 (kind_of_isOp (rfl : "..".toList = ['.', '.']) (by decide) h.1) rfl rfl

theorem Start.of_lifetime {Post : Follow} (h : LifetimeThen Post u u') : Start u u' := by
  have hlead := h.lead
  obtain ⟨name, r, r', rfl, rfl, -⟩ := h
  exact .of_kind hlead rfl rfl rfl

/-! ## Questions about a start -/

/-- A question about the token after a word. -/
theorem Lead.afterWord_eq (h : Lead u u') (hafter : AfterWord Lead u u') (text : String)
    {question : Peek} [hq : Stable question] :
    ((isWord text).and (second question)) u' = ((isWord text).and (second question)) u := by
  have hword : isWord text u = isWord text u' := Stable.eq_of_lead h
  rw [Peek.and, Peek.and, ← hword]
  cases hyes : isWord text u with
  | false => rfl
  | true =>
      obtain ⟨r, rfl⟩ := exists_of_kind_word (kind_of_isWord hyes)
      obtain ⟨r', rfl⟩ := exists_of_kind_word h.kind_eq.symm
      exact (hq.eq_of_lead (hafter _ _ _ rfl rfl)).symm

theorem Start.afterWord (h : Start u u') : AfterWord Lead u u' :=
  fun name r r' hu hu' => (h.word name r r' hu hu').toLead

theorem Start.isAsyncBlock_eq (h : Start u u') : isAsyncBlock u' = isAsyncBlock u := by
  have hword : isWord "async" u = isWord "async" u' := Stable.eq_of_lead h.toLead
  rw [isAsyncBlock, Peek.and, Peek.and, ← hword]
  cases hyes : isWord "async" u with
  | false => rfl
  | true =>
      obtain ⟨r, rfl⟩ := exists_of_kind_word (kind_of_isWord hyes)
      obtain ⟨r', rfl⟩ := exists_of_kind_word h.kind_eq.symm
      have halike := h.word _ _ _ rfl rfl
      have hbrace : isGroup .brace r = isGroup .brace r' := Stable.eq_of_lead halike.toLead
      have hmove : isWord "move" r = isWord "move" r' := Stable.eq_of_lead halike.toLead
      change (true && (isGroup .brace r' || (isWord "move" r' && second (isGroup .brace) r'))) =
        (true && (isGroup .brace r || (isWord "move" r && second (isGroup .brace) r)))
      rw [← hbrace, ← hmove]
      cases hmoves : isWord "move" r with
      | false => rfl
      | true => rw [halike.async rfl hmoves]

theorem Start.generics_eq (h : Start u u') (hfor : isWord "for" u = true) :
    isGenericsStart u'.tail = isGenericsStart u.tail := by
  obtain ⟨r, rfl⟩ := exists_of_kind_word (kind_of_isWord hfor)
  obtain ⟨r', rfl⟩ := exists_of_kind_word h.kind_eq.symm
  exact (h.word _ _ _ rfl rfl).loop rfl

theorem Start.isForLoop_eq (h : Start u u') :
    ((isWord "for").butNot fun tokens => isGenericsStart tokens.tail) u' =
      ((isWord "for").butNot fun tokens => isGenericsStart tokens.tail) u := by
  have hword : isWord "for" u = isWord "for" u' := Stable.eq_of_lead h.toLead
  rw [Peek.butNot, Peek.butNot, ← hword]
  cases hyes : isWord "for" u with
  | false => rfl
  | true => rw [h.generics_eq hyes]

theorem Start.isClosureStart_eq (h : Start u u') : isClosureStart u' = isClosureStart u := by
  have hfor : ((isWord "for").and (isClosureStart.second' isGenericsStart)) u' =
      ((isWord "for").and (isClosureStart.second' isGenericsStart)) u := by
    have hword : isWord "for" u = isWord "for" u' := Stable.eq_of_lead h.toLead
    rw [Peek.and, Peek.and, ← hword]
    cases hyes : isWord "for" u with
    | false => rfl
    | true => rw [isClosureStart.second', isClosureStart.second', h.generics_eq hyes]
  have hconst : ((isWord "const").butNot (second (isGroup .brace))) u' =
      ((isWord "const").butNot (second (isGroup .brace))) u := by
    have hword : isWord "const" u = isWord "const" u' := Stable.eq_of_lead h.toLead
    have hand := @Lead.afterWord_eq _ _ h.toLead h.afterWord "const" (isGroup .brace) _
    rw [Peek.butNot, Peek.butNot, ← hword]
    rw [Peek.and, Peek.and, ← hword] at hand
    cases hyes : isWord "const" u with
    | false => rfl
    | true => simpa [hyes] using hand
  have hasync := @Lead.afterWord_eq _ _ h.toLead h.afterWord "async"
    ((isOp "|").or (isWord "move")) _
  simp only [isClosureStart, anyOf, List.any_cons, List.any_nil, hfor, hconst, hasync,
    (Stable.eq_of_lead h.toLead : isOp "|" u = isOp "|" u'),
    (Stable.eq_of_lead h.toLead : isWord "move" u = isWord "move" u'),
    (Stable.eq_of_lead h.toLead : isWord "static" u = isWord "static" u')]

/-! ## All forms -/

/-- Both readings go on with an expression that is no closure. -/
structure Later (u u' : List Token) : Prop extends Lead u u' where
  word : AfterWord Lead u u'
  start : isClosureStart u = false → Start u u'

/-- Texts that start an expression alike agree on all that is asked of them later. -/
theorem Start.later (h : Start u u') : Later u u' := ⟨h.toLead, h.afterWord, fun _ => h⟩

theorem Later.of_forLoop (h : isWord "for" u = true ∧ WordThen PatternStart u u') : Later u u' := by
  have hstart : isClosureStart u = false → isGenericsStart u.tail = false := by
    intro hno
    refine Bool.eq_false_iff.mpr fun hyes => ?_
    have hfor : ((isWord "for").and (isClosureStart.second' isGenericsStart)) u = true :=
      (Bool.and_eq_true _ _).mpr ⟨h.1, hyes⟩
    simp [isClosureStart, anyOf, hfor] at hno
  refine ⟨h.2.lead, fun name r r' hu hu' => ?_, fun hno => .of_forLoop h (hstart hno)⟩
  obtain ⟨-, name', t, t', rfl, rfl, hpattern⟩ := h
  cases hu
  cases hu'
  exact hpattern.toLead

theorem Later.isBuiltinStart_eq (h : Later u u') : isBuiltinStart u' = isBuiltinStart u :=
  @Lead.afterWord_eq _ _ h.toLead h.word "builtin" (isOp "#") _

theorem Later.isPathExprStart_eq (h : Later u u') : isPathExprStart u' = isPathExprStart u := by
  have htry := @Lead.afterWord_eq _ _ h.toLead h.word "try" ((isOp "!").or (isOp "::")) _
  simp only [isPathExprStart, anyOf, List.any_cons, List.any_nil, htry,
    (Stable.eq_of_lead h.toLead : isIdent u = isIdent u'),
    (Stable.eq_of_lead h.toLead : isOp "::" u = isOp "::" u'),
    (Stable.eq_of_lead h.toLead : isOp "<" u = isOp "<" u'),
    (Stable.eq_of_lead h.toLead : isOneOf ["self", "Self", "super", "crate"] u = isOneOf _ u')]

/-- A form that is read back whatever follows. -/
theorem Replays.closedForm {p p' : Parser Node} {Pre : Follow}
    (h : Replays m size 1 (fun _ => Any) p p' Pre) (hpre : ∀ u u', Pre u u' → Start u u') :
    Replays m size 1 (fun _ => Edge) p p' Later :=
  (h.after fun _ _ _ _ => trivial).before fun u u' h => (hpre u u' h).later

/-- A `continue` is read the same again. -/
theorem continue_replays :
    Replays m size 1 (fun _ => Edge)
      (word "continue" >>= fun _ => lifetime? >>= fun label => pure (Node.continueExpr label))
      (word "continue" >>= fun _ => lifetime? >>= fun label => pure (Node.continueExpr label))
      (Keyword "continue") :=
  (word_then "continue" Lead).keep Lead (fun _ => .lifetime? (fun _ _ h => h)
    (fun _ => (Replays.pure _).after fun _ _ _ _ => trivial) ((Replays.pure _).before
      fun _ _ h => h.toLead) fun _ _ h _ => h) fun _ _ _ h => h

/-- Atoms are read the same again. -/
theorem atom_replays (hg : ∀ m, Knot m size g g') (braces : Bool) :
    Replays m size 1 (fun _ => Edge) (atom g braces) (atom g' braces) Start := by
  unfold atom
  refine .choice ?literal ?_ fun u u' h => h.literal_eq.symm
  case literal =>
    exact (literal_replays Edge).before fun u u' h hyes => .of_literal h.1 h.2 hyes
  -- These forms are told by more than one token, so each asks its own question of the start.
  refine .before (.branch (fun u u' h => h.isAsyncBlock_eq) ?async (.branch
    (fun u u' h => @Lead.afterWord_eq _ _ h.toLead h.afterWord _ (isGroup .brace) _) ?tryBlock
    (.choice ?closure (.before (.branch (fun u u' h => h.isBuiltinStart_eq) ?builtin
      (.branch (fun u u' h => h.isPathExprStart_eq) ?path ?_) : Replays _ _ _ _ _ _ Later)
      fun u u' h => h.start) fun u u' h => h.isClosureStart_eq)))
    fun u u' h _ => h
  case async =>
    exact ((asyncBlock_replays (hg m)).after fun _ _ _ _ => trivial).before
      fun u u' h => .of_asyncBlock h
  case tryBlock =>
    exact ((tryBlock_replays (hg m)).after fun _ _ _ _ => trivial).before fun u u' h => h.start
  case closure => exact (closure_replays (hg m) braces).before fun u u' h hyes => h.start hyes
  case builtin => exact builtinExpr_replays.closedForm fun _ _ h => .of_builtin h
  case path => exact (pathExpr_replays (hg m) braces).before fun u u' h => h.later
  -- From here on the first token decides.
  have hlead : ∀ u u', Later u u' → Lead u u' := fun u u' h => h.toLead
  refine .ite hlead ?paren (.ite hlead ?breaks (.word? hlead ?continues (.ite hlead ?returns
    (.ite hlead ?becomes (.ite hlead ?array (.ite hlead ?lets (.ite hlead ?ifs (.ite hlead ?whiles
    (.ite hlead ?fors (.ite hlead ?loops (.ite hlead ?selection (.ite hlead ?yields (.ite hlead ?unsafes
    (.ite hlead ?consts (.ite hlead ?block (.ite hlead ?range (.word? hlead ?underscore
    ?labelled)))))))))))))))))
  case paren => exact (parenExpr_replays (hg m)).closedForm fun _ _ h => .of_kind h.2 h.1 rfl rfl
  case breaks => exact (breakExpr_replays (hg m) braces).before fun _ _ h => h.start.later
  case continues => exact continue_replays.before fun _ _ h => h.start.later
  case returns => exact (jump_replays (hg m) "return" _).before fun _ _ h => h.start.later
  case becomes => exact (become_replays (hg .verbatim)).before fun _ _ h => h.start.later
  case array => exact (arrayExpr_replays (hg m)).closedForm fun _ _ h => .of_kind h.2 h.1 rfl rfl
  case lets => exact (letCondition_replays (hg m)).before fun _ _ h => h.start.later
  case ifs =>
    exact ((ifElse_replays (hg m)).after fun _ _ _ h => h.toLead).before fun _ _ h => h.start.later
  case whiles => exact (whileLoop_replays (hg m) none).closedForm fun _ _ h => h.start
  case fors =>
    exact ((forLoop_replays (hg m) none).after fun _ _ _ _ => trivial).before
      fun _ _ h => .of_forLoop h
  case loops => exact (plainLoop_replays (hg m) none).closedForm fun _ _ h => h.start
  case selection => exact (matchOn_replays (hg m)).closedForm fun _ _ h => h.start
  case yields => exact (jump_replays (hg m) "yield" _).before fun _ _ h => h.start.later
  case unsafes => exact (unsafeBlock_replays (hg m)).closedForm fun _ _ h => h.start
  case consts => exact (constBlock_braces (hg m)).closedForm fun _ _ h => .of_constBlock h
  case block => exact (blockExpr_replays (hg m) none).closedForm fun _ _ h => h.start
  case range =>
    exact (rangeTo_replays (hg m) braces fun _ _ _ _ h => h).before fun _ _ h => h.start.later
  case underscore =>
    exact ((word_then "_" Lead).result fun _ _ _ h => h.toLead).before
      fun _ _ h => (Keyword.start h).later
  case labelled => exact (labelled_replays (hg m)).closedForm fun _ _ h => .of_lifetime h

/-! ## Prefix operators -/

/-- No operator that begins with a prefix operator has more than two marks. -/
theorem longOps_prefix {char : Char} (hchar : char ∈ ['&', '*', '!', '-']) :
    ∀ long ∈ longOps, long.toList.head? = some char → long.toList.length = 2 := by
  simp only [List.mem_cons, List.not_mem_nil, or_false] at hchar
  rcases hchar with rfl | rfl | rfl | rfl <;> decide

/-- A prefix operator may stand in front of a plain expression, and only a minus begins an arrow. -/
theorem startsPlainExpr_prefixOperator {char : Char} (hchar : char ∈ ['&', '*', '!', '-']) :
    startsPlainExpr (.punct char) = true ∧ (char ≠ '-' → char ∉ ['\'', ':', '.', '-']) := by
  simp only [List.mem_cons, List.not_mem_nil, or_false] at hchar
  rcases hchar with rfl | rfl | rfl | rfl <;> decide

/-- An expression that starts with a prefix operator. -/
theorem Start.of_prefixOperator {text : String} {char : Char} {Post : Follow}
    (htext : text.toList = [char])
    (hchar : char ∈ ['&', '*', '!', '-']) (h : OpThen m text Post u u')
    (hpost : ∀ r r', Post r r' → Lead r r') : Start u u' := by
  obtain ⟨hstarts, hplain⟩ := startsPlainExpr_prefixOperator hchar
  have hlead : Lead u u' := by
    obtain ⟨joint, joint', r, r', rfl, rfl, -, hrest⟩ := h.single char htext
    by_cases hminus : char = '-'
    · subst hminus
      exact .minus (hpost r r' hrest).kind_eq _ _
    · exact .punct (hplain hminus) _ _ _ _
  refine .of_op htext hstarts hlead h hpost fun long hmem c cs hlong => ?_
  have hlength := longOps_prefix hchar long hmem (by rw [hlong]; rfl)
  rw [hlong] at hlength
  simpa using hlength

/-- After `&`, words that belong to the operator are told from the operand. -/
def AfterAmp : Follow := fun u u' => Lead u u' ∧ AfterWord Lead u u'

theorem Start.afterAmp (h : Start u u') : AfterAmp u u' := ⟨h.toLead, h.afterWord⟩

theorem WordThen.afterAmp {Post : Follow} (h : WordThen Post u u')
    (hpost : ∀ r r', Post r r' → Lead r r') : AfterAmp u u' := by
  obtain ⟨name, r, r', rfl, rfl, hrest⟩ := h
  refine ⟨.word _ _ _, fun _ _ _ hu hu' => ?_⟩
  cases hu
  cases hu'
  exact hpost _ _ hrest

/-- References are read the same again. -/
theorem reference_replays (hg : Knot m size g g') (braces : Bool) (attrs : List Node) :
    Replays m size 0 (fun _ => Edge)
      (do
        if ← peek ((isWord "raw").and (second (isOneOf ["mut", "const"]))) then
          word "raw"
          let mutable ← word? "mut"
          unless mutable do word "const"
          return Node.withAttrs attrs (.rawAddress mutable (← g (.unary braces)))
        else
          let mutable ← word? "mut"
          return Node.withAttrs attrs (.reference mutable (← g (.unary braces))))
      (do
        if ← peek ((isWord "raw").and (second (isOneOf ["mut", "const"]))) then
          word "raw"
          let mutable ← word? "mut"
          unless mutable do word "const"
          return Node.withAttrs attrs (.rawAddress mutable (← g' (.unary braces)))
        else
          let mutable ← word? "mut"
          return Node.withAttrs attrs (.reference mutable (← g' (.unary braces)))) AfterAmp := by
  have hoperand : ∀ make : Node → Node, Replays m size 0 (fun _ => Edge)
      (g (.unary braces) >>= fun e => pure (make e)) (g' (.unary braces) >>= fun e => pure (make e))
      Start := fun make => (hg.unary braces).forget.wrap
  refine .branch (fun u u' h => @Lead.afterWord_eq _ _ h.1 h.2 "raw" (isOneOf ["mut", "const"]) _)
    ?_ ?_
  · refine ((word_replays "raw" Lead).forget.bind Lead (fun _ => .word? (fun _ _ h => h) ?_ ?_)
      fun _ _ _ h => h).before fun _ _ h => h.afterAmp fun _ _ h => h
    · exact (word_closed "mut").forget.bind Start (fun _ => hoperand fun e =>
        .withAttrs attrs (.rawAddress true e)) fun _ _ _ _ => trivial
    · exact (word_closed "const").forget.bind Start (fun _ => hoperand fun e =>
        .withAttrs attrs (.rawAddress false e)) fun _ _ _ _ => trivial
  · refine .word? (fun _ _ h => h.1) ?_ ?_
    · exact ((word_replays "mut" Start).forget.bind Start (fun _ => hoperand fun e =>
        .withAttrs attrs (.reference true e)) fun _ _ _ h => h).before
        fun _ _ h => h.afterAmp fun _ _ h => h.toLead
    · exact (hoperand fun e => .withAttrs attrs (.reference false e)).before fun _ _ h => h.afterAmp

/-- Unary expressions are read the same again. -/
theorem unary_replays (hg : ∀ m, Knot m size g g') (braces : Bool) :
    Replays m size 1 (fun _ => Edge) (unary g braces) (unary g' braces) Start := by
  have hprefix : ∀ (text : String) (char : Char) (make : Node → Node), text.toList = [char] →
      char ∈ ['&', '*', '!', '-'] → Replays m size 1 (fun _ => Edge)
        (op text >>= fun _ => g (.unary braces) >>= fun e => pure (make e))
        (op text >>= fun _ => g' (.unary braces) >>= fun e => pure (make e)) Start := by
    intro text char make htext hchar
    exact ((op_then text Start).keep Start (fun _ => ((hg m).unary braces).forget.wrap)
      fun _ _ _ h => h).before fun u u' h => .of_prefixOperator htext hchar h fun _ _ h => h.toLead
  have hlead : ∀ u u', Start u u' → Lead u u' := fun u u' h => h.toLead
  unfold unary
  refine ((outerAttrs_replays (hg m) fun u u' h => .of_stable (hlead u u' h)).smaller.bind Start
    (fun attrs => ?_) fun _ _ _ h => h).before fun u u' h => .of_attributed h
  refine .op? hlead ?reference (.op? hlead ?star (.op? hlead ?bang (.op? hlead ?minus ?plain)))
  case reference =>
    refine ((op_then "&" AfterAmp).keep AfterAmp (fun _ => reference_replays (hg m) braces attrs)
      fun _ _ _ h => h).before fun u u' h => ?_
    exact .of_prefixOperator (rfl : "&".toList = ['&']) (by decide) h fun _ _ h => h.1
  case star => exact hprefix "*" '*' _ rfl (by decide)
  case bang => exact hprefix "!" '!' _ rfl (by decide)
  case minus => exact hprefix "-" '-' _ rfl (by decide)
  case plain =>
    exact (atom_replays hg braces).keep Edge (fun start => (trailers_replays (hg m) start).wrap)
      fun _ _ _ h => h

/-! ## Expressions that a closing brace may end -/

/-- What follows a block-like expression depends on which one it is. -/
theorem earlyBlock?_bind (g : Grammar) {α : Type} (f : Option Node → Parser α) :
    (earlyBlock? g >>= f) = (do
      if ← peek (isWord "if") then ifElse g >>= fun e => f (some e)
      else if ← peek (isWord "while") then whileLoop g none >>= fun e => f (some e)
      else if ← peek ((isWord "for").butNot fun tokens => isGenericsStart tokens.tail) then
        forLoop g none >>= fun e => f (some e)
      else if ← peek (isWord "loop") then plainLoop g none >>= fun e => f (some e)
      else if ← peek (isWord "match") then matchOn g >>= fun e => f (some e)
      else if ← peek ((isWord "try").and (second (isGroup .brace))) then
        tryBlock g >>= fun e => f (some e)
      else if ← peek (isWord "unsafe") then unsafeBlock g >>= fun e => f (some e)
      else if ← peek ((isWord "const").and (second (isGroup .brace))) then
        constBlock g >>= fun e => f (some e)
      else if ← peek (isGroup .brace) then blockExpr g none >>= fun e => f (some e)
      else if ← peek isLifetime then labelled g >>= fun e => f (some e)
      else f none) := by
  unfold earlyBlock?
  simp only [bind_assoc, ite_bind, pure_bind]

/-- Block-like expressions at the start of a statement are read the same again. -/
theorem earlyBlock?_replays {α : Type} (hg : Knot m size g g') {f f' : Option Node → Parser α}
    {Post : α → Follow}
    (hsome : ∀ e, Replays m size 0 Post (f (some e)) (f' (some e)) Lead)
    (hnone : Replays m size 1 Post (f none) (f' none) Start) :
    Replays m size 1 Post (earlyBlock? g >>= f) (earlyBlock? g' >>= f') Start := by
  have hclosed : ∀ {p p' : Parser Node} {Pre : Follow}, Replays m size 1 (fun _ => Any) p p' Pre →
      (∀ u u', Pre u u' → Start u u') →
      Replays m size 1 Post (p >>= fun e => f (some e)) (p' >>= fun e => f' (some e)) Start :=
    fun hp hpre => (hp.keep Lead hsome fun _ _ _ _ => trivial).before hpre
  have hlead : ∀ u u', Start u u' → Lead u u' := fun u u' h => h.toLead
  rw [earlyBlock?_bind, earlyBlock?_bind]
  refine .ite hlead ?ifs (.ite hlead ?whiles (.choice ?fors (.before (.ite hlead ?loops
    (.ite hlead ?selection (.branch (fun u u' h =>
      @Lead.afterWord_eq _ _ h.toLead h.afterWord _ (isGroup .brace) _) ?tryBlock
      (.ite hlead ?unsafes (.branch (fun u u' h =>
        @Lead.afterWord_eq _ _ h.toLead h.afterWord _ (isGroup .brace) _) ?consts
        (.ite hlead ?block (.ite hlead ?labelled hnone))))))) fun _ _ h _ => h)
    fun u u' h => h.isForLoop_eq))
  case ifs =>
    exact ((ifElse_replays hg).keep Lead hsome fun _ _ _ h => h).before fun _ _ h => h.start
  case whiles => exact hclosed (whileLoop_replays hg none) fun _ _ h => h.start
  case fors =>
    refine ((forLoop_replays hg none).keep Lead hsome fun _ _ _ _ => trivial).before
      fun u u' h hyes => .of_forLoop h ?_
    simpa using ((Bool.and_eq_true _ _).mp hyes).2
  case loops => exact hclosed (plainLoop_replays hg none) fun _ _ h => h.start
  case selection => exact hclosed (matchOn_replays hg) fun _ _ h => h.start
  case tryBlock => exact hclosed (tryBlock_replays hg) fun _ _ h => h.start
  case unsafes => exact hclosed (unsafeBlock_replays hg) fun _ _ h => h.start
  case consts => exact hclosed (constBlock_braces hg) fun _ _ h => .of_constBlock h
  case block => exact hclosed (blockExpr_replays hg none) fun _ _ h => h.start
  case labelled => exact hclosed (labelled_replays hg) fun _ _ h => .of_lifetime h

theorem EarlyEnds.of_operators {e : Node} {r r' : List Token} (h : EarlyEnds e r r')
    (hor : isRange e = true ∨ stops .jump r = true) : Edge r r' :=
  h.edge (hor.symm.imp isEnd_of_stops id)

/-- Expressions at the start of a statement are read the same again. -/
theorem earlyExpr_replays (hg : Knot m size g g') :
    Replays m size 1 EarlyEnds (earlyExpr g) (earlyExpr g') Start := by
  have hoperators : ∀ start : Node, Replays m size 0 EarlyEnds (operators g true .jump start)
      (operators g' true .jump start) Edge :=
    fun start => operators_replays hg true .jump start fun _ _ _ h => h.of_operators
  unfold earlyExpr
  refine ((outerAttrs_replays hg fun u u' h => .of_stable h.toLead).smaller.bind Start
    (fun attrs => earlyBlock?_replays hg (fun block => ?_) ?_) fun _ _ _ h => h).before
    fun u u' h => .of_attributed h
  · refine .ite (fun _ _ h => h) ?_ ?_
    · exact ((trailers_replays hg block).bind Edge (fun e => hoperators _) fun _ _ _ h => h).before
        fun _ _ h => h.toLead
    · exact (Replays.pure _).before fun _ _ h => h.toLead
  · exact (hg.unary true).keep Edge (fun start => hoperators _) fun _ _ _ h => h

end ActionUnits.Source
