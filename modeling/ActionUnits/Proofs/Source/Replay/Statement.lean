import ActionUnits.Proofs.Source.Replay.Item
import ActionUnits.Proofs.Source.Replay.Unary

/-! # Replaying statements

A statement without a semicolon is followed by another one, whose start tells that
the first one has ended. Where this takes an operator to be told from the start of
an expression, the statement must be the last one of its block.
-/

namespace ActionUnits.Source

variable {m : Mode} {size least : Nat} {g g' : Grammar} {u u' : List Token}

/-! ## What follows a statement -/

/-- What may follow something that closes without a semicolon. -/
structure Loose (u u' : List Token) : Prop extends Lead u u' where
  edge : IsEnd u → Edge u u'

theorem Loose.of_edge (h : Edge u u') : Loose u u' := ⟨h.toLead, fun _ => h⟩

theorem Loose.of_kind (h : Lead u u') (hkind : isNoOperator (kind u) = true) : Loose u u' :=
  .of_edge (h.edge hkind)

/-- What may follow a statement. -/
structure StmtEnds (node : Node) (u u' : List Token) : Prop extends Loose u u' where
  last : mustBeLast node = true → AtEnd u u'

/-- The longer operators are the binary ones and the two arrows. -/
theorem longOps_cases : ∀ text ∈ longOps,
    (∃ entry ∈ binaryOperators, entry.1 = text) ∨ text = "->" ∨ text = "=>" := by decide

/-- No operator that extends an expression comes in front of another expression, or the first one
must have ended before it. -/
theorem Start.loose (h : Start u u') : Loose u u' := by
  refine ⟨h.toLead, fun hend => ⟨h.toLead, fun text hmem => ?_⟩⟩
  have hnone : ∀ entry ∈ binaryOperators, isOp entry.1 u = false := fun entry hentry => by
    simpa using List.find?_eq_none.mp hend.1 entry hentry
  have hleft : isOp text u = false := by
    rcases longOps_cases text hmem with ⟨entry, hentry, rfl⟩ | rfl | rfl
    · exact hnone entry hentry
    · refine isOp_of_kind rfl (by decide) fun hkind => ?_
      have hminus : isOp "-" u = true := (isOp_iff_kind rfl (by decide)).mpr hkind
      exact absurd ((hnone ("-", .sum) (by decide)).symm.trans hminus) (by decide)
    · refine isOp_of_kind rfl (by decide) fun hkind => ?_
      have hstarts := h.starts
      rw [hkind] at hstarts
      cases hstarts
  rw [hleft]
  cases hright : isOp text u' with
  | false => rfl
  | true => exact absurd (hleft.symm.trans (h.ops text hmem hright)) (by decide)

/-- Both readings go on with a statement after its attributes. -/
structure StmtStart (u u' : List Token) : Prop extends Loose u u' where
  item : isItemStart u' = isItemStart u
  call : macroStart u' = macroStart u

/-- No operator begins with a token that starts an item. -/
theorem startsItem_closed {kind : Kind} (h : startsItem kind = true) : isNoOperator kind = true := by
  cases kind with
  | punct char =>
      obtain rfl : char = ':' := eq_of_beq h
      rfl
  | word name => rfl
  | nothing | lifetime | literal | group => cases h

/-- An item starts a statement. -/
theorem ItemStart.stmtStart (h : ItemStart u u') : StmtStart u u' :=
  ⟨.of_kind h.toLead (startsItem_closed h.starts), h.item, h.call⟩

theorem DeclaredStart.stmtStart (h : DeclaredStart u u') : StmtStart u u' := by
  refine h.elim (fun hpub hlead => ?_) fun _ h => h.stmtStart
  obtain ⟨r, rfl⟩ := exists_of_kind_word (kind_of_isWord hpub)
  obtain ⟨r', rfl⟩ := exists_of_kind_word (hlead.kind_eq.symm.trans (kind_of_isWord hpub))
  refine ⟨.of_kind hlead rfl, ?_, ?_⟩
  · rw [isItemStart_keyword (by decide), isItemStart_keyword (by decide)]
  · rw [macroStart_of_keyword rfl, macroStart_of_keyword rfl]

/-! ## Macro calls -/

/-- A macro call as a statement, after its attributes. -/
def callStmt (attrs : List Node) : Parser Node := do
  let path ← plainPath
  let call ← macroArguments path
  return .macroStmt attrs call (← op? ";")

theorem callStmt_replays (attrs : List Node) :
    Replays m size 1 (fun _ => Lead) (callStmt attrs) (callStmt attrs) CallStart := by
  have hend : ∀ call, Replays m size 0 (fun _ => Lead)
      (op? ";" >>= fun semicolon => pure (Node.macroStmt attrs call semicolon))
      (op? ";" >>= fun semicolon => pure (Node.macroStmt attrs call semicolon)) Lead := fun call =>
    .op? (fun _ _ h => h) (((semicolon_replays _).after fun _ _ _ _ => trivial).before
      fun _ _ h => h.2) (.pure _)
  unfold callStmt
  refine calledPath_replays.keep _ (fun path => ?_) fun _ _ _ h => h
  unfold macroArguments
  rw [bind_assoc]
  refine (op_then "!" CallThen).forget.bind _ (fun _ => ?_) fun _ _ _ h => h
  rw [bind_assoc]
  refine ((anyGroup_then Lead).forget.bind Lead (fun group => ?_) fun _ _ _ h => h).before ?_
  · exact hend ⟨path, group.1, group.2⟩
  · rintro u u' ⟨delimiter, body, r, r', rfl, rfl, hlead⟩
    exact ⟨.group _ _ _ _ _, fun _ _ => hlead⟩

/-- A macro call starts a statement. -/
theorem CallStart.stmtStart (h : CallStart u u') (hcall : macroStart u ≠ .other) :
    StmtStart u u' := by
  have hplain : ∀ text ∈ ["const", "for", "async"], isPlainSegment [.word text] = false := by decide
  refine ⟨.of_kind h.toLead ?_, h.item fun text hmem => ?_, h.call⟩
  · cases hkind : isNoOperator (kind u) with
    | true => rfl
    | false =>
        refine absurd (macroStart_of_kind (fun name hname => ?_) fun hcolon => ?_) hcall
        · rw [hname] at hkind
          cases hkind
        · rw [hcolon] at hkind
          cases hkind
  · cases hword : isWord text u with
    | false => rfl
    | true =>
        obtain ⟨r, rfl⟩ := exists_of_kind_word (kind_of_isWord hword)
        exact absurd (macroStart_of_keyword (hplain text hmem) r) hcall

/-! ## Local variables -/

/-- What follows the pattern of a local variable: its type, its value or the end. -/
def LocalEnds (m : Mode) : Follow :=
  Either (isOp ":") (ColonThen m (TypeStart DefinitionEnds)) DefinitionEnds

theorem DefinitionEnds.kind (h : DefinitionEnds u u') :
    Source.kind u = .punct '=' ∨ Source.kind u = .punct ';' :=
  h.elim (fun hassign _ => .inl (kind_of_isOp rfl (by decide) hassign))
    fun _ h => .inr (kind_of_isOp rfl (by decide) h.1)

theorem LocalEnds.patternEnds (h : LocalEnds m u u') : SinglePatternEnds u u' := by
  refine h.elim (fun _ h => ?_) fun _ h => h.whereEnds.toLead.singlePatternEnds ?_
  · exact (h.toColon.patternEnds h.tail.path).toSinglePatternEnds
  · rcases h.kind with hkind | hkind <;> rw [hkind] <;> decide

theorem LocalEnds.isColon_eq (h : LocalEnds m u u') : isOp ":" u' = isOp ":" u := by
  refine h.elim (fun hcolon h => ?_) fun _ h => (Stable.eq_of_lead h.whereEnds.toLead).symm
  rw [hcolon]
  exact (isOp_iff_kind rfl (by decide)).mpr h.toColon.kind_right

/-- The value of a local variable, and what is done where it does not match. -/
def localValue (g : Grammar) (make : Node → Option Node → Node) : Parser Node := do
  let value ← g (.expr true)
  if !endsInBrace value && (← peek (isWord "else")) then
    word "else"
    let body ← blockIn g
    op ";"
    return make value (some (.blockExpr none body))
  else
    op ";"
    return make value none

theorem localValue_replays (hg : Knot m size g g') (make : Node → Option Node → Node) :
    Replays m size 0 (fun _ => Any) (localValue g make) (localValue g' make) Start := by
  unfold localValue
  refine (hg.expr true).forget.bind (fun u u' => (isWord "else" u = true ∨ isOp ";" u = true) ∧
    Lead u u') (fun value => ?_) fun _ u u' h => h.2.edge ?_
  · refine .each (fun follows => .fixed (fun _ => ?_) fun _ => ?_) fun u u' h =>
      (Stable.eq_of_lead h.2).symm
    · refine ((word_known "else").forget.bind Edge (fun _ => ?_) fun _ _ _ _ => trivial).before
        fun u u' h _ => ⟨.inl h.1, h.2⟩
      exact (blockIn_edge hg).forget.bind Semicolon (fun body => semicolon_replays _)
        fun _ _ _ _ => trivial
    · exact (semicolon_replays _).before fun u u' h _ => ⟨.inr h.1, h.2⟩
  · rcases h.1 with helse | hsemicolon
    · rw [kind_of_isWord helse]
      rfl
    · rw [kind_of_isOp (rfl : ";".toList = [';']) (by decide) hsemicolon]
      rfl

/-- A local variable after its pattern and its type. -/
def localTail (g : Grammar) (make : Option Node → Option Node → Node) : Parser Node := do
  if ← op? "=" then localValue g fun value diverge => make (some value) diverge
  else
    op ";"
    return make none none

/-- The value of a `let` is read the same again. -/
theorem localTail_replays (hg : Knot m size g g') (make : Option Node → Option Node → Node) :
    Replays m size 0 (fun _ => Any) (localTail g make) (localTail g' make) DefinitionEnds := by
  refine .choiceOp ?_ ?_ fun u u' h => (Stable.eq_of_lead h.whereEnds.toLead).symm
  · exact ((op_closed "=").forget.bind Start (fun _ => localValue_replays hg _)
      fun _ _ _ _ => trivial).before fun u u' h hyes => .yes hyes h
  · exact (semicolon_replays _).before fun u u' h hno => .no hno h

/-- A `let` is its pattern, its type if it has one, and its value. -/
theorem localStmt_eq (g : Grammar) (attrs : List Node) : localStmt g attrs =
    (word "let" >>= fun _ => g .singlePattern >>= fun pattern => op? ":" >>= fun typed =>
      if typed = true then g (.ty true) >>= fun ty =>
        localTail g fun value diverge =>
          .localStmt attrs (.typedPattern [] pattern ty) value diverge
      else localTail g fun value diverge => .localStmt attrs pattern value diverge) := by
  rfl

/-- Statements with `let` are read the same again. -/
theorem localStmt_replays (hg : Knot m size g g') (attrs : List Node) :
    Replays m size 1 (fun _ => Any) (localStmt g attrs) (localStmt g' attrs) (Known "let") := by
  rw [localStmt_eq, localStmt_eq]
  refine (word_known "let").keep Lead (fun _ => ?_) fun _ _ _ _ => trivial
  refine ((hg.singlePattern (LocalEnds m) fun _ _ h => h.patternEnds).forget.bind _ (fun pattern => ?_)
    fun _ _ _ h => h).before fun _ _ h => h.toLead
  refine .choiceOp ?_ ?_ fun _ _ h => h.isColon_eq
  · refine ((op_colon_replays (TypeStart DefinitionEnds) fun _ _ h _ => h.toLead).forget.bind _
      (fun _ => ?_) fun _ _ _ h => h).before fun u u' h hyes => .yes hyes h
    exact (hg.ty true DefinitionEnds fun _ _ h => h.whereEnds.typeEnds).forget.bind _
      (fun ty => localTail_replays hg _) fun _ _ _ h => h
  · exact (localTail_replays hg _).before fun u u' h hno => .no hno h

/-! ## Expressions as statements -/

/-- The statement that an expression is. -/
def stmtOfExpr (semicolon : Bool) (e : Node) : Node :=
  match e.splitAttrs with
  | (attrs, .macroCall call) =>
    if semicolon || call.delimiter == .brace then .macroStmt attrs call semicolon
    else .exprStmt e false
  | _ => .exprStmt e semicolon

/-- An expression statement is an expression and its semicolon. -/
theorem exprStmt_eq (g : Grammar) (attrs : List Node) : exprStmt g attrs =
    (g .earlyExpr >>= fun e => op? ";" >>= fun semicolon => pure
      (stmtOfExpr semicolon (if attrs.isEmpty then e else attachAttrs attrs e))) := by
  unfold exprStmt stmtOfExpr
  refine bind_congr fun e => bind_congr fun semicolon => ?_
  generalize (if attrs.isEmpty = true then e else attachAttrs attrs e) = e
  rcases e.splitAttrs with ⟨kept, node⟩
  cases node with
  | macroCall call => exact (apply_ite pure _ _ _).symm
  | _ => rfl

theorem isRange_attachAttrs {e : Node} (attrs : List Node) (h : isRange e = true) :
    isRange (attachAttrs attrs e) = true := by
  cases e with
  | range start closed stop => cases attrs <;> rfl
  | attributed inner node =>
      cases node with
      | range start closed stop => cases attrs <;> rfl
      | _ => cases h
  | _ => cases h

/-- A range as a statement is the last one of its block. -/
theorem mustBeLast_of_isRange {e : Node} (attrs : List Node) (h : isRange e = true) :
    mustBeLast (stmtOfExpr false (if attrs.isEmpty then e else attachAttrs attrs e)) = true := by
  have hbare : ∀ {e : Node}, isRange e = true → mustBeLast (stmtOfExpr false e) = true := by
    intro e he
    have hrange : ∃ a b c, e.splitAttrs.2 = .range a b c := by
      unfold isRange Node.bare at he
      split at he
      next hbare => exact ⟨_, _, _, hbare⟩
      next => cases he
    obtain ⟨start, closed, stop, hsplit⟩ := hrange
    have hstmt : stmtOfExpr false e = .exprStmt e false := by
      unfold stmtOfExpr
      split
      next hcall =>
          rw [hcall] at hsplit
          cases hsplit
      next => rfl
    rw [hstmt, mustBeLast, Node.bare, hsplit]
    rw [isBlockLike, Node.bare, hsplit]
    rfl
  refine hbare ?_
  split
  · exact h
  · exact isRange_attachAttrs attrs h

/-- Expression statements are read the same again. -/
theorem exprStmt_replays (hg : Knot m size g g') (attrs : List Node) :
    Replays m size 1 StmtEnds (exprStmt g attrs) (exprStmt g' attrs) Start := by
  rw [exprStmt_eq, exprStmt_eq]
  refine hg.earlyExpr.keepEach EarlyEnds (fun e => ?_) fun _ _ _ h => h
  refine .choiceOp ?_ ?_ fun u u' h => (Stable.eq_of_lead h.toLead).symm
  · refine ((semicolon_replays _).after fun _ _ _ _ => trivial).before fun u u' h _ => .of_edge ?_
    exact ValueEnds.edge ⟨.inr h.1, h.2⟩
  · refine (Replays.pure _).before fun u u' h _ => ⟨h.toLead, fun hends => ?_⟩
    rcases hends with hend | hrange
    · exact h.edge hend
    · exact (h.last (mustBeLast_of_isRange attrs hrange)).edge

/-! ## Statements -/

/-- What a statement is found to be: a node, or an item. -/
abbrev Stmt := Node ⊕ List Node × Found

/-- A statement after its attributes, where it is known whether a macro call comes next. -/
def stmtKind (g : Grammar) (attrs : List Node) : MacroStart → Parser Stmt
  | .statement => return .inl (← callStmt attrs)
  | .item => return .inr (← itemForm g attrs)
  | .other => do
    if ← peek (isWord "let") then return .inl (← localStmt g attrs)
    else if ← peek isItemStart then return .inr (← itemForm g attrs)
    else return .inl (← exprStmt g attrs)

/-- Whether a statement is an item that is kept unread. -/
def Stmt.isUnread : Stmt → Bool
  | .inl _ => false
  | .inr form => form.2.isUnread

/-- What may follow a statement, whether it is kept or not. -/
def Stmt.Ends : Stmt → Follow
  | .inl node => StmtEnds node
  | .inr _ => Lead

/-- What may follow a statement, and in a second reading of what was written that it is no item
that was kept unread. -/
def FormEnds (m : Mode) (form : Stmt) : Follow := Taken m form.isUnread form.Ends

/-- Statements are read the same again, kind by kind. -/
theorem stmtKind_replays (hg : ∀ m, Knot m size g g') (hleft : BareTypes g) (hright : PlainTypes g')
    (attrs : List Node) (start : MacroStart) :
    Replays m size 1 (FormEnds m) (stmtKind g attrs start) (stmtKind g' attrs start)
      fun u u' => macroStart u = start → StmtStart u u' := by
  have hcall : Replays m size 1 (FormEnds m) (callStmt attrs >>= fun node => pure (.inl node))
      (callStmt attrs >>= fun node => pure (.inl node)) CallStart :=
    (callStmt_replays attrs).result fun node r r' (h : FormEnds m (.inl node) r r') =>
      h.2.toLoose.toLead
  have hexpr : Replays m size 1 (FormEnds m) (exprStmt g attrs >>= fun node => pure (.inl node))
      (exprStmt g' attrs >>= fun node => pure (.inl node)) Start :=
    (exprStmt_replays (hg m) attrs).result fun node r r' (h : FormEnds m (.inl node) r r') => h.2
  have hitem : Replays m size 1 (FormEnds m) (itemForm g attrs >>= fun form => pure (.inr form))
      (itemForm g' attrs >>= fun form => pure (.inr form)) DeclaredStart :=
    (itemForm_replays hg hleft hright attrs).result fun _ _ _ h => h
  cases start with
  | statement =>
      exact hcall.before fun u u' h hstart => h.stmtStart (by rw [hstart]; nofun)
  | item => exact hitem.before fun _ _ h _ => h.stmtStart
  | other =>
      refine (Replays.iteYes (fun _ _ h => h.toLead) ?_ (.choice ?_ ?_ fun _ _ h => h.item) :
        Replays _ _ _ _ _ _ StmtStart).before fun _ _ h _ => h
      · refine ((localStmt_replays (hg m) attrs).result fun _ _ _ _ => trivial).before
          fun u u' h _ => ?_
        obtain ⟨r, rfl⟩ := exists_of_kind_word (kind_of_isWord h.1)
        obtain ⟨r', rfl⟩ := exists_of_kind_word (h.2.kind_eq.symm.trans (kind_of_isWord h.1))
        exact ⟨.of_kind h.2 rfl, rfl, by
          rw [macroStart_of_keyword rfl, macroStart_of_keyword rfl]⟩
      · exact hitem.before fun _ _ h _ => h.stmtStart
      · exact hexpr.before fun u u' h hno => ⟨h.loose, (h.item hno).trans hno.symm, h.call⟩

/-- A statement from its attributes on, before it is known whether it is kept. -/
def stmtForm (g : Grammar) : Parser Stmt := do
  let attrs ← outerAttrs g
  let next := macroStart (← get).rest
  stmtKind g attrs next

/-- A statement's attributes and form are read the same again. -/
theorem stmtForm_replays (hg : ∀ m, Knot m size g g') (hleft : BareTypes g)
    (hright : PlainTypes g') :
    Replays m size 1 (FormEnds m) (stmtForm g) (stmtForm g') (Attributed StmtStart) := by
  refine (outerAttrs_replays (hg m) fun u u' h => .of_stable h.toLead).smaller.bind StmtStart
    (fun attrs => ?_) fun _ _ _ h => h
  exact .look (stmtKind_replays hg hleft hright attrs) fun _ _ h => h.call

theorem statement_eq (g : Grammar) : statement g = (get >>= fun start => stmtForm g >>= fun form =>
    match form with
    | .inl node => pure node
    | .inr (attrs, found) => finish start attrs found) := by
  unfold statement stmtForm
  refine bind_congr fun start => ?_
  simp only [bind_assoc]
  refine bind_congr fun attrs => bind_congr fun cursor => ?_
  unfold stmtKind
  cases macroStart cursor.rest with
  | statement =>
      simp only [callStmt, bind_assoc, pure_bind]
  | item =>
      simp only [itemForm, bind_assoc, pure_bind]
      rfl
  | other =>
      simp only [itemForm, bind_assoc, ite_bind, pure_bind, bind_pure]
      rfl

/-- Statements are read the same again. -/
theorem statement_replays (hg : ∀ m, Knot m size g g') (hleft : BareTypes g)
    (hright : PlainTypes g') :
    Replays m size 1 StmtEnds (statement g) (statement g') (Attributed StmtStart) := by
  have hform : ∀ m, Replays m size 1 (FormEnds m) (stmtForm g) (stmtForm g')
      (Attributed StmtStart) := fun m => stmtForm_replays hg hleft hright
  rw [statement_eq, statement_eq]
  refine .keepingEach Stmt.isUnread (fun form hread => ?_) (fun form hunread => ?_)
    (fun _ => (hform .written).after fun _ _ _ h => ⟨fun _ => h.1, h.2⟩)
    ((hform .verbatim).after fun _ _ _ h => ⟨nofun, h⟩)
  · rcases form with node | ⟨attrs, _ | _⟩
    · exact ⟨node, fun _ => rfl, fun _ _ h => h⟩
    · exact ⟨_, fun _ => rfl, fun _ _ h => h.toLoose.toLead⟩
    · cases hread
  · rcases form with node | ⟨attrs, _ | _⟩
    · cases hunread
    · cases hunread
    · exact ⟨id, fun start => (bind_pure _).symm, fun _ _ _ h => h.toLoose.toLead⟩

/-! ## Blocks -/

/-- A statement or what is left of a block comes next. -/
structure BlockRest (u u' : List Token) : Prop extends Loose u u' where
  inner : isInnerAttr u' = false

theorem BlockRest.of_plain (h : Loose u u') (hno : isOp "#" u = false) : BlockRest u u' :=
  ⟨h, isInnerAttr_of_lead h.toLead hno⟩

theorem BlockRest.of_atEnd (h : AtEnd u u') : BlockRest u u' := by
  obtain ⟨rfl, rfl⟩ := h
  exact .of_plain (.of_kind (.refl []) rfl) rfl

theorem BlockRest.of_statement (h : Attributed StmtStart u u') : BlockRest u u' := by
  refine h.elim (fun hhash h => ⟨.of_kind h.toLead ?_, h.inner⟩) fun hno h => .of_plain h.toLoose hno
  rw [kind_of_isOp (rfl : "#".toList = ['#']) (by decide) hhash]
  rfl

/-- A part of a block: a statement or a semicolon. -/
def blockPart (g : Grammar) : Parser (Option Node) := do
  if ← op? ";" then return some (.exprStmt (.verbatim []) true)
  else if ← atEnd then return none
  else
    let node ← statement g
    require (!mustBeLast node || (← atEnd))
    return some node

/-- A statement of a block is read the same again, and so is whether it must be the last. -/
theorem blockStmt_replays (hg : ∀ m, Knot m size g g') (hleft : BareTypes g)
    (hright : PlainTypes g') :
    Replays m size 1 (OnSome (fun _ => BlockRest) AtEnd)
      (statement g >>= fun node => atEnd >>= fun ended => require (!mustBeLast node || ended) >>=
        fun _ => pure (some node))
      (statement g' >>= fun node => atEnd >>= fun ended => require (!mustBeLast node || ended) >>=
        fun _ => pure (some node)) (Attributed StmtStart) := by
  refine (statement_replays hg hleft hright).keepEach StmtEnds (fun node => ?_) fun _ _ _ h => h
  have hpure : Replays m size 0 (OnSome (fun _ => BlockRest) AtEnd) (pure (some node))
      (pure (some node)) BlockRest := .pure _
  have hasked : Replays m size 0 (OnSome (fun _ => BlockRest) AtEnd)
      (peek List.isEmpty >>= fun ended => require (!mustBeLast node || ended) >>= fun _ =>
        pure (some node))
      (peek List.isEmpty >>= fun ended => require (!mustBeLast node || ended) >>= fun _ =>
        pure (some node)) BlockRest :=
    hpure.demand (fun ended => !mustBeLast node || ended) fun u u' h hwanted => ?_
  refine (hasked.noting (Q := fun u => mustBeLast node = true → u = []) ?_).before ?_
  rotate_left 2
  · rwa [← (Stable.eq_of_lead h.toLead : List.isEmpty u = _)]
  · intro c a d hrun hlast
    rw [peek_bind_apply, hlast] at hrun
    obtain ⟨_, _, hrequire, -⟩ := bind_eq_some.mp hrun
    cases hempty : c.rest.isEmpty with
    | true => exact List.isEmpty_iff.mp hempty
    | false =>
        rw [hempty] at hrequire
        cases hrequire
  · rintro u u' ⟨hlast, h⟩
    refine ⟨h.toLoose, fun hmust => ?_⟩
    obtain rfl := hlast hmust
    exact ⟨rfl, List.isEmpty_iff.mp (Stable.eq_of_lead h.toLead).symm⟩

theorem blockPart_eq (g : Grammar) : blockPart g = (peek (isOp ";") >>= fun b => if b = true then
      op ";" >>= fun _ => pure (some (.exprStmt (.verbatim []) true))
    else peek List.isEmpty >>= fun b => if b = true then pure none
      else statement g >>= fun node => atEnd >>= fun ended =>
        require (!mustBeLast node || ended) >>= fun _ => pure (some node)) := by
  rw [blockPart, op?_bind]
  rfl

/-- One part of a block is read the same again. -/
theorem blockPart_replays (hg : ∀ m, Knot m size g g') (hleft : BareTypes g)
    (hright : PlainTypes g') :
    Replays m size 0 (OnSome (fun _ => BlockRest) AtEnd) (blockPart g) (blockPart g') BlockRest := by
  have hlead : ∀ u u', BlockRest u u' → Lead u u' := fun _ _ h => h.toLead
  rw [blockPart_eq, blockPart_eq]
  refine .ite hlead ?_ (.ite hlead ?_ ?_)
  · refine ((semicolon_replays _).after fun _ _ _ _ => trivial).before fun u u' h => ?_
    have hkind : kind u = .punct ';' := kind_of_isOp rfl (by decide) h.1
    exact .of_plain (.of_kind h.2 (by rw [hkind]; rfl))
      (isOp_of_kind rfl (by decide) (by rw [hkind]; decide))
  · exact (Replays.pure none).before fun _ _ h => .of_atEnd h
  · exact (blockStmt_replays hg hleft hright).forget.before fun _ _ h => .of_statement h

/-- Each part of a block reads something. -/
theorem blockPart_moves (hg : ∀ m, Knot m size g g') (hleft : BareTypes g)
    (hright : PlainTypes g') : Moves m (blockPart g) := by
  have hempty : Replays m size 1 (fun _ => Any)
      (op ";" >>= fun _ => pure (some (Node.exprStmt (.verbatim []) true)))
      (op ";" >>= fun _ => pure (some (Node.exprStmt (.verbatim []) true))) Lead :=
    (op_closed ";").wrap
  rw [blockPart_eq]
  exact .peek fun _ => .ite (.of_replays hempty) (.peek fun _ =>
    .ite .none (.of_replays (blockStmt_replays hg hleft hright)))

/-- The statements of a block are read the same again. -/
theorem statements_replays (hg : ∀ m, Knot m size g g') (hleft : BareTypes g)
    (hright : PlainTypes g') :
    Replays m size 0 (fun _ => AtEnd) (statements g) (statements g') InnerStart :=
  ((repeated_replays (blockPart_replays hg hleft hright)
    (blockPart_moves hg hleft hright).advances).wrap).before fun _ _ h => ⟨h.toLead, h.inner⟩

end ActionUnits.Source
