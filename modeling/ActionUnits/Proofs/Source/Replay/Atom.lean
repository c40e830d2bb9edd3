import ActionUnits.Proofs.Source.Replay.Closure

/-! # Replaying operands without operators

An operand is told apart by its first tokens, and so is a value that may be
missing after `break` and `return`. What is asked about the tokens after a word
is part of how an expression starts.
-/

namespace ActionUnits.Source

variable {m : Mode} {size : Nat} {g g' : Grammar} {u u' : List Token}

/-! ## Struct expressions -/

theorem CommaEnds.edge (h : CommaEnds u u') : Edge u u' :=
  h.elim (fun h => h.edge) fun h => h.2.edge_of_comma h.1

/-- Both readings go on with a field of a struct expression. -/
theorem fieldValue_replays (hg : Knot m size g g') :
    Replays m size 1 (fun _ => CommaEnds) (fieldValue g) (fieldValue g')
      (Attributed FieldStart) := by
  have hvalue : ∀ attrs member, Replays m size 0 (fun _ => CommaEnds)
      (op ":" >>= fun _ => g (.expr true) >>= fun value =>
        pure (Node.fieldValue attrs member (some value)))
      (op ":" >>= fun _ => g' (.expr true) >>= fun value =>
        pure (Node.fieldValue attrs member (some value))) (ColonThen m Start) :=
    fun attrs member => (op_colon_replays Start fun _ _ h _ => h.toLead).forget.bind _
      (fun _ => (hg.expr true).forget.result fun _ _ _ h => h.edge) fun _ _ _ h => h
  unfold fieldValue
  refine (outerAttrs_replays hg fun u u' h hno => (h.answer fun _ => rfl).trans hno).smaller.bind _
    (fun attrs => ?_) fun _ _ _ h => h
  refine @member_bind _ _ (Either (isOp ":") (ColonThen m Start) CommaEnds) _ _ _ _ _ (fun name => ?_)
    fun index => .ignore (hvalue attrs _)
  refine .choice ?_ ?_ fun u u' h => ?_
  · exact (hvalue attrs _).before fun u u' h hyes => .yes hyes h
  · exact (Replays.pure _).before fun u u' h hno => .no hno h
  · refine h.elim (fun hyes h => ?_) fun _ h => (Stable.eq_of_lead h.lead).symm
    exact ((isOp_iff_kind rfl (by decide)).mpr h.kind_right).trans hyes.symm

/-- Both readings go on with a field, with two dots, or not at all. -/
structure FieldsAlike (u u' : List Token) : Prop where
  ended : u'.isEmpty = u.isEmpty
  dots : isOp ".." u' = isOp ".." u

theorem FieldsAlike.of_lead (h : Lead u u') : FieldsAlike u u' :=
  ⟨(Stable.eq_of_lead h).symm, h.dots_eq.symm⟩

theorem FieldsAlike.of_field (h : Attributed FieldStart u u') : FieldsAlike u u' :=
  h.elim (fun _ h => .of_lead h.toLead) fun _ h =>
    ⟨h.answer fun _ => rfl, (h.not_isOp rfl (by decide)).2.trans (h.not_isOp rfl (by decide)).1.symm⟩

theorem structFields_go_replays (hg : Knot m size g g') (path : Node) (fuel : Nat)
    (fields : List Node) :
    Fueled m size 0 1 (fun _ => AtEnd) (structFields.go g path fuel fields)
      (fun fuel => structFields.go g' path fuel fields) FieldsAlike := by
  induction fuel generalizing fields with
  | zero => exact .failure
  | succ fuel ih =>
      refine .step (.choice ?_ (.before (.choiceOp ?_ ?_ fun u u' (h : FieldsAlike u u') => h.dots)
        fun _ _ h _ => h) fun u u' h => h.ended)
      · exact (Fueled.of_replays (.pure _)).before fun _ _ h _ => .of_lead h.lead
      · refine (Fueled.of_replays (op_dots.forget.bind (fun u u' => u'.isEmpty = u.isEmpty) (fun _ =>
          .choice ?_ ?_ fun _ _ h => h) fun _ _ _ _ => trivial)).before fun _ _ h _ => .of_lead h
        · exact (Replays.pure _).before fun _ _ h _ => (Stable.eq_of_lead h.lead).symm
        · exact ((hg.expr true).forget.result fun _ _ _ h => h.edge).before
            fun _ _ h _ => (Stable.eq_of_lead h.toLead).symm
      · refine (Fueled.bind (fieldValue_replays hg) (fun _ => CommaEnds) (fun field => .choice ?_ ?_
          fun u u' h => (Stable.eq_of_lead h.lead).symm) (fun _ _ _ h => h) (Nat.le_refl 1)).before
          fun _ _ h _ => .of_field h
        · refine (ih _).before fun u u' h hempty => .inl ⟨List.isEmpty_iff.mp hempty, ?_⟩
          exact List.isEmpty_iff.mp (h.ended.trans hempty)
        · refine (Fueled.bind (op_known ",") (fun _ => FieldsAlike) (fun _ => ih _)
            (fun _ _ _ _ => trivial) (Nat.le_succ 1)).before fun u u' h _ => .inr h

/-- The fields of a struct expression are read the same again. -/
theorem structFields_replays (hg : Knot m size g g') (path : Node) :
    Replays m size 0 (fun _ => AtEnd) (structFields g path) (structFields g' path) FieldsAlike :=
  Fueled.replays fun fuel => structFields_go_replays hg path fuel []

/-! ## Paths -/

/-- After a path, an exclamation mark is told apart in the same way. -/
def AfterPath : Follow := fun u u' => Lead u u' ∧ isBang u' = isBang u

theorem Edge.afterPath (h : Edge u u') : AfterPath u u' := by
  refine ⟨h.toLead, ?_⟩
  rw [isBang, Peek.butNot, Peek.butNot, (Stable.eq_of_lead h.toLead : isOp "!" u = isOp "!" u'),
    h.ops "!=" (by decide)]

/-- Paths, and the macro calls and struct expressions that start with one, are read the same again.
-/
theorem pathExpr_replays (hg : Knot m size g g') (braces : Bool) :
    Replays m size 1 (fun _ => Edge) (pathExpr g braces) (pathExpr g' braces) Start := by
  have hstruct : ∀ path : Node, Replays m size 0 (fun _ => Edge)
      (peek (isGroup .brace) >>= fun opens => if (braces && opens) = true then
        group .brace (structFields g path) else pure path)
      (peek (isGroup .brace) >>= fun opens => if (braces && opens) = true then
        group .brace (structFields g' path) else pure path) Edge := by
    intro path
    refine .each (fun opens => .fixed (fun _ => ?_) fun _ => ?_)
      fun u u' h => (Stable.eq_of_lead h.toLead).symm
    · exact ((group_edge .brace (structFields_replays hg path) fun _ => atEnd_nil).smaller.forget.after
        fun _ _ _ _ => trivial).before fun _ _ h _ => h
    · exact (Replays.pure path).before fun _ _ h _ => h
  have hrun : Replays m size 1 (fun _ => Edge) (pathExpr g braces) (pathExpr g' braces)
      (QualifiedStart AfterPath) := by
    unfold pathExpr
    refine (qualifiedPath_replays hg true fun r r' h => h.1.pathEnds).smaller.keep AfterPath
      (fun path => .each (fun bang => ?_) fun u u' h => h.2) fun _ _ _ h => h
    have hplain : Replays m size 0 (fun _ => Edge) _ _ fun u u' => isBang u = bang → AfterPath u u' :=
      (hstruct path).before fun _ _ h _ => h.afterPath
    cases path.plainPath? with
    | none => exact hplain
    | some plain =>
        cases bang with
        | false => exact hplain
        | true =>
            refine ((macroArguments_replays plain).forget.result fun _ _ _ _ => trivial).before ?_
            exact fun u u' h _ => ⟨h.toLead, h.right.trans h.left.symm⟩
  refine (hrun.comparing (Q := fun u u' => macroStart u' = macroStart u) ?_).before
    fun u u' h => .of_path (fun _ _ h => h.1) h.2 h.1
  intro c e d c' d' hfirst hsecond hedge
  rw [macroStart_of_pathExpr hfirst, macroStart_of_pathExpr hsecond]
  exact callForm_of_lead e hedge.toLead

/-! ## Lists in brackets -/

/-- Further elements of a tuple are read the same again. -/
theorem moreExprs_replays (hg : Knot m size g g') (f : List Node → Node) :
    Replays m size 0 (fun _ => AtEnd)
      (op "," >>= fun _ => commaList (g (.expr true)) >>= fun more => pure (f more))
      (op "," >>= fun _ => commaList (g' (.expr true)) >>= fun more => pure (f more))
      fun u u' => isOp "," u = true ∧ Lead u u' :=
  (op_known ",").forget.bind Lead (fun _ => (exprList_replays hg).wrap) fun _ _ _ _ => trivial

/-- Parentheses and tuples are read the same again. -/
theorem parenExpr_replays (hg : Knot m size g g') :
    Replays m size 1 (fun _ => Any) (parenExpr g) (parenExpr g')
      fun u u' => kind u = .group .paren ∧ Lead u u' := by
  unfold parenExpr
  refine (group_closed .paren (?_ : Replays m size 0 (fun _ => AtEnd) _ _ Lead)
    fun _ => atEnd_nil).smaller.noting kind_of_group
  refine .ite (fun _ _ h => h) ((Replays.pure _).before fun _ _ h => h.lead) ?_
  refine ((hg.expr true).forget.bind CommaEnds (fun first => .choice ?_ ?_
    fun u u' h => (Stable.eq_of_lead h.lead).symm) fun _ _ _ h => h.edge).before
    fun _ _ h => h.toLead
  · exact (Replays.pure _).before fun _ _ h _ => .inl h
  · exact (moreExprs_replays hg fun more => .tuple (first :: more)).before fun _ _ h _ => .inr h

/-- Arrays are read the same again. -/
theorem arrayExpr_replays (hg : Knot m size g g') :
    Replays m size 1 (fun _ => Any) (arrayExpr g) (arrayExpr g')
      fun u u' => kind u = .group .bracket ∧ Lead u u' := by
  unfold arrayExpr
  refine (group_closed .bracket (?_ : Replays m size 0 (fun _ => AtEnd) _ _ Lead)
    fun _ => atEnd_nil).smaller.noting kind_of_group
  refine .ite (fun _ _ h => h) ((Replays.pure _).before fun _ _ h => h.lead) ?_
  refine ((hg.expr true).forget.bind Edge (fun first => .ite (fun _ _ h => h.toLead) ?_
    (.op? (fun _ _ h => h.toLead) ?_ ?_)) fun _ _ _ h => h).before fun _ _ h => h.toLead
  · exact (Replays.pure _).before fun _ _ h => h.edge
  · exact (moreExprs_replays hg fun more => .array (first :: more)).before
      fun u u' h => h.2.edge_of_comma h.1
  · refine ((op_known ";").forget.bind Start (fun _ => (hg.expr true).forget.result
      fun _ _ _ h => h.edge) fun _ _ _ _ => trivial).before fun u u' h => h.2.edge ?_
    rw [kind_of_isOp (rfl : ";".toList = [';']) (by decide) h.1]
    rfl

/-! ## Values that may be missing -/

/-- The operators that tell whether an expression starts. -/
def startMarks : List (String × List String) :=
  [("!", ["!="]), ("-", ["-=", "->"]), ("*", ["*="]), ("|", ["|="]), ("&", ["&="]),
    ("<", ["<=", "<<="])]

/-- Whether an expression starts with what needs no further look. -/
def isPlainExprStart : Peek :=
  anyOf [isAnyWord.butNot (isWord "as"), isGroup .paren, isGroup .bracket, isGroup .brace,
    isLiteral, isOp "..", isOp "::", isLifetime, isOp "#"]

instance : Stable isPlainExprStart :=
  inferInstanceAs (Stable (anyOf [isAnyWord.butNot (isWord "as"), isGroup .paren, isGroup .bracket,
    isGroup .brace, isLiteral, isOp "..", isOp "::", isLifetime, isOp "#"]))

/-- Whether an operator comes next that starts an expression, and none of the longer ones. -/
def isMark (tokens : List Token) (mark : String × List String) : Bool :=
  isOp mark.1 tokens && !isAnyOp mark.2 tokens

/-- An expression starts plainly or with one of a few marks. -/
theorem isExprStart_eq (u : List Token) :
    isExprStart u = (isPlainExprStart u || startMarks.any (isMark u)) := by
  simp only [isExprStart, isPlainExprStart, startMarks, isMark, anyOf, isAnyOp, Peek.butNot,
    List.any_cons, List.any_nil, Bool.or_false]
  ac_rfl

theorem startMarks_single : ∀ mark ∈ startMarks,
    mark.1.toList ∈ ['!', '-', '*', '|', '&', '<'].map ([·]) ∧ ∀ text ∈ mark.2, text ∈ longOps := by
  decide

theorem Lead.mark_eq (h : Lead u u') {mark : String × List String} (hmem : mark ∈ startMarks) :
    isOp mark.1 u' = isOp mark.1 u := by
  obtain ⟨char, hchar, htext⟩ := List.mem_map.mp (startMarks_single mark hmem).1
  have hquote : char ≠ '\'' := by
    rintro rfl
    revert hchar
    decide
  exact ((Headed.single htext.symm hquote).eq_of_kind_eq h.kind_eq).symm

/-- Less may be joined to what starts an expression. -/
theorem Start.isExprStart (h : Start u u') (hyes : isExprStart u = true) :
    isExprStart u' = true := by
  rw [isExprStart_eq, Bool.or_eq_true] at hyes ⊢
  refine hyes.imp (fun hplain => (Stable.eq_of_lead h.toLead).symm.trans hplain) fun hmarks => ?_
  obtain ⟨mark, hmem, hmark⟩ := List.any_eq_true.mp hmarks
  obtain ⟨hop, hnone⟩ := (Bool.and_eq_true _ _).mp hmark
  refine List.any_eq_true.mpr ⟨mark, hmem, (Bool.and_eq_true _ _).mpr ⟨?_, ?_⟩⟩
  · exact (h.mark_eq hmem).trans hop
  · rw [Bool.not_eq_true'] at hnone ⊢
    refine Bool.eq_false_iff.mpr fun hany => ?_
    obtain ⟨text, htext, hlonger⟩ := List.any_eq_true.mp hany
    have hlong := (startMarks_single mark hmem).2 text htext
    have hthere : isAnyOp mark.2 u = true := List.any_eq_true.mpr ⟨text, htext, h.ops text hlong hlonger⟩
    exact absurd (hnone.symm.trans hthere) (by decide)

/-- At an edge it is clear whether an expression starts. -/
theorem Edge.isExprStart_eq (h : Edge u u') : isExprStart u' = isExprStart u := by
  have hmarks : startMarks.any (isMark u') = startMarks.any (isMark u) := by
    rw [Bool.eq_iff_iff, List.any_eq_true, List.any_eq_true]
    refine exists_congr fun mark => and_congr_right fun hmem => ?_
    have hlonger : isAnyOp mark.2 u' = isAnyOp mark.2 u := by
      rw [isAnyOp, isAnyOp, Bool.eq_iff_iff, List.any_eq_true, List.any_eq_true]
      exact exists_congr fun text => and_congr_right fun htext => by
        rw [h.ops text ((startMarks_single mark hmem).2 text htext)]
    rw [isMark, isMark, h.mark_eq hmem, hlonger]
  rw [Source.isExprStart_eq, Source.isExprStart_eq, hmarks,
    (Stable.eq_of_lead h.toLead : isPlainExprStart u = isPlainExprStart u')]

/-- Whether a value follows, both readings see alike. -/
def ValueAlike : Follow := fun u u' => Lead u u' ∧ isExprStart u' = isExprStart u

theorem Edge.valueAlike (h : Edge u u') : ValueAlike u u' := ⟨h.toLead, h.isExprStart_eq⟩

theorem Start.valueAlike (h : Start u u') (hyes : Source.isExprStart u = true) : ValueAlike u u' :=
  ⟨h.toLead, (h.isExprStart hyes).trans hyes.symm⟩

/-- Jumps with an optional value are read the same again. -/
theorem jump_replays (hg : Knot m size g g') (keyword : String) (make : Option Node → Node) :
    Replays m size 1 (fun _ => Edge) (jump g keyword make) (jump g' keyword make)
      (Keyword keyword) := by
  unfold jump
  refine (word_then keyword Lead).keep ValueAlike (fun _ => ?_) fun _ _ _ h => h.1
  refine .choiceWhen ?_ ?_ fun u u' h => h.2
  · exact (hg.expr true).forget.wrap.before fun u u' h hyes => h.valueAlike hyes
  · exact (Replays.pure _).before fun u u' h _ => h.valueAlike

/-- The value of a `break` is read the same again. -/
theorem breakValue_replays (hg : Knot m size g g') (braces : Bool) (label : Option Ident) :
    Replays m size 0 (fun _ => Edge)
      (peek isExprStart >>= fun starts => peek (isGroup .brace) >>= fun opens =>
        if (starts && (braces || !opens)) = true then
          g (.expr true) >>= fun value => pure (Node.breakExpr label (some value))
        else pure (.breakExpr label none))
      (peek isExprStart >>= fun starts => peek (isGroup .brace) >>= fun opens =>
        if (starts && (braces || !opens)) = true then
          g' (.expr true) >>= fun value => pure (Node.breakExpr label (some value))
        else pure (.breakExpr label none)) ValueAlike := by
  refine .each (fun starts => .before (.each (fun opens => .fixed (fun hyes => ?_) fun _ => ?_)
    fun u u' h => (Stable.eq_of_lead h.1).symm : Replays _ _ _ _ _ _ fun u u' => Lead u u' ∧
      (isExprStart u = starts → ValueAlike u u')) fun u u' h => h.2) fun u u' h => h.2
  · refine (hg.expr true).forget.wrap.before fun u u' h _ => ⟨h.toLead, fun hstarts => ?_⟩
    exact h.valueAlike (hstarts.trans ((Bool.and_eq_true _ _).mp hyes).1)
  · exact (Replays.pure _).before fun u u' h _ => ⟨h.toLead, fun _ => h.valueAlike⟩

/-- Breaks are read the same again. -/
theorem breakExpr_replays (hg : Knot m size g g') (braces : Bool) :
    Replays m size 1 (fun _ => Edge) (breakExpr g braces) (breakExpr g' braces)
      (Keyword "break") := by
  have hlabel : ∀ label : Option Ident, Replays m size 0 (fun _ => Edge)
      (peek (isOp ":") >>= fun colon => require (!(label.isSome && colon)) >>= fun _ =>
        peek isExprStart >>= fun starts => peek (isGroup .brace) >>= fun opens =>
          if (starts && (braces || !opens)) = true then
            g (.expr true) >>= fun value => pure (Node.breakExpr label (some value))
          else pure (.breakExpr label none))
      (peek (isOp ":") >>= fun colon => require (!(label.isSome && colon)) >>= fun _ =>
        peek isExprStart >>= fun starts => peek (isGroup .brace) >>= fun opens =>
          if (starts && (braces || !opens)) = true then
            g' (.expr true) >>= fun value => pure (Node.breakExpr label (some value))
          else pure (.breakExpr label none)) Lead := by
    intro label
    refine (Replays.demand (fun colon => !(label.isSome && colon))
      (breakValue_replays hg braces label) fun u u' h hwanted => ?_).before fun _ _ h => h.1
    rw [← (Stable.eq_of_lead h.1 : isOp ":" u = isOp ":" u')]
    exact hwanted
  unfold breakExpr
  refine (word_then "break" Lead).keep Lead (fun _ => ?_) fun _ _ _ h => h
  exact .lifetime? (fun _ _ h => h) (fun name => (hlabel (some name)).before fun _ _ _ => trivial)
    (hlabel none) fun _ _ h _ => h

end ActionUnits.Source
