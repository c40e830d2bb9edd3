import ActionUnits.Proofs.Source.Replay.Trailer

/-! # Replaying closures

The words in front of a closure may each be missing. They are told from blocks,
loops and constants by the tokens after them, which both readings see alike.
-/

namespace ActionUnits.Source

variable {m : Mode} {size : Nat} {g g' : Grammar} {u u' : List Token}

/-! ## Parameters -/

def ParamEnds : Follow := fun u u' => (isOp "," u = true ∨ isOp "|" u = true) ∧ Lead u u'

theorem ParamEnds.kind (h : ParamEnds u u') : kind u = .punct ',' ∨ kind u = .punct '|' :=
  h.1.imp (kind_of_isOp (rfl : ",".toList = [',']) (by decide))
    (kind_of_isOp (rfl : "|".toList = ['|']) (by decide))

theorem ParamEnds.typeEnds (h : ParamEnds u u') : TypeEnds u u' :=
  h.2.typeEnds (by rcases h.kind with hkind | hkind <;> rw [hkind] <;> rfl)

/-- A colon with a type after it, or the end of the parameter. -/
def PatternThenType (m : Mode) : Follow :=
  Either (isOp ":") (ColonThen m (TypeStart ParamEnds)) ParamEnds

theorem PatternThenType.singlePatternEnds (h : PatternThenType m u u') : SinglePatternEnds u u' :=
  h.elim (fun _ h => (h.toColon.patternEnds h.tail.path).toSinglePatternEnds) fun _ h =>
    h.2.singlePatternEnds (by rcases h.kind with hkind | hkind <;> rw [hkind] <;> decide)

/-- Parameters of closures are read the same again. -/
theorem closureParam_replays (hg : Knot m size g g') :
    Replays m size 1 (fun _ => ParamEnds) (closureParam g) (closureParam g')
      (Attributed (SingleStart (PatternThenType m))) := by
  unfold closureParam
  refine (outerAttrs_replays hg fun u u' h => .of_stable h.toLead).smaller.bind _ (fun attrs => ?_)
    fun _ _ _ h => h
  refine (hg.singlePattern (PatternThenType m) fun _ _ h => h.singlePatternEnds).keep _
    (fun pattern => ?_) fun _ _ _ h => h
  refine .choiceOp ?_ ?_ fun u u' h => ?_
  · refine ((op_colon_replays (TypeStart ParamEnds) fun _ _ h _ => h.toLead).forget.bind _ (fun _ => ?_)
      fun _ _ _ h => h).before fun u u' h hyes => .yes hyes h
    exact (hg.ty true ParamEnds fun _ _ h => h.typeEnds).forget.wrap
  · exact (Replays.pure _).before fun u u' h hno => .no hno h
  · refine h.elim (fun hyes h => ?_) fun _ h => (Stable.eq_of_lead h.2).symm
    exact ((isOp_iff_kind rfl (by decide)).mpr h.kind_right).trans hyes.symm

/-- After the parameters, up to the closing bar. -/
def BarEnds : Follow := fun u u' => isOp "|" u = true ∧ Lead u u'

/-- The parameters of a closure are read the same again, up to the closing bar. -/
theorem closureParams_replays (hg : Knot m size g g') :
    Replays m size 0 (fun _ => BarEnds) (separated "," (isOp "|") (closureParam g))
      (separated "," (isOp "|") (closureParam g')) Lead :=
  (separated_replays "," (isOp "|") BarEnds (by decide) (closureParam_replays hg)
    (fun _ _ hno h => (Stable.eq_of_lead (h.lead fun _ _ h => h.toLead)).symm.trans hno)
    (fun _ _ hstop h => (Stable.eq_of_lead h.2).symm.trans hstop)
    (fun _ _ hstop h => ⟨.inr hstop, h.2⟩) (fun _ _ hcomma h => ⟨.inl hcomma, h⟩)).before
    fun _ _ h => h.elim (fun _ h => h.2) fun _ h => h.lead fun _ _ h => h.toLead

/-! ## Closures -/

/-- What comes after the parameters: an arrow with a type and a block, or an expression. -/
theorem closureBody_replays (hg : Knot m size g g') (braces : Bool) (f : Option Node → Node → Node) :
    Replays m size 0 (fun _ => Edge)
      (op? "->" >>= fun arrow => if arrow = true then
          g (.ty true) >>= fun output => blockIn g >>= fun body =>
            pure (f (some output) (.blockExpr none body))
        else g (.expr braces) >>= fun body => pure (f none body))
      (op? "->" >>= fun arrow => if arrow = true then
          g' (.ty true) >>= fun output => blockIn g' >>= fun body =>
            pure (f (some output) (.blockExpr none body))
        else g' (.expr braces) >>= fun body => pure (f none body)) Lead := by
  refine .before (.choiceOp ?_ ?_ ?_ : Replays _ _ _ _ _ _
    (Either (isOp "->") (fun u u' => Lead u u' ∧ isOp "->" u' = true) Start))
    fun u u' h => h.elim (fun _ h => h.1) fun _ h => h.toLead
  · refine (op_arrow.forget.bind (TypeStart Edge) (fun _ => ?_) fun _ _ _ _ => trivial).before
      fun u u' h hyes => .yes hyes h
    refine (hg.ty true Edge fun _ _ h => h.typeEnds).forget.bind Edge (fun output => ?_)
      fun _ _ _ h => h
    exact (blockIn_edge hg).forget.result fun _ _ _ _ => trivial
  · refine (hg.expr braces).forget.wrap.before fun u u' h hno => .no hno h
  · refine fun u u' h => h.elim (fun hyes h => h.2.trans hyes.symm) fun hno h => ?_
    have hnone : isOp "->" u' ≠ true := fun hyes =>
      absurd (hno.symm.trans (h.ops "->" (by decide) hyes)) (by decide)
    rw [hno, Bool.eq_false_iff.mpr hnone]

/-- Both readings go on with a closure, after the first words it may have. -/
def Bars (m : Mode) : Follow := OpThen m "|" Lead

theorem Bars.lead (h : Bars m u u') : Lead u u' := OpThen.lead (by decide) h

/-- A closure after the word `async`. -/
def MoveStart (m : Mode) : Follow := Marked "move" (Bars m)

/-- A closure after the word `static`. -/
def AsyncStart (m : Mode) : Follow := Marked "async" (MoveStart m)

/-- A closure after the word `const`. -/
def StaticStart (m : Mode) : Follow := Marked "static" (AsyncStart m)

/-- A closure after the lifetimes that it introduces. -/
def ConstStart (m : Mode) : Follow := Marked "const" (StaticStart m)

theorem MoveStart.lead (h : MoveStart m u u') : Lead u u' := Marked.lead (fun _ _ h => h.lead) h
theorem AsyncStart.lead (h : AsyncStart m u u') : Lead u u' := Marked.lead (fun _ _ h => h.lead) h
theorem StaticStart.lead (h : StaticStart m u u') : Lead u u' := Marked.lead (fun _ _ h => h.lead) h
theorem ConstStart.lead (h : ConstStart m u u') : Lead u u' := Marked.lead (fun _ _ h => h.lead) h

/-- Both readings go on with a closure. -/
def ClosureStart (m : Mode) : Follow :=
  Either (isWord "for") (WordThen fun r r' => Lead r r' ∧ isGenericsStart r' = true) (ConstStart m)

/-- Closures are read the same again. -/
theorem closure_replays (hg : Knot m size g g') (braces : Bool) :
    Replays m size 1 (fun _ => Edge) (closure g braces) (closure g' braces) (ClosureStart m) := by
  have hwords : ∀ lifetimes : Option (List Node), Replays m size 1 (fun _ => Edge)
      (do
        let isConst ← word? "const"
        let isStatic ← word? "static"
        let isAsync ← word? "async"
        let move ← word? "move"
        op "|"
        let params ← separated "," (isOp "|") (closureParam g)
        op "|"
        if ← op? "->" then
          let output ← g (.ty true)
          let body := .blockExpr none (← blockIn g)
          return Node.closure lifetimes isConst isStatic isAsync move params (some output) body
        else
          return .closure lifetimes isConst isStatic isAsync move params none (← g (.expr braces)))
      (do
        let isConst ← word? "const"
        let isStatic ← word? "static"
        let isAsync ← word? "async"
        let move ← word? "move"
        op "|"
        let params ← separated "," (isOp "|") (closureParam g')
        op "|"
        if ← op? "->" then
          let output ← g' (.ty true)
          let body := .blockExpr none (← blockIn g')
          return Node.closure lifetimes isConst isStatic isAsync move params (some output) body
        else
          return .closure lifetimes isConst isStatic isAsync move params none (← g' (.expr braces)))
      (ConstStart m) := by
    intro lifetimes
    -- Each of the four words may be there or not, and what follows starts alike in both cases.
    refine mark_replays "const" (fun isConst => mark_replays "static" (fun isStatic =>
      mark_replays "async" (fun isAsync => mark_replays "move" (fun move => ?_) fun _ _ h => h.lead)
        fun _ _ h => h.lead) fun _ _ h => h.lead) fun _ _ h => h.lead
    refine (op_then "|" Lead).keep Lead (fun _ => ?_) fun _ _ _ h => h
    refine (closureParams_replays hg).bind BarEnds (fun params => ?_) fun _ _ _ h => h
    refine (op_known "|").forget.bind Lead (fun _ => ?_) fun _ _ _ _ => trivial
    exact closureBody_replays hg braces fun output body =>
      .closure lifetimes isConst isStatic isAsync move params output body
  unfold closure boundLifetimes?
  refine .choiceWhen ?_ ?_ fun u u' h => ?_
  · exact ((boundLifetimes_replays hg).smaller.forget.bind Any (fun lifetimes =>
      (hwords (some lifetimes)).before fun _ _ _ => trivial) fun _ _ _ h => h).before
      fun u u' h hyes => .yes hyes h
  · exact (hwords none).before fun u u' h hno => .no hno h
  · exact h.elim (fun _ h => (Stable.eq_of_lead h.lead).symm)
      fun _ h => (Stable.eq_of_lead h.lead).symm

/-! ## Where a closure starts -/

theorem Bars.start (h : Bars m u u') : Start u u' := by
  refine .of_op (rfl : "|".toList = ['|']) rfl h.lead h (fun _ _ h => h) fun long hmem c cs hlong => ?_
  have hlonger : ∀ long ∈ longOps, long.toList.head? = some '|' → long.toList.length = 2 := by decide
  have hlength := hlonger long hmem (by rw [hlong]; rfl)
  rw [hlong] at hlength
  simpa using hlength

theorem WordThen.mono {Post Post' : Follow} (h : WordThen Post u u')
    (himp : ∀ r r', Post r r' → Post' r r') : WordThen Post' u u' := by
  obtain ⟨name, r, r', hu, hu', hpost⟩ := h
  exact ⟨name, r, r', hu, hu', himp r r' hpost⟩

/-- No brace comes second in what follows `async` in front of a closure. -/
theorem MoveStart.second_brace (h : MoveStart m u u') :
    second (isGroup .brace) u' = second (isGroup .brace) u := by
  refine h.elim (fun _ h => ?_) fun _ h => ?_
  · obtain ⟨name, r, r', rfl, rfl, hbars⟩ := h
    exact (Stable.eq_of_lead hbars.lead).symm
  · obtain ⟨joint, joint', r, r', rfl, rfl, -, hlead⟩ := h.single '|' rfl
    exact (Stable.eq_of_lead hlead).symm

theorem MoveStart.start (h : MoveStart m u u') : Start u u' :=
  h.elim (fun hyes h => .of_keyword ⟨hyes, h.mono fun _ _ h => h.lead⟩ rfl (by decide))
    fun _ h => h.start

theorem AsyncStart.start (h : AsyncStart m u u') : Start u u' := by
  refine h.elim (fun hyes h => .of_alike ⟨hyes, h.mono fun r r' h => ?_⟩ rfl) fun _ h => h.start
  exact ⟨h.lead, fun hname => absurd hname (by decide), fun hname => absurd hname (by decide),
    fun _ _ => h.second_brace⟩

theorem StaticStart.start (h : StaticStart m u u') : Start u u' :=
  h.elim (fun hyes h => .of_keyword ⟨hyes, h.mono fun _ _ h => h.lead⟩ rfl (by decide))
    fun _ h => h.start

/-- After `const async`, both readings see the same words of a function, or none. -/
theorem StaticStart.second_function (h : StaticStart m u u') (hasync : isWord "async" u = true) :
    second isFunctionWord u' = second isFunctionWord u := by
  have hkind := kind_of_isWord hasync
  have hstatic : isWord "static" u = false :=
    (Headed.eq_of_kind_eq hkind : isWord "static" u = isWord "static" [.word "async"])
  refine (h.2 hstatic).elim (fun _ h => ?_) fun hno _ => absurd (hasync.symm.trans hno) (by decide)
  obtain ⟨name, r, r', rfl, rfl, hmove⟩ := h
  exact (Stable.eq_of_lead hmove.lead).symm

theorem ConstStart.start (h : ConstStart m u u') : Start u u' := by
  refine h.elim (fun hyes h => .of_alike ⟨hyes, h.mono fun r r' h => ?_⟩ rfl) fun _ h => h.start
  exact ⟨h.lead, fun _ => h.second_function, fun hname => absurd hname (by decide),
    fun hname => absurd hname (by decide)⟩

theorem isGenericsStart_of_isClosureStart (hfor : isWord "for" u = true)
    (h : isClosureStart u = true) : isGenericsStart u.tail = true := by
  have hkind := kind_of_isWord hfor
  have hanswer : ∀ {question : Peek} [Headed question], question [.word "for"] = false →
      question u = false := fun hno => (Headed.eq_of_kind_eq hkind).trans hno
  have hbar : isOp "|" u = false := hanswer rfl
  have hmove : isWord "move" u = false := hanswer rfl
  have hconst : isWord "const" u = false := hanswer rfl
  have hstatic : isWord "static" u = false := hanswer rfl
  have hasync : isWord "async" u = false := hanswer rfl
  simpa [isClosureStart, isClosureStart.second', anyOf, Peek.and, Peek.butNot, hbar, hmove, hconst,
    hstatic, hasync, hfor] using h

/-- Where a closure starts, an expression does. -/
theorem ClosureStart.start (h : ClosureStart m u u') (hclosure : isClosureStart u = true) :
    Start u u' := by
  refine h.elim (fun hyes h => ?_) fun _ h => h.start
  have hgenerics := isGenericsStart_of_isClosureStart hyes hclosure
  obtain ⟨name, r, r', rfl, rfl, hlead, hgenerics'⟩ := h
  refine .of_alike ⟨hyes, name, r, r', rfl, rfl, hlead, fun hname => absurd hname (by decide),
    fun _ => ?_, fun hname => absurd hname (by decide)⟩ rfl
  exact hgenerics'.trans hgenerics.symm

end ActionUnits.Source
