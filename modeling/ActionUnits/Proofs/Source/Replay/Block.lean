import ActionUnits.Proofs.Source.Replay.Start

/-! # Replaying blocks, conditions and loops

These end with a closing brace, so they are read back whatever follows, except
that an `if` asks whether an `else` does. The condition in front of a block ends
at the opening brace, and an arm of a `match` ends at a comma or where its body
can be followed by another arm.
-/

namespace ActionUnits.Source

variable {m : Mode} {size : Nat} {g g' : Grammar} {u u' : List Token}

/-- Both readings go on with the given word, and alike after it. -/
def Keyword (text : String) : Follow := fun u u' => isWord text u = true ∧ WordThen Lead u u'

theorem Keyword.lead {text : String} (h : Keyword text u u') : Lead u u' := h.2.lead

/-! ## Blocks -/

theorem group_edge {α : Type} {Post : α → Follow} {Pre : Follow} {p p' : Parser α}
    (delimiter : Delimiter) (hp : Replays m size 0 Post p p' Pre) (hend : ∀ a, Post a [] []) :
    Replays m (size + 1) 1 (fun _ => Any) (group delimiter p) (group delimiter p') Edge := by
  refine (group_replays delimiter Any hp hend).before ?_
  rintro u u' ⟨body, body', rest, rest', rfl, rfl, -⟩
  exact (Lead.group _ _ _ _ _).edge rfl

theorem blockIn_edge (hg : Knot m size g g') :
    Replays m size 1 (fun _ => Any) (blockIn g) (blockIn g') Edge :=
  (group_edge .brace hg.statements fun _ => atEnd_nil).smaller

theorem kind_of_group {α : Type} {delimiter : Delimiter} {p : Parser α} {a : α} {c d : Cursor}
    (h : group delimiter p c = some (a, d)) : kind c.rest = .group delimiter := by
  obtain ⟨body, written, hrest, -⟩ := group_eq_some.mp h
  rw [hrest]
  rfl

/-- Both readings go on with braces. -/
def BraceStart : Follow := fun u u' => kind u = .group .brace ∧ Lead u u'

theorem BraceStart.edge (h : BraceStart u u') : Edge u u' := h.2.edge (by rw [h.1]; rfl)

theorem blockWithAttrs_replays (hg : Knot m size g g') :
    Replays m size 1 (fun _ => Any) (blockWithAttrs g) (blockWithAttrs g') BraceStart :=
  (blockWithAttrs_closed hg).smaller.noting kind_of_group

/-- Blocks are read the same again, with or without a label. -/
theorem blockExpr_replays (hg : Knot m size g g') (label : Option Ident) :
    Replays m size 1 (fun _ => Any) (blockExpr g label) (blockExpr g' label) BraceStart :=
  (blockWithAttrs_replays hg).wrap

/-- Unsafe blocks are read the same again. -/
theorem unsafeBlock_replays (hg : Knot m size g g') :
    Replays m size 1 (fun _ => Any) (unsafeBlock g) (unsafeBlock g') (Keyword "unsafe") :=
  (word_then "unsafe" Lead).keep BraceStart
    (fun _ => (blockWithAttrs_replays hg).forget.wrap) fun _ _ _ h => h.2

/-- Try blocks are read the same again. -/
theorem tryBlock_replays (hg : Knot m size g g') :
    Replays m size 1 (fun _ => Any) (tryBlock g) (tryBlock g') (Keyword "try") :=
  (word_then "try" Lead).keep Edge (fun _ => (blockIn_edge hg).forget.wrap) fun _ _ _ h => h.toLead

/-! ## Conditions -/

/-- The branches of an `if`, each of which pays for the next one with its first word. -/
theorem ifElse_go_replays (hg : Knot m size g g') (fuel : Nat) :
    Fueled m size 1 1 (fun _ => Lead) (ifElse.go g fuel) (ifElse.go g') (Keyword "if") := by
  induction fuel with
  | zero => exact .failure
  | succ fuel ih =>
      refine .step (.bind (word_then "if" Lead) (fun _ => Start) (fun _ => ?_)
        (fun _ _ _ h => h.toLead) (Nat.le_refl 1))
      refine .bind (hg.expr false) (fun _ => Edge) (fun condition => ?_) (fun _ _ _ h => h)
        (Nat.le_succ 1)
      refine .bind (blockIn_edge hg) (fun _ => Lead) (fun body => ?_) (fun _ _ _ _ => trivial)
        (Nat.le_succ 1)
      refine .choiceWord ?_ ?_ fun u u' h => (Stable.eq_of_lead h).symm
      · refine (Fueled.bind (word_closed "else") (fun _ => Lead) (fun _ => ?_)
          (fun _ _ _ _ => trivial) (Nat.le_succ 1)).before fun _ _ h _ => h
        refine .choice ?_ ?_ fun u u' h => (Stable.eq_of_lead h).symm
        · exact (ih.forget.result fun _ _ _ h => h).before fun _ _ h _ => h.lead
        · refine (Fueled.of_replays ((blockIn_edge hg).forget.result ?_)).before
            fun _ _ h _ => h.toLead
          exact fun _ _ _ _ => trivial
      · exact (Fueled.of_replays (.pure _)).before fun _ _ h _ => h

/-- Conditionals are read the same again, with all their branches. -/
theorem ifElse_replays (hg : Knot m size g g') :
    Replays m size 1 (fun _ => Lead) (ifElse g) (ifElse g') (Keyword "if") :=
  Fueled.replays (ifElse_go_replays hg)

/-! ## Loops -/

/-- Loops with a condition are read the same again. -/
theorem whileLoop_replays (hg : Knot m size g g') (label : Option Ident) :
    Replays m size 1 (fun _ => Any) (whileLoop g label) (whileLoop g' label) (Keyword "while") := by
  refine (word_then "while" Lead).keep Start (fun _ => ?_) fun _ _ _ h => h.toLead
  refine (hg.expr false).forget.bind BraceStart (fun condition => ?_) fun _ _ _ h => h.edge
  exact (blockWithAttrs_replays hg).forget.wrap

/-- Loops over a sequence are read the same again. -/
theorem forLoop_replays (hg : Knot m size g g') (label : Option Ident) :
    Replays m size 1 (fun _ => Any) (forLoop g label) (forLoop g' label)
      fun u u' => isWord "for" u = true ∧ WordThen PatternStart u u' := by
  refine (word_then "for" PatternStart).keep PatternStart (fun _ => ?_) fun _ _ _ h => h
  refine hg.pattern.forget.bind (Keyword "in") (fun pattern => ?_) ?_
  · refine (word_then "in" Lead).forget.bind Start (fun _ => ?_) fun _ _ _ h => h.toLead
    refine (hg.expr false).forget.bind BraceStart (fun source => ?_) fun _ _ _ h => h.edge
    exact (blockWithAttrs_replays hg).forget.wrap
  · intro _ u u' h
    exact h.lead.patternEnds (by rw [kind_of_isWord h.1]; nofun) (by rw [kind_of_isWord h.1]; nofun)

/-- Endless loops are read the same again. -/
theorem plainLoop_replays (hg : Knot m size g g') (label : Option Ident) :
    Replays m size 1 (fun _ => Any) (plainLoop g label) (plainLoop g' label) (Keyword "loop") :=
  (word_then "loop" Lead).keep BraceStart
    (fun _ => (blockWithAttrs_replays hg).forget.wrap) fun _ _ _ h => h.2

/-- What has a label is read the same again. -/
theorem labelled_replays (hg : Knot m size g g') :
    Replays m size 1 (fun _ => Any) (labelled g) (labelled g') (LifetimeThen Colon) := by
  refine (lifetime_replays Colon).keep Colon (fun label => ?_) fun _ _ _ h => h
  refine op_colon.forget.bind Lead (fun _ => ?_) fun _ _ _ h => h
  refine .ite (fun _ _ h => h) ?_ (.ite (fun _ _ h => h) ?_ (.ite (fun _ _ h => h) ?_ ?_))
  · exact (whileLoop_replays hg _).forget.before fun _ _ h => h.lead
  · exact (forLoop_replays hg _).forget.before fun _ _ h => h.2.lead
  · exact (plainLoop_replays hg _).forget.before fun _ _ h => h.lead
  · exact (blockExpr_replays hg _).forget.before fun _ _ h => h.2

/-! ## Arms -/

theorem isRange_of_isBlockLike {e : Node} (h : isBlockLike e = true) : isRange e = false := by
  unfold isBlockLike at h
  unfold isRange
  split at h <;> simp_all

/-- The only operators that no pattern starts with take more than a character. -/
theorem PatternStart.edge_of_isEnd (h : Attributed PatternStart u u') (hend : IsEnd u) :
    Edge u u' := by
  have hlead : Lead u u' := h.lead fun _ _ h => h.toLead
  refine hlead.edge ?_
  have hnone : ∀ {text : String} {char : Char}, text.toList = [char] → char ≠ '\'' →
      (∃ strength, (text, strength) ∈ binaryOperators) → kind u ≠ .punct char := by
    rintro text char htext hchar ⟨strength, hmem⟩ hkind
    exact List.find?_eq_none.mp hend.1 _ hmem ((isOp_iff_kind htext hchar).mpr hkind)
  refine h.elim (fun hhash _ => ?_) fun _ hpattern => ?_
  · rw [kind_of_isOp (rfl : "#".toList = ['#']) (by decide) hhash]
    rfl
  · have hstarts := hpattern.starts
    cases hkind : kind u with
    | punct char =>
        rw [hkind] at hstarts
        simp only [startsPattern, List.contains_eq_mem, List.mem_cons, List.not_mem_nil, or_false,
          decide_eq_true_eq] at hstarts
        rcases hstarts with rfl | rfl | rfl | rfl | rfl | rfl
        · rfl
        · exact absurd hkind (hnone (rfl : "<".toList = _) (by decide) ⟨.compare, by decide⟩)
        · exact absurd hkind (hnone (rfl : "-".toList = _) (by decide) ⟨.sum, by decide⟩)
        · exact absurd hkind (hnone (rfl : "&".toList = _) (by decide) ⟨.bitAnd, by decide⟩)
        · exact absurd hkind (hnone (rfl : "|".toList = _) (by decide) ⟨.bitOr, by decide⟩)
        · rfl
    | nothing => rfl
    | word name => rfl
    | lifetime name => rfl
    | literal isNumeral isString => rfl
    | group delimiter => rfl

def ArmEnds : Follow := fun u u' => AtEnd u u' ∨ Attributed PatternStart u u'

theorem ArmEnds.lead (h : ArmEnds u u') : Lead u u' :=
  h.elim (fun h => h.lead) fun h => h.lead fun _ _ h => h.toLead

theorem ArmEnds.innerStart (h : ArmEnds u u') : InnerStart u u' :=
  h.elim (fun h => h.innerStart) fun h => h.innerStart fun _ _ h => h.toLead

theorem EarlyEnds.of_edge {e : Node} (h : Edge u u') : EarlyEnds e u u' :=
  ⟨h.toLead, fun _ => h⟩

theorem EarlyEnds.of_armEnds {e : Node} (he : isBlockLike e = true) (h : ArmEnds u u') :
    EarlyEnds e u u' := by
  rcases h with hend | harm
  · exact .of_edge hend.edge
  · refine ⟨harm.lead fun _ _ h => h.toLead, fun hor => ?_⟩
    refine PatternStart.edge_of_isEnd harm (hor.resolve_right ?_)
    rw [isRange_of_isBlockLike he]
    nofun

theorem Lead.edge_of_comma (h : Lead u u') (hcomma : isOp "," u = true) : Edge u u' :=
  h.edge (by rw [kind_of_isOp (rfl : ",".toList = [',']) (by decide) hcomma]; rfl)

/-- The comma after an arm may be missing after the last one and after a closing brace. -/
theorem armComma_replays (body node : Node) :
    Replays m size 0 (fun _ => ArmEnds)
      (atEnd >>= fun ended => if (!isBlockLike body && !ended) = true then op "," >>= fun _ => pure node
        else op? "," >>= fun _ => pure node)
      (atEnd >>= fun ended => if (!isBlockLike body && !ended) = true then op "," >>= fun _ => pure node
        else op? "," >>= fun _ => pure node)
      (EarlyEnds body) := by
  have hcomma : Replays m size 0 (fun _ => ArmEnds) (op "," >>= fun _ => pure node)
      (op "," >>= fun _ => pure node) fun u u' => isOp "," u = true ∧ Lead u u' :=
    (op_known ",").forget.result fun _ _ _ _ => trivial
  have hoptional : Replays m size 0 (fun _ => ArmEnds) (op? "," >>= fun _ => pure node)
      (op? "," >>= fun _ => pure node) fun u u' => Lead u u' ∧
        (isBlockLike body = true ∨ u.isEmpty = true → EarlyEnds body u u') := by
    refine .choiceOp ?_ ?_ fun u u' h => (Stable.eq_of_lead h.1).symm
    · exact hcomma.before fun u u' h _ => ⟨h.2, fun _ => .of_edge (h.2.edge_of_comma h.1)⟩
    · refine (Replays.pure node).before fun u u' h _ => ⟨h.lead, ?_⟩
      rintro (hblock | hempty)
      · exact .of_armEnds hblock h
      · obtain rfl := List.isEmpty_iff.mp hempty
        exact .of_edge (h.lead.edge rfl)
  refine .each (fun ended => .fixed (fun _ => ?_) fun hno => ?_)
    fun u u' h => (Stable.eq_of_lead h.toLead).symm
  · exact hcomma.before fun u u' h _ => .of_edge (h.2.edge_of_comma h.1)
  · refine hoptional.before fun u u' h hended => h.2 ?_
    rw [hended]
    cases hblock : isBlockLike body with
    | true => exact .inl rfl
    | false => exact .inr (by simpa [hblock] using hno)

theorem OpThen.edge_doubleArrow (h : OpThen m "=>" Lead u u') : Edge u u' := by
  refine h.edge (by decide) (h.lead (by decide)) fun long hmem c cs hlong => ?_
  have hnone : ∀ long ∈ longOps, "=>".toList <+: long.toList → long.toList.length = 2 := by decide
  have hlength := hnone long hmem ⟨c :: cs, hlong.symm⟩
  rw [hlong] at hlength
  simp at hlength

/-- Both readings go on with `=>`, as one operator. -/
def DoubleArrow : Follow := fun u u' => kind u = .punct '=' ∧ Edge u u'

/-- An arm from its `=>` on. -/
theorem armBody_replays (hg : Knot m size g g') (attrs : List Node) (pattern : Node)
    (guard : Option Node) :
    Replays m size 0 (fun _ => ArmEnds)
      (op "=>" >>= fun _ => g .earlyExpr >>= fun body => atEnd >>= fun ended =>
        if (!isBlockLike body && !ended) = true then
          op "," >>= fun _ => pure (Node.arm attrs pattern guard body)
        else op? "," >>= fun _ => pure (Node.arm attrs pattern guard body))
      (op "=>" >>= fun _ => g' .earlyExpr >>= fun body => atEnd >>= fun ended =>
        if (!isBlockLike body && !ended) = true then
          op "," >>= fun _ => pure (Node.arm attrs pattern guard body)
        else op? "," >>= fun _ => pure (Node.arm attrs pattern guard body))
      DoubleArrow := by
  refine ((op_replays "=>" (by decide) Lead).forget.bind Start (fun _ => ?_)
    fun _ _ _ h => h.toLead).before fun u u' h => ?_
  · exact hg.earlyExpr.forget.bindEach EarlyEnds (fun body => armComma_replays body _)
      fun _ _ _ h => h
  · exact ⟨kind_of_isOp rfl (by decide) h.1, h.edge_doubleArrow⟩

/-- One arm of a match is read the same again. -/
theorem arm_replays (hg : Knot m size g g') :
    Replays m size 1 (fun _ => ArmEnds) (arm g) (arm g') (Attributed PatternStart) := by
  unfold arm
  refine (outerAttrs_replays hg ?_).smaller.bind PatternStart (fun attrs => ?_) fun _ _ _ h => h
  · exact fun u u' h => .of_stable h.toLead
  refine hg.pattern.keep
    (fun u u' => Lead u u' ∧ kind u ≠ .punct '!' ∧ kind u ≠ .punct '|') (fun pattern => ?_)
    fun _ _ _ h => h.1.patternEnds h.2.1 h.2.2
  refine .choiceWhen ?_ ?_ fun u u' h => (Stable.eq_of_lead h.1).symm
  · rw [bind_assoc, bind_assoc]
    refine ((word_known "if").forget.bind Start (fun _ => ?_) fun _ _ _ _ => trivial).before
      fun u u' h _ => ?_
    · exact (hg.expr true).forget.bind DoubleArrow
        (fun guard => armBody_replays hg attrs pattern (some guard)) fun _ _ _ h => h.2
    · rw [kind_of_isWord h.1]
      exact ⟨h.2, nofun, nofun⟩
  · refine (armBody_replays hg attrs pattern none).before fun u u' h _ => ?_
    rw [h.1]
    exact ⟨h.2.toLead, by decide, by decide⟩

/-- Matches are read the same again. -/
theorem matchOn_replays (hg : Knot m size g g') :
    Replays m size 1 (fun _ => Any) (matchOn g) (matchOn g') (Keyword "match") := by
  have harms : Replays m size 0 (fun _ => AtEnd) (untilEnd (arm g)) (untilEnd (arm g'))
      InnerStart :=
    (untilEnd_replays (arm_replays hg) fun _ _ h => h.lead fun _ _ h => h.toLead).before
      fun _ _ h => ArmEnds.innerStart h
  refine (word_then "match" Lead).keep Start (fun _ => ?_) fun _ _ _ h => h.toLead
  refine (hg.expr false).forget.bind BraceStart (fun scrutinee => ?_) fun _ _ _ h => h.edge
  exact ((withInnerAttrs_closed hg Prod.mk harms).smaller.noting kind_of_group).forget.wrap

end ActionUnits.Source
