import ActionUnits.Proofs.Source.Replay.Path

/-! # Replaying paths of types

The last segment of a path in a type may have arguments in parentheses, after
which the path may go on. Two colons in front of such arguments are not written.
-/

namespace ActionUnits.Source

variable {m : Mode} {size : Nat} {g g' : Grammar} {P : Follow} {u u' : List Token}

/-! ## Results of callable traits -/

/-- Return types are read the same again. -/
theorem returnType?_replays (hg : Knot m size g g') (plus : Bool)
    (hP : ∀ r r', P r r' → TypeEnds r r') :
    Replays m (size + 1) 0 (fun _ => P) (returnType? g plus) (returnType? g' plus)
      (Either (isOp "->") (fun u u' => Lead u u' ∧ isOp "->" u' = true) P) := by
  have hoperator : Replays m (size + 1) 1 (fun _ => P) (do op "->"; g (.ty plus))
      (do op "->"; g' (.ty plus)) fun u u' => Lead u u' ∧ isOp "->" u' = true :=
    op_arrow.first _ fun _ => (hg.ty plus P hP).forget
  unfold returnType? when?
  refine .choice ?_ ?_ ?_
  · exact hoperator.forget.map.before fun u u' h hyes => .yes hyes h
  · exact (Replays.pure _).before fun u u' h hno => .no hno h
  · exact fun u u' h => h.elim (fun hyes h => by rw [hyes, h.2])
      fun hno h => by rw [hno, (hP u u' h).arrow hno]

/-! ## Arguments in parentheses -/

theorem Lead.typeEnds_of_comma (h : Lead u u') (hcomma : isOp "," u = true) : TypeEnds u u' := by
  refine h.typeEnds ?_
  rw [kind_of_isOp (rfl : ",".toList = [',']) (by decide) hcomma]
  rfl

def CommaEnds : Follow := fun u u' => AtEnd u u' ∨ (isOp "," u = true ∧ Lead u u')

theorem CommaEnds.lead (h : CommaEnds u u') : Lead u u' := h.elim (fun h => h.lead) fun h => h.2

theorem CommaEnds.typeEnds (h : CommaEnds u u') : TypeEnds u u' :=
  h.elim (fun h => h.typeEnds) fun h => h.2.typeEnds_of_comma h.1

/-- Lists of types are read the same again. -/
theorem types_replays (hg : Knot m size g g') :
    Replays m size 0 (fun _ => AtEnd) (commaList (g (.ty true))) (commaList (g' (.ty true))) Lead :=
  commaList_replays ((hg.ty true CommaEnds fun _ _ h => h.typeEnds).before fun _ _ h => h.toLead)
    (.inl atEnd_nil) fun _ _ hcomma h => .inr ⟨hcomma, h⟩

/-- Arguments in parentheses are read the same again. -/
theorem parenArguments_replays (hg : Knot m size g g') (hP : ∀ r r', P r r' → TypeEnds r r') :
    Replays m (size + 1) 1 (fun _ => P) (parenArguments g) (parenArguments g')
      fun u u' => isGroup .paren u = true ∧ Lead u u' := by
  unfold parenArguments
  refine ((group_replays .paren Any (types_replays hg) fun _ => atEnd_nil).keep _
    (fun inputs => (returnType?_replays hg false hP).map) fun _ _ _ _ => trivial).before ?_
  intro u u' h
  obtain ⟨body, body', rest, rest', rfl, rfl, -⟩ := h
  exact ⟨rfl, .group _ _ _ _ _⟩

/-- Both readings go on with arguments in parentheses. -/
structure ParenStart (u u' : List Token) : Prop where
  left : isParenArguments u = true
  right : isParenArguments u' = true
  lead : kind u' = .group .paren ∨ Lead u u'

theorem kind_of_isGroup {delimiter : Delimiter} (h : isGroup delimiter u = true) :
    kind u = .group delimiter := by
  unfold isGroup at h
  split at h
  · rw [← eq_of_beq h]
    rfl
  · cases h

theorem ParenStart.typeEnds (h : ParenStart u u') : TypeEnds u u' := by
  have hleft := (Bool.or_eq_true _ _).mp h.left
  rcases h.lead with hkind | hlead
  · have hno : ∀ {text : String} {char : Char} {chars : List Char}, text.toList = char :: chars →
        char ≠ '\'' → isOp text u' = false := fun htext hchar =>
      isOp_of_kind htext hchar (by rw [hkind]; nofun)
    have hpath : isOp "::" u' = false := hno rfl (by decide)
    refine ⟨⟨.of_not ?_, .of_not ?_, .of_not hpath, fun _ => .of_not ?_⟩, ?_,
      .of_not (hno rfl (by decide)), .of_not ?_, .of_not (hno rfl (by decide)), ?_⟩
    · rw [isTurbofish, Peek.and, hpath, Bool.false_and]
    · rw [goesOn, Peek.butNot, hpath, Bool.false_and]
    · rw [opensArguments, Peek.butNot, hno rfl (by decide), Bool.false_and]
    · exact fun hfalse => absurd (h.left.symm.trans hfalse) (by decide)
    · rw [isBang, Peek.butNot, hno rfl (by decide), Bool.false_and]
    · intro const hfalse
      have htrue : isBoundStart const u = true := by
        simp only [isBoundStart, anyOf, List.any_cons, Bool.or_eq_true]
        refine hleft.elim (fun hparen => ?_) fun hpath => ?_
        · tauto
        · have := ((Bool.and_eq_true _ _).mp hpath).1
          tauto
      exact absurd (htrue.symm.trans hfalse) (by decide)
  · refine hlead.typeEnds (hleft.elim (fun hparen => ?_) fun hpath => ?_)
    · rw [kind_of_isGroup hparen]
      rfl
    · rw [kind_of_isOp (rfl : "::".toList = [':', ':']) (by decide)
        ((Bool.and_eq_true _ _).mp hpath).1]
      rfl

theorem capture_op?_apply (text : String) (c : Cursor) :
    ∃ x, capture (op? text) c = some (x, ⟨if isOp text c.rest then c.rest.drop text.length
      else c.rest, c.written⟩) := by
  cases hop : isOp text c.rest with
  | false => exact ⟨_, capture_eq_some.mpr ⟨_, op?_apply_false hop, rfl, rfl⟩⟩
  | true => exact ⟨_, capture_eq_some.mpr ⟨_, op?_apply_true hop, rfl, rfl⟩⟩

theorem isOp_path_of_paren (h : isGroup .paren u = true) : isOp "::" u = false :=
  isOp_of_kind rfl (by decide) (by rw [kind_of_isGroup h]; nofun)

/-- Two colons in front of parentheses are dropped. -/
theorem droppedPath_replays {α : Type} {Post : α → Follow} {p p' : Parser α}
    (hp : Replays m size 1 Post p p' fun u u' => isGroup .paren u = true ∧ Lead u u') :
    Replays m size 1 Post (capture (op? "::") >>= fun _ => p) (capture (op? "::") >>= fun _ => p')
      ParenStart := by
  intro c a d hrun
  obtain ⟨x, hcapture⟩ := capture_op?_apply "::" c
  rw [bind_of_eq_some hcapture] at hrun
  obtain ⟨read, written, hread, hwritten, hlr, hlw, hreplay⟩ := hp _ _ _ hrun
  have hagain : ∀ v z, (capture (op? "::") >>= fun _ => p') ⟨v, z⟩ =
      p' ⟨if isOp "::" v then v.drop 2 else v, z⟩ := by
    intro v z
    obtain ⟨x, hcapture⟩ := capture_op?_apply "::" ⟨v, z⟩
    exact bind_of_eq_some hcapture _
  have hparen : ∀ {v : List Token}, isGroup .paren v = true → isParenArguments v = true := by
    intro v hv
    rw [isParenArguments, Peek.or, hv, Bool.true_or]
  cases hpath : isOp "::" c.rest with
  | false =>
      simp only [hpath, Bool.false_eq_true, if_false] at hread
      refine ⟨read, written, hread, hwritten, hlr, hlw, fun rest hrest hbound => ?_⟩
      obtain ⟨⟨hleft, hlead⟩, hrerun⟩ := hreplay rest hrest hbound
      simp only [hpath, Bool.false_eq_true, if_false] at hleft hlead
      have hright := (Stable.eq_of_lead hlead).symm.trans hleft
      refine ⟨⟨hparen hleft, hparen hright, .inr hlead⟩, fun z => ?_⟩
      rw [hagain, isOp_path_of_paren hright]
      exact hrerun z
  | true =>
      obtain ⟨joint, tail, hrest⟩ := @exists_of_isOp_two "::" ':' ':' rfl _ hpath
      simp only [hpath, if_true] at hread hreplay
      rw [hrest] at hread hreplay ⊢
      change tail = read ++ d.rest at hread
      refine ⟨.punct ':' true :: .punct ':' joint :: read, written, by rw [hread]; rfl, hwritten,
        by simp, hlw, fun rest hpost hbound => ?_⟩
      -- The colons are read but not written, so the bound on what is left follows in either mode.
      have hsmall : Token.sizeAll (m.pick read written ++ rest) ≤ size := by
        cases m with
        | written => exact hbound
        | verbatim =>
            simp only [Mode.pick, List.cons_append, Token.sizeAll] at hbound ⊢
            omega
      obtain ⟨⟨hleft, hlead⟩, hrerun⟩ := hreplay rest hpost hsmall
      change isGroup .paren tail = true at hleft
      change Lead tail _ at hlead
      have hright := (Stable.eq_of_lead hlead).symm.trans hleft
      have hpaths : ∀ v, isGroup .paren v = true →
          isParenArguments (.punct ':' true :: .punct ':' joint :: v) = true := fun v hv => by
        change (false || (true && isGroup .paren v)) = true
        rw [hv]
        rfl
      cases m with
      | written =>
          refine ⟨⟨hpaths tail hleft, hparen hright, .inl (kind_of_isGroup hright)⟩, fun z => ?_⟩
          -- The second reading starts at the parentheses: there are no colons left to drop.
          have hno : isOp "::" (written ++ rest) = false := isOp_path_of_paren hright
          have hrun := hagain (written ++ rest) z
          rw [hno] at hrun
          exact hrun.trans (hrerun z)
      | verbatim =>
          refine ⟨⟨hpaths tail hleft, hpaths (read ++ rest) hright, .inr ?_⟩, fun z => ?_⟩
          · exact ⟨rfl, rfl, rfl, rfl, fun _ => rfl, fun _ => hlead.kind_eq⟩
          · rw [hagain]
            exact hrerun z

theorem extended_replays (hg : Knot m size g g') (hP : ∀ r r', P r r' → TypeEnds r r')
    (extend : Node → Node) :
    Replays m (size + 1) 1 (fun _ => P)
      (capture (op? "::") >>= fun _ => parenArguments g >>= fun arguments =>
        pure (some (extend arguments)))
      (capture (op? "::") >>= fun _ => parenArguments g' >>= fun arguments =>
        pure (some (extend arguments))) ParenStart :=
  droppedPath_replays (Replays.map (parenArguments_replays hg hP))

/-- Arguments in parentheses behind a path are read the same again. -/
theorem withParenArguments_replays (hg : Knot m size g g') {Q : Follow}
    (hP : ∀ r r', P r r' → TypeEnds r r') (hQ : ∀ r r', Q r r' → TypeEnds r r') (path : Node) :
    Replays m (size + 1) 0 (OnSome (fun _ => Q) P) (withParenArguments g path)
      (withParenArguments g' path)
      fun u u' => P u u' ∨ ((openSegment? path).isSome = true ∧ ParenStart u u') := by
  unfold withParenArguments
  cases openSegment? path with
  | none => exact (Replays.pure none).before fun _ _ h => .inl h
  | some extend =>
      refine (Replays.choice ?_ ?_ ?_ : Replays _ _ _ _ _ _
        (Either isParenArguments ParenStart P)).before ?_
      · refine (droppedPath_replays ?_).forget.before fun u u' h hyes => .yes hyes h
        exact Replays.map (parenArguments_replays hg hQ)
      · exact (Replays.pure none).before fun u u' h hno => .no hno h
      · exact fun u u' h => h.elim (fun hyes h => by rw [hyes, h.right])
          fun hno h => by rw [hno, (hP u u' h).paren hno]
      · exact fun u u' h => h.elim (fun _ h => .inr ⟨rfl, h⟩) fun _ h => .inl h

/-- Arguments in parentheses advance the reading. -/
theorem withParenArguments_advances {path extended : Node} {c d : Cursor} (hg : Knot m size g g')
    (h : withParenArguments g path c = some (some extended, d)) : Advances m c d := by
  unfold withParenArguments at h
  cases hopen : openSegment? path with
  | none =>
      rw [hopen] at h
      cases h
  | some extend =>
      simp only [hopen] at h
      rw [peek_bind_apply] at h
      split at h
      next => exact (extended_replays hg (fun _ _ (h : AtEnd _ _) => h.typeEnds) extend).advances h
      next => cases h

/-! ## Paths of types -/

/-- After a path whose last segment may yet get arguments. -/
def ParenEnds (P : Follow) : Follow := fun u u' => P u u' ∨ ParenStart u u'

theorem ParenEnds.typeEnds (hP : ∀ r r', P r r' → TypeEnds r r') (h : ParenEnds P u u') :
    TypeEnds u u' := h.elim (hP u u') fun h => h.typeEnds

/-- After a path, whose last segment gets the arguments that follow if it has none. -/
def PathInv (P : Follow) (path : Node) : Follow := fun u u' =>
  P u u' ∨ ((openSegment? path).isSome = true ∧ ParenStart u u')

theorem ParenStart.goesOn (h : ParenStart u u') : Source.goesOn u = false := by
  rw [Source.goesOn, Peek.butNot]
  rcases (Bool.or_eq_true _ _).mp h.left with hparen | hpath
  · rw [isOp_path_of_paren hparen, Bool.false_and]
  · rw [((Bool.and_eq_true _ _).mp hpath).2, Bool.not_true, Bool.and_false]

/-- Paths of types are read the same again. -/
theorem typePath_replays (hg : Knot m size g g') (hP : ∀ r r', P r r' → TypeEnds r r') :
    Replays m (size + 1) 1 (fun _ => P) (typePath g) (typePath g')
      (QualifiedStart (ParenEnds P)) := by
  have hends : ∀ r r', ParenEnds P r r' → TypeEnds r r' := fun _ _ h => h.typeEnds hP
  have hmore := restOfPath_replays hg false fun r r' h => (hends r r' h).toPathEnds
  -- After arguments in parentheses the path may go on, unless it has come to its end.
  have hafter : ∀ r r', (PathTail (ParenEnds P) r r' ∨ P r r') → TypeEnds r r' := by
    rintro r r' (h | h)
    · refine h.elim (fun hyes h => h.1.typeEnds ?_) fun _ h => hends r r' h
      rw [kind_of_isOp (rfl : "::".toList = [':', ':']) (by decide) (goesOn_path hyes)]
      rfl
    · exact hP r r' h
  unfold typePath
  refine (qualifiedPath_replays hg false fun r r' h => (hends r r' h).toPathEnds).keep _
    (fun start => (iterate_replays (PathInv P) ?_ ?_ start).before ?_) fun _ _ _ h => h
  · intro path
    refine (withParenArguments_replays hg hP hafter path).bindEach
      (OnSome (fun _ r r' => PathTail (ParenEnds P) r r' ∨ P r r') P) ?_ fun _ _ _ h => h
    intro answer
    cases answer with
    | none => exact .pure none
    | some extended =>
        dsimp only
        split
        · exact (hmore.result fun _ r r' h => h.imp id fun h => h.2).before fun _ _ h => .inl h
        · refine (Replays.pure (some extended)).before fun r r' h => h.elim .inr fun h => .inl ?_
          exact .no h.2.goesOn (.inr h.2)
  · intro path c b d hrun
    obtain ⟨answer, e, hfirst, hrest⟩ := bind_eq_some.mp hrun
    cases answer with
    | none => cases hrest
    | some extended =>
        have hadvance := withParenArguments_advances hg hfirst
        dsimp only at hrest
        split at hrest
        next =>
            obtain ⟨more, e', hmoreRun, hpure⟩ := bind_eq_some.mp hrest
            obtain ⟨-, rfl⟩ := pure_eq_some.mp hpure
            obtain ⟨hrest, hwritten⟩ := hmore.retains hmoreRun
            exact hadvance.trans_le hrest hwritten
        next =>
            obtain ⟨-, rfl⟩ := pure_eq_some.mp hrest
            exact hadvance
  · exact fun u u' h => h.imp id fun h => h.2

end ActionUnits.Source
