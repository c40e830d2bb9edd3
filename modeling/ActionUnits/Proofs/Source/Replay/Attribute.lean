import ActionUnits.Proofs.Source.Replay.Knot

/-! # Replaying attributes, plain paths and macro calls
-/

namespace ActionUnits.Source

variable {m : Mode} {size : Nat} {g g' : Grammar} {P : Follow}

/-! ## Plain paths -/

theorem plainSegment_replays (Post : Follow) :
    Replays m size 1 (fun _ => Post) plainSegment plainSegment (WordThen Post) :=
  @Replays.require _ _ _ _ _ _ _ _ isPlainSegment
    (inferInstanceAs (Stable (isIdent.or (isOneOf ["super", "self", "Self", "crate"]))))
    (fun _ _ h => h.lead) (anyWord_replays Post)

/-- A plain path that starts with a word goes on with more of it, or ends there. -/
theorem plainPath_then (hP : ∀ r r', P r r' → Absent (isOp "::") r r') :
    Replays m size 1 (fun _ => P) plainPath plainPath
      fun u u' => Lead u u' ∧ AfterWord (Either (isOp "::") Lead P) u u' := by
  have hnext : Replays m size 1 (fun _ => Any) (do op "::"; plainSegment)
      (do op "::"; plainSegment) Lead :=
    op_path.keep _ (fun _ => (plainSegment_replays Any).forget) fun _ _ _ h => h.lead.kin
  have hothers : Replays m size 0 (fun _ => P) (many (isOp "::") do op "::"; plainSegment)
      (many (isOp "::") do op "::"; plainSegment) (Either (isOp "::") Lead P) :=
    many_replays hnext (fun u u' hyes h => (Stable.eq_of_lead h).symm.trans hyes)
      (fun u u' hno h => hP u u' h hno) fun _ _ _ => trivial
  have hnames : ∀ rooted, Replays m size 1 (fun _ => P)
      (plainSegment >>= fun first => (many (isOp "::") do op "::"; plainSegment) >>= fun others =>
        pure (PlainPath.mk rooted (first :: others)))
      (plainSegment >>= fun first => (many (isOp "::") do op "::"; plainSegment) >>= fun others =>
        pure (PlainPath.mk rooted (first :: others))) (WordThen (Either (isOp "::") Lead P)) := by
    intro rooted
    refine (plainSegment_replays _).keep (Either (isOp "::") Lead P) (fun first => ?_)
      fun _ _ _ h => h
    exact hothers.map
  unfold plainPath
  refine .op? (fun _ _ h => h.1) ?_ ((hnames false).before fun u u' h => ⟨h.lead, ?_⟩)
  · refine ((op_path_replays _ fun _ _ h => (WordThen.lead h).kin).keep _
      (fun _ => (hnames true).forget) fun _ _ _ h => h).before fun u u' h => ⟨h.1, ?_⟩
    rintro name r r' rfl
    cases h.2.1
  · obtain ⟨name, r, r', rfl, rfl, hrest⟩ := h
    intro _ _ _ hu hu'
    cases hu
    cases hu'
    exact hrest

/-- Paths without arguments are read the same again. -/
theorem plainPath_replays (hP : ∀ r r', P r r' → Absent (isOp "::") r r') :
    Replays m size 1 (fun _ => P) plainPath plainPath Lead :=
  (plainPath_then hP).before fun _ _ h => h.1

/-! ## Macro calls -/

/-- Both readings go on with an exclamation mark by itself. -/
structure BangStart (u u' : List Token) : Prop extends Lead u u' where
  left : isBang u = true
  right : isBang u' = true

theorem isBang_of_group {delimiter : Delimiter} {joint : Bool} {u : List Token}
    (h : kind u = .group delimiter) : isBang (.punct '!' joint :: u) = true := by
  have hassign : isOp "=" u = false := isOp_of_kind rfl (by decide) (by rw [h]; nofun)
  cases joint with
  | false => rfl
  | true =>
      change (true && !isOp "=" u) = true
      rw [hassign]
      rfl

theorem anyGroup_replays : Replays m size 1 (fun _ => Any) anyGroup anyGroup
    fun u u' => (∃ delimiter, kind u = .group delimiter) ∧ Lead u u' := by
  refine anyGroup_closed.noting fun {c a d} hrun => ⟨a.1, ?_⟩
  rw [(anyGroup_eq_some.mp hrun).1]
  rfl

/-- The arguments of a macro call are read the same again. -/
theorem macroArguments_replays (path : PlainPath) :
    Replays m size 1 (fun _ => Any) (macroArguments path) (macroArguments path) BangStart := by
  refine ((op_replays "!" (by decide) _).keep _ (fun _ => anyGroup_replays.forget.wrap)
    fun _ _ _ h => h).before fun u u' h => ?_
  obtain ⟨joint, joint', r, r', rfl, rfl, -, ⟨delimiter, hkind⟩, hlead⟩ := h.single '!' rfl
  exact ⟨h.lead (by decide), isBang_of_group hkind,
    isBang_of_group (hlead.kind_eq.symm.trans hkind)⟩

/-! ## Attributes -/

/-- The path of an attribute is read the same again. -/
theorem attrPath_replays (hP : ∀ r r', P r r' → Absent (isOp "::") r r') :
    Replays m size 1 (fun _ => P) attrPath attrPath Lead := by
  refine .ite (fun _ _ h => h) ?_ (plainPath_replays hP)
  exact (anyWord_closed.map).after fun _ _ _ _ => trivial

instance : Stable isAnyGroup :=
  inferInstanceAs (Stable (anyOf [isGroup .paren, isGroup .bracket, isGroup .brace]))

/-- The content of an attribute is read the same again. -/
theorem metaItem_replays (hg : Knot m size g g') (inner : Bool) :
    Replays m size 1 (fun _ => AtEnd) (metaItem g inner) (metaItem g' inner) Lead := by
  unfold metaItem
  refine (attrPath_replays (fun _ _ h => .of_stable h)).keep Lead (fun path => ?_)
    fun _ _ _ h => h
  refine .ite (fun _ _ h => h) ?_ (.op? (fun _ _ h => h) ?_ ?_)
  · exact anyGroup_closed.forget.map.after fun _ _ _ _ => trivial
  · refine (op_closed "=").seq Lead fun _ => .before
      (.demand not ((hg.expr true).forget.result fun _ _ _ h => h.edge) ?_) fun _ _ h => h.toLead
    intro u u' h hwanted
    cases hattr : isOuterAttr u' with
    | false => exact congrArg not hattr
    | true =>
        have hkind : kind u' = .punct '#' :=
          kind_of_isOp rfl (by decide) ((Bool.and_eq_true _ _).mp hattr).1
        have hleft := (h.attr (h.kind_eq.trans hkind)).left
        change (!isOuterAttr u) = true at hwanted
        rw [hleft] at hwanted
        cases hwanted
  · exact (Replays.pure _).before fun _ _ h => h.lead

/-- Attributes in both readings, then what they belong to. -/
def Attributed (E : Follow) : Follow := Either (isOp "#") AttrStart E

/-- Outer attributes are read the same again, up to something else. -/
theorem outerAttrs_replays (hg : Knot m size g g') {E : Follow}
    (hE : ∀ u u', E u u' → Absent (isOp "#") u u') :
    Replays m (size + 1) 0 (fun _ => E) (outerAttrs g) (outerAttrs g') (Attributed E) := by
  have hbody := metaItem_replays hg false
  have hattr : Replays m (size + 1) 1 (fun _ => Any)
      (do op "#"; group .bracket (metaItem g false))
      (do op "#"; group .bracket (metaItem g' false)) AttrStart := by
    refine ((op_replays "#" (by decide) _).keep _ (fun _ =>
      (group_replays .bracket Any hbody fun _ => atEnd_nil).forget) fun _ _ _ h => h).before ?_
    intro u u' h
    obtain ⟨joint, joint', _, _, rfl, rfl, -, body, body', rest, rest', rfl, rfl, -⟩ := h.single '#' rfl
    refine ⟨h.lead (by decide), ?_, ?_⟩
    all_goals rfl
  exact many_replays hattr (fun u u' _ h => ((Bool.and_eq_true _ _).mp h.right).1)
    (fun u u' hno h => hE u u' h hno) fun _ _ _ => trivial

theorem AttrStart.inner {u u' : List Token} (h : AttrStart u u') : isInnerAttr u' = false := by
  obtain ⟨hhash, hbracket⟩ := (Bool.and_eq_true _ _).mp h.right
  have hbang : second (isOp "!") u' = false := by
    refine isOp_of_kind (rfl : "!".toList = ['!']) (by decide) fun hkind => ?_
    have : isGroup .bracket (afterOne u') = isGroup .bracket [.punct '!' false] :=
      Headed.eq_of_kind_eq hkind
    exact absurd (hbracket.symm.trans this) (by decide)
  rw [isInnerAttr, Peek.and, hbang, Bool.and_false]

theorem isInnerAttr_of_lead {u u' : List Token} (h : Lead u u') (hno : isOp "#" u = false) :
    isInnerAttr u' = false := by
  have : isOp "#" u' = false := (Stable.eq_of_lead h).symm.trans hno
  rw [isInnerAttr, Peek.and, this, Bool.false_and]

theorem Attributed.innerStart {E : Follow} (hE : ∀ u u', E u u' → Lead u u') {u u' : List Token}
    (h : Attributed E u u') : InnerStart u u' :=
  h.elim (fun _ h => ⟨h.toLead, h.inner⟩)
    fun hno h => ⟨hE u u' h, isInnerAttr_of_lead (hE u u' h) hno⟩

theorem Attributed.lead {E : Follow} (hE : ∀ u u', E u u' → Lead u u') {u u' : List Token}
    (h : Attributed E u u') : Lead u u' := (h.innerStart hE).toLead

/-- Inner attributes are read the same again, up to something else. -/
theorem innerAttrs_replays (hg : Knot m size g g') {E : Follow}
    (hE : ∀ u u', E u u' → isInnerAttr u' = false) :
    Replays m (size + 1) 0 (fun _ => E) (innerAttrs g) (innerAttrs g') (Either isInnerAttr Lead E) := by
  have hbody := metaItem_replays hg true
  have hattr : Replays m (size + 1) 1 (fun _ => Any)
      (do op "#"; op "!"; group .bracket (metaItem g true))
      (do op "#"; op "!"; group .bracket (metaItem g' true))
      fun u u' => Lead u u' ∧ isInnerAttr u' = true := by
    refine ((op_replays "#" (by decide) _).keep _ (fun _ => (op_replays "!" (by decide) Any).seq _
      fun _ => (group_closed .bracket hbody fun _ => atEnd_nil).forget) fun _ _ _ h => h).before ?_
    intro u u' h
    obtain ⟨joint, joint', _, _, rfl, rfl, -, hbang⟩ := h.single '#' rfl
    obtain ⟨_, _, _, _, rfl, rfl, -, -⟩ := hbang.single '!' rfl
    exact ⟨h.lead (by decide), rfl⟩
  refine (many_replays hattr (fun u u' _ h => h.2) (fun u u' _ h => hE u u' h)
    fun _ _ _ => trivial).before fun u u' h => ?_
  exact h.elim (fun hyes h => .yes hyes h.1) fun hno h => .no hno h

theorem AtEnd.innerStart {u u' : List Token} (h : AtEnd u u') : InnerStart u u' := by
  obtain ⟨rfl, rfl⟩ := h
  exact ⟨.refl [], rfl⟩

/-! ## Blocks -/

/-- Contents of braces that attributes of the surroundings may start. -/
theorem withInnerAttrs_closed {α β : Type} (hg : Knot m size g g') {p p' : Parser α}
    (f : List Node → α → β)
    (hp : Replays m size 0 (fun _ => AtEnd) p p' InnerStart) :
    Replays m (size + 1) 1 (fun _ => Any)
      (group .brace (innerAttrs g >>= fun attrs => p >>= fun a => pure (f attrs a)))
      (group .brace (innerAttrs g' >>= fun attrs => p' >>= fun a => pure (f attrs a))) Lead := by
  refine group_closed .brace ((innerAttrs_replays hg ?_).smaller.keep InnerStart (fun attrs => ?_)
    fun _ _ _ h => h) fun _ => atEnd_nil
  · exact fun u u' h => h.inner
  · exact hp.map

theorem blockWithAttrs_closed (hg : Knot m size g g') :
    Replays m (size + 1) 1 (fun _ => Any) (blockWithAttrs g) (blockWithAttrs g') Lead :=
  withInnerAttrs_closed hg Prod.mk hg.statements

/-! ## Visibilities -/

/-- A restriction of visibility is read the same again. -/
theorem restriction_replays : Replays m size 1 (fun _ => AtEnd) restriction restriction
    fun u u' => isRestriction u = true → isRestriction u' = true := by
  have hpath : Replays m size 1 (fun _ => AtEnd) plainPath plainPath Lead :=
    plainPath_replays fun _ _ h => .of_stable h.lead
  unfold restriction
  rw [word?_bind]
  refine (Replays.choice ?_ ?_ ?_ : Replays _ _ _ _ _ _
    fun u u' => Lead u u' ∧ (isRestriction u = true → isRestriction u' = true)).before fun _ _ h => h.2
  · refine ((word_closed "in").keep Lead (fun _ => hpath.forget) fun _ _ _ _ => trivial).before ?_
    intro u u' h hin
    refine ⟨h, fun _ => ?_⟩
    rw [isRestriction, ← (Stable.eq_of_lead h : isWord "in" u = _), hin, Bool.true_or]
  · refine (Replays.map (anyWord_replays AtEnd)).before ?_
    rintro u u' ⟨name, rest, rest', rfl, rfl, rfl, rfl⟩ -
    exact ⟨.word _ _ _, fun h => h⟩
  · exact fun u u' h => (Stable.eq_of_lead h.1).symm

theorem isRestricted_kind {u : List Token} (h : isRestricted u = true) : kind u = .group .paren := by
  unfold isRestricted at h
  split at h
  · rfl
  · cases h

theorem Lead.notRestricted {u u' : List Token} (h : Lead u u') (hkind : kind u ≠ .group .paren) :
    Absent isRestricted u u' :=
  .of_imp fun hyes => absurd (h.kind_eq.trans (isRestricted_kind hyes)) hkind

/-- Visibilities are read the same again. -/
theorem visibility_replays (hlead : ∀ r r', P r r' → Lead r r')
    (hP : ∀ r r', P r r' → Absent isRestricted r r') :
    Replays m (size + 1) 0 (fun _ => P) visibility visibility (Either (isWord "pub") Lead P) := by
  have hrestricted : Replays m (size + 1) 0 (fun _ => P)
      (group .paren restriction >>= fun path => pure (Visibility.within path))
      (group .paren restriction >>= fun path => pure (Visibility.within path))
      fun u u' => isRestricted u = true → isRestricted u' = true := by
    refine ((group_replays .paren Any restriction_replays fun _ => atEnd_nil).forget.result
      fun _ _ _ _ => trivial).before fun u u' h hyes => ?_
    obtain ⟨body, body', rest, rest', rfl, rfl, hbody, -⟩ := h
    exact hbody hyes
  have hpub : Replays m (size + 1) 0 (fun _ => P)
      (do if ← peek isRestricted then return .within (← group .paren restriction)
          else return Visibility.everywhere)
      (do if ← peek isRestricted then return .within (← group .paren restriction)
          else return Visibility.everywhere) Any := by
    refine (Replays.choice ?_ ?_ ?_ : Replays _ _ _ _ _ _
      (Either isRestricted (fun u u' => isRestricted u' = true) P)).before fun _ _ _ => trivial
    · exact hrestricted.before fun u u' h hyes => .yes hyes (h hyes)
    · exact (Replays.pure _).before fun u u' h hno => .no hno h
    · exact fun u u' h => h.elim (fun hyes h => by rw [hyes, h]) fun hno h => by rw [hno, hP u u' h hno]
  unfold visibility
  rw [word?_bind]
  refine .choice ?_ ?_ ?_
  · exact ((word_closed "pub").seq Any fun _ => hpub).before fun u u' h hyes => .yes hyes h
  · exact (Replays.pure _).before fun u u' h hno => .no hno h
  · intro u u' h
    exact h.elim (fun _ h => (Stable.eq_of_lead h).symm)
      fun _ h => (Stable.eq_of_lead (hlead u u' h)).symm

end ActionUnits.Source
