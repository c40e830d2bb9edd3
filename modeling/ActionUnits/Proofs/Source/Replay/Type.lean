import ActionUnits.Proofs.Source.Replay.Generics

/-! # Replaying types

A type ends where none of the questions that its rules ask goes on. The rules
start with different tokens, so the lead of a type decides between them once more.
-/

namespace ActionUnits.Source

variable {m : Mode} {size : Nat} {g g' : Grammar} {P : Follow} {u u' : List Token}

/-! ## Starts -/

/-- Tokens that start a type in one way only. -/
def startsPlainly : Kind → Bool
  | .word name =>
      isKeyword name && !(["const", "in", "_", "self", "super", "crate"].contains name.text)
  | .group .bracket => true
  | .punct char => ['*', '&', '!'].contains char
  | _ => false

theorem TypeStart.of_lead (h : Lead u u') (hstarts : startsPlainly (kind u) = true) :
    TypeStart P u u' := by
  refine ⟨h, ?_, fun hcolon => ?_, fun hname name r r' hu _ => ?_, fun hlifetime => ?_,
    .generics_of_lead h (isOp_of_kind rfl (by decide) fun hless => ?_),
    isOp_of_kind (rfl : "<=".toList = ['<', '=']) (by decide) fun hless => ?_,
    h.notRestricted fun hparen => ?_⟩
  · cases hkind : kind u with
    | nothing => rw [hkind] at hstarts; cases hstarts
    | word name =>
        rw [hkind] at hstarts
        simp [startsPlainly] at hstarts
        simp [startsType, hstarts]
    | punct char =>
        rw [hkind] at hstarts
        simp [startsPlainly] at hstarts
        simp [startsType, hstarts]
    | lifetime name => rfl
    | literal isNumeral isString => rw [hkind] at hstarts; cases hstarts
    | group delimiter =>
        rw [hkind] at hstarts
        cases delimiter <;> first | rfl | cases hstarts
  · rw [hcolon] at hstarts
    cases hstarts
  · subst hu
    change (isKeyword name &&
      !(["const", "in", "_", "self", "super", "crate"].contains name.text)) = true at hstarts
    simp only [isTypeWord, Peek.or, isIdent, isOneOf, isWord, List.any_cons, List.any_nil,
      Bool.or_false, Bool.or_eq_true, Bool.not_eq_true', beq_iff_eq] at hname
    simp only [Bool.and_eq_true, Bool.not_eq_true', List.contains_eq_mem, List.mem_cons,
      List.not_mem_nil, or_false, decide_eq_false_iff_not, not_or] at hstarts
    rcases hname with hname | hname
    · rw [hname] at hstarts
      cases hstarts.1
    · tauto
  · obtain ⟨name, rest, rfl⟩ := exists_of_isLifetime hlifetime
    cases hstarts
  · rw [hless] at hstarts
    cases hstarts
  · rw [h.kind_eq, hless] at hstarts
    cases hstarts
  · rw [hparen] at hstarts
    cases hstarts

/-! ## Sums of bounds -/

theorem isBoundStart_of_mark (const : Bool) (h : kind u = .punct '?') :
    isBoundStart const u = true := by
  have hmark : isOp "?" u = true := (isOp_iff_kind rfl (by decide)).mpr h
  simp [isBoundStart, anyOf, hmark]

/-- The bounds after a first plus sign. -/
theorem plusBounds_replays (hg : ∀ m, Knot m size g g') (rules : BoundRules)
    (hP : ∀ r r', P r r' → TypeEnds r r') :
    Replays m (size + 1) 0 (fun _ => P)
      (plusList (fun tokens => !isBoundStart rules.const tokens) (bound g rules))
      (plusList (fun tokens => !isBoundStart rules.const tokens) (bound g' rules)) Any := by
  refine (boundList_replays hg rules _ P hP ?_ ?_).before fun _ _ _ => trivial
  · intro u u' hno h
    rw [Bool.not_eq_false'] at hno ⊢
    exact h.elim (fun h => (Stable.eq_of_lead h).symm.trans hno)
      fun h => isBoundStart_of_mark _ h.2.2
  · intro u u' hyes h
    rw [Bool.not_eq_true'] at hyes ⊢
    exact (hP u u' h).bound _ hyes

theorem PlusEnds.answer (hP : ∀ r r', P r r' → TypeEnds r r') (h : PlusEnds P u u') :
    isOp "+" u' = isOp "+" u :=
  h.elim (fun _ h => (Stable.eq_of_lead h).symm)
    fun hno h => ((hP u u' h).plus hno).trans hno.symm

/-- The bounds of a type are read the same again. -/
theorem bounds_replays (hg : ∀ m, Knot m size g g') (plus : Bool) (rules : BoundRules)
    (hP : ∀ r r', P r r' → TypeEnds r r') :
    Replays m (size + 1) 1 (fun _ => P) (bounds g plus rules) (bounds g' plus rules)
      (BoundStart m) := by
  unfold bounds
  cases plus with
  | false =>
      refine (bound_replays hg hP rules).keep P (fun first => ?_) fun _ _ _ h => h
      exact Replays.ignore (Replays.pure [first])
  | true =>
      refine (bound_replays hg (fun _ _ h => PlusEnds.typeEnds hP h) rules).keep (PlusEnds P)
        (fun first => .choice ?_ ?_ fun u u' h => h.answer hP) fun _ _ _ h => h
      · refine ((op_closed "+").seq Any fun _ => ?_).before fun u u' h hyes => .yes hyes h
        exact (plusBounds_replays hg rules hP).wrap
      · exact (Replays.pure [first]).before fun u u' h hno => .no hno h

/-- Further bounds of a type are read the same again. -/
theorem moreBounds_replays (hg : ∀ m, Knot m size g g') (hP : ∀ r r', P r r' → TypeEnds r r') :
    Replays m (size + 1) 0 (fun _ => P) (moreBounds g) (moreBounds g') (PlusEnds P) := by
  have hnext : Replays m (size + 1) 1 (fun _ => PlusEnds P) (do op "+"; bound g ⟨false, false⟩)
      (do op "+"; bound g' ⟨false, false⟩) Lead :=
    ((op_closed "+").keep Any (fun _ => ((bound_replays hg
      (fun _ _ h => PlusEnds.typeEnds hP h) _).forget.before fun _ _ _ => trivial))
      fun _ _ _ _ => trivial)
  exact many_replays hnext (fun u u' hyes h => (Stable.eq_of_lead h).symm.trans hyes)
    (fun u u' hno h => (hP u u' h).plus hno) fun _ _ h => h

/-! ## Types in parentheses -/

theorem Lead.of_boundStart {question : Peek} [hq : Headed question] (h : BoundStart m u u')
    (hyes : question u = true) (hfor : question [.word "for"] = false) : Lead u u' := by
  refine h.elim id fun h => absurd hyes ?_
  rw [(hq.eq_of_kind_eq (kind_of_isWord h.2.1) : question u = question [.word "for"]), hfor]
  decide

/-- A relaxed bound in parentheses is read the same again. -/
theorem relaxed_replays (hg : ∀ m, Knot m size g g') :
    Replays m size 1 (fun _ => AtEnd)
      (traitBound g false true >>= fun bound => match bound with
        | some bound => pure (ParenContents.relaxedBound bound)
        | none => failure)
      (traitBound g' false true >>= fun bound => match bound with
        | some bound => pure (ParenContents.relaxedBound bound)
        | none => failure) (BoundStart m) := by
  have hbound : Replays m (size + 1) 1 (Read AtEnd) (traitBound g false true)
      (traitBound g' false true) (BoundStart m) := by
    cases m with
    | written => exact traitBound_written hg (fun _ _ h => h.typeEnds) false true
    | verbatim =>
        exact ((traitBound_verbatim (hg .verbatim) (fun _ _ h => h.typeEnds) false true).after
          fun _ _ _ h => h.2).before fun _ _ h => .inl h
  refine hbound.smaller.keepEach (Read AtEnd) (fun bound => ?_) fun _ _ _ h => h
  cases bound with
  | none => exact .failure
  | some bound => exact (Replays.pure _).before fun _ _ h => ⟨rfl, h⟩

/-- Bounds of which at least one is a trait. -/
theorem traitBounds_replays {α : Type} (hg : ∀ m, Knot m size g g') (plus : Bool)
    (rules : BoundRules) (hP : ∀ r r', P r r' → TypeEnds r r') (f : List Node → α) :
    Replays m (size + 1) 1 (fun _ => P)
      (bounds g plus rules >>= fun bounds => requireTrait bounds >>= fun _ => pure (f bounds))
      (bounds g' plus rules >>= fun bounds => requireTrait bounds >>= fun _ => pure (f bounds))
      (BoundStart m) :=
  (bounds_replays hg plus rules hP).keep P (fun bounds => .given fun _ => .pure (f bounds))
    fun _ _ _ h => h

/-- Both readings go on with the contents of parentheses, which restrict a visibility in the second
one only if they do in the first one. -/
def ContentsStart : Follow := fun u u' => Lead u u' ∧ Absent isRestriction u u'

theorem ContentsStart.of_lead (h : Lead u u') (hword : isAnyWord u = false) : ContentsStart u u' := by
  refine ⟨h, .of_not ?_⟩
  have hno : ∀ text, isWord text u' = false := by
    intro text
    cases hyes : isWord text u' with
    | false => rfl
    | true =>
        have hany : isAnyWord u = isAnyWord [.word text] :=
          Headed.eq_of_kind_eq (h.kind_eq.trans (kind_of_isWord hyes))
        rw [hword] at hany
        cases hany
  simp [isRestriction, isOneOf, hno]

/-- A type that is a word alone is one in both readings. -/
theorem ContentsStart.of_type (h : TypeStart CommaEnds u u') : ContentsStart u u' := by
  refine ⟨h.toLead, .of_imp fun hyes => ?_⟩
  rcases (Bool.or_eq_true _ _).mp hyes with hin | halone
  · have hstarts := h.starts
    rw [h.kind_eq, kind_of_isWord hin] at hstarts
    cases hstarts
  · obtain ⟨hname, hempty⟩ := (Bool.and_eq_true _ _).mp halone
    have hname' : isOneOf ["crate", "self", "super"] u = true :=
      (Stable.eq_of_lead h.toLead).trans hname
    have htype : isTypeWord u = true := by
      simp only [isTypeWord, Peek.or, isOneOf, List.any_cons, List.any_nil, Bool.or_false,
        Bool.or_eq_true] at hname' ⊢
      tauto
    obtain ⟨text, -, hword⟩ := List.any_eq_true.mp hname
    obtain ⟨r, rfl⟩ := exists_of_kind_word (h.kind_eq.trans (kind_of_isWord hword))
    obtain ⟨r', rfl⟩ := exists_of_kind_word (kind_of_isWord hword)
    obtain rfl : r' = [] := List.isEmpty_iff.mp hempty
    rcases h.word htype _ r [] rfl rfl with hends | hinside
    · rcases hends with ⟨rfl, -⟩ | ⟨hcomma, hlead⟩
      · exact hyes
      · rw [(Stable.eq_of_lead hlead : isOp "," r = isOp "," [])] at hcomma
        cases hcomma
    · cases hinside

/-- What stands in parentheses as a type is read the same again. -/
theorem parenContents_replays (hg : ∀ m, Knot m size g g') :
    Replays m size 0 (fun _ => AtEnd) (parenContents g) (parenContents g') ContentsStart := by
  have hlifetimes := (traitBounds_replays (m := m) hg true ⟨false, true⟩
    (fun _ _ (h : AtEnd _ _) => h.typeEnds)
    fun bounds => ParenContents.finished (.parenType (.traitObject bounds))).lower
  have htypes := (hg m).ty true CommaEnds fun _ _ h => h.typeEnds
  unfold parenContents
  refine .ite (fun _ _ h => h.1) ?_ (.iteYes (fun _ _ h => h.1) ?_ (.iteYes (fun _ _ h => h.1) ?_ ?_))
  · refine (Replays.pure _).before fun u u' h => .of_lead h.lead ?_
    obtain ⟨rfl, -⟩ := h
    rfl
  · refine hlifetimes.before fun u u' h hyes => .of_lead (.of_boundStart h hyes rfl) ?_
    obtain ⟨name, rest, rfl⟩ := exists_of_isLifetime hyes
    rfl
  · refine (relaxed_replays hg).forget.before fun u u' h hyes =>
      .of_lead (.of_boundStart h hyes rfl) ?_
    exact (Headed.eq_of_kind_eq (kind_of_isOp rfl (by decide) hyes) :
      isAnyWord u = isAnyWord [.punct '?' false])
  · refine (htypes.forget.bind CommaEnds (fun first => .choiceOp ?_ ?_
      fun u u' h => (Stable.eq_of_lead h.lead).symm) fun _ _ _ h => h).before fun _ _ h => .of_type h
    · refine ((op_known ",").seq Lead fun _ => ?_).before fun u u' h _ => .inr h
      exact (types_replays (hg m)).wrap
    · exact (Replays.pure _).before fun _ _ h _ => .inl h

/-- Types in parentheses are read the same again. -/
theorem parenType_replays (hg : ∀ m, Knot m size g g') (plus : Bool)
    (hP : ∀ r r', P r r' → TypeEnds r r') :
    Replays m (size + 1) 1 (fun _ => P) (parenType g plus) (parenType g' plus)
      (GroupThen .paren ContentsStart Any) := by
  have hmore : ∀ first, Replays m (size + 1) 0 (fun _ => P)
      (do return Node.traitObject (first :: (← moreBounds g)))
      (do return Node.traitObject (first :: (← moreBounds g'))) (PlusEnds P) :=
    fun first => (moreBounds_replays hg hP).wrap
  unfold parenType
  refine (group_replays .paren Any (parenContents_replays hg) fun _ => atEnd_nil).keep Any
    (fun contents => ?_) fun _ _ _ _ => trivial
  cases contents with
  | finished ty => exact (Replays.pure ty).before fun _ _ _ => trivial
  | relaxedBound first => exact (hmore first).before fun _ _ _ => trivial
  | single ty =>
      -- Whether a plus sign follows matters only for what can be a bound.
      have hsum : ∀ isSum, (if (plus && isSum) = true then asParenBound? ty else none) =
          if isSum = true then (if plus = true then asParenBound? ty else none) else none := by
        intro isSum
        cases plus <;> cases isSum <;> rfl
      dsimp only
      simp only [hsum]
      cases (if plus = true then asParenBound? ty else none) with
      | none =>
          simp only [ite_self]
          exact (Replays.ignore (Replays.pure _)).before fun _ _ _ => trivial
      | some first =>
          refine (Replays.each (fun isSum => ?_) fun u u' h => h.answer hP : Replays _ _ _ _ _ _
            (PlusEnds P)).before fun _ _ _ => trivial
          cases isSum with
          | false => exact (Replays.pure _).before fun u u' h hno => .no hno h
          | true => exact (hmore first).before fun _ _ h _ => h

/-! ## Function types -/

theorem abi_closed : Replays m size 0 (fun _ => Lead) abi abi Lead := by
  unfold abi
  refine .word? (fun _ _ h => h) ?_ (.pure _)
  refine (word_closed "extern").seq Lead fun _ => .ite (fun _ _ h => h) ?_ (.pure _)
  refine literal_closed.bind Lead (fun name => ?_) fun _ _ _ _ => trivial
  split
  · exact .pure _
  · exact .failure

/-- Both readings go on with three dots. -/
structure Ellipsis (u u' : List Token) : Prop extends Lead u u' where
  left : isOp "..." u = true
  right : isOp "..." u' = true

theorem isOp_dots_of_ellipsis (h : isOp "..." u = true) : isOp ".." u = true := by
  obtain ⟨joint, rest, rfl⟩ := @exists_of_nextIsOp '.' ['.', '.'] _ h
  cases joint with
  | false => cases h
  | true =>
      obtain ⟨joint, rest, rfl⟩ := @exists_of_nextIsOp '.' ['.'] _ h
      rfl

theorem op_ellipsis :
    Replays m size 1 (fun _ => Any) (op "...") (op "...") Ellipsis := by
  refine (op_replays "..." (by decide) Any).weaken (fun _ _ _ h => h) (fun u u' h => ?_)
    (Nat.le_refl _) (by decide)
  have hright := h.isOp (by decide)
  exact ⟨lead_of_dots (isOp_dots_of_ellipsis h.1) (isOp_dots_of_ellipsis hright), h.1, hright⟩

theorem exists_of_isNameStart (h : isNameStart u = true) :
    ∃ name rest, u = .ident name :: rest := by
  cases u with
  | nil => cases h
  | cons token rest =>
      cases token with
      | ident name => exact ⟨name, rest, rfl⟩
      | punct char joint => cases h
      | literal text => cases h
      | group delimiter body => cases h

/-- Whether a name and a colon come next. -/
def isNamed : Peek := isNameStart.and (second isColon)

theorem isNamed_colon {name : Ident} {r r' : List Token} (hcolon : Colon r r')
    (h : isNamed (.ident name :: r) = true) : isNamed (.ident name :: r') = true := by
  obtain ⟨hname, hleft⟩ := (Bool.and_eq_true _ _).mp h
  obtain ⟨-, hpath⟩ := (Bool.and_eq_true _ _).mp hleft
  refine (Bool.and_eq_true _ _).mpr ⟨hname, (Bool.and_eq_true _ _).mpr ⟨?_, ?_⟩⟩
  · exact (isOp_iff_kind rfl (by decide)).mpr hcolon.kind_right
  · change (!isOp "::" r) = true at hpath
    change (!isOp "::" r') = true
    rw [hcolon.typeEnds.path (by simpa using hpath)]
    rfl

/-- What a parameter with or without a name starts with. -/
theorem paramName?_replays {α : Type} {least : Nat} {Post : α → Follow} {Named Unnamed : Follow}
    {f f' : Option Ident → Parser α}
    (hsome : ∀ name, Replays m size least Post (f (some name)) (f' (some name)) Named)
    (hnamed : ∀ r r', Named r r' → m = .verbatim → Lead r r')
    (hnone : Replays m size least Post (f none) (f' none) Unnamed)
    (hunnamed : ∀ u u', Unnamed u u' → isNamed u' = false) :
    Replays m size least Post (paramName? >>= f) (paramName? >>= f')
      (Either isNamed (WordThen (ColonThen m Named)) Unnamed) := by
  unfold paramName?
  refine .choiceWhen ?_ ?_ fun u u' h => ?_
  · simp only [bind_assoc, pure_bind]
    exact ((anyWord_replays _).bind _ (fun name => (op_colon_replays Named hnamed).bind _
      (fun _ => hsome name) fun _ _ _ h => h) fun _ _ _ h => h).before fun u u' h hyes => .yes hyes h
  · exact hnone.before fun u u' h hno => .no hno h
  · refine h.elim (fun hyes h => ?_) fun hno h => (hunnamed u u' h).trans hno.symm
    obtain ⟨name, r, r', rfl, rfl, hcolon⟩ := h
    exact (isNamed_colon hcolon.toColon hyes).trans hyes.symm

/-- Whether the open end of a parameter list comes next is asked of a name as well. -/
structure VariadicStart (u u' : List Token) : Prop extends Lead u u' where
  variadic : isVariadicStart u' = isVariadicStart u

theorem isVariadicStart_word (name : Ident) (rest : List Token) :
    isVariadicStart (.ident name :: rest) = ((isIdent.or (isWord "_")) [.ident name] &&
      (isOp ":" rest && isOp "..." (afterOne rest))) := rfl

theorem afterOne_colon (h : kind u = .punct ':') : afterOne u = u.tail := by
  have hop : isOp ":" u = true := (isOp_iff_kind rfl (by decide)).mpr h
  obtain ⟨joint, rest, rfl⟩ := @exists_of_nextIsOp ':' [] _ hop
  rfl

theorem isVariadicStart_of_ellipsis (h : isOp "..." u = true) : isVariadicStart u = true := by
  rw [isVariadicStart, Peek.or, h, Bool.true_or]

/-- The open end of a list has a name, or it is the dots alone. -/
theorem isNamed_of_variadic (h : isVariadicStart u = true) :
    isOp "..." u = true ∨ isNamed u = true := by
  refine ((Bool.or_eq_true _ _).mp h).imp id fun h => ?_
  obtain ⟨hname, h⟩ := (Bool.and_eq_true _ _).mp h
  obtain ⟨hcolon, hdots⟩ := (Bool.and_eq_true _ _).mp h
  have hstart : isNameStart u = true := by
    simp only [Peek.or, isNameStart, isOneOf, List.any_cons, List.any_nil, Bool.or_false,
      Bool.or_eq_true] at hname ⊢
    tauto
  refine (Bool.and_eq_true _ _).mpr ⟨hstart, (Bool.and_eq_true _ _).mpr ⟨hcolon, ?_⟩⟩
  cases hpath : isOp "::" (afterOne u) with
  | false => rfl
  | true =>
      -- After two colons the third token is a colon and no point.
      obtain ⟨joint, rest, hrest⟩ := @exists_of_isOp_two "::" ':' ':' rfl _ hpath
      rw [third, hrest] at hdots
      cases joint <;> cases hdots

theorem not_isVariadicStart_of_kind {char : Char} (h : kind u = .punct char) (hchar : char ≠ '.') :
    isVariadicStart u = false := by
  cases hvariadic : isVariadicStart u with
  | false => rfl
  | true =>
      rcases isNamed_of_variadic hvariadic with hdots | hnamed
      · rw [kind_of_isOp (rfl : "...".toList = ['.', '.', '.']) (by decide) hdots] at h
        exact absurd (Kind.punct.inj h).symm hchar
      · obtain ⟨name, rest, rfl⟩ := exists_of_isNameStart ((Bool.and_eq_true _ _).mp hnamed).1
        cases h

/-- The variadic parameter of a function type is read the same again. -/
theorem variadic_replays (attrs : List Node) :
    Replays m size 1 (fun _ => Any)
      (paramName? >>= fun name => op "..." >>= fun _ =>
        pure (true, Node.variadic attrs (name.map .ofIdent)))
      (paramName? >>= fun name => op "..." >>= fun _ =>
        pure (true, Node.variadic attrs (name.map .ofIdent)))
      fun u u' => isVariadicStart u = true → VariadicStart u u' := by
  have hdots : ∀ name : Option Ident, Replays m size 1 (fun _ => Any)
      (op "..." >>= fun _ => pure (true, Node.variadic attrs (name.map .ofIdent)))
      (op "..." >>= fun _ => pure (true, Node.variadic attrs (name.map .ofIdent))) Ellipsis :=
    fun name => op_ellipsis.wrap
  refine (paramName?_replays (fun name => hdots (some name)) (fun _ _ h _ => h.toLead) (hdots none)
    fun u u' h => ?_).before fun u u' h hyes => ?_
  · have hname : isNameStart u' = isNameStart [.punct '.' false] :=
      Headed.eq_of_kind_eq (kind_of_isOp rfl (by decide) h.right)
    rw [isNamed, Peek.and, hname]
    rfl
  · refine h.elim (fun _ h => ?_) fun _ h => ⟨h.toLead, ?_⟩
    · obtain ⟨name, r, r', rfl, rfl, hcolon⟩ := h
      refine ⟨.word _ _ _, Eq.trans ?_ hyes.symm⟩
      rw [isVariadicStart_word] at hyes ⊢
      rw [((Bool.and_eq_true _ _).mp hyes).1, afterOne_colon hcolon.kind_right, hcolon.tail.right,
        (isOp_iff_kind rfl (by decide)).mpr hcolon.kind_right]
      rfl
    · rw [hyes, isVariadicStart_of_ellipsis h.right]

theorem not_isColon_of_insideType (h : insideType u = true) : isColon u = false := by
  cases hcolon : isColon u with
  | false => rfl
  | true =>
      rw [insideType, anyOf] at h
      simp [hcolon] at h

theorem CommaEnds.isColon (h : CommaEnds u u') : Source.isColon u' = false := by
  have hcolon : isOp ":" u' = false := by
    rcases h with ⟨-, rfl⟩ | ⟨hcomma, hlead⟩
    · rfl
    · refine isOp_of_kind rfl (by decide) ?_
      rw [← hlead.kind_eq, kind_of_isOp (rfl : ",".toList = [',']) (by decide) hcomma]
      decide
  rw [Source.isColon, Peek.butNot, hcolon, Bool.false_and]

/-- No colon follows the first word of a type. -/
theorem TypeStart.isNamed (h : TypeStart P u u') (hP : ∀ r r', P r r' → isColon r' = false) :
    Source.isNamed u' = false := by
  cases hname : isNameStart u' with
  | false => rw [Source.isNamed, Peek.and, hname, Bool.false_and]
  | true =>
      have hname' : isNameStart u = true := (Stable.eq_of_lead h.toLead).trans hname
      obtain ⟨name, r, rfl⟩ := exists_of_isNameStart hname'
      obtain ⟨name', r', rfl⟩ := exists_of_isNameStart hname
      obtain rfl : name = name' := Kind.word.inj h.kind_eq
      have hcolon : isColon r' = false :=
        (h.word (isTypeWord_of_isNameStart hname') name r r' rfl rfl).elim (hP r r')
          not_isColon_of_insideType
      rw [Source.isNamed, Peek.and]
      change (_ && isColon r') = false
      rw [hcolon, Bool.and_false]

theorem not_ellipsis_of_startsType (h : startsType (kind u) = true) : isOp "..." u = false := by
  refine isOp_of_kind rfl (by decide) fun hkind => ?_
  rw [hkind] at h
  cases h

/-- Both readings go on with a parameter that is not the open end of the list. -/
def FixedStart : Follow := fun u u' => Lead u u' ∧ isVariadicStart u' = false

theorem FixedStart.of_type (h : TypeStart CommaEnds u u') : FixedStart u u' := by
  refine ⟨h.toLead, ?_⟩
  cases hvariadic : isVariadicStart u' with
  | false => rfl
  | true =>
      have hnamed := h.isNamed fun _ _ h => h.isColon
      have hdots := not_ellipsis_of_startsType (h.kind_eq ▸ h.starts)
      rcases isNamed_of_variadic hvariadic with hyes | hyes
      · exact absurd (hyes.symm.trans hdots) (by decide)
      · exact absurd (hyes.symm.trans hnamed) (by decide)

theorem FixedStart.of_name (h : WordThen (ColonThen m (TypeStart CommaEnds)) u u') :
    FixedStart u u' := by
  obtain ⟨name, r, r', rfl, rfl, hcolon⟩ := h
  have hdots := not_ellipsis_of_startsType (hcolon.tail.kind_eq ▸ hcolon.tail.starts)
  refine ⟨.word _ _ _, ?_⟩
  rw [isVariadicStart_word, afterOne_colon hcolon.kind_right, hdots, Bool.and_false, Bool.and_false]

theorem FixedStart.of_attributed (h : Attributed FixedStart u u') : FixedStart u u' :=
  h.elim (fun hhash h => ⟨h.toLead, not_isVariadicStart_of_kind
    (h.kind_eq.symm.trans (kind_of_isOp rfl (by decide) hhash)) (by decide)⟩) fun _ h => h

/-- The parameters of a function type are read the same again. -/
theorem functionTypeParam_replays (hg : Knot m size g g') (attrs : List Node) :
    Replays m size 1 (fun _ => CommaEnds)
      (outerAttrs g >>= fun more => paramName? >>= fun name => g (.ty true) >>= fun ty =>
        pure (false, Node.functionTypeParam (attrs ++ more) name ty))
      (outerAttrs g' >>= fun more => paramName? >>= fun name => g' (.ty true) >>= fun ty =>
        pure (false, Node.functionTypeParam (attrs ++ more) name ty)) FixedStart := by
  have htype : ∀ more name, Replays m size 1 (fun _ => CommaEnds)
      (g (.ty true) >>= fun ty => pure (false, Node.functionTypeParam (attrs ++ more) name ty))
      (g' (.ty true) >>= fun ty => pure (false, Node.functionTypeParam (attrs ++ more) name ty))
      (TypeStart CommaEnds) :=
    fun more name => (hg.ty true CommaEnds fun _ _ h => h.typeEnds).wrap
  refine ((outerAttrs_replays hg fun u u' (h : FixedStart u u') => .of_stable h.1).smaller.bind _
    (fun more => ?_) fun _ _ _ h => h).before fun _ _ h => .of_attributed h
  refine (paramName?_replays (fun name => htype more (some name)) (fun _ _ h _ => h.toLead)
    (htype more none) fun _ _ h => h.isNamed fun _ _ h => h.isColon).before
    fun _ _ h => h.elim (fun _ h => .of_name h) fun _ h => .of_type h

/-- A parameter of a function type, or the open end of their list. -/
def functionTypePart (g : Grammar) : Parser (Bool × Node) := do
  let attrs ← outerAttrs g
  if ← peek isVariadicStart then
    let name ← paramName?
    op "..."
    return (true, Node.variadic attrs (name.map .ofIdent))
  else
    let attrs := attrs ++ (← outerAttrs g)
    let name ← paramName?
    return (false, .functionTypeParam attrs name (← g (.ty true)))

/-- A parameter of a function type is read the same again, variadic or not. -/
theorem functionTypePart_replays (hg : Knot m size g g') :
    Replays m size 1 (fun _ => CommaEnds) (functionTypePart g) (functionTypePart g') Lead := by
  unfold functionTypePart
  refine ((outerAttrs_replays hg fun u u' (h : VariadicStart u u') =>
    .of_stable h.toLead).smaller.bind _ (fun attrs => .choice ?_ ?_ fun u u' h => h.variadic)
    fun _ _ _ h => h).before fun _ _ h => h.lead fun _ _ h => h.toLead
  · exact (variadic_replays attrs).after fun _ _ _ _ => trivial
  · exact (functionTypeParam_replays hg attrs).before fun u u' h hno => ⟨h.1, h.2.trans hno.symm⟩

/-- The parameter lists of function types are read the same again. -/
theorem functionTypeParams_replays (hg : Knot m size g g') :
    Replays m size 0 (fun _ => AtEnd) (functionTypeParams g) (functionTypeParams g') Lead := by
  have hparts : Replays m size 0 (fun _ => AtEnd) (commaList (functionTypePart g))
      (commaList (functionTypePart g')) Lead :=
    commaList_replays (functionTypePart_replays hg) (.inl atEnd_nil)
      fun _ _ hcomma h => .inr ⟨hcomma, h⟩
  refine hparts.bind AtEnd (fun parts => .given fun _ => ?_) fun _ _ _ h => h
  split <;> exact .pure _

/-- Function types are read the same again. -/
theorem functionType_replays (hg : Knot m size g g') (hP : ∀ r r', P r r' → TypeEnds r r')
    (lifetimes : Option (List Node)) :
    Replays m (size + 1) 1 (fun _ => P) (functionType g lifetimes) (functionType g' lifetimes)
      Lead := by
  unfold functionType
  refine (word?_closed "unsafe").bind Lead (fun isUnsafe => ?_) fun _ _ _ h => h
  refine abi_closed.bind Lead (fun abi => ?_) fun _ _ _ h => h
  refine (word_closed "fn").keep Any (fun _ => ?_) fun _ _ _ h => h
  refine ((group_closed .paren (functionTypeParams_replays hg) fun _ => atEnd_nil).forget.bind _
    (fun params => (returnType?_replays hg false hP).wrap) fun _ _ _ _ => trivial).before
    fun _ _ _ => trivial

/-! ## Types that start with a path -/

/-- What may follow the path of a type: more of the type, or what follows it. -/
def NamedEnds (P : Follow) : Follow := fun u u' =>
  P u u' ∨ BangStart u u' ∨ (isOp "+" u = true ∧ Lead u u')

theorem BangStart.typeEnds (h : BangStart u u') : TypeEnds u u' := by
  have hkind : kind u = .punct '!' := kind_of_isOp rfl (by decide) ((Bool.and_eq_true _ _).mp h.left).1
  have hkind' : kind u' = .punct '!' := h.kind_eq.symm.trans hkind
  have hless : isOp "<" u' = false := isOp_of_kind rfl (by decide) (by rw [hkind']; decide)
  have hlead := h.toLead
  refine ⟨⟨.of_stable hlead, .of_stable hlead, .of_stable hlead, fun _ => .of_not ?_⟩,
    .of_stable hlead, .of_not (isOp_of_kind rfl (by decide) (by rw [hkind']; decide)),
    fun hno => absurd (h.left.symm.trans hno) (by decide), .of_stable hlead,
    fun _ => .of_stable hlead⟩
  rw [opensArguments, Peek.butNot, hless, Bool.false_and]

theorem NamedEnds.typeEnds (hP : ∀ r r', P r r' → TypeEnds r r') (h : NamedEnds P u u') :
    TypeEnds u u' := by
  rcases h with h | h | ⟨hplus, h⟩
  · exact hP u u' h
  · exact h.typeEnds
  · refine h.typeEnds ?_
    rw [kind_of_isOp (rfl : "+".toList = ['+']) (by decide) hplus]
    rfl

/-- The bounds that may follow a path, which then is a bound itself. -/
theorem pathSum_replays (hg : ∀ m, Knot m size g g') (plus : Bool)
    (lifetimes : Option (List Node)) (hP : ∀ r r', P r r' → TypeEnds r r') (path : Node) :
    Replays m (size + 1) 0 (fun _ => P)
      (do
        let isSum ← peek (isOp "+")
        if lifetimes.isSome || (plus && isSum) then
          let first := .traitBound false false lifetimes path
          if plus && isSum then
            op "+"
            let more := isBoundStart false
            let rest ← plusList (fun tokens => !more tokens) (bound g ⟨false, false⟩)
            return Node.traitObject (first :: rest)
          else return .traitObject [first]
        else return path)
      (do
        let isSum ← peek (isOp "+")
        if lifetimes.isSome || (plus && isSum) then
          let first := .traitBound false false lifetimes path
          if plus && isSum then
            op "+"
            let more := isBoundStart false
            let rest ← plusList (fun tokens => !more tokens) (bound g' ⟨false, false⟩)
            return Node.traitObject (first :: rest)
          else return .traitObject [first]
        else return path)
      fun u u' => P u u' ∨ (isOp "+" u = true ∧ Lead u u') := by
  cases plus with
  | false =>
      simp only [Bool.false_and, Bool.or_false]
      refine (Replays.ignore (Replays.fixed (fun _ => ?_) fun _ => ?_)).before fun _ _ h => .inl h
      · exact .pure _
      · exact .pure _
  | true =>
      -- A plus sign is looked for first, and both readings get the same answer.
      refine (Replays.each (fun isSum => ?_) fun u u' h => h.answer hP : Replays _ _ _ _ _ _
        (PlusEnds P)).before fun u u' h => h.elim (fun hyes h => .inr ⟨hyes, h⟩) fun _ h => .inl h
      cases isSum with
      | false =>
          simp only [Bool.and_false, Bool.or_false]
          refine Replays.before (.fixed (fun _ => ?_) fun _ => ?_) fun u u' h hno => .no hno h
          · exact .pure _
          · exact .pure _
      | true =>
          simp only [Bool.and_true, Bool.or_true]
          refine ((op_closed "+").seq Any fun _ => ?_).before fun u u' h hyes => .yes hyes h
          exact (plusBounds_replays hg ⟨false, false⟩ hP).wrap

/-- Types that start with a path are read the same again. -/
theorem namedType_replays (hg : ∀ m, Knot m size g g') (plus : Bool)
    (lifetimes : Option (List Node)) (hP : ∀ r r', P r r' → TypeEnds r r') :
    Replays m (size + 1) 1 (fun _ => P) (namedType g plus lifetimes) (namedType g' plus lifetimes)
      (QualifiedStart (ParenEnds (NamedEnds P))) := by
  unfold namedType
  refine (typePath_replays (hg m) fun _ _ h => NamedEnds.typeEnds hP h).keep (NamedEnds P)
    (fun path => ?_) fun _ _ _ h => h
  have hsum := pathSum_replays (m := m) hg plus lifetimes hP path
  split
  · exact (Replays.pure _).before fun _ _ h => .inl h
  · cases path.plainPath? with
    | none => exact (Replays.ignore hsum).before fun _ _ h => h.imp id .inr
    | some plain =>
        refine (Replays.each (fun isMacro => ?_) ?_ : Replays _ _ _ _ _ _ (Either isBang BangStart
          fun u u' => P u u' ∨ (isOp "+" u = true ∧ Lead u u'))).before
          fun u u' h => h.elim (fun _ h => .inr (.inl h)) fun _ h => h.imp id .inr
        · cases isMacro with
          | false => exact hsum.before fun u u' h hno => .no hno h
          | true =>
              exact ((macroArguments_replays plain).forget.result fun _ _ _ _ => trivial).before
                fun u u' h hyes => .yes hyes h
        · refine fun u u' h => h.elim (fun hyes h => h.right.trans hyes.symm) fun hno h => ?_
          have hends : NamedEnds P u u' := h.imp id .inr
          exact ((hends.typeEnds hP).bang hno).trans hno.symm

theorem insideType_of_path (h : isOp "::" u = true) : insideType u = true := by
  have hkind : kind u = .punct ':' := kind_of_isOp rfl (by decide) h
  have hu : ∀ {question : Peek} [Headed question], question u = question [.punct ':' false] :=
    Headed.eq_of_kind_eq hkind
  simp only [insideType, anyOf, isColon, Peek.butNot, List.any_cons, List.any_nil, Bool.or_false,
    h, (hu : List.isEmpty u = _), (hu : isOp ">" u = _), (hu : isOp "," u = _),
    (hu : isOp "=" u = _), (hu : isOp ":" u = _), (hu : isGroup .brace u = _)]
  rfl

theorem insideType_of_kind {v : List Token} (h : kind u = kind v)
    (hv : anyOf [List.isEmpty, isOp ">", isOp ",", isOp "=", isOp ":", isGroup .brace] v = false) :
    insideType u = true := by
  have hu : anyOf [List.isEmpty, isOp ">", isOp ",", isOp "=", isOp ":", isGroup .brace] u = false :=
    (Headed.eq_of_kind_eq h).trans hv
  simp only [anyOf, List.any_cons, List.any_nil, Bool.or_false, Bool.or_eq_false_iff] at hu
  simp [insideType, anyOf, isColon, Peek.butNot, hu]

/-- After the first name of a path the type goes on, or it has ended. -/
theorem PathThen.insideType (h : PathThen (ParenEnds (NamedEnds P)) u u') :
    P u u' ∨ insideType u' = true := by
  rcases h with ⟨-, (h | h | ⟨hplus, h⟩) | h⟩ | ⟨-, hkind | hpath⟩
  · exact .inl h
  · exact .inr (@insideType_of_kind _ [.punct '!' false]
      (kind_of_isOp rfl (by decide) ((Bool.and_eq_true _ _).mp h.right).1) rfl)
  · exact .inr (@insideType_of_kind _ [.punct '+' false]
      (h.kind_eq.symm.trans (kind_of_isOp rfl (by decide) hplus)) rfl)
  · right
    rcases (Bool.or_eq_true _ _).mp h.right with hparen | hpath
    · exact @insideType_of_kind _ [.group .paren []] (kind_of_isGroup hparen) rfl
    · exact insideType_of_path ((Bool.and_eq_true _ _).mp hpath).1
  · exact .inr (@insideType_of_kind _ [.punct '<' false] hkind rfl)
  · exact .inr (insideType_of_path hpath.1)

theorem TypeStart.of_path (h : QualifiedStart (ParenEnds (NamedEnds P)) u u') :
    TypeStart P u u' := by
  refine ⟨h.toLead, ?_, fun hcolon => ?_, fun hname name r r' hu hu' => ?_, fun hlifetime => ?_,
    h.generics, h.less, h.toLead.notRestricted fun hparen => ?_⟩
  · rcases h.starts with hword | hpath | hless
    · obtain ⟨name, rest, rfl, hstarts⟩ := kind_of_isPathWord hword
      exact hstarts
    · rw [kind_of_isOp (rfl : "::".toList = [':', ':']) (by decide) hpath]
      rfl
    · rw [kind_of_isOp (rfl : "<".toList = ['<']) (by decide) hless]
      rfl
  · rcases h.starts with hword | hpath | hless
    · obtain ⟨name, rest, rfl, -⟩ := kind_of_isPathWord hword
      cases hcolon
    · exact hpath
    · rw [kind_of_isOp (rfl : "<".toList = ['<']) (by decide) hless] at hcolon
      cases hcolon
  · have hless : isOp "<" u = false := by
      rw [hu]
      rfl
    exact ((h.path hless).word name r r' hu hu').insideType
  · obtain ⟨name, rest, rfl⟩ := exists_of_isLifetime hlifetime
    rcases h.starts with hword | hpath | hless
    · cases hword
    · cases hpath
    · cases hless
  · rcases h.starts with hword | hpath | hless
    · obtain ⟨name, rest, rfl, -⟩ := kind_of_isPathWord hword
      cases hparen
    · rw [kind_of_isOp (rfl : "::".toList = [':', ':']) (by decide) hpath] at hparen
      cases hparen
    · rw [kind_of_isOp (rfl : "<".toList = ['<']) (by decide) hless] at hparen
      cases hparen

/-! ## Other types -/

/-- A type that starts with none of the tokens that its other forms start with. -/
def plainType (g : Grammar) (plus : Bool) : Parser Node := do
  if ← peek (isGroup .bracket) then
    group .bracket do
      let element ← g (.ty true)
      if ← op? ";" then return .arrayType element (← g (.expr true))
      else return .sliceType element
  else if ← op? "*" then
    let mutable ← word? "mut"
    unless mutable do word "const"
    return .pointerType mutable (← g (.ty false))
  else if ← op? "&" then
    let lifetime ← lifetime?
    let mutable ← word? "mut"
    return .referenceType lifetime mutable (← g (.ty false))
  else if ← peek ((isOp "!").butNot (isOp "=")) then
    op "!"
    return .neverType
  else if ← word? "impl" then
    let bounds ← bounds g plus ⟨true, true⟩
    requireTrait bounds
    return .implType bounds
  else if ← word? "_" then return .inferredType
  else
    require (← peek isLifetime)
    let bounds ← bounds g true ⟨false, true⟩
    requireTrait bounds
    return .traitObject bounds

def typeAfter (g : Grammar) (plus : Bool) (lifetimes : Option (List Node)) :
    Parser (Option Node) := do
  if ← peek (isGroup .paren) then return some (← parenType g plus)
  else if ← peek (isOneOf ["fn", "unsafe", "extern"]) then return some (← functionType g lifetimes)
  else if ← peek isTypePathStart then return some (← namedType g plus lifetimes)
  else if ← word? "dyn" then
    let star ← op? "*"
    let bounds ← bounds g plus ⟨false, true⟩
    requireTrait bounds
    if star then return none else return some (.traitObject bounds)
  else return some (← plainType g plus)

/-- A type, or `none` if it is a form that is kept unread. -/
def typeForm (g : Grammar) (plus : Bool) : Parser (Option Node) := do
  let lifetimes ← boundLifetimes? g
  if lifetimes.isSome then
    require (← peek (isIdent.or
      (isOneOf ["fn", "unsafe", "extern", "super", "self", "Self", "crate"])))
  typeAfter g plus lifetimes

/-- Keeps everything since `start` unread if there is no node. -/
def orVerbatim : Option Node → Cursor → Parser Node
  | some node, _ => pure node
  | none, start => keepVerbatim start

theorem ite_bind {α β : Type} (b : Bool) (p q : Parser α) (f : α → Parser β) :
    (if b = true then p else q) >>= f = if b = true then p >>= f else q >>= f := by
  cases b <;> rfl

theorem type_eq (g : Grammar) (plus : Bool) :
    type g plus = get >>= fun start => typeForm g plus >>= fun ty => orVerbatim ty start := by
  unfold type typeForm typeAfter
  refine bind_congr fun start => ?_
  simp only [bind_assoc, ite_bind, pure_bind, orVerbatim, bind_pure]
  rfl

theorem TypeStart.of_op {text : String} {char : Char} (h : isOp text u = true ∧ Lead u u')
    (htext : text.toList = [char]) (hchar : ['*', '&', '!'].contains char = true) :
    TypeStart P u u' := by
  refine .of_lead h.2 ?_
  rw [kind_of_isOp htext (by rintro rfl; cases hchar) h.1]
  exact hchar

theorem TypeStart.of_word {text : String} (h : isWord text u = true ∧ Lead u u')
    (htext : startsPlainly (.word ⟨text⟩) = true) : TypeStart P u u' := by
  refine .of_lead h.2 ?_
  rw [kind_of_isWord h.1]
  exact htext

theorem TypeStart.of_bracket (h : Lead u u') (hu : isGroup .bracket u = true) : TypeStart P u u' := by
  refine .of_lead h ?_
  rw [kind_of_isGroup hu]
  rfl

theorem TypeStart.of_paren (h : GroupThen .paren ContentsStart Any u u') : TypeStart P u u' := by
  obtain ⟨body, body', rest, rest', rfl, rfl, hbody, -⟩ := h
  exact ⟨.group _ _ _ _ _, rfl, nofun, nofun, nofun, .of_not rfl, rfl, hbody.2⟩

theorem TypeStart.of_underscore (h : WordThen P u u') (hu : isWord "_" u = true) :
    TypeStart P u u' := by
  obtain ⟨name, r, r', rfl, rfl, hpost⟩ := h
  refine ⟨.word _ _ _, ?_, nofun, fun _ _ _ _ hu hu' => ?_, nofun, .of_not rfl, rfl, .of_not rfl⟩
  · rw [kind_of_isWord hu]
    rfl
  · cases hu
    cases hu'
    exact .inl hpost

/-- What may follow the elements of an array or slice type. -/
def ElementEnds : Follow := fun u u' => AtEnd u u' ∨ (isOp ";" u = true ∧ Lead u u')

theorem ElementEnds.lead (h : ElementEnds u u') : Lead u u' :=
  h.elim (fun h => h.lead) fun h => h.2

theorem ElementEnds.typeEnds (h : ElementEnds u u') : TypeEnds u u' := by
  rcases h with h | ⟨hsemicolon, h⟩
  · exact h.typeEnds
  · refine h.typeEnds ?_
    rw [kind_of_isOp (rfl : ";".toList = [';']) (by decide) hsemicolon]
    rfl

theorem array_replays (hg : Knot m size g g') :
    Replays m (size + 1) 1 (fun _ => Any)
      (group .bracket do
        let element ← g (.ty true)
        if ← op? ";" then return .arrayType element (← g (.expr true))
        else return Node.sliceType element)
      (group .bracket do
        let element ← g' (.ty true)
        if ← op? ";" then return .arrayType element (← g' (.expr true))
        else return Node.sliceType element) Lead := by
  refine group_closed .bracket ((hg.ty true ElementEnds fun _ _ h => h.typeEnds).bind ElementEnds
    (fun element => .choiceOp ?_ ?_ fun u u' h => (Stable.eq_of_lead h.lead).symm)
    fun _ _ _ h => h : Replays _ _ 0 (fun _ => AtEnd) _ _ _) fun _ => atEnd_nil
  · refine ((op_known ";").seq Lead fun _ => ?_).before fun u u' h _ => .inr h
    exact (((hg.expr true).after fun _ _ _ h => AtEnd.edge h).forget.wrap).before
      fun _ _ h => h.toLead
  · exact (Replays.pure _).before fun _ _ h _ => .inl h

/-- A sum of bounds that a lifetime starts has a plus sign, as the lifetime is no trait. -/
theorem lifetimeSum_eq (g : Grammar) (rules : BoundRules) (f : List Node → Node) :
    (peek isLifetime >>= fun b => require b >>= fun _ => bounds g true rules >>= fun bounds =>
        requireTrait bounds >>= fun _ => pure (f bounds)) =
      (lifetime >>= fun name => peek (isOp "+") >>= fun isSum => if isSum = true then
        op "+" >>= fun _ =>
          plusList (fun tokens => !isBoundStart rules.const tokens) (bound g rules) >>= fun more =>
            requireTrait (.lifetime name :: more) >>= fun _ => pure (f (.lifetime name :: more))
        else failure) := by
  funext c
  rw [peek_bind_apply]
  cases hlifetime : isLifetime c.rest with
  | false =>
      have hno : lifetime c = (failure : Parser Ident) c := by
        rw [lifetime, peek_bind_apply, hlifetime]
        rfl
      exact (bind_apply_congr hno _).symm
  | true =>
      have hbound : bound g rules c = (lifetime >>= fun name => pure (Node.lifetime name)) c := by
        rw [bound, peek_bind_apply, hlifetime]
        rfl
      rw [bind_of_eq_some require_true_apply]
      unfold bounds
      rw [bind_assoc, bind_apply_congr hbound]
      simp only [bind_assoc, pure_bind, Bool.true_and, ite_bind]
      rfl

theorem lifetimeSum_replays (hg : ∀ m, Knot m size g g') (hP : ∀ r r', P r r' → TypeEnds r r') :
    Replays m (size + 1) 1 (fun _ => P)
      (do
        require (← peek isLifetime)
        let bounds ← bounds g true ⟨false, true⟩
        requireTrait bounds
        return Node.traitObject bounds)
      (do
        require (← peek isLifetime)
        let bounds ← bounds g' true ⟨false, true⟩
        requireTrait bounds
        return Node.traitObject bounds) (LifetimeThen fun _ r' => isOp "+" r' = true) := by
  rw [lifetimeSum_eq, lifetimeSum_eq]
  let Sum : Follow := fun u u' => isOp "+" u = true ∧ isOp "+" u' = true
  refine (lifetime_replays _).keep Sum (fun name => .choice ?_ .failure fun u u' h => ?_)
    fun _ _ _ h => h.2
  · refine ((op_known "+").seq Any fun _ => ?_).before fun u u' h _ =>
      ⟨h.1, (Stable.eq_of_lead h.2).symm.trans h.1⟩
    exact (plusBounds_replays hg ⟨false, true⟩ hP).bind P (fun more => .given fun _ => .pure _)
      fun _ _ _ h => h
  · exact h.2.trans h.1.symm

theorem TypeStart.of_lifetime (h : LifetimeThen (fun _ r' => isOp "+" r' = true) u u') :
    TypeStart P u u' := by
  obtain ⟨name, r, r', rfl, rfl, hplus⟩ := h
  exact ⟨.lifetime _ _ _, rfl, nofun, nofun, fun _ => hplus, .of_not rfl, rfl, .of_not rfl⟩

/-- Types without a leading `for` are read the same again. -/
theorem plainType_replays (hg : ∀ m, Knot m size g g') (plus : Bool)
    (hP : ∀ r r', P r r' → TypeEnds r r') :
    Replays m (size + 1) 1 (fun _ => P) (plainType g plus) (plainType g' plus) (TypeStart P) := by
  have hlead : ∀ u u', TypeStart P u u' → Lead u u' := fun _ _ h => h.toLead
  have hpointee : ∀ f : Node → Node, Replays m size 0 (fun _ => P)
      (g (.ty false) >>= fun ty => pure (f ty)) (g' (.ty false) >>= fun ty => pure (f ty)) Lead :=
    fun f => ((hg m).ty false P hP).forget.wrap.before fun _ _ h => h.toLead
  unfold plainType
  refine .iteYes hlead ?_ (.op? hlead ?_ (.op? hlead ?_ (.iteYes hlead ?_ (.word? hlead ?_
    (.choiceWord ?_ ?_ ?_)))))
  · exact ((array_replays (hg m)).after fun _ _ _ _ => trivial).before
      fun u u' h hyes => .of_bracket h hyes
  · refine ((op_known "*").first Lead fun _ => ?_).before fun u u' h => .of_op h rfl rfl
    refine .word? (fun _ _ h => h) ?_ ?_
    · exact (word_closed "mut").seq Lead fun _ => hpointee _
    · exact (word_closed "const").seq Lead fun _ => hpointee _
  · refine ((op_known "&").first Lead fun _ => ?_).before fun u u' h => .of_op h rfl rfl
    have hmutable : ∀ name, Replays m size 0 (fun _ => P)
        (word? "mut" >>= fun mutable => g (.ty false) >>= fun ty =>
          pure (Node.referenceType name mutable ty))
        (word? "mut" >>= fun mutable => g' (.ty false) >>= fun ty =>
          pure (Node.referenceType name mutable ty)) Lead :=
      fun name => (word?_closed "mut").bind Lead (fun mutable => hpointee _) fun _ _ _ h => h
    exact .lifetime? (fun _ _ h => h) (fun name => (hmutable name).before fun _ _ _ => trivial)
      (hmutable none) fun _ _ h _ => h
  · refine ((op_known "!").wrap.after fun _ _ _ _ => trivial).before
      fun u u' h _ => .of_op h rfl rfl
  · refine ((word_known "impl").first Any fun _ => ?_).before fun u u' h => .of_word h rfl
    exact (traitBounds_replays hg plus ⟨true, true⟩ hP _).lower.before fun _ _ _ => trivial
  · exact (word_replays "_" P).wrap.before fun u u' h hyes => .of_underscore h hyes
  · exact (lifetimeSum_replays hg hP).before fun u u' h _ => .of_lifetime h
  · exact fun u u' h => (Stable.eq_of_lead h.toLead).symm

/-! ## All types -/

instance : Stable isTypePathStart :=
  inferInstanceAs (Stable (anyOf [isIdent, isOneOf ["super", "self", "Self", "crate"], isOp "::",
    isOp "<"]))

/-- Trait objects are read the same again, and so is whether they are kept as they are. -/
theorem dyn_replays (hg : ∀ m, Knot m size g g') (plus : Bool)
    (hP : ∀ r r', P r r' → TypeEnds r r') :
    Replays m (size + 1) 0 (fun _ => P)
      (op? "*" >>= fun star => bounds g plus ⟨false, true⟩ >>= fun bounds =>
        requireTrait bounds >>= fun _ =>
          if star = true then pure none else pure (some (Node.traitObject bounds)))
      (op? "*" >>= fun star => bounds g' plus ⟨false, true⟩ >>= fun bounds =>
        requireTrait bounds >>= fun _ =>
          if star = true then pure none else pure (some (Node.traitObject bounds))) Any := by
  have hbounds : ∀ f : List Node → Option Node, Replays m (size + 1) 0 (fun _ => P)
      (bounds g plus ⟨false, true⟩ >>= fun bounds => requireTrait bounds >>= fun _ =>
        pure (f bounds))
      (bounds g' plus ⟨false, true⟩ >>= fun bounds => requireTrait bounds >>= fun _ =>
        pure (f bounds)) (BoundStart m) :=
    fun f => (traitBounds_replays hg plus ⟨false, true⟩ hP f).forget
  refine Replays.before (.choiceOp ?_ ?_ ?_ : Replays _ _ _ _ _ _ (Either (isOp "*") Lead
    (BoundStart m))) fun _ _ _ => trivial
  · exact ((op_closed "*").seq Any fun _ => (hbounds _).before fun _ _ _ => trivial).before
      fun u u' h hyes => .yes hyes h
  · exact (hbounds _).before fun u u' h hno => .no hno h
  · exact fun u u' h => h.elim (fun _ h => (Stable.eq_of_lead h).symm)
      fun _ h => h.headed rfl rfl

/-- A type behind its `for` is read the same again. -/
theorem typeAfter_replays (hg : ∀ m, Knot m size g g') (plus : Bool)
    (lifetimes : Option (List Node)) (hP : ∀ r r', P r r' → TypeEnds r r') :
    Replays m (size + 1) 1 (fun _ => P) (typeAfter g plus lifetimes) (typeAfter g' plus lifetimes)
      (TypeStart P) := by
  have hlead : ∀ u u', TypeStart P u u' → Lead u u' := fun _ _ h => h.toLead
  unfold typeAfter
  refine .iteYes hlead ?_ (.iteYes hlead ?_ (.ite hlead ?_ (.word? hlead ?_ ?_)))
  · exact (parenType_replays hg plus hP).wrap.before fun u u' h _ => .of_paren h
  · refine (functionType_replays (hg m) hP lifetimes).wrap.before fun u u' h hyes => .of_lead h ?_
    simp only [isOneOf, List.any_cons, List.any_nil, Bool.or_false, Bool.or_eq_true] at hyes
    rcases hyes with hyes | hyes | hyes
    all_goals
      rw [kind_of_isWord hyes]
      rfl
  · exact (namedType_replays hg plus lifetimes hP).wrap.before fun _ _ h => .of_path h
  · refine ((word_known "dyn").first Any fun _ => ?_).before fun u u' h => .of_word h rfl
    exact (dyn_replays hg plus hP).smaller
  · exact (plainType_replays hg plus hP).wrap

/-- The forms of a type are read the same again. -/
theorem typeForm_replays (hg : ∀ m, Knot m size g g') (plus : Bool)
    (hP : ∀ r r', P r r' → TypeEnds r r') :
    Replays m (size + 1) 1 (fun _ => P) (typeForm g plus) (typeForm g' plus) (TypeStart P) := by
  unfold typeForm boundLifetimes?
  refine .choiceWhen ?_ ?_ fun u u' h => (Stable.eq_of_lead h.toLead).symm
  · refine ((boundLifetimes_replays (hg m)).keep Lead (fun lifetimes => ?_)
      fun _ _ _ _ => trivial).before fun u u' h hyes => .of_word ⟨hyes, h.lead⟩ rfl
    refine .require (fun _ _ h => h) ?_
    exact (typeAfter_replays hg plus (some lifetimes) hP).forget.before fun _ _ h => h.toLead
  · exact (typeAfter_replays hg plus none hP).before fun _ _ h _ => h

/-- Types are read the same again. -/
theorem type_replays (hg : ∀ m, Knot m size g g') (plus : Bool)
    (hP : ∀ r r', P r r' → TypeEnds r r') :
    Replays m (size + 1) 1 (fun _ => P) (type g plus) (type g' plus) (TypeStart P) := by
  rw [type_eq, type_eq]
  refine .keeping Option.isNone (fun ty hread => ?_) (fun ty hunread => ?_)
    (fun _ => (typeForm_replays hg plus hP).after fun _ _ _ h => h.2) (typeForm_replays hg plus hP)
  · obtain ⟨node, rfl⟩ := Option.isSome_iff_exists.mp (by simpa using hread)
    exact ⟨node, fun _ => rfl⟩
  · obtain rfl := Option.isNone_iff_eq_none.mp hunread
    exact ⟨id, fun start => (bind_pure _).symm⟩

end ActionUnits.Source
