import ActionUnits.Proofs.Source.Replay.Bracketed

/-! # Replaying implementations

The head of an implementation has a type, or a trait and a type. A pair of brackets
without parameters in front of it is not written, which matters where a type
follows that starts with a name in brackets.
-/

namespace ActionUnits.Source

variable {m : Mode} {size least : Nat} {g g' : Grammar} {u u' : List Token}

/-! ## The type of an implementation and what follows it -/

/-- The items of an implementation and the attributes inside of it. -/
def implItems (g : Grammar) : Parser (List Node × List Node) :=
  group .brace (innerAttrs g >>= fun attrs => untilEnd (implItem g) >>= fun items =>
    pure (attrs, items))

/-- Items up to the closing brace. -/
theorem itemList_replays {p p' : Parser Node}
    (hp : Replays m size 1 (fun _ => Lead) p p' InnerStart) :
    Replays m size 0 (fun _ => AtEnd) (untilEnd p) (untilEnd p') InnerStart :=
  (untilEnd_replays (hp.after fun _ _ _ h => h.elim (fun h => h.lead) fun h => h.toLead)
    fun _ _ h => h.toLead).before fun _ _ h => h.elim (fun h => h.innerStart) fun h => h

/-- The items of an implementation in their braces are read the same again. -/
theorem implItems_replays (hg : ∀ m, Knot m size g g') :
    Replays m size 1 (fun _ => Any) (implItems g) (implItems g') (GroupStart .brace) :=
  (withInnerAttrs_closed (hg m) Prod.mk (itemList_replays (implItem_replays hg))).smaller.noting
    kind_of_group

/-- What follows the first type of an implementation: another one, or conditions and items. -/
def HeadEnds (m : Mode) : Follow := Either (isWord "for") Lead (WhereStart m)

theorem HeadEnds.typeEnds (h : HeadEnds m u u') : TypeEnds u u' := by
  refine h.elim (fun hfor h => h.typeEnds ?_) fun _ h => h.typeEnds
  rw [kind_of_isWord hfor]
  rfl

theorem HeadEnds.brace (h : HeadEnds m u u') (hbrace : isGroup .brace u = true) :
    isGroup .brace u' = true := by
  have hword : ∀ {text}, isWord text u = true → isGroup .brace u' = true := fun hword => by
    cases (kind_of_isGroup hbrace).symm.trans (kind_of_isWord hword)
  refine h.elim (fun hfor _ => hword hfor) fun _ h => ?_
  cases h with
  | present hleft _ _ => exact hword hleft
  | absent _ hends => exact (Stable.eq_of_lead hends.toLead).symm.trans hbrace
  | dropped _ hleft _ _ => exact hword hleft

/-- An implementation from its first type on. -/
def implTypes (g : Grammar) (negative : Bool)
    (found : Bool → Node → Node → List Node → List Node × List Node → Found) : Parser Found := do
  let first ← g (.ty true)
  let forTrait ← word? "for"
  require (forTrait || !negative)
  let self ← if forTrait then g (.ty true) else pure first
  let predicates ← whereClause g
  let body ← implItems g
  return found forTrait first self predicates body

/-- Both readings go on with the types of an implementation. Where the first one is an exclamation
mark, a brace after it is there again. -/
structure TypesStart (m : Mode) (u u' : List Token) : Prop extends TypeStart (HeadEnds m) u u' where
  brace : ∀ joint joint' r r', u = .punct '!' joint :: r → u' = .punct '!' joint' :: r' →
    isGroup .brace r = true → isGroup .brace r' = true

/-- The trait and the type of an implementation are read the same again. -/
theorem implTypes_replays (hg : ∀ m, Knot m size g g') (hleft : PlainTypes g)
    (hright : PlainTypes g') (negative : Bool)
    (found : Bool → Node → Node → List Node → List Node × List Node → Found) :
    Replays m size 1 (fun _ => Any) (implTypes g negative found) (implTypes g' negative found)
      (TypesStart m) := by
  have hfirst : Replays m size 1 (fun _ => HeadEnds m) (g (.ty true)) (g' (.ty true))
      (TypesStart m) := by
    refine (((hg m).ty true (HeadEnds m) fun _ _ h => h.typeEnds).comparing (Q := fun u u' =>
      ∀ joint joint' r r', u = .punct '!' joint :: r → u' = .punct '!' joint' :: r' →
        isGroup .brace r = true → isGroup .brace r' = true) ?_).before fun _ _ h => ⟨h.2, h.1⟩
    rintro ⟨_, z⟩ a d ⟨_, z'⟩ d' hrun hrun' hends joint joint' r r' rfl rfl hbrace
    rw [← hleft.never hrun] at hbrace
    rw [← hright.never hrun']
    exact hends.brace hbrace
  have hbody : ∀ forTrait first self, Replays m size 0 (fun _ => Any)
      (whereClause g >>= fun predicates => implItems g >>= fun body =>
        pure (found forTrait first self predicates body))
      (whereClause g' >>= fun predicates => implItems g' >>= fun body =>
        pure (found forTrait first self predicates body)) (WhereStart m) :=
    fun forTrait first self => (whereClause_replays hg).bind _ (fun predicates =>
      (implItems_replays hg).forget.wrap) fun _ _ _ h => .of_brace h
  unfold implTypes
  refine hfirst.keep _ (fun first => ?_) fun _ _ _ h => h
  refine .choiceWord ?_ ?_ fun u u' h => ?_
  · refine ((word_closed "for").forget.bind Lead (fun _ => .given fun _ => ?_)
      fun _ _ _ _ => trivial).before fun u u' h hyes => .yes hyes h
    exact (((hg m).ty true (WhereStart m) fun _ _ h => h.typeEnds).forget.bind _
      (fun self => hbody true first self) fun _ _ _ h => h).before fun _ _ h => h.toLead
  · exact (Replays.given fun _ => hbody false first first).before fun u u' h hno => .no hno h
  · exact h.elim (fun _ h => (Stable.eq_of_lead h).symm) fun hno h => h.same false rfl rfl rfl rfl

/-! ## The marks in front of the type -/

/-- Whether an exclamation mark in front of a trait comes next. -/
def isNegation : Peek := (isOp "!").butNot (second (isGroup .brace))

/-- Whether a mark for constant contexts comes next. -/
def isConstMark : Peek := (isWord "const").or ((isOp "?").and (second (isWord "const")))

/-- Neither parameters nor a mark for constant contexts come next in both readings, or in none. -/
structure MarkStart (u u' : List Token) : Prop extends Lead u u' where
  generics : Absent isGenericsStart u u'
  left : isConstMark u = false
  right : isConstMark u' = false
  negation : isNegation u' = isNegation u

theorem not_isConstMark (hconst : kind u ≠ .word ⟨"const"⟩) (hmark : kind u ≠ .punct '?') :
    isConstMark u = false := by
  have hword : isWord "const" u = false := by
    cases hyes : isWord "const" u with
    | false => rfl
    | true => exact absurd (kind_of_isWord hyes) hconst
  have hop : isOp "?" u = false := isOp_of_kind rfl (by decide) hmark
  rw [isConstMark, Peek.or, Peek.and, hword, hop]
  rfl

theorem isNegation_punct (joint : Bool) (r : List Token) :
    isNegation (.punct '!' joint :: r) = !isGroup .brace r := by
  cases joint <;> rfl

theorem isNegation_of_not_bang (h : isOp "!" u = false) : isNegation u = false := by
  rw [isNegation, Peek.butNot, h, Bool.false_and]

/-- A negation goes on with a type. -/
theorem MarkStart.of_negation {P : Follow} (h : OpThen m "!" (TypeStart P) u u') :
    MarkStart u u' := by
  have hlead : Lead u u' := h.lead (by decide)
  obtain ⟨joint, joint', r, r', rfl, rfl, -, htype⟩ := h.single '!' rfl
  have hno : ∀ {v}, kind v = kind r → isGroup .brace v = false := fun {v} hv => by
    cases hbrace : isGroup .brace v with
    | false => rfl
    | true =>
        have hstarts := htype.starts
        rw [← hv, kind_of_isGroup hbrace] at hstarts
        cases hstarts
  have hkind : ∀ joint r, kind (.punct '!' joint :: r) = .punct '!' := kind_punct (by decide)
  refine ⟨hlead, ?_, ?_, ?_, ?_⟩
  · exact .generics_of_lead hlead (isOp_of_kind rfl (by decide) (by rw [hkind]; decide))
  · exact not_isConstMark (by rw [hkind]; nofun) (by rw [hkind]; decide)
  · exact not_isConstMark (by rw [hkind]; nofun) (by rw [hkind]; decide)
  · rw [isNegation_punct, isNegation_punct, hno rfl, hno htype.kind_eq.symm]

/-- A type without a negation in front of it. -/
theorem MarkStart.of_types (h : TypesStart m u u') (hno : isNegation u = false) :
    MarkStart u u' := by
  have hstarts := h.starts
  have hstarts' : startsType (kind u') = true := h.kind_eq ▸ hstarts
  have hmark : ∀ {v}, startsType (kind v) = true → isConstMark v = false := fun hv =>
    not_isConstMark (by rintro hconst; rw [hconst] at hv; cases hv)
      (by rintro hmark; rw [hmark] at hv; cases hv)
  refine ⟨h.toLead, h.generics, hmark hstarts, hmark hstarts', ?_⟩
  rw [hno]
  cases hbang : isOp "!" u' with
  | false => exact isNegation_of_not_bang hbang
  | true =>
      have hleft : isOp "!" u = true := (Stable.eq_of_lead h.toLead).trans hbang
      obtain ⟨joint, r, rfl⟩ := @exists_of_nextIsOp '!' [] _ hleft
      obtain ⟨joint', r', rfl⟩ := @exists_of_nextIsOp '!' [] _ hbang
      rw [isNegation_punct, Bool.not_eq_false'] at hno
      rw [isNegation_punct, h.brace joint joint' r r' rfl rfl hno]
      rfl

/-- An implementation from its negation on. -/
def implNegated (g : Grammar)
    (found : Bool → Bool → Node → Node → List Node → List Node × List Node → Found) :
    Parser Found := do
  let negative ← if ← peek isNegation then op? "!" else pure false
  implTypes g negative (found negative)

/-- An implementation of a trait that is denied is read the same again. -/
theorem implNegated_replays (hg : ∀ m, Knot m size g g') (hleft : PlainTypes g)
    (hright : PlainTypes g')
    (found : Bool → Bool → Node → Node → List Node → List Node × List Node → Found) :
    Replays m size 1 (fun _ => Any) (implNegated g found) (implNegated g' found) MarkStart := by
  have htypes := fun negative => implTypes_replays (m := m) hg hleft hright negative (found negative)
  unfold implNegated
  refine .choice ?_ ?_ fun _ _ h => h.negation
  · refine (Replays.choiceOp ?_ ?_ fun u u' h => (Stable.eq_of_lead h.1).symm :
      Replays _ _ _ _ _ _ fun u u' => Lead u u' ∧ (isNegation u = true → MarkStart u u')).before
      fun _ _ h => h.2
    · refine ((op_then "!" _).keep _ (fun _ => (htypes true).forget) fun _ _ _ h => h).before
        fun u u' h _ => ⟨h.lead (by decide), fun _ => ?_⟩
      exact .of_negation (h.mono fun _ _ h => h.toTypeStart)
    · refine (htypes false).before fun u u' h hno => ⟨h.toLead, fun hyes => ?_⟩
      exact absurd (hno.symm.trans ((Bool.and_eq_true _ _).mp hyes).1) (by decide)
  · exact (htypes false).before fun u u' h hno => .of_types h hno

/-- An implementation after its parameters. -/
def implRest (g : Grammar)
    (found : Bool → Bool → Bool → Node → Node → List Node → List Node × List Node → Found) :
    Parser Found := do
  if ← peek isConstMark then
    let _ ← op? "?"
    word "const"
    implNegated g (found true)
  else implNegated g (found false)

/-- Both readings go on with an implementation after its parameters. -/
structure ImplStart (u u' : List Token) : Prop where
  generics : Absent isGenericsStart u u'
  mark : isConstMark u' = isConstMark u

/-- An implementation is read the same again behind its parameters. -/
theorem implRest_replays (hg : ∀ m, Knot m size g g') (hleft : PlainTypes g)
    (hright : PlainTypes g')
    (found : Bool → Bool → Bool → Node → Node → List Node → List Node × List Node → Found) :
    Replays m size 1 (fun _ => Any) (implRest g found) (implRest g' found) ImplStart := by
  have hnegated := fun mark => implNegated_replays (m := m) hg hleft hright (found mark)
  have hconst : Replays m size 1 (fun _ => Any)
      (word "const" >>= fun _ => implNegated g (found true))
      (word "const" >>= fun _ => implNegated g' (found true)) (Known "const") :=
    (word_known "const").keep _ (fun _ => (hnegated true).forget) fun _ _ _ _ => trivial
  unfold implRest
  refine .choice ?_ ((hnegated false).before fun u u' h _ =>
    ⟨h.generics, h.right.trans h.left.symm⟩) fun _ _ h => h.mark
  refine (Replays.op? (fun _ _ h => h.1) ?_ ?_ : Replays _ _ _ _ _ _ fun u u' =>
    Lead u u' ∧ ImplStart u u').before fun _ _ h _ => h.2
  · refine ((op_then "?" (Known "const")).keep _ (fun _ => hconst.forget) fun _ _ _ h => h).before
      fun u u' h => ⟨h.lead (by decide), ?_⟩
    have hlead : Lead u u' := h.lead (by decide)
    obtain ⟨joint, joint', r, r', rfl, rfl, -, hword, hrest⟩ := h.single '?' rfl
    have hmark : ∀ {joint r}, isWord "const" r = true → isConstMark (.punct '?' joint :: r) = true :=
      fun {joint r} hword => by cases joint <;> exact hword
    refine ⟨.generics_of_lead hlead ?_, ?_⟩
    · exact isOp_of_kind rfl (by decide) (by rw [kind_punct (by decide)]; decide)
    · rw [hmark hword, hmark ((Stable.eq_of_lead hrest).symm.trans hword)]
  · refine hconst.before fun u u' h => ⟨h.2, .generics_of_lead h.2 ?_, ?_⟩
    · exact isOp_of_kind rfl (by decide) (by rw [kind_of_isWord h.1]; nofun)
    · have hmark : ∀ {v}, isWord "const" v = true → isConstMark v = true := fun hword => by
        rw [isConstMark, Peek.or, hword, Bool.true_or]
      rw [hmark h.1, hmark ((Stable.eq_of_lead h.2).symm.trans h.1)]

/-! ## Parameters -/

/-- Whether a node is a path that does not start from a type. -/
def isPlainType : Node → Bool
  | .path _ _ => true
  | _ => false

/-- What an implementation is found to be. -/
def foundImpl (vis : Visibility) (isDefault isUnsafe : Bool) (params : List Node)
    (isConst negative forTrait : Bool) (first self : Node) (predicates : List Node)
    (body : List Node × List Node) : Found :=
  if !isInherited vis || isConst || (forTrait && !isPlainType first) then .unread
  else
    let traitPath := if forTrait then some first else none
    let (params, self) := if forTrait then (params, self) else asWritten params self
    .node body.1 vis isDefault
      (.implementation isUnsafe (.generics params predicates) negative traitPath self body.2)

section Params

variable (vis : Visibility) (isDefault isUnsafe : Bool)

/-- An implementation after its keyword. -/
def implAfter (g : Grammar) : Parser Found := do
  let params ← if ← peek isGenericsStart then genericParams g else pure []
  implRest g (foundImpl vis isDefault isUnsafe params)

def angleParams (g : Grammar) : Parser (List Node) :=
  writtenIfAny (angleList true isLifetimeParam (genericParam g))

/-- Whether parameters are found again where they are read again. -/
def keepsParams : Mode → List Node → Bool
  | .written, [] => false
  | _, _ => true

/-- An implementation with parameters that are found again. -/
def implKept (m : Mode) (g : Grammar) : Parser Found := do
  let params ← angleParams g
  require (keepsParams m params)
  implRest g (foundImpl vis isDefault isUnsafe params)

theorem writtenIfAny_replays {p p' : Parser (List Node)} {P Pre : Follow}
    (hp : Replays m size least (fun _ => P) p p' Pre) :
    Replays m size 0 (fun nodes r r' => (m = .written → nodes ≠ []) ∧ P r r') (writtenIfAny p)
      (writtenIfAny p') Pre := by
  intro c nodes d hrun
  obtain ⟨out, hinside, hwritten⟩ := writtenIfAny_eq_some.mp hrun
  obtain ⟨read, written, hread, hout, -, -, hreplay⟩ := hp _ _ _ hinside
  obtain rfl : out = written.reverse := by simpa using hout
  refine ⟨read, if nodes.isEmpty then [] else written, hread, ?_, Nat.zero_le _, Nat.zero_le _,
    fun rest ⟨hkept, hrest⟩ hbound => ?_⟩
  · rw [hwritten]
    split <;> rfl
  · have hpicked : m.pick read (if nodes.isEmpty then [] else written) = m.pick read written := by
      cases m with
      | verbatim => rfl
      | written =>
          rw [if_neg]
          · exact fun hempty => hkept rfl (List.isEmpty_iff.mp hempty)
    rw [hpicked] at hbound ⊢
    obtain ⟨hstart, hagain⟩ := hreplay rest hrest hbound
    refine ⟨hstart, fun z => writtenIfAny_eq_some.mpr ⟨written.reverse, by simpa using hagain [], ?_⟩⟩
    split <;> rfl

/-- An implementation is read the same again with the parameters that it keeps. -/
theorem implKept_replays (hg : ∀ m, Knot m size g g') (hleft : PlainTypes g)
    (hright : PlainTypes g') :
    Replays m size 1 (fun _ => Any) (implKept vis isDefault isUnsafe m g)
      (implKept vis isDefault isUnsafe m g')
      fun u u' => isGenericsStart u = true → isGenericsStart u' = true := by
  have hparams : Replays m size 0
      (fun params r r' => (m = .written → params ≠ []) ∧ Any r r') (angleParams g) (angleParams g')
      (ParamsStart m g) :=
    writtenIfAny_replays ((angleList_replays (genericParam_replays hg) fun _ _ h => h.toLead).smaller)
  unfold implKept
  refine (hparams.bindEach (fun params r r' => (m = .written → params ≠ []) ∧ Any r r')
    (fun params => .given fun hkept => ?_) fun _ _ _ h => h).before fun _ _ h => h.generics
  refine (implRest_replays hg hleft hright _).before fun _ _ _ => ⟨?_, trivial⟩
  rintro rfl rfl
  cases hkept

/-- Without parameters nothing is written. -/
theorem angleParams_nil (hg : ∀ m, Knot m size g g') {c e : Cursor}
    (h : angleParams g c = some ([], e)) :
    e.written = c.written ∧ ∃ read, c.rest = read ++ e.rest := by
  obtain ⟨out, hinside, hwritten⟩ := writtenIfAny_eq_some.mp h
  obtain ⟨read, _, hread, -⟩ := angleList_replays (m := .written) (genericParam_replays hg)
    (fun _ _ h => h.toLead) _ _ _ hinside
  exact ⟨hwritten, read, hread⟩

theorem genericParams_apply {c : Cursor} (h : isGenericsStart c.rest = true) :
    genericParams g c = angleParams g c := by
  rw [genericParams_eq, peek_bind_apply, if_pos ((Bool.and_eq_true _ _).mp h).1]
  rfl

/-- Without parameters an implementation goes on with its trait. -/
theorem implAfter_apply_false {c : Cursor} (h : isGenericsStart c.rest = false) :
    implAfter vis isDefault isUnsafe g c =
      implRest g (foundImpl vis isDefault isUnsafe []) c := by
  unfold implAfter
  rw [peek_bind_apply, h]
  rfl

theorem implAfter_apply_true {c : Cursor} (h : isGenericsStart c.rest = true) :
    implAfter vis isDefault isUnsafe g c = (angleParams g >>= fun params =>
      implRest g (foundImpl vis isDefault isUnsafe params)) c := by
  unfold implAfter
  rw [peek_bind_apply, if_pos h]
  exact bind_apply_congr (genericParams_apply h) _

/-- Where the parameters are found again, the whole implementation is. -/
theorem implKept_run {c d e : Cursor} {params : List Node} {a : Found}
    (hparams : angleParams g c = some (params, e))
    (hrest : implRest g (foundImpl vis isDefault isUnsafe params) e = some (a, d))
    (hkept : keepsParams m params = true) :
    implKept vis isDefault isUnsafe m g c = some (a, d) := by
  refine bind_eq_some.mpr ⟨params, e, hparams, ?_⟩
  rw [hkept]
  exact hrest

/-- Without parameters, a type that starts like one is read as a parameter and the rest of it. -/
theorem implRest_bare (hg : BareTypes g) {c d : Cursor} {a : Found}
    (h : implRest g (foundImpl vis isDefault isUnsafe []) c = some (a, d))
    (hstart : isGenericsStart c.rest = true) (hread : a.isUnread = false) :
    implKept vis isDefault isUnsafe m g c = some (a, d) := by
  have hkind : kind c.rest = .punct '<' :=
    kind_of_isOp rfl (by decide) ((Bool.and_eq_true _ _).mp hstart).1
  have hmark : ∀ {u}, kind u = .punct '<' ∨ kind u = .punct ':' → isConstMark u = false ∧
      isNegation u = false := fun {u} hu => by
    have hne : ∀ {char}, char ≠ '<' → char ≠ ':' → kind u ≠ .punct char := by
      rintro char hless hcolon heq
      rcases hu with hu | hu
      · cases hu.symm.trans heq
        exact hless rfl
      · cases hu.symm.trans heq
        exact hcolon rfl
    refine ⟨not_isConstMark ?_ (hne (by decide) (by decide)), isNegation_of_not_bang
      (isOp_of_kind rfl (by decide) (hne (by decide) (by decide)))⟩
    rcases hu with hu | hu <;> rw [hu] <;> decide
  have htypes : ∀ {params c}, kind c.rest = .punct '<' ∨ kind c.rest = .punct ':' →
      implRest g (foundImpl vis isDefault isUnsafe params) c =
        implTypes g false (foundImpl vis isDefault isUnsafe params false false) c := fun hu => by
    unfold implRest implNegated
    rw [peek_bind_apply, (hmark hu).1, if_neg (by decide), peek_bind_apply, (hmark hu).2]
    rfl
  rw [htypes (.inl hkind)] at h
  unfold implTypes at h
  obtain ⟨first, e, hfirst, h⟩ := bind_eq_some.mp h
  rw [word?_bind, peek_bind_apply] at h
  -- A type that starts like a parameter is followed by no further token of a type.
  have hqualified : isBang e.rest = false → isOp "+" e.rest = false → _ :=
    hg.bare hfirst hstart
  split at h
  next hfor =>
      have hword := kind_of_isWord hfor
      obtain ⟨_, name, _, _, segments, -, -, -, rfl, -⟩ := hqualified
        (by rw [isBang, Peek.butNot, isOp_of_kind (rfl : "!".toList = ['!']) (by decide)
          (by rw [hword]; decide), Bool.false_and])
        (isOp_of_kind (rfl : "+".toList = ['+']) (by decide) (by rw [hword]; decide))
      obtain ⟨_, _, -, h⟩ := bind_eq_some.mp h
      obtain ⟨_, _, -, h⟩ := bind_eq_some.mp h
      obtain ⟨self, _, -, h⟩ := bind_eq_some.mp h
      obtain ⟨predicates, _, -, h⟩ := bind_eq_some.mp h
      obtain ⟨body, _, -, h⟩ := bind_eq_some.mp h
      obtain ⟨rfl, -⟩ := pure_eq_some.mp h
      simp [foundImpl, isPlainType, Found.isUnread] at hread
  next hfor =>
      have hrun : (whereClause g >>= fun predicates => implItems g >>= fun body =>
          pure (foundImpl vis isDefault isUnsafe [] false false false first first predicates body)) e =
            some (a, d) := h
      obtain ⟨predicates, e₁, hwhere, hrun⟩ := bind_eq_some.mp hrun
      obtain ⟨body, e₂, hitems, hpure⟩ := bind_eq_some.mp hrun
      obtain ⟨rfl, rfl⟩ := pure_eq_some.mp hpure
      have hkind : (∃ name, kind e.rest = .word name) ∨ kind e.rest = .group .brace := by
        cases hconditions : isWord "where" e.rest with
        | true => exact .inl ⟨_, kind_of_isWord hconditions⟩
        | false =>
            unfold whereClause at hwhere
            rw [peek_bind_apply, hconditions] at hwhere
            obtain ⟨-, rfl⟩ := pure_eq_some.mp hwhere
            exact .inr (kind_of_group hitems)
      have hno : ∀ {char}, kind e.rest ≠ .punct char := fun heq => by
        rcases hkind with ⟨name, hkind⟩ | hkind
        · cases hkind.symm.trans heq
        · cases hkind.symm.trans heq
      obtain ⟨joint, name, joint', r, segments, hname, hrest, hcolons, rfl, hpath⟩ := hqualified
        (by rw [isBang, Peek.butNot, isOp_of_kind (rfl : "!".toList = ['!']) (by decide) hno,
          Bool.false_and])
        (isOp_of_kind (rfl : "+".toList = ['+']) (by decide) hno)
      obtain ⟨u, z⟩ := c
      obtain rfl : u = .punct '<' joint :: .ident name :: .punct '>' joint' :: r := hrest
      have hparams : angleParams g ⟨.punct '<' joint :: .ident name :: .punct '>' joint' :: r, z⟩ =
          some ([.typeParam [] name [] none],
            ⟨r, .punct '>' false :: .ident name :: .punct '<' false :: z⟩) :=
        (genericParams_apply hstart).symm.trans (genericParams_name hname (by cases joint' <;> rfl))
      refine implKept_run vis isDefault isUnsafe hparams ?_ (by cases m <;> rfl)
      rw [htypes (.inr (kind_of_isOp rfl (by decide) hcolons))]
      unfold implTypes
      refine bind_eq_some.mpr ⟨_, e, hpath, ?_⟩
      rw [word?_bind, peek_bind_apply, if_neg hfor]
      refine bind_eq_some.mpr ⟨_, _, rfl, bind_eq_some.mpr ⟨_, _, rfl, bind_eq_some.mpr
        ⟨predicates, e₁, hwhere, bind_eq_some.mpr ⟨body, e₂, hitems, ?_⟩⟩⟩⟩
      refine pure_eq_some.mpr ⟨?_, rfl⟩
      simp [foundImpl, asWritten, hname]

/-- What an implementation keeps is what it read. -/
theorem implAfter_of_kept {c d : Cursor} {a : Found} (hstart : isGenericsStart c.rest = true)
    (h : implKept vis isDefault isUnsafe m g c = some (a, d)) :
    implAfter vis isDefault isUnsafe g c = some (a, d) := by
  obtain ⟨params, e, hparams, h⟩ := bind_eq_some.mp h
  obtain ⟨_, e', hrequire, hrest⟩ := bind_eq_some.mp h
  rw [implAfter_apply_true vis isDefault isUnsafe hstart]
  refine bind_eq_some.mpr ⟨params, e, hparams, ?_⟩
  cases hkept : keepsParams m params with
  | false =>
      rw [hkept] at hrequire
      cases hrequire
  | true =>
      rw [hkept] at hrequire
      obtain ⟨-, rfl⟩ := pure_eq_some.mp hrequire
      exact hrest

/-- An implementation without parameters is found again, with or without a parameter. -/
theorem implBare_replays (hg : ∀ m, Knot m size g g') (hleft : BareTypes g)
    (hright : PlainTypes g') :
    Replays .written size 1 (FoundEnds .written)
      (implRest g (foundImpl vis isDefault isUnsafe [])) (implAfter vis isDefault isUnsafe g')
      Any := by
  intro c a d hrun
  obtain ⟨read, written, hread, hwritten, hlr, hlw, hreplay⟩ :=
    implRest_replays (m := .written) hg hleft.toPlainTypes hright _ c a d hrun
  refine ⟨read, written, hread, hwritten, hlr, hlw, fun rest hrest hbound => ⟨trivial, fun z => ?_⟩⟩
  cases hstart : isGenericsStart c.rest with
  | false =>
      obtain ⟨himpl, hagain⟩ := hreplay rest trivial hbound
      rw [implAfter_apply_false _ _ _ (himpl.generics hstart)]
      exact hagain z
  | true =>
      have hkept := implRest_bare (m := .written) vis isDefault isUnsafe hleft hrun hstart
        (hrest.1 rfl)
      obtain ⟨read', written', hread', hwritten', -, -, hreplay'⟩ :=
        implKept_replays (m := .written) vis isDefault isUnsafe hg hleft.toPlainTypes hright c a d hkept
      obtain rfl : read = read' := List.append_cancel_right (hread.symm.trans hread')
      obtain rfl : written = written' :=
        List.reverse_inj.mp (List.append_cancel_right (hwritten.symm.trans hwritten'))
      obtain ⟨himpl, hagain⟩ := hreplay' rest trivial hbound
      exact implAfter_of_kept vis isDefault isUnsafe (himpl hstart) (hagain z)

/-- An implementation is read the same again behind its keyword. -/
theorem implAfter_replays (hg : ∀ m, Knot m size g g') (hleft : BareTypes g)
    (hright : PlainTypes g') :
    Replays m size 1 (FoundEnds m) (implAfter vis isDefault isUnsafe g)
      (implAfter vis isDefault isUnsafe g') Any := by
  intro c a d hrun
  cases hstart : isGenericsStart c.rest with
  | false =>
      rw [implAfter_apply_false _ _ _ hstart] at hrun
      obtain ⟨read, written, hread, hwritten, hlr, hlw, hreplay⟩ :=
        implRest_replays (m := m) hg hleft.toPlainTypes hright _ c a d hrun
      refine ⟨read, written, hread, hwritten, hlr, hlw, fun rest hrest hbound =>
        ⟨trivial, fun z => ?_⟩⟩
      obtain ⟨himpl, hagain⟩ := hreplay rest trivial hbound
      rw [implAfter_apply_false _ _ _ (himpl.generics hstart)]
      exact hagain z
  | true =>
      rw [implAfter_apply_true _ _ _ hstart] at hrun
      obtain ⟨params, e, hparams, hrest⟩ := bind_eq_some.mp hrun
      cases hkept : keepsParams m params with
      | true =>
          obtain ⟨read, written, hread, hwritten, hlr, hlw, hreplay⟩ := implKept_replays vis isDefault
            isUnsafe hg hleft.toPlainTypes hright c a d
              (implKept_run vis isDefault isUnsafe hparams hrest hkept)
          refine ⟨read, written, hread, hwritten, hlr, hlw, fun rest _ hbound =>
            ⟨trivial, fun z => ?_⟩⟩
          obtain ⟨himpl, hagain⟩ := hreplay rest trivial hbound
          exact implAfter_of_kept vis isDefault isUnsafe (himpl hstart) (hagain z)
      | false =>
          obtain ⟨rfl, rfl⟩ : m = .written ∧ params = [] := by
            unfold keepsParams at hkept
            split at hkept
            · exact ⟨rfl, rfl⟩
            · cases hkept
          obtain ⟨hsame, skipped, hskipped⟩ := angleParams_nil hg hparams
          obtain ⟨read, written, hread, hwritten, hlr, hlw, hreplay⟩ :=
            implBare_replays vis isDefault isUnsafe hg hleft hright e a d hrest
          refine ⟨skipped ++ read, written, by rw [hskipped, hread, List.append_assoc],
            by rw [hwritten, hsame], by rw [List.length_append]; omega, hlw, hreplay⟩

end Params

/-! ## Implementations -/

theorem implementation_eq (g : Grammar) (vis : Visibility) : implementation g vis =
    (word? "default" >>= fun isDefault => word? "unsafe" >>= fun isUnsafe => word "impl" >>= fun _ =>
      implAfter vis isDefault isUnsafe g) := by
  have hend : ∀ (isDefault isUnsafe : Bool) (params : List Node) (isConst negative forTrait : Bool)
      (first self : Node), (do
        let predicates ← whereClause g
        let body ← implItems g
        if !isInherited vis || isConst || (forTrait && !isPlainType first) then return .unread
        else
          let head := if forTrait then (params, self) else asWritten params self
          return .node body.1 vis isDefault (.implementation isUnsafe (.generics head.1 predicates)
            negative (if forTrait then some first else none) head.2 body.2) : Parser Found) =
        whereClause g >>= fun predicates => implItems g >>= fun body => pure
          (foundImpl vis isDefault isUnsafe params isConst negative forTrait first self predicates
            body) := by
    intro isDefault isUnsafe params isConst negative forTrait first self
    refine bind_congr fun predicates => bind_congr fun body => ?_
    rw [foundImpl, apply_ite pure]
  unfold implementation implAfter implRest implNegated implTypes
  refine bind_congr fun isDefault => bind_congr fun isUnsafe => bind_congr fun _ => ?_
  refine bind_congr fun hasParams => ?_
  cases hasParams
  all_goals
    refine bind_congr fun params => bind_congr fun isConst => ?_
    cases isConst
    on_goal 2 => refine bind_congr fun _ => bind_congr fun _ => ?_
    all_goals
      refine bind_congr fun isNegative => ?_
      cases isNegative
      all_goals
        refine bind_congr fun negative => bind_congr fun first => bind_congr fun forTrait =>
          bind_congr fun _ => ?_
        cases forTrait
        all_goals exact bind_congr fun self => hend _ _ _ _ _ _ _ _

/-- Both readings go on with an implementation. -/
def ImplementationStart : Follow := Marked "default" (Marked "unsafe" (Known "impl"))

/-- Implementations are read the same again. -/
theorem implementation_replays (hg : ∀ m, Knot m size g g') (hleft : BareTypes g)
    (hright : PlainTypes g') (vis : Visibility) :
    Replays m size 1 (FoundEnds m) (implementation g vis) (implementation g' vis)
      ImplementationStart := by
  rw [implementation_eq, implementation_eq]
  refine mark_replays "default" (fun isDefault => mark_replays "unsafe" (fun isUnsafe => ?_)
    fun _ _ h => h.2) fun _ _ h => h.lead fun _ _ h => h.2
  exact (word_known "impl").keep Any (fun _ =>
    (implAfter_replays vis isDefault isUnsafe hg hleft hright).forget) fun _ _ _ _ => trivial

end ActionUnits.Source
