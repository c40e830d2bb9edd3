import ActionUnits.Proofs.Source.Replay.Implementation
import ActionUnits.Proofs.Source.Replay.Use

/-! # Replaying declarations

Traits, modules, static variables, blocks of foreign items, and what else may be
declared in a file.
-/

namespace ActionUnits.Source

variable {m : Mode} {size least : Nat} {g g' : Grammar} {u u' : List Token}

/-! ## Traits -/

/-- The items of a trait and the attributes inside of it. -/
def traitItems (g : Grammar) : Parser (List Node × List Node) :=
  group .brace (innerAttrs g >>= fun attrs => untilEnd (traitItem g) >>= fun items =>
    pure (attrs, items))

/-- The items of a trait in their braces are read the same again. -/
theorem traitItems_replays (hg : ∀ m, Knot m size g g') :
    Replays m size 1 (fun _ => Any) (traitItems g) (traitItems g') (GroupStart .brace) :=
  (withInnerAttrs_closed (hg m) Prod.mk (itemList_replays (traitItem_replays hg))).smaller.noting
    kind_of_group

def endsTraitBounds : Peek := anyOf [isWord "where", isGroup .brace]

instance : Headed endsTraitBounds :=
  inferInstanceAs (Headed (anyOf [isWord "where", isGroup .brace]))

/-- The tokens that end the bounds of a trait alias. -/
def endsAliasedBounds : Peek := anyOf [isWord "where", isOp ";"]

instance : Headed endsAliasedBounds :=
  inferInstanceAs (Headed (anyOf [isWord "where", isOp ";"]))

/-- A trait after its parameters. -/
def traitBody (g : Grammar)
    (make : List Node → List Node → List Node × List Node → Found) : Parser Found := do
  let bounds ← colonList (plusList endsTraitBounds (bound g ⟨false, true⟩))
  let predicates ← whereClause g
  return make bounds predicates (← traitItems g)

/-- What follows the bounds of a trait. -/
def BodyStart (m : Mode) : Follow := Optional m (isWord "where") Lead (GroupStart .brace)

/-- What opens the body of a trait is a brace or a `where`, so a question about either is answered
the same. -/
theorem BodyStart.answer {question : Peek} [hq : Headed question] {told : Bool}
    (h : BodyStart m u u') (hwhere : question [.word "where"] = told)
    (hbrace : question [.group .brace []] = told) : question u' = told :=
  Optional.answer h hwhere fun _ h =>
    (@Headed.eq_of_kind_eq _ hq _ [.group .brace []] (h.2.kind_eq.symm.trans h.1)).trans hbrace

/-- Both readings go on with the bounds of a trait, or with what follows them. -/
def TraitBounds (m : Mode) : Follow :=
  Optional m (isOp ":") (ColonThen m (Either endsTraitBounds (BodyStart m) (BoundStart m)))
    (BodyStart m)

/-- The bounds, the conditions and the body of a trait are read the same again. -/
theorem traitBody_replays (hg : ∀ m, Knot m size g g')
    (make : List Node → List Node → List Node × List Node → Found) :
    Replays m size 0 (fun _ => Any) (traitBody g make) (traitBody g' make) (TraitBounds m) := by
  have hbounds : Replays m size 0 (fun _ => BodyStart m)
      (colonList (plusList endsTraitBounds (bound g ⟨false, true⟩)))
      (colonList (plusList endsTraitBounds (bound g' ⟨false, true⟩))) (TraitBounds m) := by
    refine colonList_replays (boundList_replays (m := m) hg ⟨false, true⟩ endsTraitBounds
      (BodyStart m) (fun _ _ h => h.typeEnds fun _ _ h => .of_brace h)
      (fun _ _ hno h => (h.headed rfl rfl).trans hno)
      fun _ _ _ h => h.answer rfl rfl).smaller ?_ fun _ _ h => h.answer rfl rfl
    rintro u u' h rfl
    refine h.elim (fun _ h => ?_) fun _ h => h.lead
    cases h with
    | present _ _ hlead => exact hlead
    | absent _ hends => exact hends.2
    | dropped hm _ _ _ => cases hm
  exact hbounds.bind _ (fun bounds => (whereClause_before hg fun _ _ h => .of_brace h).bind _
    (fun predicates => (traitItems_replays hg).forget.wrap) fun _ _ _ h => h) fun _ _ _ h => h

/-- A body that follows is told from an alias. -/
theorem BodyStart.not_assign (h : BodyStart m u u') : isOp "=" u = false := by
  have hno : kind u ≠ .punct '=' → isOp "=" u = false := isOp_of_kind rfl (by decide)
  cases h with
  | present hleft _ _ => exact hno (by rw [kind_of_isWord hleft]; nofun)
  | absent _ hends => exact hno (by rw [hends.1]; nofun)
  | dropped _ hleft _ _ => exact hno (by rw [kind_of_isWord hleft]; nofun)

theorem TraitBounds.not_assign (h : TraitBounds m u u') : isOp "=" u = false := by
  have hno : isOp ":" u = true → isOp "=" u = false := fun hcolon =>
    isOp_of_kind rfl (by decide) (by rw [kind_of_isOp rfl (by decide) hcolon]; decide)
  cases h with
  | present hleft _ _ => exact hno hleft
  | absent _ hends => exact hends.not_assign
  | dropped _ hleft _ _ => exact hno hleft

theorem TraitBounds.right (h : TraitBounds m u u') :
    isOp "<" u' = false ∧ isOp "=" u' = false := by
  cases h with
  | present _ _ h => exact ⟨h.toColon.not_less, isOp_of_kind rfl (by decide) (by
      rw [h.toColon.kind_right]; decide)⟩
  | absent _ h => exact ⟨h.answer rfl rfl, h.answer rfl rfl⟩
  | dropped _ _ _ h => exact ⟨h.answer rfl rfl, h.answer rfl rfl⟩

/-- A trait alias after its parameters. -/
def aliasBody (g : Grammar) (make : List Node → List Node → Found) : Parser Found := do
  op "="
  let bounds ← plusList endsAliasedBounds (bound g ⟨false, false⟩)
  let predicates ← whereClause g
  op ";"
  return make bounds predicates

/-- What a trait alias stands for is read the same again. -/
theorem aliasBody_replays (hg : ∀ m, Knot m size g g') (make : List Node → List Node → Found) :
    Replays m size 0 (fun _ => Any) (aliasBody g make) (aliasBody g' make)
      fun u u' => isOp "=" u = true ∧ Lead u u' := by
  have hbounds := (boundList_replays (m := m) hg ⟨false, false⟩ endsAliasedBounds
    (Optional m (isWord "where") Lead Semicolon) (fun _ _ h => h.typeEnds fun _ _ h => .of_semicolon h)
    (fun _ _ hno h => (h.headed rfl rfl).trans hno)
    fun _ _ _ h => h.answer rfl fun _ h => h.answer rfl).smaller
  refine (op_known "=").forget.bind Any (fun _ => ?_) fun _ _ _ _ => trivial
  refine (hbounds.bind _ (fun bounds => (whereClause_before hg fun _ _ h => .of_semicolon h).bind _
    (fun predicates => semicolon_replays _) fun _ _ _ h => h) fun _ _ _ h => h).before
    fun _ _ _ => trivial

/-- A trait or a trait alias after its parameters. -/
def traitAfter (g : Grammar) (isPlain : Bool) (short : List Node → List Node → Found)
    (make : List Node → List Node → List Node × List Node → Found) : Parser Found := do
  if isPlain && (← peek (isOp "=")) then aliasBody g short
  else traitBody g make

/-- After its name and parameters, a trait and a trait alias are told apart the same. -/
theorem traitAfter_replays (hg : ∀ m, Knot m size g g') (isPlain : Bool)
    (short : List Node → List Node → Found)
    (make : List Node → List Node → List Node × List Node → Found) :
    Replays m size 0 (fun _ => Any) (traitAfter g isPlain short make)
      (traitAfter g' isPlain short make) fun _ u' => isOp "<" u' = false := by
  have hbody := traitBody_replays (m := m) hg make
  unfold traitAfter
  cases isPlain with
  | false => exact Replays.ignore (hbody.before fun _ _ h => h.right.1)
  | true =>
      refine (Replays.choice ?_ ?_ fun _ _ h => h.2 : Replays _ _ _ _ _ _
        fun u u' => isOp "<" u' = false ∧ isOp "=" u' = isOp "=" u).before fun _ _ h => h.1
      · refine (aliasBody_replays hg short).before fun u u' h _ => ⟨?_, (Stable.eq_of_lead h.2).symm⟩
        exact h.2.answer h.1 rfl (by decide) rfl
      · exact hbody.before fun u u' h _ => ⟨h.right.1, h.right.2.trans h.not_assign.symm⟩

/-- Traits and trait aliases share their head. -/
theorem traitOrAlias_eq (g : Grammar) (vis : Visibility) : traitOrAlias g vis =
    (word? "unsafe" >>= fun isUnsafe => word? "auto" >>= fun isAuto => word "trait" >>= fun _ =>
      ident >>= fun name => genericParams g >>= fun params => traitAfter g (!isUnsafe && !isAuto)
        (fun bounds predicates =>
          .node [] vis false (.traitAlias name (.generics params predicates) bounds))
        fun bounds predicates body => .node body.1 vis false
          (.traitItem isUnsafe isAuto name (.generics params predicates) bounds body.2)) := by
  rfl

/-- Both readings go on with a trait. -/
def TraitStart : Follow := Marked "unsafe" (Marked "auto" (Known "trait"))

/-- Traits and trait aliases are read the same again. -/
theorem traitOrAlias_replays (hg : ∀ m, Knot m size g g') (vis : Visibility) :
    Replays m size 1 (fun _ => Any) (traitOrAlias g vis) (traitOrAlias g' vis) TraitStart := by
  rw [traitOrAlias_eq, traitOrAlias_eq]
  refine mark_replays "unsafe" (fun isUnsafe => mark_replays "auto" (fun isAuto => ?_)
    fun _ _ h => h.2) fun _ _ h => h.lead fun _ _ h => h.2
  refine (word_known "trait").keep Lead (fun _ => ?_) fun _ _ _ _ => trivial
  refine ident_closed.forget.bind Any (fun name => ?_) fun _ _ _ _ => trivial
  exact ((genericParams_loose hg fun _ _ h => h).bind _ (fun params => traitAfter_replays hg _ _ _)
    fun _ _ _ h => h)

/-! ## Modules -/

/-- The items of a module and the attributes inside of it. -/
def moduleItems (g : Grammar) : Parser (List Node × List Node) :=
  group .brace (innerAttrs g >>= fun attrs => untilEnd (g .item) >>= fun items =>
    pure (attrs, items))

theorem moduleItems_replays (hg : Knot m size g g') :
    Replays m size 1 (fun _ => Any) (moduleItems g) (moduleItems g') (GroupStart .brace) :=
  (withInnerAttrs_closed hg Prod.mk (itemList_replays hg.item)).smaller.noting kind_of_group

def moduleAfter (g : Grammar) (outside : Found) (inside : List Node × List Node → Found) :
    Parser Found := do
  if ← op? ";" then return outside
  else return inside (← moduleItems g)

/-- A module has its items in braces, or ends with a semicolon. -/
theorem moduleAfter_replays (hg : Knot m size g g') (outside : Found)
    (inside : List Node × List Node → Found) :
    Replays m size 0 (fun _ => Any) (moduleAfter g outside inside) (moduleAfter g' outside inside)
      Lead := by
  refine .op? (fun _ _ h => h) ((semicolon_replays outside).before fun _ _ h => h.2) ?_
  exact ((moduleItems_replays hg).forget.wrap).before fun _ _ h => h.2

/-- The name of a module may be a word that is no identifier. -/
theorem moduleItem_eq (g : Grammar) (vis : Visibility) : moduleItem g vis =
    (word? "unsafe" >>= fun isUnsafe => word "mod" >>= fun _ => peek (isWord "try") >>= fun b =>
      if b = true then anyWord >>= fun name => moduleAfter g
        (.node [] vis false (.module isUnsafe name none))
        fun body => .node body.1 vis false (.module isUnsafe name (some body.2))
      else ident >>= fun name => moduleAfter g (.node [] vis false (.module isUnsafe name none))
        fun body => .node body.1 vis false (.module isUnsafe name (some body.2))) := by
  unfold moduleItem moduleAfter moduleItems
  refine bind_congr fun isUnsafe => bind_congr fun _ => bind_congr fun isTry => ?_
  cases isTry
  all_goals rfl

/-- Modules are read the same again. -/
theorem moduleItem_replays (hg : Knot m size g g') (vis : Visibility) :
    Replays m size 1 (fun _ => Any) (moduleItem g vis) (moduleItem g' vis)
      (Marked "unsafe" (Known "mod")) := by
  rw [moduleItem_eq, moduleItem_eq]
  refine mark_replays "unsafe" (fun isUnsafe => ?_) fun _ _ h => h.2
  refine (word_known "mod").keep Lead (fun _ => ?_) fun _ _ _ _ => trivial
  refine .ite (fun _ _ h => h) ?_ ?_
  · exact ((anyWord_replays Lead).forget.bind _ (fun name => moduleAfter_replays hg _ _)
      fun _ _ _ h => h).before fun _ _ h => h.lead
  · exact ((ident_replays Lead).forget.bind _ (fun name => moduleAfter_replays hg _ _)
      fun _ _ _ h => h).before fun _ _ h => h.lead

/-! ## Static variables -/

/-- A static variable without a type, which has no meaning. -/
def untypedStatic (g : Grammar) : Parser Found := do
  op "="
  let _ ← g (.expr true)
  op ";"
  return .unread

/-- A static item without a type is read the same again. -/
theorem untypedStatic_replays (hg : Knot m size g g') :
    Replays m size 0 (fun _ => Any) (untypedStatic g) (untypedStatic g')
      fun u u' => isOp "=" u = true ∧ Lead u u' := by
  refine (op_known "=").forget.bind Start (fun _ => ?_) fun _ _ _ _ => trivial
  refine (hg.expr true).forget.bind Semicolon (fun _ => semicolon_replays _) fun _ _ _ h => ?_
  exact ValueEnds.edge ⟨.inr h.1, h.2⟩

def typedStatic (g : Grammar) (make : Node → Node → Found) : Parser Found := do
  op ":"
  let ty ← g (.ty true)
  if ← op? ";" then return .unread
  else
    op "="
    let value ← g (.expr true)
    op ";"
    return make ty value

/-- A static item with a type is read the same again. -/
theorem typedStatic_replays (hg : Knot m size g g') (make : Node → Node → Found) :
    Replays m size 0 (fun _ => Any) (typedStatic g make) (typedStatic g' make) Colon := by
  refine op_colon.forget.bind Lead (fun _ => ?_) fun _ _ _ h => h
  refine ((hg.ty true DefinitionEnds fun _ _ h => h.whereEnds.typeEnds).forget.bind _ (fun ty => ?_)
    fun _ _ _ h => h).before fun _ _ h => h.toLead
  refine .choiceOp ?_ ?_ fun u u' h => (Stable.eq_of_lead h.whereEnds.toLead).symm
  · refine (semicolon_replays _).before fun u u' h _ => .no ?_ h
    exact isOp_of_kind rfl (by decide) (by rw [kind_of_isOp rfl (by decide) h.1]; decide)
  · refine ((op_known "=").forget.bind Start (fun _ => ?_) fun _ _ _ _ => trivial).before
      fun u u' h _ => .yes h.1 h.2
    refine (hg.expr true).forget.bind Semicolon (fun value => semicolon_replays _)
      fun _ _ _ h => ?_
    exact ValueEnds.edge ⟨.inr h.1, h.2⟩

/-- Static items are told apart by what follows their name. -/
theorem staticItem_eq (g : Grammar) (vis : Visibility) : staticItem g vis =
    (word "static" >>= fun _ => word? "mut" >>= fun mutable => ident >>= fun name =>
      peek (isOp "=") >>= fun b => if b = true then untypedStatic g
        else typedStatic g fun ty value =>
          .node [] vis false (.staticItem mutable name ty (some value))) := by
  unfold staticItem
  refine bind_congr fun _ => bind_congr fun mutable => bind_congr fun name => ?_
  rw [op?_bind]
  rfl

/-- Static items are read the same again. -/
theorem staticItem_replays (hg : Knot m size g g') (vis : Visibility) :
    Replays m size 1 (fun _ => Any) (staticItem g vis) (staticItem g' vis) (Keyword "static") := by
  rw [staticItem_eq, staticItem_eq]
  refine (word_then "static" Lead).keep _ (fun _ => (word?_closed "mut").bind Lead
    (fun mutable => ?_) fun _ _ _ h => h) fun _ _ _ h => h
  refine ((ident_replays fun u u' => isOp "=" u' = isOp "=" u).forget.bind _ (fun name => ?_)
    fun _ _ _ h => h).before fun _ _ h => h.lead
  refine .choice ?_ ?_ fun _ _ h => h
  · exact (untypedStatic_replays hg).before fun u u' h _ => (Stable.eq_of_lead h.2).symm
  · refine (typedStatic_replays hg _).before fun u u' h _ => ?_
    have hno : ∀ {v}, kind v = .punct ':' → isOp "=" v = false := fun hv =>
      isOp_of_kind rfl (by decide) (by rw [hv]; decide)
    rw [hno h.kind_left, hno h.kind_right]

/-! ## Macro definitions -/

/-- The definition of a macro is read token by token. -/
theorem macroDefinition_replays :
    Replays m size 1 (fun _ => Any) macroDefinition macroDefinition (Known "macro") := by
  have hbody : Replays m size 0 (fun _ => Any)
      (peek (isGroup .brace) >>= fun b => require b >>= fun _ => anyGroup >>= fun _ =>
        pure Found.unread)
      (peek (isGroup .brace) >>= fun b => require b >>= fun _ => anyGroup >>= fun _ =>
        pure Found.unread) Lead :=
    .require (fun _ _ h => h) anyGroup_closed.forget.wrap
  refine (word_known "macro").keep Lead (fun _ => ?_) fun _ _ _ _ => trivial
  refine ident_closed.forget.bind Lead (fun _ => ?_) fun _ _ _ _ => trivial
  exact .ite (fun _ _ h => h) (anyGroup_closed.seq _ fun _ => hbody) hbody

/-! ## Foreign items -/

/-- The name of a foreign convention is read the same again. -/
theorem abi_marked :
    Replays m size 0 (fun _ => Lead) abi abi (Marked "extern" Lead) := by
  unfold abi
  refine mark_replays "extern" (fun isExtern => ?_) fun _ _ h => h
  cases isExtern with
  | false => exact .pure _
  | true =>
      refine .ite (fun _ _ h => h) ?_ (.pure _)
      refine literal_closed.forget.bind Lead (fun name => ?_) fun _ _ _ _ => trivial
      split
      · exact .pure _
      · exact .failure

/-- The items of a foreign block and the attributes inside of it. -/
def foreignBody (g : Grammar) : Parser (List Node × List Node) :=
  group .brace (innerAttrs g >>= fun attrs => untilEnd (foreignItem g) >>= fun items =>
    pure (attrs, items))

/-- The foreign items in their braces are read the same again. -/
theorem foreignBody_replays (hg : ∀ m, Knot m size g g') :
    Replays m size 1 (fun _ => Any) (foreignBody g) (foreignBody g') (GroupStart .brace) :=
  (withInnerAttrs_closed (hg m) Prod.mk (itemList_replays (foreignItem_replays hg))).smaller.noting
    kind_of_group

/-- Whether a block of foreign items comes next. -/
def isForeignStart : Peek := fun tokens => isGroup .brace (afterAbi (afterWord "unsafe" tokens))

/-- Both readings go on with a block of foreign items. -/
structure ForeignStart (u u' : List Token) : Prop where
  marked : Marked "unsafe" (Marked "extern" Lead) u u'
  left : isForeignStart u = true
  right : isForeignStart u' = true

/-- Where foreign items are read, they have been announced. -/
theorem isForeignStart_of_foreignItems {c d : Cursor} {vis : Visibility} {a : Found}
    (h : foreignItems g vis c = some (a, d)) : isForeignStart c.rest = true := by
  unfold foreignItems at h
  obtain ⟨_, c₁, hrisky, h⟩ := bind_eq_some.mp h
  obtain ⟨_, c₂, habi, h⟩ := bind_eq_some.mp h
  obtain ⟨_, c₃, hbody, -⟩ := bind_eq_some.mp h
  unfold isForeignStart
  rw [← word?_rest hrisky, ← abi_rest habi]
  exact isGroup_of_kind (kind_of_group hbody)

/-- Blocks of foreign items are read the same again. -/
theorem foreignItems_replays (hg : ∀ m, Knot m size g g') (vis : Visibility) :
    Replays m size 1 (fun _ => Any) (foreignItems g vis) (foreignItems g' vis) ForeignStart := by
  have hbody : ∀ isUnsafe abi, Replays m size 1 (fun _ => Any)
      (foreignBody g >>= fun body =>
        pure (Found.node body.1 vis false (.foreignItems isUnsafe abi body.2)))
      (foreignBody g' >>= fun body =>
        pure (Found.node body.1 vis false (.foreignItems isUnsafe abi body.2))) (GroupStart .brace) :=
    fun isUnsafe abi => (foreignBody_replays hg).wrap
  have hitems : Replays m size 1 (fun _ => Any) (foreignItems g vis) (foreignItems g' vis)
      (Marked "unsafe" (Marked "extern" Lead)) :=
    mark_replays "unsafe" (fun isUnsafe => abi_marked.bind _ (fun abi => hbody isUnsafe abi)
      fun _ _ _ h => h.2) fun _ _ h => h.lead fun _ _ h => h
  refine (hitems.comparing (Q := fun u u' => isForeignStart u = true ∧ isForeignStart u' = true)
    fun hrun hagain _ => ⟨isForeignStart_of_foreignItems hrun, isForeignStart_of_foreignItems hagain⟩).before
    fun u u' h => ⟨h.2, h.1.1, h.1.2⟩

/-- A declaration of another library. -/
def externCrate (make : Ident → Option Ident → Found) : Parser Found := do
  word "extern"
  word "crate"
  let name ← if ← peek (isWord "self") then anyWord else ident
  let newName ← when? (isWord "as") do
    word "as"
    useAlias
  op ";"
  return make name newName

/-- Both readings go on with a declaration of another library. -/
def ExternCrateStart : Follow := fun u u' =>
  isWord "extern" u = true ∧ WordThen (Keyword "crate") u u'

/-- The import of a crate is read the same again. -/
theorem externCrate_replays (make : Ident → Option Ident → Found) :
    Replays m size 1 (fun _ => Any) (externCrate make) (externCrate make) ExternCrateStart := by
  have hend : ∀ name, Replays m size 0 (fun _ => Any)
      (when? (isWord "as") (do word "as"; useAlias) >>= fun newName => op ";" >>= fun _ =>
        pure (make name newName))
      (when? (isWord "as") (do word "as"; useAlias) >>= fun newName => op ";" >>= fun _ =>
        pure (make name newName)) Lead := by
    intro name
    refine .when? (fun _ _ h => h) ?_ ((semicolon_replays _).before fun _ _ h => h.2)
    have halias : Replays m size 0 (fun _ => Any) (do word "as"; useAlias) (do word "as"; useAlias)
        Lead :=
      (word_closed "as").forget.seq Lead fun _ => useAlias_replays.forget
    exact halias.bind Semicolon (fun new => semicolon_replays _) fun _ _ _ _ => trivial
  unfold externCrate
  refine (word_then "extern" _).keep _ (fun _ => (word_then "crate" Lead).forget.bind Lead
    (fun _ => ?_) fun _ _ _ h => h) fun _ _ _ h => h
  refine .ite (fun _ _ h => h) ?_ ?_
  · exact ((anyWord_replays Lead).forget.bind _ hend fun _ _ _ h => h).before fun _ _ h => h.lead
  · exact ((ident_replays Lead).forget.bind _ hend fun _ _ _ h => h).before fun _ _ h => h.lead

/-- Whether braces follow `extern`, maybe after the name of a calling convention. -/
def opensBlock : Peek := (second (isGroup .brace)).or ((second isString).and (third (isGroup .brace)))

/-- Foreign items are no import of a crate. -/
theorem opensBlock_of_isForeignStart (hforeign : isWord "extern" u = true)
    (h : isForeignStart u = true) : opensBlock u = true ∧ second (isWord "crate") u = false := by
  obtain ⟨r, rfl⟩ := exists_of_kind_word (kind_of_isWord hforeign)
  have hafter : isGroup .brace (if isString r then r.tail else r) = true := h
  have hcrate : ∀ {question : Peek} [Headed question], question [.word "crate"] = false →
      question r = true → isWord "crate" r = false := fun {question hq} hno hyes => by
    cases hword : isWord "crate" r with
    | false => rfl
    | true =>
        have : question r = question [.word "crate"] := hq.eq_of_kind_eq (kind_of_isWord hword)
        exact absurd (hyes.symm.trans (this.trans hno)) (by decide)
  cases hstring : isString r with
  | true =>
      rw [hstring, if_pos rfl] at hafter
      obtain ⟨text, t, rfl⟩ : ∃ text t, r = .literal text :: t := by
        unfold isString at hstring
        split at hstring
        · exact ⟨_, _, rfl⟩
        · cases hstring
      refine ⟨?_, rfl⟩
      have hthird : third (isGroup .brace) (.ident ⟨"extern"⟩ :: .literal text :: t) = true := hafter
      have hsecond : second isString (.ident ⟨"extern"⟩ :: .literal text :: t) = true := hstring
      rw [opensBlock, Peek.or, Peek.and, hsecond, hthird, Bool.and_true, Bool.or_true]
  | false =>
      rw [hstring, if_neg (by decide)] at hafter
      have hsecond : second (isGroup .brace) (.ident ⟨"extern"⟩ :: r) = true := hafter
      exact ⟨by rw [opensBlock, Peek.or, hsecond, Bool.true_or], hcrate rfl hafter⟩

/-- Whether a block of foreign items that starts with `extern` comes next. -/
def isExternBlock : Peek := (isWord "extern").and opensBlock

/-- An item that starts with `extern`, where it is known that one does. -/
def externKind (g : Grammar) (vis : Visibility) : Parser Found := do
  if ← peek (second (isWord "crate")) then
    externCrate fun name newName => .node [] vis false (.externCrate name newName)
  else
    require (← peek isExternBlock)
    foreignItems g vis

/-- Once `extern` has been seen, the cases of a risky block need no further look. -/
theorem externItem_eq (g : Grammar) (vis : Visibility) (p : Parser Found) :
    (peek (isWord "extern") >>= fun b => if b = true then externItem g vis else p) =
      (peek (isWord "extern") >>= fun b => if b = true then externKind g vis else p) := by
  funext c
  rw [peek_bind_apply, peek_bind_apply]
  cases hforeign : isWord "extern" c.rest with
  | false => rfl
  | true =>
      have hopens : (peek isExternBlock >>= fun b => require b >>= fun _ => foreignItems g vis) c =
          (peek opensBlock >>= fun b => require b >>= fun _ => foreignItems g vis) c := by
        rw [peek_bind_apply, peek_bind_apply, isExternBlock, Peek.and, hforeign, Bool.true_and]
      change externItem g vis c = externKind g vis c
      unfold externItem externKind
      rw [peek_bind_apply, peek_bind_apply]
      cases second (isWord "crate") c.rest with
      | false => exact hopens.symm
      | true => rfl

/-- Both readings go on with an item that starts with `extern`. -/
def ExternStart : Follow := fun u u' =>
  ExternCrateStart u u' ∨ (isWord "extern" u = true ∧ ForeignStart u u')

theorem ForeignStart.wordThen (h : ForeignStart u u') (hforeign : isWord "extern" u = true) :
    WordThen Lead u u' :=
  (h.marked.2 (not_isWord_of_isWord hforeign (by decide))).1 hforeign

theorem ForeignStart.right_word (h : ForeignStart u u') (hforeign : isWord "extern" u = true) :
    isWord "extern" u' = true :=
  (Stable.eq_of_lead (h.wordThen hforeign).lead).symm.trans hforeign

/-- All items that start with `extern` are read the same again. -/
theorem externKind_replays (hg : ∀ m, Knot m size g g') (vis : Visibility) :
    Replays m size 1 (fun _ => Any) (externKind g vis) (externKind g' vis) ExternStart := by
  have hblock : Replays m size 1 (fun _ => Any)
      (peek isExternBlock >>= fun b => require (id b) >>= fun _ => foreignItems g vis)
      (peek isExternBlock >>= fun b => require (id b) >>= fun _ => foreignItems g' vis)
      fun u u' => isExternBlock u = true ∧ ForeignStart u u' := by
    refine ((foreignItems_replays hg vis).demand id fun u u' h hyes => ?_).noting fun hrun =>
      (require_peek_bind.mp hrun).1
    have hright := h.right_word ((Bool.and_eq_true _ _).mp hyes).1
    exact (Bool.and_eq_true _ _).mpr ⟨hright, (opensBlock_of_isForeignStart hright h.right).1⟩
  unfold externKind
  refine .choice ((externCrate_replays _).before fun _ _ h _ => .inl h)
    (hblock.before fun u u' h _ => .inr ⟨((Bool.and_eq_true _ _).mp h.1).1, h.2⟩) ?_
  rintro u u' (⟨hforeign, name, r, r', rfl, rfl, hcrate, hrest⟩ | ⟨hforeign, h⟩)
  · exact (Stable.eq_of_lead hrest.lead).symm
  · rw [(opensBlock_of_isForeignStart hforeign h.left).2,
      (opensBlock_of_isForeignStart (h.right_word hforeign) h.right).2]

end ActionUnits.Source
