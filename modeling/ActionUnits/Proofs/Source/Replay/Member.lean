import ActionUnits.Proofs.Source.Replay.Field

/-! # Replaying constants, type aliases and macro calls

These are items by themselves, and items inside of others. Some forms of a constant
or of a type alias have no meaning and are kept unread. Whether they have one of
these forms depends on parts that may not be written, so where they are written
as they were read, nothing is said about these forms.
-/

namespace ActionUnits.Source

variable {m : Mode} {size least : Nat} {g g' : Grammar} {u u' : List Token}

/-! ## Macro calls -/

/-- A group kept as it is is read the same again, with what must follow it. -/
theorem anyGroup_then (Post : Follow) :
    Replays m size 1 (fun _ => Post) anyGroup anyGroup fun u u' => ∃ delimiter body r r',
      u = .group delimiter body :: r ∧ u' = .group delimiter body :: r' ∧ Post r r' := by
  intro c a d hrun
  obtain ⟨delimiter, body⟩ := a
  obtain ⟨hrest, hwritten⟩ := anyGroup_eq_some.mp hrun
  refine ⟨[.group delimiter body], [.group delimiter body], hrest, hwritten, by simp, by simp,
    fun rest hpost _ => ?_⟩
  rw [Mode.pick_self, hrest]
  exact ⟨⟨_, _, _, _, rfl, rfl, hpost⟩, fun z => anyGroup_eq_some.mpr ⟨rfl, rfl⟩⟩

/-- What follows the exclamation mark of a macro call, up to what follows its group. -/
def CallThen : Follow := fun u u' =>
  Lead u u' ∧ ∀ delimiter, kind u = .group delimiter → Lead u.tail u'.tail

/-- A macro call as an item, after its exclamation mark. -/
def callAfter (named : Bool) (make : Option Ident → Delimiter → List Token → Bool → Node) :
    Parser Node := do
  let name ← if named then when? (isIdent.or (isWord "try")) anyWord else pure none
  let (delimiter, body) ← anyGroup
  let semicolon := delimiter != .brace
  if semicolon then op ";"
  return make name delimiter body semicolon

/-- The rest of a macro call used as an item is read the same again. -/
theorem callAfter_replays (named : Bool)
    (make : Option Ident → Delimiter → List Token → Bool → Node) :
    Replays m size 1 (fun _ => Lead) (callAfter named make) (callAfter named make) CallThen := by
  have hgroup : ∀ name, Replays m size 1 (fun _ => Lead)
      (anyGroup >>= fun a => if (a.1 != .brace) = true then
        op ";" >>= fun _ => pure (make name a.1 a.2 (a.1 != .brace))
        else pure (make name a.1 a.2 (a.1 != .brace)))
      (anyGroup >>= fun a => if (a.1 != .brace) = true then
        op ";" >>= fun _ => pure (make name a.1 a.2 (a.1 != .brace))
        else pure (make name a.1 a.2 (a.1 != .brace))) CallThen := by
    intro name
    refine ((anyGroup_then Lead).keep Lead (fun a => .fixed (fun _ => ?_) fun _ => .pure _)
      fun _ _ _ h => h).before ?_
    · exact ((op_closed ";").forget.wrap).after fun _ _ _ _ => trivial
    · rintro u u' ⟨delimiter, body, r, r', rfl, rfl, hlead⟩
      exact ⟨.group _ _ _ _ _, fun _ _ => hlead⟩
  have hlead : ∀ u u', CallThen u u' → Lead u u' := fun u u' h => h.1
  unfold callAfter
  cases named with
  | false => exact hgroup none
  | true =>
      refine .when? hlead ?_ (hgroup none)
      refine ((anyWord_replays Lead).keep Lead (fun name => ?_) fun _ _ _ h => h).before ?_
      · exact (hgroup (some name)).forget.before hlead
      · rintro u u' ⟨name, r, r', rfl, rfl, -⟩
        exact ⟨.word _ _ _, nofun⟩

/-- A plain segment is one name that may stand in a path. -/
theorem plainSegment_eq_some {c d : Cursor} {name : Ident} (h : plainSegment c = some (name, d)) :
    c.rest = .ident name :: d.rest ∧ isPlainSegment [.ident name] = true := by
  obtain ⟨hplain, hword⟩ := require_peek_bind.mp h
  obtain ⟨hrest, -⟩ := anyWord_eq_some.mp hword
  rw [hrest] at hplain
  exact ⟨hrest, hplain⟩

theorem afterNames_of_plainSegment {c d : Cursor} {name : Ident}
    (h : plainSegment c = some (name, d)) : afterNames c.rest = afterTail d.rest := by
  obtain ⟨hrest, hplain⟩ := plainSegment_eq_some h
  rw [hrest, afterNames_ident, if_pos hplain]

/-- Behind the segments of a plain path, looking ahead sees what reading left. -/
theorem afterTail_of_plainSegments {c d : Cursor} {names : List Ident}
    (h : many (isOp "::") (do op "::"; plainSegment) c = some (names, d)) :
    afterTail c.rest = some d.rest := by
  have hrounds := (repeated_eq_some.mp h).2
  clear h
  induction hrounds with
  | stop hstep =>
      rw [peek_bind_apply] at hstep
      split at hstep
      next =>
          obtain ⟨_, _, -, hpure⟩ := bind_eq_some.mp hstep
          cases hpure
      next hno =>
          obtain ⟨-, rfl⟩ := pure_eq_some.mp hstep
          rw [afterTail, if_neg hno]
  | next hstep _ ih =>
      rw [peek_bind_apply] at hstep
      split at hstep
      next hyes =>
          obtain ⟨_, e', hrun, hpure⟩ := bind_eq_some.mp hstep
          obtain ⟨-, rfl⟩ := pure_eq_some.mp hpure
          obtain ⟨_, e'', hop, hsegment⟩ := bind_eq_some.mp hrun
          obtain ⟨-, rfl⟩ := op_eq_some.mp hop
          rw [afterTail, if_pos hyes]
          exact (afterNames_of_plainSegment hsegment).trans ih
      next => cases hstep

/-- A plain path ends where the question about macro calls finds its end. -/
theorem afterPlainPath_of_plainPath {c d : Cursor} {path : PlainPath}
    (h : plainPath c = some (path, d)) : afterPlainPath c.rest = some d.rest := by
  obtain ⟨rooted, e, hrooted, h⟩ := bind_eq_some.mp h
  obtain ⟨first, e₁, hfirst, h⟩ := bind_eq_some.mp h
  obtain ⟨others, e₂, hothers, hpure⟩ := bind_eq_some.mp h
  obtain ⟨-, rfl⟩ := pure_eq_some.mp hpure
  have hnames : afterNames e.rest = some e₂.rest :=
    (afterNames_of_plainSegment hfirst).trans (afterTail_of_plainSegments hothers)
  rcases op?_cases hrooted with ⟨-, hno, rfl⟩ | ⟨-, hyes, rfl⟩
  · rw [afterPlainPath, if_neg (by rw [hno]; decide)]
    exact hnames
  · rw [afterPlainPath, if_pos hyes]
    exact hnames

/-- Both readings go on with a macro call. -/
structure CallStart (u u' : List Token) : Prop extends Lead u u' where
  word : AfterWord Lead u u'
  call : macroStart u' = macroStart u

theorem exists_of_isGroup {delimiter : Delimiter} (h : isGroup delimiter u = true) :
    ∃ body rest, u = .group delimiter body :: rest := by
  unfold isGroup at h
  split at h
  next d body rest => exact ⟨body, rest, by rw [eq_of_beq h]⟩
  next => cases h

theorem macroStart_of_bang {joint : Bool} {r : List Token}
    (h : afterPlainPath u = some (.punct '!' joint :: r)) :
    macroStart u = if (isIdent.or (isWord "try")) r then .item
      else if isGroup .brace r && !goesOnAfterCall (afterOne r) then .statement else .other := by
  rw [macroStart, h]
  cases joint <;> rfl

/-- Two texts that go on alike behind a plain path start the same kind of call. -/
theorem macroStart_of_callThen {after after' : List Token} (h : afterPlainPath u = some after)
    (h' : afterPlainPath u' = some after') (hafter : OpThen m "!" CallThen after after') :
    macroStart u' = macroStart u := by
  obtain ⟨joint, joint', r, r', rfl, rfl, -, hlead, hgroup⟩ := hafter.single '!' rfl
  have hbrace : (isGroup .brace r' && !goesOnAfterCall (afterOne r')) =
      (isGroup .brace r && !goesOnAfterCall (afterOne r)) := by
    cases hkind : isGroup .brace r with
    | false => rw [← (Stable.eq_of_lead hlead : isGroup .brace r = _), hkind, Bool.false_and,
        Bool.false_and]
    | true =>
        have hkind' : isGroup .brace r' = true := (Stable.eq_of_lead hlead).symm.trans hkind
        obtain ⟨body, t, rfl⟩ := exists_of_isGroup hkind
        obtain ⟨body', t', rfl⟩ := exists_of_isGroup hkind'
        have hrest : Lead t t' := hgroup .brace rfl
        exact congrArg (fun b => true && !b) (Stable.eq_of_lead hrest).symm
  rw [macroStart_of_bang h, macroStart_of_bang h', hbrace,
    (Stable.eq_of_lead hlead : (isIdent.or (isWord "try")) r = _)]

/-- The path of a macro call. -/
theorem calledPath_replays :
    Replays m size 1 (fun _ => OpThen m "!" CallThen) plainPath plainPath CallStart := by
  have hmark : ∀ u u', OpThen m "!" CallThen u u' → isOp "::" u' = false := fun u u' h => by
    obtain ⟨joint, joint', r, r', rfl, rfl, -⟩ := h.single '!' rfl
    cases joint' <;> rfl
  refine ((plainPath_then fun u u' h => .of_not (hmark u u' h)).comparing
    (Q := fun u u' => macroStart u' = macroStart u) fun hrun hrun' hafter =>
      macroStart_of_callThen (afterPlainPath_of_plainPath hrun)
        (afterPlainPath_of_plainPath hrun') hafter).before fun u u' h => ⟨h.2.1, ?_, h.1⟩
  exact fun name r r' hu hu' => (h.2.2 name r r' hu hu').elim (fun _ h => h)
    fun _ h => h.lead (by decide)

/-- A macro used as an item is a plain path, a mark and its call. -/
theorem macroItem_eq (named : Bool) : macroItem named = (plainPath >>= fun path => op "!" >>= fun _ =>
    callAfter named fun name delimiter body semicolon =>
      .macroItem name ⟨path, delimiter, body⟩ semicolon) := by
  unfold macroItem callAfter
  cases named <;> rfl

/-- Macro calls used as items are read the same again. -/
theorem macroItem_replays (named : Bool) :
    Replays m size 1 (fun _ => Lead) (macroItem named) (macroItem named) CallStart := by
  rw [macroItem_eq]
  refine calledPath_replays.keep _ (fun path => ?_) fun _ _ _ h => h
  exact (op_then "!" CallThen).forget.bind _ (fun _ => (callAfter_replays named _).forget)
    fun _ _ _ h => h

/-! ## Forms that are kept unread -/

/-- What follows a form, and in a second reading of what was written that the form is not one of
those that are kept unread. -/
def Taken (m : Mode) (isUnread : Bool) (P : Follow) : Follow :=
  fun r r' => (m = .written → isUnread = false) ∧ P r r'

/-- Nothing needs to be known of a second reading whose end is excluded. -/
theorem Replays.never {α : Type} {Post Post' : α → Follow} {Pre Pre' : Follow} {p p' q : Parser α}
    (h : Replays m size least Post p p' Pre)
    (hno : ∀ {c a d}, p c = some (a, d) → ∀ r r', ¬ Post' a r r') :
    Replays m size least Post' p q Pre' := by
  intro c a d hrun
  obtain ⟨read, written, hread, hwritten, hlr, hlw, -⟩ := h c a d hrun
  exact ⟨read, written, hread, hwritten, hlr, hlw, fun rest hrest => absurd hrest (hno hrun _ _)⟩

/-! ## Constants -/

/-- A semicolon comes next. -/
def Semicolon : Follow := fun u u' => isOp ";" u = true ∧ Lead u u'

/-- A closing semicolon is read the same again. -/
theorem semicolon_replays {α : Type} (a : α) :
    Replays m size 0 (fun _ => Any) (op ";" >>= fun _ => pure a) (op ";" >>= fun _ => pure a)
      Semicolon :=
  (op_known ";").forget.wrap

/-- Conditions in front of something that may follow the conditions of an item. -/
theorem whereClause_before (hg : ∀ m, Knot m size g g') {End : Follow}
    (hEnd : ∀ u u', End u u' → WhereEnds u u') :
    Replays m size 0 (fun _ => End) (whereClause g) (whereClause g')
      (Optional m (isWord "where") Lead End) := by
  have hlist : Replays m size 1 (fun _ => End) (do word "where"; predicates g)
      (do word "where"; predicates g') Lead :=
    (word_closed "where").keep Lead (fun _ => (predicates_replays hg).after fun _ _ _ h =>
      hEnd _ _ h) fun _ _ _ _ => trivial
  exact optional_replays hlist (fun u u' hyes h => (Stable.eq_of_lead h).symm.trans hyes)
    fun u u' h => answer_of_endsWhere (hEnd u u' h).right rfl rfl rfl

/-- What follows the value of a constant or of a type alias. -/
def ValueEnds : Follow := fun u u' => (isWord "where" u = true ∨ isOp ";" u = true) ∧ Lead u u'

theorem ValueEnds.edge (h : ValueEnds u u') : Edge u u' := by
  refine h.2.edge ?_
  rcases h.1 with hwhere | hsemicolon
  · rw [kind_of_isWord hwhere]
    rfl
  · rw [kind_of_isOp (rfl : ";".toList = [';']) (by decide) hsemicolon]
    rfl

/-- Where conditions are written, or none are read, the second reading goes on alike. -/
theorem Optional.valueEnds (h : Optional m (isWord "where") Lead Semicolon u u')
    (hread : m = .written → isWord "where" u = false) : ValueEnds u u' := by
  cases h with
  | present hleft _ hlead => exact ⟨.inl hleft, hlead⟩
  | absent _ hends => exact ⟨.inr hends.1, hends.2⟩
  | dropped hm hleft _ _ => exact absurd ((hread hm).symm.trans hleft) (by decide)

/-- The end of a constant: conditions and a semicolon. -/
def constEnd (g : Grammar) (result : Option Node) : Parser (Option Node) := do
  let _ ← whereClause g
  op ";"
  return result

/-- The end of a constant decides whether it is kept, not what it is. -/
theorem constEnd_result {c d : Cursor} {a result : Option Node}
    (h : constEnd g result c = some (a, d)) : a = result := by
  obtain ⟨_, _, -, h⟩ := bind_eq_some.mp h
  obtain ⟨_, _, -, h⟩ := bind_eq_some.mp h
  exact (pure_eq_some.mp h).1.symm

/-- The end of a constant is read the same again. -/
theorem constEnd_replays (hg : ∀ m, Knot m size g g') (result : Option Node) :
    Replays m size 0 (fun _ => Any) (constEnd g result) (constEnd g' result)
      (Optional m (isWord "where") Lead Semicolon) :=
  (whereClause_before hg fun _ _ h => .of_semicolon h).bind _ (fun _ => semicolon_replays result)
    fun _ _ _ h => h

def constTail (g : Grammar) (unread : Bool) (node : Node) : Parser (Option Node) := do
  let conditional ← peek (isWord "where")
  constEnd g (if unread || conditional then none else some node)

/-- A constant that is not kept as a node stays without one. -/
theorem constTail_unread {c d : Cursor} {node : Node} {a : Option Node}
    (h : constTail g true node c = some (a, d)) : a = none := by
  unfold constTail at h
  rw [peek_bind_apply] at h
  exact constEnd_result h

/-- The type and the value of a constant are read the same again. -/
theorem constTail_replays (hg : ∀ m, Knot m size g g') (unread : Bool) (node : Node) :
    Replays m size 0 (fun a => Taken m a.isNone Any) (constTail g unread node)
      (constTail g' unread node) ValueEnds := by
  refine .each (fun conditional => ?_) fun u u' h => (Stable.eq_of_lead h.2).symm
  have hend := constEnd_replays (m := m) hg (if unread || conditional then none else some node)
  cases conditional with
  | false => exact (hend.after fun _ _ _ _ => trivial).before fun u u' h hno => h.valueEnds fun _ => hno
  | true =>
      cases m with
      | verbatim => exact (hend.after fun _ _ _ _ => trivial).before fun u u' h _ => h.valueEnds nofun
      | written =>
          refine hend.never fun hrun r r' htaken => ?_
          rw [constEnd_result hrun, Bool.or_true] at htaken
          exact Bool.noConfusion (htaken.1 rfl)

/-- What follows the type of a constant: its value, or the end. -/
def TypedEnds : Follow := Either (isOp "=") Lead ValueEnds

theorem TypedEnds.lead (h : TypedEnds u u') : Lead u u' := h.elim (fun _ h => h) fun _ h => h.2

theorem TypedEnds.typeEnds (h : TypedEnds u u') : TypeEnds u u' := by
  refine h.elim (fun hassign h => h.typeEnds ?_) fun _ h => h.edge.typeEnds
  rw [kind_of_isOp (rfl : "=".toList = ['=']) (by decide) hassign]
  rfl

def constAfter (g : Grammar) (needsValue : Bool) (name : Ident) (generic : Bool) :
    Parser (Option Node) := do
  let _ ← genericParams g
  op ":"
  let ty ← g (.ty true)
  let value ← when? (isOp "=") do
    op "="
    g (.expr true)
  constTail g (generic || (needsValue && value.isNone)) (.constItem name ty value)

/-- A constant item is its name and what follows the name. -/
theorem constItem_eq (g : Grammar) (needsValue : Bool) :
    constItem g needsValue = (word "const" >>= fun _ => peek (isIdent.or (isWord "_")) >>= fun b =>
      require b >>= fun _ => anyWord >>= fun name => peek (isOp "<") >>= fun generic =>
        constAfter g needsValue name generic) := by
  have hresult : ∀ (generic conditional valueless : Bool) (node : Node),
      (if (generic || conditional || valueless) = true then pure none else pure (some node) :
        Parser (Option Node)) =
      pure (if (generic || valueless || conditional) = true then none else some node) := by
    rintro (_ | _) (_ | _) (_ | _) node <;> rfl
  unfold constItem constAfter constTail constEnd
  simp only [hresult]

/-- Both readings go on with a constant. -/
def ConstItemStart : Follow := fun u u' => isWord "const" u = true ∧
  WordThen (fun r r' => (isIdent.or (isWord "_")) r = true ∧ WordThen Any r r') u u'

theorem Colon.not_less (h : Colon u u') : isOp "<" u' = false :=
  isOp_of_kind (rfl : "<".toList = ['<']) (by decide) (by rw [h.kind_right]; decide)

theorem constAfter_unread {c d : Cursor} {needsValue : Bool} {name : Ident} {a : Option Node}
    (h : constAfter g needsValue name true c = some (a, d)) : a = none := by
  obtain ⟨_, _, -, h⟩ := bind_eq_some.mp h
  obtain ⟨_, _, -, h⟩ := bind_eq_some.mp h
  obtain ⟨ty, _, -, h⟩ := bind_eq_some.mp h
  obtain ⟨value, _, -, h⟩ := bind_eq_some.mp h
  exact constTail_unread h

/-- What follows the name of a constant is read the same again. -/
theorem constAfter_replays (hg : ∀ m, Knot m size g g') (needsValue : Bool) (name : Ident)
    (generic : Bool) :
    Replays m size 0 (fun a => Taken m a.isNone Any) (constAfter g needsValue name generic)
      (constAfter g' needsValue name generic) (Optional m (isOp "<") (ParamsStart m g) Colon) := by
  refine (genericParams_replays hg fun _ _ h => h.not_less).smaller.bind _ (fun _ => ?_)
    fun _ _ _ h => h
  refine op_colon.forget.bind Lead (fun _ => ?_) fun _ _ _ h => h
  refine (((hg m).ty true TypedEnds fun _ _ h => h.typeEnds).forget.bind _ (fun ty =>
    .choiceWhen ?_ ?_ fun u u' h => (Stable.eq_of_lead h.lead).symm) fun _ _ _ h => h).before
    fun _ _ h => h.toLead
  · rw [bind_assoc, bind_assoc]
    refine ((op_closed "=").forget.bind Start (fun _ => ?_) fun _ _ _ _ => trivial).before
      fun u u' h hyes => .yes hyes h
    exact ((hg m).expr true).forget.bind ValueEnds (fun value => constTail_replays hg _ _)
      fun _ _ _ h => h.edge
  · exact (constTail_replays hg _ _).before fun u u' h hno => .no hno h

/-- Constant items are read the same again. -/
theorem constItem_replays (hg : ∀ m, Knot m size g g') (needsValue : Bool) :
    Replays m size 1 (fun a => Taken m a.isNone Any) (constItem g needsValue)
      (constItem g' needsValue) ConstItemStart := by
  have hname : Replays m size 1 (fun a => Taken m a.isNone Any)
      (peek (isIdent.or (isWord "_")) >>= fun b => require b >>= fun _ => anyWord >>= fun name =>
        peek (isOp "<") >>= fun generic => constAfter g needsValue name generic)
      (peek (isIdent.or (isWord "_")) >>= fun b => require b >>= fun _ => anyWord >>= fun name =>
        peek (isOp "<") >>= fun generic => constAfter g' needsValue name generic)
      (WordThen Any) := by
    refine .require (fun _ _ h => h.lead) ?_
    refine ((anyWord_replays _).keep (fun u u' => isOp "<" u' = isOp "<" u) (fun name =>
      .each (fun generic => ?_) fun _ _ h => h) fun _ _ _ h => h).before fun u u' h => ?_
    · have hafter := constAfter_replays (m := m) hg needsValue name generic
      cases generic with
      | false =>
          refine hafter.before fun u u' h hno => ?_
          cases h with
          | present hleft _ _ => exact absurd (hno.symm.trans hleft) (by decide)
          | absent _ hends => exact hno.symm ▸ hends.not_less
          | dropped _ hleft _ _ => exact absurd (hno.symm.trans hleft) (by decide)
      | true =>
          cases m with
          | verbatim =>
              refine hafter.before fun u u' h hyes => ?_
              cases h with
              | present hleft hright _ => exact hright.trans hleft.symm
              | absent hleft _ => exact absurd (hleft.symm.trans hyes) (by decide)
              | dropped hm _ _ _ => cases hm
          | written =>
              refine hafter.never fun hrun r r' htaken => ?_
              rw [constAfter_unread hrun] at htaken
              exact Bool.noConfusion (htaken.1 rfl)
    · obtain ⟨name, r, r', rfl, rfl, -⟩ := h
      exact ⟨_, _, _, rfl, rfl, trivial⟩
  rw [constItem_eq, constItem_eq]
  exact (word_then "const" _).keep _
    (fun _ => (hname.noting fun hrun => (require_peek_bind.mp hrun).1).forget) fun _ _ _ h => h

/-! ## Type aliases -/

/-- What follows the conditions of a type alias, or its name where it has none: its definition or
the end. -/
def DefinitionEnds : Follow := Either (isOp "=") Lead Semicolon

theorem DefinitionEnds.whereEnds (h : DefinitionEnds u u') : WhereEnds u u' :=
  h.elim (fun hassign h => .of_assign ⟨hassign, h⟩) fun _ h => .of_semicolon h

/-- What follows the bounds of a type alias: its definition, conditions or the end. -/
def AliasEnds (m : Mode) : Follow :=
  Either (isOp "=") Lead (Optional m (isWord "where") Lead DefinitionEnds)

theorem AliasEnds.of_optional (h : Optional m (isWord "where") Lead DefinitionEnds u u') :
    AliasEnds m u u' := by
  refine ⟨fun hassign => ?_, fun _ => h⟩
  cases h with
  | present _ _ hlead => exact hlead
  | absent _ hends => exact hends.whereEnds.toLead
  | dropped _ hleft _ _ =>
      have hno : isOp "=" u = isOp "=" [.word "where"] := Headed.eq_of_kind_eq (kind_of_isWord hleft)
      exact absurd (hassign.symm.trans hno) (by decide)

theorem Optional.of_semicolon (h : Optional m (isWord "where") Lead Semicolon u u') :
    Optional m (isWord "where") Lead DefinitionEnds u u' := by
  have hends : ∀ {r r'}, Semicolon r r' → DefinitionEnds r r' := fun h =>
    ⟨fun _ => h.2, fun _ => h⟩
  cases h with
  | present hleft hright hlead => exact .present hleft hright hlead
  | absent hleft h => exact .absent hleft (hends h)
  | dropped hm hleft r h => exact .dropped hm hleft r (hends h)

section Answers

variable {question : Peek} [hq : Headed question] {told : Bool}

/-- A question about an operator's first mark is answered alike by texts that start alike. -/
theorem Lead.answer {text : String} {char : Char} {chars : List Char} (h : Lead u u')
    (hop : isOp text u = true) (htext : text.toList = char :: chars) (hchar : char ≠ '\'')
    (hquestion : question [.punct char false] = told) : question u' = told :=
  (hq.eq_of_kind_eq (h.kind_eq.symm.trans ((kind_of_isOp htext hchar hop).trans
    (kind_punct hchar false []).symm))).trans hquestion

theorem Semicolon.answer (h : Semicolon u u') (hsemicolon : question [.punct ';' false] = told) :
    question u' = told :=
  h.2.answer h.1 rfl (by decide) hsemicolon

theorem DefinitionEnds.answer (h : DefinitionEnds u u')
    (hassign : question [.punct '=' false] = told)
    (hsemicolon : question [.punct ';' false] = told) : question u' = told :=
  h.elim (fun hleft h => h.answer hleft rfl (by decide) hassign) fun _ h => h.answer hsemicolon

/-- What conditions and the tokens after them answer. -/
theorem Optional.answer {End : Follow} (h : Optional m (isWord "where") Lead End u u')
    (hwhere : question [.word "where"] = told) (hEnd : ∀ r, End r u' → question u' = told) :
    question u' = told := by
  cases h with
  | present _ hright _ => exact (hq.eq_of_kind_eq (kind_of_isWord hright)).trans hwhere
  | absent _ hends => exact hEnd _ hends
  | dropped _ _ r hends => exact hEnd r hends

/-- What a definition, conditions and a semicolon answer. -/
theorem AliasEnds.answer (h : AliasEnds m u u') (hwhere : question [.word "where"] = told)
    (hassign : question [.punct '=' false] = told)
    (hsemicolon : question [.punct ';' false] = told) : question u' = told :=
  h.elim (fun hleft h => h.answer hleft rfl (by decide) hassign)
    fun _ h => h.answer hwhere fun _ h => h.answer hassign hsemicolon

end Answers

theorem Optional.typeEnds {End : Follow} (hEnd : ∀ u u', End u u' → WhereEnds u u')
    (h : Optional m (isWord "where") Lead End u u') : TypeEnds u u' := by
  refine WhereStart.typeEnds (m := m) ?_
  cases h with
  | present hleft hright hlead => exact .present hleft hright hlead
  | absent hleft h => exact .absent hleft (hEnd _ _ h)
  | dropped hm hleft r h => exact .dropped hm hleft r (hEnd _ _ h)

theorem AliasEnds.typeEnds (h : AliasEnds m u u') : TypeEnds u u' := by
  refine h.elim (fun hassign h => h.typeEnds ?_) fun _ h => h.typeEnds fun _ _ h => h.whereEnds
  rw [kind_of_isOp (rfl : "=".toList = ['=']) (by decide) hassign]
  rfl

theorem AliasEnds.lead (h : AliasEnds .verbatim u u') : Lead u u' := by
  refine h.elim (fun _ h => h) fun _ h => ?_
  cases h with
  | present _ _ hlead => exact hlead
  | absent _ hends => exact hends.whereEnds.toLead
  | dropped hm _ _ _ => cases hm

/-- A type alias from its definition on; conditions stand in front of it or after it. -/
def aliasTail {α : Type} (g : Grammar) (whereFirst : Bool) (make : List Node → Option Node → α) :
    Parser α :=
  if whereFirst = true then do
    let predicates ← whereClause g
    let ty ← when? (isOp "=") do
      op "="
      g (.ty true)
    op ";"
    return make predicates ty
  else do
    let ty ← when? (isOp "=") do
      op "="
      g (.ty true)
    let predicates ← whereClause g
    op ";"
    return make predicates ty

/-- The definition of a type alias is read the same again. -/
theorem aliasTail_replays {α : Type} (hg : ∀ m, Knot m size g g') (whereFirst : Bool)
    (make : List Node → Option Node → α) :
    Replays m size 0 (fun _ => Any) (aliasTail g whereFirst make) (aliasTail g' whereFirst make)
      (AliasEnds m) := by
  have hdefined : ∀ {End : Follow} {f f' : Option Node → Parser α},
      (∀ u u', End u u' → TypeEnds u u') → (∀ u u', End u u' → isOp "=" u' = false) →
      (∀ ty, Replays m size 0 (fun _ => Any) (f ty) (f' ty) End) →
      Replays m size 0 (fun _ => Any) (when? (isOp "=") (do op "="; g (.ty true)) >>= f)
        (when? (isOp "=") (do op "="; g' (.ty true)) >>= f') (Either (isOp "=") Lead End) := by
    intro End f f' hEnd hno hf
    refine .choiceWhen ?_ ?_ fun u u' h => ?_
    · rw [bind_assoc, bind_assoc]
      refine ((op_closed "=").forget.bind (TypeStart End) (fun _ => ?_)
        fun _ _ _ _ => trivial).before fun u u' h hyes => .yes hyes h
      exact ((hg m).ty true End hEnd).forget.bind End (fun ty => hf (some ty)) fun _ _ _ h => h
    · exact (hf none).before fun u u' h hno => .no hno h
    · exact h.elim (fun _ h => (Stable.eq_of_lead h).symm) fun hleft h => (hno u u' h).trans hleft.symm
  have hend : ∀ predicates ty, Replays m size 0 (fun _ => Any)
      (op ";" >>= fun _ => pure (make predicates ty))
      (op ";" >>= fun _ => pure (make predicates ty)) Semicolon := fun _ _ => semicolon_replays _
  have hsemicolon : ∀ u u', Semicolon u u' → WhereEnds u u' := fun _ _ h => .of_semicolon h
  unfold aliasTail
  refine .fixed (fun _ => ?_) fun _ => ?_
  · refine ((whereClause_before hg fun _ _ h => h.whereEnds).bind DefinitionEnds (fun predicates =>
      hdefined (fun u u' h => (hsemicolon u u' h).typeEnds) (fun u u' h => ?_)
        fun ty => hend predicates ty) fun _ _ _ h => h).before fun u u' h => .of_optional h
    exact h.answer rfl
  · refine (hdefined (fun u u' h => h.typeEnds hsemicolon) (fun u u' h => ?_) fun ty =>
      (whereClause_before hg hsemicolon).bind _ (fun predicates => hend predicates ty)
        fun _ _ _ h => h).before fun u u' h => ?_
    · exact h.answer rfl fun _ h => h.answer rfl
    · exact ⟨h.1, fun hno => .of_semicolon (h.2 hno)⟩

/-- The tokens that end the bounds of a type alias. -/
def endsAliasBounds : Peek := anyOf [isWord "where", isOp "=", isOp ";"]

instance : Headed endsAliasBounds :=
  inferInstanceAs (Headed (anyOf [isWord "where", isOp "=", isOp ";"]))

/-- Both readings go on with the bounds of a type alias, or with what follows them. -/
def AliasBounds (m : Mode) : Follow :=
  Optional m (isOp ":") (ColonThen m (Either endsAliasBounds (AliasEnds m) (BoundStart m)))
    (AliasEnds m)

/-- The bounds of a type alias are read the same again. -/
theorem aliasBounds_replays (hg : ∀ m, Knot m size g g') :
    Replays m size 0 (fun _ => AliasEnds m)
      (colonList (plusList endsAliasBounds (bound g ⟨false, true⟩)))
      (colonList (plusList endsAliasBounds (bound g' ⟨false, true⟩))) (AliasBounds m) := by
  refine colonList_replays (boundList_replays (m := m) hg ⟨false, true⟩ endsAliasBounds
    (AliasEnds m) (fun _ _ h => h.typeEnds) (fun _ _ hno h => (h.headed rfl rfl).trans hno)
    fun _ _ _ h => h.answer rfl rfl rfl).smaller ?_ fun _ _ h => h.answer rfl rfl rfl
  rintro u u' h rfl
  exact h.elim (fun _ h => h.lead) fun _ h => h.lead

theorem AliasBounds.not_less (h : AliasBounds m u u') : isOp "<" u' = false := by
  cases h with
  | present _ _ h => exact h.toColon.not_less
  | absent _ h => exact h.answer rfl rfl rfl
  | dropped _ _ _ h => exact h.answer rfl rfl rfl

def aliasAfter (g : Grammar) (asksColon whereFirst : Bool)
    (make : List Node → List Node → Option Node → Node) : Parser (Node × Bool × Bool) := do
  let colon ← if asksColon then peek (isOp ":") else pure false
  let bounds ← colonList (plusList endsAliasBounds (bound g ⟨false, true⟩))
  aliasTail g whereFirst fun predicates ty => (make bounds predicates ty, colon, ty.isSome)

theorem aliasTail_result {α : Type} {c d : Cursor} {whereFirst : Bool}
    {make : List Node → Option Node → α} {a : α}
    (h : aliasTail g whereFirst make c = some (a, d)) : ∃ predicates ty, make predicates ty = a := by
  unfold aliasTail at h
  split at h
  all_goals
    obtain ⟨_, _, -, h⟩ := bind_eq_some.mp h
    obtain ⟨_, _, -, h⟩ := bind_eq_some.mp h
    obtain ⟨_, _, -, h⟩ := bind_eq_some.mp h
    exact ⟨_, _, (pure_eq_some.mp h).1⟩

/-- What follows the name of a type alias is read the same again. -/
theorem aliasAfter_replays (hg : ∀ m, Knot m size g g') (asksColon whereFirst : Bool)
    (make : List Node → List Node → Option Node → Node) :
    Replays m size 0 (fun a => Taken m (asksColon && a.2.1) Any) (aliasAfter g asksColon whereFirst make)
      (aliasAfter g' asksColon whereFirst make) fun _ u' => isOp "<" u' = false := by
  have hrest : ∀ colon : Bool, Replays m size 0 (fun _ => Any)
      (colonList (plusList endsAliasBounds (bound g ⟨false, true⟩)) >>= fun bounds =>
        aliasTail g whereFirst fun predicates ty => (make bounds predicates ty, colon, ty.isSome))
      (colonList (plusList endsAliasBounds (bound g' ⟨false, true⟩)) >>= fun bounds =>
        aliasTail g' whereFirst fun predicates ty => (make bounds predicates ty, colon, ty.isSome))
      (AliasBounds m) := fun colon =>
    (aliasBounds_replays hg).bind _ (fun bounds => aliasTail_replays hg _ _) fun _ _ _ h => h
  unfold aliasAfter
  cases asksColon with
  | false =>
      exact ((hrest false).after fun _ _ _ _ => trivial).before fun _ _ h => h.not_less
  | true =>
      refine (Replays.each (fun colon => ?_) fun _ _ h => h.2 : Replays _ _ _ _ _ _
        fun u u' => isOp "<" u' = false ∧ isOp ":" u' = isOp ":" u).before fun _ _ h => h.1
      cases colon with
      | false =>
          refine ((hrest false).after fun _ _ _ _ => trivial).before fun u u' h hno => ?_
          refine ⟨h.not_less, ?_⟩
          cases h with
          | present hleft _ _ => exact absurd (hno.symm.trans hleft) (by decide)
          | absent _ hends => exact (hends.answer rfl rfl rfl).trans hno.symm
          | dropped _ hleft _ _ => exact absurd (hno.symm.trans hleft) (by decide)
      | true =>
          cases m with
          | verbatim =>
              refine ((hrest true).after fun _ _ _ _ => trivial).before fun u u' h hyes => ?_
              refine ⟨h.not_less, ?_⟩
              cases h with
              | present hleft hright _ => exact hright.trans hleft.symm
              | absent hleft _ => exact absurd (hleft.symm.trans hyes) (by decide)
              | dropped hm _ _ _ => cases hm
          | written =>
              refine (hrest true).never fun hrun r r' htaken => ?_
              obtain ⟨bounds, e, -, htail⟩ := bind_eq_some.mp hrun
              obtain ⟨predicates, ty, rfl⟩ := aliasTail_result htail
              exact Bool.noConfusion (htaken.1 rfl)

theorem typeItem_eq (g : Grammar) (asksColon whereFirst : Bool) :
    typeItem g asksColon whereFirst = (word "type" >>= fun _ => ident >>= fun name =>
      genericParams g >>= fun params => aliasAfter g asksColon whereFirst
        fun bounds predicates ty => .typeItem name (.generics params predicates) bounds ty) := by
  unfold typeItem aliasAfter aliasTail
  cases whereFirst <;> cases asksColon <;> simp [endsAliasBounds]

/-- Type aliases are read the same again. -/
theorem typeItem_replays (hg : ∀ m, Knot m size g g') (asksColon whereFirst : Bool) :
    Replays m size 1 (fun a => Taken m (asksColon && a.2.1) Any) (typeItem g asksColon whereFirst)
      (typeItem g' asksColon whereFirst) (Known "type") := by
  rw [typeItem_eq, typeItem_eq]
  refine (word_known "type").keep Any (fun _ => ?_) fun _ _ _ _ => trivial
  refine (ident_closed.forget.bind Any (fun name => ?_) fun _ _ _ _ => trivial).before
    fun _ _ _ => trivial
  exact (genericParams_loose hg fun _ _ h => h).bind _ (fun params => aliasAfter_replays hg _ _ _)
    fun _ _ _ h => h

end ActionUnits.Source
