import ActionUnits.Proofs.Source.Replay.Signature

/-! # Replaying fields and data types

The name of a field and the colon after it tell it from its visibility. The
visibility of a variant is accepted and not written, so a second reading finds
the name of the variant in its place. Conditions stand before fields in braces and
after fields in parentheses.
-/

namespace ActionUnits.Source

variable {m : Mode} {size : Nat} {g g' : Grammar} {u u' : List Token}

/-! ## Ends of items -/

theorem WhereEnds.of_semicolon (h : isOp ";" u = true ∧ Lead u u') : WhereEnds u u' :=
  ⟨h.2, by simp only [endsWhere, anyOf, List.any_cons, h.1, Bool.true_or, Bool.or_true]⟩

theorem WhereEnds.of_assign (h : isOp "=" u = true ∧ Lead u u') : WhereEnds u u' :=
  ⟨h.2, by simp only [endsWhere, anyOf, List.any_cons, h.1, Bool.true_or, Bool.or_true]⟩

theorem isGroup_of_kind {delimiter : Delimiter} (h : kind u = .group delimiter) :
    isGroup delimiter u = true :=
  (Headed.eq_of_kind_eq h : isGroup delimiter u = isGroup delimiter [.group delimiter []]).trans
    (by cases delimiter <;> rfl)

theorem WhereEnds.of_brace (h : GroupStart .brace u u') : WhereEnds u u' :=
  ⟨h.2, by simp only [endsWhere, anyOf, List.any_cons, isGroup_of_kind h.1, Bool.true_or]⟩

/-- What conditions and the tokens after them answer. -/
theorem answer_of_where {question : Peek} [hq : Headed question] {answer : Bool}
    (h : isWord "where" u = true ∨ endsWhere u = true)
    (hwhere : question [.word "where"] = answer) (hbrace : question [.group .brace []] = answer)
    (hsemicolon : question [.punct ';' false] = answer)
    (hassign : question [.punct '=' false] = answer) : question u = answer := by
  rcases h with h | h
  · rw [← hwhere]
    exact hq.eq_of_kind_eq (kind_of_isWord h)
  · exact answer_of_endsWhere h hbrace hsemicolon hassign

/-- Conditions are told from a question that neither a brace nor a semicolon answers. -/
theorem WhereStart.same {question : Peek} [Headed question] (h : WhereStart m u u') (answer : Bool)
    (hwhere : question [.word "where"] = answer) (hbrace : question [.group .brace []] = answer)
    (hsemicolon : question [.punct ';' false] = answer)
    (hassign : question [.punct '=' false] = answer) : question u' = question u := by
  rw [answer_of_where h.right hwhere hbrace hsemicolon hassign,
    answer_of_where h.left hwhere hbrace hsemicolon hassign]

/-! ## Functions with a body or without one -/

/-- The head of a function, and a semicolon or a body. -/
theorem method_replays {α : Type} (hg : ∀ m, Knot m size g g') (declared : Node → α)
    (defined : Node → List Node × Node → α) :
    Replays m size 1 (fun _ => Any)
      (signature g >>= fun head => op? ";" >>= fun ends => if ends = true then pure (declared head)
        else blockWithAttrs g >>= fun body => pure (defined head body))
      (signature g' >>= fun head => op? ";" >>= fun ends => if ends = true then pure (declared head)
        else blockWithAttrs g' >>= fun body => pure (defined head body)) SignatureStart := by
  refine (signature_replays hg).keep WhereEnds (fun head => ?_) fun _ _ _ h => h
  refine .op? (fun _ _ h => h.toLead) ?_ ?_
  · exact ((op_known ";").forget.wrap).before fun _ _ h => .of_semicolon h
  · exact (blockWithAttrs_replays (hg m)).forget.wrap.before fun _ _ h => .of_brace h

/-- Functions are read the same again. -/
theorem functionItem_replays (hg : ∀ m, Knot m size g g') (vis : Visibility) (isDefault : Bool) :
    Replays m size 1 (fun _ => Any) (functionItem g vis isDefault) (functionItem g' vis isDefault)
      SignatureStart :=
  method_replays hg (fun _ => Found.unread)
    fun head body => .node body.1 vis isDefault (.function head (some body.2))

/-! ## Fields -/

/-- Whether the fields of a field without a name come next. -/
def isInlineFields : Peek := (isWord "struct").or ((isWord "union").and (second (isGroup .brace)))

theorem isInlineFields_word (name : Ident) (r : List Token) :
    isInlineFields (.ident name :: r) =
      (name.text == "struct" || (name.text == "union" && isGroup .brace r)) := rfl

theorem exists_of_isAnyWord (h : isAnyWord u = true) : ∃ name rest, u = .ident name :: rest := by
  unfold isAnyWord at h
  split at h
  · exact ⟨_, _, rfl⟩
  · cases h

theorem isInlineFields_of_not_word (h : isAnyWord u = false) : isInlineFields u = false := by
  cases hinline : isInlineFields u with
  | false => rfl
  | true =>
      have hword : ∀ {text}, isWord text u = true → isAnyWord u = true := fun hword =>
        Headed.eq_of_kind_eq ((kind_of_isWord hword).trans (rfl : _ = kind [.word _]))
      rcases (Bool.or_eq_true _ _).mp hinline with hstruct | hunion
      · exact absurd (h.symm.trans (hword hstruct)) (by decide)
      · exact absurd (h.symm.trans (hword ((Bool.and_eq_true _ _).mp hunion).1)) (by decide)

/-- Within a type, no braces follow the first word of it. -/
theorem TypeStart.isInlineFields_eq (h : TypeStart CommaEnds u u') (hno : isInlineFields u = false) :
    isInlineFields u' = false := by
  cases hword : isAnyWord u' with
  | false => exact isInlineFields_of_not_word hword
  | true =>
      obtain ⟨name, r', rfl⟩ := exists_of_isAnyWord hword
      obtain ⟨r, rfl⟩ := exists_of_kind_word h.kind_eq
      rw [isInlineFields_word] at hno ⊢
      obtain ⟨hstruct, hunion⟩ := (Bool.or_eq_false_iff).mp hno
      rw [hstruct, Bool.false_or]
      cases hname : name.text == "union" with
      | false => rfl
      | true =>
          rw [hname, Bool.true_and] at hunion
          rw [Bool.true_and]
          have htype : isTypeWord (.ident name :: r) = true := by
            obtain ⟨text⟩ := name
            obtain rfl := eq_of_beq hname
            rfl
          rcases h.word htype name r r' rfl rfl with hends | hinside
          · exact (Stable.eq_of_lead hends.lead).symm.trans hunion
          · simp only [insideType, anyOf, List.any_cons, List.any_nil, Bool.or_false,
              Bool.not_eq_true', Bool.or_eq_false_iff] at hinside
            exact hinside.2.2.2.2.2

/-- The fields of a field without a name are kept as they were read. -/
theorem inlineFields_replays {P : Follow} :
    Replays m size 1 (fun _ => P)
      (get >>= fun start => anyWord >>= fun _ => anyGroup >>= fun _ => keepVerbatim start)
      (get >>= fun start => anyWord >>= fun _ => anyGroup >>= fun _ => keepVerbatim start)
      (WordThen Lead) := by
  have hread : Replays .verbatim size 1 (fun _ => P) (anyWord >>= fun _ => anyGroup)
      (anyWord >>= fun _ => anyGroup) (WordThen Lead) :=
    (anyWord_replays Lead).keep Lead (fun _ => anyGroup_closed.forget.after fun _ _ _ _ => trivial)
      fun _ _ _ h => h
  have hkept := Replays.unread (m := m) hread
  simp only [bind_assoc] at hkept
  exact hkept

/-- What a field is, after its colon. -/
def fieldType (g : Grammar) : Parser Node := do
  if ← peek isInlineFields then
    let start ← get
    let _ ← anyWord
    let _ ← anyGroup
    keepVerbatim start
  else g (.ty true)

/-- Types of fields are read the same again. -/
theorem fieldType_replays (hg : Knot m size g g') :
    Replays m size 1 (fun _ => CommaEnds) (fieldType g) (fieldType g') Lead := by
  refine (Replays.choice ?_ ?_ fun _ _ h => h.2 : Replays _ _ _ _ _ _
    fun u u' => Lead u u' ∧ isInlineFields u' = isInlineFields u).before fun _ _ h => h.1
  · refine inlineFields_replays.before ?_
    rintro u u' ⟨name, r, r', rfl, rfl, hlead⟩ _
    refine ⟨.word _ _ _, ?_⟩
    rw [isInlineFields_word, isInlineFields_word,
      (Stable.eq_of_lead hlead : isGroup .brace r = isGroup .brace r')]
  · exact (hg.ty true CommaEnds fun _ _ h => h.typeEnds).before fun u u' h hno =>
      ⟨h.toLead, (h.isInlineFields_eq hno).trans hno.symm⟩

/-- A field after its attributes and its visibility. -/
def fieldAfter (g : Grammar) (make : Ident → Node → Node) : Parser Node := do
  if ← peek (isWord "_") then
    let name ← anyWord
    op ":"
    return make name (← fieldType g)
  else
    let name ← ident
    op ":"
    return make name (← g (.ty true))

theorem namedField_eq (g : Grammar) :
    namedField g = (outerAttrs g >>= fun attrs => visibility >>= fun vis =>
      fieldAfter g fun name ty => .fieldDecl attrs vis (some name) ty) := by
  unfold namedField fieldAfter fieldType isInlineFields
  simp only [bind_assoc, ite_bind]

/-- A field is read the same again from its name on. -/
theorem fieldAfter_replays (hg : Knot m size g g') (make : Ident → Node → Node) :
    Replays m size 1 (fun _ => CommaEnds) (fieldAfter g make) (fieldAfter g' make)
      (WordThen Colon) := by
  have hcolon : ∀ {p p' : Parser Node} (name : Ident),
      Replays m size 1 (fun _ => CommaEnds) p p' Lead →
      Replays m size 0 (fun _ => CommaEnds) (op ":" >>= fun _ => p >>= fun ty => pure (make name ty))
        (op ":" >>= fun _ => p' >>= fun ty => pure (make name ty)) Colon := fun name hp =>
    op_colon.forget.bind Lead (fun _ => hp.forget.wrap) fun _ _ _ h => h
  refine .ite (fun _ _ h => h.lead) ?_ ?_
  · exact (anyWord_replays Colon).keep Colon (fun name => hcolon name (fieldType_replays hg))
      fun _ _ _ h => h
  · exact (ident_replays Colon).keep Colon (fun name => hcolon name
      ((hg.ty true CommaEnds fun _ _ h => h.typeEnds).before fun _ _ h => h.toLead)) fun _ _ _ h => h

theorem WordThen.notRestricted {P : Follow} (h : WordThen P u u') : Absent isRestricted u u' := by
  obtain ⟨name, r, r', rfl, rfl, -⟩ := h
  exact .of_not rfl

/-- Something after attributes and a visibility. -/
theorem declared_replays {α : Type} {Post : α → Follow} {P : Follow} (hg : Knot m size g g')
    {f f' : List Node → Visibility → Parser α}
    (hf : ∀ attrs vis, Replays m size 1 Post (f attrs vis) (f' attrs vis) P)
    (hlead : ∀ u u', P u u' → Lead u u') (hP : ∀ u u', P u u' → Absent isRestricted u u') :
    Replays m size 1 Post (outerAttrs g >>= fun attrs => visibility >>= fun vis => f attrs vis)
      (outerAttrs g' >>= fun attrs => visibility >>= fun vis => f' attrs vis)
      (Attributed (Either (isWord "pub") Lead P)) := by
  have hmarked : ∀ u u', Either (isWord "pub") Lead P u u' → Lead u u' := fun u u' h =>
    h.elim (fun _ h => h) fun _ h => hlead u u' h
  refine (outerAttrs_replays hg fun u u' h => .of_stable (hmarked u u' h)).smaller.bind _
    (fun attrs => ?_) fun _ _ _ h => h
  exact (visibility_replays hlead hP).smaller.bind _ (fun vis => hf attrs vis) fun _ _ _ h => h

/-- Named fields are read the same again. -/
theorem namedFields_replays (hg : Knot m size g g') :
    Replays m size 1 (fun _ => Any) (namedFields g) (namedFields g') (GroupStart .brace) := by
  have hfield : Replays m size 1 (fun _ => CommaEnds) (namedField g) (namedField g') Lead := by
    rw [namedField_eq, namedField_eq]
    refine (declared_replays hg (fun attrs vis => fieldAfter_replays hg _)
      (fun _ _ h => h.lead) fun _ _ h => h.notRestricted).before fun u u' h => ?_
    exact h.lead fun _ _ h => h.elim (fun _ h => h) fun _ h => h.lead
  refine Replays.wrap ((group_closed .brace (commaList_replays hfield (.inl atEnd_nil)
    fun _ _ hcomma h => .inr ⟨hcomma, h⟩) fun _ => atEnd_nil).smaller.noting kind_of_group)

/-- Fields without names are read the same again. -/
theorem tupleFields_replays (hg : Knot m size g g') :
    Replays m size 1 (fun _ => Any) (tupleFields g) (tupleFields g') (GroupStart .paren) := by
  have hfield : Replays m size 1 (fun _ => CommaEnds) (tupleField g) (tupleField g') Lead := by
    refine (declared_replays hg (fun attrs vis => (hg.ty true CommaEnds fun _ _ h =>
      h.typeEnds).wrap) (fun _ _ h => h.toLead) fun _ _ h => h.restricted).before fun u u' h => ?_
    exact h.lead fun _ _ h => h.elim (fun _ h => h) fun _ h => h.toLead
  refine Replays.wrap ((group_closed .paren (commaList_replays hfield (.inl atEnd_nil)
    fun _ _ hcomma h => .inr ⟨hcomma, h⟩) fun _ => atEnd_nil).smaller.noting kind_of_group)

/-! ## Data types -/

/-- Both readings go on with a visibility that is not written, or with the name after it. -/
def VariantStart : Follow := fun _ u' => isWord "pub" u' = true ∨ isIdent u' = true

theorem VariantStart.not_hash (h : VariantStart u u') : isOp "#" u' = false := by
  refine isOp_of_kind (rfl : "#".toList = ['#']) (by decide) fun hkind => ?_
  rcases h with h | h
  · rw [kind_of_isWord h] at hkind
    cases hkind
  · have : isIdent u' = isIdent [.punct '#' false] := Headed.eq_of_kind_eq hkind
    exact absurd (h.symm.trans this) (by decide)

/-- Both readings go on with a name that is no keyword. -/
def NameThen (P : Follow) : Follow := fun u u' => isIdent u = true ∧ WordThen P u u'

theorem NameThen.right {P : Follow} (h : NameThen P u u') : isIdent u' = true :=
  (Stable.eq_of_lead h.2.lead).symm.trans h.1

theorem name_replays (P : Follow) : Replays m size 1 (fun _ => P) ident ident (NameThen P) :=
  (ident_replays P).noting fun hrun => (require_peek_bind.mp hrun).1

theorem visibility_apply {c : Cursor} (h : isWord "pub" c.rest = false) :
    visibility c = some (.inherited, c) := by
  unfold visibility
  rw [word?_bind, peek_bind_apply, h]
  rfl

/-- The name of a variant is found where its visibility is not written. -/
theorem dropVisibility_replays (P : Follow) :
    Replays m size 0 (fun _ => NameThen P) dropVisibility dropVisibility VariantStart := by
  have hvisibility : ∀ m, Replays m size 0 (fun _ => NameThen P) visibility visibility
      (Either (isWord "pub") Lead (NameThen P)) := fun m =>
    (visibility_replays (fun _ _ h => h.2.lead) fun _ _ h => h.2.notRestricted).smaller
  cases m with
  | verbatim =>
      refine (Replays.wrap (capture_verbatim (hvisibility _))).before fun u u' h => ?_
      refine h.elim (fun hyes h => .inl ?_) fun _ h => .inr h.right
      exact (Stable.eq_of_lead h).symm.trans hyes
  | written =>
      intro c a d hrun
      obtain ⟨⟨vis, tokens⟩, e, hcapture, hpure⟩ := bind_eq_some.mp hrun
      obtain ⟨-, rfl⟩ := pure_eq_some.mp hpure
      obtain ⟨out, hinside, -, hwritten⟩ := capture_eq_some.mp hcapture
      obtain ⟨read, written, hread, -⟩ := hvisibility .written _ _ _ hinside
      refine ⟨read, [], hread, hwritten, Nat.zero_le _, Nat.zero_le _, fun rest hrest _ => ?_⟩
      have hident := hrest.right
      refine ⟨.inr hident, fun z => ?_⟩
      have hvis : visibility ⟨rest, []⟩ = some (.inherited, ⟨rest, []⟩) :=
        visibility_apply (not_isWord_of_isIdent (rfl : isKeyword ⟨"pub"⟩ = true) hident)
      exact bind_eq_some.mpr ⟨(.inherited, []), ⟨rest, z⟩,
        capture_eq_some.mpr ⟨[], hvis, rfl, rfl⟩, rfl⟩

/-- Variants are read the same again. -/
theorem variant_replays (hg : Knot m size g g') :
    Replays m size 1 (fun _ => CommaEnds) (variant g) (variant g') fun _ u' => u' ≠ [] := by
  let Tail : Follow := Either (isOp "=") Lead CommaEnds
  have hlead : ∀ u u', Tail u u' → Lead u u' := fun u u' h =>
    h.elim (fun _ h => h) fun _ h => h.lead
  have htail : ∀ node : Option Node → Node, Replays m size 0 (fun _ => CommaEnds)
      (when? (isOp "=") (do op "="; g (.expr true)) >>= fun value => pure (node value))
      (when? (isOp "=") (do op "="; g' (.expr true)) >>= fun value => pure (node value)) Tail := by
    refine fun node => .choiceWhen ?_ ?_ fun u u' h => (Stable.eq_of_lead (hlead u u' h)).symm
    · rw [bind_assoc, bind_assoc]
      refine ((op_closed "=").forget.bind Start (fun _ => ?_) fun _ _ _ _ => trivial).before
        fun u u' h hyes => .yes hyes h
      exact (hg.expr true).forget.result fun _ _ _ h => h.edge
    · exact (Replays.pure _).before fun u u' h hno => .no hno h
  unfold variant
  refine ((outerAttrs_replays hg fun u u' (h : VariantStart u u') => .of_not h.not_hash).smaller.bind
    _ (fun attrs => ?_) fun _ _ _ h => h).before fun u u' h => ?_
  · refine (dropVisibility_replays Lead).bind _ (fun _ => ?_) fun _ _ _ h => h
    refine (name_replays Lead).keep Lead (fun name => ?_) fun _ _ _ h => h
    refine .ask (fun _ _ h => h) fun brace => .ask (fun _ _ h => h) fun paren => ?_
    dsimp only
    refine .fixed (fun _ => ?_) fun _ => .fixed (fun _ => ?_) fun _ => ?_
    · exact ((namedFields_replays hg).forget.bind Tail (fun fields => htail _)
        fun _ _ _ _ => trivial).before fun _ _ h => h.2
    · exact ((tupleFields_replays hg).forget.bind Tail (fun fields => htail _)
        fun _ _ _ _ => trivial).before fun _ _ h => h.2
    · exact (htail _).before hlead
  · refine h.elim (fun _ h => ?_) fun _ h => ?_
    · rintro rfl
      cases h.right
    · rintro rfl
      rcases h with h | h <;> cases h

/-- Both readings go on with a keyword. -/
def Known (text : String) : Follow := fun u u' => isWord text u = true ∧ Lead u u'

/-- Enumerations are read the same again. -/
theorem enumItem_replays (hg : ∀ m, Knot m size g g') :
    Replays m size 1 (fun _ => Any) (enumItem g) (enumItem g') (Known "enum") := by
  have hvariants : Replays m size 1 (fun _ => Any) (group .brace (commaList (variant g)))
      (group .brace (commaList (variant g'))) (GroupStart .brace) :=
    (group_closed .brace (commaElements_replays (variant_replays (hg m)) (fun _ _ h => h)
      (.inl atEnd_nil) fun _ _ hcomma h => .inr ⟨hcomma, h⟩) fun _ => atEnd_nil).smaller.noting
      kind_of_group
  unfold enumItem
  refine (word_known "enum").keep Any (fun _ => ?_) fun _ _ _ _ => trivial
  refine (ident_closed.forget.bind Any (fun name => ?_) fun _ _ _ _ => trivial).before
    fun _ _ _ => trivial
  refine (genericParams_loose hg ?_).bind (WhereStart m) (fun params => ?_) fun _ _ _ h => h
  · exact fun u u' h => answer_of_where h.right rfl rfl rfl rfl
  · exact (whereClause_replays hg).bind _ (fun predicates => hvariants.forget.wrap)
      fun _ _ _ h => .of_brace h

/-- Unions are read the same again. -/
theorem unionItem_replays (hg : ∀ m, Knot m size g g') :
    Replays m size 1 (fun _ => Any) (unionItem g) (unionItem g')
      fun u u' => isWord "union" u = true ∧ WordThen (NameThen Any) u u' := by
  unfold unionItem
  refine (word_then "union" _).keep _ (fun _ => ?_) fun _ _ _ h => h
  refine (name_replays Any).forget.bind Any (fun name => ?_) fun _ _ _ h => h
  refine (genericParams_loose hg ?_).bind (WhereStart m) (fun params => ?_) fun _ _ _ h => h
  · exact fun u u' h => answer_of_where h.right rfl rfl rfl rfl
  · exact (whereClause_replays hg).bind _ (fun predicates => (namedFields_replays (hg m)).forget.wrap)
      fun _ _ _ h => .of_brace h

/-- The part of a struct after its parameters. -/
def structTail (g : Grammar) (make : List Node → Node → Node) : Parser Node := do
  if ← peek (isGroup .paren) then
    let fields ← tupleFields g
    let predicates ← whereClause g
    op ";"
    return make predicates fields
  else
    let predicates ← whereClause g
    if ← peek (isGroup .brace) then return make predicates (← namedFields g)
    else
      op ";"
      return make predicates .unitFields

/-- What follows the parameters of a struct is read the same again. -/
theorem structTail_replays (hg : ∀ m, Knot m size g g') (make : List Node → Node → Node) :
    Replays m size 0 (fun _ => Any) (structTail g make) (structTail g' make)
      (Either (isGroup .paren) (GroupStart .paren) (WhereStart m)) := by
  have hsemicolon : ∀ node : Node, Replays m size 0 (fun _ => Any) (op ";" >>= fun _ => pure node)
      (op ";" >>= fun _ => pure node) WhereEnds := fun node =>
    (op_known ";").forget.wrap.before fun _ _ h => .of_semicolon h
  refine .choice ?_ ?_ fun u u' h => ?_
  · refine ((tupleFields_replays (hg m)).forget.bind Any (fun fields => ?_)
      fun _ _ _ _ => trivial).before fun u u' h hyes => .yes hyes h
    exact ((whereClause_replays hg).bind _ (fun predicates => hsemicolon _)
      fun _ _ _ h => h).before fun _ _ _ => trivial
  · refine ((whereClause_replays hg).bind WhereEnds (fun predicates =>
      .ite (fun _ _ h => h.toLead) ?_ (hsemicolon _)) fun _ _ _ h => h).before
      fun u u' h hno => .no hno h
    exact (namedFields_replays (hg m)).forget.wrap.before fun _ _ h => .of_brace h
  · refine h.elim (fun _ h => (Stable.eq_of_lead h.2).symm) fun _ h => ?_
    exact h.same false rfl rfl rfl rfl

/-- Structs are read the same again. -/
theorem structItem_replays (hg : ∀ m, Knot m size g g') :
    Replays m size 1 (fun _ => Any) (structItem g) (structItem g') (Known "struct") := by
  unfold structItem
  refine (word_known "struct").keep Any (fun _ => ?_) fun _ _ _ _ => trivial
  refine (ident_closed.forget.bind Any (fun name => ?_) fun _ _ _ _ => trivial).before
    fun _ _ _ => trivial
  refine (genericParams_loose hg ?_).bind _ (fun params => structTail_replays hg
    fun predicates fields => .structItem name (.generics params predicates) fields) fun _ _ _ h => h
  intro u u' h
  refine h.elim (fun _ h => ?_) fun _ h => answer_of_where h.right rfl rfl rfl rfl
  exact h.not_isOp (rfl : "<".toList = ['<']) (by decide)

end ActionUnits.Source
