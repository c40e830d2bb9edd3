import ActionUnits.Proofs.Source.Splice.Reads

/-! # Types in their places

The tokens of a type that was read on its own stand in the places of a generated
unit: as an argument in angle brackets, as the type of a field and of a parameter.
They read as the same type wherever something follows that no type goes on with.
The same is true of the types that are put together from them.
-/

namespace ActionUnits.Source

variable {name : Ident} {tokens u rest : List Token} {ty args : Node} {plus joint : Bool}

/-- The tokens are read as a type, and as nothing else where an argument is expected. -/
structure SpellsType (tokens : List Token) (ty : Node) : Prop where
  reads : ∀ rest, closesType (kind rest) = true →
    Reads (grammar (.ty true)) (tokens ++ rest) ty rest
  stays : ∀ rest, closesType (kind rest) = true → isOp ">" (tokens ++ rest) = false
  lifetime : ∀ rest, closesType (kind rest) = true → isLoneLifetime (tokens ++ rest) = false
  const : ∀ rest, closesType (kind rest) = true → isConstArgument (tokens ++ rest) = false

/-! ## Types that were read -/

theorem type_true {g : Grammar} (plus : Bool) (r z : List Token) :
    type g plus ⟨.word "true" :: r, z⟩ = none := rfl

theorem type_false {g : Grammar} (plus : Bool) (r z : List Token) :
    type g plus ⟨.word "false" :: r, z⟩ = none := rfl

/-- What starts like a type is a constant only as a truth value. -/
theorem not_isConstArgument (hstart : startsType (kind u) = true)
    (htrue : kind u ≠ .word ⟨"true"⟩) (hfalse : kind u ≠ .word ⟨"false"⟩) :
    isConstArgument u = false := by
  rcases kind_cases u with rfl | ⟨name, rest, rfl⟩ | ⟨name, rest, rfl⟩ |
    ⟨char, joint, rest, rfl, hkind⟩ | ⟨text, rest, rfl⟩ | ⟨delimiter, body, rest, rfl⟩
  · rfl
  · have hname : ∀ text, kind (.ident name :: rest) ≠ .word ⟨text⟩ → (name.text == text) = false :=
      fun text hne => beq_eq_false_iff_ne.mpr fun heq => hne (by rw [← heq]; rfl)
    change ((name.text == "true" || name.text == "false") || false) = false
    rw [hname _ htrue, hname _ hfalse]
    rfl
  · rfl
  · rw [hkind] at hstart
    have hminus : char ≠ '-' := by
      rintro rfl
      cases hstart
    unfold isConstArgument Peek.or isLiteral
    split <;> simp_all [isGroup]
  · cases hstart
  · cases delimiter with
    | brace => cases hstart
    | _ => rfl

/-- A type that was read on its own is read in its new place. -/
theorem spellsType_of_readType? {fragment : Fragment Node} (h : readType? tokens = some fragment) :
    SpellsType fragment.tokens fragment.value := by
  obtain ⟨out, hrun, hout⟩ := readType?_eq_some_iff.mp h
  obtain ⟨written, rfl, -, hplace⟩ := Replays.again (fun size =>
    (knot_grammar .written size).ty true (fun _ u' => closesType (kind u') = true)
      fun _ _ => typeEnds_of_closesType) hrun
  obtain rfl : fragment.tokens = written := by simpa using hout
  -- The first token is that of the first reading, which is no truth value.
  have hword : ∀ text, (∀ r z, type grammar true ⟨.word text :: r, z⟩ = none) →
      kind tokens ≠ .word ⟨text⟩ := by
    intro text hnone hkind
    obtain ⟨r, rfl⟩ := exists_of_kind_word hkind
    rw [grammar_eq_rule] at hrun
    cases (hnone r []).symm.trans hrun
  have hkind : ∀ rest, closesType (kind rest) = true →
      kind (fragment.tokens ++ rest) = kind tokens := fun rest hrest =>
    (hplace rest hrest).1.kind_eq.symm
  constructor
  · exact fun rest hrest => (hplace rest hrest).2
  · intro rest hrest
    have hstart := (hplace rest hrest).1.starts
    refine isOp_of_kind (rfl : ">".toList = ['>']) (by decide) fun heq => ?_
    rw [← hkind rest hrest, heq] at hstart
    cases hstart
  · intro rest hrest
    obtain ⟨hstart, -⟩ := hplace rest hrest
    rw [isLoneLifetime, Peek.butNot]
    cases hlifetime : isLifetime tokens with
    | false =>
        have hno : isLifetime (fragment.tokens ++ rest) = false :=
          (Stable.eq_of_lead hstart.toLead).symm.trans hlifetime
        rw [hno, Bool.false_and]
    | true => rw [hstart.lifetime hlifetime, Bool.not_true, Bool.and_false]
  · intro rest hrest
    refine not_isConstArgument ?_ ?_ ?_
    · rw [hkind rest hrest]
      exact (hplace rest hrest).1.starts
    · rw [hkind rest hrest]
      exact hword "true" (type_true true)
    · rw [hkind rest hrest]
      exact hword "false" (type_false true)

/-! ## Types that are names -/

theorem EndsName.of_closesType (h : closesType (kind u) = true) : EndsName u := by
  have hends := typeEnds_of_closesType (u := []) h
  refine ⟨hends.path rfl, ?_, ?_, ?_, hends.plus rfl⟩
  · refine isOp_of_kind (rfl : "<".toList = ['<']) (by decide) fun heq => ?_
    rw [heq] at h
    cases h
  · cases hparen : isGroup .paren u with
    | false => rfl
    | true =>
        rw [kind_of_isGroup hparen] at h
        cases h
  · refine isOp_of_kind (rfl : "!".toList = ['!']) (by decide) fun heq => ?_
    rw [heq] at h
    cases h

/-- A name alone is read as a type. -/
theorem name_reads (hname : isKeyword name = false) (h : EndsName rest) :
    Reads (grammar (.ty plus)) (.ident name :: rest) (.ofIdent name) rest :=
  .rule (.of_eq fun _ => type_of_endsName hname h)

/-- A name opens no constant and no lifetime. -/
theorem SpellsType.of_ident (hname : isKeyword name = false)
    (h : ∀ rest, closesType (kind rest) = true →
      Reads (grammar (.ty true)) (.ident name :: tokens ++ rest) ty rest) :
    SpellsType (.ident name :: tokens) ty := by
  refine ⟨h, fun rest hrest => rfl, fun rest hrest => rfl, fun rest hrest => ?_⟩
  have hword : ∀ text, keywords.contains text = true → isWord text [.ident name] = false :=
    fun text htext => isWord_of_not_keyword hname htext
  change ((isWord "true" [.ident name] || isWord "false" [.ident name]) || false) = false
  rw [hword _ (by decide), hword _ (by decide)]
  rfl

theorem spellsType_name (hname : isKeyword name = false) :
    SpellsType [.ident name] (.ofIdent name) :=
  .of_ident hname fun _ hrest => name_reads hname (.of_closesType hrest)

/-! ## Types with an argument -/

def appliedNode (name : Ident) (argument : Node) : Node :=
  .path false [.segment name (some (.angleArguments [argument]))]

/-- An argument ends at the closing bracket. -/
theorem genericArgument_reads (h : SpellsType tokens ty) :
    Reads (genericArgument grammar) (tokens ++ .punct '>' joint :: rest) ty
      (.punct '>' joint :: rest) := by
  have hclose : closesType (kind (.punct '>' joint :: rest)) = true := by
    rw [kind_punct (by decide)]
    rfl
  have hlifetime : (isLifetime.butNot (second (isOp "+"))) (tokens ++ .punct '>' joint :: rest) =
      false := h.lifetime _ hclose
  unfold genericArgument
  refine .no hlifetime (.no (h.const _ hclose) ((h.reads _ hclose).bind ?_))
  cases soleSegment? ty with
  | none => exact .pure _ _
  | some sole =>
      have hvalue : isOp "=" (.punct '>' joint :: rest) = false := rfl
      have hbounds : isOp ":" (.punct '>' joint :: rest) = false := rfl
      exact (Reads.op?_no hvalue).bind ((Reads.op?_no hbounds).bind (.pure _ _))

/-- A lifetime is put in front of the other arguments, and there are no others. -/
theorem angleNodes_singleton (ty : Node) (written : List Token) :
    angleNodes isLifetimeArgument [(ty, ⟨isLifetimeArgument ty, written, false⟩)] = [ty] := by
  unfold angleNodes
  cases hlifetime : isLifetimeArgument ty <;> simp [hlifetime]

/-- A single argument in angle brackets is read. -/
theorem angleArguments_reads (h : SpellsType tokens ty) :
    Reads (grammar .angleArguments) (.punct '<' false :: tokens ++ .punct '>' joint :: rest)
      (.angleArguments [ty]) rest := by
  have hclose : closesType (kind (.punct '>' joint :: rest)) = true := by
    rw [kind_punct (by decide)]
    rfl
  have hargument : Reads (genericArgument grammar) (tokens ++ .punct '>' joint :: rest) ty
      (.punct '>' joint :: rest) := genericArgument_reads h
  obtain ⟨out, hargument⟩ := hargument []
  -- The one round of the list, and the bracket that ends it.
  have hround : ∀ z, angleStep isLifetimeArgument (genericArgument grammar)
      ⟨tokens ++ .punct '>' joint :: rest, z⟩ =
      some (some (ty, ⟨isLifetimeArgument ty, out.reverse, false⟩),
        ⟨.punct '>' joint :: rest, z⟩) := by
    intro z
    refine angleStep_eq_some.mpr ⟨h.stays _ hclose, rfl, _, ?_, .inl ⟨rfl, rfl, rfl⟩⟩
    rw [List.reverse_reverse]
    exact hargument
  have hstop : ∀ z, angleStep isLifetimeArgument (genericArgument grammar)
      ⟨.punct '>' joint :: rest, z⟩ = some (none, ⟨.punct '>' joint :: rest, z⟩) :=
    fun z => angleStep_eq_none.mpr ⟨rfl, rfl⟩
  have hlist : Reads (angleList true isLifetimeArgument (genericArgument grammar))
      (.punct '<' false :: tokens ++ .punct '>' joint :: rest) [ty] rest := by
    intro z
    have hlength : [(ty, AnglePart.mk (isLifetimeArgument ty) out.reverse false)].length ≤
        (tokens ++ Token.punct '>' joint :: rest).length := by
      rw [List.length_singleton, List.length_append, List.length_cons]
      omega
    exact ⟨_, angleList_eq_some.mpr ⟨_, false, _, _, _, rfl, repeated_eq_some.mpr
      ⟨hlength, .next (hround _) (.stop (hstop _))⟩, rfl, (angleNodes_singleton _ _).symm, rfl, rfl⟩⟩
  exact .rule (hlist.map Node.angleArguments)

/-- A path of one segment with arguments. -/
theorem typePath_reads (hname : isKeyword name = false)
    (h : Reads (grammar .angleArguments) (.punct '<' false :: u) args rest)
    (hgoes : goesOn rest = false) :
    Reads (typePath grammar) (.ident name :: .punct '<' false :: u)
      (.path false [.segment name (some args)]) rest := by
  have hno : ∀ text, isKeyword ⟨text⟩ = true → isWord text (.ident name ::
      .punct '<' false :: u) = false :=
    fun text htext => isWord_of_not_keyword hname htext
  have hroots : isOneOf ["super", "self", "crate", "try"]
      (.ident name :: .punct '<' false :: u) = false := by
    simp only [isOneOf, List.any_cons, List.any_nil, hno "super" rfl, hno "self" rfl,
      hno "crate" rfl, hno "try" rfl, Bool.or_false]
  have hopens : ((isOp "<").butNot (isOp "<=")) (.punct '<' false :: u) = true := rfl
  have hfish : ((isOp "::").and (third (isOp "<"))) (.punct '<' false :: u) = false := rfl
  have hsegment : Reads (pathSegment grammar false) (.ident name :: .punct '<' false :: u)
      (.segment name (some args)) rest := by
    unfold pathSegment
    refine .no hroots (.no (hno "Self" rfl) ((Reads.ident hname _).bind ?_))
    exact .yes hopens (.no hfish ((Reads.op?_no rfl).bind (h.map _)))
  have hpath : Reads (qualifiedPath grammar false) (.ident name :: .punct '<' false :: u)
      (.path false [.segment name (some args)]) rest := by
    unfold qualifiedPath path
    refine .no rfl ((Reads.op?_no rfl).bind (hsegment.bind ?_))
    exact Reads.map (fun more => Node.path false (.segment name (some args) :: more))
      (.many_nil hgoes)
  exact hpath.bind (.of_eq fun z => iterate_apply_none rfl)

/-- Nothing that follows the arguments belongs to the type. -/
theorem type_reads_segment (hname : isKeyword name = false)
    (h : Reads (grammar .angleArguments) (.punct '<' false :: u) args rest)
    (hgoes : goesOn rest = false) (hplus : isOp "+" rest = false) :
    Reads (grammar (.ty plus)) (.ident name :: .punct '<' false :: u)
      (.path false [.segment name (some args)]) rest := by
  refine .rule fun z => ?_
  obtain ⟨z', hpath⟩ := typePath_reads hname h hgoes z
  exact ⟨z', (type_of_ident hname).trans (namedType_plain hpath (.inl rfl) hplus)⟩

/-- A type applied to one argument is read. -/
theorem applied_reads (hname : isKeyword name = false) (h : SpellsType tokens ty)
    (hgoes : goesOn rest = false) (hplus : isOp "+" rest = false) :
    Reads (grammar (.ty plus))
      (.ident name :: .punct '<' false :: tokens ++ .punct '>' joint :: rest)
      (appliedNode name ty) rest :=
  type_reads_segment hname (angleArguments_reads h) hgoes hplus

/-- A type applied to a spelled one is spelled. -/
theorem SpellsType.applied (hname : isKeyword name = false) (h : SpellsType tokens ty)
    (joint : Bool) :
    SpellsType (.ident name :: .punct '<' false :: (tokens ++ [.punct '>' joint]))
      (appliedNode name ty) := by
  refine .of_ident hname fun rest hrest => ?_
  have hends := typeEnds_of_closesType (u := []) hrest
  have hsplit : Token.punct '<' false :: (tokens ++ [.punct '>' joint]) ++ rest =
      .punct '<' false :: tokens ++ .punct '>' joint :: rest := by
    simp
  rw [List.cons_append, hsplit]
  exact applied_reads hname h (hends.goesOn rfl) (hends.plus rfl)

end ActionUnits.Source
