import ActionUnits.Proofs.Source.Reading.Alike
import ActionUnits.Proofs.Source.Replay.Pattern

/-! # How types and patterns are read

Each rule of the grammar for attributes, paths, types and patterns reads alike
with two grammars that read shorter inputs alike.
-/

set_option synthInstance.maxSize 100000

namespace ActionUnits.Source

variable {size : Nat} {place : Place}

/-! ## Attributes and plain paths -/

instance plainSegment_alike : Alike size place plainSegment plainSegment .firm := by
  unfold plainSegment
  infer_instance

instance plainPath_alike : Alike size place plainPath plainPath .firm := by
  unfold plainPath
  infer_instance

instance macroArguments_alike (path : PlainPath) :
    Alike size place (macroArguments path) (macroArguments path) .firm := by
  unfold macroArguments
  infer_instance

instance attrPath_alike : Alike size place attrPath attrPath .firm := by
  unfold attrPath
  infer_instance

instance restriction_alike : Alike size place restriction restriction .firm := by
  unfold restriction
  infer_instance

instance visibility_alike : Alike size place visibility visibility .loose := by
  unfold visibility
  infer_instance

section Grammar

variable {g g' : Grammar} [hknot : ∀ nt : Nonterminal, Alike size .inside (g nt) (g' nt) nt.extent]

instance metaItem_alike (inner : Bool) :
    Alike size place (metaItem g inner) (metaItem g' inner) .firm := by
  unfold metaItem
  infer_instance

/-- The sign of an attribute and its brackets. -/
theorem attribute_alike {sign : Parser Unit} {p p' : Parser Node}
    (hsign : ∀ {c d u}, sign c = some (u, d) → ∃ mark, c.rest = mark ++ d.rest)
    (hp : Alike size .inside p p' .lead) :
    Alike size place (sign >>= fun _ => group .bracket p) (sign >>= fun _ => group .bracket p')
      .lead := by
  have hgroup : ∀ place, Alike size place (group .bracket p) (group .bracket p') .firm :=
    fun _ => inferInstance
  constructor
  · intro c hc
    cases hrun : sign c with
    | none =>
        change (sign c).bind _ = (sign c).bind _
        rw [hrun]
        rfl
    | some answer =>
        obtain ⟨u, d⟩ := answer
        obtain ⟨mark, hmark⟩ := hsign hrun
        rw [hmark] at hc
        rw [bind_of_eq_some hrun, bind_of_eq_some hrun]
        exact (hgroup place).agree (Alike.bound_stays hc)
  · intro c d a _ hrun
    obtain ⟨u, e, hrun, hgroup⟩ := bind_eq_some.mp hrun
    obtain ⟨mark, hread⟩ := hsign hrun
    obtain ⟨body, written, hbody, -, -⟩ := group_eq_some.mp hgroup
    have hpaused : Paused (mark ++ [.group .bracket body]) := .concat_group _ _ _
    exact ⟨_, by rw [hread, hbody, List.append_assoc]; rfl, hpaused⟩

theorem punct_of_op {c d : Cursor} {u : Unit} {text : String} {char : Char}
    (htext : text.toList = [char]) (h : op text c = some (u, d)) :
    ∃ joint, c.rest = .punct char joint :: d.rest := by
  obtain ⟨hop, rfl⟩ := op_eq_some.mp h
  rw [isOp, htext] at hop
  obtain ⟨joint, rest, hrest⟩ := exists_of_nextIsOp hop
  have hlength : text.length = 1 := by rw [← String.length_toList, htext]; rfl
  exact ⟨joint, by simp [hrest, hlength]⟩

instance outerAttrs_alike : Alike size place (outerAttrs g) (outerAttrs g') .lead := by
  have hattr : Alike size place
      (op "#" >>= fun _ => group .bracket (metaItem g false))
      (op "#" >>= fun _ => group .bracket (metaItem g' false)) .lead := by
    refine attribute_alike (fun hrun => ?_) inferInstance
    obtain ⟨joint, hrest⟩ := punct_of_op rfl hrun
    exact ⟨[.punct '#' joint], hrest⟩
  unfold outerAttrs
  infer_instance

instance innerAttrs_alike : Alike size place (innerAttrs g) (innerAttrs g') .lead := by
  have hattr : Alike size place
      (op "#" >>= fun _ => op "!" >>= fun _ => group .bracket (metaItem g true))
      (op "#" >>= fun _ => op "!" >>= fun _ => group .bracket (metaItem g' true)) .lead := by
    rw [← bind_assoc, ← bind_assoc]
    refine attribute_alike (fun hrun => ?_) inferInstance
    obtain ⟨_, e, hhash, hbang⟩ := bind_eq_some.mp hrun
    obtain ⟨joint, hrest⟩ := punct_of_op rfl hhash
    obtain ⟨joint', hrest'⟩ := punct_of_op rfl hbang
    exact ⟨[.punct '#' joint, .punct '!' joint'], by rw [hrest, hrest']; rfl⟩
  unfold innerAttrs
  infer_instance

instance blockIn_alike : Alike size place (blockIn g) (blockIn g') .firm := by
  unfold blockIn
  infer_instance

instance blockWithAttrs_alike : Alike size place (blockWithAttrs g) (blockWithAttrs g') .firm := by
  unfold blockWithAttrs
  infer_instance

/-! ## Paths, generic arguments and bounds -/

omit hknot in
instance angleList_alike (keepEmpty : Bool) (isLifetime : Node → Bool) {p p' : Parser Node}
    [Alike size .inside p p' .loose] :
    Alike size place (angleList keepEmpty isLifetime p) (angleList keepEmpty isLifetime p')
      .firm := by
  unfold angleList
  infer_instance

instance constArgument_alike : Alike size place (constArgument g) (constArgument g') .firm := by
  unfold constArgument
  infer_instance

instance boundLifetimes_alike : Alike size place (boundLifetimes g) (boundLifetimes g') .firm := by
  unfold boundLifetimes
  infer_instance

instance boundLifetimes?_alike :
    Alike size place (boundLifetimes? g) (boundLifetimes? g') .loose := by
  unfold boundLifetimes?
  infer_instance

instance returnType?_alike (plus : Bool) :
    Alike size place (returnType? g plus) (returnType? g' plus) .loose := by
  unfold returnType?
  infer_instance

instance parenArguments_alike : Alike size place (parenArguments g) (parenArguments g') .firm := by
  unfold parenArguments
  infer_instance

instance withParenArguments_alike (path : Node) :
    Alike size place (withParenArguments g path) (withParenArguments g' path) .loose := by
  unfold withParenArguments
  split <;> infer_instance

instance pathSegment_alike (inExpr : Bool) :
    Alike size place (pathSegment g inExpr) (pathSegment g' inExpr) .firm := by
  unfold pathSegment
  infer_instance

instance restOfPath_alike (inExpr : Bool) :
    Alike size place (restOfPath g inExpr) (restOfPath g' inExpr) .loose := by
  unfold restOfPath
  infer_instance

instance path_alike (inExpr : Bool) : Alike size place (path g inExpr) (path g' inExpr) .firm := by
  unfold path
  infer_instance

instance constMark_alike (const : Bool) :
    Alike size place (constMark const) (constMark const) .loose := by
  unfold constMark
  infer_instance

instance traitPath_alike : Alike size place (traitPath g) (traitPath g') .firm := by
  unfold traitPath
  infer_instance

instance traitBound_alike (const parens : Bool) :
    Alike size place (traitBound g const parens) (traitBound g' const parens) .firm := by
  unfold traitBound
  infer_instance

instance traitOrGroup_alike (const : Bool) :
    Alike size place (traitOrGroup g const) (traitOrGroup g' const) .firm := by
  unfold traitOrGroup
  infer_instance

instance captureBound_alike : Alike size place captureBound captureBound .firm := by
  unfold captureBound
  infer_instance

instance bound_alike (rules : BoundRules) :
    Alike size place (bound g rules) (bound g' rules) .firm := by
  unfold bound
  infer_instance

instance genericArgument_alike :
    Alike size .inside (genericArgument g) (genericArgument g') .firm := by
  unfold genericArgument
  refine .thenFirm inferInstance fun _ => .both inferInstance ?_
  refine .thenFirm inferInstance fun _ => .both inferInstance ?_
  refine .firmThen inferInstance fun ty => ?_
  split <;> infer_instance

instance angleArguments_alike : Alike size place (angleArguments g) (angleArguments g') .firm := by
  unfold angleArguments
  infer_instance

instance qualifiedPath_alike (inExpr : Bool) :
    Alike size place (qualifiedPath g inExpr) (qualifiedPath g' inExpr) .firm := by
  unfold qualifiedPath
  infer_instance

instance bounds_alike (plus : Bool) (rules : BoundRules) :
    Alike size place (bounds g plus rules) (bounds g' plus rules) .firm := by
  unfold bounds
  infer_instance

/-! ## Generic parameters and conditions -/

omit hknot in
instance colonList_alike {p p' : Parser (List Node)} [Alike size .inside p p' .loose] :
    Alike size place (colonList p) (colonList p') .loose := by
  unfold colonList
  infer_instance

instance genericParam_alike : Alike size place (genericParam g) (genericParam g') .firm := by
  unfold genericParam
  infer_instance

instance genericParams_alike : Alike size place (genericParams g) (genericParams g') .loose := by
  unfold genericParams
  infer_instance

instance predicate_alike : Alike size .inside (predicate g) (predicate g') .firm := by
  unfold predicate
  infer_instance

instance predicates_alike : Alike size .inside (predicates g) (predicates g') .loose := by
  have hgo : ∀ fuel, Alike size .inside (predicates.go g fuel) (predicates.go g' fuel) .loose := by
    intro fuel
    induction fuel with
    | zero => exact .never (fun _ => rfl) fun _ => rfl
    | succ fuel ih =>
        unfold predicates.go
        infer_instance
  unfold predicates
  infer_instance

instance whereClause_alike : Alike size place (whereClause g) (whereClause g') .loose := by
  unfold whereClause
  infer_instance

/-! ## Types -/

instance requireTrait_alike (bounds : List Node) :
    Alike size place (requireTrait bounds) (requireTrait bounds) .loose := by
  unfold requireTrait
  infer_instance

instance typePath_alike : Alike size place (typePath g) (typePath g') .firm := by
  unfold typePath
  infer_instance

instance moreBounds_alike : Alike size place (moreBounds g) (moreBounds g') .loose := by
  unfold moreBounds
  infer_instance

instance parenContents_alike : Alike size .inside (parenContents g) (parenContents g') .loose := by
  unfold parenContents
  infer_instance

instance parenType_alike (plus : Bool) :
    Alike size place (parenType g plus) (parenType g' plus) .firm := by
  unfold parenType
  refine .firmThen inferInstance fun contents => ?_
  split
  · infer_instance
  · infer_instance
  · refine .thenLoose inferInstance fun isSum => ?_
    split <;> infer_instance

instance abi_alike : Alike size place abi abi .loose := by
  have hnamed : Alike size .inside
      (literal >>= fun node => match node with
        | .literal text => pure (Abi.named text)
        | _ => failure)
      (literal >>= fun node => match node with
        | .literal text => pure (Abi.named text)
        | _ => failure) .loose :=
    .thenLoose inferInstance fun node => by split <;> infer_instance
  unfold abi
  infer_instance

instance paramName?_alike : Alike size place paramName? paramName? .loose := by
  unfold paramName?
  infer_instance

instance functionTypeParams_alike :
    Alike size .inside (functionTypeParams g) (functionTypeParams g') .loose := by
  unfold functionTypeParams
  refine .thenLoose inferInstance fun parts => .thenLoose inferInstance fun _ => ?_
  split <;> infer_instance

instance functionType_alike (lifetimes : Option (List Node)) :
    Alike size place (functionType g lifetimes) (functionType g' lifetimes) .firm := by
  unfold functionType
  infer_instance

instance namedType_alike (plus : Bool) (lifetimes : Option (List Node)) :
    Alike size place (namedType g plus lifetimes) (namedType g' plus lifetimes) .firm := by
  unfold namedType
  refine .firmThen inferInstance fun path => ?_
  split
  · infer_instance
  · refine .thenLoose inferInstance fun isMacro => ?_
    split <;> infer_instance

instance type_alike (plus : Bool) : Alike size place (type g plus) (type g' plus) .firm := by
  unfold type
  infer_instance

/-! ## Patterns -/

omit hknot in
instance rangeLimits_alike (obsolete : Bool) :
    Alike size place (rangeLimits obsolete) (rangeLimits obsolete) .firm :=
  .reading fun {c d closed} hrun => by
    have hdots : ∀ {text : String}, [Plain text] → isOp text c.rest = true →
        d.rest = c.rest.drop text.length → ∃ read, c.rest = read ++ d.rest ∧ read ≠ [] ∧
          ∀ joint, .punct '#' joint ∉ read := by
      intro text hplain hop hrest
      rw [hrest]
      exact exists_of_isOp hop
    obtain ⟨-, hcloses, rfl⟩ | ⟨-, -, hopen, rfl⟩ := rangeLimits_cases hrun
    · rw [closesRange, Bool.or_eq_true, Bool.and_eq_true] at hcloses
      obtain hequals | ⟨-, hthree⟩ := hcloses
      · exact hdots hequals rfl
      · exact hdots hthree rfl
    · exact hdots hopen rfl

instance constBlock_alike : Alike size place (constBlock g) (constBlock g') .firm := by
  unfold constBlock
  infer_instance

instance rangeBound?_alike : Alike size place (rangeBound? g) (rangeBound? g') .loose := by
  unfold rangeBound?
  infer_instance

instance rangePattern_alike (start : Node) :
    Alike size place (rangePattern g start) (rangePattern g' start) .firm := by
  unfold rangePattern
  infer_instance

omit hknot in
instance member_alike : Alike size place member member .firm :=
  .reading fun {c d member} hrun => by
    obtain ⟨name, -, -, hrest, -⟩ | ⟨text, -, -, -, hrest, -⟩ := member_eq_some.mp hrun
    · exact ⟨[.ident name], hrest, by simp, by simp⟩
    · exact ⟨[.literal text], hrest, by simp, by simp⟩

omit hknot in
instance (priority := 2000) bind_member_alike {β : Type} {p p' : Parser Member}
    {f f' : Member → Parser β} [hp : Alike size place p p' .firm]
    [hnamed : ∀ name, Alike size .inside (f (.named name)) (f' (.named name)) .loose]
    [hposition : ∀ index, Alike size .inside (f (.position index)) (f' (.position index)) .loose] :
    Alike size place (p >>= f) (p' >>= f') .firm :=
  hp.firmThen fun
    | .named name => hnamed name
    | .position index => hposition index

instance fieldPattern_alike (attrs : List Node) :
    Alike size place (fieldPattern g attrs) (fieldPattern g' attrs) .firm := by
  unfold fieldPattern
  infer_instance

instance structPatternFields_alike :
    Alike size .inside (structPatternFields g) (structPatternFields g') .lead := by
  have hgo : ∀ fuel, Alike size .inside (structPatternFields.go g fuel)
      (structPatternFields.go g' fuel) .lead := by
    intro fuel
    induction fuel with
    | zero => exact .never (fun _ => rfl) fun _ => rfl
    | succ fuel ih =>
        unfold structPatternFields.go
        infer_instance
  unfold structPatternFields
  infer_instance

instance pathPattern_alike : Alike size place (pathPattern g) (pathPattern g') .firm := by
  unfold pathPattern
  refine .firmThen inferInstance fun path => .thenLoose inferInstance fun isMacro => ?_
  split <;> infer_instance

instance bindingPattern_alike : Alike size place (bindingPattern g) (bindingPattern g') .firm := by
  unfold bindingPattern
  infer_instance

instance parenPattern_alike : Alike size place (parenPattern g) (parenPattern g') .firm := by
  unfold parenPattern
  have hparts : ∀ parts : List (Node × Bool), Alike size .inside
      (match parts with
        | [(pattern, false)] =>
          if isRestPattern pattern then pure (Node.tuplePattern [pattern] false)
          else pure (.parenPattern pattern)
        | _ => pure (.tuplePattern (parts.map (·.1)) true))
      (match parts with
        | [(pattern, false)] =>
          if isRestPattern pattern then pure (Node.tuplePattern [pattern] false)
          else pure (.parenPattern pattern)
        | _ => pure (.tuplePattern (parts.map (·.1)) true)) .loose := by
    intro parts
    split <;> infer_instance
  infer_instance

instance singlePattern_alike : Alike size place (singlePattern g) (singlePattern g') .firm := by
  unfold singlePattern rangeBound?
  infer_instance

instance pattern_alike [Alike size place (g .singlePattern) (g' .singlePattern) .firm] :
    Alike size place (pattern g) (pattern g') .firm := by
  unfold pattern
  infer_instance

end Grammar

end ActionUnits.Source
