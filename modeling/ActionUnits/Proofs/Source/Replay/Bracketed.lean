import ActionUnits.Proofs.Source.Replay.Members
import ActionUnits.Source.Fragment

/-! # Types that start with a name in brackets

An implementation may have a pair of brackets without parameters, which is not
written. The type after it then stands where parameters may stand: a name in
brackets at the start of the type is read as a parameter, and the rest as the path
that the name was in front of.
-/

namespace ActionUnits.Source

variable {g : Grammar} {c d : Cursor} {name : Ident} {r z : List Token}

/-! ## Names as types -/

/-- A name is a segment of a path if no arguments follow. -/
theorem pathSegment_name (hname : isKeyword name = false) (hopens : opensArguments r = false)
    (hfish : isTurbofish r = false) :
    pathSegment g false ⟨.ident name :: r, z⟩ =
      some (.segment name none, ⟨r, .ident name :: z⟩) := by
  have hident : isIdent (.ident name :: r) = true := by
    change (!isKeyword name) = true
    rw [hname]
    rfl
  have hno : ∀ text, isKeyword ⟨text⟩ = true → isWord text (.ident name :: r) = false :=
    fun text htext => not_isWord_of_isIdent htext hident
  have hword : ident ⟨.ident name :: r, z⟩ = some (name, ⟨r, .ident name :: z⟩) :=
    require_peek_bind.mpr ⟨hident, rfl⟩
  have hroots : isOneOf ["super", "self", "crate", "try"] (.ident name :: r) = false := by
    simp only [isOneOf, List.any_cons, List.any_nil, hno "super" rfl, hno "self" rfl,
      hno "crate" rfl, hno "try" rfl, Bool.or_false]
  unfold pathSegment
  rw [peek_bind_apply, hroots, if_neg (by decide), peek_bind_apply, hno "Self" rfl]
  dsimp only
  rw [if_neg (by decide), bind_of_eq_some hword, peek_bind_apply, peek_bind_apply]
  have hopens' : ((isOp "<").butNot (isOp "<=")) r = false := hopens
  have hfish' : ((isOp "::").and (third (isOp "<"))) r = false := hfish
  rw [hopens', hfish']
  rfl

/-- A path ends where nothing goes on with it. -/
theorem restOfPath_stop {inExpr : Bool} (h : goesOn c.rest = false) :
    restOfPath g inExpr c = some ([], c) :=
  many_apply_false h

/-- What follows a name that is all of a type. -/
structure EndsName (r : List Token) : Prop where
  path : isOp "::" r = false
  less : isOp "<" r = false
  paren : isGroup .paren r = false
  bang : isOp "!" r = false
  plus : isOp "+" r = false

theorem EndsName.of_endsParam (h : endsParam r = true) : EndsName r := by
  have hkind := kind_of_endsParam h
  have hop : ∀ {text : String} {char : Char}, text.toList = [char] → char ∉ ['>', ',', ':', '='] →
      char ≠ '\'' → isOp text r = false := by
    intro text char htext hchar hquote
    refine isOp_of_kind htext hquote fun hr => hchar ?_
    rw [hr] at hkind
    simpa using hkind
  refine ⟨?_, hop rfl (by decide) (by decide), ?_, hop rfl (by decide) (by decide),
    hop rfl (by decide) (by decide)⟩
  · cases hpath : isOp "::" r with
    | false => rfl
    | true =>
        have hcolon : kind r = .punct ':' := kind_of_isOp rfl (by decide) hpath
        rw [endsParam_of_colon hcolon, hpath] at h
        cases h
  · cases hparen : isGroup .paren r with
    | false => rfl
    | true =>
        rw [kind_of_isGroup hparen] at hkind
        exact absurd hkind (by decide)

theorem EndsName.goesOn (h : EndsName r) : Source.goesOn r = false := by
  rw [Source.goesOn, Peek.butNot, h.path, Bool.false_and]

theorem EndsName.isParenArguments (h : EndsName r) : Source.isParenArguments r = false := by
  rw [Source.isParenArguments, Peek.or, Peek.and, h.path, h.paren, Bool.false_and, Bool.or_false]

theorem EndsName.isBang (h : EndsName r) : Source.isBang r = false := by
  rw [Source.isBang, Peek.butNot, h.bang, Bool.false_and]

theorem iterate_apply_none {α : Type} {step : α → Parser (Option α)} {a : α}
    (h : step a c = some (none, c)) : iterate step a c = some (a, c) := by
  unfold iterate
  rw [bind_of_eq_some get_apply]
  change (step a >>= _) c = _
  rw [bind_of_eq_some h]
  rfl

theorem withParenArguments_stop {path : Node} (h : isParenArguments c.rest = false) :
    withParenArguments g path c = some (none, c) := by
  unfold withParenArguments
  cases openSegment? path with
  | none => rfl
  | some extend =>
      dsimp only
      rw [peek_bind_apply, h]
      rfl

/-- A name is a path if nothing goes on with it. -/
theorem typePath_name (hname : isKeyword name = false) (h : EndsName r) :
    typePath g ⟨.ident name :: r, z⟩ =
      some (.path false [.segment name none], ⟨r, .ident name :: z⟩) := by
  have hsegment : pathSegment g false ⟨.ident name :: r, z⟩ =
      some (.segment name none, ⟨r, .ident name :: z⟩) := by
    refine pathSegment_name hname ?_ ?_
    · rw [opensArguments, Peek.butNot, h.less, Bool.false_and]
    · rw [isTurbofish, Peek.and, h.path, Bool.false_and]
  have hrest : restOfPath g false ⟨r, .ident name :: z⟩ = some ([], ⟨r, .ident name :: z⟩) :=
    restOfPath_stop h.goesOn
  have hpath : qualifiedPath g false ⟨.ident name :: r, z⟩ =
      some (.path false [.segment name none], ⟨r, .ident name :: z⟩) := by
    unfold qualifiedPath path
    rw [peek_bind_apply, show isOp "<" (.ident name :: r) = false from rfl, if_neg (by decide)]
    rw [bind_of_eq_some (op?_apply_false (rfl : isOp "::" (.ident name :: r) = false)),
      bind_of_eq_some hsegment, bind_of_eq_some hrest]
    rfl
  unfold typePath
  rw [bind_of_eq_some hpath]
  refine iterate_apply_none ?_
  rw [bind_of_eq_some (withParenArguments_stop h.isParenArguments)]
  rfl

/-- Where a path starts, the type is one named by it. -/
theorem type_of_path {plus : Bool} (hfor : isWord "for" c.rest = false)
    (hparen : isGroup .paren c.rest = false)
    (hfunction : isOneOf ["fn", "unsafe", "extern"] c.rest = false)
    (hpath : isTypePathStart c.rest = true) : type g plus c = namedType g plus none c := by
  unfold type
  rw [bind_of_eq_some get_apply, bind_of_eq_some (boundLifetimes?_apply hfor)]
  dsimp only
  rw [if_neg (by decide), peek_bind_apply, hparen, if_neg (by decide), peek_bind_apply, hfunction,
    if_neg (by decide), peek_bind_apply, hpath, if_pos rfl]

theorem type_of_ident {plus : Bool} (hname : isKeyword name = false) :
    type g plus ⟨.ident name :: r, z⟩ = namedType g plus none ⟨.ident name :: r, z⟩ := by
  have hident : isIdent (.ident name :: r) = true := by
    change (!isKeyword name) = true
    rw [hname]
    rfl
  have hno : ∀ text, isKeyword ⟨text⟩ = true → isWord text (.ident name :: r) = false :=
    fun text htext => not_isWord_of_isIdent htext hident
  refine type_of_path (hno "for" rfl) rfl ?_ ?_
  · simp only [isOneOf, List.any_cons, List.any_nil, hno "fn" rfl, hno "unsafe" rfl,
      hno "extern" rfl, Bool.or_false]
  · simp only [isTypePathStart, anyOf, List.any_cons, hident, Bool.true_or]

/-- A path that no bang can make a macro call, and to which no bound is added. -/
theorem namedType_plain {plus : Bool} {path : Node} (hpath : typePath g c = some (path, d))
    (hbang : path.plainPath? = none ∨ isBang d.rest = false) (hplus : isOp "+" d.rest = false) :
    namedType g plus none c = some (path, d) := by
  have hsum : (plus && isOp "+" d.rest) = false := by rw [hplus, Bool.and_false]
  unfold namedType
  rw [bind_of_eq_some hpath]
  split
  · rfl
  · rw [peek_bind_apply]
    cases hplain : path.plainPath? with
    | none =>
        dsimp only
        rw [peek_bind_apply, hsum]
        rfl
    | some plain =>
        rw [hbang.resolve_left (by simp [hplain])]
        dsimp only
        rw [peek_bind_apply, hsum]
        rfl

/-- A name is a type if nothing goes on with it. -/
theorem type_of_endsName {plus : Bool} (hname : isKeyword name = false) (h : EndsName r) :
    type g plus ⟨.ident name :: r, z⟩ =
      some (.path false [.segment name none], ⟨r, .ident name :: z⟩) := by
  rw [type_of_ident hname]
  exact namedType_plain (typePath_name hname h) (.inr h.isBang) h.plus

/-- A name in front of the end of a parameter is a type. -/
theorem type_name (hname : isKeyword name = false) (h : endsParam r = true) :
    type g true ⟨.ident name :: r, z⟩ =
      some (.path false [.segment name none], ⟨r, .ident name :: z⟩) :=
  type_of_endsName hname (EndsName.of_endsParam h)

/-! ## Tokens that start no type, and the type without values -/

theorem type_never (joint plus : Bool) : type g plus ⟨.punct '!' joint :: r, z⟩ =
    some (.neverType, ⟨r, .punct '!' false :: z⟩) := by
  cases joint <;> rfl

/-- No type starts with a closing bracket. -/
theorem type_greater (joint plus : Bool) : type g plus ⟨.punct '>' joint :: r, z⟩ = none := by
  cases joint <;> rfl

theorem type_hash (joint plus : Bool) : type g plus ⟨.punct '#' joint :: r, z⟩ = none := by
  cases joint <;> rfl

theorem type_const (plus : Bool) : type g plus ⟨.word "const" :: r, z⟩ = none := rfl

theorem type_lifetime (plus : Bool) (h : isOp "+" r = false) :
    type g plus ⟨.punct '\'' true :: .ident name :: r, z⟩ = none := by
  have hbounds : bounds g true ⟨false, true⟩ ⟨.punct '\'' true :: .ident name :: r, z⟩ =
      some ([.lifetime name], ⟨r, .ident name :: .punct '\'' true :: z⟩) := by
    change (if isOp "+" r = true then _ else _ : Parser (List Node)) _ = _
    rw [h]
    rfl
  change (bounds g true ⟨false, true⟩ >>= fun bounds => requireTrait bounds >>= fun _ =>
    pure (Node.traitObject bounds)) ⟨.punct '\'' true :: .ident name :: r, z⟩ = none
  rw [bind_of_eq_some hbounds]
  rfl

/-- A type that starts like a parameter is a name. -/
theorem type_of_isGenericsStart {joint : Bool} {t : List Token} {ty : Node}
    (h : type g true ⟨t, z⟩ = some (ty, d)) (hstart : isGenericsStart (.punct '<' joint :: t) = true) :
    ∃ name r, t = .ident name :: r ∧ isKeyword name = false ∧ endsParam r = true ∧
      ty = .path false [.segment name none] ∧ d = ⟨r, .ident name :: z⟩ := by
  rcases (isGenericsStart_angle joint t).mp hstart with hclose | hhash | hconst | ⟨hname, hends⟩
  · obtain ⟨joint, r, rfl⟩ := @exists_of_nextIsOp '>' [] _ hclose
    rw [type_greater] at h
    cases h
  · obtain ⟨joint, r, rfl⟩ := @exists_of_nextIsOp '#' [] _ hhash
    rw [type_hash] at h
    cases h
  · obtain ⟨r, rfl⟩ := exists_of_kind_word (kind_of_isWord hconst)
    cases h.symm.trans (type_const true)
  · rcases hname with hlifetime | hident
    · obtain ⟨name, r, rfl⟩ := exists_of_isLifetime hlifetime
      have hends : endsParam r = true := hends
      rw [type_lifetime true (EndsName.of_endsParam hends).plus] at h
      cases h
    · obtain ⟨name, r, rfl, hname⟩ := exists_of_isIdent hident
      have hrun := h.symm.trans (type_name hname hends)
      cases hrun
      exact ⟨name, r, rfl, hname, hends, rfl, rfl⟩

/-! ## The path without its first name -/

/-- How the last segment gets arguments, if it has none. -/
def openLast? (segments : List Node) : Option (Node → List Node) :=
  match segments.getLast? with
  | some (.segment name none) =>
    some fun arguments => segments.dropLast ++ [.segment name (some arguments)]
  | _ => none

theorem openSegment?_path (rooted : Bool) (segments : List Node) :
    openSegment? (.path rooted segments) =
      (openLast? segments).map fun extend arguments => .path rooted (extend arguments) := by
  unfold openSegment? openLast?
  dsimp only
  generalize segments.getLast? = last
  cases last with
  | none => rfl
  | some node =>
      cases node with
      | segment name arguments => cases arguments <;> rfl
      | _ => rfl

theorem openSegment?_qualified (self : Node) (traitPath : Option Node) (segments : List Node) :
    openSegment? (.qualifiedPath self traitPath segments) =
      (openLast? segments).map fun extend arguments =>
        .qualifiedPath self traitPath (extend arguments) := by
  unfold openSegment? openLast?
  dsimp only
  generalize segments.getLast? = last
  cases last with
  | none => rfl
  | some node =>
      cases node with
      | segment name arguments => cases arguments <;> rfl
      | _ => rfl

/-- One round of reading the arguments in parentheses of a path. -/
def typePathStep (g : Grammar) (path : Node) : Parser (Option Node) := do
  match ← withParenArguments g path with
  | none => return none
  | some extended =>
    if mayGoOn extended then return some (addSegments (← restOfPath g false) extended)
    else return some extended

/-- The path of a type is its start, and then whatever goes on with it. -/
theorem typePath_eq (g : Grammar) :
    typePath g = (qualifiedPath g false >>= fun start => iterate (typePathStep g) start) := rfl

section Switch

variable {self : Node} {traitPath : Option Node}

theorem withParenArguments_switch {segments : List Node} {answer : Option Node}
    (h : withParenArguments g (.qualifiedPath self traitPath segments) c = some (answer, d)) :
    ∃ extended : Option (List Node), answer = extended.map (.qualifiedPath self traitPath) ∧
      withParenArguments g (.path true segments) c = some (extended.map (.path true), d) := by
  unfold withParenArguments at h ⊢
  rw [openSegment?_qualified] at h
  rw [openSegment?_path]
  cases hopen : openLast? segments with
  | none =>
      rw [hopen] at h
      obtain ⟨rfl, rfl⟩ := pure_eq_some.mp h
      exact ⟨none, rfl, rfl⟩
  | some extend =>
      rw [hopen] at h
      simp only [Option.map_some] at h ⊢
      rw [peek_bind_apply] at h ⊢
      cases hparen : isParenArguments c.rest with
      | false =>
          rw [hparen] at h
          obtain ⟨rfl, rfl⟩ := pure_eq_some.mp h
          exact ⟨none, rfl, rfl⟩
      | true =>
          rw [hparen] at h
          obtain ⟨x, e, hcapture, h⟩ := bind_eq_some.mp h
          obtain ⟨arguments, e₁, harguments, hpure⟩ := bind_eq_some.mp h
          obtain ⟨rfl, rfl⟩ := pure_eq_some.mp hpure
          refine ⟨some (extend arguments), rfl, ?_⟩
          rw [if_pos rfl, bind_of_eq_some hcapture, bind_of_eq_some harguments]
          rfl

/-- Going on with a qualified path does not depend on what qualifies it. -/
theorem typePathStep_switch {segments : List Node} {answer : Option Node}
    (h : typePathStep g (.qualifiedPath self traitPath segments) c = some (answer, d)) :
    ∃ extended : Option (List Node), answer = extended.map (.qualifiedPath self traitPath) ∧
      typePathStep g (.path true segments) c = some (extended.map (.path true), d) := by
  unfold typePathStep at h ⊢
  obtain ⟨first, e, hfirst, h⟩ := bind_eq_some.mp h
  obtain ⟨extended, rfl, hswitched⟩ := withParenArguments_switch hfirst
  rw [bind_of_eq_some hswitched]
  cases extended with
  | none =>
      obtain ⟨rfl, rfl⟩ := pure_eq_some.mp h
      exact ⟨none, rfl, rfl⟩
  | some extended =>
      have hgoes : mayGoOn (.qualifiedPath self traitPath extended) = mayGoOn (.path true extended) :=
        rfl
      simp only [Option.map_some] at h ⊢
      rw [hgoes] at h
      split at h
      next hyes =>
          obtain ⟨more, e₁, hmore, hpure⟩ := bind_eq_some.mp h
          obtain ⟨rfl, rfl⟩ := pure_eq_some.mp hpure
          refine ⟨some (extended ++ more), rfl, ?_⟩
          rw [if_pos hyes, bind_of_eq_some hmore]
          rfl
      next hno =>
          obtain ⟨rfl, rfl⟩ := pure_eq_some.mp h
          refine ⟨some extended, rfl, ?_⟩
          rw [if_neg hno]
          rfl

theorem iterateStep_switch {segments : List Node} {ty : Node} (fuel : Nat)
    (h : iterateStep (typePathStep g) fuel (.qualifiedPath self traitPath segments) c =
      some (ty, d)) :
    ∃ result, ty = .qualifiedPath self traitPath result ∧
      iterateStep (typePathStep g) fuel (.path true segments) c = some (.path true result, d) := by
  induction fuel generalizing segments c with
  | zero => cases h
  | succ fuel ih =>
      unfold iterateStep at h ⊢
      obtain ⟨answer, e, hstep, h⟩ := bind_eq_some.mp h
      obtain ⟨extended, rfl, hswitched⟩ := typePathStep_switch hstep
      rw [bind_of_eq_some hswitched]
      cases extended with
      | none =>
          obtain ⟨rfl, rfl⟩ := pure_eq_some.mp h
          exact ⟨segments, rfl, rfl⟩
      | some extended => exact ih h

end Switch

/-- What is repeated may be asked for in another way. -/
theorem many_of_many {α : Type} {question question' : Peek} {p : Parser α} {c d : Cursor}
    {as : List α} (himp : ∀ u, question' u = true → question u = true)
    (hrun : ∀ c x, question c.rest = true → p c = some x → question' c.rest = true)
    (h : many question p c = some (as, d)) : many question' p c = some (as, d) := by
  obtain ⟨hlength, hrounds⟩ := repeated_eq_some.mp h
  refine repeated_eq_some.mpr ⟨hlength, ?_⟩
  clear hlength h
  induction hrounds with
  | stop hstep =>
      rw [peek_bind_apply] at hstep
      split at hstep
      next =>
          obtain ⟨_, _, -, hpure⟩ := bind_eq_some.mp hstep
          cases hpure
      next hno =>
          refine .stop ?_
          rw [peek_bind_apply, if_neg fun hyes => hno (himp _ hyes)]
          exact hstep
  | next hstep _ ih =>
      refine .next ?_ ih
      rw [peek_bind_apply] at hstep ⊢
      split at hstep
      next hyes =>
          obtain ⟨a, e, hp, -⟩ := bind_eq_some.mp hstep
          rw [if_pos (hrun _ _ hyes hp)]
          exact hstep
      next => cases hstep

/-- A segment is no group. -/
theorem not_paren_of_pathSegment {inExpr : Bool} {segment : Node}
    (h : pathSegment g inExpr c = some (segment, d)) : isGroup .paren c.rest = false := by
  cases hparen : isGroup .paren c.rest with
  | false => rfl
  | true =>
      obtain ⟨rest, written⟩ := c
      obtain ⟨body, r, rfl⟩ := exists_of_isGroup hparen
      cases h

/-- What is known of the types that a grammar reads, in front of which brackets may be missing. -/
structure PlainTypes (g : Grammar) : Prop where
  /-- A type that starts with an exclamation mark is no more than it. -/
  never : ∀ {joint r z ty d}, g (.ty true) ⟨.punct '!' joint :: r, z⟩ = some (ty, d) → d.rest = r
  /-- A type that starts like a parameter is a name. -/
  inside : ∀ {c ty d} joint, g (.ty true) c = some (ty, d) →
    isGenericsStart (.punct '<' joint :: c.rest) = true → ∃ name r, c.rest = .ident name :: r ∧
      isKeyword name = false ∧ endsParam r = true ∧ ty = .path false [.segment name none] ∧
      d = ⟨r, .ident name :: c.written⟩

/-- A qualified path starts with a name in brackets, and what follows is a path by itself. -/
theorem qualifiedPath_bare (hg : PlainTypes g) {path : Node}
    (h : qualifiedPath g false c = some (path, d)) (hstart : isGenericsStart c.rest = true) :
    ∃ joint name joint' r segments, isKeyword name = false ∧
      c.rest = .punct '<' joint :: .ident name :: .punct '>' joint' :: r ∧ isOp "::" r = true ∧
      path = .qualifiedPath (.path false [.segment name none]) none segments ∧
      Source.path g false ⟨r, .punct '>' false :: .ident name :: .punct '<' false :: c.written⟩ =
        some (.path true segments, d) := by
  obtain ⟨u, w⟩ := c
  have hless : isOp "<" u = true := ((Bool.and_eq_true _ _).mp hstart).1
  obtain ⟨joint, t, rfl⟩ := @exists_of_nextIsOp '<' [] _ hless
  unfold qualifiedPath at h
  rw [peek_bind_apply, if_pos hless] at h
  obtain ⟨_, e₁, hopen, h⟩ := bind_eq_some.mp h
  obtain ⟨-, rfl⟩ := op_eq_some.mp hopen
  obtain ⟨self, e₂, hself, h⟩ := bind_eq_some.mp h
  obtain ⟨name, r, ht, hname, hends, rfl, rfl⟩ := hg.inside joint hself hstart
  obtain rfl : t = .ident name :: r := ht
  -- The name ends the parameter, so no trait comes after it.
  have has : isWord "as" r = false := by
    cases hword : isWord "as" r with
    | false => rfl
    | true =>
        have hkind := kind_of_endsParam hends
        rw [kind_of_isWord hword] at hkind
        exact absurd hkind (by decide)
  rw [when?_bind, peek_bind_apply, if_neg (by rw [has]; nofun)] at h
  obtain ⟨_, e₃, hclose, h⟩ := bind_eq_some.mp h
  obtain ⟨hgreater, rfl⟩ := op_eq_some.mp hclose
  obtain ⟨joint', r, rfl⟩ := @exists_of_nextIsOp '>' [] _ hgreater
  obtain ⟨_, e₄, hcolons, h⟩ := bind_eq_some.mp h
  obtain ⟨hpath, rfl⟩ := op_eq_some.mp hcolons
  obtain ⟨first, e₅, hfirst, h⟩ := bind_eq_some.mp h
  obtain ⟨others, e₆, hothers, hpure⟩ := bind_eq_some.mp h
  obtain ⟨rfl, rfl⟩ := pure_eq_some.mp hpure
  refine ⟨joint, name, joint', r, _, hname, rfl, hpath, rfl, ?_⟩
  -- A plain path stops before colons with parentheses after them; a segment was read after these
  -- colons, so there are none.
  have hrest : restOfPath g false e₅ = some (others, e₆) := by
    refine many_of_many (fun u hyes => ((Bool.and_eq_true _ _).mp hyes).1) (fun c x hyes hp => ?_)
      hothers
    obtain ⟨_, e, hop, hsegment⟩ := bind_eq_some.mp hp
    obtain ⟨-, rfl⟩ := op_eq_some.mp hop
    have hparen : third (isGroup .paren) c.rest = false :=
      (third_of_path hyes).trans (not_paren_of_pathSegment hsegment)
    unfold Peek.butNot
    rw [hyes, hparen]
    rfl
  have hpath : isOp "::" r = true := hpath
  unfold Source.path
  exact bind_eq_some.mpr ⟨true, _, op?_apply_true hpath,
    bind_eq_some.mpr ⟨first, e₅, hfirst, bind_eq_some.mpr ⟨others, e₆, hrest, rfl⟩⟩⟩

/-- A type that starts with a name in brackets is read as a path without them. -/
theorem type_bare (hg : PlainTypes g) {ty : Node} (h : type g true c = some (ty, d))
    (hstart : isGenericsStart c.rest = true) (hbang : isBang d.rest = false)
    (hplus : isOp "+" d.rest = false) :
    ∃ joint name joint' r segments, isKeyword name = false ∧
      c.rest = .punct '<' joint :: .ident name :: .punct '>' joint' :: r ∧ isOp "::" r = true ∧
      ty = .qualifiedPath (.path false [.segment name none]) none segments ∧
      type g true ⟨r, .punct '>' false :: .ident name :: .punct '<' false :: c.written⟩ =
        some (.path true segments, d) := by
  have hless : isOp "<" c.rest = true := ((Bool.and_eq_true _ _).mp hstart).1
  have hkind := kind_of_isOp (rfl : "<".toList = ['<']) (by decide) hless
  have hno : ∀ {question : Peek} [Headed question], question c.rest = question [.punct '<' false] :=
    Headed.eq_of_kind_eq hkind
  have hpath : isTypePathStart c.rest = true := by
    simp only [isTypePathStart, anyOf, List.any_cons, hless, Bool.true_or, Bool.or_true]
  rw [type_of_path hno hno hno hpath] at h
  unfold namedType at h
  obtain ⟨path, e, htypePath, h⟩ := bind_eq_some.mp h
  rw [typePath_eq] at htypePath
  obtain ⟨start, e₁, hqualified, hsteps⟩ := bind_eq_some.mp htypePath
  obtain ⟨joint, name, joint', r, segments, hname, hrest, hcolons, rfl, hbare⟩ :=
    qualifiedPath_bare hg hqualified hstart
  obtain ⟨result, rfl, hswitched⟩ := iterateStep_switch (e₁.rest.length + 1) hsteps
  obtain ⟨rfl, rfl⟩ := pure_eq_some.mp h
  refine ⟨joint, name, joint', r, result, hname, hrest, hcolons, rfl, ?_⟩
  have hcolon : kind r = .punct ':' := kind_of_isOp rfl (by decide) hcolons
  have hno' : ∀ {question : Peek} [Headed question], question r = question [.punct ':' false] :=
    Headed.eq_of_kind_eq hcolon
  have hpath' : isTypePathStart r = true := by
    simp only [isTypePathStart, anyOf, List.any_cons, hcolons, Bool.true_or, Bool.or_true]
  rw [type_of_path hno' hno' hno' hpath']
  -- Without the brackets the type starts with colons, and the steps after its start are the same.
  refine namedType_plain ?_ (.inr hbang) hplus
  rw [typePath_eq]
  refine bind_eq_some.mpr ⟨.path true segments, e₁, ?_, hswitched⟩
  unfold qualifiedPath
  rw [peek_bind_apply, if_neg (by rw [(hno' : isOp "<" r = _)]; decide)]
  exact hbare

/-- At every depth, names are types. -/
theorem plainTypes_grammarTo (depth : Nat) : PlainTypes (grammarTo depth) := by
  cases depth with
  | zero => exact ⟨nofun, nofun⟩
  | succ depth =>
      refine ⟨fun h => ?_, fun joint h hstart => type_of_isGenericsStart h hstart⟩
      cases h.symm.trans (type_never _ true)
      rfl

/-- A grammar in which a type that starts with a name in brackets goes on with a path. -/
structure BareTypes (g : Grammar) : Prop extends PlainTypes g where
  bare : ∀ {c ty d}, g (.ty true) c = some (ty, d) → isGenericsStart c.rest = true →
    isBang d.rest = false → isOp "+" d.rest = false →
    ∃ joint name joint' r segments, isKeyword name = false ∧
      c.rest = .punct '<' joint :: .ident name :: .punct '>' joint' :: r ∧ isOp "::" r = true ∧
      ty = .qualifiedPath (.path false [.segment name none]) none segments ∧
      g (.ty true) ⟨r, .punct '>' false :: .ident name :: .punct '<' false :: c.written⟩ =
        some (.path true segments, d)

/-- At every depth, marks that start no type are refused. -/
theorem bareTypes_grammarTo (depth : Nat) : BareTypes (grammarTo depth) := by
  refine ⟨plainTypes_grammarTo depth, ?_⟩
  cases depth with
  | zero => nofun
  | succ depth => exact type_bare (plainTypes_grammarTo depth)

/-! ## The name as a parameter -/

/-- A name in front of a closing bracket is a parameter. -/
theorem genericParam_name (hname : isKeyword name = false) (hclose : isOp ">" r = true) :
    genericParam g ⟨.ident name :: r, z⟩ =
      some (.typeParam [] name [] none, ⟨r, .ident name :: z⟩) := by
  have hident : isIdent (.ident name :: r) = true := by
    change (!isKeyword name) = true
    rw [hname]
    rfl
  have hkind : kind r = .punct '>' := kind_of_isOp rfl (by decide) hclose
  have hno : ∀ {question : Peek} [Headed question], question r = question [.punct '>' false] :=
    Headed.eq_of_kind_eq hkind
  have hattrs : outerAttrs g ⟨.ident name :: r, z⟩ = some ([], ⟨.ident name :: r, z⟩) :=
    many_apply_false rfl
  have hword : ident ⟨.ident name :: r, z⟩ = some (name, ⟨r, .ident name :: z⟩) :=
    require_peek_bind.mpr ⟨hident, rfl⟩
  unfold genericParam
  rw [bind_of_eq_some hattrs, peek_bind_apply,
    show isLifetime (.ident name :: r) = false from rfl, if_neg (by decide), peek_bind_apply,
    if_pos hident, bind_of_eq_some hword, colonList_eq, bind_assoc, peek_bind_apply,
    (hno : isOp ":" r = _), if_neg (by decide), pure_bind, when?_bind, peek_bind_apply,
    (hno : isOp "=" r = _), if_neg (by decide)]
  rfl

/-- A single name in angle brackets is a list of parameters. -/
theorem genericParams_name {joint : Bool} (hname : isKeyword name = false)
    (hclose : isOp ">" r = true) :
    genericParams g ⟨.punct '<' joint :: .ident name :: r, z⟩ =
      some ([.typeParam [] name [] none],
        ⟨r.drop 1, .punct '>' false :: .ident name :: .punct '<' false :: z⟩) := by
  let element : Node × AnglePart := (.typeParam [] name [] none, ⟨false, [.ident name], false⟩)
  have hstep : angleStep isLifetimeParam (genericParam g)
      ⟨.ident name :: r, [.punct '<' false]⟩ = some (some element, ⟨r, [.punct '<' false]⟩) :=
    angleStep_eq_some.mpr ⟨rfl, rfl, r, genericParam_name hname hclose, .inl ⟨hclose, rfl, rfl⟩⟩
  have hrounds : repeated (angleStep isLifetimeParam (genericParam g))
      ⟨.ident name :: r, [.punct '<' false]⟩ = some ([element], ⟨r, [.punct '<' false]⟩) :=
    repeated_eq_some.mpr ⟨by simp, .next hstep (.stop (angleStep_eq_none.mpr ⟨hclose, rfl⟩))⟩
  unfold genericParams
  rw [peek_bind_apply, if_pos (by rfl)]
  exact angleList_eq_some.mpr ⟨[element], joint, _, r, _, rfl, hrounds, hclose, rfl, rfl, rfl⟩

end ActionUnits.Source
