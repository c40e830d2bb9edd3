import ActionUnits.Proofs.Source.Replay.Block

/-! # Replaying what is applied to an expression

Calls, fields, indices and question marks follow an expression one after the
other. A number with a point names two fields at once; they are written one by
one, so the second reading takes more steps than the first one.
-/

namespace ActionUnits.Source

variable {m : Mode} {size : Nat} {g g' : Grammar} {u u' : List Token} {c d : Cursor}

/-! ## Calls -/

/-- Lists of expressions are read the same again. -/
theorem exprList_replays (hg : Knot m size g g') :
    Replays m size 0 (fun _ => AtEnd) (commaList (g (.expr true))) (commaList (g' (.expr true)))
      Lead :=
  commaList_replays ((hg.expr true).before fun _ _ h => h.toLead) atEnd_nil.edge
    fun _ _ hcomma h => h.edge_of_comma hcomma

theorem callArguments_edge (hg : Knot m size g g') :
    Replays m size 1 (fun _ => Any) (group .paren (commaList (g (.expr true))))
      (group .paren (commaList (g' (.expr true)))) Edge :=
  (group_edge .paren (exprList_replays hg) fun _ => atEnd_nil).smaller

/-- The arguments of a method call are read the same again. -/
theorem methodCall_replays (hg : Knot m size g g') (base : Node) (name : Ident)
    (turbofish : Option Node) :
    Replays m size 0 (fun _ => Edge)
      (peek (isGroup .paren) >>= fun opens => if (turbofish.isSome || opens) = true then
          group .paren (commaList (g (.expr true))) >>= fun arguments =>
            pure (Node.methodCall base name turbofish arguments)
        else pure (Node.field base (.named name)))
      (peek (isGroup .paren) >>= fun opens => if (turbofish.isSome || opens) = true then
          group .paren (commaList (g' (.expr true))) >>= fun arguments =>
            pure (Node.methodCall base name turbofish arguments)
        else pure (Node.field base (.named name))) Lead := by
  refine .each (fun opens => .fixed (fun _ => ?_) fun _ => ?_) fun u u' h => (Stable.eq_of_lead h).symm
  · exact ((callArguments_edge hg).forget.result fun _ _ _ _ => trivial).before
      fun _ _ h _ => h.toLead
  · exact (Replays.pure _).before fun _ _ h _ => h.toLead

/-- A field or a method call is read the same again. -/
theorem fieldOrMethod_replays (hg : Knot m size g g') (base : Node) :
    Replays m size 1 (fun _ => Edge) (fieldOrMethod g base) (fieldOrMethod g' base)
      FieldStart := by
  unfold fieldOrMethod
  refine .choiceWord ?_ ?_ fun u u' h => h.answer fun _ => rfl
  · refine (word_replays "await" Edge).wrap.before fun u u' h _ => .inl ?_
    obtain ⟨name, r, r', hu, hu', -⟩ := h
    exact ⟨name, r, r', hu, hu', trivial⟩
  · refine (@member_bind _ _ Lead _ _ _ _ _ (fun name => ?_) fun index => .pure _).before
      fun _ _ h _ => h
    refine .when? (fun _ _ h => h) ?_ (methodCall_replays hg base name none)
    rw [bind_assoc, bind_assoc]
    refine op_path.forget.bind AngleStart (fun _ => ?_) fun _ _ _ h => h.toLead.kin
    exact hg.angle.forget.bind Lead (fun turbofish => methodCall_replays hg base name _)
      fun _ _ _ _ => trivial

/-! ## One step -/

/-- A step of what is applied to an expression, with a parser for what follows a point. -/
def trailer (point : Node → Parser Node) (g : Grammar) (base : Node) : Parser (Option Node) := do
  if ← peek (isGroup .paren) then
    return some (.call base (← group .paren (commaList (g (.expr true)))))
  else if !isRange base && (← peek ((isOp ".").butNot (isOp ".."))) then
    op "."
    return some (← point base)
  else if ← peek (isGroup .bracket) then
    return some (.index base (← group .bracket (g (.expr true))))
  else if !isRange base && (← peek (isOp "?")) then
    op "?"
    return some (.tryExpr base)
  else return none

/-- The parts behind an expression are read one after the other. -/
theorem trailers_eq (g : Grammar) (start : Node) :
    trailers g start = iterate (trailer (afterPoint g) g) start := rfl

theorem FieldStart.not_isOp (h : FieldStart u u') {text : String} {char : Char} {chars : List Char}
    (htext : text.toList = char :: chars) (hchar : char ≠ '\'') :
    isOp text u = false ∧ isOp text u' = false := by
  rcases h with ⟨name, r, r', rfl, rfl, -⟩ | ⟨text, text', r, r', rfl, rfl⟩
  · exact ⟨isOp_of_kind htext hchar nofun, isOp_of_kind htext hchar nofun⟩
  · exact ⟨isOp_of_kind htext hchar nofun, isOp_of_kind htext hchar nofun⟩

/-- A point in front of a field is no part of a range. -/
theorem FieldStart.edge_point (h : FieldStart u u') (joint joint' : Bool) :
    Edge (.punct '.' joint :: u) (.punct '.' joint' :: u') := by
  obtain ⟨hu, hu'⟩ := h.not_isOp (rfl : ".".toList = ['.']) (by decide)
  have hdots : ∀ {joint v}, isOp "." v = false → isOp ".." (.punct '.' joint :: v) = false := by
    intro joint v hv
    cases joint with
    | false => rfl
    | true => exact hv
  have hpath : ∀ joint v, isOp "::" (.punct '.' joint :: v) = false := by
    intro joint v
    cases joint <;> rfl
  refine Lead.edge ⟨?_, rfl, ?_, ?_, ?_, ?_⟩ (by rw [kind_punct (by decide)]; rfl)
  · rw [kind_punct (by decide), kind_punct (by decide)]
  · rw [hpath, hpath]
  · rw [hdots hu, hdots hu']
  · rw [kind_punct (by decide)]
    nofun
  · rw [hpath]
    nofun

/-- A point and what it selects are read the same again. -/
theorem pointStep_replays {point point' : Node → Parser Node} {base : Node}
    (hpoint : Replays m size 1 (fun _ => Edge) (point base) (point' base) FieldStart) :
    Replays m size 0 (OnSome (fun _ => Edge) Edge)
      (op "." >>= fun _ => point base >>= fun e => pure (some e))
      (op "." >>= fun _ => point' base >>= fun e => pure (some e)) Edge := by
  refine ((op_replays "." (by decide) FieldStart).forget.bind FieldStart
    (fun _ => hpoint.forget.result fun _ _ _ h => h) fun _ _ _ h => h).before fun u u' h => ?_
  obtain ⟨joint, joint', r, r', rfl, rfl, -, hfield⟩ := h.single '.' rfl
  exact hfield.edge_point joint joint'

/-- One part behind an expression is read the same again. -/
theorem trailer_replays (hg : Knot m size g g') {point point' : Node → Parser Node}
    (hpoint : ∀ base, Replays m size 1 (fun _ => Edge) (point base) (point' base) FieldStart)
    (base : Node) :
    Replays m size 0 (OnSome (fun _ => Edge) Edge) (trailer point g base) (trailer point' g' base)
      Edge := by
  have hquestion : Replays m size 0 (OnSome (fun _ => Edge) Edge)
      (peek (isOp "?") >>= fun b => if (!isRange base && b) = true then
        op "?" >>= fun _ => pure (some (Node.tryExpr base)) else pure none)
      (peek (isOp "?") >>= fun b => if (!isRange base && b) = true then
        op "?" >>= fun _ => pure (some (Node.tryExpr base)) else pure none) Edge := by
    refine .each (fun b => .fixed (fun _ => ?_) fun _ => ?_)
      fun u u' h => (Stable.eq_of_lead h.toLead).symm
    · refine ((op_known "?").forget.result fun _ _ _ _ => trivial).before fun u u' h _ => ?_
      exact h.2.edge (by rw [kind_of_isOp (rfl : "?".toList = ['?']) (by decide) h.1]; rfl)
    · exact (Replays.pure none).before fun _ _ h _ => h
  have hindex : Replays m size 0 (OnSome (fun _ => Edge) Edge)
      (group .bracket (g (.expr true)) >>= fun index => pure (some (Node.index base index)))
      (group .bracket (g' (.expr true)) >>= fun index => pure (some (Node.index base index)))
      Edge :=
    (group_edge .bracket (hg.expr true).forget fun _ => atEnd_nil.edge).smaller.forget.result
      fun _ _ _ _ => trivial
  refine .ite (fun _ _ h => h.toLead) ?_ (.each (fun b => .fixed (fun _ => ?_) fun _ => ?_) ?_)
  · exact (callArguments_edge hg).forget.result fun _ _ _ _ => trivial
  · exact (pointStep_replays (hpoint base)).before fun _ _ h _ => h
  · exact (Replays.ite (fun _ _ h => h.toLead) hindex hquestion).before fun _ _ h _ => h
  · exact fun u u' h => (Stable.eq_of_lead h.toLead).symm

/-- Each part behind an expression reads something. -/
theorem trailer_moves (hg : Knot m size g g') {point point' : Node → Parser Node}
    (hpoint : ∀ base, Replays m size 1 (fun _ => Edge) (point base) (point' base) FieldStart)
    (base : Node) : Moves m (trailer point g base) := by
  have hcall : Replays m size 1 (fun _ => Any) _ _ Edge :=
    (callArguments_edge hg).wrap (f := fun arguments => some (Node.call base arguments))
  have hfield : Replays m size 1 (fun _ => Edge) _ _ (OpThen m "." FieldStart) :=
    (op_then "." FieldStart).keep FieldStart (fun _ => (hpoint base).forget.wrap (f := some))
      fun _ _ _ h => h
  have hindex : Replays m size 1 (fun _ => Any) _ _ Edge :=
    (group_edge .bracket (hg.expr true).forget fun _ => atEnd_nil.edge).smaller.wrap
      (f := fun index => some (Node.index base index))
  have hquestion : Replays m size 1 (fun _ => Any) _ _ Lead :=
    (op_closed "?").wrap (f := fun _ => some (Node.tryExpr base))
  exact .peek fun _ => .ite (.of_replays hcall) (.peek fun _ => .ite (.of_replays hfield)
    (.peek fun _ => .ite (.of_replays hindex) (.peek fun _ => .ite (.of_replays hquestion) .none)))

/-- What the parser after a point matters for. -/
theorem trailer_cases {point : Node → Parser Node} {base : Node} {answer : Option Node}
    (h : trailer point g base c = some (answer, d)) :
    (∀ point', trailer point' g base c = some (answer, d)) ∨
      (isRange base = false ∧ isOp "." c.rest = true ∧ isOp ".." c.rest = false ∧
        ∃ e, answer = some e ∧
          point base ⟨c.rest.drop 1, (Token.operator ".").reverse ++ c.written⟩ = some (e, d)) := by
  by_cases hparen : isGroup .paren c.rest = true
  · refine .inl fun point' => ?_
    unfold trailer at h ⊢
    rw [peek_bind_apply, if_pos hparen] at h ⊢
    exact h
  · by_cases hpoint : (!isRange base && ((isOp ".").butNot (isOp "..")) c.rest) = true
    · refine .inr ?_
      unfold trailer at h
      rw [peek_bind_apply, if_neg hparen, peek_bind_apply, if_pos hpoint] at h
      obtain ⟨_, e, hop, h⟩ := bind_eq_some.mp h
      obtain ⟨b, e', hrun, hpure⟩ := bind_eq_some.mp h
      obtain ⟨rfl, rfl⟩ := pure_eq_some.mp hpure
      obtain ⟨hdot, rfl⟩ := op_eq_some.mp hop
      simp only [Peek.butNot, Bool.and_eq_true, Bool.not_eq_true'] at hpoint
      exact ⟨hpoint.1, hdot, hpoint.2.2, b, rfl, hrun⟩
    · refine .inl fun point' => ?_
      unfold trailer at h ⊢
      rw [peek_bind_apply, if_neg hparen, peek_bind_apply, if_neg hpoint] at h ⊢
      exact h

theorem trailer_point {point : Node → Parser Node} {base e : Node} (hrange : isRange base = false)
    {joint : Bool} {r z : List Token} (hdots : isOp ".." (.punct '.' joint :: r) = false)
    (h : point base ⟨r, (Token.operator ".").reverse ++ z⟩ = some (e, d)) :
    trailer point g base ⟨.punct '.' joint :: r, z⟩ = some (some e, d) := by
  have hdot : isOp "." (.punct '.' joint :: r) = true := rfl
  unfold trailer
  rw [peek_bind_apply, if_neg (by nofun), peek_bind_apply,
    if_pos (by rw [hrange, Peek.butNot, hdot, hdots]; rfl)]
  exact bind_eq_some.mpr ⟨(), _, op_eq_some.mpr ⟨rfl, rfl⟩, bind_eq_some.mpr ⟨e, d, h, rfl⟩⟩

/-! ## Numbers with points -/

theorem hasFraction_of_digits {cs : List Char} (h : ∀ c ∈ cs, c.isDigit = true ∨ c = '_') :
    hasFraction cs = false := by
  induction cs with
  | nil => rfl
  | cons c cs ih =>
      have hc : (c.isDigit || c == '_') = true := by simpa using h c List.mem_cons_self
      rw [hasFraction, if_pos hc]
      exact ih fun c' hc' => h c' (List.mem_cons_of_mem _ hc')

/-- The number of a position has no point. -/
theorem not_isFloat_of_position {text : String} {index : Nat}
    (h : position? text.toList = some index) : isFloat text = false := by
  have hdigits : ∀ c ∈ text.toList, c.isDigit = true ∨ c = '_' := by
    intro c hc
    simp only [position?] at h
    split at h
    next hfits =>
        simp only [Bool.and_eq_true, List.all_eq_true] at hfits
        by_cases hunder : c = '_'
        · exact .inr hunder
        · exact .inl (hfits.1.2 c (List.mem_filter.mpr ⟨hc, by simpa using hunder⟩))
    next => cases h
  unfold isFloat
  split
  · rfl
  · rfl
  · rfl
  · rw [hasFraction_of_digits hdigits, Bool.and_false]

/-- What follows a point, if it is a number with points. -/
def afterNumber (g : Grammar) (text : String) (base : Node) : Parser Node :=
  match (splitPoints text.toList).getLast? with
  | some [] => do
    let base ← positions (splitPoints text.toList).dropLast base
    write (Token.operator ".")
    fieldOrMethod g base
  | _ => positions (splitPoints text.toList) base

theorem afterPoint_of_float {text : String} (h : isFloat text = true) (base : Node)
    (r z : List Token) :
    afterPoint g base ⟨.literal text :: r, z⟩ = afterNumber g text base ⟨r, z⟩ := by
  unfold afterPoint
  rw [bind_of_eq_some get_apply]
  dsimp only
  rw [if_pos h, bind_of_eq_some (skip_apply 1)]
  rfl

/-- Behind a point, anything but a number with a fraction is a field or a method call. -/
theorem afterPoint_of_not_float {base : Node}
    (h : ∀ text r, c.rest = .literal text :: r → isFloat text = false) :
    afterPoint g base c = fieldOrMethod g base c := by
  obtain ⟨rest, written⟩ := c
  unfold afterPoint
  rw [bind_of_eq_some get_apply]
  cases rest with
  | nil => rfl
  | cons token r =>
      cases token with
      | literal text => exact congrFun (if_neg (by rw [h text r rfl]; nofun)) _
      | ident name => rfl
      | punct char joint => rfl
      | group delimiter body => rfl

/-- A field is no number with points. -/
theorem afterPoint_of_field {base e : Node} (h : fieldOrMethod g base c = some (e, d)) :
    afterPoint g base c = some (e, d) := by
  rw [afterPoint_of_not_float, h]
  intro text r hrest
  unfold fieldOrMethod at h
  rw [word?_bind, peek_bind_apply, hrest, if_neg (by nofun)] at h
  obtain ⟨a, e', hmember, -⟩ := bind_eq_some.mp h
  rcases member_eq_some.mp hmember with ⟨name, -, -, hname, -⟩ | ⟨text', index, hindex, -, htext, -⟩
  · rw [hrest] at hname
    cases hname
  · rw [hrest] at htext
    cases htext
    exact not_isFloat_of_position hindex

theorem positions_single {numeral : List Char} {index : Nat} (h : position? numeral = some index)
    (base : Node) (r z : List Token) :
    positions [numeral] base ⟨r, z⟩ =
      some (.field base (.position index), ⟨r, .literal (toString index) :: z⟩) := by
  unfold positions
  rw [h]
  rfl

/-- The positions of a number with a fraction are selected one by one. -/
theorem positions_cons {numeral next : List Char} {index : Nat} (h : position? numeral = some index)
    (parts : List (List Char)) (base : Node) (r z : List Token) :
    positions (numeral :: next :: parts) base ⟨r, z⟩ =
      positions (next :: parts) (.field base (.position index))
        ⟨r, (Token.operator ".").reverse ++ .literal (toString index) :: z⟩ := by
  rw [positions, h]
  rfl

/-- One position after a point. -/
theorem trailer_position {base : Node} (hrange : isRange base = false) {text : String} {index : Nat}
    (h : position? text.toList = some index) (joint : Bool) (r z : List Token) :
    trailer (afterPoint g) g base ⟨.punct '.' joint :: .literal text :: r, z⟩ =
      some (some (.field base (.position index)),
        ⟨r, .literal (toString index) :: ((Token.operator ".").reverse ++ z)⟩) := by
  refine trailer_point hrange (by cases joint <;> rfl) (afterPoint_of_field ?_)
  unfold fieldOrMethod
  rw [word?_bind, peek_bind_apply, if_neg (by nofun)]
  exact bind_eq_some.mpr
    ⟨.position index, _, member_eq_some.mpr (.inr ⟨text, index, h, rfl, rfl, rfl⟩), rfl⟩

/-- The positions of a number are written with a point between them, and read again one by one. -/
theorem positions_grow {parts : List (List Char)} (hparts : parts ≠ []) {base e : Node}
    (hrange : isRange base = false) (h : positions parts base c = some (e, d)) :
    isRange e = false ∧ ∃ text out, d = ⟨c.rest, (Token.literal text :: out).reverse ++ c.written⟩ ∧
      (∀ r z, positions parts base ⟨r, z⟩ =
        some (e, ⟨r, (Token.literal text :: out).reverse ++ z⟩)) ∧
      ∀ g r z, Grows (trailer (afterPoint g) g) base
        ⟨Token.operator "." ++ (Token.literal text :: out ++ r), z⟩ e
        ⟨r, (Token.operator "." ++ Token.literal text :: out).reverse ++ z⟩ := by
  obtain ⟨rest, z⟩ := c
  -- On the positions: each is one step of the expression, and the others grow from the field it
  -- names.
  induction parts generalizing base z with
  | nil => exact absurd rfl hparts
  | cons part parts ih =>
      cases hindex : position? part with
      | none =>
          unfold positions at h
          rw [hindex] at h
          cases h
      | some index =>
          have hnumber := position?_toString (position?_lt hindex)
          cases parts with
          | nil =>
              rw [positions_single hindex] at h
              cases h
              refine ⟨rfl, toString index, [], rfl, positions_single hindex base, fun g r z => ?_⟩
              refine .single (trailer_position hrange hnumber false r z) ?_
              simp only [List.length_append, List.length_cons]
              omega
          | cons next parts =>
              rw [positions_cons hindex] at h
              obtain ⟨he, text, out, hd, hagain, hgrows⟩ := ih (List.cons_ne_nil _ _) rfl _ h
              refine ⟨he, toString index, Token.operator "." ++ Token.literal text :: out, ?_,
                fun r z => ?_, fun g r z => ?_⟩
              · rw [hd]
                simp
              · rw [positions_cons hindex, hagain]
                simp
              · refine .next (trailer_position hrange hnumber false
                  (Token.operator "." ++ (Token.literal text :: out ++ r)) z) ?_ ?_
                · simp only [List.length_append, List.length_cons]
                  omega
                have hmore := hgrows g r
                  (.literal (toString index) :: ((Token.operator ".").reverse ++ z))
                simpa using hmore

theorem splitPoints_cons {char : Char} (h : char ≠ '.') (chars : List Char) :
    ∃ part parts, splitPoints (char :: chars) = (char :: part) :: parts := by
  unfold splitPoints
  cases splitPoints chars with
  | nil => exact ⟨[], [], rfl⟩
  | cons part parts => exact ⟨part, parts, if_neg (by simpa using h)⟩

/-- A number has digits in front of its first point. -/
theorem splitPoints_of_isFloat {text : String} (h : isFloat text = true) :
    ∃ part parts, splitPoints text.toList = part :: parts ∧ part ≠ [] := by
  have hnumeral : isNumeral text = true := by
    unfold isFloat at h
    split at h
    · cases h
    · cases h
    · cases h
    · exact ((Bool.and_eq_true _ _).mp h).1
  unfold isNumeral at hnumeral
  cases htext : text.toList with
  | nil =>
      rw [htext] at hnumeral
      cases hnumeral
  | cons char chars =>
      rw [htext] at hnumeral
      obtain ⟨part, parts, hparts⟩ := @splitPoints_cons char (by rintro rfl; cases hnumeral) chars
      exact ⟨_, _, hparts, by nofun⟩

/-- A number names its positions, and what follows it if it ends with a point. -/
theorem afterNumber_cases {text : String} {base e : Node} (hfloat : isFloat text = true)
    (h : afterNumber g text base c = some (e, d)) :
    (splitPoints text.toList ≠ [] ∧ positions (splitPoints text.toList) base c = some (e, d) ∧
      ∀ g, afterNumber g text base = positions (splitPoints text.toList) base) ∨
    ((splitPoints text.toList).dropLast ≠ [] ∧
      (∀ g, afterNumber g text base = do
        let base ← positions (splitPoints text.toList).dropLast base
        write (Token.operator ".")
        fieldOrMethod g base) ∧
      ∃ last n, positions (splitPoints text.toList).dropLast base c = some (last, n) ∧
        fieldOrMethod g last ⟨n.rest, (Token.operator ".").reverse ++ n.written⟩ = some (e, d)) := by
  obtain ⟨part, parts, hparts, hpart⟩ := splitPoints_of_isFloat hfloat
  -- A point at the end of the number leaves an empty last part, and what follows the point is read
  -- next.
  by_cases hlast : (splitPoints text.toList).getLast? = some []
  · have hform : ∀ g, afterNumber g text base = (do
        let base ← positions (splitPoints text.toList).dropLast base
        write (Token.operator ".")
        fieldOrMethod g base) := fun g => by rw [afterNumber, hlast]
    refine .inr ⟨?_, hform, ?_⟩
    · rw [hparts] at hlast ⊢
      cases parts with
      | nil => exact absurd (Option.some.inj hlast) hpart
      | cons next parts => exact List.cons_ne_nil _ _
    · rw [hform] at h
      obtain ⟨last, n, hpositions, h⟩ := bind_eq_some.mp h
      exact ⟨last, n, hpositions, h⟩
  · have hform : ∀ g, afterNumber g text base = positions (splitPoints text.toList) base := by
      intro g
      unfold afterNumber
      split
      next heq => exact absurd heq hlast
      next => rfl
    refine .inl ⟨by rw [hparts]; exact List.cons_ne_nil _ _, ?_, hform⟩
    rw [← hform g, h]

/-! ## All steps -/

theorem trailer_of_field {base : Node} {answer : Option Node}
    (h : trailer (fieldOrMethod g) g base c = some (answer, d)) :
    trailer (afterPoint g) g base c = some (answer, d) := by
  rcases trailer_cases h with hall | ⟨hrange, hdot, hdots, e, rfl, hpoint⟩
  · exact hall _
  · obtain ⟨rest, z⟩ := c
    obtain ⟨joint, r, rfl⟩ := @exists_of_nextIsOp '.' [] _ hdot
    exact trailer_point hrange hdots (afterPoint_of_field hpoint)

/-- A step is one of those that take a field at a time, or a number with points comes next. -/
theorem trailer_number_cases {base : Node} {answer : Option Node}
    (h : trailer (afterPoint g) g base c = some (answer, d)) :
    trailer (fieldOrMethod g) g base c = some (answer, d) ∨
      (isRange base = false ∧ ∃ joint text r e, c.rest = .punct '.' joint :: .literal text :: r ∧
        isFloat text = true ∧ answer = some e ∧
        afterNumber g text base ⟨r, (Token.operator ".").reverse ++ c.written⟩ = some (e, d)) := by
  rcases trailer_cases h with hall | ⟨hrange, hdot, hdots, e, rfl, hpoint⟩
  · exact .inl (hall _)
  · obtain ⟨rest, z⟩ := c
    obtain ⟨joint, r, rfl⟩ := @exists_of_nextIsOp '.' [] _ hdot
    by_cases hfloat : ∃ text r', r = .literal text :: r' ∧ isFloat text = true
    · obtain ⟨text, r', rfl, hfloat⟩ := hfloat
      refine .inr ⟨hrange, joint, text, r', e, rfl, hfloat, rfl, ?_⟩
      rw [← afterPoint_of_float hfloat]
      exact hpoint
    · refine .inl (trailer_point hrange hdots ?_)
      rw [← afterPoint_of_not_float, ← hpoint]
      · rfl
      · intro text r' hr
        exact Bool.eq_false_iff.mpr fun hyes => hfloat ⟨text, r', hr, hyes⟩

/-- A number with points is read again in one step where it is kept, and field by field where it is
written. -/
theorem number_regrows (hg : Knot m size g g') {base e : Node} {joint : Bool} {text : String}
    {r w : List Token} (hrange : isRange base = false) (hfloat : isFloat text = true)
    (h : afterNumber g text base ⟨r, (Token.operator ".").reverse ++ w⟩ = some (e, d)) :
    ∃ read written, .punct '.' joint :: .literal text :: r = read ++ d.rest ∧
      d.written = written.reverse ++ w ∧
      ∀ rest, Edge d.rest rest → Token.sizeAll (m.pick read written ++ rest) ≤ size →
        Edge (.punct '.' joint :: .literal text :: r) (m.pick read written ++ rest) ∧
        ∀ z, Grows (trailer (afterPoint g') g') base ⟨m.pick read written ++ rest, z⟩ e
          ⟨rest, written.reverse ++ z⟩ := by
  have hedge : ∀ joint' text' r', Edge (.punct '.' joint :: .literal text :: r)
      (.punct '.' joint' :: .literal text' :: r') := fun joint' text' r' =>
    FieldStart.edge_point (.inr ⟨text, text', r, r', rfl, rfl⟩) joint joint'
  -- The step of a second reading that finds the number as it was.
  have hkept : ∀ {r' z e d}, afterNumber g' text base ⟨r', (Token.operator ".").reverse ++ z⟩ =
      some (e, d) → d.rest.length ≤ r'.length →
      Grows (trailer (afterPoint g') g') base ⟨.punct '.' joint :: .literal text :: r', z⟩ e d := by
    intro r' z e d hrun hlength
    refine .single (trailer_point hrange (by cases joint <;> rfl) ?_) ?_
    · rw [afterPoint_of_float hfloat]
      exact hrun
    · simp only [List.length_cons]
      omega
  rcases afterNumber_cases hfloat h with ⟨hparts, hrun, hform⟩ | ⟨hparts, hform, last, n, hrun, hmore⟩
  · obtain ⟨-, text', out, rfl, hagain, hgrows⟩ := positions_grow hparts hrange hrun
    refine ⟨[.punct '.' joint, .literal text], Token.operator "." ++ .literal text' :: out, rfl,
      by simp, fun rest _ _ => ?_⟩
    cases m with
    | written =>
        refine ⟨hedge _ _ _, fun z => ?_⟩
        rw [Mode.pick_written, List.append_assoc]
        exact hgrows g' rest z
    | verbatim =>
        refine ⟨hedge _ _ _, fun z => hkept ?_ (Nat.le_refl _)⟩
        rw [hform, hagain]
        simp
  · obtain ⟨hlast, text', out, rfl, hagain, hgrows⟩ := positions_grow hparts hrange hrun
    obtain ⟨read, written, hread, hwritten, -, -, hreplay⟩ := fieldOrMethod_replays hg last _ _ _ hmore
    simp only at hread hwritten
    refine ⟨.punct '.' joint :: .literal text :: read,
      Token.operator "." ++ .literal text' :: out ++ (Token.operator "." ++ written),
      by rw [hread]; rfl, by simp [hwritten], fun rest hrest hbound => ?_⟩
    have hsize : Token.sizeAll (m.pick read written ++ rest) ≤ size := by
      cases m with
      | written =>
          simp only [Mode.pick_written, List.append_assoc, Token.sizeAll_append, List.cons_append,
            Token.sizeAll] at hbound ⊢
          omega
      | verbatim =>
          simp only [Mode.pick_verbatim, List.cons_append, Token.sizeAll] at hbound ⊢
          omega
    obtain ⟨hfield, hfieldAgain⟩ := hreplay rest hrest hsize
    cases m with
    | written =>
        refine ⟨hedge _ _ _, fun z => ?_⟩
        have hstep : ∀ z, trailer (afterPoint g') g' last
            ⟨Token.operator "." ++ (written ++ rest), z⟩ =
            some (some e, ⟨rest, written.reverse ++ ((Token.operator ".").reverse ++ z)⟩) :=
          fun z => trailer_point hlast rfl (afterPoint_of_field (hfieldAgain _))
        have hnumber := hgrows g' (Token.operator "." ++ (written ++ rest)) z
        have hfinish := hnumber.trans (.single (hstep _) (by
          simp only [List.length_append, Token.operator, length_operatorChars]
          simp
          omega))
        simpa using hfinish
    | verbatim =>
        refine ⟨hedge _ _ _, fun z => hkept ?_ (by simp)⟩
        rw [hform, bind_of_eq_some (hagain _ _), bind_of_eq_some (write_apply _)]
        refine (hfieldAgain _).trans ?_
        simp

/-- The parts behind an expression are read the same again, also the positions that one number
holds. -/
theorem trailers_replays (hg : Knot m size g g') (start : Node) :
    Replays m size 0 (fun _ => Edge) (trailers g start) (trailers g' start) Edge := by
  have hfield : Regrows m size (fun _ => Edge) (fun _ => Edge) (trailer (fieldOrMethod g) g)
      (trailer (fieldOrMethod g') g') :=
    .of_replays (trailer_replays hg (fieldOrMethod_replays hg)) fun base =>
      (trailer_moves hg (fieldOrMethod_replays hg) base).advances
  have hregrows : Regrows m size (fun _ => Edge) (fun _ => Edge) (trailer (afterPoint g) g)
      (trailer (afterPoint g') g') := by
    intro base c answer d hrun
    rcases trailer_number_cases hrun with
      hstep | ⟨hrange, joint, text, r, e, hrest, hfloat, rfl, hnumber⟩
    · obtain ⟨read, written, hread, hwritten, hreplay⟩ := hfield base c answer d hstep
      refine ⟨read, written, hread, hwritten, fun rest hpost hbound => ?_⟩
      obtain ⟨hstart, hagain⟩ := hreplay rest hpost hbound
      exact ⟨hstart, fun z => (hagain z).mono fun _ _ _ _ h => trailer_of_field h⟩
    · rw [hrest]
      exact number_regrows hg hrange hfloat hnumber
  rw [trailers_eq, trailers_eq]
  exact hregrows.iterate start

end ActionUnits.Source
