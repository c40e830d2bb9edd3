import ActionUnits.Proofs.Source.Replay.Type

/-! # Replaying patterns

A pattern ends where no bound, alternative or further part of it follows. A name
is a path or a binding by what follows it, so what follows a pattern decides how
its last name is read.
-/

namespace ActionUnits.Source

variable {m : Mode} {size : Nat} {g g' : Grammar} {P : Follow} {u u' : List Token}

/-! ## Ranges -/

/-- The tokens of two dots, and whether a third character belongs to them. -/
theorem isOp_dots_third {text : String} {char : Char} (htext : text.toList = ['.', '.', char])
    (joint : Bool) (rest : List Token) :
    isOp text (.punct '.' true :: .punct '.' joint :: rest) =
      (joint && nextIsOp [char] rest) := by
  rw [isOp, htext]
  cases joint <;> rfl

/-- Both the two dots and an equals sign, and three dots, close a range. -/
def closesRange (obsolete : Bool) : Peek := fun tokens =>
  isOp "..=" tokens || (obsolete && isOp "..." tokens)

/-- A range pattern is closed or open, told by its dots. -/
theorem rangeLimits_cases {obsolete closed : Bool} {c d : Cursor}
    (h : rangeLimits obsolete c = some (closed, d)) :
    (closed = true ∧ closesRange obsolete c.rest = true ∧
      d = ⟨c.rest.drop 3, (Token.operator "..=").reverse ++ c.written⟩) ∨
    (closed = false ∧ closesRange true c.rest = false ∧ isOp ".." c.rest = true ∧
      d = ⟨c.rest.drop 2, (Token.operator "..").reverse ++ c.written⟩) := by
  unfold rangeLimits at h
  rw [op?_bind, peek_bind_apply] at h
  unfold closesRange
  split at h
  next hclosed =>
      obtain ⟨_, e, hop, hpure⟩ := bind_eq_some.mp h
      obtain ⟨rfl, rfl⟩ := pure_eq_some.mp hpure
      exact .inl ⟨rfl, by rw [hclosed, Bool.true_or], (op_eq_some.mp hop).2⟩
  next hclosed =>
      rw [if_neg (by decide), peek_bind_apply] at h
      split at h
      next hdots =>
          rw [bind_of_eq_some (skip_apply _), bind_of_eq_some (write_apply _)] at h
          obtain ⟨rfl, rfl⟩ := pure_eq_some.mp h
          exact .inl ⟨rfl, by rw [hdots, Bool.or_true], rfl⟩
      next hdots =>
          rw [peek_bind_apply] at h
          obtain ⟨_, e, hrequire, hrun⟩ := bind_eq_some.mp h
          obtain ⟨hno, rfl⟩ := require_eq_some.mp hrequire
          obtain ⟨_, e, hop, hpure⟩ := bind_eq_some.mp hrun
          obtain ⟨rfl, rfl⟩ := pure_eq_some.mp hpure
          refine .inr ⟨rfl, ?_, op_eq_some.mp hop⟩
          simpa [hclosed] using hno

theorem rangeLimits_closed {obsolete : Bool} {c : Cursor}
    (h : closesRange obsolete c.rest = true) :
    rangeLimits obsolete c =
      some (true, ⟨c.rest.drop 3, (Token.operator "..=").reverse ++ c.written⟩) := by
  unfold rangeLimits
  rw [op?_bind, peek_bind_apply]
  unfold closesRange at h
  cases hclosed : isOp "..=" c.rest with
  | true => exact bind_eq_some.mpr ⟨(), _, op_eq_some.mpr ⟨hclosed, rfl⟩, rfl⟩
  | false =>
      rw [hclosed, Bool.false_or] at h
      rw [if_neg (by decide), if_neg (by decide), peek_bind_apply, if_pos h]
      rfl

theorem rangeLimits_open {obsolete : Bool} {c : Cursor} (h : closesRange true c.rest = false)
    (hdots : isOp ".." c.rest = true) :
    rangeLimits obsolete c =
      some (false, ⟨c.rest.drop 2, (Token.operator "..").reverse ++ c.written⟩) := by
  unfold rangeLimits
  rw [op?_bind, peek_bind_apply]
  obtain ⟨hclosed, hmore⟩ := Bool.or_eq_false_iff.mp h
  rw [Bool.true_and] at hmore
  have hop : op ".." c = some ((), _) := op_eq_some.mpr ⟨hdots, rfl⟩
  rw [hclosed, if_neg (by decide), if_neg (by decide), peek_bind_apply, hmore, Bool.and_false,
    if_neg (by decide), peek_bind_apply, hmore]
  rw [Bool.not_false, bind_of_eq_some require_true_apply, bind_of_eq_some hop]
  rfl

theorem isOp_dots_of_closesRange {obsolete : Bool} (h : closesRange obsolete u = true) :
    isOp ".." u = true ∧ 3 ≤ u.length := by
  have hthree : ∀ {text : String} {char : Char}, text.toList = ['.', '.', char] →
      isOp text u = true → isOp ".." u = true ∧ 3 ≤ u.length := by
    intro text char htext hop
    have hlength := nextIsOp_length hop
    rw [htext] at hlength
    rw [isOp, htext] at hop
    obtain ⟨joint, rest, rfl⟩ := exists_of_nextIsOp hop
    cases joint with
    | false => cases hop
    | true =>
        obtain ⟨joint, rest, rfl⟩ := exists_of_nextIsOp ((Bool.and_eq_true _ _).mp hop).2
        exact ⟨rfl, hlength⟩
  rcases (Bool.or_eq_true _ _).mp h with hop | hop
  · exact hthree rfl hop
  · exact hthree rfl ((Bool.and_eq_true _ _).mp hop).2

theorem closesRange_take {obsolete : Bool} (h : closesRange obsolete u = true)
    (rest : List Token) : closesRange obsolete (u.take 3 ++ rest) = true := by
  rcases (Bool.or_eq_true _ _).mp h with hop | hop
  · exact (Bool.or_eq_true _ _).mpr (.inl (nextIsOp_take hop rest))
  · obtain ⟨hobsolete, hop⟩ := (Bool.and_eq_true _ _).mp hop
    exact (Bool.or_eq_true _ _).mpr
      (.inr ((Bool.and_eq_true _ _).mpr ⟨hobsolete, nextIsOp_take hop rest⟩))

theorem closesRange_dots (joint : Bool) (rest : List Token) :
    closesRange true (.punct '.' true :: .punct '.' joint :: rest) =
      (joint && (isOp "=" rest || isOp "." rest)) := by
  rw [closesRange, isOp_dots_third (rfl : "..=".toList = ['.', '.', '=']),
    isOp_dots_third (rfl : "...".toList = ['.', '.', '.']), Bool.true_and]
  cases joint <;> rfl

/-- What may follow the dots of an open range: spacing alone tells it from a closed one. -/
def AfterDots (m : Mode) (closed : Bool) : Follow := fun r r' =>
  closed = false → m = .verbatim → Absent (isOp "=") r r' ∧ Absent (isOp ".") r r'

/-- Both readings go on with two dots. -/
def DotsStart : Follow := fun u u' => isOp ".." u = true ∧ Lead u u'

/-- The dots of a range pattern are read the same again. -/
theorem rangeLimits_replays (obsolete : Bool) :
    Replays m size 1 (AfterDots m) (rangeLimits obsolete) (rangeLimits obsolete) DotsStart := by
  intro c closed d hrun
  rcases rangeLimits_cases hrun with ⟨rfl, hcloses, rfl⟩ | ⟨rfl, hopen, hdots, rfl⟩
  · obtain ⟨hdots, hlength⟩ := isOp_dots_of_closesRange hcloses
    refine ⟨c.rest.take 3, Token.operator "..=", (List.take_append_drop 3 _).symm, rfl,
      by rw [List.length_take]; omega, by decide, fun rest _ _ => ?_⟩
    have hcloses' : closesRange obsolete
        (m.pick (c.rest.take 3) (Token.operator "..=") ++ rest) = true := by
      cases m with
      | written => rfl
      | verbatim => exact closesRange_take hcloses rest
    have hdrop : (m.pick (c.rest.take 3) (Token.operator "..=") ++ rest).drop 3 = rest := by
      refine List.drop_left' ?_
      cases m with
      | written => rfl
      | verbatim => exact List.length_take_of_le hlength
    refine ⟨⟨hdots, lead_of_dots hdots (isOp_dots_of_closesRange hcloses').1⟩, fun z => ?_⟩
    rw [rangeLimits_closed hcloses', hdrop]
  · obtain ⟨joint, r, hr⟩ := @exists_of_isOp_two ".." '.' '.' rfl _ hdots
    refine ⟨[.punct '.' true, .punct '.' joint], Token.operator "..", by rw [hr]; rfl, rfl,
      by simp, by decide, fun rest hrest _ => ?_⟩
    -- The second point is joined to what follows only where the tokens are kept, and then it was
    -- joined when it was read.
    obtain ⟨joint', hpick, hjoint⟩ : ∃ joint', m.pick [.punct '.' true, .punct '.' joint]
        (Token.operator "..") = [.punct '.' true, .punct '.' joint'] ∧
        (joint' = true → joint = true ∧ m = .verbatim) := by
      cases m with
      | written => exact ⟨false, rfl, nofun⟩
      | verbatim => exact ⟨joint, rfl, fun h => ⟨h, rfl⟩⟩
    rw [hpick]
    have hopen' : closesRange true ([.punct '.' true, .punct '.' joint'] ++ rest) = false := by
      change closesRange true (.punct '.' true :: .punct '.' joint' :: rest) = false
      rw [closesRange_dots]
      cases joint' with
      | false => rfl
      | true =>
          obtain ⟨rfl, rfl⟩ := hjoint rfl
          obtain ⟨hassign, hpoint⟩ := hrest rfl rfl
          rw [hr, closesRange_dots, Bool.true_and, Bool.or_eq_false_iff] at hopen
          rw [Bool.true_and, Bool.or_eq_false_iff]
          rw [hr] at hassign hpoint
          exact ⟨hassign hopen.1, hpoint hopen.2⟩
    refine ⟨⟨hdots, lead_of_dots hdots rfl⟩, fun z => ?_⟩
    rw [rangeLimits_open hopen' rfl]
    rfl

/-- Three dots do not open a range. -/
theorem not_ellipsis_of_rangeLimits {closed : Bool} {c d : Cursor}
    (h : rangeLimits false c = some (closed, d)) : isOp "..." c.rest = false := by
  rcases rangeLimits_cases h with ⟨-, hcloses, -⟩ | ⟨-, hopen, -, -⟩
  · have hop : isOp "..=" c.rest = true := by simpa [closesRange] using hcloses
    obtain ⟨joint, r, hr⟩ := @exists_of_isOp_two ".." '.' '.' rfl _ (isOp_dots_of_closesRange hcloses).1
    rw [hr, isOp_dots_third (rfl : "..=".toList = ['.', '.', '='])] at hop
    rw [hr, isOp_dots_third (rfl : "...".toList = ['.', '.', '.'])]
    have hassign := kind_of_isOp (rfl : "=".toList = ['=']) (by decide) ((Bool.and_eq_true _ _).mp hop).2
    have hpoint : isOp "." r = false := isOp_of_kind rfl (by decide) (by rw [hassign]; decide)
    exact (congrArg (joint && ·) hpoint).trans (Bool.and_false joint)
  · exact ((Bool.or_eq_false_iff.mp hopen).2 : (true && _) = false)

/-- Constant blocks are read the same again. -/
theorem constBlock_replays (hg : Knot m size g g') :
    Replays m (size + 1) 1 (fun _ => Any) (constBlock g) (constBlock g')
      fun u u' => isWord "const" u = true ∧ WordThen Lead u u' := by
  unfold constBlock
  refine (word_then "const" Lead).keep Lead (fun _ => ?_) fun _ _ _ h => h
  exact (blockWithAttrs_closed hg).forget.wrap

/-- Both readings go on with a bound of a range. -/
structure BoundaryStart (P : Follow) (u u' : List Token) : Prop extends Lead u u' where
  word : AfterWord (fun r r' => P r r' ∨ Lead r r') u u'

/-- A bound of a range that is known to be there. -/
def boundary (g : Grammar) : Parser Node := do
  if ← peek isLiteral then literal
  else if ← peek (anyOf [isIdent, isOp "::", isOp "<",
      isOneOf ["self", "Self", "super", "crate"]]) then
    qualifiedPath g true
  else constBlock g

theorem rangeBound?_bind {α : Type} (g : Grammar) (f : Option Node → Parser α) :
    (rangeBound? g >>= f) = (peek isBoundAbsent >>= fun isAbsent => if isAbsent = true then f none
      else boundary g >>= fun bound => f (some bound)) := by
  unfold rangeBound? boundary
  simp only [bind_assoc, ite_bind, pure_bind]

/-- The boundary of a range pattern is read the same again. -/
theorem boundary_replays (hg : Knot m size g g') (hP : ∀ r r', P r r' → PathEnds true r r') :
    Replays m (size + 1) 1 (fun _ => P) (boundary g) (boundary g') (BoundaryStart P) := by
  unfold boundary
  refine .ite (fun _ _ h => h.toLead) ?_ (.ite (fun _ _ h => h.toLead) ?_ ?_)
  · exact (literal_replays P).before
      fun u u' h => ⟨h.1, fun name r r' hu hu' => .inl (h.2 name r r' hu hu')⟩
  · refine (qualifiedPath_replays hg true hP).before fun u u' h => ⟨h.toLead, ?_⟩
    intro name r r' hu hu'
    have hless : isOp "<" u = false := by
      rw [hu]
      rfl
    exact ((h.path hless).word name r r' hu hu').imp (fun h => h.2) fun h => h.1
  · refine ((constBlock_replays hg).after fun _ _ _ _ => trivial).before fun u u' h => ?_
    obtain ⟨-, name, r, r', rfl, rfl, hlead⟩ := h
    refine ⟨.word _ _ _, fun _ _ _ hu hu' => ?_⟩
    cases hu
    cases hu'
    exact .inr hlead

/-- After the dots of a range a bound comes, or the range ends. -/
theorem rangeStop_replays {α : Type} (hg : Knot m size g g')
    (hP : ∀ r r', P r r' → SinglePatternEnds r r') (obsolete : Bool)
    {f : Bool → Option Node → Parser α}
    (hf : ∀ closed stop, f closed stop = failure ∨ ∃ a, f closed stop = pure a) :
    Replays m (size + 1) 1 (fun _ => P)
      (rangeLimits obsolete >>= fun closed => rangeBound? g >>= fun stop => f closed stop)
      (rangeLimits obsolete >>= fun closed => rangeBound? g' >>= fun stop => f closed stop)
      DotsStart := by
  refine (rangeLimits_replays obsolete).keep (Either isBoundAbsent P (BoundaryStart P))
    (fun closed => ?_) fun closed u u' h _ _ => ?_
  · have hstop : ∀ stop, Replays m (size + 1) 0 (fun _ => P) (f closed stop) (f closed stop) P := by
      intro stop
      rcases hf closed stop with heq | ⟨a, heq⟩
      · rw [heq]
        exact .failure
      · rw [heq]
        exact .pure a
    rw [rangeBound?_bind, rangeBound?_bind]
    refine .choice ?_ ?_ fun u u' h => ?_
    · exact (hstop none).before fun u u' h hyes => .yes hyes h
    · exact ((boundary_replays hg fun r r' h => (hP r r' h).toPathEnds).forget.bind P
        (fun bound => hstop (some bound)) fun _ _ _ h => h).before fun u u' h hno => .no hno h
    · exact h.elim (fun hyes h => ((hP u u' h).bound hyes).trans hyes.symm)
        fun _ h => (Stable.eq_of_lead h.toLead).symm
  · exact h.elim (fun _ h => ⟨(hP u u' h).assign, (hP u u' h).point⟩)
      fun _ h => ⟨.of_stable h.toLead, .of_stable h.toLead⟩

/-- Range patterns are read the same again behind their start. -/
theorem rangePattern_replays (hg : Knot m size g g')
    (hP : ∀ r r', P r r' → SinglePatternEnds r r') (start : Node) :
    Replays m (size + 1) 1 (fun _ => P) (rangePattern g start) (rangePattern g' start)
      DotsStart := by
  unfold rangePattern
  refine rangeStop_replays hg hP true (f := fun closed stop => do
    require (!closed || stop.isSome)
    return Node.range (some start) closed stop) fun closed stop => ?_
  cases closed <;> cases stop
  · exact .inr ⟨_, rfl⟩
  · exact .inr ⟨_, rfl⟩
  · exact .inl rfl
  · exact .inr ⟨_, rfl⟩

/-! ## Fields -/

theorem position?_lt {numeral : List Char} {index : Nat} (h : position? numeral = some index) :
    index < 0x100000000 := by
  simp only [position?] at h
  split at h
  next hfits =>
      obtain rfl := Option.some.inj h
      simp only [Bool.and_eq_true, decide_eq_true_eq] at hfits
      exact hfits.2
  next => cases h

/-- The number of a position is written in its usual form. -/
theorem position?_toString {index : Nat} (h : index < 0x100000000) :
    position? (toString index).toList = some index := by
  have hdigits : ∀ c ∈ Nat.toDigits 10 index, c.isDigit = true :=
    fun c hc => Nat.isDigit_of_mem_toDigits (by decide) (by decide) hc
  have hfilter : (Nat.toDigits 10 index).filter (· != '_') = Nat.toDigits 10 index := by
    refine List.filter_eq_self.mpr fun c hc => ?_
    have hdigit := hdigits c hc
    simp only [bne_iff_ne]
    rintro rfl
    exact absurd hdigit (by decide)
  have hvalue : (Nat.toDigits 10 index).foldl (fun n c => n * 10 + (c.toNat - '0'.toNat)) 0 =
      index := by
    have := Nat.ofDigitChars_toDigits (b := 10) (n := index) (by decide) (by decide)
    rw [Nat.ofDigitChars_eq_foldl] at this
    simpa only [Nat.mul_comm] using this
  have hne : Nat.toDigits 10 index ≠ [] :=
    List.ne_nil_of_length_pos Nat.length_toDigits_pos
  change position? index.repr.toList = some index
  rw [Nat.toList_repr, position?, hfilter, hvalue, if_pos]
  simp [hne, h, List.all_eq_true.mpr hdigits]

/-- A member is a name or a position. -/
theorem member_eq_some {a : Member} {c d : Cursor} :
    member c = some (a, d) ↔
      (∃ name, isKeyword name = false ∧ a = .named name ∧ c.rest = .ident name :: d.rest ∧
        d.written = .ident name :: c.written) ∨
      ∃ text index, position? text.toList = some index ∧ a = .position index ∧
        c.rest = .literal text :: d.rest ∧ d.written = .literal (toString index) :: c.written := by
  unfold member
  rw [peek_bind_apply]
  constructor
  · intro h
    split at h
    next hident =>
        obtain ⟨name, e, hname, hpure⟩ := bind_eq_some.mp h
        obtain ⟨rfl, rfl⟩ := pure_eq_some.mp hpure
        obtain ⟨hrest, hwritten⟩ := anyWord_eq_some.mp (require_peek_bind.mp hname).2
        rw [hrest] at hident
        exact .inl ⟨name, by simpa [isIdent] using hident, rfl, hrest, hwritten⟩
    next =>
        obtain ⟨token, e, htake, hmatch⟩ := bind_eq_some.mp h
        obtain ⟨hrest, hwritten⟩ := take_eq_some.mp htake
        cases token with
        | literal text =>
            cases hindex : position? text.toList with
            | none =>
                simp only [hindex] at hmatch
                cases hmatch
            | some index =>
                simp only [hindex, bind_of_eq_some (write_apply _)] at hmatch
                obtain ⟨rfl, rfl⟩ := pure_eq_some.mp hmatch
                exact .inr ⟨text, index, hindex, rfl, hrest, by simp [hwritten]⟩
        | ident name => cases hmatch
        | punct char joint => cases hmatch
        | group delimiter body => cases hmatch
  · rintro (⟨name, hname, rfl, hrest, hwritten⟩ | ⟨text, index, hindex, rfl, hrest, hwritten⟩)
    · have hident : isIdent c.rest = true := by simp [hrest, isIdent, hname]
      rw [if_pos hident]
      exact bind_eq_some.mpr ⟨name, d, require_peek_bind.mpr
        ⟨hident, anyWord_eq_some.mpr ⟨hrest, hwritten⟩⟩, rfl⟩
    · rw [if_neg (by simp [hrest, isIdent])]
      refine bind_eq_some.mpr ⟨_, ⟨d.rest, c.written⟩, take_eq_some.mpr ⟨hrest, rfl⟩, ?_⟩
      simp only [hindex]
      rw [bind_of_eq_some (write_apply _), pure_eq_some]
      exact ⟨rfl, congrArg (Cursor.mk d.rest) hwritten.symm⟩

/-- The same field in both readings, with what follows it. -/
def MemberThen (Post : Member → Follow) : Follow := fun u u' =>
  (∃ name r r', u = .ident name :: r ∧ u' = .ident name :: r' ∧ Post (.named name) r r') ∨
    ∃ text text' index r r', u = .literal text :: r ∧ u' = .literal text' :: r' ∧
      Post (.position index) r r'

/-- Members are read the same again. -/
theorem member_replays (Post : Member → Follow) :
    Replays m size 1 Post member member (MemberThen Post) := by
  intro c a d hrun
  rcases member_eq_some.mp hrun with ⟨name, hname, rfl, hrest, hwritten⟩ |
    ⟨text, index, hindex, rfl, hrest, hwritten⟩
  · refine ⟨[.ident name], [.ident name], hrest, hwritten, by simp, by simp,
      fun rest hpost _ => ?_⟩
    rw [Mode.pick_self, hrest]
    exact ⟨.inl ⟨name, _, _, rfl, rfl, hpost⟩,
      fun z => member_eq_some.mpr (.inl ⟨name, hname, rfl, rfl, rfl⟩)⟩
  · refine ⟨[.literal text], [.literal (toString index)], hrest, hwritten, by simp, by simp,
      fun rest hpost _ => ?_⟩
    obtain ⟨text', hpick, hindex'⟩ : ∃ text', m.pick [.literal text] [.literal (toString index)] =
        [.literal text'] ∧ position? text'.toList = some index := by
      cases m with
      | written => exact ⟨_, rfl, position?_toString (position?_lt hindex)⟩
      | verbatim => exact ⟨_, rfl, hindex⟩
    rw [hpick, hrest]
    exact ⟨.inr ⟨text, text', index, _, _, rfl, rfl, hpost⟩,
      fun z => member_eq_some.mpr (.inr ⟨text', index, hindex', rfl, rfl, rfl⟩)⟩

/-- Both readings go on with a field: a name or a number. -/
def FieldStart : Follow := fun u u' =>
  WordThen Any u u' ∨ ∃ text text' r r', u = .literal text :: r ∧ u' = .literal text' :: r'

theorem FieldStart.of_member {Post : Member → Follow} (h : MemberThen Post u u') :
    FieldStart u u' := by
  rcases h with ⟨name, r, r', hu, hu', -⟩ | ⟨text, text', index, r, r', hu, hu', -⟩
  · exact .inl ⟨name, r, r', hu, hu', trivial⟩
  · exact .inr ⟨text, text', r, r', hu, hu'⟩

/-- What follows a field, by the form of its name. -/
def Member.after (named position : Follow) : Member → Follow
  | .named _ => named
  | .position _ => position

/-- A field with what comes after it, for either form of its name. -/
theorem member_bind {named position : Follow} {α : Type} {f f' : Member → Parser α}
    {Post : α → Follow}
    (hnamed : ∀ name, Replays m size 0 Post (f (.named name)) (f' (.named name)) named)
    (hposition : ∀ index,
      Replays m size 0 Post (f (.position index)) (f' (.position index)) position) :
    Replays m size 1 Post (member >>= f) (member >>= f') FieldStart := by
  refine Replays.before (.keepEach (member_replays _) (Member.after named position)
    (fun member => ?_) fun _ _ _ h => h) fun _ _ h => .of_member h
  cases member with
  | named name => exact hnamed name
  | position index => exact hposition index

/-- A question that does not tell literals apart is answered by a field. -/
theorem FieldStart.answer {question : Peek} [hq : Headed question] (h : FieldStart u u')
    (hliteral : ∀ text, question [.literal text] = false) : question u' = question u := by
  rcases h with ⟨name, r, r', rfl, rfl, -⟩ | ⟨text, text', r, r', rfl, rfl⟩
  · exact hq.eq_of_kind_eq rfl
  · have hno : ∀ text r, question (.literal text :: r) = false := fun text r =>
      (hq.eq_of_kind_eq rfl : question (.literal text :: r) = question [.literal text]).trans
        (hliteral text)
    rw [hno, hno]

/-- A word that may stand in front of the name of a field. -/
theorem fieldMark_replays {α : Type} {least : Nat} {Post : α → Follow} (text : String)
    {f f' : Bool → Parser α} (hf : ∀ b, Replays m size least Post (f b) (f' b) FieldStart) :
    Replays m size least Post (word? text >>= f) (word? text >>= f') FieldStart := by
  refine .choiceWord ?_ ?_ fun u u' h => h.answer fun _ => rfl
  · exact ((word_replays text Any).bind Any (fun _ => (hf true).before fun _ _ _ => trivial)
      fun _ _ _ h => h).before fun u u' h _ => .inl h
  · exact (hf false).before fun _ _ h _ => h

/-- What a field pattern is, or `none` if it is kept unread. -/
def fieldForm (g : Grammar) (attrs : List Node) : Parser (Option Node) := do
  let boxed ← word? "box"
  let byRef ← word? "ref"
  let mutable ← word? "mut"
  let marked := boxed || byRef || mutable
  let member ← if marked then pure (.named (← ident)) else member
  match member with
  | .named name =>
    if !marked && (← peek (isOp ":")) then
      op ":"
      return some (.fieldPattern attrs (some member) (← g .pattern))
    else if boxed then return none
    else return some (.fieldPattern attrs none (.bindingPattern byRef mutable name none))
  | .position _ =>
    op ":"
    return some (.fieldPattern attrs (some member) (← g .pattern))

theorem fieldPattern_eq (g : Grammar) (attrs : List Node) :
    fieldPattern g attrs = get >>= fun start => fieldForm g attrs >>= fun form =>
      match form with
      | some node => pure node
      | none => keepVerbatim start >>= fun node => pure (.fieldPattern attrs none node) := by
  unfold fieldPattern fieldForm
  refine bind_congr fun start => ?_
  simp only [bind_assoc]
  refine bind_congr fun boxed => bind_congr fun byRef => bind_congr fun mutable => ?_
  rw [ite_bind]
  split
  · simp only [bind_assoc, pure_bind, ite_bind]
  · rw [bind_assoc]
    refine bind_congr fun member => ?_
    cases member with
    | named name => simp only [bind_assoc, pure_bind, ite_bind]
    | position index => simp only [bind_assoc, pure_bind]

theorem CommaEnds.patternEnds (h : CommaEnds u u') : PatternEnds u u' := by
  rcases h with h | ⟨hcomma, h⟩
  · exact h.patternEnds
  · have hkind := kind_of_isOp (rfl : ",".toList = [',']) (by decide) hcomma
    exact h.patternEnds (by rw [hkind]; decide) (by rw [hkind]; decide)

/-- The forms of a field pattern are read the same again. -/
theorem fieldForm_replays (hg : Knot m size g g') (attrs : List Node) :
    Replays m size 1 (fun _ => CommaEnds) (fieldForm g attrs) (fieldForm g' attrs) FieldStart := by
  have hpattern : ∀ member, Replays m size 0 (fun _ => CommaEnds)
      (op ":" >>= fun _ => g .pattern >>= fun pattern =>
        pure (some (Node.fieldPattern attrs member pattern)))
      (op ":" >>= fun _ => g' .pattern >>= fun pattern =>
        pure (some (Node.fieldPattern attrs member pattern))) (ColonThen m PatternStart) :=
    fun member => (op_colon_replays PatternStart fun _ _ h _ => h.toLead).bind _
      (fun _ => (hg.pattern.after fun _ _ _ h => h.patternEnds).forget.wrap) fun _ _ _ h => h
  unfold fieldForm
  refine fieldMark_replays "box" fun boxed => fieldMark_replays "ref" fun byRef =>
    fieldMark_replays "mut" fun mutable => .fixed (fun hmarked => ?_) fun hmarked => ?_
  · simp only [pure_bind, hmarked, Bool.not_true, Bool.false_and, Bool.false_eq_true, if_false]
    refine Replays.before (.keep (ident_replays CommaEnds) CommaEnds (fun name => .ignore ?_)
      fun _ _ _ h => h) fun u u' h => .inl ?_
    · exact .fixed (fun _ => .pure _) fun _ => .pure _
    · obtain ⟨name, r, r', hu, hu', -⟩ := h
      exact ⟨name, r, r', hu, hu', trivial⟩
  · rw [Bool.not_eq_true] at hmarked
    simp only [hmarked, Bool.not_false, Bool.true_and]
    refine @member_bind _ _ (Either (isOp ":") (ColonThen m PatternStart) CommaEnds) _ _ _ _ _
      (fun name => ?_) fun index => hpattern _
    refine .choice ?_ (.fixed (fun _ => ?_) fun _ => ?_) fun u u' h => ?_
    · exact (hpattern _).before fun u u' h hyes => .yes hyes h
    · exact (Replays.pure none).before fun u u' h hno => .no hno h
    · exact (Replays.pure _).before fun u u' h hno => .no hno h
    · refine h.elim (fun hyes h => ?_) fun _ h => (Stable.eq_of_lead h.lead).symm
      exact ((isOp_iff_kind rfl (by decide)).mpr h.kind_right).trans hyes.symm

/-- Field patterns are read the same again. -/
theorem fieldPattern_replays (hg : ∀ m, Knot m size g g') (attrs : List Node) :
    Replays m size 1 (fun _ => CommaEnds) (fieldPattern g attrs) (fieldPattern g' attrs)
      FieldStart := by
  rw [fieldPattern_eq, fieldPattern_eq]
  refine .keeping Option.isNone (fun form hread => ?_) (fun form hunread => ?_)
    (fun _ => (fieldForm_replays (hg _) attrs).after fun _ _ _ h => h.2)
    (fieldForm_replays (hg _) attrs)
  · obtain ⟨node, rfl⟩ := Option.isSome_iff_exists.mp (by simpa using hread)
    exact ⟨node, fun _ => rfl⟩
  · obtain rfl := Option.isNone_iff_eq_none.mp hunread
    exact ⟨_, fun start => rfl⟩

/-- Both readings go on with a field or with the dots that stand for the rest. -/
def FieldOrDots : Follow := fun u u' =>
  FieldStart u u' ∨ (isOp ".." u = true ∧ isOp ".." u' = true)

theorem FieldOrDots.answer {question : Peek} [hq : Headed question] (h : FieldOrDots u u')
    (hliteral : ∀ text, question [.literal text] = false) : question u' = question u := by
  rcases h with h | ⟨h, h'⟩
  · exact h.answer hliteral
  · exact (Headed.eq_of_kind_eq (lead_of_dots h h').kind_eq).symm

theorem FieldOrDots.dots (h : FieldOrDots u u') : isOp ".." u' = isOp ".." u := by
  rcases h with h | ⟨h, h'⟩
  · rcases h with ⟨name, r, r', rfl, rfl, -⟩ | ⟨text, text', r, r', rfl, rfl⟩
    · rfl
    · rfl
  · rw [h, h']

theorem structPatternFields_go_replays (hg : ∀ m, Knot m size g g') (fuel : Nat) :
    Fueled m size 0 1 (fun _ => AtEnd) (structPatternFields.go g fuel) (structPatternFields.go g')
      (Either List.isEmpty AtEnd (Attributed FieldOrDots)) := by
  induction fuel with
  | zero => exact fun _ _ _ hrun => nomatch hrun
  | succ fuel ih =>
      refine .step (.choice ?_ ?_ fun u u' h => ?_)
      · exact (Fueled.of_replays (.pure ([], none))).before fun u u' h hyes => .yes hyes h
      · refine (Fueled.bind (outerAttrs_replays (hg m) ?_).smaller (fun _ => FieldOrDots)
          (fun attrs => .choiceOp ?_ ?_ ?_) (fun _ _ _ h => h) (Nat.le_refl _)).before
          fun u u' h hno => .no hno h
        · exact fun u u' h hno => (h.answer fun _ => rfl).trans hno
        · refine (Fueled.bind (op_replays ".." (by decide) AtEnd) (fun _ => AtEnd)
            (fun _ => .of_replays (.pure ([], some attrs))) (fun _ _ _ h => h)
            (Nat.zero_le _)).before fun u u' h _ => .inr ⟨h.1, h.isOp (by decide)⟩
        · refine (Fueled.bind (fieldPattern_replays hg attrs) (fun _ => CommaEnds)
            (fun field => .choice ?_ ?_ ?_) (fun _ _ _ h => h) (Nat.le_refl _)).before
            fun u u' h _ => .inl h
          · exact (Fueled.of_replays (.pure ([field], none))).before fun _ _ h _ => .inl h
          · refine (Fueled.bind (op_known ",") (fun _ => Any) (fun _ => ?_) (fun _ _ _ h => h)
              (Nat.le_succ _)).before fun u u' h _ => .inr h
            exact (ih.result fun _ _ _ h => h).before fun _ _ _ => trivial
          · exact fun u u' h => (Stable.eq_of_lead h.lead).symm
        · exact fun u u' h => h.dots
      · exact h.elim (fun _ h => (Stable.eq_of_lead h.lead).symm) fun _ h =>
          h.elim (fun _ h => (Stable.eq_of_lead h.toLead).symm) fun _ h => h.answer fun _ => rfl

/-- The fields of a struct pattern are read the same again. -/
theorem structPatternFields_replays (hg : ∀ m, Knot m size g g') :
    Replays m size 0 (fun _ => AtEnd) (structPatternFields g) (structPatternFields g') Any :=
  (Fueled.replays (structPatternFields_go_replays hg)).before fun _ _ _ => trivial

/-! ## Patterns that start with a path -/

/-- Whether a path goes on as a pattern with parts or with a range. -/
def opensPattern : Peek := anyOf [isGroup .brace, isGroup .paren, isOp ".."]

/-- What may follow the path of a pattern that is no macro call. -/
def PartsEnds (P : Follow) : Follow :=
  Either (isGroup .brace) Lead (Either (isGroup .paren) Lead (Either (isOp "..") Lead P))

instance : Stable opensPattern :=
  inferInstanceAs (Stable (anyOf [isGroup .brace, isGroup .paren, isOp ".."]))

theorem PartsEnds.cases (h : PartsEnds P u u') :
    (opensPattern u = true ∧ Lead u u') ∨ (opensPattern u = false ∧ P u u') := by
  simp only [opensPattern, anyOf, List.any_cons, List.any_nil, Bool.or_false]
  refine h.elim (fun hyes h => .inl ⟨by rw [hyes, Bool.true_or], h⟩) fun hbrace h =>
    h.elim (fun hyes h => .inl ⟨by rw [hyes, Bool.true_or, Bool.or_true], h⟩) fun hparen h =>
      h.elim (fun hyes h => .inl ⟨by rw [hyes, Bool.or_true, Bool.or_true], h⟩) fun hdots h =>
        .inr ⟨by rw [hbrace, hparen, hdots]; rfl, h⟩

theorem PartsEnds.pathEnds (hP : ∀ r r', P r r' → SinglePatternEnds r r') (h : PartsEnds P u u') :
    PathEnds true u u' :=
  h.cases.elim (fun h => h.2.pathEnds) fun h => (hP u u' h.2).toPathEnds

/-- Patterns in brackets are read the same again. -/
theorem patterns_closed (hg : Knot m size g g') (delimiter : Delimiter) :
    Replays m (size + 1) 1 (fun _ => Any) (group delimiter (commaList (g .pattern)))
      (group delimiter (commaList (g' .pattern))) Lead := by
  refine group_closed delimiter (commaList_replays (hg.pattern.before fun _ _ h => h.toLead)
    atEnd_nil.patternEnds fun u u' hcomma h => ?_) fun _ => atEnd_nil
  exact CommaEnds.patternEnds (.inr ⟨hcomma, h⟩)

/-- What follows the path of a pattern is read the same again. -/
theorem pathParts_replays (hg : ∀ m, Knot m size g g')
    (hP : ∀ r r', P r r' → SinglePatternEnds r r') (path : Node) :
    Replays m (size + 1) 0 (fun _ => P)
      (do
        if ← peek (isGroup .brace) then
          let (fields, rest) ← group .brace (structPatternFields g)
          return .structPattern path fields rest
        else if ← peek (isGroup .paren) then
          return .tupleStructPattern path (← group .paren (commaList (g .pattern)))
        else if ← peek (isOp "..") then rangePattern g path
        else return path)
      (do
        if ← peek (isGroup .brace) then
          let (fields, rest) ← group .brace (structPatternFields g')
          return .structPattern path fields rest
        else if ← peek (isGroup .paren) then
          return .tupleStructPattern path (← group .paren (commaList (g' .pattern)))
        else if ← peek (isOp "..") then rangePattern g' path
        else return path) (PartsEnds P) := by
  have hfields : Replays m (size + 1) 1 (fun _ => Any) (group .brace (structPatternFields g))
      (group .brace (structPatternFields g')) Lead :=
    group_closed .brace (structPatternFields_replays hg) fun _ => atEnd_nil
  refine .choice ?_ (.before (.choice ?_ (.before (.choice ?_ ?_ ?_) fun u u' h hno => .no hno h) ?_)
    fun u u' h hno => .no hno h) ?_
  · exact (hfields.forget.wrap.after fun _ _ _ _ => trivial).before
      fun u u' h hyes => .yes hyes h
  · exact ((patterns_closed (hg m) .paren).forget.wrap.after fun _ _ _ _ => trivial).before
      fun u u' h hyes => .yes hyes h
  · exact (rangePattern_replays (hg m) hP path).forget.before fun u u' h hyes => .yes hyes h.2
  · exact (Replays.pure path).before fun u u' h hno => .no hno h
  · exact fun u u' h => h.elim (fun _ h => (Stable.eq_of_lead h).symm)
      fun hno h => ((hP u u' h).dots hno).trans hno.symm
  · exact fun u u' h => h.elim (fun _ h => (Stable.eq_of_lead h).symm) fun hno h =>
      h.elim (fun _ h => (Stable.eq_of_lead h).symm)
        fun _ h => ((hP u u' h).paren hno).trans hno.symm
  · exact fun u u' h => h.cases.elim (fun h => (Stable.eq_of_lead h.2).symm) fun h => by
      have hno : isGroup .brace u = false := (Bool.or_eq_false_iff.mp h.1).1
      exact ((hP u u' h.2).brace hno).trans hno.symm

def PatternPathEnds (P : Follow) : Follow := fun u u' => BangStart u u' ∨ PartsEnds P u u'

theorem PatternPathEnds.pathEnds (hP : ∀ r r', P r r' → SinglePatternEnds r r')
    (h : PatternPathEnds P u u') : PathEnds true u u' :=
  h.elim (fun h => h.toLead.pathEnds) fun h => h.pathEnds hP

theorem not_isBang_of_opensPattern (h : opensPattern u = true) : isBang u = false := by
  have hno : isOp "!" u = false := by
    refine isOp_of_kind rfl (by decide) fun hkind => ?_
    have hu : ∀ {question : Peek} [Headed question], question u = question [.punct '!' false] :=
      Headed.eq_of_kind_eq hkind
    have hdots : isOp ".." u = false :=
      isOp_of_kind (rfl : "..".toList = ['.', '.']) (by decide) (by rw [hkind]; decide)
    simp only [opensPattern, anyOf, List.any_cons, List.any_nil, Bool.or_false, hdots,
      (hu : isGroup .brace u = _), (hu : isGroup .paren u = _)] at h
    cases h
  rw [isBang, Peek.butNot, hno, Bool.false_and]

theorem PartsEnds.bang (hP : ∀ r r', P r r' → SinglePatternEnds r r') (h : PartsEnds P u u') :
    isBang u' = isBang u := by
  have hno : ∀ {u}, isOp "!" u = false → isBang u = false := fun h => by
    rw [isBang, Peek.butNot, h, Bool.false_and]
  rcases h.cases with ⟨hopens, h⟩ | ⟨-, h⟩
  · rw [not_isBang_of_opensPattern hopens,
      not_isBang_of_opensPattern ((Stable.eq_of_lead h).symm.trans hopens)]
  · rw [hno (hP u u' h).noBang, hno (hP u u' h).bang]

/-- Patterns that start with a path are read the same again. -/
theorem pathPattern_replays (hg : ∀ m, Knot m size g g')
    (hP : ∀ r r', P r r' → SinglePatternEnds r r') :
    Replays m (size + 1) 1 (fun _ => P) (pathPattern g) (pathPattern g')
      (QualifiedStart (PatternPathEnds P)) := by
  unfold pathPattern
  refine (qualifiedPath_replays (hg m) true fun _ _ h => h.pathEnds hP).keep (PatternPathEnds P)
    (fun path => ?_) fun _ _ _ h => h
  have hparts := pathParts_replays (m := m) hg hP path
  cases path.plainPath? with
  | none => exact (Replays.ignore hparts).before fun _ _ h => .inr h
  | some plain =>
      refine (Replays.each (fun isMacro => ?_) ?_ : Replays _ _ _ _ _ _
        (Either isBang BangStart (PartsEnds P))).before
        fun u u' h => h.elim (fun _ h => .inl h) fun _ h => .inr h
      · cases isMacro with
        | false => exact hparts.before fun u u' h hno => .no hno h
        | true =>
            exact ((macroArguments_replays plain).forget.result fun _ _ _ _ => trivial).before
              fun u u' h hyes => .yes hyes h
      · exact fun u u' h => h.elim (fun hyes h => h.right.trans hyes.symm) fun _ h => h.bang hP

/-! ## Starts of patterns -/

/-- Whether a path, and no binding, is what a name starts. -/
def afterName : Peek :=
  anyOf [isOp "::", isOp "!", isGroup .brace, isGroup .paren, isOp ".."]

instance : Stable afterName :=
  inferInstanceAs (Stable (anyOf [isOp "::", isOp "!", isGroup .brace, isGroup .paren, isOp ".."]))

/-- Whether a path starts a pattern, whatever follows its first token. -/
def isOtherPath : Peek := anyOf [isOp "::", isOp "<", isOneOf ["Self", "super", "crate"]]

instance : Stable isOtherPath :=
  inferInstanceAs (Stable (anyOf [isOp "::", isOp "<", isOneOf ["Self", "super", "crate"]]))

/-- A pattern starts with a path in one of three ways. -/
theorem isPathPattern_eq (u : List Token) : isPathPattern u =
    ((isIdent u && afterName (afterOne u)) || ((isWord "self" u && isOp "::" (afterOne u)) ||
      isOtherPath u)) := rfl

theorem isPathPattern_of_lead (h : Lead u u') (hident : isIdent u = false)
    (hself : isWord "self" u = false) : isPathPattern u' = isPathPattern u := by
  have hident' : isIdent u' = false := (Stable.eq_of_lead h).symm.trans hident
  have hself' : isWord "self" u' = false := (Stable.eq_of_lead h).symm.trans hself
  rw [isPathPattern_eq, isPathPattern_eq, hident, hident', hself, hself',
    (Stable.eq_of_lead h : isOtherPath u = isOtherPath u')]
  simp only [Bool.false_and]

theorem isReceiverStart_word {name : Ident} (hname : name.text ≠ "mut") (r : List Token) :
    isReceiverStart (.ident name :: r) = (name.text == "self" && !isUntyped r) := by
  have hmut : isWord "mut" (.ident name :: r) = false := by simpa [isWord] using hname
  change (isWord "self" (afterWord "mut" (.ident name :: r)) &&
    !isUntyped (afterWord "mut" (.ident name :: r)).tail) = _
  rw [afterWord, hmut]
  rfl

theorem isReceiverStart_mut (r : List Token) :
    isReceiverStart (.ident ⟨"mut"⟩ :: r) = (isWord "self" r && !isUntyped r.tail) := rfl

theorem isReceiverStart_of_not (hamp : isOp "&" u = false) (hmut : isWord "mut" u = false)
    (hself : isWord "self" u = false) : isReceiverStart u = false := by
  rw [isReceiverStart, hamp]
  change (isWord "self" (afterWord "mut" u) && _) = false
  rw [afterWord, hmut]
  change (isWord "self" u && _) = false
  rw [hself, Bool.false_and]

/-- Both readings go on with a pattern without alternatives that starts with a path in both of
them, or in none. -/
structure PlainStart (P : Follow) (u u' : List Token) : Prop extends SingleStart P u u' where
  path : isPathPattern u' = isPathPattern u

/-- Tokens that start a pattern in one way only. -/
def startsPatternPlainly : Kind → Bool
  | .word name => isKeyword name && !(["mut", "self", "Self", "super", "crate"].contains name.text)
  | .literal _ _ => true
  | .group .paren => true
  | .group .bracket => true
  | .punct char => ['-', '.'].contains char
  | _ => false

theorem of_startsPatternPlainly (h : startsPatternPlainly (kind u) = true) :
    isIdent u = false ∧ isWord "self" u = false ∧ isWord "mut" u = false ∧ isOp "&" u = false ∧
      isOp "<" u = false ∧ startsPattern (kind u) = true := by
  rcases kind_cases u with rfl | ⟨name, rest, rfl⟩ | ⟨name, rest, rfl⟩ |
    ⟨char, joint, rest, rfl, hkind⟩ | ⟨text, rest, rfl⟩ | ⟨delimiter, body, rest, rfl⟩
  · cases h
  · simp only [kind, startsPatternPlainly, Bool.and_eq_true, Bool.not_eq_true',
      List.contains_eq_mem, List.mem_cons, List.not_mem_nil, or_false, decide_eq_false_iff_not,
      not_or] at h
    refine ⟨by simp [isIdent, h.1], by simp [isWord, h.2], by simp [isWord, h.2], rfl, rfl, rfl⟩
  · cases h
  · rw [hkind] at h ⊢
    simp only [startsPatternPlainly, List.contains_eq_mem, List.mem_cons, List.not_mem_nil,
      or_false, decide_eq_true_eq] at h
    rcases h with rfl | rfl
    · exact ⟨rfl, rfl, rfl, rfl, rfl, rfl⟩
    · exact ⟨rfl, rfl, rfl, rfl, rfl, rfl⟩
  · exact ⟨rfl, rfl, rfl, rfl, rfl, rfl⟩
  · cases delimiter with
    | brace => cases h
    | paren => exact ⟨rfl, rfl, rfl, rfl, rfl, rfl⟩
    | bracket => exact ⟨rfl, rfl, rfl, rfl, rfl, rfl⟩

theorem not_ellipsis_of_kind (h : kind u ≠ .punct '.') : isOp "..." u = false :=
  isOp_of_kind (rfl : "...".toList = ['.', '.', '.']) (by decide) h

/-- A pattern that starts plainly is told from a path and from a receiver. -/
theorem PlainStart.of_lead (h : Lead u u') (hstarts : startsPatternPlainly (kind u) = true)
    (hword : AfterWord (fun r r' => P r r' ∨ Absent (isOp "<") r r') u u')
    (hdots : isOp "..." u' = false) : PlainStart P u u' := by
  obtain ⟨hident, hself, -, -, hless, hstarts'⟩ := of_startsPatternPlainly hstarts
  obtain ⟨-, hself', hmut', hamp', -, -⟩ := of_startsPatternPlainly (h.kind_eq ▸ hstarts)
  exact ⟨⟨⟨h, hstarts', .generics_of_lead h hless⟩, hword,
    fun _ => .of_not (isReceiverStart_of_not hamp' hmut' hself'), hdots⟩,
    isPathPattern_of_lead h hident hself⟩

theorem PlainStart.of_kind {first : Kind} (h : Lead u u') (hkind : kind u = first)
    (hstarts : startsPatternPlainly first = true) (hword : ∀ name, first ≠ .word name)
    (hdots : isOp "..." u' = false) : PlainStart P u u' := by
  refine .of_lead h (hkind ▸ hstarts) (fun name r r' hu => ?_) hdots
  rw [hu] at hkind
  exact absurd hkind.symm (hword name)

theorem PlainStart.of_group {delimiter : Delimiter} (h : Lead u u') (hu : isGroup delimiter u = true)
    (hdelimiter : startsPatternPlainly (.group delimiter) = true) : PlainStart P u u' := by
  have hkind := kind_of_isGroup hu
  refine .of_kind h hkind hdelimiter nofun (not_ellipsis_of_kind ?_)
  rw [← h.kind_eq, hkind]
  nofun

theorem PlainStart.of_keyword {text : String} {Post : Follow}
    (h : isWord text u = true ∧ WordThen Post u u')
    (htext : startsPatternPlainly (.word ⟨text⟩) = true)
    (hpost : ∀ r r', Post r r' → P r r' ∨ Lead r r') : PlainStart P u u' := by
  refine .of_lead h.2.lead (by rw [kind_of_isWord h.1, htext]) (fun name r r' hu hu' => ?_)
    (not_ellipsis_of_kind ?_)
  · obtain ⟨_, s, s', hs, hs', hrest⟩ := h.2
    rw [hs] at hu
    rw [hs'] at hu'
    cases hu
    cases hu'
    exact (hpost _ _ hrest).imp id .of_stable
  · rw [← h.2.lead.kind_eq, kind_of_isWord h.1]
    nofun

/-- Whether a bound of a range starts a pattern. -/
def isLiteralPattern : Peek := anyOf [isOp "-", isLiteral, isWord "const"]

theorem startsPlainly_of_literal (h : isLiteralPattern u = true) :
    startsPatternPlainly (kind u) = true := by
  simp only [isLiteralPattern, anyOf, List.any_cons, List.any_nil, Bool.or_false,
    Bool.or_eq_true] at h
  rcases h with h | h | h
  · rw [kind_of_isOp (rfl : "-".toList = ['-']) (by decide) h]
    rfl
  · unfold isLiteral at h
    split at h
    · rfl
    next name _ =>
        obtain ⟨text⟩ := name
        simp only [Bool.or_eq_true, beq_iff_eq] at h
        rcases h with rfl | rfl <;> rfl
    · rw [kind_punct (by decide)]
      rfl
    · cases h
  · rw [kind_of_isWord h]
    rfl

theorem not_dots_of_literal (h : isLiteralPattern u = true) : kind u ≠ .punct '.' := by
  intro hkind
  have hno : isOp "-" u = false ∧ isWord "const" u = false :=
    ⟨(Headed.eq_of_kind_eq hkind : isOp "-" u = isOp "-" [.punct '.' false]),
      (Headed.eq_of_kind_eq hkind : isWord "const" u = isWord "const" [.punct '.' false])⟩
  simp only [isLiteralPattern, anyOf, List.any_cons, List.any_nil, Bool.or_false, hno,
    Bool.false_or] at h
  unfold isLiteral at h
  split at h
  · cases hkind
  · cases hkind
  · rw [kind_punct (by decide)] at hkind
    cases hkind
  · cases h

theorem isUntyped_of_path (h : isOp "::" u = true) (hthird : kind (u.drop 2) ≠ .punct ':') :
    isUntyped u = true := by
  obtain ⟨joint, rest, rfl⟩ := @exists_of_isOp_two "::" ':' ':' rfl _ h
  have hno : isOp "::" (.punct ':' joint :: rest) = false := by
    cases hyes : isOp "::" (.punct ':' joint :: rest) with
    | false => rfl
    | true =>
        obtain ⟨joint, rest, heq⟩ := @exists_of_isOp_two "::" ':' ':' rfl _ hyes
        cases heq
        exact absurd rfl hthird
  change (isOp "." (.punct ':' joint :: rest) || (isOp ":" (.punct ':' joint :: rest) &&
    !isOp "::" (.punct ':' joint :: rest))) = true
  rw [hno]
  rfl

theorem PatternPathEnds.word (h : PathThen (PatternPathEnds P) u u') :
    P u u' ∨ Lead u u' := by
  rcases h with ⟨-, h | h⟩ | ⟨h, -⟩
  · exact .inr h.toLead
  · exact h.cases.elim (fun h => .inr h.2) fun h => .inl h.2
  · exact .inr h

/-- What tells a binding from a path survives after the first name of a path. -/
theorem PatternPathEnds.afterName (hP : ∀ r r', P r r' → SinglePatternEnds r r')
    (h : PathThen (PatternPathEnds P) u u') (hyes : Source.afterName u = true) :
    Source.afterName u' = true := by
  have hlead : Lead u u' → Source.afterName u' = true :=
    fun h => (Stable.eq_of_lead h).symm.trans hyes
  rcases h with ⟨hno, h | h⟩ | ⟨h, -⟩
  · exact hlead h.toLead
  · rcases h.cases with ⟨-, h⟩ | ⟨hopens, h⟩
    · exact hlead h
    · simp only [opensPattern, anyOf, List.any_cons, List.any_nil, Bool.or_false,
        Bool.or_eq_false_iff] at hopens
      simp only [Source.afterName, anyOf, List.any_cons, List.any_nil, Bool.or_false, hopens,
        (hP u u' h).noBang] at hyes ⊢
      rw [(hP u u' h).stays hno hyes, Bool.true_or]
  · exact hlead h

theorem PatternPathEnds.path (hP : ∀ r r', P r r' → SinglePatternEnds r r')
    (h : PathThen (PatternPathEnds P) u u') (hyes : isOp "::" u = true) : isOp "::" u' = true := by
  rcases h with ⟨hno, h | h⟩ | ⟨h, -⟩
  · exact h.path_eq.symm.trans hyes
  · exact h.cases.elim (fun h => h.2.path_eq.symm.trans hyes)
      fun h => (hP u u' h.2).stays hno hyes
  · exact h.path_eq.symm.trans hyes

theorem PatternPathEnds.untyped (h : PathThen (PatternPathEnds P) u u')
    (hP : ∀ r r', P r r' → isUntyped r = true → isUntyped r' = true) (hyes : isUntyped u = true) :
    isUntyped u' = true := by
  have hkind : kind u = .punct ':' :=
    kind_of_isOp rfl (by decide) ((Bool.and_eq_true _ _).mp hyes).1
  have hu : ∀ {question : Peek} [Headed question], question u = question [.punct ':' false] :=
    Headed.eq_of_kind_eq hkind
  rcases h with ⟨-, h | h⟩ | ⟨h, hless | ⟨hpath, hthird⟩⟩
  · have hbang := ((Bool.and_eq_true _ _).mp h.left).1
    rw [(hu : isOp "!" u = _)] at hbang
    cases hbang
  · rcases h.cases with ⟨hopens, h⟩ | ⟨-, h⟩
    · have hdots : isOp ".." u = false :=
        isOp_of_kind (rfl : "..".toList = ['.', '.']) (by decide) (by rw [hkind]; decide)
      simp only [opensPattern, anyOf, List.any_cons, List.any_nil, Bool.or_false, hdots,
        (hu : isGroup .brace u = _), (hu : isGroup .paren u = _)] at hopens
      cases hopens
    · exact hP u u' h hyes
  · rw [← h.kind_eq, hkind] at hless
    cases hless
  · exact isUntyped_of_path hpath hthird

theorem PlainStart.of_path (hP : ∀ r r', P r r' → SinglePatternEnds r r')
    (h : QualifiedStart (PatternPathEnds P) u u') (hyes : isPathPattern u = true) :
    PlainStart P u u' := by
  have hlead := h.toLead
  have hword : AfterWord (PathThen (PatternPathEnds P)) u u' := by
    intro name r r' hu hu'
    have hless : isOp "<" u = false := by
      rw [hu]
      rfl
    exact (h.path hless).word name r r' hu hu'
  refine ⟨⟨⟨hlead, ?_, h.generics⟩, fun name r r' hu hu' => ?_, fun huntyped hno => ?_,
    not_ellipsis_of_kind ?_⟩, ?_⟩
  · rcases h.starts with hstarts | hpath | hless
    · obtain ⟨name, rest, rfl, -⟩ := kind_of_isPathWord hstarts
      rfl
    · rw [kind_of_isOp (rfl : "::".toList = [':', ':']) (by decide) hpath]
      rfl
    · rw [kind_of_isOp (rfl : "<".toList = ['<']) (by decide) hless]
      rfl
  · exact (PatternPathEnds.word (hword name r r' hu hu')).imp id .of_stable
  · rcases h.starts with hstarts | hother
    · obtain ⟨name, r, rfl, -⟩ := kind_of_isPathWord hstarts
      obtain ⟨r', rfl⟩ := exists_of_kind_word hlead.kind_eq.symm
      have hname : name.text ≠ "mut" := by
        obtain ⟨text⟩ := name
        rintro rfl
        cases hstarts
      rw [isReceiverStart_word hname] at hno ⊢
      cases hself : name.text == "self" with
      | false => rfl
      | true =>
          rw [hself, Bool.true_and, Bool.not_eq_false'] at hno
          rw [PatternPathEnds.untyped (hword name r r' rfl rfl) huntyped hno]
          rfl
    · -- A path that starts with colons or a bracket is no receiver, which the first token settles.
      have hu' : ∀ {question : Peek} [Headed question], question [.punct ':' false] = false →
          question [.punct '<' false] = false → question u' = false := by
        intro question hq hcolon hless
        rcases hother with hop | hop
        · rw [← hcolon]
          exact hq.eq_of_kind_eq (hlead.kind_eq.symm.trans (kind_of_isOp rfl (by decide) hop))
        · rw [← hless]
          exact hq.eq_of_kind_eq (hlead.kind_eq.symm.trans (kind_of_isOp rfl (by decide) hop))
      exact isReceiverStart_of_not (hu' rfl rfl) (hu' rfl rfl) (hu' rfl rfl)
  · rw [← hlead.kind_eq]
    rcases h.starts with hstarts | hpath | hless
    · obtain ⟨name, r, rfl, -⟩ := kind_of_isPathWord hstarts
      nofun
    · rw [kind_of_isOp (rfl : "::".toList = [':', ':']) (by decide) hpath]
      decide
    · rw [kind_of_isOp (rfl : "<".toList = ['<']) (by decide) hless]
      decide
  · rw [hyes]
    rw [isPathPattern_eq] at hyes ⊢
    simp only [Bool.or_eq_true, Bool.and_eq_true] at hyes ⊢
    rcases hyes with ⟨hident, hafter⟩ | ⟨hself, hpath⟩ | hother
    · obtain ⟨name, r, rfl, -⟩ := exists_of_isIdent hident
      obtain ⟨r', rfl⟩ := exists_of_kind_word hlead.kind_eq.symm
      exact .inl ⟨hident, PatternPathEnds.afterName hP (hword name r r' rfl rfl) hafter⟩
    · obtain ⟨r, rfl⟩ := exists_of_kind_word (kind_of_isWord hself)
      obtain ⟨r', rfl⟩ := exists_of_kind_word hlead.kind_eq.symm
      exact .inr (.inl ⟨hself, PatternPathEnds.path hP (hword _ r r' rfl rfl) hpath⟩)
    · exact .inr (.inr ((Stable.eq_of_lead hlead).symm.trans hother))

/-! ## Bindings -/

def BoundEnds (P : Follow) : Follow := Either (isOp "@") Lead P

/-- A name that is bound and the pattern for what it is bound to. -/
theorem boundName_replays (hg : Knot m size g g') (hP : ∀ r r', P r r' → SinglePatternEnds r r')
    (byRef mutable : Bool) :
    Replays m (size + 1) 1 (fun _ => P)
      (do
        let name ← if ← peek (isWord "self") then anyWord else ident
        let sub ← when? (isOp "@") do
          op "@"
          g .singlePattern
        return Node.bindingPattern byRef mutable name sub)
      (do
        let name ← if ← peek (isWord "self") then anyWord else ident
        let sub ← when? (isOp "@") do
          op "@"
          g' .singlePattern
        return Node.bindingPattern byRef mutable name sub) (WordThen (BoundEnds P)) := by
  have hsub : ∀ f : Option Node → Node, Replays m size 0 (fun _ => P)
      (when? (isOp "@") (do op "@"; g .singlePattern) >>= fun sub => pure (f sub))
      (when? (isOp "@") (do op "@"; g' .singlePattern) >>= fun sub => pure (f sub))
      (BoundEnds P) := by
    intro f
    refine .choiceWhen ?_ ?_ fun u u' h => ?_
    · simp only [bind_assoc]
      refine ((op_closed "@").seq Lead fun _ => ?_).before fun u u' h hyes => .yes hyes h
      exact (hg.singlePattern P hP).forget.wrap.before fun _ _ h => h.toLead
    · exact (Replays.pure _).before fun u u' h hno => .no hno h
    · exact h.elim (fun _ h => (Stable.eq_of_lead h).symm)
        fun hno h => ((hP u u' h).sub hno).trans hno.symm
  refine .ite (fun _ _ h => h.lead) ?_ ?_
  · exact (anyWord_replays _).head _ (fun name => hsub _) fun _ _ _ h => h
  · exact (ident_replays _).head _ (fun name => hsub _) fun _ _ _ h => h

/-- Both readings go on with a word that may be missing. -/
def Marked (text : String) (Then : Follow) : Follow := Either (isWord text) (WordThen Then) Then

theorem Marked.lead {text : String} {Then : Follow} (hThen : ∀ u u', Then u u' → Lead u u')
    (h : Marked text Then u u') : Lead u u' :=
  h.elim (fun _ h => h.lead) fun _ h => hThen u u' h

/-- A word that may stand in front is read the same again. -/
theorem mark_replays {α : Type} {least : Nat} {Post : α → Follow} {Then : Follow} (text : String)
    {f f' : Bool → Parser α} (hf : ∀ b, Replays m size least Post (f b) (f' b) Then)
    (hThen : ∀ u u', Then u u' → Lead u u') :
    Replays m size least Post (word? text >>= f) (word? text >>= f')
      (Marked text Then) := by
  refine .choiceWord ?_ ?_ fun u u' h => (Stable.eq_of_lead (h.lead hThen)).symm
  · exact ((word_replays text Then).bind Then (fun _ => hf true) fun _ _ _ h => h).before
      fun u u' h hyes => .yes hyes h
  · exact (hf false).before fun u u' h hno => .no hno h

/-- Both readings go on with a binding. -/
def BindingStart (P : Follow) : Follow := Marked "ref" (Marked "mut" (WordThen (BoundEnds P)))

/-- Bindings are read the same again. -/
theorem bindingPattern_replays (hg : Knot m size g g')
    (hP : ∀ r r', P r r' → SinglePatternEnds r r') :
    Replays m (size + 1) 1 (fun _ => P) (bindingPattern g) (bindingPattern g') (BindingStart P) :=
  mark_replays "ref" (fun byRef => mark_replays "mut" (fun mutable =>
    boundName_replays hg hP byRef mutable) fun _ _ h => h.lead)
    fun _ _ h => h.lead fun _ _ h => h.lead

theorem BoundEnds.untyped (h : BoundEnds P u u')
    (hP : ∀ r r', P r r' → isUntyped r = true → isUntyped r' = true) (hyes : isUntyped u = true) :
    isUntyped u' = true := by
  refine h.elim (fun hat _ => ?_) fun _ h => hP u u' h hyes
  have hcolon := kind_of_isOp (rfl : ":".toList = [':']) (by decide)
    ((Bool.and_eq_true _ _).mp hyes).1
  rw [kind_of_isOp (rfl : "@".toList = ['@']) (by decide) hat] at hcolon
  cases hcolon

theorem BoundEnds.afterName (hP : ∀ r r', P r r' → SinglePatternEnds r r') (h : BoundEnds P u u')
    (hno : Source.afterName u = false) : Source.afterName u' = false := by
  refine h.elim (fun _ h => (Stable.eq_of_lead h).symm.trans hno) fun _ h => ?_
  have hends := hP u u' h
  simp only [Source.afterName, anyOf, List.any_cons, List.any_nil, Bool.or_false,
    Bool.or_eq_false_iff] at hno ⊢
  exact ⟨hends.path hno.1, hends.bang, hends.brace hno.2.2.1, hends.paren hno.2.2.2.1,
    hends.dots hno.2.2.2.2⟩

theorem BoundEnds.path (hP : ∀ r r', P r r' → SinglePatternEnds r r') (h : BoundEnds P u u')
    (hno : isOp "::" u = false) : isOp "::" u' = false :=
  h.elim (fun _ h => h.path_eq.symm.trans hno) fun _ h => (hP u u' h).path hno

/-- A name is bound in both readings. -/
theorem isPathPattern_of_bound {name : Ident} {r r' : List Token}
    (hP : ∀ r r', P r r' → SinglePatternEnds r r') (h : BoundEnds P r r')
    (hno : isPathPattern (.ident name :: r) = false) :
    isPathPattern (.ident name :: r') = false := by
  rw [isPathPattern_eq] at hno ⊢
  change (isIdent [.ident name] && Source.afterName r || (isWord "self" [.ident name] &&
    isOp "::" r || isOtherPath [.ident name])) = false at hno
  change (isIdent [.ident name] && Source.afterName r' || (isWord "self" [.ident name] &&
    isOp "::" r' || isOtherPath [.ident name])) = false
  simp only [Bool.or_eq_false_iff, Bool.and_eq_false_iff] at hno ⊢
  exact ⟨hno.1.imp id (h.afterName hP), hno.2.1.imp id (h.path hP), hno.2.2⟩

theorem PlainStart.of_binding (hP : ∀ r r', P r r' → SinglePatternEnds r r')
    (h : BindingStart P u u') (hno : isPathPattern u = false) : PlainStart P u u' := by
  -- By the word that comes first: a reference, a binding that may change, or the name itself.
  refine h.elim (fun href hword => ?_) fun _ h => h.elim (fun hmut hword => ?_) fun hmut hword => ?_
  · obtain ⟨name, r, r', rfl, rfl, hrest⟩ := hword
    refine .of_lead (.word _ _ _) ?_ (fun _ _ _ hu hu' => ?_) rfl
    · rw [kind_of_isWord href]
      rfl
    · cases hu
      cases hu'
      exact .inr (.of_stable (hrest.lead fun _ _ h => h.lead))
  · obtain ⟨name, _, _, rfl, rfl, hrest⟩ := hword
    obtain rfl : name = ⟨"mut"⟩ := Kind.word.inj (kind_of_isWord hmut)
    refine ⟨⟨⟨.word _ _ _, rfl, .of_not rfl⟩, fun _ _ _ hu hu' => ?_, fun huntyped hreceiver => ?_,
      rfl⟩,
      isPathPattern_of_lead (.word _ _ _) rfl rfl⟩
    · cases hu
      cases hu'
      exact .inr (.of_stable hrest.lead)
    · obtain ⟨name, r, r', rfl, rfl, hends⟩ := hrest
      rw [isReceiverStart_mut] at hreceiver ⊢
      cases hself : isWord "self" (.ident name :: r') with
      | false => rfl
      | true =>
          have hself' : isWord "self" (.ident name :: r) = true := hself
          -- A receiver that may change is one only if it has no type, in both readings.
          have huntyped' : isUntyped r = true := by
            rw [hself', Bool.true_and] at hreceiver
            simpa using hreceiver
          change (true && !isUntyped r') = false
          rw [hends.untyped huntyped huntyped']
          rfl
  · obtain ⟨name, r, r', rfl, rfl, hends⟩ := hword
    refine ⟨⟨⟨.word _ _ _, rfl, .of_not rfl⟩, fun _ _ _ hu hu' => ?_, fun huntyped hreceiver => ?_,
      rfl⟩,
      (isPathPattern_of_bound hP hends hno).trans hno.symm⟩
    · cases hu
      cases hu'
      exact hends.elim (fun _ h => .inr (.of_stable h)) fun _ h => .inl h
    · have hname : name.text ≠ "mut" := by simpa [isWord] using hmut
      rw [isReceiverStart_word hname] at hreceiver ⊢
      cases hself : name.text == "self" with
      | false => rfl
      | true =>
          rw [hself, Bool.true_and, Bool.not_eq_false'] at hreceiver
          rw [hends.untyped huntyped hreceiver]
          rfl

/-! ## References and tuples -/

/-- Both readings go on with the pattern of a reference. -/
def ReferentStart : Follow := Marked "mut" fun t t' => Lead t t' ∧ isLifetime t = false

theorem not_isLifetime_of_startsPattern (h : startsPattern (kind u) = true) :
    isLifetime u = false := by
  cases hlifetime : isLifetime u with
  | false => rfl
  | true =>
      obtain ⟨name, rest, rfl⟩ := exists_of_isLifetime hlifetime
      cases h

/-- Reference patterns are read the same again. -/
theorem referencePattern_replays (hg : Knot m size g g')
    (hP : ∀ r r', P r r' → SinglePatternEnds r r') :
    Replays m (size + 1) 1 (fun _ => P)
      (op "&" >>= fun _ => word? "mut" >>= fun mutable => g .singlePattern >>= fun pattern =>
        pure (Node.referencePattern mutable pattern))
      (op "&" >>= fun _ => word? "mut" >>= fun mutable => g' .singlePattern >>= fun pattern =>
        pure (Node.referencePattern mutable pattern)) (OpThen m "&" ReferentStart) := by
  refine ((op_replays "&" (by decide) ReferentStart).head _ (fun _ => ?_) fun _ _ _ h => h)
  refine mark_replays "mut" (fun mutable => ?_) fun _ _ h => h.1
  exact (hg.singlePattern P hP).forget.wrap.before
    fun _ _ h => ⟨h.toLead, not_isLifetime_of_startsPattern h.starts⟩

theorem PlainStart.of_reference (h : OpThen m "&" ReferentStart u u') : PlainStart P u u' := by
  have hlead : Lead u u' := h.lead (by decide)
  obtain ⟨joint, joint', t, t', rfl, rfl, -, hrest⟩ := h.single '&' rfl
  refine ⟨⟨⟨hlead, rfl, .of_not rfl⟩, nofun, fun _ hno => ?_, not_ellipsis_of_kind nofun⟩,
    isPathPattern_of_lead hlead rfl rfl⟩
  change isWord "self" (afterWord "mut" (afterLifetime t)) = false at hno
  change isWord "self" (afterWord "mut" (afterLifetime t')) = false
  unfold ReferentStart at hrest
  refine hrest.elim (fun hmut hword => ?_) fun hmut hrest => ?_
  · obtain ⟨name, r, r', rfl, rfl, hreferent⟩ := hword
    obtain rfl : name = ⟨"mut"⟩ := Kind.word.inj (kind_of_isWord hmut)
    exact (Stable.eq_of_lead hreferent.1).symm.trans hno
  · have hlifetime' : isLifetime t' = false := (Stable.eq_of_lead hrest.1).symm.trans hrest.2
    have hmut' : isWord "mut" t' = false := (Stable.eq_of_lead hrest.1).symm.trans hmut
    rw [afterLifetime, hrest.2, if_neg (by decide), afterWord, hmut, if_neg (by decide)] at hno
    rw [afterLifetime, hlifetime', if_neg (by decide), afterWord, hmut', if_neg (by decide)]
    exact (Stable.eq_of_lead hrest.1).symm.trans hno

/-- Parentheses and tuples of patterns are read the same again. -/
theorem parenPattern_replays (hg : Knot m size g g') :
    Replays m (size + 1) 1 (fun _ => Any) (parenPattern g) (parenPattern g') Lead := by
  unfold parenPattern
  have hpart : Replays m size 1 (OnSome (fun _ => Lead) AtEnd)
      (do
        let pattern ← g .pattern
        if ← atEnd then return some (pattern, false)
        else
          op ","
          return some (pattern, true))
      (do
        let pattern ← g' .pattern
        if ← atEnd then return some (pattern, false)
        else
          op ","
          return some (pattern, true)) Lead := by
    refine ((hg.pattern.after fun _ _ _ (h : CommaEnds _ _) => h.patternEnds).keep CommaEnds
      (fun pattern => .choice ?_ ?_ fun u u' h => (Stable.eq_of_lead h.lead).symm)
      fun _ _ _ h => h).before fun _ _ h => h.toLead
    · refine (Replays.pure (some (pattern, false))).before fun u u' h hempty => .inl ?_
      exact ⟨List.isEmpty_iff.mp hempty,
        List.isEmpty_iff.mp ((Stable.eq_of_lead h).symm.trans hempty)⟩
    · exact ((op_known ",").seq Lead fun _ => .pure _).before fun u u' h _ => .inr h
  refine group_closed .paren (.bind (repeated_replays (.ite (fun _ _ h => h) ?_
    hpart.forget) (Moves.peek fun _ => .ite .none (.of_replays hpart)).advances) AtEnd (fun parts => ?_)
    fun _ _ _ h => h : Replays _ _ 0 (fun _ => AtEnd) _ _ _) fun _ => atEnd_nil
  · exact (Replays.pure none).before fun _ _ h => h.lead
  · split
    · exact .fixed (fun _ => .pure _) fun _ => .pure _
    · exact .pure _

/-! ## All patterns -/

/-- Box patterns are kept as they are and read the same again. -/
theorem boxPattern_replays (hg : ∀ m, Knot m size g g')
    (hP : ∀ r r', P r r' → SinglePatternEnds r r') :
    Replays m (size + 1) 1 (fun _ => P)
      (get >>= fun start => word "box" >>= fun _ => g .singlePattern >>= fun _ =>
        keepVerbatim start)
      (get >>= fun start => word "box" >>= fun _ => g' .singlePattern >>= fun _ =>
        keepVerbatim start)
      (WordThen Lead) := by
  have hbox : Replays .verbatim (size + 1) 1 (fun _ => P) (word "box" >>= fun _ => g .singlePattern)
      (word "box" >>= fun _ => g' .singlePattern) (WordThen Lead) :=
    (word_replays "box" Lead).head Lead (fun _ =>
      (((hg _).singlePattern P hP).forget.before fun _ _ h => h.toLead)) fun _ _ _ h => h
  simpa only [bind_assoc] using hbox.unread (m := m)

/-- Literals and ranges of literals are read the same again. -/
theorem literalPattern_replays (hg : Knot m size g g')
    (hP : ∀ r r', P r r' → SinglePatternEnds r r') :
    Replays m (size + 1) 1 (fun _ => P)
      (rangeBound? g >>= fun bound => match bound with
        | some start => peek (isOp "..") >>= fun isRange =>
            if isRange = true then rangePattern g start else pure start
        | none => failure)
      (rangeBound? g' >>= fun bound => match bound with
        | some start => peek (isOp "..") >>= fun isRange =>
            if isRange = true then rangePattern g' start else pure start
        | none => failure)
      (BoundaryStart (Either (isOp "..") Lead P)) := by
  have hends : ∀ r r', Either (isOp "..") Lead P r r' → PathEnds true r r' := fun r r' h =>
    h.elim (fun _ h => h.pathEnds) fun _ h => (hP r r' h).toPathEnds
  rw [rangeBound?_bind, rangeBound?_bind]
  refine .choice .failure (.before ?_ fun _ _ h _ => h)
    fun u u' h => (Stable.eq_of_lead h.toLead).symm
  refine (boundary_replays hg hends).keep _ (fun start => .choice ?_ ?_ ?_) fun _ _ _ h => h
  · exact (rangePattern_replays hg hP start).forget.before fun u u' h hyes => .yes hyes h.2
  · exact (Replays.pure start).before fun u u' h hno => .no hno h
  · exact fun u u' h => h.elim (fun _ h => (Stable.eq_of_lead h).symm)
      fun hno h => ((hP u u' h).dots hno).trans hno.symm

/-- Slice patterns are read the same again. -/
theorem slicePattern_replays (hg : Knot m size g g') :
    Replays m (size + 1) 1 (fun _ => Any)
      (group .bracket (commaList (g .pattern)) >>= fun elements =>
        require (!elements.any isOpenRange) >>= fun _ => pure (Node.slicePattern elements))
      (group .bracket (commaList (g' .pattern)) >>= fun elements =>
        require (!elements.any isOpenRange) >>= fun _ => pure (Node.slicePattern elements))
      Lead :=
  (patterns_closed hg .bracket).keep Any (fun _ => .given fun _ => .pure _)
    fun _ _ _ _ => trivial

/-- Patterns that start with dots are read the same again. -/
theorem dotsPattern_replays (hg : Knot m size g g')
    (hP : ∀ r r', P r r' → SinglePatternEnds r r') :
    Replays m (size + 1) 1 (fun _ => P)
      (rangeLimits false >>= fun closed => rangeBound? g >>= fun stop => match stop with
        | some stop => pure (Node.range none closed (some stop))
        | none => require (!closed) >>= fun _ => pure .restPattern)
      (rangeLimits false >>= fun closed => rangeBound? g' >>= fun stop => match stop with
        | some stop => pure (Node.range none closed (some stop))
        | none => require (!closed) >>= fun _ => pure .restPattern) DotsStart := by
  refine rangeStop_replays hg hP false fun closed stop => ?_
  cases stop with
  | some stop => exact .inr ⟨_, rfl⟩
  | none =>
      cases closed with
      | false => exact .inr ⟨_, rfl⟩
      | true => exact .inl rfl

/-- Patterns without alternatives are read the same again. -/
theorem singlePattern_replays (hg : ∀ m, Knot m size g g')
    (hP : ∀ r r', P r r' → SinglePatternEnds r r') :
    Replays m (size + 1) 1 (fun _ => P) (singlePattern g) (singlePattern g') (SingleStart P) := by
  let Chain : Follow := fun u u' => PlainStart P u u' ∨ BindingStart P u u'
  have hlead : ∀ u u', Chain u u' → Lead u u' := fun _ _ h =>
    h.elim (fun h => h.toLead) fun h => h.lead fun _ _ h => h.lead fun _ _ h => h.lead
  unfold singlePattern
  refine .before (.choice ?_ (.before (.word? hlead ?_ (.iteYes hlead ?_ (.iteYes hlead ?_
    (.ite hlead ?_ (.op? hlead ?_ (.iteYes hlead ?_ (.iteYes hlead ?_ ?_))))))) fun u u' h hno => ?_)
    fun u u' (h : PlainStart P u u') => h.path) fun _ _ h => h.toSingleStart
  · exact (pathPattern_replays hg hP).before fun u u' h hyes => .of_path hP h hyes
  · exact (word_then "_" P).wrap.before
      fun u u' h => .inl (.of_keyword h rfl fun _ _ h => .inl h)
  · exact (boxPattern_replays hg hP).before
      fun u u' h hyes => .inl (.of_keyword ⟨hyes, h⟩ rfl fun _ _ h => .inr h)
  · refine (literalPattern_replays (hg m) hP).before fun u u' h hyes => .inl
      (.of_lead h.toLead (startsPlainly_of_literal hyes) (fun name r r' hu hu' => ?_)
        (not_ellipsis_of_kind (h.kind_eq ▸ not_dots_of_literal hyes)))
    refine (h.word name r r' hu hu').elim (fun h => ?_) fun h => .inr (.of_stable h)
    exact h.elim (fun _ h => .inr (.of_stable h)) fun _ h => .inl h
  · exact (bindingPattern_replays (hg m) hP).before fun _ _ h => .inr h
  · exact (referencePattern_replays (hg m) hP).before fun _ _ h => .inl (.of_reference h)
  · exact ((parenPattern_replays (hg m)).after fun _ _ _ _ => trivial).before
      fun u u' h hyes => .inl (.of_group h hyes rfl)
  · exact ((slicePattern_replays (hg m)).after fun _ _ _ _ => trivial).before
      fun u u' h hyes => .inl (.of_group h hyes rfl)
  · refine ((dotsPattern_replays (hg m) hP).comparing fun _ hrun _ => ?_).before
      fun u u' h => .inl (.of_kind h.2.2 (kind_of_isOp rfl (by decide) h.2.1) rfl nofun h.1)
    obtain ⟨closed, e, hlimits, -⟩ := bind_eq_some.mp hrun
    exact not_ellipsis_of_rangeLimits hlimits
  · exact h.elim id fun h => .of_binding hP h hno

theorem isAlternative_replayed (h : OpThen m "|" Lead u u') (hyes : isAlternative u = true) :
    isAlternative u' = true := by
  obtain ⟨joint, joint', r, r', rfl, rfl, hjoint, hlead⟩ := h.single '|' rfl
  have heq : ∀ joint r, isAlternative (.punct '|' joint :: r) =
      !(joint && (isOp "|" r || isOp "=" r)) := by
    intro joint r
    cases joint <;> simp [isAlternative, Peek.butNot, isAnyOp, isOp, nextIsOp]
  rw [heq] at hyes ⊢
  cases joint' with
  | false => rfl
  | true =>
      rw [hjoint rfl, (Stable.eq_of_lead hlead : isOp "|" r = isOp "|" r'),
        (Stable.eq_of_lead hlead : isOp "=" r = isOp "=" r')] at hyes
      exact hyes

/-- A pattern reads one without alternatives on the same tokens. -/
theorem pattern_replays (hsingle : ∀ P, (∀ r r', P r r' → SinglePatternEnds r r') →
      Replays m size 1 (fun _ => P) (g .singlePattern) (g' .singlePattern) (SingleStart P)) :
    Replays m size 1 (fun _ => PatternEnds) (pattern g) (pattern g') PatternStart := by
  let Mid : Follow := Either isAlternative (OpThen m "|" Lead) PatternEnds
  have hmid : ∀ r r', Mid r r' → SinglePatternEnds r r' := fun r r' h =>
    h.elim (fun _ h => (h.lead (by decide)).singlePatternEnds (by
      rw [kind_of_isOp (rfl : "|".toList = ['|']) (by decide) h.1]
      decide)) fun _ h => h.toSinglePatternEnds
  have hmore : Replays m size 1 (fun _ => Mid) (do op "|"; g .singlePattern)
      (do op "|"; g' .singlePattern) (OpThen m "|" Lead) :=
    (op_replays "|" (by decide) Lead).keep Lead
      (fun _ => (hsingle Mid hmid).forget.before fun _ _ h => h.toLead) fun _ _ _ h => h
  have hothers : Replays m size 0 (fun _ => PatternEnds)
      (many isAlternative do op "|"; g .singlePattern)
      (many isAlternative do op "|"; g' .singlePattern) Mid :=
    many_replays hmore (fun _ _ hyes h => isAlternative_replayed h hyes) (fun _ _ hno h => h.bar hno)
      fun _ _ h => h
  have hpattern : ∀ leading, Replays m size 1 (fun _ => PatternEnds)
      (g .singlePattern >>= fun first => (many isAlternative do op "|"; g .singlePattern) >>=
        fun others => if (leading || !others.isEmpty) = true then
          pure (Node.orPattern leading (first :: others)) else pure first)
      (g' .singlePattern >>= fun first => (many isAlternative do op "|"; g' .singlePattern) >>=
        fun others => if (leading || !others.isEmpty) = true then
          pure (Node.orPattern leading (first :: others)) else pure first) (SingleStart Mid) :=
    fun leading => (hsingle Mid hmid).keep Mid (fun first => hothers.bind PatternEnds (fun others =>
      .fixed (fun _ => .pure _) fun _ => .pure _) fun _ _ _ h => h) fun _ _ _ h => h
  unfold pattern
  refine .op? (fun _ _ h => h.toLead) ?_ ((hpattern false).before fun _ _ h => h.toPatternStart)
  refine ((op_known "|").keep Lead (fun _ => (hpattern true).forget.before fun _ _ h => h.toLead)
    fun _ _ _ _ => trivial).before fun u u' h => ?_
  have hkind := kind_of_isOp (rfl : "|".toList = ['|']) (by decide) h.1
  refine ⟨h.2, by rw [hkind]; rfl, .generics_of_lead h.2 (isOp_of_kind rfl (by decide) ?_)⟩
  rw [hkind]
  decide

end ActionUnits.Source
