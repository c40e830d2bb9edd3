import ActionUnits.Proofs.Source.Replay.Pattern
import Mathlib.Data.List.Find

/-! # Replaying operators between operands

An operator is read as long as its characters are joined, so what may follow an
operand is told apart by spacing. What is written keeps each operator together
and apart from what follows, so the second reading finds the same one.
-/

namespace ActionUnits.Source

variable {m : Mode} {size : Nat} {g g' : Grammar} {u u' : List Token}

/-! ## Operators and longer ones -/

/-- The tokens of an operator; the last one may be joined to more. -/
def opTokens (joint : Bool) : List Char → List Token
  | [] => []
  | [c] => [.punct c joint]
  | c :: cs => .punct c true :: opTokens joint cs

theorem operatorChars_eq (text : List Char) : Token.operatorChars text = opTokens false text := by
  induction text with
  | nil => rfl
  | cons c cs ih =>
      cases cs with
      | nil => rfl
      | cons c' cs => simpa [Token.operatorChars, opTokens] using ih

theorem exists_opTokens {text : List Char} (h : nextIsOp text u = true) :
    ∃ joint r, u = opTokens joint text ++ r := by
  fun_induction nextIsOp text u with
  | case1 c d joint rest =>
      obtain rfl := eq_of_beq h
      exact ⟨joint, rest, rfl⟩
  | case2 c cs d rest hcs ih =>
      obtain ⟨hchar, hrest⟩ := (Bool.and_eq_true _ _).mp h
      obtain rfl := eq_of_beq hchar
      obtain ⟨joint, r, rfl⟩ := ih hrest
      cases cs with
      | nil => exact absurd rfl hcs
      | cons c' cs => exact ⟨joint, r, rfl⟩
  | case3 => cases h

theorem length_opTokens (joint : Bool) (text : List Char) :
    (opTokens joint text).length = text.length := by
  induction text with
  | nil => rfl
  | cons c cs ih =>
      cases cs with
      | nil => rfl
      | cons c' cs => simpa [opTokens] using ih

/-- An operator that comes next is the start of the one that was read, or goes on after it. -/
theorem nextIsOp_opTokens {text long : List Char} (joint : Bool) (r : List Token)
    (h : nextIsOp long (opTokens joint text ++ r) = true) (htext : text ≠ []) :
    (∀ joint r, nextIsOp long (opTokens joint text ++ r) = true) ∨
      ∃ c cs, long = text ++ c :: cs ∧ joint = true ∧ nextIsOp (c :: cs) r = true := by
  fun_induction opTokens joint text generalizing long with
  | case1 => exact absurd rfl htext
  | case2 t =>
      match long, h with
      | [l], h => exact .inl fun joint r => h
      | l :: l' :: ls, h =>
          cases joint with
          | false => cases h
          | true =>
              obtain ⟨hchar, hrest⟩ := (Bool.and_eq_true _ _).mp h
              exact .inr ⟨l', ls, by rw [eq_of_beq hchar]; rfl, rfl, hrest⟩
  | case3 t ts hts ih =>
      match long, h with
      | [l], h =>
          refine .inl fun joint r => ?_
          cases ts with
          | nil => exact absurd rfl hts
          | cons t' ts => exact h
      | l :: l' :: ls, h =>
          obtain ⟨hchar, hrest⟩ := (Bool.and_eq_true _ _).mp h
          obtain rfl := eq_of_beq hchar
          cases ts with
          | nil => exact absurd rfl hts
          | cons t' ts =>
              refine (ih hrest (by simp)).imp (fun hall joint r => ?_) ?_
              · simpa [opTokens, nextIsOp] using hall joint r
              · rintro ⟨c, cs, hlong, hjoint, hnext⟩
                exact ⟨c, cs, by rw [hlong]; rfl, hjoint, hnext⟩

/-- An operator that goes on with one more character. -/
theorem nextIsOp_opTokens_append {text : List Char} (htext : text ≠ []) {c : Char} {r : List Token}
    (h : nextIsOp [c] r = true) : nextIsOp (text ++ [c]) (opTokens true text ++ r) = true := by
  fun_induction opTokens true text with
  | case1 => exact absurd rfl htext
  | case2 t => simp [nextIsOp, h]
  | case3 t ts hts ih =>
      cases ts with
      | nil => exact absurd rfl hts
      | cons t' ts => simpa [nextIsOp] using ih (by simp)

theorem OpThen.tokens {text : String} {Post : Follow} (h : OpThen m text Post u u') :
    ∃ joint joint' r r', u = opTokens joint text.toList ++ r ∧
      u' = opTokens joint' text.toList ++ r' ∧ (joint' = true → joint = true) ∧ Post r r' := by
  obtain ⟨hop, r', hpost, rfl⟩ := h
  obtain ⟨joint, r, hu⟩ := exists_opTokens hop
  have hlength : (opTokens joint text.toList).length = text.length := by
    rw [length_opTokens, String.length_toList]
  have htake : u.take text.length = opTokens joint text.toList := by
    rw [hu, List.take_left' hlength]
  have hdrop : u.drop text.length = r := by rw [hu, List.drop_left' hlength]
  rw [hdrop] at hpost
  cases m with
  | written => exact ⟨joint, false, r, r', hu, by rw [← operatorChars_eq]; rfl, nofun, hpost⟩
  | verbatim => exact ⟨joint, joint, r, r', hu, by rw [← htake]; rfl, id, hpost⟩

theorem isOp_of_kind_eq {c : Char} {r : List Token} (hc : c ≠ '\'') (h : kind r = .punct c) :
    nextIsOp [c] r = true := by
  have hop := @isOp_iff_kind r (String.ofList [c]) c (by simp) hc
  simpa [isOp] using hop.mpr h

theorem longOps_char : ∀ long ∈ longOps, '\'' ∉ long.toList := by decide

/-- Less may be joined to an operator in the second reading. -/
theorem OpThen.ops_imp {text : String} (htext : text.toList ≠ []) (h : OpThen m text Lead u u')
    (hlong : ∀ long ∈ longOps, ∀ c cs, long.toList = text.toList ++ c :: cs → cs = []) :
    ∀ long ∈ longOps, Source.isOp long u' = true → Source.isOp long u = true := by
  obtain ⟨joint, joint', r, r', rfl, rfl, hjoint, hlead⟩ := h.tokens
  intro long hmem hop
  rcases nextIsOp_opTokens joint' r' hop htext with hall | ⟨c, cs, hchars, rfl, hnext⟩
  · exact hall joint r
  · obtain rfl := hlong long hmem c cs hchars
    obtain rfl := hjoint rfl
    have hc : c ≠ '\'' := by
      rintro rfl
      exact longOps_char long hmem (by rw [hchars]; simp)
    have hkind : kind r' = .punct c := by
      obtain ⟨joint, rest, rfl⟩ := exists_of_nextIsOp hnext
      exact kind_punct hc _ _
    rw [Source.isOp, hchars]
    exact nextIsOp_opTokens_append htext (isOp_of_kind_eq hc (hlead.kind_eq.trans hkind))

/-- No longer operator is taken for one that was read because no longer one came next. -/
theorem OpThen.edge {text : String} (htext : text.toList ≠ []) (h : OpThen m text Lead u u')
    (hlead : Lead u u') (hmax : ∀ long ∈ longOps, ∀ c cs, long.toList = text.toList ++ c :: cs →
      nextIsOp (text.toList ++ [c]) u = false) : Edge u u' := by
  refine ⟨hlead, fun long hmem => ?_⟩
  obtain ⟨joint, joint', r, r', rfl, rfl, hjoint, hrest⟩ := h.tokens
  have hc : ∀ {c cs}, long.toList = text.toList ++ c :: cs → c ≠ '\'' := by
    rintro c cs hchars rfl
    exact longOps_char long hmem (by rw [hchars]; simp)
  have hfirst : ∀ {c cs} {r : List Token}, nextIsOp (c :: cs) r = true → c ≠ '\'' →
      kind r = .punct c := by
    intro c cs r hnext hne
    obtain ⟨joint, rest, rfl⟩ := exists_of_nextIsOp hnext
    exact kind_punct hne _ _
  have hno : ∀ {c cs}, long.toList = text.toList ++ c :: cs → joint = true →
      kind r = .punct c → False := by
    rintro c cs hchars rfl hkind
    have hyes := nextIsOp_opTokens_append htext (isOp_of_kind_eq (hc hchars) hkind)
    rw [hmax long hmem c cs hchars] at hyes
    cases hyes
  rw [Bool.eq_iff_iff]
  constructor
  · intro hop
    rcases nextIsOp_opTokens joint r hop htext with hall | ⟨c, cs, hchars, hjoint, hnext⟩
    · exact hall joint' r'
    · exact (hno hchars hjoint (hfirst hnext (hc hchars))).elim
  · intro hop
    rcases nextIsOp_opTokens joint' r' hop htext with hall | ⟨c, cs, hchars, hjoint', hnext⟩
    · exact hall joint r
    · exact (hno hchars (hjoint hjoint')
        (hrest.kind_eq.trans (hfirst hnext (hc hchars)))).elim

/-! ## The operator that comes next -/

/-- An operator that goes on as a longer one is the start of an operator itself, except that `->`
is none between operands. -/
theorem binaryOperators_extension : ∀ entry ∈ binaryOperators, ∀ long ∈ longOps,
    entry.1.toList <+: long.toList → entry.1.toList ≠ long.toList →
      (entry.1 = "-" ∧ long = "->") ∨ ∃ longer ∈ binaryOperators,
        longer.1.toList = long.toList.take (entry.1.toList.length + 1) := by
  decide

/-- No operator comes in the list before one that it begins. -/
theorem binaryOperators_longer_first : binaryOperators.Pairwise fun entry later =>
    ¬(entry.1.toList <+: later.1.toList) := by
  decide

/-- No longer operator than the one that is found comes next. -/
theorem nextOperator_longest {text : String} {strength : Precedence}
    (h : nextOperator u = some (text, strength)) {long : String} (hmem : long ∈ longOps) {c : Char}
    {cs : List Char} (hlong : long.toList = text.toList ++ c :: cs)
    (harrow : text = "-" → c ≠ '>') : nextIsOp (text.toList ++ [c]) u = false := by
  obtain ⟨-, before, after, heq, hbefore⟩ := List.find?_eq_some_iff_append.mp h
  have hentry : (text, strength) ∈ binaryOperators := by
    rw [heq]
    simp
  rcases binaryOperators_extension _ hentry long hmem ⟨c :: cs, hlong.symm⟩ (by simp [hlong]) with
    ⟨rfl, rfl⟩ | ⟨longer, hlonger, hchars⟩
  · simp only [List.cons.injEq, String.reduceToList, List.cons_append, List.nil_append] at hlong
    exact absurd hlong.2.1.symm (harrow rfl)
  · have hchars : longer.1.toList = text.toList ++ [c] := by
      rw [hchars, hlong, List.take_length_add_append]
      rfl
    have horder := binaryOperators_longer_first
    rw [heq] at hlonger horder
    rw [List.mem_append, List.mem_cons] at hlonger
    rcases hlonger with hearlier | rfl | hlater
    · rw [← hchars]
      simpa [isOp] using hbefore longer hearlier
    · simp at hchars
    · have hno := List.rel_of_pairwise_cons (List.pairwise_append.mp horder).2.1 hlater
      exact absurd (by rw [hchars]; exact List.prefix_append _ _) hno

/-- Both readings go on with an operator between operands. -/
theorem OpThen.lead_operator {text : String} {strength : Precedence}
    (hentry : (text, strength) ∈ binaryOperators) (h : OpThen m text Lead u u') : Lead u u' := by
  have hplain : ∀ entry ∈ binaryOperators,
      isPlainOp entry.1 = true ∨ entry.1 = "-" ∨ entry.1 = "-=" := by decide
  rcases hplain _ hentry with hplain | rfl | rfl
  · exact h.lead hplain
  · obtain ⟨joint, joint', r, r', rfl, rfl, -, hlead⟩ := h.single '-' rfl
    exact .minus hlead.kind_eq _ _
  · have hop' := h.isOp (by decide)
    obtain ⟨joint, r, rfl⟩ := @exists_of_isOp_two "-=" '-' '=' rfl _ h.1
    obtain ⟨joint', r', rfl⟩ := @exists_of_isOp_two "-=" '-' '=' rfl _ hop'
    exact .minus (by rfl) _ _

/-- The next operator is one of the list. -/
theorem nextOperator_mem {text : String} {strength : Precedence}
    (h : nextOperator u = some (text, strength)) : (text, strength) ∈ binaryOperators :=
  List.mem_of_find?_eq_some h

theorem toList_ne_nil_of_isOp {text : String} (h : isOp text u = true) : text.toList ≠ [] :=
  ne_nil_of_nextIsOp h

/-- An operator between operands is found again. -/
theorem OpThen.edge_operator {text : String} {strength : Precedence} (h : OpThen m text Start u u')
    (hnext : nextOperator u = some (text, strength)) : Edge u u' := by
  have hrest := h.drop
  have hlead := h.mono fun _ _ h => h.toLead
  refine hlead.edge (toList_ne_nil_of_isOp h.1) (hlead.lead_operator (nextOperator_mem hnext))
    fun long hmem c cs hlong => ?_
  by_cases harrow : text = "-" ∧ c = '>'
  · -- An operand does not start with what would make an arrow of a minus sign.
    obtain ⟨rfl, rfl⟩ := harrow
    refine Bool.eq_false_iff.mpr fun hyes => ?_
    obtain ⟨joint, r, rfl⟩ := @exists_of_isOp_two "->" '-' '>' rfl _ hyes
    have hstarts := hrest.starts
    change startsExpr (kind (.punct '>' joint :: r)) = true at hstarts
    rw [kind_punct (by decide)] at hstarts
    cases hstarts
  · exact nextOperator_longest hnext hmem hlong fun htext hc => harrow ⟨htext, hc⟩

theorem OpThen.edge_assign (h : OpThen m "=" Start u u') (hnext : nextOperator u = none)
    (hassign : isAssign u = true) : Edge u u' := by
  have hlead := h.mono fun _ _ h => h.toLead
  refine hlead.edge (by decide) (h.lead (by decide)) fun long hmem c cs hlong => ?_
  have hlonger : ∀ long ∈ longOps, "=".toList <+: long.toList → "=".toList ≠ long.toList →
      long = "==" ∨ long = "=>" := by decide
  rcases hlonger long hmem ⟨c :: cs, hlong.symm⟩ (by simp [hlong]) with rfl | rfl
  · have hno := List.find?_eq_none.mp hnext ("==", .compare) (by decide)
    obtain ⟨rfl, rfl⟩ : c = '=' ∧ cs = [] := by simpa [eq_comm] using hlong
    simpa [Source.isOp] using hno
  · have hno : Source.isOp "=>" u = false := by
      simpa [isAssign, Peek.butNot] using ((Bool.and_eq_true _ _).mp hassign).2
    obtain ⟨rfl, rfl⟩ : c = '>' ∧ cs = [] := by simpa [eq_comm] using hlong
    exact hno

/-! ## What extends an operand -/

/-- What is asked about the tokens after an operand: which operator comes next, and whether an
assignment, a range or a cast does. -/
def glance (tokens : List Token) : Option (String × Precedence) × Bool × Bool × Bool :=
  (nextOperator tokens, isAssign tokens, isOp ".." tokens, isWord "as" tokens)

theorem Edge.isOp_operator (h : Edge u u') {entry : String × Precedence}
    (hentry : entry ∈ binaryOperators) : isOp entry.1 u' = isOp entry.1 u := by
  have hsingle : ∀ entry ∈ binaryOperators, entry.1 ∈ longOps ∨
      entry.1.toList ∈ ['+', '-', '*', '/', '%', '^', '&', '|', '<', '>'].map ([·]) := by decide
  rcases hsingle entry hentry with hlong | hshort
  · exact (h.ops _ hlong).symm
  · obtain ⟨c, hc, htext⟩ := List.mem_map.mp hshort
    have hquote : c ≠ '\'' := by
      rintro rfl
      revert hc
      decide
    exact ((Headed.single htext.symm hquote).eq_of_kind_eq h.kind_eq).symm

/-- At an edge the next operator is clear. -/
theorem Edge.nextOperator_eq (h : Edge u u') : nextOperator u' = nextOperator u :=
  List.find?_congr fun _ hentry => h.isOp_operator hentry

theorem Edge.isAssign_eq (h : Edge u u') : isAssign u' = isAssign u := by
  rw [isAssign, Peek.butNot, Peek.butNot, (Stable.eq_of_lead h.toLead : isOp "=" u = isOp "=" u'),
    h.ops "=>" (by decide)]

theorem Edge.glance_eq (h : Edge u u') : glance u' = glance u := by
  rw [glance, glance, h.nextOperator_eq, h.isAssign_eq, h.dots_eq,
    (Stable.eq_of_lead h.toLead : isWord "as" u = isWord "as" u')]

theorem Edge.nextStrength_eq (h : Edge u u') : nextStrength u' = nextStrength u := by
  unfold nextStrength
  rw [h.nextOperator_eq, h.isAssign_eq, h.dots_eq,
    (Stable.eq_of_lead h.toLead : isWord "as" u = isWord "as" u')]

/-- Whether an operand is extended no further at this binding strength. -/
def stops (base : Precedence) (tokens : List Token) : Bool :=
  match nextOperator tokens with
  | some (_, strength) => strength.rank < base.rank
  | none => !(base.rank ≤ Precedence.assign.rank && isAssign tokens) &&
      !(base.rank ≤ Precedence.range.rank && isOp ".." tokens) &&
      !(base.rank ≤ Precedence.cast.rank && isWord "as" tokens)

/-- Where the weakest operators are read, none is left. -/
theorem isEnd_of_stops (h : stops .jump u = true) : IsEnd u := by
  unfold stops at h
  cases hnext : nextOperator u with
  | some entry => simp [hnext, Precedence.rank] at h
  | none =>
      simp only [hnext, Precedence.rank, Bool.and_eq_true, Bool.not_eq_true'] at h
      exact ⟨hnext, by simpa using h.1.1, by simpa using h.1.2, by simpa using h.2⟩

instance : Stable isCastTrailer :=
  inferInstanceAs (Stable (anyOf [(isOp ".").butNot (isOp ".."), isOp "?", isGroup .bracket,
    isGroup .paren]))

/-- The operators that end an open range, and that spacing tells from longer ones. -/
def rangeStops : List String := ["=>", "<=", "!=", "-=", "*=", "&=", "|=", "<<="]

/-- Whether an open range ends here, by a token that needs no further look. -/
def isPlainRangeEnd (braces : Bool) : Peek :=
  anyOf [List.isEmpty, (isOp ".").butNot (isOp ".."), isOp ",", isOp ";", isOp "?", isOp "=",
    isOp "+", isOp "/", isOp "%", isOp "^", isOp ">", isWord "as",
    Peek.and (fun _ => !braces) (isGroup .brace)]

instance (braces : Bool) : Stable (isPlainRangeEnd braces) :=
  inferInstanceAs (Stable (anyOf [List.isEmpty, (isOp ".").butNot (isOp ".."), isOp ",", isOp ";",
    isOp "?", isOp "=", isOp "+", isOp "/", isOp "%", isOp "^", isOp ">", isWord "as",
    Peek.and (fun _ => !braces) (isGroup .brace)]))

theorem isRangeEnd_eq (braces : Bool) (u : List Token) :
    isRangeEnd braces u = (isPlainRangeEnd braces u || isAnyOp rangeStops u) := by
  simp only [isRangeEnd, isPlainRangeEnd, rangeStops, anyOf, isAnyOp, Peek.and, List.any_cons,
    List.any_nil, Bool.or_false]
  ac_rfl

/-- At an edge it is clear whether a range ends. -/
theorem Edge.isRangeEnd_eq (h : Edge u u') (braces : Bool) :
    isRangeEnd braces u' = isRangeEnd braces u := by
  have hops : isAnyOp rangeStops u' = isAnyOp rangeStops u := by
    have hlong : ∀ text ∈ rangeStops, text ∈ longOps := by decide
    rw [isAnyOp, isAnyOp, Bool.eq_iff_iff, List.any_eq_true, List.any_eq_true]
    exact exists_congr fun text => and_congr_right fun hmem => by rw [h.ops text (hlong text hmem)]
  rw [Source.isRangeEnd_eq, Source.isRangeEnd_eq, hops,
    (Stable.eq_of_lead h.toLead : isPlainRangeEnd braces u = _)]

theorem Start.isRangeEnd (h : Start u u') (braces : Bool) : Absent (isRangeEnd braces) u u' := by
  refine .of_imp fun hyes => ?_
  rw [isRangeEnd_eq, Bool.or_eq_true] at hyes ⊢
  refine hyes.imp (fun hplain => (Stable.eq_of_lead h.toLead).trans hplain) fun hops => ?_
  obtain ⟨text, hmem, hop⟩ := List.any_eq_true.mp hops
  have hlong : ∀ text ∈ rangeStops, text ∈ longOps := by decide
  exact List.any_eq_true.mpr ⟨text, hmem, h.ops text (hlong text hmem) hop⟩

/-- The end of a range is read the same again. -/
theorem rangeEnd_replays (hg : Knot m size g g') (closed braces : Bool) :
    Replays m size 0 (fun _ => Edge) (rangeEnd g closed braces) (rangeEnd g' closed braces)
      Lead := by
  have hoperand := (hg.operand braces .range).forget.wrap (f := some)
  unfold rangeEnd
  cases closed with
  | true => exact (Replays.ignore hoperand).before fun _ _ h => h.toLead
  | false =>
      refine .before (.choice ?_ ?_ ?_ : Replays _ _ _ _ _ _ (Either (isRangeEnd braces) Edge Start))
        fun u u' h => h.elim (fun _ h => h.toLead) fun _ h => h.toLead
      · exact (Replays.pure none).before fun u u' h hyes => .yes hyes h
      · exact hoperand.before fun u u' h hno => .no hno h
      · exact fun u u' h => h.elim (fun _ h => h.isRangeEnd_eq braces)
          fun hno h => (h.isRangeEnd braces hno).trans hno.symm

/-! ## Operands and operators -/

/-- Reads what a glance at the tokens after an operand has found, if it extends the operand. -/
def extension (g : Grammar) (braces : Bool) (base : Precedence) (left : Node) :
    Option (String × Precedence) × Bool × Bool × Bool → Parser (Option Node)
  | (some (text, strength), _, _, _) =>
    if strength.rank < base.rank then return none
    else do
      require (!(strength == .compare && isComparison left))
      op text
      return some (.binary left text (← g (.operand braces strength)))
  | (none, assigns, ranges, casts) => do
    if base.rank ≤ Precedence.assign.rank && assigns then
      op "="
      return some (.assign left (← g (.operand braces .assign)))
    else if base.rank ≤ Precedence.range.rank && ranges then
      let closed ← rangeLimits false
      return some (.range (some left) closed (← rangeEnd g closed braces))
    else if base.rank ≤ Precedence.cast.rank && casts then
      word "as"
      let ty ← g (.ty false)
      require (!(← peek isCastTrailer))
      return some (.cast left ty)
    else return none

/-- The right side of a binary operator is read the same again. -/
theorem binary_replays {β : Type} {Post : β → Follow} (hg : Knot m size g g') (braces : Bool)
    (text : String) (strength : Precedence) {f : Node → β}
    (hf : ∀ a r r', Post (f a) r r' → Edge r r') :
    Replays m size 1 Post
      (op text >>= fun _ => g (.operand braces strength) >>= fun right => pure (f right))
      (op text >>= fun _ => g' (.operand braces strength) >>= fun right => pure (f right))
      (OpThen m text Start) :=
  (op_then text Start).keep Start (fun _ => (hg.operand braces strength).forget.result hf)
    fun _ _ _ h => h

/-- A range is read the same again behind its left side. -/
theorem rangeTo_replays {β : Type} {Post : β → Follow} (hg : Knot m size g g') (braces : Bool)
    {f : Bool → Option Node → β} (hf : ∀ closed stop r r', Post (f closed stop) r r' → Edge r r') :
    Replays m size 1 Post
      (rangeLimits false >>= fun closed => rangeEnd g closed braces >>= fun stop =>
        pure (f closed stop))
      (rangeLimits false >>= fun closed => rangeEnd g' closed braces >>= fun stop =>
        pure (f closed stop)) DotsStart :=
  (rangeLimits_replays false).keep Lead
    (fun closed => (rangeEnd_replays hg closed braces).result (hf closed))
    fun _ _ _ h _ _ => ⟨.of_stable h, .of_stable h⟩

/-- A cast is read the same again behind its left side. -/
theorem cast_replays {β : Type} {Post : β → Follow} (hg : Knot m size g g') {f : Node → β}
    (hf : ∀ a r r', Post (f a) r r' → Edge r r') :
    Replays m size 1 Post
      (word "as" >>= fun _ => g (.ty false) >>= fun ty => peek isCastTrailer >>= fun trailer =>
        require (!trailer) >>= fun _ => pure (f ty))
      (word "as" >>= fun _ => g' (.ty false) >>= fun ty => peek isCastTrailer >>= fun trailer =>
        require (!trailer) >>= fun _ => pure (f ty))
      fun u u' => isWord "as" u = true ∧ Lead u u' := by
  refine (word_known "as").keep (TypeStart Edge) (fun _ => ?_) fun _ _ _ _ => trivial
  refine (hg.ty false Edge fun _ _ h => h.typeEnds).forget.bind Edge (fun ty => ?_)
    fun _ _ _ h => h
  refine .demand not ((Replays.pure (f ty)).before (hf ty)) fun u u' h hno => ?_
  exact (congrArg not (Stable.eq_of_lead h.toLead)).symm.trans hno

theorem DotsStart.edge (h : DotsStart u u') : Edge u u' := by
  refine h.2.edge ?_
  rw [kind_of_isOp (rfl : "..".toList = ['.', '.']) (by decide) h.1]
  rfl

theorem Lead.edge_of_word {text : String} (h : Lead u u') (hword : isWord text u = true) :
    Edge u u' :=
  h.edge (by rw [kind_of_isWord hword]; rfl)

/-- Whatever goes on with an expression is read the same again. -/
theorem extension_replays (hg : Knot m size g g') (braces : Bool) (base : Precedence) (left : Node)
    {None : Follow} (hNone : ∀ r r', None r r' → stops base r = true → Edge r r')
    (answer : Option (String × Precedence) × Bool × Bool × Bool) :
    Replays m size 0 (OnSome (fun _ => Edge) None) (extension g braces base left answer)
      (extension g' braces base left answer) fun u u' => glance u = answer → Edge u u' := by
  obtain ⟨_ | ⟨text, strength⟩, assigns, ranges, casts⟩ := answer
  · refine .fixed (fun hassign => ?_) fun hassign => .fixed (fun hrange => ?_) fun hrange =>
      .fixed (fun hcast => ?_) fun hcast => ?_
    · refine (binary_replays hg braces "=" .assign fun _ _ _ h => h).forget.before
        fun u u' h hglance => ?_
      obtain ⟨hnext, hassigns, -⟩ : nextOperator u = none ∧ isAssign u = assigns ∧ _ := by
        simpa [glance] using hglance
      exact h.edge_assign hnext (hassigns.trans ((Bool.and_eq_true _ _).mp hassign).2)
    · exact (rangeTo_replays hg braces fun _ _ _ _ h => h).forget.before fun u u' h _ => h.edge
    · exact (cast_replays hg fun _ _ _ h => h).forget.before fun u u' h _ => h.2.edge_of_word h.1
    · refine (Replays.pure none).before fun u u' h hglance => hNone u u' h ?_
      obtain ⟨hnext, rfl, rfl, rfl⟩ : nextOperator u = none ∧ isAssign u = assigns ∧
          isOp ".." u = ranges ∧ isWord "as" u = casts := by
        simpa [glance] using hglance
      simp only [Bool.not_eq_true] at hassign hrange hcast
      simp only [stops, hnext, hassign, hrange, hcast, Bool.not_false, Bool.and_self]
  · refine .fixed (fun hweak => ?_) fun hstrong => .given fun _ => ?_
    · refine (Replays.pure none).before fun u u' h hglance => hNone u u' h ?_
      have hnext : nextOperator u = some (text, strength) := congrArg Prod.fst hglance
      simp [stops, hnext, hweak]
    · exact (binary_replays hg braces text strength fun _ _ _ h => h).forget.before
        fun u u' h hglance => h.edge_operator (congrArg Prod.fst hglance)

/-- Whatever goes on with an expression reads something. -/
theorem extension_moves (hg : Knot m size g g') (braces : Bool) (base : Precedence) (left : Node)
    (answer : Option (String × Precedence) × Bool × Bool × Bool) :
    Moves m (extension g braces base left answer) := by
  obtain ⟨_ | ⟨text, strength⟩, assigns, ranges, casts⟩ := answer
  · exact .ite (.of_replays (binary_replays hg braces "=" .assign fun _ _ _ h => h :
        Replays m size 1 (fun _ => Edge) _ _ _))
      (.ite (.of_replays (rangeTo_replays hg braces fun _ _ _ _ h => h :
          Replays m size 1 (fun _ => Edge) _ _ _))
        (.ite (.of_replays (cast_replays hg fun _ _ _ h => h :
          Replays m size 1 (fun _ => Edge) _ _ _)) .none))
  · exact .ite .none (.of_replays (.given fun _ => binary_replays hg braces text strength
      fun _ _ _ h => h : Replays m size 1 (fun _ => Edge) _ _ _))

end ActionUnits.Source
