import ActionUnits.Proofs.Source.Replay

/-! # Replaying single tokens

Words, operators, literals and groups are read back whatever follows them. An
operator is written without spaces and not joined to what follows, so its lead
is the one that was read, except that less may be joined to it.
-/

namespace ActionUnits.Source

variable {α β : Type} {m : Mode} {size least : Nat} {c d : Cursor}

/-! ## Operators -/

theorem nextIsOp_length {text : List Char} {u : List Token} (h : nextIsOp text u = true) :
    text.length ≤ u.length := by
  fun_induction nextIsOp text u with
  | case1 c d joint rest => simp
  | case2 c cs d rest hcs ih =>
      simp only [Bool.and_eq_true] at h
      have := ih h.2
      simp only [List.length_cons]
      omega
  | case3 => cases h

/-- Only the tokens of an operator matter for whether it comes next. -/
theorem nextIsOp_take {text : List Char} {u : List Token} (h : nextIsOp text u = true)
    (rest : List Token) : nextIsOp text (u.take text.length ++ rest) = true := by
  fun_induction nextIsOp text u with
  | case1 c d joint rest => simpa [nextIsOp] using h
  | case2 c cs d rest hcs ih =>
      simp only [Bool.and_eq_true] at h
      simp only [List.length_cons, List.take_succ_cons, List.cons_append]
      cases cs with
      | nil => exact absurd rfl hcs
      | cons c' cs => simp only [nextIsOp, h.1, ih h.2, Bool.and_self]
  | case3 => cases h

theorem nextIsOp_operatorChars {text : List Char} (htext : text ≠ []) (rest : List Token) :
    nextIsOp text (Token.operatorChars text ++ rest) = true := by
  induction text with
  | nil => exact absurd rfl htext
  | cons c cs ih =>
      cases cs with
      | nil => simp [Token.operatorChars, nextIsOp]
      | cons c' cs => simpa [Token.operatorChars, nextIsOp] using ih (by simp)

theorem length_operatorChars (text : List Char) :
    (Token.operatorChars text).length = text.length := by
  induction text with
  | nil => rfl
  | cons c cs ih =>
      cases cs with
      | nil => rfl
      | cons c' cs => simpa [Token.operatorChars] using ih

theorem exists_of_nextIsOp {char : Char} {chars : List Char} {u : List Token}
    (h : nextIsOp (char :: chars) u = true) : ∃ joint rest, u = .punct char joint :: rest := by
  unfold nextIsOp at h
  split at h
  next heq =>
      obtain ⟨rfl, -⟩ := List.cons.inj heq
      exact ⟨_, _, by rw [eq_of_beq h]⟩
  next heq =>
      obtain ⟨rfl, rfl⟩ := List.cons.inj heq
      simp only [Bool.and_eq_true] at h
      exact ⟨_, _, by rw [eq_of_beq h.1]⟩
  next => cases h

/-- An operator is read if it stands there; it is written with its own spacing. -/
theorem op_eq_some {text : String} {u : Unit} :
    op text c = some (u, d) ↔ isOp text c.rest = true ∧
      d = ⟨c.rest.drop text.length, (Token.operator text).reverse ++ c.written⟩ := by
  unfold op
  rw [peek_bind_apply, bind_eq_some]
  constructor
  · rintro ⟨_, e, hrequire, hrun⟩
    obtain ⟨hop, rfl⟩ := require_eq_some.mp hrequire
    rw [bind_of_eq_some (skip_apply _), write_apply] at hrun
    exact ⟨hop, ((Prod.mk.inj (Option.some.inj hrun)).2).symm⟩
  · rintro ⟨hop, rfl⟩
    refine ⟨(), c, require_eq_some.mpr ⟨hop, rfl⟩, ?_⟩
    rw [bind_of_eq_some (skip_apply _), write_apply]

theorem op?_cases {text : String} {b : Bool} (h : op? text c = some (b, d)) :
    (b = false ∧ isOp text c.rest = false ∧ d = c) ∨
    (b = true ∧ isOp text c.rest = true ∧
      d = ⟨c.rest.drop text.length, (Token.operator text).reverse ++ c.written⟩) := by
  unfold op? at h
  rw [peek_bind_apply] at h
  split at h
  next hyes =>
      obtain ⟨_, e, hop, hpure⟩ := bind_eq_some.mp h
      obtain ⟨rfl, rfl⟩ := pure_eq_some.mp hpure
      exact .inr ⟨rfl, op_eq_some.mp hop⟩
  next hno =>
      obtain ⟨rfl, rfl⟩ := pure_eq_some.mp h
      exact .inl ⟨rfl, by simpa using hno, rfl⟩

theorem op?_apply_false {text : String} (h : isOp text c.rest = false) :
    op? text c = some (false, c) := by
  rw [op?, peek_bind_apply, h]
  rfl

theorem op?_apply_true {text : String} (h : isOp text c.rest = true) :
    op? text c =
      some (true, ⟨c.rest.drop text.length, (Token.operator text).reverse ++ c.written⟩) := by
  rw [op?, peek_bind_apply, h]
  exact bind_eq_some.mpr ⟨(), _, op_eq_some.mpr ⟨h, rfl⟩, rfl⟩

/-- An operator in both readings, with what follows it. -/
def OpThen (m : Mode) (text : String) (Post : Follow) : Follow :=
  fun u u' => isOp text u = true ∧ ∃ rest, Post (u.drop text.length) rest ∧
    u' = m.pick (u.take text.length) (Token.operator text) ++ rest

theorem OpThen.isOp {text : String} (htext : text.toList ≠ []) {Post : Follow} {u u' : List Token}
    (h : OpThen m text Post u u') : isOp text u' = true := by
  obtain ⟨hop, rest, -, rfl⟩ := h
  cases m with
  | written => exact nextIsOp_operatorChars htext rest
  | verbatim =>
      have := nextIsOp_take hop rest
      rwa [String.length_toList] at this

theorem OpThen.drop {text : String} {Post : Follow} {u u' : List Token}
    (h : OpThen m text Post u u') : Post (u.drop text.length) (u'.drop text.length) := by
  obtain ⟨hop, rest, hpost, rfl⟩ := h
  have hlength : (m.pick (u.take text.length) (Token.operator text)).length = text.length := by
    cases m with
    | written => exact (length_operatorChars _).trans (String.length_toList)
    | verbatim =>
        have := nextIsOp_length hop
        rw [String.length_toList] at this
        exact List.length_take_of_le this
  rwa [List.drop_left' hlength]

theorem OpThen.single {text : String} {Post : Follow} {u u' : List Token}
    (h : OpThen m text Post u u') (char : Char) (htext : text.toList = [char]) :
    ∃ joint joint' rest rest', u = .punct char joint :: rest ∧
      u' = .punct char joint' :: rest' ∧ (joint' = true → joint = true) ∧ Post rest rest' := by
  obtain ⟨hop, rest', hpost, rfl⟩ := h
  have hlength : text.length = 1 := by rw [← String.length_toList, htext]; rfl
  rw [Source.isOp, htext] at hop
  obtain ⟨joint, rest, rfl⟩ := exists_of_nextIsOp hop
  rw [hlength] at hpost ⊢
  cases m with
  | written =>
      refine ⟨joint, false, rest, rest', rfl, ?_, fun h => absurd h Bool.false_ne_true, hpost⟩
      simp [Mode.pick, Token.operator, htext, Token.operatorChars]
  | verbatim => exact ⟨joint, joint, rest, rest', rfl, rfl, id, hpost⟩

/-- An operator is read the same again, with what must follow it. -/
theorem op_replays (text : String) (htext : text.toList ≠ []) (Post : Follow) :
    Replays m size text.length (fun _ => Post) (op text) (op text) (OpThen m text Post) := by
  intro c a d hrun
  obtain ⟨hop, rfl⟩ := op_eq_some.mp hrun
  have hlength := nextIsOp_length hop
  rw [String.length_toList] at hlength
  have hwritten : (Token.operator text).length = text.length := by
    rw [Token.operator, length_operatorChars, String.length_toList]
  refine ⟨c.rest.take text.length, Token.operator text, (List.take_append_drop _ _).symm, rfl,
    ?_, Nat.le_of_eq hwritten.symm, fun rest hrest _ => ?_⟩
  · rw [List.length_take]
    omega
  have hstart : OpThen m text Post c.rest
      (m.pick (c.rest.take text.length) (Token.operator text) ++ rest) := ⟨hop, rest, hrest, rfl⟩
  refine ⟨hstart, fun z => op_eq_some.mpr ⟨hstart.isOp htext, ?_⟩⟩
  have hpick : (m.pick (c.rest.take text.length) (Token.operator text)).length = text.length := by
    cases m with
    | written => exact hwritten
    | verbatim =>
        simp only [Mode.pick, List.length_take]
        omega
  have hdrop : (m.pick (c.rest.take text.length) (Token.operator text) ++ rest).drop text.length =
      rest := List.drop_left' hpick
  simp only [hdrop]

theorem ne_nil_of_nextIsOp {text : List Char} {u : List Token} (h : nextIsOp text u = true) :
    text ≠ [] := by
  rintro rfl
  cases u with
  | nil => cases h
  | cons token rest =>
      cases token with
      | punct char joint => cases joint <;> cases h
      | ident name => cases h
      | literal text => cases h
      | group delimiter body => cases h

/-- An operator that need not be known. -/
theorem op_then (text : String) (Post : Follow) :
    Replays m size 1 (fun _ => Post) (op text) (op text) (OpThen m text Post) := by
  by_cases htext : text.toList = []
  · intro c a d hrun
    exact absurd htext (ne_nil_of_nextIsOp (op_eq_some.mp hrun).1)
  · refine (op_replays text htext Post).weaken (fun _ _ _ h => h) (fun _ _ h => h) (Nat.le_refl _) ?_
    rw [← String.length_toList]
    exact List.length_pos_iff.mpr htext

/-- Whether the first character of an operator starts no question about further tokens. -/
def isPlainOp (text : String) : Bool :=
  text.toList.head?.any fun char => !(['\'', ':', '.', '-'].contains char)

/-- A plain operator starts both texts alike. -/
theorem OpThen.lead {text : String} (htext : isPlainOp text = true) {Post : Follow}
    {u u' : List Token} (h : OpThen m text Post u u') : Lead u u' := by
  have hne : text.toList ≠ [] := by
    intro hnil
    rw [isPlainOp, hnil] at htext
    cases htext
  have hop := h.1
  have hop' := h.isOp hne
  unfold isPlainOp at htext
  unfold Source.isOp at hop hop'
  cases hchars : text.toList with
  | nil => exact absurd hchars hne
  | cons char chars =>
      rw [hchars] at hop hop' htext
      have hchar : char ∉ ['\'', ':', '.', '-'] := by simpa using htext
      obtain ⟨joint, rest, rfl⟩ := exists_of_nextIsOp hop
      obtain ⟨joint', rest', rfl⟩ := exists_of_nextIsOp hop'
      exact .punct hchar joint joint' rest rest'

/-- An operator that is read back whatever follows. -/
theorem op_closed (text : String) (htext : isPlainOp text = true := by decide) :
    Replays m size 1 (fun _ => Any) (op text) (op text) Lead := by
  have hne : text.toList ≠ [] := by
    intro hnil
    rw [isPlainOp, hnil] at htext
    cases htext
  refine (op_replays text hne Any).weaken (fun _ _ _ h => h) (fun _ _ h => h.lead htext)
    (Nat.le_refl _) ?_
  rw [← String.length_toList]
  exact List.length_pos_iff.mpr hne

/-- An operator that is read back whatever follows, and that is known to come next. -/
theorem op_known (text : String) (htext : isPlainOp text = true := by decide) :
    Replays m size 1 (fun _ => Any) (op text) (op text)
      fun u u' => isOp text u = true ∧ Lead u u' :=
  (op_closed text htext).noting fun h => (op_eq_some.mp h).1

/-! ## Words -/

theorem anyWord_eq_some {name : Ident} :
    anyWord c = some (name, d) ↔ c.rest = .ident name :: d.rest ∧
      d.written = .ident name :: c.written := by
  unfold anyWord
  rw [bind_eq_some]
  constructor
  · rintro ⟨token, e, htake, hrun⟩
    obtain ⟨hrest, hwritten⟩ := take_eq_some.mp htake
    cases token with
    | ident other =>
        simp only [bind_of_eq_some (write_apply _), pure_apply, Option.some.injEq,
          Prod.mk.injEq] at hrun
        obtain ⟨rfl, rfl⟩ := hrun
        exact ⟨hrest, by simp [hwritten]⟩
    | punct char joint => cases hrun
    | literal text => cases hrun
    | group delimiter body => cases hrun
  · rintro ⟨hrest, hwritten⟩
    refine ⟨.ident name, ⟨d.rest, c.written⟩, take_eq_some.mpr ⟨hrest, rfl⟩, ?_⟩
    simp [bind_of_eq_some (write_apply _), ← hwritten]

/-- The same word in both readings, with what follows it. -/
def WordThen (Post : Follow) : Follow :=
  fun u u' => ∃ name rest rest', u = .ident name :: rest ∧ u' = .ident name :: rest' ∧
    Post rest rest'

theorem WordThen.lead {Post : Follow} {u u' : List Token} (h : WordThen Post u u') :
    Lead u u' := by
  obtain ⟨name, rest, rest', rfl, rfl, -⟩ := h
  exact .word name rest rest'

/-- A word is read the same again, with what must follow it. -/
theorem anyWord_replays (Post : Follow) :
    Replays m size 1 (fun _ => Post) anyWord anyWord (WordThen Post) := by
  intro c name d hrun
  obtain ⟨hrest, hwritten⟩ := anyWord_eq_some.mp hrun
  refine ⟨[.ident name], [.ident name], hrest, hwritten, Nat.le_refl _, Nat.le_refl _,
    fun rest hfollow _ => ?_⟩
  rw [Mode.pick_self]
  refine ⟨⟨name, d.rest, rest, hrest, rfl, hfollow⟩, fun z => ?_⟩
  exact anyWord_eq_some.mpr ⟨rfl, rfl⟩

theorem require_peek_bind {question : Peek} {p : Parser α} {x : α × Cursor} :
    (peek question >>= fun b => require b >>= fun _ => p) c = some x ↔
      question c.rest = true ∧ p c = some x := by
  obtain ⟨a, d⟩ := x
  rw [peek_bind_apply, bind_eq_some]
  constructor
  · rintro ⟨_, e, hrequire, hrun⟩
    obtain ⟨hquestion, rfl⟩ := require_eq_some.mp hrequire
    exact ⟨hquestion, hrun⟩
  · rintro ⟨hquestion, hrun⟩
    exact ⟨(), c, require_eq_some.mpr ⟨hquestion, rfl⟩, hrun⟩

/-- A parser that first makes sure of an answer, which the second reading bears out. -/
theorem Replays.demand {Post : α → Follow} {Pre : Follow} {p p' : Parser α} {question : Peek}
    (wanted : Bool → Bool) (hp : Replays m size least Post p p' Pre)
    (hanswer : ∀ u u', Pre u u' → wanted (question u) = true → wanted (question u') = true) :
    Replays m size least Post
      (Source.peek question >>= fun b => Source.require (wanted b) >>= fun _ => p)
      (Source.peek question >>= fun b => Source.require (wanted b) >>= fun _ => p') Pre := by
  intro c a d hrun
  rw [peek_bind_apply] at hrun
  obtain ⟨_, e, hrequire, hrun⟩ := bind_eq_some.mp hrun
  obtain ⟨hwanted, rfl⟩ := require_eq_some.mp hrequire
  obtain ⟨read, written, hread, hwritten, hlr, hlw, hreplay⟩ := hp c a d hrun
  refine ⟨read, written, hread, hwritten, hlr, hlw, fun rest hrest hbound => ?_⟩
  obtain ⟨hstart, hagain⟩ := hreplay rest hrest hbound
  refine ⟨hstart, fun z => ?_⟩
  rw [peek_bind_apply]
  exact bind_eq_some.mpr
    ⟨(), _, require_eq_some.mpr ⟨hanswer _ _ hstart hwanted, rfl⟩, hagain z⟩

/-- A parser that first makes sure of something that leads tell. -/
theorem Replays.require {Post : α → Follow} {Pre : Follow} {p p' : Parser α} {question : Peek}
    [hq : Stable question] (hlead : ∀ u u', Pre u u' → Lead u u')
    (hp : Replays m size least Post p p' Pre) :
    Replays m size least Post (Source.peek question >>= fun b => Source.require b >>= fun _ => p)
      (Source.peek question >>= fun b => Source.require b >>= fun _ => p') Pre :=
  .demand id hp fun u u' h hyes => (hq.eq_of_lead (hlead u u' h)).symm.trans hyes

theorem anyWord_closed : Replays m size 1 (fun _ => Any) anyWord anyWord Lead :=
  (anyWord_replays Any).before fun _ _ h => h.lead

/-- A name is read the same again, with what must follow it. -/
theorem ident_replays (Post : Follow) :
    Replays m size 1 (fun _ => Post) ident ident (WordThen Post) :=
  .require (fun _ _ h => h.lead) (anyWord_replays Post)

theorem ident_closed : Replays m size 1 (fun _ => Any) ident ident Lead :=
  (ident_replays Any).before fun _ _ h => h.lead

/-- A fixed word is read the same again, with what must follow it. -/
theorem word_replays (text : String) (Post : Follow) :
    Replays m size 1 (fun _ => Post) (word text) (word text) (WordThen Post) :=
  .require (fun _ _ h => h.lead) (.map (anyWord_replays Post))

theorem word_closed (text : String) :
    Replays m size 1 (fun _ => Any) (word text) (word text) Lead :=
  (word_replays text Any).before fun _ _ h => h.lead

/-- The given word with what follows it, known to come next. -/
theorem word_then (text : String) (Post : Follow) :
    Replays m size 1 (fun _ => Post) (word text) (word text)
      fun u u' => isWord text u = true ∧ WordThen Post u u' :=
  (word_replays text Post).noting fun h => (require_peek_bind.mp h).1

theorem word_known (text : String) :
    Replays m size 1 (fun _ => Any) (word text) (word text)
      fun u u' => isWord text u = true ∧ Lead u u' :=
  (word_then text Any).before fun _ _ h => ⟨h.1, h.2.lead⟩

/-! ## Lifetimes and literals -/

theorem lifetime_eq_some {name : Ident} :
    lifetime c = some (name, d) ↔ c.rest = .punct '\'' true :: .ident name :: d.rest ∧
      d.written = .ident name :: .punct '\'' true :: c.written := by
  unfold lifetime
  rw [require_peek_bind]
  constructor
  · rintro ⟨hlifetime, hrun⟩
    obtain ⟨token, e, htake, hrun⟩ := bind_eq_some.mp hrun
    obtain ⟨hrest, hwritten⟩ := take_eq_some.mp htake
    rw [bind_of_eq_some (write_apply _), anyWord_eq_some] at hrun
    obtain ⟨hword, hwritten'⟩ := hrun
    rw [hrest] at hlifetime
    unfold isLifetime at hlifetime
    split at hlifetime
    next heq =>
        obtain ⟨rfl, -⟩ := List.cons.inj heq
        exact ⟨by rw [hrest, hword], by simp [hwritten', hwritten]⟩
    next => cases hlifetime
  · rintro ⟨hrest, hwritten⟩
    rw [hrest]
    refine ⟨rfl, bind_eq_some.mpr ⟨_, ⟨.ident name :: d.rest, c.written⟩,
      take_eq_some.mpr ⟨hrest, rfl⟩, ?_⟩⟩
    rw [bind_of_eq_some (write_apply _), anyWord_eq_some]
    exact ⟨rfl, hwritten⟩

theorem exists_of_isLifetime {u : List Token} (h : isLifetime u = true) :
    ∃ name rest, u = .punct '\'' true :: .ident name :: rest := by
  unfold isLifetime at h
  split at h
  next name rest => exact ⟨name, rest, rfl⟩
  next => cases h

/-- The same lifetime in both readings, with what follows it. -/
def LifetimeThen (Post : Follow) : Follow :=
  fun u u' => ∃ name rest rest', u = .punct '\'' true :: .ident name :: rest ∧
    u' = .punct '\'' true :: .ident name :: rest' ∧ Post rest rest'

theorem LifetimeThen.lead {Post : Follow} {u u' : List Token} (h : LifetimeThen Post u u') :
    Lead u u' := by
  obtain ⟨name, rest, rest', rfl, rfl, -⟩ := h
  exact .lifetime name rest rest'

/-- A lifetime is read the same again, with what must follow it. -/
theorem lifetime_replays (Post : Follow) :
    Replays m size 1 (fun _ => Post) lifetime lifetime (LifetimeThen Post) := by
  intro c name d hrun
  obtain ⟨hrest, hwritten⟩ := lifetime_eq_some.mp hrun
  refine ⟨[.punct '\'' true, .ident name], [.punct '\'' true, .ident name], hrest,
    by simp [hwritten], by simp, by simp, fun rest hfollow _ => ?_⟩
  rw [Mode.pick_self]
  refine ⟨⟨name, d.rest, rest, hrest, rfl, hfollow⟩, fun z => ?_⟩
  exact lifetime_eq_some.mpr ⟨rfl, by simp⟩

theorem lifetime_closed : Replays m size 1 (fun _ => Any) lifetime lifetime Lead :=
  (lifetime_replays Any).before fun _ _ h => h.lead

/-- The three forms of a literal: a token, a truth value, and a number with a minus sign. -/
theorem literal_eq_some {node : Node} :
    literal c = some (node, d) ↔
      (∃ text, node = .literal text ∧ c.rest = .literal text :: d.rest ∧
        d.written = .literal text :: c.written) ∨
      (∃ name, (name.text = "true" ∨ name.text = "false") ∧ node = .literal name.text ∧
        c.rest = .ident name :: d.rest ∧ d.written = .ident name :: c.written) ∨
      ∃ text joint, isNumeral text = true ∧ node = .literal ("-" ++ text) ∧
        c.rest = .punct '-' joint :: .literal text :: d.rest ∧
        d.written = .literal text :: .punct '-' false :: c.written := by
  obtain ⟨rest, written⟩ := c
  obtain ⟨rest', written'⟩ := d
  unfold literal
  rw [require_peek_bind]
  constructor
  · rintro ⟨hliteral, hrun⟩
    obtain ⟨token, ⟨rest₁, written₁⟩, htake, hmatch⟩ := bind_eq_some.mp hrun
    clear hrun
    obtain ⟨hrest, hwritten⟩ := take_eq_some.mp htake
    clear htake
    simp only at hrest hwritten hliteral
    subst hrest hwritten
    cases token with
    | literal text =>
        simp only [bind_of_eq_some (write_apply _), pure_eq_some, Cursor.mk.injEq] at hmatch
        obtain ⟨rfl, rfl, rfl⟩ := hmatch
        exact .inl ⟨text, rfl, rfl, rfl⟩
    | ident name =>
        simp only [bind_of_eq_some (write_apply _), pure_eq_some, Cursor.mk.injEq] at hmatch
        obtain ⟨rfl, rfl, rfl⟩ := hmatch
        simp only [isLiteral, Bool.or_eq_true, beq_iff_eq] at hliteral
        exact .inr (.inl ⟨name, hliteral, rfl, rfl, rfl⟩)
    | group delimiter body => cases hliteral
    | punct char joint =>
        -- A minus sign is part of a literal in front of a number only.
        obtain ⟨token, ⟨rest₂, written₂⟩, htake, hinner⟩ := bind_eq_some.mp hmatch
        clear hmatch
        obtain ⟨hrest, hwritten⟩ := take_eq_some.mp htake
        clear htake
        simp only at hrest hwritten
        subst hrest hwritten
        cases token with
        | literal text =>
            simp only [bind_of_eq_some (write_apply _), pure_eq_some, Cursor.mk.injEq] at hinner
            obtain ⟨rfl, rfl, rfl⟩ := hinner
            unfold isLiteral at hliteral
            split at hliteral
            · simp_all
            · simp_all
            next heq =>
                simp only [List.cons.injEq, Token.punct.injEq, Token.literal.injEq] at heq
                obtain ⟨⟨rfl, rfl⟩, rfl, rfl⟩ := heq
                exact .inr (.inr ⟨text, joint, hliteral, rfl, rfl, rfl⟩)
            · cases hliteral
        | ident name => cases hinner
        | punct char joint => cases hinner
        | group delimiter body => cases hinner
  · rintro (⟨text, rfl, hrest, hwritten⟩ | ⟨name, hname, rfl, hrest, hwritten⟩ |
      ⟨text, joint, hnumeral, rfl, hrest, hwritten⟩)
    · simp only at hrest hwritten
      subst hrest hwritten
      exact ⟨rfl, rfl⟩
    · simp only at hrest hwritten
      subst hrest hwritten
      exact ⟨by simpa [isLiteral] using hname, rfl⟩
    · simp only at hrest hwritten
      subst hrest hwritten
      exact ⟨by simpa [isLiteral] using hnumeral, rfl⟩

theorem exists_of_kind_word {name : Ident} (h : kind u = .word name) :
    ∃ rest, u = .ident name :: rest := by
  rcases kind_cases u with rfl | ⟨other, rest, rfl⟩ | ⟨other, rest, rfl⟩ |
    ⟨char, joint, rest, rfl, hkind⟩ | ⟨text, rest, rfl⟩ | ⟨delimiter, body, rest, rfl⟩
  · cases h
  · cases h
    exact ⟨rest, rfl⟩
  · cases h
  · rw [hkind] at h
    cases h
  · cases h
  · cases h

/-- Whether a token of the kind is a number. -/
def Kind.isNumeral : Kind → Bool
  | .literal isNumeral _ => isNumeral
  | _ => false

/-- A minus sign, with the same kind of token after it. -/
theorem Lead.minus {rest rest' : List Token} (h : kind rest = kind rest') (joint joint' : Bool) :
    Lead (.punct '-' joint :: rest) (.punct '-' joint' :: rest') := by
  have hkind : ∀ joint rest, kind (.punct '-' joint :: rest) = .punct '-' :=
    fun _ _ => kind_punct (by decide) _ _
  have hliteral : ∀ joint rest, isLiteral (.punct '-' joint :: rest) = (kind rest).isNumeral := by
    intro joint rest
    rcases kind_cases rest with rfl | ⟨name, rest, rfl⟩ | ⟨name, rest, rfl⟩ |
      ⟨char, joint, rest, rfl, hkind⟩ | ⟨text, rest, rfl⟩ | ⟨delimiter, body, rest, rfl⟩
    all_goals first | rfl | (rw [hkind]; rfl)
  have hop : ∀ text, text ∈ ["::", ".."] → ∀ joint rest,
      isOp text (.punct '-' joint :: rest) = false := by
    intro text htext joint rest
    simp only [List.mem_cons, List.not_mem_nil, or_false] at htext
    rcases htext with rfl | rfl <;> cases joint <;> rfl
  refine ⟨by rw [hkind, hkind], by rw [hliteral, hliteral, h], ?_, ?_, ?_, ?_⟩
  · rw [hop "::" (by simp), hop "::" (by simp)]
  · rw [hop ".." (by simp), hop ".." (by simp)]
  · rw [hkind]
    exact fun hcolon => absurd (Kind.punct.inj hcolon) (by decide)
  · rw [hop "::" (by simp)]
    exact fun hyes => absurd hyes Bool.false_ne_true

/-- What follows if both readings go on with the same word. -/
def AfterWord (Post : Follow) : Follow := fun u u' =>
  ∀ name r r', u = .ident name :: r → u' = .ident name :: r' → Post r r'

/-- A literal is read the same again, with what must follow it. -/
theorem literal_replays (Post : Follow) :
    Replays m size 1 (fun _ => Post) literal literal
      fun u u' => Lead u u' ∧ AfterWord Post u u' := by
  intro c node d hrun
  rcases literal_eq_some.mp hrun with ⟨text, rfl, hrest, hwritten⟩ |
    ⟨name, hname, rfl, hrest, hwritten⟩ | ⟨text, joint, hnumeral, rfl, hrest, hwritten⟩
  · refine ⟨[.literal text], [.literal text], hrest, hwritten, by simp, by simp,
      fun rest _ _ => ?_⟩
    rw [Mode.pick_self, hrest]
    exact ⟨⟨.literal rfl rfl _ _, nofun⟩,
      fun z => literal_eq_some.mpr (.inl ⟨text, rfl, rfl, rfl⟩)⟩
  · refine ⟨[.ident name], [.ident name], hrest, hwritten, by simp, by simp,
      fun rest hpost _ => ?_⟩
    rw [Mode.pick_self, hrest]
    refine ⟨⟨.word _ _ _, fun _ _ _ hu hu' => ?_⟩,
      fun z => literal_eq_some.mpr (.inr (.inl ⟨name, hname, rfl, rfl, rfl⟩))⟩
    cases hu
    cases hu'
    exact hpost
  · refine ⟨[.punct '-' joint, .literal text], [.punct '-' false, .literal text], hrest,
      hwritten, by simp, by simp, fun rest _ _ => ?_⟩
    have hpick : ∃ joint', m.pick [.punct '-' joint, .literal text]
        [.punct '-' false, .literal text] = [.punct '-' joint', .literal text] := by
      cases m
      · exact ⟨false, rfl⟩
      · exact ⟨joint, rfl⟩
    obtain ⟨joint', hpick⟩ := hpick
    rw [hpick, hrest]
    refine ⟨⟨.minus (by rfl) _ _, nofun⟩, fun z => literal_eq_some.mpr (.inr (.inr ?_))⟩
    exact ⟨text, joint', hnumeral, rfl, rfl, rfl⟩

theorem literal_closed : Replays m size 1 (fun _ => Any) literal literal Lead :=
  (literal_replays Any).before fun _ _ h => h.1

/-! ## Groups -/

/-- Groups in both readings, with their contents and what follows them. -/
def GroupThen (delimiter : Delimiter) (Inside Post : Follow) : Follow :=
  fun u u' => ∃ body body' rest rest', u = .group delimiter body :: rest ∧
    u' = .group delimiter body' :: rest' ∧ Inside body body' ∧ Post rest rest'

theorem GroupThen.lead {delimiter : Delimiter} {Inside Post : Follow} {u u' : List Token}
    (h : GroupThen delimiter Inside Post u u') : Lead u u' := by
  obtain ⟨body, body', rest, rest', rfl, rfl, -⟩ := h
  exact .group delimiter body body' rest rest'

/-- A group, if what is asked at the end of its contents has the same answers. -/
theorem group_each {Post : α → Follow} {Pre : Follow} {p p' : Parser α}
    (delimiter : Delimiter) (After : Follow) (hp : Replays m size least Post p p' Pre) :
    Replays m (size + 1) 1 (fun a r r' => Post a [] [] ∧ After r r') (group delimiter p)
      (group delimiter p') (GroupThen delimiter Pre After) := by
  intro c a d hrun
  obtain ⟨body, out, hrest, hinside, hwritten⟩ := group_eq_some.mp hrun
  obtain ⟨read, written, hread, hout, -, -, hreplay⟩ := hp _ _ _ hinside
  simp only [List.append_nil] at hread hout
  subst hread hout
  refine ⟨[.group delimiter body], [.group delimiter written], hrest, by simpa using hwritten,
    by simp, by simp, fun rest hpost hbound => ?_⟩
  obtain ⟨hend, hafter⟩ := hpost
  have hpick : m.pick [.group delimiter body] [.group delimiter written] =
      [.group delimiter (m.pick body written)] := by cases m <;> rfl
  rw [hpick] at hbound ⊢
  have hsize : Token.sizeAll (m.pick body written ++ []) ≤ size := by
    simp only [List.cons_append, List.nil_append, Token.sizeAll, Token.size] at hbound
    rw [List.append_nil]
    omega
  obtain ⟨hpre, hagain⟩ := hreplay [] hend hsize
  rw [List.append_nil] at hpre hagain
  refine ⟨⟨body, _, d.rest, rest, hrest, rfl, hpre, hafter⟩, fun z => ?_⟩
  refine group_eq_some.mpr ⟨m.pick body written, written.reverse, rfl, ?_, by simp⟩
  simpa using hagain []

/-- A group is read the same again if its contents are. -/
theorem group_replays {Post : α → Follow} {Pre : Follow} {p p' : Parser α}
    (delimiter : Delimiter) (After : Follow) (hp : Replays m size least Post p p' Pre)
    (hend : ∀ a, Post a [] []) :
    Replays m (size + 1) 1 (fun _ => After) (group delimiter p) (group delimiter p')
      (GroupThen delimiter Pre After) :=
  (group_each delimiter After hp).after fun a _ _ h => ⟨hend a, h⟩

/-- Whatever follows it, a group is read the same again if its contents are. -/
theorem group_closed {Post : α → Follow} {Pre : Follow} {p p' : Parser α}
    (delimiter : Delimiter) (hp : Replays m size least Post p p' Pre) (hend : ∀ a, Post a [] []) :
    Replays m (size + 1) 1 (fun _ => Any) (group delimiter p) (group delimiter p') Lead :=
  (group_replays delimiter Any hp hend).before fun _ _ h => h.lead

theorem anyGroup_eq_some {delimiter : Delimiter} {body : List Token} :
    anyGroup c = some ((delimiter, body), d) ↔ c.rest = .group delimiter body :: d.rest ∧
      d.written = .group delimiter body :: c.written := by
  unfold anyGroup
  rw [bind_eq_some]
  constructor
  · rintro ⟨token, e, htake, hrun⟩
    obtain ⟨hrest, hwritten⟩ := take_eq_some.mp htake
    cases token with
    | group other body =>
        simp only [bind_of_eq_some (write_apply _), pure_apply, Option.some.injEq,
          Prod.mk.injEq] at hrun
        obtain ⟨⟨rfl, rfl⟩, rfl⟩ := hrun
        exact ⟨hrest, by simp [hwritten]⟩
    | punct char joint => cases hrun
    | literal text => cases hrun
    | ident name => cases hrun
  · rintro ⟨hrest, hwritten⟩
    refine ⟨.group delimiter body, ⟨d.rest, c.written⟩, take_eq_some.mpr ⟨hrest, rfl⟩, ?_⟩
    simp [bind_of_eq_some (write_apply _), ← hwritten]

/-- Whatever follows it, a group kept as it is is read the same again. -/
theorem anyGroup_closed : Replays m size 1 (fun _ => Any) anyGroup anyGroup Lead := by
  intro c a d hrun
  obtain ⟨delimiter, body⟩ := a
  obtain ⟨hrest, hwritten⟩ := anyGroup_eq_some.mp hrun
  refine ⟨[.group delimiter body], [.group delimiter body], hrest, hwritten, by simp, by simp,
    fun rest _ _ => ?_⟩
  rw [Mode.pick_self, hrest]
  exact ⟨.group _ _ _ _ _, fun z => anyGroup_eq_some.mpr ⟨rfl, rfl⟩⟩

/-! ## Operators that questions look past -/

def Kin : Follow := fun u u' => kind u = kind u'

theorem Lead.kin {u u' : List Token} (h : Lead u u') : Kin u u' := h.kind_eq

theorem exists_of_isOp_two {text : String} {first second : Char}
    (htext : text.toList = [first, second]) {u : List Token} (h : isOp text u = true) :
    ∃ joint rest, u = .punct first true :: .punct second joint :: rest := by
  rw [isOp, htext] at h
  obtain ⟨joint, rest, rfl⟩ := exists_of_nextIsOp h
  cases joint with
  | false => cases h
  | true =>
      simp only [nextIsOp, Bool.and_eq_true] at h
      obtain ⟨joint, rest, rfl⟩ := exists_of_nextIsOp h.2
      exact ⟨joint, rest, rfl⟩

/-- Both texts start alike at the separator of a path. -/
theorem OpThen.lead_path {u u' : List Token} (h : OpThen m "::" Kin u u') : Lead u u' := by
  have hop' := h.isOp (by decide)
  have hkind : kind (u.drop 2) = kind (u'.drop 2) := h.drop
  obtain ⟨joint, rest, rfl⟩ := @exists_of_isOp_two "::" ':' ':' rfl _ h.1
  obtain ⟨joint', rest', rfl⟩ := @exists_of_isOp_two "::" ':' ':' rfl _ hop'
  exact ⟨rfl, rfl, by rw [h.1, hop'], rfl, fun _ => rfl, fun _ => hkind⟩

theorem OpThen.mono {text : String} {Post Post' : Follow} {u u' : List Token}
    (h : OpThen m text Post u u') (himp : ∀ r r', Post r r' → Post' r r') :
    OpThen m text Post' u u' := by
  obtain ⟨hop, rest, hpost, heq⟩ := h
  exact ⟨hop, rest, himp _ _ hpost, heq⟩

/-- Two colons, with what follows them. -/
theorem op_path_replays (Post : Follow) (hkin : ∀ r r', Post r r' → Kin r r') :
    Replays m size 1 (fun _ => Post) (op "::") (op "::")
      fun u u' => Lead u u' ∧ OpThen m "::" Post u u' :=
  (op_replays "::" (by decide) Post).weaken (fun _ _ _ h => h)
    (fun _ _ h => ⟨(h.mono hkin).lead_path, h⟩) (Nat.le_refl _) (by decide)

theorem op_path : Replays m size 1 (fun _ => Kin) (op "::") (op "::") Lead :=
  (op_path_replays Kin fun _ _ h => h).before fun _ _ h => h.1

theorem lead_of_dots {u u' : List Token} (h : isOp ".." u = true) (h' : isOp ".." u' = true) :
    Lead u u' := by
  obtain ⟨joint, rest, rfl⟩ := @exists_of_isOp_two ".." '.' '.' rfl _ h
  obtain ⟨joint', rest', rfl⟩ := @exists_of_isOp_two ".." '.' '.' rfl _ h'
  exact ⟨rfl, rfl, rfl, by rw [h, h'], nofun, nofun⟩

/-- The dots of a range are read the same again. -/
theorem op_dots : Replays m size 1 (fun _ => Any) (op "..") (op "..") Lead :=
  (op_replays ".." (by decide) Any).weaken (fun _ _ _ h => h)
    (fun _ _ h => lead_of_dots h.1 (h.isOp (by decide))) (Nat.le_refl _) (by decide)

/-- An arrow is read the same again. -/
theorem op_arrow : Replays m size 1 (fun _ => Any) (op "->") (op "->")
    fun u u' => Lead u u' ∧ isOp "->" u' = true := by
  refine (op_replays "->" (by decide) Any).weaken (fun _ _ _ h => h) ?_ (Nat.le_refl _)
    (by decide)
  intro u u' h
  have h' := h.isOp (by decide)
  refine ⟨?_, h'⟩
  obtain ⟨joint, rest, rfl⟩ := @exists_of_isOp_two "->" '-' '>' rfl _ h.1
  obtain ⟨joint', rest', rfl⟩ := @exists_of_isOp_two "->" '-' '>' rfl _ h'
  refine .minus ?_ _ _
  rw [kind_punct (by decide), kind_punct (by decide)]

/-- A colon in both readings; less may be joined to the second one. -/
structure Colon (u u' : List Token) : Prop where
  kind_left : kind u = .punct ':'
  kind_right : kind u' = .punct ':'
  path_imp : isOp "::" u' = true → isOp "::" u = true
  third_eq : isOp "::" u' = true → kind (u.drop 2) = kind (u'.drop 2)

/-- A colon with what follows it. A colon that is written is not joined to anything. -/
structure ColonThen (m : Mode) (Post : Follow) (u u' : List Token) : Prop extends Colon u u' where
  apart : m = .written → isOp "::" u' = false
  tail : Post u.tail u'.tail

/-- A colon is read the same again, if no second one follows it. -/
theorem op_colon_replays (Post : Follow) (hPost : ∀ r r', Post r r' → m = .verbatim → Lead r r') :
    Replays m size 1 (fun _ => Post) (op ":") (op ":") (ColonThen m Post) := by
  refine (op_replays ":" (by decide) Post).weaken (fun _ _ _ h => h) ?_ (Nat.le_refl _)
    (by decide)
  rintro u u' ⟨hop, rest', hpost, rfl⟩
  obtain ⟨joint, rest, rfl⟩ := @exists_of_nextIsOp ':' [] _ hop
  change Post rest rest' at hpost
  cases m with
  | written => exact ⟨⟨rfl, rfl, nofun, nofun⟩, fun _ => rfl, hpost⟩
  | verbatim =>
      have hlead := hPost rest rest' hpost rfl
      have hsecond : ∀ rest, isOp "::" (.punct ':' joint :: rest) = (joint && isOp ":" rest) := by
        intro rest
        cases joint <;> rfl
      have hheaded : isOp ":" rest = isOp ":" rest' := Headed.eq_of_kind_eq hlead.kind_eq
      refine ⟨⟨rfl, rfl, fun h => ?_, fun h => ?_⟩, nofun, hpost⟩
      · change isOp "::" (.punct ':' joint :: rest') = true at h
        rw [hsecond, hheaded, ← hsecond]
        exact h
      · change isOp "::" (.punct ':' joint :: rest') = true at h
        rw [hsecond, Bool.and_eq_true, ← hheaded] at h
        obtain ⟨joint', tail, rfl⟩ := @exists_of_nextIsOp ':' [] _ h.2
        change kind tail = kind (rest'.drop 1)
        rw [List.drop_one]
        exact hlead.second_eq rfl

theorem op_colon : Replays m size 1 (fun _ => Lead) (op ":") (op ":") Colon :=
  (op_colon_replays Lead fun _ _ h _ => h).before fun _ _ h => h.toColon

end ActionUnits.Source
