import ActionUnits.Proofs.Source.Replay.TypePath

/-! # Replaying bounds

A question mark is written in front of the lifetimes of a bound, wherever it was
read. A bound with the mark of constant contexts is kept unread, so it is only
read back as it was.
-/

namespace ActionUnits.Source

variable {m : Mode} {size : Nat} {g g' : Grammar} {P : Follow} {u u' : List Token}

/-! ## Lifetimes -/

theorem lifetimeParam_replays (hg : Knot m size g g') (Mid : Follow) :
    Replays m (size + 1) 1 (fun _ => Mid)
      (do let attrs ← outerAttrs g; return Node.lifetimeParam attrs (← lifetime) [])
      (do let attrs ← outerAttrs g'; return Node.lifetimeParam attrs (← lifetime) [])
      (Attributed (LifetimeThen Mid)) :=
  (outerAttrs_replays hg fun u u' (h : LifetimeThen Mid u u') => .of_stable h.lead).bind _
    (fun _ => Replays.map (lifetime_replays Mid)) fun _ _ _ h => h

/-- The closing bracket of a list. -/
def CloseEnds : Follow := fun u u' => isOp ">" u = true ∧ Lead u u'

theorem isGenericsStart_of_lifetimes {joint : Bool}
    (h : Either (isOp ">") CloseEnds (Attributed (LifetimeThen fun _ r' => endsParam r' = true))
      u u') : isGenericsStart (.punct '<' joint :: u') = true := by
  rw [isGenericsStart_angle]
  refine h.elim (fun hclose h => .inl ((Stable.eq_of_lead h.2).symm.trans hclose)) fun _ h => ?_
  refine h.elim (fun _ h => .inr (.inl ((Bool.and_eq_true _ _).mp h.right).1)) fun _ h => ?_
  obtain ⟨name, r, r', rfl, rfl, hends⟩ := h
  exact .inr (.inr (.inr ⟨.inl rfl, hends⟩))

theorem endsParam_of_close (h : isOp ">" u = true) : endsParam u = true := by
  rw [endsParam, anyOf, List.any_cons, h, Bool.true_or]

theorem endsParam_of_comma (h : isOp "," u = true) : endsParam u = true := by
  rw [endsParam, anyOf, List.any_cons, List.any_cons, h, Bool.true_or, Bool.or_true]

/-- Bound lifetimes are read the same again. -/
theorem boundLifetimes_replays (hg : Knot m size g g') :
    Replays m (size + 1) 1 (fun _ => Any) (boundLifetimes g) (boundLifetimes g')
      (WordThen fun r r' => Lead r r' ∧ isGenericsStart r' = true) := by
  have hparams := separated_replays "," (isOp ">") CloseEnds (by decide)
    (lifetimeParam_replays hg fun _ r' => endsParam r' = true)
    (fun u u' hno h => (Stable.eq_of_lead (h.lead fun _ _ h => h.lead)).symm.trans hno)
    (fun u u' hstop h => (Stable.eq_of_lead h.2).symm.trans hstop)
    (fun u u' hstop h => endsParam_of_close ((Stable.eq_of_lead h.2).symm.trans hstop))
    (fun u u' hcomma h => endsParam_of_comma ((Stable.eq_of_lead h).symm.trans hcomma))
  have hclose : ∀ params : List Node, Replays m (size + 1) 0 (fun _ => Any)
      (do op ">"; return params) (do op ">"; return params) CloseEnds :=
    fun _ => (op_known ">").forget.result fun _ _ _ _ => trivial
  unfold boundLifetimes
  refine ((word_replays "for" _).keep _ (fun _ => (op_replays "<" (by decide) _).bind _
    (fun _ => hparams.bind _ hclose fun _ _ _ h => h) fun _ _ _ h => h) fun _ _ _ h => h).before ?_
  rintro u u' ⟨name, r, r', rfl, rfl, hangle⟩
  refine ⟨name, r, r', rfl, rfl, hangle.lead (by decide), ?_⟩
  obtain ⟨joint, joint', t, t', rfl, rfl, -, h⟩ := hangle.single '<' rfl
  exact isGenericsStart_of_lifetimes h

/-- Bound lifetimes are read the same again if they are there. -/
theorem boundLifetimes?_replays (hg : Knot m size g g') :
    Replays m (size + 1) 0 (fun _ => Lead) (boundLifetimes? g) (boundLifetimes? g') Lead := by
  unfold boundLifetimes? when?
  refine .ite (fun _ _ h => h) ?_ (.pure none)
  exact ((boundLifetimes_replays hg).forget.result fun _ _ _ _ => trivial).before
    fun _ _ h => h.lead

/-! ## Marks -/

/-- The mark of a constant bound is read the same again. -/
theorem constMark_replays (const : Bool) (hP : ∀ r r', P r r' → Lead r r') :
    Replays m (size + 1) 0 (fun _ => P) (constMark const) (constMark const) Lead := by
  have hbracket : Replays m (size + 1) 1 (fun _ => Any) (group .bracket (word "const"))
      (group .bracket (word "const")) Lead :=
    group_closed .bracket (word_closed "const") fun _ => trivial
  unfold constMark
  refine .ask (fun _ _ h => h) fun conditional => .ask (fun _ _ h => h) fun unconditional =>
    .given fun _ => ?_
  split
  · exact hbracket.forget.result fun _ _ _ _ => trivial
  · split
    · exact (word_closed "const").forget.result fun _ _ _ _ => trivial
    · exact (Replays.pure false).before hP

/-! ## Traits -/

/-- The path of a trait is read the same again. -/
theorem traitPath_replays (hg : Knot m size g g') (hP : ∀ r r', P r r' → TypeEnds r r') :
    Replays m (size + 1) 1 (fun _ => P) (traitPath g) (traitPath g') (PathStart (ParenEnds P)) := by
  unfold traitPath
  refine (path_replays hg false fun r r' h => (ParenEnds.typeEnds hP h).toPathEnds).keep _
    (fun path => ?_) fun _ _ _ h => h
  refine ((withParenArguments_replays hg hP hP path).result ?_).before
    fun u u' h => h.imp id fun h => h.2
  intro answer r r' h
  cases answer <;> exact h

/-- Captured tokens are the same where they are read back as they were. -/
theorem capture_verbatim {α : Type} {least : Nat} {Post : α → Follow} {Pre : Follow}
    {p p' : Parser α} (hp : Replays .verbatim size least Post p p' Pre) :
    Replays .verbatim size 0 (fun a => Post a.1) (capture p) (capture p') Pre := by
  rintro c ⟨a, tokens⟩ d hrun
  obtain ⟨out, hinside, rfl, hwritten⟩ := capture_eq_some.mp hrun
  obtain ⟨read, written, hread, hout, -, -, hreplay⟩ := hp _ _ _ hinside
  refine ⟨read, [], hread, hwritten, Nat.zero_le _, Nat.zero_le _, fun rest hrest hbound => ?_⟩
  obtain ⟨hstart, hagain⟩ := hreplay rest hrest hbound
  refine ⟨hstart, fun z => capture_eq_some.mpr ⟨out, ?_, rfl, rfl⟩⟩
  rw [show out = written.reverse ++ [] from hout]
  exact hagain []

theorem write_verbatim {Post : Unit → Follow} (tokens : List Token) :
    Replays .verbatim size 0 Post (write tokens) (write tokens) (Post ()) := by
  intro c a d hrun
  obtain ⟨-, rfl⟩ := Prod.mk.inj (Option.some.inj ((write_apply tokens).symm.trans hrun))
  exact ⟨[], tokens, rfl, rfl, Nat.zero_le _, Nat.zero_le _, fun rest hrest _ => ⟨hrest, fun _ => rfl⟩⟩

/-- A bound by a trait is read the same from its own tokens. -/
theorem traitBound_verbatim (hg : Knot .verbatim size g g')
    (hP : ∀ r r', P r r' → TypeEnds r r') (const parens : Bool) :
    Replays .verbatim (size + 1) 1 (fun _ => P) (traitBound g const parens)
      (traitBound g' const parens) Lead := by
  have hpath := (traitPath_replays hg hP).before fun u u' h => h.toLead
  have hlifetimes := boundLifetimes?_replays hg
  unfold traitBound
  refine (capture_verbatim hlifetimes).bind Lead (fun early => ?_) fun _ _ _ h => h
  refine (constMark_replays const fun _ _ h => h).bind Lead (fun marked => ?_) fun _ _ _ h => h
  refine (op?_closed "?").bind Lead (fun relaxed => ?_) fun _ _ _ h => h
  refine (write_verbatim early.2).bind Lead (fun _ => ?_) fun _ _ _ h => h
  refine .fixed (fun _ => hlifetimes.bind Lead (fun late => ?_) fun _ _ _ h => h)
    fun _ => (Replays.pure none).bind Lead (fun late => ?_) fun _ _ _ h => h
  all_goals exact hpath.map

/-! ## Traits as they are written -/

theorem constMark_eq_false {const : Bool} {c d : Cursor} (h : constMark const c = some (false, d)) :
    isGroup .bracket c.rest = false ∧ isWord "const" c.rest = false ∧ d = c := by
  unfold constMark at h
  rw [peek_bind_apply, peek_bind_apply] at h
  obtain ⟨_, e, hrequire, hrun⟩ := bind_eq_some.mp h
  obtain ⟨-, rfl⟩ := require_eq_some.mp hrequire
  split at hrun
  next =>
      obtain ⟨_, _, _, hpure⟩ := bind_eq_some.mp hrun
      cases (pure_eq_some.mp hpure).1
  next hbracket =>
      split at hrun
      next =>
          obtain ⟨_, _, _, hpure⟩ := bind_eq_some.mp hrun
          cases (pure_eq_some.mp hpure).1
      next hconst =>
          obtain ⟨-, rfl⟩ := pure_eq_some.mp hrun
          exact ⟨by simpa using hbracket, by simpa using hconst, rfl⟩

theorem constMark_apply {const : Bool} {c : Cursor} (hbracket : isGroup .bracket c.rest = false)
    (hconst : isWord "const" c.rest = false) : constMark const c = some (false, c) := by
  unfold constMark
  rw [peek_bind_apply, peek_bind_apply, hbracket, hconst]
  cases const <;> rfl

/-- A bound that lifetimes do not start. -/
def lateBound (g : Grammar) (parens : Bool) : Parser (Option Node) := do
  let relaxed ← op? "?"
  let late ← if relaxed then boundLifetimes? g else pure none
  return some (.traitBound parens relaxed late (← traitPath g))

/-- A bound after the lifetimes that start it. -/
def earlyBound (g : Grammar) (parens : Bool) (lifetimes : List Node) (tokens : List Token) :
    Parser (Option Node) := do
  let relaxed ← op? "?"
  write tokens
  return some (.traitBound parens relaxed (some lifetimes) (← traitPath g))

theorem boundLifetimes?_apply {c : Cursor} (h : isWord "for" c.rest = false) :
    boundLifetimes? g c = some (none, c) := by
  unfold boundLifetimes? when?
  rw [peek_bind_apply, h]
  rfl

theorem boundLifetimes?_eq_some {c d : Cursor} (h : isWord "for" c.rest = true)
    {lifetimes : Option (List Node)} : boundLifetimes? g c = some (lifetimes, d) ↔
      ∃ params, lifetimes = some params ∧ boundLifetimes g c = some (params, d) := by
  unfold boundLifetimes? when?
  rw [peek_bind_apply, h, if_pos rfl, bind_eq_some]
  constructor
  · rintro ⟨params, e, hrun, hpure⟩
    obtain ⟨rfl, rfl⟩ := pure_eq_some.mp hpure
    exact ⟨params, rfl, hrun⟩
  · rintro ⟨params, rfl, hrun⟩
    exact ⟨params, d, hrun, rfl⟩

/-- Without bound lifetimes in front, a bound may have them behind its marks. -/
theorem traitBound_of_late {const parens : Bool} {c : Cursor} (hfor : isWord "for" c.rest = false)
    (hbracket : isGroup .bracket c.rest = false) (hconst : isWord "const" c.rest = false) :
    traitBound g const parens c = lateBound g parens c := by
  have hcapture : capture (boundLifetimes? g) c = some ((none, []), c) :=
    capture_eq_some.mpr ⟨[], boundLifetimes?_apply hfor, rfl, rfl⟩
  unfold traitBound lateBound
  rw [bind_of_eq_some hcapture]
  dsimp only
  rw [bind_of_eq_some (constMark_apply hbracket hconst)]
  rfl

/-- Bound lifetimes in front of a bound are written behind its marks. -/
theorem traitBound_of_early {const parens : Bool} {c : Cursor} {lifetimes : List Node}
    {rest out : List Token} (hfor : isWord "for" c.rest = true)
    (hrun : boundLifetimes g ⟨c.rest, []⟩ = some (lifetimes, ⟨rest, out⟩))
    (hbracket : isGroup .bracket rest = false) (hconst : isWord "const" rest = false) :
    traitBound g const parens c = earlyBound g parens lifetimes out.reverse ⟨rest, c.written⟩ := by
  have hcapture : capture (boundLifetimes? g) c =
      some ((some lifetimes, out.reverse), ⟨rest, c.written⟩) :=
    capture_eq_some.mpr ⟨out, (@boundLifetimes?_eq_some g ⟨c.rest, []⟩ _ hfor _).mpr
      ⟨_, rfl, hrun⟩, rfl, rfl⟩
  have hmark : constMark const ⟨rest, c.written⟩ = some (false, ⟨rest, c.written⟩) :=
    constMark_apply hbracket hconst
  unfold traitBound earlyBound
  rw [bind_of_eq_some hcapture]
  dsimp only
  rw [bind_of_eq_some hmark]
  rfl

/-- A bound is kept unread, or it starts with its lifetimes or without them. -/
theorem traitBound_cases {const parens : Bool} {c d : Cursor} {a : Option Node}
    (h : traitBound g const parens c = some (a, d)) :
    a = none ∨
    (isWord "for" c.rest = false ∧ isGroup .bracket c.rest = false ∧
      isWord "const" c.rest = false ∧ lateBound g parens c = some (a, d)) ∨
    (isWord "for" c.rest = true ∧ ∃ lifetimes rest out,
      boundLifetimes g ⟨c.rest, []⟩ = some (lifetimes, ⟨rest, out⟩) ∧
      isGroup .bracket rest = false ∧ isWord "const" rest = false ∧
      earlyBound g parens lifetimes out.reverse ⟨rest, c.written⟩ = some (a, d)) := by
  have hrun := h
  unfold traitBound at hrun
  obtain ⟨⟨early, tokens⟩, e₁, hcapture, hrun⟩ := bind_eq_some.mp hrun
  obtain ⟨marked, e₂, hmark, hrun⟩ := bind_eq_some.mp hrun
  cases marked with
  | true =>
      -- A bound with the mark of a constant context is kept unread, whatever follows the mark.
      obtain ⟨relaxed, e₃, -, hrun⟩ := bind_eq_some.mp hrun
      obtain ⟨_, e₄, -, hrun⟩ := bind_eq_some.mp hrun
      left
      dsimp only at hrun
      split at hrun
      all_goals
        obtain ⟨late, e₅, -, hrun⟩ := bind_eq_some.mp hrun
        obtain ⟨path, e₆, -, hrun⟩ := bind_eq_some.mp hrun
        exact (pure_eq_some.mp hrun).1.symm
  | false =>
      right
      obtain ⟨hbracket, hconst, rfl⟩ := constMark_eq_false hmark
      obtain ⟨out, hinside, rfl, hwritten⟩ := capture_eq_some.mp hcapture
      cases hfor : isWord "for" c.rest with
      | false =>
          left
          rw [@boundLifetimes?_apply g ⟨c.rest, []⟩ hfor] at hinside
          obtain ⟨-, heq⟩ := Prod.mk.inj (Option.some.inj hinside)
          have hrest : c.rest = e₂.rest := (Cursor.mk.inj heq).1
          rw [← hrest] at hbracket hconst
          rw [traitBound_of_late hfor hbracket hconst] at h
          exact ⟨rfl, hbracket, hconst, h⟩
      | true =>
          right
          obtain ⟨lifetimes, rfl, hlifetimes⟩ :=
            (@boundLifetimes?_eq_some g ⟨c.rest, []⟩ _ hfor _).mp hinside
          rw [traitBound_of_early hfor hlifetimes hbracket hconst] at h
          exact ⟨rfl, lifetimes, e₂.rest, out, hlifetimes, hbracket, hconst, h⟩

/-- Both readings go on with a bound; lifetimes may have been moved behind a question mark. -/
def BoundStart (m : Mode) : Follow := fun u u' =>
  Lead u u' ∨ (m = .written ∧ isWord "for" u = true ∧ kind u' = .punct '?')

theorem BoundStart.lead (h : BoundStart .verbatim u u') : Lead u u' :=
  h.elim id fun h => nomatch h.1

/-- A bound with its lifetimes behind the marks is read the same again. -/
theorem lateBound_replays (hg : Knot m size g g') (hP : ∀ r r', P r r' → TypeEnds r r')
    (parens : Bool) :
    Replays m (size + 1) 1 (fun _ => P) (lateBound g parens) (lateBound g' parens) Lead := by
  have hpath := (traitPath_replays hg hP).before fun u u' h => h.toLead
  unfold lateBound
  refine (op?_closed "?").bind Lead (fun relaxed => ?_) fun _ _ _ h => h
  refine .fixed (fun _ => (boundLifetimes?_replays hg).bind Lead (fun late => ?_) fun _ _ _ h => h)
    fun _ => (Replays.pure none).bind Lead (fun late => ?_) fun _ _ _ h => h
  all_goals exact hpath.map

/-- What may follow a bound that is not kept unread. -/
def Read (P : Follow) (bound : Option Node) : Follow := fun r r' => bound.isNone = false ∧ P r r'

theorem earlyBound_cases {parens : Bool} {lifetimes : List Node} {tokens : List Token}
    {c d : Cursor} {a : Option Node} (h : earlyBound g parens lifetimes tokens c = some (a, d)) :
    ∃ path, (isOp "?" c.rest = false ∧ a = some (.traitBound parens false (some lifetimes) path) ∧
        traitPath g ⟨c.rest, tokens.reverse ++ c.written⟩ = some (path, d)) ∨
      (isOp "?" c.rest = true ∧ a = some (.traitBound parens true (some lifetimes) path) ∧
        traitPath g ⟨c.rest.drop 1, tokens.reverse ++ (.punct '?' false :: c.written)⟩ =
          some (path, d)) := by
  obtain ⟨relaxed, e, hop, hrun⟩ := bind_eq_some.mp h
  rw [bind_of_eq_some (write_apply _)] at hrun
  obtain ⟨path, e', hpath, hpure⟩ := bind_eq_some.mp hrun
  obtain ⟨rfl, rfl⟩ := pure_eq_some.mp hpure
  refine ⟨path, ?_⟩
  rcases op?_cases hop with ⟨rfl, hno, rfl⟩ | ⟨rfl, hyes, rfl⟩
  · exact .inl ⟨hno, rfl, hpath⟩
  · exact .inr ⟨hyes, rfl, hpath⟩

theorem earlyBound_apply {parens : Bool} {lifetimes : List Node} {tokens rest z : List Token}
    {path : Node} {d : Cursor} (hno : isOp "?" rest = false)
    (hpath : traitPath g ⟨rest, tokens.reverse ++ z⟩ = some (path, d)) :
    earlyBound g parens lifetimes tokens ⟨rest, z⟩ =
      some (some (.traitBound parens false (some lifetimes) path), d) := by
  have hop : op? "?" ⟨rest, z⟩ = some (false, ⟨rest, z⟩) := op?_apply_false hno
  unfold earlyBound
  rw [bind_of_eq_some hop, bind_of_eq_some (write_apply _), bind_of_eq_some hpath]
  rfl

theorem lateBound_apply {parens joint : Bool} {lifetimes : List Node} {rest z : List Token}
    {path : Node} {d e : Cursor} (hfor : isWord "for" rest = true)
    (hlifetimes : boundLifetimes g ⟨rest, .punct '?' false :: z⟩ = some (lifetimes, e))
    (hpath : traitPath g e = some (path, d)) :
    lateBound g parens ⟨.punct '?' joint :: rest, z⟩ =
      some (some (.traitBound parens true (some lifetimes) path), d) := by
  have hop : op? "?" ⟨.punct '?' joint :: rest, z⟩ =
      some (true, ⟨rest, .punct '?' false :: z⟩) := op?_apply_true rfl
  have hlate := (@boundLifetimes?_eq_some g ⟨rest, .punct '?' false :: z⟩ _ hfor _).mpr
    ⟨_, rfl, hlifetimes⟩
  unfold lateBound
  rw [bind_of_eq_some hop]
  exact (bind_of_eq_some hlate _).trans ((bind_of_eq_some hpath _).trans rfl)

theorem traitBound_written (hg : ∀ m, Knot m size g g') (hP : ∀ r r', P r r' → TypeEnds r r')
    (const parens : Bool) :
    Replays .written (size + 1) 1 (Read P) (traitBound g const parens)
      (traitBound g' const parens) (BoundStart .written) := by
  intro c a d hrun
  rcases traitBound_cases hrun with rfl | ⟨hfor, hbracket, hconst, hlate⟩ |
    ⟨hfor, lifetimes, rest₁, out, hlifetimes, hbracket, hconst, hearly⟩
  · obtain ⟨read, written, hread, hwritten, hlr, hlw, -⟩ :=
      traitBound_verbatim (hg .verbatim) hP const parens c none d hrun
    exact ⟨read, written, hread, hwritten, hlr, hlw, fun _ hfalse => nomatch hfalse.1⟩
  · obtain ⟨read, written, hread, hwritten, hlr, hlw, hreplay⟩ :=
      lateBound_replays (hg .written) hP parens c a d hlate
    refine ⟨read, written, hread, hwritten, hlr, hlw, fun rest hrest hbound => ?_⟩
    obtain ⟨hlead, hagain⟩ := hreplay rest hrest.2 hbound
    refine ⟨.inl hlead, fun z => ?_⟩
    rw [traitBound_of_late ((Stable.eq_of_lead hlead).symm.trans hfor)
      ((Stable.eq_of_lead hlead).symm.trans hbracket)
      ((Stable.eq_of_lead hlead).symm.trans hconst)]
    exact hagain z
  · obtain ⟨readL, writtenL, hreadL, houtL, hlrL, hlwL, hreplayL⟩ :=
      boundLifetimes_replays (hg .written) _ _ _ hlifetimes
    -- The lifetimes come first: the second reading finds the same ones wherever they stand, and the
    -- mark of an optional bound is written in front of them.
    obtain rfl : out = writtenL.reverse := by simpa using houtL
    change c.rest = readL ++ rest₁ at hreadL
    have hsecond : ∀ v, Token.sizeAll (writtenL ++ v) ≤ size + 1 → Lead c.rest (writtenL ++ v) ∧
        ∀ z, boundLifetimes g' ⟨writtenL ++ v, z⟩ =
          some (lifetimes, ⟨v, writtenL.reverse ++ z⟩) := by
      intro v hv
      obtain ⟨hword, hagain⟩ := hreplayL v trivial hv
      exact ⟨hword.lead, hagain⟩
    obtain ⟨path, ⟨hno, rfl, hpath⟩ | ⟨hyes, rfl, hpath⟩⟩ := earlyBound_cases hearly
    · obtain ⟨readP, writtenP, hreadP, hwrittenP, hlrP, hlwP, hreplayP⟩ :=
        traitPath_replays (hg .written) hP _ _ _ hpath
      change rest₁ = readP ++ d.rest at hreadP
      refine ⟨readL ++ readP, writtenL ++ writtenP, by rw [hreadL, hreadP, List.append_assoc],
        by simp [hwrittenP], by rw [List.length_append]; omega, by rw [List.length_append]; omega,
        fun rest hrest hbound => ?_⟩
      simp only [Mode.pick_written, List.append_assoc] at hbound hreplayP ⊢
      have hsplit := Token.sizeAll_append writtenL (writtenP ++ rest)
      obtain ⟨hstart, hagainP⟩ := hreplayP rest hrest.2 (by omega)
      obtain ⟨hlead, hagainL⟩ := hsecond (writtenP ++ rest) hbound
      -- With no mark the second reading asks what the first one asked, of tokens that start alike.
      have hsame : ∀ {question : Peek} [Stable question], question rest₁ = false →
          question (writtenP ++ rest) = false :=
        fun h => (Stable.eq_of_lead hstart.toLead).symm.trans h
      refine ⟨.inl hlead, fun z => ?_⟩
      rw [traitBound_of_early ((Stable.eq_of_lead hlead).symm.trans hfor) (hagainL [])
        (hsame hbracket) (hsame hconst)]
      exact earlyBound_apply (hsame hno) (by simp [hagainP])
    · obtain ⟨joint, rest₂, rfl⟩ := @exists_of_nextIsOp '?' [] _ hyes
      obtain ⟨readP, writtenP, hreadP, hwrittenP, hlrP, hlwP, hreplayP⟩ :=
        traitPath_replays (hg .written) hP _ _ _ hpath
      change rest₂ = readP ++ d.rest at hreadP
      refine ⟨readL ++ .punct '?' joint :: readP, .punct '?' false :: (writtenL ++ writtenP),
        by simp [hreadL, hreadP], by simp [hwrittenP], by rw [List.length_append]; omega, by simp,
        fun rest hrest hbound => ?_⟩
      simp only [Mode.pick_written, List.cons_append, List.append_assoc] at hbound hreplayP ⊢
      have hsplit := Token.sizeAll_append writtenL (writtenP ++ rest)
      rw [Token.sizeAll] at hbound
      obtain ⟨hstart, hagainP⟩ := hreplayP rest hrest.2 (by omega)
      obtain ⟨hlead, hagainL⟩ := hsecond (writtenP ++ rest) (by omega)
      refine ⟨.inr ⟨rfl, hfor, rfl⟩, fun z => ?_⟩
      -- The mark comes first now, so the second reading takes the bound with its lifetimes after
      -- it.
      rw [traitBound_of_late rfl rfl rfl]
      exact lateBound_apply ((Stable.eq_of_lead hlead).symm.trans hfor) (hagainL _)
        (by simp [hagainP])

/-! ## Bounds -/

theorem traitOrGroup_verbatim (hg : Knot .verbatim size g g')
    (hP : ∀ r r', P r r' → TypeEnds r r') (const : Bool) :
    Replays .verbatim (size + 1) 1 (fun _ => P) (traitOrGroup g const) (traitOrGroup g' const)
      Lead := by
  have hinside := traitBound_verbatim hg (fun _ _ (h : AtEnd _ _) => h.typeEnds) const true
  have hgroup := group_closed .paren hinside.smaller fun _ => atEnd_nil
  exact .ite (fun _ _ h => h) (hgroup.after fun _ _ _ _ => trivial)
    (traitBound_verbatim hg hP const false)

theorem BoundStart.headed {question : Peek} [hq : Headed question] (h : BoundStart m u u')
    (hfor : question [.word "for"] = false) (hmark : question [.punct '?' false] = false) :
    question u' = question u := by
  rcases h with hlead | ⟨-, hword, hkind⟩
  · exact (Stable.eq_of_lead hlead).symm
  · have hright : question u' = question [.punct '?' false] := hq.eq_of_kind_eq hkind
    have hleft : question u = question [.word "for"] := hq.eq_of_kind_eq (kind_of_isWord hword)
    rw [hright, hmark, hleft, hfor]

theorem traitOrGroup_written (hg : ∀ m, Knot m size g g') (hP : ∀ r r', P r r' → TypeEnds r r')
    (const : Bool) :
    Replays .written (size + 1) 1 (Read P) (traitOrGroup g const) (traitOrGroup g' const)
      (BoundStart .written) := by
  have hinside := traitBound_written hg (fun _ _ (h : AtEnd _ _) => h.typeEnds) const true
  have hgroup := group_each .paren P hinside.smaller
  refine .choice ?_ ?_ fun u u' h => h.headed rfl rfl
  · refine (hgroup.weaken (fun a _ _ h => ⟨⟨h.1, atEnd_nil⟩, h.2⟩) (fun _ _ h _ => .inl h.lead)
      (Nat.le_refl _) (Nat.le_refl _))
  · exact (traitBound_written hg hP const false).before fun _ _ h _ => h

theorem captureBound_closed :
    Replays m size 1 (fun _ => Any) captureBound captureBound Lead := by
  have hparam : Replays m size 1 (fun _ => Any)
      (do if ← peek isLifetime then return Node.lifetime (← lifetime)
          else if ← peek (isWord "Self") then return .ofIdent (← anyWord)
          else return .ofIdent (← ident))
      (do if ← peek isLifetime then return Node.lifetime (← lifetime)
          else if ← peek (isWord "Self") then return .ofIdent (← anyWord)
          else return .ofIdent (← ident)) Lead :=
    .ite (fun _ _ h => h) lifetime_closed.map
      (.ite (fun _ _ h => h) anyWord_closed.map ident_closed.map)
  have hparams := separated_replays "," (isOp ">") CloseEnds (by decide) hparam
    (fun u u' hno h => (Stable.eq_of_lead h).symm.trans hno)
    (fun u u' hstop h => (Stable.eq_of_lead h.2).symm.trans hstop) (fun _ _ _ _ => trivial)
    fun _ _ _ _ => trivial
  unfold captureBound
  refine (word_closed "use").keep Lead (fun _ => (op_closed "<").seq Lead fun _ => ?_)
    fun _ _ _ _ => trivial
  refine (hparams.bind CloseEnds (fun params => ?_) fun _ _ _ h => h).before
    fun _ _ h => h.elim (fun _ h => h.2) fun _ h => h
  exact (op_known ">").forget.result fun _ _ _ _ => trivial

theorem bound_replays (hg : ∀ m, Knot m size g g') (hP : ∀ r r', P r r' → TypeEnds r r')
    (rules : BoundRules) :
    Replays m (size + 1) 1 (fun _ => P) (bound g rules) (bound g' rules) (BoundStart m) := by
  unfold bound
  refine .branch (fun _ _ h => h.headed rfl rfl) ?_ (.branch (fun _ _ h => h.headed rfl rfl) ?_ ?_)
  · exact (lifetime_closed.result fun _ _ _ _ => trivial).before fun _ _ h => .inl h
  · exact .given fun _ => captureBound_closed.weaken (fun _ _ _ _ => trivial)
      (fun _ _ h => .inl h) (Nat.le_refl _) (Nat.le_refl _)
  · refine .keeping Option.isNone ?_ ?_ (fun hm => hm ▸ traitOrGroup_written hg hP rules.const)
      ((traitOrGroup_verbatim (hg .verbatim) hP rules.const).before fun _ _ h => .inl h)
    · rintro (_ | node) hnone
      · cases hnone
      · exact ⟨node, fun _ => rfl⟩
    · rintro (_ | node) hnone
      · exact ⟨id, fun _ => rfl⟩
      · cases hnone

/-! ## Sums of bounds -/

/-- After an element of a sum: a plus sign, or the end of the sum. -/
def PlusEnds (End : Follow) : Follow := Either (isOp "+") Lead End

theorem PlusEnds.typeEnds {End : Follow} (hEnd : ∀ r r', End r r' → TypeEnds r r')
    (h : PlusEnds End u u') : TypeEnds u u' := by
  refine h.elim (fun hplus h => h.typeEnds ?_) fun _ h => hEnd u u' h
  rw [kind_of_isOp (rfl : "+".toList = ['+']) (by decide) hplus]
  rfl

/-- Lists of bounds are read the same again. -/
theorem boundList_replays (hg : ∀ m, Knot m size g g') (rules : BoundRules) (stop : Peek)
    (End : Follow) (hEnd : ∀ r r', End r r' → TypeEnds r r')
    (hgo : ∀ u u', stop u = false → BoundStart m u u' → stop u' = false)
    (hstop : ∀ u u', stop u = true → End u u' → stop u' = true) :
    Replays m (size + 1) 0 (fun _ => End) (plusList stop (bound g rules))
      (plusList stop (bound g' rules)) (Either stop End (BoundStart m)) :=
  plusList_replays (bound_replays hg (fun _ _ h => PlusEnds.typeEnds hEnd h) rules) hgo hstop
    (fun u u' h => (hEnd u u' h).plus) fun _ _ h => h

end ActionUnits.Source
