import ActionUnits.Proofs.Source.Replay.Arguments

/-! # Replaying generic parameters and conditions

A colon, a keyword or a pair of angle brackets that nothing follows is not
written. The second reading then goes on where the first one does after it.
-/

namespace ActionUnits.Source

variable {m : Mode} {size : Nat} {g g' : Grammar} {P : Follow} {u u' : List Token}

/-! ## Parts that are dropped -/

def writtenIfAny (p : Parser (List Node)) : Parser (List Node) := do
  let (nodes, tokens) ← capture p
  unless nodes.isEmpty do write tokens
  return nodes

/-- A list is written only if it has elements. -/
theorem writtenIfAny_eq_some {p : Parser (List Node)} {nodes : List Node} {c d : Cursor} :
    writtenIfAny p c = some (nodes, d) ↔ ∃ out, p ⟨c.rest, []⟩ = some (nodes, ⟨d.rest, out⟩) ∧
      d.written = (if nodes.isEmpty then [] else out) ++ c.written := by
  obtain ⟨rest, written⟩ := c
  obtain ⟨rest', written'⟩ := d
  unfold writtenIfAny
  rw [bind_eq_some]
  constructor
  · rintro ⟨⟨nodes', tokens⟩, ⟨rest₁, written₁⟩, hcapture, hwrite⟩
    obtain ⟨out, hrun, rfl, rfl⟩ := capture_eq_some.mp hcapture
    dsimp only at hwrite hrun
    cases hempty : nodes'.isEmpty with
    | true =>
        simp only [hempty, if_true, pure_eq_some, Cursor.mk.injEq] at hwrite
        obtain ⟨rfl, rfl, rfl⟩ := hwrite
        exact ⟨out, hrun, by simp [hempty]⟩
    | false =>
        simp only [hempty, Bool.false_eq_true, if_false, bind_of_eq_some (write_apply _),
          pure_eq_some, Cursor.mk.injEq] at hwrite
        obtain ⟨rfl, rfl, rfl⟩ := hwrite
        exact ⟨out, hrun, by simp [hempty]⟩
  · rintro ⟨out, hrun, hwritten⟩
    simp only at hrun hwritten
    subst hwritten
    refine ⟨(nodes, out.reverse), ⟨rest', written⟩, capture_eq_some.mpr ⟨out, hrun, rfl, rfl⟩, ?_⟩
    dsimp only
    cases hempty : nodes.isEmpty with
    | true => simp
    | false => simp [bind_of_eq_some (write_apply _)]

/-- Both readings go on with an optional part or without it, or the second one goes on without a
part that had no elements. -/
inductive Optional (m : Mode) (question : Peek) (Start End : Follow) (u u' : List Token) : Prop
  | present (left : question u = true) (right : question u' = true) (start : Start u u')
  | absent (left : question u = false) (ends : End u u')
  | dropped (mode : m = .written) (left : question u = true) (r : List Token) (ends : End r u')

/-- A list that is dropped when it is empty is read the same again. -/
theorem optional_replays {question : Peek} {p p' : Parser (List Node)} {Start End : Follow}
    (hp : Replays m size 1 (fun _ => End) p p' Start)
    (hyes : ∀ u u', question u = true → Start u u' → question u' = true)
    (hno : ∀ u u', End u u' → question u' = false) :
    Replays m size 0 (fun _ => End)
      (peek question >>= fun b => if b = true then writtenIfAny p else pure [])
      (peek question >>= fun b => if b = true then writtenIfAny p' else pure [])
      (Optional m question Start End) := by
  intro c nodes d hrun
  rw [peek_bind_apply] at hrun
  cases hquestion : question c.rest with
  | false =>
      rw [hquestion, if_neg (by decide)] at hrun
      obtain ⟨rfl, rfl⟩ := pure_eq_some.mp hrun
      refine ⟨[], [], rfl, rfl, Nat.le_refl _, Nat.le_refl _, fun rest hrest _ => ?_⟩
      rw [Mode.pick_self]
      refine ⟨.absent hquestion hrest, fun z => ?_⟩
      rw [peek_bind_apply, show question ([] ++ rest) = false from hno _ _ hrest]
      rfl
  | true =>
      rw [hquestion, if_pos rfl] at hrun
      obtain ⟨out, hinside, hwritten⟩ := writtenIfAny_eq_some.mp hrun
      obtain ⟨read, written, hread, hout, -, -, hreplay⟩ := hp _ _ _ hinside
      obtain rfl : out = written.reverse := by simpa using hout
      -- Where the part is there again, it has the same elements.
      have hagain : ∀ rest, End d.rest rest →
          Token.sizeAll (m.pick read written ++ rest) ≤ size →
          Optional m question Start End c.rest (m.pick read written ++ rest) ∧ ∀ z,
            (peek question >>= fun b => if b = true then writtenIfAny p' else pure [])
              ⟨m.pick read written ++ rest, z⟩ = some (nodes, ⟨rest,
                (if nodes.isEmpty then [] else written.reverse) ++ z⟩) := by
        intro rest hrest hbound
        obtain ⟨hstart, hrerun⟩ := hreplay rest hrest hbound
        have hright := hyes _ _ hquestion hstart
        refine ⟨.present hquestion hright hstart, fun z => ?_⟩
        rw [peek_bind_apply, hright, if_pos rfl]
        exact writtenIfAny_eq_some.mpr ⟨written.reverse, by simpa using hrerun [], rfl⟩
      have hboth : (if nodes.isEmpty then [] else written.reverse) =
          (if nodes.isEmpty then [] else written).reverse := by
        split <;> rfl
      refine ⟨read, if nodes.isEmpty then [] else written, hread, by rw [hwritten, hboth],
        Nat.zero_le _, Nat.zero_le _, fun rest hrest hbound => ?_⟩
      cases m with
      | verbatim =>
          rw [← hboth]
          exact hagain rest hrest hbound
      | written =>
          cases nodes with
          | nil =>
              have hright : question rest = false := hno _ _ hrest
              refine ⟨.dropped rfl hquestion _ hrest, fun z => ?_⟩
              change (if question rest = true then writtenIfAny p' else pure []) ⟨rest, z⟩ = _
              rw [hright]
              rfl
          | cons node nodes => exact hagain rest hrest hbound

/-! ## Bounds after a colon -/

theorem colonList_eq (elements : Parser (List Node)) :
    colonList elements = (peek (isOp ":") >>= fun b =>
      if b = true then writtenIfAny (op ":" >>= fun _ => elements) else pure []) := rfl

/-- A list behind a colon is read the same again. -/
theorem colonList_replays {elements elements' : Parser (List Node)} {Start End : Follow}
    (hp : Replays m size 0 (fun _ => End) elements elements' Start)
    (hlead : ∀ u u', Start u u' → m = .verbatim → Lead u u')
    (hno : ∀ u u', End u u' → isOp ":" u' = false) :
    Replays m size 0 (fun _ => End) (colonList elements) (colonList elements')
      (Optional m (isOp ":") (ColonThen m Start) End) := by
  rw [colonList_eq, colonList_eq]
  refine optional_replays ((op_colon_replays Start hlead).keep _ (fun _ => hp) fun _ _ _ h => h)
    (fun u u' hyes h => ?_) hno
  rw [← hyes]
  exact Headed.eq_of_kind_eq (h.kind_right.trans h.kind_left.symm)

/-! ## Parameters -/

/-- Whether a generic parameter starts in a way that tells it from a type. -/
def StartsParam (tokens : List Token) : Prop :=
  isOp "#" tokens = true ∨ isWord "const" tokens = true ∨
    ((isLifetime tokens = true ∨ isIdent tokens = true) ∧ endsParam (afterOne tokens) = true)

/-- What follows the name of a parameter. -/
structure ParamThen (m : Mode) (u u' : List Token) : Prop where
  again : endsParam u = true → endsParam u' = true
  written : m = .written → endsParam u' = true

/-- Both readings go on with a parameter. -/
structure ParamStart (m : Mode) (u u' : List Token) : Prop extends Lead u u' where
  again : StartsParam u → StartsParam u'
  moved : m = .written → isOp "#" u = true ∨ isLifetime u = true → StartsParam u'

theorem ParamStart.of_word (h : WordThen (ParamThen m) u u') : ParamStart m u u' := by
  obtain ⟨name, r, r', rfl, rfl, hthen⟩ := h
  refine ⟨.word _ _ _, fun hstarts => ?_, fun _ hno => hno.elim nofun nofun⟩
  rcases hstarts with hhash | hconst | ⟨hname, hends⟩
  · cases hhash
  · exact .inr (.inl hconst)
  · exact .inr (.inr ⟨hname, hthen.again hends⟩)

theorem ParamStart.of_lifetime (h : LifetimeThen (ParamThen m) u u') : ParamStart m u u' := by
  obtain ⟨name, r, r', rfl, rfl, hthen⟩ := h
  refine ⟨.lifetime _ _ _, fun hstarts => ?_, fun hm _ => .inr (.inr ⟨.inl rfl, hthen.written hm⟩)⟩
  rcases hstarts with hhash | hconst | ⟨hname, hends⟩
  · cases hhash
  · cases hconst
  · exact .inr (.inr ⟨hname, hthen.again hends⟩)

theorem ParamStart.of_const (h : isWord "const" u = true ∧ Lead u u') : ParamStart m u u' :=
  have hright : StartsParam u' := .inr (.inl ((Stable.eq_of_lead h.2).symm.trans h.1))
  ⟨h.2, fun _ => hright, fun _ _ => hright⟩

theorem ParamStart.of_attributed (h : Attributed (ParamStart m) u u') : ParamStart m u u' := by
  refine h.elim (fun _ h => ?_) fun _ h => h
  have hright : StartsParam u' := .inl ((Bool.and_eq_true _ _).mp h.right).1
  exact ⟨h.toLead, fun _ => hright, fun _ _ => hright⟩

/-- What may follow the bounds of a parameter: a default, or what follows the parameter. -/
def DefaultEnds (m : Mode) : Follow := fun u u' =>
  PartEnds m u u' ∨ (isOp "=" u = true ∧ Lead u u')

/-- What a comma, a closing bracket and an equals sign answer. -/
theorem DefaultEnds.answer {question : Peek} [hq : Headed question] {answer : Bool}
    (h : DefaultEnds m u u') (hcomma : question [.punct ',' false] = answer)
    (hclose : question [.punct '>' false] = answer)
    (hassign : question [.punct '=' false] = answer) : question u' = answer := by
  rcases h with h | ⟨hyes, h⟩
  · exact answer_of_endsPart h.right hcomma hclose
  · rw [← hassign, ← (hq.eq_of_kind_eq h.kind_eq : question u = _)]
    exact hq.eq_of_kind_eq (kind_of_isOp rfl (by decide) hyes)

theorem DefaultEnds.typeEnds (h : DefaultEnds m u u') : TypeEnds u u' := by
  rcases h with h | ⟨hassign, h⟩
  · exact h.typeEnds
  · refine h.typeEnds ?_
    rw [kind_of_isOp (rfl : "=".toList = ['=']) (by decide) hassign]
    rfl

theorem DefaultEnds.lead (h : DefaultEnds m u u') (hm : m = .verbatim) : Lead u u' :=
  h.elim (fun h => h.lead hm) fun h => h.2

theorem DefaultEnds.endsParam (h : DefaultEnds m u u') : Source.endsParam u' = true := by
  have hends : anyOf [isOp ">", isOp ",", isOp "="] u' = true := h.answer rfl rfl rfl
  simp only [anyOf, List.any_cons, List.any_nil, Bool.or_false, Bool.or_eq_true] at hends
  simp only [Source.endsParam, anyOf, List.any_cons, List.any_nil, Bool.or_false, Bool.or_eq_true]
  tauto

theorem endsParam_of_colon (h : kind u = .punct ':') : endsParam u = !isOp "::" u := by
  have hu : ∀ {question : Peek} [Headed question], question u = question [.punct ':' false] :=
    Headed.eq_of_kind_eq h
  simp only [endsParam, anyOf, Peek.butNot, List.any_cons, List.any_nil, Bool.or_false,
    (hu : isOp ">" u = _), (hu : isOp "," u = _), (hu : isOp ":" u = _), (hu : isOp "=" u = _)]
  cases isOp "::" u <;> rfl

/-- What may follow a parameter starts with a colon or ends it. -/
theorem ParamThen.of_optional {Start End : Follow}
    (hEnd : ∀ r r', End r r' → DefaultEnds m r r')
    (h : Optional m (isOp ":") (ColonThen m Start) End u u') : ParamThen m u u' := by
  cases h with
  | present _ _ start =>
      refine ⟨fun hyes => ?_, fun hm => ?_⟩
      · rw [endsParam_of_colon start.kind_left, Bool.not_eq_true'] at hyes
        rw [endsParam_of_colon start.kind_right, start.typeEnds.path hyes]
        rfl
      · rw [endsParam_of_colon start.kind_right, start.apart hm]
        rfl
  | absent _ ends => exact ⟨fun _ => (hEnd _ _ ends).endsParam, fun _ => (hEnd _ _ ends).endsParam⟩
  | dropped _ _ r ends =>
      exact ⟨fun _ => (hEnd _ _ ends).endsParam, fun _ => (hEnd _ _ ends).endsParam⟩

/-- Lifetimes joined by plus signs. -/
theorem lifetimes_replays (stop : Peek) [hs : Stable stop] (End : Follow)
    (hstop : ∀ u u', stop u = true → End u u' → stop u' = true)
    (hplus : ∀ u u', End u u' → Absent (isOp "+") u u') :
    Replays m size 0 (fun _ => End) (plusList stop (return Node.lifetime (← lifetime)))
      (plusList stop (return Node.lifetime (← lifetime))) (Either stop End Lead) :=
  plusList_replays lifetime_closed.wrap
    (fun _ _ hno h => (hs.eq_of_lead h).symm.trans hno) hstop hplus fun _ _ _ => trivial

/-- The bounds of a lifetime parameter are read the same again. -/
theorem paramLifetimes_replays :
    Replays m size 0 (fun _ => PartEnds m)
      (colonList (plusList (anyOf [List.isEmpty, isOp ",", isOp ">"])
        (return Node.lifetime (← lifetime))))
      (colonList (plusList (anyOf [List.isEmpty, isOp ",", isOp ">"])
        (return Node.lifetime (← lifetime)))) (ParamThen m) := by
  refine (colonList_replays (lifetimes_replays _ (PartEnds m)
    (fun _ _ _ h => answer_of_endsPart h.right rfl rfl) fun _ _ h => h.typeEnds.plus) ?_
    fun _ _ h => answer_of_endsPart h.right rfl rfl).before
    fun _ _ h => .of_optional (fun _ _ h => .inl h) h
  exact fun u u' h hm => h.elim (fun _ h => h.lead hm) fun _ h => h

/-- The bounds of a type parameter are read the same again. -/
theorem paramBounds_replays (hg : ∀ m, Knot m size g g') :
    Replays m size 0 (fun _ => DefaultEnds m)
      (colonList (plusList (anyOf [List.isEmpty, isOp ",", isOp ">", isOp "="])
        (bound g ⟨false, true⟩)))
      (colonList (plusList (anyOf [List.isEmpty, isOp ",", isOp ">", isOp "="])
        (bound g' ⟨false, true⟩))) (ParamThen m) := by
  have hlist := boundList_replays (m := m) hg ⟨false, true⟩
    (anyOf [List.isEmpty, isOp ",", isOp ">", isOp "="]) (DefaultEnds m) (fun _ _ h => h.typeEnds)
    (fun _ _ hno h => (h.headed rfl rfl).trans hno) fun _ _ _ h => h.answer rfl rfl rfl
  refine (colonList_replays hlist.smaller ?_ fun _ _ h => h.answer rfl rfl rfl).before
    fun _ _ h => .of_optional (fun _ _ h => h) h
  rintro u u' h rfl
  exact h.elim (fun _ h => h.lead rfl) fun _ h => h.lead

/-- A default after an equals sign. -/
theorem default_replays {α : Type} {f : Option Node → α} {p p' : Parser Node}
    (hp : Replays m size 0 (fun _ => PartEnds m) p p' Lead) :
    Replays m size 0 (fun _ => PartEnds m)
      (when? (isOp "=") (do op "="; p) >>= fun default => pure (f default))
      (when? (isOp "=") (do op "="; p') >>= fun default => pure (f default)) (DefaultEnds m) := by
  refine .choiceWhen ?_ ?_ fun u u' h => ?_
  · refine (Replays.wrap ((op_known "=").seq Lead fun _ => hp)).before fun _ _ h _ => .inr h
  · exact (Replays.pure _).before fun _ _ h _ => .inl h
  · rcases h with h | ⟨-, h⟩
    · rw [isOp_of_endsPart h.left rfl (by decide), isOp_of_endsPart h.right rfl (by decide)]
    · exact (Stable.eq_of_lead h).symm

/-- Generic parameters are read the same again. -/
theorem genericParam_replays (hg : ∀ m, Knot m size g g') :
    Replays m size 1 (fun _ => PartEnds m) (genericParam g) (genericParam g') (ParamStart m) := by
  have hattrs := (outerAttrs_replays (hg m) fun u u' (h : ParamStart m u u') =>
    .of_stable h.toLead).smaller
  have htype := ((hg m).ty true (PartEnds m) fun _ _ h => h.typeEnds).forget.before
    fun _ _ h => h.toLead
  have hconst := ((constArgument_closed (hg m)).smaller.forget).after
    fun _ r r' (_ : PartEnds m r r') => trivial
  unfold genericParam
  refine (hattrs.bind _ (fun attrs => ?_) fun _ _ _ h => h).before fun _ _ h => .of_attributed h
  refine .ite (fun _ _ h => h.toLead) ?_ (.ite (fun _ _ h => h.toLead) ?_
    (.word? (fun _ _ h => h.toLead) ?_ (.require (fun _ _ h => h.toLead) ?_)))
  · refine ((lifetime_replays _).keep _ (fun name => ?_) fun _ _ _ h => h).before
      fun _ _ h => .of_lifetime h
    exact paramLifetimes_replays.wrap
  · refine ((ident_replays _).keep _ (fun name => ?_) fun _ _ _ h => h).before
      fun _ _ h => .of_word h
    exact (paramBounds_replays hg).bind _ (fun bounds => default_replays htype) fun _ _ _ h => h
  · refine ((word_known "const").keep Any (fun _ => ?_) fun _ _ _ _ => trivial).before
      fun _ _ h => .of_const h
    refine (ident_closed.seq Colon fun name => op_colon.bind Lead (fun _ => ?_)
      fun _ _ _ h => h).before fun _ _ _ => trivial
    exact (((hg m).ty true _ fun _ _ h => DefaultEnds.typeEnds h).bind _ (fun ty =>
      default_replays hconst) fun _ _ _ h => h).before fun _ _ h => h.toLead
  · refine (Replays.wrap (anyWord_replays (PartEnds m))).before ?_
    rintro u u' ⟨name, r, r', rfl, rfl, h⟩
    have hends : endsParam r' = true := DefaultEnds.endsParam (.inl h)
    exact .of_word ⟨name, r, r', rfl, rfl, fun _ => hends, fun _ => hends⟩

theorem isEmpty_angleNodes (isLifetime : Node → Bool) (elements : List (Node × AnglePart)) :
    (angleNodes isLifetime elements).isEmpty = elements.isEmpty := by
  cases elements with
  | nil => rfl
  | cons e elements =>
      refine List.isEmpty_eq_false_iff.mpr fun hnil => ?_
      obtain ⟨hyes, hno⟩ := List.append_eq_nil_iff.mp hnil
      have hlifetime := List.filter_eq_nil_iff.mp hyes e.1 List.mem_cons_self
      have hother := List.filter_eq_nil_iff.mp hno e.1 List.mem_cons_self
      simp_all

/-- A list in angle brackets that is not kept empty is written only if it has elements. -/
theorem angleList_false (isLifetime : Node → Bool) (element : Parser Node) :
    angleList false isLifetime element = writtenIfAny (angleList true isLifetime element) := by
  have htokens : ∀ elements, (angleTokens false elements).reverse =
      if (angleNodes isLifetime elements).isEmpty then []
      else (angleTokens true elements).reverse := by
    intro elements
    rw [isEmpty_angleNodes, angleTokens, angleTokens]
    cases elements.isEmpty <;> rfl
  funext c
  refine Option.ext ?_
  rintro ⟨nodes, d⟩
  rw [angleList_eq_some, writtenIfAny_eq_some]
  constructor
  · rintro ⟨elements, joint, t, after, out, hrest, hrepeated, hafter, rfl, hrest', hwritten⟩
    refine ⟨(angleTokens true elements).reverse, angleList_eq_some.mpr ⟨elements, joint, t, after,
      out, hrest, hrepeated, hafter, rfl, hrest', by simp⟩, ?_⟩
    rw [hwritten, htokens]
  · rintro ⟨out, hrun, hwritten⟩
    obtain ⟨elements, joint, t, after, out', hrest, hrepeated, hafter, rfl, hrest', hout⟩ :=
      angleList_eq_some.mp hrun
    obtain rfl : out = (angleTokens true elements).reverse := by simpa using hout
    exact ⟨elements, joint, t, after, out', hrest, hrepeated, hafter, rfl, hrest',
      by rw [hwritten, htokens]⟩

/-- Both readings go on with parameters in angle brackets. -/
def ParamsStart (m : Mode) (g : Grammar) : Follow :=
  AngleThen m isLifetimeParam (genericParam g) (ParamStart m)

theorem genericParams_eq (g : Grammar) :
    genericParams g = (peek (isOp "<") >>= fun b =>
      if b = true then writtenIfAny (angleList true isLifetimeParam (genericParam g))
      else pure []) := by
  rw [← angleList_false]
  rfl

/-- Lists of generic parameters are read the same again. -/
theorem genericParams_replays (hg : ∀ m, Knot m size g g') {End : Follow}
    (hEnd : ∀ u u', End u u' → isOp "<" u' = false) :
    Replays m (size + 1) 0 (fun _ => End) (genericParams g) (genericParams g')
      (Optional m (isOp "<") (ParamsStart m g) End) := by
  rw [genericParams_eq, genericParams_eq]
  refine optional_replays ((angleList_replays (genericParam_replays hg) fun _ _ h => h.toLead).after
    fun _ _ _ _ => trivial) (fun u u' _ h => ?_) hEnd
  exact (isOp_iff_kind rfl (by decide)).mpr (h.angleStart.kind_eq.symm.trans h.angleStart.starts)

theorem many_apply_false {α : Type} {question : Peek} {p : Parser α} {c : Cursor}
    (h : question c.rest = false) : many question p c = some ([], c) := by
  refine repeated_eq_some.mpr ⟨Nat.zero_le _, .stop ?_⟩
  rw [peek_bind_apply, h]
  rfl

/-- A lifetime among parameters starts as one, or with its attributes. -/
theorem starts_of_isLifetimeParam {c d : Cursor} {node : Node}
    (h : genericParam g c = some (node, d)) (hlifetime : isLifetimeParam node = true) :
    isOp "#" c.rest = true ∨ isLifetime c.rest = true := by
  cases hhash : isOp "#" c.rest with
  | true => exact .inl rfl
  | false =>
      right
      have hattrs : outerAttrs g c = some ([], c) := many_apply_false hhash
      unfold genericParam at h
      rw [bind_of_eq_some hattrs, peek_bind_apply] at h
      split at h
      next hyes => exact hyes
      next =>
          rw [peek_bind_apply] at h
          split at h
          next =>
              obtain ⟨name, e₁, -, h⟩ := bind_eq_some.mp h
              obtain ⟨bounds, e₂, -, h⟩ := bind_eq_some.mp h
              obtain ⟨default, e₃, -, h⟩ := bind_eq_some.mp h
              obtain ⟨rfl, -⟩ := pure_eq_some.mp h
              cases hlifetime
          next =>
              obtain ⟨const, e₁, -, h⟩ := bind_eq_some.mp h
              split at h
              next =>
                  obtain ⟨name, e₂, -, h⟩ := bind_eq_some.mp h
                  obtain ⟨_, e₃, -, h⟩ := bind_eq_some.mp h
                  obtain ⟨ty, e₄, -, h⟩ := bind_eq_some.mp h
                  obtain ⟨default, e₅, -, h⟩ := bind_eq_some.mp h
                  obtain ⟨rfl, -⟩ := pure_eq_some.mp h
                  cases hlifetime
              next =>
                  obtain ⟨-, h⟩ := require_peek_bind.mp h
                  obtain ⟨name, e₂, -, h⟩ := bind_eq_some.mp h
                  obtain ⟨rfl, -⟩ := pure_eq_some.mp h
                  cases hlifetime

/-- Parameters are told from a type once more. -/
theorem ParamsStart.generics (h : ParamsStart m g u u') (hstart : isGenericsStart u = true) :
    isGenericsStart u' = true := by
  obtain ⟨joint, joint', t, t', rfl, rfl, -, hcases⟩ := h
  rw [isGenericsStart_angle] at hstart ⊢
  rcases hcases with ⟨-, hclose⟩ | ⟨v, hparam, hopen, rfl | ⟨hm, node, d, hrun, hlifetime⟩⟩
  · exact .inl hclose
  · refine .inr (hparam.again ?_)
    rcases hstart with hclose | hstart
    · exact absurd (hclose.symm.trans hopen) (by decide)
    · exact hstart
  · exact .inr (hparam.moved hm (starts_of_isLifetimeParam hrun hlifetime))

/-! ## Conditions -/

instance : Stable isPredicateEnd :=
  inferInstanceAs (Stable (anyOf [List.isEmpty, isGroup .brace, isOp ",", isOp ";",
    (isOp ":").butNot (isOp "::"), isOp "="]))

/-- Tokens that may follow the conditions of an item. -/
def endsWhere : Peek := anyOf [isGroup .brace, isOp ";", isOp "="]

instance : Headed endsWhere :=
  inferInstanceAs (Headed (anyOf [isGroup .brace, isOp ";", isOp "="]))

/-- What may follow the conditions of an item. -/
structure WhereEnds (u u' : List Token) : Prop extends Lead u u' where
  left : endsWhere u = true

def PredicateEnds : Follow := Either (isOp ",") Lead WhereEnds

theorem closesType_of_endsWhere (h : endsWhere u = true) : closesType (kind u) = true := by
  simp only [endsWhere, anyOf, List.any_cons, List.any_nil, Bool.or_false, Bool.or_eq_true] at h
  rcases h with h | h | h
  · rw [kind_of_isGroup h]
    rfl
  · rw [kind_of_isOp (rfl : ";".toList = [';']) (by decide) h]
    rfl
  · rw [kind_of_isOp (rfl : "=".toList = ['=']) (by decide) h]
    rfl

theorem WhereEnds.right (h : WhereEnds u u') : endsWhere u' = true :=
  (Stable.eq_of_lead h.toLead).symm.trans h.left

/-- What a brace, a semicolon and an equals sign answer. -/
theorem answer_of_endsWhere {question : Peek} [hq : Headed question] {answer : Bool}
    (h : endsWhere u = true) (hbrace : question [.group .brace []] = answer)
    (hsemicolon : question [.punct ';' false] = answer)
    (hassign : question [.punct '=' false] = answer) : question u = answer := by
  simp only [endsWhere, anyOf, List.any_cons, List.any_nil, Bool.or_false, Bool.or_eq_true] at h
  rcases h with h | h | h
  · exact (hq.eq_of_kind_eq (kind_of_isGroup h)).trans hbrace
  · exact (hq.eq_of_kind_eq (kind_of_isOp rfl (by decide) h)).trans hsemicolon
  · exact (hq.eq_of_kind_eq (kind_of_isOp rfl (by decide) h)).trans hassign

theorem WhereEnds.typeEnds (h : WhereEnds u u') : TypeEnds u u' :=
  typeEnds_of_closesType (closesType_of_endsWhere h.right)

theorem PredicateEnds.lead (h : PredicateEnds u u') : Lead u u' :=
  h.elim (fun _ h => h) fun _ h => h.toLead

theorem PredicateEnds.typeEnds (h : PredicateEnds u u') : TypeEnds u u' :=
  h.elim (fun hcomma h => h.typeEnds_of_comma hcomma) fun _ h => h.typeEnds

/-- Whether a condition on a lifetime comes next. -/
def isLifetimePredicate : Peek := isLifetime.and (second (isOp ":"))

theorem not_isPredicateEnd (h : kind u = .punct '?') : isPredicateEnd u = false := by
  have hu : ∀ {question : Peek} [Headed question], question u = question [.punct '?' false] :=
    Headed.eq_of_kind_eq h
  simp only [isPredicateEnd, anyOf, Peek.butNot, List.any_cons, List.any_nil, Bool.or_false,
    (hu : List.isEmpty u = _), (hu : isGroup .brace u = _), (hu : isOp "," u = _),
    (hu : isOp ";" u = _), (hu : isOp ":" u = _), (hu : isOp "=" u = _)]
  rfl

/-- The bounds of a type in a condition are read the same again. -/
theorem predicateBounds_replays (hg : ∀ m, Knot m size g g') (f : List Node → Node) :
    Replays m size 0 (fun _ => PredicateEnds)
      (do op ":"; return f (← plusList isPredicateEnd (bound g ⟨false, true⟩)))
      (do op ":"; return f (← plusList isPredicateEnd (bound g' ⟨false, true⟩))) Colon := by
  have hbounds := boundList_replays (m := m) hg ⟨false, true⟩ isPredicateEnd PredicateEnds
    (fun _ _ h => h.typeEnds)
    (fun _ _ hno h => h.elim (fun h => (Stable.eq_of_lead h).symm.trans hno)
      fun h => not_isPredicateEnd h.2.2)
    fun _ _ hyes h => (Stable.eq_of_lead h.lead).symm.trans hyes
  refine ((op_colon_replays _ ?_).bind _ (fun _ => hbounds.smaller.wrap) fun _ _ _ h => h).before
    fun _ _ h => h.toColon
  rintro u u' h rfl
  exact h.elim (fun _ h => h.lead) fun _ h => h.lead

/-- The bounds of a lifetime in a condition are read the same again. -/
theorem predicateLifetimes_replays (f : List Node → Node) :
    Replays m size 0 (fun _ => PredicateEnds)
      (do op ":"; return f (← plusList isPredicateEnd (return Node.lifetime (← lifetime))))
      (do op ":"; return f (← plusList isPredicateEnd (return Node.lifetime (← lifetime)))) Colon := by
  have hlifetimes : Replays m size 0 (fun _ => PredicateEnds)
      (plusList isPredicateEnd (return Node.lifetime (← lifetime)))
      (plusList isPredicateEnd (return Node.lifetime (← lifetime))) Lead :=
    (lifetimes_replays isPredicateEnd PredicateEnds
      (fun _ _ hyes h => (Stable.eq_of_lead h.lead).symm.trans hyes)
      fun _ _ h => h.typeEnds.plus).before fun _ _ h => h.elim (fun _ h => h.lead) fun _ h => h
  exact op_colon.bind Lead (fun _ => hlifetimes.wrap) fun _ _ _ h => h

/-- Conditions on types are read the same again. -/
theorem predicate_replays (hg : ∀ m, Knot m size g g') :
    Replays m size 1 (fun _ => PredicateEnds) (predicate g) (predicate g') Lead := by
  have htype : ∀ lifetimes, Replays m size 1 (fun _ => PredicateEnds)
      (g (.ty true) >>= fun ty => op ":" >>= fun _ =>
        plusList isPredicateEnd (bound g ⟨false, true⟩) >>= fun bounds =>
          pure (Node.typePredicate lifetimes ty bounds))
      (g' (.ty true) >>= fun ty => op ":" >>= fun _ =>
        plusList isPredicateEnd (bound g' ⟨false, true⟩) >>= fun bounds =>
          pure (Node.typePredicate lifetimes ty bounds)) (TypeStart Colon) := fun lifetimes =>
    ((hg m).ty true Colon fun _ _ h => h.typeEnds).keep Colon
      (fun ty => predicateBounds_replays hg (.typePredicate lifetimes ty)) fun _ _ _ h => h
  unfold predicate
  refine (Replays.choice ?_ ?_ fun _ _ h => h.2 : Replays _ _ _ _ _ _
    fun u u' => Lead u u' ∧ isLifetimePredicate u' = isLifetimePredicate u).before fun _ _ h => h.1
  · refine ((lifetime_replays Colon).keep _ (fun name =>
      predicateLifetimes_replays (.lifetimePredicate name)) fun _ _ _ h => h).before ?_
    rintro u u' ⟨name, r, r', rfl, rfl, hcolon⟩ hyes
    refine ⟨.lifetime _ _ _, Eq.trans ?_ hyes.symm⟩
    exact (isOp_iff_kind rfl (by decide)).mpr hcolon.kind_right
  · refine (Replays.choiceWhen ?_ ?_ fun u u' h => (Stable.eq_of_lead h.1).symm :
      Replays _ _ _ _ _ _ fun u u' => Lead u u' ∧ isLifetimePredicate u' = false).before
      fun u u' h hno => ⟨h.1, h.2.trans hno.symm⟩
    · refine ((boundLifetimes_replays (hg m)).smaller.keep Any (fun lifetimes =>
        ((htype (some lifetimes)).forget.before fun _ _ _ => trivial)) fun _ _ _ _ => trivial).before ?_
      rintro u u' ⟨name, r, r', rfl, rfl, -⟩ -
      exact ⟨.word _ _ _, rfl⟩
    · refine (htype none).before fun u u' h _ => ⟨h.toLead, ?_⟩
      rw [isLifetimePredicate, Peek.and]
      cases hyes : isLifetime u with
      | false => rw [(Stable.eq_of_lead h.toLead).symm.trans hyes, Bool.false_and]
      | true =>
          have hplus : kind (afterOne u') = .punct '+' := kind_of_isOp rfl (by decide) (h.lifetime hyes)
          rw [second, isOp_of_kind (rfl : ":".toList = [':']) (by decide)
            (by rw [hplus]; decide), Bool.and_false]

theorem predicates_go_replays (hg : ∀ m, Knot m size g g') (fuel : Nat) :
    Fueled m size 0 1 (fun _ => WhereEnds) (predicates.go g fuel) (predicates.go g')
      (Either isPredicateEnd WhereEnds Lead) := by
  induction fuel with
  | zero => exact fun _ _ _ hrun => nomatch hrun
  | succ fuel ih =>
      refine .step (.choice ?_ ?_ fun u u' h => ?_)
      · exact (Fueled.of_replays (.pure [])).before fun u u' h hyes => .yes hyes h
      · refine (Fueled.bind (predicate_replays hg) (fun _ => PredicateEnds) (fun first => ?_)
          (fun _ _ _ h => h) (Nat.le_refl _)).before fun u u' h hno => .no hno h
        refine .choiceOp ?_ ?_ fun u u' h => (Stable.eq_of_lead h.lead).symm
        · exact (Fueled.bind (op_closed ",") (fun _ => Any) (fun _ =>
            (ih.result fun _ _ _ h => h).before fun _ _ _ => trivial) (fun _ _ _ h => h)
            (Nat.le_succ _)).before fun u u' h hyes => .yes hyes h
        · exact (Fueled.of_replays (.pure [first])).before fun u u' h hno => .no hno h
      · exact h.elim (fun _ h => (Stable.eq_of_lead h.toLead).symm)
          fun _ h => (Stable.eq_of_lead h).symm

/-- Lists of conditions are read the same again. -/
theorem predicates_replays (hg : ∀ m, Knot m size g g') :
    Replays m size 0 (fun _ => WhereEnds) (predicates g) (predicates g') Lead :=
  (Fueled.replays (predicates_go_replays hg)).before fun _ _ h =>
    h.elim (fun _ h => h.toLead) fun _ h => h

/-- Both readings go on with conditions, or with what follows them. -/
def WhereStart (m : Mode) : Follow := Optional m (isWord "where") Lead WhereEnds

/-- Conditions behind `where` are read the same again. -/
theorem whereClause_replays (hg : ∀ m, Knot m size g g') :
    Replays m size 0 (fun _ => WhereEnds) (whereClause g) (whereClause g') (WhereStart m) := by
  have hlist : Replays m size 1 (fun _ => WhereEnds) (do word "where"; predicates g)
      (do word "where"; predicates g') Lead :=
    (word_closed "where").keep Lead (fun _ => predicates_replays hg) fun _ _ _ _ => trivial
  exact optional_replays hlist (fun u u' hyes h => (Stable.eq_of_lead h).symm.trans hyes)
    fun u u' h => answer_of_endsWhere h.right rfl rfl rfl

/-- What follows in the second reading: conditions, or one of the tokens after them. -/
theorem WhereStart.right (h : WhereStart m u u') :
    isWord "where" u' = true ∨ endsWhere u' = true := by
  cases h with
  | present _ hright _ => exact .inl hright
  | absent _ hends => exact .inr hends.right
  | dropped _ _ r hends => exact .inr hends.right

theorem WhereStart.left (h : WhereStart m u u') :
    isWord "where" u = true ∨ endsWhere u = true := by
  cases h with
  | present hleft _ _ => exact .inl hleft
  | absent _ hends => exact .inr hends.left
  | dropped _ hleft _ _ => exact .inl hleft

theorem WhereStart.typeEnds (h : WhereStart m u u') : TypeEnds u u' := by
  cases h with
  | present hleft _ hlead =>
      refine hlead.typeEnds ?_
      rw [kind_of_isWord hleft]
      rfl
  | absent _ hends => exact hends.typeEnds
  | dropped _ _ r hends => exact typeEnds_of_closesType (closesType_of_endsWhere hends.right)

end ActionUnits.Source
