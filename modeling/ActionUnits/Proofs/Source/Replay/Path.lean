import ActionUnits.Proofs.Source.Replay.Attribute

/-! # Replaying paths

A path ends where no further segment and no arguments follow. The segments of a
path are read back one by one; after each of them come arguments, a further
segment, or what follows the path.
-/

namespace ActionUnits.Source

variable {m : Mode} {size : Nat} {g g' : Grammar} {P : Follow} {u u' : List Token}

/-! ## Segments -/

/-- Whether arguments in angle brackets follow a name. -/
def asksArguments (inExpr : Bool) : Peek := fun tokens =>
  (!inExpr && opensArguments tokens) || isTurbofish tokens

/-- Both readings go on with arguments in angle brackets, perhaps after two colons. -/
structure ArgumentsStart (u u' : List Token) : Prop extends Lead u u' where
  right : kind u' = .punct '<' ∨ isTurbofish u' = true

theorem opensArguments_kind (h : opensArguments u = true) : kind u = .punct '<' :=
  kind_of_isOp rfl (by decide) ((Bool.and_eq_true _ _).mp h).1

theorem asksArguments_replayed {inExpr : Bool} (hlead : Lead u u')
    (hangle : isOp "::" u = false → AngleStart u u') (h : asksArguments inExpr u = true) :
    ArgumentsStart u u' ∧ asksArguments inExpr u' = true := by
  rcases (Bool.or_eq_true _ _).mp h with hopens | hfish
  · obtain ⟨hinExpr, hopens⟩ := (Bool.and_eq_true _ _).mp hopens
    have hkind := opensArguments_kind hopens
    have hpath : isOp "::" u = false := isOp_of_kind rfl (by decide) (by rw [hkind]; decide)
    have hless := (hangle hpath).less
    obtain ⟨hop, hle⟩ := (Bool.and_eq_true _ _).mp hopens
    have hop' : isOp "<" u' = true := (Stable.eq_of_lead hlead).symm.trans hop
    have hopens' : opensArguments u' = true := by
      rw [opensArguments, Peek.butNot, hop', hless (by simpa using hle)]
      rfl
    refine ⟨⟨hlead, .inl (hlead.kind_eq.symm.trans hkind)⟩, ?_⟩
    rw [asksArguments, hinExpr, hopens']
    rfl
  · have hfish' : isTurbofish u' = true := (Stable.eq_of_lead hlead).symm.trans hfish
    exact ⟨⟨hlead, .inr hfish'⟩, by rw [asksArguments, hfish', Bool.or_true]⟩

/-- The arguments of a segment are read the same again. -/
theorem arguments_replays (hg : Knot m size g g') (inExpr : Bool) (name : Ident)
    (hP : ∀ r r', P r r' → PathEnds inExpr r r') :
    Replays m size 0 (fun _ => P)
      (peek (asksArguments inExpr) >>= fun b =>
        if b = true then op? "::" >>= fun _ => g .angleArguments >>= fun arguments =>
          pure (Node.segment name (some arguments))
        else pure (Node.segment name none))
      (peek (asksArguments inExpr) >>= fun b =>
        if b = true then op? "::" >>= fun _ => g' .angleArguments >>= fun arguments =>
          pure (Node.segment name (some arguments))
        else pure (Node.segment name none))
      (Either (asksArguments inExpr) ArgumentsStart P) := by
  have hangle : Replays m size 0 (fun _ => P)
      (g .angleArguments >>= fun arguments => pure (Node.segment name (some arguments)))
      (g' .angleArguments >>= fun arguments => pure (Node.segment name (some arguments)))
      AngleStart :=
    hg.angle.forget.result fun _ _ _ _ => trivial
  have harguments : Replays m size 0 (fun _ => P)
      (op? "::" >>= fun _ => g .angleArguments >>= fun arguments =>
        pure (Node.segment name (some arguments)))
      (op? "::" >>= fun _ => g' .angleArguments >>= fun arguments =>
        pure (Node.segment name (some arguments)))
      fun u u' => Lead u u' ∧ (isOp "::" u = false → AngleStart u u') := by
    refine .choiceOp ?_ ?_ fun u u' h => h.1.path_eq.symm
    · refine (op_path.bind AngleStart (fun _ => hangle) fun _ _ _ h => h.kind_eq).before ?_
      exact fun u u' h hyes => ⟨h, fun hno => absurd (hyes.symm.trans hno) (by decide)⟩
    · exact hangle.before fun u u' h hno => ⟨h.toLead, fun _ => h⟩
  refine (Replays.choice ?_ ?_ ?_ : Replays _ _ _ _ _ _ (Either (asksArguments inExpr)
    (fun u u' => ArgumentsStart u u' ∧ asksArguments inExpr u' = true) P)).before ?_
  · exact harguments.before fun u u' h hyes => .yes hyes (asksArguments_replayed h.1 h.2 hyes)
  · exact (Replays.pure _).before fun u u' h hno => .no hno h
  · refine fun u u' h => h.elim (fun hyes h => by rw [hyes, h.2]) fun hno h => ?_
    have hends := hP u u' h
    obtain ⟨hopens, hfish⟩ := (Bool.or_eq_false_iff).mp hno
    rw [hno, asksArguments, hends.turbofish hfish, Bool.or_false]
    cases inExpr with
    | false => exact hends.opens rfl hopens
    | true => rfl
  · exact fun u u' h => h.elim (fun hyes h => .yes hyes h.1) fun hno h => .no hno h

def SegmentThen (P : Follow) : Follow := fun r r' => P r r' ∨ ArgumentsStart r r'

/-- Segments of paths are read the same again. -/
theorem pathSegment_replays (hg : Knot m size g g') (inExpr : Bool)
    (hP : ∀ r r', P r r' → PathEnds inExpr r r') :
    Replays m (size + 1) 1 (fun _ => P) (pathSegment g inExpr) (pathSegment g' inExpr)
      (WordThen (SegmentThen P)) := by
  have hplain : ∀ (f : Ident → Node), Replays m (size + 1) 1 (fun _ => P)
      (anyWord >>= fun name => pure (f name)) (anyWord >>= fun name => pure (f name))
      (WordThen (SegmentThen P)) := by
    intro f
    refine (Replays.map (anyWord_replays P)).before ?_
    rintro u u' ⟨name, r, r', rfl, rfl, h⟩
    exact ⟨name, r, r', rfl, rfl, .inl h⟩
  have hmid : ∀ (_ : Ident) r r', Either (asksArguments inExpr) ArgumentsStart P r r' →
      SegmentThen P r r' := fun _ r r' h => h.elim (fun _ h => .inr h) fun _ h => .inl h
  unfold pathSegment
  refine .ite (fun _ _ h => h.lead) (hplain _) (.ite (fun _ _ h => h.lead) ?_ ?_)
  · exact (anyWord_replays _).head _ (fun name => arguments_replays hg inExpr name hP) hmid
  · exact (ident_replays _).head _ (fun name => arguments_replays hg inExpr name hP) hmid

/-! ## Paths -/

/-- Whether a segment of a path comes next. -/
def isPathWord : Peek := isIdent.or (isOneOf ["super", "self", "crate", "try", "Self"])

/-- A segment starts with a word. -/
theorem isPathWord_of_pathSegment {inExpr : Bool} {c d : Cursor} {a : Node}
    (h : pathSegment g inExpr c = some (a, d)) : isPathWord c.rest = true := by
  unfold isPathWord Peek.or isOneOf
  simp only [List.any_cons, List.any_nil, Bool.or_false, Bool.or_eq_true]
  unfold pathSegment at h
  rw [peek_bind_apply] at h
  split at h
  next hword =>
      simp only [isOneOf, List.any_cons, List.any_nil, Bool.or_false, Bool.or_eq_true] at hword
      tauto
  next =>
      rw [peek_bind_apply] at h
      dsimp only at h
      split at h
      next hself => tauto
      next =>
          obtain ⟨name, e, hname, -⟩ := bind_eq_some.mp h
          exact .inl (require_peek_bind.mp hname).1

theorem kind_of_isPathWord (h : isPathWord u = true) :
    ∃ name rest, u = .ident name :: rest ∧ startsType (.word name) = true := by
  cases u with
  | nil => cases h
  | cons token rest =>
      cases token with
      | ident name =>
          refine ⟨name, rest, rfl, ?_⟩
          obtain ⟨text⟩ := name
          by_contra hno
          simp only [startsType, List.contains_eq_mem, List.mem_cons, List.not_mem_nil, or_false,
            Bool.not_eq_true', decide_eq_false_iff_not, not_not] at hno
          rcases hno with rfl | rfl
          · cases h
          · cases h
      | punct char joint => cases h
      | literal text => cases h
      | group delimiter body => cases h

theorem isTurbofish_third (h : isTurbofish u = true) :
    isOp "::" u = true ∧ kind (u.drop 2) ≠ .punct ':' := by
  obtain ⟨hpath, hless⟩ := (Bool.and_eq_true _ _).mp h
  rw [third_of_path hpath] at hless
  refine ⟨hpath, ?_⟩
  rw [kind_of_isOp (rfl : "<".toList = ['<']) (by decide) hless]
  decide

/-- What follows a name in a path: two colons, arguments, or what follows the path. -/
def PathThen (P : Follow) : Follow := fun r r' =>
  (goesOn r = false ∧ P r r') ∨
    (Lead r r' ∧ (kind r' = .punct '<' ∨ (isOp "::" r' = true ∧ kind (r'.drop 2) ≠ .punct ':')))

/-- Both readings go on with a path that `P` relates the tokens after. -/
structure PathStart (P : Follow) (u u' : List Token) : Prop extends Lead u u' where
  starts : isPathWord u = true ∨ isOp "::" u = true
  word : ∀ name r r', u = .ident name :: r → u' = .ident name :: r' → PathThen P r r'

/-- No operator starts a path. -/
theorem PathStart.noOperator (h : PathStart P u u') : isNoOperator (kind u') = true := by
  rw [← h.kind_eq]
  rcases h.starts with hword | hpath
  · obtain ⟨name, rest, rfl, -⟩ := kind_of_isPathWord hword
    rfl
  · rw [kind_of_isOp (rfl : "::".toList = [':', ':']) (by decide) hpath]
    rfl

/-- Both readings go on with a further segment of a path. -/
structure TailStart (u u' : List Token) : Prop extends Lead u u' where
  right : kind (u'.drop 2) ≠ .punct ':'

/-- Before a further segment of a path, or at its end. -/
def PathTail (P : Follow) : Follow := Either goesOn TailStart P

theorem goesOn_path (h : goesOn u = true) : isOp "::" u = true := ((Bool.and_eq_true _ _).mp h).1

theorem Lead.pathEnds_of_path {inExpr : Bool} (h : Lead u u') (hpath : isOp "::" u = true) :
    PathEnds inExpr u u' := by
  refine ⟨h.pathEnds.turbofish, h.pathEnds.goesOn, h.pathEnds.path, fun _ => .of_imp ?_⟩
  intro hopens
  have hkind := kind_of_isOp (rfl : "::".toList = [':', ':']) (by decide) hpath
  rw [h.kind_eq, opensArguments_kind hopens] at hkind
  exact absurd hkind (by decide)

theorem PathTail.ends {inExpr : Bool} (hP : ∀ r r', P r r' → PathEnds inExpr r r')
    (h : PathTail P u u') : PathEnds inExpr u u' :=
  h.elim (fun hyes h => h.toLead.pathEnds_of_path (goesOn_path hyes)) fun _ h => hP u u' h

/-- Further segments of a path are read the same again. -/
theorem restOfPath_replays (hg : Knot m size g g') (inExpr : Bool)
    (hP : ∀ r r', P r r' → PathEnds inExpr r r') :
    Replays m (size + 1) 0 (fun _ => P) (restOfPath g inExpr) (restOfPath g' inExpr)
      (PathTail P) := by
  have hnext : Replays m (size + 1) 1 (fun _ => PathEnds inExpr)
      (do op "::"; pathSegment g inExpr) (do op "::"; pathSegment g' inExpr) TailStart := by
    have hsegment := pathSegment_replays hg inExpr fun r r' (h : PathEnds inExpr r r') => h
    refine ((op_path_replays _ fun _ _ h => h.lead.kin).keep _ (fun _ => hsegment.forget)
      fun _ _ _ h => h).before fun u u' h => ⟨h.1, ?_⟩
    obtain ⟨name, r, r', -, hr', -⟩ := h.2.drop
    change u'.drop 2 = _ at hr'
    rw [hr']
    nofun
  refine many_replays hnext ?_ ?_ ?_
  · exact fun u u' hyes h => (Stable.eq_of_lead h.toLead).symm.trans hyes
  · exact fun u u' hno h => (hP u u' h).goesOn hno
  · exact fun u u' (h : PathTail P u u') => h.ends hP

/-- Paths are read the same again. -/
theorem path_replays (hg : Knot m size g g') (inExpr : Bool)
    (hP : ∀ r r', P r r' → PathEnds inExpr r r') :
    Replays m (size + 1) 1 (fun _ => P) (path g inExpr) (path g' inExpr) (PathStart P) := by
  have hnames : ∀ rooted, Replays m (size + 1) 1 (fun _ => P)
      (pathSegment g inExpr >>= fun first => restOfPath g inExpr >>= fun others =>
        pure (Node.path rooted (first :: others)))
      (pathSegment g' inExpr >>= fun first => restOfPath g' inExpr >>= fun others =>
        pure (Node.path rooted (first :: others)))
      fun u u' => isPathWord u = true ∧ WordThen (SegmentThen (PathTail P)) u u' := by
    intro rooted
    have hsegment := pathSegment_replays hg inExpr fun r r' (h : PathTail P r r') => h.ends hP
    refine (hsegment.noting isPathWord_of_pathSegment).keep _ (fun first => ?_) fun _ _ _ h => h
    exact (restOfPath_replays hg inExpr hP).map
  unfold path
  refine .choiceOp ?_ ?_ fun u u' h => h.path_eq.symm
  · refine ((op_path_replays _ fun _ _ h => h.2.lead.kin).keep _ (fun _ => (hnames true).forget)
      fun _ _ _ h => h).before ?_
    rintro u u' ⟨hlead, -⟩ hyes
    refine ⟨hlead, .inr hyes, ?_⟩
    rintro name r r' rfl
    cases hyes
  · refine (hnames false).before ?_
    rintro u u' ⟨hstarts, name, r, r', rfl, rfl, hseg⟩ -
    refine ⟨.word _ _ _, .inl hstarts, fun _ _ _ hu hu' => ?_⟩
    cases hu
    cases hu'
    refine hseg.elim (fun h => h.elim (fun hyes h => .inr ⟨h.toLead, .inr ⟨?_, h.right⟩⟩)
      fun hno h => .inl ⟨hno, h⟩) fun h => .inr ⟨h.toLead, h.right.imp id isTurbofish_third⟩
    exact h.path_eq.symm.trans (goesOn_path hyes)

/-! ## Qualified paths -/

/-- What follows the type that a qualified path starts from. -/
structure SelfEnds (u u' : List Token) : Prop extends Lead u u' where
  left : isWord "as" u = true ∨ isOp ">" u = true

theorem Lead.typeEnds_of_close (h : Lead u u') (hclose : isOp ">" u = true) : TypeEnds u u' := by
  refine h.typeEnds ?_
  rw [kind_of_isOp (rfl : ">".toList = ['>']) (by decide) hclose]
  rfl

theorem kind_of_isWord {text : String} (h : isWord text u = true) : kind u = .word ⟨text⟩ := by
  unfold isWord at h
  split at h
  next name _ =>
      obtain ⟨name⟩ := name
      rw [← eq_of_beq h]
      rfl
  next => cases h

theorem SelfEnds.typeEnds (h : SelfEnds u u') : TypeEnds u u' := by
  refine h.left.elim (fun has => h.toLead.typeEnds ?_) h.toLead.typeEnds_of_close
  rw [kind_of_isWord has]
  rfl

/-- Both readings go on with a path that may start from a type. -/
structure QualifiedStart (P : Follow) (u u' : List Token) : Prop extends Lead u u' where
  starts : isPathWord u = true ∨ isOp "::" u = true ∨ isOp "<" u = true
  path : isOp "<" u = false → PathStart P u u'
  generics : Absent isGenericsStart u u'
  less : isOp "<=" u' = false
  ops : ∀ text ∈ longOps, isOp text u' = true → isOp text u = true

theorem Absent.generics_of_lead (h : Lead u u') (hno : isOp "<" u = false) :
    Absent isGenericsStart u u' := by
  have : isOp "<" u' = false := (Stable.eq_of_lead h).symm.trans hno
  exact .of_not (by rw [isGenericsStart, Peek.and, this, Bool.false_and])

/-- Whether what follows a name ends it as a generic parameter. -/
def endsParam : Peek := anyOf [isOp ">", isOp ",", (isOp ":").butNot (isOp "::"), isOp "="]

instance : Stable endsParam :=
  inferInstanceAs (Stable (anyOf [isOp ">", isOp ",", (isOp ":").butNot (isOp "::"), isOp "="]))

/-- What follows an angle bracket tells whether generic parameters start there. -/
theorem isGenericsStart_angle (joint : Bool) (tokens : List Token) :
    isGenericsStart (.punct '<' joint :: tokens) = true ↔ isOp ">" tokens = true ∨
      isOp "#" tokens = true ∨ isWord "const" tokens = true ∨
      ((isLifetime tokens = true ∨ isIdent tokens = true) ∧ endsParam (afterOne tokens) = true) := by
  change (isOp ">" tokens || (isOp "#" tokens || (isWord "const" tokens ||
    (((isLifetime tokens || isIdent tokens) && endsParam (afterOne tokens)) || false)))) = true ↔ _
  simp only [Bool.or_eq_true, Bool.and_eq_true, Bool.or_false]

/-- A parameter ends in front of one of four marks. -/
theorem kind_of_endsParam (h : endsParam u = true) :
    kind u ∈ ['>', ',', ':', '='].map Kind.punct := by
  simp only [endsParam, anyOf, List.any_cons, List.any_nil, Bool.or_false, Bool.or_eq_true] at h
  rcases h with h | h | h | h
  · rw [kind_of_isOp (rfl : ">".toList = ['>']) (by decide) h]
    decide
  · rw [kind_of_isOp (rfl : ",".toList = [',']) (by decide) h]
    decide
  · rw [kind_of_isOp (rfl : ":".toList = [':']) (by decide) ((Bool.and_eq_true _ _).mp h).1]
    decide
  · rw [kind_of_isOp (rfl : "=".toList = ['=']) (by decide) h]
    decide

theorem exists_of_isIdent (h : isIdent u = true) :
    ∃ name rest, u = .ident name :: rest ∧ isKeyword name = false := by
  unfold isIdent at h
  split at h
  next name rest => exact ⟨name, rest, rfl, by simpa using h⟩
  next => cases h

theorem not_insideType (h : endsParam u = true) : insideType u = false := by
  unfold insideType
  simp only [endsParam, anyOf, List.any_cons, List.any_nil, Bool.or_false, Bool.or_eq_true] at h
  simp only [anyOf, List.any_cons, List.any_nil, Bool.or_false, Bool.not_eq_false', Bool.or_eq_true]
  change _ ∨ _ ∨ isColon u = true ∨ _ at h
  tauto

/-- The type in the brackets tells a qualified path from generic parameters. -/
theorem TypeStart.generics_angle (h : OpThen m "<" (TypeStart SelfEnds) u u') :
    Absent isGenericsStart u u' := by
  obtain ⟨joint, joint', t, t', rfl, rfl, -, hstart⟩ := h.single '<' rfl
  refine .of_imp fun hyes => ?_
  rw [isGenericsStart_angle] at hyes ⊢
  have hstarts := hstart.starts
  rcases hyes with hclose | hhash | hconst | ⟨hname, hends⟩
  · exact .inl ((Stable.eq_of_lead hstart.toLead).trans hclose)
  · exact .inr (.inl ((Stable.eq_of_lead hstart.toLead).trans hhash))
  · exact .inr (.inr (.inl ((Stable.eq_of_lead hstart.toLead).trans hconst)))
  · refine .inr (.inr (.inr ?_))
    rcases hname with hlifetime | hident
    · have hlifetime : isLifetime t = true := (Stable.eq_of_lead hstart.toLead).trans hlifetime
      have hplus : kind (afterOne t') = .punct '+' :=
        kind_of_isOp rfl (by decide) (hstart.lifetime hlifetime)
      have hmem := kind_of_endsParam hends
      rw [hplus] at hmem
      exact absurd hmem (by decide)
    · have hident' : isIdent t = true := (Stable.eq_of_lead hstart.toLead).trans hident
      obtain ⟨name, r, rfl, -⟩ := exists_of_isIdent hident'
      obtain ⟨name', r', rfl, -⟩ := exists_of_isIdent hident
      obtain rfl : name = name' := Kind.word.inj hstart.kind_eq
      refine ⟨.inr hident', ?_⟩
      change endsParam r' = true at hends
      change endsParam r = true
      have hname : isTypeWord (.ident name :: r) = true := by
        rw [isTypeWord, Peek.or, hident', Bool.true_or]
      refine (hstart.word hname name r r' rfl rfl).elim (fun h => ?_) fun h => ?_
      · exact (Stable.eq_of_lead h.toLead).trans hends
      · exact absurd (h.symm.trans (not_insideType hends)) (by decide)

/-- No operator starts with a bracket that a type follows, except for two brackets. -/
theorem TypeStart.less_angle (h : OpThen m "<" (TypeStart P) u u') : isOp "<=" u' = false := by
  obtain ⟨joint, joint', t, t', rfl, rfl, -, hstart⟩ := h.single '<' rfl
  refine Bool.eq_false_iff.mpr fun hyes => ?_
  obtain ⟨joint, r, heq⟩ := @exists_of_isOp_two "<=" '<' '=' rfl _ hyes
  have hstarts := hstart.starts
  rw [hstart.kind_eq, (List.cons.inj heq).2, kind_punct (by decide)] at hstarts
  cases hstarts

theorem TypeStart.ops_angle (h : OpThen m "<" (TypeStart P) u u') :
    ∀ text ∈ longOps, isOp text u' = true → isOp text u = true := by
  have hless := TypeStart.less_angle h
  obtain ⟨joint, joint', t, t', rfl, rfl, hjoint, hstart⟩ := h.single '<' rfl
  have hlonger : ∀ text ∈ longOps, text.toList.head? = some '<' →
      text = "<<=" ∨ text = "<<" ∨ text = "<=" := by decide
  intro text htext hyes
  have hhead : text.toList.head? = some '<' := by
    rw [isOp] at hyes
    cases hchars : text.toList with
    | nil => exact absurd hchars (ne_nil_of_nextIsOp hyes)
    | cons char chars =>
        rw [hchars] at hyes
        obtain ⟨_, _, heq⟩ := exists_of_nextIsOp hyes
        cases heq
        rfl
  rcases hlonger text htext hhead with rfl | rfl | rfl
  · cases joint' with
    | false => cases hyes
    | true => exact absurd (hstart.less.symm.trans hyes) (by decide)
  · cases joint' with
    | false => cases hyes
    | true =>
        obtain rfl := hjoint rfl
        have heq : isOp "<" t = isOp "<" t' := Stable.eq_of_lead hstart.toLead
        exact heq.trans hyes
  · exact absurd (hless.symm.trans hyes) (by decide)

/-- The segments of a qualified path, after its type. -/
theorem qualifiedSegments_replays (hg : Knot m size g g') (inExpr : Bool)
    (hP : ∀ r r', P r r' → PathEnds inExpr r r') (f : Node → List Node → Node) :
    Replays m (size + 1) 0 (fun _ => P)
      (op ">" >>= fun _ => op "::" >>= fun _ => pathSegment g inExpr >>= fun first =>
        (many (isOp "::") do op "::"; pathSegment g inExpr) >>= fun others => pure (f first others))
      (op ">" >>= fun _ => op "::" >>= fun _ => pathSegment g' inExpr >>= fun first =>
        (many (isOp "::") do op "::"; pathSegment g' inExpr) >>= fun others => pure (f first others))
      fun u u' => isOp ">" u = true ∧ Lead u u' := by
  have hends : ∀ r r', Either (isOp "::") Lead P r r' → PathEnds inExpr r r' := fun r r' h =>
    h.elim (fun hyes h => h.pathEnds_of_path hyes) fun _ h => hP r r' h
  have hsegment := pathSegment_replays hg inExpr hends
  have hnext : Replays m (size + 1) 1 (fun _ => Either (isOp "::") Lead P)
      (do op "::"; pathSegment g inExpr) (do op "::"; pathSegment g' inExpr) Lead :=
    op_path.keep _ (fun _ => hsegment.forget) fun _ _ _ h => h.lead.kin
  have hothers : Replays m (size + 1) 0 (fun _ => P)
      (many (isOp "::") do op "::"; pathSegment g inExpr)
      (many (isOp "::") do op "::"; pathSegment g' inExpr) (Either (isOp "::") Lead P) :=
    many_replays hnext (fun u u' hyes h => (Stable.eq_of_lead h).symm.trans hyes)
      (fun u u' hno h => (hP u u' h).path hno) fun _ _ h => h
  refine (op_known ">").seq Lead fun _ => op_path.bind Lead (fun _ => ?_) fun _ _ _ h => h.kin
  refine (hsegment.forget.bind _ (fun first => ?_) fun _ _ _ h => h).before fun _ _ h => h.lead
  exact hothers.map

/-- Qualified paths are read the same again. -/
theorem qualifiedPath_replays (hg : Knot m size g g') (inExpr : Bool)
    (hP : ∀ r r', P r r' → PathEnds inExpr r r') :
    Replays m (size + 1) 1 (fun _ => P) (qualifiedPath g inExpr) (qualifiedPath g' inExpr)
      (QualifiedStart P) := by
  have hpath : Replays m (size + 1) 1 (fun _ u u' => isOp ">" u = true ∧ Lead u u') (path g false)
      (path g' false) Lead :=
    (path_replays hg false fun r r' h => (h.2.typeEnds_of_close h.1).toPathEnds).before
      fun _ _ h => h.toLead
  have htrait : Replays m size 0 (fun _ u u' => isOp ">" u = true ∧ Lead u u')
      (do word "as"; path g false) (do word "as"; path g' false)
      fun u u' => isWord "as" u = true ∧ Lead u u' :=
    (word_known "as").seq Lead fun _ => hpath.lower
  unfold qualifiedPath
  refine .choice ?_ ?_ fun u u' h => (Stable.eq_of_lead h.toLead).symm
  · have hself := (hg.ty true SelfEnds fun _ _ h => h.typeEnds).forget
    refine ((op_replays "<" (by decide) _).head _ (fun _ => hself.bind SelfEnds (fun self => ?_)
      fun _ _ _ h => h) fun _ _ _ h => h).before ?_
    · have hsegments := fun tp => (qualifiedSegments_replays hg inExpr hP
        fun first others => .qualifiedPath self tp (first :: others)).smaller
      refine .choiceWhen ?_ ?_ fun u u' h => (Stable.eq_of_lead h.toLead).symm
      · refine (htrait.bind _ (fun tp => hsegments (some tp)) fun _ _ _ h => h).before ?_
        exact fun u u' h _ => ⟨h.2, .inl h.1⟩
      · exact (hsegments none).before fun u u' h _ => ⟨h.2, .inr h.1⟩
    · intro u u' h hyes
      refine ⟨h.lead (by decide), .inr (.inr hyes), fun hno => ?_, TypeStart.generics_angle h,
        TypeStart.less_angle h, TypeStart.ops_angle h⟩
      exact absurd (hyes.symm.trans hno) (by decide)
  · refine (path_replays hg inExpr hP).before fun u u' h hno => ?_
    have hnone : ∀ text ∈ longOps, isOp text u' = false := isOp_of_isNoOperator h.noOperator
    exact ⟨h.toLead, h.starts.imp id .inl, fun _ => h, .generics_of_lead h.toLead hno,
      hnone _ (by decide), fun text htext hyes => absurd (hyes.symm.trans (hnone text htext)) (by decide)⟩

end ActionUnits.Source
