import ActionUnits.Proofs.Source.Replay.Operand

/-! # How an expression starts

A statement is told apart by its first tokens: a macro call, an item, or an
expression. Where an expression is read again, the second reading tells it apart
in the same way. For a macro call this takes a look at the whole path, which the
reading of the path has found out about.
-/

namespace ActionUnits.Source

variable {m : Mode} {size : Nat} {g g' : Grammar} {u u' : List Token} {c d : Cursor}

/-! ## Names of a path -/

/-- The tokens after the further names of a plain path. -/
def afterTail (tokens : List Token) : Option (List Token) :=
  if isOp "::" tokens then afterNames (tokens.drop 2) else some tokens

/-- Whether a segment is a name that a plain path may have. -/
def isPlainName : Node → Bool
  | .segment name none => isPlainSegment [.ident name]
  | _ => false

theorem afterNames_ident (name : Ident) (rest : List Token) :
    afterNames (.ident name :: rest) =
      if isPlainSegment [.ident name] then afterTail rest else none := by
  unfold afterNames afterTail
  split
  · split
    next => rfl
    next hno =>
        rw [if_neg]
        intro hpath
        obtain ⟨joint, more, rfl⟩ := @exists_of_isOp_two "::" ':' ':' rfl _ hpath
        exact hno _ _ rfl
  · rfl

theorem afterNames_of_kind (h : ∀ name, kind u ≠ .word name) : afterNames u = none := by
  unfold afterNames
  split
  next name rest => exact absurd rfl (h name)
  next => rfl

theorem afterTail_of_third {question : Peek} [hq : Headed question] (hpath : isOp "::" u = true)
    (hthird : third question u = true) (hword : ∀ name, question [.ident name] = false) :
    afterTail u = none := by
  rw [afterTail, if_pos hpath, afterNames_of_kind]
  intro name hname
  rw [third_of_path hpath] at hthird
  have : question (u.drop 2) = question [.ident name] := hq.eq_of_kind_eq hname
  exact absurd (hthird.symm.trans (this.trans (hword name))) (by decide)

/-- Where a plain path ends that starts with a segment. -/
theorem afterNames_of_pathSegment {segment : Node}
    (h : pathSegment g true c = some (segment, d)) :
    afterNames c.rest = if isPlainName segment then afterTail d.rest else none := by
  -- A name with arguments after it is no plain name, and then no plain path goes on there.
  have harguments : ∀ {name : Ident} {e : Cursor},
      (if asksArguments true e.rest = true then do
          let _ ← op? "::"
          return Node.segment name (some (← g .angleArguments))
        else pure (Node.segment name none) : Parser Node) e = some (segment, d) →
      c.rest = .ident name :: e.rest →
      afterNames c.rest = if isPlainName segment then afterTail d.rest else none := by
    intro name e hrun hrest
    rw [hrest, afterNames_ident]
    split at hrun
    next hasks =>
        obtain ⟨_, e₁, -, hrun⟩ := bind_eq_some.mp hrun
        obtain ⟨arguments, e₂, -, hpure⟩ := bind_eq_some.mp hrun
        obtain ⟨rfl, -⟩ := pure_eq_some.mp hpure
        have hfish : isTurbofish e.rest = true := by simpa [asksArguments] using hasks
        obtain ⟨hpath, hless⟩ := (Bool.and_eq_true _ _).mp hfish
        rw [afterTail_of_third hpath hless fun _ => rfl, ite_self]
        rfl
    next =>
        obtain ⟨rfl, rfl⟩ := pure_eq_some.mp hrun
        rfl
  unfold pathSegment at h
  rw [peek_bind_apply] at h
  split at h
  next =>
      obtain ⟨name, e, hname, hpure⟩ := bind_eq_some.mp h
      obtain ⟨rfl, rfl⟩ := pure_eq_some.mp hpure
      rw [(anyWord_eq_some.mp hname).1, afterNames_ident]
      rfl
  next =>
      rw [peek_bind_apply] at h
      dsimp only at h
      split at h
      next =>
          obtain ⟨name, e, hname, hrun⟩ := bind_eq_some.mp h
          exact harguments hrun (anyWord_eq_some.mp hname).1
      next =>
          obtain ⟨name, e, hname, hrun⟩ := bind_eq_some.mp h
          exact harguments hrun (anyWord_eq_some.mp (require_peek_bind.mp hname).2).1

/-- Where a plain path ends whose further segments have been read. -/
theorem afterTail_of_restOfPath {segments : List Node}
    (h : restOfPath g true c = some (segments, d)) :
    goesOn d.rest = false ∧
      afterTail c.rest = if segments.all isPlainName then afterTail d.rest else none := by
  have hrounds := (repeated_eq_some.mp h).2
  clear h
  induction hrounds with
  | stop hstep =>
      rw [peek_bind_apply] at hstep
      split at hstep
      next =>
          obtain ⟨_, _, -, hpure⟩ := bind_eq_some.mp hstep
          cases hpure
      next hno =>
          obtain ⟨-, rfl⟩ := pure_eq_some.mp hstep
          exact ⟨Bool.eq_false_iff.mpr hno, rfl⟩
  | @next _ _ _ segment _ hstep _ ih =>
      rw [peek_bind_apply] at hstep
      split at hstep
      next hyes =>
          obtain ⟨_, e, hrun, hpure⟩ := bind_eq_some.mp hstep
          obtain ⟨hsegment, rfl⟩ := pure_eq_some.mp hpure
          cases hsegment
          obtain ⟨_, e', hop, hsegment⟩ := bind_eq_some.mp hrun
          obtain ⟨hpath, rfl⟩ := op_eq_some.mp hop
          have hnames := afterNames_of_pathSegment hsegment
          refine ⟨ih.1, ?_⟩
          rw [afterTail, if_pos hpath]
          refine hnames.trans ?_
          rw [ih.2, List.all_cons]
          cases isPlainName segment <;> rfl
      next => cases hstep

theorem all_isPlainName {segments : List Node} {names : List Ident}
    (h : segments.mapM Node.plainName? = some names) :
    segments.all isPlainName = names.all fun name => isPlainSegment [.ident name] := by
  induction segments generalizing names with
  | nil =>
      cases h
      rfl
  | cons segment segments ih =>
      rw [List.mapM_cons, Option.bind_eq_bind, Option.bind_eq_some_iff] at h
      obtain ⟨name, hname, h⟩ := h
      rw [Option.bind_eq_bind, Option.bind_eq_some_iff] at h
      obtain ⟨others, hothers, hpure⟩ := h
      cases hpure
      unfold Node.plainName? at hname
      split at hname
      next => cases hname; rw [List.all_cons, List.all_cons, ih hothers]; rfl
      next => cases hname

theorem plainPath?_ne_none {rooted : Bool} {segments : List Node}
    (h : segments.all isPlainName = true) : (Node.path rooted segments).plainPath? ≠ none := by
  have hmap : ∃ names, segments.mapM Node.plainName? = some names := by
    induction segments with
    | nil => exact ⟨[], rfl⟩
    | cons segment segments ih =>
        rw [List.all_cons, Bool.and_eq_true] at h
        obtain ⟨names, hnames⟩ := ih h.2
        have hfirst := h.1
        unfold isPlainName at hfirst
        split at hfirst
        next name => exact ⟨name :: names, by rw [List.mapM_cons, hnames]; rfl⟩
        next => cases hfirst
  obtain ⟨names, hnames⟩ := hmap
  simp [Node.plainPath?, hnames]

/-- Where a plain path ends that a path starts with. -/
theorem afterPlainPath_of_path {node : Node} (h : path g true c = some (node, d)) :
    ∃ rooted segments, node = .path rooted segments ∧ goesOn d.rest = false ∧
      afterPlainPath c.rest = if segments.all isPlainName then afterTail d.rest else none := by
  unfold path at h
  obtain ⟨rooted, e, hrooted, h⟩ := bind_eq_some.mp h
  obtain ⟨first, e₁, hfirst, h⟩ := bind_eq_some.mp h
  obtain ⟨others, e₂, hothers, hpure⟩ := bind_eq_some.mp h
  obtain ⟨rfl, rfl⟩ := pure_eq_some.mp hpure
  have hafter : afterPlainPath c.rest = afterNames e.rest := by
    rcases op?_cases hrooted with ⟨-, hno, rfl⟩ | ⟨-, hyes, rfl⟩
    · rw [afterPlainPath, if_neg (by rw [hno]; nofun)]
    · rw [afterPlainPath, if_pos hyes]
      rfl
  obtain ⟨hends, htail⟩ := afterTail_of_restOfPath hothers
  refine ⟨rooted, first :: others, rfl, hends, ?_⟩
  rw [hafter, afterNames_of_pathSegment hfirst, htail, List.all_cons]
  cases isPlainName first <;> rfl

/-! ## Macro calls at the start of an expression -/

/-- Whether what follows a macro call in braces goes on with the expression that it starts. -/
def goesOnAfterCall : Peek := ((isOp ".").butNot (isOp "..")).or (isOp "?")

instance : Stable goesOnAfterCall :=
  inferInstanceAs (Stable (((isOp ".").butNot (isOp "..")).or (isOp "?")))

/-- How a macro call at the start of a statement is read, from what it was read as and what
follows. -/
def callForm (e : Node) (after : List Token) : MacroStart :=
  match e with
  | .macroCall call =>
    if call.path.names.all (fun name => isPlainSegment [.ident name]) &&
        (call.delimiter == .brace && !goesOnAfterCall after) then .statement else .other
  | _ => .other

/-- Texts that start alike close a macro call alike. -/
theorem callForm_of_lead (e : Node) (h : Lead u u') : callForm e u' = callForm e u := by
  unfold callForm
  split
  · rw [(Stable.eq_of_lead h : goesOnAfterCall u = goesOnAfterCall u')]
  · rfl

theorem macroStart_of_afterPlainPath_none (h : afterPlainPath u = none) : macroStart u = .other := by
  rw [macroStart, h]

/-- Without a macro call after its names, a path is none. -/
theorem macroStart_of_not_isBang {after : List Token} (h : afterPlainPath u = some after)
    (hbang : isBang after = false) : macroStart u = .other := by
  rw [macroStart, h]
  dsimp only
  cases hop : isOp "!" after with
  | false => rfl
  | true =>
      have hunequal : isOp "!=" after = true := by simpa [isBang, Peek.butNot, hop] using hbang
      obtain ⟨joint, r, rfl⟩ := @exists_of_isOp_two "!=" '!' '=' rfl _ hunequal
      rfl

theorem macroStart_of_call {call : MacroCall} {after : List Token} {joint : Bool}
    (h : afterPlainPath u = if call.path.names.all (fun name => isPlainSegment [.ident name])
      then some (.punct '!' joint :: .group call.delimiter call.body :: after) else none) :
    macroStart u = callForm (.macroCall call) after := by
  rw [callForm]
  cases hnames : call.path.names.all fun name => isPlainSegment [.ident name] with
  | false =>
      rw [hnames] at h
      exact macroStart_of_afterPlainPath_none h
  | true =>
      rw [hnames, if_pos rfl] at h
      rw [macroStart, h, Bool.true_and]
      cases joint <;> rfl

/-- Reading the fields of a struct expression ends in a struct expression. -/
theorem structFields_go_node {path e : Node} (fuel : Nat) (fields : List Node)
    (h : structFields.go g path fuel fields c = some (e, d)) :
    ∃ fields isOpen rest, e = .structExpr path fields isOpen rest := by
  induction fuel generalizing fields c with
  | zero => cases h
  | succ fuel ih =>
      unfold structFields.go at h
      obtain ⟨ended, _, -, h⟩ := bind_eq_some.mp h
      split at h
      · obtain ⟨rfl, -⟩ := pure_eq_some.mp h
        exact ⟨_, _, _, rfl⟩
      · obtain ⟨dots, _, -, h⟩ := bind_eq_some.mp h
        split at h
        · obtain ⟨ended, _, -, h⟩ := bind_eq_some.mp h
          split at h
          · obtain ⟨rfl, -⟩ := pure_eq_some.mp h
            exact ⟨_, _, _, rfl⟩
          · obtain ⟨rest, _, -, h⟩ := bind_eq_some.mp h
            obtain ⟨rfl, -⟩ := pure_eq_some.mp h
            exact ⟨_, _, _, rfl⟩
        · obtain ⟨field, _, -, h⟩ := bind_eq_some.mp h
          obtain ⟨ended, _, -, h⟩ := bind_eq_some.mp h
          split at h
          · exact ih _ h
          · obtain ⟨_, _, -, h⟩ := bind_eq_some.mp h
            exact ih _ h

/-- An expression that starts with a path is a macro call, or no plain path comes in front of an
exclamation mark. -/
theorem pathExpr_cases {braces : Bool} {e : Node} (h : pathExpr g braces c = some (e, d)) :
    ∃ node e₁, qualifiedPath g true c = some (node, e₁) ∧
      ((∃ plain call, node.plainPath? = some plain ∧ e = .macroCall call ∧ call.path = plain ∧
        ∃ joint, e₁.rest = .punct '!' joint :: .group call.delimiter call.body :: d.rest) ∨
      ((node.plainPath? = none ∨ isBang e₁.rest = false) ∧
        (e = node ∨ ∃ fields isOpen rest, e = .structExpr node fields isOpen rest))) := by
  unfold pathExpr at h
  obtain ⟨node, e₁, hpath, h⟩ := bind_eq_some.mp h
  refine ⟨node, e₁, hpath, ?_⟩
  -- If it is no macro call, only the fields of a structure may follow the path.
  have hpathOnly : (do
      if braces && (← peek (isGroup .brace)) then group .brace (structFields g node)
      else return node : Parser Node) e₁ = some (e, d) →
      e = node ∨ ∃ fields isOpen rest, e = .structExpr node fields isOpen rest := by
    intro hrun
    rw [peek_bind_apply] at hrun
    split at hrun
    · obtain ⟨body, written, -, hfields, -⟩ := group_eq_some.mp hrun
      exact .inr (structFields_go_node _ _ hfields)
    · exact .inl (pure_eq_some.mp hrun).1.symm
  rw [peek_bind_apply] at h
  cases hplain : node.plainPath? with
  | none =>
      rw [hplain] at h
      exact .inr ⟨.inl rfl, hpathOnly h⟩
  | some plain =>
      rw [hplain] at h
      cases hbang : isBang e₁.rest with
      | false =>
          rw [hbang] at h
          exact .inr ⟨.inr rfl, hpathOnly h⟩
      | true =>
          rw [hbang] at h
          obtain ⟨call, e₂, hcall, hpure⟩ := bind_eq_some.mp h
          obtain ⟨rfl, rfl⟩ := pure_eq_some.mp hpure
          obtain ⟨_, e₃, hop, harguments⟩ := bind_eq_some.mp hcall
          obtain ⟨⟨delimiter, body⟩, e₄, hgroup, hpure⟩ := bind_eq_some.mp harguments
          obtain ⟨rfl, rfl⟩ := pure_eq_some.mp hpure
          obtain ⟨hmark, rfl⟩ := op_eq_some.mp hop
          obtain ⟨joint, r, hr⟩ := @exists_of_nextIsOp '!' [] _ hmark
          have hrest := (anyGroup_eq_some.mp hgroup).1
          rw [hr] at hrest
          refine .inl ⟨plain, _, rfl, rfl, rfl, joint, ?_⟩
          rw [hr]
          exact congrArg _ hrest

/-- A path that starts from a type is no plain path. -/
theorem qualifiedPath_cases {node : Node} (h : qualifiedPath g true c = some (node, d)) :
    (afterPlainPath c.rest = none ∧ node.plainPath? = none ∧ ∀ call, node ≠ .macroCall call) ∨
      ∃ rooted segments, node = .path rooted segments ∧ goesOn d.rest = false ∧
        afterPlainPath c.rest = if segments.all isPlainName then afterTail d.rest else none := by
  unfold qualifiedPath at h
  rw [peek_bind_apply] at h
  split at h
  next hless =>
      refine .inl ⟨?_, ?_⟩
      · have hkind : kind c.rest = .punct '<' := kind_of_isOp rfl (by decide) hless
        have hno : isOp "::" c.rest = false := isOp_of_kind rfl (by decide) (by rw [hkind]; decide)
        rw [afterPlainPath, if_neg (by rw [hno]; nofun), afterNames_of_kind (by rw [hkind]; nofun)]
      · obtain ⟨_, _, -, h⟩ := bind_eq_some.mp h
        obtain ⟨self, _, -, h⟩ := bind_eq_some.mp h
        obtain ⟨traitPath, _, -, h⟩ := bind_eq_some.mp h
        obtain ⟨_, _, -, h⟩ := bind_eq_some.mp h
        obtain ⟨_, _, -, h⟩ := bind_eq_some.mp h
        obtain ⟨first, _, -, h⟩ := bind_eq_some.mp h
        obtain ⟨others, _, -, h⟩ := bind_eq_some.mp h
        obtain ⟨rfl, -⟩ := pure_eq_some.mp h
        exact ⟨rfl, nofun⟩
  next => exact .inr (afterPlainPath_of_path h)

/-- What the reading of an expression that starts with a path tells about a macro call there. -/
theorem macroStart_of_pathExpr {braces : Bool} {e : Node}
    (h : pathExpr g braces c = some (e, d)) : macroStart c.rest = callForm e d.rest := by
  obtain ⟨node, e₁, hpath, hcases⟩ := pathExpr_cases h
  rcases hcases with ⟨plain, call, hplain, rfl, rfl, joint, hrest⟩ | ⟨hno, hnode⟩
  · rcases qualifiedPath_cases hpath with ⟨-, hnone, -⟩ | ⟨rooted, segments, rfl, -, hafter⟩
    · rw [hnone] at hplain
      cases hplain
    · obtain ⟨names, hnames, hcall⟩ := Option.map_eq_some_iff.mp hplain
      refine @macroStart_of_call _ _ _ joint ?_
      rw [hafter, all_isPlainName hnames, ← hcall, hrest]
      cases joint <;> rfl
  · -- Only a macro call is told from other forms.
    have hform : ∀ {node : Node}, (∀ call, node ≠ .macroCall call) →
        callForm node d.rest = .other := by
      intro node hne
      unfold callForm
      split
      next call => exact absurd rfl (hne call)
      next => rfl
    rcases qualifiedPath_cases hpath with ⟨hafter, -, hne⟩ | ⟨rooted, segments, rfl, hends, hafter⟩
    · rw [macroStart_of_afterPlainPath_none hafter]
      rcases hnode with rfl | ⟨fields, isOpen, rest, rfl⟩
      · exact (hform hne).symm
      · rfl
    · have hother : macroStart c.rest = .other := by
        cases hall : segments.all isPlainName with
        | false =>
            rw [hall] at hafter
            exact macroStart_of_afterPlainPath_none hafter
        | true =>
            rw [hall, if_pos rfl] at hafter
            cases hcolons : isOp "::" e₁.rest with
            | true =>
                have hparen : third (isGroup .paren) e₁.rest = true := by
                  simpa [goesOn, Peek.butNot, hcolons] using hends
                rw [afterTail_of_third hcolons hparen fun _ => rfl] at hafter
                exact macroStart_of_afterPlainPath_none hafter
            | false =>
                rw [afterTail, hcolons] at hafter
                refine macroStart_of_not_isBang hafter (hno.resolve_left ?_)
                exact plainPath?_ne_none hall
      rw [hother]
      rcases hnode with rfl | ⟨fields, isOpen, rest, rfl⟩
      · rfl
      · rfl

theorem macroStart_of_kind (hword : ∀ name, kind u ≠ .word name) (hpath : kind u ≠ .punct ':') :
    macroStart u = .other := by
  refine macroStart_of_afterPlainPath_none ?_
  have hno : isOp "::" u = false := isOp_of_kind rfl (by decide) hpath
  rw [afterPlainPath, if_neg (by rw [hno]; nofun), afterNames_of_kind hword]

theorem macroStart_of_keyword {name : Ident} (h : isPlainSegment [.ident name] = false)
    (rest : List Token) : macroStart (.ident name :: rest) = .other := by
  refine macroStart_of_afterPlainPath_none ?_
  change afterNames (.ident name :: rest) = none
  rw [afterNames_ident, if_neg (by rw [h]; nofun)]

/-! ## Items at the start of an expression -/

instance : Stable isFunctionWord := inferInstanceAs (Stable (isOneOf ["unsafe", "extern", "fn"]))

/-- Whether what follows `const` makes no item of it. -/
def isConstValue : Peek :=
  anyOf [isGroup .brace, isOneOf ["static", "move"], isOp "|",
    (isWord "async").butNot (second isFunctionWord)]

/-- What is asked about the tokens after a word that may start an item. -/
def itemAfter (name : Ident) (rest : List Token) : Bool :=
  anyOf
    [isOneOf ["pub", "extern", "use", "fn", "mod", "type", "struct", "enum", "trait", "impl",
      "macro"],
     (isWord "crate").butNot fun _ => isOp "::" rest,
     (isWord "static").and fun _ => ((isWord "mut").or isIdent) rest,
     (isWord "const").butNot fun _ => isConstValue rest,
     (isWord "unsafe").butNot fun _ => isGroup .brace rest,
     (isWord "async").and fun _ => isFunctionWord rest,
     (isWord "union").and fun _ => isIdent rest,
     (isWord "auto").and fun _ => isWord "trait" rest,
     (isWord "default").and fun _ => isOneOf ["unsafe", "impl"] rest] [.ident name]

theorem isItemStart_word (name : Ident) (rest : List Token) :
    isItemStart (.ident name :: rest) = itemAfter name rest := rfl

theorem isItemStart_of_kind (h : ∀ name, kind u ≠ .word name) : isItemStart u = false := by
  have hword : ∀ text, isWord text u = false := by
    intro text
    cases hw : isWord text u with
    | false => rfl
    | true => exact absurd (kind_of_isWord hw) (h _)
  simp [isItemStart, anyOf, isOneOf, Peek.and, Peek.butNot, hword]

theorem WordAlike.of_lead {name : Ident} {r r' : List Token} (h : Lead r r')
    (hname : name.text ∉ ["const", "for", "async"]) : WordAlike name r r' := by
  simp only [List.mem_cons, List.not_mem_nil, or_false, not_or] at hname
  exact ⟨h, fun hconst => absurd hconst hname.1, fun hloop => absurd hloop hname.2.1,
    fun hasync => absurd hasync hname.2.2⟩

/-- Texts that go on alike behind the same word start an item both or not at all. -/
theorem isItemStart_alike {name : Ident} {r r' : List Token} (h : WordAlike name r r') :
    isItemStart (.ident name :: r') = isItemStart (.ident name :: r) := by
  have hstable : ∀ {question : Peek} [Stable question], question r' = question r :=
    fun {_ _} => (Stable.eq_of_lead h.toLead).symm
  have hvalue : (isWord "const").butNot (fun _ => isConstValue r') [.ident name] =
      (isWord "const").butNot (fun _ => isConstValue r) [.ident name] := by
    unfold Peek.butNot
    cases hname : isWord "const" [.ident name] with
    | false => rfl
    | true =>
        have hasync : ((isWord "async").butNot (second isFunctionWord)) r' =
            ((isWord "async").butNot (second isFunctionWord)) r := by
          rw [Peek.butNot, Peek.butNot, (hstable : isWord "async" r' = _)]
          cases hasync : isWord "async" r with
          | false => rfl
          | true => rw [h.const (by simpa [isWord] using hname) hasync]
        simp only [isConstValue, anyOf, List.any_cons, List.any_nil, hasync, (hstable : isGroup .brace r' = _),
          (hstable : isOneOf ["static", "move"] r' = _), (hstable : isOp "|" r' = _)]
  rw [isItemStart_word, isItemStart_word]
  unfold itemAfter
  simp only [anyOf, List.any_cons, List.any_nil, hvalue, (hstable : isOp "::" r' = _),
    (hstable : ((isWord "mut").or isIdent) r' = _), (hstable : isGroup .brace r' = _),
    (hstable : isIdent r' = _), (hstable : isWord "trait" r' = _),
    (hstable : isFunctionWord r' = _), (hstable : isOneOf ["unsafe", "impl"] r' = _)]

/-! ## Starts -/

theorem ops_of_isNoOperator (h : isNoOperator (kind u') = true) :
    ∀ text ∈ longOps, isOp text u' = true → isOp text u = true :=
  fun text htext hyes => absurd (hyes.symm.trans (isOp_of_isNoOperator h text htext)) (by decide)

/-- An expression that starts with a keyword. -/
theorem Start.of_wordThen {name : Ident} {r r' : List Token}
    (hname : isPlainSegment [.ident name] = false) (h : WordAlike name r r') :
    Start (.ident name :: r) (.ident name :: r') := by
  refine ⟨.word _ _ _, ops_of_isNoOperator rfl, rfl, nofun, fun _ _ _ hu hu' => ?_,
    fun hno => (isItemStart_alike h).trans hno, ?_⟩
  · cases hu
    cases hu'
    exact h
  · rw [macroStart_of_keyword hname, macroStart_of_keyword hname]

/-- A word that starts no path starts an expression if what follows goes on alike. -/
theorem Start.of_alike {text : String}
    (h : isWord text u = true ∧ WordThen (WordAlike ⟨text⟩) u u')
    (htext : isPlainSegment [.word text] = false) : Start u u' := by
  obtain ⟨hu, ⟨name⟩, r, r', rfl, rfl, halike⟩ := h
  obtain rfl := eq_of_beq hu
  exact .of_wordThen htext halike

/-- A keyword that starts no item starts an expression. -/
theorem Start.of_keyword {text : String} (h : isWord text u = true ∧ WordThen Lead u u')
    (htext : isPlainSegment [.word text] = false) (hname : text ∉ ["const", "for", "async"]) :
    Start u u' := by
  obtain ⟨hu, name, r, r', rfl, rfl, hlead⟩ := h
  obtain rfl := eq_of_beq hu
  exact .of_wordThen htext (.of_lead hlead hname)

/-- Tokens that start an expression and are no words, attributes or colons. -/
def startsPlainExpr : Kind → Bool
  | .lifetime _ => true
  | .literal _ _ => true
  | .group _ => true
  | .punct char => ['&', '*', '!', '-', '|', '<', '.'].contains char
  | _ => false

/-- Texts that start alike, with no longer operator in sight, both start an expression. -/
theorem Start.of_lead (h : Lead u u') (hkind : startsPlainExpr (kind u) = true)
    (hops : ∀ text ∈ longOps, isOp text u' = true → isOp text u = true) : Start u u' := by
  have hword : ∀ name, kind u ≠ .word name := by
    intro name hname
    rw [hname] at hkind
    cases hkind
  have hchar : ∀ {char}, startsPlainExpr (.punct char) = false → kind u ≠ .punct char := by
    intro char hno heq
    rw [heq, hno] at hkind
    cases hkind
  have hstarts : startsExpr (kind u) = true := by
    cases hu : kind u with
    | nothing => rw [hu] at hkind; cases hkind
    | word name => rfl
    | lifetime name => rfl
    | literal isNumeral isString => rfl
    | group delimiter => rfl
    | punct char =>
        rw [hu] at hkind
        simp only [startsPlainExpr, List.contains_eq_mem, List.mem_cons, List.not_mem_nil, or_false,
          decide_eq_true_eq] at hkind
        simp only [startsExpr, List.contains_eq_mem, List.mem_cons, List.not_mem_nil, or_false,
          decide_eq_true_eq]
        tauto
  refine ⟨h, hops, hstarts, fun hhash => absurd hhash (hchar (by decide)), ?_, fun _ => ?_, ?_⟩
  · rintro name r r' rfl
    exact absurd rfl (hword name)
  · exact isItemStart_of_kind (by rwa [← h.kind_eq])
  · rw [macroStart_of_kind hword (hchar (by decide)),
      macroStart_of_kind (by rwa [← h.kind_eq]) (by rw [← h.kind_eq]; exact hchar (by decide))]

/-- A first token that no operator begins with starts an expression. -/
theorem Start.of_kind {first : Kind} (h : Lead u u') (hkind : kind u = first)
    (hfirst : startsPlainExpr first = true) (hnone : isNoOperator first = true) : Start u u' := by
  refine .of_lead h (hkind ▸ hfirst) (ops_of_isNoOperator ?_)
  rw [← h.kind_eq, hkind, hnone]

/-- An expression that starts with an operator. -/
theorem Start.of_op {text : String} {char : Char} {Post : Follow} (htext : text.toList = [char])
    (hchar : startsPlainExpr (.punct char) = true) (hlead : Lead u u')
    (h : OpThen m text Post u u') (hpost : ∀ r r', Post r r' → Lead r r')
    (hlong : ∀ long ∈ longOps, ∀ c cs, long.toList = char :: c :: cs → cs = []) : Start u u' := by
  refine .of_lead hlead ?_ ((h.mono hpost).ops_imp (by rw [htext]; nofun) ?_)
  · rw [kind_of_isOp htext (by rintro rfl; cases hchar) h.1, hchar]
  · rw [htext]
    exact hlong

/-- Attributes may start an expression. -/
theorem Start.of_attr (h : AttrStart u u') : Start u u' := by
  have hkind : kind u = .punct '#' :=
    kind_of_isOp rfl (by decide) ((Bool.and_eq_true _ _).mp h.left).1
  have hkind' : kind u' = .punct '#' := h.kind_eq ▸ hkind
  refine ⟨h.toLead, ops_of_isNoOperator (by rw [hkind']; rfl), by rw [hkind]; rfl, fun _ => h, ?_,
    fun _ => isItemStart_of_kind (by rw [hkind']; nofun), ?_⟩
  · rintro name r r' rfl
    cases hkind
  · rw [macroStart_of_kind (by rw [hkind']; nofun) (by rw [hkind']; decide),
      macroStart_of_kind (by rw [hkind]; nofun) (by rw [hkind]; decide)]

theorem Start.of_attributed (h : Attributed Start u u') : Start u u' :=
  h.elim (fun _ h => .of_attr h) fun _ h => h

theorem PathThen.lead {P : Follow} (hP : ∀ r r', P r r' → Lead r r') (h : PathThen P u u') :
    Lead u u' :=
  h.elim (fun h => hP u u' h.2) fun h => h.1

/-- A path starts an expression, with the same call behind it. -/
theorem Start.of_path {P : Follow} (hP : ∀ r r', P r r' → Lead r r') (h : QualifiedStart P u u')
    (hcall : macroStart u' = macroStart u) : Start u u' := by
  have hstarts : startsExpr (kind u) = true ∧ kind u ≠ .punct '#' := by
    rcases h.starts with hword | hpath | hless
    · obtain ⟨name, rest, rfl, -⟩ := kind_of_isPathWord hword
      exact ⟨rfl, nofun⟩
    · rw [kind_of_isOp (rfl : "::".toList = [':', ':']) (by decide) hpath]
      decide
    · rw [kind_of_isOp (rfl : "<".toList = ['<']) (by decide) hless]
      decide
  have hword : ∀ name r r', u = .ident name :: r → u' = .ident name :: r' →
      WordAlike name r r' := by
    rintro name r r' rfl rfl
    refine .of_lead (((h.path rfl).word name r r' rfl rfl).lead hP) fun hname => ?_
    have hpath : isPathWord (.ident name :: r) = true := by
      rcases h.starts with hyes | hno | hno
      · exact hyes
      · cases hno
      · cases hno
    obtain ⟨text⟩ := name
    simp only [List.mem_cons, List.not_mem_nil, or_false] at hname
    rcases hname with rfl | rfl | rfl <;> cases hpath
  refine ⟨h.toLead, h.ops, hstarts.1, fun hhash => absurd hhash hstarts.2, hword, ?_, hcall⟩
  cases hname : isPathWord u with
  | true =>
      obtain ⟨name, r, rfl, -⟩ := kind_of_isPathWord hname
      obtain ⟨r', rfl⟩ := exists_of_kind_word h.kind_eq.symm
      exact fun hno => (isItemStart_alike (hword name r r' rfl rfl)).trans hno
  | false =>
      refine fun _ => isItemStart_of_kind ?_
      rw [← h.kind_eq]
      rcases h.starts with hyes | hpath | hless
      · exact absurd (hyes.symm.trans hname) (by decide)
      · rw [kind_of_isOp (rfl : "::".toList = [':', ':']) (by decide) hpath]
        nofun
      · rw [kind_of_isOp (rfl : "<".toList = ['<']) (by decide) hless]
        nofun

end ActionUnits.Source
