import ActionUnits.Proofs.Source.Replay.Member

/-! # Replaying the items inside of other items

Items of implementations, traits and foreign blocks start with attributes and a
visibility, and maybe with a word that is no keyword. The tokens after them tell
which form comes next. A form without meaning is kept unread from its attributes on.
-/

namespace ActionUnits.Source

variable {m : Mode} {size least : Nat} {g g' : Grammar} {u u' : List Token}

/-! ## Forms -/

/-- Whether nothing is known of what was found. -/
def Found.isUnread : Found → Bool
  | .node _ _ _ _ => false
  | .unread => true

def Found.ofOption (vis : Visibility) (isDefault : Bool) : Option Node → Found
  | some found => .node [] vis isDefault found
  | none => .unread

theorem Found.isUnread_ofOption (vis : Visibility) (isDefault : Bool) (node : Option Node) :
    (ofOption vis isDefault node).isUnread = node.isNone := by
  cases node <;> rfl

/-- An item from its attributes on. -/
def finished (form : Parser (List Node × Found)) : Parser Node :=
  get >>= fun start => form >>= fun (attrs, found) => finish start attrs found

/-- A member is finished the same way again, whether it becomes a node or is kept as it is. -/
theorem finished_replays {form form' : Parser (List Node × Found)} {P Pre : Follow}
    (hform : ∀ m, Replays m size least (fun a => Taken m a.2.isUnread P) form form' Pre) :
    Replays m size least (fun _ => P) (finished form) (finished form') Pre := by
  refine .keeping (fun a => a.2.isUnread) (fun a hread => ?_) (fun a hunread => ?_)
    (fun _ => (hform .written).after fun _ _ _ h => ⟨fun _ => h.1, h.2⟩)
    ((hform .verbatim).after fun _ _ _ h => ⟨nofun, h⟩)
  · obtain ⟨attrs, _ | _⟩ := a
    · exact ⟨_, fun _ => rfl⟩
    · cases hread
  · obtain ⟨attrs, _ | _⟩ := a
    · cases hunread
    · exact ⟨id, fun start => (bind_pure _).symm⟩

def isInherited : Visibility → Bool
  | .inherited => true
  | _ => false

/-! ## The word in front of an item -/

/-- A word that is no keyword, where the token after it does not tell that it is a name. -/
def markWord (text : String) (question : Peek) : Parser Bool := do
  if ← peek ((isWord text).and (second question)) then word? text else pure false

/-- A word that may stand in front is seen in both texts or in neither. -/
theorem mark_eq {text : String} {question : Peek} [hq : Stable question] (h : Lead u u')
    (hafter : isWord text u = true → AfterWord Lead u u') :
    (isWord text).and (second question) u' = (isWord text).and (second question) u := by
  have hword : isWord text u = isWord text u' := Stable.eq_of_lead h
  unfold Peek.and
  cases hleft : isWord text u with
  | false => rw [← hword, hleft, Bool.false_and, Bool.false_and]
  | true =>
      obtain ⟨r, rfl⟩ := exists_of_kind_word (kind_of_isWord hleft)
      obtain ⟨r', rfl⟩ := exists_of_kind_word (kind_of_isWord (hword.symm.trans hleft))
      have hrest : Lead r r' := hafter hleft _ r r' rfl rfl
      have hquestion : question r' = question r := (hq.eq_of_lead hrest).symm
      have hname : isWord text (.ident ⟨text⟩ :: r') = true := beq_self_eq_true text
      rw [hname]
      exact congrArg (true && ·) hquestion

/-- Both readings go on with an item after its visibility. -/
structure MemberStart (text : String) (question : Peek) (u u' : List Token) : Prop
    extends Lead u u' where
  paren : kind u ≠ .group .paren
  mark : (isWord text).and (second question) u' = (isWord text).and (second question) u

theorem MemberStart.restricted {text : String} {question : Peek}
    (h : MemberStart text question u u') : Absent isRestricted u u' :=
  h.notRestricted h.paren

/-- Both readings go on with an item after the words in front of it. -/
structure KindStart (text : String) (u u' : List Token) : Prop extends Lead u u' where
  paren : kind u ≠ .group .paren
  after : isWord text u = true → AfterWord Lead u u'
  signature : isSignature u' = isSignature u

theorem KindStart.member {text : String} {question : Peek} [Stable question]
    (h : KindStart text u u') : MemberStart text question u u' :=
  ⟨h.toLead, h.paren, mark_eq h.toLead h.after⟩

/-- A member with an optional word in front is read the same again. -/
theorem markWord_replays {α : Type} {Post : α → Follow} {text : String} {question : Peek}
    [hq : Stable question] {f f' : Bool → Parser α}
    (hf : ∀ mark, Replays m size 1 Post (f mark) (f' mark) (KindStart text)) :
    Replays m size 1 Post (markWord text question >>= f) (markWord text question >>= f')
      (MemberStart text question) := by
  unfold markWord
  rw [bind_assoc, bind_assoc]
  simp only [ite_bind, pure_bind]
  refine .choice ?_ ((hf false).before fun _ _ h _ => h.member) fun _ _ h => h.mark
  refine (Replays.choiceWord ?_ ?_ fun u u' h => (Stable.eq_of_lead h.1).symm :
    Replays _ _ _ _ _ _ fun u u' => Lead u u' ∧
      ((isWord text).and (second question) u = true → MemberStart text question u u')).before
    fun _ _ h => h.2
  · refine ((word_then text Lead).keep _ (fun _ => ((hf true).forget.before
      fun _ _ h => h.toLead)) fun _ _ _ h => h).before ?_
    rintro u u' ⟨hword, name, r, r', rfl, rfl, hlead⟩ -
    refine ⟨.word _ _ _, fun _ => ⟨.word _ _ _, nofun, mark_eq (.word _ _ _) fun _ => ?_⟩⟩
    rintro _ _ _ ⟨⟩ ⟨⟩
    exact hlead
  · refine (hf false).before fun u u' h hno => ⟨h.toLead, fun hyes => ?_⟩
    exact absurd (hno.symm.trans ((Bool.and_eq_true _ _).mp hyes).1) (by decide)

/-! ## Telling the forms apart -/

/-- The words with which the head of a function starts. -/
def headWords : List String := ["const", "async", "unsafe", "extern", "fn"]

theorem isOneOf_of_isSignature (h : isSignature u = true) : isOneOf headWords u = true := by
  cases hno : isOneOf headWords u with
  | true => rfl
  | false =>
      simp only [headWords, isOneOf, List.any_cons, List.any_nil, Bool.or_false,
        Bool.or_eq_false_iff] at hno
      obtain ⟨hconst, hasync, hrisky, hforeign, hfn⟩ := hno
      have hafter : ∀ {text}, isWord text u = false → afterWord text u = u := fun hno => by
        rw [afterWord, hno]
        rfl
      rw [isSignature_eq, hafter hconst, hafter hasync, hafter hrisky, afterAbi, hforeign] at h
      exact absurd (h.symm.trans hfn) (by decide)

/-- A word that no signature begins with begins none. -/
theorem not_isSignature {text : String} (h : isWord text u = true) (htext : text ∉ headWords) :
    isSignature u = false := by
  cases hyes : isSignature u with
  | false => rfl
  | true =>
      obtain ⟨other, hmem, hother⟩ := List.any_eq_true.mp (isOneOf_of_isSignature hyes)
      obtain ⟨r, rfl⟩ := exists_of_kind_word (kind_of_isWord h)
      have : text = other := eq_of_beq hother
      exact absurd (this ▸ hmem) htext

/-- A member that starts with its keyword is told from the word in front of it. -/
theorem Known.kindStart {text keyword : String} (h : Known keyword u u')
    (htext : keyword ≠ text) (hkeyword : keyword ∉ headWords) : KindStart text u u' := by
  have hright : isWord keyword u' = true := (Stable.eq_of_lead h.2).symm.trans h.1
  refine ⟨h.2, by rw [kind_of_isWord h.1]; nofun, fun hword => ?_,
    (not_isSignature hright hkeyword).trans (not_isSignature h.1 hkeyword).symm⟩
  obtain ⟨r, rfl⟩ := exists_of_kind_word (kind_of_isWord h.1)
  exact absurd (eq_of_beq hword) htext

/-- A function among the members is told from the word in front of it. -/
theorem SignatureStart.kindStart {text : String} (h : SignatureStart u u')
    (htext : text ∉ headWords) : KindStart text u u' := by
  obtain ⟨other, hmem, hother⟩ := List.any_eq_true.mp (isOneOf_of_isSignature h.left)
  refine ⟨h.toLead, by rw [kind_of_isWord hother]; nofun, fun hword => ?_,
    h.right.trans h.left.symm⟩
  exact absurd (h.left.symm.trans (not_isSignature hword htext)) (by decide)

theorem isSignature_const {name other : Ident} {r : List Token} (hname : name.text = "const")
    (hother : (isIdent.or (isWord "_")) (.ident other :: r) = true) :
    isSignature (.ident name :: .ident other :: r) = false := by
  have hafter : ∀ text ∈ ["async", "unsafe", "extern", "fn"],
      isWord text (.ident other :: r) = false := by
    intro text htext
    rcases (Bool.or_eq_true _ _).mp hother with hident | hwild
    · refine not_isWord_of_isIdent ?_ hident
      revert text
      decide
    · rw [isWord, show other.text = "_" from eq_of_beq hwild]
      revert text
      decide
  have hconst : afterWord "const" (.ident name :: .ident other :: r) = .ident other :: r := by
    have hword : isWord "const" (.ident name :: .ident other :: r) = true := beq_iff_eq.mpr hname
    rw [afterWord, hword]
    rfl
  have hskip : ∀ text ∈ ["async", "unsafe", "extern", "fn"],
      afterWord text (.ident other :: r) = .ident other :: r := fun text htext => by
    rw [afterWord, hafter text htext]
    rfl
  rw [isSignature_eq, hconst, hskip "async" (by decide), hskip "unsafe" (by decide), afterAbi,
    hafter "extern" (by decide)]
  exact hafter "fn" (by decide)

/-- A constant among the members is told from the word in front of it. -/
theorem ConstItemStart.kindStart {text : String} (h : ConstItemStart u u') (htext : text ≠ "const") :
    KindStart text u u' := by
  obtain ⟨hconst, name, r, r', rfl, rfl, hname, other, t, t', rfl, rfl, -⟩ := h
  have hother : ∀ t, (isIdent.or (isWord "_")) (.ident other :: t) = true := fun _ => hname
  refine ⟨.word _ _ _, nofun, fun hword => ?_, ?_⟩
  · exact absurd ((eq_of_beq hword).symm.trans (eq_of_beq hconst)) htext
  · rw [isSignature_const (eq_of_beq hconst) (hother t),
      isSignature_const (eq_of_beq hconst) (hother t')]

instance : Stable isMacroStart :=
  inferInstanceAs (Stable (anyOf [isIdent, isOneOf ["self", "super", "crate"], isOp "::"]))

/-- A macro call starts with a path. -/
theorem kind_of_isMacroStart (h : isMacroStart u = true) :
    kind u = .punct ':' ∨ ∃ name, kind u = .word name ∧
      (isKeyword name = false ∨ name.text ∈ ["self", "super", "crate"]) := by
  simp only [isMacroStart, anyOf, List.any_cons, List.any_nil, Bool.or_false, Bool.or_eq_true] at h
  rcases h with h | h | h
  · unfold isIdent at h
    split at h
    next name r => exact .inr ⟨name, rfl, .inl (by simpa using h)⟩
    next => cases h
  · obtain ⟨text, hmem, hword⟩ := List.any_eq_true.mp h
    exact .inr ⟨_, kind_of_isWord hword, .inr hmem⟩
  · exact .inl (kind_of_isOp rfl (by decide) h)

/-- A macro call starts with no keyword that another form starts with. -/
theorem not_isWord_of_isMacroStart {text : String} (h : isMacroStart u = true)
    (hkeyword : isKeyword ⟨text⟩ = true) (htext : text ∉ ["self", "super", "crate"]) :
    isWord text u = false := by
  cases hword : isWord text u with
  | false => rfl
  | true =>
      have hkind := kind_of_isWord hword
      rcases kind_of_isMacroStart h with hcolon | ⟨name, hname, hno | hmem⟩
      · cases hkind.symm.trans hcolon
      · cases hkind.symm.trans hname
        exact absurd (hkeyword.symm.trans hno) (by decide)
      · cases hkind.symm.trans hname
        exact absurd hmem htext

/-- The words a signature begins with are keywords, and none of them starts a path. -/
theorem headWords_keywords : ∀ text ∈ headWords,
    isKeyword ⟨text⟩ = true ∧ text ∉ ["self", "super", "crate"] := by decide

theorem not_isSignature_of_isMacroStart (h : isMacroStart u = true) : isSignature u = false := by
  cases hyes : isSignature u with
  | false => rfl
  | true =>
      obtain ⟨text, hmem, hword⟩ := List.any_eq_true.mp (isOneOf_of_isSignature hyes)
      obtain ⟨hkeyword, htext⟩ := headWords_keywords text hmem
      exact absurd (hword.symm.trans (not_isWord_of_isMacroStart h hkeyword htext)) (by decide)

/-- A macro call among the members is told from the word in front of it. -/
theorem CallStart.kindStart {text : String} (h : CallStart u u') (hstart : isMacroStart u = true) :
    KindStart text u u' := by
  refine ⟨h.toLead, fun hparen => ?_, fun _ => h.word, ?_⟩
  · rcases kind_of_isMacroStart hstart with hkind | ⟨name, hkind, -⟩
    · cases hparen.symm.trans hkind
    · cases hparen.symm.trans hkind
  · have hright : isMacroStart u' = true := (Stable.eq_of_lead h.toLead).symm.trans hstart
    rw [not_isSignature_of_isMacroStart hstart, not_isSignature_of_isMacroStart hright]

/-! ## Items of implementations and traits -/

/-- What follows an item, and in a second reading of what was written that the item was not kept
unread. -/
def FoundEnds (m : Mode) (found : Found) : Follow := Taken m found.isUnread Lead

/-- A function, a constant, a type alias or a macro call. -/
def memberKind (vis : Visibility) (isDefault : Bool) (function : Parser Found)
    (constant : Parser (Option Node)) (synonym : Parser Found) : Parser Found := do
  if ← peek isSignature then function
  else if ← peek (isWord "const") then return .ofOption vis isDefault (← constant)
  else if ← peek (isWord "type") then synonym
  else
    require (isInherited vis && !isDefault && (← peek isMacroStart))
    return .node [] vis false (← macroItem false)

/-- A macro call as an item, where its start is asked for. -/
theorem callItem_replays (vis : Visibility) (named : Bool) (wanted : Bool → Bool)
    (hwanted : wanted false = false) :
    Replays m size 1 (FoundEnds m)
      (peek isMacroStart >>= fun b => require (wanted b) >>= fun _ =>
        macroItem named >>= fun node => pure (.node [] vis false node))
      (peek isMacroStart >>= fun b => require (wanted b) >>= fun _ =>
        macroItem named >>= fun node => pure (.node [] vis false node))
      fun u u' => isMacroStart u = true ∧ CallStart u u' := by
  have hcall : Replays m size 1 (FoundEnds m)
      (macroItem named >>= fun node => pure (.node [] vis false node))
      (macroItem named >>= fun node => pure (.node [] vis false node)) CallStart :=
    (macroItem_replays named).result fun _ _ _ h => h.2
  refine (hcall.demand wanted fun u u' h hyes => ?_).noting fun {c a d} hrun => ?_
  · rwa [← (Stable.eq_of_lead h.toLead : isMacroStart u = _)]
  · rw [peek_bind_apply] at hrun
    obtain ⟨_, _, hrequire, -⟩ := bind_eq_some.mp hrun
    cases hstart : isMacroStart c.rest with
    | true => rfl
    | false =>
        rw [hstart, hwanted] at hrequire
        cases hrequire

/-- Members are read the same again, kind by kind. -/
theorem memberKind_replays {function function' synonym synonym' : Parser Found}
    {constant constant' : Parser (Option Node)} (vis : Visibility) (isDefault : Bool)
    (hfunction : Replays m size 1 (FoundEnds m) function function' SignatureStart)
    (hconstant : Replays m size 1 (fun a => Taken m a.isNone Any) constant constant' ConstItemStart)
    (hsynonym : Replays m size 1 (FoundEnds m) synonym synonym' (Known "type")) :
    Replays m size 1 (FoundEnds m) (memberKind vis isDefault function constant synonym)
      (memberKind vis isDefault function' constant' synonym') (KindStart "default") := by
  have hlead : ∀ u u', KindStart "default" u u' → Lead u u' := fun _ _ h => h.toLead
  unfold memberKind
  refine .branch (fun _ _ h => h.signature) (hfunction.before fun _ _ h => h.kindStart (by decide))
    (.ite hlead ?_ (.ite hlead ?_ ?_))
  · refine (hconstant.result fun node r r' h => ?_).before fun _ _ h => h.kindStart (by decide)
    rw [FoundEnds, Found.isUnread_ofOption] at h
    exact ⟨h.1, trivial⟩
  · exact hsynonym.before fun _ _ h => h.kindStart (by decide) (by decide)
  · exact (callItem_replays vis false (fun b => isInherited vis && !isDefault && b)
      (Bool.and_false _)).before fun _ _ h => h.2.kindStart h.1

/-- A form after its attributes, its visibility and a word in front of it. -/
def memberForm (g : Grammar) (text : String) (question : Peek)
    (form : Visibility → Bool → Parser Found) : Parser (List Node × Found) := do
  let attrs ← outerAttrs g
  let vis ← visibility
  let mark ← markWord text question
  return (attrs, ← form vis mark)

/-- A member's attributes, visibility and mark are read the same again, and then the member. -/
theorem memberForm_replays (hg : Knot m size g g') {text : String} {question : Peek}
    [Stable question] {form form' : Visibility → Bool → Parser Found}
    (hform : ∀ vis mark, Replays m size 1 (FoundEnds m) (form vis mark) (form' vis mark)
      (KindStart text)) :
    Replays m size 1 (fun a => FoundEnds m a.2) (memberForm g text question form)
      (memberForm g' text question form') InnerStart := by
  have hmarked : ∀ (attrs : List Node) vis, Replays m size 1 (fun a => FoundEnds m a.2)
      (markWord text question >>= fun mark => form vis mark >>= fun found => pure (attrs, found))
      (markWord text question >>= fun mark => form' vis mark >>= fun found => pure (attrs, found))
      (MemberStart text question) := fun attrs vis =>
    markWord_replays fun mark => (hform vis mark).result fun _ _ _ h => h
  refine (declared_replays hg hmarked (fun _ _ h => h.toLead) fun _ _ h => h.restricted).before
    fun u u' h => h.innerStart fun _ _ h => ?_
  exact h.elim (fun _ h => h) fun _ h => h.toLead

/-- A type alias as an item, of which `found` tells whether it is kept unread. -/
theorem synonym_replays (hg : ∀ m, Knot m size g g') (asksColon whereFirst : Bool)
    (found : Node → Bool → Bool → Found)
    (hfound : ∀ node defined, asksColon = true → (found node true defined).isUnread = true) :
    Replays m size 1 (FoundEnds m)
      (typeItem g asksColon whereFirst >>= fun a => pure (found a.1 a.2.1 a.2.2))
      (typeItem g' asksColon whereFirst >>= fun a => pure (found a.1 a.2.1 a.2.2))
      (Known "type") := by
  refine (typeItem_replays hg asksColon whereFirst).result fun a r r' h => ⟨fun hm => ?_, trivial⟩
  obtain ⟨node, colon, defined⟩ := a
  cases hasks : asksColon with
  | false => rfl
  | true =>
      cases colon with
      | false => rfl
      | true => exact (hfound node defined hasks).symm.trans (h.1 hm)

/-- An item of an implementation after the words in front of it. -/
def implKind (g : Grammar) (vis : Visibility) (isDefault : Bool) : Parser Found :=
  memberKind vis isDefault (functionItem g vis isDefault) (constItem g true)
    (typeItem g true false >>= fun a =>
      pure (if a.2.1 || !a.2.2 then .unread else .node [] vis isDefault a.1))

/-- The kinds of members of an implementation are read the same again. -/
theorem implKind_replays (hg : ∀ m, Knot m size g g') (vis : Visibility) (isDefault : Bool) :
    Replays m size 1 (FoundEnds m) (implKind g vis isDefault) (implKind g' vis isDefault)
      (KindStart "default") :=
  memberKind_replays vis isDefault
    ((functionItem_replays hg vis isDefault).after fun _ _ _ _ => trivial)
    (constItem_replays hg true) (synonym_replays hg true false (fun node colon defined =>
      if colon || !defined then .unread else .node [] vis isDefault node) fun _ _ _ => rfl)

theorem peek_bind_ite {α : Type} (question : Peek) (b : Bool) (p : Parser α) (f : Bool → Parser α) :
    (peek question >>= fun answer => if b = true then p else f answer) =
      if b = true then p else peek question >>= f := by
  cases b <;> rfl

theorem finish_ofOption (start : Cursor) (attrs : List Node) (vis : Visibility) (isDefault : Bool)
    (node : Option Node) : finish start attrs (.ofOption vis isDefault node) =
      match node with
      | some node => finish start attrs (.node [] vis isDefault node)
      | none => finish start attrs .unread := by
  cases node <;> rfl

/-- A member of an implementation is a form and its finish. -/
theorem implItem_eq (g : Grammar) : implItem g =
    finished (memberForm g "default" (fun tokens => !isOp "!" tokens) (implKind g)) := by
  unfold implItem finished memberForm markWord implKind memberKind
  refine bind_congr fun start => ?_
  simp only [bind_assoc]
  refine bind_congr fun attrs => bind_congr fun vis => ?_
  simp only [peek_bind_ite, ite_bind, bind_assoc, pure_bind, finish_ofOption,
    apply_ite (finish start attrs)]
  rfl

/-- Members of an implementation are read the same again. -/
theorem implItem_replays (hg : ∀ m, Knot m size g g') :
    Replays m size 1 (fun _ => Lead) (implItem g) (implItem g') InnerStart := by
  rw [implItem_eq, implItem_eq]
  exact finished_replays fun m => memberForm_replays (hg m) fun vis isDefault =>
    implKind_replays hg vis isDefault

/-- What was found, if it has a meaning. -/
def Found.kept (meant : Bool) (found : Found) : Found :=
  if meant = true then found else .unread

/-- An item of a trait after the words in front of it. It has no visibility and is no default. -/
def traitKind (g : Grammar) (vis : Visibility) (isDefault : Bool) : Parser Found := do
  let found ← memberKind vis isDefault
    (signature g >>= fun head => op? ";" >>= fun ends =>
      if ends = true then pure (.node [] vis isDefault (.function head none))
      else blockWithAttrs g >>= fun body =>
        pure (.node body.1 vis isDefault (.function head (some body.2))))
    (constItem g false)
    (typeItem g false false >>= fun a => pure (.node [] vis isDefault a.1))
  return found.kept (isInherited vis && !isDefault)

/-- The kinds of members of a trait are read the same again. -/
theorem traitKind_replays (hg : ∀ m, Knot m size g g') (vis : Visibility) (isDefault : Bool) :
    Replays m size 1 (FoundEnds m) (traitKind g vis isDefault) (traitKind g' vis isDefault)
      (KindStart "default") := by
  have hmethod := (method_replays (m := m) hg
    (fun head => Found.node [] vis isDefault (.function head none)) fun head body =>
      .node body.1 vis isDefault (.function head (some body.2))).after
    fun found r r' (_ : FoundEnds m found r r') => trivial
  refine (memberKind_replays vis isDefault hmethod (constItem_replays hg false)
    (synonym_replays hg false false (fun node _ _ => .node [] vis isDefault node) nofun)).result
    fun found r r' h => ⟨fun hm => ?_, h.2⟩
  · have hkept := h.1 hm
    unfold Found.kept at hkept
    split at hkept
    · exact hkept
    · cases hkept

theorem finish_kept (start : Cursor) (attrs : List Node) (meant : Bool) (found : Found) :
    finish start attrs (found.kept meant) =
      if meant = true then finish start attrs found else keepVerbatim start := by
  cases meant <;> rfl

theorem finish_kept_ofOption (start : Cursor) (attrs : List Node) (meant : Bool) (vis : Visibility)
    (isDefault : Bool) (node : Option Node) :
    finish start attrs ((Found.ofOption vis isDefault node).kept meant) =
      match node with
      | some node => finish start attrs ((Found.node [] vis isDefault node).kept meant)
      | none => finish start attrs (Found.unread.kept meant) := by
  cases node <;> rfl

theorem markWord_true (text : String) : markWord text (fun _ => true) = word? text := by
  have hmark : (isWord text).and (second fun _ => true) = isWord text := by
    funext u
    exact Bool.and_true _
  unfold markWord
  rw [hmark]
  funext c
  rw [peek_bind_apply]
  cases hword : isWord text c.rest with
  | true => rfl
  | false =>
      change some (false, c) = _
      rw [← bind_pure (word? text), word?_bind, peek_bind_apply, hword]
      rfl

/-- A member of a trait is a form and its finish. -/
theorem traitItem_eq (g : Grammar) : traitItem g =
    finished (memberForm g "default" (fun _ => true) (traitKind g)) := by
  unfold traitItem finished memberForm traitKind memberKind
  rw [markWord_true]
  refine bind_congr fun start => ?_
  simp only [bind_assoc]
  refine bind_congr fun attrs => bind_congr fun vis => bind_congr fun isDefault => ?_
  simp only [peek_bind_ite, ite_bind, bind_assoc, pure_bind, finish_kept_ofOption]
  simp only [finish_kept]
  rfl

/-- Members of a trait are read the same again. -/
theorem traitItem_replays (hg : ∀ m, Knot m size g g') :
    Replays m size 1 (fun _ => Lead) (traitItem g) (traitItem g') InnerStart := by
  rw [traitItem_eq, traitItem_eq]
  exact finished_replays fun m => memberForm_replays (hg m) fun vis isDefault =>
    traitKind_replays hg vis isDefault

/-! ## Items of foreign blocks -/

/-- Whether a static variable comes next. -/
def isStaticStart : Peek := (isWord "static").or ((isWord "unsafe").and (second (isWord "static")))

/-- A static variable in a foreign block. -/
def foreignStatic (g : Grammar) (found : Bool → Bool → Ident → Node → Option Node → Found) :
    Parser Found := do
  let isUnsafe ← word? "unsafe"
  word "static"
  let mutable ← word? "mut"
  let name ← ident
  op ":"
  let ty ← g (.ty true)
  let value ← when? (isOp "=") do
    op "="
    g (.expr true)
  op ";"
  return found isUnsafe mutable name ty value

/-- Both readings go on with a static variable. -/
structure ForeignStaticStart (u u' : List Token) : Prop extends Lead u u' where
  left : isStaticStart u = true
  right : isStaticStart u' = true

theorem not_isWord_of_isWord {text other : String} (h : isWord text u = true) (hne : text ≠ other) :
    isWord other u = false := by
  obtain ⟨r, rfl⟩ := exists_of_kind_word (kind_of_isWord h)
  exact beq_false_of_ne hne

theorem isWord_of_isStaticStart (h : isStaticStart u = true) :
    isWord "static" u = true ∨ isWord "unsafe" u = true :=
  ((Bool.or_eq_true _ _).mp h).imp id fun h => ((Bool.and_eq_true _ _).mp h).1

theorem not_isStaticStart (hstatic : isWord "static" u = false) (hrisky : isWord "unsafe" u = false) :
    isStaticStart u = false := by
  unfold isStaticStart Peek.or Peek.and
  rw [hstatic, hrisky]
  rfl

theorem not_isSignature_of_isStaticStart (h : isStaticStart u = true) : isSignature u = false := by
  rcases (Bool.or_eq_true _ _).mp h with h | h
  · exact not_isSignature h (by decide)
  · obtain ⟨hrisky, hstatic⟩ := (Bool.and_eq_true _ _).mp h
    obtain ⟨r, rfl⟩ := exists_of_kind_word (kind_of_isWord hrisky)
    obtain ⟨t, rfl⟩ : ∃ t, r = .word "static" :: t := exists_of_kind_word (kind_of_isWord hstatic)
    rfl

/-- A foreign static is told from the word in front of it. -/
theorem ForeignStaticStart.kindStart (h : ForeignStaticStart u u') : KindStart "safe" u u' := by
  have hkind : ∃ text, kind u = .word ⟨text⟩ ∧ text ≠ "safe" := by
    rcases isWord_of_isStaticStart h.left with hword | hword
    · exact ⟨_, kind_of_isWord hword, by decide⟩
    · exact ⟨_, kind_of_isWord hword, by decide⟩
  obtain ⟨text, hkind, htext⟩ := hkind
  refine ⟨h.toLead, by rw [hkind]; nofun, fun hsafe => ?_, ?_⟩
  · cases hkind.symm.trans (kind_of_isWord hsafe)
    exact absurd rfl htext
  · rw [not_isSignature_of_isStaticStart h.left, not_isSignature_of_isStaticStart h.right]

/-- Foreign statics are read the same again. -/
theorem foreignStatic_replays (hg : Knot m size g g')
    (found : Bool → Bool → Ident → Node → Option Node → Found) :
    Replays m size 1 (fun _ => Any) (foreignStatic g found) (foreignStatic g' found)
      ForeignStaticStart := by
  have hend : ∀ a : Found, Replays m size 0 (fun _ => Any) (op ";" >>= fun _ => pure a)
      (op ";" >>= fun _ => pure a) Semicolon := fun a => semicolon_replays a
  have hvalue : ∀ make : Option Node → Found, Replays m size 0 (fun _ => Any)
      (when? (isOp "=") (do op "="; g (.expr true)) >>= fun value =>
        op ";" >>= fun _ => pure (make value))
      (when? (isOp "=") (do op "="; g' (.expr true)) >>= fun value =>
        op ";" >>= fun _ => pure (make value)) DefinitionEnds := by
    intro make
    refine .choiceWhen ?_ ?_ fun u u' h => (Stable.eq_of_lead h.whereEnds.toLead).symm
    · rw [bind_assoc, bind_assoc]
      refine ((op_closed "=").forget.bind Start (fun _ => ?_) fun _ _ _ _ => trivial).before
        fun u u' h hyes => .yes hyes h
      refine (hg.expr true).forget.bind Semicolon (fun value => hend _) fun _ _ _ h => ?_
      exact ValueEnds.edge ⟨.inr h.1, h.2⟩
    · exact (hend _).before fun u u' h hno => .no hno h
  have hname : ∀ isUnsafe mutable, Replays m size 1 (fun _ => Any)
      (ident >>= fun name => op ":" >>= fun _ => g (.ty true) >>= fun ty =>
        when? (isOp "=") (do op "="; g (.expr true)) >>= fun value =>
          op ";" >>= fun _ => pure (found isUnsafe mutable name ty value))
      (ident >>= fun name => op ":" >>= fun _ => g' (.ty true) >>= fun ty =>
        when? (isOp "=") (do op "="; g' (.expr true)) >>= fun value =>
          op ";" >>= fun _ => pure (found isUnsafe mutable name ty value)) Lead := by
    intro isUnsafe mutable
    refine ((ident_replays Colon).keep Colon (fun name => op_colon.forget.bind Lead (fun _ => ?_)
      fun _ _ _ h => h) fun _ _ _ h => h).before fun _ _ h => h.lead
    exact ((hg.ty true DefinitionEnds fun _ _ h => h.whereEnds.typeEnds).forget.bind _
      (fun ty => hvalue _) fun _ _ _ h => h).before fun _ _ h => h.toLead
  have hstatic : ∀ isUnsafe, Replays m size 1 (fun _ => Any)
      (word "static" >>= fun _ => word? "mut" >>= fun mutable => ident >>= fun name =>
        op ":" >>= fun _ => g (.ty true) >>= fun ty =>
          when? (isOp "=") (do op "="; g (.expr true)) >>= fun value =>
            op ";" >>= fun _ => pure (found isUnsafe mutable name ty value))
      (word "static" >>= fun _ => word? "mut" >>= fun mutable => ident >>= fun name =>
        op ":" >>= fun _ => g' (.ty true) >>= fun ty =>
          when? (isOp "=") (do op "="; g' (.expr true)) >>= fun value =>
            op ";" >>= fun _ => pure (found isUnsafe mutable name ty value)) (Known "static") :=
    fun isUnsafe => (word_known "static").keep Lead (fun _ => (word?_closed "mut").bind Lead
      (fun mutable => (hname isUnsafe mutable).forget) fun _ _ _ h => h) fun _ _ _ _ => trivial
  -- The parts are put together from the end: the semicolon, the value, the name with its type, the
  -- keyword; in front of it stands the word that the start has to tell from a signature.
  unfold foreignStatic
  refine .word? (fun _ _ h => h.toLead) ?_ ?_
  · refine ((word_then "unsafe" (Known "static")).keep _ (fun _ => (hstatic true).forget)
      fun _ _ _ h => h).before ?_
    rintro u u' ⟨hrisky, name, r, r', rfl, rfl, hword, hlead⟩
    have hrisky' : isWord "unsafe" (.ident name :: r') = true := hrisky
    have hword' : isWord "static" r' = true := (Stable.eq_of_lead hlead).symm.trans hword
    refine ⟨.word _ _ _, ?_, ?_⟩
    · exact (Bool.or_eq_true _ _).mpr (.inr ((Bool.and_eq_true _ _).mpr ⟨hrisky, hword⟩))
    · exact (Bool.or_eq_true _ _).mpr (.inr ((Bool.and_eq_true _ _).mpr ⟨hrisky', hword'⟩))
  · refine (hstatic false).before fun u u' h => ⟨h.2, ?_, ?_⟩
    · exact (Bool.or_eq_true _ _).mpr (.inl h.1)
    · exact (Bool.or_eq_true _ _).mpr (.inl ((Stable.eq_of_lead h.2).symm.trans h.1))

/-- An item of a foreign block after the words in front of it. -/
def foreignKind (g : Grammar) (vis : Visibility) (safe : Bool) : Parser Found := do
  if ← peek isSignature then
    signature g >>= fun head => op? ";" >>= fun ends =>
      if ends = true then
        pure (if safe then .unread else .node [] vis false (.function head none))
      else blockWithAttrs g >>= fun _ => pure .unread
  else if ← peek isStaticStart then
    foreignStatic g fun isUnsafe mutable name ty value =>
      if safe || isUnsafe || value.isSome then .unread
      else .node [] vis false (.staticItem mutable name ty none)
  else if ← peek (isWord "type") then
    typeItem g true true >>= fun a =>
      pure (if a.2.1 || a.2.2 then .unread else .node [] vis false a.1)
  else
    require (← peek isMacroStart)
    return .node [] vis false (← macroItem false)

/-- The kinds of members of a foreign block are read the same again. -/
theorem foreignKind_replays (hg : ∀ m, Knot m size g g') (vis : Visibility) (safe : Bool) :
    Replays m size 1 (FoundEnds m) (foreignKind g vis safe) (foreignKind g' vis safe)
      (KindStart "safe") := by
  have hfunction := (method_replays (m := m) hg
    (fun head => if safe = true then .unread else Found.node [] vis false (.function head none))
    fun _ _ => .unread).after fun found r r' (_ : FoundEnds m found r r') => trivial
  have hstatic := (foreignStatic_replays (hg m) fun isUnsafe mutable name ty value =>
    if (safe || isUnsafe || value.isSome) = true then .unread
    else .node [] vis false (.staticItem mutable name ty none)).after
    fun found r r' (_ : FoundEnds m found r r') => trivial
  have hsynonym := synonym_replays (m := m) hg true true (fun node colon defined =>
    if (colon || defined) = true then .unread else .node [] vis false node) fun _ _ _ => rfl
  unfold foreignKind
  refine .choice (hfunction.before fun u u' h _ => h.kindStart (by decide)) ?_
    fun _ _ h => h.signature
  refine (Replays.choice (hstatic.before fun u u' h _ => ⟨h.kindStart, h.right.trans h.left.symm⟩) ?_
    fun u u' h => h.2 : Replays _ _ _ _ _ _
      fun u u' => KindStart "safe" u u' ∧ isStaticStart u' = isStaticStart u).before
    fun _ _ h _ => h.1
  refine (Replays.ite (fun _ _ h => h.1.toLead) ?_ ?_ : Replays _ _ _ _ _ _ fun u u' =>
    KindStart "safe" u u' ∧ isStaticStart u = false ∧ isStaticStart u' = false).before
    fun u u' h _ => ⟨h.1, h.2.2.trans h.2.1.symm⟩
  · refine hsynonym.before fun u u' h => ?_
    have hright : isWord "type" u' = true := (Stable.eq_of_lead h.2).symm.trans h.1
    exact ⟨h.kindStart (by decide) (by decide),
      not_isStaticStart (not_isWord_of_isWord h.1 (by decide)) (not_isWord_of_isWord h.1 (by decide)),
      not_isStaticStart (not_isWord_of_isWord hright (by decide))
        (not_isWord_of_isWord hright (by decide))⟩
  · refine (callItem_replays vis false id rfl).before fun u u' ⟨hleft, h⟩ => ?_
    have hright : isMacroStart u' = true := (Stable.eq_of_lead h.toLead).symm.trans hleft
    have hno : ∀ {v}, isMacroStart v = true → isStaticStart v = false := fun hstart =>
      not_isStaticStart (not_isWord_of_isMacroStart hstart rfl (by decide))
        (not_isWord_of_isMacroStart hstart rfl (by decide))
    exact ⟨h.kindStart hleft, hno hleft, hno hright⟩

/-- A member of a foreign block is a form and its finish. -/
theorem foreignItem_eq (g : Grammar) : foreignItem g =
    finished (memberForm g "safe" (isOneOf ["fn", "static", "extern"]) (foreignKind g)) := by
  unfold foreignItem finished memberForm markWord foreignKind foreignStatic
  refine bind_congr fun start => ?_
  simp only [bind_assoc]
  refine bind_congr fun attrs => bind_congr fun vis => ?_
  simp only [peek_bind_ite, ite_bind, bind_assoc, pure_bind, apply_ite (finish start attrs)]
  rfl

/-- Members of a foreign block are read the same again. -/
theorem foreignItem_replays (hg : ∀ m, Knot m size g g') :
    Replays m size 1 (fun _ => Lead) (foreignItem g) (foreignItem g') InnerStart := by
  rw [foreignItem_eq, foreignItem_eq]
  exact finished_replays fun m => memberForm_replays (hg m) fun vis safe =>
    foreignKind_replays hg vis safe

end ActionUnits.Source
