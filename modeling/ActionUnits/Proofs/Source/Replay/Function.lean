import ActionUnits.Proofs.Source.Replay.Unary
import ActionUnits.Proofs.Source.Replay.Use

/-! # Replaying functions

The first parameter of a function may be a receiver, which a pattern may look like
up to its colon. A type without a name is written with a wildcard in front of it,
so the second reading of what was written finds a pattern there.
-/

namespace ActionUnits.Source

variable {m : Mode} {size : Nat} {g g' : Grammar} {u u' : List Token}

/-! ## Receivers -/

theorem not_untyped_of_startsType (hstarts : startsType (kind u) = true)
    (hpath : kind u = .punct ':' → isOp "::" u = true) :
    ((isOp ".").or ((isOp ":").butNot (isOp "::"))) u = false := by
  have hpoint : isOp "." u = false := by
    refine isOp_of_kind (rfl : ".".toList = ['.']) (by decide) fun hkind => ?_
    rw [hkind] at hstarts
    cases hstarts
  cases hcolon : isOp ":" u with
  | false => rw [Peek.or, Peek.butNot, hpoint, hcolon, Bool.false_or, Bool.false_and]
  | true =>
      rw [Peek.or, Peek.butNot, hpoint, hpath (kind_of_isOp rfl (by decide) hcolon), Bool.false_or,
        Bool.not_true, Bool.and_false]

theorem TypeStart.not_untyped {P : Follow} (h : TypeStart P u u') :
    ((isOp ".").or ((isOp ":").butNot (isOp "::"))) u' = false :=
  not_untyped_of_startsType (h.kind_eq ▸ h.starts) fun hcolon =>
    h.path_eq.symm.trans (h.path (h.kind_eq.trans hcolon))

theorem CommaEnds.not_colon (h : CommaEnds u u') : isOp ":" u' = false := by
  rcases h with ⟨-, rfl⟩ | ⟨hcomma, hlead⟩
  · rfl
  · refine isOp_of_kind (rfl : ":".toList = [':']) (by decide) ?_
    rw [← hlead.kind_eq, kind_of_isOp (rfl : ",".toList = [',']) (by decide) hcomma]
    decide

/-- What follows the word of a receiver: its type, if it may have one, or the end. -/
def ReceiverEnds (m : Mode) (typed : Bool) : Follow :=
  if typed = true then Either (isOp ":") (ColonThen m (TypeStart CommaEnds)) CommaEnds else CommaEnds

theorem ReceiverEnds.not_untyped {typed : Bool} (h : ReceiverEnds m typed u u') :
    typed = true → isUntyped u' = false := by
  rintro rfl
  refine Either.elim (h : Either _ _ _ u u') (fun _ h => ?_) fun _ h => ?_
  · rw [isUntyped, h.tail.not_untyped, Bool.and_false]
  · rw [isUntyped, h.not_colon, Bool.false_and]

def receiverType (g : Grammar) (typed : Bool) : Parser (Option Node) :=
  if typed = true then when? (isOp ":") do
    op ":"
    g (.ty true)
  else pure none

/-- The type of a receiver is read the same again. -/
theorem receiverType_replays (hg : Knot m size g g') (typed : Bool) :
    Replays m size 0 (fun _ => CommaEnds) (receiverType g typed) (receiverType g' typed)
      (ReceiverEnds m typed) := by
  unfold receiverType ReceiverEnds
  cases typed with
  | false => exact .pure none
  | true =>
      refine .choice ?_ ?_ fun u u' h => ?_
      · refine (Replays.wrap ((op_colon_replays (TypeStart CommaEnds) fun _ _ h _ =>
          h.toLead).forget.bind _ (fun _ => (hg.ty true CommaEnds fun _ _ h => h.typeEnds).forget)
          fun _ _ _ h => h)).before fun u u' h hyes => .yes hyes h
      · exact (Replays.pure none).before fun u u' h hno => .no hno h
      · refine h.elim (fun hyes h => ?_) fun hno h => h.not_colon.trans hno.symm
        exact ((isOp_iff_kind rfl (by decide)).mpr h.kind_right).trans hyes.symm

/-- Both readings go on with a receiver after its reference. -/
def SelfStart (m : Mode) (typed : Bool) : Follow :=
  Marked "mut" fun u u' => isWord "self" u = true ∧ WordThen (ReceiverEnds m typed) u u'

theorem SelfStart.lead {typed : Bool} (h : SelfStart m typed u u') : Lead u u' :=
  Marked.lead (fun _ _ h => h.2.lead) h

def receiverAfter (g : Grammar) (attrs : List Node) (byRef : Option (Option Ident)) :
    Parser Node := do
  let mutable ← word? "mut"
  word "self"
  let ty ← receiverType g byRef.isNone
  return .receiver attrs byRef mutable ty

/-- A receiver is read the same again from its mark on. -/
theorem receiverAfter_replays (hg : Knot m size g g') (attrs : List Node)
    (byRef : Option (Option Ident)) :
    Replays m size 1 (fun _ => CommaEnds) (receiverAfter g attrs byRef)
      (receiverAfter g' attrs byRef) (SelfStart m byRef.isNone) :=
  mark_replays "mut" (fun _ => (word_then "self" _).keep _ (fun _ =>
    (receiverType_replays hg byRef.isNone).wrap) fun _ _ _ h => h) fun _ _ h => h.2.lead

/-- A receiver may be taken by reference, with or without a lifetime. -/
theorem receiver_eq (g : Grammar) (attrs : List Node) :
    receiver g attrs = (peek (isOp "&") >>= fun b => if b = true then
      op "&" >>= fun _ => lifetime? >>= fun name => receiverAfter g attrs (some name)
      else receiverAfter g attrs none) := by
  unfold receiver
  rw [when?_bind]
  simp only [bind_assoc]
  rfl

/-- Both readings go on with a receiver. -/
structure ReceiverStart (u u' : List Token) : Prop extends Lead u u' where
  right : isReceiverStart u' = true

theorem isReceiverStart_amp (joint : Bool) (r : List Token) :
    isReceiverStart (.punct '&' joint :: r) = isWord "self" (afterWord "mut" (afterLifetime r)) := by
  cases joint <;> rfl

/-- The word of a receiver stands after `mut`, if that comes first. -/
theorem SelfStart.isWord_self {typed : Bool} (h : SelfStart m typed u u') :
    isWord "self" (afterWord "mut" u') = true ∧
      (typed = true → isUntyped (afterWord "mut" u').tail = false) := by
  unfold SelfStart Marked at h
  refine h.elim (fun hmut h => ?_) fun hmut h => ?_
  · obtain ⟨name, r, r', rfl, rfl, hself, other, t, t', rfl, rfl, hends⟩ := h
    have hright : isWord "mut" (.ident name :: .ident other :: t') = true := hmut
    rw [afterWord, if_pos hright]
    exact ⟨hself, fun htyped => hends.not_untyped htyped⟩
  · have hright : isWord "mut" u' = false := (Stable.eq_of_lead h.2.lead).symm.trans hmut
    rw [afterWord, if_neg (by rw [hright]; decide)]
    obtain ⟨hself, other, t, t', rfl, rfl, hends⟩ := h
    exact ⟨hself, fun htyped => hends.not_untyped htyped⟩

theorem SelfStart.receiver (h : SelfStart m true u u') : ReceiverStart u u' := by
  obtain ⟨hself, htyped⟩ := h.isWord_self
  refine ⟨h.lead, ?_⟩
  have hamp : isOp "&" u' = false := by
    cases hyes : isOp "&" u' with
    | false => rfl
    | true =>
        obtain ⟨joint, r, rfl⟩ := @exists_of_nextIsOp '&' [] _ hyes
        cases hself
  rw [isReceiverStart, if_neg (by rw [hamp]; decide)]
  change (isWord "self" (afterWord "mut" u') && !isUntyped (afterWord "mut" u').tail) = true
  rw [hself, htyped rfl]
  rfl

/-- After the reference a lifetime may come. -/
def ReferenceThen (m : Mode) : Follow :=
  Either isLifetime (LifetimeThen (SelfStart m false)) (SelfStart m false)

theorem ReferenceThen.isWord_self (h : ReferenceThen m u u') :
    isWord "self" (afterWord "mut" (afterLifetime u')) = true := by
  unfold ReferenceThen at h
  refine h.elim (fun _ h => ?_) fun hno h => ?_
  · obtain ⟨name, r, r', rfl, rfl, hself⟩ := h
    exact hself.isWord_self.1
  · have hright : isLifetime u' = false := (Stable.eq_of_lead h.lead).symm.trans hno
    rw [afterLifetime, if_neg (by rw [hright]; decide)]
    exact h.isWord_self.1

theorem ReceiverStart.of_reference (h : OpThen m "&" (ReferenceThen m) u u') :
    ReceiverStart u u' := by
  refine ⟨h.lead (by decide), ?_⟩
  obtain ⟨joint, joint', r, r', rfl, rfl, -, hrest⟩ := h.single '&' rfl
  rw [isReceiverStart_amp]
  exact hrest.isWord_self

/-- Receivers are read the same again. -/
theorem receiver_replays (hg : Knot m size g g') (attrs : List Node) :
    Replays m size 1 (fun _ => CommaEnds) (receiver g attrs) (receiver g' attrs)
      ReceiverStart := by
  rw [receiver_eq, receiver_eq]
  refine .ite (fun _ _ h => h.toLead) ?_
    ((receiverAfter_replays hg attrs none).before fun _ _ h => h.receiver)
  refine ((op_then "&" (ReferenceThen m)).keep _ (fun _ => ?_) fun _ _ _ h => h).before
    fun _ _ h => .of_reference h
  rw [lifetime?_bind, lifetime?_bind]
  have hafter := fun name => (receiverAfter_replays hg attrs (some name)).forget
  refine .choice ?_ ?_ fun u u' h => ?_
  · exact ((lifetime_replays _).bind _ (fun name => hafter (some name)) fun _ _ _ h => h).before
      fun u u' h hyes => .yes hyes h
  · exact (hafter none).before fun u u' h hno => .no hno h
  · exact h.elim (fun _ h => (Stable.eq_of_lead h.lead).symm)
      fun _ h => (Stable.eq_of_lead h.lead).symm

/-! ## Parameters -/

/-- What comes after the colon of a parameter: its type, or the open end of the list. -/
def InputEnds : Follow := fun u u' => Ellipsis u u' ∨ TypeStart CommaEnds u u'

theorem InputEnds.lead (h : InputEnds u u') : Lead u u' :=
  h.elim (fun h => h.toLead) fun h => h.toLead

theorem InputEnds.ellipsis (h : InputEnds u u') : isOp "..." u' = isOp "..." u := by
  rcases h with h | h
  · rw [h.left, h.right]
  · rw [not_ellipsis_of_startsType h.starts, not_ellipsis_of_startsType (h.kind_eq ▸ h.starts)]

/-- A colon with what comes after it. -/
def InputColon (m : Mode) : Follow := ColonThen m InputEnds

theorem InputColon.untyped (h : InputColon m u u') (hyes : isUntyped u = true) :
    isUntyped u' = true := by
  obtain ⟨-, hno⟩ := (Bool.and_eq_true _ _).mp hyes
  rcases h.tail with hdots | htype
  · rw [isUntyped, (isOp_iff_kind (rfl : ":".toList = [':']) (by decide)).mpr h.kind_right]
    have hpoint : isOp "." u'.tail = true := (isOp_iff_kind rfl (by decide)).mpr
      (kind_of_isOp (rfl : "...".toList = ['.', '.', '.']) (by decide) hdots.right)
    rw [Peek.or, hpoint]
    rfl
  · exact absurd (hno.symm.trans (not_untyped_of_startsType htype.starts htype.path)) (by decide)

theorem InputColon.patternEnds (h : InputColon m u u') : SinglePatternEnds u u' := by
  refine (h.toColon.patternEnds fun hcolon => ?_).toSinglePatternEnds
  rcases h.tail with hdots | htype
  · rw [kind_of_isOp (rfl : "...".toList = ['.', '.', '.']) (by decide) hdots.left] at hcolon
    cases hcolon
  · exact htype.path hcolon

def inputPattern (g : Grammar) (attrs : List Node) : Parser (Bool × Node) := do
  let pattern ← g .singlePattern
  op ":"
  if ← op? "..." then return (true, .variadic attrs (some pattern))
  else return (false, .typedPattern attrs pattern (← g (.ty true)))

/-- A parameter without a pattern. -/
def inputType (g : Grammar) (attrs : List Node) : Parser (Bool × Node) := do
  write [.word "_", .punct ':' false]
  return (false, .typedPattern attrs .wildPattern (← g (.ty true)))

/-- Whether a name and arguments in angle brackets come next, which start a type. -/
def isInputType : Peek := isIdent.and (second (isOp "<"))

/-- A parameter after its attributes. -/
def inputAfter (g : Grammar) (attrs : List Node) : Parser (Bool × Node) := do
  if ← op? "..." then return (true, .variadic attrs none)
  else if ← peek isReceiverStart then return (false, ← receiver g attrs)
  else if ← peek isInputType then inputType g attrs
  else inputPattern g attrs

theorem functionParam_eq (g : Grammar) :
    functionParam g = (outerAttrs g >>= fun attrs => inputAfter g attrs) := rfl

/-- Parameters with a pattern are read the same again. -/
theorem inputPattern_replays (hg : Knot m size g g') (attrs : List Node) :
    Replays m size 1 (fun _ => CommaEnds) (inputPattern g attrs) (inputPattern g' attrs)
      (SingleStart (InputColon m)) := by
  refine (hg.singlePattern (InputColon m) fun _ _ h => h.patternEnds).keep _ (fun pattern => ?_)
    fun _ _ _ h => h
  refine (op_colon_replays InputEnds fun _ _ h _ => h.lead).forget.bind _ (fun _ => ?_)
    fun _ _ _ h => h
  refine .choiceOp ?_ ?_ fun _ _ h => h.ellipsis
  · exact (op_ellipsis.forget.result fun _ _ _ _ => trivial).before fun _ _ h _ => .inl h
  · exact (hg.ty true CommaEnds fun _ _ h => h.typeEnds).forget.wrap.before fun _ _ h _ => .inr h

/-- The type of a parameter without a pattern is read back after a wildcard. -/
theorem inputType_written (hg : Knot .written size g g') (attrs : List Node) :
    Replays .written size 1 (fun _ => CommaEnds) (inputType g attrs) (inputPattern g' attrs)
      fun u u' => ∃ v, u' = .word "_" :: .punct ':' false :: v ∧ TypeStart CommaEnds u v := by
  intro c a d hrun
  unfold inputType at hrun
  rw [bind_of_eq_some (write_apply _)] at hrun
  obtain ⟨ty, e, hty, hpure⟩ := bind_eq_some.mp hrun
  obtain ⟨rfl, rfl⟩ := pure_eq_some.mp hpure
  obtain ⟨read, written, hread, hwritten, hlr, hlw, hreplay⟩ :=
    hg.ty true CommaEnds (fun _ _ h => h.typeEnds) _ _ _ hty
  refine ⟨read, .word "_" :: .punct ':' false :: written, hread, by simp [hwritten], hlr,
    by simp, fun rest hrest hbound => ?_⟩
  simp only [Mode.pick_written, List.cons_append] at hreplay hbound ⊢
  have hsize : Token.sizeAll (written ++ rest) ≤ size := by
    simp only [Token.sizeAll] at hbound
    omega
  obtain ⟨hstart, hagain⟩ := hreplay rest hrest hsize
  refine ⟨⟨_, rfl, hstart⟩, fun z => ?_⟩
  have hcolon : op ":" ⟨.punct ':' false :: (written ++ rest), .word "_" :: z⟩ =
      some ((), ⟨written ++ rest, .punct ':' false :: .word "_" :: z⟩) :=
    op_eq_some.mpr ⟨rfl, rfl⟩
  unfold inputPattern
  rw [bind_of_eq_some (hg.wild _ _ _), bind_of_eq_some hcolon, bind_of_eq_some (op?_apply_false
    (not_ellipsis_of_startsType (hstart.kind_eq ▸ hstart.starts)))]
  refine bind_eq_some.mpr ⟨ty, _, hagain _, ?_⟩
  simp

theorem isOp_less_cons (token : Token) (rest rest' : List Token) :
    isOp "<" (token :: rest) = isOp "<" (token :: rest') := by
  cases token with
  | punct char joint => cases joint <;> rfl
  | ident name => rfl
  | literal text => rfl
  | group delimiter body => rfl

theorem CommaEnds.not_less (h : CommaEnds u u') : isOp "<" u = false := by
  rcases h with ⟨rfl, -⟩ | ⟨hcomma, -⟩
  · rfl
  · refine isOp_of_kind (rfl : "<".toList = ['<']) (by decide) ?_
    rw [kind_of_isOp (rfl : ",".toList = [',']) (by decide) hcomma]
    decide

/-- A type that starts with a name and an angle bracket does so where it is read back, as what
follows a type starts with no bracket. -/
theorem inputType_verbatim (hg : Knot .verbatim size g g') (attrs : List Node) :
    Replays .verbatim size 1 (fun _ => CommaEnds) (inputType g attrs) (inputType g' attrs)
      fun u u' => TypeStart CommaEnds u u' ∧ (isOp "<" u.tail = true → isOp "<" u'.tail = true) := by
  have htype : Replays .verbatim size 1 (fun _ => CommaEnds) (inputType g attrs)
      (inputType g' attrs) (TypeStart CommaEnds) :=
    (write_verbatim _).bind _ (fun _ => (hg.ty true CommaEnds fun _ _ h => h.typeEnds).wrap)
      fun _ _ _ h => h
  intro c a d hrun
  obtain ⟨read, written, hread, hwritten, hlr, hlw, hreplay⟩ := htype c a d hrun
  refine ⟨read, written, hread, hwritten, hlr, hlw, fun rest hrest hbound => ?_⟩
  obtain ⟨hstart, hagain⟩ := hreplay rest hrest hbound
  refine ⟨⟨hstart, fun hless => ?_⟩, hagain⟩
  rw [hread] at hless
  cases read with
  | nil => cases hlr
  | cons token read =>
      cases read with
      | nil => exact absurd (hless.symm.trans hrest.not_less) (by decide)
      | cons next read => exact (isOp_less_cons next _ _).trans hless

/-- Both readings go on with a parameter that is no receiver and not the open end of the list. -/
structure PlainInput (u u' : List Token) : Prop where
  ne_nil : u' ≠ []
  hash : isOp "#" u' = false
  ellipsis : isOp "..." u' = false
  receiver : Absent isReceiverStart u u'

theorem PlainInput.of_kind (hnil : kind u' ≠ .nothing) (hhash : kind u' ≠ .punct '#')
    (hdots : isOp "..." u' = false) (hreceiver : Absent isReceiverStart u u') : PlainInput u u' :=
  ⟨by rintro rfl; exact hnil rfl, isOp_of_kind (rfl : "#".toList = ['#']) (by decide) hhash, hdots,
    hreceiver⟩

theorem PlainInput.of_pattern {P : Follow} (h : SingleStart P u u')
    (hP : ∀ r r', P r r' → isUntyped r = true → isUntyped r' = true) : PlainInput u u' := by
  have hstarts := h.kind_eq ▸ h.starts
  refine .of_kind (fun hkind => ?_) (fun hkind => ?_) h.ellipsis (h.receiver hP)
  · rw [hkind] at hstarts
    cases hstarts
  · rw [hkind] at hstarts
    cases hstarts

theorem not_isWord_of_isIdent {text : String} (htext : isKeyword ⟨text⟩ = true)
    (h : isIdent u = true) : isWord text u = false := by
  cases hword : isWord text u with
  | false => rfl
  | true =>
      have hident : isIdent u = isIdent [.word text] := Headed.eq_of_kind_eq (kind_of_isWord hword)
      change _ = !isKeyword ⟨text⟩ at hident
      rw [h, htext] at hident
      cases hident

theorem PlainInput.of_ident (h : isIdent u' = true) : PlainInput u u' := by
  have hmut := not_isWord_of_isIdent (rfl : isKeyword ⟨"mut"⟩ = true) h
  have hself := not_isWord_of_isIdent (rfl : isKeyword ⟨"self"⟩ = true) h
  obtain ⟨name, r, rfl, -⟩ := exists_of_isIdent h
  exact .of_kind nofun nofun rfl (.of_not (isReceiverStart_of_not rfl hmut hself))

theorem PlainInput.of_wild {v : List Token} (h : u' = .word "_" :: .punct ':' false :: v) :
    PlainInput u u' := by
  subst h
  exact .of_kind nofun nofun rfl (.of_not rfl)

theorem isInputType_word (name : Ident) (r : List Token) :
    isInputType (.ident name :: r) = (isIdent [.ident name] && isOp "<" r) := rfl

theorem InputColon.not_less (h : InputColon m u u') : isOp "<" u' = false := by
  refine isOp_of_kind (rfl : "<".toList = ['<']) (by decide) ?_
  rw [h.kind_right]
  decide

/-- After the name of a pattern no arguments come in the second reading, if none did in the first. -/
theorem not_inputType_of_pattern (h : SingleStart (InputColon m) u u')
    (hno : isInputType u = false) : isInputType u' = false := by
  cases hident : isIdent u' with
  | false => rw [isInputType, Peek.and, hident, Bool.false_and]
  | true =>
      obtain ⟨name, r', rfl, -⟩ := exists_of_isIdent hident
      obtain ⟨r, rfl⟩ := exists_of_kind_word h.kind_eq
      rw [isInputType_word] at hno ⊢
      have hname : isIdent [.ident name] = true := hident
      rw [hname, Bool.true_and] at hno ⊢
      exact (h.word name r r' rfl rfl).elim (fun h => h.not_less) fun h => h hno

/-- Parameters with a pattern, and those with a type only, are told apart the same. -/
theorem plainInput_replays (hg : Knot m size g g') (attrs : List Node) :
    Replays m size 1 (fun _ => CommaEnds)
      (peek isInputType >>= fun b => if b = true then inputType g attrs else inputPattern g attrs)
      (peek isInputType >>= fun b => if b = true then inputType g' attrs else inputPattern g' attrs)
      PlainInput := by
  have hpattern := inputPattern_replays hg attrs
  cases m with
  | verbatim =>
      refine (Replays.choice ?_ ?_ fun _ _ h => h.2 : Replays _ _ _ _ _ _
        fun u u' => PlainInput u u' ∧ isInputType u' = isInputType u).before fun _ _ h => h.1
      · refine (inputType_verbatim hg attrs).before fun u u' h hyes => ?_
        obtain ⟨hident, hless⟩ := (Bool.and_eq_true _ _).mp hyes
        have hident' : isIdent u' = true := (Stable.eq_of_lead h.1.toLead).symm.trans hident
        obtain ⟨name, r, rfl, -⟩ := exists_of_isIdent hident
        obtain ⟨name', r', rfl, -⟩ := exists_of_isIdent hident'
        refine ⟨.of_ident hident', Eq.trans ?_ hyes.symm⟩
        exact (Bool.and_eq_true _ _).mpr ⟨hident', h.2 hless⟩
      · exact hpattern.before fun u u' h hno =>
          ⟨.of_pattern h fun _ _ h => h.untyped, (not_inputType_of_pattern h hno).trans hno.symm⟩
  | written =>
      refine ((Replays.either ?_ ?_).passing fun _ _ h => h.2 : Replays _ _ _ _ _ _
        fun u u' => PlainInput u u' ∧ isInputType u' = false).before fun _ _ h => h.1
      · refine (inputType_written hg attrs).before fun u u' h _ => ?_
        obtain ⟨v, hu', -⟩ := h
        exact ⟨.of_wild hu', by rw [hu']; rfl⟩
      · exact hpattern.before fun u u' h hno =>
          ⟨.of_pattern h fun _ _ h => h.untyped, not_inputType_of_pattern h hno⟩

/-- What a parameter starts with is told from the end of the list and from attributes. -/
def InputStart : Follow := fun _ u' => u' ≠ [] ∧ isOp "#" u' = false

theorem ReceiverStart.told (h : ReceiverStart u u') : InputStart u u' ∧ isOp "..." u' = false := by
  have hword : isOp "&" u' = true ∨ isWord "mut" u' = true ∨ isWord "self" u' = true := by
    by_contra hnone
    simp only [not_or, Bool.not_eq_true] at hnone
    exact absurd (h.right.symm.trans (isReceiverStart_of_not hnone.1 hnone.2.1 hnone.2.2)) (by decide)
  have hkind : kind u' ≠ .nothing ∧ kind u' ≠ .punct '#' ∧ kind u' ≠ .punct '.' := by
    rcases hword with hop | hword | hword
    · rw [kind_of_isOp (rfl : "&".toList = ['&']) (by decide) hop]
      decide
    · rw [kind_of_isWord hword]
      exact ⟨nofun, nofun, nofun⟩
    · rw [kind_of_isWord hword]
      exact ⟨nofun, nofun, nofun⟩
  refine ⟨⟨?_, isOp_of_kind (rfl : "#".toList = ['#']) (by decide) hkind.2.1⟩,
    not_ellipsis_of_kind hkind.2.2⟩
  rintro rfl
  exact hkind.1 rfl

theorem Ellipsis.told (h : Ellipsis u u') : InputStart u u' := by
  have hkind := kind_of_isOp (rfl : "...".toList = ['.', '.', '.']) (by decide) h.right
  refine ⟨?_, isOp_of_kind (rfl : "#".toList = ['#']) (by decide) ?_⟩
  · rintro rfl
    cases hkind
  · rw [hkind]
    decide

/-- A parameter is read the same again behind its attributes. -/
theorem inputAfter_replays (hg : Knot m size g g') (attrs : List Node) :
    Replays m size 1 (fun _ => CommaEnds) (inputAfter g attrs) (inputAfter g' attrs) InputStart := by
  have hinput : Replays m size 1 (fun _ => CommaEnds)
      (peek isReceiverStart >>= fun b => if b = true then
          receiver g attrs >>= fun node => pure (false, node)
        else peek isInputType >>= fun b =>
          if b = true then inputType g attrs else inputPattern g attrs)
      (peek isReceiverStart >>= fun b => if b = true then
          receiver g' attrs >>= fun node => pure (false, node)
        else peek isInputType >>= fun b =>
          if b = true then inputType g' attrs else inputPattern g' attrs)
      fun u u' => InputStart u u' ∧ isOp "..." u' = false := by
    refine (Replays.choice ?_ ?_ fun _ _ h => h.2 : Replays _ _ _ _ _ _
      fun u u' => (InputStart u u' ∧ isOp "..." u' = false) ∧
        isReceiverStart u' = isReceiverStart u).before fun _ _ h => h.1
    · exact (receiver_replays hg attrs).wrap.before fun u u' h hyes =>
        ⟨h.told, h.right.trans hyes.symm⟩
    · exact (plainInput_replays hg attrs).before fun u u' h hno =>
        ⟨⟨⟨h.ne_nil, h.hash⟩, h.ellipsis⟩, (h.receiver hno).trans hno.symm⟩
  refine (Replays.choiceOp ?_ (hinput.before fun u u' h hno => ⟨h.1, h.2.trans hno.symm⟩)
    fun _ _ h => h.2 : Replays _ _ _ _ _ _
    fun u u' => InputStart u u' ∧ isOp "..." u' = isOp "..." u).before fun _ _ h => h.1
  exact (op_ellipsis.result fun _ _ _ _ => trivial).before fun u u' h hyes =>
    ⟨h.told, h.right.trans hyes.symm⟩

/-- Parameters of functions are read the same again. -/
theorem functionParam_replays (hg : Knot m size g g') :
    Replays m size 1 (fun _ => CommaEnds) (functionParam g) (functionParam g')
      fun _ u' => u' ≠ [] := by
  rw [functionParam_eq, functionParam_eq]
  refine ((outerAttrs_replays hg fun u u' (h : InputStart u u') => .of_not h.2).smaller.bind _
    (fun attrs => inputAfter_replays hg attrs) fun _ _ _ h => h).before fun u u' h => ?_
  refine h.elim (fun _ h => ?_) fun _ h => h.1
  rintro rfl
  cases h.right

/-- The parameters of a function are read the same again in their parentheses. -/
theorem functionParams_replays (hg : Knot m size g g') :
    Replays m (size + 1) 1 (fun _ => Any) (group .paren (commaList (functionParam g)))
      (group .paren (commaList (functionParam g'))) Lead :=
  group_closed .paren (commaElements_replays (functionParam_replays hg) (fun _ _ h => h)
    (.inl atEnd_nil) fun _ _ hcomma h => .inr ⟨hcomma, h⟩) fun _ => atEnd_nil

/-! ## The words of a function -/

/-- After an optional word comes what follows the word. -/
theorem word?_rest {text : String} {b : Bool} {c d : Cursor} (h : word? text c = some (b, d)) :
    d.rest = afterWord text c.rest := by
  unfold word? at h
  rw [peek_bind_apply] at h
  unfold afterWord
  split at h
  next hyes =>
      obtain ⟨_, e, hword, hpure⟩ := bind_eq_some.mp h
      obtain ⟨-, rfl⟩ := pure_eq_some.mp hpure
      obtain ⟨-, hrun⟩ := require_peek_bind.mp hword
      obtain ⟨name, e, hname, hpure⟩ := bind_eq_some.mp hrun
      obtain ⟨-, rfl⟩ := pure_eq_some.mp hpure
      rw [if_pos hyes, (anyWord_eq_some.mp hname).1]
      rfl
  next hno =>
      obtain ⟨-, rfl⟩ := pure_eq_some.mp h
      rw [if_neg hno]

/-- The tokens after the calling convention of a function. -/
def afterAbi (tokens : List Token) : List Token :=
  if isWord "extern" tokens then
    if isString tokens.tail then tokens.tail.tail else tokens.tail
  else tokens

/-- After the name of a convention comes what follows it. -/
theorem abi_rest {a : Abi} {c d : Cursor} (h : abi c = some (a, d)) : d.rest = afterAbi c.rest := by
  unfold abi at h
  rw [word?_bind, peek_bind_apply] at h
  unfold afterAbi
  split at h
  next hextern =>
      obtain ⟨_, e, hword, hrun⟩ := bind_eq_some.mp h
      obtain ⟨-, hword⟩ := require_peek_bind.mp hword
      obtain ⟨name, e, hname, hpure⟩ := bind_eq_some.mp hword
      obtain ⟨-, rfl⟩ := pure_eq_some.mp hpure
      have hrest : c.rest.tail = e.rest := by
        rw [(anyWord_eq_some.mp hname).1]
        rfl
      rw [if_pos hextern, hrest]
      rw [if_pos rfl, peek_bind_apply] at hrun
      split at hrun
      next hstring =>
          obtain ⟨node, e', hliteral, hmatch⟩ := bind_eq_some.mp hrun
          rw [if_pos hstring]
          rcases literal_eq_some.mp hliteral with ⟨text, rfl, hlit, -⟩ | ⟨name, -, -, hlit, -⟩ |
            ⟨text, joint, -, -, hlit, -⟩
          · obtain ⟨-, rfl⟩ := pure_eq_some.mp hmatch
            rw [hlit]
            rfl
          · rw [hlit] at hstring
            cases hstring
          · rw [hlit] at hstring
            cases hstring
      next hstring =>
          obtain ⟨-, rfl⟩ := pure_eq_some.mp hrun
          rw [if_neg hstring]
  next hextern =>
      obtain ⟨-, rfl⟩ := pure_eq_some.mp h
      rw [if_neg hextern]

end ActionUnits.Source
