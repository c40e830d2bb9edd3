import ActionUnits.Proofs.Source.Replay.Operator

/-! # Replaying operands

An operand is followed by operators that bind strongly enough. Both readings see
the same operators after it, so they extend it in the same steps.
-/

namespace ActionUnits.Source

variable {α : Type} {m : Mode} {size : Nat} {g g' : Grammar}

/-! ## Changes that read nothing -/

/-- A growing result stays as it is, or something is read. -/
theorem iterateStep_moves {step : α → Parser (Option α)} (hstep : ∀ a, Moves m (step a))
    (fuel : Nat) {a b : α} {c d : Cursor} (h : iterateStep step fuel a c = some (b, d)) :
    d = c ∨ Advances m c d := by
  induction fuel generalizing a c with
  | zero => cases h
  | succ fuel ih =>
      obtain ⟨answer, e, hfirst, hmore⟩ := bind_eq_some.mp h
      cases answer with
      | none =>
          obtain ⟨-, rfl⟩ := pure_eq_some.mp hmore
          exact (hstep a c _ _ hfirst).imp_left fun h => h.2
      | some next =>
          have hfirst := (hstep a).advances c next e hfirst
          rcases ih hmore with rfl | hlater
          · exact .inr hfirst
          · exact .inr ⟨hlater.1.trans hfirst.1, fun hm => (hfirst.2 hm).trans (hlater.2 hm)⟩

/-- Growing a result step by step stays in place or advances. -/
theorem iterate_moves {step : α → Parser (Option α)} (hstep : ∀ a, Moves m (step a)) {a b : α}
    {c d : Cursor} (h : iterate step a c = some (b, d)) : d = c ∨ Advances m c d :=
  iterateStep_moves hstep (c.rest.length + 1) h

/-- A result, if something was read for it. -/
def ifMoved (p : Parser α) : Parser (Option α) := do
  let before ← get
  let a ← p
  if (← get).rest.length == before.rest.length then return none else return some a

/-- A part that counts only if it read something is read the same again. -/
theorem ifMoved_replays {Some None Pre : Follow} {p p' : Parser α}
    (hp : Replays m size 0 (fun _ => Some) p p' Pre) (hnone : ∀ r r', None r r' → Some r r')
    (hmoves : ∀ {c a d}, p c = some (a, d) → d = c ∨ Advances m c d) :
    Replays m size 0 (OnSome (fun _ => Some) None) (ifMoved p) (ifMoved p') Pre := by
  intro c answer d hrun
  unfold ifMoved at hrun
  rw [bind_of_eq_some get_apply] at hrun
  obtain ⟨a, e, hfirst, hfinish⟩ := bind_eq_some.mp hrun
  rw [bind_of_eq_some get_apply] at hfinish
  obtain ⟨read, written, hread, hwritten, -, -, hreplay⟩ := hp c a e hfirst
  rcases hmoves hfirst with rfl | hadvance
  · rw [if_pos (by simp)] at hfinish
    obtain ⟨rfl, rfl⟩ := pure_eq_some.mp hfinish
    obtain rfl : read = [] := by simpa using hread
    obtain rfl : written = [] := by simpa using hwritten
    refine ⟨[], [], rfl, rfl, Nat.le_refl _, Nat.le_refl _, fun rest hrest hbound => ?_⟩
    obtain ⟨hpre, hagain⟩ := hreplay rest (hnone _ _ hrest) hbound
    refine ⟨hpre, fun z => ?_⟩
    unfold ifMoved
    rw [bind_of_eq_some get_apply, bind_of_eq_some (hagain z), bind_of_eq_some get_apply,
      if_pos (by simp)]
    rfl
  · have hpos := hadvance.pick_pos hread hwritten
    rw [if_neg (by simpa using Nat.ne_of_lt hadvance.1)] at hfinish
    obtain ⟨rfl, rfl⟩ := pure_eq_some.mp hfinish
    refine ⟨read, written, hread, hwritten, Nat.zero_le _, Nat.zero_le _,
      fun rest hrest hbound => ?_⟩
    obtain ⟨hpre, hagain⟩ := hreplay rest hrest hbound
    refine ⟨hpre, fun z => ?_⟩
    unfold ifMoved
    rw [bind_of_eq_some get_apply, bind_of_eq_some (hagain z), bind_of_eq_some get_apply,
      if_neg (by simpa using List.ne_nil_of_length_pos hpos)]
    rfl

theorem ifMoved_moves {p : Parser α}
    (hmoves : ∀ {c a d}, p c = some (a, d) → d = c ∨ Advances m c d) : Moves m (ifMoved p) := by
  intro c answer d hrun
  unfold ifMoved at hrun
  rw [bind_of_eq_some get_apply] at hrun
  obtain ⟨a, e, hfirst, hfinish⟩ := bind_eq_some.mp hrun
  rw [bind_of_eq_some get_apply] at hfinish
  split at hfinish
  next heq =>
      obtain ⟨rfl, rfl⟩ := pure_eq_some.mp hfinish
      refine (hmoves hfirst).imp (fun h => ⟨rfl, h⟩) id
  next =>
      obtain ⟨-, rfl⟩ := pure_eq_some.mp hfinish
      refine (hmoves hfirst).imp (fun h => ?_) id
      simp_all

/-! ## Operators after an operand -/

theorem operators_eq (g : Grammar) (braces : Bool) (base : Precedence) (start : Node) :
    operators g braces base start = iterate (fun left =>
      if isRange left = true then pure none
      else get >>= fun c => extension g braces base left (glance c.rest)) start := by
  unfold operators
  congr 1
  funext left
  split
  · rfl
  · refine congrArg _ (funext fun c => ?_)
    dsimp only [glance]
    cases nextOperator c.rest with
    | none => rfl
    | some entry => rfl

/-- The operators behind an operand are read the same again. -/
theorem operators_replays (hg : Knot m size g g') (braces : Bool) (base : Precedence) (start : Node)
    {Post : Node → Follow}
    (hPost : ∀ e r r', Post e r r' → isRange e = true ∨ stops base r = true → Edge r r') :
    Replays m size 0 Post (operators g braces base start) (operators g' braces base start)
      Edge := by
  rw [operators_eq, operators_eq]
  refine iterate_replays (fun _ => Edge) (fun left => ?_) (fun left => Moves.advances ?_) start
  · refine .fixed (fun hrange => ?_) fun _ => ?_
    · exact (Replays.pure none).before fun r r' h => hPost left r r' h (.inl hrange)
    · refine .look (fun answer => ?_) fun u u' h => h.glance_eq
      exact extension_replays hg braces base left (fun r r' h hstops => hPost left r r' h (.inr hstops))
        answer
  · exact .ite .none (.get fun c => extension_moves hg braces base left _)

/-- Reading operators stays in place or advances. -/
theorem operators_moves (hg : Knot m size g g') (braces : Bool) (base : Precedence) (start : Node)
    {e : Node} {c d : Cursor} (h : operators g braces base start c = some (e, d)) :
    d = c ∨ Advances m c d := by
  rw [operators_eq] at h
  exact iterate_moves (fun left => .ite .none (.get fun c => extension_moves hg braces base left _)) h

/-- Extends a right operand if what comes next binds more strongly than the operator in front. -/
def operandStep (g : Grammar) (braces : Bool) (strength : Precedence) (right : Node)
    (next : Precedence) : Parser (Option Node) :=
  if strength.rank < next.rank || (next == strength && strength == .assign) then
    ifMoved (operators g braces next right)
  else return none

theorem operand_eq (g : Grammar) (braces : Bool) (strength : Precedence) :
    operand g braces strength = g (.unary braces) >>= iterate fun right =>
      get >>= fun c => operandStep g braces strength right (nextStrength c.rest) := by
  unfold operand
  refine congrArg _ (funext fun start => congrArg (iterate · start) (funext fun right => ?_))
  funext c
  unfold operandStep
  rw [bind_of_eq_some get_apply, bind_of_eq_some get_apply]
  split
  · rfl
  · rfl

/-- One operator that binds tighter is read the same again. -/
theorem operandStep_replays (hg : Knot m size g g') (braces : Bool) (strength : Precedence)
    (right : Node) (next : Precedence) :
    Replays m size 0 (OnSome (fun _ => Edge) Edge) (operandStep g braces strength right next)
      (operandStep g' braces strength right next) Edge := by
  refine .fixed (fun _ => ?_) fun _ => .pure none
  exact ifMoved_replays (operators_replays hg braces next right fun _ _ _ h _ => h)
    (fun _ _ h => h) fun h => operators_moves hg braces next right h

/-- The right operand of an operator is read the same again. -/
theorem operand_replays (hg : Knot m size g g') (braces : Bool) (strength : Precedence) :
    Replays m size 1 (fun _ => Edge) (operand g braces strength) (operand g' braces strength)
      Start := by
  rw [operand_eq, operand_eq]
  refine (hg.unary braces).keep Edge (fun start => ?_) fun _ _ _ h => h
  refine iterate_replays (fun _ => Edge) (fun right => ?_) (fun right => Moves.advances ?_) start
  · exact .look (fun next => (operandStep_replays hg braces strength right next).before
      fun _ _ h _ => h) fun u u' h => h.nextStrength_eq
  · exact .get fun c => .ite (ifMoved_moves fun h => operators_moves hg braces _ right h) .none

/-- Expressions are read the same again. -/
theorem expr_replays (hg : Knot m size g g') (braces : Bool) :
    Replays m size 1 (fun _ => Edge) (expr g braces) (expr g' braces) Start :=
  (hg.unary braces).keep Edge (fun start => operators_replays hg braces .jump start
    fun _ _ _ h _ => h) fun _ _ _ h => h

end ActionUnits.Source
