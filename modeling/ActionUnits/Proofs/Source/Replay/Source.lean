import ActionUnits.Proofs.Source.Replay.Statement
import ActionUnits.Proofs.Source.Reading.Depth

/-! # Replaying source text

Every rule replays if the rules it enters do, on fewer tokens or after fewer rules.
So what a grammar reads is read back by one that goes a rule deeper, and by every
one that goes deep enough for the tokens.
-/

namespace ActionUnits.Source

variable {m : Mode} {size : Nat} {g g' : Grammar}

/-- One layer of the grammar is read the same again if the layers below are. -/
theorem knot_rule (hg : ∀ m, Knot m size g g') (hleft : BareTypes g) (hright : PlainTypes g') :
    Knot m size (rule g) (rule g') where
  angle := ((angleArguments_replays hg).after fun _ _ _ _ => trivial).smaller
  ty plus P hP := (type_replays hg plus hP).smaller
  pattern := pattern_replays (hg m).singlePattern
  singlePattern P hP := (singlePattern_replays hg hP).smaller
  expr braces := expr_replays (hg m) braces
  earlyExpr := earlyExpr_replays (hg m)
  unary braces := unary_replays hg braces
  operand braces strength := operand_replays (hg m) braces strength
  statements := statements_replays hg hleft hright
  item := item_replays hg hleft hright
  wild := by
    intro joint rest z
    rfl

/-- Every layer of the grammar is read the same again, by induction on the depth. -/
theorem knot_grammarTo (m : Mode) (size depth : Nat) :
    Knot m size (grammarTo depth) (grammarTo (depth + 1)) := by
  induction depth generalizing m with
  | zero =>
      exact {
        angle := .failure
        ty := fun _ _ _ => .failure
        pattern := .failure
        singlePattern := fun _ _ => .failure
        expr := fun _ => .failure
        earlyExpr := .failure
        unary := fun _ => .failure
        operand := fun _ _ => .failure
        statements := .failure
        item := .failure
        wild := fun _ _ _ => rfl }
  | succ depth ih => exact knot_rule ih (bareTypes_grammarTo depth) (plainTypes_grammarTo _)

end ActionUnits.Source
