import ActionUnits.Proofs.Source.Reading.Statements

/-! # How deep a reading goes

Between two tokens at most three rules are entered, so a grammar that goes three
times as deep as there are tokens gives the answers of every deeper one. What it
reads as statements is finished.
-/

namespace ActionUnits.Source

/-- How many rules may follow each other before the first token is read. -/
def Nonterminal.rank : Nonterminal → Nat
  | .pattern | .expr _ | .operand _ _ | .earlyExpr => 1
  | .statements => 2
  | _ => 0

theorem Nonterminal.rank_le_two (nonterminal : Nonterminal) : nonterminal.rank ≤ 2 := by
  cases nonterminal <;> simp [rank]

/-- The rule of a nonterminal reads alike if those of lower rank do. -/
theorem rule_alike {size : Nat} {place : Place} {g g' : Grammar}
    [hknot : ∀ nt : Nonterminal, Alike size .inside (g nt) (g' nt) nt.extent]
    (nonterminal : Nonterminal) (hlower : ∀ other : Nonterminal, other.rank < nonterminal.rank →
      Alike size place (g other) (g' other) other.extent) :
    Alike size place (rule g nonterminal) (rule g' nonterminal) nonterminal.extent := by
  cases nonterminal with
  | angleArguments => exact angleArguments_alike
  | ty plus => exact type_alike plus
  | singlePattern => exact singlePattern_alike
  | unary braces => exact unary_alike braces
  | item => exact item_alike
  | pattern =>
      have hfirst := hlower .singlePattern (by decide)
      exact pattern_alike
  | expr braces =>
      have hfirst := hlower (.unary braces) Nat.one_pos
      exact expr_alike braces
  | operand braces strength =>
      have hfirst := hlower (.unary braces) Nat.one_pos
      exact operand_alike braces strength
  | earlyExpr =>
      have hfirst := hlower (.unary true) Nat.one_pos
      exact earlyExpr_alike
  | statements =>
      have hfirst := hlower .earlyExpr Nat.one_lt_two
      exact statements_alike

/-- If grammars read alike after a token, they do at the start, where a rule enters only rules of
lower rank. -/
theorem grammarTo_alike_start {size : Nat}
    (hinside : ∀ {depth depth' : Nat}, 3 * size ≤ depth → 3 * size ≤ depth' → ∀ nt : Nonterminal,
      Alike size .inside (grammarTo depth nt) (grammarTo depth' nt) nt.extent)
    {depth depth' : Nat} (nonterminal : Nonterminal)
    (hdepth : 3 * size + nonterminal.rank < depth)
    (hdepth' : 3 * size + nonterminal.rank < depth') :
    Alike size .start (grammarTo depth nonterminal) (grammarTo depth' nonterminal)
      nonterminal.extent := by
  induction hrank : nonterminal.rank using Nat.strongRecOn generalizing nonterminal depth depth' with
  | ind rank ih =>
      obtain ⟨depth, rfl⟩ := Nat.exists_eq_add_one_of_ne_zero (Nat.ne_zero_of_lt hdepth)
      obtain ⟨depth', rfl⟩ := Nat.exists_eq_add_one_of_ne_zero (Nat.ne_zero_of_lt hdepth')
      have hknot := @hinside depth depth' (by omega) (by omega)
      refine rule_alike nonterminal fun other hother => ?_
      exact ih other.rank (by omega) other (by omega) (by omega) rfl

/-- Grammars that go deep enough read alike. -/
theorem grammarTo_alike {size depth depth' : Nat} (hdepth : 3 * size ≤ depth)
    (hdepth' : 3 * size ≤ depth') (nonterminal : Nonterminal) :
    Alike size .inside (grammarTo depth nonterminal) (grammarTo depth' nonterminal)
      nonterminal.extent := by
  induction size generalizing depth depth' nonterminal with
  | zero => exact ⟨fun hc => absurd hc (Nat.not_lt_zero _), fun hc => absurd hc (Nat.not_lt_zero _)⟩
  | succ size ih =>
      have hrank := nonterminal.rank_le_two
      have hstart : Alike size .start (grammarTo depth nonterminal) (grammarTo depth' nonterminal)
          nonterminal.extent := grammarTo_alike_start ih nonterminal (by omega) (by omega)
      exact ⟨hstart.agree, hstart.reads⟩

/-- Deep enough grammars give the same answer. -/
theorem grammarTo_apply_eq {depth depth' : Nat} {c : Cursor} (nonterminal : Nonterminal)
    (hdepth : 3 * (Token.sizeAll c.rest + 1) ≤ depth)
    (hdepth' : 3 * (Token.sizeAll c.rest + 1) ≤ depth') :
    grammarTo depth nonterminal c = grammarTo depth' nonterminal c :=
  (grammarTo_alike hdepth hdepth' nonterminal).agree (Nat.lt_succ_self _)

/-- Statements do not end in an attribute. -/
theorem finished_of_statements {depth : Nat} {c d : Cursor} {node : Node}
    (hdepth : 3 * (Token.sizeAll c.rest + 1) ≤ depth)
    (h : grammarTo depth .statements c = some (node, d)) :
    ∃ read, c.rest = read ++ d.rest ∧ Finished read :=
  (grammarTo_alike hdepth hdepth .statements).reads (Nat.lt_succ_self _) h

end ActionUnits.Source
