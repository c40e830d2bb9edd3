import ActionUnits.Proofs.Body
import ActionUnits.Proofs.Source.Replay.Source

/-! # The grammar at any depth

A grammar that goes as deep as the tokens ask for has no depth of its own. It is
what its rules make of it, so readings can be put together rule by rule, and it
replays as the grammars of every depth do.
-/

namespace ActionUnits.Source

variable {c : Cursor} {depth : Nat}

/-- The grammar, as deep as the tokens ask for. -/
def grammar : Grammar := fun nonterminal cursor =>
  grammarTo (depthFor cursor.rest) nonterminal cursor

/-- A text is read by its grammar as by any layer deep enough for it. -/
theorem grammar_apply_eq (nonterminal : Nonterminal)
    (hdepth : 3 * (Token.sizeAll c.rest + 1) ≤ depth) :
    grammar nonterminal c = grammarTo depth nonterminal c := by
  refine grammarTo_apply_eq nonterminal ?_ hdepth
  simp only [depthFor]
  omega

/-- Grammars of a depth read alike the grammar without one, as long as they go deep enough. -/
theorem grammarTo_alike_grammar {size : Nat} (hdepth : 3 * size ≤ depth)
    (nonterminal : Nonterminal) :
    Alike size .inside (grammarTo depth nonterminal) (grammar nonterminal)
      nonterminal.extent where
  agree {c} hc := by
    have hsize : Token.sizeAll c.rest < size := hc
    exact (grammar_apply_eq nonterminal (by omega)).symm
  reads hc hrun := (grammarTo_alike hdepth hdepth nonterminal).reads hc hrun

/-- The grammar is the fixed point of its rules. -/
theorem grammar_eq_rule (nonterminal : Nonterminal) (c : Cursor) :
    grammar nonterminal c = rule grammar nonterminal c := by
  have hknot : ∀ other : Nonterminal, Alike (Token.sizeAll c.rest + 1) .inside
      (grammarTo (3 * (Token.sizeAll c.rest + 1)) other) (grammar other) other.extent :=
    grammarTo_alike_grammar (Nat.le_refl _)
  calc grammar nonterminal c
      = grammarTo (3 * (Token.sizeAll c.rest + 1) + 1) nonterminal c :=
        grammar_apply_eq nonterminal (Nat.le_succ _)
    _ = rule grammar nonterminal c :=
        (rule_alike nonterminal fun other _ => hknot other).agree (Nat.lt_succ_self _)

/-- What replays at every depth replays. -/
theorem Replays.grammar {m : Mode} {size least : Nat} {Post : Node → Follow} {Pre : Follow}
    {nonterminal : Nonterminal}
    (h : ∀ depth, Replays m size least Post (grammarTo depth nonterminal)
      (grammarTo (depth + 1) nonterminal) Pre) :
    Replays m size least Post (Source.grammar nonterminal) (Source.grammar nonterminal) Pre := by
  intro c a d hrun
  -- One depth is enough for the first reading and for every second one.
  obtain ⟨depth, hfirst, hsecond⟩ : ∃ depth, 3 * (Token.sizeAll c.rest + 1) ≤ depth ∧
      3 * (size + 1) ≤ depth := ⟨_, Nat.le_max_left _ _, Nat.le_max_right _ _⟩
  rw [grammar_apply_eq nonterminal hfirst] at hrun
  obtain ⟨read, written, hread, hwritten, hlr, hlw, hreplay⟩ := h depth c a d hrun
  refine ⟨read, written, hread, hwritten, hlr, hlw, fun rest hrest hbound => ?_⟩
  obtain ⟨hstart, hagain⟩ := hreplay rest hrest hbound
  refine ⟨hstart, fun z => ?_⟩
  rw [← hagain z]
  refine grammar_apply_eq nonterminal ?_
  change 3 * (Token.sizeAll (m.pick read written ++ rest) + 1) ≤ depth + 1
  omega

/-- What the grammar reads, it reads the same again. -/
theorem knot_grammar (m : Mode) (size : Nat) : Knot m size grammar grammar where
  angle := .grammar fun depth => (knot_grammarTo m size depth).angle
  ty plus P hP := .grammar fun depth => (knot_grammarTo m size depth).ty plus P hP
  pattern := .grammar fun depth => (knot_grammarTo m size depth).pattern
  singlePattern P hP := .grammar fun depth => (knot_grammarTo m size depth).singlePattern P hP
  expr braces := .grammar fun depth => (knot_grammarTo m size depth).expr braces
  earlyExpr := .grammar fun depth => (knot_grammarTo m size depth).earlyExpr
  unary braces := .grammar fun depth => (knot_grammarTo m size depth).unary braces
  operand braces strength :=
    .grammar fun depth => (knot_grammarTo m size depth).operand braces strength
  statements := .grammar fun depth => (knot_grammarTo m size depth).statements
  item := .grammar fun depth => (knot_grammarTo m size depth).item
  wild joint rest z := by
    rw [grammar_apply_eq .singlePattern (Nat.le_succ _)]
    exact (knot_grammarTo m size _).wild joint rest z

/-! ## Fragments -/

/-- A type is read from a text if the grammar reads all of it. -/
theorem readType?_eq_some_iff {tokens : List Token} {ty : Fragment Node} :
    readType? tokens = some ty ↔
      ∃ written, grammar (.ty true) ⟨tokens, []⟩ = some (ty.value, ⟨[], written⟩) ∧
        ty.tokens = written.reverse :=
  readAll?_eq_some_iff

/-- Statements are read from a text if the grammar reads all of it. -/
theorem readStatements?_eq_some_iff {tokens : List Token} {statements : Fragment Node} :
    readStatements? tokens = some statements ↔
      ∃ written, grammar .statements ⟨tokens, []⟩ = some (statements.value, ⟨[], written⟩) ∧
        statements.tokens = written.reverse :=
  readAll?_eq_some_iff

/-- A file is read from a text if the grammar reads all of it. -/
theorem readFile?_eq_some_iff {tokens : List Token} {file : Fragment Node} :
    readFile? tokens = some file ↔
      ∃ written, Source.file grammar ⟨tokens, []⟩ = some (file.value, ⟨[], written⟩) ∧
        file.tokens = written.reverse := by
  have hknot : ∀ other : Nonterminal, Alike (Token.sizeAll tokens + 1) .inside
      (grammarTo (depthFor tokens) other) (grammar other) other.extent :=
    grammarTo_alike_grammar (by simp only [depthFor]; omega)
  have hfile : Alike (Token.sizeAll tokens + 1) .inside (Source.file (grammarTo (depthFor tokens)))
      (Source.file grammar) .lead := by
    unfold Source.file
    infer_instance
  rw [readFile?, readAll?_eq_some_iff, hfile.agree (Nat.lt_succ_self _)]

end ActionUnits.Source
