import ActionUnits.Proofs.Annotations
import ActionUnits.Proofs.Source.Splice.Type

/-! # Blocks of generated functions

A block that was read on its own is the block of a function: it does not start
with an attribute, which would belong to the function. The other blocks hold one
expression, after at most one import.
-/

namespace ActionUnits.Source

variable {tokens body u v rest : List Token} {e node : Node}

/-- A block of statements is read between its braces. -/
theorem block_reads (h : Reads (grammar .statements) body e [])
    (hattr : isInnerAttr body = false) :
    Reads (blockWithAttrs grammar) (.group .brace body :: rest) ([], e) rest := by
  have hnone : ((isOp "#").and (second (isOp "!"))) body = false := hattr
  exact .group ((Reads.many_nil hnone).bind (h.map fun e => ([], e)))

/-- A block that was read on its own is read as the block of a function. -/
theorem block_reads_of_readBlock? {block : Fragment Node} (h : readBlock? tokens = some block)
    (rest : List Token) :
    Reads (blockWithAttrs grammar) (block.tokens ++ rest) ([], block.value) rest := by
  obtain ⟨body, parts, out, -, hread, rfl⟩ := readBlock?_eq_some_iff.mp h
  obtain ⟨again, hrun, hout⟩ := readStatements?_eq_some_iff.mp hread
  obtain ⟨written, rfl, -, hplace⟩ := Replays.again
    (fun size => (knot_grammar .written size).statements) hrun
  obtain rfl : out = written := by simpa using hout
  obtain ⟨hstart, hreads⟩ := hplace [] ⟨rfl, rfl⟩
  rw [List.append_nil] at hstart hreads
  exact block_reads hreads hstart.inner

/-! ## Statements -/

def statementRound (g : Grammar) : Parser (Option Node) := do
  if ← op? ";" then return some (.exprStmt (.verbatim []) true)
  else if ← atEnd then return none
  else
    let node ← statement g
    require (!mustBeLast node || (← atEnd))
    return some node

/-- One statement of a block is read, and whether it must be the last. -/
theorem statementRound_reads (hsemicolon : isOp ";" u = false) (hne : u.isEmpty = false)
    (h : Reads (statement grammar) u node v) (hlast : (!mustBeLast node || v.isEmpty) = true) :
    Reads (statementRound grammar) u (some node) v := by
  refine (Reads.op?_no hsemicolon).bind (.no hne (h.bind (.peek ?_)))
  rw [hlast]
  exact fun z => ⟨z, rfl⟩

theorem statements_reads_nil : Reads (repeated (statementRound grammar)) [] [] [] :=
  .repeated_nil fun z => ⟨z, rfl⟩

/-- What starts a statement that is nothing but an expression. -/
structure ExprStart (u : List Token) : Prop where
  stmt : isOp ";" u = false ∧ u.isEmpty = false
  attr : isOp "#" u = false
  call : macroStart u = .other
  keyword : isWord "let" u = false
  item : isItemStart u = false
  block : ∀ z, earlyBlock? grammar ⟨u, z⟩ = some (none, ⟨u, z⟩)

/-- No block ends an expression that does not start with one. -/
theorem earlyExpr_reads (hstart : ExprStart u) (h : Reads (grammar (.expr true)) u e rest) :
    Reads (grammar .earlyExpr) u e rest := by
  refine .rule ((Reads.many_nil hstart.attr).bind (Reads.bind (.of_eq hstart.block) fun z => ?_))
  obtain ⟨z', hrun⟩ := h z
  exact ⟨z', (grammar_eq_rule _ _).symm.trans hrun⟩

/-- An expression is the last statement of its block. -/
theorem statements_reads_expr (hstart : ExprStart u)
    (hbrace : ∀ attrs call, e.splitAttrs = (attrs, .macroCall call) → call.delimiter ≠ .brace)
    (h : Reads (grammar (.expr true)) u e []) :
    Reads (repeated (statementRound grammar)) u [.exprStmt e false] [] := by
  have hexpr : Reads (exprStmt grammar []) u (.exprStmt e false) [] := by
    refine (earlyExpr_reads hstart h).bind ((Reads.op?_no rfl).bind ?_)
    split
    next attrs call hsplit =>
        have hother : (call.delimiter == .brace) = false := beq_false_of_ne (hbrace _ _ hsplit)
        rw [hother]
        exact .pure _ _
    next => exact .pure _ _
  have hstatement : Reads (statement grammar) u (.exprStmt e false) [] := by
    refine .get fun c hc => (Reads.many_nil hstart.attr).bind (.get fun c' hc' => ?_)
    rw [hc', hstart.call]
    exact .no hstart.keyword (.no hstart.item hexpr)
  refine .repeated_cons (statementRound_reads hstart.stmt.1 hstart.stmt.2 hstatement ?_) ?_
    statements_reads_nil
  · exact Bool.or_true _
  · exact List.length_pos_iff.mpr (by simpa using hstart.stmt.2)

/-- A block that holds one expression. -/
def exprBlock (e : Node) : Node :=
  .block [.exprStmt e false]

/-- A block with an expression alone is that expression's block. -/
theorem block_reads_expr (hstart : ExprStart u)
    (hbrace : ∀ attrs call, e.splitAttrs = (attrs, .macroCall call) → call.delimiter ≠ .brace)
    (h : Reads (grammar (.expr true)) u e []) :
    Reads (blockWithAttrs grammar) (.group .brace u :: rest) ([], exprBlock e) rest := by
  refine block_reads (.rule ((statements_reads_expr hstart hbrace h).map Node.block)) ?_
  rw [isInnerAttr, Peek.and, hstart.attr, Bool.false_and]

/-- A block with a literal alone is that literal's block. -/
theorem block_reads_literal (text : String) :
    Reads (blockWithAttrs grammar) (.group .brace [.literal text] :: rest)
      ([], exprBlock (.literal text)) rest := by
  refine block_reads_expr ⟨⟨rfl, rfl⟩, rfl, rfl, rfl, rfl, fun _ => rfl⟩ ?_ ?_
  · intro attrs call hcall
    cases hcall
  · exact .of_grammarTo fun n => .of_eq fun z => expr_literal (n + 2) text z (.inl rfl)

/-- The tokens of the aliases start an expression. -/
theorem exprStart_aliasTokens (aliases : AliasExpr) : ExprStart (Emit.aliasTokens aliases) := by
  cases aliases <;> exact ⟨⟨rfl, rfl⟩, rfl, rfl, rfl, rfl, fun _ => rfl⟩

/-- The accessor's body is the block of the aliases' expression. -/
theorem block_reads_aliases {aliases : AliasExpr}
    (hfields : ∀ field ∈ aliases.fields, isKeyword field = false) :
    Reads (blockWithAttrs grammar) (.group .brace (Emit.aliasTokens aliases) :: rest)
      ([], exprBlock (aliasNode aliases)) rest := by
  refine block_reads_expr (exprStart_aliasTokens aliases) ?_ ?_
  · intro attrs call hcall
    cases aliases with
    | seq fields =>
        cases hcall
        exact (by decide : Delimiter.bracket ≠ .brace)
    | _ => cases hcall
  · exact .of_grammarTo fun n => .of_eq fun z => expr_aliasTokens n hfields z

end ActionUnits.Source
