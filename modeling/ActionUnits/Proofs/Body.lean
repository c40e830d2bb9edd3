import ActionUnits.Proofs.Fragments
import ActionUnits.Proofs.Source.Reading.Depth
import ActionUnits.Proofs.Token.Comment

/-! # The body of an action

The text of an action's body is read between braces that it does not have itself.
It can neither close nor absorb them: what stands between them is what the text
is on its own.
-/

namespace ActionUnits

namespace Source

/-- Reads the statements of a block, without its braces. -/
def readStatements? (tokens : List Token) : Option (Fragment Node) :=
  readAll? (fun g => g .statements) tokens

theorem readAll?_eq_some_iff {α : Type} {parser : Grammar → Parser α} {tokens : List Token}
    {fragment : Fragment α} :
    readAll? parser tokens = some fragment ↔
      ∃ written, parser (grammarTo (depthFor tokens)) ⟨tokens, []⟩ =
        some (fragment.value, ⟨[], written⟩) ∧ fragment.tokens = written.reverse := by
  unfold readAll?
  constructor
  · intro h
    obtain ⟨⟨value, rest, written⟩, hrun, hend⟩ := Option.bind_eq_some_iff.mp h
    obtain ⟨hrest, heq⟩ := Option.ite_none_right_eq_some.mp hend
    obtain rfl := List.isEmpty_iff.mp hrest
    cases heq
    exact ⟨written, hrun, rfl⟩
  · rintro ⟨written, hrun, htokens⟩
    obtain ⟨value, tokens'⟩ := fragment
    obtain rfl : tokens' = written.reverse := htokens
    rw [hrun]
    rfl

theorem exists_block_of_statements {depth : Nat} {c d : Cursor} {node : Node}
    (h : grammarTo depth .statements c = some (node, d)) : ∃ parts, node = .block parts := by
  cases depth with
  | zero => cases h
  | succ depth =>
      obtain ⟨parts, e, -, hpure⟩ := bind_eq_some.mp h
      exact ⟨parts, (pure_eq_some.mp hpure).1.symm⟩

/-- A block is a group in braces that holds the statements of the group's contents. -/
theorem readBlock?_eq_some_iff {tokens : List Token} {block : Fragment Node} :
    readBlock? tokens = some block ↔
      ∃ body parts written, tokens = [.group .brace body] ∧
        readStatements? body = some ⟨.block parts, written⟩ ∧
        block = ⟨.block parts, [.group .brace written]⟩ := by
  have hdeep : ∀ body, grammarTo (depthFor [.group .brace body]) .statements ⟨body, []⟩ =
      grammarTo (depthFor body) .statements ⟨body, []⟩ := by
    intro body
    refine grammarTo_apply_eq .statements ?_ ?_
    · simp only [depthFor, Token.sizeAll, Token.size]
      omega
    · simp only [depthFor]
      omega
  rw [readBlock?, readAll?_eq_some_iff]
  constructor
  · rintro ⟨written, hrun, htokens⟩
    obtain ⟨body, inside, hrest, hbody, hwritten⟩ := group_eq_some.mp hrun
    obtain rfl : tokens = [.group .brace body] := hrest
    rw [hdeep] at hbody
    obtain ⟨parts, hparts⟩ := exists_block_of_statements hbody
    refine ⟨body, parts, inside.reverse, rfl, ?_, ?_⟩
    · exact readAll?_eq_some_iff.mpr ⟨inside, hparts ▸ hbody, rfl⟩
    · obtain ⟨value, tokens⟩ := block
      obtain rfl : value = .block parts := hparts
      obtain rfl : written = [.group .brace inside.reverse] := hwritten
      obtain rfl : tokens = [.group .brace inside.reverse] := htokens
      rfl
  · rintro ⟨body, parts, written, rfl, hread, rfl⟩
    obtain ⟨inside, hbody, hwritten⟩ := readAll?_eq_some_iff.mp hread
    obtain rfl : written = inside.reverse := hwritten
    rw [← hdeep] at hbody
    exact ⟨[.group .brace inside.reverse], group_eq_some.mpr ⟨body, inside, rfl, hbody, rfl⟩, rfl⟩

/-- Statements do not end in a documentation comment. -/
theorem not_suffix_of_readStatements? {tokens : List Token} {statements : Fragment Node}
    (h : readStatements? tokens = some statements) (text : List Char) (inner : Bool) :
    ¬ Lexer.docAttribute text inner <:+ tokens := by
  obtain ⟨written, hrun, -⟩ := readAll?_eq_some_iff.mp h
  obtain ⟨read, hread, hfinished⟩ := finished_of_statements (by simp only [depthFor]; omega) hrun
  obtain rfl : tokens = read := by simpa using hread
  cases inner with
  | false => exact hfinished.2 _ _ _ (.outer false)
  | true => exact hfinished.2 _ _ _ (.inner false false)

/-- A text between braces is the block of what the text is on its own. -/
theorem readBlock?_braced {text whole : String} {block : Fragment Node}
    (hwhole : whole.toList = Lexer.braced text.toList)
    (hmark : text.toList.head? ≠ some (Char.ofNat 0xfeff)) :
    (∃ tokens, Lexer.lex? whole = some tokens ∧ readBlock? tokens = some block) ↔
      ∃ tokens parts written, Lexer.lex? text = some tokens ∧
        readStatements? tokens = some ⟨.block parts, written⟩ ∧
        block = ⟨.block parts, [.group .brace written]⟩ := by
  constructor
  · rintro ⟨_, hlex, hread⟩
    obtain ⟨body, parts, written, rfl, hstatements, rfl⟩ := readBlock?_eq_some_iff.mp hread
    obtain ⟨tokens, heq, hown | ⟨doc, inner, hdoc⟩⟩ := Lexer.own_of_lex?_braced hwhole hmark hlex
    · cases heq
      exact ⟨body, parts, written, hown, hstatements, rfl⟩
    · cases heq
      exact absurd hdoc (not_suffix_of_readStatements? hstatements doc inner)
  · rintro ⟨tokens, parts, written, hlex, hread, rfl⟩
    exact ⟨_, Lexer.lex?_braced hwhole hmark hlex,
      readBlock?_eq_some_iff.mpr ⟨tokens, parts, written, rfl, hread, rfl⟩⟩

end Source

namespace Synthesis

/-- The expression of an action is read as the statements that it is on its own. -/
theorem readFragment_expression_iff {action : Action} {body : Source.Fragment Source.Node}
    (hmark : action.expr.toList.head? ≠ some (Char.ofNat 0xfeff)) :
    readFragment Source.readBlock? .expression action.id action.expr
        ("\x7b\n" ++ action.expr ++ "\n\x7d") = .ok body ↔
      ∃ tokens parts written, Lexer.lex? action.expr = some tokens ∧
        Source.readStatements? tokens = some ⟨.block parts, written⟩ ∧
        body = ⟨.block parts, [.group .brace written]⟩ := by
  rw [readFragment_eq_ok_iff]
  refine Source.readBlock?_braced ?_ hmark
  simp [Lexer.braced]

theorem readFragment_eq_error {α : Type} {rule : List Token → Option (Source.Fragment α)}
    {kind : FragmentKind} {owner source text : String} {e : Error}
    (h : readFragment rule kind owner source text = .error e) :
    e = .fragment kind owner source .grammar := by
  unfold readFragment at h
  split at h
  · cases h
  · exact (Except.error.inj h).symm

/-- A plain line comment at the end of an expression does not change its body. -/
theorem readFragment_expression_comment {action : Action} {before : String}
    (hmark : action.expr.toList.head? ≠ some (Char.ofNat 0xfeff))
    (hcomment : Lexer.EndsInComment action.expr before) {body : Source.Fragment Source.Node} :
    readFragment Source.readBlock? .expression action.id action.expr
        ("\x7b\n" ++ action.expr ++ "\n\x7d") = .ok body ↔
      readFragment Source.readBlock? .expression action.id before
        ("\x7b\n" ++ before ++ "\n\x7d") = .ok body := by
  obtain ⟨hlex, hbefore⟩ := Lexer.lex?_of_endsInComment hmark hcomment
  rw [readFragment_expression_iff hmark, hlex]
  exact (@readFragment_expression_iff { action with expr := before } _ hbefore).symm

section Class

variable {dataset : Source.Fragment Source.Node} {action : Action} {ident : Ident}
  {fields : List Field} {aliases : AliasExpr}

/-- An action whose name and parameters read is accepted by its expression. -/
theorem classDecl_eq_ok_iff_statements
    (hident : readIdent .className action.id action.className = .ok ident)
    (hfields : action.params.mapM (field action.id) = .ok fields)
    (haliases : inputAliases action = .ok aliases)
    (hmark : action.expr.toList.head? ≠ some (Char.ofNat 0xfeff)) {decl : ClassDecl} :
    classDecl dataset action = .ok decl ↔
      ∃ tokens parts written, Lexer.lex? action.expr = some tokens ∧
        Source.readStatements? tokens = some ⟨.block parts, written⟩ ∧
        decl = ⟨ident, action.id, if action.isMultiOut then .multi else .single, dataset, fields,
          ⟨.block parts, [.group .brace written]⟩, aliases, action.description⟩ := by
  simp only [classDecl_eq_ok_iff, readFragment_expression_iff hmark]
  constructor
  · rintro ⟨ident', fields', _, aliases', hident', hfields',
      ⟨tokens, parts, written, hlex, hread, rfl⟩, haliases', rfl⟩
    cases hident.symm.trans hident'
    cases hfields.symm.trans hfields'
    cases haliases.symm.trans haliases'
    exact ⟨tokens, parts, written, hlex, hread, rfl⟩
  · rintro ⟨tokens, parts, written, hlex, hread, rfl⟩
    exact ⟨ident, fields, _, aliases, hident, hfields,
      ⟨tokens, parts, written, hlex, hread, rfl⟩, haliases, rfl⟩

/-- The first thing wrong with an action whose name and parameters read is its expression. -/
theorem classDecl_eq_error (hident : readIdent .className action.id action.className = .ok ident)
    (hfields : action.params.mapM (field action.id) = .ok fields) {e : Error}
    (hbody : readFragment Source.readBlock? .expression action.id action.expr
      ("\x7b\n" ++ action.expr ++ "\n\x7d") = .error e) :
    classDecl dataset action = .error e := by
  simp only [classDecl, hident, hfields, hbody]
  rfl

/-- The body of an action stays inside of its function. If the name and the parameters of the
action read, the action is accepted if and only if its expression has tokens on its own and all of
them are statements; its body is then the block of these statements. Otherwise the expression is
what is wrong. A plain line comment at the end of the expression changes nothing. -/
theorem body_stays_inside (hident : readIdent .className action.id action.className = .ok ident)
    (hfields : action.params.mapM (field action.id) = .ok fields)
    (hmark : action.expr.toList.head? ≠ some (Char.ofNat 0xfeff)) :
    (∃ aliases, inputAliases action = .ok aliases ∧
      ∀ decl, classDecl dataset action = .ok decl ↔
        ∃ tokens parts written, Lexer.lex? action.expr = some tokens ∧
          Source.readStatements? tokens = some ⟨.block parts, written⟩ ∧
          decl = ⟨ident, action.id, if action.isMultiOut then .multi else .single, dataset, fields,
            ⟨.block parts, [.group .brace written]⟩, aliases, action.description⟩) ∧
    ((∀ tokens, Lexer.lex? action.expr = some tokens → Source.readStatements? tokens = none) →
      classDecl dataset action =
        .error (.fragment .expression action.id action.expr .grammar)) ∧
    ∀ before, Lexer.EndsInComment action.expr before → ∀ decl,
      classDecl dataset action = .ok decl ↔
        classDecl dataset { action with expr := before } = .ok decl := by
  obtain ⟨aliases, haliases⟩ := failure?_eq_none_iff.mp (failure?_inputAliases hfields)
  refine ⟨⟨aliases, haliases, fun decl => ?_⟩, fun hnone => ?_, fun before hcomment decl => ?_⟩
  · exact classDecl_eq_ok_iff_statements hident hfields haliases hmark
  · cases hbody : readFragment Source.readBlock? .expression action.id action.expr
        ("\x7b\n" ++ action.expr ++ "\n\x7d") with
    | ok body =>
        obtain ⟨tokens, parts, written, hlex, hread, -⟩ :=
          (readFragment_expression_iff hmark).mp hbody
        cases (hnone tokens hlex).symm.trans hread
    | error e =>
        obtain rfl := readFragment_eq_error hbody
        exact classDecl_eq_error hident hfields hbody
  · simp only [classDecl_eq_ok_iff, readFragment_expression_comment hmark hcomment]
    rfl

end Class

/-- Braces in a string and in a last comment are not seen, and braces that cross those of the
function are not accepted. -/
theorem hidden_and_crossing_braces :
    (∃ decl, classDecl ⟨.verbatim [], []⟩ ⟨"escape", "f(\"\x7d\") // \x7d", [], false, none⟩ =
        .ok decl ∧ decl.statementCount = 1 ∧
      classDecl ⟨.verbatim [], []⟩ ⟨"escape", "f(\"\x7d\") ", [], false, none⟩ = .ok decl) ∧
    classDecl ⟨.verbatim [], []⟩
        ⟨"escape", "todo!() \x7d fn other() \x7b", [], false, none⟩ =
      .error (.fragment .expression "escape" "todo!() \x7d fn other() \x7b" .grammar) := by
  obtain ⟨⟨aliases, -, haccepted⟩, -, hcomment⟩ := @body_stays_inside ⟨.verbatim [], []⟩
    ⟨"escape", "f(\"\x7d\") // \x7d", [], false, none⟩ ⟨"EscapeAction"⟩ [] rfl rfl (by decide)
  obtain ⟨-, hcrossing, -⟩ := @body_stays_inside ⟨.verbatim [], []⟩
    ⟨"escape", "todo!() \x7d fn other() \x7b", [], false, none⟩ ⟨"EscapeAction"⟩ [] rfl rfl
    (by decide)
  have hlex : Lexer.lex? "f(\"\x7d\") // \x7d" =
      some [.ident ⟨"f"⟩, .group .paren [.literal "\"\x7d\""]] := rfl
  have hread : ∃ part written,
      Source.readStatements? [.ident ⟨"f"⟩, .group .paren [.literal "\"\x7d\""]] =
        some ⟨.block [part], written⟩ := ⟨_, _, rfl⟩
  have hends : Lexer.EndsInComment "f(\"\x7d\") // \x7d" "f(\"\x7d\") " :=
    ⟨"// \x7d".toList, _, rfl, rfl, by decide, .piece rfl rfl (.piece rfl rfl (.piece rfl rfl
      (.piece rfl rfl (.blank rfl (.here _)))))⟩
  have hcross : Lexer.lex? "todo!() \x7d fn other() \x7b" = none := by decide
  obtain ⟨part, written, hread⟩ := hread
  have hdecl := (haccepted _).mpr ⟨_, _, _, hlex, hread, rfl⟩
  refine ⟨⟨_, hdecl, rfl, (hcomment _ hends _).mp hdecl⟩, hcrossing fun tokens htokens => ?_⟩
  cases hcross.symm.trans htokens

end Synthesis

end ActionUnits
