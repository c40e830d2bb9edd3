import ActionUnits.Proofs.Source.Reading.Types

/-! # How expressions, items and statements are read

Each rule of the grammar for expressions, items and statements reads alike with
two grammars that read shorter inputs alike. An expression may start with an
operand and a statement with an expression, so those are taken to read alike at
the start as well.
-/

set_option synthInstance.maxSize 100000

namespace ActionUnits.Source

variable {size : Nat} {place : Place} {g g' : Grammar}
  [hknot : ∀ nt : Nonterminal, Alike size .inside (g nt) (g' nt) nt.extent]

/-! ## Operators -/

theorem plain_of_nextOperator {tokens : List Token} {text : String} {strength : Precedence}
    (h : nextOperator tokens = some (text, strength)) : Plain text where
  notMem := by
    have hplain : ∀ entry ∈ binaryOperators, '#' ∉ entry.1.toList := by decide
    exact hplain _ (List.mem_of_find?_eq_some h)

instance rangeEnd_alike (closed braces : Bool) :
    Alike size .inside (rangeEnd g closed braces) (rangeEnd g' closed braces) .loose := by
  unfold rangeEnd
  infer_instance

instance operators_alike (braces : Bool) (base : Precedence) (start : Node) :
    Alike size place (operators g braces base start) (operators g' braces base start) .loose := by
  unfold operators
  refine @iterate_alike _ _ _ _ _ (fun left => ?_) start
  refine .both inferInstance (.thenLoose inferInstance fun c => ?_)
  dsimp only
  split
  next text strength hnext =>
    have hplain := plain_of_nextOperator hnext
    infer_instance
  next => infer_instance

instance operand_alike (braces : Bool) (strength : Precedence)
    [Alike size place (g (.unary braces)) (g' (.unary braces)) .firm] :
    Alike size place (operand g braces strength) (operand g' braces strength) .firm := by
  unfold operand
  infer_instance

instance expr_alike (braces : Bool)
    [Alike size place (g (.unary braces)) (g' (.unary braces)) .firm] :
    Alike size place (expr g braces) (expr g' braces) .firm := by
  unfold expr
  infer_instance

/-! ## Blocks, conditions and loops -/

instance ifElse_alike : Alike size place (ifElse g) (ifElse g') .firm := by
  have hgo : ∀ fuel place, Alike size place (ifElse.go g fuel) (ifElse.go g' fuel) .firm := by
    intro fuel
    induction fuel with
    | zero => exact fun _ => .never (fun _ => rfl) fun _ => rfl
    | succ fuel ih =>
        intro place
        unfold ifElse.go
        infer_instance
  unfold ifElse
  infer_instance

instance whileLoop_alike (label : Option Ident) :
    Alike size place (whileLoop g label) (whileLoop g' label) .firm := by
  unfold whileLoop
  infer_instance

instance forLoop_alike (label : Option Ident) :
    Alike size place (forLoop g label) (forLoop g' label) .firm := by
  unfold forLoop
  infer_instance

instance plainLoop_alike (label : Option Ident) :
    Alike size place (plainLoop g label) (plainLoop g' label) .firm := by
  unfold plainLoop
  infer_instance

instance blockExpr_alike (label : Option Ident) :
    Alike size place (blockExpr g label) (blockExpr g' label) .firm := by
  unfold blockExpr
  infer_instance

instance labelled_alike : Alike size place (labelled g) (labelled g') .firm := by
  unfold labelled
  infer_instance

instance arm_alike : Alike size .inside (arm g) (arm g') .firm := by
  unfold arm
  infer_instance

instance matchOn_alike : Alike size place (matchOn g) (matchOn g') .firm := by
  unfold matchOn
  infer_instance

instance unsafeBlock_alike : Alike size place (unsafeBlock g) (unsafeBlock g') .firm := by
  unfold unsafeBlock
  infer_instance

instance tryBlock_alike : Alike size place (tryBlock g) (tryBlock g') .firm := by
  unfold tryBlock
  infer_instance

/-! ## Operands -/

instance closureParam_alike : Alike size .inside (closureParam g) (closureParam g') .firm := by
  unfold closureParam
  infer_instance

instance closure_alike (braces : Bool) :
    Alike size place (closure g braces) (closure g' braces) .firm := by
  unfold closure
  infer_instance

instance fieldValue_alike : Alike size place (fieldValue g) (fieldValue g') .firm := by
  unfold fieldValue
  infer_instance

instance structFields_alike (path : Node) :
    Alike size .inside (structFields g path) (structFields g' path) .loose := by
  have hgo : ∀ fuel fields, Alike size .inside (structFields.go g path fuel fields)
      (structFields.go g' path fuel fields) .loose := by
    intro fuel
    induction fuel with
    | zero => exact fun _ => .never (fun _ => rfl) fun _ => rfl
    | succ fuel ih =>
        intro fields
        unfold structFields.go
        infer_instance
  unfold structFields
  infer_instance

instance pathExpr_alike (braces : Bool) :
    Alike size place (pathExpr g braces) (pathExpr g' braces) .firm := by
  unfold pathExpr
  refine .firmThen inferInstance fun path => .thenLoose inferInstance fun isMacro => ?_
  split <;> infer_instance

instance parenExpr_alike : Alike size place (parenExpr g) (parenExpr g') .firm := by
  unfold parenExpr
  infer_instance

instance arrayExpr_alike : Alike size place (arrayExpr g) (arrayExpr g') .firm := by
  unfold arrayExpr
  infer_instance

instance breakExpr_alike (braces : Bool) :
    Alike size place (breakExpr g braces) (breakExpr g' braces) .firm := by
  unfold breakExpr
  infer_instance

instance jump_alike (keyword : String) (make : Option Node → Node) :
    Alike size place (jump g keyword make) (jump g' keyword make) .firm := by
  unfold jump
  infer_instance

instance letCondition_alike : Alike size place (letCondition g) (letCondition g') .firm := by
  unfold letCondition
  infer_instance

omit hknot in
instance builtinExpr_alike : Alike size place builtinExpr builtinExpr .firm := by
  -- The hash sign opens no attribute here, as a name follows it.
  have hname : ∀ {place}, Alike size place (op "#" >>= fun _ => ident) (op "#" >>= fun _ => ident)
      .firm :=
    ⟨fun _ => rfl, fun {c d name} _ hrun => by
      obtain ⟨_, e, hhash, hident⟩ := bind_eq_some.mp hrun
      obtain ⟨joint, hrest⟩ := punct_of_op rfl hhash
      obtain ⟨-, hword⟩ := require_peek_bind.mp hident
      have hrest' := (anyWord_eq_some.mp hword).1
      exact ⟨[.punct '#' joint] ++ [.ident name], by rw [hrest, hrest']; rfl,
        .concat_ident _ name, List.cons_ne_nil _ _⟩⟩
  unfold builtinExpr
  refine .thenFirm inferInstance fun start => .firmThen inferInstance fun _ => ?_
  rw [← bind_assoc]
  exact .thenLoose (hname.weaken fun hholds => hholds.1) fun _ => inferInstance

instance atom_alike (braces : Bool) : Alike size place (atom g braces) (atom g' braces) .firm := by
  unfold atom
  repeat refine .ask inferInstance ?_
  refine .offered inferInstance ?_
  repeat refine .ask inferInstance ?_
  infer_instance

instance positions_alike (parts : List (List Char)) (base : Node) :
    Alike size place (positions parts base) (positions parts base) .loose := by
  induction parts generalizing base with
  | nil =>
      unfold positions
      infer_instance
  | cons part rest ih =>
      unfold positions
      split <;> infer_instance

instance fieldOrMethod_alike (base : Node) :
    Alike size place (fieldOrMethod g base) (fieldOrMethod g' base) .firm := by
  unfold fieldOrMethod
  infer_instance

def pointedNumber : Parser String := fun c =>
  match c.rest with
  | .literal text :: rest => if isFloat text then some (text, { c with rest }) else none
  | _ => none

instance pointedNumber_alike : Alike size place pointedNumber pointedNumber .firm :=
  .reading fun {c d text} hrun => by
    obtain ⟨rest, written⟩ := c
    unfold pointedNumber at hrun
    split at hrun
    next number more hrest =>
      obtain ⟨-, hrun⟩ := Option.ite_none_right_eq_some.mp hrun
      cases hrun
      exact ⟨[.literal text], hrest, by simp, by simp⟩
    next => cases hrun

/-- Whether a number with points comes next. -/
def isPointedNumber : Peek
  | .literal text :: _ => isFloat text
  | _ => false

theorem afterPoint_eq (base : Node) : afterPoint g base = peek isPointedNumber >>= fun pointed =>
    if pointed = true then pointedNumber >>= fun text =>
      match (splitPoints text.toList).getLast? with
      | some [] => positions (splitPoints text.toList).dropLast base >>= fun base =>
          write (Token.operator ".") >>= fun _ => fieldOrMethod g base
      | _ => positions (splitPoints text.toList) base
    else fieldOrMethod g base := by
  funext ⟨rest, written⟩
  rw [peek_bind_apply]
  cases rest with
  | nil => rfl
  | cons token rest =>
      cases token with
      | literal text =>
          change (if isFloat text = true then _ else _ : Parser Node) _ =
            (if isFloat text = true then _ else _ : Parser Node) _
          split
          next hfloat =>
            have hrun : pointedNumber ⟨.literal text :: rest, written⟩ =
                some (text, ⟨rest, written⟩) := if_pos hfloat
            rw [bind_of_eq_some hrun]
            rfl
          next => rfl
      | _ => rfl

instance afterPoint_alike (base : Node) :
    Alike size place (afterPoint g base) (afterPoint g' base) .firm := by
  rw [afterPoint_eq, afterPoint_eq]
  refine .ask (.firmThen inferInstance fun text => ?_) inferInstance
  split <;> infer_instance

instance trailers_alike (start : Node) :
    Alike size place (trailers g start) (trailers g' start) .loose := by
  unfold trailers
  infer_instance

instance unary_alike (braces : Bool) :
    Alike size place (unary g braces) (unary g' braces) .firm := by
  unfold unary
  infer_instance

instance earlyExpr_alike
    [Alike size place (g (.unary true)) (g' (.unary true)) .firm] :
    Alike size place (earlyExpr g) (earlyExpr g') .firm := by
  unfold earlyExpr earlyBlock?
  infer_instance

/-! ## Imports -/

instance useAlias_alike : Alike size place useAlias useAlias .firm := by
  unfold useAlias
  infer_instance

instance useTree_alike (depth : Nat) (rootsInside : Bool) :
    Alike size place (useTree depth rootsInside) (useTree depth rootsInside) .firm := by
  induction depth generalizing place rootsInside with
  | zero => exact .never (fun _ => rfl) fun _ => rfl
  | succ depth ih =>
      unfold useTree
      infer_instance

instance useItem_alike (rootsInside : Bool) :
    Alike size place (useItem rootsInside) (useItem rootsInside) .firm := by
  unfold useItem
  infer_instance

/-! ## Functions and fields -/

instance receiver_alike (attrs : List Node) :
    Alike size place (receiver g attrs) (receiver g' attrs) .firm := by
  unfold receiver
  infer_instance

instance functionParam_alike : Alike size .inside (functionParam g) (functionParam g') .firm := by
  unfold functionParam
  infer_instance

instance signature_alike : Alike size place (signature g) (signature g') .firm := by
  unfold signature
  infer_instance

instance functionItem_alike (vis : Visibility) (isDefault : Bool) :
    Alike size place (functionItem g vis isDefault) (functionItem g' vis isDefault) .firm := by
  unfold functionItem
  infer_instance

instance namedField_alike : Alike size place (namedField g) (namedField g') .firm := by
  unfold namedField
  infer_instance

instance tupleField_alike : Alike size .inside (tupleField g) (tupleField g') .firm := by
  unfold tupleField
  infer_instance

instance namedFields_alike : Alike size place (namedFields g) (namedFields g') .firm := by
  unfold namedFields
  infer_instance

instance tupleFields_alike : Alike size place (tupleFields g) (tupleFields g') .firm := by
  unfold tupleFields
  infer_instance

instance structItem_alike : Alike size place (structItem g) (structItem g') .firm := by
  unfold structItem
  infer_instance

instance dropVisibility_alike : Alike size place dropVisibility dropVisibility .loose := by
  unfold dropVisibility
  infer_instance

instance variant_alike : Alike size place (variant g) (variant g') .firm := by
  unfold variant
  infer_instance

instance enumItem_alike : Alike size place (enumItem g) (enumItem g') .firm := by
  unfold enumItem
  infer_instance

instance unionItem_alike : Alike size place (unionItem g) (unionItem g') .firm := by
  unfold unionItem
  infer_instance

/-! ## Items -/

instance constItem_alike (needsValue : Bool) :
    Alike size place (constItem g needsValue) (constItem g' needsValue) .firm := by
  unfold constItem
  infer_instance

instance typeItem_alike (asksColon whereFirst : Bool) :
    Alike size place (typeItem g asksColon whereFirst)
      (typeItem g' asksColon whereFirst) .firm := by
  unfold typeItem
  infer_instance

instance macroItem_alike (named : Bool) :
    Alike size place (macroItem named) (macroItem named) .firm := by
  unfold macroItem
  infer_instance

instance finish_alike (start : Cursor) (attrs : List Node) (found : Found) :
    Alike size place (finish start attrs found) (finish start attrs found) .loose := by
  cases found <;> unfold finish <;> infer_instance

instance implItem_alike : Alike size place (implItem g) (implItem g') .firm := by
  unfold implItem
  infer_instance

instance traitItem_alike : Alike size place (traitItem g) (traitItem g') .firm := by
  unfold traitItem
  infer_instance

instance foreignItem_alike : Alike size place (foreignItem g) (foreignItem g') .firm := by
  unfold foreignItem
  infer_instance

instance foreignItems_alike (vis : Visibility) :
    Alike size place (foreignItems g vis) (foreignItems g' vis) .firm := by
  unfold foreignItems
  infer_instance

instance moduleItem_alike (vis : Visibility) :
    Alike size place (moduleItem g vis) (moduleItem g' vis) .firm := by
  unfold moduleItem
  infer_instance

instance traitOrAlias_alike (vis : Visibility) :
    Alike size place (traitOrAlias g vis) (traitOrAlias g' vis) .firm := by
  unfold traitOrAlias
  infer_instance

instance implementation_alike (vis : Visibility) :
    Alike size place (implementation g vis) (implementation g' vis) .firm := by
  unfold implementation
  infer_instance

instance staticItem_alike (vis : Visibility) :
    Alike size place (staticItem g vis) (staticItem g' vis) .firm := by
  unfold staticItem
  infer_instance

instance macroDefinition_alike : Alike size place macroDefinition macroDefinition .firm := by
  unfold macroDefinition
  infer_instance

instance externItem_alike (vis : Visibility) :
    Alike size place (externItem g vis) (externItem g' vis) .firm := by
  unfold externItem
  infer_instance

instance itemKind_alike (vis : Visibility) :
    Alike size place (itemKind g vis) (itemKind g' vis) .firm := by
  unfold itemKind
  dsimp only
  repeat refine .ask inferInstance ?_
  infer_instance

instance restOfItem_alike (start : Cursor) (attrs : List Node) :
    Alike size place (restOfItem g start attrs) (restOfItem g' start attrs) .firm := by
  unfold restOfItem
  infer_instance

instance item_alike : Alike size place (item g) (item g') .firm := by
  unfold item
  infer_instance

/-! ## Statements -/

instance localStmt_alike (attrs : List Node) :
    Alike size place (localStmt g attrs) (localStmt g' attrs) .firm := by
  unfold localStmt
  infer_instance

instance exprStmt_alike (attrs : List Node)
    [Alike size place (g .earlyExpr) (g' .earlyExpr) .firm] :
    Alike size place (exprStmt g attrs) (exprStmt g' attrs) .firm := by
  unfold exprStmt
  refine .firmThen inferInstance fun e => .thenLoose inferInstance fun semicolon => ?_
  split <;> infer_instance

instance statement_alike
    [Alike size place (g .earlyExpr) (g' .earlyExpr) .firm] :
    Alike size place (statement g) (statement g') .firm := by
  unfold statement
  refine .thenFirm inferInstance fun start => .thenFirm inferInstance fun attrs =>
    .thenFirm inferInstance fun c => ?_
  split <;> infer_instance

instance statements_alike
    [Alike size place (g .earlyExpr) (g' .earlyExpr) .firm] :
    Alike size place (statements g) (statements g') .loose := by
  unfold statements
  infer_instance

end ActionUnits.Source
