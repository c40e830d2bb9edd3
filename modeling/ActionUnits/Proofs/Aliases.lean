import ActionUnits.Emit.Tokens
import ActionUnits.Proofs.Fragments
import ActionUnits.Proofs.Source.Replay.Loops

/-! # What the accessor of input aliases computes

The tokens of an alias expression are read back by the grammar, and the tree that
comes out is evaluated as the generated source means it: by the types of its
parts, field by field and macro by macro. The value is that of the alias
expression, so the accessor lists the datasets that the parameters refer to.
-/

namespace ActionUnits

/-! ## Alias expressions -/

namespace AliasExpr

/-- The fields that an alias expression reads, from left to right. -/
def fields : AliasExpr → List Ident
  | .empty => []
  | .seq fields => fields
  | .orEmpty field => [field]
  | .append left right => left.fields ++ right.fields

theorem ne_append_of_mem_operands {e leaf : AliasExpr} (h : leaf ∈ e.operands)
    (left right : AliasExpr) : leaf ≠ .append left right := by
  induction e with
  | append _ _ ihl ihr => exact (List.mem_append.mp h).elim ihl ihr
  | _ =>
    rintro rfl
    cases List.mem_singleton.mp h

/-- The fields of an operand are fields of the whole expression. -/
theorem mem_fields_of_mem_operands {e leaf : AliasExpr} (h : leaf ∈ e.operands) {field : Ident}
    (hfield : field ∈ leaf.fields) : field ∈ e.fields := by
  induction e with
  | append _ _ ihl ihr =>
    exact List.mem_append.mpr ((List.mem_append.mp h).imp ihl ihr)
  | _ =>
    rw [List.mem_singleton.mp h] at hfield
    exact hfield

variable (single : Ident → String) (list : Ident → Option (List String))

/-- The value of an alias expression is that of its leaves in order. -/
theorem value_eq_flatMap_operands (e : AliasExpr) :
    e.value single list = e.operands.flatMap (·.value single list) := by
  induction e with
  | append left right ihl ihr => rw [value, operands, List.flatMap_append, ihl, ihr]
  | _ => exact (List.append_nil _).symm

/-- Appended expressions contribute their values one after the other. -/
theorem foldl_append_value (e : AliasExpr) (es : List AliasExpr) :
    (es.foldl .append e).value single list =
      e.value single list ++ es.flatMap (·.value single list) := by
  induction es generalizing e with
  | nil => exact (List.append_nil _).symm
  | cons next es ih => rw [List.foldl_cons, ih, value, List.append_assoc, List.flatMap_cons]

theorem foldl_append_fields (e : AliasExpr) (es : List AliasExpr) :
    (es.foldl .append e).fields = e.fields ++ es.flatMap fields := by
  induction es generalizing e with
  | nil => exact (List.append_nil _).symm
  | cons next es ih => rw [List.foldl_cons, ih, fields, List.append_assoc, List.flatMap_cons]

/-- An expression made of fields has the values of the single ones, then those of the lists. -/
theorem value_ofFields (singles lists : List Ident) :
    (ofFields singles lists).value single list =
      singles.map single ++ lists.flatMap fun field => (list field).getD [] := by
  cases lists with
  | nil =>
    cases singles with
    | nil => rfl
    | cons _ _ => exact (List.append_nil _).symm
  | cons field lists =>
    have hlists : ((lists.map orEmpty).foldl append (orEmpty field)).value single list =
        (field :: lists).flatMap fun field => (list field).getD [] := by
      rw [foldl_append_value, List.flatMap_map]
      rfl
    cases singles with
    | nil => exact hlists
    | cons _ _ => exact congrArg (_ ++ ·) hlists

/-- An expression made of fields mentions these fields in their order. -/
theorem fields_ofFields (singles lists : List Ident) :
    (ofFields singles lists).fields = singles ++ lists := by
  cases lists with
  | nil =>
    cases singles with
    | nil => rfl
    | cons _ _ => exact (List.append_nil _).symm
  | cons field lists =>
    have hlists : ((lists.map orEmpty).foldl append (orEmpty field)).fields = field :: lists := by
      rw [foldl_append_fields, List.flatMap_map]
      exact congrArg (field :: ·) (List.flatMap_singleton' lists)
    cases singles with
    | nil => exact hlists
    | cons _ _ => exact congrArg (_ ++ ·) hlists

end AliasExpr

namespace Source

def readExpr? (tokens : List Token) : Option (Fragment Node) :=
  readAll? (fun g => g (.expr true)) tokens

/-- Reads expressions with commas between them. -/
def readExprs? (tokens : List Token) : Option (Fragment (List Node)) :=
  readAll? (fun g => commaList (g (.expr true))) tokens

end Source

/-! ## The meaning of accessor expressions -/

namespace Accessor

open Source (Node)

/-- The values of the fields of an action: of those that hold a name, and of those that hold an
optional list of names. -/
structure FieldValues where
  single : Ident → String
  list : Ident → Option (List String)

/-- The field of the action itself that an expression is. -/
def selfField? : Node → Option Ident
  | .field (.path false [.segment ⟨"self"⟩ none]) (.named field) => some field
  | _ => none

def clonedField? : Node → Option Ident
  | .methodCall receiver ⟨"clone"⟩ none [] => selfField? receiver
  | _ => none

def name? (values : FieldValues) (e : Node) : Option String :=
  (clonedField? e).map values.single

/-- The value of an expression for an optional list of names. -/
def optional? (values : FieldValues) (e : Node) : Option (Option (List String)) :=
  (clonedField? e).map values.list

/-- The value of the macro that lists names. -/
def listed? (values : FieldValues) (body : List Token) : Option (List String) := do
  let elements ← Source.readExprs? body
  elements.value.mapM (name? values)

mutual

def names? (values : FieldValues) : Node → Option (List String)
  | .call (.path false [.segment ⟨"Vec"⟩ none, .segment ⟨"new"⟩ none]) [] => some []
  | .macroCall ⟨⟨false, [⟨"vec"⟩]⟩, .bracket, body⟩ => listed? values body
  | .methodCall (.array elements) ⟨"concat"⟩ none [] => concat? values elements
  | .methodCall receiver ⟨"unwrap_or_default"⟩ none [] =>
    (optional? values receiver).map (·.getD [])
  | _ => none

def concat? (values : FieldValues) : List Node → Option (List String)
  | [] => some []
  | e :: es => do
    let first ← names? values e
    let rest ← concat? values es
    return first ++ rest

end

end Accessor

/-! ## Reading accessor expressions -/

namespace Source

/-- A repetition that ends does so with more fuel too. -/
theorem iterateStep_succ {α : Type} {step : α → Parser (Option α)} {fuel : Nat} {a : α}
    {b : α} {c d : Cursor} (h : iterateStep step fuel a c = some (b, d)) :
    iterateStep step (fuel + 1) a c = some (b, d) := by
  induction fuel generalizing a c with
  | zero => cases h
  | succ fuel ih =>
    obtain ⟨next, m, hstep, hrest⟩ := bind_eq_some.mp h
    refine (bind_of_eq_some hstep _).trans ?_
    cases next with
    | none => exact hrest
    | some next => exact ih hrest

/-- More fuel changes nothing in what has been iterated to its end. -/
theorem iterateStep_add {α : Type} {step : α → Parser (Option α)} {fuel : Nat} {a : α}
    {b : α} {c d : Cursor} (h : iterateStep step fuel a c = some (b, d)) (more : Nat) :
    iterateStep step (fuel + more) a c = some (b, d) := by
  induction more with
  | zero => exact h
  | succ more ih => exact iterateStep_succ ih

theorem iterateStep_of_some {α : Type} {step : α → Parser (Option α)} {fuel : Nat} {a b : α}
    {c d : Cursor} (h : step a c = some (some b, d)) :
    iterateStep step (fuel + 1) a c = iterateStep step fuel b d :=
  bind_of_eq_some h _

section Field

variable {g : Grammar} {field : Ident} {base : Node} {rest written : List Token}

theorem isIdent_of_not_keyword (h : isKeyword field = false) :
    isIdent (.ident field :: rest) = true := by
  change (!isKeyword field) = true
  rw [h]
  rfl

/-- A name that is no keyword is none of the words that have a meaning of their own. -/
theorem isWord_of_not_keyword (h : isKeyword field = false) {text : String}
    (htext : keywords.contains text = true) : isWord text (.ident field :: rest) = false := by
  change (field.text == text) = false
  rw [beq_eq_false_iff_ne]
  rintro rfl
  rw [isKeyword, htext] at h
  cases h

/-- A name that is no keyword is read as a member. -/
theorem member_apply (h : isKeyword field = false) :
    member ⟨.ident field :: rest, written⟩ =
      some (.named field, ⟨rest, .ident field :: written⟩) := by
  have hident : ident ⟨.ident field :: rest, written⟩ =
      some (field, ⟨rest, .ident field :: written⟩) := by
    rw [ident, peek_bind_apply, isIdent_of_not_keyword h]
    rfl
  rw [member, peek_bind_apply, isIdent_of_not_keyword h]
  exact bind_of_eq_some hident _

/-- A point and a name after an expression, where a further point follows. -/
theorem fieldOrMethod_apply (h : isKeyword field = false) :
    fieldOrMethod g base ⟨.ident field :: .punct '.' false :: rest, written⟩ =
      some (.field base (.named field),
        ⟨.punct '.' false :: rest, .ident field :: written⟩) := by
  have hawait : word? "await" ⟨.ident field :: .punct '.' false :: rest, written⟩ =
      some (false, ⟨.ident field :: .punct '.' false :: rest, written⟩) := by
    rw [word?, peek_bind_apply, isWord_of_not_keyword h (by decide)]
    rfl
  rw [fieldOrMethod, bind_of_eq_some hawait]
  exact (bind_of_eq_some (member_apply h) _).trans rfl

/-- A field is read after a point. -/
theorem afterPoint_apply (h : isKeyword field = false) :
    afterPoint g base ⟨.ident field :: .punct '.' false :: rest, written⟩ =
      some (.field base (.named field),
        ⟨.punct '.' false :: rest, .ident field :: written⟩) :=
  fieldOrMethod_apply h

/-- What follows a field of the action is read as if it followed any expression. -/
theorem trailers_selfField (h : isKeyword field = false) {result : Node} {d : Cursor}
    (hcalls : trailers g (.field (.ofIdent ⟨"self"⟩) (.named field))
      ⟨.punct '.' false :: rest, .ident field :: .punct '.' false :: written⟩ = some (result, d)) :
    trailers g (.ofIdent ⟨"self"⟩)
        ⟨.punct '.' false :: .ident field :: .punct '.' false :: rest, written⟩ =
      some (result, d) := by
  rw [trailers, iterate, bind_of_eq_some get_apply] at hcalls ⊢
  have hpoint : op "." ⟨.punct '.' false :: .ident field :: .punct '.' false :: rest, written⟩ =
      some ((), ⟨.ident field :: .punct '.' false :: rest, .punct '.' false :: written⟩) := rfl
  have hstep : (op "." >>= fun _ => afterPoint g (.ofIdent ⟨"self"⟩) >>= fun e => pure (some e))
      ⟨.punct '.' false :: .ident field :: .punct '.' false :: rest, written⟩ =
      some (some (.field (.ofIdent ⟨"self"⟩) (.named field)),
        ⟨.punct '.' false :: rest, .ident field :: .punct '.' false :: written⟩) :=
    (bind_of_eq_some hpoint _).trans (bind_of_eq_some (afterPoint_apply h) _)
  exact (iterateStep_of_some hstep).trans (iterateStep_succ hcalls)

end Field

/-! ### Leaves -/

/-- A comma comes next, or nothing. -/
def EndsElement (rest : List Token) : Prop :=
  rest = [] ∨ ∃ more, rest = .punct ',' false :: more

section Leaf

variable {g : Grammar} {field : Ident} {rest written : List Token}

def selfField (field : Ident) : Node :=
  .field (.ofIdent ⟨"self"⟩) (.named field)

def clonedField (field : Ident) : Node :=
  .methodCall (selfField field) ⟨"clone"⟩ none []

/-- The receiver is read, and then what is selected from it. -/
theorem unary_self (n : Nat) {e : Node} {d : Cursor}
    (htrailers : trailers (grammarTo n) (.ofIdent ⟨"self"⟩)
      ⟨.punct '.' false :: rest, Token.word "self" :: written⟩ = some (e, d)) :
    grammarTo (n + 1) (.unary true) ⟨Token.word "self" :: .punct '.' false :: rest, written⟩ =
      some (.withAttrs [] e, d) := by
  have hatom : atom (grammarTo n) true ⟨Token.word "self" :: .punct '.' false :: rest, written⟩ =
      some (.ofIdent ⟨"self"⟩, ⟨.punct '.' false :: rest, Token.word "self" :: written⟩) := rfl
  have hrun : (atom (grammarTo n) true >>= fun a => trailers (grammarTo n) a >>= fun e =>
      pure (Node.withAttrs [] e)) ⟨Token.word "self" :: .punct '.' false :: rest, written⟩ =
      some (.withAttrs [] e, d) :=
    (bind_of_eq_some hatom _).trans (bind_of_eq_some htrailers _)
  exact hrun

/-- A clone of a field ends before a comma. -/
theorem expr_clonedField (n : Nat) (h : isKeyword field = false) (hrest : EndsElement rest) :
    grammarTo (n + 2) (.expr true)
        ⟨Emit.selfField field ++ Emit.methodCall "clone" ++ rest, written⟩ =
      some (clonedField field,
        ⟨rest, (Emit.selfField field ++ Emit.methodCall "clone").reverse ++ written⟩) := by
  have htrailers : trailers (grammarTo n) (.ofIdent ⟨"self"⟩)
      ⟨.punct '.' false :: .ident field :: Emit.methodCall "clone" ++ rest,
        Token.word "self" :: written⟩ =
      some (clonedField field,
        ⟨rest, (Emit.selfField field ++ Emit.methodCall "clone").reverse ++ written⟩) := by
    refine trailers_selfField h ?_
    obtain rfl | ⟨more, rfl⟩ := hrest
    · rfl
    · rfl
  refine (bind_of_eq_some (unary_self n htrailers) _).trans ?_
  obtain rfl | ⟨more, rfl⟩ := hrest
  · rfl
  · rfl

/-- The names in a field that holds an optional list end before a comma. -/
theorem expr_orEmpty (n : Nat) (h : isKeyword field = false) (hrest : EndsElement rest) :
    grammarTo (n + 2) (.expr true) ⟨Emit.aliasLeaf (.orEmpty field) ++ rest, written⟩ =
      some (.methodCall (clonedField field) ⟨"unwrap_or_default"⟩ none [],
        ⟨rest, (Emit.aliasLeaf (.orEmpty field)).reverse ++ written⟩) := by
  have htrailers : trailers (grammarTo n) (.ofIdent ⟨"self"⟩)
      ⟨.punct '.' false :: .ident field :: Emit.methodCall "clone" ++
        Emit.methodCall "unwrap_or_default" ++ rest, Token.word "self" :: written⟩ =
      some (.methodCall (clonedField field) ⟨"unwrap_or_default"⟩ none [],
        ⟨rest, (Emit.aliasLeaf (.orEmpty field)).reverse ++ written⟩) := by
    refine trailers_selfField h ?_
    obtain rfl | ⟨more, rfl⟩ := hrest
    · rfl
    · rfl
  refine (bind_of_eq_some (unary_self n htrailers) _).trans ?_
  obtain rfl | ⟨more, rfl⟩ := hrest
  · rfl
  · rfl

end Leaf

/-- The tree of a leaf of an alias expression. -/
def leafNode : AliasExpr → Node
  | .empty => .call (.path false [.segment ⟨"Vec"⟩ none, .segment ⟨"new"⟩ none]) []
  | .seq fields =>
    .macroCall ⟨⟨false, [⟨"vec"⟩]⟩, .bracket, Emit.commaSeparated
      (fields.map fun field => Emit.selfField field ++ Emit.methodCall "clone")⟩
  | .orEmpty field => .methodCall (clonedField field) ⟨"unwrap_or_default"⟩ none []
  | .append _ _ => .verbatim []

/-- The tokens of a leaf are read as its expression. -/
theorem expr_aliasLeaf (n : Nat) {rest written : List Token} {leaf : AliasExpr}
    (hleaf : ∀ left right, leaf ≠ .append left right)
    (hfields : ∀ field ∈ leaf.fields, isKeyword field = false) (hrest : EndsElement rest) :
    grammarTo (n + 2) (.expr true) ⟨Emit.aliasLeaf leaf ++ rest, written⟩ =
      some (leafNode leaf, ⟨rest, (Emit.aliasLeaf leaf).reverse ++ written⟩) := by
  cases leaf with
  | empty =>
    obtain rfl | ⟨more, rfl⟩ := hrest
    · rfl
    · rfl
  | seq fields =>
    obtain rfl | ⟨more, rfl⟩ := hrest
    · rfl
    · rfl
  | orEmpty field => exact expr_orEmpty n (hfields field List.mem_cons_self) hrest
  | append left right => exact absurd rfl (hleaf left right)

/-! ### Lists -/

/-- A parser reads an element of a list up to the comma after it, as it stands. -/
def ReadsElement (p : Parser Node) (part : List Token) (e : Node) : Prop :=
  part ≠ [] ∧ ∀ rest written, EndsElement rest →
    p ⟨part ++ rest, written⟩ = some (e, ⟨rest, part.reverse ++ written⟩)

theorem commaSeparated_cons_cons (part next : List Token) (parts : List (List Token)) :
    Emit.commaSeparated (part :: next :: parts) =
      part ++ .punct ',' false :: Emit.commaSeparated (next :: parts) := by
  rw [Emit.commaSeparated, List.intercalate_cons_cons]
  exact List.append_assoc _ _ _

def commaRound {α : Type} (p : Parser α) : Parser (Option α) := do
  if ← atEnd then return none
  else
    let e ← p
    unless ← atEnd do op ","
    return some e

/-- The last element needs no comma. -/
theorem commaRound_last {p : Parser Node} {part : List Token} {e : Node}
    (h : ReadsElement p part e) (written : List Token) :
    commaRound p ⟨part, written⟩ = some (some e, ⟨[], part.reverse ++ written⟩) := by
  obtain ⟨hne, hread⟩ := h
  have hrun := hread [] written (.inl rfl)
  rw [List.append_nil] at hrun
  obtain ⟨token, tokens, rfl⟩ := List.exists_cons_of_ne_nil hne
  rw [commaRound, atEnd, peek_bind_apply, if_neg (by simp), bind_of_eq_some hrun]
  rfl

/-- An element with a comma behind it makes room for the next one. -/
theorem commaRound_next {p : Parser Node} {part : List Token} {e : Node}
    (h : ReadsElement p part e) (more written : List Token) :
    commaRound p ⟨part ++ .punct ',' false :: more, written⟩ =
      some (some e, ⟨more, .punct ',' false :: part.reverse ++ written⟩) := by
  obtain ⟨hne, hread⟩ := h
  have hrun := hread (.punct ',' false :: more) written (.inr ⟨more, rfl⟩)
  obtain ⟨token, tokens, rfl⟩ := List.exists_cons_of_ne_nil hne
  rw [commaRound, atEnd, peek_bind_apply, if_neg (by simp), bind_of_eq_some hrun]
  rfl

/-- What stands between commas is read element by element. -/
theorem commaList_reads {p : Parser Node} {parts : List (List Token)} {es : List Node}
    (h : List.Forall₂ (ReadsElement p) parts es) (written : List Token) :
    commaList p ⟨Emit.commaSeparated parts, written⟩ =
      some (es, ⟨[], (Emit.commaSeparated parts).reverse ++ written⟩) := by
  have hrounds : es.length ≤ (Emit.commaSeparated parts).length ∧
      Rounds (commaRound p) ⟨Emit.commaSeparated parts, written⟩ es
        ⟨[], (Emit.commaSeparated parts).reverse ++ written⟩ := by
    induction h generalizing written with
    | nil => exact ⟨Nat.le_refl _, .stop rfl⟩
    | @cons part e parts es hhead htail ih =>
      have hpos := List.length_pos_of_ne_nil hhead.1
      cases htail with
      | nil =>
        have hpart : Emit.commaSeparated [part] = part := List.intercalate_singleton
        rw [hpart]
        exact ⟨hpos, .next (commaRound_last hhead written) (.stop rfl)⟩
      | @cons next _ parts _ _ _ =>
        rw [commaSeparated_cons_cons]
        obtain ⟨hlength, hmore⟩ := ih (.punct ',' false :: part.reverse ++ written)
        refine ⟨?_, .next (commaRound_next hhead _ written) ?_⟩
        · simp only [List.length_append, List.length_cons] at hlength ⊢
          omega
        · simpa using hmore
  exact repeated_eq_some.mpr hrounds

/-- A list in brackets is read if its elements are. -/
theorem arrayExpr_reads {g : Grammar} {parts : List (List Token)} {es : List Node}
    (h : List.Forall₂ (ReadsElement (g (.expr true))) parts es) (rest written : List Token) :
    arrayExpr g ⟨.group .bracket (Emit.commaSeparated parts) :: rest, written⟩ =
      some (.array es, ⟨rest, .group .bracket (Emit.commaSeparated parts) :: written⟩) := by
  refine group_eq_some.mpr
    ⟨Emit.commaSeparated parts, (Emit.commaSeparated parts).reverse, rfl, ?_, by simp⟩
  cases h with
  | nil => rfl
  | @cons part e parts es hhead htail =>
    obtain ⟨hne, hread⟩ := hhead
    obtain ⟨token, tokens, rfl⟩ := List.exists_cons_of_ne_nil hne
    cases htail with
    | nil =>
      have hpart : Emit.commaSeparated [token :: tokens] = token :: tokens :=
        List.intercalate_singleton
      have hrun := hread [] [] (.inl rfl)
      rw [List.append_nil, List.append_nil] at hrun
      rw [hpart, atEnd, peek_bind_apply, if_neg (by simp), bind_of_eq_some hrun]
      rfl
    | @cons next _ parts _ hnext hrest =>
      rw [commaSeparated_cons_cons, atEnd, peek_bind_apply, if_neg (by simp),
        bind_of_eq_some (hread _ [] (.inr ⟨_, rfl⟩))]
      have hcomma : op? "," ⟨.punct ',' false :: Emit.commaSeparated (next :: parts),
          (token :: tokens).reverse ++ []⟩ = some (true, ⟨Emit.commaSeparated (next :: parts),
            .punct ',' false :: ((token :: tokens).reverse ++ [])⟩) := rfl
      have hmore := commaList_reads (.cons hnext hrest)
        (.punct ',' false :: ((token :: tokens).reverse ++ []))
      rw [peek_bind_apply, if_neg (by simp), bind_of_eq_some hcomma, if_pos rfl,
        bind_of_eq_some hmore]
      simp

/-- The tree of an alias expression. -/
def aliasNode : AliasExpr → Node
  | .append left right =>
    .methodCall (.array ((AliasExpr.append left right).operands.map leafNode)) ⟨"concat"⟩ none []
  | leaf => leafNode leaf

theorem aliasLeaf_ne_nil {leaf : AliasExpr} (h : ∀ left right, leaf ≠ .append left right) :
    Emit.aliasLeaf leaf ≠ [] := by
  cases leaf with
  | append left right => exact absurd rfl (h left right)
  | _ => exact List.cons_ne_nil _ _

/-- The leaves of an alias expression are read one by one. -/
theorem operands_read (n : Nat) {e : AliasExpr}
    (hfields : ∀ field ∈ e.fields, isKeyword field = false) :
    List.Forall₂ (ReadsElement (grammarTo (n + 2) (.expr true)))
      (e.operands.map Emit.aliasLeaf) (e.operands.map leafNode) := by
  rw [List.forall₂_map_left_iff, List.forall₂_map_right_iff, List.forall₂_same]
  intro leaf hleaf
  have hne := AliasExpr.ne_append_of_mem_operands hleaf
  refine ⟨aliasLeaf_ne_nil hne, fun rest written hrest => expr_aliasLeaf n hne ?_ hrest⟩
  exact fun field hfield => hfields field (AliasExpr.mem_fields_of_mem_operands hleaf hfield)

/-- The concatenation of a list is read as a call on the list. -/
theorem expr_concat (n : Nat) {parts : List (List Token)} {es : List Node}
    (h : List.Forall₂ (ReadsElement (grammarTo n (.expr true))) parts es) (written : List Token) :
    grammarTo (n + 2) (.expr true)
        ⟨.group .bracket (Emit.commaSeparated parts) :: Emit.methodCall "concat", written⟩ =
      some (.methodCall (.array es) ⟨"concat"⟩ none [], ⟨[],
        (.group .bracket (Emit.commaSeparated parts) :: Emit.methodCall "concat").reverse ++
          written⟩) := by
  have hunary : grammarTo (n + 1) (.unary true)
      ⟨.group .bracket (Emit.commaSeparated parts) :: Emit.methodCall "concat", written⟩ =
      some (.methodCall (.array es) ⟨"concat"⟩ none [], ⟨[],
        (.group .bracket (Emit.commaSeparated parts) :: Emit.methodCall "concat").reverse ++
          written⟩) := by
    have hrun : (arrayExpr (grammarTo n) >>= fun a => trailers (grammarTo n) a >>= fun e =>
        pure (Node.withAttrs [] e))
          ⟨.group .bracket (Emit.commaSeparated parts) :: Emit.methodCall "concat", written⟩ =
        some (.methodCall (.array es) ⟨"concat"⟩ none [], ⟨[],
          (.group .bracket (Emit.commaSeparated parts) :: Emit.methodCall "concat").reverse ++
            written⟩) :=
      (bind_of_eq_some (arrayExpr_reads h _ written) _).trans rfl
    exact hrun
  exact (bind_of_eq_some hunary _).trans rfl

/-- An alias expression is read as its tree. -/
theorem expr_aliasTokens (n : Nat) {e : AliasExpr}
    (hfields : ∀ field ∈ e.fields, isKeyword field = false) (written : List Token) :
    grammarTo (n + 4) (.expr true) ⟨Emit.aliasTokens e, written⟩ =
      some (aliasNode e, ⟨[], (Emit.aliasTokens e).reverse ++ written⟩) := by
  have hleaf : (∀ left right, e ≠ .append left right) →
      grammarTo (n + 4) (.expr true) ⟨Emit.aliasLeaf e, written⟩ =
        some (leafNode e, ⟨[], (Emit.aliasLeaf e).reverse ++ written⟩) := by
    intro hne
    have hrun := @expr_aliasLeaf (n + 2) [] written e hne hfields (.inl rfl)
    rwa [List.append_nil] at hrun
  cases e with
  | append left right => exact expr_concat (n + 2) (operands_read n hfields) written
  | _ => exact hleaf nofun

/-- Tokens that are read with fuel for their depth are read as a whole. -/
theorem readAll?_of_run {α : Type} {parser : Grammar → Parser α} {tokens written : List Token}
    {a : α} (h : parser (grammarTo (depthFor tokens)) ⟨tokens, []⟩ = some (a, ⟨[], written⟩)) :
    readAll? parser tokens = some ⟨a, written.reverse⟩ := by
  rw [readAll?, h]
  rfl

/-- The grammar reads an alias expression as its tree. -/
theorem readExpr?_aliasTokens {e : AliasExpr}
    (hfields : ∀ field ∈ e.fields, isKeyword field = false) :
    readExpr? (Emit.aliasTokens e) = some ⟨aliasNode e, Emit.aliasTokens e⟩ := by
  have hread := expr_aliasTokens (16 * Token.sizeAll (Emit.aliasTokens e) + 12) hfields []
  rw [List.append_nil] at hread
  have hrun : readExpr? (Emit.aliasTokens e) = _ := readAll?_of_run hread
  rwa [List.reverse_reverse] at hrun

/-- The grammar reads the elements of a list of cloned fields. -/
theorem readExprs?_clonedFields {fields : List Ident}
    (hfields : ∀ field ∈ fields, isKeyword field = false) :
    ∃ written, readExprs? (Emit.commaSeparated
        (fields.map fun field => Emit.selfField field ++ Emit.methodCall "clone")) =
      some ⟨fields.map clonedField, written⟩ := by
  refine ⟨_, readAll?_of_run (commaList_reads ?_ [])⟩
  rw [List.forall₂_map_left_iff, List.forall₂_map_right_iff, List.forall₂_same]
  intro field hfield
  exact ⟨List.cons_ne_nil _ _, fun rest written hrest =>
    expr_clonedField _ (hfields field hfield) hrest⟩

end Source

/-! ## The value of the accessor -/

namespace Accessor

open Source (clonedField leafNode aliasNode)

variable (values : FieldValues)

/-- Cloned fields have the values of the fields. -/
theorem listed?_clonedFields {fields : List Ident}
    (hfields : ∀ field ∈ fields, Source.isKeyword field = false) :
    listed? values (Emit.commaSeparated
        (fields.map fun field => Emit.selfField field ++ Emit.methodCall "clone")) =
      some (fields.map values.single) := by
  obtain ⟨written, hread⟩ := Source.readExprs?_clonedFields hfields
  rw [listed?, hread]
  change (fields.map clonedField).mapM (name? values) = _
  rw [List.mapM_map]
  exact List.mapM_pure ..

/-- The expression that a leaf is read as has the value of the leaf. -/
theorem names?_leafNode {leaf : AliasExpr} (hleaf : ∀ left right, leaf ≠ .append left right)
    (hfields : ∀ field ∈ leaf.fields, Source.isKeyword field = false) :
    names? values (leafNode leaf) = some (leaf.value values.single values.list) := by
  cases leaf with
  | empty => rfl
  | seq fields => exact listed?_clonedFields values hfields
  | orEmpty field => rfl
  | append left right => exact absurd rfl (hleaf left right)

/-- A concatenation has the values of its leaves one after the other. -/
theorem concat?_leafNodes {leaves : List AliasExpr}
    (h : ∀ leaf ∈ leaves, names? values (leafNode leaf) =
      some (leaf.value values.single values.list)) :
    concat? values (leaves.map leafNode) =
      some (leaves.flatMap (·.value values.single values.list)) := by
  induction leaves with
  | nil => rfl
  | cons leaf leaves ih =>
    obtain ⟨hleaf, hleaves⟩ := List.forall_mem_cons.mp h
    rw [List.map_cons, concat?, hleaf, ih hleaves]
    rfl

/-- The tree of an alias expression has the value of the alias expression. -/
theorem names?_aliasNode {e : AliasExpr}
    (hfields : ∀ field ∈ e.fields, Source.isKeyword field = false) :
    names? values (aliasNode e) = some (e.value values.single values.list) := by
  cases e with
  | append left right =>
    rw [AliasExpr.value_eq_flatMap_operands]
    refine concat?_leafNodes values fun leaf hleaf => ?_
    refine names?_leafNode values (AliasExpr.ne_append_of_mem_operands hleaf) fun field hfield => ?_
    exact hfields field (AliasExpr.mem_fields_of_mem_operands hleaf hfield)
  | _ =>
    refine names?_leafNode values ?_ hfields
    nofun

end Accessor

namespace Synthesis

/-- The single references come first, then the lists. -/
theorem inputAliases_eq_ok {action : Action} {ident : Param → Ident}
    (h : ∀ param ∈ action.params, Spells param.name (ident param)) :
    inputAliases action =
      .ok (.ofFields (action.singleRefs.map ident) (action.listRefs.map ident)) := by
  have hread : ∀ p : Param → Bool, (action.params.filter p).mapM (paramIdent action.id) =
      .ok ((action.params.filter p).map ident) := by
    intro p
    rw [mapM_eq_ok_iff, List.forall₂_map_right_iff, List.forall₂_same]
    exact fun param hmem => readIdent_eq_ok_iff.mpr (h param (List.mem_of_mem_filter hmem))
  rw [inputAliases, Action.singleRefs, Action.listRefs, hread, hread]
  rfl

/-- The implementation of a generated type has an accessor of input aliases with this body. -/
def EmitsAccessor (decl : ClassDecl) (body : List Token) : Prop :=
  ∃ head before after, Emit.implTokens decl =
    head ++ [.group .brace (before ++
      Emit.methodHead "input_aliases" [] (Emit.applied "Vec" [Token.word "String"]) ++
      .group .brace body :: after)]

/-- The accessor is emitted with the tokens of the expression. -/
theorem emitsAccessor (decl : ClassDecl) :
    EmitsAccessor decl (Emit.aliasTokens decl.inputAliases) := by
  unfold EmitsAccessor Emit.implTokens
  obtain ⟨base, output⟩ := Emit.outputTypes decl
  have hsplit : ∀ (body : Token) (first head after last : List Token),
      first ++ head ++ [body] ++ after ++ last = first ++ head ++ body :: (after ++ last) := by
    intros
    simp
  exact ⟨_, _, _, congrArg (_ ++ ·) (congrArg (fun body => [Token.group .brace body])
    (hsplit _ _ _ _ _))⟩

/-- The accessor of an action whose parameters are named by identifiers is read back from what is
emitted. For any values of the fields it lists the single references in order, then the names in the
lists in order. -/
theorem accessor_lists_references (action : Action) (ident : Param → Ident)
    (h : ∀ param ∈ action.params, Spells param.name (ident param)) :
    ∃ aliases accessor, inputAliases action = .ok aliases ∧
      (∀ dataset decl, classDecl dataset action = .ok decl →
        EmitsAccessor decl (Emit.aliasTokens aliases)) ∧
      Source.readExpr? (Emit.aliasTokens aliases) = some ⟨accessor, Emit.aliasTokens aliases⟩ ∧
      ∀ values : Accessor.FieldValues, Accessor.names? values accessor = some
        ((action.params.filter (·.isDatasetRef)).map (fun param => values.single (ident param)) ++
          (action.params.filter (·.isDatasetRefList)).flatMap fun param =>
            (values.list (ident param)).getD []) := by
  have haliases := inputAliases_eq_ok h
  have hfields : ∀ field ∈ (AliasExpr.ofFields (action.singleRefs.map ident)
      (action.listRefs.map ident)).fields, Source.isKeyword field = false := by
    intro field hfield
    rw [AliasExpr.fields_ofFields, ← List.map_append] at hfield
    obtain ⟨param, hmem, rfl⟩ := List.mem_map.mp hfield
    have hparam : param ∈ action.params :=
      (List.mem_append.mp hmem).elim List.mem_of_mem_filter List.mem_of_mem_filter
    exact (h param hparam).2
  refine ⟨_, _, haliases, fun dataset decl hdecl => ?_, Source.readExpr?_aliasTokens hfields,
    fun values => ?_⟩
  · obtain ⟨_, _, _, aliases, _, _, _, hread, rfl⟩ := classDecl_eq_ok_iff.mp hdecl
    obtain rfl := Except.ok.inj (haliases.symm.trans hread)
    exact emitsAccessor _
  · rw [Accessor.names?_aliasNode values hfields, AliasExpr.value_ofFields, List.map_map,
      List.flatMap_map]
    rfl

/-- A parameter with both flags is listed twice, and one without any is not listed. -/
theorem accessor_of_mixed_flags :
    ∃ accessor, Source.readExpr? (Emit.aliasTokens (.append (.seq [⟨"a"⟩, ⟨"b"⟩])
        (.append (.orEmpty ⟨"b"⟩) (.orEmpty ⟨"c"⟩)))) = some accessor ∧
      Accessor.names? ⟨Ident.text, fun field => if field.text = "c" then some ["x", "y"] else none⟩
        accessor.value = some ["a", "b", "x", "y"] := by
  obtain ⟨aliases, accessor, haliases, -, hread, hvalue⟩ := accessor_lists_references
    ⟨"mixed", "x", [⟨"a", "String", none, true, false, true, false⟩,
      ⟨"b", "String", none, true, false, true, true⟩, ⟨"d", "u8", none, false, false, false, false⟩,
      ⟨"c", "String", none, false, false, false, true⟩], false, none⟩
    (fun param => ⟨param.name⟩) (by
      intro param hmem
      simp only [List.mem_cons, List.not_mem_nil, or_false] at hmem
      obtain rfl | rfl | rfl | rfl := hmem <;> exact ⟨rfl, rfl⟩)
  obtain rfl := Except.ok.inj haliases
  exact ⟨_, hread, hvalue _⟩

end Synthesis

end ActionUnits
