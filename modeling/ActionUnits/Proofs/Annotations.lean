import ActionUnits.Proofs.Aliases
import ActionUnits.Proofs.Registry
import ActionUnits.Proofs.Source.Replay.Generics

/-! # Fields keep their annotations

The tokens of a field are read by the grammar of attributes: first the attributes,
then the name, and what is left is the type. The arguments of the attributes tell
whether the field has a default, how it is renamed and whether it is marked, so
two fields with the same tokens have the same annotations.
-/

namespace ActionUnits

/-! ## Reading a field -/

namespace Source

variable {g : Grammar} {rest written : List Token}

def readArguments? (tokens : List Token) : Option (Fragment (List Node)) :=
  readAll? (fun g => commaList (metaItem g false)) tokens

/-- The attributes and the name of a field, up to the colon in front of its type. -/
def fieldHead (g : Grammar) : Parser (List Node × Ident) := do
  let attrs ← outerAttrs g
  let _ ← visibility
  let name ← ident
  op ":"
  return (attrs, name)

/-- A field as it is written. -/
structure WrittenField where
  attrs : List Node
  name : Ident
  /-- The tokens after the colon. -/
  type : List Token

/-- Reads a field; the tokens of its type are kept as they are. -/
def readField? (tokens : List Token) : Option WrittenField := do
  let ((attrs, name), after) ← fieldHead (grammarTo (depthFor tokens)) ⟨tokens, []⟩
  return ⟨attrs, name, after.rest⟩

def flag (name : String) : Node :=
  .attrWord false ⟨false, [⟨name⟩]⟩

/-- An argument that gives a name a value. -/
def setting (name : String) (value : Node) : Node :=
  .attrValue false ⟨false, [⟨name⟩]⟩ value

def withArguments (name : String) (body : List Token) : Node :=
  .attrList false ⟨false, [⟨name⟩]⟩ .paren body

def WrittenField.HasArgument (field : WrittenField) (name : String) (argument : Node) : Prop :=
  ∃ body arguments, withArguments name body ∈ field.attrs ∧
    readArguments? body = some arguments ∧ argument ∈ arguments.value

/-! ### Attributes -/

/-- One attribute in front of something. -/
def outerAttr (g : Grammar) : Parser Node := do
  op "#"
  group .bracket (metaItem g false)

/-- A round of the attributes in front of something. -/
def attrRound (g : Grammar) : Parser (Option Node) := do
  if ← peek (isOp "#") then return some (← outerAttr g)
  else return none

/-- One attribute is read, and further ones may follow. -/
theorem attrRound_next {content : List Token} {node : Node}
    (h : ReadsElement (metaItem g false) content node) :
    attrRound g ⟨Token.operator "#" ++ Emit.inside .bracket content ++ rest, written⟩ =
      some (some node,
        ⟨rest, (Token.operator "#" ++ Emit.inside .bracket content).reverse ++ written⟩) := by
  have hinside := h.2 [] [] (.inl rfl)
  rw [List.append_nil, List.append_nil] at hinside
  have hgroup : group .bracket (metaItem g false)
      ⟨.group .bracket content :: rest, .punct '#' false :: written⟩ = some (node,
        ⟨rest, .group .bracket content :: .punct '#' false :: written⟩) :=
    group_eq_some.mpr ⟨content, content.reverse, rfl, hinside, by simp⟩
  have hrun : (group .bracket (metaItem g false) >>= fun node => pure (some node))
      ⟨.group .bracket content :: rest, .punct '#' false :: written⟩ = some (some node,
        ⟨rest, .group .bracket content :: .punct '#' false :: written⟩) :=
    bind_of_eq_some hgroup _
  exact hrun

/-- Attributes are read one by one up to something that is none. -/
theorem outerAttrs_reads {contents : List (List Token)} {nodes : List Node}
    (h : List.Forall₂ (ReadsElement (metaItem g false)) contents nodes)
    (hrest : isOp "#" rest = false) :
    outerAttrs g ⟨Emit.attributes contents ++ rest, written⟩ =
      some (nodes, ⟨rest, (Emit.attributes contents).reverse ++ written⟩) := by
  have hrounds : nodes.length ≤ (Emit.attributes contents ++ rest).length ∧
      Rounds (attrRound g) ⟨Emit.attributes contents ++ rest, written⟩ nodes
        ⟨rest, (Emit.attributes contents).reverse ++ written⟩ := by
    induction h generalizing written with
    | nil =>
      refine ⟨Nat.zero_le _, .stop ?_⟩
      change attrRound g ⟨rest, written⟩ = some (none, ⟨rest, written⟩)
      rw [attrRound, peek_bind_apply, if_neg (by simp [hrest])]
      rfl
    | @cons content node contents nodes hhead _ ih =>
      obtain ⟨hlength, hmore⟩ :=
        @ih ((Token.operator "#" ++ Emit.inside .bracket content).reverse ++ written)
      have hsplit : Emit.attributes (content :: contents) ++ rest =
          Token.operator "#" ++ Emit.inside .bracket content ++
            (Emit.attributes contents ++ rest) := by
        rw [Emit.attributes, List.flatMap_cons, List.append_assoc]
        rfl
      refine ⟨?_, hsplit ▸ .next (attrRound_next hhead) ?_⟩
      · rw [hsplit]
        simp only [List.length_append, List.length_cons, Emit.inside] at hlength ⊢
        omega
      · have hwritten : (Emit.attributes (content :: contents)).reverse ++ written =
            (Emit.attributes contents).reverse ++
              ((Token.operator "#" ++ Emit.inside .bracket content).reverse ++ written) := by
          rw [Emit.attributes, List.flatMap_cons, List.reverse_append, List.append_assoc]
          rfl
        rw [hwritten]
        exact hmore
  exact repeated_eq_some.mpr hrounds

/-- The name of a field ends at its colon. -/
theorem fieldHead_reads {contents : List (List Token)} {nodes : List Node} {name : Ident}
    (h : List.Forall₂ (ReadsElement (metaItem g false)) contents nodes)
    (hname : isKeyword name = false) (type : List Token) :
    ∃ written, fieldHead g ⟨Emit.attributes contents ++
        ([Token.word "pub", .ident name] ++ Token.operator ":" ++ type), []⟩ =
      some ((nodes, name), ⟨type, written⟩) := by
  have hvisibility : ∀ written, visibility
      ⟨Token.word "pub" :: .ident name :: .punct ':' false :: type, written⟩ =
        some (.everywhere, ⟨.ident name :: .punct ':' false :: type,
          Token.word "pub" :: written⟩) := fun _ => rfl
  have hident : ∀ written, ident ⟨.ident name :: .punct ':' false :: type, written⟩ =
      some (name, ⟨.punct ':' false :: type, .ident name :: written⟩) := by
    intro written
    rw [ident, peek_bind_apply, isIdent_of_not_keyword hname]
    rfl
  unfold fieldHead
  rw [bind_of_eq_some (outerAttrs_reads h rfl)]
  exact ⟨_, (bind_of_eq_some (hvisibility _) _).trans ((bind_of_eq_some (hident _) _).trans rfl)⟩

/-! ### Arguments -/

/-- What may follow an argument ends the reading of a literal. -/
theorem expr_literal (n : Nat) (text : String) (written : List Token)
    (hrest : EndsElement rest) :
    grammarTo (n + 2) (.expr true) ⟨.literal text :: rest, written⟩ =
      some (.literal text, ⟨rest, .literal text :: written⟩) := by
  obtain rfl | ⟨more, rfl⟩ := hrest
  · rfl
  · rfl

/-- A single word as the path of an attribute. -/
theorem attrPath_reads {name : String} (hname : isKeyword ⟨name⟩ = false)
    (hrest : isOp "::" rest = false) :
    attrPath ⟨Token.word name :: rest, written⟩ =
      some (⟨false, [⟨name⟩]⟩, ⟨rest, Token.word name :: written⟩) := by
  have hunsafe : isWord "unsafe" (Token.word name :: rest) = false := by
    refine beq_eq_false_iff_ne.mpr fun h => ?_
    obtain rfl : name = "unsafe" := h
    exact absurd hname (by decide)
  have hsegment : plainSegment ⟨Token.word name :: rest, written⟩ =
      some (⟨name⟩, ⟨rest, Token.word name :: written⟩) := by
    have hplain : isPlainSegment (Token.word name :: rest) = true :=
      Bool.or_eq_true_iff.mpr (.inl (isIdent_of_not_keyword hname))
    rw [plainSegment, peek_bind_apply, hplain]
    rfl
  have hothers : many (isOp "::") (do op "::"; plainSegment)
      ⟨rest, Token.word name :: written⟩ = some ([], ⟨rest, Token.word name :: written⟩) :=
    many_apply_false hrest
  have hplain : (plainSegment >>= fun first =>
      many (isOp "::") (do op "::"; plainSegment) >>= fun others =>
        pure (PlainPath.mk false (first :: others))) ⟨Token.word name :: rest, written⟩ =
      some (⟨false, [⟨name⟩]⟩, ⟨rest, Token.word name :: written⟩) :=
    (bind_of_eq_some hsegment _).trans (bind_of_eq_some hothers _)
  rw [attrPath, peek_bind_apply, hunsafe]
  exact hplain

/-- A word is read as a flag. -/
theorem flag_reads (g : Grammar) {name : String} (hname : isKeyword ⟨name⟩ = false) :
    ReadsElement (metaItem g false) [Token.word name] (flag name) := by
  refine ⟨List.cons_ne_nil _ _, fun rest written hrest => ?_⟩
  obtain rfl | ⟨more, rfl⟩ := hrest
  · exact (bind_of_eq_some (attrPath_reads hname rfl) _).trans rfl
  · exact (bind_of_eq_some (attrPath_reads hname rfl) _).trans rfl

/-- A word with parentheses behind it is read with its arguments. -/
theorem withArguments_reads (g : Grammar) {name : String} (hname : isKeyword ⟨name⟩ = false)
    (body : List Token) :
    ReadsElement (metaItem g false) (Token.word name :: Emit.inside .paren body)
      (withArguments name body) :=
  ⟨List.cons_ne_nil _ _, fun _ _ _ => (bind_of_eq_some (attrPath_reads hname rfl) _).trans rfl⟩

theorem literal_reads (n : Nat) (text : String) :
    ReadsElement (grammarTo (n + 2) (.expr true)) [.literal text] (.literal text) :=
  ⟨List.cons_ne_nil _ _, fun _ written hrest => expr_literal n text written hrest⟩

/-- A word with a value, in an attribute of what follows or of the surroundings. -/
theorem setting_reads {inner : Bool} {name text : String} (hname : isKeyword ⟨name⟩ = false)
    (hvalue : ReadsElement (g (.expr true)) [.string text]
      (.literal (Text.Quoted.encode text))) :
    ReadsElement (metaItem g inner) (Token.word name :: Token.operator "=" ++ [.string text])
      (.attrValue inner ⟨false, [⟨name⟩]⟩ (.literal (Text.Quoted.encode text))) := by
  refine ⟨List.cons_ne_nil _ _, fun rest written hrest => ?_⟩
  have hread := hvalue.2 rest (.punct '=' false :: Token.word name :: written) hrest
  have hrun : (g (.expr true) >>= fun value =>
      pure (Node.attrValue inner ⟨false, [⟨name⟩]⟩ value))
      ⟨.string text :: rest, .punct '=' false :: Token.word name :: written⟩ = some
        (.attrValue inner ⟨false, [⟨name⟩]⟩ (.literal (Text.Quoted.encode text)),
          ⟨rest, .string text :: .punct '=' false :: Token.word name :: written⟩) :=
    bind_of_eq_some hread _
  exact (bind_of_eq_some (attrPath_reads hname rfl) _).trans hrun

end Source

/-! ## The annotations of a field -/

namespace Emit

open ActionUnits.Token (word operator)
open Source (Node WrittenField)

/-- The arguments that tell how a field is serialized, as the grammar reads them. -/
def serdeNodes (field : Field) : List Node :=
  (match field.rename with
    | some name => [Source.setting "rename" (.literal (Text.Quoted.encode name))]
    | none => []) ++
  (if field.required then [] else [Source.flag "default"])

/-- The attributes of a field, by what stands between their brackets. -/
def fieldContents (field : Field) : List (List Token) :=
  (match serdeArguments field with
    | [] => []
    | arguments => [word "serde" :: inside .paren (commaSeparated arguments)]) ++
  (if field.sqlExpr then [word "action" :: inside .paren [word "sql_expr"]] else [])

/-- The attributes of a field, as the grammar reads them. -/
def fieldNodes (field : Field) : List Node :=
  (match serdeArguments field with
    | [] => []
    | arguments => [Source.withArguments "serde" (commaSeparated arguments)]) ++
  (if field.sqlExpr then [Source.withArguments "action" [word "sql_expr"]] else [])

/-- The tokens of a field are its attributes, its name and its type. -/
theorem fieldTokens_eq (field : Field) :
    fieldTokens field = attributes (fieldContents field) ++
      ([word "pub", .ident field.ident] ++ operator ":" ++ field.type.tokens) := by
  unfold fieldTokens fieldContents serdeAttr sqlAttr
  cases serdeArguments field <;> cases field.sqlExpr <;> rfl

/-- The arguments for serialization are read one by one. -/
theorem serdeArguments_read (n : Nat) (field : Field) :
    List.Forall₂ (Source.ReadsElement (Source.metaItem (Source.grammarTo (n + 2)) false))
      (serdeArguments field) (serdeNodes field) := by
  have hdefault : Source.ReadsElement (Source.metaItem (Source.grammarTo (n + 2)) false)
      [word "default"] (Source.flag "default") :=
    Source.flag_reads _ (by decide)
  unfold serdeArguments serdeNodes
  refine List.rel_append ?_ ?_
  · cases field.rename with
    | none => exact .nil
    | some name => exact .cons (Source.setting_reads (by decide) (Source.literal_reads n _)) .nil
  · cases field.required with
    | false => exact .cons hdefault .nil
    | true => exact .nil

/-- What stands in the attributes of a field is read one by one. -/
theorem fieldContents_read (g : Source.Grammar) (field : Field) :
    List.Forall₂ (Source.ReadsElement (Source.metaItem g false))
      (fieldContents field) (fieldNodes field) := by
  unfold fieldContents fieldNodes
  refine List.rel_append ?_ ?_
  · cases serdeArguments field with
    | nil => exact .nil
    | cons _ _ => exact .cons (Source.withArguments_reads g rfl _) .nil
  · cases field.sqlExpr with
    | false => exact .nil
    | true => exact .cons (Source.withArguments_reads g rfl _) .nil

/-- A field is read back: its attributes, its name and the tokens of its type. -/
theorem readField?_fieldTokens {field : Field} (hident : Source.isKeyword field.ident = false) :
    Source.readField? (fieldTokens field) =
      some ⟨fieldNodes field, field.ident, field.type.tokens⟩ := by
  obtain ⟨written, hread⟩ := Source.fieldHead_reads
    (fieldContents_read (Source.grammarTo (Source.depthFor (fieldTokens field))) field) hident
    field.type.tokens
  rw [← fieldTokens_eq] at hread
  rw [Source.readField?, hread]
  rfl

theorem readArguments?_serdeArguments (field : Field) :
    Source.readArguments? (commaSeparated (serdeArguments field)) =
      some ⟨serdeNodes field, commaSeparated (serdeArguments field)⟩ := by
  have hread := Source.commaList_reads (serdeArguments_read
    (16 * Token.sizeAll (commaSeparated (serdeArguments field)) + 14) field) []
  rw [List.append_nil] at hread
  have hrun : Source.readArguments? (commaSeparated (serdeArguments field)) = _ :=
    Source.readAll?_of_run hread
  rwa [List.reverse_reverse] at hrun

theorem readArguments?_sqlExpr :
    Source.readArguments? [word "sql_expr"] =
      some ⟨[Source.flag "sql_expr"], [word "sql_expr"]⟩ := rfl

/-! ### What the attributes tell -/

/-- The attributes of a field are those for serialization and for marking it, if they have something
to say. -/
theorem withArguments_mem_fieldNodes {field : Field} {name : String} {body : List Token} :
    Source.withArguments name body ∈ fieldNodes field ↔
      (name = "serde" ∧ body = commaSeparated (serdeArguments field) ∧
        serdeArguments field ≠ []) ∨
      (name = "action" ∧ body = [word "sql_expr"] ∧ field.sqlExpr = true) := by
  have hinj : ∀ other tokens, Source.withArguments name body = Source.withArguments other tokens ↔
      name = other ∧ body = tokens := by
    intro other tokens
    constructor
    · intro h
      injection h with _ hpath _ hbody
      injection hpath with _ hnames
      injection hnames with hident _
      exact ⟨congrArg Ident.text hident, hbody⟩
    · rintro ⟨rfl, rfl⟩
      rfl
  unfold fieldNodes
  cases hserde : serdeArguments field with
  | nil => cases field.sqlExpr <;> simp [hinj]
  | cons _ _ => cases field.sqlExpr <;> simp [hinj]

/-- The arguments of the first attribute, if it is written. -/
theorem hasArgument_serde {field : Field} {argument : Node} :
    WrittenField.HasArgument ⟨fieldNodes field, field.ident, field.type.tokens⟩ "serde" argument ↔
      argument ∈ serdeNodes field := by
  have hread := readArguments?_serdeArguments field
  constructor
  · rintro ⟨body, arguments, hattr, harguments, hmem⟩
    obtain ⟨-, rfl, -⟩ | ⟨hname, -, -⟩ := withArguments_mem_fieldNodes.mp hattr
    · obtain rfl := Option.some.inj (hread.symm.trans harguments)
      exact hmem
    · exact absurd hname (by decide)
  · intro hmem
    -- Without arguments the attribute is not written.
    have hne : serdeArguments field ≠ [] := by
      intro hnil
      have hlength := (serdeArguments_read 0 field).length_eq
      rw [hnil] at hlength
      rw [List.eq_nil_of_length_eq_zero hlength.symm] at hmem
      cases hmem
    exact ⟨_, _, withArguments_mem_fieldNodes.mpr (.inl ⟨rfl, rfl, hne⟩), hread, hmem⟩

/-- The arguments of the second attribute, if it is written. -/
theorem hasArgument_action {field : Field} {argument : Node} :
    WrittenField.HasArgument ⟨fieldNodes field, field.ident, field.type.tokens⟩ "action" argument ↔
      argument = Source.flag "sql_expr" ∧ field.sqlExpr = true := by
  constructor
  · rintro ⟨body, arguments, hattr, harguments, hmem⟩
    obtain ⟨hname, -, -⟩ | ⟨-, rfl, hsql⟩ := withArguments_mem_fieldNodes.mp hattr
    · exact absurd hname (by decide)
    · obtain rfl := Option.some.inj (readArguments?_sqlExpr.symm.trans harguments)
      exact ⟨List.mem_singleton.mp hmem, hsql⟩
  · rintro ⟨rfl, hsql⟩
    exact ⟨_, _, withArguments_mem_fieldNodes.mpr (.inr ⟨rfl, rfl, hsql⟩),
      readArguments?_sqlExpr, List.mem_singleton_self _⟩

/-- A field has a default exactly if it need not be given. -/
theorem flag_mem_serdeNodes {field : Field} :
    Source.flag "default" ∈ serdeNodes field ↔ field.required = false := by
  unfold serdeNodes
  cases field.rename <;> cases field.required <;> simp [Source.flag, Source.setting]

/-- A field is renamed exactly to the text that it maps to. -/
theorem setting_mem_serdeNodes {field : Field} {value : Node} :
    Source.setting "rename" value ∈ serdeNodes field ↔
      ∃ name, field.rename = some name ∧ value = .literal (Text.Quoted.encode name) := by
  unfold serdeNodes
  cases field.rename <;> cases field.required <;> simp [Source.flag, Source.setting]

end Emit

/-- What is written of a field tells how it is renamed, and whether it is required and marked. -/
structure Source.WrittenField.Tells (written : WrittenField) (rename : Option String)
    (required sqlExpr : Bool) : Prop where
  default_iff : written.HasArgument "serde" (flag "default") ↔ required = false
  rename_iff : (∃ value, written.HasArgument "serde" (setting "rename" value)) ↔
    rename.isSome = true
  /-- The value of the name is a literal, and denotes the name. -/
  rename_denotes : ∀ value, written.HasArgument "serde" (setting "rename" value) →
    ∃ literal name, value = .literal literal ∧ rename = some name ∧ Emit.Denotes literal name
  sqlExpr_iff : written.HasArgument "action" (flag "sql_expr") ↔ sqlExpr = true

namespace Source.WrittenField.Tells

variable {written : WrittenField} {rename rename' : Option String}
  {required required' sqlExpr sqlExpr' : Bool}

/-- Annotations that are told by the same field are the same. -/
theorem unique (h : written.Tells rename required sqlExpr)
    (h' : written.Tells rename' required' sqlExpr') :
    rename = rename' ∧ required = required' ∧ sqlExpr = sqlExpr' := by
  have hsome := h.rename_iff.symm.trans h'.rename_iff
  refine ⟨?_, ?_, ?_⟩
  · cases rename with
    | none =>
      cases rename' with
      | none => rfl
      | some name => exact absurd (hsome.mpr rfl) (by simp)
    | some name =>
      obtain ⟨value, hvalue⟩ := h.rename_iff.mpr rfl
      obtain ⟨literal, _, rfl, hname, -, hdecode⟩ := h.rename_denotes value hvalue
      obtain ⟨_, name', hliteral, rfl, -, hdecode'⟩ := h'.rename_denotes _ hvalue
      injection hliteral with hliteral
      rw [← hliteral, hdecode] at hdecode'
      exact hname.trans hdecode'
  · have hfalse := h.default_iff.symm.trans h'.default_iff
    revert hfalse
    cases required <;> cases required' <;> simp
  · have htrue := h.sqlExpr_iff.symm.trans h'.sqlExpr_iff
    revert htrue
    cases sqlExpr <;> cases sqlExpr' <;> simp

end Source.WrittenField.Tells

theorem Emit.fieldTokens_tell {field : Field} (hident : Source.isKeyword field.ident = false) :
    ∃ written, Source.readField? (fieldTokens field) = some written ∧
      written.name = field.ident ∧ written.type = field.type.tokens ∧
      written.Tells field.rename field.required field.sqlExpr := by
  refine ⟨_, readField?_fieldTokens hident, rfl, rfl, ?_⟩
  constructor
  · rw [hasArgument_serde, flag_mem_serdeNodes]
  · simp only [hasArgument_serde, setting_mem_serdeNodes, Option.isSome_iff_exists]
    exact ⟨fun ⟨_, name, hname, _⟩ => ⟨name, hname⟩, fun ⟨name, hname⟩ => ⟨_, name, hname, rfl⟩⟩
  · intro value hvalue
    rw [hasArgument_serde, setting_mem_serdeNodes] at hvalue
    obtain ⟨name, hname, rfl⟩ := hvalue
    exact ⟨_, name, rfl, hname, denotes_encode name⟩
  · rw [hasArgument_action]
    exact and_iff_right rfl

namespace Synthesis

variable {actionId : String} {param : Param} {field : Field}

/-- A field that is read has the annotations of its parameter. -/
theorem field_eq_ok (h : Synthesis.field actionId param = .ok field) :
    ∃ ident type, paramIdent actionId param = .ok ident ∧
      field = ⟨ident, type, param.mappedName, param.isRequired, param.isSqlExpr⟩ := by
  unfold Synthesis.field at h
  cases hident : paramIdent actionId param with
  | error e => rw [hident] at h; cases h
  | ok ident =>
    rw [hident] at h
    simp only [bind, Except.bind] at h
    split at h
    · cases h
    · exact ⟨ident, _, rfl, (Except.ok.inj h).symm⟩

theorem field_not_keyword (h : Synthesis.field actionId param = .ok field) :
    Source.isKeyword field.ident = false := by
  obtain ⟨ident, type, hident, rfl⟩ := field_eq_ok h
  exact (readIdent_eq_ok_iff.mp hident).2

/-- The tokens of a field are read back as its name, its type and its annotations, which are those
of the parameter that it came from; so fields that are written alike have the same annotations. -/
theorem field_keeps_annotations (h : Synthesis.field actionId param = .ok field) :
    (∃ written, Source.readField? (Emit.fieldTokens field) = some written ∧
      written.name = field.ident ∧ written.type = field.type.tokens ∧
      written.Tells param.mappedName param.isRequired param.isSqlExpr) ∧
    ∀ (otherId : String) (otherParam : Param) (other : Field),
      Synthesis.field otherId otherParam = .ok other →
      Emit.fieldTokens other = Emit.fieldTokens field →
      other.ident = field.ident ∧ other.type.tokens = field.type.tokens ∧
        other.rename = field.rename ∧ other.required = field.required ∧
        other.sqlExpr = field.sqlExpr := by
  obtain ⟨written, hread, hname, htype, htells⟩ := Emit.fieldTokens_tell (field_not_keyword h)
  constructor
  · obtain ⟨_, _, -, rfl⟩ := field_eq_ok h
    exact ⟨written, hread, hname, htype, htells⟩
  intro otherId otherParam other hother htokens
  -- Both fields are read back from the same tokens.
  obtain ⟨written', hread', hname', htype', htells'⟩ :=
    Emit.fieldTokens_tell (field_not_keyword hother)
  rw [htokens, hread] at hread'
  obtain rfl := Option.some.inj hread'
  exact ⟨hname'.symm.trans hname, htype'.symm.trans htype, htells'.unique htells⟩

/-- A marked field that may be left out, renamed to a text with a quote, a backslash, and a NUL
before a digit. -/
theorem renamed_field_keeps_annotations :
    ∃ field written, Synthesis.field "f"
        ⟨"r#type", "Option<Vec<u8>>", some "\"\\\x007é", false, true, false, false⟩ = .ok field ∧
      Source.readField? (Emit.fieldTokens field) = some written ∧
      written.Tells (some "\"\\\x007é") false true := by
  have hok : (Synthesis.field "f"
      ⟨"r#type", "Option<Vec<u8>>", some "\"\\\x007é", false, true, false, false⟩).isOk = true := by
    decide +kernel
  cases hfield : Synthesis.field "f"
      ⟨"r#type", "Option<Vec<u8>>", some "\"\\\x007é", false, true, false, false⟩ with
  | error e => rw [hfield] at hok; cases hok
  | ok field =>
    obtain ⟨⟨written, hread, -, -, htells⟩, -⟩ := field_keeps_annotations hfield
    exact ⟨field, written, rfl, hread, htells⟩

end Synthesis

end ActionUnits
