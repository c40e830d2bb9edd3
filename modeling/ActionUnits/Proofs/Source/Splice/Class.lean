import ActionUnits.Proofs.Source.Splice.Method

/-! # Generated types

A generated type is a struct with a field for each parameter and an implementation
with three methods. Their names and what they are made of was read before, so the
two items can be read wherever they stand.
-/

namespace ActionUnits.Source

open ActionUnits.Emit (appliedTwice attributes comma commaSeparated docContent inside
  methodHead outputTypes)

variable {tokens u : List Token} {ty : Node} {name : Ident}

/-! ## Types with arguments -/

theorem SpellsType.of_applied {text : String} (hname : isKeyword ⟨text⟩ = false)
    (h : SpellsType tokens ty) :
    SpellsType (Emit.applied text tokens) (appliedNode ⟨text⟩ ty) :=
  h.applied hname false

/-- The inner type ends at a bracket that touches the next one. -/
theorem SpellsType.of_appliedTwice {outer inner : String} (houter : isKeyword ⟨outer⟩ = false)
    (hinner : isKeyword ⟨inner⟩ = false) (h : SpellsType tokens ty) :
    SpellsType (appliedTwice outer inner tokens)
      (appliedNode ⟨outer⟩ (appliedNode ⟨inner⟩ ty)) := by
  have htokens : appliedTwice outer inner tokens = .ident ⟨outer⟩ :: .punct '<' false ::
      (.ident ⟨inner⟩ :: .punct '<' false :: (tokens ++ [.punct '>' true]) ++
        [.punct '>' false]) := by
    simp only [List.cons_append, List.append_assoc]
    rfl
  rw [htokens]
  exact (h.applied hinner true).applied houter false

/-! ## Structs -/

/-- The texts that document a generated type. -/
def classTexts (config : EmitConfig) (decl : ClassDecl) : List String :=
  let description := match decl.description with
    | some text => "" :: (Text.lines text.toList).map fun line => " " ++ String.ofList line
    | none => []
  if config.generateDocs then s!" Action `{decl.discriminator}`." :: description else []

/-- The traits that generated types derive, as the arguments of the attribute. -/
def derivedTraits (extra : List (List Token)) : List Token :=
  commaSeparated ([[Token.word "Debug"], [Token.word "Clone"], [Token.word "PartialEq"],
    Token.operator "::" ++ Emit.pathTo ["serde", "Serialize"],
    Token.operator "::" ++ Emit.pathTo ["serde", "Deserialize"],
    [Token.word "ActionParams"]] ++ extra)

/-- The attributes of a generated type, by what stands between their brackets. -/
def classContents (config : EmitConfig) (extra : List (List Token)) (decl : ClassDecl) :
    List (List Token) :=
  (classTexts config decl).map docContent ++
    [Token.word "derive" :: inside .paren (derivedTraits extra)]

/-- The attributes of a generated type, as the grammar reads them. -/
def classAttrs (config : EmitConfig) (extra : List (List Token)) (decl : ClassDecl) : List Node :=
  (classTexts config decl).map (docNode false) ++ [withArguments "derive" (derivedTraits extra)]

/-- The attributes of a class are read one by one. -/
theorem classContents_read (config : EmitConfig) (extra : List (List Token)) (decl : ClassDecl) :
    List.Forall₂ (ReadsElement (metaItem grammar false)) (classContents config extra decl)
      (classAttrs config extra decl) :=
  List.rel_append (docs_read _) (.cons (withArguments_reads _ (by decide) _) .nil)

/-- A struct with named fields stands among items. -/
theorem struct_stands {contents parts : List (List Token)} {attrs fields : List Node}
    (hname : isKeyword name = false)
    (hattrs : List.Forall₂ (ReadsElement (metaItem grammar false)) contents attrs)
    (hfields : List.Forall₂ (fun part e => ∀ rest, Reads (namedField grammar)
      (part ++ .punct ',' false :: rest) e (.punct ',' false :: rest)) parts fields) :
    Stands (grammar .item) (attributes contents ++ [.word "pub", .word "struct", .ident name,
        .group .brace (parts.flatMap fun part => part ++ [.punct ',' false])])
      (structNode attrs name (.namedFields fields)) := by
  refine ⟨List.append_ne_nil_of_right_ne_nil _ (List.cons_ne_nil _ _), fun rest => ?_⟩
  rw [List.append_assoc]
  exact item_reads hattrs rfl fun start =>
    fieldStruct_reads hname (commaList_reads_closed hfields) start attrs

/-! ## Methods -/

/-- The method for the id stands in an implementation. -/
theorem id_stands (text : String) :
    Stands (implItem grammar)
      (methodHead "id" []
        (Token.operator "&" ++ [.punct '\'' true, Token.word "static", Token.word "str"]) ++
        inside .brace [.string text])
      (methodNode ⟨"id"⟩ [] textType (exprBlock (.literal (Text.Quoted.encode text)))) :=
  getter_stands "id" (by decide) (fun _ => textType_reads) fun _ => block_reads_literal _

/-- The method for the references stands in an implementation. -/
theorem aliases_stands {aliases : AliasExpr}
    (hfields : ∀ field ∈ aliases.fields, isKeyword field = false) :
    Stands (implItem grammar)
      (methodHead "input_aliases" [] (Emit.applied "Vec" [Token.word "String"]) ++
        inside .brace (Emit.aliasTokens aliases))
      (methodNode ⟨"input_aliases"⟩ [] (appliedNode ⟨"Vec"⟩ (.ofIdent ⟨"String"⟩))
        (exprBlock (aliasNode aliases))) := by
  have houtput : SpellsType (Emit.applied "Vec" [.word "String"])
      (appliedNode ⟨"Vec"⟩ (.ofIdent ⟨"String"⟩)) :=
    .of_applied (by decide) (spellsType_name (by decide))
  exact getter_stands "input_aliases" (by decide) (fun _ => houtput.reads _ rfl)
    fun _ => block_reads_aliases hfields

def inputsTokens (dataset : List Token) : List Token :=
  [.word "inputs"] ++ Token.operator ":" ++ Token.operator "&" ++ Emit.applied "Inputs" dataset

theorem inputsTokens_append (dataset rest : List Token) :
    inputsTokens dataset ++ rest = .word "inputs" :: .punct ':' false :: .punct '&' false ::
      .word "Inputs" :: .punct '<' false :: dataset ++ .punct '>' false :: rest := by
  simp only [inputsTokens, Emit.applied, List.append_assoc, List.cons_append, List.nil_append]
  rfl

/-- The inputs are the only parameter besides the receiver. -/
theorem transformParams_reads (h : SpellsType tokens ty) :
    Reads (commaList (functionParam grammar))
      (.punct '&' false :: .word "self" :: (comma ++ inputsTokens tokens))
      (closedParams [selfNode, inputsNode ty]) [] := by
  have hself : ∀ rest, EndsElement rest → Reads (functionParam grammar)
      ([.punct '&' false, .word "self"] ++ rest) (false, selfNode) rest :=
    fun _ => self_reads
  have hinputs : ∀ rest, EndsElement rest → Reads (functionParam grammar)
      (inputsTokens tokens ++ rest) (false, inputsNode ty) rest := by
    intro rest hrest
    rw [inputsTokens_append]
    exact inputs_reads h hrest
  have hlist := commaList_reads_between (.cons ⟨List.cons_ne_nil _ _, hself⟩
    (.cons (a := inputsTokens tokens) ⟨List.cons_ne_nil _ _, hinputs⟩ .nil))
  rw [commaSeparated_cons_cons, commaSeparated, List.intercalate_singleton] at hlist
  exact hlist

/-- The method for the body stands in an implementation. -/
theorem transform_stands {output : Node} {outputTokens : List Token} {block : Fragment Node}
    (h : SpellsType tokens ty) (houtput : SpellsType outputTokens output)
    (hblock : readBlock? u = some block) :
    Stands (implItem grammar)
      (methodHead "transform" (comma ++ inputsTokens tokens) outputTokens ++ block.tokens)
      (methodNode ⟨"transform"⟩ [inputsNode ty] output block.value) := by
  obtain ⟨body, hbody⟩ := Emit.readBlock?_tokens hblock
  have hread := block_reads_of_readBlock? hblock
  rw [hbody] at hread ⊢
  refine method_stands "transform" (by decide) ?_ (transformParams_reads h)
    (fun _ => houtput.reads _ rfl) hread
  exact fun other hother => by
    obtain rfl := List.mem_singleton.mp hother
    rfl

/-! ## Generated types -/

/-- What a generated type is made of was read, and its names are no keywords. -/
structure Spelled (decl : ClassDecl) : Prop where
  ident : isKeyword decl.ident = false
  dataset : SpellsType decl.datasetType.tokens decl.datasetType.value
  fields : ∀ field ∈ decl.fields,
    isKeyword field.ident = false ∧ SpellsType field.type.tokens field.type.value
  body : ∃ tokens, readBlock? tokens = some decl.body
  aliases : ∀ field ∈ decl.inputAliases.fields, isKeyword field = false

/-- The type of what an action puts out. -/
def outputNode (decl : ClassDecl) : Node :=
  appliedNode ⟨"TransformResult"⟩ <| match decl.arity with
    | .single => decl.datasetType.value
    | .multi => appliedNode ⟨"Outputs"⟩ decl.datasetType.value

/-- The methods of a generated type: its id, its input aliases and its transformation. -/
def methodNodes (decl : ClassDecl) : List Node :=
  [methodNode ⟨"id"⟩ [] textType (exprBlock (.literal (Text.Quoted.encode decl.discriminator))),
    methodNode ⟨"input_aliases"⟩ [] (appliedNode ⟨"Vec"⟩ (.ofIdent ⟨"String"⟩))
      (exprBlock (aliasNode decl.inputAliases)),
    methodNode ⟨"transform"⟩ [inputsNode decl.datasetType.value] (outputNode decl)
      decl.body.value]

/-- The items of a generated type: a struct and an implementation. -/
def classNodes (config : EmitConfig) (extra : List (List Token)) (decl : ClassDecl) : List Node :=
  [structNode (classAttrs config extra decl) decl.ident (.namedFields (decl.fields.map fieldNode)),
    implNode ⟨Emit.TypeLayout.trait decl.arity⟩ decl.datasetType.value decl.ident
      (methodNodes decl)]

/-- The tokens of the methods of a generated type. -/
def methodParts (decl : ClassDecl) : List (List Token) :=
  [methodHead "id" [] (Token.operator "&" ++ [.punct '\'' true, .word "static", .word "str"]) ++
      inside .brace [.string decl.discriminator],
    methodHead "input_aliases" [] (Emit.applied "Vec" [.word "String"]) ++
      inside .brace (Emit.aliasTokens decl.inputAliases),
    methodHead "transform" (comma ++ inputsTokens decl.datasetType.tokens) (outputTypes decl).2 ++
      decl.body.tokens]

/-- The tokens of the items of a generated type. -/
def classParts (config : EmitConfig) (extra : List (List Token)) (decl : ClassDecl) :
    List (List Token) :=
  [attributes (classContents config extra decl) ++ [.word "pub", .word "struct", .ident decl.ident,
      .group .brace ((decl.fields.map Emit.fieldTokens).flatMap fun part =>
        part ++ [.punct ',' false])],
    .word "impl" :: (Emit.applied (outputTypes decl).1 decl.datasetType.tokens ++
      [.word "for", .ident decl.ident, .group .brace (methodParts decl).flatten])]

theorem implTokens_eq (decl : ClassDecl) :
    Emit.implTokens decl = .word "impl" ::
      (Emit.applied (outputTypes decl).1 decl.datasetType.tokens ++
        [.word "for", .ident decl.ident, .group .brace (methodParts decl).flatten]) := by
  have hmethods : (methodParts decl).flatten =
      methodHead "id" [] (Token.operator "&" ++ [.punct '\'' true, .word "static", .word "str"]) ++
          inside .brace [.string decl.discriminator] ++
        methodHead "input_aliases" [] (Emit.applied "Vec" [.word "String"]) ++
          inside .brace (Emit.aliasTokens decl.inputAliases) ++
        methodHead "transform" (comma ++ [.word "inputs"] ++ Token.operator ":" ++
          Token.operator "&" ++ Emit.applied "Inputs" decl.datasetType.tokens)
          (outputTypes decl).2 ++ decl.body.tokens := by
    simp only [methodParts, inputsTokens, List.flatten_cons, List.flatten_nil, List.append_assoc,
      List.append_nil]
  rw [Emit.implTokens, hmethods, ← List.cons_append]
  exact List.append_assoc _ _ _

/-- The tokens of a class are its parts one after the other. -/
theorem classTokens_eq_flatten (config : EmitConfig) (extra : List (List Token))
    (decl : ClassDecl) :
    Emit.classTokens config extra decl = (classParts config extra decl).flatten := by
  have hdocs : (if config.generateDocs then Emit.classDocs decl else []) =
      attributes ((classTexts config decl).map docContent) := by
    rw [← Emit.flatMap_docAttr, classTexts, Emit.classDocs]
    split <;> rfl
  have hderive : Emit.deriveAttr extra =
      attributes [.word "derive" :: inside .paren (derivedTraits extra)] :=
    (List.append_nil _).symm
  rw [Emit.classTokens, hdocs, Emit.structTokens, hderive, implTokens_eq, classParts, classContents,
    Emit.attributes_append, List.flatMap_map]
  simp only [List.append_assoc, List.flatten_cons, List.flatten_nil, List.append_nil]
  rfl

/-- The output type of a class is spelled as one type. -/
theorem spellsType_output {decl : ClassDecl}
    (h : SpellsType decl.datasetType.tokens decl.datasetType.value) :
    SpellsType (outputTypes decl).2 (outputNode decl) := by
  unfold outputTypes outputNode
  cases decl.arity with
  | single => exact h.of_applied (by decide)
  | multi => exact h.of_appliedTwice (by decide) (by decide)

/-- Every method of a class stands in its implementation. -/
theorem methods_stand {decl : ClassDecl} (h : Spelled decl) :
    List.Forall₂ (Stands (implItem grammar)) (methodParts decl) (methodNodes decl) := by
  obtain ⟨tokens, hblock⟩ := h.body
  refine .cons (id_stands _) (.cons (aliases_stands h.aliases) (.cons ?_ .nil))
  exact transform_stands h.dataset (spellsType_output h.dataset) hblock

/-- Every part of a class stands among items. -/
theorem class_stands (config : EmitConfig) (extra : List (List Token)) {decl : ClassDecl}
    (h : Spelled decl) :
    List.Forall₂ (Stands (grammar .item)) (classParts config extra decl)
      (classNodes config extra decl) := by
  have hfields : List.Forall₂ (fun part e => ∀ rest, Reads (namedField grammar)
      (part ++ .punct ',' false :: rest) e (.punct ',' false :: rest))
      (decl.fields.map Emit.fieldTokens) (decl.fields.map fieldNode) := by
    rw [List.forall₂_map_left_iff, List.forall₂_map_right_iff, List.forall₂_same]
    intro field hfield rest
    obtain ⟨hname, htype⟩ := h.fields field hfield
    exact field_reads hname htype
  have htrait : isKeyword ⟨Emit.TypeLayout.trait decl.arity⟩ = false := by
    cases decl.arity <;> decide
  have hstruct := struct_stands h.ident (classContents_read config extra decl) hfields
  refine .cons hstruct (.cons ?_ .nil)
  rw [Emit.outputTypes_fst]
  exact impl_stands htrait h.ident h.dataset rfl (methods_stand h)

end ActionUnits.Source
