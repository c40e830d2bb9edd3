import ActionUnits.Proofs.Aliases

/-! # Which fields an accessor refers to

The names of parameters are read twice: once for the fields of a type, in the
order of the parameters, and once for its accessor, in two passes over those
parameters that refer to datasets. Both readings give the same identifiers, so
the accessor refers to fields that are there, and its step cannot fail where the
fields have been read.
-/

namespace ActionUnits

/-! ## References in tokens -/

namespace Token

mutual

/-- The fields that follow `self` inside of a token, from left to right. -/
def fieldsInside : Token → List Ident
  | .group _ body => selfFields body
  | _ => []

/-- The fields that follow `self` in a sequence of tokens, from left to right. -/
def selfFields : List Token → List Ident
  | .ident ⟨"self"⟩ :: .punct '.' _ :: .ident field :: rest => field :: selfFields rest
  | token :: rest => fieldsInside token ++ selfFields rest
  | [] => []

end

/-- Tokens that refer to the given fields, whatever follows them. -/
def RefersTo (tokens : List Token) (fields : List Ident) : Prop :=
  ∀ rest, selfFields (tokens ++ rest) = fields ++ selfFields rest

theorem RefersTo.selfFields_eq {tokens : List Token} {fields : List Ident}
    (h : RefersTo tokens fields) : selfFields tokens = fields := by
  have hnil := h []
  rwa [List.append_nil, selfFields, List.append_nil] at hnil

/-- Parts with commas between them refer to what they refer to one by one. -/
theorem RefersTo.commaSeparated {α : Type} {tokens : α → List Token} {fields : α → List Ident}
    {parts : List α} (h : ∀ part ∈ parts, RefersTo (tokens part) (fields part)) :
    selfFields (Emit.commaSeparated (parts.map tokens)) = parts.flatMap fields := by
  induction parts with
  | nil => rfl
  | cons part parts ih =>
      obtain ⟨hpart, hparts⟩ := List.forall_mem_cons.mp h
      cases parts with
      | nil =>
          rw [List.map_singleton, List.flatMap_singleton, Emit.commaSeparated,
            List.intercalate_singleton]
          exact hpart.selfFields_eq
      | cons next parts =>
          have hcomma : ∀ rest, selfFields (.punct ',' false :: rest) = selfFields rest :=
            fun rest => rfl
          rw [List.map_cons, List.map_cons, Source.commaSeparated_cons_cons, hpart, hcomma,
            ← List.map_cons, ih hparts]
          rfl

end Token

namespace AliasExpr

open Token (RefersTo selfFields)

/-- The fields of an expression are those of its operands, in order. -/
theorem fields_eq_flatMap_operands (e : AliasExpr) : e.fields = e.operands.flatMap fields := by
  induction e with
  | append left right ihl ihr => rw [fields, operands, List.flatMap_append, ihl, ihr]
  | _ => exact (List.append_nil _).symm

/-- A cloned field refers to that field. -/
theorem clonedField_refersTo (field : Ident) :
    RefersTo (Emit.selfField field ++ Emit.methodCall "clone") [field] :=
  fun _ => rfl

/-- The tokens of a leaf refer to the fields of the leaf. -/
theorem aliasLeaf_refersTo {leaf : AliasExpr} (h : ∀ left right, leaf ≠ .append left right) :
    RefersTo (Emit.aliasLeaf leaf) leaf.fields := by
  cases leaf with
  | empty => exact fun _ => rfl
  | seq names =>
      intro rest
      have hnames : selfFields (Emit.commaSeparated
          (names.map fun field => Emit.selfField field ++ Emit.methodCall "clone")) = names := by
        rw [RefersTo.commaSeparated fun field _ => clonedField_refersTo field]
        exact List.flatMap_singleton' names
      exact congrArg (· ++ selfFields rest) hnames
  | orEmpty field => exact fun _ => rfl
  | append left right => exact absurd rfl (h left right)

/-- The tokens of an alias expression refer to its fields, in order. -/
theorem selfFields_aliasTokens (e : AliasExpr) : selfFields (Emit.aliasTokens e) = e.fields := by
  cases e with
  | append left right =>
      have hoperands : selfFields (Emit.commaSeparated
          ((AliasExpr.append left right).operands.map Emit.aliasLeaf)) =
          (AliasExpr.append left right).fields := by
        rw [fields_eq_flatMap_operands]
        apply RefersTo.commaSeparated
        intro leaf hleaf
        exact aliasLeaf_refersTo (ne_append_of_mem_operands hleaf)
      exact (congrArg (· ++ []) hoperands).trans (List.append_nil _)
  | empty => exact (@aliasLeaf_refersTo .empty nofun).selfFields_eq
  | seq names => exact (@aliasLeaf_refersTo (.seq names) nofun).selfFields_eq
  | orEmpty field => exact (@aliasLeaf_refersTo (.orEmpty field) nofun).selfFields_eq

end AliasExpr

namespace Synthesis

variable {action : Action} {fields : List Field}

/-! ## Two readings of names -/

/-- The identifiers of the fields whose parameters have a flag. -/
def flaggedFields (flag : Param → Bool) (params : List Param) (fields : List Field) : List Ident :=
  ((params.zip fields).filter (flag ·.1)).map (·.2.ident)

theorem field_ident {actionId : String} {param : Param} {decl : Field}
    (h : field actionId param = .ok decl) : paramIdent actionId param = .ok decl.ident := by
  unfold field at h
  cases hident : paramIdent actionId param with
  | error e =>
      rw [hident] at h
      cases h
  | ok ident =>
      rw [hident] at h
      simp only [bind, Except.bind] at h
      split at h
      · cases h
      · cases h
        rfl

/-- The names of parameters with a flag are read as the identifiers of their fields. -/
theorem mapM_paramIdent_filter {actionId : String} {params : List Param} (flag : Param → Bool)
    (h : params.mapM (field actionId) = .ok fields) :
    (params.filter flag).mapM (paramIdent actionId) = .ok (flaggedFields flag params fields) := by
  rw [mapM_eq_ok_iff] at h ⊢
  induction h with
  | nil => exact .nil
  | @cons param decl params fields hparam _ ih =>
      by_cases hflag : flag param = true
      · have hhead : flaggedFields flag (param :: params) (decl :: fields) =
            decl.ident :: flaggedFields flag params fields := by
          simp [flaggedFields, hflag]
        rw [List.filter_cons_of_pos hflag, hhead]
        exact .cons (field_ident hparam) ih
      · have hhead : flaggedFields flag (param :: params) (decl :: fields) =
            flaggedFields flag params fields := by
          simp [flaggedFields, hflag]
        rw [List.filter_cons_of_neg hflag, hhead]
        exact ih

/-- Once the fields are read, the accessor has the fields of the flagged parameters. -/
theorem inputAliases_of_fields (h : action.params.mapM (field action.id) = .ok fields) :
    inputAliases action = .ok (.ofFields
      (flaggedFields (·.isDatasetRef) action.params fields)
      (flaggedFields (·.isDatasetRefList) action.params fields)) := by
  rw [inputAliases, Action.singleRefs, Action.listRefs, mapM_paramIdent_filter _ h,
    mapM_paramIdent_filter _ h]
  rfl

theorem mem_flaggedFields {flag : Param → Bool} {params : List Param} {ident : Ident}
    (h : ident ∈ flaggedFields flag params fields) : ∃ decl ∈ fields, decl.ident = ident := by
  obtain ⟨⟨param, decl⟩, hmem, rfl⟩ := List.mem_map.mp h
  exact ⟨decl, (List.of_mem_zip (List.mem_of_mem_filter hmem)).2, rfl⟩

/-! ## Names that are no identifiers -/

/-- The alias step reads single references first, then lists. -/
theorem failure?_inputAliases_eq (action : Action) :
    failure? (inputAliases action) =
      (action.singleRefs ++ action.listRefs).findSome? fun param =>
        (identFault? param.name).map
          (.fragment .paramName (paramOwner action.id param) param.name) := by
  rw [inputAliases, failure?_bind fun _ _ => failure?_bind_pure _ _, failure?_mapM, failure?_mapM,
    ← List.findSome?_append]
  simp only [paramIdent, failure?_readIdent]

/-- The references are the parameters with one of the two flags. -/
theorem mem_references_iff {param : Param} :
    param ∈ action.singleRefs ++ action.listRefs ↔
      param ∈ action.params ∧ (param.isDatasetRef = true ∨ param.isDatasetRefList = true) := by
  rw [List.mem_append, Action.singleRefs, Action.listRefs, List.mem_filter, List.mem_filter,
    and_or_left]

/-- The accessor fails as the first reference that spells no identifier. -/
theorem inputAliases_eq_error_iff {e : Error} :
    inputAliases action = .error e ↔
      ∃ before param after fault, action.singleRefs ++ action.listRefs = before ++ param :: after ∧
        (∀ earlier ∈ before, ∃ ident, Spells earlier.name ident) ∧
        identFault? param.name = some fault ∧
        e = .fragment .paramName (paramOwner action.id param) param.name fault := by
  rw [← failure?_eq_some_iff, failure?_inputAliases_eq, List.findSome?_eq_some_iff]
  simp only [Option.map_eq_none_iff, identFault?_eq_none_iff, Option.map_eq_some_iff]
  constructor
  · rintro ⟨before, param, after, hrefs, ⟨fault, hfault, rfl⟩, hbefore⟩
    exact ⟨before, param, after, fault, hrefs, hbefore, hfault, rfl⟩
  · rintro ⟨before, param, after, fault, hrefs, hbefore, hfault, rfl⟩
    exact ⟨before, param, after, hrefs, ⟨fault, hfault, rfl⟩, hbefore⟩

/-- The accessor fails exactly if some reference spells no identifier. -/
theorem exists_inputAliases_eq_error_iff :
    (∃ e, inputAliases action = .error e) ↔
      ∃ param ∈ action.params, (param.isDatasetRef = true ∨ param.isDatasetRefList = true) ∧
        ¬ ∃ ident, Spells param.name ident := by
  have hnone : (∃ aliases, inputAliases action = .ok aliases) ↔
      ∀ param ∈ action.params, (param.isDatasetRef = true ∨ param.isDatasetRefList = true) →
        ∃ ident, Spells param.name ident := by
    rw [← failure?_eq_none_iff, failure?_inputAliases_eq, List.findSome?_eq_none_iff]
    simp only [mem_references_iff, Option.map_eq_none_iff, identFault?_eq_none_iff, and_imp]
  have hnot : (∃ e, inputAliases action = .error e) ↔
      ¬ ∃ aliases, inputAliases action = .ok aliases := by
    cases inputAliases action <;> simp
  rw [hnot, hnone]
  simp only [not_forall, exists_prop]

/-- Where the name, the fields and the body of an action read, so do its aliases. The fields that
they name, leaf by leaf, are those of the single references and then those of the lists, and the
accessor refers to these and to no others. On their own the aliases fail exactly if the name of a
parameter that refers to datasets is no identifier, at the first such name of a single reference,
else at the first of a list. -/
theorem accessor_names_fields (dataset : Source.Fragment Source.Node) (action : Action) :
    (∀ ident fields body, readIdent .className action.id action.className = .ok ident →
      action.params.mapM (field action.id) = .ok fields →
      readFragment Source.readBlock? .expression action.id action.expr
        ("\x7b\n" ++ action.expr ++ "\n\x7d") = .ok body →
      ∃ decl, classDecl dataset action = .ok decl ∧ decl.fields = fields ∧
        inputAliases action = .ok decl.inputAliases ∧
        decl.inputAliases.operands.flatMap AliasExpr.fields =
          flaggedFields (·.isDatasetRef) action.params fields ++
            flaggedFields (·.isDatasetRefList) action.params fields ∧
        EmitsAccessor decl (Emit.aliasTokens decl.inputAliases) ∧
        Token.selfFields (Emit.aliasTokens decl.inputAliases) =
          decl.inputAliases.operands.flatMap AliasExpr.fields ∧
        ∀ name ∈ Token.selfFields (Emit.aliasTokens decl.inputAliases),
          ∃ field ∈ decl.fields, field.ident = name) ∧
      ((∃ e, inputAliases action = .error e) ↔
        ∃ param ∈ action.params, (param.isDatasetRef = true ∨ param.isDatasetRefList = true) ∧
          ¬ ∃ ident, Spells param.name ident) ∧
      ∀ e, inputAliases action = .error e ↔
        ∃ before param after fault,
          action.singleRefs ++ action.listRefs = before ++ param :: after ∧
          (∀ earlier ∈ before, ∃ ident, Spells earlier.name ident) ∧
          identFault? param.name = some fault ∧
          e = .fragment .paramName (paramOwner action.id param) param.name fault := by
  refine ⟨?_, exists_inputAliases_eq_error_iff, fun e => inputAliases_eq_error_iff⟩
  intro ident fields body hident hfields hbody
  -- Where the fields read, the aliases do, as they have the same names.
  have haliases := inputAliases_of_fields hfields
  refine ⟨_, classDecl_eq_ok_iff.mpr
    ⟨ident, fields, body, _, hident, hfields, hbody, haliases, rfl⟩, rfl, haliases, ?_,
    emitsAccessor _, ?_, ?_⟩
  · rw [← AliasExpr.fields_eq_flatMap_operands, AliasExpr.fields_ofFields]
  · rw [AliasExpr.selfFields_aliasTokens, AliasExpr.fields_eq_flatMap_operands]
  · intro name hname
    rw [AliasExpr.selfFields_aliasTokens, AliasExpr.fields_ofFields] at hname
    rcases List.mem_append.mp hname with hsingle | hlist
    · exact mem_flaggedFields hsingle
    · exact mem_flaggedFields hlist

/-- A list is declared before a single reference that is also a list; the names are reported in the
order in which the accessor reads them. -/
theorem references_in_two_passes :
    (∃ decl, classDecl ⟨.verbatim [], []⟩ ⟨"join", "f()",
        [⟨"ys", "T", none, false, false, false, true⟩, ⟨"x", "T", none, true, false, true, true⟩],
        false, none⟩ = .ok decl ∧
      Token.selfFields (Emit.aliasTokens decl.inputAliases) = [⟨"x"⟩, ⟨"ys"⟩, ⟨"x"⟩]) ∧
    inputAliases ⟨"join", "f()",
        [⟨"1", "T", none, false, false, false, true⟩, ⟨"fn", "T", none, true, false, true, false⟩],
        false, none⟩ =
      .error (.fragment .paramName "join.fn" "fn" (.ident (.keyword "fn"))) := by
  constructor
  · obtain ⟨fields, hfields⟩ := failure?_eq_none_iff.mp (show failure?
      ([⟨"ys", "T", none, false, false, false, true⟩,
        ⟨"x", "T", none, true, false, true, true⟩].mapM (field "join")) = none by decide +kernel)
    obtain ⟨body, hbody⟩ := failure?_eq_none_iff.mp (show failure?
      (readFragment Source.readBlock? .expression "join" "f()" ("\x7b\n" ++ "f()" ++ "\n\x7d")) =
        none by decide +kernel)
    obtain ⟨decl, hdecl, -, haliases, -⟩ :=
      (accessor_names_fields ⟨.verbatim [], []⟩ ⟨"join", "f()", _, false, none⟩).1 ⟨"JoinAction"⟩
        fields body (by rfl) hfields hbody
    have haliases : .append (.seq [⟨"x"⟩]) (.append (.orEmpty ⟨"ys"⟩) (.orEmpty ⟨"x"⟩)) =
      decl.inputAliases := Except.ok.inj haliases
    exact ⟨decl, hdecl, haliases ▸ rfl⟩
  · refine ((accessor_names_fields ⟨.verbatim [], []⟩ _).2.2 _).mpr ?_
    exact ⟨[], ⟨"fn", "T", none, true, false, true, false⟩,
      [⟨"1", "T", none, false, false, false, true⟩], _, rfl, nofun, rfl, rfl⟩

end Synthesis

end ActionUnits
