import ActionUnits.Emit.Emitter
import ActionUnits.Proofs.References
import ActionUnits.Proofs.Source.Splice.Unit

/-! # The tree of a generated unit

The fragments of a unit are read one by one, and then written next to each other,
into arguments, fields, heads of methods and bodies. Nothing that is configured
reaches beyond its place there: what is written for a unit that was read is a source
file again, and its tree is made of the imports, one module of generated types and
one registry.
-/

namespace ActionUnits

open Source (Spelled SpelledRegistry SpellsType Stands)

/-! ## The tree -/

def SourceUnit.headerTexts (unit : SourceUnit) : List String :=
  [s!" Generated actions for `{Emit.qualifiedName unit}`.", "", " Do not edit by hand."]

/-- The items of a unit: its imports, the module of its types, and the two items of its registry. -/
def SourceUnit.items (config : EmitConfig) (extra : List (List Token)) (unit : SourceUnit) :
    List Source.Node :=
  unit.imports.map (·.value.node) ++
    Source.moduleNode unit.companion (Source.companionNodes config extra unit.classes) ::
      Source.registryNodes config unit.registry

def SourceUnit.tree (config : EmitConfig) (extra : List (List Token)) (unit : SourceUnit) :
    Source.Node :=
  .file (unit.headerTexts.map (Source.docNode true)) (unit.items config extra)

/-! ## What synthesis has read -/

namespace Synthesis

variable {set : ActionSet} {module : ModuleDef} {name actionId : String} {param : Param}
  {field : Field} {action : Action} {decl : ClassDecl}

/-- The type of a field is read from its tokens. -/
theorem field_type_spelled (h : Synthesis.field actionId param = .ok field) :
    SpellsType field.type.tokens field.type.value := by
  unfold Synthesis.field at h
  cases hident : paramIdent actionId param with
  | error e => rw [hident] at h; cases h
  | ok ident =>
      cases htype : readFragment Source.readType? .paramType (paramOwner actionId param) param.type
          param.type with
      | error e => rw [hident, htype] at h; cases h
      | ok type =>
          rw [hident, htype] at h
          cases h
          obtain ⟨tokens, -, hread⟩ := readFragment_eq_ok_iff.mp htype
          exact Source.spellsType_of_readType? hread

theorem inputAliases_not_keyword {fields : List Field} {aliases : AliasExpr} {ident : Ident}
    (hfields : action.params.mapM (Synthesis.field action.id) = .ok fields)
    (haliases : inputAliases action = .ok aliases) (h : ident ∈ aliases.fields) :
    Source.isKeyword ident = false := by
  obtain rfl := Except.ok.inj ((inputAliases_of_fields hfields).symm.trans haliases)
  rw [AliasExpr.fields_ofFields, List.mem_append] at h
  obtain ⟨field, hmem, rfl⟩ := h.elim mem_flaggedFields mem_flaggedFields
  obtain ⟨param, -, hread⟩ := forall₂_mem_right (mapM_eq_ok_iff.mp hfields) hmem
  exact field_not_keyword hread

/-- A type is read from its tokens if its dataset type is. -/
theorem classDecl_spelled {dataset : Source.Fragment Source.Node}
    (hdataset : SpellsType dataset.tokens dataset.value)
    (h : classDecl dataset action = .ok decl) : Spelled decl := by
  obtain ⟨ident, fields, body, aliases, hident, hfields, hbody, haliases, rfl⟩ :=
    classDecl_eq_ok_iff.mp h
  constructor
  · exact (readIdent_eq_ok_iff.mp hident).2
  · exact hdataset
  · intro field hfield
    obtain ⟨param, -, hread⟩ := forall₂_mem_right (mapM_eq_ok_iff.mp hfields) hfield
    exact ⟨field_not_keyword hread, field_type_spelled hread⟩
  · obtain ⟨tokens, -, hread⟩ := readFragment_eq_ok_iff.mp hbody
    exact ⟨tokens, hread⟩
  · exact fun field hfield => inputAliases_not_keyword hfields haliases hfield

/-- An import stands wherever items may stand, and is one declaration. -/
theorem importDecl_stands {owner text : String} {fragment : Source.Fragment Source.Import}
    (h : importDecl owner text = .ok fragment) :
    Stands (Source.grammar .item) fragment.tokens fragment.value.node ∧
      Source.IsSingleUse fragment := by
  obtain ⟨tokens, hlex, hread⟩ := readFragment_eq_ok_iff.mp h
  obtain ⟨keyword, hkeyword, hopens⟩ := importDeclaration_opens text
  obtain ⟨others, rfl⟩ := Lexer.exists_of_lex?_keyword hkeyword hopens hlex
  exact ⟨Source.import_stands hread, Source.isSingleUse_of_readImport? hread⟩

/-- What a unit is made of was read, and its names are no keywords. -/
structure UnitSpelled (unit : SourceUnit) : Prop where
  imports : ∀ fragment ∈ unit.imports, ∃ owner text, importDecl owner text = .ok fragment
  companion : Source.isKeyword unit.companion = false
  classes : ∀ decl ∈ unit.classes, Spelled decl
  registry : SpelledRegistry unit.registry

/-- Every part of a unit is read from its tokens. -/
theorem unit_spelled {unit : SourceUnit} (h : Synthesis.unit set module name = .ok unit) :
    UnitSpelled unit := by
  obtain ⟨qualifier, imports, dataset, classes, registry, companion, -, himports, hdataset,
    hclasses, hnames, rfl⟩ := unit_eq_ok_iff.mp h
  obtain ⟨hregistryRead, hcompanionRead⟩ := readIdent_of_unitNames hnames
  have hregistry := (readIdent_eq_ok_iff.mp hregistryRead).2
  have hcompanion := (readIdent_eq_ok_iff.mp hcompanionRead).2
  have hspells : SpellsType dataset.tokens dataset.value := by
    obtain ⟨tokens, -, hread⟩ := readFragment_eq_ok_iff.mp hdataset
    exact Source.spellsType_of_readType? hread
  have hspelled : ∀ decl ∈ classes, Spelled decl := by
    intro decl hdecl
    obtain ⟨action, -, hread⟩ := forall₂_mem_right (mapM_eq_ok_iff.mp hclasses) hdecl
    exact classDecl_spelled hspells hread
  refine ⟨?_, hcompanion, hspelled, hregistry, hcompanion, hspells, ?_⟩
  · intro fragment hfragment
    obtain ⟨text, -, hread⟩ := forall₂_mem_right (mapM_eq_ok_iff.mp himports) hfragment
    exact ⟨_, text, hread⟩
  · intro entry hentry
    obtain ⟨decl, hdecl, rfl⟩ := List.mem_map.mp hentry
    exact (hspelled decl hdecl).ident

end Synthesis

/-! ## What is emitted -/

namespace Emit

theorem header_eq_flatMap (unit : SourceUnit) :
    header unit = unit.headerTexts.flatMap (docAttr true) := by
  unfold header SourceUnit.headerTexts
  simp only [List.flatMap_cons, List.flatMap_nil, List.append_assoc, List.append_nil]

/-- If each further trait reads, they are all derived. -/
theorem exists_extraDerives {config : EmitConfig} (unit : SourceUnit)
    (h : ∀ text ∈ config.extraDerives, Synthesis.ReadsBy Source.readPath? text) :
    ∃ extra, extraDerives unit config = .ok extra := by
  refine exists_mapM_eq_ok_iff.mpr fun text htext => ?_
  obtain ⟨tokens, fragment, hlex, hpath⟩ := h text htext
  have hsome : Lexer.lex? text >>= Source.readPath? = some fragment :=
    Option.bind_eq_some_iff.mpr ⟨tokens, hlex, hpath⟩
  rw [hsome]
  exact ⟨_, rfl⟩

def unitParts (config : EmitConfig) (extra : List (List Token)) (unit : SourceUnit) :
    List (List Token) :=
  unit.imports.map (·.tokens) ++
    [.word "pub", .word "mod", .ident unit.companion, .group .brace (Source.superImport ++
      (unit.classes.flatMap (Source.classParts config extra)).flatten)] ::
        Source.registryParts config unit.registry

/-- The companion module holds the import of its parent and the types. -/
theorem companionTokens_eq (config : EmitConfig) (extra : List (List Token)) (unit : SourceUnit) :
    companionTokens config extra unit = [.word "pub", .word "mod", .ident unit.companion,
      .group .brace (Source.superImport ++
        (unit.classes.flatMap (Source.classParts config extra)).flatten)] := by
  have hclasses : unit.classes.flatMap (classTokens config extra) =
      (unit.classes.flatMap (Source.classParts config extra)).flatten := by
    rw [List.flatMap_def, List.flatMap_def, List.flatten_flatten, List.map_map]
    exact congrArg List.flatten (List.map_congr_left fun decl _ =>
      Source.classTokens_eq_flatten config extra decl)
  rw [companionTokens, hclasses]
  rfl

/-- The tokens of a unit are those of its header and its items. -/
theorem unitTokens_eq_flatten {config : EmitConfig} {unit : SourceUnit}
    {extra : List (List Token)} (h : extraDerives unit config = .ok extra) :
    unitTokens config unit =
      .ok (unit.headerTexts.flatMap (docAttr true) ++ (unitParts config extra unit).flatten) := by
  refine unitTokens_eq_ok_iff.mpr ⟨extra, h, ?_⟩
  rw [header_eq_flatMap, companionTokens_eq, Source.registryTokens_eq_flatten, unitParts,
    List.flatten_append, List.flatten_cons, ← List.flatMap_def]
  simp only [List.append_assoc]

/-- Each item of a unit that was read stands for itself. -/
theorem unitParts_stand (config : EmitConfig) (extra : List (List Token)) {unit : SourceUnit}
    (h : Synthesis.UnitSpelled unit) :
    List.Forall₂ (Stands (Source.grammar .item)) (unitParts config extra unit)
      (unit.items config extra) := by
  refine List.rel_append ?_ (.cons (Source.companion_stands config extra h.companion h.classes)
    (Source.registry_stands config h.registry))
  rw [List.forall₂_map_left_iff, List.forall₂_map_right_iff, List.forall₂_same]
  intro fragment hfragment
  obtain ⟨owner, text, hread⟩ := h.imports fragment hfragment
  exact (Synthesis.importDecl_stands hread).1

end Emit

open Emit

/-- The text of a unit whose tokens are a file is what the printer makes of its tree. Only where the
printer has no rule for a part of the tree, there is none. -/
theorem Emitter.emit_rust_of_readFile? {config : EmitConfig} {unit : SourceUnit}
    {tokens : List Token} {file : Source.Fragment Source.Node}
    (htokens : unitTokens config unit = .ok tokens) (hfile : Source.readFile? tokens = some file) :
    Emitter.rust.emit config unit =
      (Print.fileText? (Source.depthFor tokens) file.value).elim (.error .crash) .ok := by
  change ((unitTokens config unit).mapError _ >>= Emitter.sourceText unit.name) = _
  rw [htokens]
  change Emitter.sourceText unit.name tokens = _
  unfold Emitter.sourceText
  rw [hfile]
  dsimp only
  cases Print.fileText? (Source.depthFor tokens) file.value <;> rfl

/-- Whatever its fragments are, a unit that was read is emitted as one file with its imports, the
module of its types and its registry. -/
theorem unit_emits_its_tree {set : ActionSet} {module : ModuleDef} {name : String}
    {unit : SourceUnit} {config : EmitConfig} (hunit : Synthesis.unit set module name = .ok unit)
    (hextra : ∀ text ∈ config.extraDerives, Synthesis.ReadsBy Source.readPath? text) :
    ∃ extra tokens file, extraDerives unit config = .ok extra ∧
      unitTokens config unit = .ok tokens ∧ Source.readFile? tokens = some file ∧
      file.value = unit.tree config extra ∧
      (∀ fragment ∈ unit.imports, ∃ vis rooted tree,
        fragment.value.node = .item [] vis false (.useItem rooted tree)) ∧
      Emitter.rust.emit config unit = (Print.fileText? (Source.depthFor tokens)
        (unit.tree config extra)).elim (.error .crash) .ok := by
  have hspelled := Synthesis.unit_spelled hunit
  obtain ⟨extra, hderives⟩ := exists_extraDerives unit hextra
  have htokens := unitTokens_eq_flatten hderives
  obtain ⟨written, hfile⟩ := Source.readFile?_of_stands unit.headerTexts
    (unitParts_stand config extra hspelled)
  have hemit := Emitter.emit_rust_of_readFile? htokens hfile
  refine ⟨extra, _, _, hderives, htokens, hfile, rfl, ?_, hemit⟩
  intro fragment hfragment
  obtain ⟨owner, text, hread⟩ := hspelled.imports fragment hfragment
  obtain ⟨rooted, tree, -, hnode, -⟩ := (Synthesis.importDecl_stands hread).2
  exact ⟨_, rooted, tree, hnode⟩

/-- An import of a group, a body and a description with closing braces, a type that ends in two
brackets, and derived traits with a root and an argument. -/
theorem bracketed_unit_emits_its_tree :
    ∃ unit extra tokens file text, Synthesis.unit
        ⟨[⟨"join", "inputs.all(\"\x7d\").pop() >> 1",
            [⟨"left", "Vec<Vec<u8>>", none, true, false, true, false⟩], true, some "\x7d\n*/"⟩],
          ["crate::\x7ba, b::*\x7d"]⟩
        ⟨"Frame<'static>", "p", [], []⟩ "Foo" = .ok unit ∧
      extraDerives unit ⟨true, ["Eq", "::a::B<C>"]⟩ = .ok extra ∧
      unitTokens ⟨true, ["Eq", "::a::B<C>"]⟩ unit = .ok tokens ∧
      Source.readFile? tokens = some file ∧
      file.value = unit.tree ⟨true, ["Eq", "::a::B<C>"]⟩ extra ∧
      Emitter.rust.emit ⟨true, ["Eq", "::a::B<C>"]⟩ unit = .ok text := by
  have hderives : ∀ text ∈ (EmitConfig.mk true ["Eq", "::a::B<C>"]).extraDerives,
      Synthesis.ReadsBy Source.readPath? text := by
    intro text htext
    rw [← Synthesis.ruleFault?_eq_none_iff]
    simp only [List.mem_cons, List.not_mem_nil, or_false] at htext
    obtain rfl | rfl := htext <;> decide +kernel
  have hnone : failure? ((Synthesis.unit
      ⟨[⟨"join", "inputs.all(\"\x7d\").pop() >> 1",
          [⟨"left", "Vec<Vec<u8>>", none, true, false, true, false⟩], true, some "\x7d\n*/"⟩],
        ["crate::\x7ba, b::*\x7d"]⟩
      ⟨"Frame<'static>", "p", [], []⟩ "Foo").mapError Failure.reported >>=
        Emitter.rust.emit ⟨true, ["Eq", "::a::B<C>"]⟩) = none := by
    decide +kernel
  obtain ⟨text, hboth⟩ := failure?_eq_none_iff.mp hnone
  obtain ⟨unit, hunit, htext⟩ := bind_eq_ok_iff.mp hboth
  obtain ⟨extra, tokens, file, hextra, htokens, hfile, htree, -, -⟩ :=
    unit_emits_its_tree (mapError_eq_ok_iff.mp hunit) hderives
  exact ⟨unit, extra, tokens, file, text, mapError_eq_ok_iff.mp hunit, hextra, htokens, hfile,
    htree, htext⟩

end ActionUnits
