import ActionUnits.Emit.Tokens
import ActionUnits.Proofs.Source.Run
import ActionUnits.Proofs.Synthesis
import ActionUnits.Proofs.Text.Quoted

/-! # A registry agrees with the types it registers

Generated types and registry entries are written by different paths. A layout
gives the token stream of a unit with every name and every literal free, as far
as the two paths could disagree on them. The stream that is emitted has the
layout in which they agree: one type and one entry per definition, in order, with
one identifier, one id and one dataset type.
-/

namespace ActionUnits.Emit

open ActionUnits.Token (word operator)

/-- A literal that is one token and denotes the text. -/
def Denotes (literal text : String) : Prop :=
  Lexer.lex? literal = some [.literal literal] ∧ Text.Quoted.decode? literal = some text

/-- Attributes, by what stands between their brackets. -/
def attributes (contents : List (List Token)) : List Token :=
  contents.flatMap fun content => operator "#" ++ inside .bracket content

/-- The tokens of a generated type: a struct and an implementation. -/
structure TypeLayout where
  attrs : List (List Token)
  structName : Ident
  fields : List Token
  arity : Arity
  /-- The argument of the trait in the head of the implementation. -/
  dataset : List Token
  /-- The type in the head of the implementation. -/
  implName : Ident
  /-- The literal that the type gives as its id. -/
  idLiteral : String
  aliases : List Token
  /-- The argument of the type of the inputs. -/
  inputs : List Token
  output : List Token
  body : List Token

/-- An entry of a registry: its type argument and its literal. -/
structure EntryLayout where
  typeName : Ident
  idLiteral : String

/-- The tokens of a unit. -/
structure UnitLayout where
  /-- The attributes of the whole unit. -/
  docs : List (List Token)
  imports : List (List Token)
  companion : Ident
  types : List TypeLayout
  registryAttrs : List (List Token)
  registryStruct : Ident
  /-- The argument of the trait in the head of the registry's implementation. -/
  dataset : List Token
  registryImpl : Ident
  /-- The argument of the entries' type. -/
  entryDataset : List Token
  /-- The module from which the registry takes the types, if it has entries. -/
  imported : Ident
  entries : List EntryLayout

namespace TypeLayout

/-- The trait of a type that puts out so many datasets. -/
def trait : Arity → String
  | .single => "SingleOutputAction"
  | .multi => "MultiOutputAction"

def tokens (layout : TypeLayout) : List Token :=
  attributes layout.attrs ++ words ["pub", "struct"] ++ [.ident layout.structName] ++
    inside .brace layout.fields ++ words ["impl", trait layout.arity] ++ operator "<" ++
    layout.dataset ++ operator ">" ++ [word "for", .ident layout.implName] ++ inside .brace
      (words ["fn", "id"] ++ inside .paren (operator "&" ++ [word "self"]) ++ operator "->" ++
          operator "&" ++ [.punct '\'' true, word "static", word "str"] ++
          inside .brace [.literal layout.idLiteral] ++
        words ["fn", "input_aliases"] ++ inside .paren (operator "&" ++ [word "self"]) ++
          operator "->" ++ [word "Vec"] ++ operator "<" ++ [word "String"] ++ operator ">" ++
          inside .brace layout.aliases ++
        words ["fn", "transform"] ++
          inside .paren (operator "&" ++ [word "self"] ++ operator "," ++ [word "inputs"] ++
            operator ":" ++ operator "&" ++ [word "Inputs"] ++ operator "<" ++ layout.inputs ++
            operator ">") ++
          operator "->" ++ layout.output ++ inside .brace layout.body)

end TypeLayout

def EntryLayout.tokens (layout : EntryLayout) : List Token :=
  [word "NamedType"] ++ operator "::" ++ [word "new"] ++ operator "::" ++ operator "<" ++
    [.ident layout.typeName] ++ operator ">" ++ inside .paren [.literal layout.idLiteral]

namespace UnitLayout

/-- The list that the registry returns. -/
def entryTokens (layout : UnitLayout) : List Token :=
  if layout.entries.isEmpty then
    [word "Vec"] ++ operator "::" ++ [word "new"] ++ inside .paren []
  else
    words ["use", "self"] ++ operator "::" ++ [.ident layout.imported] ++ operator "::" ++
      operator "*" ++ operator ";" ++ [word "Vec"] ++ operator "::" ++ [word "from"] ++
      inside .paren (inside .bracket
        ((operator ",").intercalate (layout.entries.map EntryLayout.tokens)))

def tokens (layout : UnitLayout) : List Token :=
  (layout.docs.flatMap fun content => operator "#" ++ operator "!" ++ inside .bracket content) ++
    layout.imports.flatten ++
    words ["pub", "mod"] ++ [.ident layout.companion] ++ inside .brace
      (words ["use", "super"] ++ operator "::" ++ operator "*" ++ operator ";" ++
        layout.types.flatMap TypeLayout.tokens) ++
    attributes layout.registryAttrs ++ words ["pub", "struct"] ++
      [.ident layout.registryStruct] ++ operator ";" ++
    words ["impl", "ActionRegistry"] ++ operator "<" ++ layout.dataset ++ operator ">" ++
      [word "for", .ident layout.registryImpl] ++ inside .brace
        (words ["fn", "types"] ++ inside .paren (operator "&" ++ [word "self"]) ++
          operator "->" ++ [word "Vec"] ++ operator "<" ++ [word "NamedType"] ++ operator "<" ++
          layout.entryDataset ++ operator ">>" ++ inside .brace layout.entryTokens)

end UnitLayout

namespace UnitLayout

/-- What the two paths agree on, for definitions with the given ids. -/
structure Agrees (layout : UnitLayout) (ids : List String) : Prop where
  types_length : layout.types.length = ids.length
  entries_length : layout.entries.length = ids.length
  registry_eq : layout.registryImpl = layout.registryStruct
  entryDataset_eq : layout.entryDataset = layout.dataset
  /-- The types of the entries are looked up where the types are declared. -/
  imported_eq : layout.entries ≠ [] → layout.imported = layout.companion
  entry : ∀ (i : Nat) (id : String), ids[i]? = some id →
    ∃ type entry, layout.types[i]? = some type ∧ layout.entries[i]? = some entry ∧
      type.implName = type.structName ∧ entry.typeName = type.structName ∧
      type.dataset = layout.dataset ∧ type.inputs = layout.dataset ∧
      Denotes type.idLiteral id ∧ Denotes entry.idLiteral id

end UnitLayout

/-! ## The layout of what is emitted -/

/-- An encoded text is a literal that denotes the text. -/
theorem denotes_encode (text : String) : Denotes (Text.Quoted.encode text) text :=
  ⟨Lexer.lex?_encode text, Text.Quoted.decode?_encode text⟩

/-- What stands between the brackets of a documenting attribute. -/
def docContent (text : String) : List Token :=
  word "doc" :: operator "=" ++ [.string text]

theorem flatMap_docAttr (texts : List String) :
    texts.flatMap (docAttr false) = attributes (texts.map docContent) := by
  rw [attributes, List.flatMap_map]
  rfl

/-- A block is written as one group in braces. -/
theorem readBlock?_tokens {tokens : List Token} {fragment : Source.Fragment Source.Node}
    (h : Source.readBlock? tokens = some fragment) :
    ∃ body, fragment.tokens = [.group .brace body] := by
  unfold Source.readBlock? Source.readAll? at h
  obtain ⟨⟨value, after⟩, hrun, h⟩ := Option.bind_eq_some_iff.mp h
  obtain ⟨body, written, -, -, hwritten⟩ := Source.group_eq_some.mp hrun
  refine ⟨written.reverse, ?_⟩
  simp only at h
  split at h
  · obtain rfl := Option.some.inj h
    simp [hwritten]
  · cases h

/-- The layout of a generated type with the given attributes, whose block has the given
contents. -/
def typeLayout (attrs : List (List Token)) (body : List Token) (decl : ClassDecl) :
    TypeLayout where
  attrs := attrs
  structName := decl.ident
  fields := decl.fields.flatMap fun field => fieldTokens field ++ comma
  arity := decl.arity
  dataset := decl.datasetType.tokens
  implName := decl.ident
  idLiteral := Text.Quoted.encode decl.discriminator
  aliases := aliasTokens decl.inputAliases
  inputs := decl.datasetType.tokens
  output := (outputTypes decl).2
  body := body

theorem attributes_append (first second : List (List Token)) :
    attributes (first ++ second) = attributes first ++ attributes second :=
  List.flatMap_append

theorem exists_classDocs (config : EmitConfig) (decl : ClassDecl) :
    ∃ attrs, (if config.generateDocs then classDocs decl else []) = attributes attrs := by
  split
  · exact ⟨_, flatMap_docAttr _⟩
  · exact ⟨[], rfl⟩

theorem exists_deriveAttr (extra : List (List Token)) :
    ∃ attr, deriveAttr extra = attributes [attr] :=
  ⟨_, (List.append_nil _).symm⟩

/-- The trait that is implemented is that of the arity. -/
theorem outputTypes_fst (decl : ClassDecl) :
    (outputTypes decl).1 = TypeLayout.trait decl.arity := by
  unfold outputTypes TypeLayout.trait
  cases decl.arity <;> rfl

/-- The tokens of a type have the layout of a type, with attributes in front. -/
theorem exists_classTokens (config : EmitConfig) (extra : List (List Token)) {decl : ClassDecl}
    {body : List Token} (hbody : decl.body.tokens = [.group .brace body]) :
    ∃ attrs, classTokens config extra decl = (typeLayout attrs body decl).tokens := by
  obtain ⟨docs, hdocs⟩ := exists_classDocs config decl
  obtain ⟨derive, hderive⟩ := exists_deriveAttr extra
  refine ⟨docs ++ [derive], ?_⟩
  unfold classTokens TypeLayout.tokens
  simp only [typeLayout, attributes_append, hdocs, structTokens, hderive, implTokens,
    outputTypes_fst, hbody, methodHead, applied, words, List.map_cons, List.map_nil,
    List.append_assoc, List.cons_append, List.nil_append, List.append_nil]
  rfl

/-- The tokens of all types have the layouts of types, one by one. -/
theorem exists_types (config : EmitConfig) (extra : List (List Token)) {classes : List ClassDecl}
    (hbodies : ∀ decl ∈ classes, ∃ body, decl.body.tokens = [.group .brace body]) :
    ∃ types, List.Forall₂ (fun decl type => ∃ attrs body, type = typeLayout attrs body decl)
        classes types ∧
      classes.flatMap (classTokens config extra) = types.flatMap TypeLayout.tokens := by
  induction classes with
  | nil => exact ⟨[], .nil, rfl⟩
  | cons decl classes ih =>
      obtain ⟨body, hbody⟩ := hbodies decl List.mem_cons_self
      obtain ⟨attrs, hattrs⟩ := exists_classTokens config extra hbody
      obtain ⟨types, hlayouts, htypes⟩ :=
        ih fun other hother => hbodies other (List.mem_cons_of_mem _ hother)
      refine ⟨typeLayout attrs body decl :: types, .cons ⟨attrs, body, rfl⟩ hlayouts, ?_⟩
      rw [List.flatMap_cons, List.flatMap_cons, hattrs, htypes]

def entryLayout (entry : RegistryEntry) : EntryLayout :=
  ⟨entry.ident, Text.Quoted.encode entry.discriminator⟩

def unitLayout (config : EmitConfig) (types : List TypeLayout) (unit : SourceUnit) :
    UnitLayout where
  docs := [s!" Generated actions for `{qualifiedName unit}`.", "", " Do not edit by hand."].map
    docContent
  imports := unit.imports.map (·.tokens)
  companion := unit.companion
  types := types
  registryAttrs :=
    if config.generateDocs then
      [docContent s!" Registry of the actions in [`{unit.registry.companion.text}`]."]
    else []
  registryStruct := unit.registry.ident
  dataset := unit.registry.datasetType.tokens
  registryImpl := unit.registry.ident
  entryDataset := unit.registry.datasetType.tokens
  imported := unit.registry.companion
  entries := unit.registry.entries.map entryLayout

theorem entryList_eq (config : EmitConfig) (types : List TypeLayout) (unit : SourceUnit) :
    entryList unit.registry = (unitLayout config types unit).entryTokens := by
  unfold entryList UnitLayout.entryTokens
  cases hentries : unit.registry.entries with
  | nil => simp [unitLayout, hentries, pathTo]
  | cons entry entries =>
      have htokens : (entry :: entries).map entryTokens =
          ((entry :: entries).map entryLayout).map EntryLayout.tokens := by
        rw [List.map_map]
        rfl
      simp only [unitLayout, hentries, htokens, commaSeparated, comma]
      rfl

/-- The tokens of a unit are those of its layout. -/
theorem unitTokens_eq {config : EmitConfig} {extra : List (List Token)} {unit : SourceUnit}
    {types : List TypeLayout}
    (htypes : unit.classes.flatMap (classTokens config extra) = types.flatMap TypeLayout.tokens) :
    header unit ++ unit.imports.flatMap (·.tokens) ++ companionTokens config extra unit ++
      registryTokens config unit.registry = (unitLayout config types unit).tokens := by
  unfold UnitLayout.tokens
  rw [← entryList_eq]
  have hdocs : ∀ text, (if config.generateDocs then docAttr false text else []) =
      attributes (if config.generateDocs then [docContent text] else []) := by
    intro text
    split <;> rfl
  have himports : unit.imports.flatMap (·.tokens) = (unit.imports.map (·.tokens)).flatten :=
    List.flatMap_def
  simp only [unitLayout, header, companionTokens, registryTokens, htypes, hdocs, himports, words,
    applied, appliedTwice, methodHead, List.map_cons, List.map_nil, List.flatMap_cons,
    List.flatMap_nil, List.append_assoc, List.cons_append, List.nil_append, List.append_nil]
  rfl

theorem unitTokens_eq_ok_iff {config : EmitConfig} {unit : SourceUnit} {tokens : List Token} :
    unitTokens config unit = .ok tokens ↔ ∃ extra, extraDerives unit config = .ok extra ∧
      header unit ++ unit.imports.flatMap (·.tokens) ++ companionTokens config extra unit ++
        registryTokens config unit.registry = tokens := by
  unfold unitTokens
  cases extraDerives unit config with
  | error e => simp [bind, Except.bind]
  | ok extra => simp [bind, Except.bind, pure, Except.pure]

end Emit

open Emit

/-- The body of a generated type is a group in braces. -/
theorem Synthesis.classDecl_body {dataset : Source.Fragment Source.Node} {action : Action}
    {decl : ClassDecl} (h : classDecl dataset action = .ok decl) :
    ∃ body, decl.body.tokens = [.group .brace body] := by
  obtain ⟨ident, fields, body, aliases, -, -, hbody, -, rfl⟩ := classDecl_eq_ok_iff.mp h
  obtain ⟨tokens, -, hread⟩ := readFragment_eq_ok_iff.mp hbody
  exact readBlock?_tokens hread

/-- The tokens of a unit have a layout in which, at the place of each action, the type, its
implementation and the entry of the registry have one name, and both literals denote the id of the
action; the registry names the module of the types and their dataset. -/
theorem registry_agrees_with_types {set : ActionSet} {module : ModuleDef} {name : String}
    {unit : SourceUnit} {config : EmitConfig} {tokens : List Token}
    (hunit : Synthesis.unit set module name = .ok unit)
    (htokens : unitTokens config unit = .ok tokens) :
    ∃ layout : UnitLayout, layout.tokens = tokens ∧
      layout.imports = unit.imports.map (·.tokens) ∧
      layout.dataset = unit.registry.datasetType.tokens ∧
      layout.Agrees (set.definitions.map (·.id)) := by
  obtain ⟨qualifier, imports, dataset, classes, registry, companion, -, -, -, hclasses, -, rfl⟩ :=
    Synthesis.unit_eq_ok_iff.mp hunit
  obtain ⟨extra, -, rfl⟩ := unitTokens_eq_ok_iff.mp htokens
  have hclasses := mapM_eq_ok_iff.mp hclasses
  have hbodies : ∀ decl ∈ classes, ∃ body, decl.body.tokens = [.group .brace body] := by
    intro decl hdecl
    obtain ⟨action, -, haction⟩ := forall₂_mem_right hclasses hdecl
    exact Synthesis.classDecl_body haction
  obtain ⟨types, hlayouts, htypes⟩ := exists_types config extra hbodies
  refine ⟨_, (unitTokens_eq htypes).symm, rfl, rfl, ?_⟩
  refine ⟨?_, ?_, rfl, rfl, fun _ => rfl, ?_⟩
  · change types.length = _
    rw [List.length_map, hclasses.length_eq, hlayouts.length_eq]
  · change ((classes.map Registry.entryOf).map entryLayout).length = _
    rw [List.length_map, List.length_map, List.length_map, hclasses.length_eq]
  · intro i id hid
    rw [List.getElem?_map, Option.map_eq_some_iff] at hid
    obtain ⟨action, haction, rfl⟩ := hid
    obtain ⟨decl, hdecl, hread⟩ := forall₂_getElem? hclasses haction
    obtain ⟨type, htype, attrs, body, rfl⟩ := forall₂_getElem? hlayouts hdecl
    obtain ⟨ident, fields, block, aliases, -, -, -, -, rfl⟩ :=
      Synthesis.classDecl_eq_ok_iff.mp hread
    refine ⟨_, ⟨ident, Text.Quoted.encode action.id⟩, htype, ?_, rfl, rfl, rfl, rfl,
      denotes_encode _, denotes_encode _⟩
    change ((classes.map Registry.entryOf).map entryLayout)[i]? = _
    rw [List.getElem?_map, List.getElem?_map, hdecl]
    rfl

/-- An id of which a comment hides a quote, a backslash, and a NUL before a digit, in front of a
plain one. -/
def escapedIds : ActionSet :=
  ⟨[⟨"/*\"\\\x007*/a", "x", [], false, none⟩, ⟨"b", "x", [], true, none⟩], []⟩

/-- The two types and the two entries of such a unit agree. -/
theorem escaped_id_registered :
    ∃ unit tokens, Synthesis.unit escapedIds ⟨"D", "p", [], []⟩ "Foo" = .ok unit ∧
      unitTokens {} unit = .ok tokens ∧
      ∃ layout : UnitLayout, layout.tokens = tokens ∧
        layout.imports = unit.imports.map (·.tokens) ∧
        layout.dataset = unit.registry.datasetType.tokens ∧
        layout.Agrees ["/*\"\\\x007*/a", "b"] := by
  have hok : (Synthesis.unit escapedIds ⟨"D", "p", [], []⟩ "Foo" >>= unitTokens {}).isOk = true := by
    decide +kernel
  cases hunit : Synthesis.unit escapedIds ⟨"D", "p", [], []⟩ "Foo" with
  | error e => rw [hunit] at hok; cases hok
  | ok unit =>
      rw [hunit] at hok
      cases htokens : unitTokens {} unit with
      | error e =>
          change (unitTokens {} unit).isOk = true at hok
          rw [htokens] at hok
          cases hok
      | ok tokens => exact ⟨unit, tokens, rfl, htokens, registry_agrees_with_types hunit htokens⟩

end ActionUnits
