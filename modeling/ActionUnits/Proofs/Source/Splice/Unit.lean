import ActionUnits.Proofs.Source.Splice.Class
import ActionUnits.Proofs.Source.Splice.Entries

/-! # Generated units

A unit is a file with its imports, a module of generated types and a registry. Each
item of it stands for itself, so the file has these items and no others.
-/

namespace ActionUnits.Source

open ActionUnits.Emit (attributes docContent inside methodHead qualifiedName)

variable {tokens u rest : List Token} {node : Node} {name : Ident}

/-! ## Modules -/

/-- The tree of a public module. -/
def moduleNode (name : Ident) (items : List Node) : Node :=
  .item [] .everywhere false (.module false name (some items))

theorem moduleItem_reads {parts : List (List Token)} {items : List Node}
    (hname : isKeyword name = false) (hattr : isInnerAttr parts.flatten = false)
    (hitems : List.Forall₂ (Stands (grammar .item)) parts items) :
    Reads (moduleItem grammar .everywhere)
      (.word "mod" :: .ident name :: .group .brace parts.flatten :: rest)
      (.node [] .everywhere false (.module false name (some items))) rest := by
  have htry : isWord "try" (.ident name :: .group .brace parts.flatten :: rest) = false :=
    isWord_of_not_keyword hname (by decide)
  refine (Reads.word?_no rfl).bind ((Reads.word "mod" _).bind (.no htry ?_))
  refine (Reads.ident hname _).bind ((Reads.op?_no rfl).bind ?_)
  exact (bracedItems_read hattr hitems).bind (.pure _ _)

/-- A module stands among items if its parts do. -/
theorem module_stands {parts : List (List Token)} {items : List Node}
    (hname : isKeyword name = false) (hattr : isInnerAttr parts.flatten = false)
    (hitems : List.Forall₂ (Stands (grammar .item)) parts items) :
    Stands (grammar .item)
      [.word "pub", .word "mod", .ident name, .group .brace parts.flatten]
      (moduleNode name items) := by
  refine ⟨List.cons_ne_nil _ _, fun rest => ?_⟩
  have hkind : Reads (itemKind grammar .everywhere)
      (.word "mod" :: .ident name :: .group .brace parts.flatten :: rest) _ rest :=
    .congr (itemKind_mod .everywhere) (moduleItem_reads hname hattr hitems)
  exact bareItem_reads rfl fun start =>
    restOfItem_reads start [] (visibility_reads_pub rfl) hkind

/-! ## The companion module -/

/-- The import of everything around a module. -/
def superImport : List Token :=
  [.word "use", .word "super", .punct ':' true, .punct ':' false, .punct '*' false,
    .punct ';' false]

/-- The tree of the import of everything around a module. -/
def superNode : Node :=
  globItem (.path ⟨"super"⟩)

/-- The import from the enclosing module stands among items. -/
theorem superImport_stands : Stands (grammar .item) superImport superNode := by
  refine ⟨List.cons_ne_nil _ _, fun rest => ?_⟩
  refine bareItem_reads rfl (useItem_reads rfl ?_ fun depth => ?_)
  · exact Nat.le_add_left _ _
  · exact useTree_reads_path rfl (useTree_reads_glob _ _ _)

/-- The items of a companion module. -/
def companionNodes (config : EmitConfig) (extra : List (List Token)) (classes : List ClassDecl) :
    List Node :=
  superNode :: classes.flatMap (classNodes config extra)

/-- What holds of the parts of each element holds of all parts. -/
theorem forall₂_flatMap {α β γ : Type} {R : β → γ → Prop} {f : α → List β} {g : α → List γ}
    {as : List α} (h : ∀ a ∈ as, List.Forall₂ R (f a) (g a)) :
    List.Forall₂ R (as.flatMap f) (as.flatMap g) := by
  induction as with
  | nil => exact .nil
  | cons a as ih =>
      rw [List.flatMap_cons, List.flatMap_cons]
      exact List.rel_append (h a List.mem_cons_self)
        (ih fun other hother => h other (List.mem_cons_of_mem _ hother))

/-- The companion module stands among items. -/
theorem companion_stands (config : EmitConfig) (extra : List (List Token))
    {classes : List ClassDecl} (hname : isKeyword name = false)
    (hclasses : ∀ decl ∈ classes, Spelled decl) :
    Stands (grammar .item)
      [.word "pub", .word "mod", .ident name, .group .brace
        (superImport ++ (classes.flatMap (classParts config extra)).flatten)]
      (moduleNode name (companionNodes config extra classes)) := by
  have hitems : List.Forall₂ (Stands (grammar .item))
      (superImport :: classes.flatMap (classParts config extra))
      (companionNodes config extra classes) :=
    .cons superImport_stands (forall₂_flatMap fun decl hdecl =>
      class_stands config extra (hclasses decl hdecl))
  exact module_stands hname rfl hitems

/-! ## Registries -/

def registryTexts (config : EmitConfig) (registry : Registry) : List String :=
  if config.generateDocs then [s!" Registry of the actions in [`{registry.companion.text}`]."]
  else []

/-- The items of a registry: a struct without fields and an implementation. -/
def registryNodes (config : EmitConfig) (registry : Registry) : List Node :=
  [structNode ((registryTexts config registry).map (docNode false)) registry.ident .unitFields,
    implNode ⟨"ActionRegistry"⟩ registry.datasetType.value registry.ident
      [methodNode ⟨"types"⟩ []
        (appliedNode ⟨"Vec"⟩ (appliedNode ⟨"NamedType"⟩ registry.datasetType.value))
        (entryBlock registry)]]

def registryParts (config : EmitConfig) (registry : Registry) : List (List Token) :=
  [attributes ((registryTexts config registry).map docContent) ++
      [.word "pub", .word "struct", .ident registry.ident, .punct ';' false],
    .word "impl" :: (Emit.applied "ActionRegistry" registry.datasetType.tokens ++
      [.word "for", .ident registry.ident, .group .brace
        [methodHead "types" [] (Emit.appliedTwice "Vec" "NamedType" registry.datasetType.tokens) ++
          [.group .brace (Emit.entryList registry)]].flatten])]

/-- The tokens of the registry are its parts one after the other. -/
theorem registryTokens_eq_flatten (config : EmitConfig) (registry : Registry) :
    Emit.registryTokens config registry = (registryParts config registry).flatten := by
  have hdocs : (if config.generateDocs then
      Emit.docAttr false s!" Registry of the actions in [`{registry.companion.text}`]." else []) =
      attributes ((registryTexts config registry).map docContent) := by
    rw [← Emit.flatMap_docAttr, registryTexts]
    split <;> rfl
  rw [Emit.registryTokens, hdocs, registryParts]
  simp only [List.append_assoc, List.flatten_cons, List.flatten_nil, List.append_nil]
  rfl

/-- The names of a registry are no keywords, and the type of its datasets was read. -/
structure SpelledRegistry (registry : Registry) : Prop where
  ident : isKeyword registry.ident = false
  companion : isKeyword registry.companion = false
  dataset : SpellsType registry.datasetType.tokens registry.datasetType.value
  entries : ∀ entry ∈ registry.entries, isKeyword entry.ident = false

/-- Every part of the registry stands among items. -/
theorem registry_stands (config : EmitConfig) {registry : Registry} (h : SpelledRegistry registry) :
    List.Forall₂ (Stands (grammar .item)) (registryParts config registry)
      (registryNodes config registry) := by
  have houtput : SpellsType (Emit.appliedTwice "Vec" "NamedType" registry.datasetType.tokens)
      (appliedNode ⟨"Vec"⟩ (appliedNode ⟨"NamedType"⟩ registry.datasetType.value)) :=
    h.dataset.of_appliedTwice (by decide) (by decide)
  have hmethod := getter_stands "types" (by decide) (fun _ => houtput.reads _ rfl)
    fun _ => entryBlock_reads h.companion h.entries
  refine .cons ⟨List.append_ne_nil_of_right_ne_nil _ (List.cons_ne_nil _ _), fun rest => ?_⟩
    (.cons (impl_stands (by decide) h.ident h.dataset rfl (.cons hmethod .nil)) .nil)
  rw [List.append_assoc]
  exact item_reads (docs_read _) rfl fun start => unitStruct_reads h.ident start _

/-! ## Files -/

/-- No item starts as an attribute of its surroundings does. -/
theorem not_isInnerAttr_of_item (h : Reads (grammar .item) u node rest) :
    isInnerAttr u = false := by
  refine Bool.eq_false_iff.mpr fun hattr => ?_
  obtain ⟨hsharp, hbang⟩ := Bool.and_eq_true_iff.mp hattr
  have hsharp : nextIsOp ['#'] u = true := hsharp
  obtain ⟨joint, more, rfl⟩ := exists_of_nextIsOp hsharp
  have hbang : nextIsOp ['!'] more = true := hbang
  obtain ⟨joint', more', rfl⟩ := exists_of_nextIsOp hbang
  obtain ⟨z', hrun⟩ := h []
  have hnone : rule grammar .item ⟨.punct '#' joint :: .punct '!' joint' :: more', []⟩ = none := rfl
  rw [grammar_eq_rule, hnone] at hrun
  cases hrun

/-- A file is read item by item, after what documents it. -/
theorem readFile?_of_stands (texts : List String) {parts : List (List Token)} {items : List Node}
    (h : List.Forall₂ (Stands (grammar .item)) parts items) :
    ∃ written, readFile? (texts.flatMap (Emit.docAttr true) ++ parts.flatten) =
      some ⟨.file (texts.map (docNode true)) items, written⟩ := by
  have hattr : isInnerAttr parts.flatten = false := by
    cases h with
    | nil => rfl
    | cons hpart _ =>
        rw [List.flatten_cons]
        exact not_isInnerAttr_of_item (hpart.2 _)
  have hfile : Reads (Source.file grammar) (texts.flatMap (Emit.docAttr true) ++ parts.flatten)
      (.file (texts.map (docNode true)) items) [] :=
    (innerAttrs_reads texts hattr).bind
      ((untilEnd_reads h).map (Node.file (texts.map (docNode true))))
  obtain ⟨written, hrun⟩ := hfile []
  exact ⟨written.reverse, readFile?_eq_some_iff.mpr ⟨written, hrun, rfl⟩⟩

end ActionUnits.Source
