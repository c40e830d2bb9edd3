import ActionUnits.Proofs.FirstFailure

/-! # The fragments of a unit in reading order

Synthesis reads configured texts one after the other, in traversals nested three
deep. What it makes of them does not decide which one it reads next, so its
outcome is that of a single list of fragments: the first one with a fault gives
the error, and without a fault there is a unit.
-/

namespace ActionUnits

/-! ## The failure of a computation -/

section Failure

variable {ε α β : Type}

/-- The error of a computation, if it fails. -/
def failure? : Except ε α → Option ε
  | .ok _ => none
  | .error e => some e

@[simp] theorem failure?_pure (a : α) : failure? (pure a : Except ε α) = none := rfl

theorem failure?_eq_none_iff {x : Except ε α} : failure? x = none ↔ ∃ a, x = .ok a := by
  cases x <;> simp [failure?]

theorem failure?_eq_some_iff {x : Except ε α} {e : ε} : failure? x = some e ↔ x = .error e := by
  cases x <;> simp [failure?]

/-- A computation after another one, whose result does not matter for the failure. -/
theorem failure?_bind {x : Except ε α} {f : α → Except ε β} {later : Option ε}
    (h : ∀ a, x = .ok a → failure? (f a) = later) :
    failure? (x >>= f) = (failure? x).or later := by
  cases x with
  | ok a => exact h a rfl
  | error e => rfl

theorem failure?_bind_pure (x : Except ε α) (f : α → β) :
    failure? (x >>= fun a => pure (f a)) = failure? x := by
  cases x <;> rfl

/-- A list of readings fails as the first of them that fails does. -/
theorem failure?_mapM (f : α → Except ε β) (as : List α) :
    failure? (as.mapM f) = as.findSome? fun a => failure? (f a) := by
  induction as with
  | nil => rfl
  | cons a as ih =>
      rw [List.mapM_cons, List.findSome?_cons, ← ih]
      cases f a with
      | error e => rfl
      | ok b => exact failure?_bind_pure _ _

end Failure

namespace Synthesis

/-! ## Fragments -/

/-- A configured text that a unit is made of, as errors refer to it, and what is wrong with it. -/
structure ConfiguredText where
  kind : FragmentKind
  owner : String
  source : String
  fault? : Option FragmentFault

def ConfiguredText.error? (text : ConfiguredText) : Option Error :=
  text.fault?.map (.fragment text.kind text.owner text.source)

/-- A text fails with an error that names its kind, its owner and itself. -/
theorem ConfiguredText.error?_eq_some_iff {text : ConfiguredText} {e : Error} :
    text.error? = some e ↔
      ∃ fault, text.fault? = some fault ∧ e = .fragment text.kind text.owner text.source fault := by
  rw [error?, Option.map_eq_some_iff]
  simp only [eq_comm]

theorem ConfiguredText.error?_eq_none_iff {text : ConfiguredText} :
    text.error? = none ↔ text.fault? = none :=
  Option.map_eq_none_iff

def firstError? (texts : List ConfiguredText) : Option Error :=
  texts.findSome? ConfiguredText.error?

/-- There is no error exactly if no text has a fault. -/
theorem firstError?_eq_none_iff {texts : List ConfiguredText} :
    firstError? texts = none ↔ ∀ text ∈ texts, text.fault? = none := by
  rw [firstError?, List.findSome?_eq_none_iff]
  simp only [ConfiguredText.error?_eq_none_iff]

theorem firstError?_cons (text : ConfiguredText) (texts : List ConfiguredText) :
    firstError? (text :: texts) = text.error?.or (firstError? texts) := by
  rw [firstError?, List.findSome?_cons]
  cases text.error? <;> rfl

/-- Of two lists of texts, the first one fails first. -/
theorem firstError?_append (first second : List ConfiguredText) :
    firstError? (first ++ second) = (firstError? first).or (firstError? second) :=
  List.findSome?_append

theorem firstError?_map {α : Type} (f : α → ConfiguredText) (as : List α) :
    firstError? (as.map f) = as.findSome? fun a => (f a).error? :=
  List.findSome?_map

theorem firstError?_flatMap {α : Type} (f : α → List ConfiguredText) (as : List α) :
    firstError? (as.flatMap f) = as.findSome? fun a => firstError? (f a) := by
  induction as with
  | nil => rfl
  | cons a as ih =>
      rw [List.flatMap_cons, firstError?_append, ih, List.findSome?_cons]
      cases firstError? (f a) <;> rfl

def identOf? (text : String) : Option Ident :=
  match Lexer.lex? text with
  | some [.ident name] => if Source.isKeyword name then none else some name
  | _ => none

/-- What keeps a text from being an identifier. -/
def identFault? (text : String) : Option FragmentFault :=
  match Lexer.lex? text with
  | none => some (.ident .unreadable)
  | some tokens => (failure? (Source.readIdent tokens)).map .ident

/-- What keeps a text from being read by a rule of the grammar. -/
def ruleFault? {α : Type} (rule : List Token → Option (Source.Fragment α)) (text : String) :
    Option FragmentFault :=
  match Lexer.lex? text >>= rule with
  | none => some .grammar
  | some _ => none

/-- What keeps the identifiers of a unit apart from each other: both are there and are the same. -/
def collision? (registry companion : Option Ident) : Option FragmentFault :=
  match registry, companion with
  | some registry, some companion =>
    if companion = registry then some (.collision companion) else none
  | _, _ => none

/-- A text is a single identifier: its only token, and no keyword. -/
def Spells (text : String) (ident : Ident) : Prop :=
  Lexer.lex? text = some [.ident ident] ∧ Source.isKeyword ident = false

/-- A rule of the grammar reads the whole text. -/
def ReadsBy {α : Type} (rule : List Token → Option (Source.Fragment α)) (text : String) : Prop :=
  ∃ tokens fragment, Lexer.lex? text = some tokens ∧ rule tokens = some fragment

/-- A text gives an identifier exactly if it spells it. -/
theorem identOf?_eq_some_iff {text : String} {ident : Ident} :
    identOf? text = some ident ↔ Spells text ident := by
  rw [identOf?, Spells]
  split
  next name h =>
    cases hkeyword : Source.isKeyword name with
    | true =>
        simp only [if_true, reduceCtorEq, false_iff]
        rintro ⟨htokens, hident⟩
        rw [h] at htokens
        cases htokens
        rw [hkeyword] at hident
        cases hident
    | false =>
        simp only [Bool.false_eq_true, if_false, Option.some.injEq, h, List.cons.injEq,
          Token.ident.injEq, and_true]
        exact ⟨by rintro rfl; exact ⟨rfl, hkeyword⟩, fun hname => hname.1⟩
  next h =>
    simp only [reduceCtorEq, false_iff]
    rintro ⟨htokens, -⟩
    exact h ident htokens

/-- Reading an identifier fails exactly with the fault of its text. -/
theorem failure?_readIdent (kind : FragmentKind) (owner text : String) :
    failure? (readIdent kind owner text) =
      (identFault? text).map (.fragment kind owner text) := by
  unfold readIdent identFault?
  cases Lexer.lex? text with
  | none => rfl
  | some tokens =>
      dsimp only
      cases Source.readIdent tokens <;> rfl

/-- A text without a fault spells an identifier. -/
theorem identFault?_eq_none_iff {text : String} :
    identFault? text = none ↔ ∃ ident, Spells text ident := by
  have h := failure?_readIdent .className "" text
  rw [← Option.map_eq_none_iff (f := Error.fragment .className "" text), ← h,
    failure?_eq_none_iff]
  simp only [readIdent_eq_ok_iff]
  rfl

/-- Reading a fragment fails exactly with the fault of its text. -/
theorem failure?_readFragment {α : Type} (rule : List Token → Option (Source.Fragment α))
    (kind : FragmentKind) (owner source text : String) :
    failure? (readFragment rule kind owner source text) =
      (ruleFault? rule text).map (.fragment kind owner source) := by
  unfold readFragment ruleFault?
  cases Lexer.lex? text >>= rule <;> rfl

/-- A text without a fault is read by its rule. -/
theorem ruleFault?_eq_none_iff {α : Type} {rule : List Token → Option (Source.Fragment α)}
    {text : String} : ruleFault? rule text = none ↔ ReadsBy rule text := by
  have h := failure?_readFragment rule .expression "" "" text
  rw [← Option.map_eq_none_iff (f := Error.fragment .expression "" ""), ← h,
    failure?_eq_none_iff]
  simp only [readFragment_eq_ok_iff]
  exact exists_comm

/-! ## Reading order -/

def packageTexts (module : ModuleDef) : List ConfiguredText :=
  module.packageSegments.map fun segment =>
    ⟨.package, module.package, segment, identFault? segment⟩

/-- Imports of the unit with the given name. -/
def importTexts (texts : List String) (name : String) : List ConfiguredText :=
  texts.map fun text =>
    ⟨.importDecl, name, text, ruleFault? Source.readImport? (importDeclaration text)⟩

/-- The type that the actions of a module transform. -/
def datasetText (module : ModuleDef) : ConfiguredText :=
  ⟨.datasetType, module.package, module.datasetType,
    ruleFault? Source.readType? module.datasetType⟩

/-- The texts of a parameter: its name, then its type. -/
def paramTexts (actionId : String) (param : Param) : List ConfiguredText :=
  [⟨.paramName, paramOwner actionId param, param.name, identFault? param.name⟩,
   ⟨.paramType, paramOwner actionId param, param.type, ruleFault? Source.readType? param.type⟩]

/-- The texts of an action: the name of its class, then its parameters, then its body. -/
def actionTexts (action : Action) : List ConfiguredText :=
  ⟨.className, action.id, action.className, identFault? action.className⟩ ::
    (action.params.flatMap (paramTexts action.id) ++
      [⟨.expression, action.id, action.expr,
        ruleFault? Source.readBlock? ("\x7b\n" ++ action.expr ++ "\n\x7d")⟩])

/-- The texts that the names of a unit are: the name itself, the name of its companion module, and
the name once more, as it must not be the companion's. -/
def nameTexts (name : String) : List ConfiguredText :=
  let snake := String.ofList (Text.snake name.toList)
  [⟨.className, name, name, identFault? name⟩,
   ⟨.className, name, snake, identFault? snake⟩,
   ⟨.className, name, name, collision? (identOf? name) (identOf? snake)⟩]

/-- The texts of a unit in the order in which they are read. The imports of the set stand in front
of those of the module. -/
def unitTexts (set : ActionSet) (module : ModuleDef) (name : String) : List ConfiguredText :=
  packageTexts module ++ (importTexts (set.imports ++ module.imports) name ++
    datasetText module :: (set.definitions.flatMap actionTexts ++ nameTexts name))

/-! ## Units without a fault -/

/-- The texts of an action all read. -/
structure ActionReads (action : Action) : Prop where
  className : ∃ ident, Spells action.className ident
  params : ∀ param ∈ action.params,
    (∃ ident, Spells param.name ident) ∧ ReadsBy Source.readType? param.type
  body : ReadsBy Source.readBlock? ("\x7b\n" ++ action.expr ++ "\n\x7d")

/-- The texts of a unit all read, and its two identifiers differ. -/
structure UnitReads (set : ActionSet) (module : ModuleDef) (name : String) : Prop where
  package : ∀ segment ∈ module.packageSegments, ∃ ident, Spells segment ident
  imports : ∀ text ∈ set.imports ++ module.imports,
    ReadsBy Source.readImport? (importDeclaration text)
  datasetType : ReadsBy Source.readType? module.datasetType
  actions : ∀ action ∈ set.definitions, ActionReads action
  names : ∃ registry companion, Spells name registry ∧
    Spells (String.ofList (Text.snake name.toList)) companion ∧ companion ≠ registry

/-- The texts of a parameter are its name and its type. -/
theorem forall_paramTexts_iff {actionId : String} {param : Param} :
    (∀ text ∈ paramTexts actionId param, text.fault? = none) ↔
      (∃ ident, Spells param.name ident) ∧ ReadsBy Source.readType? param.type := by
  simp only [paramTexts, List.forall_mem_cons, List.not_mem_nil, false_implies, implies_true,
    and_true, identFault?_eq_none_iff, ruleFault?_eq_none_iff]

/-- The texts of an action read exactly if the action does. -/
theorem forall_actionTexts_iff {action : Action} :
    (∀ text ∈ actionTexts action, text.fault? = none) ↔ ActionReads action := by
  simp only [actionTexts, List.forall_mem_cons, List.forall_mem_append, List.forall_mem_flatMap,
    forall_paramTexts_iff, List.not_mem_nil, false_implies, implies_true, and_true,
    identFault?_eq_none_iff, ruleFault?_eq_none_iff]
  exact ⟨fun h => ⟨h.1, h.2.1, h.2.2⟩, fun h => ⟨h.className, h.params, h.body⟩⟩

/-- The name of a unit must spell an identifier, and so must its companion, and they must differ. -/
theorem forall_nameTexts_iff {name : String} :
    (∀ text ∈ nameTexts name, text.fault? = none) ↔
      ∃ registry companion, Spells name registry ∧
        Spells (String.ofList (Text.snake name.toList)) companion ∧ companion ≠ registry := by
  simp only [nameTexts, List.forall_mem_cons, List.not_mem_nil, false_implies, implies_true,
    and_true, identFault?_eq_none_iff]
  constructor
  · rintro ⟨⟨registry, hregistry⟩, ⟨companion, hcompanion⟩, hcollision⟩
    refine ⟨registry, companion, hregistry, hcompanion, fun heq => ?_⟩
    rw [identOf?_eq_some_iff.mpr hregistry, identOf?_eq_some_iff.mpr hcompanion, collision?,
      if_pos heq] at hcollision
    cases hcollision
  · rintro ⟨registry, companion, hregistry, hcompanion, hne⟩
    refine ⟨⟨registry, hregistry⟩, ⟨companion, hcompanion⟩, ?_⟩
    rw [identOf?_eq_some_iff.mpr hregistry, identOf?_eq_some_iff.mpr hcompanion, collision?,
      if_neg hne]

/-- The texts of a unit read exactly if the unit does. -/
theorem forall_unitTexts_iff {set : ActionSet} {module : ModuleDef} {name : String} :
    (∀ text ∈ unitTexts set module name, text.fault? = none) ↔ UnitReads set module name := by
  simp only [unitTexts, packageTexts, importTexts, datasetText, List.forall_mem_cons,
    List.forall_mem_append, List.forall_mem_flatMap, List.forall_mem_map, forall_actionTexts_iff,
    forall_nameTexts_iff, identFault?_eq_none_iff, ruleFault?_eq_none_iff]
  constructor
  · rintro ⟨hpackage, himports, hdataset, hactions, hnames⟩
    exact ⟨hpackage, List.forall_mem_append.mpr himports, hdataset, hactions, hnames⟩
  · rintro ⟨hpackage, himports, hdataset, hactions, hnames⟩
    exact ⟨hpackage, List.forall_mem_append.mp himports, hdataset, hactions, hnames⟩

/-! ## Each step fails with the first of its texts -/

/-- The package fails as the first of its segments that fails does. -/
theorem failure?_package (module : ModuleDef) :
    failure? (package module) = firstError? (packageTexts module) := by
  rw [package, failure?_bind_pure, failure?_mapM, packageTexts, firstError?_map]
  simp only [failure?_readIdent, ConfiguredText.error?]

theorem failure?_imports (texts : List String) (name : String) :
    failure? (texts.mapM (importDecl name)) = firstError? (importTexts texts name) := by
  rw [failure?_mapM, importTexts, firstError?_map]
  simp only [importDecl, failure?_readFragment, ConfiguredText.error?]

theorem failure?_datasetType (module : ModuleDef) :
    failure? (datasetType module) = (datasetText module).error? :=
  failure?_readFragment _ _ _ _ _

/-- A field fails in its name first, then in its type. -/
theorem failure?_field (actionId : String) (param : Param) :
    failure? (field actionId param) = firstError? (paramTexts actionId param) := by
  rw [field, failure?_bind fun ident _ => failure?_bind_pure _ _, paramIdent, failure?_readIdent,
    failure?_readFragment, paramTexts, firstError?_cons, firstError?_cons]
  simp only [ConfiguredText.error?, firstError?, List.findSome?_nil, Option.or_none]

/-- The alias step reads names that the fields have read already. -/
theorem failure?_inputAliases {action : Action} {fields : List Field}
    (h : action.params.mapM (field action.id) = .ok fields) :
    failure? (inputAliases action) = none := by
  have hparam : ∀ param ∈ action.params, ∃ ident, paramIdent action.id param = .ok ident := by
    intro param hmem
    obtain ⟨decl, hdecl⟩ := exists_mapM_eq_ok_iff.mp ⟨fields, h⟩ param hmem
    cases hident : paramIdent action.id param with
    | ok ident => exact ⟨ident, rfl⟩
    | error e =>
        rw [field, hident] at hdecl
        cases hdecl
  have hfilter : ∀ p : Param → Bool,
      failure? ((action.params.filter p).mapM (paramIdent action.id)) = none := by
    intro p
    rw [failure?_eq_none_iff, exists_mapM_eq_ok_iff]
    exact fun param hmem => hparam param (List.mem_of_mem_filter hmem)
  rw [inputAliases, failure?_bind fun _ _ => failure?_bind_pure _ _]
  rw [Action.singleRefs, Action.listRefs, hfilter, hfilter]
  rfl

/-- A type fails as the first text of its action that has a fault. -/
theorem failure?_classDecl (dataset : Source.Fragment Source.Node) (action : Action) :
    failure? (classDecl dataset action) = firstError? (actionTexts action) := by
  have haliases : ∀ {fields}, action.params.mapM (field action.id) = .ok fields →
      ∀ f : AliasExpr → ClassDecl,
        failure? (inputAliases action >>= fun aliases => pure (f aliases)) = none := by
    intro fields hfields f
    rw [failure?_bind_pure, failure?_inputAliases hfields]
  rw [classDecl, failure?_bind fun ident _ => failure?_bind fun fields hfields =>
    failure?_bind fun body _ => haliases hfields _]
  rw [failure?_readIdent, failure?_mapM, failure?_readFragment, actionTexts, firstError?_cons,
    firstError?_append, firstError?_flatMap, firstError?_cons]
  simp only [failure?_field, ConfiguredText.error?, firstError?, List.findSome?_nil]

theorem failure?_unitNames (name : String) :
    failure? (unitNames name) = firstError? (nameTexts name) := by
  have hnames : ∀ {registry}, readIdent .className name name = .ok registry →
      ∀ {companion}, readIdent .className name (String.ofList (Text.snake name.toList)) =
        .ok companion →
      failure? (if companion = registry then
          (.error (.fragment .className name name (.collision companion)) :
            Except Error (Ident × Ident))
        else pure (registry, companion)) =
        (collision? (identOf? name) (identOf? (String.ofList (Text.snake name.toList)))).map
          (.fragment .className name name) := by
    intro registry hregistry companion hcompanion
    rw [identOf?_eq_some_iff.mpr (readIdent_eq_ok_iff.mp hregistry),
      identOf?_eq_some_iff.mpr (readIdent_eq_ok_iff.mp hcompanion), collision?]
    split <;> rfl
  rw [unitNames, failure?_bind fun registry hregistry => failure?_bind fun companion hcompanion =>
    hnames hregistry hcompanion]
  rw [failure?_readIdent, failure?_readIdent, nameTexts, firstError?_cons, firstError?_cons,
    firstError?_cons]
  simp only [ConfiguredText.error?, firstError?, List.findSome?_nil, Option.or_none]

/-- A unit fails as the first of its texts that has a fault. -/
theorem failure?_unit (set : ActionSet) (module : ModuleDef) (name : String) :
    failure? (unit set module name) = firstError? (unitTexts set module name) := by
  have hclasses : ∀ dataset, failure? (set.definitions.mapM (classDecl dataset)) =
      firstError? (set.definitions.flatMap actionTexts) := by
    intro dataset
    rw [failure?_mapM, firstError?_flatMap]
    simp only [failure?_classDecl]
  have hrest : ∀ dataset, ∀ f : Ident × Ident → List ClassDecl → SourceUnit,
      failure? (set.definitions.mapM (classDecl dataset) >>= fun classes =>
        unitNames name >>= fun names => pure (f names classes)) =
      firstError? (set.definitions.flatMap actionTexts ++ nameTexts name) := by
    intro dataset f
    rw [failure?_bind fun _ _ => failure?_bind_pure _ _, hclasses, failure?_unitNames,
      firstError?_append]
  rw [unit, failure?_bind fun _ _ => failure?_bind fun _ _ => failure?_bind fun dataset _ =>
    hrest dataset _]
  simp only [failure?_package, failure?_imports, failure?_datasetType, unitTexts,
    firstError?_append, firstError?_cons]

/-- Synthesis makes a unit exactly if no configured text has a fault. Else its error is that of the
first text with a fault, in reading order, whatever is wrong with later ones. The classes of a unit
are those that its definitions give one by one. -/
theorem unit_reads_in_order (set : ActionSet) (module : ModuleDef) (name : String) :
    ((∃ unit, Synthesis.unit set module name = .ok unit) ↔ UnitReads set module name) ∧
      (∀ e, Synthesis.unit set module name = .error e ↔
        ∃ before text after fault, unitTexts set module name = before ++ text :: after ∧
          (∀ earlier ∈ before, earlier.fault? = none) ∧ text.fault? = some fault ∧
          e = .fragment text.kind text.owner text.source fault) ∧
      (∀ unit, Synthesis.unit set module name = .ok unit →
        ∃ dataset, datasetType module = .ok dataset ∧
          List.Forall₂ (fun action decl => classDecl dataset action = .ok decl) set.definitions
            unit.classes) := by
  have hfailure := failure?_unit set module name
  refine ⟨?_, ?_, ?_⟩
  · rw [← failure?_eq_none_iff, hfailure, firstError?, List.findSome?_eq_none_iff]
    simp only [ConfiguredText.error?_eq_none_iff]
    exact forall_unitTexts_iff
  · intro e
    rw [← failure?_eq_some_iff, hfailure, firstError?, List.findSome?_eq_some_iff]
    simp only [ConfiguredText.error?_eq_none_iff, ConfiguredText.error?_eq_some_iff]
    constructor
    · rintro ⟨before, text, after, htexts, ⟨fault, hfault, he⟩, hbefore⟩
      exact ⟨before, text, after, fault, htexts, hbefore, hfault, he⟩
    · rintro ⟨before, text, after, fault, htexts, hbefore, hfault, he⟩
      exact ⟨before, text, after, htexts, ⟨fault, hfault, he⟩, hbefore⟩
  · intro unit hunit
    obtain ⟨qualifier, imports, dataset, classes, registry, companion, -, -, hdataset, hclasses, -,
      rfl⟩ := unit_eq_ok_iff.mp hunit
    exact ⟨dataset, hdataset, mapM_eq_ok_iff.mp hclasses⟩

end Synthesis

end ActionUnits
