import ActionUnits.Proofs.Fragments
import ActionUnits.Proofs.Text.Snake
import ActionUnits.Proofs.Text.Word

/-! # Names of companion modules

A unit has two names: its own one and that of its companion module, which is the
first one in snake case. Once all else of a unit reads, these names decide whether
there is a unit. A plain name is refused if it is in snake case already, as the
companion would have it too, or if it becomes a keyword.
-/

namespace ActionUnits.Synthesis

variable {set : ActionSet} {module : ModuleDef} {name : String}

/-! ## The parts of a unit besides its names -/

/-- The texts of a unit all read, whatever its name is. -/
structure PartsRead (set : ActionSet) (module : ModuleDef) : Prop where
  package : ∀ segment ∈ module.packageSegments, ∃ ident, Spells segment ident
  imports : ∀ text ∈ set.imports ++ module.imports,
    ReadsBy Source.readImport? (importDeclaration text)
  datasetType : ReadsBy Source.readType? module.datasetType
  actions : ∀ action ∈ set.definitions, ActionReads action

/-- Only the names of the unit can still be refused. -/
theorem failure?_unit_of_partsRead (h : PartsRead set module) (name : String) :
    failure? (unit set module name) = failure? (unitNames name) := by
  have hpackage : firstError? (packageTexts module) = none := by
    rw [firstError?_eq_none_iff]
    simp only [packageTexts, List.forall_mem_map, identFault?_eq_none_iff]
    exact h.package
  have himports : firstError? (importTexts (set.imports ++ module.imports) name) = none := by
    rw [firstError?_eq_none_iff]
    simp only [importTexts, List.forall_mem_map, ruleFault?_eq_none_iff]
    exact h.imports
  have hdataset : (datasetText module).error? = none := by
    rw [ConfiguredText.error?_eq_none_iff]
    simp only [datasetText, ruleFault?_eq_none_iff]
    exact h.datasetType
  have hactions : firstError? (set.definitions.flatMap actionTexts) = none := by
    rw [firstError?_eq_none_iff]
    simp only [List.forall_mem_flatMap, forall_actionTexts_iff]
    exact h.actions
  rw [failure?_unit, failure?_unitNames, unitTexts, firstError?_append, firstError?_append,
    firstError?_cons, firstError?_append, hpackage, himports, hdataset, hactions]
  rfl

/-- If all parts read, only the names of the unit can fail. -/
theorem unit_eq_error_iff (h : PartsRead set module) {e : Error} :
    unit set module name = .error e ↔ unitNames name = .error e := by
  rw [← failure?_eq_some_iff, failure?_unit_of_partsRead h, failure?_eq_some_iff]

/-- The names that a unit was given are those of its registry and of its companion. -/
theorem exists_unit_of_unitNames (h : PartsRead set module) {registry companion : Ident}
    (hnames : unitNames name = .ok (registry, companion)) :
    ∃ result, unit set module name = .ok result ∧ result.registry.ident = registry ∧
      result.companion = companion := by
  have hnone : failure? (unit set module name) = none := by
    rw [failure?_unit_of_partsRead h, hnames]
    rfl
  obtain ⟨result, hunit⟩ := failure?_eq_none_iff.mp hnone
  obtain ⟨_, _, _, _, _, _, -, -, -, -, hnames', rfl⟩ := unit_eq_ok_iff.mp hunit
  cases hnames.symm.trans hnames'
  exact ⟨_, hunit, rfl, rfl⟩

/-! ## Plain names are read as they stand -/

/-- A plain name is one token. -/
theorem lex?_of_isPlainName {text : String} (h : Text.IsPlainName text.toList) :
    Lexer.lex? text = some [.ident ⟨text⟩] := by
  have hcontinue : ∀ c ∈ text.toList, Text.isIdentContinue c = true := by
    intro c hc
    rcases h.chars c hc with hc | rfl
    · rw [Text.isIdentContinue, hc, Bool.true_or, Bool.true_or]
    · decide
  obtain ⟨c, hhead, hc⟩ := h.start
  cases hchars : text.toList with
  | nil =>
      rw [hchars] at hhead
      cases hhead
  | cons d cs =>
      rw [hchars] at hhead hcontinue
      cases hhead
      have hword : Lexer.IsIdentText (c :: cs) :=
        ⟨hc, (List.forall_mem_cons.mp hcontinue).2⟩
      have hlex := hword.lex?
      rwa [← hchars, String.ofList_toList] at hlex

/-- A plain name is an identifier or a keyword. -/
theorem readIdent_of_isPlainName {text : String} (h : Text.IsPlainName text.toList)
    (kind : FragmentKind) (owner : String) :
    readIdent kind owner text =
      if Source.isKeyword ⟨text⟩ then .error (.fragment kind owner text (.ident (.keyword text)))
      else .ok ⟨text⟩ := by
  rw [readIdent, lex?_of_isPlainName h]
  dsimp only
  rw [Source.readIdent]
  split <;> rfl

/-- The name that the companion module of a unit gets. -/
def companionName (name : String) : String :=
  String.ofList (Text.snake name.toList)

theorem unitNames_of_isPlainName (h : Text.IsPlainName name.toList)
    (hkeyword : Source.isKeyword ⟨name⟩ = false) :
    unitNames name =
      if Source.isKeyword ⟨companionName name⟩ then
        .error (.fragment .className name (companionName name)
          (.ident (.keyword (companionName name))))
      else if companionName name = name then
        .error (.fragment .className name name (.collision ⟨companionName name⟩))
      else .ok (⟨name⟩, ⟨companionName name⟩) := by
  have hsnake : Text.IsPlainName (companionName name).toList := by
    rw [companionName, String.toList_ofList]
    exact h.snake.isPlainName
  have hregistry := readIdent_of_isPlainName h .className name
  have hcompanion := readIdent_of_isPlainName hsnake .className name
  rw [if_neg (by simp [hkeyword])] at hregistry
  have hfold : String.ofList (Text.snake name.toList) = companionName name := rfl
  rw [unitNames, hregistry, hfold, hcompanion]
  split
  · rfl
  · simp only [bind, Except.bind, Ident.mk.injEq]
    rfl

/-- The companion has the name of the unit exactly if that is in snake case. -/
theorem companionName_eq_self_iff (h : Text.IsPlainName name.toList) :
    companionName name = name ↔ Text.IsSnake name.toList := by
  rw [← h.snake_eq_self_iff, ← String.toList_inj, companionName, String.toList_ofList]

/-! ## What becomes of a plain name -/

/-- A unit collides with its companion exactly if its name is in snake case. -/
theorem unit_collides_iff (hparts : PartsRead set module) (hname : Text.IsPlainName name.toList)
    (hkeyword : Source.isKeyword ⟨name⟩ = false) :
    unit set module name = .error (.fragment .className name name (.collision ⟨name⟩)) ↔
      Text.IsSnake name.toList := by
  rw [unit_eq_error_iff hparts, unitNames_of_isPlainName hname hkeyword,
    ← companionName_eq_self_iff hname]
  constructor
  · intro h
    split at h
    · simp at h
    · split at h
      next hsame => exact hsame
      next => cases h
  · intro hsame
    rw [hsame, hkeyword]
    simp

/-- A unit is refused for a keyword exactly if the snake case of its name is one. -/
theorem unit_refuses_keyword_iff (hparts : PartsRead set module)
    (hname : Text.IsPlainName name.toList) (hkeyword : Source.isKeyword ⟨name⟩ = false) :
    unit set module name = .error (.fragment .className name (companionName name)
        (.ident (.keyword (companionName name)))) ↔
      Source.isKeyword ⟨companionName name⟩ = true := by
  rw [unit_eq_error_iff hparts, unitNames_of_isPlainName hname hkeyword]
  constructor
  · intro h
    split at h
    next hcompanion => exact hcompanion
    next => split at h <;> simp at h
  · intro hcompanion
    rw [if_pos hcompanion]

/-- A plain name that is no keyword is refused for its companion in two cases only. In the first it
is in snake case already: it has no capitals and no digit next to a letter. In the second it becomes
a keyword in snake case. Else there is a unit, and the name of its companion is in lower case, is
not that of the registry, and would be refused as the name of a unit, being in snake case. -/
theorem companion_decides_unit (hparts : PartsRead set module)
    (hname : Text.IsPlainName name.toList) (hkeyword : Source.isKeyword ⟨name⟩ = false) :
    (unit set module name = .error (.fragment .className name name (.collision ⟨name⟩)) ↔
      Text.IsSnake name.toList) ∧
    (unit set module name = .error (.fragment .className name (companionName name)
        (.ident (.keyword (companionName name)))) ↔
      Source.isKeyword ⟨companionName name⟩ = true) ∧
    (¬ Text.IsSnake name.toList → Source.isKeyword ⟨companionName name⟩ = false →
      ∃ result, unit set module name = .ok result ∧ result.registry.ident = ⟨name⟩ ∧
        result.companion = ⟨companionName name⟩ ∧
        Text.IsLowerName result.companion.text.toList ∧
        result.companion ≠ result.registry.ident ∧
        unit set module result.companion.text =
          .error (.fragment .className result.companion.text result.companion.text
            (.collision result.companion))) := by
  refine ⟨unit_collides_iff hparts hname hkeyword, unit_refuses_keyword_iff hparts hname hkeyword,
    fun hsnake hcompanion => ?_⟩
  have hne : companionName name ≠ name := mt (companionName_eq_self_iff hname).mp hsnake
  have hnames : unitNames name = .ok (⟨name⟩, ⟨companionName name⟩) := by
    rw [unitNames_of_isPlainName hname hkeyword, hcompanion, if_neg hne]
    rfl
  obtain ⟨result, hunit, hregistry, hresult⟩ := exists_unit_of_unitNames hparts hnames
  have hlower : Text.IsLowerName (companionName name).toList := by
    rw [companionName, String.toList_ofList]
    exact hname.snake
  refine ⟨result, hunit, hregistry, hresult, ?_, ?_, ?_⟩
  · rw [hresult]
    exact hlower
  · rw [hresult, hregistry, ne_eq, Ident.mk.injEq]
    exact hne
  · -- Snake case of the companion changes nothing more.
    rw [hresult, unit_collides_iff hparts hlower.isPlainName hcompanion, companionName,
      String.toList_ofList]
    exact hname.isSnake_snake

/-- One import and one action, and three names: one that stays the same, one that becomes a keyword,
and one with an acronym and a digit. -/
theorem companions_of_three_names :
    let set : ActionSet := ⟨[⟨"echo", "input", [], false, none⟩], ["std::fmt"]⟩
    let module : ModuleDef := ⟨"Dataset", "org.unit", [], []⟩
    unit set module "_raw_1" =
      .error (.fragment .className "_raw_1" "_raw_1" (.collision ⟨"_raw_1"⟩)) ∧
    unit set module "Match" =
      .error (.fragment .className "Match" "match" (.ident (.keyword "match"))) ∧
    ∃ result, unit set module "HTTPServer2" = .ok result ∧
      result.companion = ⟨"http_server_2"⟩ ∧ result.companion ≠ result.registry.ident ∧
      unit set module result.companion.text =
        .error (.fragment .className result.companion.text result.companion.text
          (.collision result.companion)) := by
  intro set module
  have hparts : PartsRead set module := by
    refine ⟨?_, ?_, ?_, ?_⟩
    · simp only [← identFault?_eq_none_iff]
      decide +kernel
    · simp only [← ruleFault?_eq_none_iff]
      decide +kernel
    · rw [← ruleFault?_eq_none_iff]
      decide +kernel
    · simp only [← forall_actionTexts_iff, ← firstError?_eq_none_iff]
      decide +kernel
  have hraw : Text.IsPlainName "_raw_1".toList := ⟨⟨'_', rfl, .inr rfl⟩, by decide⟩
  have hmatch : Text.IsPlainName "Match".toList := ⟨⟨'M', rfl, .inl rfl⟩, by decide⟩
  have hserver : Text.IsPlainName "HTTPServer2".toList := ⟨⟨'H', rfl, .inl rfl⟩, by decide⟩
  refine ⟨?_, ?_, ?_⟩
  · exact (companion_decides_unit hparts hraw (by decide)).1.mpr (by decide)
  · exact (companion_decides_unit hparts hmatch (by decide)).2.1.mpr (by decide +kernel)
  · obtain ⟨result, hunit, -, hcompanion, -, hne, hagain⟩ :=
      (companion_decides_unit hparts hserver (by decide)).2.2 (by decide) (by decide +kernel)
    exact ⟨result, hunit, hcompanion, hne, hagain⟩

end ActionUnits.Synthesis
