import ActionUnits.Proofs.Duplicates
import ActionUnits.Proofs.Project

/-! # Which ids are warned about

Merging erases repeated definitions, and the registry counts how often an id is
left. Together they find the ids under which different definitions were loaded:
each is reported once, in the order in which the ids first occur in the files.
No other step of generating a module warns.
-/

namespace ActionUnits

/-! ## Ids with different definitions -/

/-- The ids under which there are different definitions, in the order in which ids first occur. -/
def conflictingIds (definitions : List Action) : List String :=
  (firstOccurrences (definitions.map (·.id))).filter fun id =>
    ∃ a ∈ definitions, ∃ b ∈ definitions, a.id = id ∧ b.id = id ∧ a ≠ b

theorem mem_firstOccurrences {α : Type} [DecidableEq α] {xs : List α} {x : α} :
    x ∈ firstOccurrences xs ↔ x ∈ xs := by
  rw [← eraseDups_eq_firstOccurrences, List.mem_eraseDups]

/-- An id conflicts exactly if two different definitions have it. -/
theorem mem_conflictingIds {definitions : List Action} {id : String} :
    id ∈ conflictingIds definitions ↔
      ∃ a ∈ definitions, ∃ b ∈ definitions, a.id = id ∧ b.id = id ∧ a ≠ b := by
  rw [conflictingIds, List.mem_filter, mem_firstOccurrences, decide_eq_true_eq]
  refine and_iff_right_of_imp ?_
  rintro ⟨a, ha, -, -, rfl, -⟩
  exact List.mem_map_of_mem ha

theorem nodup_conflictingIds (definitions : List Action) : (conflictingIds definitions).Nodup := by
  rw [conflictingIds, ← eraseDups_eq_firstOccurrences]
  exact (nodup_eraseDups _).filter _

/-- Repeated definitions make no difference. -/
theorem conflictingIds_firstOccurrences (definitions : List Action) :
    conflictingIds (firstOccurrences definitions) = conflictingIds definitions := by
  simp only [conflictingIds, mem_firstOccurrences]
  simp only [← eraseDups_eq_firstOccurrences, eraseDups_map_eraseDups]

namespace Registry

/-- Where no definition is repeated, an id that occurs more than once has different definitions. -/
theorem duplicates_eq_conflictingIds {entries : List RegistryEntry} {definitions : List Action}
    (hids : entries.map (·.discriminator) = definitions.map (·.id)) (hnodup : definitions.Nodup) :
    duplicates entries = conflictingIds definitions := by
  rw [duplicates_eq_filter, conflictingIds, hids]
  refine List.filter_congr fun id _ => ?_
  rw [decide_eq_decide]
  exact one_lt_count_map_iff hnodup id

end Registry

namespace Synthesis

/-- The registry has the ids of the actions in order. -/
theorem unit_discriminators {set : ActionSet} {module : ModuleDef} {name : String}
    {unit : SourceUnit} (h : Synthesis.unit set module name = .ok unit) :
    unit.registry.entries.map (·.discriminator) = set.definitions.map (·.id) := by
  obtain ⟨qualifier, imports, dataset, classes, registry, companion, -, -, -, hclasses, -, rfl⟩ :=
    unit_eq_ok_iff.mp h
  have hdiscriminators : List.Forall₂ (fun action decl => ClassDecl.discriminator decl = action.id)
      set.definitions classes := by
    refine (mapM_eq_ok_iff.mp hclasses).imp fun action decl hdecl => ?_
    obtain ⟨ident, fields, body, aliases, -, -, -, -, rfl⟩ := classDecl_eq_ok_iff.mp hdecl
    rfl
  change ((classes.map Registry.entryOf).map (·.discriminator)) = _
  rw [List.map_map]
  refine List.forall₂_eq_eq_eq ▸ ?_
  rw [List.forall₂_map_left_iff, List.forall₂_map_right_iff]
  exact hdiscriminators.flip

end Synthesis

/-! ## What is logged -/

namespace Logged

variable {ε φ α β : Type}

/-- The warnings among the events of a computation. -/
def warnings (x : Logged ε α) : List Event :=
  x.events.filter (·.level = .warn)

/-- Two steps report what the first reports, then what the second does. -/
theorem events_bind_of_ok {x : Logged ε α} {a : α} (h : x.result = .ok a) (f : α → Logged ε β) :
    (x >>= f).events = x.events ++ (f a).events := by
  change (x.andThen f).events = _
  rw [andThen_of_ok h]

theorem warnings_bind_of_ok {x : Logged ε α} {a : α} (h : x.result = .ok a) (f : α → Logged ε β) :
    (x >>= f).warnings = x.warnings ++ (f a).warnings := by
  rw [warnings, events_bind_of_ok h, List.filter_append]
  rfl

/-- Warnings of a step that goes on without any. -/
theorem warnings_bind_nil {x : Logged ε α} {f : α → Logged ε β} (hx : x.warnings = [])
    (hf : ∀ a, (f a).warnings = []) : (x >>= f).warnings = [] := by
  cases hresult : x.result with
  | ok a => rw [warnings_bind_of_ok hresult, hx, hf, List.append_nil]
  | error e =>
      change (x.andThen f).warnings = _
      rw [andThen_of_error hresult]
      exact hx

@[simp] theorem warnings_mapError (g : ε → φ) (x : Logged ε α) :
    (x.mapError g).warnings = x.warnings := rfl

/-- Steps without warnings have none together. -/
theorem warnings_forEach {f : α → Logged ε β} (h : ∀ a, (f a).warnings = []) (as : List α) :
    (forEach f as).warnings = [] := by
  induction as with
  | nil => rfl
  | cons a as ih =>
      change ((f a) >>= fun b => (forEach f as) >>= fun bs => pure (b :: bs)).warnings = []
      exact warnings_bind_nil (h a) fun b => warnings_bind_nil ih fun bs => rfl

/-- An element that succeeds after others that do reports its events between theirs and those of
the elements after it. -/
theorem events_forEach_append {f : α → Logged ε β} {before after : List α} {a : α}
    (hbefore : ∀ b ∈ before, ∃ c, (f b).result = .ok c) (ha : ∃ c, (f a).result = .ok c) :
    (forEach f (before ++ a :: after)).events =
      (forEach f before).events ++ (f a).events ++ (forEach f after).events := by
  have hcons : ∀ {b : α}, (∃ c, (f b).result = .ok c) → ∀ bs,
      (forEach f (b :: bs)).events = (f b).events ++ (forEach f bs).events := by
    rintro b ⟨c, hc⟩ bs
    change ((f b) >>= fun c => (forEach f bs) >>= fun cs => pure (c :: cs)).events = _
    rw [events_bind_of_ok hc]
    cases hbs : (forEach f bs).result with
    | ok cs =>
        rw [events_bind_of_ok hbs]
        exact congrArg _ (List.append_nil _)
    | error e =>
        change _ ++ ((forEach f bs).andThen _).events = _
        rw [andThen_of_error hbs]
  induction before with
  | nil => exact hcons ha after
  | cons b before ih =>
      have hrest := ih fun c hc => hbefore c (List.mem_cons_of_mem _ hc)
      have hb := hbefore b List.mem_cons_self
      rw [List.cons_append, hcons hb, hcons hb, hrest]
      simp only [List.append_assoc]

end Logged

namespace FileSystem

/-- Finding files is never a reason to warn. -/
theorem resolve_warnings (fs : FileSystem) (base : FilePath) (entries : List String) :
    (fs.resolve base entries).warnings = [] := by
  have hentry : ∀ entry, (fs.resolveEntry base entry).warnings = [] := by
    intro entry
    unfold resolveEntry
    split
    · refine Logged.warnings_bind_nil rfl fun pattern => ?_
      dsimp only
      split
      · refine Logged.warnings_bind_nil rfl fun _ => Logged.warnings_bind_nil rfl fun _ => rfl
      · exact Logged.warnings_bind_nil rfl fun _ => rfl
    · rfl
  exact Logged.warnings_bind_nil (Logged.warnings_forEach hentry entries) fun _ => rfl

/-- Loading files is never a reason to warn. -/
theorem loadInto_warnings (fs : FileSystem) (merged : ActionSet) (paths : List FilePath) :
    (fs.loadInto merged paths).warnings = [] := by
  induction paths generalizing merged with
  | nil => rfl
  | cons path paths ih =>
      refine Logged.warnings_bind_nil ?_ fun set => Logged.warnings_bind_nil rfl fun _ => ih _
      exact Logged.warnings_bind_nil rfl fun _ => Logged.warnings_bind_nil rfl fun _ => rfl

end FileSystem

namespace Generator

variable {generator : Generator} {fs : FileSystem} {module : ModuleDef} {base : FilePath}
  {binding : Binding}

theorem report_warnings (registry : Registry) :
    (Logged.report registry.warnings : Logged Error Unit).warnings = registry.warnings := by
  rw [Logged.warnings, Logged.report, List.filter_eq_self]
  intro event hevent
  obtain ⟨id, -, rfl⟩ := List.mem_map.mp hevent
  rfl

/-- The registry's warnings are all that generating a unit warns of. -/
theorem generateUnit_warnings {set : ActionSet} {name : String} {source : SourceUnit}
    (hsource : Synthesis.unit set module name = .ok source) :
    (generator.generateUnit set module name).warnings = source.registry.warnings := by
  have hresult : (synthesize set module name).result = .ok source := by
    rw [synthesize_result, hsource]
  have hsynthesize : (synthesize set module name).warnings = source.registry.warnings := by
    rw [synthesize, Logged.warnings_bind_of_ok hsource, Logged.warnings_bind_of_ok rfl,
      report_warnings]
    exact List.append_nil _
  rw [generateUnit, Logged.warnings_bind_of_ok (mapError_eq_ok_iff.mpr hresult),
    Logged.warnings_mapError, hsynthesize]
  refine (congrArg _ ?_).trans (List.append_nil _)
  exact Logged.warnings_bind_nil rfl fun _ => Logged.warnings_bind_nil rfl fun _ => rfl

/-- A binding warns of the ids under which its files hold different definitions. -/
theorem generateBinding_warnings {files : List FilePath} {sets : List ActionSet}
    {source : SourceUnit} (hfiles : (fs.resolve base binding.configFiles).result = .ok files)
    (hset : (fs.loadSets files).result = .ok (ActionSet.concat sets).distinct)
    (hsource : Synthesis.unit (ActionSet.concat sets).distinct module binding.name = .ok source) :
    (generator.generateBinding fs module base binding).warnings =
      (conflictingIds (sets.flatMap (·.definitions))).map
        (.duplicateId source.registry.ident.text) := by
  have hnodup : (firstOccurrences (sets.flatMap (·.definitions))).Nodup := by
    rw [← eraseDups_eq_firstOccurrences]
    exact nodup_eraseDups _
  have hduplicates := Registry.duplicates_eq_conflictingIds
    (Synthesis.unit_discriminators hsource) hnodup
  rw [generateBinding, Logged.warnings_bind_of_ok (mapError_eq_ok_iff.mpr hfiles),
    Logged.warnings_mapError, FileSystem.resolve_warnings,
    Logged.warnings_bind_of_ok (mapError_eq_ok_iff.mpr hset), Logged.warnings_mapError,
    FileSystem.loadSets, FileSystem.loadInto_warnings, generateUnit_warnings hsource,
    List.nil_append, List.nil_append, Registry.warnings, hduplicates]
  exact congrArg _ (conflictingIds_firstOccurrences _)

/-- A binding whose unit is generated after those before it logs its events between theirs and
those of the bindings after it. Its warnings name the ids under which its files hold different
definitions, each once, in the order in which the ids first occur in the files. Repeated definitions
make no difference; different ones all become types and entries of their own. -/
theorem generate_warns_of_conflicts {before after : List Binding} {unit : GeneratedUnit}
    (hbindings : module.bindings = before ++ binding :: after)
    (hbefore : ∀ other ∈ before,
      ∃ unit, (generator.generateBinding fs module base other).result = .ok unit)
    (hunit : (generator.generateBinding fs module base binding).result = .ok unit) :
    ∃ files sets definitions source,
      (fs.resolve base binding.configFiles).result = .ok files ∧
      List.Forall₂ (fun path set => (fs.loadActions path).result = .ok set) files sets ∧
      definitions = sets.flatMap (·.definitions) ∧
      Synthesis.unit ⟨firstOccurrences definitions, firstOccurrences (sets.flatMap (·.imports))⟩
        module binding.name = .ok source ∧
      generator.emitter.emit generator.config source = .ok unit.content ∧
      (generator.generate fs module base).events =
        (generator.generate fs { module with bindings := before } base).events ++
          (generator.generateBinding fs module base binding).events ++
          (generator.generate fs { module with bindings := after } base).events ∧
      (generator.generateBinding fs module base binding).warnings =
        (conflictingIds definitions).map (.duplicateId source.registry.ident.text) ∧
      (∀ id, id ∈ conflictingIds definitions ↔
        ∃ a ∈ definitions, ∃ b ∈ definitions, a.id = id ∧ b.id = id ∧ a ≠ b) ∧
      (conflictingIds definitions).Nodup ∧
      (conflictingIds definitions).Sublist (firstOccurrences (definitions.map (·.id))) ∧
      conflictingIds (firstOccurrences definitions) = conflictingIds definitions ∧
      (∃ dataset, List.Forall₂
        (fun action decl => Synthesis.classDecl dataset action = .ok decl)
        (firstOccurrences definitions) source.classes) ∧
      source.registry.entries = source.classes.map Registry.entryOf ∧
      source.registry.entries.map (·.discriminator) =
        (firstOccurrences definitions).map (·.id) := by
  obtain ⟨files, set, hfiles, hset, hgenerate⟩ := generateBinding_eq_ok_iff.mp hunit
  obtain ⟨source, content, hsource, hcontent, rfl⟩ := generateUnit_eq_ok_iff.mp hgenerate
  obtain ⟨sets, hsets, rfl⟩ := FileSystem.loadSets_eq_ok_iff.mp hset
  refine ⟨files, sets, _, source, hfiles, hsets, rfl, hsource, hcontent, ?_,
    generateBinding_warnings hfiles hset hsource, fun id => mem_conflictingIds,
    nodup_conflictingIds _, List.filter_sublist, conflictingIds_firstOccurrences _, ?_, ?_,
    Synthesis.unit_discriminators hsource⟩
  · rw [generate, hbindings, Logged.events_forEach_append hbefore ⟨_, hunit⟩]
    rfl
  -- Types and entries are both made from the first occurrences.
  all_goals
    obtain ⟨qualifier, imports, dataset, classes, registry, companion, -, -, -, hclasses, -, rfl⟩ :=
      Synthesis.unit_eq_ok_iff.mp hsource
  · exact ⟨dataset, mapM_eq_ok_iff.mp hclasses⟩
  · rfl

/-- Two files: one repeats a definition, and the other one has a second one for an id of the
first. -/
def conflictingFiles : FileSystem :=
  ⟨[("a.json", .file ("\x7b\"definitions\":[\x7b\"id\":\"b\",\"expr\":\"x\"\x7d," ++
      "\x7b\"id\":\"a\",\"expr\":\"x\"\x7d,\x7b\"id\":\"b\",\"expr\":\"x\"\x7d]\x7d").toUTF8),
    ("b.json", .file "\x7b\"definitions\":[\x7b\"id\":\"a\",\"expr\":\"y\"\x7d]\x7d".toUTF8)], [], []⟩

/-- A file that is listed twice and a definition that is repeated are no reason to warn; the two
definitions of `a` are. -/
theorem repeated_file_warns_once :
    (generateBinding ⟨.outline, {}⟩ conflictingFiles
        ⟨"D", "p", [], [⟨"Foo", ["a.json", "b.json", "a.json"]⟩]⟩ ⟨""⟩
        ⟨"Foo", ["a.json", "b.json", "a.json"]⟩).result = .ok ⟨"Foo", ⟨"p/Foo.txt"⟩, "b\na\na"⟩ ∧
      (generateBinding ⟨.outline, {}⟩ conflictingFiles
        ⟨"D", "p", [], [⟨"Foo", ["a.json", "b.json", "a.json"]⟩]⟩ ⟨""⟩
        ⟨"Foo", ["a.json", "b.json", "a.json"]⟩).warnings = [.duplicateId "Foo" "a"] ∧
      ∃ files sets, (conflictingFiles.resolve ⟨""⟩ ["a.json", "b.json", "a.json"]).result =
          .ok files ∧
        List.Forall₂ (fun path set => (conflictingFiles.loadActions path).result = .ok set) files
          sets ∧
        conflictingIds (sets.flatMap (·.definitions)) = ["a"] := by
  have hunit : (generateBinding ⟨.outline, {}⟩ conflictingFiles
      ⟨"D", "p", [], [⟨"Foo", ["a.json", "b.json", "a.json"]⟩]⟩ ⟨""⟩
      ⟨"Foo", ["a.json", "b.json", "a.json"]⟩).result =
        .ok ⟨"Foo", ⟨"p/Foo.txt"⟩, "b\na\na"⟩ := by
    decide +kernel
  have hwarnings : (generateBinding ⟨.outline, {}⟩ conflictingFiles
      ⟨"D", "p", [], [⟨"Foo", ["a.json", "b.json", "a.json"]⟩]⟩ ⟨""⟩
      ⟨"Foo", ["a.json", "b.json", "a.json"]⟩).warnings = [.duplicateId "Foo" "a"] := by
    decide +kernel
  have hbindings : (ModuleDef.mk "D" "p" [] [⟨"Foo", ["a.json", "b.json", "a.json"]⟩]).bindings =
      [] ++ ⟨"Foo", ["a.json", "b.json", "a.json"]⟩ :: [] := rfl
  obtain ⟨files, sets, definitions, source, hfiles, hsets, rfl, -, -, -, hids, -⟩ :=
    generate_warns_of_conflicts hbindings (by simp) hunit
  refine ⟨hunit, hwarnings, files, sets, hfiles, hsets, ?_⟩
  rw [hwarnings] at hids
  obtain ⟨id, rest, heq, hid, hrest⟩ := List.map_eq_cons_iff.mp hids.symm
  rw [heq, List.map_eq_nil_iff.mp hrest, (Event.duplicateId.inj hid).2]

end Generator

end ActionUnits
