import ActionUnits.Project
import ActionUnits.Proofs.Load

/-! # Generating a module as a whole

A module is generated binding by binding, and each binding in four stages:
resolving its patterns, loading its files, synthesis and emission. Every stage
stops at its first failure; only the last one may end the program instead of
reporting an error. A binding never sees the other bindings, so a module generates
exactly if each of its bindings generates alone.
-/

namespace ActionUnits

/-- The module restricted to a single binding. -/
def ModuleDef.only (module : ModuleDef) (binding : Binding) : ModuleDef :=
  { module with bindings := [binding] }

namespace FileSystem

/-- Entries are resolved one by one, and what they give is put together in order. -/
theorem resolve_result (fs : FileSystem) (base : FilePath) (entries : List String) :
    (fs.resolve base entries).result =
      (entries.mapM fun entry => (fs.resolveEntry base entry).result).map List.flatten := by
  rw [resolve, Logged.result_bind, Logged.result_forEach]
  cases entries.mapM fun entry => (fs.resolveEntry base entry).result <;> rfl

/-- Resolving fails as the first entry that fails does. -/
theorem resolve_eq_error_iff {fs : FileSystem} {base : FilePath} {entries : List String}
    {e : Error} :
    (fs.resolve base entries).result = .error e ↔
      FirstFailure (fun entry => (fs.resolveEntry base entry).result) entries e := by
  rw [resolve_result, ← mapM_eq_error_iff]
  cases entries.mapM fun entry => (fs.resolveEntry base entry).result <;> simp [Except.map]

end FileSystem

namespace Generator

/-- The first stage at which a binding fails, with the failure of that stage. The stages before it
have succeeded. -/
inductive BindingFault (generator : Generator) (fs : FileSystem) (module : ModuleDef)
    (base : FilePath) (binding : Binding) : Failure → Prop where
  /-- The first pattern that does not resolve. -/
  | resolving {e : Error}
      (first : FirstFailure (fun entry => (fs.resolveEntry base entry).result)
        binding.configFiles e) :
      BindingFault generator fs module base binding (.reported e)
  /-- The first file that does not load. -/
  | loading {e : Error} (files : List FilePath)
      (resolved : (fs.resolve base binding.configFiles).result = .ok files)
      (first : FirstFailure (fun path => (fs.loadActions path).result) files e) :
      BindingFault generator fs module base binding (.reported e)
  | synthesis {e : Error} (files : List FilePath) (set : ActionSet)
      (resolved : (fs.resolve base binding.configFiles).result = .ok files)
      (loaded : (fs.loadSets files).result = .ok set)
      (fault : Synthesis.unit set module binding.name = .error e) :
      BindingFault generator fs module base binding (.reported e)
  /-- The emitter reports an error or ends the program. -/
  | emission {failure : Failure} (files : List FilePath) (set : ActionSet) (source : SourceUnit)
      (resolved : (fs.resolve base binding.configFiles).result = .ok files)
      (loaded : (fs.loadSets files).result = .ok set)
      (synthesized : Synthesis.unit set module binding.name = .ok source)
      (fault : generator.emitter.emit generator.config source = .error failure) :
      BindingFault generator fs module base binding failure

section Binding

variable {generator : Generator} {fs : FileSystem} {module : ModuleDef} {base : FilePath}
  {binding : Binding}

/-- A binding is resolved, loaded and generated, and the first stage that fails decides. -/
theorem generateBinding_result :
    (generator.generateBinding fs module base binding).result =
      (fs.resolve base binding.configFiles).result.mapError .reported >>= fun files =>
        (fs.loadSets files).result.mapError .reported >>= fun set =>
          (generator.generateUnit set module binding.name).result := by
  simp only [generateBinding, Logged.result_bind, Logged.result_mapError]

/-- A binding generates exactly if all its stages succeed. -/
theorem generateBinding_eq_ok_iff {unit : GeneratedUnit} :
    (generator.generateBinding fs module base binding).result = .ok unit ↔
      ∃ files set, (fs.resolve base binding.configFiles).result = .ok files ∧
        (fs.loadSets files).result = .ok set ∧
        (generator.generateUnit set module binding.name).result = .ok unit := by
  simp only [generateBinding_result, bind_eq_ok_iff, mapError_eq_ok_iff, exists_and_left]

/-- A binding fails in exactly one stage, after those before it succeeded. -/
theorem generateBinding_eq_error_iff {failure : Failure} :
    (generator.generateBinding fs module base binding).result = .error failure ↔
      BindingFault generator fs module base binding failure := by
  simp only [generateBinding_result, bind_eq_error_iff, mapError_eq_ok_iff, mapError_eq_error_iff,
    generateUnit_eq_error_iff, FileSystem.resolve_eq_error_iff, FileSystem.loadSets_eq_error_iff]
  constructor
  · rintro (⟨e, hfirst, rfl⟩ | ⟨files, hfiles, ⟨e, hfirst, rfl⟩ | ⟨set, hset,
      ⟨e, hsource, rfl⟩ | ⟨source, hsource, hemit⟩⟩⟩)
    · exact .resolving hfirst
    · exact .loading files hfiles hfirst
    · exact .synthesis files set hfiles hset hsource
    · exact .emission files set source hfiles hset hsource hemit
  · rintro (hfirst | ⟨files, hfiles, hfirst⟩ | ⟨files, set, hfiles, hset, hsource⟩ |
      ⟨files, set, source, hfiles, hset, hsource, hemit⟩)
    · exact .inl ⟨_, hfirst, rfl⟩
    · exact .inr ⟨files, hfiles, .inl ⟨_, hfirst, rfl⟩⟩
    · exact .inr ⟨files, hfiles, .inr ⟨set, hset, .inl ⟨_, hsource, rfl⟩⟩⟩
    · exact .inr ⟨files, hfiles, .inr ⟨set, hset, .inr ⟨source, hsource, hemit⟩⟩⟩

/-- The unit of a binding has its name. -/
theorem generateBinding_name {unit : GeneratedUnit}
    (h : (generator.generateBinding fs module base binding).result = .ok unit) :
    unit.name = binding.name := by
  obtain ⟨files, set, -, -, hunit⟩ := generateBinding_eq_ok_iff.mp h
  obtain ⟨source, content, -, -, rfl⟩ := generateUnit_eq_ok_iff.mp hunit
  rfl

end Binding

/-- A module is generated binding by binding. -/
theorem generate_result (generator : Generator) (fs : FileSystem) (module : ModuleDef)
    (base : FilePath) :
    (generator.generate fs module base).result =
      module.bindings.mapM fun binding => (generator.generateBinding fs module base binding).result :=
  Logged.result_forEach _ _

/-- A binding alone in the module generates what it generates among others. -/
theorem generate_only_result (generator : Generator) (fs : FileSystem) (module : ModuleDef)
    (base : FilePath) (binding : Binding) :
    (generator.generate fs (module.only binding) base).result =
      (generator.generateBinding fs module base binding).result.map fun unit => [unit] := by
  rw [generate_result]
  change ([binding].mapM fun other =>
    (generator.generateBinding fs module base other).result) = _
  rw [List.mapM_cons]
  cases (generator.generateBinding fs module base binding).result <;> rfl

section Local

variable {generator : Generator} {fs : FileSystem} {module : ModuleDef} {base : FilePath}

theorem generate_only_eq_ok_iff {binding : Binding} :
    (∃ units, (generator.generate fs (module.only binding) base).result = .ok units) ↔
      ∃ unit, (generator.generateBinding fs module base binding).result = .ok unit := by
  rw [generate_only_result]
  cases (generator.generateBinding fs module base binding).result <;> simp [Except.map]

theorem generate_only_eq_singleton_iff {binding : Binding} {unit : GeneratedUnit} :
    (generator.generate fs (module.only binding) base).result = .ok [unit] ↔
      (generator.generateBinding fs module base binding).result = .ok unit := by
  rw [generate_only_result]
  cases (generator.generateBinding fs module base binding).result <;> simp [Except.map]

/-- A module with one binding fails as that binding does. -/
theorem generate_only_eq_error_iff {binding : Binding} {failure : Failure} :
    (generator.generate fs (module.only binding) base).result = .error failure ↔
      (generator.generateBinding fs module base binding).result = .error failure := by
  rw [generate_only_result]
  cases (generator.generateBinding fs module base binding).result <;> simp [Except.map]

end Local

/-- A module generates exactly if each binding generates alone, and then it gives their units in
order. Else it fails as the first binding that fails alone does, in the first stage at which that
binding fails. Generation is given a file system and gives none back, so it changes no file. -/
theorem generate_all_or_nothing (generator : Generator) (fs : FileSystem) (module : ModuleDef)
    (base : FilePath) :
    ((∃ units, (generator.generate fs module base).result = .ok units) ↔
        ∀ binding ∈ module.bindings,
          ∃ units, (generator.generate fs (module.only binding) base).result = .ok units) ∧
      (∀ units, (generator.generate fs module base).result = .ok units ↔
        List.Forall₂ (fun binding unit => unit.name = binding.name ∧
          (generator.generate fs (module.only binding) base).result = .ok [unit])
          module.bindings units) ∧
      (∀ failure, (generator.generate fs module base).result = .error failure ↔
        ∃ before binding after, module.bindings = before ++ binding :: after ∧
          (∀ other ∈ before,
            ∃ units, (generator.generate fs (module.only other) base).result = .ok units) ∧
          (generator.generate fs (module.only binding) base).result = .error failure) ∧
      ∀ binding failure,
        (generator.generate fs (module.only binding) base).result = .error failure ↔
          BindingFault generator fs module base binding failure := by
  refine ⟨?_, ?_, ?_, ?_⟩
  · simp only [generate_only_eq_ok_iff]
    rw [generate_result]
    exact exists_mapM_eq_ok_iff
  · intro units
    rw [generate_result, mapM_eq_ok_iff]
    constructor
    · refine List.Forall₂.imp fun binding unit h => ?_
      exact ⟨generateBinding_name h, generate_only_eq_singleton_iff.mpr h⟩
    · exact List.Forall₂.imp fun binding unit h => generate_only_eq_singleton_iff.mp h.2
  · intro failure
    rw [generate_result, mapM_eq_error_iff]
    simp only [generate_only_eq_ok_iff, generate_only_eq_error_iff]
    rfl
  · intro binding failure
    rw [generate_only_eq_error_iff]
    exact generateBinding_eq_error_iff

/-- A tail call reads, but the printer has no rule for it. -/
example : (generateUnit {} ⟨[⟨"a", "become f()", [], false, none⟩], []⟩
    ⟨"DataFrame", "p", [], []⟩ "Foo").result = .error .crash := by
  decide +kernel

end Generator

end ActionUnits
