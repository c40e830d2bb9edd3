import ActionUnits.Proofs.Distinct
import ActionUnits.Proofs.Files.Writing
import ActionUnits.Proofs.Project

/-! # The files of a module

All units of a module go into the folder of its package, each into a file named
after its binding. Nothing keeps two bindings from having one name, and then the
unit that is written last replaces the other. Units of bindings with different
names never get in each other's way.
-/

namespace ActionUnits

open Text

namespace FileSystem

/-- A path goes on from where the path before it leads, unless it starts at the root. -/
theorem locate_join (fs : FileSystem) (base other : FilePath) :
    fs.locate (base.join other) =
      other.innerComponents.foldl walk (if other.isAbsolute then [] else fs.locate base) := by
  cases habs : other.isAbsolute with
  | true => simp [FilePath.join, habs, locate, start]
  | false =>
      have hstart : fs.start (base.join other) = fs.start base := by
        simp [start, FilePath.isAbsolute_join, habs]
      rw [locate, FilePath.innerComponents_join base habs, List.foldl_append, hstart]
      rfl

end FileSystem

namespace FilePath

/-- A file name without a slash is a single name, if the unit's name is more than points. -/
theorem innerComponents_fileName {unit extension : String} (hunit : '/' ∉ unit.toList)
    (hslash : '/' ∉ extension.toList) (hname : ∃ c ∈ unit.toList, c ≠ '.') :
    innerComponents ⟨unit ++ "." ++ extension⟩ = [.normal (unit ++ "." ++ extension)] := by
  have hplain : '/' ∉ (unit ++ "." ++ extension).toList := by
    simp [String.toList_append, hunit, hslash]
  obtain ⟨c, hc, hpoint⟩ := hname
  have hmem : c ∈ (unit ++ "." ++ extension).toList := by simp [hc]
  rw [innerComponents, parts, splitAll_of_notMem hplain, List.filterMap_cons,
    component?_of_mem hmem hpoint, String.ofList_toList]
  rfl

theorem isAbsolute_fileName {unit extension : String} (hunit : '/' ∉ unit.toList) :
    isAbsolute ⟨unit ++ "." ++ extension⟩ = false := by
  cases hchars : unit.toList with
  | nil => simp [isAbsolute, hchars]
  | cons c cs =>
      have hc : c ≠ '/' := fun heq => hunit (heq ▸ hchars ▸ List.mem_cons_self)
      simpa [isAbsolute, hchars] using hc

end FilePath

namespace ModuleDef

/-- The folder that the units of a module are written into. -/
def folder (module : ModuleDef) : FilePath :=
  module.packageSegments.foldl (fun path segment => path.join ⟨segment⟩) ⟨""⟩

end ModuleDef

namespace ModuleDef

variable {module : ModuleDef} {unit extension : String}

theorem filePath_isAbsolute (hunit : '/' ∉ unit.toList) :
    (module.filePath unit extension).isAbsolute = module.folder.isAbsolute := by
  change (module.folder.join ⟨unit ++ "." ++ extension⟩).isAbsolute = _
  rw [FilePath.isAbsolute_join, FilePath.isAbsolute_fileName hunit, Bool.or_false]

/-- The path of a unit ends in its file name. -/
theorem filePath_innerComponents_append (hunit : '/' ∉ unit.toList)
    (hslash : '/' ∉ extension.toList) (hname : ∃ c ∈ unit.toList, c ≠ '.') :
    (module.filePath unit extension).innerComponents =
      module.folder.innerComponents ++ [.normal (unit ++ "." ++ extension)] := by
  change (module.folder.join ⟨unit ++ "." ++ extension⟩).innerComponents = _
  rw [FilePath.innerComponents_join _ (FilePath.isAbsolute_fileName hunit),
    FilePath.innerComponents_fileName hunit hslash hname]

/-- Different names give paths with different components. -/
theorem filePath_components_inj {other : String} (hunit : '/' ∉ unit.toList)
    (hother : '/' ∉ other.toList) (hslash : '/' ∉ extension.toList)
    (hname : ∃ c ∈ unit.toList, c ≠ '.') (hname' : ∃ c ∈ other.toList, c ≠ '.')
    (h : (module.filePath unit extension).components =
      (module.filePath other extension).components) : unit = other := by
  have hfilter := congrArg (List.filter (· ≠ .current)) h
  rw [FilePath.components_filter, FilePath.components_filter, filePath_isAbsolute hunit,
    filePath_isAbsolute hother, filePath_innerComponents_append hunit hslash hname,
    filePath_innerComponents_append hother hslash hname'] at hfilter
  have hlast := List.append_cancel_left (List.append_cancel_left hfilter)
  simpa using hlast

/-- The destinations of the units of a module lie side by side in one folder. -/
theorem locate_filePath (hunit : '/' ∉ unit.toList) (hslash : '/' ∉ extension.toList)
    (hname : ∃ c ∈ unit.toList, c ≠ '.') (fs : FileSystem) (root : FilePath) :
    fs.locate (root.join (module.filePath unit extension)) =
      fs.locate (root.join module.folder) ++ [unit ++ "." ++ extension] := by
  rw [FileSystem.locate_join, FileSystem.locate_join, filePath_isAbsolute hunit,
    filePath_innerComponents_append hunit hslash hname, List.foldl_append]
  rfl

end ModuleDef

namespace Generator

variable {generator : Generator} {fs : FileSystem} {module : ModuleDef} {base : FilePath}
  {units : List GeneratedUnit}

/-- The units of a module are named and placed after its bindings, and their names are more than
points. -/
theorem generate_eq_ok (h : (generator.generate fs module base).result = .ok units) :
    units.map (·.name) = module.bindings.map (·.name) ∧
      ∀ unit ∈ units, unit.path = module.filePath unit.name generator.emitter.extension ∧
        ∃ c ∈ unit.name.toList, c ≠ '.' := by
  rw [generate_result, mapM_eq_ok_iff] at h
  constructor
  · generalize module.bindings = bindings at h
    induction h with
    | nil => rfl
    | cons hfirst _ ih => rw [List.map_cons, List.map_cons, ih, generateBinding_name hfirst]
  · intro unit hmem
    obtain ⟨binding, -, hbinding⟩ := forall₂_mem_right h hmem
    obtain ⟨files, set, -, -, hunit⟩ := generateBinding_eq_ok_iff.mp hbinding
    obtain ⟨source, content, hsource, -, rfl⟩ := generateUnit_eq_ok_iff.mp hunit
    obtain ⟨c, hc, -, hpoint⟩ := Synthesis.exists_char_of_unit hsource
    exact ⟨rfl, c, hc, hpoint⟩

/-- Bindings with different names get units with different paths, if neither a name nor the extension
of the emitter has a slash; after the units were written below a root, each one is there and up to
date. -/
theorem distinct_names_keep_units (hunits : (generator.generate fs module base).result = .ok units)
    (hplain : ∀ binding ∈ module.bindings, '/' ∉ binding.name.toList)
    (hext : '/' ∉ generator.emitter.extension.toList) :
    ((units.map (·.path.components)).Nodup ↔ (module.bindings.map (·.name)).Nodup) ∧
      ((module.bindings.map (·.name)).Nodup →
        ∀ (root : FilePath) (before : FileSystem),
          (∃ results, ((Writer.mk false).writeAll root units before).2.result = .ok results) →
          ∀ unit ∈ units,
            ((Writer.mk false).writeAll root units before).1.read (unit.destination root) =
                .ok unit.content ∧
              Writer.check ((Writer.mk false).writeAll root units before).1 root unit =
                .ok .upToDate) := by
  obtain ⟨hnames, hunit⟩ := generate_eq_ok hunits
  have hslash : ∀ unit ∈ units, '/' ∉ unit.name.toList := by
    intro unit hunit
    have hmem : unit.name ∈ units.map (·.name) := List.mem_map_of_mem hunit
    rw [hnames] at hmem
    obtain ⟨binding, hbinding, hname⟩ := List.mem_map.mp hmem
    exact hname ▸ hplain binding hbinding
  rw [← hnames]
  -- Each unit lies right in the folder of the module, under its name with the extension.
  have hlocate : ∀ (root : FilePath) (before : FileSystem), ∀ unit ∈ units,
      before.locate (unit.destination root) =
        before.locate (root.join module.folder) ++
          [unit.name ++ "." ++ generator.emitter.extension] := by
    intro root before unit hmem
    rw [GeneratedUnit.destination, (hunit unit hmem).1]
    exact ModuleDef.locate_filePath (hslash unit hmem) hext (hunit unit hmem).2 before root
  constructor
  · constructor
    · refine nodup_map_of_imp fun a ha b hb heq => ?_
      rw [(hunit a ha).1, (hunit b hb).1, heq]
    · refine nodup_map_of_imp fun a ha b hb heq => ?_
      rw [(hunit a ha).1, (hunit b hb).1] at heq
      exact ModuleDef.filePath_components_inj (hslash a ha) (hslash b hb) hext (hunit a ha).2
        (hunit b hb).2 heq
  · rintro hdistinct root before ⟨results, hresults⟩ unit hunit
    -- Places differ as names do, so no unit is written over another.
    have hplaces : (units.map fun unit => before.locate (unit.destination root)).Nodup := by
      refine nodup_map_of_imp (fun a ha b hb heq => ?_) hdistinct
      rw [hlocate root before a ha, hlocate root before b hb] at heq
      simpa using heq
    have hholds := (Writer.writeAll_eq_ok hresults hplaces).2 unit hunit
    exact ⟨hholds.read, hholds.check⟩

def twoFiles : FileSystem :=
  ⟨[("a.json", .file "\x7b\"definitions\":[\x7b\"id\":\"a\",\"expr\":\"x\"\x7d]\x7d".toUTF8),
    ("b.json", .file "\x7b\"definitions\":[\x7b\"id\":\"b\",\"expr\":\"x\"\x7d]\x7d".toUTF8)], [], []⟩

/-- Units with names of their own, below a folder that is made for them. -/
theorem both_units_written :
    (generate ⟨.outline, {}⟩ twoFiles
        ⟨"D", "p.q", [], [⟨"Foo", ["a.json"]⟩, ⟨"Bar", ["b.json"]⟩]⟩ ⟨""⟩).result =
      .ok [⟨"Foo", ⟨"p/q/Foo.txt"⟩, "a"⟩, ⟨"Bar", ⟨"p/q/Bar.txt"⟩, "b"⟩] ∧
    ((Writer.mk false).writeAll ⟨"out"⟩
        [⟨"Foo", ⟨"p/q/Foo.txt"⟩, "a"⟩, ⟨"Bar", ⟨"p/q/Bar.txt"⟩, "b"⟩] twoFiles).2.result =
      .ok [.written ⟨"out/p/q/Foo.txt"⟩ 1, .written ⟨"out/p/q/Bar.txt"⟩ 1] ∧
    Writer.check ((Writer.mk false).writeAll ⟨"out"⟩
        [⟨"Foo", ⟨"p/q/Foo.txt"⟩, "a"⟩, ⟨"Bar", ⟨"p/q/Bar.txt"⟩, "b"⟩] twoFiles).1 ⟨"out"⟩
        ⟨"Foo", ⟨"p/q/Foo.txt"⟩, "a"⟩ = .ok .upToDate := by
  have hunits : (generate ⟨.outline, {}⟩ twoFiles
      ⟨"D", "p.q", [], [⟨"Foo", ["a.json"]⟩, ⟨"Bar", ["b.json"]⟩]⟩ ⟨""⟩).result =
        .ok [⟨"Foo", ⟨"p/q/Foo.txt"⟩, "a"⟩, ⟨"Bar", ⟨"p/q/Bar.txt"⟩, "b"⟩] := by
    decide +kernel
  have hwritten : ((Writer.mk false).writeAll ⟨"out"⟩
      [⟨"Foo", ⟨"p/q/Foo.txt"⟩, "a"⟩, ⟨"Bar", ⟨"p/q/Bar.txt"⟩, "b"⟩] twoFiles).2.result =
        .ok [.written ⟨"out/p/q/Foo.txt"⟩ 1, .written ⟨"out/p/q/Bar.txt"⟩ 1] := by
    decide +kernel
  refine ⟨hunits, hwritten, ?_⟩
  exact ((distinct_names_keep_units hunits (by decide +kernel) (by decide)).2 (by decide +kernel) ⟨"out"⟩
    twoFiles ⟨_, hwritten⟩ _ List.mem_cons_self).2

/-- Two bindings with one name: both units have one path, writing them succeeds, and what the first
one held is gone. -/
theorem one_name_loses_unit :
    (generate ⟨.outline, {}⟩ twoFiles
        ⟨"D", "", [], [⟨"Foo", ["a.json"]⟩, ⟨"Foo", ["b.json"]⟩]⟩ ⟨""⟩).result =
      .ok [⟨"Foo", ⟨"Foo.txt"⟩, "a"⟩, ⟨"Foo", ⟨"Foo.txt"⟩, "b"⟩] ∧
    ((Writer.mk false).writeAll ⟨"out"⟩
        [⟨"Foo", ⟨"Foo.txt"⟩, "a"⟩, ⟨"Foo", ⟨"Foo.txt"⟩, "b"⟩] twoFiles).2.result =
      .ok [.written ⟨"out/Foo.txt"⟩ 1, .written ⟨"out/Foo.txt"⟩ 1] ∧
    ((Writer.mk false).writeAll ⟨"out"⟩
        [⟨"Foo", ⟨"Foo.txt"⟩, "a"⟩, ⟨"Foo", ⟨"Foo.txt"⟩, "b"⟩] twoFiles).1.read ⟨"out/Foo.txt"⟩ =
      .ok "b" ∧
    Writer.check ((Writer.mk false).writeAll ⟨"out"⟩
        [⟨"Foo", ⟨"Foo.txt"⟩, "a"⟩, ⟨"Foo", ⟨"Foo.txt"⟩, "b"⟩] twoFiles).1 ⟨"out"⟩
        ⟨"Foo", ⟨"Foo.txt"⟩, "a"⟩ = .ok .stale := by
  refine ⟨?_, ?_, ?_, ?_⟩ <;> decide +kernel

end Generator

end ActionUnits
