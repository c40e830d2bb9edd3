import ActionUnits.Proofs.Generation
import ActionUnits.Proofs.Synthesis
import ActionUnits.Proofs.Text.Split
import ActionUnits.Proofs.Token.Points
import ActionUnits.Writer
import Mathlib.Control.Monad.Basic

/-! # Where generated files end up

A generated file belongs below the output root. Its path is pieced together from
the segments of the package and the name of the unit as they are configured, and
joining paths lets an absolute piece replace all that stands before it. The path
stays below every root exactly if no piece starts at the root of the file system
and no piece has a part that leads upwards. Identifiers are looked for behind
blanks and comments, so reading a unit does not rule such pieces out.
-/

namespace ActionUnits

open Text

namespace FilePath

/-- The components that the parts of a path stand for when something precedes them. -/
def innerComponents (path : FilePath) : List Component :=
  path.parts.filterMap component?

/-- A path below a root: it goes on from the root by names only. A component that
stays where it is does not count. -/
def LiesBelow (path root : FilePath) : Prop :=
  ∃ names : List String, names ≠ [] ∧
    path.components.filter (· ≠ .current) =
      root.components.filter (· ≠ .current) ++ names.map .normal

theorem parts_ne_nil (path : FilePath) : path.parts ≠ [] :=
  splitAll_ne_nil '/' path.text.toList

/-- A path is absolute exactly if it starts with a slash. -/
theorem isAbsolute_iff {path : FilePath} :
    path.isAbsolute = true ↔ ∃ cs, path.text.toList = '/' :: cs := by
  unfold isAbsolute
  cases path.text.toList with
  | nil => simp
  | cons c cs => simp

theorem parts_of_isAbsolute {path : FilePath} (habs : path.isAbsolute = true) :
    ∃ rest, path.parts = [] :: rest := by
  obtain ⟨cs, hcs⟩ := isAbsolute_iff.mp habs
  exact ⟨splitAll '/' cs, by rw [parts, hcs, splitAll_cons_self]⟩

/-! ## Components -/

theorem component?_ne_current (part : List Char) : component? part ≠ some .current := by
  unfold component?
  split
  · simp
  · split <;> simp

theorem component?_ne_root (part : List Char) : component? part ≠ some .root := by
  unfold component?
  split
  · simp
  · split <;> simp

/-- Only two points lead to the parent. -/
theorem component?_eq_parent_iff {part : List Char} :
    component? part = some .parent ↔ part = ['.', '.'] := by
  unfold component?
  split
  next h =>
    rcases Bool.or_eq_true_iff.mp h with hempty | hdot
    · simp [List.isEmpty_iff.mp hempty]
    · simp [eq_of_beq hdot]
  next => split <;> simp_all

/-- Without components that stay where they are, a path is its root, if it has one, and what its
parts stand for. -/
theorem components_filter (path : FilePath) :
    path.components.filter (· ≠ .current) =
      (if path.isAbsolute then [.root] else []) ++ path.innerComponents := by
  have hinner : ∀ parts : List (List Char),
      (parts.filterMap component?).filter (· ≠ .current) = parts.filterMap component? := by
    intro parts
    refine List.filter_eq_self.mpr fun component hcomponent => ?_
    obtain ⟨part, -, hpart⟩ := List.mem_filterMap.mp hcomponent
    have hne : component ≠ .current := by
      rintro rfl
      exact component?_ne_current part hpart
    simp [hne]
  unfold components innerComponents
  cases hparts : path.parts with
  | nil => exact absurd hparts path.parts_ne_nil
  | cons first rest =>
      simp only [List.filter_append, hinner]
      by_cases habs : path.isAbsolute = true
      · obtain ⟨others, hfirst⟩ := parts_of_isAbsolute habs
        rw [hparts, List.cons.injEq] at hfirst
        simp [habs, hfirst.1, component?]
      · simp only [habs, Bool.false_eq_true, ↓reduceIte, List.nil_append]
        by_cases hdot : first = ['.']
        · simp [hdot, component?]
        · have hsingle := hinner [first]
          cases hcomponent : component? first with
          | none => simp [hdot, hcomponent]
          | some component =>
              simp only [List.filterMap_cons, hcomponent, List.filterMap_nil] at hsingle
              have hbeq : (first == ['.']) = false := beq_false_of_ne hdot
              simp only [hbeq, Bool.false_eq_true, ↓reduceIte, hcomponent, Option.toList_some,
                hsingle, List.filterMap_cons, List.singleton_append]

/-- A path has the root among its components exactly if it is absolute. -/
theorem root_mem_components_iff {path : FilePath} :
    .root ∈ path.components ↔ path.isAbsolute = true := by
  have hmem : .root ∈ path.components ↔ .root ∈ path.components.filter (· ≠ .current) := by
    simp [List.mem_filter]
  rw [hmem, components_filter]
  have hinner : .root ∉ path.innerComponents := by
    intro h
    obtain ⟨part, -, hpart⟩ := List.mem_filterMap.mp h
    exact component?_ne_root part hpart
  by_cases habs : path.isAbsolute = true <;> simp [habs, hinner]

/-- A path leads to a parent exactly if two points stand between its slashes. -/
theorem parent_mem_innerComponents_iff {path : FilePath} :
    .parent ∈ path.innerComponents ↔ ['.', '.'] ∈ path.parts := by
  simp [innerComponents, List.mem_filterMap, component?_eq_parent_iff]

theorem parent_mem_components_iff {path : FilePath} :
    .parent ∈ path.components ↔ ['.', '.'] ∈ path.parts := by
  have hmem : .parent ∈ path.components ↔ .parent ∈ path.components.filter (· ≠ .current) := by
    simp [List.mem_filter]
  rw [hmem, components_filter, ← parent_mem_innerComponents_iff]
  by_cases habs : path.isAbsolute = true <;> simp [habs]

/-- A part with a character that is no point is a name. -/
theorem component?_of_mem {part : List Char} {c : Char} (hc : c ∈ part) (hpoint : c ≠ '.') :
    component? part = some (.normal (String.ofList part)) := by
  have hempty : part ≠ [] := List.ne_nil_of_mem hc
  have hdot : part ≠ ['.'] := by
    rintro rfl
    exact hpoint (List.mem_singleton.mp hc)
  have hdots : part ≠ ['.', '.'] := by
    rintro rfl
    simp [hpoint] at hc
  simp [component?, hempty, hdot, hdots]

theorem innerComponents_ne_nil {path : FilePath} {c : Char} (hc : c ∈ path.text.toList)
    (hslash : c ≠ '/') (hpoint : c ≠ '.') : path.innerComponents ≠ [] := by
  obtain ⟨part, hpart, hmem⟩ := exists_mem_splitAll hc hslash
  exact List.ne_nil_of_mem
    (List.mem_filterMap.mpr ⟨part, hpart, component?_of_mem hmem hpoint⟩)

/-- Parts that do not lead upwards are names, or stand for nothing. -/
theorem innerComponents_eq_names {path : FilePath} (hparent : ['.', '.'] ∉ path.parts) :
    ∃ names : List String, path.innerComponents = names.map .normal := by
  unfold innerComponents
  generalize path.parts = parts at hparent ⊢
  induction parts with
  | nil => exact ⟨[], rfl⟩
  | cons part parts ih =>
      have hpart : part ≠ ['.', '.'] := fun h => hparent (h ▸ List.mem_cons_self)
      obtain ⟨names, hnames⟩ := ih fun h => hparent (List.mem_cons_of_mem _ h)
      by_cases hnone : (part.isEmpty || part == ['.']) = true
      · exact ⟨names, by simp [component?, hnone, hnames]⟩
      · exact ⟨String.ofList part :: names, by simp [component?, hnone, hpart, hnames]⟩

/-! ## Joining -/

/-- A joined path is absolute if one of the two is. -/
theorem isAbsolute_join (base other : FilePath) :
    (base.join other).isAbsolute = (base.isAbsolute || other.isAbsolute) := by
  unfold join
  split
  next habs => simp [habs]
  next hrel =>
    rw [Bool.not_eq_true] at hrel
    rw [hrel, Bool.or_false]
    cases hbase : base.text.toList with
    | nil =>
        have hempty : base.text = "" := String.toList_eq_nil_iff.mp hbase
        simpa [isAbsolute, hempty] using hrel
    | cons c cs => split <;> simp [isAbsolute, hbase]

/-- A relative path adds its own components. -/
theorem innerComponents_join (base : FilePath) {other : FilePath}
    (hrel : other.isAbsolute = false) :
    (base.join other).innerComponents = base.innerComponents ++ other.innerComponents := by
  simp only [join, hrel, Bool.false_eq_true, ↓reduceIte, innerComponents, parts]
  split
  next h =>
    rcases Bool.or_eq_true_iff.mp h with hempty | hslash
    · simp [String.isEmpty_iff.mp hempty, splitAll, component?]
    · obtain ⟨before, hbefore⟩ := List.getLast?_eq_some_iff.mp (eq_of_beq hslash)
      rw [String.toList_append, hbefore, List.append_assoc, List.singleton_append,
        splitAll_append_cons, splitAll_append_cons]
      simp [splitAll, component?]
  next =>
    have hjoined : (base.text ++ "/" ++ other.text).toList =
        base.text.toList ++ '/' :: other.text.toList := by
      simp [String.toList_append]
    rw [hjoined, splitAll_append_cons, List.filterMap_append]

/-- A path joined of pieces is absolute if one of them is. -/
theorem isAbsolute_foldl_join (base : FilePath) (pieces : List FilePath) :
    (pieces.foldl join base).isAbsolute = (base.isAbsolute || pieces.any isAbsolute) := by
  induction pieces generalizing base with
  | nil => simp
  | cons piece pieces ih =>
      rw [List.foldl_cons, ih, isAbsolute_join, List.any_cons, Bool.or_assoc]

/-- The components of a path joined of relative pieces are those of the pieces. -/
theorem innerComponents_foldl_join (base : FilePath) {pieces : List FilePath}
    (hrel : ∀ piece ∈ pieces, piece.isAbsolute = false) :
    (pieces.foldl join base).innerComponents =
      base.innerComponents ++ pieces.flatMap innerComponents := by
  induction pieces generalizing base with
  | nil => simp
  | cons piece pieces ih =>
      rw [List.foldl_cons, ih _ fun p hp => hrel p (List.mem_cons_of_mem _ hp),
        innerComponents_join base (hrel piece List.mem_cons_self), List.flatMap_cons,
        List.append_assoc]

/-- What is joined to a root lies below it if it goes on by names only. -/
theorem join_liesBelow {path : FilePath} (hrel : path.isAbsolute = false) {names : List String}
    (hnames : names ≠ []) (hinner : path.innerComponents = names.map .normal) (root : FilePath) :
    (root.join path).LiesBelow root := by
  refine ⟨names, hnames, ?_⟩
  rw [components_filter, components_filter, isAbsolute_join, hrel, Bool.or_false,
    innerComponents_join root hrel, hinner, List.append_assoc]

/-- A path that lies below the empty root is relative and does not lead upwards. -/
theorem contained_of_liesBelow_empty {path : FilePath} (h : path.LiesBelow ⟨""⟩) :
    path.isAbsolute = false ∧ ['.', '.'] ∉ path.parts := by
  obtain ⟨names, -, hnames⟩ := h
  have hempty : (FilePath.mk "").components = [] := by decide
  rw [hempty, List.filter_nil, List.nil_append] at hnames
  have hnormal : ∀ component ∈ path.components.filter (· ≠ .current),
      ∃ name, component = .normal name := by
    rw [hnames]
    intro component hcomponent
    obtain ⟨name, -, rfl⟩ := List.mem_map.mp hcomponent
    exact ⟨name, rfl⟩
  constructor
  · rw [← Bool.not_eq_true, ← root_mem_components_iff]
    intro hroot
    obtain ⟨name, hname⟩ := hnormal .root (List.mem_filter.mpr ⟨hroot, by decide⟩)
    exact Component.noConfusion hname
  · rw [← parent_mem_components_iff]
    intro hparent
    obtain ⟨name, hname⟩ := hnormal .parent (List.mem_filter.mpr ⟨hparent, by decide⟩)
    exact Component.noConfusion hname

end FilePath

namespace ModuleDef

/-- The texts that the path of a unit is pieced together from. -/
def pathPieces (module : ModuleDef) (unit extension : String) : List FilePath :=
  (module.packageSegments ++ [unit ++ "." ++ extension]).map FilePath.mk

/-- The path of a unit is joined of the segments of the package and the name of the file. -/
theorem filePath_eq_foldl (module : ModuleDef) (unit extension : String) :
    module.filePath unit extension = (module.pathPieces unit extension).foldl FilePath.join ⟨""⟩ := by
  simp [filePath, pathPieces, List.foldl_map]

/-- Points separate the segments of a package, so no segment leads upwards. -/
theorem dots_notMem_parts_of_mem_packageSegments {module : ModuleDef} {segment : String}
    (hsegment : segment ∈ module.packageSegments) : ['.', '.'] ∉ FilePath.parts ⟨segment⟩ := by
  intro hdots
  have hpoint : '.' ∈ segment.toList := mem_of_mem_splitAll hdots List.mem_cons_self
  unfold packageSegments at hsegment
  split at hsegment
  · simp at hsegment
  · obtain ⟨piece, hpiece, rfl⟩ := List.mem_map.mp hsegment
    rw [String.toList_ofList] at hpoint
    exact notMem_of_mem_splitAll hpiece hpoint

/-- No configured text of a unit's path starts with a slash, and the file name has no part that
leads upwards. -/
def PathContained (module : ModuleDef) (unit extension : String) : Prop :=
  (∀ segment ∈ module.packageSegments, FilePath.isAbsolute ⟨segment⟩ = false) ∧
    FilePath.isAbsolute ⟨unit ++ "." ++ extension⟩ = false ∧
    ['.', '.'] ∉ FilePath.parts ⟨unit ++ "." ++ extension⟩

instance (module : ModuleDef) (unit extension : String) :
    Decidable (module.PathContained unit extension) :=
  inferInstanceAs (Decidable (_ ∧ _ ∧ _))

/-- The path of a unit stays inside exactly if none of its pieces leaves. -/
theorem pathContained_iff_forall_pieces {module : ModuleDef} {unit extension : String} :
    module.PathContained unit extension ↔
      ∀ piece ∈ module.pathPieces unit extension,
        piece.isAbsolute = false ∧ ['.', '.'] ∉ piece.parts := by
  simp only [PathContained, pathPieces, List.map_append, List.mem_append, List.mem_map,
    List.map_cons, List.map_nil, List.mem_singleton]
  constructor
  · rintro ⟨hsegments, hname⟩ piece (⟨segment, hsegment, rfl⟩ | rfl)
    · exact ⟨hsegments segment hsegment, dots_notMem_parts_of_mem_packageSegments hsegment⟩
    · exact hname
  · intro h
    exact ⟨fun segment hsegment => (h _ (.inl ⟨segment, hsegment, rfl⟩)).1, h _ (.inr rfl)⟩

theorem filePath_isAbsolute_eq_false_iff {module : ModuleDef} {unit extension : String} :
    (module.filePath unit extension).isAbsolute = false ↔
      ∀ piece ∈ module.pathPieces unit extension, piece.isAbsolute = false := by
  rw [filePath_eq_foldl, FilePath.isAbsolute_foldl_join]
  simp [FilePath.isAbsolute]

/-- The path of a unit has the components of its pieces. -/
theorem filePath_innerComponents {module : ModuleDef} {unit extension : String}
    (hrel : ∀ piece ∈ module.pathPieces unit extension, piece.isAbsolute = false) :
    (module.filePath unit extension).innerComponents =
      (module.pathPieces unit extension).flatMap FilePath.innerComponents := by
  have hempty : (FilePath.mk "").innerComponents = [] := by decide
  rw [filePath_eq_foldl, FilePath.innerComponents_foldl_join _ hrel, hempty, List.nil_append]

/-- The path of a unit is relative and never leads upwards exactly if its texts are contained. -/
theorem filePath_contained_iff {module : ModuleDef} {unit extension : String} :
    ((module.filePath unit extension).isAbsolute = false ∧
        ['.', '.'] ∉ (module.filePath unit extension).parts) ↔
      module.PathContained unit extension := by
  rw [filePath_isAbsolute_eq_false_iff, pathContained_iff_forall_pieces]
  have hparent (hrel : ∀ piece ∈ module.pathPieces unit extension, piece.isAbsolute = false) :
      ['.', '.'] ∉ (module.filePath unit extension).parts ↔
        ∀ piece ∈ module.pathPieces unit extension, ['.', '.'] ∉ piece.parts := by
    rw [← FilePath.parent_mem_innerComponents_iff, filePath_innerComponents hrel]
    simp only [List.mem_flatMap, not_exists, not_and, FilePath.parent_mem_innerComponents_iff]
  constructor
  · rintro ⟨hrel, hdots⟩ piece hpiece
    exact ⟨hrel piece hpiece, (hparent hrel).mp hdots piece hpiece⟩
  · intro hpieces
    have hrel : ∀ piece ∈ module.pathPieces unit extension, piece.isAbsolute = false :=
      fun piece hpiece => (hpieces piece hpiece).1
    exact ⟨hrel, (hparent hrel).mpr fun piece hpiece => (hpieces piece hpiece).2⟩

/-- A contained path goes on from any root by at least one name. -/
theorem join_filePath_liesBelow {module : ModuleDef} {unit extension : String}
    (hname : ∃ c ∈ unit.toList, c ≠ '/' ∧ c ≠ '.')
    (hcontained : module.PathContained unit extension) (root : FilePath) :
    (root.join (module.filePath unit extension)).LiesBelow root := by
  have hpieces := pathContained_iff_forall_pieces.mp hcontained
  obtain ⟨hrel, hdots⟩ := filePath_contained_iff.mpr hcontained
  obtain ⟨names, hnames⟩ := FilePath.innerComponents_eq_names hdots
  refine FilePath.join_liesBelow hrel ?_ hnames root
  rintro rfl
  rw [filePath_innerComponents fun piece hpiece => (hpieces piece hpiece).1, List.map_nil,
    List.flatMap_eq_nil_iff] at hnames
  have hlast : FilePath.mk (unit ++ "." ++ extension) ∈ module.pathPieces unit extension := by
    simp [pathPieces]
  obtain ⟨c, hc, hslash, hpoint⟩ := hname
  exact FilePath.innerComponents_ne_nil (by simp [hc]) hslash hpoint (hnames _ hlast)

end ModuleDef

/-- The name of a unit that was read has a character that shows in a path. -/
theorem Synthesis.exists_char_of_unit {set : ActionSet} {module : ModuleDef} {name : String}
    {unit : SourceUnit} (h : Synthesis.unit set module name = .ok unit) :
    ∃ c ∈ name.toList, c ≠ '/' ∧ c ≠ '.' := by
  obtain ⟨-, -, -, -, registry, companion, -, -, -, -, hnames, -⟩ := unit_eq_ok_iff.mp h
  have hname := (readIdent_eq_ok_iff.mp (readIdent_of_unitNames hnames).1).1
  exact Lexer.exists_of_lex?_ident hname (List.mem_singleton.mpr rfl)

/-- Whatever emits it, a generated unit has a relative path without `..` exactly if the texts of its
path are contained, and exactly then it is written below the root, whatever the root. -/
theorem generated_path_contained_iff {generator : Generator} {set : ActionSet}
    {module : ModuleDef} {name : String} {unit : GeneratedUnit}
    (hunit : (generator.generateUnit set module name).result = .ok unit) :
    ((.root ∉ unit.path.components ∧ .parent ∉ unit.path.components) ↔
        module.PathContained name generator.emitter.extension) ∧
      ((∀ root, (unit.destination root).LiesBelow root) ↔
        module.PathContained name generator.emitter.extension) := by
  obtain ⟨source, content, hsource, -, rfl⟩ := Generator.generateUnit_eq_ok_iff.mp hunit
  constructor
  · rw [FilePath.root_mem_components_iff, FilePath.parent_mem_components_iff, Bool.not_eq_true]
    exact ModuleDef.filePath_contained_iff
  · constructor
    · intro hbelow
      have hempty := hbelow ⟨""⟩
      have hjoin : ∀ path : FilePath, (FilePath.mk "").join path = path := by
        intro path
        cases hpath : path.isAbsolute <;> simp [FilePath.join, hpath]
      rw [GeneratedUnit.destination, hjoin] at hempty
      exact ModuleDef.filePath_contained_iff.mp (FilePath.contained_of_liesBelow_empty hempty)
    · intro hcontained root
      exact ModuleDef.join_filePath_liesBelow (Synthesis.exists_char_of_unit hsource) hcontained
        root

/-- A comment in a unit's name goes into the path as it is, and may lead out of the root. -/
theorem comment_in_name_leaves_root :
    (Generator.generateUnit ⟨.outline, {}⟩ ⟨[], []⟩ ⟨"D", "a", [], []⟩ "Foo/* /../ */").result =
        .ok ⟨"Foo/* /../ */", ⟨"a/Foo/* /../ */.txt"⟩, ""⟩ ∧
      ¬ ∀ root, (GeneratedUnit.destination
        ⟨"Foo/* /../ */", ⟨"a/Foo/* /../ */.txt"⟩, ""⟩ root).LiesBelow root := by
  have hunit : (Generator.generateUnit ⟨.outline, {}⟩ ⟨[], []⟩ ⟨"D", "a", [], []⟩
      "Foo/* /../ */").result = .ok ⟨"Foo/* /../ */", ⟨"a/Foo/* /../ */.txt"⟩, ""⟩ := by
    decide +kernel
  refine ⟨hunit, fun hbelow => ?_⟩
  exact absurd ((generated_path_contained_iff hunit).2.mp hbelow) (by decide +kernel)

end ActionUnits
