import ActionUnits.Proofs.Files.Containment
import ActionUnits.Proofs.Fragments
import ActionUnits.Proofs.Text.Word

/-! # Paths of units in plain packages

A package is plain if it is made of identifiers with points between them, and
nothing else. Identifiers hold no points and no slashes and stand for no special
component, so the path of a unit with a plain name in a plain package names the
segments of the package one by one, and then the file. The three ways to go
through a package agree on its segments, and the path tells package and unit.
-/

namespace ActionUnits

open Text

/-- A text that is one identifier and nothing else. An identifier with a raw marker may be a
keyword. -/
inductive IsIdentifier : List Char → Prop
  | plain {c : Char} {cs : List Char} (chars : Lexer.IsIdentChars (c :: cs))
      (free : String.ofList (c :: cs) ∉ Source.keywords) : IsIdentifier (c :: cs)
  | raw {c : Char} {cs : List Char} (chars : Lexer.IsIdentChars (c :: cs))
      (free : String.ofList (c :: cs) ∉ Lexer.neverRaw) : IsIdentifier ('r' :: '#' :: c :: cs)

namespace IsIdentifier

variable {text : String}

theorem ne_nil {cs : List Char} (h : IsIdentifier cs) : cs ≠ [] := by
  cases h <;> simp

/-- Apart from the raw marker there are characters of identifiers only. -/
theorem notMem {cs : List Char} (h : IsIdentifier cs) {d : Char} (hd : isIdentContinue d = false)
    (hmark : d ≠ '#') : d ∉ cs := by
  cases h with
  | plain chars free => exact chars.notMem hd
  | raw chars free =>
      have hr : d ≠ 'r' := by
        rintro rfl
        exact absurd hd (by decide)
      simp only [List.mem_cons, not_or]
      exact ⟨hr, hmark, List.mem_cons.not.mp (chars.notMem hd) |> not_or.mp⟩

/-- An identifier has no point. -/
theorem point_notMem {cs : List Char} (h : IsIdentifier cs) : '.' ∉ cs :=
  h.notMem (by decide) (by decide)

/-- An identifier has no slash. -/
theorem slash_notMem {cs : List Char} (h : IsIdentifier cs) : '/' ∉ cs :=
  h.notMem (by decide) (by decide)

/-- An identifier is read as it is written. -/
theorem spells (h : IsIdentifier text.toList) : Synthesis.Spells text ⟨text⟩ := by
  have htext : String.ofList text.toList = text := String.ofList_toList
  generalize text.toList = cs at h htext
  subst htext
  cases h with
  | plain chars free =>
      refine ⟨chars.lex?, ?_⟩
      rw [← Bool.not_eq_true, Source.isKeyword, List.contains_iff_mem]
      exact free
  | raw chars free =>
      refine ⟨chars.lex?_raw free, ?_⟩
      have hmark : ∀ word ∈ Source.keywords, '#' ∉ word.toList := by decide
      rw [← Bool.not_eq_true, Source.isKeyword, List.contains_iff_mem]
      intro hkeyword
      exact hmark _ hkeyword (by simp)

end IsIdentifier

namespace FilePath

/-! ## Paths made of names -/

/-- A text that is one part of a path, and a name. -/
structure IsName (text : String) : Prop where
  slash : '/' ∉ text.toList
  component : component? text.toList = some (.normal text)

theorem IsName.ne_nil {text : String} (h : IsName text) : text.toList ≠ [] := by
  intro hnil
  have hcomponent := h.component
  rw [hnil] at hcomponent
  cases hcomponent

/-- What has no point and no slash is a name unless it is empty. -/
theorem isName_of_point_notMem {text : String} (hne : text.toList ≠ [])
    (hpoint : '.' ∉ text.toList) (hslash : '/' ∉ text.toList) : IsName text := by
  refine ⟨hslash, ?_⟩
  have hdot : text.toList ≠ ['.'] := fun h => hpoint (h ▸ List.mem_cons_self)
  have hdots : text.toList ≠ ['.', '.'] := fun h => hpoint (h ▸ List.mem_cons_self)
  simp [component?, hne, hdot, hdots]

/-- A file name with an extension is a name. -/
theorem isName_fileName {unit extension : String} (hne : unit.toList ≠ [])
    (hunit : '/' ∉ unit.toList) (hpoint : '.' ∉ unit.toList) (hslash : '/' ∉ extension.toList) :
    IsName (unit ++ "." ++ extension) := by
  have htext : (unit ++ "." ++ extension).toList = unit.toList ++ '.' :: extension.toList := by
    simp [String.toList_append]
  obtain ⟨c, cs, hchars⟩ := List.exists_cons_of_ne_nil hne
  have hc : c ≠ '.' := fun h => hpoint (by simp [hchars, h])
  refine ⟨by simp [htext, hunit, hslash], ?_⟩
  -- Neither of the special parts has a first character other than a point.
  simp [component?, htext, hchars, hc, ← String.toList_inj]

/-- A name is a path of one part. -/
theorem parts_of_isName {text : String} (h : IsName text) : parts ⟨text⟩ = [text.toList] :=
  splitAll_of_notMem h.slash

/-- Names that are joined to a path are its further parts. -/
theorem parts_foldl_join {base : FilePath} (hempty : base.text ≠ "")
    (hslash : base.text.toList.getLast? ≠ some '/') {names : List String}
    (hnames : ∀ name ∈ names, IsName name) :
    (names.foldl (fun path name => path.join ⟨name⟩) base).parts =
      base.parts ++ names.map String.toList := by
  induction names generalizing base with
  | nil => simp
  | cons name names ih =>
      obtain ⟨hname, hrest⟩ := List.forall_mem_cons.mp hnames
      obtain ⟨c, cs, hchars⟩ := List.exists_cons_of_ne_nil hname.ne_nil
      have hrel : isAbsolute ⟨name⟩ = false := by
        have hc : c ≠ '/' := fun h => hname.slash (by simp [hchars, h])
        simp [isAbsolute, hchars, hc]
      have hjoin : base.join ⟨name⟩ = ⟨base.text ++ "/" ++ name⟩ := by
        simp [join, hrel, hempty, hslash]
      have hchars' : (base.text ++ "/" ++ name).toList = base.text.toList ++ '/' :: name.toList := by
        simp [String.toList_append]
      have hlast : (base.text ++ "/" ++ name).toList.getLast? ≠ some '/' := by
        rw [hchars', List.getLast?_append_of_ne_nil _ (by simp),
          List.getLast?_cons_of_ne_nil hname.ne_nil]
        exact fun h => hname.slash (List.mem_of_getLast? h)
      have hparts : parts ⟨base.text ++ "/" ++ name⟩ = base.parts ++ [name.toList] := by
        rw [parts, hchars', splitAll_append_cons, ← parts, ← parts_of_isName hname]
        rfl
      rw [List.foldl_cons, hjoin, ih (by simp) hlast hrest, hparts, List.append_assoc]
      rfl

/-- Names that are joined are the parts of a path. -/
theorem parts_foldl_join_empty {names : List String} (hne : names ≠ [])
    (hnames : ∀ name ∈ names, IsName name) :
    (names.foldl (fun path name => path.join ⟨name⟩) (FilePath.mk "")).parts =
      names.map String.toList := by
  obtain ⟨name, names, rfl⟩ := List.exists_cons_of_ne_nil hne
  obtain ⟨hname, hrest⟩ := List.forall_mem_cons.mp hnames
  have hfirst : (FilePath.mk "").join ⟨name⟩ = ⟨name⟩ := by
    unfold join
    split <;> simp
  have hempty : name ≠ "" := fun h => hname.ne_nil (by simp [h])
  have hlast : name.toList.getLast? ≠ some '/' := fun h => hname.slash (List.mem_of_getLast? h)
  rw [List.foldl_cons, hfirst, parts_foldl_join hempty hlast hrest, parts_of_isName hname]
  rfl

/-- A path of names is relative, and its components are the names. -/
theorem components_of_parts {path : FilePath} {names : List String}
    (hparts : path.parts = names.map String.toList) (hnames : ∀ name ∈ names, IsName name) :
    path.isAbsolute = false ∧ path.components = names.map .normal := by
  have hinner : ∀ names : List String, (∀ name ∈ names, IsName name) →
      (names.map String.toList).filterMap component? = names.map .normal := by
    intro names hnames
    rw [List.filterMap_map, ← List.filterMap_eq_map]
    exact List.filterMap_congr fun name hname => (hnames name hname).component
  cases names with
  | nil => exact absurd hparts path.parts_ne_nil
  | cons name names =>
      obtain ⟨hname, hrest⟩ := List.forall_mem_cons.mp hnames
      have hrel : path.isAbsolute = false := by
        rw [← Bool.not_eq_true]
        intro habs
        obtain ⟨rest, hrest⟩ := parts_of_isAbsolute habs
        rw [hparts] at hrest
        exact hname.ne_nil (List.cons.inj hrest).1
      have hdot : (name.toList == ['.']) = false := by
        refine beq_false_of_ne fun h => ?_
        have hcomponent := hname.component
        rw [h] at hcomponent
        cases hcomponent
      refine ⟨hrel, ?_⟩
      simp only [components, hparts, List.map_cons, hrel, hdot, Bool.false_eq_true, ↓reduceIte,
        hname.component, hinner names hrest]
      rfl

end FilePath

namespace ModuleDef

variable {module : ModuleDef} {segments : List String} {unit extension : String}

/-- The segments of a plain package are its identifiers. -/
theorem packageSegments_of_identifiers (hpackage : module.package = ".".intercalate segments)
    (hsegments : ∀ segment ∈ segments, IsIdentifier segment.toList) :
    module.packageSegments = segments := by
  cases segments with
  | nil =>
      have hempty : module.package = "" := hpackage
      simp [packageSegments, hempty]
  | cons first rest =>
      have hchars : module.package.toList = ['.'].intercalate ((first :: rest).map String.toList) := by
        rw [hpackage, String.toList_intercalate]
        rfl
      have hpieces : ∀ piece ∈ (first :: rest).map String.toList, '.' ∉ piece := by
        intro piece hpiece
        obtain ⟨segment, hsegment, rfl⟩ := List.mem_map.mp hpiece
        exact (hsegments segment hsegment).point_notMem
      have hsplit := splitAll_intercalate (by simp) hpieces
      have hempty : module.package.isEmpty = false := by
        rw [← Bool.not_eq_true, String.isEmpty_iff]
        intro hnone
        rw [← hchars, hnone] at hsplit
        obtain ⟨hfirst, -⟩ := List.cons.inj hsplit
        exact (hsegments first List.mem_cons_self).ne_nil hfirst.symm
      rw [packageSegments, hempty, hchars, hsplit]
      simp [Function.comp_def]

/-- The pieces of the path of a unit with a plain name in a plain package are names. -/
theorem isName_of_identifiers (hsegments : ∀ segment ∈ segments, IsIdentifier segment.toList)
    (hunit : IsIdentifier unit.toList) (hslash : '/' ∉ extension.toList) :
    ∀ name ∈ segments ++ [unit ++ "." ++ extension], FilePath.IsName name := by
  intro name hname
  rcases List.mem_append.mp hname with hname | hname
  · have hident := hsegments name hname
    exact FilePath.isName_of_point_notMem hident.ne_nil hident.point_notMem hident.slash_notMem
  · rw [List.mem_singleton.mp hname]
    exact FilePath.isName_fileName hunit.ne_nil hunit.slash_notMem hunit.point_notMem hslash

/-- The path of a unit with plain names has the segments of the package and the name of the file as
components. -/
theorem filePath_components_of_identifiers
    (hpackage : module.package = ".".intercalate segments)
    (hsegments : ∀ segment ∈ segments, IsIdentifier segment.toList)
    (hunit : IsIdentifier unit.toList) (hslash : '/' ∉ extension.toList) :
    (module.filePath unit extension).isAbsolute = false ∧
      (module.filePath unit extension).components =
        (segments ++ [unit ++ "." ++ extension]).map .normal := by
  have hnames := isName_of_identifiers hsegments hunit hslash
  refine FilePath.components_of_parts ?_ hnames
  have hpath : module.filePath unit extension =
      (segments ++ [unit ++ "." ++ extension]).foldl (fun path name => path.join ⟨name⟩) ⟨""⟩ := by
    rw [List.foldl_append, ← packageSegments_of_identifiers hpackage hsegments]
    rfl
  rw [hpath]
  exact FilePath.parts_foldl_join_empty (by simp) hnames

end ModuleDef

namespace Package

theorem segments_ofSegments? (segments : List Ident) :
    (ofSegments? segments).elim [] Package.segments = segments := by
  cases segments with
  | nil => rfl
  | cons first rest =>
      have hfold := segments_foldl rest (.name first)
      rw [ofSegments?, List.foldl_cons]
      change (List.foldl _ (some (.name first)) rest).elim [] Package.segments = _
      obtain ⟨package, hpackage, hsegments⟩ := Option.map_eq_some_iff.mp hfold
      rw [hpackage, Option.elim_some, hsegments]
      rfl

end Package

namespace Synthesis

/-- A plain package is read as its identifiers, in order. -/
theorem package_of_identifiers {module : ModuleDef} {segments : List String}
    (hpackage : module.package = ".".intercalate segments)
    (hsegments : ∀ segment ∈ segments, IsIdentifier segment.toList) :
    package module = .ok (Package.ofSegments? (segments.map Ident.mk)) := by
  have hread : module.packageSegments.mapM (readIdent .package module.package) =
      .ok (segments.map Ident.mk) := by
    rw [ModuleDef.packageSegments_of_identifiers hpackage hsegments, mapM_eq_ok_iff,
      List.forall₂_map_right_iff, List.forall₂_same]
    exact fun segment hsegment => readIdent_eq_ok_iff.mpr (hsegments segment hsegment).spells
  rw [package, hread]
  rfl

end Synthesis

namespace ModuleDef

/-- The path of a unit in a plain package is relative and names the segments of the package, as the
qualifier does, and then the file of the unit; so it tells package and unit. -/
theorem filePath_faithful {module : ModuleDef} {segments : List String} {unit extension : String}
    (hpackage : module.package = ".".intercalate segments)
    (hsegments : ∀ segment ∈ segments, IsIdentifier segment.toList)
    (hunit : IsIdentifier unit.toList) (hslash : '/' ∉ extension.toList) :
    (module.filePath unit extension).isAbsolute = false ∧
      (module.filePath unit extension).components =
        (segments ++ [unit ++ "." ++ extension]).map .normal ∧
      module.packageSegments = segments ∧
      (∃ qualifier, Synthesis.package module = .ok qualifier ∧
        qualifier = Package.ofSegments? (segments.map Ident.mk) ∧
        (qualifier.elim [] Package.segments).map Ident.text = segments) ∧
      ∀ (other : ModuleDef) (others : List String) (otherUnit : String),
        other.package = ".".intercalate others →
        (∀ segment ∈ others, IsIdentifier segment.toList) → IsIdentifier otherUnit.toList →
        (other.filePath otherUnit extension).components =
          (module.filePath unit extension).components →
        other.package = module.package ∧ otherUnit = unit := by
  obtain ⟨hrel, hcomponents⟩ :=
    filePath_components_of_identifiers hpackage hsegments hunit hslash
  refine ⟨hrel, hcomponents, packageSegments_of_identifiers hpackage hsegments,
    ⟨_, Synthesis.package_of_identifiers hpackage hsegments, rfl, ?_⟩, ?_⟩
  · rw [Package.segments_ofSegments?, List.map_map]
    exact List.map_id _
  · intro other others otherUnit hother hothers hotherUnit hpath
    rw [(filePath_components_of_identifiers hother hothers hotherUnit hslash).2,
      hcomponents] at hpath
    have hinj : Function.Injective Component.normal := fun a b h => by cases h; rfl
    obtain ⟨hsame, hfile⟩ := List.append_inj' (hinj.list_map hpath) rfl
    refine ⟨by rw [hother, hsame, hpackage], ?_⟩
    have hchars := congrArg String.toList (List.cons.inj hfile).1
    simp only [String.toList_append, List.append_assoc] at hchars
    exact String.toList_inj.mp (List.append_cancel_right hchars)

/-- A raw segment, a segment beyond ASCII, and such a unit. -/
theorem raw_segment_in_path :
    (∀ segment ∈ ["r#type", "größe"], IsIdentifier segment.toList) ∧
      IsIdentifier "Übersicht".toList ∧
      (filePath ⟨"D", "r#type.größe", [], []⟩ "Übersicht" "rs").components =
        [.normal "r#type", .normal "größe", .normal "Übersicht.rs"] ∧
      ∀ (other : ModuleDef) (others : List String) (otherUnit : String),
        other.package = ".".intercalate others →
        (∀ segment ∈ others, IsIdentifier segment.toList) → IsIdentifier otherUnit.toList →
        (other.filePath otherUnit "rs").components =
          (filePath ⟨"D", "r#type.größe", [], []⟩ "Übersicht" "rs").components →
        other.package = "r#type.größe" ∧ otherUnit = "Übersicht" := by
  have hraw : IsIdentifier "r#type".toList :=
    .raw ⟨by decide, by decide⟩ (by decide)
  have hplain : IsIdentifier "größe".toList :=
    .plain ⟨by decide, by decide +kernel⟩ (by decide)
  have hunit : IsIdentifier "Übersicht".toList :=
    .plain ⟨by decide +kernel, by decide⟩ (by decide)
  have hsegments : ∀ segment ∈ ["r#type", "größe"], IsIdentifier segment.toList := by
    simp only [List.mem_cons, List.not_mem_nil, or_false]
    rintro segment (rfl | rfl)
    · exact hraw
    · exact hplain
  obtain ⟨-, hcomponents, -, -, hinj⟩ :=
    @filePath_faithful ⟨"D", "r#type.größe", [], []⟩ ["r#type", "größe"] "Übersicht" "rs"
      (by decide +kernel) hsegments hunit (by decide)
  exact ⟨hsegments, hunit, hcomponents, hinj⟩

end ModuleDef

end ActionUnits
