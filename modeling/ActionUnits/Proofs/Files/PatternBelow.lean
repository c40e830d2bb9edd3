import ActionUnits.Proofs.Files.Following
import ActionUnits.Proofs.Files.Wildcards
import ActionUnits.Proofs.Synthesis

/-! # Patterns below a folder

A pattern that is looked for below a folder is read together with the escaped text of the folder.
The components of the folder stand for themselves, the pattern is read as it would be alone, and a
fault in it is a fault there and nowhere else.
-/

namespace ActionUnits

open Text

theorem toOption_mapM {ε α β : Type} (f : α → Except ε β) (as : List α) :
    (as.mapM f).toOption = as.mapM fun a => (f a).toOption := by
  induction as with
  | nil => rfl
  | cons a as ih =>
      rw [List.mapM_cons, List.mapM_cons, ← ih]
      cases f a with
      | error e => rfl
      | ok b => cases as.mapM f <;> rfl

namespace NamePattern

/-- Literal components are parts of paths. -/
def SingleParts (patterns : List NamePattern) : Prop :=
  ∀ text, .literal text ∈ patterns → '/' ∉ text.toList

theorem SingleParts.rest {pattern : NamePattern} {patterns : List NamePattern}
    (h : SingleParts (pattern :: patterns)) : SingleParts patterns :=
  fun text htext => h text (List.mem_cons_of_mem _ htext)

/-- A component without wildcards was read from its characters. -/
theorem ofWildcards_eq_literal {wildcards : List Wildcard} {text : String}
    (h : ofWildcards wildcards = .literal text) : wildcards = text.toList.map .char := by
  have hread : ∀ {wildcards : List Wildcard} {name : List Char},
      wildcards.mapM Wildcard.char? = some name → wildcards = name.map .char := by
    intro wildcards
    induction wildcards with
    | nil =>
        intro name hname
        cases hname
        rfl
    | cons wildcard wildcards ih =>
        intro name hname
        rw [List.mapM_cons] at hname
        obtain ⟨d, hd, hname⟩ := Option.bind_eq_some_iff.mp hname
        obtain ⟨rest, hrest, hname⟩ := Option.bind_eq_some_iff.mp hname
        cases hname
        rw [ih hrest, List.map_cons]
        cases wildcard <;> cases hd
        rfl
  unfold ofWildcards at h
  split at h
  · cases h
  split at h
  next name hname =>
    cases h
    rw [String.toList_ofList]
    exact hread hname
  next => cases h

/-- Where several recursive parts follow one another, the first part stays. -/
theorem head?_collapse (names : List NamePattern) : (collapse names).head? = names.head? := by
  fun_induction collapse names with
  | case1 names ih => exact ih
  | case2 pattern names _ ih => rfl
  | case3 => rfl

theorem mem_of_mem_collapse {names : List NamePattern} {name : NamePattern}
    (h : name ∈ collapse names) : name ∈ names := by
  fun_induction collapse names with
  | case1 names ih => exact List.mem_cons_of_mem _ (ih h)
  | case2 pattern names _ ih =>
      rcases List.mem_cons.mp h with rfl | h
      · exact List.mem_cons_self
      · exact List.mem_cons_of_mem _ (ih h)
  | case3 => cases h

theorem collapse_ne_nil {names : List NamePattern} (h : names ≠ []) : collapse names ≠ [] := by
  intro hnil
  rw [← List.head?_eq_none_iff, head?_collapse, List.head?_eq_none_iff] at hnil
  exact h hnil

end NamePattern

namespace FilePath

theorem isAbsolute_eq_unslashed {path : FilePath} (h : path.text ≠ "") :
    path.isAbsolute = ((path.unslashed ++ ['/']).head? == some '/') := by
  rw [isAbsolute]
  rcases path.text_eq_unslashed with htext | htext
  · rw [htext]
  · have hne : path.unslashed ≠ [] := fun hnil => h (String.toList_eq_nil_iff.mp (htext ▸ hnil))
    rw [htext, List.head?_append, List.head?_eq_some_head hne, Option.some_or]

/-- The parts of a folder behind the root, if it starts there. A slash at the end opens none. -/
def folderParts (path : FilePath) : List (List Char) :=
  let parts := splitAll '/' path.unslashed
  if path.isAbsolute then parts.tail else parts

end FilePath

namespace PathPattern

open Wildcard

/-- Reads a component, faults aside. -/
def component? (piece : List Char) : Option NamePattern :=
  (elements? none piece).map NamePattern.ofWildcards

/-- The text of a pattern behind the root, if it starts there. -/
def rootless (cs : List Char) : List Char :=
  if cs.head? == some '/' then cs.drop 1 else cs

/-- A pattern is read if its elements are well formed and each of its parts has one meaning. -/
theorem toOption_parse (text : String) :
    (parse text).toOption =
      (elements? none text.toList).bind fun _ =>
        ((pieces (rootless text.toList)).mapM component?).map fun names =>
          ⟨text.toList.head? == some '/', NamePattern.collapse names,
            text.toList.getLast? == some '/'⟩ := by
  have hcomponent : ∀ piece, component? piece =
      ((readAll piece).map NamePattern.ofWildcards).toOption := by
    intro piece
    rw [component?, ← toOption_readAll]
    cases readAll piece <;> rfl
  rw [← toOption_readAll, funext hcomponent, ← toOption_mapM]
  simp only [parse, rootless]
  cases readAll text.toList with
  | error fault => rfl
  | ok wildcards =>
      cases (pieces (if text.toList.head? == some '/' then text.toList.drop 1
        else text.toList)).mapM fun piece => (readAll piece).map NamePattern.ofWildcards <;> rfl

/-- The names of a pattern are read part by part. -/
theorem parse_eq_ok {text : String} {pattern : PathPattern} (h : parse text = .ok pattern) :
    ∃ names, List.Forall₂ (fun piece name =>
        (readAll piece).map NamePattern.ofWildcards = .ok name)
        (pieces (rootless text.toList)) names ∧
      pattern.names = NamePattern.collapse names := by
  simp only [parse] at h
  cases hwhole : readAll text.toList with
  | error fault =>
      rw [hwhole] at h
      cases h
  | ok wildcards =>
      rw [hwhole] at h
      cases hnames : (pieces (rootless text.toList)).mapM fun piece =>
        (readAll piece).map NamePattern.ofWildcards with
      | error fault =>
          rw [rootless] at hnames
          simp only [hnames, bind, Except.bind] at h
          cases h
      | ok names =>
          refine ⟨names, mapM_eq_ok_iff.mp hnames, ?_⟩
          rw [rootless] at hnames
          simp only [hnames, bind, Except.bind, pure, Except.pure] at h
          cases h
          rfl

/-- No slash stands between two slashes. -/
theorem slash_notMem_of_mem_pieces {cs piece : List Char} (h : piece ∈ pieces cs) :
    '/' ∉ piece := by
  have hmem : piece ∈ splitAll '/' cs := by
    unfold pieces at h
    dsimp only at h
    split at h
    · exact List.dropLast_subset _ h
    · exact h
  exact notMem_of_mem_splitAll hmem

theorem pieces_ne_nil {cs : List Char} (h : cs ≠ []) : pieces cs ≠ [] := by
  obtain ⟨c, cs, rfl⟩ := List.exists_cons_of_ne_nil h
  have hsplit := splitAll_ne_nil '/' cs
  unfold pieces
  dsimp only
  by_cases hc : c = '/'
  · rw [hc, splitAll_cons_self]
    split
    · rw [List.dropLast_cons_of_ne_nil hsplit]
      exact List.cons_ne_nil _ _
    · exact List.cons_ne_nil _ _
  · rw [splitAll_cons_of_ne hc]
    cases htail : (splitAll '/' cs).tail with
    | nil => simp
    | cons next rest => split <;> simp

/-- Components have no slashes. -/
theorem singleParts_of_parse {text : String} {pattern : PathPattern}
    (h : parse text = .ok pattern) : NamePattern.SingleParts pattern.names := by
  intro literal hmem hslash
  obtain ⟨names, hnames, hpattern⟩ := parse_eq_ok h
  rw [hpattern] at hmem
  obtain ⟨piece, hpiece, hread⟩ :=
    forall₂_mem_right hnames (NamePattern.mem_of_mem_collapse hmem)
  cases hwildcards : readAll piece with
  | error fault =>
      rw [hwildcards] at hread
      cases hread
  | ok wildcards =>
      rw [hwildcards] at hread
      have hliteral : NamePattern.ofWildcards wildcards = .literal literal := Except.ok.inj hread
      rw [NamePattern.ofWildcards_eq_literal hliteral] at hwildcards
      exact slash_notMem_of_mem_pieces hpiece
        (char_mem_of_readAllTo hwildcards (List.mem_map_of_mem hslash))

theorem names_ne_nil_of_parse {text : String} {pattern : PathPattern}
    (h : parse text = .ok pattern) (hne : rootless text.toList ≠ []) : pattern.names ≠ [] := by
  obtain ⟨names, hnames, hpattern⟩ := parse_eq_ok h
  rw [hpattern]
  refine NamePattern.collapse_ne_nil fun hnil => pieces_ne_nil hne ?_
  rw [hnil] at hnames
  exact List.forall₂_nil_right_iff.mp hnames

/-- The first piece of a text without a slash in front is not empty. -/
theorem cons_of_pieces_eq_cons {cs piece : List Char} {rest : List (List Char)}
    (h : pieces cs = piece :: rest) (hslash : ∀ others, cs ≠ '/' :: others) :
    ∃ c others, piece = c :: others := by
  cases cs with
  | nil => cases h
  | cons c cs =>
      have hc : c ≠ '/' := by
        rintro rfl
        exact hslash cs rfl
      unfold pieces at h
      rw [splitAll_cons_of_ne hc] at h
      dsimp only at h
      split at h
      · cases htail : (splitAll '/' cs).tail with
        | nil =>
            rw [htail] at h
            cases h
        | cons next others =>
            rw [htail] at h
            exact ⟨c, _, (List.cons.inj h).1.symm⟩
      · exact ⟨c, _, (List.cons.inj h).1.symm⟩

theorem readAll_ne_nil {c : Char} {cs : List Char} : readAll (c :: cs) ≠ .ok [] := by
  intro h
  have hsome := toOption_readAllTo_succ cs.length [] 0 c cs
  change (readAll (c :: cs)).toOption = _ at hsome
  rw [h] at hsome
  obtain ⟨r, -, hr⟩ := Option.bind_eq_some_iff.mp hsome.symm
  obtain ⟨others, -, hothers⟩ := Option.map_eq_some_iff.mp hr
  cases hothers

/-- A relative pattern does not start with an empty component. -/
theorem head?_ne_empty_of_parse {entry : String} {pattern : PathPattern}
    (h : parse entry = .ok pattern) (hrel : (FilePath.mk entry).isAbsolute = false) :
    pattern.names.head? ≠ some (.literal "") := by
  obtain ⟨names, hnames, hpattern⟩ := parse_eq_ok h
  have hrootless : rootless entry.toList = entry.toList := by
    rw [rootless, if_neg]
    exact (Bool.eq_false_iff.mp hrel)
  rw [hrootless] at hnames
  rw [hpattern, NamePattern.head?_collapse]
  intro hhead
  obtain ⟨rest, rfl⟩ := List.head?_eq_some_iff.mp hhead
  obtain ⟨piece, pieces', hread, -, hpieces⟩ := List.forall₂_cons_right_iff.mp hnames
  cases hwildcards : readAll piece with
  | error fault =>
      rw [hwildcards] at hread
      cases hread
  | ok wildcards =>
      rw [hwildcards] at hread
      have hnil : wildcards = [] := NamePattern.ofWildcards_eq_literal (Except.ok.inj hread)
      obtain ⟨c, cs, rfl⟩ := cons_of_pieces_eq_cons hpieces fun cs hcs => by
        rw [FilePath.isAbsolute, hcs] at hrel
        cases hrel
      exact readAll_ne_nil (hnil ▸ hwildcards)

/-- The pieces of a pattern below a folder are the parts of the folder and the pieces of the
pattern. -/
theorem pieces_append_cons (xs ys : List Char) :
    pieces (xs ++ '/' :: ys) = splitAll '/' xs ++ pieces ys := by
  have hne := splitAll_ne_nil '/' ys
  have hlast : (splitAll '/' xs ++ splitAll '/' ys).getLast? = (splitAll '/' ys).getLast? := by
    rw [List.getLast?_append, List.getLast?_eq_some_getLast hne, Option.some_or]
  simp only [pieces, splitAll_append_cons, hlast]
  split
  · rw [List.dropLast_append_of_ne_nil hne]
  · rfl

/-- Escaped parts stand for themselves only. -/
theorem mapM_component?_escaped (parts : List (List Char)) :
    (parts.map (·.flatMap escapeChar)).mapM component? = some (parts.map NamePattern.exactly) := by
  induction parts with
  | nil => rfl
  | cons part parts ih =>
      rw [List.map_cons, List.mapM_cons, ih, component?, elements?_escaped]
      rfl

/-- Only double asterisks next to each other are drawn together. -/
theorem collapse_append {names : List NamePattern} (h : .recursive ∉ names)
    (others : List NamePattern) :
    NamePattern.collapse (names ++ others) = names ++ NamePattern.collapse others := by
  induction names with
  | nil => rfl
  | cons name names ih =>
      rw [List.mem_cons, not_or] at h
      rw [List.cons_append, List.cons_append, ← ih h.2]
      cases name with
      | recursive => exact absurd rfl h.1
      | literal text => rfl
      | wild wildcards => rfl

/-- A text is escaped character by character. -/
theorem toList_escape (text : String) :
    (escape text).toList = text.toList.flatMap escapeChar :=
  String.toList_ofList

theorem getLast?_flatMap_escapeChar (cs : List Char) :
    (cs.flatMap escapeChar).getLast? = some '/' ↔ cs.getLast? = some '/' := by
  rcases List.eq_nil_or_concat cs with rfl | ⟨before, c, rfl⟩
  · rfl
  · rw [List.concat_eq_append, List.flatMap_append, List.flatMap_singleton,
      List.getLast?_append, escapeChar, List.getLast?_append]
    split
    next hspecial =>
      have hc : c ≠ '/' := by rintro rfl; cases hspecial
      simp [hc]
    next => simp

/-- Escaping does not touch slashes at the end. -/
theorem unslashed_escape (text : String) :
    (FilePath.mk (escape text)).unslashed = (FilePath.mk text).unslashed.flatMap escapeChar := by
  simp only [FilePath.unslashed, toList_escape, beq_iff_eq, getLast?_flatMap_escapeChar]
  split
  next hslash =>
    obtain ⟨before, hbefore⟩ := List.getLast?_eq_some_iff.mp hslash
    rw [hbefore, List.dropLast_concat, List.flatMap_append]
    exact List.dropLast_concat
  next => rfl

theorem escape_ne_empty {text : String} (h : text ≠ "") : escape text ≠ "" := by
  intro hescape
  rw [← String.toList_eq_nil_iff, toList_escape, List.flatMap_eq_nil_iff] at hescape
  cases hcs : text.toList with
  | nil => exact h (String.toList_eq_nil_iff.mp hcs)
  | cons c cs =>
      have hc := hescape c (hcs ▸ List.mem_cons_self)
      unfold escapeChar at hc
      split at hc <;> cases hc

/-- Escaping does not touch the slashes between parts. -/
theorem splitAll_flatMap_escapeChar (cs : List Char) :
    splitAll '/' (cs.flatMap escapeChar) = (splitAll '/' cs).map (·.flatMap escapeChar) := by
  refine splitAll_flatMap rfl (fun c hc hmem => ?_) cs
  unfold escapeChar at hmem
  split at hmem <;> simp [Ne.symm hc] at hmem

/-- A pattern below a folder is absolute exactly if the folder is. -/
theorem head?_below {base : FilePath} (hbase : base.text ≠ "") (cs : List Char) :
    ((base.unslashed.flatMap escapeChar ++ '/' :: cs).head? == some '/') = base.isAbsolute := by
  rw [base.isAbsolute_eq_unslashed hbase]
  cases base.unslashed with
  | nil => rfl
  | cons c us =>
      by_cases hc : c = '/'
      · subst hc
        rfl
      · have hhead : ∃ d ds, escapeChar c = d :: ds ∧ d ≠ '/' := by
          unfold escapeChar
          split
          · exact ⟨_, _, rfl, by decide⟩
          · exact ⟨_, _, rfl, hc⟩
        obtain ⟨d, ds, hescape, hd⟩ := hhead
        simp [hescape, hc, hd]

/-- The pieces of a pattern below a folder. -/
theorem pieces_below {base : FilePath} (hbase : base.text ≠ "") (cs : List Char) :
    pieces (rootless (base.unslashed.flatMap escapeChar ++ '/' :: cs)) =
      base.folderParts.map (·.flatMap escapeChar) ++ pieces cs := by
  have hhead := head?_below hbase cs
  rw [rootless, hhead, FilePath.folderParts]
  by_cases habs : base.isAbsolute = true
  · rw [if_pos habs, if_pos habs]
    rw [base.isAbsolute_eq_unslashed hbase] at habs
    cases hus : base.unslashed with
    | nil => rfl
    | cons c us =>
        rw [hus] at habs
        obtain rfl : c = '/' := by simpa using habs
        change pieces (us.flatMap escapeChar ++ '/' :: cs) = _
        rw [pieces_append_cons, splitAll_flatMap_escapeChar, splitAll_cons_self]
        rfl
  · rw [if_neg habs, if_neg habs, pieces_append_cons, splitAll_flatMap_escapeChar]

/-- Below a folder, a pattern has the components of the folder before its own, and no other
faults. -/
theorem toOption_patternBelow {base : FilePath} (hbase : base.text ≠ "") {entry : String}
    (hentry : entry ≠ "") (hrel : (FilePath.mk entry).isAbsolute = false) :
    (FileSystem.patternBelow base entry).toOption =
      (parse entry).toOption.map fun pattern =>
        ⟨base.isAbsolute, base.folderParts.map NamePattern.exactly ++ pattern.names,
          pattern.foldersOnly⟩ := by
  have hhead : (entry.toList.head? == some '/') = false := hrel
  have hlast : (base.unslashed.flatMap escapeChar ++ '/' :: entry.toList).getLast? =
      entry.toList.getLast? := by
    rw [List.getLast?_append, List.getLast?_cons_of_ne_nil (mt String.toList_eq_nil_iff.mp hentry)]
    cases hlast : entry.toList.getLast? with
    | none =>
        exact absurd (List.getLast?_eq_none_iff.mp hlast) (mt String.toList_eq_nil_iff.mp hentry)
    | some c => rfl
  have htext : ((FilePath.mk (escape base.text)).join ⟨entry⟩).text.toList =
      base.unslashed.flatMap escapeChar ++ '/' :: entry.toList := by
    have hjoin : ((FilePath.mk (escape base.text)).join ⟨entry⟩).text.toList =
        (FilePath.mk (escape base.text)).unslashed ++ '/' :: entry.toList :=
      FilePath.toList_join (escape_ne_empty hbase) hrel
    rw [hjoin, unslashed_escape]
  rw [FileSystem.patternBelow, toOption_parse, toOption_parse, htext, elements?_below,
    pieces_below hbase, head?_below hbase, hlast, List.mapM_append, mapM_component?_escaped,
    rootless, hhead, if_neg Bool.false_ne_true]
  cases elements? none entry.toList with
  | none => rfl
  | some wildcards =>
      cases (pieces entry.toList).mapM component? with
      | none => rfl
      | some names =>
          have hnone : .recursive ∉ base.folderParts.map NamePattern.exactly := by
            intro hmem
            obtain ⟨part, -, hpart⟩ := List.mem_map.mp hmem
            exact NamePattern.exactly_ne_recursive part hpart
          simp [collapse_append hnone]

/-- An absolute pattern is looked for where it says, and so is one below no folder. -/
theorem patternBelow_eq_parse {base : FilePath} {entry : String}
    (h : base.text = "" ∨ (FilePath.mk entry).isAbsolute = true) :
    FileSystem.patternBelow base entry = parse entry := by
  by_cases habs : (FilePath.mk entry).isAbsolute = true
  · rw [FileSystem.patternBelow, FilePath.join, if_pos habs]
  · have hempty : escape base.text = "" := by
      rw [h.resolve_right habs]
      rfl
    rw [FileSystem.patternBelow, FilePath.join, if_neg habs, hempty]
    simp

/-- A folder never makes a pattern invalid, nor an invalid one valid. -/
theorem patternBelow_isOk (base : FilePath) {entry : String} (hentry : entry ≠ "") :
    (∃ pattern, FileSystem.patternBelow base entry = .ok pattern) ↔
      ∃ pattern, parse entry = .ok pattern := by
  by_cases h : base.text = "" ∨ (FilePath.mk entry).isAbsolute = true
  · rw [patternBelow_eq_parse h]
  · rw [not_or, Bool.not_eq_true] at h
    have hread := toOption_patternBelow h.1 hentry h.2
    cases hbelow : FileSystem.patternBelow base entry <;> cases halone : parse entry <;>
      simp [hbelow, halone, Except.toOption] at hread ⊢

end PathPattern

end ActionUnits
