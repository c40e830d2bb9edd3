import ActionUnits.Proofs.Names

/-! # Class names as a code for ids

On canonical ids the class name is a code: it is one identifier, never a keyword,
and the id can be read back from it, since every capital starts a segment. On ids
at large only the segments that are not empty count, so leading, trailing and
repeated underscores make no difference.
-/

namespace ActionUnits.Action

open Text

/-! ## Ids as segments -/

theorem notMem_of_isCanonicalSegment {segment : List Char}
    (h : isCanonicalSegment segment = true) : '_' ∉ segment := by
  intro hmem
  cases segment with
  | nil => cases hmem
  | cons c cs =>
      obtain ⟨hc, hcs⟩ := Bool.and_eq_true_iff.mp h
      rcases List.mem_cons.mp hmem with rfl | hmem
      · exact absurd hc (by decide)
      · exact absurd (List.all_eq_true.mp hcs _ hmem) (by decide)

/-- A canonical id is one or more canonical segments with underscores between them. -/
theorem isCanonicalId_intercalate {segments : List (List Char)} (hne : segments ≠ [])
    (h : ∀ segment ∈ segments, isCanonicalSegment segment = true) :
    isCanonicalId (['_'].intercalate segments) = true := by
  rw [isCanonicalId, splitAll_intercalate hne fun segment hsegment =>
    notMem_of_isCanonicalSegment (h segment hsegment)]
  exact List.all_eq_true.mpr h

/-! ## What a class name is made of -/

theorem underscore_notMem_capitalize {segment : List Char}
    (h : isCanonicalSegment segment = true) : '_' ∉ capitalize segment := by
  cases segment with
  | nil => cases h
  | cons c cs =>
      obtain ⟨hupper, -, hchar, -⟩ := toUpper_of_isLower (Bool.and_eq_true_iff.mp h).1
      rw [capitalize, hchar, List.singleton_append, List.mem_cons, not_or]
      constructor
      · intro hc
        rw [← hc] at hupper
        exact absurd hupper (by decide)
      · exact fun hmem => notMem_of_isCanonicalSegment h (List.mem_cons_of_mem _ hmem)

/-- A class name is the capitalized segments of the id and a fixed ending. -/
theorem toList_className (action : Action) :
    action.className.toList =
      (splitAll '_' action.id.toList).flatMap capitalize ++ "Action".toList :=
  String.toList_ofList

/-- The class name of a canonical id has no underscore. -/
theorem underscore_notMem_className {action : Action}
    (h : isCanonicalId action.id.toList = true) : '_' ∉ action.className.toList := by
  rw [toList_className, List.mem_append, not_or]
  refine ⟨fun hmem => ?_, by decide⟩
  obtain ⟨piece, hpiece, hmem⟩ := List.mem_flatMap.mp hmem
  exact underscore_notMem_capitalize (List.all_eq_true.mp h piece hpiece) hmem

theorem suffix_className (action : Action) : "Action".toList <:+ action.className.toList := by
  rw [toList_className]
  exact List.suffix_append _ _

/-- No keyword has the ending of class names. -/
theorem isKeyword_className (action : Action) : Source.isKeyword ⟨action.className⟩ = false := by
  have hending : ∀ keyword ∈ Source.keywords, ¬ "Action".toList <:+ keyword.toList := by decide
  rw [Bool.eq_false_iff]
  intro hkeyword
  rw [Source.isKeyword, List.contains_iff_mem] at hkeyword
  exact hending _ hkeyword (suffix_className action)

/-- Pieces without characters add nothing to a class name. -/
theorem flatMap_capitalize_filter (pieces : List (List Char)) :
    (pieces.filter (· ≠ [])).flatMap capitalize = pieces.flatMap capitalize := by
  induction pieces with
  | nil => rfl
  | cons piece pieces ih =>
      by_cases hpiece : piece = []
      · simpa [hpiece, capitalize] using ih
      · simpa [hpiece] using ih

/-! ## Reading ids back -/

/-- The id that a class name was made from, if that was canonical: the ending is dropped, every
capital but the first gets an underscore before it, and all is written in lower case. -/
def idOfClassName (name : String) : String :=
  String.ofList (idOfStem (name.toList.take (name.toList.length - "Action".toList.length)))

/-- A canonical id is read back from its class name. -/
theorem idOfClassName_className {action : Action}
    (h : isCanonicalId action.id.toList = true) : idOfClassName action.className = action.id := by
  rw [idOfClassName, toList_className, List.length_append, Nat.add_sub_cancel, List.take_left,
    idOfStem_flatMap_capitalize h, String.ofList_toList]

/-- The class name of a canonical id has no underscore, is read as the identifier that it is, ends
in `Action` and gives the id back, so different canonical ids have different class names. Of any
other ids too, only the segments that are not empty count. -/
theorem className_encodes_id :
    (∀ (segments : List (List Char)) (action : Action), segments ≠ [] →
      (∀ segment ∈ segments, isCanonicalSegment segment = true) →
      action.id = String.ofList (['_'].intercalate segments) →
        '_' ∉ action.className.toList ∧
        (∀ kind owner, Synthesis.readIdent kind owner action.className = .ok ⟨action.className⟩) ∧
        Source.isKeyword ⟨action.className⟩ = false ∧
        "Action".toList <:+ action.className.toList ∧
        idOfClassName action.className = action.id) ∧
    (∀ a b : Action, isCanonicalId a.id.toList = true → isCanonicalId b.id.toList = true →
      a.className = b.className → a.id = b.id) ∧
    ∀ a b : Action,
      (splitAll '_' a.id.toList).filter (· ≠ []) = (splitAll '_' b.id.toList).filter (· ≠ []) →
      a.className = b.className := by
  refine ⟨fun segments action hne hsegments hid => ?_, fun a b => className_inj,
    fun a b hpieces => ?_⟩
  · have hcanonical : isCanonicalId action.id.toList = true := by
      rw [hid, String.toList_ofList]
      exact isCanonicalId_intercalate hne hsegments
    have hread : ∀ kind owner,
        Synthesis.readIdent kind owner action.className = .ok ⟨action.className⟩ := by
      intro kind owner
      exact Synthesis.readIdent_eq_ok_iff.mpr
        ⟨lex?_className hcanonical, isKeyword_className action⟩
    exact ⟨underscore_notMem_className hcanonical, hread, isKeyword_className action,
      suffix_className action, idOfClassName_className hcanonical⟩
  · rw [← String.toList_inj, toList_className, toList_className, ← flatMap_capitalize_filter,
      hpieces, flatMap_capitalize_filter]

/-- An id with a digit, a segment of one letter and the word of the ending, and the same one with
underscores that separate nothing. -/
theorem id_with_action_read_back :
    (Action.mk "x_to2_action" "e" [] false none).className = "XTo2ActionAction" ∧
    idOfClassName "XTo2ActionAction" = "x_to2_action" ∧
    (Action.mk "_x__to2_action_" "e" [] false none).className = "XTo2ActionAction" := by
  have hname : (Action.mk "x_to2_action" "e" [] false none).className = "XTo2ActionAction" := by
    decide
  obtain ⟨hread, -, hsame⟩ := className_encodes_id
  have hback := (hread ["x".toList, "to2".toList, "action".toList]
    (Action.mk "x_to2_action" "e" [] false none) (by decide) (by decide) (by decide)).2.2.2.2
  refine ⟨hname, hname ▸ hback, ?_⟩
  rw [← hname]
  exact hsame _ _ (by decide)

end ActionUnits.Action
