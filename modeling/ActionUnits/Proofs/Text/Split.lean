import ActionUnits.Text.Blank

/-! # Pieces between separators

Splitting at a separator loses nothing but the separators: pieces hold none of
them, and the pieces of a text with a separator in the middle are the pieces of
its two sides.
-/

namespace ActionUnits.Text

variable {α : Type} [BEq α] [LawfulBEq α] {sep : α}

/-- A separator in front makes an empty first part. -/
theorem splitAll_cons_self (xs : List α) : splitAll sep (sep :: xs) = [] :: splitAll sep xs := by
  rw [splitAll]
  split
  next h => exact absurd h (splitAll_ne_nil sep xs)
  next piece pieces h => simp [h]

theorem splitAll_cons_of_ne {x : α} (hx : x ≠ sep) (xs : List α) :
    splitAll sep (x :: xs) =
      (x :: (splitAll sep xs).headD []) :: (splitAll sep xs).tail := by
  rw [splitAll]
  split
  next h => exact absurd h (splitAll_ne_nil sep xs)
  next piece pieces h => simp [h, hx]

/-- A separator in the middle of a text divides its pieces. -/
theorem splitAll_append_cons (xs ys : List α) :
    splitAll sep (xs ++ sep :: ys) = splitAll sep xs ++ splitAll sep ys := by
  induction xs with
  | nil => simp [splitAll_cons_self, splitAll]
  | cons x xs ih =>
      by_cases hx : x = sep
      · subst hx
        rw [List.cons_append, splitAll_cons_self, splitAll_cons_self, ih, List.cons_append]
      · rw [List.cons_append, splitAll_cons_of_ne hx, splitAll_cons_of_ne hx, ih]
        have hne := splitAll_ne_nil sep xs
        cases hpieces : splitAll sep xs with
        | nil => exact absurd hpieces hne
        | cons piece pieces => simp

/-- A text without separators at the end of another one extends its last piece. -/
theorem splitAll_append_of_notMem {ys : List α} (hys : sep ∉ ys) (xs : List α) :
    ∃ pieces last, splitAll sep xs = pieces ++ [last] ∧
      splitAll sep (xs ++ ys) = pieces ++ [last ++ ys] := by
  induction xs with
  | nil =>
      refine ⟨[], [], rfl, ?_⟩
      induction ys with
      | nil => rfl
      | cons y ys ih =>
          obtain ⟨hy, hys⟩ := not_or.mp (fun h => hys (List.mem_cons.mpr h))
          have htail := ih hys
          simp only [List.nil_append] at htail ⊢
          rw [splitAll_cons_of_ne (Ne.symm hy), htail]
          rfl
  | cons x xs ih =>
      obtain ⟨pieces, last, hleft, hboth⟩ := ih
      by_cases hx : x = sep
      · subst hx
        refine ⟨[] :: pieces, last, ?_, ?_⟩
        · rw [splitAll_cons_self, hleft, List.cons_append]
        · rw [List.cons_append, splitAll_cons_self, hboth, List.cons_append]
      · cases pieces with
        | nil =>
            refine ⟨[], x :: last, ?_, ?_⟩
            · rw [splitAll_cons_of_ne hx, hleft]
              rfl
            · rw [List.cons_append, splitAll_cons_of_ne hx, hboth]
              rfl
        | cons piece pieces =>
            refine ⟨(x :: piece) :: pieces, last, ?_, ?_⟩
            · rw [splitAll_cons_of_ne hx, hleft]
              rfl
            · rw [List.cons_append, splitAll_cons_of_ne hx, hboth]
              rfl

/-- A text without the separator is its only part. -/
theorem splitAll_of_notMem {xs : List α} (h : sep ∉ xs) : splitAll sep xs = [xs] := by
  obtain ⟨pieces, last, hnil, hboth⟩ := splitAll_append_of_notMem h []
  cases pieces with
  | nil =>
      obtain ⟨rfl, -⟩ := List.cons.inj hnil
      exact hboth
  | cons piece pieces => simp [splitAll] at hnil

/-- Pieces that were joined are found again. -/
theorem splitAll_intercalate {pieces : List (List α)} (hne : pieces ≠ [])
    (hpieces : ∀ piece ∈ pieces, sep ∉ piece) : splitAll sep ([sep].intercalate pieces) = pieces := by
  induction pieces with
  | nil => exact absurd rfl hne
  | cons piece pieces ih =>
      have hpiece := splitAll_of_notMem (hpieces piece List.mem_cons_self)
      by_cases hrest : pieces = []
      · rw [hrest, List.intercalate_singleton, hpiece]
      · rw [List.intercalate_cons_of_ne_nil hrest, List.append_assoc, List.singleton_append,
          splitAll_append_cons, hpiece, ih hrest fun p hp => hpieces p (List.mem_cons_of_mem _ hp),
          List.singleton_append]

/-- A text without separators in front of another one extends its first piece. -/
theorem splitAll_append_of_notMem_left {xs : List α} (hxs : sep ∉ xs) (ys : List α) :
    splitAll sep (xs ++ ys) = (xs ++ (splitAll sep ys).headD []) :: (splitAll sep ys).tail := by
  induction xs with
  | nil =>
      cases hpieces : splitAll sep ys with
      | nil => exact absurd hpieces (splitAll_ne_nil sep ys)
      | cons piece pieces => simp [hpieces]
  | cons x xs ih =>
      rw [List.mem_cons, not_or] at hxs
      rw [List.cons_append, splitAll_cons_of_ne (Ne.symm hxs.1), ih hxs.2]
      rfl

/-- Writing the elements of a text in another way, but not its separators, is done piece by
piece. -/
theorem splitAll_flatMap {f : α → List α} (hsep : f sep = [sep])
    (hf : ∀ x, x ≠ sep → sep ∉ f x) (xs : List α) :
    splitAll sep (xs.flatMap f) = (splitAll sep xs).map (·.flatMap f) := by
  induction xs with
  | nil => rfl
  | cons x xs ih =>
      rw [List.flatMap_cons]
      by_cases hx : x = sep
      · subst hx
        rw [hsep, List.singleton_append, splitAll_cons_self, splitAll_cons_self, ih]
        rfl
      · rw [splitAll_append_of_notMem_left (hf x hx), splitAll_cons_of_ne hx, ih]
        cases hpieces : splitAll sep xs with
        | nil => exact absurd hpieces (splitAll_ne_nil sep xs)
        | cons piece pieces => rfl

/-- Pieces consist of characters of the text, and hold no separator. -/
theorem notMem_of_mem_splitAll {xs piece : List α} (hpiece : piece ∈ splitAll sep xs) :
    sep ∉ piece := by
  induction xs generalizing piece with
  | nil =>
      rw [splitAll, List.mem_singleton] at hpiece
      simp [hpiece]
  | cons x xs ih =>
      by_cases hx : x = sep
      · subst hx
        rw [splitAll_cons_self] at hpiece
        rcases List.mem_cons.mp hpiece with rfl | htail
        · simp
        · exact ih htail
      · rw [splitAll_cons_of_ne hx] at hpiece
        cases hpieces : splitAll sep xs with
        | nil => exact absurd hpieces (splitAll_ne_nil sep xs)
        | cons first rest =>
            simp only [hpieces, List.headD_cons, List.tail_cons] at hpiece
            rcases List.mem_cons.mp hpiece with rfl | htail
            · have hfirst := ih (hpieces ▸ List.mem_cons_self)
              simp [Ne.symm hx, hfirst]
            · exact ih (hpieces ▸ List.mem_cons_of_mem _ htail)

theorem mem_of_mem_splitAll {xs piece : List α} (hpiece : piece ∈ splitAll sep xs) {x : α}
    (hx : x ∈ piece) : x ∈ xs := by
  induction xs generalizing piece with
  | nil =>
      rw [splitAll, List.mem_singleton] at hpiece
      simp [hpiece] at hx
  | cons y xs ih =>
      by_cases hy : y = sep
      · subst hy
        rw [splitAll_cons_self] at hpiece
        rcases List.mem_cons.mp hpiece with rfl | htail
        · simp at hx
        · exact List.mem_cons_of_mem _ (ih htail hx)
      · rw [splitAll_cons_of_ne hy] at hpiece
        cases hpieces : splitAll sep xs with
        | nil => exact absurd hpieces (splitAll_ne_nil sep xs)
        | cons first rest =>
            simp only [hpieces, List.headD_cons, List.tail_cons] at hpiece
            rcases List.mem_cons.mp hpiece with rfl | htail
            · rcases List.mem_cons.mp hx with rfl | hx
              · exact List.mem_cons_self
              · exact List.mem_cons_of_mem _ (ih (hpieces ▸ List.mem_cons_self) hx)
            · exact List.mem_cons_of_mem _ (ih (hpieces ▸ List.mem_cons_of_mem _ htail) hx)

/-- What is no separator is in a piece. -/
theorem exists_mem_splitAll {xs : List α} {x : α} (hx : x ∈ xs) (hne : x ≠ sep) :
    ∃ piece ∈ splitAll sep xs, x ∈ piece := by
  obtain ⟨before, after, rfl⟩ := List.append_of_mem hx
  induction before with
  | nil =>
      rw [List.nil_append, splitAll_cons_of_ne hne]
      exact ⟨_, List.mem_cons_self, List.mem_cons_self⟩
  | cons y before ih =>
      obtain ⟨piece, hpiece, hmem⟩ := ih (by simp)
      by_cases hy : y = sep
      · subst hy
        rw [List.cons_append, splitAll_cons_self]
        exact ⟨piece, List.mem_cons_of_mem _ hpiece, hmem⟩
      · rw [List.cons_append, splitAll_cons_of_ne hy]
        cases hpieces : splitAll sep (before ++ x :: after) with
        | nil => exact absurd hpieces (splitAll_ne_nil sep _)
        | cons first rest =>
            rw [hpieces] at hpiece
            rcases List.mem_cons.mp hpiece with rfl | htail
            · exact ⟨_, List.mem_cons_self, List.mem_cons_of_mem _ hmem⟩
            · exact ⟨piece, List.mem_cons_of_mem _ htail, hmem⟩

end ActionUnits.Text
