import ActionUnits.Text.Blank
import ActionUnits.Text.Identifier
import Mathlib.Data.List.DropRight

/-! # Blanks around a text

Trimming drops the blanks in front of a text and at its end, and nothing else:
what it leaves starts and ends with characters that are no blanks.
-/

namespace ActionUnits.Text

section Trailing

variable {α : Type} {test : α → Bool} {xs ys : List α}

theorem dropTrailing_eq_rdropWhile (test : α → Bool) (xs : List α) :
    dropTrailing test xs = xs.rdropWhile test := rfl

/-- Nothing is dropped if the last element fails the test. -/
theorem dropTrailing_eq_self (h : ∀ x, xs.getLast? = some x → test x = false) :
    dropTrailing test xs = xs := by
  rw [dropTrailing_eq_rdropWhile, List.rdropWhile_eq_self_iff]
  intro hne
  rw [h _ (List.getLast?_eq_some_getLast hne)]
  exact Bool.false_ne_true

/-- What is dropped ends where an element stays. -/
theorem dropTrailing_append (h : dropTrailing test ys ≠ []) :
    dropTrailing test (xs ++ ys) = xs ++ dropTrailing test ys := by
  have hne : ys.reverse.dropWhile test ≠ [] := by simpa [dropTrailing] using h
  have hfalse : (ys.reverse.dropWhile test).isEmpty = false := by simpa using hne
  rw [dropTrailing, List.reverse_append, List.dropWhile_append, hfalse]
  simp [dropTrailing]

theorem dropTrailing_append_of_forall (h : ∀ y ∈ ys, test y = true) :
    dropTrailing test (xs ++ ys) = dropTrailing test xs := by
  have hnil : ys.reverse.dropWhile test = [] := by simpa using h
  rw [dropTrailing, List.reverse_append, List.dropWhile_append, hnil]
  rfl

theorem not_of_getLast?_dropTrailing {x : α} (h : (dropTrailing test xs).getLast? = some x) :
    test x = false := by
  rw [dropTrailing_eq_rdropWhile] at h
  have hne : xs.rdropWhile test ≠ [] := by
    intro hnil
    rw [hnil] at h
    cases h
  have hlast := List.rdropWhile_last_not test xs hne
  rw [List.getLast?_eq_some_getLast hne, Option.some.injEq] at h
  rwa [h, Bool.not_eq_true] at hlast

end Trailing

variable {cs : List Char}

/-- The last character of a trimmed text is no blank. -/
theorem trimEnd_trim (cs : List Char) : trimEnd (trim cs) = trim cs :=
  dropTrailing_eq_self fun _ h => not_of_getLast?_dropTrailing h

/-- A text of which trimming leaves nothing is blank. -/
theorem isBlank_of_trim_eq_nil (h : trim cs = []) : ∀ c ∈ cs, isBlank c = true := by
  have hrest : ∀ c ∈ cs.dropWhile isBlank, isBlank c = true :=
    List.rdropWhile_eq_nil_iff.mp h
  have hnil : cs.dropWhile isBlank = [] := by
    cases hdrop : cs.dropWhile isBlank with
    | nil => rfl
    | cons c rest =>
        have hhead := List.head?_dropWhile_not isBlank cs
        rw [hdrop] at hhead hrest
        simp only [List.head?_cons] at hhead
        rw [hrest c List.mem_cons_self] at hhead
        cases hhead
  exact List.dropWhile_eq_nil_iff.mp hnil

/-- Only blanks stand in front of what trimming leaves. -/
theorem trimEnd_eq_append_trim (h : trim cs ≠ []) :
    trimEnd cs = cs.takeWhile isBlank ++ trim cs := by
  have hsplit := @dropTrailing_append _ _ (cs.takeWhile isBlank) _ h
  rwa [List.takeWhile_append_dropWhile] at hsplit

/-- Blanks are no characters of identifiers. -/
theorem isIdentContinue_of_isBlank {c : Char} (h : isBlank c = true) :
    isIdentContinue c = false := by
  have hall : ∀ n ∈ [0x20, 0x9, 0xa, 0xb, 0xc, 0xd, 0x85, 0xa0, 0x1680, 0x2000, 0x2001, 0x2002,
      0x2003, 0x2004, 0x2005, 0x2006, 0x2007, 0x2008, 0x2009, 0x200a, 0x2028, 0x2029, 0x202f,
      0x205f, 0x3000], isIdentContinue (Char.ofNat n) = false := by
    decide +kernel
  have hmem : c.toNat ∈ [0x20, 0x9, 0xa, 0xb, 0xc, 0xd, 0x85, 0xa0, 0x1680, 0x2000, 0x2001,
      0x2002, 0x2003, 0x2004, 0x2005, 0x2006, 0x2007, 0x2008, 0x2009, 0x200a, 0x2028, 0x2029,
      0x202f, 0x205f, 0x3000] := by
    simp only [isBlank, Bool.or_eq_true, Bool.and_eq_true, beq_iff_eq, decide_eq_true_eq] at h
    simp only [List.mem_cons, List.not_mem_nil, or_false]
    omega
  rw [← Char.ofNat_toNat c]
  exact hall _ hmem

end ActionUnits.Text
