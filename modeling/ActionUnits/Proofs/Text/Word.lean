import ActionUnits.Token.Lexer
import Mathlib.Data.List.TakeWhile

/-! # Words are single tokens

A text that starts with a character that may start identifiers and goes on with
characters of identifiers has one token, the identifier with that very text:
nothing in it opens a literal, a comment or a group. The same holds of such a text
behind a raw marker, apart from the few names that are never raw.
-/

namespace ActionUnits.Text

/-! ## Letters by their codes -/

theorem isUpper_iff {c : Char} : c.isUpper = true ↔ 65 ≤ c.toNat ∧ c.toNat ≤ 90 :=
  ⟨of_decide_eq_true, decide_eq_true⟩

theorem isLower_iff {c : Char} : c.isLower = true ↔ 97 ≤ c.toNat ∧ c.toNat ≤ 122 := by
  exact Bool.and_eq_true_iff.trans (and_congr decide_eq_true_iff decide_eq_true_iff)

theorem isAlpha_eq (c : Char) : c.isAlpha = (c.isUpper || c.isLower) := rfl

end ActionUnits.Text

namespace ActionUnits.Lexer

open Text

/-- What holds of all characters of a list is decided from the list, not from all characters. -/
instance (priority := 2000) decidableForallMem (p : Char → Prop) [DecidablePred p]
    (cs : List Char) : Decidable (∀ c ∈ cs, p c) :=
  List.decidableBAll p cs

/-- A character that starts identifiers, followed by characters of identifiers. -/
def IsIdentChars : List Char → Prop
  | [] => False
  | c :: cs => isIdentStart c = true ∧ ∀ d ∈ cs, isIdentContinue d = true

/-- A letter or an underscore, followed by characters of identifiers. -/
def IsIdentText : List Char → Prop
  | [] => False
  | c :: cs => (c.isAlpha = true ∨ c = '_') ∧ ∀ d ∈ cs, isIdentContinue d = true

/-- A letter followed by characters of identifiers. -/
def IsWordText : List Char → Prop
  | [] => False
  | c :: cs => c.isAlpha = true ∧ ∀ d ∈ cs, isIdentContinue d = true

namespace IsIdentChars

variable {c : Char} {cs : List Char}

theorem all_continue (h : IsIdentChars (c :: cs)) : ∀ d ∈ c :: cs, isIdentContinue d = true := by
  intro d hd
  rcases List.mem_cons.mp hd with rfl | hd
  · exact isIdentContinue_of_isIdentStart h.1
  · exact h.2 d hd

theorem notMem (h : IsIdentChars (c :: cs)) {d : Char} (hd : isIdentContinue d = false) :
    d ∉ c :: cs := by
  intro hmem
  rw [h.all_continue d hmem] at hd
  cases hd

/-- What starts no identifier is not the first character. -/
theorem head_notMem (h : IsIdentChars (c :: cs)) {marks : List Char}
    (hmarks : ∀ d ∈ marks, isIdentStart d = false) : c ∉ marks := by
  intro hmem
  have hc := hmarks c hmem
  rw [h.1] at hc
  cases hc

end IsIdentChars

/-- The text of a name consists of name characters. -/
theorem IsIdentText.isIdentChars {c : Char} {cs : List Char} (h : IsIdentText (c :: cs)) :
    IsIdentChars (c :: cs) := by
  refine ⟨?_, h.2⟩
  rcases h.1 with hc | rfl
  · rw [isIdentStart, hc, Bool.true_or, Bool.true_or]
  · decide

namespace IsWordText

variable {c : Char} {cs : List Char}

theorem isIdentText {cs : List Char} (h : IsWordText cs) : IsIdentText cs := by
  cases cs with
  | nil => exact h
  | cons c cs => exact ⟨.inl h.1, h.2⟩

theorem mem_continue {cs : List Char} (h : IsWordText cs) {d : Char} (hd : d ∈ cs) :
    isIdentContinue d = true := by
  cases cs with
  | nil => exact h.elim
  | cons c cs => exact h.isIdentText.isIdentChars.all_continue d hd

/-- Letters have codes between those of `A` and `z`. -/
theorem bounds (h : c.isAlpha = true) :
    65 ≤ c.toNat ∧ c.toNat ≤ 90 ∨ 97 ≤ c.toNat ∧ c.toNat ≤ 122 := by
  rwa [isAlpha_eq, Bool.or_eq_true, isUpper_iff, isLower_iff] at h

end IsWordText

/-- A beginning that was removed was there. -/
theorem mem_of_strip? {start cs rest : List Char} (h : strip? start cs = some rest) {c : Char}
    (hc : c ∈ start) : c ∈ cs := by
  induction start generalizing cs with
  | nil => cases hc
  | cons p ps ih =>
      cases cs with
      | nil => cases h
      | cons d ds =>
          simp only [strip?] at h
          split at h
          next heq =>
            have hpd : p = d := eq_of_beq heq
            rcases List.mem_cons.mp hc with rfl | hc
            · exact hpd ▸ List.mem_cons_self
            · exact List.mem_cons_of_mem _ (ih h hc)
          next => cases h

/-- A beginning with a character that does not occur is not there. -/
theorem strip?_of_notMem {start cs : List Char} {c : Char} (hc : c ∈ start) (h : c ∉ cs) :
    strip? start cs = none := by
  cases hstrip : strip? start cs with
  | none => rfl
  | some rest => exact absurd (mem_of_strip? hstrip hc) h

theorem subset_of_strip? {start cs rest : List Char} (h : strip? start cs = some rest) :
    rest ⊆ cs := by
  induction start generalizing cs with
  | nil =>
      cases h
      exact List.Subset.refl _
  | cons p ps ih =>
      cases cs with
      | nil => cases h
      | cons d ds =>
          simp only [strip?] at h
          split at h
          · exact fun c hc => List.mem_cons_of_mem _ (ih h hc)
          · cases h

theorem startsWith_of_notMem {start : String} {cs : List Char} {c : Char} (hc : c ∈ start.toList)
    (h : c ∉ cs) : startsWith start cs = false := by
  cases hstart : startsWith start cs with
  | false => rfl
  | true =>
      rw [startsWith, List.isPrefixOf_iff_prefix] at hstart
      exact absurd (hstart.subset hc) h

section Word

variable {c : Char} {cs : List Char}

theorem isDigit_of_isAlpha (h : c.isAlpha = true) : c.isDigit = false := by
  have hbounds := IsWordText.bounds h
  rw [Bool.eq_false_iff]
  intro hdigit
  simp only [Char.isDigit, Bool.and_eq_true, decide_eq_true_eq] at hdigit
  have hlow : 48 ≤ c.toNat := hdigit.1
  have hhigh : c.toNat ≤ 57 := hdigit.2
  omega

/-- What is no decimal digit is at most a digit of a greater base. -/
theorem ten_le_hexValue? (h : c.isDigit = false) {n : Nat} (hn : Quoted.hexValue? c = some n) :
    10 ≤ n := by
  unfold Quoted.hexValue? at hn
  split at hn
  next hrange =>
    simp only [Char.isDigit, ge_iff_le] at h
    simp only [Char.le_def] at hrange
    rw [h] at hrange
    cases hrange
  next =>
    split at hn
    · cases hn
      omega
    · split at hn
      · cases hn
        omega
      · cases hn

theorem int?_of_not_isDigit (h : c.isDigit = false) : int? (c :: cs) = none := by
  have hzero : c ≠ '0' := by
    rintro rfl
    exact absurd h (by decide)
  have hdigits : intDigits? 10 true (c :: cs) = none := by
    rw [intDigits?]
    simp only [h, Bool.false_eq_true, ↓reduceIte]
    split
    · rfl
    · split
      next n hn =>
        have hn10 : ¬ n < 10 := Nat.not_lt.mpr (ten_le_hexValue? h hn)
        simp [hn10]
      next => rfl
  unfold int?
  split
  next heq => exact absurd (List.cons.inj heq).1 hzero
  next heq => exact absurd (List.cons.inj heq).1 hzero
  next heq => exact absurd (List.cons.inj heq).1 hzero
  next =>
    rw [hdigits]
    rfl

theorem int?_of_isAlpha (h : c.isAlpha = true) : int? (c :: cs) = none :=
  int?_of_not_isDigit (isDigit_of_isAlpha h)

/-- The code points beyond ASCII of the blanks, of the directional marks and of the byte order
mark. -/
def spaceCodes : List Nat :=
  [0x85, 0xa0, 0x1680] ++ List.range' 0x2000 16 ++ [0x2028, 0x2029, 0x202f, 0x205f, 0x3000, 0xfeff]

/-- What starts an identifier is no decimal digit and nothing that the lexer passes over. -/
theorem not_isSpace_of_isIdentStart (h : isIdentStart c = true) :
    c.isDigit = false ∧ isSpace c = false ∧ c.toNat ≠ 0xfeff := by
  have hall : ∀ n ∈ spaceCodes, Table.identStart.covers n = false := by decide +kernel
  have hcode : 65 ≤ c.toNat ∧ c.toNat ≤ 122 ∨ 0x80 ≤ c.toNat ∧ c.toNat ∉ spaceCodes := by
    simp only [isIdentStart, Bool.or_eq_true, Bool.and_eq_true, beq_iff_eq,
      decide_eq_true_eq] at h
    rcases h with (hletter | rfl) | ⟨hhigh, hcovers⟩
    · have hbounds := IsWordText.bounds hletter
      omega
    · exact .inl (by decide)
    · refine .inr ⟨hhigh, fun hmem => ?_⟩
      rw [hall _ hmem] at hcovers
      cases hcovers
  simp only [spaceCodes, List.mem_append, List.mem_range'_1, List.mem_cons, List.not_mem_nil,
    or_false, not_or, not_and, not_lt] at hcode
  refine ⟨?_, ?_, by omega⟩
  · rw [Bool.eq_false_iff]
    intro hdigit
    simp only [Char.isDigit, Bool.and_eq_true, decide_eq_true_eq] at hdigit
    have hlow : 48 ≤ c.toNat := hdigit.1
    have hhigh : c.toNat ≤ 57 := hdigit.2
    omega
  · simp only [isSpace, isBlank, Bool.or_eq_false_iff, Bool.and_eq_false_iff,
      beq_eq_false_iff_ne, decide_eq_false_iff_not]
    omega

/-- What starts an identifier starts no number. -/
theorem IsIdentChars.notNumber (h : IsIdentChars (c :: cs)) :
    c.isDigit = false ∧ int? (c :: cs) = none := by
  have hdigit := (not_isSpace_of_isIdentStart h.1).1
  exact ⟨hdigit, int?_of_not_isDigit hdigit⟩

theorem IsIdentChars.afterLiteral? (h : IsIdentChars (c :: cs)) :
    Lexer.afterLiteral? (c :: cs) = none := by
  have hquote : '"' ∉ c :: cs := h.notMem (by decide)
  have happ : '\'' ∉ c :: cs := h.notMem (by decide)
  have hhash : '#' ∉ c :: cs := h.notMem (by decide)
  have hquoted : ∀ letters kind, quoted? letters kind (c :: cs) = none := by
    intro letters kind
    rw [quoted?, strip?_of_notMem (by simp) hquote]
    rfl
  have hcharacter : ∀ letters kind, character? letters kind (c :: cs) = none := by
    intro letters kind
    rw [character?, strip?_of_notMem (by simp) happ]
    rfl
  have hraw : ∀ letters kind, rawQuoted? letters kind (c :: cs) = none := by
    intro letters kind
    unfold rawQuoted?
    cases hstrip : strip? letters.toList (c :: cs) with
    | none => rfl
    | some body =>
        have hsub := subset_of_strip? hstrip
        have hread : Quoted.readRaw kind body = none := by
          unfold Quoted.readRaw
          dsimp only
          split
          next rest hdrop =>
            have hmem : '"' ∈ body := List.mem_of_mem_drop (hdrop ▸ List.mem_cons_self)
            exact absurd (hsub hmem) hquote
          next => rfl
        simp [hread]
  simp [Lexer.afterLiteral?, hquoted, hcharacter, hraw, float?, h.notNumber]

/-- Name characters are read as one name. -/
theorem IsIdentChars.plainIdent? (h : IsIdentChars (c :: cs)) :
    Lexer.plainIdent? (c :: cs) = some (c :: cs, []) := by
  have htake : cs.takeWhile isIdentContinue = cs := List.takeWhile_eq_self_iff.mpr h.2
  have hdrop : cs.dropWhile isIdentContinue = [] := List.dropWhile_eq_nil_iff.mpr h.2
  simp [Lexer.plainIdent?, h.1, htake, hdrop]

/-- The characters of an identifier are one leaf. -/
theorem IsIdentChars.leaf? (h : IsIdentChars (c :: cs)) :
    Lexer.leaf? (c :: cs) = some (.ident ⟨String.ofList (c :: cs)⟩, []) := by
  have hpunct : punct? (c :: cs) = none := by
    have hslash : '/' ∉ c :: cs := h.notMem (by decide)
    have hmark : c ∉ punctuation := h.head_notMem (by decide)
    rw [punct?, punctChar?, startsWith_of_notMem (c := '/') (by decide) hslash,
      startsWith_of_notMem (c := '/') (by decide) hslash]
    simp [hmark]
  have hopeners : literalOpeners.any (startsWith · (c :: cs)) = false := by
    have hmarks : ∀ opener ∈ literalOpeners,
        opener.toList.any (!isIdentContinue ·) = true := by decide
    rw [List.any_eq_false]
    intro opener hopener
    obtain ⟨d, hd, hmark⟩ := List.any_eq_true.mp (hmarks opener hopener)
    have hcontinue : isIdentContinue d = false := by simpa using hmark
    simp [startsWith_of_notMem hd (h.notMem hcontinue)]
  have hany : anyIdent? (c :: cs) = some (⟨String.ofList (c :: cs)⟩, []) := by
    have hhash : '#' ∉ c :: cs := h.notMem (by decide)
    unfold anyIdent?
    split
    next body heq =>
      refine absurd ?_ hhash
      rw [heq]
      simp
    next => simp [h.plainIdent?]
  simp [Lexer.leaf?, literal?, h.afterLiteral?, hpunct, ident?, hopeners, hany]

/-- A leaf that starts like an identifier and takes the whole text is the only token. -/
theorem lex?_of_leaf? {token : Token} (hc : isIdentStart c = true)
    (hleaf : Lexer.leaf? (c :: cs) = some (token, [])) :
    Lexer.lex? (String.ofList (c :: cs)) = some [token] := by
  have hmarks : c ∉ "/()[]\x7b\x7d".toList := by
    have hall : ∀ d ∈ "/()[]\x7b\x7d".toList, isIdentStart d = false := by decide
    intro hmem
    have hnone := hall c hmem
    rw [hc] at hnone
    cases hnone
  obtain ⟨hslash, hparen⟩ : c ≠ '/' ∧ c ≠ '(' := by simp_all
  obtain ⟨-, hspace, hcode⟩ := not_isSpace_of_isIdentStart hc
  have hskip : ∀ fuel, skipBlanks fuel (c :: cs) = c :: cs := by
    intro fuel
    cases fuel with
    | zero => rfl
    | succ fuel =>
        have hnone : skipOne? (c :: cs) = none := by
          simp [skipOne?, startsLineComment, startsBlockComment, startsWith, hslash.symm, hspace]
        rw [skipBlanks, hnone]
  have hdoc : docComment? (c :: cs) = none := by
    simp [docComment?, startsWith, hslash.symm]
  have hfirst : lexFrom (cs.length + 2) [] [] (c :: cs) =
      lexFrom (cs.length + 1) [] [token] [] := by
    have hopen : Delimiter.ofOpening? c = none := by
      unfold Delimiter.ofOpening?
      split
      all_goals first | rfl | exact absurd hmarks (by decide)
    have hclose : Delimiter.ofClosing? c = none := by
      unfold Delimiter.ofClosing?
      split
      all_goals first | rfl | exact absurd hmarks (by decide)
    rw [lexFrom]
    simp [hskip, hdoc, hleaf, startsWith, errorMark, hparen.symm, hopen, hclose]
  rw [Lexer.lex?, String.toList_ofList]
  simp only [beq_false_of_ne hcode, Bool.false_eq_true, ↓reduceIte, List.length_cons, hfirst]
  simp [lexFrom, skipBlanks, docComment?, startsWith]

/-- A text of characters of an identifier is one token. -/
theorem IsIdentChars.lex? (h : IsIdentChars (c :: cs)) :
    Lexer.lex? (String.ofList (c :: cs)) = some [.ident ⟨String.ofList (c :: cs)⟩] :=
  lex?_of_leaf? h.1 h.leaf?

/-- Nothing but a quote or a hash sign makes a literal of what follows a raw marker. -/
theorem IsIdentChars.leaf?_raw (h : IsIdentChars (c :: cs))
    (hraw : String.ofList (c :: cs) ∉ neverRaw) :
    Lexer.leaf? ('r' :: '#' :: c :: cs) =
      some (.ident ⟨String.ofList ('r' :: '#' :: c :: cs)⟩, []) := by
  have hmarks : c ∉ ['"', '#'] := h.head_notMem (by decide)
  obtain ⟨hquote, hhash⟩ : c ≠ '"' ∧ c ≠ '#' := by simpa using hmarks
  have hliteral : Lexer.afterLiteral? ('r' :: '#' :: c :: cs) = none := by
    have hquoted : ∀ letters ∈ ["", "b", "c"], ∀ kind,
        quoted? letters kind ('r' :: '#' :: c :: cs) = none := by
      simp [quoted?, strip?]
    have hbody : rawQuoted? "r" .text ('r' :: '#' :: c :: cs) = none := by
      simp [rawQuoted?, strip?, Quoted.readRaw, hhash, hquote]
    have hraws : ∀ letters ∈ ["br", "cr"], ∀ kind,
        rawQuoted? letters kind ('r' :: '#' :: c :: cs) = none := by
      simp [rawQuoted?, strip?]
    have hcharacter : ∀ letters ∈ ["", "b"], ∀ kind,
        character? letters kind ('r' :: '#' :: c :: cs) = none := by
      simp [character?, strip?]
    have hint : int? ('r' :: '#' :: c :: cs) = none := int?_of_not_isDigit (by decide)
    have hfloat : float? ('r' :: '#' :: c :: cs) = none := rfl
    simp [Lexer.afterLiteral?, hquoted, hbody, hraws, hcharacter, hint, hfloat]
  have hpunct : punct? ('r' :: '#' :: c :: cs) = none := by
    have hmark : 'r' ∉ punctuation := by decide
    simp [punct?, punctChar?, startsWith, hmark]
  have hopeners : literalOpeners.any (startsWith · ('r' :: '#' :: c :: cs)) = false := by
    simp [literalOpeners, startsWith, List.isPrefixOf, hquote.symm, hhash.symm]
  have hany : anyIdent? ('r' :: '#' :: c :: cs) =
      some (⟨String.ofList ('r' :: '#' :: c :: cs)⟩, []) := by
    have hnever : neverRaw.contains (String.ofList (c :: cs)) = false := by
      rw [← Bool.not_eq_true, List.contains_iff_mem]
      exact hraw
    simp only [anyIdent?, h.plainIdent?, bind, Option.bind, hnever]
    rfl
  simp [Lexer.leaf?, literal?, hliteral, hpunct, ident?, hopeners, hany]

/-- So is such a text behind a raw marker, unless it is never raw. -/
theorem IsIdentChars.lex?_raw (h : IsIdentChars (c :: cs))
    (hraw : String.ofList (c :: cs) ∉ neverRaw) :
    Lexer.lex? (String.ofList ('r' :: '#' :: c :: cs)) =
      some [.ident ⟨String.ofList ('r' :: '#' :: c :: cs)⟩] :=
  lex?_of_leaf? (by decide) (h.leaf?_raw hraw)

/-- A word is one token. -/
theorem IsIdentText.lex? (h : IsIdentText (c :: cs)) :
    Lexer.lex? (String.ofList (c :: cs)) = some [.ident ⟨String.ofList (c :: cs)⟩] :=
  h.isIdentChars.lex?

/-- A word is one token. -/
theorem IsWordText.lex? (h : IsWordText (c :: cs)) :
    Lexer.lex? (String.ofList (c :: cs)) = some [.ident ⟨String.ofList (c :: cs)⟩] :=
  h.isIdentText.lex?

end Word

end ActionUnits.Lexer
