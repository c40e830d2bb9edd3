import ActionUnits.Proofs.Text.Word

/-! # Tokens before a break

A line break or the start of a line comment ends every token in front of it. So
words and numbers are read in the same way with a break after them and without it.
-/

namespace ActionUnits.Lexer

open Text

/-- What ends any token in front of it: a line break, or two slashes. -/
def Break (tail : List Char) : Prop :=
  (∃ more, tail = '\n' :: more) ∨ ∃ more, tail = '/' :: '/' :: more

/-- Whether a character starts a break. -/
def isBreak (c : Char) : Bool :=
  c == '\n' || c == '/'

theorem Break.exists_cons {tail : List Char} (h : Break tail) :
    ∃ c more, tail = c :: more ∧ isBreak c = true := by
  obtain ⟨more, rfl⟩ | ⟨more, rfl⟩ := h
  · exact ⟨_, _, rfl, rfl⟩
  · exact ⟨_, _, rfl, rfl⟩

theorem isBreak_cases {c : Char} (h : isBreak c = true) : c = '\n' ∨ c = '/' := by
  simpa [isBreak] using h

section Break

variable {tail : List Char} {c : Char} {cs more : List Char}

theorem notContinue_of_isBreak (h : isBreak c = true) : isIdentContinue c = false := by
  obtain rfl | rfl := isBreak_cases h <;> decide

theorem notStart_of_isBreak (h : isBreak c = true) : isIdentStart c = false := by
  obtain rfl | rfl := isBreak_cases h <;> decide

/-! ## Beginnings -/

theorem strip?_append_cons {start : List Char} (h : c ∉ start) (cs more : List Char) :
    strip? start (cs ++ c :: more) = (strip? start cs).map (· ++ c :: more) := by
  induction start generalizing cs with
  | nil => rfl
  | cons p ps ih =>
      obtain ⟨hp, hps⟩ := List.ne_and_not_mem_of_not_mem_cons h
      cases cs with
      | nil => simp [strip?, Ne.symm hp]
      | cons d ds =>
          rw [List.cons_append, strip?, strip?]
          split
          · exact ih hps ds
          · rfl

/-- A beginning without a break is not completed by what a break starts. -/
theorem strip?_append {start : List Char} (hstart : ∀ d ∈ start, isBreak d = false)
    (h : Break tail) (cs : List Char) :
    strip? start (cs ++ tail) = (strip? start cs).map (· ++ tail) := by
  obtain ⟨c, more, rfl, hc⟩ := h.exists_cons
  refine strip?_append_cons (fun hmem => ?_) cs more
  rw [hstart c hmem] at hc
  cases hc

theorem eq_append_of_strip? {start rest : List Char} (h : strip? start cs = some rest) :
    cs = start ++ rest := by
  induction start generalizing cs with
  | nil => exact Option.some.inj h
  | cons p ps ih =>
      cases cs with
      | nil => cases h
      | cons d ds =>
          rw [strip?] at h
          split at h
          next heq => rw [eq_of_beq heq, ih h, List.cons_append]
          next => cases h

theorem startsWith_eq_isSome (start : String) (cs : List Char) :
    startsWith start cs = (strip? start.toList cs).isSome := by
  rw [startsWith]
  induction start.toList generalizing cs with
  | nil => rfl
  | cons p ps ih =>
      cases cs with
      | nil => rfl
      | cons d ds =>
          rw [strip?, List.isPrefixOf, ih]
          cases p == d <;> rfl

/-- A break behind a text does not change what the text starts with. -/
theorem startsWith_append {start : String} (hstart : ∀ d ∈ start.toList, isBreak d = false)
    (h : Break tail) (cs : List Char) : startsWith start (cs ++ tail) = startsWith start cs := by
  rw [startsWith_eq_isSome, startsWith_eq_isSome, strip?_append hstart h, Option.isSome_map]

/-! ## Identifiers -/

theorem dropWhile_append {p : Char → Bool} (hp : ∀ c, isBreak c = true → p c = false)
    (h : Break tail) (cs : List Char) : (cs ++ tail).dropWhile p = cs.dropWhile p ++ tail := by
  obtain ⟨c, more, rfl, hc⟩ := h.exists_cons
  rw [List.dropWhile_append]
  split
  next hall => simp [List.isEmpty_iff.mp hall, hp c hc]
  next => rfl

theorem takeWhile_append {p : Char → Bool} (hp : ∀ c, isBreak c = true → p c = false)
    (h : Break tail) (cs : List Char) : (cs ++ tail).takeWhile p = cs.takeWhile p := by
  obtain ⟨c, more, rfl, hc⟩ := h.exists_cons
  rw [List.takeWhile_append]
  split
  next hall =>
    rw [List.takeWhile_cons, hp c hc, if_neg Bool.false_ne_true, List.append_nil]
    exact ((List.takeWhile_prefix p).eq_of_length hall).symm
  next => rfl

/-- A break ends a name. -/
theorem plainIdent?_append (h : Break tail) (cs : List Char) :
    plainIdent? (cs ++ tail) = (plainIdent? cs).map fun r => (r.1, r.2 ++ tail) := by
  cases cs with
  | nil =>
      obtain ⟨c, more, rfl, hc⟩ := h.exists_cons
      simp [plainIdent?, notStart_of_isBreak hc]
  | cons c cs =>
      rw [List.cons_append, plainIdent?, plainIdent?,
        dropWhile_append (fun _ => notContinue_of_isBreak) h,
        takeWhile_append (fun _ => notContinue_of_isBreak) h]
      split <;> rfl

theorem skipSuffix_append (h : Break tail) (cs : List Char) :
    skipSuffix (cs ++ tail) = skipSuffix cs ++ tail := by
  rw [skipSuffix, skipSuffix, plainIdent?_append h]
  cases plainIdent? cs <;> rfl

theorem skipSuffix_suffix (cs : List Char) : skipSuffix cs <:+ cs := by
  unfold skipSuffix
  cases cs with
  | nil => exact List.suffix_refl _
  | cons c cs =>
      rw [plainIdent?]
      split
      next heq =>
        split at heq
        · cases heq
          exact (List.dropWhile_suffix _).trans (List.suffix_cons c cs)
        · cases heq
      next => exact List.suffix_refl _

/-- The raw marker decides how an identifier is read. -/
theorem anyIdent?_eq (cs : List Char) :
    anyIdent? cs = match strip? ['r', '#'] cs with
      | some body => (plainIdent? body).bind fun r =>
          if neverRaw.contains (String.ofList r.1) then none
          else some (⟨String.ofList ('r' :: '#' :: r.1)⟩, r.2)
      | none => (plainIdent? cs).map fun r => (⟨String.ofList r.1⟩, r.2) := by
  unfold anyIdent?
  split
  · rfl
  next hraw =>
    have hnone : strip? ['r', '#'] cs = none := by
      cases hstrip : strip? ['r', '#'] cs with
      | none => rfl
      | some body => exact absurd (eq_append_of_strip? hstrip) (hraw body)
    rw [hnone]

theorem anyIdent?_append (h : Break tail) (cs : List Char) :
    anyIdent? (cs ++ tail) = (anyIdent? cs).map fun r => (r.1, r.2 ++ tail) := by
  rw [anyIdent?_eq, anyIdent?_eq, strip?_append (by decide) h, plainIdent?_append h]
  cases strip? ['r', '#'] cs with
  | none => cases plainIdent? cs <;> rfl
  | some body =>
      simp only [Option.map_some, plainIdent?_append h]
      cases plainIdent? body with
      | none => rfl
      | some r =>
          simp only [Option.map_some, Option.bind_some]
          split <;> rfl

theorem ident?_append (h : Break tail) (cs : List Char) :
    ident? (cs ++ tail) = (ident? cs).map fun r => (r.1, r.2 ++ tail) := by
  have hopeners : ∀ opener ∈ literalOpeners, ∀ d ∈ opener.toList, isBreak d = false := by decide
  have hany : literalOpeners.any (startsWith · (cs ++ tail)) =
      literalOpeners.any (startsWith · cs) := by
    rw [Bool.eq_iff_iff, List.any_eq_true, List.any_eq_true]
    refine exists_congr fun opener => and_congr_right fun hmem => ?_
    rw [startsWith_append (hopeners opener hmem) h]
  rw [ident?, ident?, hany, anyIdent?_append h]
  split <;> rfl

/-! ## Numbers -/

theorem exponent?_append (h : Break tail) (signed valued : Bool) (cs : List Char) :
    exponent? signed valued (cs ++ tail) = (exponent? signed valued cs).map (· ++ tail) := by
  obtain ⟨c, more, rfl, hc⟩ := h.exists_cons
  induction cs generalizing signed valued with
  | nil => obtain rfl | rfl := isBreak_cases hc <;> cases valued <;> rfl
  | cons d ds ih =>
      rw [List.cons_append, exponent?, exponent?]
      split
      · split
        · rfl
        · split
          · rfl
          · exact ih _ _
      · split
        · exact ih _ _
        · split
          · exact ih _ _
          · split <;> rfl

/-- A break ends the digits of a number with a fraction. -/
theorem floatDigits?_append (h : Break tail) (pointed : Bool) (cs : List Char) :
    floatDigits? pointed (cs ++ tail) = (floatDigits? pointed cs).map (· ++ tail) := by
  obtain ⟨c, more, rfl, hc⟩ := h.exists_cons
  induction cs generalizing pointed with
  | nil => obtain rfl | rfl := isBreak_cases hc <;> cases pointed <;> rfl
  | cons d ds ih =>
      have hhead : ((ds ++ c :: more).head?.any fun e => e == '.' || isIdentStart e) =
          ds.head?.any fun e => e == '.' || isIdentStart e := by
        cases ds with
        | nil => obtain rfl | rfl := isBreak_cases hc <;> rfl
        | cons e es => rfl
      rw [List.cons_append, floatDigits?, floatDigits?, hhead, exponent?_append h]
      split
      · exact ih _
      · split
        · split
          · rfl
          · exact ih _
        · split
          · cases exponent? false false ds with
            | some rest => rfl
            | none => cases pointed <;> rfl
          · split <;> rfl

theorem endNumber?_append (h : Break tail) (cs : List Char) :
    endNumber? (cs ++ tail) = (endNumber? cs).map (· ++ tail) := by
  have hhead : (skipSuffix cs ++ tail).head?.any isIdentContinue =
      (skipSuffix cs).head?.any isIdentContinue := by
    cases skipSuffix cs with
    | nil =>
        obtain ⟨c, more, rfl, hc⟩ := h.exists_cons
        exact notContinue_of_isBreak hc
    | cons d ds => rfl
  rw [endNumber?, endNumber?, skipSuffix_append h, hhead]
  split <;> rfl

/-- A break ends a number with a fraction. -/
theorem float?_append (h : Break tail) (cs : List Char) :
    float? (cs ++ tail) = (float? cs).map (· ++ tail) := by
  cases cs with
  | nil =>
      obtain ⟨c, more, rfl, hc⟩ := h.exists_cons
      obtain rfl | rfl := isBreak_cases hc <;> rfl
  | cons d ds =>
      rw [List.cons_append, float?, float?, floatDigits?_append h]
      split
      · cases floatDigits? false ds with
        | none => rfl
        | some rest => exact endNumber?_append h rest
      · rfl

/-- A break ends the digits of an integer. -/
theorem intDigits?_append (h : Break tail) (base : Nat) (empty : Bool) (cs : List Char) :
    intDigits? base empty (cs ++ tail) = (intDigits? base empty cs).map (· ++ tail) := by
  obtain ⟨c, more, rfl, hc⟩ := h.exists_cons
  induction cs generalizing empty with
  | nil => obtain rfl | rfl := isBreak_cases hc <;> cases empty <;> rfl
  | cons d ds ih =>
      rw [List.cons_append, intDigits?, intDigits?]
      split
      · split
        · exact ih _
        · rfl
      · split
        · split
          · rfl
          · exact ih _
        · cases Quoted.hexValue? d with
          | none => cases empty <;> rfl
          | some n =>
              dsimp only
              split
              · exact ih _
              · cases empty <;> rfl

/-- The digits of an integer, after the characters that announce its base. -/
def integer? (cs : List Char) : Option (List Char) :=
  match cs with
  | '0' :: 'x' :: rest => intDigits? 16 true rest
  | '0' :: 'o' :: rest => intDigits? 8 true rest
  | '0' :: 'b' :: rest => intDigits? 2 true rest
  | _ => intDigits? 10 true cs

/-- An integer is decimal unless a letter announces another base. -/
theorem integer?_decimal {cs : List Char}
    (h : ∀ e rest, cs = '0' :: e :: rest → e ∉ ['x', 'o', 'b']) :
    integer? cs = intDigits? 10 true cs := by
  unfold integer?
  split
  · exact absurd (by simp) (h _ _ rfl)
  · exact absurd (by simp) (h _ _ rfl)
  · exact absurd (by simp) (h _ _ rfl)
  · rfl

theorem integer?_append (h : Break tail) (cs : List Char) :
    integer? (cs ++ tail) = (integer? cs).map (· ++ tail) := by
  have hdecimal : (∀ e rest, cs ++ tail = '0' :: e :: rest → e ∉ ['x', 'o', 'b']) →
      (∀ e rest, cs = '0' :: e :: rest → e ∉ ['x', 'o', 'b']) →
      integer? (cs ++ tail) = (integer? cs).map (· ++ tail) := by
    intro hlong hshort
    rw [integer?_decimal hlong, integer?_decimal hshort, intDigits?_append h]
  obtain ⟨c, more, rfl, hc⟩ := h.exists_cons
  match cs with
  | [] => obtain rfl | rfl := isBreak_cases hc <;> rfl
  | [d] =>
      refine hdecimal ?_ nofun
      rintro e rest heq
      cases heq
      obtain rfl | rfl := isBreak_cases hc <;> decide
  | d :: e :: es =>
      by_cases hmark : d = '0' ∧ e ∈ ['x', 'o', 'b']
      · simp only [List.mem_cons, List.not_mem_nil, or_false] at hmark
        obtain ⟨rfl, rfl | rfl | rfl⟩ := hmark
        · exact intDigits?_append h 16 true es
        · exact intDigits?_append h 8 true es
        · exact intDigits?_append h 2 true es
      · refine hdecimal ?_ ?_
        all_goals
          rintro f rest heq
          cases heq
          exact fun hmem => hmark ⟨rfl, hmem⟩

/-- A break ends an integer. -/
theorem int?_append (h : Break tail) (cs : List Char) :
    int? (cs ++ tail) = (int? cs).map (· ++ tail) := by
  change (integer? (cs ++ tail)).bind endNumber? = ((integer? cs).bind endNumber?).map _
  rw [integer?_append h]
  cases integer? cs with
  | none => rfl
  | some rest => exact endNumber?_append h rest

end Break

end ActionUnits.Lexer
