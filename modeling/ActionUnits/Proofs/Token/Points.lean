import ActionUnits.Proofs.Token.Comment

/-! # Texts of points and slashes

Points and slashes alone make punctuation and comments, but no word. So a text that
holds a name has another character, which makes it visible in a path.
-/

namespace ActionUnits.Lexer

/-- A text of points and slashes. -/
def IsPointed (cs : List Char) : Prop :=
  ∀ c ∈ cs, c = '/' ∨ c = '.'

/-- A piece without a word outside of brackets of its own. -/
def Piece.Wordless (piece : Piece) : Prop :=
  ∃ tokens, piece = .tokens tokens ∧ ∀ name, .ident name ∉ tokens

namespace IsPointed

variable {cs r : List Char}

theorem notMem_feed (h : IsPointed cs) : '\n' ∉ cs := by
  intro hmem
  rcases h _ hmem with hc | hc <;> cases hc

theorem not_startsBlock (h : IsPointed cs) : startsWith "/*" cs = false := by
  rw [Bool.eq_false_iff]
  intro hstart
  obtain ⟨rest, rfl⟩ := exists_of_startsWith hstart ['/', '*'] rfl
  rcases h '*' (by simp) with hc | hc <;> cases hc

/-- What is skipped reaches to the end. -/
theorem skipOne?_eq_some (h : IsPointed cs) (hskip : skipOne? cs = some r) : r = [] := by
  obtain ⟨-, rfl⟩ | ⟨-, hblock, -⟩ | ⟨c, -, hspace, rfl⟩ := skipOne?_eq_some_iff.mp hskip
  · exact splitLine_eq_nil_iff.mpr h.notMem_feed
  · exact absurd (startsWith_of_startsBlockComment hblock) (by simp [h.not_startsBlock])
  · rcases h c List.mem_cons_self with rfl | rfl <;> cases hspace

/-- A leaf of marks alone is one of the marks. -/
theorem leaf?_eq_some {c : Char} {token : Token} (h : IsPointed (c :: cs))
    (hleaf : leaf? (c :: cs) = some (token, r)) : (∃ joint, token = .punct c joint) ∧ r = cs := by
  have hliteral : literal? (c :: cs) = none := by
    rcases h c List.mem_cons_self with rfl | rfl <;> rfl
  have hmem : c ∈ punctuation := by
    rcases h c List.mem_cons_self with rfl | rfl <;> decide
  have hquote : (c == '\'') = false := by
    rcases h c List.mem_cons_self with rfl | rfl <;> rfl
  obtain ⟨text, htext, -⟩ | ⟨-, hpunct | ⟨-, ⟨name, hident, -⟩ | ⟨-, hmark, -⟩⟩⟩ :=
    Lexer.leaf?_eq_some.mp hleaf
  · rw [hliteral] at htext
    cases htext
  · refine ⟨?_, punct?_rest hpunct⟩
    obtain ⟨⟨d, rest⟩, hchar, hpunct⟩ := Option.bind_eq_some_iff.mp hpunct
    cases (punctChar?_eq_some hchar).1
    simp only [hquote] at hpunct
    cases hpunct
    exact ⟨_, rfl⟩
  · exact absurd hmem (notMem_of_ident? hident)
  · cases strip?_eq_some_iff.mp hmark
    exact absurd hmem (by decide)

/-- A piece is punctuation, or a comment that reaches to the end. -/
theorem piece?_eq_some {piece : Piece} (h : IsPointed cs) (hpiece : piece? cs = some (piece, r)) :
    piece.Wordless ∧ IsPointed r := by
  unfold piece? at hpiece
  split at hpiece
  next text inner rest hdoc =>
    cases hpiece
    refine ⟨⟨_, rfl, by simp [docAttribute]⟩, ?_⟩
    obtain ⟨mark, rest, -, rfl, hline⟩ | ⟨comment, hblock, -⟩ :=
      docComment?_cases (Option.filter_eq_some_iff.mp hdoc).1
    · have hfeed : '\n' ∉ rest := fun hmem => h.notMem_feed (by simp [hmem])
      rw [← splitLine_eq_nil_iff, hline] at hfeed
      rw [show r = [] from hfeed]
      exact nofun
    · exact absurd hblock (by simp [h.not_startsBlock])
  next =>
    cases cs with
    | nil => cases hpiece
    | cons c rest =>
        have hopen : (if startsWith errorMark (c :: rest) = true then none
            else Delimiter.ofOpening? c) = none := by
          rcases h c List.mem_cons_self with rfl | rfl <;> rfl
        have hclose : Delimiter.ofClosing? c = none := by
          rcases h c List.mem_cons_self with rfl | rfl <;> rfl
        simp only [hopen, hclose] at hpiece
        obtain ⟨⟨token, after⟩, hleaf, heq⟩ := Option.map_eq_some_iff.mp hpiece
        cases heq
        obtain ⟨⟨joint, rfl⟩, rfl⟩ := h.leaf?_eq_some hleaf
        exact ⟨⟨_, rfl, by simp⟩, fun d hd => h d (List.mem_cons_of_mem _ hd)⟩

/-- Marks alone make no words. -/
theorem wordless_of_reaches {pieces : List Piece} (h : IsPointed cs) (hreach : Reaches cs pieces r) :
    ∀ piece ∈ pieces, piece.Wordless := by
  induction hreach with
  | here => exact nofun
  | blank hskip _ ih =>
      rw [h.skipOne?_eq_some hskip] at ih
      exact ih nofun
  | piece _ hpiece _ ih =>
      obtain ⟨hwordless, hrest⟩ := h.piece?_eq_some hpiece
      exact List.forall_mem_cons.mpr ⟨hwordless, ih hrest⟩

end IsPointed

/-- Pieces without words are put together to tokens without words. -/
theorem ident_notMem_of_assemble {pieces : List Piece} {stack : List OpenGroup}
    {done tokens : List Token} (hpieces : ∀ piece ∈ pieces, piece.Wordless)
    (h : assemble (stack, done) pieces = some tokens) {name : Ident} (hdone : .ident name ∉ done) :
    .ident name ∉ tokens := by
  induction pieces generalizing done with
  | nil =>
      obtain ⟨-, heq⟩ := Option.ite_none_right_eq_some.mp h
      cases heq
      simpa using hdone
  | cons piece pieces ih =>
      obtain ⟨⟨added, rfl, hadded⟩, hrest⟩ := List.forall_mem_cons.mp hpieces
      refine ih hrest h ?_
      simp [hadded name, hdone]

/-- A text that holds a name has a character that is no point and no slash. -/
theorem exists_of_lex?_ident {text : String} {tokens : List Token} {name : Ident}
    (h : lex? text = some tokens) (hname : .ident name ∈ tokens) :
    ∃ c ∈ text.toList, c ≠ '/' ∧ c ≠ '.' := by
  by_contra hnone
  have hpointed : IsPointed text.toList := by
    intro c hc
    by_contra hother
    exact hnone ⟨c, hc, not_or.mp hother⟩
  have hmark : text.toList.head? ≠ some (Char.ofNat 0xfeff) := by
    intro hhead
    rcases hpointed _ (List.mem_of_head? hhead) with hc | hc <;> cases hc
  obtain ⟨pieces, hreach, hassemble⟩ := (lex?_eq_some_iff hmark).mp h
  exact ident_notMem_of_assemble (hpointed.wordless_of_reaches hreach) hassemble nofun hname

end ActionUnits.Lexer
