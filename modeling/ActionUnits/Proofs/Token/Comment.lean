import ActionUnits.Proofs.Token.Braces

/-! # A comment at the end of a text

A text that ends in a plain line comment has the pieces that it has without the
comment. The comment must be reached as one: two slashes inside of a literal or of
another comment do not start it.
-/

namespace ActionUnits.Lexer

section Comment

variable {cs ds r text comment : List Char}

/-! ## Comments inside of a text -/

theorem splitLine_eq_nil_iff : (splitLine cs).2 = [] ↔ '\n' ∉ cs := by
  fun_induction splitLine cs with
  | case1 => simp
  | case2 cs => simp
  | case3 cs => simp
  | case4 c cs hfeed _ line rest hline ih =>
      rw [hline] at ih
      simp only [List.mem_cons, not_or]
      exact ⟨fun h => ⟨fun hc => hfeed hc.symm, ih.mp h⟩, fun h => ih.mpr h.2⟩

/-- A line that ends inside of a text ends there whatever follows the text. -/
theorem splitLine_of_mem (h : '\n' ∈ cs) (ds : List Char) :
    splitLine (cs ++ ds) = ((splitLine cs).1, (splitLine cs).2 ++ ds) := by
  fun_induction splitLine cs with
  | case1 => simp at h
  | case2 cs => rfl
  | case3 cs => rfl
  | case4 c cs hfeed hreturn line rest hline ih =>
      have hmem : '\n' ∈ cs := (List.mem_cons.mp h).resolve_left fun hc => hfeed hc.symm
      rw [List.cons_append, splitLine.eq_4 c _ hfeed, ih hmem, hline]
      intro more hc hmore
      cases cs with
      | nil => cases hmem
      | cons d ds => exact hreturn ds hc (by cases hmore; rfl)

/-- A block comment does not depend on what follows it. -/
theorem splitBlock_text {depth : Nat} (h : splitBlock depth cs = some (text, r)) (ds : List Char) :
    splitBlock depth (text ++ ds) = some (text, ds) := by
  fun_induction splitBlock depth cs generalizing text with
  | case1 depth cs ih =>
      obtain ⟨⟨text, r⟩, hmore, heq⟩ := Option.map_eq_some_iff.mp h
      cases heq
      rw [List.cons_append, List.cons_append, splitBlock, ih hmore]
      rfl
  | case2 depth cs hdepth =>
      cases h
      simp [splitBlock, hdepth]
  | case3 depth cs hdepth ih =>
      obtain ⟨⟨text, r⟩, hmore, heq⟩ := Option.map_eq_some_iff.mp h
      cases heq
      rw [List.cons_append, List.cons_append, splitBlock, if_neg hdepth, ih hmore]
      rfl
  | case4 depth c cs hopen hclose ih =>
      obtain ⟨⟨text, r⟩, hmore, heq⟩ := Option.map_eq_some_iff.mp h
      cases heq
      obtain ⟨rfl, start, htext⟩ := exists_of_splitBlock hmore
      obtain ⟨d, es, rfl⟩ : ∃ d es, text = d :: es := by
        cases text with
        | nil => simp at htext
        | cons d es => exact ⟨d, es, rfl⟩
      rw [List.cons_append, splitBlock.eq_3, ih hmore]
      · rfl
      · intro more hc hes
        cases hes
        exact hopen _ hc rfl
      · intro more hc hes
        cases hes
        exact hclose _ hc rfl
  | case5 => cases h

/-- A block comment that ends in a text, and not in what follows the text. -/
theorem splitBlock_cut {depth : Nat} (h : splitBlock depth (cs ++ ds) = some (text, r))
    (hr : ds.length ≤ r.length) :
    ∃ rest, r = rest ++ ds ∧ cs = text ++ rest ∧ splitBlock depth cs = some (text, rest) := by
  have hcs := (exists_of_splitBlock h).1
  obtain ⟨rest, rfl⟩ : ds <:+ r := List.suffix_of_suffix_length_le ⟨cs, rfl⟩ ⟨text, hcs.symm⟩ hr
  rw [← List.append_assoc] at hcs
  obtain rfl := List.append_cancel_right hcs
  exact ⟨rest, rfl, rfl, splitBlock_text h rest⟩

/-- A text as long as a beginning tells whether it starts with it. -/
theorem startsWith_of_length_le {start : String} (h : start.toList.length ≤ text.length)
    (ds : List Char) : startsWith start (text ++ ds) = startsWith start text := by
  rw [Bool.eq_iff_iff]
  simp only [startsWith, List.isPrefixOf_iff_prefix]
  exact ⟨fun hstart => List.prefix_of_prefix_length_le hstart (List.prefix_append _ _) h,
    fun hstart => hstart.trans (List.prefix_append _ _)⟩

theorem length_of_splitBlock (hstart : startsWith "/*" cs = true)
    (h : splitBlock 0 cs = some (text, r)) : 4 ≤ text.length := by
  obtain ⟨rest, rfl⟩ := exists_of_startsWith hstart ['/', '*'] rfl
  rw [List.cons_append, List.cons_append, splitBlock, Option.map_eq_some_iff] at h
  obtain ⟨⟨more, r⟩, hmore, heq⟩ := h
  cases heq
  obtain ⟨-, start, rfl⟩ := exists_of_splitBlock hmore
  simp

theorem startsBlockComment_of_length_le (h : 4 ≤ text.length) (ds : List Char) :
    startsBlockComment (text ++ ds) = startsBlockComment text := by
  unfold startsBlockComment
  iterate 5 rw [startsWith_of_length_le (Nat.le_trans (by decide) h)]

theorem startsLineComment_of_length_le (h : 4 ≤ text.length) (ds : List Char) :
    startsLineComment (text ++ ds) = startsLineComment text := by
  unfold startsLineComment
  iterate 4 rw [startsWith_of_length_le (Nat.le_trans (by decide) h)]

theorem docStart?_of_length_le (h : 4 ≤ text.length) (ds : List Char) :
    docStart? (text ++ ds) = docStart? text := by
  unfold docStart?
  iterate 6 rw [startsWith_of_length_le (Nat.le_trans (by decide) h)]

theorem startsLineComment_of_mem (h : '\n' ∈ cs) (ds : List Char) :
    startsLineComment (cs ++ ds) = startsLineComment cs := by
  obtain ⟨before, after, rfl⟩ := List.append_of_mem h
  rw [List.append_assoc, List.cons_append, startsLineComment_append, startsLineComment_append]

theorem docStart?_of_mem (h : '\n' ∈ cs) (ds : List Char) :
    docStart? (cs ++ ds) = docStart? cs := by
  obtain ⟨before, after, rfl⟩ := List.append_of_mem h
  rw [List.append_assoc, List.cons_append, docStart?_append, docStart?_append]

/-- A line that ends before a last line ends in the text in front of it. -/
theorem mem_of_splitLine (hds : '\n' ∉ ds) (h : (splitLine (cs ++ ds)).2 ≠ []) : '\n' ∈ cs := by
  rw [Ne, splitLine_eq_nil_iff, not_not, List.mem_append] at h
  exact h.resolve_right hds

/-! ## Blanks before a last line -/

theorem startsWith_of_ne {start : String} {c d : Char} {more : List Char}
    (hstart : start.toList = d :: more) (h : c ≠ d) (cs : List Char) :
    startsWith start (c :: cs) = false := by
  simp [startsWith, hstart, List.isPrefixOf, Ne.symm h]

/-- Without a slash in front only a blank is skipped. -/
theorem skipOne?_of_ne_slash {c : Char} (h : c ≠ '/') (cs : List Char) :
    skipOne? (c :: cs) = if isSpace c then some cs else none := by
  have hslash : ∀ {start : String} {more}, start.toList = '/' :: more →
      startsWith start (c :: cs) = false := fun hstart => startsWith_of_ne hstart h cs
  have hline : startsLineComment (c :: cs) = false := by
    rw [startsLineComment, hslash rfl]
    rfl
  have hblock : startsBlockComment (c :: cs) = false := by
    rw [startsBlockComment, hslash rfl, @hslash "/*" _ rfl]
    rfl
  rw [skipOne?, hline, hblock]
  rfl

theorem startsWith_of_startsBlockComment (h : startsBlockComment cs = true) :
    startsWith "/*" cs = true := by
  simp only [startsBlockComment, Bool.or_eq_true, Bool.and_eq_true] at h
  obtain hshort | ⟨⟨hstart, -⟩, -⟩ := h
  · obtain ⟨rest, rfl⟩ := exists_of_startsWith hshort ['/', '*', '*', '/'] rfl
    rfl
  · exact hstart

/-- What is skipped is a line comment, a block comment or a blank. -/
theorem skipOne?_eq_some_iff :
    skipOne? cs = some r ↔
      (startsLineComment cs = true ∧ r = (splitLine cs).2) ∨
      (startsLineComment cs = false ∧ startsBlockComment cs = true ∧
        ∃ text, splitBlock 0 cs = some (text, r)) ∨
      ∃ c, c ≠ '/' ∧ isSpace c = true ∧ cs = c :: r := by
  constructor
  · intro h
    unfold skipOne? at h
    split at h
    next hline => exact .inl ⟨hline, (Option.some.inj h).symm⟩
    next hline =>
      rw [Bool.not_eq_true] at hline
      split at h
      next hblock =>
        obtain ⟨⟨text, rest⟩, hsplit, rfl⟩ := Option.map_eq_some_iff.mp h
        exact .inr (.inl ⟨hline, hblock, text, hsplit⟩)
      next =>
        split at h
        next c rest _ =>
          split at h
          next hspace =>
            cases h
            refine .inr (.inr ⟨c, ?_, hspace, rfl⟩)
            rintro rfl
            cases hspace
          next => cases h
        next => cases h
  · rintro (⟨hline, rfl⟩ | ⟨hline, hblock, text, hsplit⟩ | ⟨c, hc, hspace, rfl⟩)
    · simp only [skipOne?, hline, if_true]
    · simp only [skipOne?, hline, hblock, hsplit, if_true, Bool.false_eq_true, if_false,
        Option.map_some]
    · rw [skipOne?_of_ne_slash hc, if_pos hspace]

/-- A blank that ends before a last line is one without the line. -/
theorem skipOne?_cut (hds : '\n' ∉ ds) (hne : ds ≠ []) (hcs : cs ≠ [])
    (h : skipOne? (cs ++ ds) = some r) (hr : ds.length ≤ r.length) :
    ∃ rest, r = rest ++ ds ∧ skipOne? cs = some rest := by
  obtain ⟨hline, rfl⟩ | ⟨hline, hblock, text, hsplit⟩ | ⟨c, hc, hspace, heq⟩ :=
    skipOne?_eq_some_iff.mp h
  · have hpos := Nat.lt_of_lt_of_le (List.length_pos_iff.mpr hne) hr
    have hmem := mem_of_splitLine hds (List.length_pos_iff.mp hpos)
    rw [startsLineComment_of_mem hmem] at hline
    exact ⟨_, by rw [splitLine_of_mem hmem], skipOne?_eq_some_iff.mpr (.inl ⟨hline, rfl⟩)⟩
  · have hlength := length_of_splitBlock (startsWith_of_startsBlockComment hblock) hsplit
    obtain ⟨rest, rfl, rfl, hown⟩ := splitBlock_cut hsplit hr
    rw [List.append_assoc, startsLineComment_of_length_le hlength] at hline
    rw [List.append_assoc, startsBlockComment_of_length_le hlength] at hblock
    refine ⟨rest, rfl, skipOne?_eq_some_iff.mpr (.inr (.inl ⟨?_, ?_, text, hown⟩))⟩
    · rw [startsLineComment_of_length_le hlength, hline]
    · rw [startsBlockComment_of_length_le hlength, hblock]
  · cases cs with
    | nil => exact absurd rfl hcs
    | cons d rest =>
        cases heq
        exact ⟨rest, rfl, skipOne?_eq_some_iff.mpr (.inr (.inr ⟨c, hc, hspace, rfl⟩))⟩

/-- Two slashes behind a comment keep it a comment. -/
theorem startsLineComment_live (h : startsLineComment cs = true) (more : List Char) :
    startsLineComment (cs ++ '/' :: '/' :: more) = true := by
  have hstart : startsWith "//" cs = true := by
    simp only [startsLineComment, Bool.and_eq_true] at h
    exact h.1.1
  obtain ⟨rest, rfl⟩ := exists_of_startsWith hstart ['/', '/'] rfl
  rcases rest with _ | ⟨d, _ | ⟨e, es⟩⟩
  · rfl
  · simp only [startsLineComment, startsWith, List.cons_append, List.nil_append] at h ⊢
    simp_all [List.isPrefixOf]
  · rw [startsLineComment_of_length_le (by simp)]
    exact h

/-- Slashes after a text do not undo a blank at its start. -/
theorem skipOne?_live (h : skipOne? cs = some r) (more : List Char) :
    ∃ rest, skipOne? (cs ++ '/' :: '/' :: more) = some rest := by
  obtain ⟨hline, -⟩ | ⟨hline, hblock, text, hsplit⟩ | ⟨c, hc, hspace, rfl⟩ :=
    skipOne?_eq_some_iff.mp h
  · exact ⟨_, skipOne?_eq_some_iff.mpr (.inl ⟨startsLineComment_live hline more, rfl⟩)⟩
  · have hlength := length_of_splitBlock (startsWith_of_startsBlockComment hblock) hsplit
    obtain ⟨rfl, -⟩ := exists_of_splitBlock hsplit
    rw [startsLineComment_of_length_le hlength] at hline
    rw [startsBlockComment_of_length_le hlength] at hblock
    refine ⟨r ++ '/' :: '/' :: more, ?_⟩
    rw [List.append_assoc]
    refine skipOne?_eq_some_iff.mpr (.inr (.inl ⟨?_, ?_, text, splitBlock_text hsplit _⟩))
    · rw [startsLineComment_of_length_le hlength, hline]
    · rw [startsBlockComment_of_length_le hlength, hblock]
  · exact ⟨_, skipOne?_eq_some_iff.mpr (.inr (.inr ⟨c, hc, hspace, rfl⟩))⟩

/-! ## Pieces before a last line -/

theorem startsWith_of_docStart? {inner : Bool} (h : docStart? cs = some (false, inner)) :
    startsWith "/*" cs = true := by
  unfold docStart? at h
  split at h
  · cases h
  · split at h
    next hstart =>
      obtain ⟨rest, rfl⟩ := exists_of_startsWith hstart ['/', '*', '!'] rfl
      rfl
    next =>
      split at h
      · cases h
      · split at h
        next hstart =>
          rw [Bool.and_eq_true] at hstart
          obtain ⟨rest, rfl⟩ := exists_of_startsWith hstart.1 ['/', '*', '*'] rfl
          rfl
        next => cases h

/-- A documentation comment is a line, or a block that says itself where it ends. -/
theorem docComment?_cases {inner : Bool} (h : docComment? cs = some (text, inner, r)) :
    (∃ mark rest, docStart? cs = some (true, inner) ∧ cs = '/' :: '/' :: mark :: rest ∧
      splitLine rest = (text, r)) ∨
    ∃ comment, startsWith "/*" cs = true ∧ cs = comment ++ r ∧
      splitBlock 0 cs = some (comment, r) ∧
      ∀ ds, docComment? (comment ++ ds) = some (text, inner, ds) := by
  rw [docComment?_eq] at h
  split at h
  · cases h
  next hstart =>
    cases h
    obtain ⟨mark, rest, rfl⟩ := docStart?_line hstart
    exact .inl ⟨mark, rest, hstart, rfl, rfl⟩
  next hstart =>
    obtain ⟨⟨comment, rest⟩, hsplit, heq⟩ := Option.map_eq_some_iff.mp h
    cases heq
    have hblock := startsWith_of_docStart? hstart
    have hlength := length_of_splitBlock hblock hsplit
    refine .inr ⟨comment, hblock, (exists_of_splitBlock hsplit).1, hsplit, fun ds => ?_⟩
    rw [(exists_of_splitBlock hsplit).1, docStart?_of_length_le hlength] at hstart
    rw [docComment?_eq, docStart?_of_length_le hlength, hstart]
    simp only [splitBlock_text hsplit, Option.map_some]

/-- A doc comment that ends before the cut is one without what follows the cut. -/
theorem docComment?_cut {inner : Bool} (hds : '\n' ∉ ds) (hne : ds ≠ [])
    (h : docComment? (cs ++ ds) = some (text, inner, r)) (hr : ds.length ≤ r.length) :
    ∃ rest, r = rest ++ ds ∧ docComment? cs = some (text, inner, rest) := by
  obtain ⟨mark, rest, hstart, heq, hline⟩ | ⟨comment, -, -, hsplit, hown⟩ := docComment?_cases h
  · have hpos := Nat.lt_of_lt_of_le (List.length_pos_iff.mpr hne) hr
    have hmem : '\n' ∈ cs := by
      have hrest : '\n' ∈ rest := by
        by_contra hnot
        rw [← splitLine_eq_nil_iff, hline] at hnot
        exact List.length_pos_iff.mp hpos hnot
      have hall : '\n' ∈ cs ++ ds := by simp [heq, hrest]
      exact (List.mem_append.mp hall).resolve_right hds
    rw [docStart?_of_mem hmem] at hstart
    obtain ⟨mark', own, rfl⟩ := docStart?_line hstart
    obtain ⟨rfl, rfl⟩ : mark' = mark ∧ own ++ ds = rest := by simpa using heq
    have hown : '\n' ∈ own :=
      mem_of_splitLine hds (by rw [hline]; exact List.length_pos_iff.mp hpos)
    rw [splitLine_of_mem hown] at hline
    cases hline
    refine ⟨_, rfl, ?_⟩
    rw [docComment?_eq, hstart]
    rfl
  · obtain ⟨rest, rfl, rfl, -⟩ := splitBlock_cut hsplit hr
    exact ⟨rest, rfl, hown rest⟩

theorem startsWith_errorMark (cs more : List Char) :
    startsWith errorMark (cs ++ '/' :: '/' :: more) = startsWith errorMark cs := by
  by_cases hlength : errorMark.toList.length ≤ cs.length
  · exact startsWith_of_length_le hlength _
  · -- The mark would have two slashes in a row, or one at its end.
    have hshort : startsWith errorMark cs = false := by
      rw [Bool.eq_false_iff]
      intro hstart
      exact hlength (List.isPrefixOf_iff_prefix.mp hstart).length_le
    rw [hshort, Bool.eq_false_iff]
    intro hstart
    obtain ⟨rest, hrest⟩ := List.isPrefixOf_iff_prefix.mp hstart
    have hsingle : ∀ k < errorMark.toList.length, errorMark.toList[k]? = some '/' →
        k + 1 < errorMark.toList.length ∧ errorMark.toList[k + 1]? ≠ some '/' := by decide
    have hbound : cs.length < errorMark.toList.length := Nat.lt_of_not_le hlength
    have hfirst : (errorMark.toList ++ rest)[cs.length]? = some '/' := by simp [hrest]
    have hsecond : (errorMark.toList ++ rest)[cs.length + 1]? = some '/' := by simp [hrest]
    rw [List.getElem?_append_left hbound] at hfirst
    obtain ⟨hnext, hother⟩ := hsingle _ hbound hfirst
    rw [List.getElem?_append_left hnext] at hsecond
    exact hother hsecond

/-- A piece that ends before a last line is one without the line, unless a slash is left over. -/
theorem piece?_cut {piece : Piece} {more : List Char} (hds : '\n' ∉ '/' :: '/' :: more)
    (hcs : cs ≠ []) (h : piece? (cs ++ '/' :: '/' :: more) = some (piece, r))
    (hr : ('/' :: '/' :: more).length ≤ r.length) (hslash : r ≠ '/' :: '/' :: '/' :: more) :
    ∃ rest, r = rest ++ '/' :: '/' :: more ∧ piece? cs = some (piece, rest) := by
  cases hdoc : (docComment? (cs ++ '/' :: '/' :: more)).filter fun r => hasNoBareReturn r.1 with
  | some doc =>
      obtain ⟨text, inner, after⟩ := doc
      obtain ⟨hcomment, hlegal⟩ := Option.filter_eq_some_iff.mp hdoc
      have hpiece : piece? (cs ++ '/' :: '/' :: more) =
          some (.tokens (docAttribute text inner), after) := by
        simp only [piece?, hdoc]
      cases hpiece.symm.trans h
      obtain ⟨rest, rfl, hown⟩ := docComment?_cut hds (List.cons_ne_nil _ _) hcomment hr
      refine ⟨rest, rfl, ?_⟩
      simp only [piece?, hown, Option.filter_some, hlegal, if_true]
  | none =>
      have hown : (docComment? cs).filter (fun r => hasNoBareReturn r.1) = none := by
        rw [Option.filter_eq_none_iff]
        rintro ⟨text, inner, after⟩ hcomment hlegal
        obtain ⟨mark, rest, -, rfl, -⟩ | ⟨comment, -, rfl, -, hblock⟩ :=
          docComment?_cases hcomment
        · cases (piece?_slashes hdoc).symm.trans h
        · rw [List.append_assoc, hblock, Option.filter_some, if_pos hlegal] at hdoc
          cases hdoc
      cases cs with
      | nil => exact absurd rfl hcs
      | cons d es =>
          rw [List.cons_append] at hdoc h
          simp only [piece?, hdoc] at h
          rw [← List.cons_append, startsWith_errorMark] at h
          simp only [piece?, hown]
          split at h
          · cases h
            exact ⟨es, rfl, rfl⟩
          · split at h
            · cases h
              exact ⟨es, rfl, rfl⟩
            · -- Neither a comment of documentation nor a delimiter, so it is a leaf.
              obtain ⟨⟨token, after⟩, hleaf, heq⟩ := Option.map_eq_some_iff.mp h
              cases heq
              obtain ⟨rest, rfl, hrest⟩ := leaf?_cut (.inr ⟨more, rfl⟩) hleaf hr hslash
              exact ⟨rest, rfl, by rw [hrest]; rfl⟩

/-! ## A last line comment -/

/-- What starts with two slashes takes up the rest of its line. -/
theorem eq_nil_of_skipOne?_slashes {more : List Char} (hline : '\n' ∉ '/' :: '/' :: more)
    (h : skipOne? ('/' :: '/' :: more) = some r) : r = [] := by
  obtain ⟨-, rfl⟩ | ⟨-, hblock, -⟩ | ⟨c, hc, -, heq⟩ := skipOne?_eq_some_iff.mp h
  · exact splitLine_eq_nil_iff.mpr hline
  · cases hblock
  · exact absurd (List.cons.inj heq).1.symm hc

/-- A piece that starts with two slashes takes the rest of its line. -/
theorem eq_nil_of_piece?_slashes {piece : Piece} {more : List Char}
    (hline : '\n' ∉ '/' :: '/' :: more) (h : piece? ('/' :: '/' :: more) = some (piece, r)) :
    r = [] := by
  cases hdoc : (docComment? ('/' :: '/' :: more)).filter fun r => hasNoBareReturn r.1 with
  | none => cases (piece?_slashes hdoc).symm.trans h
  | some doc =>
      obtain ⟨text, inner, after⟩ := doc
      simp only [piece?, hdoc] at h
      cases h
      obtain ⟨mark, rest, -, heq, hsplit⟩ | ⟨comment, hblock, -⟩ :=
        docComment?_cases (Option.filter_eq_some_iff.mp hdoc).1
      · cases heq
        have hrest : '\n' ∉ rest := fun hmem => hline (by simp [hmem])
        rw [← splitLine_eq_nil_iff, hsplit] at hrest
        exact hrest
      · cases hblock

/-- A slash in front of a last line comment does not leave the comment as it is. -/
theorem not_reaches_slash {more : List Char} (hline : '\n' ∉ '/' :: '/' :: more)
    {pieces : List Piece} : ¬ Reaches ('/' :: '/' :: '/' :: more) pieces ('/' :: '/' :: more) := by
  have hline' : '\n' ∉ '/' :: '/' :: '/' :: more := by simpa using hline
  intro h
  cases h with
  | blank hskip hrest =>
      rw [eq_nil_of_skipOne?_slashes hline' hskip] at hrest
      exact absurd hrest.length_le (by simp)
  | piece _ hpiece hrest =>
      rw [eq_nil_of_piece?_slashes hline' hpiece] at hrest
      exact absurd hrest.length_le (by simp)

/-- A last line comment that is reached as one leaves no trace. -/
theorem Reaches.before_comment {more : List Char} {pieces : List Piece}
    (hcomment : startsLineComment ('/' :: '/' :: more) = true) (hline : '\n' ∉ '/' :: '/' :: more)
    (h : Reaches (cs ++ '/' :: '/' :: more) pieces ('/' :: '/' :: more)) : Reaches cs pieces [] := by
  -- By induction on the pieces: none of them takes anything of the comment, since the comment is
  -- still there after the last one.
  generalize hplace : '/' :: '/' :: more = place at h
  generalize htext : cs ++ place = text at h
  induction h generalizing cs with
  | here =>
      obtain rfl : cs = [] := by simpa using htext
      exact .here []
  | @blank _ rest _ pieces hskip hrest ih =>
      subst hplace htext
      have hlength := hrest.length_le
      have hcs : cs ≠ [] := by
        rintro rfl
        rw [eq_nil_of_skipOne?_slashes hline hskip] at hlength
        simp at hlength
      obtain ⟨rest, rfl, hown⟩ := skipOne?_cut hline (List.cons_ne_nil _ _) hcs hskip (by omega)
      exact .blank hown (ih rfl rfl)
  | @piece _ rest _ piece pieces hskip hpiece hrest ih =>
      subst hplace htext
      have hlength := hrest.length_le
      have hcs : cs ≠ [] := by
        rintro rfl
        rw [List.nil_append, skipOne?_eq_some_iff.mpr (.inl ⟨hcomment, rfl⟩)] at hskip
        cases hskip
      have hslash : rest ≠ '/' :: '/' :: '/' :: more := by
        rintro rfl
        exact not_reaches_slash hline hrest
      obtain ⟨rest, rfl, hown⟩ := piece?_cut hline hcs hpiece (by omega) hslash
      have hnone : skipOne? cs = none := by
        cases hskip' : skipOne? cs with
        | none => rfl
        | some other =>
            obtain ⟨_, hlive⟩ := skipOne?_live hskip' more
            cases hskip.symm.trans hlive
      exact .piece hnone hown (ih rfl rfl)

end Comment

/-- A text that ends in a plain line comment, with what stands before the comment. -/
def EndsInComment (text before : String) : Prop :=
  ∃ comment pieces, text.toList = before.toList ++ comment ∧ startsLineComment comment = true ∧
    '\n' ∉ comment ∧ Reaches text.toList pieces comment

/-- A text has the tokens that it has without a last line comment. -/
theorem lex?_of_endsInComment {text before : String}
    (hmark : text.toList.head? ≠ some (Char.ofNat 0xfeff)) (h : EndsInComment text before) :
    lex? text = lex? before ∧ before.toList.head? ≠ some (Char.ofNat 0xfeff) := by
  obtain ⟨comment, pieces, htext, hcomment, hline, hreach⟩ := h
  have hstart : startsWith "//" comment = true := by
    simp only [startsLineComment, Bool.and_eq_true] at hcomment
    exact hcomment.1.1
  obtain ⟨more, rfl⟩ := exists_of_startsWith hstart ['/', '/'] rfl
  have hmark' : before.toList.head? ≠ some (Char.ofNat 0xfeff) := by
    rw [htext] at hmark
    cases hbefore : before.toList with
    | nil => exact (Option.some_ne_none _).symm
    | cons c cs =>
        rw [hbefore] at hmark
        exact hmark
  have hend : Reaches ('/' :: '/' :: more) [] [] :=
    .blank (skipOne?_eq_some_iff.mpr
      (.inl ⟨hcomment, (splitLine_eq_nil_iff.mpr hline).symm⟩)) (.here [])
  have hwhole := hreach.trans hend
  rw [List.append_nil] at hwhole
  rw [htext] at hreach
  refine ⟨?_, hmark'⟩
  rw [lex?_of_reaches hmark hwhole, lex?_of_reaches hmark' (hreach.before_comment hcomment hline)]

end ActionUnits.Lexer
