import ActionUnits.Proofs.Token.Pieces

/-! # A text between braces

A text that is put between braces, each on a line of its own, is split into the
pieces that it has by itself, with the braces around them. Its last piece alone
may differ: a documentation comment that ends in a carriage return is unreadable at
the end of a text, and complete before a line feed.
-/

namespace ActionUnits.Lexer

section Feed

variable {cs more : List Char}

/-! ## Comments before a line feed -/

theorem startsWith_append_cons {start : String} {c : Char} (h : c ∉ start.toList)
    (cs more : List Char) : startsWith start (cs ++ c :: more) = startsWith start cs := by
  rw [startsWith_eq_isSome, startsWith_eq_isSome, strip?_append_cons h, Option.isSome_map]

/-- A line ends before a line feed as at the end of the text, but for a carriage return. -/
theorem splitLine_append (cs more : List Char) :
    (splitLine (cs ++ '\n' :: more)).2 = (splitLine cs).2 ++ '\n' :: more ∧
      ((splitLine (cs ++ '\n' :: more)).1 = (splitLine cs).1 ∨
        (splitLine cs).2 = [] ∧
          (splitLine cs).1 = (splitLine (cs ++ '\n' :: more)).1 ++ ['\r']) := by
  fun_induction splitLine cs with
  | case1 => exact ⟨rfl, .inl rfl⟩
  | case2 cs => exact ⟨rfl, .inl rfl⟩
  | case3 cs => exact ⟨rfl, .inl rfl⟩
  | case4 c cs hfeed hreturn line rest hline ih =>
      by_cases hlast : c = '\r' ∧ cs = []
      · obtain ⟨rfl, rfl⟩ := hlast
        cases hline
        exact ⟨rfl, .inr ⟨rfl, rfl⟩⟩
      · have hsplit : splitLine (c :: cs ++ '\n' :: more) =
            (c :: (splitLine (cs ++ '\n' :: more)).1, (splitLine (cs ++ '\n' :: more)).2) := by
          refine splitLine.eq_4 c _ hfeed fun rest hc hrest => ?_
          cases cs with
          | nil => exact hlast ⟨hc, rfl⟩
          | cons d ds => exact hreturn ds hc (by cases hrest; rfl)
        rw [hline] at ih
        rw [hsplit]
        obtain ⟨hrest, htext | ⟨hend, htext⟩⟩ := ih
        · exact ⟨hrest, .inl (congrArg (c :: ·) htext)⟩
        · exact ⟨hrest, .inr ⟨hend, congrArg (c :: ·) htext⟩⟩

theorem splitBlock_of_notMem {depth : Nat} (h : '/' ∉ cs) : splitBlock depth cs = none := by
  cases hblock : splitBlock depth cs with
  | none => rfl
  | some r =>
      obtain ⟨rfl, start, hstart⟩ := exists_of_splitBlock hblock
      exact absurd (by simp [hstart]) h

/-- A block comment does not end in what has no slash. -/
theorem splitBlock_append (h : '/' ∉ more) (depth : Nat) (cs : List Char) :
    splitBlock depth (cs ++ '\n' :: more) =
      (splitBlock depth cs).map fun r => (r.1, r.2 ++ '\n' :: more) := by
  fun_induction splitBlock depth cs with
  | case1 depth cs ih =>
      simp only [List.cons_append, splitBlock, ih, Option.map_map]
      rfl
  | case2 depth cs hdepth => simp [splitBlock, hdepth]
  | case3 depth cs hdepth ih =>
      simp only [List.cons_append, splitBlock, if_neg hdepth, ih, Option.map_map]
      rfl
  | case4 depth c cs hopen hclose ih =>
      rw [List.cons_append, splitBlock.eq_3, ih, Option.map_map, Option.map_map]
      · rfl
      · intro rest hc hrest
        cases cs with
        | nil => cases hrest
        | cons d ds => exact hopen ds hc (by cases hrest; rfl)
      · intro rest hc hrest
        cases cs with
        | nil => cases hrest
        | cons d ds => exact hclose ds hc (by cases hrest; rfl)
  | case5 => exact splitBlock_of_notMem (by simpa using h)

theorem startsLineComment_append (cs more : List Char) :
    startsLineComment (cs ++ '\n' :: more) = startsLineComment cs := by
  unfold startsLineComment
  rw [startsWith_append_cons (by decide), startsWith_append_cons (by decide),
    startsWith_append_cons (by decide), startsWith_append_cons (by decide)]

theorem startsBlockComment_append (cs more : List Char) :
    startsBlockComment (cs ++ '\n' :: more) = startsBlockComment cs := by
  unfold startsBlockComment
  rw [startsWith_append_cons (by decide), startsWith_append_cons (by decide),
    startsWith_append_cons (by decide), startsWith_append_cons (by decide),
    startsWith_append_cons (by decide)]

theorem docStart?_append (cs more : List Char) :
    docStart? (cs ++ '\n' :: more) = docStart? cs := by
  unfold docStart?
  rw [startsWith_append_cons (by decide), startsWith_append_cons (by decide),
    startsWith_append_cons (by decide), startsWith_append_cons (by decide),
    startsWith_append_cons (by decide), startsWith_append_cons (by decide)]

/-- A line break and text without a slash behind it do not change what is skipped. -/
theorem skipOne?_append (h : '/' ∉ more) (hcs : cs ≠ []) :
    skipOne? (cs ++ '\n' :: more) = (skipOne? cs).map (· ++ '\n' :: more) := by
  cases cs with
  | nil => exact absurd rfl hcs
  | cons c rest =>
      unfold skipOne?
      rw [startsLineComment_append, startsBlockComment_append, (splitLine_append _ _).1,
        splitBlock_append h, List.cons_append]
      split
      · rfl
      · split
        · rw [Option.map_map, Option.map_map]
          rfl
        · dsimp only
          split <;> rfl

/-! ## Pieces before a line feed -/

theorem hasNoBareReturn_append_return (text : List Char) :
    hasNoBareReturn (text ++ ['\r']) = false := by
  fun_induction hasNoBareReturn text with
  | case1 => rfl
  | case2 cs ih => exact ih
  | case3 cs hfeed =>
      cases cs with
      | nil => rfl
      | cons d ds =>
          exact hasNoBareReturn.eq_3 _ fun rest hrest => hfeed ds (by cases hrest; rfl)
  | case4 c cs hfeed hreturn ih =>
      rw [List.cons_append, hasNoBareReturn.eq_4 c _ ?_ ?_, ih]
      · exact fun rest hc _ => hreturn hc
      · exact hreturn

/-- A documentation comment before a line feed is the one at the end of the text, or one whose line
ends there in a carriage return. -/
theorem docComment?_append (h : '/' ∉ more) (cs : List Char) :
    docComment? (cs ++ '\n' :: more) =
        (docComment? cs).map (fun r => (r.1, r.2.1, r.2.2 ++ '\n' :: more)) ∨
      ∃ rest text inner, cs = '/' :: '/' :: rest ∧
        docComment? cs = some (text ++ ['\r'], inner, []) ∧
        docComment? (cs ++ '\n' :: more) = some (text, inner, '\n' :: more) := by
  rw [docComment?_eq, docComment?_eq, docStart?_append, splitBlock_append h]
  split
  · exact .inl rfl
  next inner hstart =>
    obtain ⟨mark, rest, rfl⟩ := docStart?_line hstart
    simp only [List.cons_append, List.drop_succ_cons, List.drop_zero]
    obtain ⟨hrest, htext | ⟨hend, htext⟩⟩ := splitLine_append rest more
    · exact .inl (by rw [hrest, htext]; rfl)
    · exact .inr ⟨_, _, inner, rfl, by rw [htext, hend], by rw [hrest, hend]; rfl⟩
  · exact .inl (by rw [Option.map_map, Option.map_map]; rfl)

/-- A line comment that documents nothing is no piece. -/
theorem piece?_slashes (h : (docComment? ('/' :: '/' :: cs)).filter
    (fun r => hasNoBareReturn r.1) = none) : piece? ('/' :: '/' :: cs) = none := by
  unfold piece?
  rw [h]
  simp only [leaf?_slashes]
  split
  next delimiter hopen => split at hopen <;> cases hopen
  next => rfl

/-- A line break and text without a slash behind it change a piece only if it was cut off. -/
theorem piece?_append (h : '/' ∉ more) (hquotes : Unquoted ('\n' :: more)) (hcs : cs ≠ []) :
    piece? (cs ++ '\n' :: more) =
        (piece? cs).map (fun r => (r.1, r.2 ++ '\n' :: more)) ∨
      ∃ text inner, piece? cs = none ∧
        piece? (cs ++ '\n' :: more) = some (.tokens (docAttribute text inner), '\n' :: more) := by
  obtain hdoc | ⟨rest, text, inner, rfl, hreturn, hdoc⟩ := docComment?_append h cs
  · left
    cases cs with
    | nil => exact absurd rfl hcs
    | cons c rest =>
        have hlegal : (docComment? (c :: rest ++ '\n' :: more)).filter
              (fun r => hasNoBareReturn r.1) =
            ((docComment? (c :: rest)).filter fun r => hasNoBareReturn r.1).map
              fun r => (r.1, r.2.1, r.2.2 ++ '\n' :: more) := by
          rw [hdoc, Option.filter_map]
          rfl
        unfold piece?
        rw [hlegal, startsWith_append_cons (by decide), leaf?_append ⟨more, rfl⟩ hquotes]
        -- What is no comment is read as before, since it is read from its start alone.
        cases (docComment? (c :: rest)).filter fun r => hasNoBareReturn r.1 with
        | some doc => rfl
        | none =>
            dsimp only [Option.map_none, List.cons_append]
            split
            · rfl
            · split
              · rfl
              · rw [Option.map_map, Option.map_map]
                rfl
  · -- A comment with a bare return at its end is illegal by itself, and need not be one once a line
    -- feed follows.
    have hnone : (docComment? ('/' :: '/' :: rest)).filter
        (fun r => hasNoBareReturn r.1) = none := by
      rw [hreturn, Option.filter_some, hasNoBareReturn_append_return]
      rfl
    cases hlegal : hasNoBareReturn text with
    | true =>
        refine .inr ⟨text, inner, piece?_slashes hnone, ?_⟩
        unfold piece?
        rw [hdoc, Option.filter_some, hlegal]
        rfl
    | false =>
        left
        rw [piece?_slashes hnone]
        refine piece?_slashes ?_
        change (docComment? ('/' :: '/' :: rest ++ '\n' :: more)).filter _ = none
        rw [hdoc, Option.filter_some, hlegal]
        rfl

/-- The pieces of a text are also those of the text with a line break and more behind it. -/
theorem Reaches.append {place : List Char} {pieces : List Piece} (h : '/' ∉ more)
    (hquotes : Unquoted ('\n' :: more)) (hreach : Reaches cs pieces place) :
    Reaches (cs ++ '\n' :: more) pieces (place ++ '\n' :: more) := by
  induction hreach with
  | here => exact .here _
  | @blank cs _ _ _ hskip _ ih =>
      have hcs : cs ≠ [] := by
        rintro rfl
        cases hskip
      exact .blank (by rw [skipOne?_append h hcs, hskip]; rfl) ih
  | @piece cs _ _ _ _ hskip hpiece _ ih =>
      have hcs : cs ≠ [] := by
        rintro rfl
        cases hpiece
      refine .piece (by rw [skipOne?_append h hcs, hskip]; rfl) ?_ ih
      obtain heq | ⟨_, _, hnone, _⟩ := piece?_append h hquotes hcs
      · rw [heq, hpiece]
        rfl
      · cases hpiece.symm.trans hnone

end Feed

/-! ## Pieces between braces -/

/-- The text between braces, each on a line of its own. -/
def braced (cs : List Char) : List Char :=
  '\x7b' :: '\n' :: cs ++ ['\n', '\x7d']

theorem notMem_slash_closing : '/' ∉ ['\x7d'] := by decide

theorem unquoted_closing : Unquoted ['\n', '\x7d'] := by
  unfold Unquoted
  decide

/-- The closing brace is a piece of its own. -/
theorem reaches_closing {pieces : List Piece} :
    Reaches ['\n', '\x7d'] pieces [] ↔ pieces = [.closing .brace] := by
  have hblank : skipOne? ['\n', '\x7d'] = some ['\x7d'] := by decide
  have hskip : skipOne? ['\x7d'] = none := by decide
  have hpiece : piece? ['\x7d'] = some (.closing .brace, []) := rfl
  rw [reaches_blank_iff hblank, reaches_piece_iff (List.cons_ne_nil _ _) hskip]
  constructor
  · rintro ⟨piece, rest, others, hpiece', hrest, rfl⟩
    cases hpiece.symm.trans hpiece'
    rw [reaches_nil_iff.mp hrest]
  · rintro rfl
    exact ⟨_, _, [], hpiece, .here _, rfl⟩

/-- A text in braces is the opening brace, and then the pieces of its inside. -/
theorem reaches_braced {cs : List Char} {pieces : List Piece} :
    Reaches (braced cs) pieces [] ↔
      ∃ others, pieces = .opening .brace :: others ∧
        Reaches (cs ++ ['\n', '\x7d']) others [] := by
  have hskip : skipOne? (braced cs) = none := rfl
  have hpiece : piece? (braced cs) = some (.opening .brace, '\n' :: cs ++ ['\n', '\x7d']) := rfl
  have hblank : skipOne? ('\n' :: cs ++ ['\n', '\x7d']) = some (cs ++ ['\n', '\x7d']) := rfl
  have hne : braced cs ≠ [] := List.cons_ne_nil _ _
  rw [reaches_piece_iff hne hskip]
  constructor
  · rintro ⟨piece, rest, others, hpiece', hrest, rfl⟩
    cases hpiece.symm.trans hpiece'
    exact ⟨others, rfl, (reaches_blank_iff hblank).mp hrest⟩
  · rintro ⟨others, rfl, hrest⟩
    exact ⟨_, _, others, hpiece, (reaches_blank_iff hblank).mpr hrest, rfl⟩

/-- The pieces before the closing brace are those of the text, unless the last one is a
documentation comment that the line feed has completed. -/
theorem own_of_reaches_closing {cs : List Char} {pieces : List Piece}
    (h : Reaches (cs ++ ['\n', '\x7d']) pieces []) :
    (∃ own, pieces = own ++ [.closing .brace] ∧ Reaches cs own []) ∨
      ∃ own text inner, pieces = own ++ [.tokens (docAttribute text inner), .closing .brace] := by
  have hslash := notMem_slash_closing
  have hquotes := unquoted_closing
  -- By induction on the pieces, each of which starts in the text or is the one that the line feed
  -- has completed.
  generalize htext : cs ++ ['\n', '\x7d'] = text at h
  generalize hend : [] = place at h
  induction h generalizing cs with
  | here =>
      subst hend
      simp at htext
  | @blank _ rest _ pieces hskip hreach ih =>
      subst hend htext
      by_cases hcs : cs = []
      · subst hcs
        have hpieces := reaches_closing.mp (.blank hskip hreach)
        exact .inl ⟨[], hpieces, .here _⟩
      · rw [skipOne?_append hslash hcs, Option.map_eq_some_iff] at hskip
        obtain ⟨rest, hskip, rfl⟩ := hskip
        obtain ⟨own, rfl, hown⟩ | hdoc := ih rfl rfl
        · exact .inl ⟨own, rfl, .blank hskip hown⟩
        · exact .inr hdoc
  | @piece _ rest _ piece pieces hskip hpiece _ ih =>
      subst hend htext
      have hcs : cs ≠ [] := by
        rintro rfl
        cases hskip
      rw [skipOne?_append hslash hcs, Option.map_eq_none_iff] at hskip
      obtain heq | ⟨text, inner, -, heq⟩ := piece?_append hslash hquotes hcs
      · rw [heq, Option.map_eq_some_iff] at hpiece
        obtain ⟨⟨piece, rest⟩, hpiece, hrest⟩ := hpiece
        cases hrest
        obtain ⟨own, rfl, hown⟩ | ⟨own, text, inner, rfl⟩ := ih rfl rfl
        · exact .inl ⟨piece :: own, rfl, .piece hskip hpiece hown⟩
        · exact .inr ⟨piece :: own, text, inner, rfl⟩
      · cases heq.symm.trans hpiece
        obtain ⟨own, rfl, hown⟩ | ⟨own, text', inner', rfl⟩ := @ih [] rfl rfl
        · exact .inr ⟨[], text, inner, by rw [reaches_nil_iff.mp hown]; rfl⟩
        · exact .inr ⟨_ :: own, text', inner', rfl⟩

/-! ## Groups between braces -/

/-- A piece does not see the group that encloses all others. -/
theorem Piece.place_append {piece : Piece} {stack stack' : List OpenGroup}
    {done done' : List Token} (h : piece.place (stack, done) = some (stack', done'))
    (outer : List OpenGroup) :
    piece.place (stack ++ outer, done) = some (stack' ++ outer, done') := by
  cases piece with
  | opening delimiter =>
      cases h
      rfl
  | closing delimiter =>
      cases stack with
      | nil => cases h
      | cons opened stack =>
          simp only [List.cons_append, Piece.place] at h ⊢
          split at h
          next heq =>
            cases h
            rw [if_pos heq]
          next => cases h
  | tokens added =>
      cases h
      rfl

theorem assemble_braced {stack : List OpenGroup} {done tokens : List Token} {pieces : List Piece}
    (h : assemble (stack, done) pieces = some tokens) :
    assemble (stack ++ [(.brace, [])], done) (pieces ++ [.closing .brace]) =
      some [.group .brace tokens] := by
  induction pieces generalizing stack done with
  | nil =>
      rw [assemble] at h
      split at h
      next hempty =>
        cases h
        rw [List.isEmpty_iff.mp hempty]
        rfl
      next => cases h
  | cons piece pieces ih =>
      rw [assemble, Option.bind_eq_some_iff] at h
      obtain ⟨⟨stack', done'⟩, hplace, hmore⟩ := h
      rw [List.cons_append, assemble, Piece.place_append hplace]
      exact ih hmore

/-- The tokens outside of all groups, last one first. -/
def Assembly.ground (state : Assembly) : List Token :=
  match state.1.getLast? with
  | some (_, outer) => outer
  | none => state.2

/-- Tokens outside of all groups stay where they are. -/
theorem Piece.ground_suffix {piece : Piece} {state state' : Assembly}
    (h : piece.place state = some state') : state.ground <:+ state'.ground := by
  obtain ⟨stack, done⟩ := state
  cases piece with
  | opening delimiter =>
      cases h
      cases stack with
      | nil => exact List.suffix_refl _
      | cons opened stack => exact List.suffix_refl _
  | closing delimiter =>
      match stack with
      | [] => cases h
      | [(opened, outer)] =>
          simp only [Piece.place] at h
          split at h
          · cases h
            exact List.suffix_cons _ _
          · cases h
      | (opened, outer) :: next :: stack =>
          simp only [Piece.place] at h
          split at h
          · cases h
            exact List.suffix_refl _
          · cases h
  | tokens added =>
      cases h
      cases stack with
      | nil => exact List.suffix_append _ _
      | cons opened stack => exact List.suffix_refl _

/-- The number of tokens outside of all groups. -/
def Assembly.floor (state : Assembly) : Nat :=
  match state.1.getLast? with
  | some (_, outer) => outer.length
  | none => state.2.length

theorem Assembly.floor_eq (state : Assembly) : state.floor = state.ground.length := by
  unfold floor ground
  split <;> rfl

/-- No piece lowers the floor of an assembly. -/
theorem Piece.floor_le {piece : Piece} {state state' : Assembly}
    (h : piece.place state = some state') : state.floor ≤ state'.floor := by
  rw [Assembly.floor_eq, Assembly.floor_eq]
  exact (Piece.ground_suffix h).length_le

theorem assemble_nil_eq_some {state : Assembly} {tokens : List Token} :
    assemble state [] = some tokens ↔ state.1 = [] ∧ tokens = state.2.reverse := by
  obtain ⟨stack, done⟩ := state
  cases stack with
  | nil => simp [assemble, eq_comm]
  | cons opened stack => simp [assemble]

/-- A closing delimiter ends the last open group. -/
theorem assemble_closing {state : Assembly} {delimiter : Delimiter} {tokens : List Token}
    (h : assemble state [.closing delimiter] = some tokens) :
    ∃ outer, state.1 = [(delimiter, outer)] ∧
      tokens = (.group delimiter state.2.reverse :: outer).reverse := by
  obtain ⟨stack, done⟩ := state
  obtain ⟨state', hplace, hend⟩ := Option.bind_eq_some_iff.mp h
  obtain ⟨hstack, rfl⟩ := assemble_nil_eq_some.mp hend
  cases stack with
  | nil => cases hplace
  | cons opened stack =>
      simp only [Piece.place] at hplace
      split at hplace
      next heq =>
        cases hplace
        subst heq hstack
        exact ⟨opened.2, rfl, rfl⟩
      next => cases hplace

/-- A last bracket leaves a further token outside of all groups. -/
theorem floor_lt_of_assemble {state : Assembly} {pieces : List Piece} {delimiter : Delimiter}
    {tokens : List Token} (h : assemble state (pieces ++ [.closing delimiter]) = some tokens) :
    state.floor < tokens.length := by
  induction pieces generalizing state with
  | nil =>
      obtain ⟨stack, done⟩ := state
      obtain ⟨outer, hstack, rfl⟩ := assemble_closing h
      subst hstack
      simp [Assembly.floor]
  | cons piece pieces ih =>
      obtain ⟨state', hplace, hmore⟩ := Option.bind_eq_some_iff.mp h
      exact Nat.lt_of_le_of_lt (Piece.floor_le hplace) (ih hmore)

/-- A closing brace at the end closes the group around all others, if that is all there is. -/
theorem own_of_assemble {stack : List OpenGroup} {done : List Token} {pieces : List Piece}
    {token : Token}
    (h : assemble (stack ++ [(.brace, [])], done) (pieces ++ [.closing .brace]) = some [token]) :
    ∃ tokens, token = .group .brace tokens ∧ assemble (stack, done) pieces = some tokens := by
  induction pieces generalizing stack done with
  | nil =>
      obtain ⟨outer, hstack, htokens⟩ := assemble_closing h
      cases stack with
      | nil =>
          cases hstack
          cases htokens
          exact ⟨done.reverse, rfl, rfl⟩
      | cons opened stack => simp at hstack
  | cons piece pieces ih =>
      obtain ⟨⟨stack', done'⟩, hplace, hmore⟩ := Option.bind_eq_some_iff.mp h
      cases hown : piece.place (stack, done) with
      | some state =>
          cases (Piece.place_append hown _).symm.trans hplace
          rw [assemble, hown]
          exact ih hmore
      | none =>
          -- The piece closes the outermost brace, so a token is left behind before the last one.
          cases piece with
          | opening delimiter => cases hown
          | tokens added => cases hown
          | closing delimiter =>
              cases stack with
              | nil =>
                  simp only [List.nil_append, Piece.place] at hplace
                  split at hplace
                  · cases hplace
                    exact absurd (floor_lt_of_assemble hmore) (Nat.lt_irrefl 1)
                  · cases hplace
              | cons opened stack =>
                  simp only [List.cons_append, Piece.place] at hown hplace
                  split at hplace
                  next heq => rw [if_pos heq] at hown; cases hown
                  next => cases hplace

/-- The tokens added last stand at the end. -/
theorem suffix_of_assemble {state : Assembly} {pieces : List Piece} {added tokens : List Token}
    (h : assemble state (pieces ++ [.tokens added]) = some tokens) : added <:+ tokens := by
  induction pieces generalizing state with
  | nil =>
      obtain ⟨stack, done⟩ := state
      have hend : assemble (stack, added.reverse ++ done) [] = some tokens := h
      obtain ⟨-, rfl⟩ := assemble_nil_eq_some.mp hend
      exact ⟨done.reverse, by simp⟩
  | cons piece pieces ih =>
      obtain ⟨state', -, hmore⟩ := Option.bind_eq_some_iff.mp h
      exact ih hmore

/-! ## Texts between braces -/

/-- A text in braces is lexed as the pieces of its inside, placed in an open group. -/
theorem lex?_braced_iff {text whole : String} {tokens : List Token}
    (hwhole : whole.toList = braced text.toList) :
    lex? whole = some tokens ↔
      ∃ pieces, Reaches (text.toList ++ ['\n', '\x7d']) pieces [] ∧
        assemble ([(.brace, [])], []) pieces = some tokens := by
  have hmark : whole.toList.head? ≠ some (Char.ofNat 0xfeff) := by
    rw [hwhole]
    exact fun hhead => absurd (Option.some.inj hhead) (by decide)
  rw [lex?_eq_some_iff hmark, hwhole]
  simp only [reaches_braced]
  constructor
  · rintro ⟨_, ⟨pieces, rfl, hreach⟩, hassemble⟩
    exact ⟨pieces, hreach, hassemble⟩
  · rintro ⟨pieces, hreach, hassemble⟩
    exact ⟨_, ⟨pieces, rfl, hreach⟩, hassemble⟩

/-- A text that has tokens is a group of them between braces. -/
theorem lex?_braced {text whole : String} {tokens : List Token}
    (hwhole : whole.toList = braced text.toList)
    (hmark : text.toList.head? ≠ some (Char.ofNat 0xfeff)) (h : lex? text = some tokens) :
    lex? whole = some [.group .brace tokens] := by
  obtain ⟨pieces, hreach, hassemble⟩ := (lex?_eq_some_iff hmark).mp h
  refine (lex?_braced_iff hwhole).mpr ⟨pieces ++ [.closing .brace], ?_, ?_⟩
  · exact (hreach.append notMem_slash_closing unquoted_closing).trans
      (reaches_closing.mpr rfl)
  · exact assemble_braced hassemble

/-- If a text between braces is a single group, its tokens are those of the text, or they end in
an attribute. -/
theorem own_of_lex?_braced {text whole : String} {token : Token}
    (hwhole : whole.toList = braced text.toList)
    (hmark : text.toList.head? ≠ some (Char.ofNat 0xfeff)) (h : lex? whole = some [token]) :
    ∃ tokens, token = .group .brace tokens ∧
      (lex? text = some tokens ∨ ∃ doc inner, docAttribute doc inner <:+ tokens) := by
  obtain ⟨_, hreach, hassemble⟩ := (lex?_braced_iff hwhole).mp h
  obtain ⟨own, rfl, hown⟩ | ⟨own, doc, inner, rfl⟩ := own_of_reaches_closing hreach
  · obtain ⟨tokens, rfl, htokens⟩ := @own_of_assemble [] _ _ _ hassemble
    exact ⟨tokens, rfl, .inl ((lex?_eq_some_iff hmark).mpr ⟨own, hown, htokens⟩)⟩
  · have hlast : own ++ [.tokens (docAttribute doc inner), .closing .brace] =
        (own ++ [.tokens (docAttribute doc inner)]) ++ [.closing .brace] := by simp
    rw [hlast] at hassemble
    obtain ⟨tokens, rfl, htokens⟩ := @own_of_assemble [] _ _ _ hassemble
    exact ⟨tokens, rfl, .inr ⟨doc, inner, suffix_of_assemble htokens⟩⟩

end ActionUnits.Lexer
