import ActionUnits.Proofs.Body
import ActionUnits.Proofs.Source.Replay.Generics
import ActionUnits.Proofs.Text.Trim

/-! # The forms of an import

The keyword and the semicolon of an import may be left out. What is read is the
text without the blanks around it and without its last semicolons, and with a
keyword in front where it has none. Two texts that differ only in these parts
have the same tokens, so they are read as one import or not at all. An import
that was read is a single declaration, and nothing stands in front of it but its
visibility.
-/

namespace ActionUnits

/-! ## The first word of a text -/

namespace Lexer

open Text

/-- A blank, or an opening parenthesis. -/
def EndsKeyword (c : Char) : Prop :=
  isBlank c = true ∨ c = '('

theorem EndsKeyword.notContinue {c : Char} (h : EndsKeyword c) : isIdentContinue c = false := by
  rcases h with hblank | rfl
  · exact isIdentContinue_of_isBlank hblank
  · decide

/-- A text opens with a keyword that blanks or a parenthesis follow. -/
def OpensKeyword (keyword : String) (cs : List Char) : Prop :=
  ∃ next rest, cs = keyword.toList ++ next :: rest ∧ EndsKeyword next

/-- A text that starts with a letter which opens no literal starts with a word. -/
theorem leaf?_of_isAlpha {c : Char} {cs : List Char} (hc : c.isAlpha = true)
    (hopens : c ∉ ['r', 'b', 'c']) :
    leaf? (c :: cs) = (plainIdent? (c :: cs)).map fun r => (.ident ⟨String.ofList r.1⟩, r.2) := by
  have hne : ∀ {d : Char}, d.isAlpha = false → d ≠ c := by
    rintro d hd rfl
    rw [hc] at hd
    cases hd
  obtain ⟨hr, hb, hcee⟩ : 'r' ≠ c ∧ 'b' ≠ c ∧ 'c' ≠ c := by
    simpa [eq_comm] using hopens
  have hliteral : literal? (c :: cs) = none := by
    have hquote : '"' ≠ c := hne (by decide)
    have hmark : '\'' ≠ c := hne (by decide)
    simp [literal?, afterLiteral?, quoted?, rawQuoted?, character?, strip?, hquote, hmark, hr, hb,
      hcee, float?, isDigit_of_isAlpha hc, int?_of_isAlpha hc]
  have hpunct : punct? (c :: cs) = none := by
    have hslash : '/' ≠ c := hne (by decide)
    have hmem : c ∉ punctuation := by
      intro hmem
      have hnone : ∀ d ∈ punctuation, d.isAlpha = false := by decide
      exact hne (hnone c hmem) rfl
    simp [punct?, punctChar?, startsWith, hslash, hmem]
  have hident : ident? (c :: cs) =
      (plainIdent? (c :: cs)).map fun r => (⟨String.ofList r.1⟩, r.2) := by
    have hopeners : literalOpeners.any (startsWith · (c :: cs)) = false := by
      simp [literalOpeners, startsWith, List.isPrefixOf, hr, hb, hcee]
    rw [ident?, hopeners, anyIdent?_eq]
    simp [strip?, hr]
  have herror : strip? errorMark.toList (c :: cs) = none := by
    have hparen : '(' ≠ c := hne (by decide)
    simp [errorMark, strip?, hparen]
  rw [leaf?, hliteral, hpunct, hident, herror]
  cases plainIdent? (c :: cs) <;> rfl

/-- At a letter no blank is skipped and a leaf is read. -/
theorem piece?_of_isAlpha {c : Char} {cs : List Char} (hc : c.isAlpha = true) :
    skipOne? (c :: cs) = none ∧
      piece? (c :: cs) = (leaf? (c :: cs)).map fun r => (.tokens [r.1], r.2) := by
  have hslash : c ≠ '/' := by
    rintro rfl
    cases hc
  have hparen : c ≠ '(' := by
    rintro rfl
    cases hc
  constructor
  · have hspace : isSpace c = false := by
      have hbounds := IsWordText.bounds hc
      simp only [isSpace, isBlank, Bool.or_eq_false_iff, Bool.and_eq_false_iff,
        beq_eq_false_iff_ne, decide_eq_false_iff_not]
      omega
    rw [skipOne?_of_ne_slash hslash, hspace]
    rfl
  · have hdoc : docComment? (c :: cs) = none := by
      simp [docComment?, startsWith, List.isPrefixOf, hslash.symm]
    have hopen : Delimiter.ofOpening? c = none := by
      unfold Delimiter.ofOpening?
      split
      all_goals first | rfl | cases hc
    have hclose : Delimiter.ofClosing? c = none := by
      unfold Delimiter.ofClosing?
      split
      all_goals first | rfl | cases hc
    simp [piece?, hdoc, hopen, hclose]

/-- A keyword is read as one token, if what follows ends it. -/
theorem piece?_keyword {keyword : String} (hkeyword : keyword = "use" ∨ keyword = "pub")
    {next : Char} (hnext : EndsKeyword next) (rest : List Char) :
    skipOne? (keyword.toList ++ next :: rest) = none ∧
      piece? (keyword.toList ++ next :: rest) =
        some (.tokens [.word keyword], next :: rest) := by
  have hword : ∀ c d e : Char, c.isAlpha = true → c ∉ ['r', 'b', 'c'] →
      isIdentContinue d = true → isIdentContinue e = true →
      skipOne? (c :: d :: e :: next :: rest) = none ∧
        piece? (c :: d :: e :: next :: rest) =
          some (.tokens [.word (String.ofList [c, d, e])], next :: rest) := by
    intro c d e hc hopens hd he
    have hstart : isIdentStart c = true := by rw [isIdentStart, hc, Bool.true_or, Bool.true_or]
    obtain ⟨hskip, hpiece⟩ := @piece?_of_isAlpha c (d :: e :: next :: rest) hc
    refine ⟨hskip, ?_⟩
    rw [hpiece, leaf?_of_isAlpha hc hopens]
    simp [plainIdent?, hstart, hd, he, hnext.notContinue, Token.word]
  rcases hkeyword with rfl | rfl
  · exact hword 'u' 's' 'e' rfl (by decide) rfl rfl
  · exact hword 'p' 'u' 'b' rfl (by decide) rfl rfl

/-- A keyword is the first piece of a text that opens with it. -/
theorem reaches_keyword_iff {keyword : String} (hkeyword : keyword = "use" ∨ keyword = "pub")
    {next : Char} (hnext : EndsKeyword next) {rest : List Char} {pieces : List Piece} :
    Reaches (keyword.toList ++ next :: rest) pieces [] ↔
      ∃ others, pieces = .tokens [.word keyword] :: others ∧
        Reaches (next :: rest) others [] := by
  obtain ⟨hskip, hpiece⟩ := piece?_keyword hkeyword hnext rest
  have hne : keyword.toList ++ next :: rest ≠ [] := by simp
  rw [reaches_piece_iff hne hskip]
  constructor
  · rintro ⟨piece, after, others, hpiece', hrest, rfl⟩
    cases hpiece.symm.trans hpiece'
    exact ⟨others, rfl, hrest⟩
  · rintro ⟨others, rfl, hrest⟩
    exact ⟨_, _, others, hpiece, hrest, rfl⟩

/-- Blanks in front of a text are not seen. -/
theorem reaches_isBlank_iff {blanks cs : List Char} (h : ∀ c ∈ blanks, isBlank c = true)
    {pieces : List Piece} : Reaches (blanks ++ cs) pieces [] ↔ Reaches cs pieces [] := by
  induction blanks with
  | nil => rfl
  | cons c blanks ih =>
      obtain ⟨hc, hblanks⟩ := List.forall_mem_cons.mp h
      have hskip : skipOne? (c :: (blanks ++ cs)) = some (blanks ++ cs) := by
        have hslash : c ≠ '/' := by
          rintro rfl
          exact absurd hc (by decide)
        rw [skipOne?_of_ne_slash hslash, isSpace, hc]
        rfl
      exact (reaches_blank_iff hskip).trans (ih hblanks)

/-- More blanks after a keyword change no tokens. -/
theorem lex?_keyword_blanks {short long : String} {blanks cs : List Char}
    (hblanks : ∀ c ∈ blanks, isBlank c = true) (hshort : short.toList = "use ".toList ++ cs)
    (hlong : long.toList = "use ".toList ++ (blanks ++ cs)) : lex? long = lex? short := by
  have hreaches : ∀ {rest : List Char} {pieces : List Piece},
      Reaches ("use ".toList ++ rest) pieces [] ↔
        ∃ others, pieces = .tokens [.word "use"] :: others ∧ Reaches rest others [] := by
    intro rest pieces
    have hblank : skipOne? (' ' :: rest) = some rest := rfl
    have hkeyword := @reaches_keyword_iff "use" (.inl rfl) ' ' (.inl rfl) rest pieces
    simp only [reaches_blank_iff hblank] at hkeyword
    exact hkeyword
  have hmark : ∀ {text : String} {rest : List Char}, text.toList = "use ".toList ++ rest →
      text.toList.head? ≠ some (Char.ofNat 0xfeff) := by
    intro text rest htext
    rw [htext]
    exact fun hhead => absurd (Option.some.inj hhead) (by decide)
  refine Option.ext fun tokens => ?_
  rw [lex?_eq_some_iff (hmark hlong), lex?_eq_some_iff (hmark hshort), hlong, hshort]
  simp only [hreaches, reaches_isBlank_iff hblanks]

/-! ## The first token -/

/-- Tokens that were put together stay in front of those that follow. -/
theorem ground_prefix_of_assemble {state : Assembly} {pieces : List Piece} {tokens : List Token}
    (h : assemble state pieces = some tokens) : state.ground.reverse <+: tokens := by
  induction pieces generalizing state with
  | nil =>
      obtain ⟨stack, done⟩ := state
      obtain ⟨hstack, rfl⟩ := assemble_nil_eq_some.mp h
      subst hstack
      exact List.prefix_refl _
  | cons piece pieces ih =>
      obtain ⟨state', hplace, hmore⟩ := Option.bind_eq_some_iff.mp h
      have hground := List.reverse_prefix.mpr (Piece.ground_suffix hplace)
      exact hground.trans (ih hmore)

/-- The keyword that a text opens with is its first token. -/
theorem exists_of_lex?_keyword {keyword : String} (hkeyword : keyword = "use" ∨ keyword = "pub")
    {text : String} (hopens : OpensKeyword keyword text.toList) {tokens : List Token}
    (h : lex? text = some tokens) : ∃ others, tokens = .word keyword :: others := by
  obtain ⟨next, rest, htext, hnext⟩ := hopens
  have hmark : text.toList.head? ≠ some (Char.ofNat 0xfeff) := by
    rw [htext]
    rcases hkeyword with rfl | rfl
    · exact fun hhead => absurd (Option.some.inj hhead) (by decide)
    · exact fun hhead => absurd (Option.some.inj hhead) (by decide)
  obtain ⟨pieces, hreaches, hassemble⟩ := (lex?_eq_some_iff hmark).mp h
  rw [htext, reaches_keyword_iff hkeyword hnext] at hreaches
  obtain ⟨others, rfl, -⟩ := hreaches
  have hmore : assemble ([], [.word keyword]) others = some tokens := hassemble
  obtain ⟨more, rfl⟩ := ground_prefix_of_assemble hmore
  exact ⟨more, rfl⟩

end Lexer

/-! ## What an import is -/

namespace Source

variable {α β : Type}

/-- The characters of an operator come from its text. -/
theorem mem_of_mem_operatorChars {char : Char} {joint : Bool} {text : List Char}
    (h : Token.punct char joint ∈ Token.operatorChars text) : char ∈ text := by
  induction text with
  | nil => cases h
  | cons c cs ih =>
      cases cs with
      | nil =>
          cases List.mem_singleton.mp h
          exact List.mem_cons_self
      | cons next cs =>
          rcases List.mem_cons.mp h with heq | hmem
          · cases heq
            exact List.mem_cons_self
          · exact List.mem_cons_of_mem _ (ih hmem)

/-- What a parser writes has no semicolon outside of groups. -/
def NoSemicolon (p : Parser α) : Prop :=
  ∀ c a d, p c = some (a, d) →
    ∃ tokens : List Token, d.written = tokens.reverse ++ c.written ∧
      ∀ joint, Token.punct ';' joint ∉ tokens

namespace NoSemicolon

theorem pure (a : α) : NoSemicolon (Pure.pure a : Parser α) := by
  intro c b d h
  obtain ⟨-, rfl⟩ := pure_eq_some.mp h
  exact ⟨[], rfl, by simp⟩

theorem failure : NoSemicolon (failure : Parser α) := by
  intro c a d h
  cases h

/-- Two steps that read no semicolon read none together. -/
theorem bind {p : Parser α} {f : α → Parser β} (hp : NoSemicolon p)
    (hf : ∀ a, NoSemicolon (f a)) : NoSemicolon (p >>= f) := by
  intro c b d h
  obtain ⟨a, e, hrun, hrest⟩ := bind_eq_some.mp h
  obtain ⟨first, hfirst, hnone⟩ := hp c a e hrun
  obtain ⟨second, hsecond, hnone'⟩ := hf a e b d hrest
  refine ⟨first ++ second, ?_, fun joint hmem => ?_⟩
  · rw [hsecond, hfirst, List.reverse_append, List.append_assoc]
  · rcases List.mem_append.mp hmem with hmem | hmem
    · exact hnone joint hmem
    · exact hnone' joint hmem

theorem ite {b : Bool} {p q : Parser α} (hp : NoSemicolon p) (hq : NoSemicolon q) :
    NoSemicolon (if b then p else q) := by
  cases b
  · exact hq
  · exact hp

theorem peek (question : Peek) : NoSemicolon (peek question) := by
  intro c b d h
  cases h
  exact ⟨[], rfl, by simp⟩

theorem require (condition : Bool) : NoSemicolon (require condition) := by
  intro c b d h
  obtain ⟨-, rfl⟩ := require_eq_some.mp h
  exact ⟨[], rfl, by simp⟩

theorem anyWord : NoSemicolon anyWord := by
  intro c name d h
  obtain ⟨-, hwritten⟩ := anyWord_eq_some.mp h
  exact ⟨[.ident name], hwritten, by simp⟩

theorem op? {text : String} (htext : ';' ∉ text.toList) : NoSemicolon (op? text) := by
  intro c b d h
  obtain ⟨-, -, rfl⟩ | ⟨-, -, rfl⟩ := op?_cases h
  · exact ⟨[], rfl, by simp⟩
  · exact ⟨Token.operator text, rfl, fun joint hmem => htext (mem_of_mem_operatorChars hmem)⟩

theorem word? (text : String) : NoSemicolon (word? text) := by
  unfold Source.word?
  refine bind (peek _) fun b => ite (bind ?_ fun _ => pure _) (pure _)
  exact bind (peek _) fun _ => bind (require _) fun _ => bind anyWord fun _ => pure _

/-- A group is one token, whatever it holds. -/
theorem group {delimiter : Delimiter} {p : Parser α} : NoSemicolon (group delimiter p) := by
  intro c a d h
  obtain ⟨body, written, -, -, hwritten⟩ := group_eq_some.mp h
  exact ⟨[.group delimiter written.reverse], hwritten, by simp⟩

end NoSemicolon

/-- What is imported has no semicolon in it. -/
theorem useTree_noSemicolon (depth : Nat) (rootsInside : Bool) :
    NoSemicolon (useTree depth rootsInside) := by
  induction depth generalizing rootsInside with
  | zero => exact .failure
  | succ depth ih =>
      rw [useTree]
      have halias : NoSemicolon useAlias :=
        .bind (.peek _) fun _ => .bind (.require _) fun _ => .anyWord
      have hname : ∀ name : Ident, NoSemicolon (do
          if ← Source.op? "::" then return (← useTree depth false).map (UseTree.path name)
          else if ← Source.word? "as" then return some (.rename name (← useAlias))
          else return some (.name name)) := fun name =>
        .bind (.op? (by decide)) fun _ => .ite (.bind (ih false) fun _ => .pure _)
          (.bind (.word? _) fun _ => .ite (.bind halias fun _ => .pure _) (.pure _))
      exact .bind (.peek _) fun _ => .ite (.bind .anyWord hname)
        (.bind (.op? (by decide)) fun _ => .ite (.pure _) .group)

theorem word_eq_some {text : String} {c d : Cursor} {u : Unit} (h : word text c = some (u, d)) :
    d.written = .word text :: c.written := by
  unfold word at h
  rw [peek_bind_apply] at h
  obtain ⟨_, e, hrequire, h⟩ := bind_eq_some.mp h
  obtain ⟨hword, rfl⟩ := require_eq_some.mp hrequire
  obtain ⟨name, e, hname, h⟩ := bind_eq_some.mp h
  obtain ⟨-, rfl⟩ := pure_eq_some.mp h
  obtain ⟨hrest, hwritten⟩ := anyWord_eq_some.mp hname
  rw [hrest] at hword
  have hname : name.text = text := eq_of_beq hword
  rw [hwritten, ← hname]
  rfl

/-- A declaration of an import goes from its keyword to the only semicolon in it. -/
theorem useItem_eq_some {c d : Cursor} {node : Node} (h : useItem false c = some (some node, d)) :
    ∃ (rooted : Bool) (tree : UseTree) (inner : List Token), node = .useItem rooted tree ∧
      d.written = (Token.word "use" :: inner ++ [Token.punct ';' false]).reverse ++ c.written ∧
      ∀ joint, Token.punct ';' joint ∉ inner := by
  unfold useItem at h
  obtain ⟨_, e₁, hword, h⟩ := bind_eq_some.mp h
  obtain ⟨rooted, e₂, hrooted, h⟩ := bind_eq_some.mp h
  rw [bind_of_eq_some get_apply] at h
  obtain ⟨tree, e₃, htree, h⟩ := bind_eq_some.mp h
  obtain ⟨_, e₄, hend, h⟩ := bind_eq_some.mp h
  obtain ⟨hnode, rfl⟩ := pure_eq_some.mp h
  obtain ⟨path, rfl, rfl⟩ := Option.map_eq_some_iff.mp hnode
  have hroot : NoSemicolon (op? "::") := .op? (by decide)
  obtain ⟨root, hroot, hnone⟩ := hroot _ _ _ hrooted
  obtain ⟨inner, hinner, hnone'⟩ := useTree_noSemicolon _ _ _ _ _ htree
  obtain ⟨-, rfl⟩ := op_eq_some.mp hend
  refine ⟨rooted, path, root ++ inner, rfl, ?_, fun joint hmem => ?_⟩
  · rw [hinner, hroot, word_eq_some hword]
    simp [Token.operator, Token.operatorChars]
  · rcases List.mem_append.mp hmem with hmem | hmem
    · exact hnone joint hmem
    · exact hnone' joint hmem

/-- A single declaration of an import, with a visibility in front and without attributes. -/
def IsSingleUse (fragment : Fragment Import) : Prop :=
  ∃ (rooted : Bool) (tree : UseTree) (inner : List Token),
    fragment.value.node = .item [] fragment.value.vis.value false (.useItem rooted tree) ∧
    fragment.tokens =
      fragment.value.vis.tokens ++ Token.word "use" :: inner ++ [Token.punct ';' false] ∧
    ∀ joint, Token.punct ';' joint ∉ inner

/-- What starts with a word has no attributes: a visibility and a declaration are read. -/
theorem readImport?_eq_some {name : Ident} {tokens : List Token} {fragment : Fragment Import}
    (h : readImport? (.ident name :: tokens) = some fragment) :
    ∃ vis middle out node written,
      visibility ⟨.ident name :: tokens, []⟩ = some (vis, ⟨middle, out⟩) ∧
      useItem false ⟨middle, out⟩ = some (some node, ⟨[], written⟩) ∧
      fragment = ⟨⟨.item [] vis false node, ⟨vis, out.reverse⟩⟩, written.reverse⟩ := by
  obtain ⟨written, hrun, htokens⟩ := readAll?_eq_some_iff.mp h
  have hattrs : ∀ g : Grammar, outerAttrs g ⟨.ident name :: tokens, []⟩ =
      some ([], ⟨.ident name :: tokens, []⟩) := fun g => many_apply_false rfl
  rw [bind_of_eq_some (hattrs _)] at hrun
  obtain ⟨⟨vis, visTokens⟩, ⟨middle, kept⟩, hcapture, hrun⟩ := bind_eq_some.mp hrun
  obtain ⟨out, hvis, rfl, hkept⟩ := capture_eq_some.mp hcapture
  obtain rfl : kept = [] := hkept
  dsimp only at hrun
  rw [bind_of_eq_some (write_apply _)] at hrun
  obtain ⟨node, e, huse, hrun⟩ := bind_eq_some.mp hrun
  cases node with
  | none => cases hrun
  | some node =>
      obtain ⟨hvalue, rfl⟩ := pure_eq_some.mp hrun
      obtain ⟨value, fragmentTokens⟩ := fragment
      obtain rfl : _ = value := hvalue
      obtain rfl : fragmentTokens = written.reverse := htokens
      rw [List.reverse_reverse, List.append_nil] at huse
      exact ⟨vis, middle, out, node, written, hvis, huse, rfl⟩

/-- What is read as an import is a single declaration without attributes. -/
theorem isSingleUse_of_readImport? {name : Ident} {rest : List Token} {fragment : Fragment Import}
    (h : readImport? (.ident name :: rest) = some fragment) : IsSingleUse fragment := by
  obtain ⟨vis, middle, out, node, written, -, huse, rfl⟩ := readImport?_eq_some h
  obtain ⟨rooted, tree, inner, rfl, hwritten, hnone⟩ := useItem_eq_some huse
  have hwritten : written = (Token.word "use" :: inner ++ [Token.punct ';' false]).reverse ++ out :=
    hwritten
  refine ⟨rooted, tree, inner, rfl, ?_, hnone⟩
  simp [hwritten]

end Source

namespace Synthesis

open Text

variable {cs : List Char} {text : String}

/-! ## Keyword and semicolon -/

/-- What the declaration of an import holds of its text: blanks around the text and semicolons at
its end are dropped. -/
def importBody (cs : List Char) : List Char :=
  trimEnd (dropTrailing (· == ';') (trim cs))

/-- The test for a keyword answers whether the keyword is one there. -/
theorem opensWith_eq_true_iff {keyword : String} :
    opensWith keyword cs = true ↔ Lexer.OpensKeyword keyword cs := by
  unfold opensWith Lexer.OpensKeyword Lexer.EndsKeyword
  constructor
  · intro h
    split at h
    next next rest hstrip =>
      exact ⟨next, rest, Lexer.strip?_eq_some_iff.mp hstrip, by simpa using h⟩
    next => cases h
  · rintro ⟨next, rest, hcs, hnext⟩
    rw [Lexer.strip?_eq_some_iff.mpr hcs]
    simpa using hnext

/-- The declaration of an import depends on that part of its text only. -/
theorem importDeclaration_eq (text : String) :
    importDeclaration text =
      if opensWith "use" (importBody text.toList) || opensWith "pub" (importBody text.toList) then
        String.ofList (importBody text.toList) ++ ";"
      else "use " ++ (String.ofList (importBody text.toList) ++ ";") := rfl

/-- Behind its keyword an import only needs its semicolon. -/
theorem importDeclaration_of_opens
    (h : opensWith "use" (importBody text.toList) = true ∨
      opensWith "pub" (importBody text.toList) = true) :
    (importDeclaration text).toList = importBody text.toList ++ [';'] := by
  have hopens : (opensWith "use" (importBody text.toList) ||
      opensWith "pub" (importBody text.toList)) = true := by simpa using h
  rw [importDeclaration_eq, if_pos hopens]
  simp

/-- Without a keyword an import needs both. -/
theorem importDeclaration_of_not_opens (huse : opensWith "use" (importBody text.toList) = false)
    (hpub : opensWith "pub" (importBody text.toList) = false) :
    (importDeclaration text).toList = "use ".toList ++ (importBody text.toList ++ [';']) := by
  have hopens : ¬ (opensWith "use" (importBody text.toList) ||
      opensWith "pub" (importBody text.toList)) = true := by simp [huse, hpub]
  rw [importDeclaration_eq, if_neg hopens]
  simp

/-- Every declaration opens with one of the two keywords. -/
theorem importDeclaration_opens (text : String) :
    ∃ keyword : String, (keyword = "use" ∨ keyword = "pub") ∧
      Lexer.OpensKeyword keyword (importDeclaration text).toList := by
  have hmore : ∀ {keyword : String}, opensWith keyword (importBody text.toList) = true →
      (importDeclaration text).toList = importBody text.toList ++ [';'] →
      Lexer.OpensKeyword keyword (importDeclaration text).toList := by
    intro keyword h hdeclaration
    obtain ⟨next, rest, hbody, hnext⟩ := opensWith_eq_true_iff.mp h
    exact ⟨next, rest ++ [';'], by rw [hdeclaration, hbody]; simp, hnext⟩
  cases huse : opensWith "use" (importBody text.toList) with
  | true => exact ⟨"use", .inl rfl, hmore huse (importDeclaration_of_opens (.inl huse))⟩
  | false =>
      cases hpub : opensWith "pub" (importBody text.toList) with
      | true => exact ⟨"pub", .inr rfl, hmore hpub (importDeclaration_of_opens (.inr hpub))⟩
      | false =>
          refine ⟨"use", .inl rfl, ' ', importBody text.toList ++ [';'], ?_, .inl rfl⟩
          rw [importDeclaration_of_not_opens huse hpub]
          simp

/-- Without a semicolon at the end only blanks are dropped. -/
theorem importBody_eq_trim (h : (trim cs).getLast? ≠ some ';') : importBody cs = trim cs := by
  have hsame : dropTrailing (· == ';') (trim cs) = trim cs := by
    apply dropTrailing_eq_self
    intro c hc
    rw [beq_eq_false_iff_ne]
    rintro rfl
    exact h hc
  rw [importBody, hsame, trimEnd_trim]

/-- One more semicolon is dropped. -/
theorem importBody_concat (h : (trim cs).getLast? ≠ some ';') :
    importBody (cs ++ [';']) = trim cs := by
  have htrim : trim (cs ++ [';']) = cs.dropWhile isBlank ++ [';'] := by
    have hdrop : (cs ++ [';']).dropWhile isBlank = cs.dropWhile isBlank ++ [';'] := by
      rw [List.dropWhile_append]
      split
      next hnil =>
        rw [List.isEmpty_iff.mp hnil]
        rfl
      next => rfl
    rw [trim, hdrop]
    exact List.rdropWhile_concat_neg _ _ _ (by decide)
  have hlast : dropTrailing (· == ';') (cs.dropWhile isBlank) = cs.dropWhile isBlank := by
    apply dropTrailing_eq_self
    intro c hc
    rw [beq_eq_false_iff_ne]
    rintro rfl
    -- A semicolon at the end is no blank, so trimming would have kept it.
    have hkept : trim cs = cs.dropWhile isBlank := by
      apply dropTrailing_eq_self
      intro d hd
      rw [hc] at hd
      cases hd
      decide
    exact h (hkept ▸ hc)
  have hdropped : dropTrailing (· == ';') (cs.dropWhile isBlank ++ [';']) =
      dropTrailing (· == ';') (cs.dropWhile isBlank) :=
    List.rdropWhile_concat_pos _ _ _ (by decide)
  rw [importBody, htrim, hdropped, hlast]
  rfl

/-- A keyword in front of a text stays when blanks are dropped. -/
theorem trim_use (cs : List Char) :
    trim ("use ".toList ++ cs) =
      if trim cs = [] then "use".toList
      else "use ".toList ++ (cs.takeWhile isBlank ++ trim cs) := by
  have hfront : trim ("use ".toList ++ cs) = trimEnd ("use ".toList ++ cs) := rfl
  rw [hfront]
  split
  next hnil =>
    have hblank : ∀ c ∈ ' ' :: cs, isBlank c = true :=
      List.forall_mem_cons.mpr ⟨rfl, isBlank_of_trim_eq_nil hnil⟩
    exact @dropTrailing_append_of_forall _ _ "use".toList _ hblank
  next hne =>
    have hsplit := trimEnd_eq_append_trim hne
    have hends : trimEnd cs ≠ [] := by
      rw [hsplit]
      simp [hne]
    rw [← hsplit]
    exact dropTrailing_append hends

/-- A blank text is no import. -/
theorem reads_blank : Lexer.lex? "use ;" >>= Source.readImport? = none :=
  Option.isNone_iff_eq_none.mp (by decide +kernel)

/-- A keyword names nothing that can be imported. -/
theorem reads_keyword : Lexer.lex? "use use;" >>= Source.readImport? = none :=
  Option.isNone_iff_eq_none.mp (by decide +kernel)

/-- A keyword in front of a text that has none changes nothing: the text is blank, and is no import
in either form, or the two declarations differ in blanks after the keyword. -/
theorem reads_use_iff (hlast : (trim text.toList).getLast? ≠ some ';')
    (huse : ¬ Lexer.OpensKeyword "use" (trim text.toList))
    (hpub : ¬ Lexer.OpensKeyword "pub" (trim text.toList)) {long : String}
    (hlong : importBody long.toList = trim ("use ".toList ++ text.toList)) :
    Lexer.lex? (importDeclaration long) >>= Source.readImport? =
      Lexer.lex? (importDeclaration text) >>= Source.readImport? := by
  have hbody := importBody_eq_trim hlast
  have hshort : (importDeclaration text).toList =
      "use ".toList ++ (trim text.toList ++ [';']) := by
    rw [← hbody, ← opensWith_eq_true_iff, Bool.not_eq_true] at huse hpub
    rw [importDeclaration_of_not_opens huse hpub, hbody]
  rw [trim_use] at hlong
  split at hlong
  next hnil =>
    have hshort : importDeclaration text = "use ;" := by
      rw [hnil] at hshort
      exact String.toList_inj.mp hshort
    have hlong : importDeclaration long = "use use;" := by
      apply String.toList_inj.mp
      rw [importDeclaration_of_not_opens (by rw [hlong]; rfl) (by rw [hlong]; rfl), hlong]
      rfl
    rw [hshort, hlong, reads_blank, reads_keyword]
  next =>
    have hopens : opensWith "use" (importBody long.toList) = true := by
      rw [hlong]
      rfl
    have hlong : (importDeclaration long).toList =
        "use ".toList ++ (text.toList.takeWhile isBlank ++ (trim text.toList ++ [';'])) := by
      rw [importDeclaration_of_opens (.inl hopens), hlong]
      simp
    rw [Lexer.lex?_keyword_blanks (fun c hc => List.mem_takeWhile_imp hc) hshort hlong]

/-- Keyword and semicolon of an import are optional. A text that does not end in a semicolon is
read as with one, and if it does not open with a keyword of its own, as with that keyword in front.
An import is a single declaration without attributes, and a text that is none is reported as it
is. -/
theorem import_keyword_and_semicolon_optional (owner text : String) :
    ((trim text.toList).getLast? ≠ some ';' →
      (∀ decl, importDecl owner (text ++ ";") = .ok decl ↔ importDecl owner text = .ok decl) ∧
      (¬ Lexer.OpensKeyword "use" (trim text.toList) →
        ¬ Lexer.OpensKeyword "pub" (trim text.toList) →
        ∀ form ∈ ["use " ++ text, text ++ ";", "use " ++ text ++ ";"], ∀ decl,
          importDecl owner form = .ok decl ↔ importDecl owner text = .ok decl)) ∧
    (∀ decl, importDecl owner text = .ok decl → Source.IsSingleUse decl) ∧
    ∀ e, importDecl owner text = .error e → e = .fragment .importDecl owner text .grammar := by
  have hagree : ∀ {form : String}, Lexer.lex? (importDeclaration form) >>= Source.readImport? =
      Lexer.lex? (importDeclaration text) >>= Source.readImport? → ∀ decl,
      importDecl owner form = .ok decl ↔ importDecl owner text = .ok decl := by
    intro form hform decl
    simp only [importDecl, readFragment_eq_ok_iff, ← Option.bind_eq_some_iff, ← Option.bind_eq_bind]
    rw [hform]
  refine ⟨fun hlast => ?_, fun decl hdecl => ?_, fun e => readFragment_eq_error⟩
  · have hsemicolon : importDeclaration (text ++ ";") = importDeclaration text := by
      have hbody : importBody (text ++ ";").toList = importBody text.toList := by
        rw [String.toList_append, importBody_eq_trim hlast]
        exact importBody_concat hlast
      rw [importDeclaration_eq, importDeclaration_eq, hbody]
    refine ⟨hagree (by rw [hsemicolon]), fun huse hpub form hform => ?_⟩
    -- The last character stays the same with the keyword in front.
    have hlast' : (trim ("use " ++ text).toList).getLast? ≠ some ';' := by
      rw [String.toList_append, trim_use]
      split
      · decide
      next hne =>
        rw [List.getLast?_append_of_ne_nil _ (by simp [hne]),
          List.getLast?_append_of_ne_nil _ hne]
        exact hlast
    simp only [List.mem_cons, List.not_mem_nil, or_false] at hform
    obtain rfl | rfl | rfl := hform
    · apply hagree
      apply reads_use_iff hlast huse hpub
      rw [importBody_eq_trim hlast', String.toList_append]
    · exact hagree (by rw [hsemicolon])
    · apply hagree
      apply reads_use_iff hlast huse hpub
      have hconcat := importBody_concat hlast'
      rw [String.toList_append] at hconcat
      rw [String.toList_append, String.toList_append]
      exact hconcat
  · obtain ⟨tokens, hlex, hread⟩ := readFragment_eq_ok_iff.mp hdecl
    obtain ⟨keyword, hkeyword, hopens⟩ := importDeclaration_opens text
    obtain ⟨others, rfl⟩ := Lexer.exists_of_lex?_keyword hkeyword hopens hlex
    exact Source.isSingleUse_of_readImport? hread

/-- A text with a blank in front that is no space, and a name that starts like a keyword. -/
theorem user_import_in_four_forms :
    ∃ decl, importDecl "Unit" "\u00a0user::*" = .ok decl ∧
      importDecl "Unit" ("use " ++ "\u00a0user::*") = .ok decl ∧
      importDecl "Unit" ("\u00a0user::*" ++ ";") = .ok decl ∧
      importDecl "Unit" ("use " ++ "\u00a0user::*" ++ ";") = .ok decl ∧
      Source.IsSingleUse decl := by
  have hnone : failure? (importDecl "Unit" "\u00a0user::*") = none := by decide +kernel
  obtain ⟨decl, hdecl⟩ := failure?_eq_none_iff.mp hnone
  have hopens : ∀ keyword, opensWith keyword (trim "\u00a0user::*".toList) = false →
      ¬ Lexer.OpensKeyword keyword (trim "\u00a0user::*".toList) := by
    intro keyword hnot h
    rw [opensWith_eq_true_iff.mpr h] at hnot
    cases hnot
  obtain ⟨hforms, hsingle, -⟩ := import_keyword_and_semicolon_optional "Unit" "\u00a0user::*"
  have hform := (hforms (by decide)).2 (hopens "use" (by decide)) (hopens "pub" (by decide))
  refine ⟨decl, hdecl, ?_, ?_, ?_, hsingle decl hdecl⟩
  · exact (hform ("use " ++ "\u00a0user::*") (by simp) decl).mpr hdecl
  · exact (hform ("\u00a0user::*" ++ ";") (by simp) decl).mpr hdecl
  · exact (hform ("use " ++ "\u00a0user::*" ++ ";") (by simp) decl).mpr hdecl

end Synthesis

end ActionUnits
