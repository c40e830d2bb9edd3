import ActionUnits.Proofs.Token.Leaf

/-! # Every token takes a character

What follows a token, a blank or a comment is shorter than the text before it was
read, so the length of a text bounds the number of its tokens.
-/

namespace ActionUnits.Lexer

open Text

variable {cs r : List Char}

theorem length_strip? {start : List Char} (h : strip? start cs = some r) :
    start.length + r.length = cs.length := by
  rw [eq_append_of_strip? h, List.length_append]

theorem length_skipSuffix (cs : List Char) : (skipSuffix cs).length ≤ cs.length :=
  (skipSuffix_suffix cs).length_le

/-! ## Words and numbers -/

theorem length_plainIdent? {name : List Char} (h : plainIdent? cs = some (name, r)) :
    r.length < cs.length := by
  cases cs with
  | nil => cases h
  | cons c cs =>
      rw [plainIdent?] at h
      split at h
      · cases h
        exact Nat.lt_succ_of_le (List.dropWhile_suffix _).length_le
      · cases h

theorem length_anyIdent? {name : Ident} (h : anyIdent? cs = some (name, r)) :
    r.length < cs.length := by
  rw [anyIdent?_eq] at h
  split at h
  next body hraw =>
    obtain ⟨⟨name, rest⟩, hplain, hrest⟩ := Option.bind_eq_some_iff.mp h
    split at hrest
    · cases hrest
    · cases hrest
      have hbody : rest.length < body.length := length_plainIdent? hplain
      have hstart : 2 + body.length = cs.length := length_strip? hraw
      dsimp only
      omega
  next =>
    obtain ⟨⟨name, rest⟩, hplain, hrest⟩ := Option.map_eq_some_iff.mp h
    cases hrest
    exact length_plainIdent? hplain

theorem length_exponent? {signed valued : Bool} (h : exponent? signed valued cs = some r) :
    r.length ≤ cs.length := by
  fun_induction exponent? signed valued cs with
  | _ => grind

theorem length_floatDigits? {pointed : Bool} (h : floatDigits? pointed cs = some r) :
    r.length ≤ cs.length := by
  fun_induction floatDigits? pointed cs with
  | case6 pointed c cs _ _ _ rest hexponent =>
      cases h
      exact Nat.le_succ_of_le (length_exponent? hexponent)
  | _ => grind

theorem length_endNumber? (h : endNumber? cs = some r) : r.length ≤ cs.length := by
  unfold endNumber? at h
  dsimp only at h
  split at h
  · cases h
  · cases h
    exact length_skipSuffix cs

theorem length_float? (h : float? cs = some r) : r.length < cs.length := by
  cases cs with
  | nil => cases h
  | cons c cs =>
      rw [float?] at h
      split at h
      · obtain ⟨rest, hdigits, hend⟩ := Option.bind_eq_some_iff.mp h
        have := length_floatDigits? hdigits
        have := length_endNumber? hend
        rw [List.length_cons]
        omega
      · cases h

theorem length_intDigits? {base : Nat} {empty : Bool} (h : intDigits? base empty cs = some r) :
    r.length + (if empty then 1 else 0) ≤ cs.length := by
  fun_induction intDigits? base empty cs with
  | _ => grind

theorem length_int? (h : int? cs = some r) : r.length < cs.length := by
  obtain ⟨rest, hdigits, hend⟩ : ∃ rest, integer? cs = some rest ∧ endNumber? rest = some r :=
    Option.bind_eq_some_iff.mp h
  have hend := length_endNumber? hend
  have hrest : rest.length < cs.length := by
    unfold integer? at hdigits
    split at hdigits
    all_goals
      have hlength := length_intDigits? hdigits
      simp only [if_true, List.length_cons] at hlength ⊢
      omega
  omega

/-! ## Literals -/

theorem length_readBody {kind : Quoted.Kind} {mode : Quoted.Mode} {text : List Char}
    (h : Quoted.readBody kind mode cs = some (text, r)) : r.length < cs.length := by
  obtain ⟨body, rfl⟩ := exists_of_readBody h
  simp only [List.length_append, List.length_cons]
  omega

theorem length_readRaw {kind : Quoted.Kind} {text : List Char}
    (h : Quoted.readRaw kind cs = some (text, r)) : r.length < cs.length := by
  obtain ⟨body, hquote, -, hread⟩ := readRaw_eq_some.mp h
  obtain ⟨inside, d, rfl, -⟩ := exists_of_readRawBody hread
  have hdrop : (cs.dropWhile (· == '#')).length ≤ cs.length := (List.dropWhile_suffix _).length_le
  rw [hquote] at hdrop
  simp only [List.length_append, List.length_cons] at hdrop
  omega

theorem length_escaped? {kind : Quoted.Kind} {mode : Quoted.Mode}
    (h : escaped? kind mode cs = some r) : r.length < cs.length := by
  fun_induction escaped? kind mode cs with
  | _ => grind

theorem length_characterHead? {kind : Quoted.Kind} (h : characterHead? kind cs = some r) :
    r.length < cs.length := by
  unfold characterHead? at h
  split at h
  · have := length_escaped? h
    rw [List.length_cons]
    omega
  · split at h
    · cases h
    · cases h
      exact Nat.lt_succ_self _
  · cases h

/-- What a reader leaves is shorter than what it was given. -/
def Shortens (reader : List Char → Option (List Char)) : Prop :=
  ∀ cs r, reader cs = some r → r.length < cs.length

namespace Shortens

variable {reader first second : List Char → Option (List Char)}

theorem orElse (hfirst : Shortens first) (hsecond : Shortens second) :
    Shortens fun cs => first cs <|> second cs := by
  intro cs r hr
  dsimp only at hr
  rw [Option.orElse_eq_orElse, Option.orElse_eq_or, Option.or_eq_some_iff] at hr
  obtain hr | ⟨-, hr⟩ := hr
  · exact hfirst cs r hr
  · exact hsecond cs r hr

theorem suffixed (h : Shortens reader) : Shortens fun cs => (reader cs).map skipSuffix := by
  intro cs r hr
  obtain ⟨rest, hrest, rfl⟩ := Option.map_eq_some_iff.mp hr
  exact Nat.lt_of_le_of_lt (length_skipSuffix rest) (h cs rest hrest)

theorem after (h : Shortens reader) (start : List Char) :
    Shortens fun cs => (strip? start cs).bind reader := by
  intro cs r hr
  obtain ⟨body, hbody, hrest⟩ := Option.bind_eq_some_iff.mp hr
  have hstart := length_strip? hbody
  have hread := h body r hrest
  omega

theorem quoted (letters : String) (kind : Quoted.Kind) : Shortens (quoted? letters kind) := by
  have hbody : Shortens fun cs => (Quoted.readBody kind .plain cs).map (·.2) := by
    intro cs r hr
    obtain ⟨⟨text, rest⟩, hread, rfl⟩ := Option.map_eq_some_iff.mp hr
    exact length_readBody hread
  rw [funext (quoted?_eq letters kind)]
  exact (hbody.after _).suffixed

theorem rawQuoted (letters : String) (kind : Quoted.Kind) :
    Shortens (rawQuoted? letters kind) := by
  have hraw : Shortens fun cs => (Quoted.readRaw kind cs).map (·.2) := by
    intro cs r hr
    obtain ⟨⟨text, rest⟩, hread, rfl⟩ := Option.map_eq_some_iff.mp hr
    exact length_readRaw hread
  rw [funext (rawQuoted?_eq letters kind)]
  exact (hraw.after _).suffixed

theorem character (letters : String) (kind : Quoted.Kind) :
    Shortens (character? letters kind) := by
  have hbody : Shortens fun cs => (characterHead? kind cs).bind (strip? ['\'']) := by
    intro cs r hr
    obtain ⟨rest, hhead, hclose⟩ := Option.bind_eq_some_iff.mp hr
    have hhead := length_characterHead? hhead
    have hclose := length_strip? hclose
    omega
  rw [funext (character?_eq letters kind)]
  exact (hbody.after _).suffixed

theorem afterLiteral : Shortens afterLiteral? := by
  unfold afterLiteral?
  exact .orElse (.quoted _ _) <| .orElse (.rawQuoted _ _) <| .orElse (.quoted _ _) <|
    .orElse (.rawQuoted _ _) <| .orElse (.quoted _ _) <| .orElse (.rawQuoted _ _) <|
    .orElse (.character _ _) <| .orElse (.character _ _) <|
    .orElse (fun _ _ => length_float?) fun _ _ => length_int?

end Shortens

/-- Every leaf reads something. -/
theorem length_leaf? {token : Token} (h : leaf? cs = some (token, r)) : r.length < cs.length := by
  obtain ⟨text, hliteral, -⟩ | ⟨-, hpunct | ⟨-, ⟨name, hident, -⟩ | ⟨-, hmark, -⟩⟩⟩ :=
    leaf?_eq_some.mp h
  · exact Shortens.afterLiteral cs r (literal?_eq_some.mp hliteral).1
  · cases cs with
    | nil => cases hpunct
    | cons d ds =>
        rw [punct?_rest hpunct]
        exact Nat.lt_succ_self _
  · unfold ident? at hident
    split at hident
    · cases hident
    · exact length_anyIdent? hident
  · have hlength : 11 + r.length = cs.length := length_strip? hmark
    omega

/-! ## Comments -/

theorem length_splitLine (cs : List Char) : (splitLine cs).2.length ≤ cs.length := by
  fun_induction splitLine cs with
  | _ => grind

/-- A block comment is the text up to what follows it, and it ends in a slash. -/
theorem exists_of_splitBlock {depth : Nat} {text : List Char}
    (h : splitBlock depth cs = some (text, r)) :
    cs = text ++ r ∧ ∃ start, text = start ++ ['*', '/'] := by
  fun_induction splitBlock depth cs generalizing text with
  | case1 depth cs ih =>
      obtain ⟨⟨text, r⟩, hmore, heq⟩ := Option.map_eq_some_iff.mp h
      cases heq
      obtain ⟨rfl, start, rfl⟩ := ih hmore
      exact ⟨rfl, '/' :: '*' :: start, rfl⟩
  | case2 depth cs hdepth =>
      cases h
      exact ⟨rfl, [], rfl⟩
  | case3 depth cs hdepth ih =>
      obtain ⟨⟨text, r⟩, hmore, heq⟩ := Option.map_eq_some_iff.mp h
      cases heq
      obtain ⟨rfl, start, rfl⟩ := ih hmore
      exact ⟨rfl, '*' :: '/' :: start, rfl⟩
  | case4 depth c cs _ _ ih =>
      obtain ⟨⟨text, r⟩, hmore, heq⟩ := Option.map_eq_some_iff.mp h
      cases heq
      obtain ⟨rfl, start, rfl⟩ := ih hmore
      exact ⟨rfl, c :: start, rfl⟩
  | case5 => cases h

/-- A block comment reads at least its end. -/
theorem length_splitBlock {depth : Nat} {text : List Char}
    (h : splitBlock depth cs = some (text, r)) : r.length < cs.length := by
  obtain ⟨rfl, start, rfl⟩ := exists_of_splitBlock h
  simp only [List.length_append, List.length_cons]
  omega

/-- A beginning, given by its characters. -/
theorem exists_of_startsWith {start : String} (h : startsWith start cs = true)
    (chars : List Char) (hchars : start.toList = chars) : ∃ rest, cs = chars ++ rest := by
  rw [startsWith_eq_isSome, hchars, Option.isSome_iff_exists] at h
  obtain ⟨rest, hrest⟩ := h
  exact ⟨rest, eq_append_of_strip? hrest⟩

theorem splitLine_cons {c : Char} (h : c ≠ '\n') (hreturn : c ≠ '\r') (cs : List Char) :
    splitLine (c :: cs) = (c :: (splitLine cs).1, (splitLine cs).2) :=
  splitLine.eq_4 c cs h fun _ hc => absurd hc hreturn

/-- Whatever is skipped is read. -/
theorem length_skipOne? (h : skipOne? cs = some r) : r.length < cs.length := by
  unfold skipOne? at h
  split at h
  next hline =>
    cases h
    simp only [startsLineComment, Bool.and_eq_true] at hline
    obtain ⟨rest, rfl⟩ := exists_of_startsWith hline.1.1 ['/', '/'] rfl
    rw [List.cons_append, splitLine_cons (by decide) (by decide)]
    exact Nat.lt_succ_of_le (length_splitLine _)
  next =>
    split at h
    · obtain ⟨⟨text, rest⟩, hblock, rfl⟩ := Option.map_eq_some_iff.mp h
      exact length_splitBlock hblock
    · split at h
      · split at h
        · cases h
          exact Nat.lt_succ_self _
        · cases h
      · cases h

/-- How a documentation comment starts: whether it is a line, and whether it describes what encloses
it. -/
def docStart? (cs : List Char) : Option (Bool × Bool) :=
  if startsWith "//!" cs then some (true, true)
  else if startsWith "/*!" cs then some (false, true)
  else if startsWith "///" cs && !startsWith "////" cs then some (true, false)
  else if startsWith "/**" cs && !startsWith "/***" cs then some (false, false)
  else none

theorem docComment?_eq (cs : List Char) :
    docComment? cs = match docStart? cs with
      | none => none
      | some (true, inner) => some ((splitLine (cs.drop 3)).1, inner, (splitLine (cs.drop 3)).2)
      | some (false, inner) => (splitBlock 0 cs).map fun r =>
          ((r.1.drop 3).take (r.1.length - 5), inner, r.2) := by
  unfold docComment? docStart?
  split
  · rfl
  · split
    · cases splitBlock 0 cs <;> rfl
    · split
      · rfl
      · split
        · cases splitBlock 0 cs <;> rfl
        · rfl

theorem docStart?_line {inner : Bool} (h : docStart? cs = some (true, inner)) :
    ∃ mark rest, cs = '/' :: '/' :: mark :: rest := by
  unfold docStart? at h
  split at h
  next hstart =>
    obtain ⟨rest, rfl⟩ := exists_of_startsWith hstart ['/', '/', '!'] rfl
    exact ⟨_, rest, rfl⟩
  next =>
    split at h
    · cases h
    · split at h
      next hstart =>
        rw [Bool.and_eq_true] at hstart
        obtain ⟨rest, rfl⟩ := exists_of_startsWith hstart.1 ['/', '/', '/'] rfl
        exact ⟨_, rest, rfl⟩
      next =>
        split at h <;> cases h

/-- Every doc comment reads something. -/
theorem length_docComment? {text : List Char} {inner : Bool}
    (h : docComment? cs = some (text, inner, r)) : r.length < cs.length := by
  rw [docComment?_eq] at h
  split at h
  · cases h
  next hstart =>
    cases h
    obtain ⟨mark, rest, rfl⟩ := docStart?_line hstart
    have hrest := length_splitLine rest
    simp only [List.drop_succ_cons, List.drop_zero, List.length_cons]
    omega
  next =>
    obtain ⟨⟨comment, rest⟩, hblock, heq⟩ := Option.map_eq_some_iff.mp h
    cases heq
    exact length_splitBlock hblock

end ActionUnits.Lexer
