import ActionUnits.Proofs.Token.Literal

/-! # Tokens before a break

A slash is the only token that a break can change: two more slashes after it
make a comment of it.
-/

namespace ActionUnits.Lexer

open Text

section Break

variable {tail : List Char} {c : Char} {cs more : List Char}

/-! ## Punctuation -/

/-- A slash may be completed to the start of a comment by a break that starts with a slash. -/
def KeepsSlash (tail cs : List Char) : Prop :=
  (∃ more, tail = '\n' :: more) ∨ cs ≠ ['/']

/-- A break behind a text starts no comment in it. -/
theorem startsComment_append (h : Break tail) (hcs : cs ≠ []) (hslash : KeepsSlash tail cs) :
    (startsWith "//" (cs ++ tail) || startsWith "/*" (cs ++ tail)) =
      (startsWith "//" cs || startsWith "/*" cs) := by
  match cs with
  | [] => exact absurd rfl hcs
  | [d] =>
      obtain ⟨more, rfl⟩ | ⟨more, rfl⟩ := h
      · simp [startsWith, List.isPrefixOf]
      · have hd : d ≠ '/' := by
          rintro rfl
          obtain ⟨_, heq⟩ | hne := hslash
          · cases heq
          · exact hne rfl
        simp [startsWith, List.isPrefixOf, hd.symm]
  | d :: e :: es => simp [startsWith, List.isPrefixOf]

theorem punctChar?_append (h : Break tail) (hslash : KeepsSlash tail cs) :
    punctChar? (cs ++ tail) = (punctChar? cs).map fun r => (r.1, r.2 ++ tail) := by
  cases cs with
  | nil => obtain ⟨more, rfl⟩ | ⟨more, rfl⟩ := h <;> rfl
  | cons d ds =>
      unfold punctChar?
      rw [startsComment_append h (List.cons_ne_nil _ _) hslash, List.cons_append]
      split
      · rfl
      · dsimp only
        split <;> rfl

theorem punctChar?_eq_some {d : Char} {rest : List Char} (h : punctChar? cs = some (d, rest)) :
    cs = d :: rest ∧ d ∈ punctuation := by
  unfold punctChar? at h
  split at h
  · cases h
  · split at h
    · split at h
      next hmem =>
        cases h
        exact ⟨rfl, List.elem_iff.mp hmem⟩
      next => cases h
    · cases h

/-- A break behind a mark is not joined to it. -/
theorem punct?_append (h : Break tail) (hslash : KeepsSlash tail cs)
    (hrest : KeepsSlash tail cs.tail) :
    punct? (cs ++ tail) = (punct? cs).map fun r => (r.1, r.2 ++ tail) := by
  unfold punct?
  rw [punctChar?_append h hslash]
  cases hchar : punctChar? cs with
  | none => rfl
  | some answer =>
      obtain ⟨d, ds⟩ := answer
      obtain ⟨rfl, -⟩ := punctChar?_eq_some hchar
      have hquote := @startsWith_append tail "'" (by decide) h
      have hhash := @startsWith_append tail "#" (by decide) h
      have hraw := @startsWith_append tail "r#" (by decide) h
      have hjoint : (punctChar? (ds ++ tail)).isSome = (punctChar? ds).isSome := by
        rw [punctChar?_append h (show KeepsSlash tail ds from hrest), Option.isSome_map]
      simp only [Option.map_some, Option.bind_eq_bind, Option.bind_some, anyIdent?_append h, hraw,
        hjoint]
      split
      · cases anyIdent? ds with
        | none => rfl
        | some name =>
            simp only [Option.map_some, Option.bind_some, hquote, hhash]
            split <;> rfl
      · rfl

/-! ## Tokens -/

/-- A line break behind a text does not change its first leaf. -/
theorem leaf?_append (h : ∃ more, tail = '\n' :: more) (hquotes : Unquoted tail) (cs : List Char) :
    leaf? (cs ++ tail) = (leaf? cs).map fun r => (r.1, r.2 ++ tail) := by
  have hbreak : Break tail := .inl h
  have hmark : strip? errorMark.toList (cs ++ tail) =
      (strip? errorMark.toList cs).map (· ++ tail) := by
    obtain ⟨more, rfl⟩ := h
    exact strip?_append_cons (by decide) cs more
  unfold leaf?
  rw [literal?_append hbreak hquotes, punct?_append hbreak (.inl h) (.inl h), ident?_append hbreak,
    hmark]
  cases literal? cs with
  | some r => rfl
  | none =>
      cases punct? cs with
      | some r => rfl
      | none =>
          cases ident? cs with
          | some r => rfl
          | none => cases strip? errorMark.toList cs <;> rfl

/-- A word starts with no punctuation character. -/
theorem notMem_of_ident? {d : Char} {name : Ident} {r : List Char}
    (h : ident? (d :: cs) = some (name, r)) : d ∉ punctuation := by
  have hstart : ∀ d ∈ punctuation, isIdentStart d = false := by decide
  have hplain : ∀ {r}, plainIdent? (d :: cs) = some r → d ∉ punctuation := by
    intro r hr hmem
    rw [plainIdent?, hstart d hmem] at hr
    cases hr
  unfold ident? at h
  split at h
  · cases h
  · rw [anyIdent?_eq] at h
    split at h
    next body hraw =>
      cases eq_append_of_strip? hraw
      decide
    next =>
      obtain ⟨r, hr, -⟩ := Option.map_eq_some_iff.mp h
      exact hplain hr

theorem punct?_of_notMem {d : Char} (h : d ∉ punctuation) : punct? (d :: cs) = none := by
  cases hchar : punctChar? (d :: cs) with
  | none => simp [punct?, hchar]
  | some answer =>
      obtain ⟨heq, hmem⟩ := punctChar?_eq_some hchar
      cases heq
      exact absurd hmem h

theorem strip?_eq_some_iff {start rest : List Char} :
    strip? start cs = some rest ↔ cs = start ++ rest := by
  refine ⟨eq_append_of_strip?, ?_⟩
  rintro rfl
  induction start with
  | nil => rfl
  | cons p ps ih => simp [strip?, ih]

theorem strip?_cut {start r : List Char} (h : strip? start (cs ++ tail) = some r)
    (hr : tail.length ≤ r.length) : ∃ rest, r = rest ++ tail ∧ strip? start cs = some rest := by
  have hcs := strip?_eq_some_iff.mp h
  obtain ⟨rest, rfl⟩ : tail <:+ r :=
    List.suffix_of_suffix_length_le ⟨cs, hcs⟩ ⟨start, rfl⟩ hr
  rw [← List.append_assoc] at hcs
  exact ⟨rest, rfl, strip?_eq_some_iff.mpr (List.append_cancel_right hcs)⟩

/-- No token starts with two slashes. -/
theorem leaf?_slashes (cs : List Char) : leaf? ('/' :: '/' :: cs) = none := rfl

/-- A leaf is a literal, a mark or a name, tried in this order. -/
theorem leaf?_eq_some {token : Token} {r : List Char} :
    leaf? cs = some (token, r) ↔
      (∃ text, literal? cs = some (text, r) ∧ .literal text = token) ∨
      literal? cs = none ∧ (punct? cs = some (token, r) ∨
      punct? cs = none ∧ ((∃ name, ident? cs = some (name, r) ∧ .ident name = token) ∨
      ident? cs = none ∧ strip? errorMark.toList cs = some r ∧ .literal errorMark = token)) := by
  simp only [leaf?, Option.orElse_eq_orElse, Option.orElse_eq_or, Option.or_eq_some_iff,
    Option.map_eq_some_iff, Option.map_eq_none_iff, Prod.exists, Prod.mk.injEq,
    exists_eq_right_right]

theorem punct?_rest {d : Char} {ds r : List Char} {token : Token}
    (h : punct? (d :: ds) = some (token, r)) : r = ds := by
  obtain ⟨⟨c, rest⟩, hchar, hrest⟩ := Option.bind_eq_some_iff.mp h
  cases (punctChar?_eq_some hchar).1
  dsimp only at hrest
  split at hrest
  · obtain ⟨⟨name, after⟩, -, hafter⟩ := Option.bind_eq_some_iff.mp hrest
    dsimp only at hafter
    split at hafter
    · cases hafter
    · cases hafter
      rfl
  · cases hrest
    rfl

/-- A token that ends at a break or before it is the one that is read without the break, unless a
slash follows it that belongs to the break. -/
theorem leaf?_cut (h : Break tail) {token : Token} {r : List Char} {d : Char} {ds : List Char}
    (hleaf : leaf? (d :: ds ++ tail) = some (token, r)) (hr : tail.length ≤ r.length)
    (hslash : r ≠ '/' :: tail) :
    ∃ rest, r = rest ++ tail ∧ leaf? (d :: ds) = some (token, rest) := by
  obtain ⟨text, hliteral, rfl⟩ | ⟨hliteral, hpunct | ⟨hpunct, ⟨name, hident, rfl⟩ |
    ⟨hident, hmark, rfl⟩⟩⟩ := leaf?_eq_some.mp hleaf
  · obtain ⟨rest, rfl, hrest⟩ := literal?_cut h hliteral hr
    exact ⟨rest, rfl, leaf?_eq_some.mpr (.inl ⟨text, hrest, rfl⟩)⟩
  · have hnone := literal?_of_none h hliteral
    obtain rfl := punct?_rest hpunct
    have hrest : KeepsSlash tail ds := .inr fun hds => hslash (by rw [hds]; rfl)
    have hfirst : KeepsSlash tail (d :: ds) := by
      obtain hfeed | ⟨more, rfl⟩ := h
      · exact .inl hfeed
      · refine .inr fun hds => ?_
        cases hds
        cases hleaf
    rw [punct?_append h hfirst hrest, Option.map_eq_some_iff] at hpunct
    obtain ⟨⟨other, rest⟩, hpunct, heq⟩ := hpunct
    obtain rfl := punct?_rest hpunct
    obtain ⟨rfl, -⟩ := Prod.mk.inj heq
    exact ⟨rest, rfl, leaf?_eq_some.mpr (.inr ⟨hnone, .inl hpunct⟩)⟩
  · have hnone := literal?_of_none h hliteral
    have hnopunct : punct? (d :: ds) = none := punct?_of_notMem (notMem_of_ident? hident)
    rw [ident?_append h, Option.map_eq_some_iff] at hident
    obtain ⟨⟨name, rest⟩, hident, heq⟩ := hident
    cases heq
    exact ⟨rest, rfl, leaf?_eq_some.mpr (.inr ⟨hnone, .inr ⟨hnopunct, .inl ⟨name, hident, rfl⟩⟩⟩)⟩
  · have hnone := literal?_of_none h hliteral
    obtain ⟨rest, rfl, hrest⟩ := strip?_cut hmark hr
    obtain heq := strip?_eq_some_iff.mp hrest
    cases heq
    exact ⟨rest, rfl, leaf?_eq_some.mpr
      (.inr ⟨hnone, .inr ⟨punct?_of_notMem (by decide), .inr ⟨rfl, hrest, rfl⟩⟩⟩)⟩

end Break

end ActionUnits.Lexer
