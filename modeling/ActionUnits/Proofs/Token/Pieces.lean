import ActionUnits.Proofs.Token.Progress

/-! # The pieces of a text

A text is read in two steps that do not depend on each other. Its characters are
split into pieces: brackets and tokens, with blanks and comments between them. The
pieces are put together to tokens by their brackets. A text has tokens if both
steps come to an end.
-/

namespace ActionUnits.Lexer

/-! ## Pieces -/

/-- What stands between blanks and comments. -/
inductive Piece where
  | opening (delimiter : Delimiter)
  | closing (delimiter : Delimiter)
  /-- A single token, or the attribute that a documentation comment stands for. -/
  | tokens (tokens : List Token)

/-- The piece at the start of a text, and what follows it. -/
def piece? (cs : List Char) : Option (Piece × List Char) :=
  match (docComment? cs).filter fun r => hasNoBareReturn r.1 with
  | some (text, inner, rest) => some (.tokens (docAttribute text inner), rest)
  | none =>
    match cs with
    | [] => none
    | c :: rest =>
      match if startsWith errorMark cs then none else Delimiter.ofOpening? c with
      | some delimiter => some (.opening delimiter, rest)
      | none =>
        match Delimiter.ofClosing? c with
        | some delimiter => some (.closing delimiter, rest)
        | none => (leaf? cs).map fun r => (.tokens [r.1], r.2)

/-- The tokens of the innermost open group, last one first, and the groups around it. -/
abbrev Assembly := List OpenGroup × List Token

def Piece.place : Piece → Assembly → Option Assembly
  | .opening delimiter, (stack, done) => some ((delimiter, done) :: stack, [])
  | .closing delimiter, ((opened, outer) :: stack, done) =>
    if delimiter = opened then some (stack, .group delimiter done.reverse :: outer) else none
  | .closing _, ([], _) => none
  | .tokens added, (stack, done) => some (stack, added.reverse ++ done)

/-- Puts pieces together; every group must be closed. -/
def assemble : Assembly → List Piece → Option (List Token)
  | (stack, done), [] => if stack.isEmpty then some done.reverse else none
  | state, piece :: pieces => (piece.place state).bind (assemble · pieces)

/-- Reading a text comes to a place after the given pieces. -/
inductive Reaches : List Char → List Piece → List Char → Prop
  | here (cs) : Reaches cs [] cs
  | blank {cs rest place pieces} : skipOne? cs = some rest → Reaches rest pieces place →
      Reaches cs pieces place
  | piece {cs rest place piece pieces} : skipOne? cs = none → piece? cs = some (piece, rest) →
      Reaches rest pieces place → Reaches cs (piece :: pieces) place

namespace Reaches

variable {cs ds es : List Char} {pieces others : List Piece}

/-- Two runs of pieces, one behind the other, are one run. -/
theorem trans (h : Reaches cs pieces ds) (h' : Reaches ds others es) :
    Reaches cs (pieces ++ others) es := by
  induction h with
  | here => exact h'
  | blank hskip _ ih => exact .blank hskip (ih h')
  | piece hskip hpiece _ ih => exact .piece hskip hpiece (ih h')

end Reaches

/-! ## Reading a text -/

/-- Every piece reads something. -/
theorem length_piece? {cs rest : List Char} {piece : Piece} (h : piece? cs = some (piece, rest)) :
    rest.length < cs.length := by
  unfold piece? at h
  split at h
  next text inner after hdoc =>
    cases h
    exact length_docComment? (Option.filter_eq_some_iff.mp hdoc).1
  next =>
    split at h
    · cases h
    · split at h
      · cases h
        exact Nat.lt_succ_self _
      · split at h
        · cases h
          exact Nat.lt_succ_self _
        · obtain ⟨⟨token, rest⟩, hleaf, heq⟩ := Option.map_eq_some_iff.mp h
          cases heq
          exact length_leaf? hleaf

/-- Every piece of a run costs at least one character. -/
theorem Reaches.length_le {cs place : List Char} {pieces : List Piece}
    (h : Reaches cs pieces place) : place.length + pieces.length ≤ cs.length := by
  induction h with
  | here => exact Nat.le_refl _
  | blank hskip _ ih =>
      have := length_skipOne? hskip
      omega
  | piece _ hpiece _ ih =>
      have := length_piece? hpiece
      rw [List.length_cons]
      omega

/-- Blanks are skipped until there are none. -/
theorem reaches_skipBlanks {fuel : Nat} {cs : List Char} (h : cs.length ≤ fuel) :
    Reaches cs [] (skipBlanks fuel cs) ∧ skipOne? (skipBlanks fuel cs) = none := by
  induction fuel generalizing cs with
  | zero =>
      obtain rfl := List.eq_nil_of_length_eq_zero (Nat.le_zero.mp h)
      exact ⟨.here _, rfl⟩
  | succ fuel ih =>
      rw [skipBlanks]
      cases hskip : skipOne? cs with
      | none => exact ⟨.here _, hskip⟩
      | some rest =>
          have hlength := length_skipOne? hskip
          obtain ⟨hreach, hnone⟩ := ih (show rest.length ≤ fuel by omega)
          exact ⟨.blank hskip hreach, hnone⟩

/-- One round of reading: it ends without a further character, else a piece is placed. -/
theorem lexFrom_succ (fuel : Nat) (stack : List OpenGroup) (done : List Token) (cs : List Char) :
    lexFrom (fuel + 1) stack done cs =
      match skipBlanks cs.length cs with
      | [] => if stack.isEmpty then some done.reverse else none
      | c :: rest => (piece? (c :: rest)).bind fun r =>
          (r.1.place (stack, done)).bind fun state => lexFrom fuel state.1 state.2 r.2 := by
  rw [lexFrom]
  generalize skipBlanks cs.length cs = text
  cases text with
  | nil => rfl
  | cons c rest =>
      dsimp only
      unfold piece?
      cases (docComment? (c :: rest)).filter fun r => hasNoBareReturn r.1 with
      | some doc => rfl
      | none =>
          dsimp only
          cases if startsWith errorMark (c :: rest) then none else Delimiter.ofOpening? c with
          | some delimiter => rfl
          | none =>
              dsimp only
              cases Delimiter.ofClosing? c with
              | none => cases leaf? (c :: rest) <;> rfl
              | some delimiter =>
                  cases stack with
                  | nil => rfl
                  | cons opened stack =>
                      simp only [Option.bind_some, Piece.place]
                      split <;> rfl

theorem reaches_nil_iff {pieces : List Piece} : Reaches [] pieces [] ↔ pieces = [] := by
  refine ⟨fun h => ?_, fun h => h ▸ .here []⟩
  have hlength := h.length_le
  exact List.eq_nil_of_length_eq_zero (Nat.le_zero.mp (by simpa using hlength))

theorem reaches_blank_iff {cs rest : List Char} {pieces : List Piece}
    (hskip : skipOne? cs = some rest) : Reaches cs pieces [] ↔ Reaches rest pieces [] := by
  refine ⟨fun h => ?_, .blank hskip⟩
  cases h with
  | here => cases hskip
  | blank hskip' hrest =>
      cases hskip.symm.trans hskip'
      exact hrest
  | piece hnone => cases hskip.symm.trans hnone

/-- A text that starts with no blank starts with a piece. -/
theorem reaches_piece_iff {cs : List Char} {pieces : List Piece} (hcs : cs ≠ [])
    (hskip : skipOne? cs = none) :
    Reaches cs pieces [] ↔
      ∃ piece rest others, piece? cs = some (piece, rest) ∧ Reaches rest others [] ∧
        pieces = piece :: others := by
  constructor
  · intro h
    cases h with
    | here => exact absurd rfl hcs
    | blank hskip' _ => cases hskip.symm.trans hskip'
    | piece _ hpiece hrest => exact ⟨_, _, _, hpiece, hrest, rfl⟩
  · rintro ⟨piece, rest, others, hpiece, hrest, rfl⟩
    exact .piece hskip hpiece hrest

/-- Blanks in front change no pieces. -/
theorem reaches_blanks_iff {cs text : List Char} {pieces : List Piece} (h : Reaches cs [] text) :
    Reaches cs pieces [] ↔ Reaches text pieces [] := by
  generalize hnone : [] = none at h
  induction h with
  | here => rfl
  | blank hskip _ ih => exact (reaches_blank_iff hskip).trans (ih hnone)
  | piece => cases hnone

/-- The tokens of a text are those of its pieces. -/
theorem lexFrom_eq_some_iff {fuel : Nat} {stack : List OpenGroup} {done tokens : List Token}
    {cs : List Char} (h : cs.length < fuel) :
    lexFrom fuel stack done cs = some tokens ↔
      ∃ pieces, Reaches cs pieces [] ∧ assemble (stack, done) pieces = some tokens := by
  induction fuel generalizing cs stack done with
  | zero => cases h
  | succ fuel ih =>
      obtain ⟨hblanks, hskip⟩ := reaches_skipBlanks (Nat.le_refl cs.length)
      have hlength := hblanks.length_le
      rw [lexFrom_succ]
      simp only [reaches_blanks_iff hblanks]
      cases htext : skipBlanks cs.length cs with
      | nil =>
          simp only [reaches_nil_iff, exists_eq_left]
          rfl
      | cons c rest =>
          rw [htext] at hskip hlength
          simp only [reaches_piece_iff (List.cons_ne_nil c rest) hskip, Option.bind_eq_some_iff]
          constructor
          · rintro ⟨⟨piece, after⟩, hpiece, ⟨stack, done⟩, hplace, hlex⟩
            have hshorter := length_piece? hpiece
            simp only [List.length_cons, List.length_nil] at hlength hshorter
            have hfuel : after.length < fuel := by omega
            obtain ⟨pieces, hreach, hassemble⟩ := (ih hfuel).mp hlex
            refine ⟨piece :: pieces, ⟨piece, after, pieces, hpiece, hreach, rfl⟩, ?_⟩
            rw [assemble, hplace]
            exact hassemble
          · rintro ⟨_, ⟨piece, after, pieces, hpiece, hreach, rfl⟩, hassemble⟩
            have hshorter := length_piece? hpiece
            simp only [List.length_cons, List.length_nil] at hlength hshorter
            have hfuel : after.length < fuel := by omega
            rw [assemble, Option.bind_eq_some_iff] at hassemble
            obtain ⟨⟨stack, done⟩, hplace, hassemble⟩ := hassemble
            exact ⟨(piece, after), hpiece, (stack, done), hplace,
              (ih hfuel).mpr ⟨pieces, hreach, hassemble⟩⟩

/-- There is one way to split a text into pieces. -/
theorem Reaches.unique {cs : List Char} {pieces others : List Piece} (h : Reaches cs pieces [])
    (h' : Reaches cs others []) : pieces = others := by
  generalize hend : [] = place at h
  induction h generalizing others with
  | here =>
      subst hend
      exact (reaches_nil_iff.mp h').symm
  | blank hskip _ ih => exact ih ((reaches_blank_iff hskip).mp h') hend
  | @piece cs rest _ piece pieces hskip hpiece _ ih =>
      have hcs : cs ≠ [] := by
        rintro rfl
        cases hpiece
      obtain ⟨piece', rest', others, hpiece', hrest, rfl⟩ := (reaches_piece_iff hcs hskip).mp h'
      cases hpiece.symm.trans hpiece'
      rw [ih hrest hend]

/-- A text without a byte order mark has the tokens of its pieces. -/
theorem lex?_eq_some_iff {text : String} {tokens : List Token}
    (h : text.toList.head? ≠ some (Char.ofNat 0xfeff)) :
    lex? text = some tokens ↔
      ∃ pieces, Reaches text.toList pieces [] ∧ assemble ([], []) pieces = some tokens := by
  have hmark : lex? text = lexFrom (text.toList.length + 1) [] [] text.toList := by
    unfold lex?
    cases htext : text.toList with
    | nil => rfl
    | cons c rest =>
        have hc : (c.toNat == 0xfeff) = false := by
          rw [beq_eq_false_iff_ne]
          intro hcode
          refine h ?_
          rw [htext, ← hcode, Char.ofNat_toNat]
          rfl
        simp only [hc]
        rfl
  rw [hmark, lexFrom_eq_some_iff (Nat.lt_succ_self _)]

/-- The tokens of a text are its pieces assembled. -/
theorem lex?_of_reaches {text : String} {pieces : List Piece}
    (hmark : text.toList.head? ≠ some (Char.ofNat 0xfeff)) (h : Reaches text.toList pieces []) :
    lex? text = assemble ([], []) pieces := by
  refine Option.ext fun tokens => ?_
  rw [lex?_eq_some_iff hmark]
  refine ⟨?_, fun hassemble => ⟨pieces, h, hassemble⟩⟩
  rintro ⟨others, hothers, hassemble⟩
  rw [h.unique hothers]
  exact hassemble

end ActionUnits.Lexer
