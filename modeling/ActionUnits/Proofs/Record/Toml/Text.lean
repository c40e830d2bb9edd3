import ActionUnits.Proofs.Text.Quoted
import ActionUnits.Record.Toml.Text

/-! # Texts and keys in TOML

The grammar of the four kinds of texts and of keys, with what they denote. Each
rule relates what starts with a phrase to what follows it. The readers read what
the grammar describes.
-/

namespace ActionUnits.Record.Toml

open Text.Quoted (IsHexDigit hexValue?_of_isHexDigit)

/-! ## The grammar -/

/-- A character that may stand for itself in a text or in a comment. -/
def IsPlain (c : Char) : Prop :=
  c = '\t' ∨ (0x20 ≤ c.toNat ∧ c.toNat ≠ 0x7f)

/-- Spaces inside a line. -/
inductive Spaces : List Char → List Char → Prop
  | none {cs} : Spaces cs cs
  | more {c cs rest} : c = ' ' ∨ c = '\t' → Spaces cs rest → Spaces (c :: cs) rest

/-- A line break, with its characters. -/
inductive Break : List Char → List Char → List Char → Prop
  | feed {cs} : Break ('\n' :: cs) ['\n'] cs
  | both {cs} : Break ('\r' :: '\n' :: cs) ['\r', '\n'] cs

/-- So many hexadecimal digits, after digits of the given value. -/
inductive Code : Nat → Nat → List Char → Nat → List Char → Prop
  | done {value cs} : Code 0 value cs value cs
  | digit {left before digit value c cs rest} : IsHexDigit c digit →
    Code left (before * 16 + digit) cs value rest → Code (left + 1) before (c :: cs) value rest

/-- The letters of short escapes, with what they stand for. -/
def shortEscapes : List (Char × Char) :=
  [('b', '\x08'), ('t', '\t'), ('n', '\n'), ('f', '\x0c'), ('r', '\r'), ('e', '\x1b'), ('"', '"'),
    ('\\', '\\')]

/-- The letters of escapes by code, with the number of their digits. -/
def codeEscapes : List (Char × Nat) :=
  [('x', 2), ('u', 4), ('U', 8)]

/-- An escape after its backslash, with the character that it stands for. -/
inductive Escape : List Char → Char → List Char → Prop
  | short {letter c cs} : (letter, c) ∈ shortEscapes → Escape (letter :: cs) c cs
  | code {letter width value cs rest} : (letter, width) ∈ codeEscapes →
    Code width 0 cs value rest → value.isValidChar → Escape (letter :: cs) (Char.ofNat value) rest

/-- A text on one line up to its closing quote. Only double quotes enclose escapes. -/
inductive OnLine (quote : Char) : List Char → List Char → List Char → Prop
  | close {cs} : OnLine quote (quote :: cs) [] cs
  | plain {c cs text rest} : IsPlain c → c ≠ quote → (quote = '"' → c ≠ '\\') →
    OnLine quote cs text rest → OnLine quote (c :: cs) (c :: text) rest
  | escape {c cs a text rest} : quote = '"' → Escape cs c a → OnLine quote a text rest →
    OnLine quote ('\\' :: cs) (c :: text) rest

/-- Something other than the given character comes next, or nothing. -/
def NotNext (c : Char) (cs : List Char) : Prop :=
  cs.head? ≠ some c

/-- Spaces and line breaks up to something else. -/
inductive Margin : List Char → List Char → Prop
  | none {cs} : (∀ c ∈ cs.head?, c ∉ [' ', '\t', '\r', '\n']) → Margin cs cs
  | space {c cs rest} : c = ' ' ∨ c = '\t' → Margin cs rest → Margin (c :: cs) rest
  | line {cs chars a rest} : Break cs chars a → Margin a rest → Margin cs rest

/-- A text over several lines up to its closing quotes, in front of which there may be up to two
more. Fewer than three quotes in a row may stand inside. -/
inductive OverLines (quote : Char) : List Char → List Char → List Char → Prop
  | close {extra cs} : extra ∈ [[], [quote], [quote, quote]] →
    OverLines quote (extra ++ quote :: quote :: quote :: cs) extra cs
  | quotes {extra cs text rest} : extra ∈ [[quote], [quote, quote]] → NotNext quote cs →
    OverLines quote cs text rest → OverLines quote (extra ++ cs) (extra ++ text) rest
  | plain {c cs text rest} : IsPlain c → c ≠ quote → (quote = '"' → c ≠ '\\') →
    OverLines quote cs text rest → OverLines quote (c :: cs) (c :: text) rest
  | line {cs chars a text rest} : Break cs chars a → OverLines quote a text rest →
    OverLines quote cs (chars ++ text) rest
  | escape {c cs a text rest} : quote = '"' → Escape cs c a → OverLines quote a text rest →
    OverLines quote ('\\' :: cs) (c :: text) rest
  /-- A backslash at the end of a line joins it with the next line that is not blank. -/
  | joined {cs a chars b d text rest} : quote = '"' → Spaces cs a → Break a chars b →
    Margin b d → OverLines quote d text rest → OverLines quote ('\\' :: cs) text rest

/-- A text of one of the four kinds. A line break after three opening quotes does not count. -/
inductive Text : List Char → List Char → List Char → Prop
  | onLine {quote cs text rest} : quote ∈ ['"', '\''] → OnLine quote cs text rest →
    Text (quote :: cs) text rest
  | overLines {quote cs text rest} : quote ∈ ['"', '\''] → (∀ chars a, ¬ Break cs chars a) →
    OverLines quote cs text rest → Text (quote :: quote :: quote :: cs) text rest
  | nextLine {quote cs chars a text rest} : quote ∈ ['"', '\''] → Break cs chars a →
    OverLines quote a text rest → Text (quote :: quote :: quote :: cs) text rest

/-- One or more characters of a bare key. -/
inductive Bare : List Char → List Char → List Char → Prop
  | last {c cs} : isBare c = true → Bare (c :: cs) [c] cs
  | more {c cs word rest} : isBare c = true → Bare cs word rest → Bare (c :: cs) (c :: word) rest

inductive Key : List Char → String → List Char → Prop
  | bare {cs word rest} : Bare cs word rest → Key cs (String.ofList word) rest
  | text {quote cs text rest} : quote ∈ ['"', '\''] → OnLine quote cs text rest →
    Key (quote :: cs) (String.ofList text) rest

/-- Keys with points between them. -/
inductive Keys : List Char → List String → List Char → Prop
  | last {cs a key rest} : Spaces cs a → Key a key rest → Keys cs [key] rest
  | more {cs a key b c keys rest} : Spaces cs a → Key a key b → Spaces b ('.' :: c) →
    Keys c keys rest → Keys cs (key :: keys) rest

/-- Characters of a bare key are one, up to what follows. -/
theorem bare_append {word : List Char} (rest : List Char) (hne : word ≠ [])
    (hbare : ∀ c ∈ word, isBare c = true) : Bare (word ++ rest) word rest := by
  induction word with
  | nil => exact absurd rfl hne
  | cons c word ih =>
    obtain ⟨hc, hbare⟩ := List.forall_mem_cons.mp hbare
    cases word with
    | nil => exact .last hc
    | cons _ _ => exact .more hc (ih (List.cons_ne_nil _ _) hbare)

/-! ## Lengths

Every phrase but blanks has a character.
-/

theorem Spaces.length {cs rest : List Char} (h : Spaces cs rest) : rest.length ≤ cs.length := by
  induction h with
  | none => exact Nat.le_refl _
  | more _ _ ih => exact Nat.le_succ_of_le ih

/-- A line break has a character. -/
theorem Break.length {cs chars rest : List Char} (h : Break cs chars rest) :
    rest.length < cs.length := by
  cases h <;> simp only [List.length_cons] <;> omega

theorem Code.length {left before value : Nat} {cs rest : List Char}
    (h : Code left before cs value rest) : rest.length ≤ cs.length := by
  induction h with
  | done => exact Nat.le_refl _
  | digit _ _ ih => exact Nat.le_succ_of_le ih

theorem Escape.length {cs rest : List Char} {c : Char} (h : Escape cs c rest) :
    rest.length < cs.length := by
  cases h with
  | short => exact Nat.lt_succ_self _
  | code _ hcode _ => exact Nat.lt_succ_of_le hcode.length

/-- The closing quote is read at least. -/
theorem OnLine.length {quote : Char} {cs text rest : List Char} (h : OnLine quote cs text rest) :
    rest.length < cs.length := by
  induction h with
  | close => exact Nat.lt_succ_self _
  | plain _ _ _ _ ih => exact Nat.lt_succ_of_lt ih
  | escape _ hescape _ ih => exact Nat.lt_succ_of_lt (Nat.lt_trans ih hescape.length)

theorem Margin.length {cs rest : List Char} (h : Margin cs rest) : rest.length ≤ cs.length := by
  induction h with
  | none => exact Nat.le_refl _
  | space _ _ ih => exact Nat.le_succ_of_le ih
  | line hbreak _ ih => exact Nat.le_trans ih (Nat.le_of_lt hbreak.length)

theorem OverLines.length {quote : Char} {cs text rest : List Char}
    (h : OverLines quote cs text rest) : rest.length < cs.length := by
  induction h with
  | close =>
    simp only [List.length_append, List.length_cons]
    omega
  | quotes _ _ _ ih =>
    rw [List.length_append]
    omega
  | plain _ _ _ _ ih => exact Nat.lt_succ_of_lt ih
  | line hbreak _ ih => exact Nat.lt_trans ih hbreak.length
  | escape _ hescape _ ih => exact Nat.lt_succ_of_lt (Nat.lt_trans ih hescape.length)
  | joined _ hspaces hbreak hmargin _ ih =>
    have hspaces := hspaces.length
    have hbreak := hbreak.length
    have hmargin := hmargin.length
    rw [List.length_cons]
    omega

/-- Both quotes of a text are read at least. -/
theorem Text.length {cs text rest : List Char} (h : Text cs text rest) :
    rest.length < cs.length := by
  cases h with
  | onLine _ h => exact Nat.lt_succ_of_lt h.length
  | overLines _ _ h =>
    have hlength := h.length
    simp only [List.length_cons]
    omega
  | nextLine _ hbreak h =>
    have hlength := h.length
    have hbreak := hbreak.length
    simp only [List.length_cons]
    omega

theorem Bare.length {cs word rest : List Char} (h : Bare cs word rest) :
    rest.length < cs.length := by
  induction h with
  | last => exact Nat.lt_succ_self _
  | more _ _ ih => exact Nat.lt_succ_of_lt ih

theorem Key.length {cs rest : List Char} {key : String} (h : Key cs key rest) :
    rest.length < cs.length := by
  cases h with
  | bare h => exact h.length
  | text _ h => exact Nat.lt_succ_of_lt h.length

/-- A key has a character, or quotes. -/
theorem Keys.length {cs rest : List Char} {path : List String} (h : Keys cs path rest) :
    rest.length < cs.length := by
  induction h with
  | last hspaces hkey => exact Nat.lt_of_lt_of_le hkey.length hspaces.length
  | more hspaces hkey hpoint _ ih =>
    have hspaces := hspaces.length
    have hkey := hkey.length
    have hpoint := hpoint.length
    rw [List.length_cons] at hpoint
    omega

/-! ## Characters -/

/-- Characters that stand for themselves are no control characters. -/
theorem isControl_of_isPlain {c : Char} (h : IsPlain c) : isControl c = false := by
  unfold isControl
  rcases h with rfl | ⟨hlow, hdel⟩
  · rfl
  · simp [hdel]
    omega

/-- Dropping spaces does not depend on how many the grammar has passed. -/
theorem dropWhile_spaces {cs rest : List Char} (h : Spaces cs rest) :
    cs.dropWhile isSpace = rest.dropWhile isSpace := by
  induction h with
  | none => rfl
  | more hc _ ih =>
    rw [List.dropWhile_cons_of_pos (by rcases hc with rfl | rfl <;> rfl), ih]

/-! ## Escapes -/

/-- Characters that are read where no quote closes the text, with what they contribute. -/
inductive Steps (lines : Bool) : Mode → List Char → List Char → Mode → List Char → Prop
  | done {mode cs} : Steps lines mode cs [] mode cs
  | more {mode mid next c cs a out text} : mode.mayClose = false →
    step lines mode c = some (mid, out) → Steps lines mid cs text next a →
    Steps lines mode (c :: cs) (out ++ text) next a

/-- One character that contributes something. -/
theorem Steps.single {lines : Bool} {mode next : Mode} {c : Char} {cs out : List Char}
    (hclose : mode.mayClose = false) (hstep : step lines mode c = some (next, out)) :
    Steps lines mode (c :: cs) out next cs := by
  have h := Steps.more hclose hstep (@Steps.done lines next cs)
  rwa [List.append_nil] at h

/-- One character that contributes nothing, such as the backslash of an escape. -/
theorem Steps.silent {lines : Bool} {mode mid next : Mode} {c : Char} {cs a text : List Char}
    (hclose : mode.mayClose = false) (hstep : step lines mode c = some (mid, []))
    (h : Steps lines mid cs text next a) : Steps lines mode (c :: cs) text next a :=
  .more hclose hstep h

/-- A character that closes nothing is read by itself, and its contribution comes first. -/
theorem escapedBody_step {mode next : Mode} {c : Char} {cs out : List Char}
    (hquote : (c == '"' && mode.mayClose) = false) (hstep : step false mode c = some (next, out)) :
    escapedBody mode (c :: cs) = (escapedBody next cs).map fun read => (out ++ read.1, read.2) := by
  rw [escapedBody, hquote]
  simp only [Bool.false_eq_true, ↓reduceIte, hstep, bind, Option.bind]
  cases escapedBody next cs <;> rfl

/-- The same over several lines, where it takes three quotes to close a text. -/
theorem escapedLines_step {mode next : Mode} {c : Char} {cs out : List Char}
    (hquote : (startsWithQuotes '"' (c :: cs) && mode.mayClose) = false)
    (hstep : step true mode c = some (next, out)) :
    escapedLines mode (c :: cs) =
      (escapedLines next cs).map fun read => (out ++ read.1, read.2) := by
  rw [escapedLines, hquote]
  simp only [Bool.false_eq_true, ↓reduceIte, hstep, bind, Option.bind]
  cases escapedLines next cs <;> rfl

/-- Steps are taken at the start of a text on one line. -/
theorem Steps.escapedBody {mode next : Mode} {cs a text : List Char}
    (h : Steps false mode cs text next a) :
    Toml.escapedBody mode cs =
      (Toml.escapedBody next a).map fun read => (text ++ read.1, read.2) := by
  induction h with
  | done => simp
  | more hclose hstep _ ih =>
    rw [escapedBody_step (by simp [hclose]) hstep, ih]
    simp [Function.comp_def]

/-- Steps are taken at the start of a text over several lines. -/
theorem Steps.escapedLines {mode next : Mode} {cs a text : List Char}
    (h : Steps true mode cs text next a) :
    Toml.escapedLines mode cs =
      (Toml.escapedLines next a).map fun read => (text ++ read.1, read.2) := by
  induction h with
  | done => simp
  | more hclose hstep _ ih =>
    rw [escapedLines_step (by simp [hclose]) hstep, ih]
    simp [Function.comp_def]

/-- The digits of an escape are read one by one, and the last one contributes the character. -/
theorem Code.steps {lines : Bool} {left before value : Nat} {cs rest : List Char}
    (h : Code (left + 1) before cs value rest) (hvalue : value.isValidChar) :
    Steps lines (.code (left + 1) before) cs [Char.ofNat value] .plain rest := by
  induction left generalizing before cs with
  | zero =>
    cases h with
    | digit hdigit hdone =>
      cases hdone
      refine .single rfl ?_
      rw [step, stepCode, hexValue?_of_isHexDigit hdigit]
      simp [hvalue]
  | succ left ih =>
    cases h with
    | digit hdigit hmore =>
      refine .silent rfl ?_ (ih hmore)
      rw [step, stepCode, hexValue?_of_isHexDigit hdigit]
      simp

/-- An escape contributes its character and leads back to plain text. -/
theorem Escape.steps {lines : Bool} {cs a : List Char} {c : Char} (h : Escape cs c a) :
    Steps lines .escape cs [c] .plain a := by
  cases h with
  | short hmem =>
    simp only [shortEscapes, List.mem_cons, Prod.mk.injEq, List.not_mem_nil, or_false] at hmem
    rcases hmem with ⟨rfl, rfl⟩ | ⟨rfl, rfl⟩ | ⟨rfl, rfl⟩ | ⟨rfl, rfl⟩ | ⟨rfl, rfl⟩ | ⟨rfl, rfl⟩ |
      ⟨rfl, rfl⟩ | ⟨rfl, rfl⟩
    all_goals exact .single rfl rfl
  | code hmem hcode hvalue =>
    simp only [codeEscapes, List.mem_cons, Prod.mk.injEq, List.not_mem_nil, or_false] at hmem
    rcases hmem with ⟨rfl, rfl⟩ | ⟨rfl, rfl⟩ | ⟨rfl, rfl⟩
    all_goals exact .silent rfl rfl (hcode.steps hvalue)

/-! ## Texts on one line -/

/-- A character that is no backslash contributes itself. -/
theorem step_of_isPlain {lines : Bool} {c : Char} (h : IsPlain c) (hslash : c ≠ '\\') :
    step lines .plain c = some (.plain, [c]) := by
  have hcontrol := isControl_of_isPlain h
  have hbreak : c ≠ '\n' ∧ c ≠ '\r' := by
    constructor <;> (rintro rfl; cases hcontrol)
  simp [step, stepPlain, hslash, hbreak, hcontrol]

/-- A text with escapes on one line is read up to its closing quote. -/
theorem escapedBody_of_onLine {cs text rest : List Char} (h : OnLine '"' cs text rest) :
    escapedBody .plain cs = some (text, rest) := by
  induction h with
  | close => simp [escapedBody, Mode.mayClose]
  | plain hc hquote hslash _ ih =>
    rw [escapedBody_step (by simp [hquote]) (step_of_isPlain hc (hslash rfl)), ih]
    rfl
  | escape _ hescape _ ih =>
    rw [escapedBody_step (by simp) (rfl : step false .plain '\\' = some (.escape, [])),
      hescape.steps.escapedBody, ih]
    rfl

/-- A literal text on one line is read up to its closing quote. -/
theorem literalBody_of_onLine {cs text rest : List Char} (h : OnLine '\'' cs text rest) :
    literalBody cs = some (text, rest) := by
  induction h with
  | close => simp [literalBody]
  | plain hc hquote _ _ ih =>
    rw [literalBody, if_neg (by simpa using hquote), isControl_of_isPlain hc, ih]
    rfl
  | escape hquote _ _ _ => cases hquote

/-- A text on one line is read, whatever its quote is. -/
theorem lineText?_of_onLine {quote : Char} {cs text rest : List Char} (hquote : quote ∈ ['"', '\''])
    (h : OnLine quote cs text rest) : lineText? (quote :: cs) = some (text, rest) := by
  simp only [List.mem_cons, List.not_mem_nil, or_false] at hquote
  rcases hquote with rfl | rfl
  · exact escapedBody_of_onLine h
  · exact literalBody_of_onLine h

/-! ## Texts over several lines -/

theorem startsWithQuotes_eq_false {quote c : Char} {cs : List Char} (h : c ≠ quote) :
    startsWithQuotes quote (c :: cs) = false := by
  simp [startsWithQuotes, h]

/-- One or two quotes close no text over several lines. -/
theorem startsWithQuotes_of_notNext {quote : Char} {extra cs : List Char}
    (hextra : extra ∈ [[quote], [quote, quote]]) (hcs : NotNext quote cs) :
    startsWithQuotes quote (extra ++ cs) = false := by
  simp only [List.mem_cons, List.not_mem_nil, or_false] at hextra
  cases cs with
  | nil => rcases hextra with rfl | rfl <;> simp [startsWithQuotes]
  | cons c cs =>
    have hne : c ≠ quote := fun h => hcs (congrArg some h)
    rcases hextra with rfl | rfl <;> cases cs <;> simp [startsWithQuotes, hne]

/-- Up to two quotes in front of the three that close a text belong to it. -/
theorem closing_of_extra {quote : Char} {extra cs : List Char}
    (hextra : extra ∈ [[], [quote], [quote, quote]]) (hcs : NotNext quote cs) :
    startsWithQuotes quote (extra ++ quote :: quote :: quote :: cs) = true ∧
      closing quote (extra ++ quote :: quote :: quote :: cs) = (extra, cs) := by
  have hnone : (cs.take 2).takeWhile (· == quote) = [] ∧ (cs.take 1).takeWhile (· == quote) = [] := by
    cases cs with
    | nil => exact ⟨rfl, rfl⟩
    | cons c cs =>
      have hne : c ≠ quote := fun h => hcs (congrArg some h)
      simp [hne]
  simp only [List.mem_cons, List.not_mem_nil, or_false] at hextra
  rcases hextra with rfl | rfl | rfl
  · simp [startsWithQuotes, closing, hnone]
  · simp [startsWithQuotes, closing, hnone]
  · simp [startsWithQuotes, closing]

/-- The end of a line after a backslash. -/
theorem Spaces.steps {mode : Mode} {cs a chars b : List Char} (h : Spaces cs a)
    (hbreak : Break a chars b) (hmode : mode = .escape ∨ mode = .lineEnd) :
    Steps true mode cs [] .margin b := by
  induction h generalizing mode with
  | none =>
    cases hbreak with
    | feed => rcases hmode with rfl | rfl <;> exact .single rfl rfl
    | both => rcases hmode with rfl | rfl <;> exact .silent rfl rfl (.single rfl rfl)
  | more hc _ ih =>
    have hrest := ih hbreak (.inr rfl)
    rcases hc with rfl | rfl <;> rcases hmode with rfl | rfl <;> exact .silent rfl rfl hrest

/-- The margin after a joined line ends at the first character that is no blank. -/
theorem escapedLines_margin {cs : List Char} (h : ∀ c ∈ cs.head?, c ∉ [' ', '\t', '\r', '\n']) :
    escapedLines .margin cs = escapedLines .plain cs := by
  cases cs with
  | nil => rfl
  | cons c cs =>
    have hblank := h c rfl
    simp only [List.mem_cons, List.not_mem_nil, or_false, not_or] at hblank
    have hstep : step true .margin c = step true .plain c := by
      simp [step, isSpace, hblank]
    rw [escapedLines, escapedLines, hstep]
    rfl

/-- Blanks and line breaks after a joined line contribute nothing. -/
theorem escapedLines_of_margin {cs rest : List Char} (h : Margin cs rest) :
    escapedLines .margin cs = escapedLines .plain rest := by
  induction h with
  | none hnone => exact escapedLines_margin hnone
  | @space c cs rest hc _ ih =>
    have hquote : c ≠ '"' := by rcases hc with rfl | rfl <;> decide
    have hstep : step true .margin c = some (.margin, []) := by
      rcases hc with rfl | rfl <;> rfl
    rw [escapedLines_step (by simp [startsWithQuotes_eq_false hquote]) hstep, ih]
    simp
  | line hbreak _ ih =>
    cases hbreak with
    | feed =>
      rw [escapedLines_step (by simp [startsWithQuotes_eq_false])
        (rfl : step true .margin '\n' = some (.margin, [])), ih]
      simp
    | both =>
      rw [escapedLines_step (by simp [startsWithQuotes_eq_false])
        (rfl : step true .margin '\r' = some (.marginFeed, [])),
        escapedLines_step (by simp [startsWithQuotes_eq_false])
        (rfl : step true .marginFeed '\n' = some (.margin, [])), ih]
      simp

/-- One or two quotes inside a text stand for themselves. -/
theorem escapedLines_quotes {extra cs text rest : List Char}
    (hextra : extra ∈ [['"'], ['"', '"']]) (hcs : NotNext '"' cs)
    (h : escapedLines .plain cs = some (text, rest)) :
    escapedLines .plain (extra ++ cs) = some (extra ++ text, rest) := by
  have hstep : step true .plain '"' = some (.plain, ['"']) := rfl
  have hone : startsWithQuotes '"' ('"' :: cs) = false :=
    startsWithQuotes_of_notNext List.mem_cons_self hcs
  have htwo : startsWithQuotes '"' ('"' :: '"' :: cs) = false :=
    startsWithQuotes_of_notNext (List.mem_cons_of_mem _ List.mem_cons_self) hcs
  simp only [List.mem_cons, List.not_mem_nil, or_false] at hextra
  rcases hextra with rfl | rfl
  · rw [List.singleton_append, escapedLines_step (by rw [hone]; rfl) hstep, h]
    rfl
  · rw [List.cons_append, List.singleton_append, escapedLines_step (by rw [htwo]; rfl) hstep,
      escapedLines_step (by rw [hone]; rfl) hstep, h]
    rfl

/-- A text with escapes over several lines is read up to its closing quotes. -/
theorem escapedLines_of_overLines {cs text rest : List Char} (h : OverLines '"' cs text rest)
    (hrest : NotNext '"' rest) : escapedLines .plain cs = some (text, rest) := by
  induction h with
  | @close extra cs hextra =>
    -- The last three of all quotes in a row close the text.
    obtain ⟨hstarts, hclosing⟩ := closing_of_extra hextra hrest
    obtain ⟨c, more, hcons⟩ : ∃ c more, extra ++ '"' :: '"' :: '"' :: cs = c :: more :=
      List.exists_cons_of_ne_nil (by simp)
    rw [hcons] at hstarts hclosing ⊢
    rw [escapedLines, hstarts, hclosing]
    rfl
  | quotes hextra hcs _ ih => exact escapedLines_quotes hextra hcs (ih hrest)
  | plain hc hquote hslash _ ih =>
    rw [escapedLines_step (by simp [startsWithQuotes_eq_false hquote])
      (step_of_isPlain hc (hslash rfl)), ih hrest]
    rfl
  | line hbreak _ ih =>
    cases hbreak with
    | feed =>
      rw [escapedLines_step (by simp [startsWithQuotes_eq_false])
        (rfl : step true .plain '\n' = some (.plain, ['\n'])), ih hrest]
      rfl
    | both =>
      rw [escapedLines_step (by simp [startsWithQuotes_eq_false])
        (rfl : step true .plain '\r' = some (.lineFeed, [])),
        escapedLines_step (by simp [startsWithQuotes_eq_false])
        (rfl : step true .lineFeed '\n' = some (.plain, ['\r', '\n'])), ih hrest]
      rfl
  | escape _ hescape _ ih =>
    rw [escapedLines_step (by simp [startsWithQuotes_eq_false])
      (rfl : step true .plain '\\' = some (.escape, [])), hescape.steps.escapedLines, ih hrest]
    rfl
  | joined _ hspaces hbreak hmargin _ ih =>
    rw [escapedLines_step (by simp [startsWithQuotes_eq_false])
      (rfl : step true .plain '\\' = some (.escape, [])),
      (hspaces.steps hbreak (.inl rfl)).escapedLines, escapedLines_of_margin hmargin, ih hrest]
    rfl

theorem literalLines_cons {c : Char} {cs : List Char}
    (hquote : startsWithQuotes '\'' (c :: cs) = false) (hreturn : c ≠ '\r')
    (hc : isControl c = false ∨ c = '\n') :
    literalLines (c :: cs) = (literalLines cs).map fun read => (c :: read.1, read.2) := by
  have hplain : (isControl c && c != '\n') = false := by
    rcases hc with hc | rfl
    · rw [hc]
      rfl
    · simp
  rw [literalLines, hquote, hplain]
  · rfl
  · rintro more rfl
    exact absurd rfl hreturn

theorem literalLines_quotes {extra cs text rest : List Char}
    (hextra : extra ∈ [['\''], ['\'', '\'']]) (hcs : NotNext '\'' cs)
    (h : literalLines cs = some (text, rest)) :
    literalLines (extra ++ cs) = some (extra ++ text, rest) := by
  have hone : startsWithQuotes '\'' ('\'' :: cs) = false :=
    startsWithQuotes_of_notNext List.mem_cons_self hcs
  have htwo : startsWithQuotes '\'' ('\'' :: '\'' :: cs) = false :=
    startsWithQuotes_of_notNext (List.mem_cons_of_mem _ List.mem_cons_self) hcs
  simp only [List.mem_cons, List.not_mem_nil, or_false] at hextra
  rcases hextra with rfl | rfl
  · rw [List.singleton_append, literalLines_cons hone (by decide) (.inl rfl), h]
    rfl
  · rw [List.cons_append, List.singleton_append, literalLines_cons htwo (by decide) (.inl rfl),
      literalLines_cons hone (by decide) (.inl rfl), h]
    rfl

/-- A literal text over several lines is read up to its closing quotes. -/
theorem literalLines_of_overLines {cs text rest : List Char} (h : OverLines '\'' cs text rest)
    (hrest : NotNext '\'' rest) : literalLines cs = some (text, rest) := by
  induction h with
  | @close extra cs hextra =>
    obtain ⟨hstarts, hclosing⟩ := closing_of_extra hextra hrest
    obtain ⟨more, hcons⟩ : ∃ more, extra ++ '\'' :: '\'' :: '\'' :: cs = '\'' :: more := by
      simp only [List.mem_cons, List.not_mem_nil, or_false] at hextra
      rcases hextra with rfl | rfl | rfl <;> exact ⟨_, rfl⟩
    rw [hcons] at hstarts hclosing ⊢
    rw [literalLines, hstarts, hclosing]
    · rfl
    · rintro _ ⟨⟩
  | quotes hextra hcs _ ih => exact literalLines_quotes hextra hcs (ih hrest)
  | @plain c _ _ _ hc hquote _ _ ih =>
    have hcontrol := isControl_of_isPlain hc
    have hreturn : c ≠ '\r' := by
      rintro rfl
      cases hcontrol
    rw [literalLines_cons (startsWithQuotes_eq_false hquote) hreturn (.inl hcontrol), ih hrest]
    rfl
  | line hbreak _ ih =>
    cases hbreak with
    | feed =>
      rw [literalLines_cons (startsWithQuotes_eq_false (by decide)) (by decide) (.inr rfl), ih hrest]
      rfl
    | both =>
      rw [literalLines, ih hrest]
      rfl
  | escape hquote => cases hquote
  | joined hquote => cases hquote

/-- A line break after the opening quotes is dropped. -/
theorem dropLineBreak_of_break {cs chars a : List Char} (h : Break cs chars a) :
    dropLineBreak cs = a := by
  cases h <;> rfl

theorem dropLineBreak_eq_self {cs : List Char} (h : ∀ chars a, ¬ Break cs chars a) :
    dropLineBreak cs = cs := by
  unfold dropLineBreak
  split
  · exact absurd .feed (h _ _)
  · exact absurd .both (h _ _)
  · rfl

/-- A text on one line does not start like one over several lines. -/
theorem OnLine.notStarts {quote : Char} {cs text rest : List Char} (h : OnLine quote cs text rest)
    (hrest : NotNext quote rest) : startsWithQuotes quote (quote :: cs) = false := by
  -- An empty text has two quotes in a row, every other text has one.
  have hcs : NotNext quote cs ∨ ∃ more, cs = quote :: more ∧ NotNext quote more := by
    cases h with
    | close => exact .inr ⟨_, rfl, hrest⟩
    | plain _ hquote _ _ => exact .inl fun h => hquote (Option.some.inj h)
    | escape hquote _ _ => exact .inl fun h => by cases hquote; cases h
  rcases hcs with hcs | ⟨more, rfl, hmore⟩
  · exact startsWithQuotes_of_notNext List.mem_cons_self hcs
  · exact startsWithQuotes_of_notNext (List.mem_cons_of_mem _ List.mem_cons_self) hmore

/-- After three quotes a text over several lines is read. -/
theorem text?_of_starts {quote : Char} {cs text rest : List Char} (hquote : quote ∈ ['"', '\''])
    (h : OverLines quote (dropLineBreak cs) text rest) (hrest : NotNext quote rest) :
    text? (quote :: quote :: quote :: cs) = some (text, rest) := by
  simp only [List.mem_cons, List.not_mem_nil, or_false] at hquote
  rcases hquote with rfl | rfl
  · exact escapedLines_of_overLines h hrest
  · exact literalLines_of_overLines h hrest

/-- A text of any kind is read up to its closing quotes, if no further quote follows. -/
theorem text?_of_text {cs text rest : List Char} (h : Text cs text rest)
    (hrest : ∀ quote ∈ ['"', '\''], NotNext quote rest) : text? cs = some (text, rest) := by
  cases h with
  | @onLine quote cs _ _ hquote h =>
    have hstarts := h.notStarts (hrest quote hquote)
    have hline := lineText?_of_onLine hquote h
    have hnone : ∀ other ∈ ['"', '\''], startsWithQuotes other (quote :: cs) = false := by
      intro other _
      by_cases hother : quote = other
      · rwa [← hother]
      · exact startsWithQuotes_eq_false hother
    rw [text?, hnone '"' (by decide), hnone '\'' (by decide)]
    exact hline
  | overLines hquote hbreak h =>
    exact text?_of_starts hquote (by rwa [dropLineBreak_eq_self hbreak]) (hrest _ hquote)
  | nextLine hquote hbreak h =>
    exact text?_of_starts hquote (by rwa [dropLineBreak_of_break hbreak]) (hrest _ hquote)

theorem Text.exists_cons {cs text rest : List Char} (h : Text cs text rest) :
    ∃ quote more, cs = quote :: more ∧ quote ∈ ['"', '\''] := by
  cases h with
  | onLine hquote _ => exact ⟨_, _, rfl, hquote⟩
  | overLines hquote _ _ => exact ⟨_, _, rfl, hquote⟩
  | nextLine hquote _ _ => exact ⟨_, _, rfl, hquote⟩

/-! ## Keys -/

/-- A bare key goes as far as its characters do. -/
theorem Bare.takeWhile {cs word rest : List Char} (h : Bare cs word rest)
    (hrest : ∀ c ∈ rest.head?, isBare c = false) :
    cs.takeWhile isBare = word ∧ cs.drop word.length = rest ∧ word ≠ [] := by
  induction h with
  | @last c cs hc =>
    refine ⟨?_, rfl, List.cons_ne_nil _ _⟩
    rw [List.takeWhile_cons_of_pos hc]
    cases cs with
    | nil => rfl
    | cons d cs => rw [List.takeWhile_cons_of_neg (by rw [hrest d rfl]; simp)]
  | more hc _ ih =>
    obtain ⟨htake, hdrop, -⟩ := ih hrest
    exact ⟨by rw [List.takeWhile_cons_of_pos hc, htake], hdrop, List.cons_ne_nil _ _⟩

/-- A key of either kind is read up to its end. -/
theorem key?_of_key {cs rest : List Char} {key : String} (h : Key cs key rest)
    (hrest : ∀ c ∈ rest.head?, isBare c = false) : key? cs = some (key, rest) := by
  cases h with
  | bare h =>
    obtain ⟨htake, hdrop, hne⟩ := h.takeWhile hrest
    simp only [key?, htake, hdrop]
    rw [if_neg (by simpa using hne)]
  | @text quote cs text _ hquote h =>
    have hbare : (quote :: cs).takeWhile isBare = [] := by
      simp only [List.mem_cons, List.not_mem_nil, or_false] at hquote
      rcases hquote with rfl | rfl <;> exact List.takeWhile_cons_of_neg (by decide)
    simp only [key?, hbare, lineText?_of_onLine hquote h]
    rfl

/-- What may follow keys: no further character of a key, and no point, even behind spaces. -/
def KeysEnd (rest : List Char) : Prop :=
  (∀ c ∈ rest.head?, isBare c = false) ∧ NotNext '.' (rest.dropWhile isSpace)

/-- A key starts with a character of its own or with a quote. -/
theorem Key.exists_cons {cs rest : List Char} {key : String} (h : Key cs key rest) :
    ∃ c more, cs = c :: more ∧ (isBare c = true ∨ c ∈ ['"', '\'']) := by
  cases h with
  | bare h =>
    cases h with
    | last hc => exact ⟨_, _, rfl, .inl hc⟩
    | more hc _ => exact ⟨_, _, rfl, .inl hc⟩
  | text hquote _ => exact ⟨_, _, rfl, .inr hquote⟩

theorem Key.dropWhile {cs rest : List Char} {key : String} (h : Key cs key rest) :
    cs.dropWhile isSpace = cs := by
  obtain ⟨c, more, rfl, hc⟩ := h.exists_cons
  refine List.dropWhile_cons_of_neg fun hspace => ?_
  rw [isSpace, Bool.or_eq_true, beq_iff_eq, beq_iff_eq] at hspace
  rcases hspace with rfl | rfl <;> exact absurd hc (by decide)

/-- The last of several keys is followed by spaces. -/
theorem keysTo_last {fuel : Nat} {cs a rest : List Char} {key : String} (hspaces : Spaces cs a)
    (h : Key a key rest) (hrest : KeysEnd rest) :
    keysTo (fuel + 1) cs = some ([key], rest.dropWhile isSpace) := by
  rw [keysTo, dropWhile_spaces hspaces, h.dropWhile, key?_of_key h hrest.1]
  simp only [bind, Option.bind]
  split
  · next hpoint => exact absurd (by rw [hpoint]; rfl) hrest.2
  · rfl

/-- A key with a point behind it is followed by further keys. -/
theorem keysTo_more {fuel : Nat} {cs a b c rest : List Char} {key : String} {keys : List String}
    (hspaces : Spaces cs a) (h : Key a key b) (hpoint : Spaces b ('.' :: c))
    (hkeys : keysTo fuel c = some (keys, rest)) :
    keysTo (fuel + 1) cs = some (key :: keys, rest) := by
  have hafter : b.dropWhile isSpace = '.' :: c := dropWhile_spaces hpoint
  have hbare : ∀ d ∈ b.head?, isBare d = false := by
    intro d hd
    cases hpoint with
    | none => cases hd; rfl
    | more hspace _ => cases hd; rcases hspace with rfl | rfl <;> rfl
  rw [keysTo, dropWhile_spaces hspaces, h.dropWhile, key?_of_key h hbare]
  simp only [bind, Option.bind, hafter, hkeys]
  rfl

/-- Keys are read up to what follows them, unless there are too many. -/
theorem keys?_of_keys {cs rest : List Char} {path : List String} (h : Keys cs path rest)
    (hrest : KeysEnd rest) :
    keys? cs = if path.length ≤ depthLimit then some (path, rest.dropWhile isSpace) else none := by
  have hread : ∀ fuel, cs.length < fuel → keysTo fuel cs = some (path, rest.dropWhile isSpace) := by
    induction h with
    | last hspaces hkey =>
      intro fuel hfuel
      obtain ⟨fuel, rfl⟩ := Nat.exists_eq_add_of_lt (Nat.lt_of_le_of_lt (Nat.zero_le _) hfuel)
      exact keysTo_last hspaces hkey hrest
    | more hspaces hkey hpoint _ ih =>
      intro fuel hfuel
      obtain ⟨fuel, rfl⟩ := Nat.exists_eq_add_of_lt (Nat.lt_of_le_of_lt (Nat.zero_le _) hfuel)
      refine keysTo_more hspaces hkey hpoint (ih hrest _ ?_)
      have hspaces := hspaces.length
      have hkey := hkey.length
      have hpoint := hpoint.length
      rw [List.length_cons] at hpoint
      omega
  rw [keys?, hread _ (Nat.lt_succ_self _)]
  rfl

end ActionUnits.Record.Toml
