import ActionUnits.Proofs.Record.Decoding
import ActionUnits.Proofs.Text.Quoted
import ActionUnits.Record.Json

/-! # JSON texts

The grammar of JSON, and the data that a text denotes. Each rule relates what
starts with a phrase to what follows it. A text of the grammar is read as the data
that it denotes: lexeme by lexeme, as a lexeme ends where the next one can start.
-/

namespace ActionUnits.Record.Json

open Text.Quoted (IsHexDigit hexValue?_of_isHexDigit)

/-! ## The grammar -/

/-- Blanks between the tokens of a text. -/
inductive Blanks : List Char → List Char → Prop
  | none {cs} : Blanks cs cs
  | more {c cs rest} : c ∈ [' ', '\t', '\n', '\r'] → Blanks cs rest → Blanks (c :: cs) rest

/-- One or more digits. -/
inductive Digits : List Char → List Char → Prop
  | last {c cs} : c.isDigit = true → Digits (c :: cs) cs
  | more {c cs rest} : c.isDigit = true → Digits cs rest → Digits (c :: cs) rest

/-- The whole part of a number, without a needless zero. -/
inductive Whole : List Char → List Char → Prop
  | zero {cs} : Whole ('0' :: cs) cs
  | digits {c cs rest} : c ≠ '0' → Digits (c :: cs) rest → Whole (c :: cs) rest

inductive Fraction : List Char → List Char → Prop
  | none {cs} : Fraction cs cs
  | some {cs rest} : Digits cs rest → Fraction ('.' :: cs) rest

inductive Exponent : List Char → List Char → Prop
  | none {cs} : Exponent cs cs
  | plain {e cs rest} : e ∈ ['e', 'E'] → Digits cs rest → Exponent (e :: cs) rest
  | signed {e sign cs rest} : e ∈ ['e', 'E'] → sign ∈ ['+', '-'] → Digits cs rest →
    Exponent (e :: sign :: cs) rest

inductive Number : List Char → List Char → Prop
  | plain {cs a b rest} : Whole cs a → Fraction a b → Exponent b rest → Number cs rest
  | negative {cs a b rest} : Whole cs a → Fraction a b → Exponent b rest → Number ('-' :: cs) rest

/-- The value of four hexadecimal digits. -/
def IsCode (a b c d : Char) (code : Nat) : Prop :=
  ∃ w x y z, IsHexDigit a w ∧ IsHexDigit b x ∧ IsHexDigit c y ∧ IsHexDigit d z ∧
    code = ((w * 16 + x) * 16 + y) * 16 + z

/-- The letters of short escapes, with what they stand for. -/
def shortEscapes : List (Char × Char) :=
  [('"', '"'), ('\\', '\\'), ('/', '/'), ('b', '\x08'), ('f', '\x0c'), ('n', '\n'), ('r', '\r'),
    ('t', '\t')]

/-- The units of a text up to its closing quote. -/
inductive Units : List Char → List TextUnit → List Char → Prop
  | close {cs} : Units ('"' :: cs) [] cs
  | plain {c cs units rest} : 0x20 ≤ c.toNat → c ≠ '"' → c ≠ '\\' → Units cs units rest →
    Units (c :: cs) (.char c :: units) rest
  | short {letter c cs units rest} : (letter, c) ∈ shortEscapes → Units cs units rest →
    Units ('\\' :: letter :: cs) (.char c :: units) rest
  | code {a b c d code cs units rest} : IsCode a b c d code → Units cs units rest →
    Units ('\\' :: 'u' :: a :: b :: c :: d :: cs) (.code code :: units) rest

/-- The characters that units spell: a character above the first plane takes two codes. -/
inductive Spells : List TextUnit → List Char → Prop
  | nil : Spells [] []
  | char {c units cs} : Spells units cs → Spells (.char c :: units) (c :: cs)
  | code {code units cs} : code < 0xd800 ∨ 0xe000 ≤ code → Spells units cs →
    Spells (.code code :: units) (Char.ofNat code :: cs)
  | pair {high low units cs} : 0xd800 ≤ high → high < 0xdc00 → 0xdc00 ≤ low → low < 0xe000 →
    Spells units cs → Spells (.code high :: .code low :: units)
      (Char.ofNat (0x10000 + (high - 0xd800) * 0x400 + (low - 0xdc00)) :: cs)

/-- What units denote; codes that are half a pair spell nothing. -/
inductive DenoteText : List TextUnit → Option String → Prop
  | some {units text} : Spells units text.toList → DenoteText units (some text)
  | none {units} : (∀ cs, ¬ Spells units cs) → DenoteText units none

/-- What a phrase of the grammar denotes. -/
inductive Phrase where
  | value (data : Data)
  /-- The elements of a list, up to its end. -/
  | elements (elements : List Data)
  /-- The members of an object, up to its end. -/
  | members (entries : List (Option String × Data))

inductive Derives : Phrase → List Char → List Char → Prop
  | null {cs} : Derives (.value .null) ('n' :: 'u' :: 'l' :: 'l' :: cs) cs
  | yes {cs} : Derives (.value (.flag true)) ('t' :: 'r' :: 'u' :: 'e' :: cs) cs
  | no {cs} : Derives (.value (.flag false)) ('f' :: 'a' :: 'l' :: 's' :: 'e' :: cs) cs
  | number {cs rest} : Number cs rest → Derives (.value .number) cs rest
  | text {cs units value rest} : Units cs units rest → DenoteText units value →
    Derives (.value (.text value)) ('"' :: cs) rest
  | emptyList {cs rest} : Blanks cs (']' :: rest) →
    Derives (.value (.list [] true)) ('[' :: cs) rest
  | list {cs elements rest} : Derives (.elements elements) cs rest →
    Derives (.value (.list elements true)) ('[' :: cs) rest
  | emptyObject {cs rest} : Blanks cs ('\x7d' :: rest) →
    Derives (.value (.members [] true)) ('\x7b' :: cs) rest
  | object {cs entries rest} : Derives (.members entries) cs rest →
    Derives (.value (.members entries true)) ('\x7b' :: cs) rest
  | lastElement {cs a data b rest} : Blanks cs a → Derives (.value data) a b →
    Blanks b (']' :: rest) → Derives (.elements [data]) cs rest
  | element {cs a data b more elements rest} : Blanks cs a → Derives (.value data) a b →
    Blanks b (',' :: more) → Derives (.elements elements) more rest →
    Derives (.elements (data :: elements)) cs rest
  | lastMember {cs a units key b c d data e rest} : Blanks cs ('"' :: a) → Units a units b →
    DenoteText units key → Blanks b (':' :: c) → Blanks c d → Derives (.value data) d e →
    Blanks e ('\x7d' :: rest) → Derives (.members [(key, data)]) cs rest
  | member {cs a units key b c d data e more entries rest} : Blanks cs ('"' :: a) →
    Units a units b → DenoteText units key → Blanks b (':' :: c) → Blanks c d →
    Derives (.value data) d e → Blanks e (',' :: more) → Derives (.members entries) more rest →
    Derives (.members ((key, data) :: entries)) cs rest

/-- The data of a text: one value with blanks around it. -/
def Denotes (text : String) (data : Data) : Prop :=
  ∃ a b, Blanks text.toList a ∧ Derives (.value data) a b ∧ Blanks b []

/-! ### Texts without escapes -/

/-- A text without escapes is read unit by unit. -/
theorem units_plain {cs : List Char} (rest : List Char)
    (h : ∀ c ∈ cs, 0x20 ≤ c.toNat ∧ c ≠ '"' ∧ c ≠ '\\') :
    Units (cs ++ '"' :: rest) (cs.map .char) rest := by
  induction cs with
  | nil => exact .close
  | cons c cs ih =>
    obtain ⟨⟨hcode, hquote, hslash⟩, hcs⟩ := List.forall_mem_cons.mp h
    exact .plain hcode hquote hslash (ih hcs)

/-- Characters denote themselves. -/
theorem denoteText_plain (text : String) : DenoteText (text.toList.map .char) (some text) := by
  refine .some ?_
  induction text.toList with
  | nil => exact .nil
  | cons c cs ih => exact .char ih

/-! ## Texts -/

/-- The code of an escape is read from its four digits. -/
theorem hexCode?_of_isCode {a b c d : Char} {code : Nat} (h : IsCode a b c d code) :
    hexCode? a b c d = some code := by
  obtain ⟨w, x, y, z, ha, hb, hc, hd, rfl⟩ := h
  simp only [hexCode?, hexValue?_of_isHexDigit ha, hexValue?_of_isHexDigit hb,
    hexValue?_of_isHexDigit hc, hexValue?_of_isHexDigit hd]
  rfl

/-- A character that is no escape is one unit. -/
theorem textUnits_plain {c : Char} {cs : List Char} (hcode : 0x20 ≤ c.toNat) (hquote : c ≠ '"')
    (hslash : c ≠ '\\') :
    textUnits (c :: cs) = (textUnits cs).map fun read => (.char c :: read.1, read.2) := by
  rw [textUnits.eq_def]
  split
  · next h => cases h
  · next h => exact absurd (List.cons.inj h).1 hquote
  · next h => exact absurd (List.cons.inj h).1 hslash
  · next h => exact absurd (List.cons.inj h).1 hslash
  · next h =>
    obtain ⟨rfl, rfl⟩ := List.cons.inj h
    rw [if_neg (by simp [hslash]; omega)]
    cases textUnits cs <;> rfl

/-- A text is read up to its closing quote. -/
theorem textUnits_of_units {cs rest : List Char} {units : List TextUnit} (h : Units cs units rest) :
    textUnits cs = some (units, rest) := by
  induction h with
  | close => rw [textUnits]
  | plain hcode hquote hslash _ ih => rw [textUnits_plain hcode hquote hslash, ih]; rfl
  | short hmem _ ih =>
    simp only [shortEscapes, List.mem_cons, Prod.mk.injEq, List.not_mem_nil, or_false] at hmem
    rcases hmem with ⟨rfl, rfl⟩ | ⟨rfl, rfl⟩ | ⟨rfl, rfl⟩ | ⟨rfl, rfl⟩ | ⟨rfl, rfl⟩ | ⟨rfl, rfl⟩ |
      ⟨rfl, rfl⟩ | ⟨rfl, rfl⟩
    all_goals simp [textUnits, shortEscape?, ih]
  | code hcode _ ih =>
    rw [textUnits, hexCode?_of_isCode hcode, ih]
    rfl

theorem isLeading_eq_true_iff {code : Nat} :
    isLeading code = true ↔ 0xd800 ≤ code ∧ code < 0xdc00 := by
  simp [isLeading]

theorem isTrailing_eq_true_iff {code : Nat} :
    isTrailing code = true ↔ 0xdc00 ≤ code ∧ code < 0xe000 := by
  simp [isTrailing]

/-- Units are assembled to the characters that they spell. -/
theorem assemble_eq_some_iff {units : List TextUnit} {cs : List Char} :
    assemble units = some cs ↔ Spells units cs := by
  constructor
  · intro h
    fun_induction assemble units generalizing cs with
    | case1 =>
      cases h
      exact .nil
    | case2 c units ih =>
      obtain ⟨tail, htail, rfl⟩ := Option.map_eq_some_iff.mp h
      exact .char (ih htail)
    | case3 => cases h
    | case4 code htrailing hleading second units hsecond c =>
      rename_i ih
      obtain ⟨tail, htail, rfl⟩ := Option.map_eq_some_iff.mp h
      rw [isLeading_eq_true_iff] at hleading
      rw [isTrailing_eq_true_iff] at hsecond
      exact .pair hleading.1 hleading.2 hsecond.1 hsecond.2 (ih htail)
    | case5 => cases h
    | case6 => cases h
    | case7 code units htrailing hleading ih =>
      obtain ⟨tail, htail, rfl⟩ := Option.map_eq_some_iff.mp h
      rw [isLeading_eq_true_iff] at hleading
      rw [isTrailing_eq_true_iff] at htrailing
      exact .code (by omega) (ih htail)
  · intro h
    induction h with
    | nil => rfl
    | char _ ih => rw [assemble, ih]; rfl
    | @code code units cs hcode _ ih =>
      have htrailing : isTrailing code = false := by
        rw [← Bool.not_eq_true, isTrailing_eq_true_iff]
        omega
      have hleading : isLeading code = false := by
        rw [← Bool.not_eq_true, isLeading_eq_true_iff]
        omega
      rw [assemble.eq_def]
      simp [htrailing, hleading, ih]
    -- The first code of a pair is no second one, so the pair is taken as a whole.
    | @pair high low units cs hhigh hhigh' hlow hlow' _ ih =>
      have htrailing : isTrailing high = false := by
        rw [← Bool.not_eq_true, isTrailing_eq_true_iff]
        omega
      have hleading := isLeading_eq_true_iff.mpr ⟨hhigh, hhigh'⟩
      have hsecond := isTrailing_eq_true_iff.mpr ⟨hlow, hlow'⟩
      rw [assemble.eq_def]
      simp [htrailing, hleading, hsecond, ih]

/-- Units are put together as the text that they denote, halves of pairs included. -/
theorem assemble_of_denoteText {units : List TextUnit} {value : Option String}
    (h : DenoteText units value) : (assemble units).map String.ofList = value := by
  cases h with
  | some hspells =>
    rw [assemble_eq_some_iff.mpr hspells]
    exact congrArg _ String.ofList_toList
  | none hnone =>
    cases hread : assemble units with
    | none => rfl
    | some cs => exact absurd (assemble_eq_some_iff.mp hread) (hnone cs)

/-! ## Numbers -/

/-- What may follow a value: a blank, a comma, a closing bracket, or nothing. -/
def Ends (rest : List Char) : Prop :=
  ∀ c ∈ rest.head?, c ∈ [' ', '\t', '\n', '\r', ',', ']', '\x7d']

/-- No digit comes next. -/
def NoDigit (rest : List Char) : Prop :=
  ∀ c ∈ rest.head?, c.isDigit = false

theorem Ends.noDigit {rest : List Char} (h : Ends rest) : NoDigit rest := by
  intro c hc
  have hmem := h c hc
  simp only [List.mem_cons, List.not_mem_nil, or_false] at hmem
  rcases hmem with rfl | rfl | rfl | rfl | rfl | rfl | rfl <;> decide

theorem dropWhile_isDigit {rest : List Char} (h : NoDigit rest) :
    rest.dropWhile Char.isDigit = rest := by
  cases rest with
  | nil => rfl
  | cons c cs => exact List.dropWhile_cons_of_neg (by rw [h c rfl]; simp)

theorem skipDigits_of_digits {cs rest : List Char} (h : Digits cs rest) (hrest : NoDigit rest) :
    skipDigits cs = some rest := by
  have hdrop : cs.dropWhile Char.isDigit = rest ∧ rest.length < cs.length := by
    induction h with
    | last hc => exact ⟨by rw [List.dropWhile_cons_of_pos hc, dropWhile_isDigit hrest], by simp⟩
    | more hc _ ih =>
      obtain ⟨hdrop, hlength⟩ := ih hrest
      exact ⟨by rw [List.dropWhile_cons_of_pos hc, hdrop], Nat.lt_succ_of_lt hlength⟩
  unfold skipDigits
  rw [hdrop.1]
  simp only
  rw [if_neg (by simpa using Nat.ne_of_lt hdrop.2)]

theorem Digits.exists_cons {cs rest : List Char} (h : Digits cs rest) :
    ∃ c more, cs = c :: more ∧ c.isDigit = true := by
  cases h with
  | last hc => exact ⟨_, _, rfl, hc⟩
  | more hc _ => exact ⟨_, _, rfl, hc⟩

/-- An exponent is passed up to its end, if something follows that ends a number. -/
theorem skipExponent_of_exponent {cs rest : List Char} (h : Exponent cs rest) (hrest : Ends rest) :
    skipExponent cs = some rest := by
  cases h with
  | none =>
    have hletter : ∀ c ∈ cs.head?, (c == 'e' || c == 'E') = false := by
      intro c hc
      have hmem := hrest c hc
      simp only [List.mem_cons, List.not_mem_nil, or_false] at hmem
      rcases hmem with rfl | rfl | rfl | rfl | rfl | rfl | rfl <;> decide
    match cs, hletter with
    | [], _ => rfl
    | [c], hletter => rw [skipExponent, hletter c rfl]; rfl
    | c :: next :: cs, hletter => rw [skipExponent, hletter c rfl]; rfl
  | @plain e cs _ he hdigits =>
    obtain ⟨c, more, rfl, hc⟩ := hdigits.exists_cons
    have hsign : (c == '+' || c == '-') = false := by
      rw [Bool.or_eq_false_iff, beq_eq_false_iff_ne, beq_eq_false_iff_ne]
      constructor <;> (rintro rfl; cases hc)
    have hletter : (e == 'e' || e == 'E') = true := by simpa using he
    rw [skipExponent, hletter, hsign]
    exact skipDigits_of_digits hdigits hrest.noDigit
  | @signed e sign cs _ he hsign hdigits =>
    have hletter : (e == 'e' || e == 'E') = true := by simpa using he
    have hsign : (sign == '+' || sign == '-') = true := by simpa using hsign
    rw [skipExponent, hletter, hsign]
    exact skipDigits_of_digits hdigits hrest.noDigit

/-- No digit and no point comes next. -/
theorem Exponent.starts {cs rest : List Char} (h : Exponent cs rest) (hrest : Ends rest) :
    NoDigit cs ∧ ∀ c ∈ cs.head?, c ≠ '.' := by
  cases h with
  | none =>
    refine ⟨hrest.noDigit, fun c hc => ?_⟩
    rintro rfl
    exact absurd (hrest _ hc) (by decide)
  | plain he _ =>
    simp only [List.mem_cons, List.not_mem_nil, or_false] at he
    rcases he with rfl | rfl <;> exact ⟨by rintro c ⟨⟩; rfl, by rintro c ⟨⟩; decide⟩
  | signed he _ _ =>
    simp only [List.mem_cons, List.not_mem_nil, or_false] at he
    rcases he with rfl | rfl <;> exact ⟨by rintro c ⟨⟩; rfl, by rintro c ⟨⟩; decide⟩

theorem Fraction.noDigit {cs rest : List Char} (h : Fraction cs rest) (hrest : NoDigit rest) :
    NoDigit cs := by
  cases h with
  | none => exact hrest
  | some _ => rintro c ⟨⟩; rfl

/-- A fraction is passed up to its end. -/
theorem skipFraction_of_fraction {cs rest : List Char} (h : Fraction cs rest)
    (hdigit : NoDigit rest) (hpoint : ∀ c ∈ rest.head?, c ≠ '.') : skipFraction cs = some rest := by
  cases h with
  | none =>
    unfold skipFraction
    split
    · exact absurd rfl (hpoint '.' rfl)
    · rfl
  | some hdigits => exact skipDigits_of_digits hdigits hdigit

/-- The whole part of a number is passed up to its end. -/
theorem skipWhole_of_whole {cs rest : List Char} (h : Whole cs rest) (hrest : NoDigit rest) :
    skipWhole cs = some rest := by
  cases h with
  | zero =>
    match rest, hrest with
    | [], _ => rfl
    | c :: cs, hrest => rw [skipWhole, hrest c rfl]; rfl
  | @digits c cs _ hzero hdigits =>
    unfold skipWhole
    split
    · next h => exact absurd (List.cons.inj h).1 hzero
    · exact skipDigits_of_digits hdigits hrest

theorem Whole.exists_digit {cs rest : List Char} (h : Whole cs rest) :
    ∃ c more, cs = c :: more ∧ c.isDigit = true := by
  cases h with
  | zero => exact ⟨_, _, rfl, rfl⟩
  | digits _ hdigits => exact hdigits.exists_cons

theorem skipUnsigned {cs a b rest : List Char} (hwhole : Whole cs a) (hfraction : Fraction a b)
    (hexponent : Exponent b rest) (hrest : Ends rest) :
    (do skipExponent (← skipFraction (← skipWhole cs))) = some rest := by
  obtain ⟨hdigit, hpoint⟩ := hexponent.starts hrest
  rw [skipWhole_of_whole hwhole (hfraction.noDigit hdigit)]
  change (skipFraction a >>= skipExponent) = some rest
  rw [skipFraction_of_fraction hfraction hdigit hpoint]
  exact skipExponent_of_exponent hexponent hrest

/-- A number is passed up to its end. -/
theorem number_of_number {cs rest : List Char} (h : Number cs rest) (hrest : Ends rest) :
    number cs = some rest := by
  cases h with
  | plain hwhole hfraction hexponent =>
    obtain ⟨c, more, rfl, hc⟩ := hwhole.exists_digit
    have hrun := skipUnsigned hwhole hfraction hexponent hrest
    unfold number
    split
    · next h =>
      obtain rfl := (List.cons.inj h).1
      cases hc
    · exact hrun
  | negative hwhole hfraction hexponent =>
    exact skipUnsigned hwhole hfraction hexponent hrest

/-! ## Lexemes -/

theorem textUnits_length {cs rest : List Char} {units : List TextUnit}
    (h : textUnits cs = some (units, rest)) : rest.length < cs.length := by
  fun_induction textUnits cs generalizing units with
  | case1 => cases h
  | case2 => cases h; simp
  | case3 a b c d cs ih =>
    obtain ⟨code, -, h⟩ := Option.bind_eq_some_iff.mp h
    obtain ⟨read, hread, h⟩ := Option.bind_eq_some_iff.mp h
    cases h
    have hlength := ih hread
    simp only [List.length_cons]
    omega
  | case4 c cs _ ih =>
    obtain ⟨char, -, h⟩ := Option.bind_eq_some_iff.mp h
    obtain ⟨read, hread, h⟩ := Option.bind_eq_some_iff.mp h
    cases h
    have hlength := ih hread
    simp only [List.length_cons]
    omega
  | case5 => cases h
  | case6 c cs _ _ _ _ ih =>
    obtain ⟨read, hread, h⟩ := Option.bind_eq_some_iff.mp h
    cases h
    exact Nat.lt_succ_of_lt (ih hread)

theorem skipDigits_length {cs rest : List Char} (h : skipDigits cs = some rest) :
    rest.length < cs.length := by
  unfold skipDigits at h
  simp only at h
  split at h
  · cases h
  · next hne =>
    obtain rfl := Option.some.inj h
    have hle := (List.dropWhile_sublist Char.isDigit (l := cs)).length_le
    have hne : (cs.dropWhile Char.isDigit).length ≠ cs.length := by simpa using hne
    omega

theorem skipWhole_length {cs rest : List Char} (h : skipWhole cs = some rest) :
    rest.length < cs.length := by
  unfold skipWhole at h
  split at h
  · split at h
    · cases h
    · cases h
      simp
  · exact skipDigits_length h

theorem skipFraction_length {cs rest : List Char} (h : skipFraction cs = some rest) :
    rest.length ≤ cs.length := by
  unfold skipFraction at h
  split at h
  · have hlength := skipDigits_length h
    simp only [List.length_cons]
    omega
  · cases h
    exact Nat.le_refl _

theorem skipExponent_length {cs rest : List Char} (h : skipExponent cs = some rest) :
    rest.length ≤ cs.length := by
  unfold skipExponent at h
  split at h
  · split at h
    · split at h
      all_goals
        have hlength := skipDigits_length h
        simp only [List.length_cons] at hlength ⊢
        omega
    · cases h
      exact Nat.le_refl _
  · split at h
    · cases h
    · cases h
      exact Nat.le_refl _
  · cases h
    exact Nat.le_refl _

theorem number_length {cs rest : List Char} (h : number cs = some rest) :
    rest.length < cs.length := by
  unfold number at h
  obtain ⟨a, ha, h⟩ := Option.bind_eq_some_iff.mp h
  obtain ⟨b, hb, h⟩ := Option.bind_eq_some_iff.mp h
  have hwhole := skipWhole_length ha
  have hfraction := skipFraction_length hb
  have hexponent := skipExponent_length h
  split at hwhole
  · simp only [List.length_cons]
    omega
  · omega

theorem lexeme?_length {cs rest : List Char} {lexeme : Lexeme}
    (h : lexeme? cs = some (lexeme, rest)) : rest.length < cs.length := by
  unfold lexeme? at h
  split at h
  case h_10 =>
    obtain ⟨read, hread, h⟩ := Option.bind_eq_some_iff.mp h
    cases h
    exact Nat.lt_succ_of_lt (textUnits_length hread)
  case h_11 =>
    obtain ⟨after, hread, h⟩ := Option.bind_eq_some_iff.mp h
    cases h
    exact number_length hread
  all_goals
    cases h
    simp only [List.length_cons]
    omega

/-- Fuel beyond the length of a text makes no difference. -/
theorem lexemesTo_eq {fuel fuel' : Nat} {cs : List Char} (h : cs.length < fuel)
    (h' : cs.length < fuel') : lexemesTo fuel cs = lexemesTo fuel' cs := by
  induction fuel generalizing fuel' cs with
  | zero => cases h
  | succ fuel ih =>
    cases fuel' with
    | zero => cases h'
    | succ fuel' =>
      have hdrop := (List.dropWhile_sublist isSpace (l := cs)).length_le
      rw [lexemesTo, lexemesTo]
      split
      · rfl
      · split
        · next hread =>
          have hlength := lexeme?_length hread
          rw [@ih fuel' _ (by omega) (by omega)]
        · rfl

/-- Blanks are no lexemes. -/
theorem lexemes_blanks {cs rest : List Char} (h : Blanks cs rest) : lexemes cs = lexemes rest := by
  induction h with
  | none => rfl
  | @more c cs rest hc _ ih =>
    have hspace : isSpace c = true := by
      simp only [List.mem_cons, List.not_mem_nil, or_false] at hc
      rcases hc with rfl | rfl | rfl | rfl <;> rfl
    have hskip : lexemesTo (cs.length + 2) (c :: cs) = lexemesTo (cs.length + 2) cs := by
      rw [lexemesTo, lexemesTo, List.dropWhile_cons_of_pos hspace]
    calc lexemes (c :: cs) = lexemesTo (cs.length + 2) cs := hskip
      _ = lexemes cs := lexemesTo_eq (by omega) (by omega)
      _ = lexemes rest := ih

/-- The first lexeme comes first. -/
theorem lexemes_lexeme {c : Char} {cs rest : List Char} {lexeme : Lexeme} (hc : isSpace c = false)
    (h : lexeme? (c :: cs) = some (lexeme, rest)) :
    lexemes (c :: cs) = some lexeme :: lexemes rest := by
  have hlength := lexeme?_length h
  rw [lexemes, lexemesTo, List.dropWhile_cons_of_neg (by simp [hc])]
  simp only [h]
  rw [lexemes, lexemesTo_eq hlength (Nat.lt_succ_self _)]

/-- A text is one lexeme. -/
theorem lexemes_text {cs rest : List Char} {units : List TextUnit} {value : Option String}
    (hunits : Units cs units rest) (hvalue : DenoteText units value) :
    lexemes ('"' :: cs) = some (.text value) :: lexemes rest := by
  refine lexemes_lexeme rfl ?_
  rw [lexeme?, textUnits_of_units hunits]
  change some (Lexeme.text ((assemble units).map String.ofList), rest) = _
  rw [assemble_of_denoteText hvalue]

theorem Number.exists_cons {cs rest : List Char} (h : Number cs rest) :
    ∃ c more, cs = c :: more ∧ (c.isDigit = true ∨ c = '-') := by
  cases h with
  | plain hwhole _ _ =>
    obtain ⟨c, more, rfl, hc⟩ := hwhole.exists_digit
    exact ⟨c, more, rfl, .inl hc⟩
  | negative _ _ _ => exact ⟨_, _, rfl, .inr rfl⟩

/-- A number is one lexeme. -/
theorem lexemes_number {cs rest : List Char} (h : Number cs rest) (hrest : Ends rest) :
    lexemes cs = some .number :: lexemes rest := by
  have hrun := number_of_number h hrest
  obtain ⟨c, more, rfl, hc⟩ := h.exists_cons
  have hne : ∀ d : Char, d.isDigit = false → d ≠ '-' → c ≠ d := by
    rintro d hd hminus rfl
    rcases hc with hc | hc
    · exact Bool.noConfusion (hd.symm.trans hc)
    · exact hminus hc
  have hspace : isSpace c = false := by
    simp [isSpace, hne]
  refine lexemes_lexeme hspace ?_
  unfold lexeme?
  split
  case h_11 =>
    rw [hrun]
    rfl
  all_goals
    next heq => exact absurd (List.cons.inj heq).1 (hne _ (by decide) (by decide))

/-! ## Data -/

/-- Lexemes start with one that is not the given one. -/
def NotBy (closing : Lexeme) (lexemes : List (Option Lexeme)) : Prop :=
  ∃ first more, lexemes = first :: more ∧ first ≠ some closing

theorem NotBy.append {closing : Lexeme} {ls : List (Option Lexeme)} (h : NotBy closing ls)
    (rest : List (Option Lexeme)) : NotBy closing (ls ++ rest) := by
  obtain ⟨first, more, rfl, hne⟩ := h
  exact ⟨first, more ++ rest, rfl, hne⟩

/-- What lexemes at the start of others are read as. -/
def Phrase.Reads (lexemes : List (Option Lexeme)) : Phrase → Prop
  | .value data => NotBy .closeList lexemes ∧
    ∀ fuel rest, 2 * lexemes.length ≤ fuel → valueTo fuel (lexemes ++ rest) = (data, rest)
  | .elements inner => NotBy .closeList lexemes ∧
    ∀ fuel before rest, 2 * lexemes.length ≤ fuel →
      elementsTo fuel before (lexemes ++ rest) = (.list (before ++ inner) true, rest)
  | .members inner => NotBy .closeObject lexemes ∧
    ∀ fuel before rest, 2 * lexemes.length ≤ fuel →
      membersTo fuel before (lexemes ++ rest) = (.members (before ++ inner) true, rest)

/-- A value of one lexeme. -/
theorem reads_single {lexeme : Lexeme} {data : Data} (hclose : lexeme ≠ .closeList)
    (h : ∀ fuel rest, valueTo (fuel + 1) (some lexeme :: rest) = (data, rest)) :
    (Phrase.value data).Reads [some lexeme] := by
  refine ⟨⟨_, [], rfl, by simpa using hclose⟩, fun fuel rest hfuel => ?_⟩
  obtain ⟨fuel, rfl⟩ := Nat.exists_eq_add_of_le' (Nat.le_of_succ_le hfuel)
  exact h fuel rest

/-- After an opening bracket come the elements, unless the list is empty. -/
theorem valueTo_openList {fuel : Nat} {ls : List (Option Lexeme)}
    (h : NotBy .closeList ls) :
    valueTo (fuel + 1) (some .openList :: ls) = elementsTo fuel [] ls := by
  obtain ⟨first, more, rfl, hne⟩ := h
  rw [valueTo]
  rintro rest ⟨⟩
  exact hne rfl

/-- After an opening brace come the members, unless the object is empty. -/
theorem valueTo_openObject {fuel : Nat} {ls : List (Option Lexeme)}
    (h : NotBy .closeObject ls) :
    valueTo (fuel + 1) (some .openObject :: ls) = membersTo fuel [] ls := by
  obtain ⟨first, more, rfl, hne⟩ := h
  rw [valueTo]
  rintro rest ⟨⟩
  exact hne rfl

section Step

variable {fuel : Nat} {before : List Data} {entries : List (Option String × Data)} {data : Data}
  {key : Option String} {ls rest : List (Option Lexeme)}

/-- After an element and a comma come further elements. -/
theorem elementsTo_comma (h : valueTo fuel ls = (data, some .comma :: rest)) :
    elementsTo (fuel + 1) before ls = elementsTo fuel (before ++ [data]) rest := by
  rw [elementsTo, h]

/-- After an element and a closing bracket the list is complete. -/
theorem elementsTo_close (h : valueTo fuel ls = (data, some .closeList :: rest)) :
    elementsTo (fuel + 1) before ls = (.list (before ++ [data]) true, rest) := by
  rw [elementsTo, h]

/-- After a member and a comma come further members. -/
theorem membersTo_comma (h : valueTo fuel ls = (data, some .comma :: rest)) :
    membersTo (fuel + 1) entries (some (.text key) :: some .colon :: ls) =
      membersTo fuel (entries ++ [(key, data)]) rest := by
  rw [membersTo, h]

/-- After a member and a closing brace the object is complete. -/
theorem membersTo_close (h : valueTo fuel ls = (data, some .closeObject :: rest)) :
    membersTo (fuel + 1) entries (some (.text key) :: some .colon :: ls) =
      (.members (entries ++ [(key, data)]) true, rest) := by
  rw [membersTo, h]

end Step

/-- A number may stand in front of blanks that end at a mark of a collection. -/
theorem Blanks.ends {cs : List Char} {c : Char} {rest : List Char} (h : Blanks cs (c :: rest))
    (hc : c ∈ [',', ']', '\x7d']) : Ends cs := by
  cases h with
  | none =>
    rintro d ⟨⟩
    exact List.mem_append_right [' ', '\t', '\n', '\r'] hc
  | more hblank _ =>
    rintro d ⟨⟩
    exact List.mem_append_left [',', ']', '\x7d'] hblank

theorem Blanks.ends_nil {cs : List Char} (h : Blanks cs []) : Ends cs := by
  cases h with
  | none => nofun
  | more hblank _ =>
    rintro d ⟨⟩
    exact List.mem_append_left [',', ']', '\x7d'] hblank

/-- A phrase is read up to its end. -/
theorem Derives.reads {phrase : Phrase} {cs rest : List Char} (h : Derives phrase cs rest)
    (hrest : ∀ data, phrase = .value data → Ends rest) :
    ∃ ls, lexemes cs = ls ++ lexemes rest ∧ phrase.Reads ls := by
  -- Every phrase is a run of lexemes of its own, so that the lexemes of its parts are joined.
  induction h with
  | null => exact ⟨_, lexemes_lexeme rfl rfl, reads_single nofun fun _ _ => rfl⟩
  | yes => exact ⟨_, lexemes_lexeme rfl rfl, reads_single nofun fun _ _ => rfl⟩
  | no => exact ⟨_, lexemes_lexeme rfl rfl, reads_single nofun fun _ _ => rfl⟩
  | number hnumber =>
    exact ⟨_, lexemes_number hnumber (hrest _ rfl), reads_single nofun fun _ _ => rfl⟩
  | text hunits hvalue =>
    exact ⟨_, lexemes_text hunits hvalue, reads_single nofun fun _ _ => rfl⟩
  | emptyList hblanks =>
    refine ⟨[some .openList, some .closeList], ?_, ⟨_, _, rfl, nofun⟩, fun fuel rest hfuel => ?_⟩
    · rw [lexemes_lexeme rfl rfl, lexemes_blanks hblanks, lexemes_lexeme rfl rfl]
      rfl
    · obtain ⟨fuel, rfl⟩ := Nat.exists_eq_add_of_le' (Nat.le_of_succ_le hfuel)
      rfl
  | list _ ih =>
    obtain ⟨ls, hlexemes, hopens, hread⟩ := ih nofun
    refine ⟨some .openList :: ls, ?_, ⟨_, _, rfl, nofun⟩, fun fuel rest hfuel => ?_⟩
    · rw [lexemes_lexeme rfl rfl, hlexemes]
      rfl
    · rw [List.length_cons] at hfuel
      obtain ⟨fuel, rfl⟩ := Nat.exists_eq_add_of_le' (show 1 ≤ fuel by omega)
      rw [List.cons_append, valueTo_openList (hopens.append rest)]
      exact hread fuel [] rest (by omega)
  | emptyObject hblanks =>
    refine ⟨[some .openObject, some .closeObject], ?_, ⟨_, _, rfl, nofun⟩, fun fuel rest hfuel => ?_⟩
    · rw [lexemes_lexeme rfl rfl, lexemes_blanks hblanks, lexemes_lexeme rfl rfl]
      rfl
    · obtain ⟨fuel, rfl⟩ := Nat.exists_eq_add_of_le' (Nat.le_of_succ_le hfuel)
      rfl
  | object _ ih =>
    obtain ⟨ls, hlexemes, hopens, hread⟩ := ih nofun
    refine ⟨some .openObject :: ls, ?_, ⟨_, _, rfl, nofun⟩, fun fuel rest hfuel => ?_⟩
    · rw [lexemes_lexeme rfl rfl, hlexemes]
      rfl
    · rw [List.length_cons] at hfuel
      obtain ⟨fuel, rfl⟩ := Nat.exists_eq_add_of_le' (show 1 ≤ fuel by omega)
      rw [List.cons_append, valueTo_openObject (hopens.append rest)]
      exact hread fuel [] rest (by omega)
  | lastElement hbefore _ hafter ih =>
    obtain ⟨ls, hlexemes, hopens, hread⟩ := ih fun _ _ => hafter.ends (by decide)
    refine ⟨ls ++ [some .closeList], ?_, hopens.append _, fun fuel before rest hfuel => ?_⟩
    · rw [lexemes_blanks hbefore, hlexemes, lexemes_blanks hafter, lexemes_lexeme rfl rfl,
        List.append_assoc]
      rfl
    · rw [List.length_append, List.length_singleton] at hfuel
      obtain ⟨fuel, rfl⟩ := Nat.exists_eq_add_of_le' (show 1 ≤ fuel by omega)
      rw [List.append_assoc]
      exact elementsTo_close (hread fuel _ (by omega))
  | element hbefore _ hafter _ ih ih' =>
    obtain ⟨ls, hlexemes, hopens, hread⟩ := ih fun _ _ => hafter.ends (by decide)
    obtain ⟨ls', hlexemes', -, hread'⟩ := ih' nofun
    refine ⟨ls ++ some .comma :: ls', ?_, hopens.append _, fun fuel before rest hfuel => ?_⟩
    · rw [lexemes_blanks hbefore, hlexemes, lexemes_blanks hafter, lexemes_lexeme rfl rfl,
        hlexemes', List.append_assoc]
      rfl
    · rw [List.length_append, List.length_cons] at hfuel
      obtain ⟨fuel, rfl⟩ := Nat.exists_eq_add_of_le' (show 1 ≤ fuel by omega)
      rw [List.append_assoc, List.cons_append, elementsTo_comma (hread fuel _ (by omega)),
        hread' fuel _ rest (by omega), List.append_assoc]
      rfl
  | @lastMember _ _ _ key _ _ _ _ _ _ hbefore hunits hkey hcolon hblanks _ hafter ih =>
    obtain ⟨ls, hlexemes, -, hread⟩ := ih fun _ _ => hafter.ends (by decide)
    refine ⟨some (.text key) :: some .colon :: (ls ++ [some .closeObject]), ?_, ⟨_, _, rfl, nofun⟩,
      fun fuel before rest hfuel => ?_⟩
    · rw [lexemes_blanks hbefore, lexemes_text hunits hkey, lexemes_blanks hcolon,
        lexemes_lexeme rfl rfl, lexemes_blanks hblanks, hlexemes, lexemes_blanks hafter,
        lexemes_lexeme rfl rfl]
      simp
    · simp only [List.length_cons, List.length_append, List.length_nil] at hfuel
      obtain ⟨fuel, rfl⟩ := Nat.exists_eq_add_of_le' (show 1 ≤ fuel by omega)
      simp only [List.cons_append, List.append_assoc]
      exact membersTo_close (hread fuel _ (by omega))
  | @member _ _ _ key _ _ _ _ _ _ _ _ hbefore hunits hkey hcolon hblanks _ hafter _ ih ih' =>
    obtain ⟨ls, hlexemes, -, hread⟩ := ih fun _ _ => hafter.ends (by decide)
    obtain ⟨ls', hlexemes', -, hread'⟩ := ih' nofun
    refine ⟨some (.text key) :: some .colon :: (ls ++ some .comma :: ls'), ?_, ⟨_, _, rfl, nofun⟩,
      fun fuel before rest hfuel => ?_⟩
    · rw [lexemes_blanks hbefore, lexemes_text hunits hkey, lexemes_blanks hcolon,
        lexemes_lexeme rfl rfl, lexemes_blanks hblanks, hlexemes, lexemes_blanks hafter,
        lexemes_lexeme rfl rfl, hlexemes']
      simp
    · simp only [List.length_cons, List.length_append] at hfuel
      obtain ⟨fuel, rfl⟩ := Nat.exists_eq_add_of_le' (show 1 ≤ fuel by omega)
      simp only [List.cons_append, List.append_assoc]
      rw [membersTo_comma (hread fuel _ (by omega)), hread' fuel _ rest (by omega),
        List.append_assoc]
      rfl

def Phrase.IsWhole : Phrase → Prop
  | .value data => data.isWhole = true
  | .elements inner => ∀ element ∈ inner, element.isWhole = true
  | .members inner => ∀ entry ∈ inner, entry.2.isWhole = true

/-- What the grammar derives has no part missing. -/
theorem Derives.isWhole {phrase : Phrase} {cs rest : List Char} (h : Derives phrase cs rest) :
    phrase.IsWhole := by
  induction h with
  | list _ ih => exact isWhole_list_iff.mpr ih
  | object _ ih => exact isWhole_members_iff.mpr ih
  | lastElement _ _ _ ih => exact List.forall_mem_singleton.mpr ih
  | element _ _ _ _ ih ih' => exact List.forall_mem_cons.mpr ⟨ih, ih'⟩
  | lastMember _ _ _ _ _ _ _ ih => exact List.forall_mem_singleton.mpr ih
  | member _ _ _ _ _ _ _ _ ih ih' => exact List.forall_mem_cons.mpr ⟨ih, ih'⟩
  | _ => exact rfl

theorem isWhole_of_denotes {text : String} {data : Data} (h : Denotes text data) :
    data.isWhole = true := by
  obtain ⟨a, b, -, hvalue, -⟩ := h
  exact hvalue.isWhole

/-- A text of the grammar is read as the data that it denotes. -/
theorem read_of_denotes {text : String} {data : Data} (h : Denotes text data) :
    read text = (data, true) := by
  obtain ⟨a, b, hbefore, hvalue, hafter⟩ := h
  obtain ⟨ls, hlexemes, -, hread⟩ := hvalue.reads fun _ _ => hafter.ends_nil
  have hall : lexemes text.toList = ls ++ [] := by
    rw [lexemes_blanks hbefore, hlexemes, lexemes_blanks hafter]
    rfl
  unfold read
  simp only [hall]
  rw [hread _ [] (by simp [depthFor])]
  rfl

end ActionUnits.Record.Json
