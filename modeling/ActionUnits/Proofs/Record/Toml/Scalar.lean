import ActionUnits.Proofs.Text.Split
import ActionUnits.Proofs.Text.Word
import ActionUnits.Record.Toml.Scalar
import ActionUnits.Record.Toml.Text

/-! # Numbers, dates and truth values in TOML

The grammar of the values that are one run of characters, with what they denote.
Such a run is read up to its end.
-/

namespace ActionUnits.Record.Toml

/-! ## The grammar -/

/-- One or more digits, between which single underscores may stand. -/
inductive Digits (isDigit : Char → Bool) : List Char → List Char → List Char → Prop
  | last {c cs} : isDigit c = true → Digits isDigit (c :: cs) [c] cs
  | more {c cs digits rest} : isDigit c = true → Digits isDigit cs digits rest →
    Digits isDigit (c :: cs) (c :: digits) rest
  | apart {c cs digits rest} : isDigit c = true → Digits isDigit cs digits rest →
    Digits isDigit (c :: '_' :: cs) (c :: digits) rest

/-- The whole part of a decimal number, without a needless zero. -/
def Whole (cs digits rest : List Char) : Prop :=
  Digits Char.isDigit cs digits rest ∧ (digits.head? = some '0' → digits = ['0'])

/-- The exponent of a number, zero if there is none. -/
inductive Exponent : List Char → Int → Prop
  | none : Exponent [] 0
  | plain {e cs digits} : e ∈ ['e', 'E'] → Digits Char.isDigit cs digits [] →
    Exponent (e :: cs) (digitsValue 10 digits)
  | positive {e cs digits} : e ∈ ['e', 'E'] → Digits Char.isDigit cs digits [] →
    Exponent (e :: '+' :: cs) (digitsValue 10 digits)
  | negative {e cs digits} : e ∈ ['e', 'E'] → Digits Char.isDigit cs digits [] →
    Exponent (e :: '-' :: cs) (-digitsValue 10 digits)

/-- A decimal number without its sign, if it can be held. -/
inductive Decimal (negative : Bool) : List Char → Prop
  | integer {cs whole} : Whole cs whole [] → integerFits negative (digitsValue 10 whole) = true →
    Decimal negative cs
  | fraction {cs whole a fraction b exponent} : Whole cs whole ('.' :: a) →
    Digits Char.isDigit a fraction b → Exponent b exponent →
    isFinite (digitsValue 10 (whole ++ fraction)) (exponent - fraction.length) = true →
    Decimal negative cs
  | exponent {cs whole a exponent} : Whole cs whole a → a ≠ [] → Exponent a exponent →
    isFinite (digitsValue 10 whole) exponent = true → Decimal negative cs
  | infinite : Decimal negative ['i', 'n', 'f']
  | undefined : Decimal negative ['n', 'a', 'n']

/-- The letters of the bases other than ten, with the digits. -/
def bases : List (Char × Nat × (Char → Bool)) :=
  [('x', 16, fun c => (Text.Quoted.hexValue? c).isSome), ('o', 8, fun c => '0' ≤ c && c ≤ '7'),
    ('b', 2, fun c => c == '0' || c == '1')]

/-- A number that can be held. -/
inductive Number : List Char → Prop
  | plain {cs} : Decimal false cs → Number cs
  | positive {cs} : Decimal false cs → Number ('+' :: cs)
  | negative {cs} : Decimal true cs → Number ('-' :: cs)
  | based {letter base isDigit cs digits} : (letter, base, isDigit) ∈ bases →
    Digits isDigit cs digits [] → integerFits false (digitsValue base digits) = true →
    Number ('0' :: letter :: cs)

/-- So many digits with their value, and no more. -/
def Field (width : Nat) (cs : List Char) (value : Nat) (rest : List Char) : Prop :=
  ∃ digits, digits.length = width ∧ (∀ c ∈ digits, c.isDigit = true) ∧ cs = digits ++ rest ∧
    value = digitsValue 10 digits ∧ ∀ c ∈ rest.head?, c.isDigit = false

def Date (cs rest : List Char) : Prop :=
  ∃ year a month b day, Field 4 cs year ('-' :: a) ∧ Field 2 a month ('-' :: b) ∧
    Field 2 b day rest ∧ 1 ≤ month ∧ month ≤ 12 ∧ 1 ≤ day ∧ day ≤ daysIn year month

def Clock (cs rest : List Char) : Prop :=
  ∃ hour a minute, Field 2 cs hour (':' :: a) ∧ Field 2 a minute rest ∧ hour ≤ 23 ∧ minute ≤ 59

/-- A time of day. A minute may have a leap second. -/
inductive Time : List Char → List Char → Prop
  | clock {cs rest} : Clock cs rest → Time cs rest
  | seconds {cs a second rest} : Clock cs (':' :: a) → Field 2 a second rest → second ≤ 60 →
    Time cs rest
  | fraction {cs a second digits rest} : Clock cs (':' :: a) →
    Field 2 a second ('.' :: (digits ++ rest)) → second ≤ 60 → digits ≠ [] →
    (∀ c ∈ digits, c.isDigit = true) → (∀ c ∈ rest.head?, c.isDigit = false) → Time cs rest

/-- The offset of a time. -/
inductive Offset : List Char → Prop
  | none : Offset []
  | universal {z} : z ∈ ['Z', 'z'] → Offset [z]
  | hours {sign cs} : sign ∈ ['+', '-'] → Clock cs [] → Offset (sign :: cs)

/-- A date, a time, or both. -/
inductive Moment : List Char → Prop
  | date {cs} : Date cs [] → Moment cs
  | time {cs} : Time cs [] → Moment cs
  | both {cs divider a b} : Date cs (divider :: a) → divider ∈ ['T', 't', ' '] → Time a b →
    Offset b → Moment cs

/-- A value that is one run of characters, with its data. -/
inductive Scalar : List Char → Data → Prop
  | yes : Scalar ['t', 'r', 'u', 'e'] (.flag true)
  | no : Scalar ['f', 'a', 'l', 's', 'e'] (.flag false)
  | number {cs} : Number cs → Scalar cs .number
  | moment {cs} : Moment cs → Scalar cs (.members [] true)

/-! ## Digits -/

theorem Digits.exists_cons {isDigit : Char → Bool} {cs digits rest : List Char}
    (h : Digits isDigit cs digits rest) : ∃ c more, cs = c :: more ∧ isDigit c = true := by
  cases h with
  | last hc => exact ⟨_, _, rfl, hc⟩
  | more hc _ => exact ⟨_, _, rfl, hc⟩
  | apart hc _ => exact ⟨_, _, rfl, hc⟩

/-- The run of digits and underscores in front of what follows. -/
theorem Digits.run {isDigit : Char → Bool} {cs digits rest : List Char}
    (h : Digits isDigit cs digits rest) (hmark : isDigit '_' = false) :
    ∃ run, cs = run ++ rest ∧ (∀ c ∈ run, isDigit c || c == '_') ∧
      run.filter (· != '_') = digits ∧ ∃ piece pieces,
        Text.splitAll '_' run = piece :: pieces ∧ ∀ p ∈ piece :: pieces, p ≠ [] := by
  have hne : ∀ {c}, isDigit c = true → c ≠ '_' := by
    rintro c hc rfl
    exact Bool.noConfusion (hmark.symm.trans hc)
  induction h with
  | @last c cs hc =>
    refine ⟨[c], rfl, by simp [hc], by simp [hne hc], [c], [], ?_, by simp⟩
    rw [Text.splitAll_cons_of_ne (hne hc)]
    rfl
  | @more c cs digits rest hc _ ih =>
    obtain ⟨run, rfl, hrun, rfl, piece, pieces, hsplit, hpieces⟩ := ih
    refine ⟨c :: run, rfl, ?_, by simp [hne hc], c :: piece, pieces, ?_, ?_⟩
    · simpa [hc] using hrun
    · rw [Text.splitAll_cons_of_ne (hne hc), hsplit]
      rfl
    · intro p hp
      rcases List.mem_cons.mp hp with rfl | hp
      · exact List.cons_ne_nil _ _
      · exact hpieces p (List.mem_cons_of_mem _ hp)
  | @apart c cs digits rest hc _ ih =>
    obtain ⟨run, rfl, hrun, rfl, piece, pieces, hsplit, hpieces⟩ := ih
    refine ⟨c :: '_' :: run, rfl, ?_, by simp [hne hc], [c], piece :: pieces, ?_, ?_⟩
    · simpa [hc] using hrun
    · rw [Text.splitAll_cons_of_ne (hne hc), Text.splitAll_cons_self, hsplit]
      rfl
    · intro p hp
      rcases List.mem_cons.mp hp with rfl | hp
      · exact List.cons_ne_nil _ _
      · exact hpieces p hp

theorem takeWhile_append_of_head {α : Type} {test : α → Bool} {xs ys : List α}
    (hxs : ∀ x ∈ xs, test x = true) (hys : ∀ y ∈ ys.head?, test y = false) :
    (xs ++ ys).takeWhile test = xs := by
  rw [List.takeWhile_append_of_pos hxs]
  cases ys with
  | nil => simp
  | cons y ys => rw [List.takeWhile_cons_of_neg (by simp [hys y rfl]), List.append_nil]

/-- Digits are read up to something else, without the marks between them. -/
theorem digits?_of_digits {isDigit : Char → Bool} {cs digits rest : List Char}
    (h : Digits isDigit cs digits rest) (hmark : isDigit '_' = false)
    (hrest : ∀ c ∈ rest.head?, (isDigit c || c == '_') = false) :
    digits? isDigit cs = some (digits, rest) := by
  obtain ⟨run, rfl, hrun, rfl, piece, pieces, hsplit, hpieces⟩ := h.run hmark
  have htake : (run ++ rest).takeWhile (fun c => isDigit c || c == '_') = run :=
    takeWhile_append_of_head hrun hrest
  have hany : (Text.splitAll '_' run).any List.isEmpty = false := by
    rw [hsplit, List.any_eq_false]
    intro p hp
    simpa using hpieces p hp
  simp only [digits?, htake, hany, List.drop_left]
  rfl

/-! ## Numbers -/

/-- The digits of an exponent go up to its end. -/
theorem toEnd_of_digits {cs digits : List Char} (h : Digits Char.isDigit cs digits []) :
    exponent?.toEnd cs = some (digitsValue 10 digits) := by
  rw [exponent?.toEnd, digits?_of_digits h rfl nofun]

/-- An exponent is read with its sign. -/
theorem exponent?_of_exponent {cs : List Char} {exponent : Int} (h : Exponent cs exponent) :
    exponent? cs = some exponent := by
  cases h with
  | none => rfl
  | @plain e cs digits he hdigits =>
    obtain ⟨c, more, rfl, hc⟩ := hdigits.exists_cons
    have hletter : (e == 'e' || e == 'E') = true := by simpa using he
    rw [exponent?, if_pos hletter]
    · rw [toEnd_of_digits hdigits]
      rfl
    · rintro _ ⟨⟩
      cases hc
    · rintro _ ⟨⟩
      cases hc
  | @positive e cs digits he hdigits =>
    have hletter : (e == 'e' || e == 'E') = true := by simpa using he
    rw [exponent?, if_pos hletter]
    simp only [toEnd_of_digits hdigits]
    rfl
  | @negative e cs digits he hdigits =>
    have hletter : (e == 'e' || e == 'E') = true := by simpa using he
    rw [exponent?, if_pos hletter]
    simp only [toEnd_of_digits hdigits]
    rfl

/-- What starts with an exponent, or is empty, continues no digits. -/
theorem Exponent.head {cs : List Char} {exponent : Int} (h : Exponent cs exponent) :
    ∀ c ∈ cs.head?, c ∈ ['e', 'E'] := by
  cases h with
  | none => nofun
  | plain he _ => rintro c ⟨⟩; exact he
  | positive he _ => rintro c ⟨⟩; exact he
  | negative he _ => rintro c ⟨⟩; exact he

theorem digits?_of_head {cs digits rest : List Char} (h : Digits Char.isDigit cs digits rest)
    (hrest : ∀ c ∈ rest.head?, c ∈ ['.', 'e', 'E']) :
    digits? Char.isDigit cs = some (digits, rest) := by
  refine digits?_of_digits h rfl fun c hc => ?_
  have hmem := hrest c hc
  simp only [List.mem_cons, List.not_mem_nil, or_false] at hmem
  rcases hmem with rfl | rfl | rfl <;> rfl

/-- The whole part of a number has no needless zero. -/
theorem Whole.head {cs whole rest : List Char} (h : Whole cs whole rest) :
    (whole.head? == some '0' && decide (1 < whole.length)) = false := by
  rw [Bool.and_eq_false_iff]
  by_cases hzero : whole.head? = some '0'
  · right
    rw [h.2 hzero]
    rfl
  · left
    simpa using hzero

/-- A number without a base is a decimal one. -/
theorem unsigned_of_digits {negative : Bool} {cs digits rest : List Char}
    (h : Digits Char.isDigit cs digits rest) :
    number?.unsigned negative cs = decimal? negative cs := by
  obtain ⟨c, more, rfl, hc⟩ := h.exists_cons
  have hword : ¬ ((c :: more == ['i', 'n', 'f'] || c :: more == ['n', 'a', 'n']) = true) := by
    simp only [Bool.or_eq_true, beq_iff_eq, List.cons.injEq, not_or, not_and]
    constructor <;> (rintro rfl; cases hc)
  rw [number?.unsigned, if_neg hword]

/-- A decimal number is one without its sign. -/
theorem unsigned_of_decimal {negative : Bool} {cs : List Char} (h : Decimal negative cs) :
    number?.unsigned negative cs = some true := by
  cases h with
  | infinite => rfl
  | undefined => rfl
  | @integer _ whole hwhole hfits =>
    rw [unsigned_of_digits hwhole.1, decimal?, digits?_of_head hwhole.1 nofun]
    simp only [bind, Option.bind, hwhole.head, hfits]
    rfl
  | fraction hwhole hfraction hexponent hfinite =>
    rw [unsigned_of_digits hwhole.1, decimal?,
      digits?_of_head hwhole.1 (by rintro c ⟨⟩; exact List.mem_cons_self)]
    simp only [bind, Option.bind, hwhole.head,
      digits?_of_head hfraction fun c hc => List.mem_cons_of_mem _ (hexponent.head c hc),
      exponent?_of_exponent hexponent, hfinite]
    rfl
  | @exponent _ whole a _ hwhole hne hexponent hfinite =>
    have hhead := hexponent.head
    rw [unsigned_of_digits hwhole.1, decimal?,
      digits?_of_head hwhole.1 fun c hc => List.mem_cons_of_mem _ (hhead c hc)]
    simp only [bind, Option.bind, hwhole.head]
    cases a with
    | nil => exact absurd rfl hne
    | cons e a =>
      have he := hhead e rfl
      simp only [List.mem_cons, List.not_mem_nil, or_false] at he
      rcases he with rfl | rfl
      all_goals
        change (exponent? _).bind (fun exponent =>
          some (isFinite (digitsValue 10 whole) exponent)) = some true
        rw [exponent?_of_exponent hexponent]
        exact congrArg some hfinite

/-- After the digits at the start comes nothing but what continues a decimal number: no letter of a
base, and no mark of a date or a time. -/
def AfterDigits (cs : List Char) : Prop :=
  ∀ c ∈ (cs.dropWhile Char.isDigit).head?, c ∈ ['_', '.', 'e', 'E']

theorem Digits.afterDigits {cs digits rest : List Char} (h : Digits Char.isDigit cs digits rest)
    (hrest : ∀ c ∈ rest.head?, c ∈ ['.', 'e', 'E']) : AfterDigits cs := by
  unfold AfterDigits
  induction h with
  | @last c cs hc =>
    rw [List.dropWhile_cons_of_pos hc]
    cases cs with
    | nil => nofun
    | cons next cs =>
      have hmem := hrest next rfl
      have hnext : ¬ next.isDigit = true := by
        simp only [List.mem_cons, List.not_mem_nil, or_false] at hmem
        rcases hmem with rfl | rfl | rfl <;> decide
      rw [List.dropWhile_cons_of_neg hnext]
      rintro d ⟨⟩
      exact List.mem_cons_of_mem _ hmem
  | more hc _ ih =>
    rw [List.dropWhile_cons_of_pos hc]
    exact ih hrest
  | apart hc _ _ =>
    rw [List.dropWhile_cons_of_pos hc, List.dropWhile_cons_of_neg (by decide)]
    rintro d ⟨⟩
    exact List.mem_cons_self

/-- A decimal number is a word or starts with digits. -/
theorem Decimal.starts {negative : Bool} {cs : List Char} (h : Decimal negative cs) :
    cs ∈ [['i', 'n', 'f'], ['n', 'a', 'n']] ∨
      AfterDigits cs ∧ ∃ c more, cs = c :: more ∧ c.isDigit = true := by
  cases h with
  | infinite => exact .inl List.mem_cons_self
  | undefined => exact .inl (List.mem_cons_of_mem _ List.mem_cons_self)
  | integer hwhole _ => exact .inr ⟨hwhole.1.afterDigits nofun, hwhole.1.exists_cons⟩
  | fraction hwhole _ _ _ =>
    refine .inr ⟨hwhole.1.afterDigits ?_, hwhole.1.exists_cons⟩
    rintro c ⟨⟩
    exact List.mem_cons_self
  | exponent hwhole _ hexponent _ =>
    exact .inr ⟨hwhole.1.afterDigits fun c hc => List.mem_cons_of_mem _ (hexponent.head c hc),
      hwhole.1.exists_cons⟩

/-- Every number of the grammar is one. -/
theorem number?_of_number {cs : List Char} (h : Number cs) : number? cs = some true := by
  cases h with
  | positive h => exact unsigned_of_decimal h
  | negative h => exact unsigned_of_decimal h
  | plain h =>
    rcases h.starts with hword | ⟨hafter, c, more, rfl, hc⟩
    · simp only [List.mem_cons, List.not_mem_nil, or_false] at hword
      rcases hword with rfl | rfl <;> rfl
    -- The letter of a base would come right after a zero.
    have hbased : basedInteger? (c :: more) = none := by
      unfold AfterDigits at hafter
      rw [List.dropWhile_cons_of_pos hc] at hafter
      unfold basedInteger?
      split
      · next heq => cases heq; exact absurd (hafter 'x' rfl) (by decide)
      · next heq => cases heq; exact absurd (hafter 'o' rfl) (by decide)
      · next heq => cases heq; exact absurd (hafter 'b' rfl) (by decide)
      · rfl
    unfold number?
    split
    · next heq => cases heq; cases hc
    · next heq => cases heq; cases hc
    · rw [hbased, unsigned_of_decimal h]
      rfl
  | @based letter base isDigit cs digits hbase hdigits hfits =>
    simp only [bases, List.mem_cons, Prod.mk.injEq, List.not_mem_nil, or_false] at hbase
    have hwhole (hmark : isDigit '_' = false) : basedInteger?.whole base isDigit cs = some true := by
      rw [basedInteger?.whole, digits?_of_digits hdigits hmark nofun]
      exact congrArg some hfits
    rcases hbase with ⟨rfl, rfl, rfl⟩ | ⟨rfl, rfl, rfl⟩ | ⟨rfl, rfl, rfl⟩
    all_goals
      change (basedInteger?.whole _ _ cs).or _ = some true
      rw [hwhole rfl]
      rfl

/-! ## Dates and times -/

/-- A part of a date or time has as many digits as it must have. -/
theorem field?_of_field {width value : Nat} {cs rest : List Char} (h : Field width cs value rest) :
    field? width cs = some (value, rest) := by
  obtain ⟨digits, rfl, hdigits, rfl, rfl, hrest⟩ := h
  simp only [field?, takeWhile_append_of_head hdigits hrest, List.drop_left, beq_self_eq_true]
  rfl

/-- A run of digits has one length. -/
theorem field?_of_ne {width other value : Nat} {cs rest : List Char}
    (h : Field width cs value rest) (hne : width ≠ other) : field? other cs = none := by
  obtain ⟨digits, rfl, hdigits, rfl, rfl, hrest⟩ := h
  simp only [field?, takeWhile_append_of_head hdigits hrest]
  rw [if_neg (by simpa using hne)]

/-- A date is read up to its end. -/
theorem date?_of_date {cs rest : List Char} (h : Date cs rest) : date? cs = some rest := by
  obtain ⟨year, a, month, b, day, hyear, hmonth, hday, hfirst, hlast, hday', hdays⟩ := h
  simp [date?, field?_of_field hyear, mark?, field?_of_field hmonth, field?_of_field hday, hfirst,
    hlast, hday', hdays]

/-- The hours and minutes are read up to their end. -/
theorem clock?_of_clock {cs rest : List Char} (h : Clock cs rest) : clock? cs = some rest := by
  obtain ⟨hour, a, minute, hhour, hminute, hhours, hminutes⟩ := h
  simp [clock?, field?_of_field hhour, mark?, field?_of_field hminute, hhours, hminutes]

theorem fraction?_of_head {rest : List Char} (h : ∀ c ∈ rest.head?, c ∉ [':', '.']) :
    fraction? rest = some rest := by
  unfold fraction?
  split
  · exact absurd (h '.' rfl) (by decide)
  · rfl

theorem seconds?_of_head {rest : List Char} (h : ∀ c ∈ rest.head?, c ∉ [':', '.']) :
    seconds? rest = some rest := by
  unfold seconds?
  split
  · exact absurd (h ':' rfl) (by decide)
  · rfl

/-- A time is read up to its end, with seconds and their fraction if they are there. -/
theorem time?_of_time {cs rest : List Char} (h : Time cs rest)
    (hrest : ∀ c ∈ rest.head?, c ∉ [':', '.']) : time? cs = some rest := by
  cases h with
  | clock hclock =>
    rw [time?, clock?_of_clock hclock]
    exact seconds?_of_head hrest
  | seconds hclock hsecond hleap =>
    rw [time?, clock?_of_clock hclock]
    simp [seconds?, field?_of_field hsecond, hleap, fraction?_of_head hrest]
  | @fraction _ _ digits _ hclock hsecond hleap hne hdigits hend =>
    have htake := takeWhile_append_of_head hdigits hend
    have hdrop : (digits ++ rest).dropWhile Char.isDigit = rest := by
      have happend := List.takeWhile_append_dropWhile (p := Char.isDigit) (l := digits ++ rest)
      rw [htake] at happend
      exact List.append_cancel_left happend
    have hfraction : fraction? ('.' :: (digits ++ rest)) = some rest := by
      rw [fraction?, htake, hdrop, if_neg (by simpa using hne)]
    rw [time?, clock?_of_clock hclock]
    simp [seconds?, field?_of_field hsecond, hleap, hfraction]

theorem Time.exists_clock {cs rest : List Char} (h : Time cs rest) : ∃ rest, Clock cs rest := by
  cases h with
  | clock hclock => exact ⟨_, hclock⟩
  | seconds hclock _ _ => exact ⟨_, hclock⟩
  | fraction hclock _ _ _ _ _ => exact ⟨_, hclock⟩

/-- An offset from the universal time is one. -/
theorem isOffset_of_offset {cs : List Char} (h : Offset cs) : isOffset cs = true := by
  cases h with
  | none => rfl
  | universal hz =>
    simp only [List.mem_cons, List.not_mem_nil, or_false] at hz
    rcases hz with rfl | rfl <;> rfl
  | hours hsign hclock =>
    have hsign' := hsign
    simp only [List.mem_cons, List.not_mem_nil, or_false] at hsign
    rcases hsign with rfl | rfl <;> simp [isOffset, clock?_of_clock hclock]

theorem Offset.head {cs : List Char} (h : Offset cs) : ∀ c ∈ cs.head?, c ∉ [':', '.'] := by
  cases h with
  | none => nofun
  | universal hz =>
    simp only [List.mem_cons, List.not_mem_nil, or_false] at hz
    rcases hz with rfl | rfl <;> (rintro c ⟨⟩; decide)
  | hours hsign _ =>
    simp only [List.mem_cons, List.not_mem_nil, or_false] at hsign
    rcases hsign with rfl | rfl <;> (rintro c ⟨⟩; decide)

/-- Every date, every time and both together are moments. -/
theorem isMoment_of_moment {cs : List Char} (h : Moment cs) : isMoment cs = true := by
  cases h with
  | date hdate => rw [isMoment, date?_of_date hdate]
  | both hdate hdivider htime hoffset =>
    simp only [List.mem_cons, List.not_mem_nil, or_false] at hdivider
    rw [isMoment, date?_of_date hdate]
    simp [time?_of_time htime hoffset.head, isOffset_of_offset hoffset, or_assoc, hdivider]
  | time htime =>
    obtain ⟨rest, hour, a, minute, hhour, -⟩ := htime.exists_clock
    -- A date starts with four digits, a time with two.
    have hnone : date? cs = none := by
      rw [date?, field?_of_ne hhour (by decide)]
      rfl
    rw [isMoment, hnone]
    simp [time?_of_time htime nofun]

/-- What is no date and no time: digits, if there are any, are followed by none of their marks. -/
theorem isMoment_eq_false {cs : List Char} (h : (∀ c ∈ cs.head?, c.isDigit = false) ∨
    ∀ c ∈ (cs.dropWhile Char.isDigit).head?, c ∉ ['-', ':']) : isMoment cs = false := by
  -- The first part of a date or a time is all the digits at the start, and a mark follows it.
  have hmark : ∀ {width mark value rest}, mark ∈ ['-', ':'] →
      field? (width + 1) cs = some (value, rest) → mark? mark rest = none := by
    intro width mark value rest hmark hfield
    rw [field?] at hfield
    split at hfield
    · next hwidth =>
      cases hfield
      rcases h with hhead | hafter
      · cases cs with
        | nil => cases hwidth
        | cons c cs => simp [hhead c rfl] at hwidth
      · have hdrop : cs.drop (cs.takeWhile Char.isDigit).length = cs.dropWhile Char.isDigit := by
          have hleft : (cs.takeWhile Char.isDigit ++ cs.dropWhile Char.isDigit).drop
              (cs.takeWhile Char.isDigit).length = cs.dropWhile Char.isDigit := List.drop_left
          rwa [List.takeWhile_append_dropWhile] at hleft
        rw [← beq_iff_eq.mp hwidth, hdrop]
        cases hrest : cs.dropWhile Char.isDigit with
        | nil => rfl
        | cons c rest =>
          rw [hrest] at hafter
          have hne : c ≠ mark := by
            rintro rfl
            exact hafter c rfl hmark
          rw [mark?, if_neg (by simpa using hne)]
    · cases hfield
  have hdate : date? cs = none := by
    rw [date?]
    cases hfield : field? 4 cs with
    | none => rfl
    | some read =>
      have hnone := hmark List.mem_cons_self hfield
      simp [hnone]
  have htime : time? cs = none := by
    rw [time?, clock?]
    cases hfield : field? 2 cs with
    | none => rfl
    | some read =>
      have hnone := hmark (List.mem_cons_of_mem _ List.mem_cons_self) hfield
      simp [hnone]
  rw [isMoment, hdate, htime]
  rfl

/-! ## Runs -/

/-- A number is no date and no time. -/
theorem Number.isMoment {cs : List Char} (h : Number cs) : isMoment cs = false := by
  refine isMoment_eq_false ?_
  cases h with
  | plain h =>
    rcases h.starts with hword | ⟨hafter, -⟩
    · simp only [List.mem_cons, List.not_mem_nil, or_false] at hword
      rcases hword with rfl | rfl <;> exact .inl (by rintro c ⟨⟩; rfl)
    · right
      intro c hc
      have hmem := hafter c hc
      simp only [List.mem_cons, List.not_mem_nil, or_false] at hmem
      rcases hmem with rfl | rfl | rfl | rfl <;> decide
  | positive _ => exact .inl (by rintro c ⟨⟩; rfl)
  | negative _ => exact .inl (by rintro c ⟨⟩; rfl)
  | based hbase _ _ =>
    simp only [bases, List.mem_cons, Prod.mk.injEq, List.not_mem_nil, or_false] at hbase
    rcases hbase with ⟨rfl, -⟩ | ⟨rfl, -⟩ | ⟨rfl, -⟩
    all_goals exact .inr (by rintro c ⟨⟩; decide)

/-- The data of a run of characters is what the grammar says. -/
theorem runData?_of_scalar {cs : List Char} {data : Data} (h : Scalar cs data) :
    runData? cs = some data := by
  cases h with
  | yes => rfl
  | no => rfl
  | number h =>
    have hword : ∀ word, number? word ≠ some true → (cs == word) = false := by
      intro word hne
      refine beq_false_of_ne ?_
      rintro rfl
      exact hne (number?_of_number h)
    rw [runData?, hword _ (by decide), hword _ (by decide), h.isMoment, number?_of_number h]
    rfl
  | moment h =>
    have hmoment := isMoment_of_moment h
    have hword : ∀ word, Toml.isMoment word = false → (cs == word) = false := by
      intro word hne
      refine beq_false_of_ne ?_
      rintro rfl
      exact Bool.noConfusion (hne.symm.trans hmoment)
    rw [runData?, hword _ rfl, hword _ rfl, hmoment]
    rfl

/-- What may follow a value: the end of its line, or the next part of a collection. -/
def Ends (rest : List Char) : Prop :=
  ∀ c ∈ (rest.dropWhile isSpace).head?, c ∈ [',', ']', '\x7d', '\n', '\r', '#']

/-- A value ends in front of a space, a mark, a line break or a comment. -/
theorem Ends.head {rest : List Char} (h : Ends rest) :
    ∀ c ∈ rest.head?, c ∈ [' ', '\t', ',', ']', '\x7d', '\n', '\r', '#'] := by
  cases rest with
  | nil => nofun
  | cons c rest =>
    rintro d ⟨⟩
    by_cases hspace : isSpace c = true
    · rw [isSpace, Bool.or_eq_true, beq_iff_eq, beq_iff_eq] at hspace
      rcases hspace with rfl | rfl <;> decide
    · rw [Ends, List.dropWhile_cons_of_neg hspace] at h
      exact List.mem_append_right [' ', '\t'] (h c rfl)

/-- All characters may stand in a run. -/
def IsRun (cs : List Char) : Prop :=
  ∀ c ∈ cs, isRunChar c = true

@[simp]
theorem isRun_cons {c : Char} {cs : List Char} :
    IsRun (c :: cs) ↔ isRunChar c = true ∧ IsRun cs :=
  List.forall_mem_cons

theorem isRun_nil : IsRun [] := nofun

theorem isRunChar_of_isDigit {c : Char} (h : c.isDigit = true) : isRunChar c = true := by
  simp [isRunChar, Char.isAlphanum, h]

/-- Runs may be put together. -/
theorem IsRun.append {cs ds : List Char} (hcs : IsRun cs) (hds : IsRun ds) : IsRun (cs ++ ds) :=
  List.forall_mem_append.mpr ⟨hcs, hds⟩

theorem isRun_of_digits {digits : List Char} (h : ∀ c ∈ digits, c.isDigit = true) : IsRun digits :=
  fun c hc => isRunChar_of_isDigit (h c hc)

/-- Digits and the marks between them are a run. -/
theorem Digits.isRun {isDigit : Char → Bool} {cs digits rest : List Char}
    (h : Digits isDigit cs digits rest) (hdigit : ∀ c, isDigit c = true → isRunChar c = true)
    (hrest : IsRun rest) : IsRun cs := by
  induction h with
  | last hc => exact isRun_cons.mpr ⟨hdigit _ hc, hrest⟩
  | more hc _ ih => exact isRun_cons.mpr ⟨hdigit _ hc, ih hrest⟩
  | apart hc _ ih => exact isRun_cons.mpr ⟨hdigit _ hc, isRun_cons.mpr ⟨rfl, ih hrest⟩⟩

theorem Exponent.isRun {cs : List Char} {exponent : Int} (h : Exponent cs exponent) : IsRun cs := by
  have hletter : ∀ {e}, e ∈ ['e', 'E'] → isRunChar e = true := by
    intro e he
    simp only [List.mem_cons, List.not_mem_nil, or_false] at he
    rcases he with rfl | rfl <;> rfl
  have hdigits : ∀ {cs digits}, Digits Char.isDigit cs digits [] → IsRun cs :=
    fun h => h.isRun (fun _ => isRunChar_of_isDigit) isRun_nil
  cases h with
  | none => exact isRun_nil
  | plain he h => exact isRun_cons.mpr ⟨hletter he, hdigits h⟩
  | positive he h => exact isRun_cons.mpr ⟨hletter he, isRun_cons.mpr ⟨rfl, hdigits h⟩⟩
  | negative he h => exact isRun_cons.mpr ⟨hletter he, isRun_cons.mpr ⟨rfl, hdigits h⟩⟩

/-- A decimal number is a run. -/
theorem Decimal.isRun {negative : Bool} {cs : List Char} (h : Decimal negative cs) : IsRun cs := by
  have hdigit : ∀ c : Char, c.isDigit = true → isRunChar c = true := fun _ => isRunChar_of_isDigit
  cases h with
  | infinite => simp [isRun_nil]; decide
  | undefined => simp [isRun_nil]; decide
  | integer hwhole _ => exact hwhole.1.isRun hdigit isRun_nil
  | fraction hwhole hfraction hexponent _ =>
    exact hwhole.1.isRun hdigit (isRun_cons.mpr ⟨rfl, hfraction.isRun hdigit hexponent.isRun⟩)
  | exponent hwhole _ hexponent _ => exact hwhole.1.isRun hdigit hexponent.isRun

theorem isAlphanum_iff {c : Char} : c.isAlphanum = true ↔ 48 ≤ c.toNat ∧ c.toNat ≤ 57 ∨
    65 ≤ c.toNat ∧ c.toNat ≤ 90 ∨ 97 ≤ c.toNat ∧ c.toNat ≤ 122 := by
  have hdigit : c.isDigit = true ↔ 48 ≤ c.toNat ∧ c.toNat ≤ 57 :=
    Bool.and_eq_true_iff.trans (and_congr decide_eq_true_iff decide_eq_true_iff)
  rw [Char.isAlphanum, Bool.or_eq_true, ActionUnits.Text.isAlpha_eq, Bool.or_eq_true,
    ActionUnits.Text.isUpper_iff, ActionUnits.Text.isLower_iff, hdigit]
  omega

theorem isAlphanum_of_hexValue? {c : Char} (h : (Text.Quoted.hexValue? c).isSome = true) :
    c.isAlphanum = true := by
  rw [isAlphanum_iff]
  unfold Text.Quoted.hexValue? at h
  simp only [Bool.and_eq_true, decide_eq_true_eq, Char.le_def, UInt32.le_iff_toNat_le] at h
  split at h
  · next hrange =>
    simp at hrange
    omega
  · split at h
    · next hrange =>
      simp at hrange
      omega
    · split at h
      · next hrange =>
        simp at hrange
        omega
      · cases h

/-- The digits of every base may stand in a run. -/
theorem isRunChar_of_base {letter c : Char} {base : Nat} {isDigit : Char → Bool}
    (h : (letter, base, isDigit) ∈ bases) (hc : isDigit c = true) : isRunChar c = true := by
  have halphanum : c.isAlphanum = true := by
    simp only [bases, List.mem_cons, Prod.mk.injEq, List.not_mem_nil, or_false] at h
    rcases h with ⟨-, -, rfl⟩ | ⟨-, -, rfl⟩ | ⟨-, -, rfl⟩
    · exact isAlphanum_of_hexValue? hc
    · rw [isAlphanum_iff]
      simp only [Bool.and_eq_true, decide_eq_true_eq, Char.le_def, UInt32.le_iff_toNat_le] at hc
      simp at hc
      omega
    · rw [Bool.or_eq_true, beq_iff_eq, beq_iff_eq] at hc
      rcases hc with rfl | rfl <;> rfl
  simp [isRunChar, halphanum]

/-- A number is a run. -/
theorem Number.isRun {cs : List Char} (h : Number cs) : IsRun cs := by
  cases h with
  | plain h => exact h.isRun
  | positive h => exact isRun_cons.mpr ⟨rfl, h.isRun⟩
  | negative h => exact isRun_cons.mpr ⟨rfl, h.isRun⟩
  | @based letter _ _ _ _ hbase hdigits _ =>
    have hletter : isRunChar letter = true := by
      simp only [bases, List.mem_cons, Prod.mk.injEq, List.not_mem_nil, or_false] at hbase
      rcases hbase with ⟨rfl, -⟩ | ⟨rfl, -⟩ | ⟨rfl, -⟩ <;> rfl
    exact isRun_cons.mpr ⟨rfl, isRun_cons.mpr ⟨hletter,
      hdigits.isRun (fun _ => isRunChar_of_base hbase) isRun_nil⟩⟩

theorem Field.isRun {width value : Nat} {cs rest : List Char} (h : Field width cs value rest)
    (hrest : IsRun rest) : IsRun cs := by
  obtain ⟨digits, -, hdigits, rfl, -, -⟩ := h
  exact (isRun_of_digits hdigits).append hrest

theorem Clock.isRun {cs rest : List Char} (h : Clock cs rest) (hrest : IsRun rest) : IsRun cs := by
  obtain ⟨hour, a, minute, hhour, hminute, -⟩ := h
  exact hhour.isRun (isRun_cons.mpr ⟨rfl, hminute.isRun hrest⟩)

/-- A time is a run. -/
theorem Time.isRun {cs rest : List Char} (h : Time cs rest) (hrest : IsRun rest) : IsRun cs := by
  cases h with
  | clock h => exact h.isRun hrest
  | seconds h hsecond _ => exact h.isRun (isRun_cons.mpr ⟨rfl, hsecond.isRun hrest⟩)
  | fraction h hsecond _ _ hdigits _ =>
    exact h.isRun (isRun_cons.mpr ⟨rfl, hsecond.isRun
      (isRun_cons.mpr ⟨rfl, (isRun_of_digits hdigits).append hrest⟩)⟩)

theorem Offset.isRun {cs : List Char} (h : Offset cs) : IsRun cs := by
  cases h with
  | none => exact isRun_nil
  | universal hz =>
    simp only [List.mem_cons, List.not_mem_nil, or_false] at hz
    rcases hz with rfl | rfl <;> exact isRun_cons.mpr ⟨rfl, isRun_nil⟩
  | hours hsign h =>
    simp only [List.mem_cons, List.not_mem_nil, or_false] at hsign
    rcases hsign with rfl | rfl <;> exact isRun_cons.mpr ⟨rfl, h.isRun isRun_nil⟩

/-- What a part of a date reads does not depend on what follows, if that is no digit. -/
theorem Field.split {width value : Nat} {cs rest : List Char} (h : Field width cs value rest) :
    ∃ digits, cs = digits ++ rest ∧ IsRun digits ∧ digits.length = width ∧
      (∀ c ∈ digits, c.isDigit = true) ∧ ∀ rest', (∀ c ∈ rest'.head?, c.isDigit = false) →
        Field width (digits ++ rest') value rest' := by
  obtain ⟨digits, hwidth, hdigits, rfl, hvalue, -⟩ := h
  exact ⟨digits, rfl, isRun_of_digits hdigits, hwidth, hdigits,
    fun rest' hrest' => ⟨digits, hwidth, hdigits, rfl, hvalue, hrest'⟩⟩

/-- The date in front of a time stands for itself. -/
theorem Date.split {cs rest : List Char} (h : Date cs rest) :
    ∃ date, cs = date ++ rest ∧ IsRun date ∧ Date date [] := by
  obtain ⟨year, a, month, b, day, hyear, hmonth, hday, hvalid⟩ := h
  obtain ⟨y, rfl, hy, -, -, hyear'⟩ := hyear.split
  obtain ⟨m, rfl, hm, -, -, hmonth'⟩ := hmonth.split
  obtain ⟨d, rfl, hd, -, -, hday'⟩ := hday.split
  refine ⟨y ++ '-' :: (m ++ '-' :: d), by simp, ?_, year, m ++ '-' :: d, month, d, day,
    hyear' _ (by rintro c ⟨⟩; rfl), hmonth' _ (by rintro c ⟨⟩; rfl), ?_, hvalid⟩
  · exact hy.append (isRun_cons.mpr ⟨rfl, hm.append (isRun_cons.mpr ⟨rfl, hd⟩)⟩)
  · have hend := hday' [] nofun
    rwa [List.append_nil] at hend

theorem Date.ne_nil {cs rest : List Char} (h : Date cs rest) : cs ≠ [] := by
  obtain ⟨year, a, -, -, -, hyear, -⟩ := h
  obtain ⟨digits, rfl, -⟩ := hyear.split
  simp

theorem Clock.exists_digit {cs rest : List Char} (h : Clock cs rest) :
    ∃ c more, cs = c :: more ∧ c.isDigit = true := by
  obtain ⟨hour, a, minute, hhour, -⟩ := h
  obtain ⟨digits, rfl, -, hwidth, hdigits, -⟩ := hhour.split
  match digits with
  | c :: digits => exact ⟨c, _, rfl, hdigits c List.mem_cons_self⟩

theorem Decimal.ne_nil {negative : Bool} {cs : List Char} (h : Decimal negative cs) : cs ≠ [] := by
  rcases h.starts with hword | ⟨-, c, more, rfl, -⟩
  · rintro rfl
    exact absurd hword (by decide)
  · exact List.cons_ne_nil _ _

/-- A run is one word, or a date and a time with a space between them. -/
theorem Scalar.split {cs : List Char} {data : Data} (h : Scalar cs data) :
    IsRun cs ∧ cs ≠ [] ∨ ∃ date c time, cs = date ++ ' ' :: c :: time ∧ IsRun date ∧
      IsRun (c :: time) ∧ c.isDigit = true ∧ date? date = some [] := by
  cases h with
  | yes => exact .inl ⟨by simp [isRun_nil]; decide, List.cons_ne_nil _ _⟩
  | no => exact .inl ⟨by simp [isRun_nil]; decide, List.cons_ne_nil _ _⟩
  | number h =>
    refine .inl ⟨h.isRun, ?_⟩
    cases h with
    | plain h => exact h.ne_nil
    | positive h => exact List.cons_ne_nil _ _
    | negative h => exact List.cons_ne_nil _ _
    | based _ _ _ => exact List.cons_ne_nil _ _
  | moment h =>
    cases h with
    | date hdate =>
      obtain ⟨date, rfl, hrun, -⟩ := hdate.split
      exact .inl ⟨by rwa [List.append_nil], hdate.ne_nil⟩
    | time htime =>
      obtain ⟨rest, hclock⟩ := htime.exists_clock
      obtain ⟨c, more, rfl, -⟩ := hclock.exists_digit
      exact .inl ⟨htime.isRun isRun_nil, List.cons_ne_nil _ _⟩
    | @both divider _ _ hdate hdivider htime hoffset =>
      have hrun := htime.isRun hoffset.isRun
      obtain ⟨date, rfl, hdaterun, hdate'⟩ := hdate.split
      simp only [List.mem_cons, List.not_mem_nil, or_false] at hdivider
      rcases or_assoc.mpr hdivider with hdivider | rfl
      · have hletter : isRunChar divider = true := by
          rcases hdivider with rfl | rfl <;> rfl
        exact .inl ⟨hdaterun.append (isRun_cons.mpr ⟨hletter, hrun⟩), hdate.ne_nil⟩
      · obtain ⟨rest, hclock⟩ := htime.exists_clock
        obtain ⟨c, more, rfl, hc⟩ := hclock.exists_digit
        exact .inr ⟨date, c, more, rfl, hdaterun, hrun, hc, date?_of_date hdate'⟩

/-- A value that is no text or collection starts with a character of a run. -/
theorem Scalar.exists_cons {cs : List Char} {data : Data} (h : Scalar cs data) :
    ∃ c more, cs = c :: more ∧ isRunChar c = true := by
  rcases h.split with ⟨hrun, hne⟩ | ⟨date, c, time, rfl, hdate, -, -, hread⟩
  · obtain ⟨c, more, rfl⟩ := List.exists_cons_of_ne_nil hne
    exact ⟨c, more, rfl, (isRun_cons.mp hrun).1⟩
  · cases date with
    | nil => cases hread
    | cons d date => exact ⟨d, _, rfl, (isRun_cons.mp hdate).1⟩

/-- A value is read as one run. -/
theorem scalar?_of_scalar {cs rest : List Char} {data : Data} (h : Scalar cs data)
    (hrest : Ends rest) : scalar? (cs ++ rest) = some (data, rest) := by
  have hnotRun : ∀ c ∈ rest.head?, isRunChar c = false := by
    intro c hc
    have hmem := hrest.head c hc
    simp only [List.mem_cons, List.not_mem_nil, or_false] at hmem
    rcases hmem with rfl | rfl | rfl | rfl | rfl | rfl | rfl | rfl <;> rfl
  have hrun : run (cs ++ rest) = cs := by
    rcases h.split with ⟨hcs, -⟩ | ⟨date, c, time, rfl, hdate, htime, hc, hread⟩
    · simp only [run, takeWhile_append_of_head hcs hnotRun, List.drop_left]
      split
      -- A space comes next, but no time behind it.
      · next c more =>
        have hdigit : c.isDigit = false := by
          by_cases hspace : isSpace c = true
          · rw [isSpace, Bool.or_eq_true, beq_iff_eq, beq_iff_eq] at hspace
            rcases hspace with rfl | rfl <;> rfl
          · rw [Ends, List.dropWhile_cons_of_pos rfl, List.dropWhile_cons_of_neg hspace] at hrest
            have hmem := hrest c rfl
            simp only [List.mem_cons, List.not_mem_nil, or_false] at hmem
            rcases hmem with rfl | rfl | rfl | rfl | rfl | rfl <;> rfl
        rw [hdigit]
        rfl
      · rfl
    · have hfirst : (date ++ ' ' :: c :: time ++ rest).takeWhile isRunChar = date := by
        rw [List.append_assoc]
        exact takeWhile_append_of_head hdate (by rintro d ⟨⟩; rfl)
      have hdrop : (date ++ ' ' :: c :: time ++ rest).drop date.length =
          ' ' :: c :: (time ++ rest) := by
        rw [List.append_assoc, List.drop_left]
        rfl
      have hsecond : (c :: (time ++ rest)).takeWhile isRunChar = c :: time :=
        takeWhile_append_of_head htime hnotRun
      simp only [run, hfirst, hdrop, hsecond, hc, hread]
      rfl
  simp only [scalar?, hrun, runData?_of_scalar h, List.drop_left]
  rfl

theorem isWhole_of_scalar {cs : List Char} {data : Data} (h : Scalar cs data) :
    data.isWhole = true := by
  cases h <;> rfl

end ActionUnits.Record.Toml
