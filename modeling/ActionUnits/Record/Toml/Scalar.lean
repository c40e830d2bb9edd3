import ActionUnits.Record.Data
import ActionUnits.Text.Blank
import ActionUnits.Text.Quoted

/-!
# Numbers, dates and words of TOML

A value that is neither a text nor a collection is one run of characters. Of numbers only one thing
matters to the records: whether a number is so large that it cannot be held.
-/

namespace ActionUnits.Record.Toml

/-! ## Numbers -/

/-- Reads digits, between which single underscores may stand: the digits and what follows. -/
def digits? (isDigit : Char → Bool) (cs : List Char) : Option (List Char × List Char) :=
  let run := cs.takeWhile fun c => isDigit c || c == '_'
  if (Text.splitAll '_' run).any List.isEmpty then none
  else some (run.filter (· != '_'), cs.drop run.length)

/-- The number that digits denote. -/
def digitsValue (base : Nat) (digits : List Char) : Nat :=
  digits.foldl (fun value c => value * base + (Text.Quoted.hexValue? c).getD 0) 0

/-- Whether an integer can be held: 128 bits are at hand, for numbers from zero on without a sign
bit. -/
def integerFits (negative : Bool) (value : Nat) : Bool :=
  if negative then value ≤ Nat.pow 2 127 else value < Nat.pow 2 128

/-- Whether `value * 10 ^ exponent` is below the least number that rounds to infinity in 64 bits.
That number has 309 digits. -/
def isFinite (value : Nat) (exponent : Int) : Bool :=
  let size := (Nat.toDigits 10 value).length + exponent
  let bound := Nat.pow 2 1024 - Nat.pow 2 970
  if value == 0 || size < 309 then true
  else if 309 < size then false
  else value * Nat.pow 10 exponent.toNat < bound * Nat.pow 10 (-exponent).toNat

/-- The digits of an integer in another base than ten, which has no sign: whether it fits. -/
def basedInteger? : List Char → Option Bool
  | '0' :: 'x' :: cs => whole 16 (fun c => (Text.Quoted.hexValue? c).isSome) cs
  | '0' :: 'o' :: cs => whole 8 (fun c => '0' ≤ c && c ≤ '7') cs
  | '0' :: 'b' :: cs => whole 2 (fun c => c == '0' || c == '1') cs
  | _ => none
where
  /-- Reads digits to the end. -/
  whole (base : Nat) (isDigit : Char → Bool) (cs : List Char) : Option Bool :=
    match digits? isDigit cs with
    | some (digits, []) => some (integerFits false (digitsValue base digits))
    | _ => none

/-- Reads the exponent of a number up to the end: its value, zero if there is none. -/
def exponent? : List Char → Option Int
  | [] => some 0
  | e :: cs =>
    if e == 'e' || e == 'E' then
      match cs with
      | '-' :: cs => (toEnd cs).map fun n => -(n : Int)
      | '+' :: cs => (toEnd cs).map fun n => (n : Int)
      | cs => (toEnd cs).map fun n => (n : Int)
    else none
where
  /-- Reads a number to the end. -/
  toEnd (cs : List Char) : Option Nat :=
    match digits? Char.isDigit cs with
    | some (digits, []) => some (digitsValue 10 digits)
    | _ => none

/-- A number in base ten without its sign: whether it fits. The whole part has no needless zero. -/
def decimal? (negative : Bool) (cs : List Char) : Option Bool := do
  let (whole, rest) ← digits? Char.isDigit cs
  if whole.head? == some '0' && 1 < whole.length then none
  else match rest with
    | [] => return integerFits negative (digitsValue 10 whole)
    | '.' :: rest =>
      let (fraction, rest) ← digits? Char.isDigit rest
      let exponent ← exponent? rest
      return isFinite (digitsValue 10 (whole ++ fraction)) (exponent - fraction.length)
    | rest =>
      let exponent ← exponent? rest
      return isFinite (digitsValue 10 whole) exponent

/-- A number with or without a sign: whether it fits. -/
def number? (cs : List Char) : Option Bool :=
  match cs with
  | '+' :: cs => unsigned false cs
  | '-' :: cs => unsigned true cs
  | cs => (basedInteger? cs).or (unsigned false cs)
where
  /-- What may follow a sign. -/
  unsigned (negative : Bool) (cs : List Char) : Option Bool :=
    if cs == ['i', 'n', 'f'] || cs == ['n', 'a', 'n'] then some true else decimal? negative cs

/-! ## Dates and times -/

/-- Reads so many digits: their value and what follows, which is no digit. -/
def field? (width : Nat) (cs : List Char) : Option (Nat × List Char) :=
  let run := cs.takeWhile Char.isDigit
  if run.length == width then some (digitsValue 10 run, cs.drop width) else none

def mark? (mark : Char) : List Char → Option (List Char)
  | [] => none
  | c :: cs => if c == mark then some cs else none

def daysIn (year month : Nat) : Nat :=
  if month == 2 then
    if year % 4 == 0 && (year % 100 != 0 || year % 400 == 0) then 29 else 28
  else if month == 4 || month == 6 || month == 9 || month == 11 then 30
  else 31

/-- Reads a date: what follows. -/
def date? (cs : List Char) : Option (List Char) := do
  let (year, rest) ← field? 4 cs
  let (month, rest) ← field? 2 (← mark? '-' rest)
  let (day, rest) ← field? 2 (← mark? '-' rest)
  if 1 ≤ month && month ≤ 12 && 1 ≤ day && day ≤ daysIn year month then some rest else none

/-- Reads the fraction of a second, if there is one: what follows. -/
def fraction? : List Char → Option (List Char)
  | '.' :: cs => if (cs.takeWhile Char.isDigit).isEmpty then none else cs.dropWhile Char.isDigit
  | cs => some cs

/-- Reads the seconds of a time, if there are some: what follows. A minute may have a leap second. -/
def seconds? : List Char → Option (List Char)
  | ':' :: cs => do
    let (second, rest) ← field? 2 cs
    if second ≤ 60 then fraction? rest else none
  | cs => some cs

/-- Reads hours and minutes: what follows. -/
def clock? (cs : List Char) : Option (List Char) := do
  let (hour, rest) ← field? 2 cs
  let (minute, rest) ← field? 2 (← mark? ':' rest)
  if hour ≤ 23 && minute ≤ 59 then some rest else none

/-- Reads a time of day: what follows. -/
def time? (cs : List Char) : Option (List Char) := do
  seconds? (← clock? cs)

/-- Whether a text is the offset of a time, or is empty. -/
def isOffset : List Char → Bool
  | [] => true
  | c :: cs =>
    if c == 'Z' || c == 'z' then cs.isEmpty
    else (c == '+' || c == '-') && clock? cs == some []

/-- Whether a text is a date, a time, or both. -/
def isMoment (cs : List Char) : Bool :=
  match date? cs with
  | some [] => true
  | some (c :: rest) => (c == 'T' || c == 't' || c == ' ') && (time? rest).any isOffset
  | none => time? cs == some []

/-! ## Runs -/

/-- Whether a character may stand in a number, a date or a word. -/
def isRunChar (c : Char) : Bool :=
  c.isAlphanum || c == '_' || c == '+' || c == '-' || c == '.' || c == ':'

/-- The run at the start of a text. A date and a time may be divided by a space. -/
def run (cs : List Char) : List Char :=
  let first := cs.takeWhile isRunChar
  match cs.drop first.length with
  | ' ' :: c :: rest =>
    if c.isDigit && date? first == some [] then first ++ ' ' :: (c :: rest).takeWhile isRunChar
    else first
  | _ => first

/-- The data of a run. A date has no members that a record could want. -/
def runData? (cs : List Char) : Option Data :=
  if cs == ['t', 'r', 'u', 'e'] then some (.flag true)
  else if cs == ['f', 'a', 'l', 's', 'e'] then some (.flag false)
  else if isMoment cs then some (.members [] true)
  else (number? cs).map fun fits => if fits then .number else .broken

/-- Reads a number, a date or a word. -/
def scalar? (cs : List Char) : Option (Data × List Char) :=
  let run := run cs
  (runData? run).map fun data => (data, cs.drop run.length)

end ActionUnits.Record.Toml
