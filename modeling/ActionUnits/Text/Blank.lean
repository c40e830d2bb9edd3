/-!
# Blank characters

The characters with the Unicode property `White_Space`, and the trimming of texts by them.
-/

namespace ActionUnits.Text

/-- Whether a character has the property `White_Space`. -/
def isBlank (c : Char) : Bool :=
  let n := c.toNat
  n == 0x20 || (0x9 ≤ n && n ≤ 0xd) || n == 0x85 || n == 0xa0 || n == 0x1680 ||
    (0x2000 ≤ n && n ≤ 0x200a) || n == 0x2028 || n == 0x2029 || n == 0x202f || n == 0x205f ||
    n == 0x3000

/-- Drops the trailing elements that satisfy a test. -/
def dropTrailing {α : Type} (test : α → Bool) (xs : List α) : List α :=
  (xs.reverse.dropWhile test).reverse

def trimEnd (cs : List Char) : List Char :=
  dropTrailing isBlank cs

def trim (cs : List Char) : List Char :=
  trimEnd (cs.dropWhile isBlank)

/-- Drops blanks at both ends of a text. -/
def trimText (s : String) : String :=
  String.ofList (trim s.toList)

/-- Splits at every occurrence of a separator; there is always at least one piece. -/
def splitAll {α : Type} [BEq α] (sep : α) : List α → List (List α)
  | [] => [[]]
  | x :: xs =>
    match splitAll sep xs with
    | [] => [[x]]
    | piece :: pieces => if x == sep then [] :: piece :: pieces else (x :: piece) :: pieces

/-- The lines of a text: pieces that end at a line feed, less one carriage return before it. A line
feed at the very end closes the last line and opens none. -/
def lines (cs : List Char) : List (List Char) :=
  let pieces := splitAll '\n' cs
  let closed := pieces.dropLast.map fun piece =>
    if piece.getLast? == some '\r' then piece.dropLast else piece
  match pieces.getLast? with
  | some [] => closed
  | some piece => closed ++ [piece]
  | none => closed

theorem splitAll_ne_nil {α : Type} [BEq α] (sep : α) (xs : List α) : splitAll sep xs ≠ [] := by
  induction xs with
  | nil => simp [splitAll]
  | cons x xs ih =>
    unfold splitAll
    split
    · simp
    · split <;> simp

end ActionUnits.Text
