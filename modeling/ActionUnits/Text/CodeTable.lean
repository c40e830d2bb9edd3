/-!
# Tables of code points

A character class of the Unicode standard is written as an increasing list of closed ranges of
code points. Tables list what lies beyond ASCII only; each class decides its ASCII members by a
rule of its own, so statements about ASCII texts never look into a table.
-/

namespace ActionUnits.Text

/-- An increasing list of closed, disjoint ranges of code points. -/
abbrev CodeTable := List (Nat × Nat)

namespace CodeTable

/-- Whether a code point lies in one of the ranges. -/
def covers (table : CodeTable) (code : Nat) : Bool :=
  table.any fun range => range.1 ≤ code && code ≤ range.2

end CodeTable

/-- A run of code points that a case mapping moves by one common distance: the code points
`first`, `first + step`, … up to `last` go `shift` places up. -/
structure ShiftRun where
  first : Nat
  last : Nat
  step : Nat
  shift : Int

namespace ShiftRun

/-- Whether the run holds a code point. -/
def covers (run : ShiftRun) (code : Nat) : Bool :=
  run.first ≤ code && code ≤ run.last && (code - run.first) % run.step == 0

def image (run : ShiftRun) (code : Nat) : Char :=
  Char.ofNat (code + run.shift).toNat

end ShiftRun

end ActionUnits.Text
