import ActionUnits.Layout.Write
import ActionUnits.Print.Item

/-!
# Printing source files

The printer with its knot tied. It fails on a file with a part that no rule prints, and on no other.
-/

namespace ActionUnits.Print

open ActionUnits.Layout ActionUnits.Source

def rule (p : Printer) : Printer
  | .type => type p
  | .pattern => pattern p
  | .expr lineStart => expr p lineStart
  | .chain lineStart => chain p lineStart
  | .stmt last => stmt p last
  | .item => item p

/-- The printer, in which rules may refer to each other at most so many times in a row. -/
def printerTo : Nat → Printer
  | 0, _, _ => []
  | depth + 1, role, node => rule (printerTo depth) role node

/-- The text of a source file whose nodes nest at most so deep, unless a part of it has no rule. -/
def fileText? (depth : Nat) (node : Node) : Option String :=
  (file (printerTo depth) node).render?

end ActionUnits.Print
