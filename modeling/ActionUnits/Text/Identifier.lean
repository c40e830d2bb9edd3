import ActionUnits.Text.Table.Identifier

/-!
# Characters of identifiers

An identifier starts with a letter or an underscore and goes on with letters, digits, marks and
connectors; beyond ASCII the Unicode properties `XID_Start` and `XID_Continue` decide.
-/

namespace ActionUnits.Text

def isIdentStart (c : Char) : Bool :=
  c.isAlpha || c == '_' || (0x80 ≤ c.toNat && Table.identStart.covers c.toNat)

/-- Whether a character may stand inside an identifier. -/
def isIdentContinue (c : Char) : Bool :=
  c.isAlphanum || c == '_' ||
    (0x80 ≤ c.toNat && (Table.identStart.covers c.toNat || Table.identExtra.covers c.toNat))

theorem isIdentContinue_of_isIdentStart {c : Char} (h : isIdentStart c = true) :
    isIdentContinue c = true := by
  simp only [isIdentStart, isIdentContinue, Bool.or_eq_true, Bool.and_eq_true, Char.isAlphanum] at *
  rcases h with (h | h) | ⟨h, h'⟩
  · exact .inl (.inl (.inl h))
  · exact .inl (.inr h)
  · exact .inr ⟨h, .inl h'⟩

end ActionUnits.Text
