import ActionUnits.Text.Table.Visibility

/-!
# Visible characters

Which characters a quoted literal can show as they are, and which attach to the character before
them.
-/

namespace ActionUnits.Text

/-- Whether a character has a glyph or is the plain space. -/
def isVisible (c : Char) : Bool :=
  if c.toNat < 0x80 then 0x20 ≤ c.toNat && c.toNat < 0x7f
  else !Table.invisible.covers c.toNat

/-- Whether a character extends the cluster of the character before it. -/
def isExtending (c : Char) : Bool :=
  0x80 ≤ c.toNat && Table.extending.covers c.toNat

end ActionUnits.Text
