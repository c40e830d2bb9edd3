import ActionUnits.Source.Grammar.Attribute

/-!
# Imports
-/

namespace ActionUnits.Source

/-- Whether a name comes next that may stand in an import. -/
def isUseName : Peek :=
  isIdent.or (isOneOf ["self", "super", "crate", "try"])

/-- The name given to an import. -/
def useAlias : Parser Ident := do
  require (← peek (isIdent.or (isWord "_")))
  anyWord

/-- The tree of an import, at most so many levels deep. If `rootsInside` holds, a branch may start
with `::`; a tree with such a branch is accepted and kept unread. -/
def useTree : Nat → Bool → Parser (Option UseTree)
  | 0, _ => failure
  | depth + 1, rootsInside => do
    if ← peek isUseName then
      let name ← anyWord
      if ← op? "::" then return (← useTree depth false).map (.path name)
      else if ← word? "as" then return some (.rename name (← useAlias))
      else return some (.name name)
    else if ← op? "*" then return some .glob
    else
      group .brace do
        let trees ← commaList do
          let rooted ← if rootsInside then op? "::" else pure false
          let tree ← useTree depth (rootsInside && !rooted)
          return if rooted then none else tree
        return (trees.mapM id).map .group

/-- An import, after its attributes and visibility; `none` if it is kept unread. -/
def useItem (rootsInside : Bool) : Parser (Option Node) := do
  word "use"
  let rooted ← op? "::"
  let tree ← useTree (Token.sizeAll (← get).rest + 1) (rootsInside && !rooted)
  op ";"
  return tree.map (.useItem rooted)

end ActionUnits.Source
